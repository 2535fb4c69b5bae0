import WalletHub.Tracker.Monitor

/-!
# A monitor keeps up

A monitor remembers which version of each of its two lists it has read. Polled often enough it has read the
newest of both (`Monitor.polled_poll`), since every look reads a list that it had not read
(`Monitor.unread`), and what it has given last are then the ids that are enabled and managed
(`Monitor.last_of_upToDate`). A poll that gives nothing has found nothing that matters.

## What is proved

* `Provider.newer_enable`, `Tracker.newer_learn`, and their like: whatever is done to a list, its cell stays the
  same or gets a new version (`Watch.Newer`).
* `Watch.ReadBy.newer`: what was read of a cell stays what it had at that version.
* `Monitor.looked_look`: the two ends of a look.
* `Monitor.unread_lt_of_looked`: each look that reads leaves less unread, so that there are at most two in a row.
* `Monitor.polled_pollFor`, `Monitor.polled_poll`: a poll of three looks gives something new, or has read the
  newest of both lists.
* `Monitor.pollFor_cases`, `Monitor.poll_cases`: what can be said of a poll without knowing what was read before.
* `Monitor.last_of_upToDate`: a monitor that has read the newest of both lists has given the tracked ids.
-/

namespace WalletHub

/-! ### Readers of a cell -/

namespace Watch

variable {α : Type} {w w' : Watch α} {seen : Option Nat} {held : Option α}

/-- The cell was written, unless it is the same. -/
def Newer (w w' : Watch α) : Prop := w' = w ∨ w.version < w'.version

theorem newer_publish (w : Watch α) (a : α) : w.Newer (w.publish a) := Or.inr (Nat.lt_succ_self _)

/-- A reader has seen no version that is still to come, and holds the value if it has seen the newest. -/
structure ReadBy (w : Watch α) (seen : Option Nat) (held : Option α) : Prop where
  past : ∀ v, seen = some v → v ≤ w.version
  current : seen = some w.version → held = some w.value

theorem ReadBy.never (w : Watch α) (held : Option α) : w.ReadBy none held := ⟨nofun, nofun⟩

theorem ReadBy.now (w : Watch α) : w.ReadBy (some w.version) (some w.value) :=
  ⟨fun _ h => Nat.le_of_eq (Option.some.inj h).symm, fun _ => rfl⟩

/-- What is written later was not seen. -/
theorem ReadBy.newer (h : w.ReadBy seen held) (hw : w.Newer w') : w'.ReadBy seen held := by
  rcases hw with rfl | hw
  · exact h
  · constructor
    · intro v hv
      exact Nat.le_trans (h.past v hv) (Nat.le_of_lt hw)
    · intro hv
      exact absurd (h.past _ hv) (Nat.not_le_of_lt hw)

end Watch

namespace Provider

theorem newer_enable (id : String) (p : Provider) : p.enabled.Newer (p.enable id).enabled := by
  unfold enable
  split
  · exact Or.inl rfl
  · exact p.enabled.newer_publish _

theorem newer_disable (id : String) (p : Provider) : p.enabled.Newer (p.disable id).enabled := by
  unfold disable
  split
  · exact p.enabled.newer_publish _
  · exact Or.inl rfl

theorem newer_set (ids : List String) (p : Provider) : p.enabled.Newer (p.set ids).enabled :=
  p.enabled.newer_publish _

end Provider

namespace Tracker

theorem newer_add (id : String) (t : Tracker) : t.managed.Newer (t.add id).managed := by
  simp only [add]
  split
  · exact Or.inl rfl
  · exact t.managed.newer_publish _

theorem newer_remove (id : String) (t : Tracker) : t.managed.Newer (t.remove id).managed := by
  simp only [remove]
  split
  · exact t.managed.newer_publish _
  · exact Or.inl rfl

theorem newer_learn (c : Callback) (t : Tracker) : t.managed.Newer (t.learn c).managed := by
  unfold learn
  split
  · exact t.newer_add _
  · exact t.newer_remove _
  · exact t.newer_add _
  all_goals exact Or.inl rfl

end Tracker

namespace Monitor

variable {p p' : Provider} {t t' : Tracker} {m : Monitor}

/-- The monitor holds what it has read of the two lists, and has given nothing before it has read
both. -/
structure Reading (p : Provider) (t : Tracker) (m : Monitor) : Prop where
  enabled : p.enabled.ReadBy m.enabledSeen m.enabled
  managed : t.managed.ReadBy m.managedSeen m.managed
  first : m.tracked = none → m.last = none

/-- The monitor holds what it has read, and has given the tracked ids of it. -/
structure Sound (p : Provider) (t : Tracker) (m : Monitor) : Prop extends Reading p t m where
  given : m.last = m.tracked

/-- The monitor has read the newest of both lists. -/
def UpToDate (p : Provider) (t : Tracker) (m : Monitor) : Prop :=
  m.enabledSeen = some p.enabled.version ∧ m.managedSeen = some t.managed.version

/-- How many of the two lists are new to the monitor. -/
def unread (p : Provider) (t : Tracker) (m : Monitor) : Nat :=
  (if m.enabledSeen = some p.enabled.version then 0 else 1) +
    if m.managedSeen = some t.managed.version then 0 else 1

theorem unread_le (p : Provider) (t : Tracker) (m : Monitor) : m.unread p t ≤ 2 := by
  unfold unread
  split <;> split <;> omega

theorem sound_start (p : Provider) (t : Tracker) : start.Sound p t :=
  ⟨⟨.never _ _, .never _ _, fun _ => rfl⟩, rfl⟩

theorem Sound.newer (h : m.Sound p t) (hp : p.enabled.Newer p'.enabled) (ht : t.managed.Newer t'.managed) :
    m.Sound p' t' :=
  ⟨⟨h.enabled.newer hp, h.managed.newer ht, h.first⟩, h.given⟩

/-- **A monitor that has read the newest of both lists has given the tracked ids.** -/
theorem last_of_upToDate (h : m.Sound p t) (upToDate : m.UpToDate p t) :
    m.last = some (Tracker.tracked t.ids p.ids) := by
  simp only [h.given, tracked, h.enabled.current upToDate.1, h.managed.current upToDate.2]
  rfl

/-! ### One look -/

theorem readEnabled_eq (p : Provider) (m : Monitor) :
    m.readEnabled p = if m.enabledSeen = some p.enabled.version then none
      else some { m with enabled := some p.ids, enabledSeen := some p.enabled.version } := by
  unfold readEnabled Watch.read
  by_cases hseen : m.enabledSeen = some p.enabled.version
  · simp only [if_pos hseen]
  · simp only [if_neg hseen]
    rfl

theorem readManaged_eq (t : Tracker) (m : Monitor) :
    m.readManaged t = if m.managedSeen = some t.managed.version then none
      else some { m with managed := some t.ids, managedSeen := some t.managed.version } := by
  unfold readManaged Watch.read
  by_cases hseen : m.managedSeen = some t.managed.version
  · simp only [if_pos hseen]
  · simp only [if_neg hseen]
    rfl

/-- The end of a look: no list was new, or one was read that was. -/
inductive Looked (p : Provider) (t : Tracker) (m : Monitor) : Option Monitor × Monitor → Prop where
  | nothing (turn : Bool) (upToDate : m.UpToDate p t) : Looked p t m (none, { m with enabledFirst := turn })
  | enabled (turn : Bool) (turned : Monitor) (new : m.enabledSeen ≠ some p.enabled.version) :
      Looked p t m (some { m with
        enabledFirst := turn, enabled := some p.ids, enabledSeen := some p.enabled.version }, turned)
  | managed (turn : Bool) (turned : Monitor) (new : m.managedSeen ≠ some t.managed.version) :
      Looked p t m (some { m with
        enabledFirst := turn, managed := some t.ids, managedSeen := some t.managed.version }, turned)

theorem looked_look (p : Provider) (t : Tracker) (m : Monitor) : Looked p t m (m.look p t) := by
  simp only [look, readEnabled_eq, readManaged_eq]
  by_cases henabled : m.enabledSeen = some p.enabled.version
  · by_cases hmanaged : m.managedSeen = some t.managed.version
    · simp only [henabled, hmanaged, if_true, Option.or_none, ite_self]
      rw [← henabled, ← hmanaged]
      exact .nothing _ ⟨henabled, hmanaged⟩
    · simp only [henabled, hmanaged, if_true, if_false, Option.or_none, Option.none_or, ite_self]
      rw [← henabled]
      exact .managed _ _ hmanaged
  · by_cases hmanaged : m.managedSeen = some t.managed.version
    · simp only [henabled, hmanaged, if_true, if_false, Option.or_none, Option.none_or, ite_self]
      rw [← hmanaged]
      exact .enabled _ _ henabled
    · simp only [henabled, hmanaged, if_false, Option.some_or]
      split
      · exact .enabled _ _ henabled
      · exact .managed _ _ hmanaged

/-- **A look that reads leaves less unread.** -/
theorem unread_lt_of_looked {read turned : Monitor} (looked : Looked p t m (some read, turned)) :
    read.unread p t < m.unread p t := by
  cases looked with
  | enabled turn _ new =>
    simp only [unread, if_neg new, if_true]
    omega
  | managed turn _ new =>
    simp only [unread, if_neg new, if_true]
    omega

/-- What a look reads is held. -/
theorem reading_of_looked {read turned : Monitor} (h : m.Sound p t) (looked : Looked p t m (some read, turned)) :
    read.Reading p t ∧ read.last = m.last := by
  have hfirst (hnone : m.enabled = none ∨ m.managed = none) : m.last = none := by
    rw [h.given, tracked]
    rcases hnone with hnone | hnone
    · rw [hnone]
    · rw [hnone]
      cases m.enabled <;> rfl
  cases looked with
  | enabled turn _ new =>
    refine ⟨⟨.now _, h.managed, ?_⟩, rfl⟩
    intro hnone
    apply hfirst
    cases hmanaged : m.managed with
    | none => exact Or.inr rfl
    | some ids => simp [tracked, hmanaged] at hnone
  | managed turn _ new =>
    refine ⟨⟨h.enabled, .now _, ?_⟩, rfl⟩
    intro hnone
    apply hfirst
    cases henabled : m.enabled with
    | none => exact Or.inl rfl
    | some ids => simp [tracked, henabled] at hnone

/-! ### Polls -/

/-- What is given is the tracked ids, and nothing more is read for it. -/
theorem of_change_eq_some {ids : List String} {m' : Monitor} (changed : m.change = some (ids, m')) :
    m.tracked = some ids ∧ m' = { m with last := some ids } := by
  unfold change at changed
  split at changed
  · next htracked =>
    split at changed
    · cases changed
    · obtain ⟨rfl, rfl⟩ := Prod.mk.inj (Option.some.inj changed)
      exact ⟨htracked, rfl⟩
  · cases changed

/-- What was given is the tracked ids, whether or not they had changed. -/
theorem sound_of_change_eq_some {ids : List String} {m' : Monitor} (h : m.Reading p t)
    (changed : m.change = some (ids, m')) : m'.Sound p t := by
  obtain ⟨htracked, rfl⟩ := of_change_eq_some changed
  exact ⟨⟨h.enabled, h.managed, fun hnone => nomatch htracked.symm.trans hnone⟩, htracked.symm⟩

theorem sound_of_change_eq_none (h : m.Reading p t) (same : m.change = none) : m.Sound p t := by
  refine ⟨h, ?_⟩
  unfold change at same
  cases htracked : m.tracked with
  | none => exact h.first htracked
  | some current =>
    simp only [htracked] at same
    split at same
    · assumption
    · exact nomatch same

/-- The end of a poll: it gives the tracked ids, and leaves less unread; or it gives nothing, and has read
all. -/
inductive Polled (p : Provider) (t : Tracker) (m : Monitor) : Poll (List String) × Monitor → Prop where
  | item {m' : Monitor} (ids : List String) (sound : m'.Sound p t) (less : m'.unread p t < m.unread p t) :
      Polled p t m (.item ids, m')
  | pending {m' : Monitor} (sound : m'.Sound p t) (upToDate : m'.UpToDate p t) (same : m'.last = m.last) :
      Polled p t m (.pending, m')

theorem polled_pollFor {looks : Nat} (h : m.Sound p t) (enough : m.unread p t < looks) :
    Polled p t m (m.pollFor p t looks) := by
  induction looks generalizing m with
  | zero => exact absurd enough (Nat.not_lt_zero _)
  | succ looks ih =>
    have hlooked := looked_look p t m
    rw [pollFor]
    generalize m.look p t = result at hlooked
    obtain ⟨found, turned⟩ := result
    cases found with
    | none =>
      cases hlooked with
      | nothing turn upToDate => exact .pending ⟨⟨h.enabled, h.managed, h.first⟩, h.given⟩ upToDate rfl
    | some read =>
      obtain ⟨hreading, hlast⟩ := reading_of_looked h hlooked
      have hless := unread_lt_of_looked hlooked
      simp only
      split
      · next ids given hchange =>
        have hsound := sound_of_change_eq_some hreading hchange
        obtain ⟨-, rfl⟩ := of_change_eq_some hchange
        exact .item ids hsound hless
      · next hchange =>
        have hsound := sound_of_change_eq_none hreading hchange
        have hrest := ih hsound (by omega)
        generalize read.pollFor p t looks = result at hrest
        cases hrest with
        | item ids sound less => exact .item ids sound (Nat.lt_trans less hless)
        | pending sound upToDate same => exact .pending sound upToDate (same.trans hlast)

/-- A poll that gives something has left less unread, whatever the monitor holds. Otherwise it waits. -/
theorem pollFor_cases (p : Provider) (t : Tracker) (looks : Nat) (m : Monitor) :
    (∃ ids m', m.pollFor p t looks = (.item ids, m') ∧ m'.unread p t < m.unread p t) ∨
      ∃ m', m.pollFor p t looks = (.pending, m') := by
  induction looks generalizing m with
  | zero => exact Or.inr ⟨m, rfl⟩
  | succ looks ih =>
    have hlooked := looked_look p t m
    rw [pollFor]
    generalize m.look p t = result at hlooked
    obtain ⟨found, turned⟩ := result
    cases found with
    | none => exact Or.inr ⟨turned, rfl⟩
    | some read =>
      have hless := unread_lt_of_looked hlooked
      simp only
      split
      · next ids given hchange =>
        obtain ⟨-, rfl⟩ := of_change_eq_some hchange
        exact Or.inl ⟨ids, _, rfl, hless⟩
      · rcases ih read with ⟨ids, m', hitem, hrest⟩ | hpending
        · exact Or.inl ⟨ids, m', hitem, Nat.lt_trans hrest hless⟩
        · exact Or.inr hpending

theorem poll_cases (p : Provider) (t : Tracker) (m : Monitor) :
    (∃ ids m', m.poll p t = (.item ids, m') ∧ m'.unread p t < m.unread p t) ∨
      ∃ m', m.poll p t = (.pending, m') :=
  pollFor_cases p t 3 m

/-- **Three looks are enough** for a poll. -/
theorem polled_poll (h : m.Sound p t) : Polled p t m (m.poll p t) :=
  polled_pollFor h (Nat.lt_succ_of_le (unread_le p t m))

end Monitor

end WalletHub
