import WalletHub.Proofs.World.Threads

/-!
# The newest list of wallets

An open hub publishes its wallets whenever they change. A callback does it when it is delivered. Its
delivery is one step of a run: whatever changes the wallets in the course of it lines up a job behind it, and
that job publishes the list once more. The task of the hub publishes the wallets as well, when the tracked
wallets have changed, but it reads the list first and publishes it later, and no job waits for it. What it
publishes may by then be older than what was published last, and as nothing else waits to be published the
older list stays the newest of the channel (`World.Outdated`), until something changes again.

## What is proved

* `World.outdated_snoc`: what a tick does to this: the channel is outdated after it if a task has released
  an old list by it, or if it was so before and nothing was published.
* `Threads.newest`: where an open hub has nothing waiting for delivery the newest list of the channel is that
  of its system exactly if the channel is not outdated.

So a list that is not the one of the system is always one that a task has released late. Where the task runs
as a unit there are none, and `Hub.Announced` says the same of such runs.
-/

namespace WalletHub

open MemorySystem (TellWallets)

namespace World

/-- A task has published a list of wallets that the system of the hub had no more, in one of these ticks, and
nothing was published on the channel of the wallets since then. -/
def Outdated (w : MemoryWorld) (ticks : List Tick) : Prop :=
  ∃ before b after h ws h', ticks = before ++ b :: after ∧ (w.through before).hub = some h ∧
    h.release b = some ws ∧ ws ≠ h.wallets ∧ (w.through ticks).hub = some h' ∧
    h'.board.wallets = h.board.wallets.offer ws

variable {w : MemoryWorld} {before after : List Tick} {h h' : Hub MemorySystem}

/-- A hub that is there in the end was there all the time. -/
theorem kept_through (kept : (w.through (before ++ after)).dropped = w.dropped) :
    (w.through before).dropped = w.dropped := by
  have first := Threads.through w before (possible_of_forall (fun _ _ _ => trivial) _ _)
  have rest := Threads.through (w.through before) after (possible_of_forall (fun _ _ _ => trivial) _ _)
  rw [through_append] at kept
  exact Nat.le_antisymm (kept ▸ rest.dropped_le) first.dropped_le

/-- It has at least what it had published before. -/
theorem grown_through (hub : (w.through before).hub = some h)
    (kept : (w.through (before ++ after)).dropped = w.dropped)
    (hub' : (w.through (before ++ after)).hub = some h') : h.board.Grown h'.board := by
  have hkept := kept_through kept
  have rest := Threads.through (w.through before) after (possible_of_forall (fun _ _ _ => trivial) _ _)
  rw [through_append] at kept hub'
  obtain ⟨h'', hh'', hgrown⟩ := rest.grown (kept.trans hkept.symm) hub
  obtain rfl := Option.some.inj (hub'.symm.trans hh'')
  exact hgrown

/-- What a task releases is published. -/
theorem exists_release {b : Tick} {ws : List Wallet} (hub : w.hub = some h) (released : h.release b = some ws) :
    ∃ h', (w.tick b).hub = some h' ∧ h'.board.wallets = h.board.wallets.offer ws := by
  have hstride : w.Stride b (w.tick b) := by
    cases b with
    | move m => cases released
    | task => exact .task
    | leaving i => exact .leaving i
  rcases hstride.cases with ⟨hnone, -⟩ | ⟨h₁, h', log, hh₁, hstride, htick⟩
  · exact nomatch hnone.symm.trans hub
  · obtain rfl := Option.some.inj (hh₁.symm.trans hub)
    refine ⟨h', by rw [htick]; rfl, ?_⟩
    rw [hstride.board, released]
    rfl

/-- **When the channel of the wallets is outdated**: a task has just released an old list, or the channel was
outdated before and nothing was published on it. -/
theorem outdated_snoc {ticks : List Tick} {b : Tick} (hub : (w.through ticks).hub = some h)
    (hub' : (w.through (ticks ++ [b])).hub = some h')
    (kept : (w.through (ticks ++ [b])).dropped = w.dropped) :
    w.Outdated (ticks ++ [b]) ↔
      (∃ ws, h.release b = some ws ∧ ws ≠ h.wallets) ∨ h'.board.wallets = h.board.wallets ∧ w.Outdated ticks := by
  constructor
  · rintro ⟨before, b₀, after, h₀, ws, h'', hticks, hh₀, hreleased, hold, hh'', hoffered⟩
    obtain rfl := Option.some.inj (hh''.symm.trans hub')
    rcases List.eq_nil_or_concat after with rfl | ⟨after, last, rfl⟩
    · obtain ⟨rfl, hb⟩ := List.append_inj' hticks rfl
      obtain rfl := (List.cons.inj hb).1
      obtain rfl := Option.some.inj (hh₀.symm.trans hub)
      exact Or.inl ⟨ws, hreleased, hold⟩
    · rw [List.concat_eq_append, ← List.cons_append, ← List.append_assoc] at hticks
      obtain ⟨rfl, -⟩ := List.append_inj' hticks rfl
      have hgrown := (grown_through hub kept hub').wallets
      obtain ⟨h₁, hh₁, hoffered₁⟩ := exists_release hh₀ hreleased
      have hnext : (w.through (before ++ [b₀])).hub = some h₁ := by rwa [through_append]
      have hsplit : before ++ b₀ :: after = (before ++ [b₀]) ++ after := by rw [List.append_assoc]; rfl
      rw [hsplit] at hub kept
      have hgrown₁ := (grown_through hnext (kept_through kept) hub).wallets
      rw [hoffered₁, ← hoffered] at hgrown₁
      have hsame := hgrown.eq_of_version_le hgrown₁.version_le
      refine Or.inr ⟨hsame, before, b₀, after, h₀, ws, h, rfl, hh₀, hreleased, hold, ?_, hsame ▸ hoffered⟩
      rw [hsplit, hub]
  · rintro (⟨ws, hreleased, hold⟩ | ⟨hsame, before, b₀, after, h₀, ws, h'', rfl, hh₀, hreleased, hold, hh'', hoffered⟩)
    · obtain ⟨h₁, hh₁, hoffered⟩ := exists_release hub hreleased
      have hnext : (w.through (ticks ++ [b])).hub = some h₁ := by rwa [through_append]
      exact ⟨ticks, b, [], h, ws, h₁, rfl, hub, hreleased, hold, hnext, hoffered⟩
    · obtain rfl := Option.some.inj (hh''.symm.trans hub)
      refine ⟨before, b₀, after ++ [b], h₀, ws, h', ?_, hh₀, hreleased, hold, hub', hsame.trans hoffered⟩
      rw [List.append_assoc, List.cons_append]

end World

namespace Threads

variable {allowed : MemoryWorld → Move → Reply → Prop} {start w w' : MemoryWorld} {ticks : List Tick} {past : Past}
  {h h' : Hub MemorySystem}

/-- An open hub has a system, and a callback waits that will publish its wallets, or they are the newest
published unless the channel is outdated. -/
def Newest (start : MemoryWorld) (ticks : List Tick) (h : Hub MemorySystem) : Prop :=
  h.isOpen = true → ∃ s, h.handle = some s ∧ (TellWallets s.queue ∨
    ∃ ws, h.board.wallets.latest = some ws ∧ (ws = s.wallets ↔ ¬start.Outdated ticks))

namespace Newest

variable {b : Tick}

theorem closed (closed : h.isOpen = false) : Newest start ticks h := fun isOpen => nomatch closed.symm.trans isOpen

/-- Where the wallets that the system has are published the channel is not outdated, and where nothing is
published it is as before. -/
theorem informed (newest : Newest start ticks h) (hub : (start.through ticks).hub = some h)
    (hub' : (start.through (ticks ++ [b])).hub = some h')
    (kept : (start.through (ticks ++ [b])).dropped = start.dropped) (unreleased : h.release b = none)
    (informed : h'.isOpen = true → h.Informed h') : Newest start (ticks ++ [b]) h' := by
  intro isOpen
  have hsnoc := World.outdated_snoc hub hub' kept
  simp only [unreleased, reduceCtorEq, false_and, exists_false, false_or] at hsnoc
  cases informed isOpen with
  | @published s c kept' grown offered =>
    refine ⟨s, kept', Or.inr ⟨s.wallets, by rw [offered]; rfl, iff_of_true rfl ?_⟩⟩
    rw [hsnoc]
    rintro ⟨hsame, -⟩
    have hversion := grown.version_le
    rw [← hsame, offered, Channel.version_offer] at hversion
    omega
  | awaiting wasOpen silent told =>
    obtain ⟨s, hs, hnewest⟩ := newest wasOpen
    obtain ⟨s', hs', hstill, hnew⟩ := told s hs
    refine ⟨s', hs', ?_⟩
    rcases hnewest with hwaits | ⟨ws, hlatest, hiff⟩
    · exact Or.inl (hstill hwaits)
    · rcases hnew with hsame | hwaits
      · refine Or.inr ⟨ws, silent ▸ hlatest, ?_⟩
        rw [hsnoc, and_iff_right silent, hsame, hiff]
      · exact Or.inl hwaits

/-- A task that releases a list makes the channel outdated if the list is an old one. -/
theorem stride (newest : Newest start ticks h) (hub : (start.through ticks).hub = some h)
    (hub' : (start.through (ticks ++ [b])).hub = some h')
    (kept : (start.through (ticks ++ [b])).dropped = start.dropped) {p : Provider} {t : Tracker}
    (stride : h.Stride p t b h') : Newest start (ticks ++ [b]) h' := by
  obtain ⟨hopen, hhandle, -⟩ := stride.fields
  cases hreleased : h.release b with
  | none =>
    have hboard := stride.board
    rw [hreleased, Hub.publish] at hboard
    refine newest.informed hub hub' kept hreleased fun isOpen => ?_
    exact .awaiting (hopen ▸ isOpen) (congrArg Board.wallets hboard) fun s hs => ⟨s, hhandle.trans hs, id, Or.inl rfl⟩
  | some ws =>
    intro isOpen
    obtain ⟨s, hs, hnewest⟩ := newest (hopen ▸ isOpen)
    have hoffered : h'.board.wallets = h.board.wallets.offer ws := by
      rw [stride.board, hreleased]
      rfl
    have hwallets : h.wallets = s.wallets := by
      rw [Hub.wallets, hs]
      rfl
    refine ⟨s, hhandle.trans hs, hnewest.imp_right fun _ => ⟨ws, by rw [hoffered]; rfl, ?_⟩⟩
    have hnewer : h'.board.wallets ≠ h.board.wallets := by
      intro hsame
      have hversion := congrArg Watch.version hsame
      rw [hoffered, Channel.version_offer] at hversion
      omega
    rw [World.outdated_snoc hub hub' kept, hreleased, ← hwallets]
    simp only [Option.some.injEq, exists_eq_left', hnewer, false_and, or_false, ne_eq,
      Classical.not_not]

end Newest

/-- **The newest list is the one of the system unless the channel is outdated**, or a callback waits. -/
theorem newest (threads : Threads unbroken start ticks past w) (kept : w.dropped = start.dropped)
    (first : ∀ h, start.hub = some h → h.isOpen = false) : ∀ h, w.hub = some h → Newest start ticks h := by
  induction threads with
  | start => exact fun h hh => .closed (first h hh)
  | @move ticks past w w' threads m r moved ok ih =>
    have hbefore : w.dropped = start.dropped :=
      Nat.le_antisymm (kept ▸ (Upshot.upshot_go moved).dropped_le) threads.dropped_le
    have hsnoc := threads.move moved ok
    intro h' hh'
    have hmoved : w.move m = (r, w') := (World.go_eq_move w m).symm.trans moved
    rcases (Effect.effect_move hmoved).scene_cases with ⟨x, x', hx, hx', hchange⟩ | ⟨-, hnew⟩
    · obtain ⟨h, hh, rfl⟩ := Option.map_eq_some_iff.mp hx
      obtain ⟨h'', hh'', rfl⟩ := Option.map_eq_some_iff.mp hx'
      obtain rfl := Option.some.inj (hh''.symm.trans hh')
      rw [threads.eq_through] at hh
      rw [hsnoc.eq_through] at hh' kept
      refine Newest.informed (ih hbefore h (threads.eq_through ▸ hh)) hh hh' kept rfl fun isOpen => ?_
      generalize w'.tracker = t at hchange
      generalize w'.provider = p at hchange
      cases hchange with
      | ids => exact .awaiting isOpen rfl fun s hs => ⟨s, hs, id, Or.inl rfl⟩
      | hub _ change => exact Hub.informed_of_change change isOpen
      | lose broke => exact absurd broke ok
    · obtain ⟨config, p, t, hcreate⟩ := hnew _ (World.scene_of_hub hh')
      obtain rfl := congrArg Scene.hub hcreate
      exact .closed rfl
  | @stride ticks past w w' threads b stride ih =>
    intro h' hh'
    have hsnoc := threads.stride stride
    rcases stride.cases with ⟨hnone, rfl⟩ | ⟨h, h₁, log, hh, hstride, rfl⟩
    · exact nomatch hnone.symm.trans hh'
    · obtain rfl := Option.some.inj hh'
      have hholds := ih kept h hh
      rw [threads.eq_through] at hh
      exact hholds.stride hh (by rw [← hsnoc.eq_through]; rfl) (by rw [← hsnoc.eq_through]; exact kept) hstride

end Threads

end WalletHub
