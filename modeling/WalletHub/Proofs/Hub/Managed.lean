import WalletHub.Proofs.Hub.Refused
import WalletHub.Proofs.Hub.Tracking
import WalletHub.Proofs.Subscription.Asking
import WalletHub.Proofs.World.Closed

/-!
# The managed currencies of a hub

From the first opening of a hub on the tracker will know of just the wallets that there are, whether the hub is
open or has been closed. Before it, wallets that the system had from the start may be unknown, but then their
managers are not connected, and the opening will tell of them (`Scene.Managed`). So wherever nothing waits to be
delivered the managed ids are those of the wallets (`Run.managed_ids_iff`).

All this is about one hub: a system that comes after another, of a hub that was dropped, begins with a tracker
that knows of wallets that are gone.

## What is proved

* `Run.scene_keeps`: what every change of a hub keeps, in view of the past, holds of the hub in the whole run,
  from the making of the hub on. It packs the induction over runs for all properties of this kind.
* `Scene.Managed.launch`, `Scene.Managed.change`: the invariant is kept by an opening and by every other change,
  and an opening makes all wallets known.
* `Scene.ManagedAfter.move`, `Run.managed`: it holds of every hub in every run in which nothing breaks off.
* `Run.managed_ids_iff`: wherever nothing waits, after the first opening, the managed ids are exactly the
  identifiers of the wallets.
* `closed_hub_is_managed`: so it is of a hub that had a wallet before it was opened, lost it, and was closed.
-/

namespace WalletHub

open MemorySystem (Apart)

/-! ### The moves of one hub -/

/-- **What every change keeps holds of the hub as long as it is there**, in view of the past. -/
theorem Run.scene_keeps {allowed : MemoryWorld → Move → Reply → Prop} {start w : MemoryWorld} {past : Past}
    (run : Run allowed start past w) (kept : w.dropped = start.dropped) {x₀ : Scene}
    (hx₀ : start.scene = some x₀) (holds : Past → Scene → Prop) (first : holds [] x₀)
    (keep : ∀ {past w m r w' x x'}, allowed w m r → w.move m = (r, w') → w.scene = some x →
      w'.scene = some x' → holds past x → x.Change w m r w' x' → holds (past ++ [(m, r)]) x') :
    ∃ x, w.scene = some x ∧ holds past x := by
  induction run with
  | start => exact ⟨x₀, hx₀, first⟩
  | @move past w w' run m r moved ok ih =>
    have hlast : w.dropped ≤ w'.dropped :=
      (Upshot.upshot_go ((World.go_eq_move w m).trans moved)).dropped_le
    have hbefore : w.dropped = start.dropped := Nat.le_antisymm (kept ▸ hlast) run.course.dropped_le
    obtain ⟨x, hx, hholds⟩ := ih hbefore
    rcases (Effect.effect_move moved).scene_cases with ⟨x₁, x', hx₁, hx', hchange⟩ | ⟨hgone | hdropped, -⟩
    · obtain rfl := Option.some.inj (hx₁.symm.trans hx)
      exact ⟨x', hx', keep ok moved hx hx' hholds hchange⟩
    · exact nomatch hgone.symm.trans hx
    · exact absurd (hdropped.symm.trans (kept.trans hbefore.symm)) (Nat.succ_ne_self _)

namespace Tracker

variable {s : MemorySystem} {t : Tracker}

/-- A system that is disconnected keeps its managers, and so the tracker will know of them as before. -/
theorem Knows.keeps_disconnect {opened : Bool} (h : t.Knows opened s) : t.Knows opened s.disconnect := by
  obtain ⟨jobs, hqueue, hheralded⟩ :=
    MemorySystem.heralded_of_turns (MemorySystem.turns_of_disconnect s) nofun
  exact h.heralded hqueue hheralded

theorem Sound.connect (h : t.Sound s) : t.Sound s.connect := by
  obtain ⟨jobs, hqueue, htruthful⟩ := MemorySystem.truthful_of_turns (MemorySystem.turns_of_connect s) nofun
  exact h.truthful hqueue htruthful

theorem Sound.disconnect (h : t.Sound s) : t.Sound s.disconnect := by
  obtain ⟨jobs, hqueue, htruthful⟩ :=
    MemorySystem.truthful_of_turns (MemorySystem.turns_of_disconnect s) nofun
  exact h.truthful hqueue htruthful

end Tracker

/-! ### What the tracker will know of a hub -/

namespace Scene

/-- The tracker will know of no wallet that is not there, and of all that are; but as long as the hub was never
`opened` those may be unknown whose managers are not connected. -/
structure Managed (opened : Bool) (x : Scene) : Prop where
  /-- The tracker knows of nothing before there is a system. -/
  blank : x.hub.handle = none → x.tracker.ids = []
  holds : opened = true → x.hub.handle.isSome = true
  sound : ∀ s, x.hub.handle = some s → x.tracker.Sound s
  knows : ∀ s, x.hub.handle = some s → x.tracker.Knows opened s

namespace Managed

variable {opened : Bool} {hub hub' : Hub MemorySystem} {p p' : Provider} {t t' : Tracker} {s : MemorySystem}

theorem create (config : Config) (p : Provider) : Managed false ⟨.create config, p, .start⟩ :=
  ⟨fun _ => rfl, nofun, nofun, nofun⟩

/-- Only the system and the tracker matter. -/
theorem of_handle (kept : hub.handle = some s) (sound : t.Sound s) (knows : t.Knows opened s) :
    Managed opened ⟨hub, p, t⟩ where
  blank bare := nomatch kept.symm.trans bare
  holds _ := by rw [kept, Option.isSome_some]
  sound s' hs' := by
    obtain rfl := Option.some.inj (kept.symm.trans hs')
    exact sound
  knows s' hs' := by
    obtain rfl := Option.some.inj (kept.symm.trans hs')
    exact knows

theorem of_same (h : Managed opened ⟨hub, p, t⟩) (handle : hub'.handle = hub.handle) :
    Managed opened ⟨hub', p', t⟩ where
  blank bare := h.blank (handle.symm.trans bare)
  holds hopened := handle ▸ h.holds hopened
  sound s hs := h.sound s (handle.symm.trans hs)
  knows s hs := h.knows s (handle.symm.trans hs)

/-- What the tracker will know of a hub that was opened it need not have been. -/
theorem weaken (h : Managed true ⟨hub, p, t⟩) (opened : Bool) : Managed opened ⟨hub, p, t⟩ where
  blank := h.blank
  holds _ := h.holds rfl
  sound := h.sound
  knows s hs w hw := by
    rcases h.knows s hs w hw with hexpects | ⟨hnever, -⟩
    · exact Or.inl hexpects
    · exact nomatch hnever

/-- What the tracker will know of the system with which the hub is opened: of the one that it has what it did
before, and of a new one nothing. -/
theorem obtained (h : Managed opened ⟨hub, p, t⟩) {account : Account} {seeds : List Currency} {disk : Disk}
    (kept : hub.handle = some s ∨ hub.handle = none ∧ Hub.New hub.config account seeds disk s)
    (written : hub.handle = none →
      MemorySystem.Written disk (StoredWallets.file hub.config.storageDirectory)) :
    t.Sound s ∧ t.Knows opened s := by
  rcases kept with hkept | ⟨hbare, new⟩
  · exact ⟨h.sound s hkept, h.knows s hkept⟩
  · refine ⟨.blank (h.blank hbare) new.queue, fun w hw => Or.inr ⟨?_, new.unconnected (written hbare) w hw⟩⟩
    rw [← Bool.not_eq_true]
    intro hopened
    have hheld : hub.handle.isSome = true := h.holds hopened
    rw [hbare] at hheld
    exact nomatch hheld

/-- **An opening that goes through makes all wallets known.** -/
theorem launch (session : Session) (sound : t.Sound s) (knows : t.Knows opened s) :
    Managed true ⟨hub.launch session s, p, t⟩ :=
  of_handle rfl sound.connect knows.connect

/-- **Every change keeps what the tracker will know**, where nothing breaks off; and after an opening it will
know of all wallets. -/
theorem change {x x' : Scene} {w w' : MemoryWorld} {m : Move} {r : Reply} (h : x.Managed opened)
    (hx : w.scene = some x) (hc : x.Change w m r w' x') (ok : unbroken w m r) (found : findsWritten w m r)
    (apart : keepsApart w m r) (alone : untold w m r) :
    x'.Managed opened ∧ (x.hub.isOpen = false → x'.hub.isOpen = true → x'.Managed true) := by
  obtain ⟨hub, hhub, rfl⟩ := Option.map_eq_some_iff.mp hx
  have hstays {x' : Scene} (h' : x'.Managed opened) (isOpen : x'.hub.isOpen = hub.isOpen) :
      x'.Managed opened ∧ (hub.isOpen = false → x'.hub.isOpen = true → x'.Managed true) :=
    ⟨h', fun hclosed hopen => nomatch hopen.symm.trans (isOpen.trans hclosed)⟩
  cases hc with
  | lose broke => exact absurd broke ok
  | ids p t provider tracker =>
    obtain rfl : t = w.tracker := tracker.resolve_right fun ⟨c, hm⟩ => alone c hm
    exact hstays (h.of_same rfl) rfl
  | @hub h' cause t change caused tracker =>
    subst tracker
    cases change with
    | launch session s closed kept =>
      cases caused with
      | opening account tracker =>
        rw [tracker]
        obtain ⟨hsound, hknows⟩ := h.obtained kept (found _ hub rfl hhub)
        have hopened : Managed true ⟨hub.launch w.nextSession s, w.provider, w.tracker⟩ :=
          .launch _ hsound hknows
        exact ⟨hopened.weaken opened, fun _ _ => hopened⟩
    | hold s closed bare new =>
      cases caused with
      | opening account tracker =>
        rw [tracker]
        obtain ⟨hsound, hknows⟩ := h.obtained (Or.inr ⟨bare, new⟩) (found _ hub rfl hhub)
        exact hstays (.of_handle rfl hsound hknows) rfl
    | close s isOpen kept =>
      cases caused with
      | closing tracker =>
        rw [tracker]
        exact ⟨.of_handle rfl (h.sound s kept).disconnect (h.knows s kept).keeps_disconnect,
          fun _ hopen => nomatch hopen⟩
    | closeBare isOpen bare =>
      cases caused with
      | closing tracker =>
        rw [tracker]
        exact ⟨h.of_same rfl, fun _ hopen => nomatch hopen⟩
    | command s s' now c kept run =>
      cases caused with
      | command _ tracker =>
        rw [tracker]
        have hapart : ∀ code, c = .removeWallet code → Apart s.wallets := by
          rintro code rfl
          exact apart code hub s rfl hhub kept
        exact hstays (.of_handle rfl ((h.sound s kept).run run hapart) ((h.knows s kept).run run hapart)) rfl
    | finish s jobs kept queue =>
      cases caused with
      | ending tracker =>
        rw [tracker]
        exact hstays (.of_handle rfl ((h.sound s kept).ended queue) ((h.knows s kept).ended queue)) rfl
    | deliver s callback job jobs kept queue =>
      cases caused with
      | callback _ tracker =>
        rw [tracker]
        obtain ⟨hopen, hhandle, -⟩ :=
          Hub.receive_fields callback { hub with handle := some { s with queue := job :: jobs } }
        exact hstays (.of_handle hhandle ((h.sound s kept).learn queue) ((h.knows s kept).learn queue)) hopen
    | task p t =>
      cases caused with
      | task tracker =>
        rw [tracker]
        obtain ⟨hopen, hhandle, -⟩ := Hub.runSession_fields w.provider w.tracker hub
        exact hstays (h.of_same hhandle) hopen

end Managed

end Scene

/-! ### Runs -/

/-- An opening that goes through opens a closed hub. -/
theorem World.opened_of_ok {w w' : MemoryWorld} {h : Hub MemorySystem} {account : Account} (hub : w.hub = some h)
    (moved : w.move (.act (.openHub account)) = (.ok, w')) :
    h.isOpen = false ∧ ∃ h', w'.hub = some h' ∧ h'.isOpen = true := by
  obtain ⟨hanswer, hhub⟩ := World.openFor_eq hub account
  have hend := Hub.opening_openFor account w.nextSession h w.surroundings
  have hreply : lifecycleReply (w.openFor account).1 = .ok := congrArg Prod.fst moved
  obtain rfl : (w.openFor account).2 = w' := congrArg Prod.snd moved
  generalize (h.openFor account w.nextSession w.surroundings).1 = answer at hend hanswer
  generalize (h.openFor account w.nextSession w.surroundings).2.1 = h' at hend hhub
  generalize (h.openFor account w.nextSession w.surroundings).2.2 = e at hend
  cases hend with
  | launched closed => exact ⟨closed, _, hhub, rfl⟩
  | alreadyOpen | emptyAccount | noDirectory | notObtained | mismatch =>
    rw [hanswer] at hreply
    exact nomatch hreply

/-- What the tracker will know of a hub with this past. -/
def Scene.ManagedAfter (past : Past) (x : Scene) : Prop :=
  ∃ opened, x.Managed opened ∧ ((∃ account, (.act (.openHub account), .ok) ∈ past) → opened = true)

theorem Scene.ManagedAfter.move {past : Past} {w w' : MemoryWorld} {m : Move} {r : Reply} {x x' : Scene}
    (h : x.ManagedAfter past) (moved : w.move m = (r, w')) (hx : w.scene = some x) (hx' : w'.scene = some x')
    (hc : x.Change w m r w' x') (ok : undisturbed w m r) (unbroken : unbroken w m r) :
    x'.ManagedAfter (past ++ [(m, r)]) := by
  obtain ⟨opened, hmanaged, hopened⟩ := h
  obtain ⟨-, halone, hfinds, hapart⟩ := ok
  obtain ⟨hsame, hopening⟩ := hmanaged.change hx hc unbroken hfinds hapart halone
  by_cases hlaunch : ∃ account, m = .act (.openHub account) ∧ r = .ok
  · obtain ⟨account, rfl, rfl⟩ := hlaunch
    obtain ⟨hub, hhub, rfl⟩ := Option.map_eq_some_iff.mp hx
    obtain ⟨hclosed, hub', hhub', hopen⟩ := World.opened_of_ok hhub moved
    obtain rfl := Option.some.inj ((World.scene_of_hub hhub').symm.trans hx')
    exact ⟨true, hopening hclosed hopen, fun _ => rfl⟩
  · refine ⟨opened, hsame, ?_⟩
    rintro ⟨account, hmem⟩
    rcases List.mem_append.mp hmem with hbefore | hlast
    · exact hopened ⟨account, hbefore⟩
    · obtain ⟨rfl, rfl⟩ := Prod.mk.inj (List.mem_singleton.mp hlast)
      exact absurd ⟨account, rfl, rfl⟩ hlaunch

section

variable {config : Config} {factory : MemoryFactory} {disk : Disk} {wall : Instant} {enabled : List String}
  {past : Past} {w : MemoryWorld}

/-- Once the hub was opened the tracker will know of just the wallets that there are. -/
theorem Run.managed (run : Run undisturbed (.start config factory disk wall enabled true) past w)
    (kept : w.dropped = 0) : ∃ x, w.scene = some x ∧ x.ManagedAfter past := by
  obtain ⟨-, hcalm⟩ := run.calm rfl fun w m r hm => hm.1
  refine hcalm.scene_keeps kept rfl Scene.ManagedAfter ?_ ?_
  · exact ⟨false, .create config _, fun ⟨_, hmem⟩ => nomatch hmem⟩
  · rintro past w m r w' x x' ⟨ok, -, hunbroken⟩ moved hx hx' hmanaged hc
    exact hmanaged.move moved hx hx' hc ok hunbroken

/-- **The managed ids are those of the wallets.** After the first opening of a hub, whenever nothing waits to be
delivered, and whether the hub is open or has been closed, the tracker has just the folded ids of the currencies
of the hub's wallets, in increasing order; whatever wallets the system had from the start or found in the storage,
and whatever was added to them and removed from them. -/
theorem Run.managed_ids_iff (run : Run undisturbed (.start config factory disk wall enabled true) past w)
    (kept : w.dropped = 0) {account : Account} (opened : (.act (.openHub account), .ok) ∈ past)
    (settled : w.waiting = 0) :
    ∃ h, w.hub = some h ∧ w.tracker.ids.Pairwise (· < ·) ∧
      ∀ id, id ∈ w.tracker.ids ↔ ∃ x ∈ h.wallets, Text.fold x.id = id := by
  obtain ⟨x, hx, flag, hmanaged, hflag⟩ := run.managed kept
  obtain rfl := hflag ⟨account, opened⟩
  obtain ⟨h, hub, rfl⟩ := Option.map_eq_some_iff.mp hx
  obtain ⟨s, hs⟩ : ∃ s, h.handle = some s := Option.isSome_iff_exists.mp (hmanaged.holds rfl)
  have hqueue : s.queue = [] := by
    have hlast : w.lastSystem = some s := by simp [World.lastSystem, hub, hs]
    rw [World.waiting, hlast] at settled
    exact List.length_eq_zero_iff.mp settled
  have hwallets : h.wallets = s.wallets := by
    rw [Hub.wallets, hs]
    rfl
  refine ⟨h, hub, ?_, fun id => ?_⟩
  · rw [run.course.tracker_eq]
    exact Tracker.Ordered.foldl_learn _ .nil
  · rw [hwallets]
    exact (hmanaged.sound s hs).mem_ids_iff (hmanaged.knows s hs) hqueue id

end

/-- Deliveries disturb nothing. -/
theorem undisturbed_replicate_deliver (n : Nat) (w : MemoryWorld) :
    w.Playable undisturbed (List.replicate n .deliver) := by
  induction n generalizing w with
  | zero => trivial
  | succ n ih => exact ⟨undisturbed_of_ne w .deliver _ (fun _ hm => nomatch hm), ih _⟩

/-- A hub whose systems have a wallet from the start. -/
def seeded : MemoryWorld :=
  .start (.ofDirectory "data") (.start [⟨"Bitcoin", "btc", "Bitcoin", 8⟩]) .empty ⟨1600000000, 0⟩ [] true

/-- It is opened, gets a second wallet, loses the first one, and is closed, before anything is delivered. -/
def seededMoves : List Move :=
  .act (.openHub ⟨"alice", ⟨0, 0⟩, [1]⟩) :: .act (.command (.addWallet ⟨"Ethereum", "eth", "Ethereum", 18⟩)) ::
    .act (.command (.removeWallet "btc")) :: .act .closeHub :: List.replicate 13 .deliver

/-- The closed hub has one wallet in the end, and the tracker its id: it has learned of the other wallet from
its connection and forgotten it again. -/
theorem closed_hub_is_managed :
    (seeded.play seededMoves).2.waiting = 0 ∧
      (seeded.play (seededMoves.take 9)).2.tracker.ids = ["bitcoin", "ethereum"] ∧
      ∃ h, (seeded.play seededMoves).2.hub = some h ∧ h.isOpen = false ∧ h.wallets.map Wallet.id = ["Ethereum"] ∧
        (seeded.play seededMoves).2.tracker.ids.Pairwise (· < ·) ∧
        ∀ id, id ∈ (seeded.play seededMoves).2.tracker.ids ↔ ∃ x ∈ h.wallets, Text.fold x.id = id := by
  have playable : seeded.Playable undisturbed seededMoves := by
    refine ⟨⟨nofun, fun _ hm => (nomatch hm), ?_, keepsApart_of_ne nofun⟩, ?_⟩
    · intro account h _ hub _
      obtain rfl := Option.some.inj hub
      exact Or.inl (by decide +kernel)
    refine ⟨undisturbed_of_apart nofun (fun _ hm => nomatch hm) nofun (keepsApart_of_ne nofun), ?_⟩
    refine ⟨undisturbed_of_apart nofun (fun _ hm => nomatch hm) nofun (keepsApart_of_apart ?_), ?_⟩
    · decide +kernel
    refine ⟨undisturbed_of_apart nofun (fun _ hm => nomatch hm) nofun (keepsApart_of_ne nofun), ?_⟩
    exact undisturbed_replicate_deliver 13 _
  have run : Run undisturbed seeded (seeded.play seededMoves).1 (seeded.play seededMoves).2 := Run.play _ _ playable
  have opened : (Move.act (.openHub ⟨"alice", ⟨0, 0⟩, [1]⟩), Reply.ok) ∈ (seeded.play seededMoves).1 :=
    List.mem_cons_self
  have settled : (seeded.play seededMoves).2.waiting = 0 := by rfl
  obtain ⟨h, hub, hordered, hids⟩ := Run.managed_ids_iff run rfl opened settled
  have hfields : (seeded.play seededMoves).2.hub.map (fun h => (h.isOpen, h.wallets.map Wallet.id)) =
      some (false, ["Ethereum"]) := by rfl
  rw [hub, Option.map_some] at hfields
  obtain ⟨hclosed, hwallets⟩ := Prod.mk.inj (Option.some.inj hfields)
  exact ⟨settled, by rfl, h, hub, hclosed, hwallets, hordered, hids⟩

end WalletHub
