import WalletHub.Proofs.Memory.Storage
import WalletHub.Proofs.World.Effect

/-!
# Restarts

When a hub is closed, or its system is told to disconnect, the system stores its wallets. Whatever
has happened before, a new system of the same account in the same directory then has the wallets
again if all their amounts are kept, and only if they are (`Run.restores_iff`). Not every amount is
kept, because an amount is written as a binary number: the greatest amount comes back as one that no
decimal can hold, and the system is not even created (`greatest_amount_not_restored`).

## What is proved

* `Hub.Sound.change`, `Run.sound`: only a hub that has a system is open, in every run. So a closing that goes
  through has had a system to store.
* `MemorySystem.save_of_store`, `save_of_move`: where a closing, or the command to disconnect, is answered and
  nothing about it is logged, the wallets are saved.
* `Run.restores_iff`: from then on it depends on nothing but the amounts whether a restart keeps the wallets.
  This is `WalletHub.Proofs.Memory.Storage` at the end of any run.
* `greatest_amount_not_restored`: a wallet that is given the greatest amount is lost with a restart.
-/

namespace WalletHub

/-! ### An open hub has a system -/

namespace Hub

/-- Only a hub with a system is open. -/
def Sound (h : Hub MemorySystem) : Prop := h.isOpen = true → h.handle.isSome = true

theorem Sound.change {h h' : Hub MemorySystem} {cause : Cause} (hs : h.Sound) (hc : h.Change cause h') :
    h'.Sound := by
  cases hc with
  | launch | hold | command | finish => exact fun _ => rfl
  | close | closeBare => exact fun hopen => nomatch hopen
  | deliver s callback job jobs kept queue =>
    obtain ⟨-, hhandle, -⟩ :=
      receive_fields callback { h with handle := some { s with queue := job :: jobs } }
    intro _
    rw [hhandle]
    rfl
  | task p t =>
    obtain ⟨hopen, hhandle, -⟩ := runSession_fields p t h
    intro h1
    rw [hopen] at h1
    rw [hhandle]
    exact hs h1

end Hub

/-- In every run an open hub has a system. -/
theorem Run.sound {allowed : MemoryWorld → Move → Reply → Prop} {start w : MemoryWorld} {past : Past}
    (run : Run allowed start past w) (hstart : ∀ h, start.hub = some h → h.Sound) :
    ∀ h, w.hub = some h → h.Sound :=
  run.hub_invariant Hub.Sound hstart (fun _ hopen => nomatch hopen) (fun _ _ _ hs hc => hs.change hc)
    fun _ _ _ _ _ _ _ => rfl

/-! ### Closing -/

/-- The moves by which the wallets are stored. -/
inductive Stores : Move → Prop where
  | close : Stores (.act .closeHub)
  | disconnect : Stores (.act (.command .disconnect))

/-- Nothing is reported of wallets that were written. -/
theorem MemorySystem.save_of_store {d d' : Disk} {s : MemorySystem} (h : s.store d = (d', [])) :
    StoredWallets.save s.file s.account.uid s.wallets d = .ok d' := by
  unfold store at h
  split at h
  · next written hsave =>
    injection h with hd
    rw [hsave, hd]
  · exact nomatch congrArg Prod.snd h

/-- A successful closing over a disk that can be written has saved the wallets. -/
theorem save_of_move {w w' : MemoryWorld} {m : Move} {s : MemorySystem}
    (hsound : ∀ h, w.hub = some h → h.Sound) (hm : Stores m) (moved : w.move m = (.ok, w'))
    (written : w'.surroundings.log = w.surroundings.log) (hs : w'.lastSystem = some s) :
    ∃ d, StoredWallets.save s.file s.account.uid s.wallets d = .ok w'.surroundings.disk := by
  cases hm with
  | close =>
    cases hhub : w.hub with
    | none => simp [World.move, World.act, World.close, hhub, World.lifecycleReply] at moved
    | some h =>
      cases hopen : h.isOpen with
      | false =>
        simp [World.move, World.act, World.close, hhub, Hub.close, hopen, World.lifecycleReply] at moved
      | true =>
        obtain ⟨kept, hkept⟩ := Option.isSome_iff_exists.mp (hsound h hhub hopen)
        obtain ⟨d', log, hstore⟩ : ∃ d' log, kept.disconnect.store w.surroundings.disk = (d', log) :=
          ⟨_, _, rfl⟩
        simp only [World.move, World.act, World.close, hhub, Hub.close, hopen, hkept, if_true,
          WalletSystem.disconnect, hstore, World.lifecycleReply] at moved
        injection moved with _ hw'
        subst hw'
        obtain rfl : kept.disconnect = s := Option.some.inj hs
        obtain rfl : log = [] := List.append_right_eq_self.mp written
        exact ⟨_, MemorySystem.save_of_store hstore⟩
  | disconnect =>
    cases hlast : w.lastSystem with
    | none => simp [World.move, World.act, World.runCommand_eq, World.memorySystem?, hlast] at moved
    | some kept =>
      obtain ⟨d', log, hstore⟩ : ∃ d' log, kept.disconnect.store w.surroundings.disk = (d', log) :=
        ⟨_, _, rfl⟩
      simp only [World.move, World.act, World.runCommand_eq, World.memorySystem?, hlast, Option.bind_some,
        Steering.memory?, WalletSystem.disconnect, hstore, World.setMemorySystem, Steering.ofMemory] at moved
      injection moved with _ hw'
      subst hw'
      obtain rfl : kept.disconnect = s :=
        Option.some.inj ((World.lastSystem_setSystem hlast kept.disconnect).symm.trans hs)
      have hlog : (w.setSystem kept.disconnect).surroundings.log ++ log = w.surroundings.log := written
      rw [World.surroundings_setSystem] at hlog
      obtain rfl : log = [] := List.append_right_eq_self.mp hlog
      exact ⟨_, MemorySystem.save_of_store hstore⟩

/-- **A restart keeps the wallets exactly if all their amounts are kept.** The run is any run of a
world that ends with a closing, or with its system told to disconnect, where the wallets could be
written; the new system is created for an account with the same identifier in the same directory. -/
theorem Run.restores_iff {config : Config} {factory : MemoryFactory} {disk : Disk} {wall : Instant}
    {enabled : List String} {withHub : Bool} {past : Past} {w w' : MemoryWorld}
    (run : Run anyMove (.start config factory disk wall enabled withHub) past w) {m : Move} (hm : Stores m)
    (moved : w.move m = (.ok, w')) (written : w'.surroundings.log = w.surroundings.log)
    {s : MemorySystem} (hs : w'.lastSystem = some s) (hdates : ∀ x ∈ s.wallets, x.Dated)
    {params : SystemParams} (huid : params.account.uid = s.account.uid)
    (hfile : StoredWallets.file params.directory = s.file) (seeds : List Currency) :
    (∃ made, MemorySystem.create params seeds w'.surroundings.disk = .ok made ∧
        Wallet.Restores s.wallets made.system.wallets) ↔
      ∀ x ∈ s.wallets, x.Kept := by
  have hsound := run.sound fun h hh => by
    obtain rfl := World.eq_create_of_start hh
    exact fun hopen => nomatch hopen
  obtain ⟨d, hsave⟩ := save_of_move hsound hm moved written hs
  exact MemorySystem.restores_of_save_iff hsave hdates huid hfile seeds

/-- The greatest amount. -/
def Decimal.greatest : Decimal := (of? false 79228162514264337593543950335 0).getD .zero

/-- The owner of the wallet in the run below. -/
def greatestOwner : Account := ⟨"alice", ⟨0, 0⟩, [1]⟩

/-- A hub that was opened, with one wallet, which was given the greatest amount. -/
def greatestHeld : Past × MemoryWorld :=
  World.play (.start (.ofDirectory "data") (.start []) .empty ⟨1600000000, 0⟩ [] true)
    [.act (.openHub greatestOwner), .act (.command (.addWallet ⟨"bitcoin", "btc", "Bitcoin", 8⟩)),
      .act (.command (.updateBalance "btc" .greatest))]

/-- The greatest amount is lost with its wallet: it is rounded up when it is written, and what was
written is no amount. -/
theorem greatest_amount_not_restored :
    ∃ s, (greatestHeld.2.move (.act .closeHub)).2.lastSystem = some s ∧
      ¬ ∃ made, MemorySystem.create ⟨greatestOwner, false, "data"⟩ []
          (greatestHeld.2.move (.act .closeHub)).2.surroundings.disk = .ok made ∧
        Wallet.Restores s.wallets made.system.wallets := by
  obtain ⟨s, hs⟩ : ∃ s, (greatestHeld.2.move (.act .closeHub)).2.lastSystem = some s :=
    Option.isSome_iff_exists.mp (by rfl)
  have hfields : ((greatestHeld.2.move (.act .closeHub)).2.lastSystem.map fun s =>
      (s.account.uid, s.file, s.wallets)) =
      some ("alice", "data/wallets.json",
        [⟨⟨"bitcoin", "btc", "Bitcoin", 8⟩, .greatest, .disconnected "disconnect requested", []⟩]) := by
    rfl
  rw [hs, Option.map_some] at hfields
  simp only [Option.some.injEq, Prod.mk.injEq] at hfields
  obtain ⟨huid, hfile, hwallets⟩ := hfields
  have run : Run anyMove _ greatestHeld.1 greatestHeld.2 := Run.play _ _ ⟨trivial, trivial, trivial, trivial⟩
  have moved : greatestHeld.2.move (.act .closeHub) = (.ok, (greatestHeld.2.move (.act .closeHub)).2) :=
    Prod.ext (by rfl) rfl
  have hdates : ∀ x ∈ s.wallets, x.Dated := by
    intro x hx t ht
    rw [hwallets, List.mem_singleton] at hx
    rw [hx] at ht
    exact nomatch ht
  have hdirectory : StoredWallets.file (SystemParams.mk greatestOwner false "data").directory = s.file := by
    rw [hfile]
    rfl
  refine ⟨s, hs, ?_⟩
  intro hmade
  have hkept := (run.restores_iff .close moved (by rfl) hs hdates huid.symm hdirectory []).mp hmade
  rw [hwallets] at hkept
  exact absurd (hkept _ List.mem_cons_self).1 (by decide +kernel)

end WalletHub
