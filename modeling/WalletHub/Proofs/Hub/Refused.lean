import Mathlib.Logic.Relation
import WalletHub.Proofs.Disk.Directories
import WalletHub.Proofs.Hub.Change
import WalletHub.Proofs.Hub.Lifecycle
import WalletHub.World

/-!
# Refused calls

An opening that fails and a closing of a hub that is not open leave the hub as it is: nothing is published, no
task is started or ended, and the system is neither connected nor disconnected. A system that the factory has
created for another account is kept, if the hub had none. Around the hub there may be new directories on the way
of the storage path, and the factory may have failed (`Hub.Remains`). So it makes no difference to a later
opening whether calls were refused before it (`World.refusals_leave_no_trace`).

The directories need not be the storage directory: where it cannot be made some of those above it may have been
(`refused_opening_leaves_directory`).

## What is proved

* `MemoryFactory.of_failed`: all that failures do to a factory is to use up the failure that was injected.
* `Surroundings.Spared.trans`, `Surroundings.Spared.of_ensureDirectory`: the making of a directory spares all
  that was there.
* `Hub.remains_of_openFor`: what is left of an opening that is refused, for each of its ends.
* `World.Refusals.remains`: the same of any number of refused calls, by induction.
* `Hub.openFor_of_spared`: an opening that would have gone through without them goes through with them.
* `World.refusals_leave_no_trace`: the two together, said of a run.
* `refused_opening_leaves_directory`: an opening that fails behind a directory which it has made.
-/

namespace WalletHub

variable {φ σ : Type} [SystemFactory φ σ]

/-! ### Factories -/

variable (φ σ) in
/-- A system that the factory has created waits for nothing once it is configured. -/
def Fresh [WalletSystem σ] : Prop := ∀ params disk (f f' : φ) (made : Created σ),
  SystemFactory.create params disk f = (.ok made, f') →
    WalletSystem.queue (WalletSystem.configure [] made.system) = []

theorem MemoryFactory.fresh : Fresh MemoryFactory MemorySystem := by
  intro params disk f f' made h
  simp only [SystemFactory.create] at h
  split at h
  · exact nomatch h
  · split at h
    · next made' hmade =>
      obtain rfl := Except.ok.inj (Prod.mk.inj h).1
      obtain ⟨stored, log, -, hsystem⟩ := MemorySystem.exists_load_of_create hmade
      rw [hsystem]
      rfl
    · exact nomatch h

theorem ScriptedFactory.fresh : Fresh ScriptedFactory ScriptedSystem := fun _ _ _ _ _ _ => rfl

variable (σ) in
/-- The factory fails. -/
def Failed (f f' : φ) : Prop :=
  ∃ params disk cause, SystemFactory.create (σ := σ) params disk f = (.error cause, f')

/-- **All that failures do to a factory is to use up the failure that was injected.** -/
theorem MemoryFactory.of_failed {f f' : MemoryFactory} (h : Relation.ReflTransGen (Failed MemorySystem) f f') :
    f' = f ∨ f' = { f with failure := none } := by
  induction h with
  | refl => exact Or.inl rfl
  | @tail f₁ f₂ _ step ih =>
    obtain ⟨params, disk, cause, hfailed⟩ := step
    have hused : f₂ = { f₁ with failure := none } := by
      simp only [SystemFactory.create] at hfailed
      split at hfailed
      · exact (Prod.mk.inj hfailed).2.symm
      · next hnone =>
        split at hfailed
        · exact nomatch hfailed
        · obtain ⟨-, rfl⟩ := Prod.mk.inj hfailed
          rw [← hnone]
    right
    rcases ih with rfl | rfl
    · exact hused
    · exact hused

@[inherit_doc MemoryFactory.of_failed]
theorem ScriptedFactory.of_failed {f f' : ScriptedFactory}
    (h : Relation.ReflTransGen (Failed ScriptedSystem) f f') : f' = f ∨ f' = { f with failure := none } := by
  induction h with
  | refl => exact Or.inl rfl
  | @tail f₁ f₂ _ step ih =>
    obtain ⟨params, disk, cause, hfailed⟩ := step
    have hused : f₂ = { f₁ with failure := none } := by
      simp only [SystemFactory.create] at hfailed
      split at hfailed
      · exact (Prod.mk.inj hfailed).2.symm
      · exact nomatch hfailed
    right
    rcases ih with rfl | rfl
    · exact hused
    · exact hused

/-! ### The disk -/

namespace Surroundings

theorem exists?_of_ensureDirectory {path : String} {e e' : Surroundings φ} (h : e.ensureDirectory path = (true, e')) :
    e'.disk.exists? path = true := by
  unfold ensureDirectory at h
  split at h
  · next hexists =>
    obtain ⟨-, rfl⟩ := Prod.mk.inj h
    exact hexists
  · split at h
    · next d hmade =>
      obtain ⟨-, rfl⟩ := Prod.mk.inj h
      exact Disk.exists?_of_namesDirectory (Disk.namesDirectory_of_makeDirectories hmade)
    · exact nomatch h

/-- Directories may have been made on the way of a path, and nothing else has happened to the disk. -/
structure Spared (path : String) (e e' : Surroundings φ) : Prop where
  laid : e.disk.Laid e'.disk (Disk.way path)
  /-- If the path could be made before, it is there now or can be made as before. -/
  again : ∀ e₁, e.ensureDirectory path = (true, e₁) →
    ∃ e₂, e'.ensureDirectory path = (true, e₂) ∧ e₂.disk = e₁.disk

namespace Spared

variable {path : String} {e e' e'' : Surroundings φ}

theorem of_disk_eq (path : String) (same : e'.disk = e.disk) : Spared path e e' where
  laid := by
    rw [same]
    exact .refl _ _
  again e₁ h := by
    obtain ⟨hmade, hdisk⟩ := ensureDirectory_congr path same
    rw [h] at hmade hdisk
    exact ⟨(e'.ensureDirectory path).2, Prod.ext hmade rfl, hdisk⟩

theorem trans (h : Spared path e e') (h' : Spared path e' e'') : Spared path e e'' where
  laid := h.laid.trans h'.laid
  again e₁ he := by
    obtain ⟨e₂, he₂, hdisk⟩ := h.again e₁ he
    obtain ⟨e₃, he₃, hdisk'⟩ := h'.again e₂ he₂
    exact ⟨e₃, he₃, hdisk'.trans hdisk⟩

/-- Directories were made, as far as that could be done. -/
theorem of_ensureDirectory {made : Bool} (h : e.ensureDirectory path = (made, e')) : Spared path e e' where
  laid := by
    have hlaid := Disk.laid_makeDirectories e.disk path
    unfold ensureDirectory at h
    split at h
    · obtain ⟨-, rfl⟩ := Prod.mk.inj h
      exact .refl _ _
    · cases hmake : e.disk.makeDirectories path with
      | ok d | error d =>
        rw [hmake] at h hlaid
        obtain ⟨-, rfl⟩ := Prod.mk.inj h
        exact hlaid
  again e₁ h₁ := by
    obtain ⟨rfl, rfl⟩ := Prod.mk.inj (h.symm.trans h₁)
    refine ⟨e', ?_, rfl⟩
    unfold ensureDirectory
    rw [exists?_of_ensureDirectory h, if_pos rfl]

end Spared

end Surroundings

/-! ### One refusal -/

namespace Hub

variable [WalletSystem σ]

/-- What is left of refused calls, of which `errors` are the answers: the system that the hub `h` has
afterwards, and what is around it. -/
inductive Remains (h : Hub σ) (e : Surroundings φ) (errors : List HubError) : Option σ → Surroundings φ → Prop where
  /-- The hub has the system that it had, or still none. In that case the factory may have failed. -/
  | same {disk : Disk} {factory : φ}
      (spared : e.Spared h.config.storageDirectory { e with disk := disk, factory := factory })
      (failed : Relation.ReflTransGen (Failed σ) e.factory factory)
      (unasked : h.handle ≠ none → factory = e.factory) :
      Remains h e errors h.handle { e with disk := disk, factory := factory }
  /-- The hub had none, and has one now that was created, but is for another account. -/
  | other {account : Account} {d disk : Disk} {f factory : φ} {made : Created σ} (bare : h.handle = none)
      (spared : e.Spared h.config.storageDirectory { e with disk := disk, factory := factory })
      (failed : Relation.ReflTransGen (Failed σ) e.factory f)
      (created : SystemFactory.create ⟨account, h.config.mainnet, h.config.storageDirectory⟩ d f =
        (.ok made, factory))
      (foreign : (WalletSystem.account (WalletSystem.configure [] made.system)).isSame account = false)
      (told : .accountMismatch ∈ errors) :
      Remains h e errors (some (WalletSystem.configure [] made.system))
        ((({ e with disk := disk, factory := factory }.report made.log).called
          (.create account.uid h.config.mainnet h.config.storageDirectory)).called (.configure 0))

namespace Remains

variable {h : Hub σ} {e e' e'' : Surroundings φ} {errors errors' : List HubError} {k k' : Option σ}

theorem refl (h : Hub σ) (e : Surroundings φ) (errors : List HubError) : Remains h e errors h.handle e :=
  .same (.of_disk_eq _ rfl) .refl fun _ => rfl

theorem spared (r : Remains h e errors k e') : e.Spared h.config.storageDirectory e' := by
  cases r with
  | same spared _ => exact spared
  | other _ spared _ _ _ _ => exact spared.trans (.of_disk_eq _ rfl)

/-- Refusals after refusals. Only where the hub has no system a new one can be kept. -/
theorem trans (r : Remains h e errors k e') (r' : Remains { h with handle := k } e' errors' k' e'') :
    Remains h e (errors ++ errors') k' e'' := by
  have hspared := r.spared.trans r'.spared
  cases r with
  | same _ failed unasked =>
    cases r' with
    | same _ failed' unasked' =>
      exact .same hspared (failed.trans failed') fun hkept => (unasked' hkept).trans (unasked hkept)
    | other bare _ failed' created foreign told =>
      exact .other bare (hspared.trans (.of_disk_eq _ rfl)) (failed.trans failed') created foreign
        (List.mem_append_right _ told)
  | other bare _ failed created foreign told =>
    cases r' with
    | same _ _ unasked =>
      obtain rfl := unasked (Option.some_ne_none _)
      exact .other bare (hspared.trans (.of_disk_eq _ rfl)) failed created foreign (List.mem_append_left _ told)
    | other bare' => exact nomatch bare'

end Remains

/-- Where no system could be obtained the factory has failed. -/
theorem failed_of_obtain {account : Account} {h : Hub σ} {e e' : Surroundings φ} {cause : RuntimeError}
    (ho : h.obtain account e = (.error cause, e')) :
    h.handle = none ∧ ∃ factory, Failed σ e.factory factory ∧ e' = { e with factory := factory } := by
  obtain ⟨hbare, -, -⟩ := obtain_error ho
  refine ⟨hbare, ?_⟩
  unfold Hub.obtain createSystem at ho
  rw [hbare] at ho
  simp only at ho
  split at ho
  · next cause' factory hfailed =>
    obtain ⟨-, rfl⟩ := Prod.mk.inj ho
    exact ⟨factory, ⟨_, _, _, hfailed⟩, rfl⟩
  · exact nomatch congrArg Prod.fst ho

/-- What is around a hub that has obtained a new system. -/
theorem around_of_createSystem {account : Account} {config : Config} {e e' : Surroundings φ} {s : σ}
    (h : createSystem account config e = (.ok s, e')) :
    ∃ made factory, SystemFactory.create ⟨account, config.mainnet, config.storageDirectory⟩ e.disk e.factory =
        (.ok made, factory) ∧ s = WalletSystem.configure [] made.system ∧
      e' = ((({ e with factory := factory }.report made.log).called
        (.create account.uid config.mainnet config.storageDirectory)).called (.configure 0)) := by
  unfold createSystem at h
  split at h
  · exact nomatch congrArg Prod.fst h
  · next made factory hmade =>
    obtain ⟨hs, rfl⟩ := Prod.mk.inj h
    exact ⟨made, factory, hmade, (Except.ok.inj hs).symm, rfl⟩

/-- **A refused opening.** -/
theorem remains_of_openFor {account : Account} {session : Session} {h h' : Hub σ} {e e' : Surroundings φ}
    {error : HubError} (refused : h.openFor account session e = (.error error, h', e')) :
    ∃ k, h' = { h with handle := k } ∧ Remains h e [error] k e' := by
  have hend := opening_openFor account session h e
  rw [refused] at hend
  simp only at hend
  generalize hanswer : (Except.error error : Except HubError Unit) = answer at hend
  cases hend with
  | alreadyOpen | emptyAccount => exact ⟨h.handle, rfl, .refl h e _⟩
  | noDirectory _ _ failed =>
    obtain ⟨disk, rfl⟩ := Surroundings.eq_of_ensureDirectory failed
    exact ⟨h.handle, rfl, .same (.of_ensureDirectory failed) .refl fun _ => rfl⟩
  | notObtained _ _ directory failed =>
    obtain ⟨disk, rfl⟩ := Surroundings.eq_of_ensureDirectory directory
    obtain ⟨hbare, factory, hfailed, rfl⟩ := failed_of_obtain failed
    refine ⟨h.handle, rfl, .same ?_ (.single hfailed) (absurd hbare)⟩
    exact (Surroundings.Spared.of_ensureDirectory directory).trans (.of_disk_eq _ rfl)
  | mismatch _ _ directory obtained other =>
    have hspared := Surroundings.Spared.of_ensureDirectory directory
    obtain ⟨disk, rfl⟩ := Surroundings.eq_of_ensureDirectory directory
    rcases obtain_cases obtained with ⟨hkept, rfl⟩ | ⟨hbare, hmade⟩
    · refine ⟨h.handle, by rw [hkept], .same hspared .refl fun _ => rfl⟩
    · obtain ⟨made, factory, hcreated, rfl, rfl⟩ := around_of_createSystem hmade
      refine ⟨_, rfl, .other hbare (hspared.trans (.of_disk_eq _ rfl)) .refl hcreated other ?_⟩
      exact List.mem_singleton.mpr (Except.error.inj hanswer).symm
  | launched => exact nomatch hanswer

omit [SystemFactory φ σ] in
/-- A closing is refused only where there is nothing to close. -/
theorem eq_of_close {h h' : Hub σ} {e e' : Surroundings φ} {error : HubError}
    (refused : h.close e = (.error error, h', e')) : error = .notOpen ∧ h' = h ∧ e' = e := by
  cases hopen : h.isOpen with
  | false =>
    rw [close, hopen, if_neg Bool.false_ne_true] at refused
    obtain ⟨herror, hrest⟩ := Prod.mk.inj refused
    obtain ⟨rfl, rfl⟩ := Prod.mk.inj hrest
    exact ⟨(Except.error.inj herror).symm, rfl, rfl⟩
  | true =>
    cases hhandle : h.handle <;> simp [close, hopen, hhandle] at refused

/-- What a hub obtains depends on the disk and the factory alone. -/
theorem obtain_congr (account : Account) (h : Hub σ) {e e' : Surroundings φ} (hdisk : e'.disk = e.disk)
    (hfactory : e'.factory = e.factory) : (h.obtain account e').1 = (h.obtain account e).1 := by
  unfold Hub.obtain
  cases h.handle with
  | some s => rfl
  | none =>
    simp only [createSystem, hdisk, hfactory]
    split <;> rfl

/-- **An opening that would have gone through without the refusals before it** goes through with them, and to the
same hub. -/
theorem openFor_of_spared {account : Account} {session : Session} {h : Hub σ} {e e' : Surroundings φ}
    (spared : e.Spared h.config.storageDirectory e') (hfactory : e'.factory = e.factory)
    (opened : (h.openFor account session e).1 = .ok ()) :
    (h.openFor account session e').1 = .ok () ∧
      (h.openFor account session e').2.1 = (h.openFor account session e).2.1 := by
  have hend := opening_openFor account session h e
  rw [opened] at hend
  generalize (h.openFor account session e).2.1 = h' at hend ⊢
  generalize (h.openFor account session e).2.2 = around at hend
  cases hend with
  | @launched e₁ _ s closed given directory obtained same =>
    obtain ⟨e₂, hdirectory, hdisk⟩ := spared.again e₁ directory
    have hobtained : (h.obtain account e₂).1 = .ok s := by
      obtain ⟨disk, rfl⟩ := Surroundings.eq_of_ensureDirectory directory
      obtain ⟨disk', rfl⟩ := Surroundings.eq_of_ensureDirectory hdirectory
      rw [obtain_congr account h hdisk hfactory, obtained]
    obtain ⟨e₃, hobtain⟩ : ∃ e₃, h.obtain account e₂ = (.ok s, e₃) := ⟨_, Prod.ext hobtained rfl⟩
    have hval : h.openFor account session e' = (.ok (), h.launch session s, e₃.called .connect) := by
      simp only [openFor, closed, given, hdirectory, hobtain, same, Bool.false_eq_true, if_false, if_true]
    rw [hval]
    exact ⟨rfl, rfl⟩

/-- An opening launches the system that the hub has. -/
theorem eq_launch_of_openFor {account : Account} {session : Session} {h : Hub σ} {e : Surroundings φ} {s : σ}
    (kept : h.handle = some s) (opened : (h.openFor account session e).1 = .ok ()) :
    (h.openFor account session e).2.1 = h.launch session s := by
  have hend := opening_openFor account session h e
  rw [opened] at hend
  generalize (h.openFor account session e).2.1 = h' at hend ⊢
  generalize (h.openFor account session e).2.2 = around at hend
  cases hend with
  | launched _ _ _ obtained _ =>
    rcases obtain_cases obtained with ⟨hkept, -⟩ | ⟨hbare, -⟩
    · rw [Option.some.inj (kept.symm.trans hkept)]
    · exact nomatch kept.symm.trans hbare

end Hub

/-! ### Refusals in a run -/

namespace World

variable [WalletSystem σ]

/-- An opening is one of the hub. -/
theorem openFor_eq {w : World φ σ} {h : Hub σ} (hub : w.hub = some h) (account : Account) :
    (w.openFor account).1 = some (h.openFor account w.nextSession w.surroundings).1 ∧
      (w.openFor account).2.hub = some (h.openFor account w.nextSession w.surroundings).2.1 := by
  obtain ⟨answer, h', e, hopen⟩ : ∃ answer h' e, h.openFor account w.nextSession w.surroundings = (answer, h', e) :=
    ⟨_, _, _, rfl⟩
  simp only [openFor, hub, hopen]
  cases answer with
  | error error => exact ⟨rfl, rfl⟩
  | ok _ =>
    refine ⟨rfl, ?_⟩
    simp only [monitorTaken]
    split <;> rfl

/-- A refused opening is one of the hub, and touches nothing else. -/
theorem eq_of_openFor {w w' : World φ σ} {h : Hub σ} {account : Account} {error : HubError} (hub : w.hub = some h)
    (refused : w.openFor account = (some (.error error), w')) :
    ∃ h' e, h.openFor account w.nextSession w.surroundings = (.error error, h', e) ∧
      w' = { w with hub := some h', surroundings := e } := by
  obtain ⟨answer, h', e, hopen⟩ : ∃ answer h' e, h.openFor account w.nextSession w.surroundings = (answer, h', e) :=
    ⟨_, _, _, rfl⟩
  simp only [openFor, hub, hopen] at refused
  cases answer with
  | ok _ => exact nomatch congrArg Prod.fst refused
  | error error' =>
    obtain ⟨herror, rfl⟩ := Prod.mk.inj refused
    obtain rfl := Except.error.inj (Option.some.inj herror)
    exact ⟨h', e, hopen, rfl⟩

/-- Openings and closings that are all refused, with the errors that they answer. -/
inductive Refusals (w : World φ σ) : List HubError → World φ σ → Prop where
  | none : Refusals w [] w
  | opening {errors : List HubError} {w₁ w₂ : World φ σ} {error : HubError} (before : Refusals w errors w₁)
      (account : Account) (refused : w₁.openFor account = (some (.error error), w₂)) :
      Refusals w (errors ++ [error]) w₂
  | closing {errors : List HubError} {w₁ w₂ : World φ σ} {error : HubError} (before : Refusals w errors w₁)
      (refused : w₁.close = (some (.error error), w₂)) : Refusals w (errors ++ [error]) w₂

/-- **Refusals touch nothing but the hub's system and what is around the hub.** -/
theorem Refusals.remains {w w' : World φ σ} {errors : List HubError} (refusals : w.Refusals errors w') {h : Hub σ}
    (hub : w.hub = some h) : ∃ k e, w' = { w with hub := some { h with handle := k }, surroundings := e } ∧
      h.Remains w.surroundings errors k e := by
  induction refusals with
  | none => exact ⟨h.handle, w.surroundings, by rw [← hub], .refl h _ _⟩
  | opening _ account refused ih =>
    obtain ⟨k, e, rfl, hremains⟩ := ih
    obtain ⟨h', e', hrefused, rfl⟩ := eq_of_openFor rfl refused
    obtain ⟨k', rfl, hremains'⟩ := Hub.remains_of_openFor hrefused
    exact ⟨k', e', rfl, hremains.trans hremains'⟩
  | closing _ refused ih =>
    obtain ⟨k, e, rfl, hremains⟩ := ih
    obtain ⟨answer, h', e', hclose⟩ : ∃ answer h' e', ({ h with handle := k } : Hub σ).close e = (answer, h', e') :=
      ⟨_, _, _, rfl⟩
    simp only [close, hclose] at refused
    obtain ⟨hanswer, rfl⟩ := Prod.mk.inj refused
    obtain rfl := Option.some.inj hanswer
    obtain ⟨-, rfl, rfl⟩ := Hub.eq_of_close hclose
    exact ⟨k, _, rfl, hremains.trans (.refl _ _ _)⟩

/-- The run as it is when nothing was refused, but with this system and this factory in place. -/
def unrefused (h : Hub σ) (k : Option σ) (factory : φ) (w : World φ σ) : World φ σ :=
  { w with hub := some { h with handle := k }, surroundings := { w.surroundings with factory := factory } }

/-- **Refused calls leave no trace** but for what `Hub.Remains` says. No channel, neither the flag nor the task, and
nothing outside of the hub changes. The hub's system is the one that it had, or one in which nothing waits and
that was created for another account. An opening that would go through without the refusals, from the system and
the factory that they leave, goes through after them, and to the same hub. Where the hub has a system, whatever
opening goes through later launches it. -/
theorem refusals_leave_no_trace {w w' : World φ σ} {errors : List HubError} (refusals : w.Refusals errors w')
    {h : Hub σ} (hub : w.hub = some h) :
    ∃ k e, w' = { w with hub := some { h with handle := k }, surroundings := e } ∧
      h.Remains w.surroundings errors k e ∧
      (∀ s, k = some s → h.handle = none → Fresh φ σ → WalletSystem.queue s = []) ∧
      ∀ account,
        (((w.unrefused h k e.factory).openFor account).1 = some (.ok ()) →
          (w'.openFor account).1 = some (.ok ()) ∧
            (w'.openFor account).2.hub = ((w.unrefused h k e.factory).openFor account).2.hub) ∧
        ∀ s, k = some s → (w'.openFor account).1 = some (.ok ()) →
          (w'.openFor account).2.hub = some ({ h with handle := k }.launch w.nextSession s) := by
  obtain ⟨k, e, rfl, hremains⟩ := refusals.remains hub
  refine ⟨k, e, rfl, hremains, ?_, fun account => ?_⟩
  · intro s hk hbare hfresh
    cases hremains with
    | same => exact nomatch hk.symm.trans hbare
    | other _ _ _ created =>
      obtain rfl := Option.some.inj hk
      exact hfresh _ _ _ _ _ created
  · obtain ⟨hanswer, hhub⟩ := openFor_eq (w := { w with hub := some { h with handle := k }, surroundings := e })
      rfl account
    rw [hanswer, hhub]
    constructor
    · intro opened
      obtain ⟨hanswer', hhub'⟩ := openFor_eq (w := w.unrefused h k e.factory) rfl account
      rw [hanswer'] at opened
      have hdisk : (w.unrefused h k e.factory).surroundings.Spared h.config.storageDirectory w.surroundings :=
        .of_disk_eq _ rfl
      obtain ⟨hok, hsame⟩ := Hub.openFor_of_spared (h := { h with handle := k }) (hdisk.trans hremains.spared) rfl
        (Option.some.inj opened)
      rw [hhub']
      exact ⟨congrArg some hok, congrArg some hsame⟩
    · intro s hk opened
      exact congrArg some (Hub.eq_launch_of_openFor (h := { h with handle := k }) hk (Option.some.inj opened))

end World

/-! ### Runs with refusals -/

/-- A system that is always for bob. -/
def bobs : ScriptedSystem := ⟨⟨"bob", ⟨0, 0⟩, [2]⟩, []⟩

/-- A hub over a factory that fails once, and then creates systems for bob. -/
def wayward : World ScriptedFactory ScriptedSystem :=
  .start ⟨"data", true, 100, 300⟩ ⟨some bobs.account, [], some "offline"⟩ .empty ⟨0, 0⟩ [] true

/-- What comes of it when the hub is opened for alice twice and then closed. -/
def rebuffed : World ScriptedFactory ScriptedSystem :=
  ((wayward.openFor ⟨"alice", ⟨0, 0⟩, [1]⟩).2.openFor ⟨"alice", ⟨0, 0⟩, [1]⟩).2.close.2

/-- A failure, another account, and a closing of what is not open: bob's system is kept, and bob is let in. -/
theorem bob_is_let_in :
    wayward.Refusals [.systemCreation (.injected "offline"), .accountMismatch, .notOpen] rebuffed ∧
      ∃ h, wayward.hub = some h ∧ h.handle = none ∧
        (rebuffed.openFor bobs.account).2.hub =
          some (Hub.launch (.following .start none) bobs { h with handle := some bobs }) := by
  have refusals : wayward.Refusals [.systemCreation (.injected "offline"), .accountMismatch, .notOpen] rebuffed :=
    .closing (.opening (.opening .none ⟨"alice", ⟨0, 0⟩, [1]⟩ rfl) ⟨"alice", ⟨0, 0⟩, [1]⟩ rfl) rfl
  obtain ⟨k, e, hleft, -, -, later⟩ := World.refusals_leave_no_trace refusals (h := .create wayward.config) rfl
  have hkept : rebuffed.hub.map Hub.handle = some (some bobs) := by rfl
  obtain rfl : k = some bobs := by
    rw [hleft] at hkept
    exact Option.some.inj hkept
  exact ⟨refusals, .create wayward.config, rfl, rfl, (later bobs.account).2 bobs rfl (by rfl)⟩

/-! ### What is left where the storage directory cannot be made -/

/-- A hub whose storage path passes through a file, on its way back from a directory that is not there. -/
def obstructed : World MemoryFactory MemorySystem :=
  .start ⟨"new/../blocker/data", true, 100, 300⟩ ⟨[], 0, none⟩ (.directory [("blocker", .file (.text "x"))]) ⟨0, 0⟩ []
    true

/-- **A refused opening can leave a directory that is not the storage directory**, and that without making the
storage directory. -/
theorem refused_opening_leaves_directory :
    (obstructed.openFor ⟨"alice", ⟨0, 0⟩, [1]⟩).1 =
        some (.error (.storageDirectory "new/../blocker/data" Disk.faultMark)) ∧
      obstructed.surroundings.disk.exists? "new" = false ∧
      (obstructed.openFor ⟨"alice", ⟨0, 0⟩, [1]⟩).2.surroundings.disk.namesDirectory (Path.pieces "new") = true ∧
      (obstructed.openFor ⟨"alice", ⟨0, 0⟩, [1]⟩).2.surroundings.disk.exists? "new/../blocker/data" = false := by
  refine ⟨?_, ?_, ?_, ?_⟩
  · rfl
  · decide +kernel
  · decide +kernel
  · decide +kernel

end WalletHub
