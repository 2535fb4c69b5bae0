import WalletHub.Proofs.Hub.Task

/-!
# How an opening ends

An opening makes its checks in a fixed order, and each of them can end it. `Opening` names the six
ends together with all that led to them, and `opening_openFor` says that every opening has come to
one of them.

An end carries the facts that it depends on: that the hub was closed, that an account was given, that the
directory could be made, that a system was obtained and that it is for this account. A proof about openings
therefore goes through the six constructors of `Hub.Opening` and finds its hypotheses there, and a check that is
added to the opening is one more constructor.

## What is proved

* `Hub.runSession_fields`, `Hub.session_runSession`, `Hub.receive_fields`: a run of the task and a callback neither
  open nor close a hub, and keep its system and its settings.
* `Hub.opening_openFor`: every opening, of any hub over any kind of system, comes to one of the six ends.
* `Hub.obtain_cases`: the system of an opening is the one that the hub has, or a new one that is told that no
  currency is in use.
* `Surroundings.eq_of_ensureDirectory`: the making of the directory changes nothing around the hub but the disk.
-/

/-! ### What is around an opening -/

namespace WalletHub.Surroundings

variable {φ : Type} {path : String} {e e' : Surroundings φ}

/-- Where a directory is made, or cannot be made, nothing but the disk is touched. -/
theorem eq_of_ensureDirectory {made : Bool} (h : e.ensureDirectory path = (made, e')) :
    ∃ disk, e' = { e with disk := disk } := by
  unfold ensureDirectory at h
  split at h
  · obtain ⟨-, rfl⟩ := Prod.mk.inj h
    exact ⟨e.disk, rfl⟩
  · split at h
    · obtain ⟨-, rfl⟩ := Prod.mk.inj h
      exact ⟨_, rfl⟩
    · obtain ⟨-, rfl⟩ := Prod.mk.inj h
      exact ⟨_, rfl⟩

/-- What is made depends on the disk alone. -/
theorem ensureDirectory_congr (path : String) (same : e'.disk = e.disk) :
    (e'.ensureDirectory path).1 = (e.ensureDirectory path).1 ∧
      (e'.ensureDirectory path).2.disk = (e.ensureDirectory path).2.disk := by
  unfold ensureDirectory
  rw [same]
  split
  · exact ⟨rfl, same⟩
  · cases e.disk.makeDirectories path <;> exact ⟨rfl, rfl⟩

end WalletHub.Surroundings

namespace WalletHub.Hub

variable {φ σ : Type} [WalletSystem σ]

/-! ### What the task and a callback leave alone -/

/-- The task neither opens nor closes the hub, and keeps its system. -/
theorem runSession_fields (p : Provider) (t : Tracker) (h : Hub σ) :
    (h.runSession p t).1.isOpen = h.isOpen ∧ (h.runSession p t).1.handle = h.handle ∧
      (h.runSession p t).1.config = h.config := by
  rcases h.runSession_cases p t with ⟨-, hsame⟩ | ⟨_, _, changes, _, _, -, -, hrun⟩
  · rw [hsame]
    exact ⟨rfl, rfl, rfl⟩
  · rw [hrun]
    exact h.republish_fields changes

/-- The task stays a task, whatever becomes of it. -/
theorem session_runSession (p : Provider) (t : Tracker) (h : Hub σ) :
    (h.runSession p t).1.session.isSome = h.session.isSome := by
  rcases h.runSession_cases p t with ⟨-, hsame⟩ | ⟨_, _, _, _, _, hsession, -, hrun⟩
  · rw [hsame]
  · rw [hrun, hsession]
    rfl

theorem receive_fields (callback : Callback) (h : Hub σ) :
    (h.receive callback).isOpen = h.isOpen ∧ (h.receive callback).handle = h.handle ∧
      (h.receive callback).config = h.config := by
  unfold receive
  split <;> exact ⟨rfl, rfl, rfl⟩

/-! ### Openings -/

variable [SystemFactory φ σ]

/-- The end of an opening: the answer, the hub and what is around it. -/
inductive Opening (account : Account) (session : Session) (h : Hub σ) (e : Surroundings φ) :
    Except HubError Unit → Hub σ → Surroundings φ → Prop where
  | alreadyOpen (isOpen : h.isOpen = true) : Opening account session h e (.error .alreadyOpen) h e
  | emptyAccount (closed : h.isOpen = false) (empty : account.serialized.isEmpty = true) :
      Opening account session h e (.error .emptyAccount) h e
  | noDirectory {e' : Surroundings φ} (closed : h.isOpen = false)
      (given : account.serialized.isEmpty = false)
      (failed : e.ensureDirectory h.config.storageDirectory = (false, e')) :
      Opening account session h e
        (.error (.storageDirectory h.config.storageDirectory Disk.faultMark)) h e'
  | notObtained {e₁ e₂ : Surroundings φ} {cause : RuntimeError} (closed : h.isOpen = false)
      (given : account.serialized.isEmpty = false)
      (directory : e.ensureDirectory h.config.storageDirectory = (true, e₁))
      (failed : h.obtain account e₁ = (.error cause, e₂)) :
      Opening account session h e (.error cause.toHub) h e₂
  | mismatch {e₁ e₂ : Surroundings φ} {s : σ} (closed : h.isOpen = false)
      (given : account.serialized.isEmpty = false)
      (directory : e.ensureDirectory h.config.storageDirectory = (true, e₁))
      (obtained : h.obtain account e₁ = (.ok s, e₂))
      (other : (WalletSystem.account s).isSame account = false) :
      Opening account session h e (.error .accountMismatch) { h with handle := some s } e₂
  | launched {e₁ e₂ : Surroundings φ} {s : σ} (closed : h.isOpen = false)
      (given : account.serialized.isEmpty = false)
      (directory : e.ensureDirectory h.config.storageDirectory = (true, e₁))
      (obtained : h.obtain account e₁ = (.ok s, e₂))
      (same : (WalletSystem.account s).isSame account = true) :
      Opening account session h e (.ok ()) (h.launch session s) (e₂.called .connect)

/-- **Every opening comes to one of these ends.** -/
theorem opening_openFor (account : Account) (session : Session) (h : Hub σ) (e : Surroundings φ) :
    Opening account session h e (h.openFor account session e).1 (h.openFor account session e).2.1
      (h.openFor account session e).2.2 := by
  cases hopen : h.isOpen with
  | true =>
    simp only [openFor, hopen, if_true]
    exact .alreadyOpen hopen
  | false =>
    cases hempty : account.serialized.isEmpty with
    | true =>
      simp only [openFor, hopen, hempty, if_true, Bool.false_eq_true, if_false]
      exact .emptyAccount hopen hempty
    | false =>
      obtain ⟨made, e₁, hdir⟩ : ∃ made e₁, e.ensureDirectory h.config.storageDirectory = (made, e₁) :=
        ⟨_, _, rfl⟩
      cases made with
      | false =>
        simp only [openFor, hopen, hempty, hdir, Bool.false_eq_true, if_false]
        exact .noDirectory hopen hempty hdir
      | true =>
        obtain ⟨result, e₂, hobtain⟩ : ∃ result e₂, h.obtain account e₁ = (result, e₂) := ⟨_, _, rfl⟩
        cases result with
        | error cause =>
          simp only [openFor, hopen, hempty, hdir, hobtain, Bool.false_eq_true, if_false]
          exact .notObtained hopen hempty hdir hobtain
        | ok s =>
          cases hsame : (WalletSystem.account s).isSame account with
          | false =>
            have hval : h.openFor account session e =
                (.error .accountMismatch, { h with handle := some s }, e₂) := by
              simp only [openFor, hopen, hempty, hdir, hobtain, hsame, Bool.false_eq_true, if_false]
            rw [hval]
            exact .mismatch hopen hempty hdir hobtain hsame
          | true =>
            simp only [openFor, hopen, hempty, hdir, hobtain, hsame, Bool.false_eq_true, if_false, if_true]
            exact .launched hopen hempty hdir hobtain hsame

/-- What a hub obtains is the system that it has, or else a new one. -/
theorem obtain_cases {account : Account} {h : Hub σ} {e e' : Surroundings φ} {s : σ}
    (ho : h.obtain account e = (.ok s, e')) :
    (h.handle = some s ∧ e' = e) ∨ (h.handle = none ∧ createSystem account h.config e = (.ok s, e')) := by
  unfold Hub.obtain at ho
  cases hhandle : h.handle with
  | some kept =>
    rw [hhandle] at ho
    injection ho with hs he
    injection hs with hs
    exact Or.inl ⟨by rw [hs], he.symm⟩
  | none =>
    rw [hhandle] at ho
    exact Or.inr ⟨rfl, ho⟩

end WalletHub.Hub
