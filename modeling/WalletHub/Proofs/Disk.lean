import WalletHub.Disk

/-!
# What was written can be read

A file that was written is found again under the same path and holds what was written
(`read?_of_write?`). The path is followed once more on the changed disk: the directories it passes
through are still there (`isDirectoryAt_put`), because no file replaces a directory.

## What is proved

* `at?_put`: what stands at a place after something was put there, and at every other place.
* `isDirectoryAt_dropLast`, `isDirectoryAt_put`: what stands above something is a directory, and stays one.
* `isDirectoryAt_of_follow`, `follow_of_directories`: a path that leads somewhere passes through directories, and
  leads to the same place on every disk that has them.
* `read?_of_write?`, `readText?_of_write?`: a file that was written is read.
* `exists?_of_read?`, `exists?_of_readText?`: what can be read is there.
-/

namespace WalletHub.Disk

/-! ### Putting a file at a place -/

theorem isDirectoryAt_cons (d : Disk) (name : String) (names : Place) :
    d.isDirectoryAt (name :: names) =
      match d.child? name with
      | some sub => sub.isDirectoryAt names
      | none => false := by
  cases h : d.child? name <;> simp [isDirectoryAt, at?, h]

/-- Only what stands in a directory has a place below it. -/
theorem child?_directory (name : String) (entries : List (String × Disk)) :
    (directory entries).child? name = entries.lookup name := rfl

/-- The place above a directory is one. -/
theorem isDirectoryAt_dropLast {d : Disk} {place : Place} (h : d.isDirectoryAt place = true) :
    d.isDirectoryAt place.dropLast = true := by
  induction place generalizing d with
  | nil => exact h
  | cons name names ih =>
    cases d with
    | file content => simp [isDirectoryAt_cons, child?] at h
    | directory entries =>
      cases names with
      | nil => rfl
      | cons next rest =>
        rw [isDirectoryAt_cons, child?_directory] at h
        rw [List.dropLast_cons_of_ne_nil (List.cons_ne_nil next rest), isDirectoryAt_cons, child?_directory]
        cases hsub : entries.lookup name with
        | none => simp [hsub] at h
        | some sub =>
          rw [hsub] at h
          exact ih h

/-- Something that is put into a directory stands there. -/
theorem at?_put {d : Disk} {place : Place} (new : Disk) (hne : place ≠ [])
    (h : d.isDirectoryAt place.dropLast = true) : (d.put place new).at? place = some new := by
  induction place generalizing d with
  | nil => exact absurd rfl hne
  | cons name names ih =>
    cases d with
    | file content =>
      cases names with
      | nil => simp [isDirectoryAt, at?, isDirectory] at h
      | cons next rest => simp [isDirectoryAt_cons, child?] at h
    | directory entries =>
      simp only [put, at?, child?_directory, Entries.lookup_put, if_true, Option.bind_some]
      cases names with
      | nil => simp [put, at?]
      | cons next rest =>
        rw [List.dropLast_cons_of_ne_nil (List.cons_ne_nil next rest), isDirectoryAt_cons,
          child?_directory] at h
        cases hsub : entries.lookup name with
        | none => simp [hsub] at h
        | some sub =>
          rw [hsub] at h
          exact ih (List.cons_ne_nil next rest) h

/-- A file that does not replace a directory leaves all directories where they are. -/
theorem isDirectoryAt_put {d : Disk} {place here : Place} (content : Content)
    (hplace : d.isDirectoryAt place = false) (h : d.isDirectoryAt here = true) :
    (d.put place (.file content)).isDirectoryAt here = true := by
  induction place generalizing d here with
  | nil =>
    have hfile : d.isDirectory = false := hplace
    cases d with
    | directory entries => exact absurd hfile (by simp [isDirectory])
    | file c =>
      cases here with
      | nil => exact absurd h (by simp [isDirectoryAt, at?, isDirectory])
      | cons n ns => simp [isDirectoryAt_cons, child?] at h
  | cons name names ih =>
    cases d with
    | file c => exact h
    | directory entries =>
      cases here with
      | nil => rfl
      | cons n ns =>
        rw [isDirectoryAt_cons, child?_directory] at h hplace
        rw [put, isDirectoryAt_cons, child?_directory, Entries.lookup_put]
        by_cases hn : n = name
        · subst hn
          cases hsub : entries.lookup n with
          | none => simp [hsub] at h
          | some sub =>
            rw [hsub] at h hplace
            simpa using ih hplace h
        · rw [if_neg hn]
          exact h

/-! ### Following a path -/

/-- The place to which a path leads lies in a directory, if it is not the top. -/
theorem isDirectoryAt_of_follow {d : Disk} {pieces : List String} {here place : Place}
    (hhere : d.isDirectoryAt here.dropLast = true) (h : d.follow here pieces = some place) :
    d.isDirectoryAt place.dropLast = true := by
  induction pieces generalizing here with
  | nil =>
    obtain rfl : here = place := by simpa [follow] using h
    exact hhere
  | cons piece rest ih =>
    rw [follow] at h
    by_cases hdir : d.isDirectoryAt here = true
    · rw [if_pos hdir] at h
      by_cases hidle : Path.isIdle piece = true
      · rw [if_pos hidle] at h
        exact ih hhere h
      · rw [if_neg hidle] at h
        by_cases hup : piece = ".."
        · rw [if_pos hup] at h
          exact ih (isDirectoryAt_dropLast hhere) h
        · rw [if_neg hup] at h
          refine ih ?_ h
          rwa [List.dropLast_concat]
    · rw [if_neg hdir] at h
      exact absurd h (by simp)

/-- A path that leads through directories leads to the same place where these are directories too. -/
theorem follow_of_directories {d d' : Disk}
    (hdir : ∀ here, d.isDirectoryAt here = true → d'.isDirectoryAt here = true)
    {pieces : List String} {here place : Place} (h : d.follow here pieces = some place) :
    d'.follow here pieces = some place := by
  induction pieces generalizing here with
  | nil => exact h
  | cons piece rest ih =>
    rw [follow] at h ⊢
    by_cases hhere : d.isDirectoryAt here = true
    · rw [if_pos hhere] at h
      rw [if_pos (hdir here hhere)]
      by_cases hidle : Path.isIdle piece = true
      · rw [if_pos hidle] at h ⊢
        exact ih h
      · rw [if_neg hidle] at h ⊢
        by_cases hup : piece = ".."
        · rw [if_pos hup] at h ⊢
          exact ih h
        · rw [if_neg hup] at h ⊢
          exact ih h
    · rw [if_neg hhere] at h
      exact absurd h (by simp)

/-! ### Files -/

theorem piecesOf_ne_nil (cs : List Char) : Path.piecesOf cs ≠ [] := by
  cases cs with
  | nil => simp [Path.piecesOf]
  | cons c cs =>
    by_cases hc : c = '/'
    · simp [Path.piecesOf, hc]
    · cases h : Path.piecesOf cs <;> simp [Path.piecesOf, hc, h]

theorem pieces_ne_nil (path : String) : Path.pieces path ≠ [] := by simp [Path.pieces, piecesOf_ne_nil]

/-- **A file that was written holds what was written.** -/
theorem read?_of_write? {d d' : Disk} {path : String} {content : Content}
    (h : d.write? path content = some d') : d'.read? path = some content := by
  cases hfollow : d.follow [] (Path.pieces path) with
  | none => simp [write?, hfollow] at h
  | some place =>
    cases hplace : d.isDirectoryAt place with
    | true => simp [write?, hfollow, hplace] at h
    | false =>
      obtain rfl : d.put place (.file content) = d' := by
        simpa [write?, hfollow, hplace] using h
      obtain ⟨piece, rest, hpieces⟩ := List.exists_cons_of_ne_nil (pieces_ne_nil path)
      have htop : d.isDirectoryAt [] = true := by
        rw [hpieces, follow] at hfollow
        by_cases htop : d.isDirectoryAt [] = true
        · exact htop
        · simp [htop] at hfollow
      have hne : place ≠ [] := by
        rintro rfl
        simp [htop] at hplace
      have hparent :=
        isDirectoryAt_of_follow (show d.isDirectoryAt (List.dropLast []) = true from htop) hfollow
      have hagain := follow_of_directories (fun _ => isDirectoryAt_put content hplace) hfollow
      simp only [read?, find?, hagain, Option.bind_some, at?_put _ hne hparent]

theorem readText?_of_write? {d d' : Disk} {path s : String} (h : d.write? path (.text s) = some d') :
    d'.readText? path = some s := by
  rw [readText?, read?_of_write? h]

theorem exists?_of_read? {d : Disk} {path : String} {content : Content} (h : d.read? path = some content) :
    d.exists? path = true := by
  cases hfind : d.find? (Path.pieces path) with
  | none => simp [read?, hfind] at h
  | some entry => simp [exists?, hfind]

theorem exists?_of_readText? {d : Disk} {path s : String} (h : d.readText? path = some s) :
    d.exists? path = true := by
  cases hread : d.read? path with
  | some content => exact exists?_of_read? hread
  | none => simp [readText?, hread] at h

end WalletHub.Disk
