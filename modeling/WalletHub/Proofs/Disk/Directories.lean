import WalletHub.Proofs.Disk

/-!
# Making directories

Where directories are made, whatever stood anywhere still stands there, and what is new are directories to
which one of the paths leads (`Laid`). This is so for a path that could be made with all those above it and for
one that could not, since what was made until then stays (`laid_makeDirectories`). A path that could be made
names a directory (`namesDirectory_of_makeDirectories`), so that nothing is left to be made the next time.

## What is proved

* `seen_put_empty`: to put an empty directory where nothing was changes what is seen there and nowhere else.
* `follow_append`, `namesDirectory_iff`, `exists?_of_namesDirectory`: where the pieces of a path lead.
* `Laid.refl`, `Laid.mono`, `Laid.trans`: the relation of a disk to what becomes of it.
* `Laid.isDirectoryAt`, `Laid.follow`, `Laid.namesDirectory`: what was a directory is one still, and paths lead
  where they have led.
* `laid_makeDirectory`, `laid_ensureDirectory`, `laid_ensureAll`, `laid_makeDirectories`: from one directory to
  all of a path.
* `namesDirectory_of_makeDirectories`: a path that could be made names a directory.
-/

namespace WalletHub.Disk

/-! ### What is seen at a place -/

/-- What can be seen at a place: a file with its content, or a directory. -/
inductive Sight where
  | file (content : Content)
  | directory
  deriving DecidableEq, Repr

/-- What a file or a directory looks like. -/
def sight : Disk → Sight
  | .file content => .file content
  | .directory _ => .directory

/-- What is seen at a place. -/
def seen (d : Disk) (place : Place) : Option Sight := (d.at? place).map sight

theorem seen_cons (d : Disk) (name : String) (names : Place) :
    d.seen (name :: names) = (d.child? name).bind fun sub => sub.seen names := by
  cases h : d.child? name <;> simp [seen, at?, h]

theorem isDirectoryAt_iff (d : Disk) (place : Place) :
    d.isDirectoryAt place = true ↔ d.seen place = some .directory := by
  cases h : d.at? place with
  | none => simp [isDirectoryAt, seen, h]
  | some entry => cases entry <;> simp [isDirectoryAt, seen, h, isDirectory, sight]

/-- Only a directory has something below it. -/
theorem exists_directory {d : Disk} (h : d.isDirectoryAt [] = true) : ∃ entries, d = .directory entries := by
  cases d with
  | file content => simp [isDirectoryAt, at?, isDirectory] at h
  | directory entries => exact ⟨entries, rfl⟩

/-- The place above all places in a directory is the disk itself. -/
theorem isDirectoryAt_nil {d : Disk} {place : Place} (h : d.isDirectoryAt place = true) :
    d.isDirectoryAt [] = true := by
  induction place generalizing d with
  | nil => exact h
  | cons name names ih =>
    cases d with
    | file content => simp [isDirectoryAt_cons, child?] at h
    | directory entries => rfl

/-- **A directory that is put where nothing was is all that is new.** -/
theorem seen_put_empty {d : Disk} {place : Place} (hne : place ≠ [])
    (parent : d.isDirectoryAt place.dropLast = true) (free : d.at? place = none) (other : Place) :
    (d.put place empty).seen other = if other = place then some .directory else d.seen other := by
  induction place generalizing d other with
  | nil => exact absurd rfl hne
  | cons name names ih =>
    obtain ⟨entries, rfl⟩ := exists_directory (isDirectoryAt_nil parent)
    cases other with
    | nil => rfl
    | cons n ns =>
      rw [put, seen_cons, seen_cons, child?_directory, child?_directory, Entries.lookup_put]
      by_cases hn : n = name
      · subst hn
        rw [if_pos rfl, Option.bind_some]
        cases names with
        | nil =>
          have hnone : entries.lookup n = none := by simpa [at?, child?_directory] using free
          rw [hnone]
          cases ns with
          | nil => rw [if_pos rfl]; rfl
          | cons m ms => rw [if_neg (by simp)]; rfl
        | cons next rest =>
          rw [List.dropLast_cons_of_ne_nil (List.cons_ne_nil next rest), isDirectoryAt_cons,
            child?_directory] at parent
          cases hsub : entries.lookup n with
          | none => simp [hsub] at parent
          | some sub =>
            rw [hsub] at parent
            rw [at?, child?_directory, hsub, Option.bind_some] at free
            rw [Option.getD_some, ih (List.cons_ne_nil next rest) parent free]
            simp
      · rw [if_neg hn, if_neg (fun he => hn (List.cons.inj he).1)]

/-! ### Paths in pieces -/

/-- A path is followed piece by piece. -/
theorem follow_append (d : Disk) (here : Place) (pieces rest : List String) :
    d.follow here (pieces ++ rest) = (d.follow here pieces).bind fun place => d.follow place rest := by
  induction pieces generalizing here with
  | nil => rfl
  | cons piece pieces ih =>
    rw [List.cons_append, follow, follow]
    split
    · split
      · exact ih here
      · split
        · exact ih here.dropLast
        · exact ih (here ++ [piece])
    · rfl

/-- What names a directory leads to one. -/
theorem namesDirectory_iff (d : Disk) (pieces : List String) :
    d.namesDirectory pieces = true ↔ ∃ place, d.follow [] pieces = some place ∧ d.isDirectoryAt place = true := by
  cases hfollow : d.follow [] pieces with
  | none => simp [namesDirectory, find?, hfollow]
  | some place =>
    cases hat : d.at? place with
    | none => simp [namesDirectory, find?, hfollow, isDirectoryAt, hat]
    | some entry => simp [namesDirectory, find?, hfollow, isDirectoryAt, hat]

/-- What names a directory is there. -/
theorem exists?_of_namesDirectory {d : Disk} {path : String} (h : d.namesDirectory (Path.pieces path) = true) :
    d.exists? path = true := by
  cases hfind : d.find? (Path.pieces path) with
  | none => simp [namesDirectory, hfind] at h
  | some entry => simp [exists?, hfind]

/-- After the last piece of a path there are only empty ones. -/
theorem eq_of_splitLast {pieces before : List String} {last : String}
    (h : splitLast pieces = some (before, last)) :
    last ≠ "" ∧ ∃ count, pieces = before ++ last :: List.replicate count "" := by
  unfold splitLast at h
  split at h
  · exact nomatch h
  · next last' before' hdrop =>
    obtain ⟨rfl, rfl⟩ := Prod.mk.inj (Option.some.inj h)
    have hhead := List.head?_dropWhile_not (fun p => p == "") pieces.reverse
    rw [hdrop] at hhead
    obtain ⟨count, hcount⟩ : ∃ count, (pieces.reverse.takeWhile fun p => p == "") = List.replicate count "" :=
      ⟨_, List.eq_replicate_of_mem fun p hp => beq_iff_eq.mp (List.all_eq_true.mp List.all_takeWhile p hp)⟩
    have hsplit := List.takeWhile_append_dropWhile (p := fun p => p == "") (l := pieces.reverse)
    rw [hdrop, hcount] at hsplit
    refine ⟨by simpa using hhead, count, ?_⟩
    rw [← List.reverse_reverse pieces, ← hsplit]
    simp

/-- Empty pieces stay in a directory. -/
theorem follow_replicate {d : Disk} {place : Place} (hdir : d.isDirectoryAt place = true) (count : Nat) :
    d.follow place (List.replicate count "") = some place := by
  induction count with
  | zero => rfl
  | succ count ih =>
    rw [List.replicate_succ, follow, if_pos hdir, if_pos (by rfl)]
    exact ih

/-- A directory's name is a piece that leads down. -/
theorem isIdle_of_isName {name : String} (hempty : name ≠ "") (h : isName name = true) :
    Path.isIdle name = false ∧ name ≠ ".." := by
  simp only [isName, Bool.and_eq_true, bne_iff_ne] at h
  obtain ⟨⟨⟨hdot, hup⟩, -⟩, -⟩ := h
  refine ⟨?_, hup⟩
  simp only [Path.isIdle, Bool.or_eq_false_iff, beq_eq_false_iff_ne]
  exact ⟨hempty, hdot⟩

/-! ### One directory -/

/-- Whatever stood anywhere still stands there, and what is new are directories to which one of the paths leads. -/
def Laid (d d' : Disk) (paths : List (List String)) : Prop :=
  ∀ place, d'.seen place = d.seen place ∨
    d.seen place = none ∧ d'.seen place = some .directory ∧ ∃ pieces ∈ paths, d'.follow [] pieces = some place

namespace Laid

variable {d d' d'' : Disk} {paths paths' : List (List String)}

theorem refl (d : Disk) (paths : List (List String)) : Laid d d paths := fun _ => Or.inl rfl

theorem mono (h : Laid d d' paths) (hsub : paths ⊆ paths') : Laid d d' paths' := by
  intro place
  rcases h place with hsame | ⟨hnone, hnew, pieces, hpieces, hfollow⟩
  · exact Or.inl hsame
  · exact Or.inr ⟨hnone, hnew, pieces, hsub hpieces, hfollow⟩

/-- Directories stay. -/
theorem isDirectoryAt (h : Laid d d' paths) (place : Place) (hdir : d.isDirectoryAt place = true) :
    d'.isDirectoryAt place = true := by
  rw [isDirectoryAt_iff] at hdir ⊢
  rcases h place with hsame | ⟨hnone, -⟩
  · rw [hsame, hdir]
  · exact nomatch hnone.symm.trans hdir

/-- A path that leads somewhere leads there still. -/
theorem follow (h : Laid d d' paths) {pieces : List String} {place : Place}
    (hfollow : d.follow [] pieces = some place) : d'.follow [] pieces = some place :=
  follow_of_directories h.isDirectoryAt hfollow

theorem namesDirectory (h : Laid d d' paths) {pieces : List String} (hnames : d.namesDirectory pieces = true) :
    d'.namesDirectory pieces = true := by
  obtain ⟨place, hfollow, hdir⟩ := (namesDirectory_iff d pieces).mp hnames
  exact (namesDirectory_iff d' pieces).mpr ⟨place, h.follow hfollow, h.isDirectoryAt place hdir⟩

theorem trans (h : Laid d d' paths) (h' : Laid d' d'' paths) : Laid d d'' paths := by
  intro place
  rcases h' place with hsame' | ⟨hnone', hnew', hpath'⟩
  · rcases h place with hsame | ⟨hnone, hnew, pieces, hpieces, hfollow⟩
    · exact Or.inl (hsame'.trans hsame)
    · exact Or.inr ⟨hnone, hsame'.trans hnew, pieces, hpieces, h'.follow hfollow⟩
  · rcases h place with hsame | ⟨-, hnew, -⟩
    · exact Or.inr ⟨hsame.symm.trans hnone', hnew', hpath'⟩
    · exact nomatch hnone'.symm.trans hnew

end Laid

/-- A directory that was made is all that is new, and its path leads to it. -/
theorem laid_makeDirectory {d d' : Disk} {pieces : List String} (h : d.makeDirectory pieces = some d') :
    Laid d d' [pieces] ∧ d'.namesDirectory pieces = true := by
  unfold makeDirectory at h
  split at h
  · exact nomatch h
  · next before name hsplit =>
    split at h
    · exact nomatch h
    · next parent hparent =>
      split at h
      · next hcan =>
        obtain rfl := Option.some.inj h
        rw [Bool.and_eq_true, Bool.and_eq_true, Option.isNone_iff_eq_none] at hcan
        obtain ⟨⟨hname, hdir⟩, hfree⟩ := hcan
        obtain ⟨hempty, count, rfl⟩ := eq_of_splitLast hsplit
        have hdrop : d.isDirectoryAt (parent ++ [name]).dropLast = true := by rwa [List.dropLast_concat]
        have hseen := seen_put_empty (by simp) hdrop hfree
        have hkept (here : Place) (hhere : d.isDirectoryAt here = true) :
            (d.put (parent ++ [name]) empty).isDirectoryAt here = true := by
          rw [isDirectoryAt_iff] at hhere ⊢
          rw [hseen]
          split
          · rfl
          · exact hhere
        have hmade : (d.put (parent ++ [name]) empty).isDirectoryAt (parent ++ [name]) = true := by
          rw [isDirectoryAt_iff, hseen, if_pos rfl]
        have hleads : (d.put (parent ++ [name]) empty).follow [] (before ++ name :: List.replicate count "") =
            some (parent ++ [name]) := by
          obtain ⟨hidle, hup⟩ := isIdle_of_isName hempty hname
          rw [follow_append, follow_of_directories hkept hparent, Option.bind_some, follow, if_pos (hkept _ hdir),
            if_neg (Bool.eq_false_iff.mp hidle), if_neg hup]
          exact follow_replicate hmade count
        constructor
        · intro place
          rw [hseen]
          split
          · next hplace =>
            subst hplace
            refine Or.inr ⟨?_, rfl, _, List.mem_singleton.mpr rfl, hleads⟩
            rw [seen, hfree, Option.map_none]
          · exact Or.inl rfl
        · exact (namesDirectory_iff _ _).mpr ⟨_, hleads, hmade⟩
      · exact nomatch h

/-! ### A directory with all those above it -/

theorem laid_ensureDirectory (d : Disk) (pieces : List String) :
    Laid d (kept (d.ensureDirectory pieces)) [pieces] ∧
      ∀ d', d.ensureDirectory pieces = .ok d' → d'.namesDirectory pieces = true := by
  unfold ensureDirectory
  split
  · next hnames =>
    refine ⟨.refl d _, ?_⟩
    intro d' h
    obtain rfl := Except.ok.inj h
    exact hnames
  · split
    · next made hmade =>
      obtain ⟨hlaid, hnames⟩ := laid_makeDirectory hmade
      refine ⟨hlaid, ?_⟩
      intro d' h
      obtain rfl := Except.ok.inj h
      exact hnames
    · exact ⟨.refl d _, nofun⟩

/-- Where directories are made one after the other, what was made before one that cannot be made stays. -/
theorem laid_ensureAll (d : Disk) (paths : List (List String)) :
    Laid d (kept (d.ensureAll paths)) paths ∧
      ∀ d', d.ensureAll paths = .ok d' → ∀ pieces ∈ paths, d'.namesDirectory pieces = true := by
  induction paths generalizing d with
  | nil => exact ⟨.refl d _, fun _ _ _ h => nomatch h⟩
  | cons pieces paths ih =>
    obtain ⟨hfirst, hnames⟩ := laid_ensureDirectory d pieces
    have hsub : [pieces] ⊆ pieces :: paths := List.cons_subset_cons _ (List.nil_subset _)
    cases hensure : d.ensureDirectory pieces with
    | error made =>
      rw [hensure] at hfirst
      simp only [ensureAll, hensure]
      exact ⟨hfirst.mono hsub, nofun⟩
    | ok made =>
      rw [hensure] at hfirst
      obtain ⟨hrest, hothers⟩ := ih made
      simp only [ensureAll, hensure]
      refine ⟨(hfirst.mono hsub).trans (hrest.mono (List.subset_cons_self _ _)), ?_⟩
      intro d' h other hother
      rcases List.mem_cons.mp hother with rfl | hlater
      · have hmade := hnames made hensure
        rw [h] at hrest
        exact hrest.namesDirectory hmade
      · exact hothers d' h other hlater

/-- The paths on the way of a path: those of the directories above it, and its own. -/
def way (path : String) : List (List String) := above [] (Path.pieces path) ++ [Path.pieces path]

/-- **Whether or not a path could be made, nothing has changed but for directories on its way.** -/
theorem laid_makeDirectories (d : Disk) (path : String) : Laid d (kept (d.makeDirectories path)) (way path) :=
  (laid_ensureAll d (way path)).1

/-- **A path that could be made names a directory.** -/
theorem namesDirectory_of_makeDirectories {d d' : Disk} {path : String} (h : d.makeDirectories path = .ok d') :
    d'.namesDirectory (Path.pieces path) = true :=
  (laid_ensureAll d (way path)).2 d' h _ (List.mem_append_right _ (List.mem_singleton.mpr rfl))

end WalletHub.Disk
