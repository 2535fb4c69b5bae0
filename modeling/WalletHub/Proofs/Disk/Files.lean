import WalletHub.Proofs.Disk.Directories

/-!
# A file in a directory

The path of a name inside a directory leads to that name in the directory, if it is one, and nowhere otherwise
(`follow_join`). So a file can be written there exactly where the directory is one and has no directory of this
name, and writing it leaves this so (`Ready.write`).

## What is proved

* `Path.piecesOf_append`, `Path.pieces_join`: the pieces of a path inside a directory.
* `follow_plain`, `follow_join`: where the name leads to.
* `Ready.write`: in a usable directory the file can be written, which leaves the directory usable.
* `Ready.not_write`: in one that is a file it cannot.
* `namesDirectory_iff_read?`, `read?_of_not_exists`: something is a directory exactly if it is there and cannot
  be read as a file.
-/

namespace WalletHub

/-! ### The pieces of a joined path -/

namespace Path

/-- A stroke separates pieces. -/
theorem piecesOf_append (cs ds : List Char) : piecesOf (cs ++ '/' :: ds) = piecesOf cs ++ piecesOf ds := by
  induction cs with
  | nil => rfl
  | cons c cs ih =>
    rw [List.cons_append, piecesOf, piecesOf, ih]
    split
    · rfl
    · obtain ⟨piece, pieces, hpieces⟩ := List.exists_cons_of_ne_nil (Disk.piecesOf_ne_nil cs)
      rw [hpieces]
      rfl

/-- Without strokes there is one piece. -/
theorem piecesOf_of_not_mem {cs : List Char} (h : '/' ∉ cs) : piecesOf cs = [cs] := by
  induction cs with
  | nil => rfl
  | cons c cs ih =>
    have hc : c ≠ '/' := fun hc => h (hc ▸ List.mem_cons_self)
    rw [piecesOf, if_neg hc, ih fun hcs => h (List.mem_cons_of_mem c hcs)]

/-- It is the name of something in a directory: one piece, that leads down. -/
structure IsPlain (name : String) : Prop where
  whole : '/' ∉ name.toList
  counts : isIdle name = false
  down : name ≠ ".."

/-- The name comes after the pieces of the directory, of which an empty one at the end is left out. -/
theorem pieces_join (directory : String) {name : String} (plain : IsPlain name) :
    ∃ before, pieces (join directory name) = before ++ [name] ∧
      (pieces directory = before ∨ pieces directory = before ++ [""]) := by
  have hname : (piecesOf name.toList).map String.ofList = [name] := by
    rw [piecesOf_of_not_mem plain.whole, List.map_singleton, String.ofList_toList]
  have hhead : name.toList.head? ≠ some '/' := fun h => plain.whole (List.mem_of_mem_head? h)
  unfold join
  rw [if_neg hhead]
  by_cases hempty : directory = ""
  · subst hempty
    rw [if_pos (Or.inl rfl)]
    refine ⟨[], ?_, Or.inr rfl⟩
    rw [pieces, String.toList_append]
    exact hname
  · cases hlast : decide (directory.toList.getLast? = some '/') with
    | true =>
      have hstroke := of_decide_eq_true hlast
      rw [if_pos (Or.inr hstroke)]
      obtain ⟨cs, hcs⟩ := List.getLast?_eq_some_iff.mp hstroke
      refine ⟨(piecesOf cs).map String.ofList, ?_, Or.inr ?_⟩
      · rw [pieces, String.toList_append, hcs, List.append_assoc, List.singleton_append, piecesOf_append,
          List.map_append, hname]
      · rw [pieces, hcs, piecesOf_append, List.map_append]
        rfl
    | false =>
      have hopen := of_decide_eq_false hlast
      rw [if_neg (not_or.mpr ⟨hempty, hopen⟩)]
      refine ⟨pieces directory, ?_, Or.inl rfl⟩
      rw [pieces, String.toList_append, String.toList_append, List.append_assoc]
      show List.map String.ofList (piecesOf (directory.toList ++ '/' :: name.toList)) = _
      rw [piecesOf_append, List.map_append, hname, pieces]

end Path

/-! ### Following a joined path -/

namespace Disk

theorem follow_plain (d : Disk) (here : Place) {name : String} (plain : Path.IsPlain name) :
    d.follow here [name] = if d.isDirectoryAt here then some (here ++ [name]) else none := by
  rw [follow]
  split
  · rw [if_neg (Bool.eq_false_iff.mp plain.counts), if_neg plain.down]
    rfl
  · rfl

/-- **The path of a name inside a directory leads into the directory**, and nowhere if it is none. -/
theorem follow_join (d : Disk) (directory : String) {name : String} (plain : Path.IsPlain name) (place : Place) :
    d.follow [] (Path.pieces (Path.join directory name)) = some place ↔
      ∃ here, place = here ++ [name] ∧ d.follow [] (Path.pieces directory) = some here ∧
        d.isDirectoryAt here = true := by
  obtain ⟨before, hjoin, hdirectory⟩ := Path.pieces_join directory plain
  rw [hjoin, follow_append]
  cases hbefore : d.follow [] before with
  | none => rcases hdirectory with h | h <;> simp [h, follow_append, hbefore]
  | some here =>
    have hempty : d.follow here [""] = if d.isDirectoryAt here then some here else none := by
      rw [follow]
      rfl
    have hleads (place : Place) : (d.follow [] (Path.pieces directory) = some place ∧ d.isDirectoryAt place = true) ↔
        place = here ∧ d.isDirectoryAt here = true := by
      rcases hdirectory with h | h
      · rw [h, hbefore, Option.some.injEq]
        constructor <;> rintro ⟨rfl, hplace⟩ <;> exact ⟨rfl, hplace⟩
      · rw [h, follow_append, hbefore, Option.bind_some, hempty]
        cases hhere : d.isDirectoryAt here with
        | true =>
          rw [if_pos rfl, Option.some.injEq]
          constructor <;> rintro ⟨rfl, -⟩
          · exact ⟨rfl, rfl⟩
          · exact ⟨rfl, hhere⟩
        | false => simp
    simp only [hleads, Option.bind_some, follow_plain d here plain]
    cases d.isDirectoryAt here with
    | true => simp [eq_comm]
    | false => simp

/-! ### Writing in a directory -/

/-- Something has the path of the directory, a directory exactly if it is usable, and no directory in it has the
name. -/
structure Ready (directory name : String) (usable : Bool) (d : Disk) : Prop where
  there : d.exists? directory = true
  kind : d.namesDirectory (Path.pieces directory) = usable
  free : ∀ place, d.follow [] (Path.pieces (Path.join directory name)) = some place → d.isDirectoryAt place = false

namespace Ready

variable {d : Disk} {directory name : String}

/-- **In a usable directory a file can be written again and again.** -/
theorem write (ready : d.Ready directory name true) (plain : Path.IsPlain name) (content : Content) :
    ∃ d', d.write? (Path.join directory name) content = some d' ∧ d'.Ready directory name true := by
  obtain ⟨here, hdirectory, hhere⟩ := (namesDirectory_iff d _).mp ready.kind
  have hfollow := (d.follow_join directory plain (here ++ [name])).mpr ⟨here, rfl, hdirectory, hhere⟩
  have hfree := ready.free _ hfollow
  have hkept (place : Place) (h : d.isDirectoryAt place = true) :
      (d.put (here ++ [name]) (.file content)).isDirectoryAt place = true := isDirectoryAt_put content hfree h
  have hkind : (d.put (here ++ [name]) (.file content)).namesDirectory (Path.pieces directory) = true :=
    (namesDirectory_iff _ _).mpr ⟨here, follow_of_directories hkept hdirectory, hkept here hhere⟩
  refine ⟨d.put (here ++ [name]) (.file content), ?_, exists?_of_namesDirectory hkind, hkind, ?_⟩
  · simp only [write?, hfollow, hfree, Bool.false_eq_true, if_false]
  · intro place hplace
    obtain rfl := Option.some.inj ((follow_of_directories hkept hfollow).symm.trans hplace)
    have hparent : d.isDirectoryAt (here ++ [name]).dropLast = true := by rwa [List.dropLast_concat]
    have hput := at?_put (.file content) (List.concat_ne_nil name here) hparent
    simp only [isDirectoryAt, hput, isDirectory]

/-- Where the directory is none no file can be written in it. -/
theorem not_write (ready : d.Ready directory name false) (plain : Path.IsPlain name) (content : Content) :
    d.write? (Path.join directory name) content = none := by
  cases hfollow : d.follow [] (Path.pieces (Path.join directory name)) with
  | none => simp only [write?, hfollow]
  | some place =>
    obtain ⟨here, -, hdirectory, hhere⟩ := (d.follow_join directory plain place).mp hfollow
    have hkind := (namesDirectory_iff d _).mpr ⟨here, hdirectory, hhere⟩
    cases hkind.symm.trans ready.kind

end Ready

/-- What has a path is a file or a directory. -/
theorem namesDirectory_iff_read? {d : Disk} {path : String} (there : d.exists? path = true) :
    d.namesDirectory (Path.pieces path) = true ↔ d.read? path = none := by
  unfold namesDirectory read?
  unfold exists? at there
  cases hfind : d.find? (Path.pieces path) with
  | none => rw [hfind] at there; exact nomatch there
  | some entry => cases entry <;> simp [isDirectory]

/-- What has no path is no file. -/
theorem read?_of_not_exists {d : Disk} {path : String} (absent : d.exists? path = false) : d.read? path = none := by
  unfold read?
  unfold exists? at absent
  rw [Option.isSome_eq_false_iff, Option.isNone_iff_eq_none] at absent
  rw [absent]

end Disk

end WalletHub
