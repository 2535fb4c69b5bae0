/-!
# Paths

A path is a text of pieces with strokes between them. Empty pieces and pieces of one dot name
nothing of their own, except that a dot at the very front of a relative path is part of it.

## The model

* `Path.pieces`: the pieces of a path, the empty ones with them, as the disk follows them.
* `Path.parts`, `Path.same`: whether the path is absolute, whether it begins with a dot, and the pieces that name
  something; paths are the same when these are. Two dots are a piece like any other, since what they name is
  known only on a disk.
* `Path.join`: the path of a name inside a directory, with a stroke between them unless there is one. A name that
  begins at the root stands for itself.
-/

namespace WalletHub.Path

/-- The pieces between the strokes. -/
def piecesOf : List Char → List (List Char)
  | [] => [[]]
  | c :: cs =>
    if c = '/' then [] :: piecesOf cs
    else match piecesOf cs with
      | [] => [[c]]
      | piece :: pieces => (c :: piece) :: pieces

/-- The pieces of a path. -/
def pieces (path : String) : List String := (piecesOf path.toList).map String.ofList

/-- The piece names nothing of its own. -/
def isIdle (piece : String) : Bool := piece == "" || piece == "."

/-- What a path names: whether it starts at the root or with a dot, and the pieces that count. -/
def parts (path : String) : Bool × Bool × List String :=
  let ps := pieces path
  let rooted := ps.length != 1 && ps.head? == some ""
  (rooted, ps.head? == some ".", ps.filter fun p => !isIdle p)

/-- Two texts are the same path. -/
def same (a b : String) : Bool := parts a == parts b

/-- The path of a name inside a directory. -/
def join (directory name : String) : String :=
  if name.toList.head? = some '/' then name
  else if directory = "" ∨ directory.toList.getLast? = some '/' then directory ++ name
  else directory ++ "/" ++ name

example : pieces "a//b/" = ["a", "", "b", ""] := by decide +kernel
example : same "./data//wallets/." "./data/wallets" = true := by decide +kernel
example : same "./data" "data" = false := by decide +kernel

end WalletHub.Path
