import WalletHub.Entries
import WalletHub.Path

/-!
# The disk

A tree of directories and files, and the few operations that wallet systems and the hub need:
looking up a path, making a directory with all those above it, and reading and writing a file. A
path is followed piece by piece. An empty piece or a dot stays in place, two dots go one level up,
and every piece but the first needs a directory to be followed from, so that `a/` names only a
directory. What kind of fault stopped an operation is not kept.

## The model

* `Disk`, `Content`: the tree. A file holds a text, or bytes that are none.
* `at?`, `put`, `erase`: what stands at a place, which is a list of names from the root, and how it is changed.
* `follow`: the place to which the pieces of a path lead, if they lead anywhere.
* `makeDirectories`: makes a directory with all those above it, from the top down, and says what the disk is like
  when it has failed on the way.
* `readText?`, `write?`: reading and writing a file. A file is written at once, so that no half of it is ever
  seen.
* `installFile`, `installDirectory`, `remove`: what is done to the disk from outside of the program.

Links, permissions and the time of a file are left out, and a disk is never full. What was written can be read
again (`WalletHub.Proofs.Disk`), and directories that are made change nothing else
(`WalletHub.Proofs.Disk.Directories`).
-/

namespace WalletHub

/-- What a file holds. -/
inductive Content where
  | text (s : String)
  /-- Bytes that are no text. -/
  | binary
  deriving DecidableEq, Repr

/-- A file, or a directory with its named entries. -/
inductive Disk where
  | file (content : Content)
  | directory (entries : List (String × Disk))

namespace Disk

/-- A directory without entries. -/
def empty : Disk := .directory []

/-- The names that lead from the top to a file or directory. -/
abbrev Place := List String

/-! ### Entries by place -/

/-- What has a name in a directory. -/
def child? (name : String) : Disk → Option Disk
  | .file _ => none
  | .directory entries => entries.lookup name

/-- What stands at a place. -/
def at? : Place → Disk → Option Disk
  | [], d => some d
  | name :: names, d => (d.child? name).bind (at? names)

/-- Puts something at a place, in directories that are made where none is. Nothing is put below a
file. -/
def put : Disk → Place → Disk → Disk
  | _, [], new => new
  | .file content, _ :: _, _ => .file content
  | .directory entries, name :: names, new =>
    .directory (Entries.put name (put ((entries.lookup name).getD empty) names new) entries)

/-- Takes away what stands at a place. -/
def erase : Disk → Place → Disk
  | d, [] => d
  | .file content, _ => .file content
  | .directory entries, [name] => .directory (Entries.drop name entries)
  | .directory entries, name :: names =>
    match entries.lookup name with
    | none => .directory entries
    | some d => .directory (Entries.put name (erase d names) entries)

/-- It is a directory. -/
def isDirectory : Disk → Bool
  | .file _ => false
  | .directory _ => true

/-- A directory stands at the place. -/
def isDirectoryAt (d : Disk) (place : Place) : Bool :=
  match d.at? place with
  | some entry => entry.isDirectory
  | none => false

/-! ### Following paths -/

/-- The place to which the pieces of a path lead from `here`, whether or not something stands
there. -/
def follow (d : Disk) : Place → List String → Option Place
  | here, [] => some here
  | here, piece :: rest =>
    if d.isDirectoryAt here then
      if Path.isIdle piece then follow d here rest
      else if piece = ".." then follow d here.dropLast rest
      else follow d (here ++ [piece]) rest
    else none

/-- What the pieces of a path name. -/
def find? (d : Disk) (pieces : List String) : Option Disk :=
  (d.follow [] pieces).bind fun place => d.at? place

/-- Something has the path. -/
def exists? (d : Disk) (path : String) : Bool := (d.find? (Path.pieces path)).isSome

/-- The pieces name a directory. -/
def namesDirectory (d : Disk) (pieces : List String) : Bool :=
  match d.find? pieces with
  | some entry => entry.isDirectory
  | none => false

/-! ### Making directories -/

/-- The pieces before the last one and the last one, empty pieces at the end left out. -/
def splitLast (pieces : List String) : Option (List String × String) :=
  match (pieces.reverse.dropWhile fun p => p == "") with
  | [] => none
  | last :: before => some (before.reverse, last)

/-- A directory can have this name: it is one, it has no character 0, and it takes at most 255
bytes. -/
def isName (name : String) : Bool :=
  name != "." && name != ".." && !name.toList.contains (Char.ofNat 0) && name.utf8ByteSize ≤ 255

/-- Makes one directory, in a directory that has no entry of its name. -/
def makeDirectory (d : Disk) (pieces : List String) : Option Disk :=
  match splitLast pieces with
  | none => none
  | some (before, name) => match d.follow [] before with
    | none => none
    | some parent =>
      if isName name && d.isDirectoryAt parent && (d.at? (parent ++ [name])).isNone then
        some (d.put (parent ++ [name]) empty)
      else none

/-- Makes a directory unless there is one. -/
def ensureDirectory (d : Disk) (pieces : List String) : Except Disk Disk :=
  if d.namesDirectory pieces then .ok d
  else match d.makeDirectory pieces with
    | some made => .ok made
    | none => .error d

/-- The paths of the directories above a path, the topmost first. -/
def above (before : List String) : List String → List (List String)
  | [] => []
  | piece :: rest =>
    let here := before ++ [piece]
    if Path.isIdle piece || rest.all Path.isIdle then above here rest
    else here :: above here rest

/-- Makes the directories of a list of paths one after the other. At the first that cannot be
made the error holds what has been made until then. -/
def ensureAll (d : Disk) : List (List String) → Except Disk Disk
  | [] => .ok d
  | pieces :: rest => match d.ensureDirectory pieces with
    | .ok made => ensureAll made rest
    | .error made => .error made

/-- Makes a directory with all those above it. -/
def makeDirectories (d : Disk) (path : String) : Except Disk Disk :=
  let pieces := Path.pieces path
  d.ensureAll (above [] pieces ++ [pieces])

/-! ### Files -/

/-- The content of a file. -/
def read? (d : Disk) (path : String) : Option Content :=
  match d.find? (Path.pieces path) with
  | some (.file content) => some content
  | _ => none

/-- The text of a file. -/
def readText? (d : Disk) (path : String) : Option String :=
  match d.read? path with
  | some (.text s) => some s
  | _ => none

/-- Writes a file, in a directory that is there. -/
def write? (d : Disk) (path : String) (content : Content) : Option Disk :=
  match d.follow [] (Path.pieces path) with
  | none => none
  | some place => if d.isDirectoryAt place then none else some (d.put place (.file content))

/-- The disk after an attempt, whether or not it went through. -/
def kept : Except Disk Disk → Disk
  | .ok d => d
  | .error d => d

/-- Puts a file at a path, together with the directories above it, if that can be done. -/
def installFile (d : Disk) (path : String) (content : Content) : Disk :=
  let made := kept (d.ensureAll (above [] (Path.pieces path)))
  (made.write? path content).getD made

/-- Makes a directory with those above it, if that can be done. -/
def installDirectory (d : Disk) (path : String) : Disk := kept (d.makeDirectories path)

/-- Takes away what has the path. -/
def remove (d : Disk) (path : String) : Disk :=
  match d.follow [] (Path.pieces path) with
  | some place => d.erase place
  | none => d

example : ((empty.makeDirectories "a/../b").toOption.map fun d => d.exists? "b/") = some true := by
  decide +kernel
example : ((empty.put ["a"] (.file .binary)).makeDirectories "a/b").toOption.isNone = true := by
  decide +kernel

end Disk

end WalletHub
