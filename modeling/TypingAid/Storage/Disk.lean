import TypingAid.Assoc
import TypingAid.Storage.Path
import TypingAid.Text.Str
import TypingAid.Text.Utf8

/-!
# Disks

A `Disk` holds files and folders as a program finds them, with the folder the program works in and
the user's home. What an operation cannot do it refuses with a `FileError`, and leaves the disk as
it is; only writing a string keeps the steps that have been done (`Disk.writeString`,
`Disk.writeSafely`).

A path is followed name by name, so that every name but the last has to be that of a folder.
-/

namespace TypingAid

/-- Why a file cannot be read or written. -/
inductive FileError where
  | notFound
  | isFolder
  /-- Something on the way is a file. -/
  | notFolder
  /-- The bytes are not those of a text. -/
  | undecodable
  /-- What is to be written is not a text. -/
  | unencodable
deriving DecidableEq, Repr

/-- A file with its content, or a folder. -/
inductive Node where
  | file (content : Bytes)
  | folder
deriving DecidableEq, Repr

/-- A place on a disk: the names on the way from the root, none of them `..`. -/
abbrev Place := List String

/-- Files and folders as a program finds them. -/
structure Disk where
  /-- What is where. The root is always a folder and is not listed. -/
  nodes : List (Place × Node) := []
  workDir : Path := ⟨1, []⟩
  home : Path := ⟨1, []⟩
deriving DecidableEq, Repr

namespace Disk

variable (d : Disk)

/-- What is at a place. -/
def node? (place : Place) : Option Node :=
  if place = [] then some .folder else Assoc.get? place d.nodes

/-- The disk with something else at a place. -/
def put (place : Place) (node : Node) : Disk := { d with nodes := Assoc.put place node d.nodes }

/-- The disk without what is at a place or below it. -/
def clear (place : Place) : Disk :=
  { d with nodes := d.nodes.filter fun (p, _) => !place.isPrefixOf p }

/-! ### Following a path -/

/-- Where names lead from a place. Whether anything is there, is left open. -/
def follow : Place → List String → Except FileError Place
  | here, [] => .ok here
  | here, name :: rest =>
    match d.node? here with
    | none => .error .notFound
    | some (.file _) => .error .notFolder
    | some .folder => follow (if name = Path.up then here.dropLast else here ++ [name]) rest

/-- Where a path leads. -/
def locate (p : Path) : Except FileError Place := d.follow [] (d.workDir ++ p).names

/-- What a path leads to. -/
def look (p : Path) : Except FileError Node :=
  match d.locate p with
  | .error e => .error e
  | .ok place =>
    match d.node? place with
    | none => .error .notFound
    | some node => .ok node

/-- The path leads to something. -/
def holds (p : Path) : Bool := (d.look p).isOk

/-- The path leads to a file. -/
def isFile (p : Path) : Bool :=
  match d.look p with
  | .ok (.file _) => true
  | _ => false

/-! ### Reading and writing -/

/-- The content of a file. -/
def read (p : Path) : Except FileError Bytes :=
  match d.look p with
  | .ok (.file content) => .ok content
  | .ok .folder => .error .isFolder
  | .error e => .error e

/-- The text of a file, with line breaks of one kind. -/
def readText (p : Path) : Except FileError Text :=
  match d.read p with
  | .error e => .error e
  | .ok content =>
    match Utf8.decode? content with
    | none => .error .undecodable
    | some t => .ok (Text.unifyBreaks t)

/-- The disk with a file that has the given content. -/
def write (p : Path) (content : Bytes) : Except FileError Disk :=
  match d.locate p with
  | .error e => .error e
  | .ok place =>
    if d.node? place = some .folder then .error .isFolder else .ok (d.put place (.file content))

/-- The disk with a file that has the given text. -/
def writeText (p : Path) (t : Text) : Except FileError Disk := d.write p (Utf8.encode t)

/-- The disk with folders for names from a place on, as far as they are missing. -/
def addFolders (d : Disk) : Place → List String → Except FileError Disk
  | _, [] => .ok d
  | here, name :: rest =>
    let next := if name = Path.up then here.dropLast else here ++ [name]
    match d.node? next with
    | none => addFolders (d.put next .folder) next rest
    | some .folder => addFolders d next rest
    | some (.file _) => .error .notFolder

/-- The disk with a folder, and all folders on the way to it. -/
def makeFolder (p : Path) : Except FileError Disk := d.addFolders [] (d.workDir ++ p).names

/-- The disk on which a file has taken the place of what the other path leads to. -/
def move (source target : Path) : Except FileError Disk :=
  match d.read source, d.locate source, d.write target [] with
  | .ok content, .ok place, .ok _ => (d.clear place).write target content
  | .error e, _, _ => .error e
  | _, .error e, _ => .error e
  | _, _, .error e => .error e

/-! ### Writing with care -/

/-- The name of the file that is written first. -/
def draftName (name : String) : String := name ++ ".tmp"

/-- Writes a string to a file. The file is opened first, so a string that is not a text leaves it
empty. -/
def writeString (p : Path) (s : Str) : Disk × Option FileError :=
  match d.writeText p (s.text?.getD []) with
  | .error e => (d, some e)
  | .ok written => (written, if s.isText then none else some .unencodable)

/-- Writes a string beside a file and then puts it in its place, so that the file is never half
written. The folder is made if need be. A draft that cannot be put in place stays. -/
def writeSafely (p : Path) (s : Str) : Disk × Option FileError :=
  let draft := p.withName (draftName p.name)
  match d.makeFolder p.parent with
  | .error e => (d, some e)
  | .ok ready =>
    match ready.writeString draft s with
    | (drafted, some e) => (drafted, some e)
    | (drafted, none) =>
      match drafted.move draft p with
      | .error e => (drafted, some e)
      | .ok done => (done, none)

end Disk

end TypingAid
