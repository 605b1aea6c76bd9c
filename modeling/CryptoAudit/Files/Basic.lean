import CryptoAudit.Files.Path
import CryptoAudit.Files.Tree

/-!
# The files that a program sees

All files, and the directory from which paths that are not absolute are followed. A path is followed
segment by segment, and each segment, also an empty one, needs a directory to go on from.

There are plain files and directories, and nothing else: links, devices and permissions are left
out, so that a path leads to one place and what stands there can always be read and written. Nor do
files change by themselves, and writing does not stop midway: the disk is never full, and a file
that was opened is written to its end. What is said elsewhere about the files after a command is
said of such files.
-/

namespace CryptoAudit

/-- The files, and the place of the working directory. Files are bytes in a tree of directories,
without links, devices and permissions. -/
structure Files where
  root : Tree
  here : List String

/-- Why a file cannot be used. -/
inductive FileError where
  | notFound
  | notDirectory
  | isDirectory
  /-- The bytes of the file are no text. -/
  | notText
deriving DecidableEq, Inhabited

/-- The words for a failure with files. -/
def FileError.message : FileError → String
  | .notFound => "No such file or directory (os error 2)"
  | .notDirectory => "Not a directory (os error 20)"
  | .isDirectory => "Is a directory (os error 21)"
  | .notText => "stream did not contain valid UTF-8"

namespace Files

/-- The place to which a segment leads. -/
def follow (t : Tree) (place : List String) (segment : String) : Except FileError (List String) :=
  match t.get? place with
  | none => .error .notFound
  | some (.file _) => .error .notDirectory
  | some (.directory es) =>
    if segment = "" ∨ segment = "." then .ok place
    else if segment = ".." then .ok place.dropLast
    else if (es.lookup segment).isSome then .ok (place ++ [segment])
    else .error .notFound

/-- The place to which segments lead. -/
def followAll (fs : Files) (absolute : Bool) (segments : List String) :
    Except FileError (List String) :=
  segments.foldlM (follow fs.root) (if absolute then [] else fs.here)

/-- What stands at a path. -/
def find (fs : Files) (path : String) : Except FileError Tree :=
  if path = "" then .error .notFound
  else
    match fs.followAll (Path.isAbsolute path) (Path.segments path) with
    | .error e => .error e
    | .ok place =>
      match fs.root.get? place with
      | some t => .ok t
      | none => .error .notFound

/-- There is something at a path. -/
def has (fs : Files) (path : String) : Bool := (fs.find path).isOk

/-- There is a directory at a path. -/
def hasDirectory (fs : Files) (path : String) : Bool :=
  match fs.find path with
  | .ok t => t.isDirectory
  | .error _ => false

/-- There is a file at a path. -/
def hasFile (fs : Files) (path : String) : Bool :=
  match fs.find path with
  | .ok t => !t.isDirectory
  | .error _ => false

/-- The text that bytes stand for. -/
def decode (bytes : ByteArray) : Except FileError String :=
  match String.fromUTF8? bytes with
  | some s => .ok s
  | none => .error .notText

/-- The text of the file at a path. -/
def read (fs : Files) (path : String) : Except FileError String :=
  match fs.find path with
  | .error e => .error e
  | .ok (.directory _) => .error .isDirectory
  | .ok (.file bytes) => decode bytes

/-- The place at which a file can be written for a path: a name in a directory that exists, and not
the name of a directory. -/
def target (fs : Files) (path : String) : Except FileError (List String) :=
  let segments := Path.segments path
  match segments.getLast? with
  | none => .error .notFound
  | some name =>
    if path = "" then .error .notFound
    else if name = "" ∨ name = "." ∨ name = ".." then .error .isDirectory
    else
      match fs.followAll (Path.isAbsolute path) segments.dropLast with
      | .error e => .error e
      | .ok place =>
        match fs.root.get? place with
        | some (.directory es) =>
          if (es.lookup name).any Tree.isDirectory then .error .isDirectory
          else .ok (place ++ [name])
        | _ => .error .notDirectory

/-- Writes a text to the file at a path. This fails only where there is no place for the file:
permissions, and faults while the text is written, are left out. -/
def write (fs : Files) (path text : String) : Except FileError Files :=
  match fs.target path with
  | .ok place => .ok { fs with root := fs.root.put place (.file text.toUTF8) }
  | .error e => .error e

end Files

end CryptoAudit
