import CryptoAudit.Failure

/-!
# Loading models

A model is a single file, known by the extension `json`, or a directory of files whose names end in
`.program.json`, at any depth. First it is seen whether there is a model at all (`isModel`), and
then it is read (`readSources`). Of a directory, files that cannot be read are left out, and there
is no model if none is left; of a single file, not being able to read it is a failure.
-/

namespace CryptoAudit.Model

/-- The ending of the names of model files in directories. -/
def suffix : String := ".program.json"

/-- The name of a file ends like those of model files. -/
def hasSuffix (name : String) : Bool := suffix.toList.isSuffixOf name.toList

/-- A model file that was found. -/
structure Candidate where
  path : String
  bytes : ByteArray

/-- The model files under a directory, in order of their places. -/
def candidatesIn (directory : String) (t : Tree) : List Candidate :=
  (t.files.filter fun (place, _) => place.getLast?.any hasSuffix).map fun (place, bytes) =>
    ⟨place.foldl Path.join directory, bytes⟩

/-- The model files at a path that leads to a directory. -/
def candidates (fs : Files) (path : String) : List Candidate :=
  match fs.find path with
  | .ok t => if t.isDirectory then candidatesIn path t else []
  | .error _ => []

/-- There is a model at a path. -/
def isModel (fs : Files) (path : String) : Bool :=
  if fs.hasFile path then Path.extension? path == some "json" else !(candidates fs path).isEmpty

/-- The name that a path gives to a program. -/
def displayName (path : String) : String :=
  match Path.fileName? path with
  | none => "unknown"
  | some name =>
    if hasSuffix name then String.ofList (name.toList.take (name.length - suffix.length)) else name

/-- Reads a model file. -/
def Candidate.read (c : Candidate) : Except Failure Source :=
  match Files.decode c.bytes with
  | .error e => .error (.badFile e)
  | .ok text =>
    match ModelFile.parse? text with
    | some file => .ok ⟨c.path, file⟩
    | none => .error (.badModel c.path)

/-- The model files that can be read. -/
def readable (cs : List Candidate) : List Source :=
  cs.filterMap fun c =>
    match c.read with
    | .ok source => some source
    | .error _ => none

/-- The program of the sources, or the failure. -/
def lowered (name : String) (sources : List Source) : Except Failure Program :=
  match lower name sources with
  | .ok p => .ok p
  | .error e => .error (.badBody e)

/-- What a model file or a directory of them consists of: the name of the program and its
sources. -/
def readSources (fs : Files) (path : String) : Except Failure (String × List Source) :=
  match fs.find path with
  | .ok (.file bytes) => do
    let source ← Candidate.read ⟨path, bytes⟩
    return (source.file.name.getD (displayName path), [source])
  | _ =>
    match readable (candidates fs path) with
    | [] => .error (.noModel path)
    | found => .ok (displayName path, found)

/-- What the model at a path consists of, if there is one. -/
def sources (fs : Files) (path : String) : Except Failure (String × List Source) :=
  if isModel fs path then readSources fs path else .error (.noModel path)

/-- The program of the model at a path. -/
def load (fs : Files) (path : String) : Except Failure Program := do
  let (name, found) ← sources fs path
  lowered name found

end CryptoAudit.Model
