import Std.Time.DateTime.Timestamp
import CryptoAudit.Audit.Log
import CryptoAudit.Command.Basic
import CryptoAudit.Report.Moment

/-!
# The program

The outer layer: it takes the files that a request is about from the disk, runs the request on them,
and writes the output, the messages and the file that the request changed.
-/

namespace CryptoAudit.Main

/-- The path from the root to a place. -/
def pathOf (place : List String) : String := "/" ++ "/".intercalate place

/-- The model files under a directory on the disk. Links are not followed. -/
partial def loadDirectory (path : String) : IO Tree := do
  let directory := (← IO.currentDir) / path
  let mut entries := #[]
  for entry in ← directory.readDir do
    let inner := Path.join path entry.fileName
    match (← entry.path.symlinkMetadata).type with
    | .dir => entries := entries.push (entry.fileName, ← loadDirectory inner)
    | .file =>
      if Model.hasSuffix entry.fileName then
        entries := entries.push (entry.fileName, .file (← IO.FS.readBinFile inner))
    | _ => pure ()
  return .directory entries.toList

/-- Takes what stands at a place from the disk; of a directory, only that it is one. -/
def loadPlace (t : Tree) (place : List String) : IO Tree := do
  let path := (← IO.currentDir) / pathOf place
  if ← path.isDir then
    return t.ensureDirectory place
  else if ← path.pathExists then
    return t.put place (.file (← IO.FS.readBinFile path))
  else
    return t

/-- Takes all that a path leads through from the disk. -/
def loadPath (fs : Files) (path : String) : IO Files := do
  let mut place := if Path.isAbsolute path then [] else fs.here
  let mut root := fs.root
  for segment in Path.segments path do
    if segment == ".." then
      place := place.dropLast
    else if segment != "" && segment != "." then
      place := place ++ [segment]
      root ← loadPlace root place
  return { fs with root }

/-- Takes a path, and the model files under it, from the disk. -/
def loadTarget (fs : Files) (path : String) : IO Files := do
  let fs ← loadPath fs path
  match fs.followAll (Path.isAbsolute path) (Path.segments path) with
  | .ok place =>
    if fs.hasDirectory path then
      return { fs with root := fs.root.put place (← loadDirectory (pathOf place)) }
    else
      return fs
  | .error _ => return fs

/-- Takes the paths that are given from the disk. -/
def loadPaths (fs : Files) (paths : List (Option String)) : IO Files :=
  (paths.filterMap id).foldlM loadPath fs

/-- No files but the working directory. -/
def workingDirectory : IO Files := do
  let here := (Path.segments (← IO.currentDir).toString).filter (· ≠ "")
  return ⟨Tree.empty.ensureDirectory here, here⟩

/-- The options of an audit. -/
def optionsOf (r : Command.ScanRequest) : AuditOptions :=
  ⟨r.settings, r.rules, (Command.chooseThreshold r.failOn).1⟩

/-- Takes the files that a request is about from the disk. -/
def loadFiles (request : Command.Request) : IO Files := do
  let fs ← workingDirectory
  match request with
  | .scan r =>
    let fs ← loadTarget fs r.path
    let fs ← loadPaths fs [r.settings.getD (Settings.pathFor fs r.path), r.output]
    match Audit.settings fs r.path (optionsOf r) with
    | .ok s => loadPaths fs [Audit.rulesPath s (optionsOf r)]
    | .error _ => return fs
  | .listRules rules _ => loadPaths fs [rules]
  | .init _ => loadPath fs Settings.fileName
  | .version | .help => return fs

/-- The file that a request may write. -/
def written? : Command.Request → Option String
  | .scan r => r.output
  | .init _ => some Settings.fileName
  | .listRules .. | .version | .help => none

/-- The warnings of a request. -/
def warnings (fs : Files) : Command.Request → List String
  | .scan r =>
    ((Audit.Log.run fs r.path (optionsOf r)).filter (·.level = .warn)).map fun e =>
      e.level.name ++ " " ++ e.message ++
        String.join (e.fields.map fun (k, v) => " " ++ k ++ "=" ++ v)
  | _ => []

/-- A random identifier. -/
def randomGuid : IO String := do
  let bytes ← IO.getRandomBytes 16
  let digits := bytes.toList.zipIdx.flatMap fun (b, i) =>
    let b := if i = 6 then (b &&& 0x0f) ||| 0x40 else if i = 8 then (b &&& 0x3f) ||| 0x80 else b
    [Nat.digitChar (b.toNat / 16), Nat.digitChar (b.toNat % 16)]
  let part := fun (start count : Nat) => String.ofList ((digits.drop start).take count)
  return "-".intercalate [part 0 8, part 8 4, part 12 4, part 16 4, part 20 12]

/-- The stamp of a report that is made now. -/
def stampNow : IO Stamp := do
  let now ← Std.Time.Timestamp.now
  let nanoseconds := now.toNanosecondsSinceUnixEpoch.toInt.toNat
  let time := Moment.text (nanoseconds / 1000000000) (nanoseconds % 1000000000)
  return ⟨time, ← randomGuid⟩

/-- Writes the effects of a run. -/
def report (path : Option String) (before : Files) (o : Command.Outcome) : IO UInt32 := do
  for line in o.messages do
    IO.eprintln line
  IO.print o.output
  match path with
  | none => return o.code.toUInt32
  | some path =>
    match o.files.target path, o.files.read path with
    | .ok place, .ok text =>
      if o.code < 2 && (before.read path).toOption ≠ some text then
        IO.FS.writeFile (pathOf place) text
      return o.code.toUInt32
    | _, _ => return o.code.toUInt32

/-- Runs the program with its arguments. -/
def run (args : List String) : IO UInt32 := do
  let stamp ← stampNow
  match Command.Request.read args with
  | .error _ => report none ⟨.empty, []⟩ (Command.run ⟨.empty, []⟩ stamp args)
  | .ok request =>
    let fs ← loadFiles request
    for line in warnings fs request do
      IO.eprintln line
    report (written? request) fs (Command.run fs stamp args)

end CryptoAudit.Main

/-- The program. -/
def main (args : List String) : IO UInt32 := do
  try CryptoAudit.Main.run args
  catch e =>
    IO.eprintln s!"Error: IO error: {e}"
    return 2
