/-!
# Paths

Paths are texts whose segments are divided by slashes. A segment is a step if it leads somewhere: it
is not empty, and it is not a single dot other than at the start of the path. Paths are compared and
shown as they are written, so what is kept of a path is kept as it stands.
-/

namespace CryptoAudit.Path

/-- The parts of a text between the given characters. -/
def split (c : Char) : List Char → List (List Char)
  | [] => [[]]
  | d :: ds =>
    if d = c then [] :: split c ds
    else
      match split c ds with
      | [] => [[d]]
      | part :: parts => (d :: part) :: parts

/-- The segments of a path. -/
def segments (path : String) : List String := (split '/' path.toList).map String.ofList

/-- The path does not depend on the working directory. -/
def isAbsolute (path : String) : Bool := path.toList.head? == some '/'

/-- The steps of a path, each as the segments that lead up to it. -/
def steps (path : String) : List (List String) :=
  (segments path).zipIdx.filterMap fun (s, i) =>
    if s = "" ∨ (s = "." ∧ i ≠ 0) then none else some ((segments path).take (i + 1))

/-- The path without its last step; none if it has no steps. -/
def parent? (path : String) : Option String :=
  match (steps path).reverse with
  | [] => none
  | [_] => some (if isAbsolute path then "/" else "")
  | _ :: before :: _ => some ("/".intercalate before)

/-- The name of what a path leads to, unless its last step is a dot or two. -/
def fileName? (path : String) : Option String := do
  let name ← (← (steps path).getLast?).getLast?
  if name = "." ∨ name = ".." then none else return name

/-- What follows the last dot of a file's name, if something precedes it. -/
def extension? (path : String) : Option String := do
  let rev := (← fileName? path).toList.reverse
  match rev.dropWhile (· != '.') with
  | _ :: _ :: _ => return String.ofList (rev.takeWhile (· != '.')).reverse
  | _ => none

/-- The path from a directory. -/
def join (directory path : String) : String :=
  if isAbsolute path then path
  else
    match directory.toList.getLast? with
    | none => path
    | some c => if c = '/' then directory ++ path else directory ++ "/" ++ path

end CryptoAudit.Path
