/-!
# Trees of files

A file tree is a value: a file with its bytes, or a directory with named entries. A place in a tree
is the list of names that leads to it from the root.
-/

namespace CryptoAudit

/-- A file, or a directory with its entries. -/
inductive Tree where
  | file (bytes : ByteArray)
  | directory (entries : List (String × Tree))
deriving Inhabited

namespace Tree

/-- A directory without entries. -/
def empty : Tree := .directory []

/-- The entries of a directory. -/
def entries : Tree → List (String × Tree)
  | .file _ => []
  | .directory es => es

/-- The tree is a directory. -/
def isDirectory : Tree → Bool
  | .file _ => false
  | .directory _ => true

/-- What stands at a place. -/
def get? (t : Tree) : List String → Option Tree
  | [] => some t
  | name :: place => (t.entries.lookup name).bind (·.get? place)

/-- Entries with another tree under a name. -/
def putEntry (name : String) (t : Tree) : List (String × Tree) → List (String × Tree)
  | [] => [(name, t)]
  | (n, u) :: es => if n = name then (n, t) :: es else (n, u) :: putEntry name t es

/-- The tree with `leaf` at a place, and with directories on the way to it. -/
def put (t : Tree) : List String → (leaf : Tree) → Tree
  | [], leaf => leaf
  | name :: place, leaf =>
    let child := (t.entries.lookup name).getD empty
    .directory (putEntry name (child.put place leaf) t.entries)

/-- The tree with a directory at a place, where there is nothing yet. -/
def ensureDirectory (place : List String) (t : Tree) : Tree :=
  if (t.get? place).isSome then t else t.put place empty

mutual

/-- The files in a tree with their places. The entries of a directory come in order of their names,
a directory's files at the place of the directory. -/
def files : Tree → List (List String × ByteArray)
  | .file bytes => [([], bytes)]
  | .directory es =>
    ((entryFiles es).mergeSort fun a b => decide (a.1 ≤ b.1)).flatMap fun (name, fs) =>
      fs.map fun (place, bytes) => (name :: place, bytes)

/-- The files in each of the entries. -/
def entryFiles : List (String × Tree) → List (String × List (List String × ByteArray))
  | [] => []
  | (name, t) :: es => (name, t.files) :: entryFiles es

end

end Tree

end CryptoAudit
