import Mathlib.Data.List.Lex
import Mathlib.Data.List.Nodup
import CryptoAudit.Proofs.Files.Writing
import CryptoAudit.Proofs.Text.Bytes

/-!
# Walking a tree

`Tree.files` lists the files of a tree. In a tree as file systems have them (`Tree.Proper`) it lists
each place at which a file stands (`Proper.mem_files_iff`), and the places ascend, name by name and
by the bytes of the names (`Proper.pairwise_files`). The order is that of the names in a directory
at every level: the files of the directory `a` come before a file `a-b`, although `a-b` is the
smaller text when compared with `a/`.

A place becomes a path by joining its names to the path of the tree. The names of this path are
those of the tree's path and then the place (`Proper.names_foldl_join`), and so paths ascend as
their places do.
-/

namespace CryptoAudit

namespace Path

/-! ## The names of a path -/

/-- The names of the steps of a path. -/
def names (path : String) : List String := (steps path).filterMap List.getLast?

/-- The first path comes before the second. Paths are compared name by name, and names by their
bytes. -/
def Before (p q : String) : Prop := List.Lex Text.ByteLt (names p) (names q)

/-- The order of paths is the order of the lists of their names. -/
theorem before_iff {p q : String} : Before p q ↔ names p < names q := by
  have hbytes : Text.ByteLt = (· < ·) := by
    funext s t
    exact propext Text.byteLt_iff
  rw [Before, hbytes]
  exact (List.lt_iff_lex_lt _ _).symm

/-- The names among the segments of a path: all but empty ones, and dots other than the first. -/
def namesAmong (segments : List String) : List String :=
  segments.zipIdx.filterMap fun s => if s.1 = "" ∨ (s.1 = "." ∧ s.2 ≠ 0) then none else some s.1

/-- The names of a path are those among its segments. -/
theorem names_eq (path : String) : names path = namesAmong (segments path) := by
  rw [names, steps, namesAmong, List.filterMap_filterMap]
  refine List.filterMap_congr ?_
  rintro ⟨s, i⟩ hs
  have hget : (segments path)[i]? = some s := List.mem_zipIdx_iff_getElem?.1 hs
  dsimp only
  split
  next => rfl
  next => simp [List.getLast?_take, hget]

/-- A name at the end of segments is the last of the names among them. -/
theorem namesAmong_concat (ss : List String) {name : String} (h : Files.IsName name) :
    namesAmong (ss ++ [name]) = namesAmong ss ++ [name] := by
  have hplain := h.plain
  simp only [not_or] at hplain
  rw [namesAmong, namesAmong, List.zipIdx_append, List.filterMap_append]
  simp [hplain]

theorem namesAmong_concat_empty (ss : List String) : namesAmong (ss ++ [""]) = namesAmong ss := by
  rw [namesAmong, namesAmong, List.zipIdx_append, List.filterMap_append]
  simp

theorem split_ne_nil (c : Char) (cs : List Char) : split c cs ≠ [] := by
  fun_cases split c cs <;> simp_all

/-- A text is split at each separator, so its parts can be split separately. -/
theorem split_append_cons (c : Char) (cs ds : List Char) :
    split c (cs ++ c :: ds) = split c cs ++ split c ds := by
  induction cs with
  | nil => simp [split]
  | cons d cs ih =>
    rw [List.cons_append, split, split, ih]
    split
    next => rfl
    next =>
      obtain ⟨part, parts, hparts⟩ := List.exists_cons_of_ne_nil (split_ne_nil c cs)
      rw [hparts]
      rfl

/-- The segments of a joined path are those of the directory and then those of the rest. -/
theorem segments_append_slash (directory path : String) :
    segments (directory ++ "/" ++ path) = segments directory ++ segments path := by
  have hchars : (directory ++ "/" ++ path).toList = directory.toList ++ '/' :: path.toList := by
    simp
  rw [segments, hchars, split_append_cons, List.map_append]
  rfl

/-- A name that is joined to a path is its last step. -/
theorem names_join (directory : String) {name : String} (h : Files.IsName name) :
    names (join directory name) = names directory ++ [name] := by
  rw [join, h.isAbsolute, if_neg Bool.false_ne_true, names_eq, names_eq]
  cases hlast : directory.toList.getLast? with
  | none =>
    obtain rfl : directory = "" := by
      rwa [List.getLast?_eq_none_iff, String.toList_eq_nil_iff] at hlast
    rw [h.segments]
    exact namesAmong_concat [] h
  | some c =>
    dsimp only
    split
    next hslash =>
      -- The path ends with a slash, so its last segment is empty and gives way to the name.
      obtain ⟨cs, hcs⟩ := List.getLast?_eq_some_iff.1 hlast
      obtain rfl : directory = String.ofList cs ++ "/" := by
        rw [← String.toList_inj, hcs, hslash, String.toList_append, String.toList_ofList]
        rfl
      have hempty : segments (String.ofList cs ++ "/") = segments (String.ofList cs) ++ [""] := by
        rw [← String.append_empty (s := String.ofList cs ++ "/"), segments_append_slash]
        rfl
      rw [segments_append_slash, hempty, h.segments, namesAmong_concat _ h,
        namesAmong_concat_empty]
    next => rw [segments_append_slash, h.segments, namesAmong_concat _ h]

/-- Joining names to a directory adds them to its names. -/
theorem names_foldl_join (directory : String) {place : List String}
    (h : ∀ name ∈ place, Files.IsName name) :
    names (place.foldl join directory) = names directory ++ place := by
  induction place generalizing directory with
  | nil => rw [List.foldl_nil, List.append_nil]
  | cons name place ih =>
    obtain ⟨hname, hplace⟩ := List.forall_mem_cons.1 h
    rw [List.foldl_cons, ih _ hplace, names_join directory hname, List.append_assoc,
      List.singleton_append]

end Path

namespace Tree

/-! ## Proper trees -/

/-- A tree as file systems have it: the entries of a directory have different names, which are
single names. -/
inductive Proper : Tree → Prop
  | file (bytes : ByteArray) : Proper (.file bytes)
  | directory {es : List (String × Tree)} (distinct : (es.map (·.1)).Nodup)
      (named : ∀ e ∈ es, Files.IsName e.1) (below : ∀ e ∈ es, Proper e.2) : Proper (.directory es)

/-- The files of entries are those of each entry. -/
theorem entryFiles_eq (es : List (String × Tree)) :
    entryFiles es = es.map fun e => (e.1, e.2.files) := by
  induction es with
  | nil => rfl
  | cons e es ih => rw [entryFiles, ih, List.map_cons]

/-- The entries of a directory in order of their names. -/
def sortedEntries (es : List (String × Tree)) : List (String × Tree) :=
  es.mergeSort fun a b => decide (a.1 ≤ b.1)

theorem mem_sortedEntries {e : String × Tree} {es : List (String × Tree)} :
    e ∈ sortedEntries es ↔ e ∈ es :=
  List.mem_mergeSort

/-- Different names in order are in strict order. -/
theorem pairwise_sortedEntries {es : List (String × Tree)} (h : (es.map (·.1)).Nodup) :
    (sortedEntries es).Pairwise fun a b => a.1 < b.1 := by
  have hsorted : (sortedEntries es).Pairwise fun a b => decide (a.1 ≤ b.1) = true := by
    refine List.pairwise_mergeSort (fun a b c hab hbc => ?_) (fun a b => ?_) es
    · rw [decide_eq_true_iff] at hab hbc ⊢
      exact le_trans hab hbc
    · rw [Bool.or_eq_true, decide_eq_true_iff, decide_eq_true_iff]
      exact le_total a.1 b.1
  have hdistinct : (sortedEntries es).Pairwise fun a b => a.1 ≠ b.1 := by
    have hnodup : ((sortedEntries es).map (·.1)).Nodup :=
      ((List.mergeSort_perm es _).map _).nodup_iff.2 h
    exact List.pairwise_map.1 hnodup
  exact hsorted.imp₂ (fun _ _ hle hne => lt_of_le_of_ne (of_decide_eq_true hle) hne) hdistinct

/-- The files of a directory are those of its entries, by name, with the name in front of the
place. -/
theorem files_directory (es : List (String × Tree)) :
    files (.directory es) =
      (sortedEntries es).flatMap fun e => e.2.files.map fun f => (e.1 :: f.1, f.2) := by
  have hsort : (sortedEntries es).map (fun e => (e.1, e.2.files)) =
      (es.map fun e => (e.1, e.2.files)).mergeSort fun a b => decide (a.1 ≤ b.1) := by
    refine List.map_mergeSort fun a _ b _ => ?_
    rfl
  rw [files, entryFiles_eq, ← hsort, List.flatMap_map]

theorem mem_files_file {bytes : ByteArray} {f : List String × ByteArray} :
    f ∈ files (.file bytes) ↔ f = ([], bytes) := by
  rw [files, List.mem_singleton]

theorem mem_files_directory {es : List (String × Tree)} {f : List String × ByteArray} :
    f ∈ files (.directory es) ↔ ∃ e ∈ es, ∃ g ∈ e.2.files, f = (e.1 :: g.1, g.2) := by
  simp only [files_directory, List.mem_flatMap, mem_sortedEntries, List.mem_map, eq_comm]

section
variable {t : Tree} {place : List String} {bytes : ByteArray}

/-- With distinct names, looking up a name finds the entry that has it. -/
theorem lookup_eq_some_iff {es : List (String × Tree)} (h : (es.map (·.1)).Nodup) {name : String}
    {u : Tree} : es.lookup name = some u ↔ (name, u) ∈ es := by
  induction es with
  | nil => simp
  | cons e es ih =>
    obtain ⟨k, v⟩ := e
    obtain ⟨hnew, hrest⟩ := List.nodup_cons.1 h
    rw [List.lookup_cons, List.mem_cons]
    by_cases hname : name = k
    · subst hname
      have hnotMem : (name, u) ∉ es := fun hmem => hnew (List.mem_map.2 ⟨_, hmem, rfl⟩)
      simp [hnotMem, eq_comm]
    · rw [beq_false_of_ne hname, ih hrest]
      simp [hname]

/-- The files of a tree are listed with their places. -/
theorem Proper.mem_files_iff (h : Proper t) :
    (place, bytes) ∈ t.files ↔ t.get? place = some (.file bytes) := by
  induction h generalizing place with
  | file b =>
    rw [mem_files_file]
    cases place with
    | nil => simp [get?, eq_comm]
    | cons => simp [get?, entries]
  | @directory es hdistinct _ _ ih =>
    rw [mem_files_directory]
    cases place with
    | nil => simp [get?]
    | cons name place =>
      rw [get?, entries, Option.bind_eq_some_iff]
      constructor
      · rintro ⟨e, he, g, hg, heq⟩
        cases heq
        exact ⟨e.2, (lookup_eq_some_iff hdistinct).2 he, (ih e he).1 hg⟩
      · rintro ⟨u, hu, hget⟩
        have he := (lookup_eq_some_iff hdistinct).1 hu
        exact ⟨(name, u), he, (place, bytes), (ih _ he).2 hget, rfl⟩

/-- The places of the files ascend. -/
theorem Proper.pairwise_files (h : Proper t) :
    t.files.Pairwise fun f g => f.1 < g.1 := by
  induction h with
  | file b => exact List.pairwise_singleton _ _
  | @directory es hdistinct _ _ ih =>
    rw [files_directory, List.pairwise_flatMap]
    -- The files of one entry agree in the first name, and those of two entries differ in it.
    refine ⟨fun e he => ?_, (pairwise_sortedEntries hdistinct).imp fun hlt f hf g hg => ?_⟩
    · rw [List.pairwise_map]
      exact (ih e (mem_sortedEntries.1 he)).imp fun hlt => List.Lex.cons hlt
    · obtain ⟨f, -, rfl⟩ := List.mem_map.1 hf
      obtain ⟨g, -, rfl⟩ := List.mem_map.1 hg
      exact List.Lex.rel hlt

/-- In a proper tree, places at which something stands are made of names. -/
theorem Proper.isName_of_get? (h : Proper t) {u : Tree} (hget : t.get? place = some u) :
    ∀ name ∈ place, Files.IsName name := by
  induction h generalizing place with
  | file b =>
    cases place with
    | nil => exact List.forall_mem_nil _
    | cons => cases hget
  | @directory es hdistinct hnamed _ ih =>
    cases place with
    | nil => exact List.forall_mem_nil _
    | cons name place =>
      obtain ⟨v, hv, hget⟩ := Option.bind_eq_some_iff.1 hget
      have he := (lookup_eq_some_iff hdistinct).1 hv
      exact List.forall_mem_cons.2 ⟨hnamed _ he, ih _ he hget⟩

/-- The path to a place has the names of the path to the tree and then those of the place. -/
theorem Proper.names_foldl_join (h : Proper t) {u : Tree} {path : String}
    (hget : t.get? place = some u) :
    Path.names (place.foldl Path.join path) = Path.names path ++ place :=
  Path.names_foldl_join path (h.isName_of_get? hget)

end

end Tree

end CryptoAudit
