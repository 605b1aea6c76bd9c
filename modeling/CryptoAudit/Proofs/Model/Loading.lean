import Mathlib
import CryptoAudit.Model.Loading
import CryptoAudit.Proofs.Files.Walk

/-!
# What is loaded from a directory

The model files of a directory are the files at any depth whose names end in `.program.json`, in
order of their paths (`candidates_enumerate`). Those of them that cannot be read are left out. What
is left is again in order, so that it is determined by which models the directory holds, and with it
what is loaded (`load_eq_of_sameModels`): neither other files nor broken ones count, wherever they
stand.
-/

namespace CryptoAudit.Model

/-! ## Model files -/

/-- The place of a model file: it ends with a name that ends in `.program.json`. -/
def IsModelPlace (place : List String) : Prop :=
  ∃ parents stem, place = parents ++ [stem ++ ".program.json"]

/-- A name has the ending of model files if and only if it is a stem with this ending. -/
theorem hasSuffix_iff {name : String} :
    hasSuffix name = true ↔ ∃ stem, name = stem ++ ".program.json" := by
  rw [hasSuffix, List.isSuffixOf_iff_suffix]
  constructor
  · rintro ⟨cs, hcs⟩
    refine ⟨String.ofList cs, String.toList_inj.1 ?_⟩
    rw [← hcs, String.toList_append, String.toList_ofList]
    rfl
  · rintro ⟨stem, rfl⟩
    exact ⟨stem.toList, String.toList_append.symm⟩

/-- Whether a place is that of a model file is told by its last name. -/
theorem isModelPlace_iff {place : List String} :
    place.getLast?.any hasSuffix = true ↔ IsModelPlace place := by
  rw [Option.any_eq_true]
  constructor
  · rintro ⟨name, hlast, hname⟩
    obtain ⟨parents, rfl⟩ := List.getLast?_eq_some_iff.1 hlast
    obtain ⟨stem, rfl⟩ := hasSuffix_iff.1 hname
    exact ⟨parents, stem, rfl⟩
  · rintro ⟨parents, stem, rfl⟩
    exact ⟨_, List.getLast?_concat, hasSuffix_iff.2 ⟨stem, rfl⟩⟩

section
variable {fs fs' : Files} {path : String} {t t' : Tree} {es es' : List (String × Tree)}

/-- The model files under a directory are the files at the places of model files. -/
theorem mem_candidatesIn (h : t.Proper) {c : Candidate} :
    c ∈ candidatesIn path t ↔
      ∃ place, IsModelPlace place ∧ t.get? place = some (.file c.bytes) ∧
        c.path = place.foldl Path.join path := by
  simp only [candidatesIn, List.mem_map, List.mem_filter, Prod.exists, isModelPlace_iff,
    h.mem_files_iff]
  constructor
  · rintro ⟨place, bytes, ⟨hget, hplace⟩, rfl⟩
    exact ⟨place, hplace, hget, rfl⟩
  · rintro ⟨place, hplace, hget, hpath⟩
    exact ⟨place, c.bytes, ⟨hget, hplace⟩, congrArg (Candidate.mk · c.bytes) hpath.symm⟩

/-- Paths in a directory ascend as the places do. -/
theorem pairwise_candidatesIn (h : t.Proper) :
    (candidatesIn path t).Pairwise fun a b => Path.Before a.path b.path := by
  rw [candidatesIn, List.pairwise_map]
  refine (h.pairwise_files.filter _).imp_of_mem ?_
  rintro ⟨place, bytes⟩ ⟨place', bytes'⟩ hmem hmem' hlt
  have hget := h.mem_files_iff.1 (List.mem_of_mem_filter hmem)
  have hget' := h.mem_files_iff.1 (List.mem_of_mem_filter hmem')
  rw [Path.before_iff, h.names_foldl_join hget, h.names_foldl_join hget']
  exact List.append_left_lt hlt

theorem candidates_directory (hfind : fs.find path = .ok (.directory es)) :
    candidates fs path = candidatesIn path (.directory es) := by
  rw [candidates, hfind]
  rfl

/-- The model files of a directory are the files at any depth with the ending of model files, each
of them once, and their paths ascend. A path is compared with another by the names of its steps: the
names that lead to the directory and then the place of the file in it. -/
theorem candidates_enumerate (hfind : fs.find path = .ok (.directory es))
    (hproper : (Tree.directory es).Proper) :
    (∀ c, c ∈ candidates fs path ↔
      ∃ parents stem, (Tree.directory es).get? (parents ++ [stem ++ ".program.json"]) =
          some (.file c.bytes) ∧
        c.path = (parents ++ [stem ++ ".program.json"]).foldl Path.join path) ∧
    (candidates fs path).Pairwise (fun a b => Path.Before a.path b.path) ∧
    ∀ place u, (Tree.directory es).get? place = some u →
      Path.names (place.foldl Path.join path) = Path.names path ++ place := by
  rw [candidates_directory hfind]
  refine ⟨fun c => ?_, pairwise_candidatesIn hproper, fun _ _ => hproper.names_foldl_join⟩
  rw [mem_candidatesIn hproper]
  constructor
  · rintro ⟨_, ⟨parents, stem, rfl⟩, hget, hpath⟩
    exact ⟨parents, stem, hget, hpath⟩
  · rintro ⟨parents, stem, hget, hpath⟩
    exact ⟨_, ⟨parents, stem, rfl⟩, hget, hpath⟩

/-- Files with one directory, which is called `app`. -/
def filesOf (es : List (String × Tree)) : Files := ⟨.directory [("app", .directory es)], []⟩

/-- A model with a method that calls one of another model. -/
def callerModel : String :=
  "\x7b\"classes\":[\x7b\"name\":\"Main\",\"methods\":[\x7b\"name\":\"run\",\"body\":\x7b" ++
    "\"statements\":[\x7b\"invoke\":\x7b\"declaring_type\":\"Util\",\"method\":\"log\"," ++
    "\"args\":[]\x7d\x7d]\x7d\x7d]\x7d]\x7d"

/-- The model with the method that is called. -/
def calleeModel : String :=
  "\x7b\"classes\":[\x7b\"name\":\"Util\",\"methods\":[\x7b\"name\":\"log\"\x7d]\x7d]\x7d"

/-- Two models, among other files and model files that cannot be read. -/
def cluttered : List (String × Tree) :=
  [("n.txt", .file calleeModel.toUTF8),
    ("a.program.json", .file calleeModel.toUTF8),
    ("k.program.json", .directory []),
    ("a-b.program.json", .file "\x7b".toUTF8),
    ("a", .directory
      [("y.program.json", .file ⟨#[0xff]⟩), ("x.program.json", .file callerModel.toUTF8)])]

/-- The cluttered directory is proper: the names in each directory are distinct, and they are
names. -/
theorem proper_cluttered : (Tree.directory cluttered).Proper := by
  have hempty : (Tree.directory []).Proper :=
    .directory .nil (List.forall_mem_nil _) (List.forall_mem_nil _)
  refine .directory (by decide) (by decide) ?_
  simp only [cluttered, List.forall_mem_cons]
  refine ⟨.file _, .file _, hempty, .file _, ?_, List.forall_mem_nil _⟩
  refine .directory (by decide) (by decide) ?_
  exact List.forall_mem_cons.2 ⟨.file _, List.forall_mem_singleton.2 (.file _)⟩

/-- Files in the directory `a` are listed, and files whose names begin with `a`. -/
theorem candidates_enumerate_cluttered :
    (filesOf cluttered).find "app" = .ok (.directory cluttered) ∧
    (Tree.directory cluttered).Proper ∧
    ⟨"app/a/x.program.json", callerModel.toUTF8⟩ ∈ candidates (filesOf cluttered) "app" ∧
    ⟨"app/a-b.program.json", "\x7b".toUTF8⟩ ∈ candidates (filesOf cluttered) "app" ∧
    (candidates (filesOf cluttered) "app").Pairwise fun a b => Path.Before a.path b.path := by
  have hfind : (filesOf cluttered).find "app" = .ok (.directory cluttered) := rfl
  obtain ⟨hmem, horder, -⟩ := candidates_enumerate hfind proper_cluttered
  refine ⟨hfind, proper_cluttered, ?_, ?_, horder⟩
  · exact (hmem _).2 ⟨["a"], "x", rfl, rfl⟩
  · exact (hmem _).2 ⟨[], "a-b", rfl, rfl⟩

/-! ## Models that can be read -/

/-- At the place in the tree there is a model that can be read: a model file with these bytes, which
are the text of this model. -/
structure Holds (t : Tree) (place : List String) (bytes : ByteArray) (file : ModelFile) : Prop where
  named : IsModelPlace place
  found : t.get? place = some (.file bytes)
  readable : ∃ text : String, bytes = text.toUTF8 ∧ ModelFile.parse? text = some file

/-- Bytes are decoded to a text if and only if they are its encoding. -/
theorem decode_eq_ok_iff {bytes : ByteArray} {text : String} :
    Files.decode bytes = .ok text ↔ bytes = text.toUTF8 := by
  constructor
  · intro h
    unfold Files.decode String.fromUTF8? at h
    split at h
    next s hs =>
      cases h
      split at hs
      next =>
        cases hs
        rfl
      next => cases hs
    next => cases h
  · rintro rfl
    exact Files.decode_toUTF8 text

/-- A model file is read if and only if its bytes are a text, and the text is that of a model. -/
theorem read_eq_ok_iff {c : Candidate} {s : Source} :
    c.read = .ok s ↔
      s.name = c.path ∧ ∃ text, c.bytes = text.toUTF8 ∧ ModelFile.parse? text = some s.file := by
  unfold Candidate.read
  constructor
  · intro h
    split at h
    next => cases h
    next text hdecode =>
      split at h
      next file hparse =>
        cases h
        exact ⟨rfl, text, decode_eq_ok_iff.1 hdecode, hparse⟩
      next => cases h
  · rintro ⟨hname, text, hbytes, hparse⟩
    rw [decode_eq_ok_iff.2 hbytes]
    simp only [hparse, ← hname]

theorem toOption_eq_some_iff {ε α : Type} {x : Except ε α} {a : α} :
    x.toOption = some a ↔ x = .ok a := by
  cases x <;> simp [Except.toOption]

theorem readable_eq (cs : List Candidate) : readable cs = cs.filterMap (·.read.toOption) := by
  refine congrArg (cs.filterMap ·) (funext fun c => ?_)
  cases c.read <;> rfl

theorem mem_readable {cs : List Candidate} {s : Source} :
    s ∈ readable cs ↔ ∃ c ∈ cs, c.read = .ok s := by
  simp only [readable_eq, List.mem_filterMap, toOption_eq_some_iff]

/-- The sources of a directory are the models that it holds. -/
theorem mem_sources (h : t.Proper) {s : Source} :
    s ∈ readable (candidatesIn path t) ↔
      ∃ place bytes, Holds t place bytes s.file ∧ s.name = place.foldl Path.join path := by
  simp only [mem_readable, mem_candidatesIn h, read_eq_ok_iff]
  constructor
  · rintro ⟨c, ⟨place, hplace, hget, hpath⟩, hname, hread⟩
    exact ⟨place, c.bytes, ⟨hplace, hget, hread⟩, hname.trans hpath⟩
  · rintro ⟨place, bytes, ⟨hplace, hget, hread⟩, hname⟩
    exact ⟨⟨s.name, bytes⟩, ⟨place, hplace, hget, hname⟩, rfl, hread⟩

/-- Leaving out what cannot be read keeps the order. -/
theorem pairwise_sources (h : t.Proper) :
    (readable (candidatesIn path t)).Pairwise fun a b => Path.Before a.name b.name := by
  rw [readable_eq, List.pairwise_filterMap]
  refine (pairwise_candidatesIn h).imp ?_
  intro a b hbefore s hs s' hs'
  obtain ⟨hname, -⟩ := read_eq_ok_iff.1 (toOption_eq_some_iff.1 hs)
  obtain ⟨hname', -⟩ := read_eq_ok_iff.1 (toOption_eq_some_iff.1 hs')
  rwa [hname, hname']

/-- Sources in order are determined by which they are. -/
theorem sources_ext {ss ss' : List Source} (h : ss.Pairwise fun a b => Path.Before a.name b.name)
    (h' : ss'.Pairwise fun a b => Path.Before a.name b.name) (hmem : ∀ s, s ∈ ss ↔ s ∈ ss') :
    ss = ss' := by
  have hirrefl : Std.Irrefl fun a b : Source => Path.Before a.name b.name :=
    ⟨fun _ hbefore => lt_irrefl _ (Path.before_iff.1 hbefore)⟩
  have hantisymm : Std.Antisymm fun a b : Source => Path.Before a.name b.name :=
    ⟨fun _ _ hab hba => absurd (Path.before_iff.1 hab) (lt_asymm (Path.before_iff.1 hba))⟩
  exact h.eq_of_mem_iff h' hmem

/-- There is a model in a directory if and only if it has a model file, readable or not. -/
theorem isModel_directory (hfind : fs.find path = .ok (.directory es)) :
    isModel fs path = !(candidatesIn path (.directory es)).isEmpty := by
  have hfile : fs.hasFile path = false := by
    rw [Files.hasFile, hfind]
    rfl
  rw [isModel, hfile, candidates_directory hfind]
  rfl

/-- A directory consists of the model files in it that can be read. -/
theorem readSources_directory (hfind : fs.find path = .ok (.directory es)) :
    readSources fs path =
      if readable (candidatesIn path (.directory es)) = [] then .error (.noModel path)
      else .ok (displayName path, readable (candidatesIn path (.directory es))) := by
  rw [readSources, hfind, candidates_directory hfind]
  cases readable (candidatesIn path (.directory es)) with
  | nil => rfl
  | cons s ss => rfl

/-- A directory is loaded from the model files in it that can be read. -/
theorem load_directory (hfind : fs.find path = .ok (.directory es)) :
    load fs path =
      if readable (candidatesIn path (.directory es)) = [] then .error (.noModel path)
      else lowered (displayName path) (readable (candidatesIn path (.directory es))) := by
  rw [load, sources, isModel_directory hfind]
  -- without model files there is no model, and without readable ones neither
  cases hcandidates : candidatesIn path (.directory es) with
  | nil => rfl
  | cons c cs =>
    rw [List.isEmpty_cons, Bool.not_false, if_pos rfl, readSources_directory hfind, hcandidates]
    by_cases hnone : readable (c :: cs) = []
    · rw [if_pos hnone, if_pos hnone]
      rfl
    · rw [if_neg hnone, if_neg hnone]
      rfl

/-- A single file that is called a model is loaded alone, and names the program if it says how. -/
theorem load_file {text : String} {file : ModelFile}
    (hfind : fs.find path = .ok (.file text.toUTF8)) (hjson : Path.extension? path = some "json")
    (hparse : ModelFile.parse? text = some file) :
    load fs path = lowered (file.name.getD (displayName path)) [⟨path, file⟩] := by
  have hmodel : isModel fs path = true := by
    have hfile : fs.hasFile path = true := by
      rw [Files.hasFile, hfind]
      rfl
    rw [isModel, hfile, if_pos rfl, hjson, beq_self_eq_true]
  have hread : Candidate.read ⟨path, text.toUTF8⟩ = .ok ⟨path, file⟩ :=
    read_eq_ok_iff.2 ⟨rfl, text, rfl, hparse⟩
  rw [load, sources, if_pos hmodel, readSources, hfind]
  dsimp only
  rw [hread]
  rfl

/-- What is loaded from a directory depends on the models that it holds and on nothing else in it.
It is the program of these models in the order of their paths, or what is wrong with their bodies;
without any there is no model, whatever model files there are that cannot be read. -/
theorem load_eq_of_sameModels (hfind : fs.find path = .ok (.directory es))
    (hfind' : fs'.find path = .ok (.directory es')) (hproper : (Tree.directory es).Proper)
    (hproper' : (Tree.directory es').Proper)
    (hsame : ∀ place bytes file,
      Holds (.directory es) place bytes file ↔ Holds (.directory es') place bytes file) :
    load fs path = load fs' path ∧
    ∃ found : List Source,
      (∀ s, s ∈ found ↔
        ∃ place bytes, Holds (.directory es) place bytes s.file ∧
          s.name = place.foldl Path.join path) ∧
      found.Pairwise (fun a b => Path.Before a.name b.name) ∧
      load fs path =
        if found = [] then .error (.noModel path) else lowered (displayName path) found := by
  have hfound : readable (candidatesIn path (.directory es)) =
      readable (candidatesIn path (.directory es')) := by
    refine sources_ext (pairwise_sources hproper) (pairwise_sources hproper') fun s => ?_
    simp only [mem_sources hproper, mem_sources hproper', hsame]
  refine ⟨?_, _, fun s => mem_sources hproper, pairwise_sources hproper, load_directory hfind⟩
  rw [load_directory hfind, load_directory hfind', hfound]

/-- The models of the cluttered directory, alone. -/
def tidy : List (String × Tree) :=
  [("a", .directory [("x.program.json", .file callerModel.toUTF8)]),
    ("a.program.json", .file calleeModel.toUTF8)]

theorem proper_tidy : (Tree.directory tidy).Proper := by
  refine .directory (by decide) (by decide) ?_
  refine List.forall_mem_cons.2 ⟨?_, List.forall_mem_singleton.2 (.file _)⟩
  exact .directory (by decide) (by decide) (List.forall_mem_singleton.2 (.file _))

/-- The files of the tidy directory. -/
theorem tidy_cases {place : List String} {bytes : ByteArray}
    (h : (Tree.directory tidy).get? place = some (.file bytes)) :
    place = ["a", "x.program.json"] ∧ bytes = callerModel.toUTF8 ∨
      place = ["a.program.json"] ∧ bytes = calleeModel.toUTF8 := by
  rw [← proper_tidy.mem_files_iff] at h
  simp only [tidy, Tree.mem_files_directory, Tree.mem_files_file, List.mem_cons,
    List.not_mem_nil, or_false, exists_eq_or_imp, exists_eq_left, Prod.mk.injEq] at h
  rcases h with ⟨rfl, rfl⟩ | ⟨rfl, rfl⟩
  · exact .inl ⟨rfl, rfl⟩
  · exact .inr ⟨rfl, rfl⟩

/-- The cluttered directory holds the models of the tidy one and no others. -/
theorem holds_tidy_iff (place : List String) (bytes : ByteArray) (file : ModelFile) :
    Holds (.directory tidy) place bytes file ↔ Holds (.directory cluttered) place bytes file := by
  constructor
  · rintro ⟨hnamed, hfound, hread⟩
    refine ⟨hnamed, ?_, hread⟩
    rcases tidy_cases hfound with ⟨rfl, rfl⟩ | ⟨rfl, rfl⟩ <;> rfl
  · rintro ⟨hnamed, hfound, hread⟩
    refine ⟨hnamed, ?_, hread⟩
    rw [← proper_cluttered.mem_files_iff] at hfound
    simp only [cluttered, Tree.mem_files_directory, Tree.mem_files_file, List.mem_cons,
      List.not_mem_nil, or_false, exists_eq_or_imp, exists_eq_left, Prod.mk.injEq, false_and,
      exists_false, false_or] at hfound
    rcases hfound with ⟨rfl, rfl⟩ | ⟨rfl, rfl⟩ | ⟨rfl, rfl⟩ | ⟨rfl, rfl⟩ | ⟨rfl, rfl⟩
    · exact absurd (isModelPlace_iff.2 hnamed) (by decide)
    · rfl
    · obtain ⟨text, htext, hparse⟩ := hread
      obtain rfl := String.toByteArray_inj.1 htext
      cases hparse
    · obtain ⟨text, htext, -⟩ := hread
      cases decode_eq_ok_iff.2 htext
    · rfl

/-- The two models, as they are read. -/
def callerFile : ModelFile :=
  ⟨none, [⟨"Main", none, [⟨"run", none, [], true,
    some ⟨[.invoke ⟨"Util", "log", [], none, none, none⟩], none⟩⟩]⟩]⟩

def calleeFile : ModelFile := ⟨none, [⟨"Util", none, [⟨"log", none, [], true, none⟩]⟩]⟩

theorem parse?_callerModel : ModelFile.parse? callerModel = some callerFile := by decide +kernel

theorem parse?_calleeModel : ModelFile.parse? calleeModel = some calleeFile := by decide +kernel

/-- The program of the two models. -/
def loggingProgram : Program where
  name := "app"
  classes := [⟨"Main", none, [0]⟩, ⟨"Util", none, [1]⟩]
  methods := [
    ⟨0, "Main.run", "Main", "run", "run()", [], true, some [⟨0, 0, "Util", "log", [], none⟩]⟩,
    ⟨1, "Util.log", "Util", "log", "log()", [], true, none⟩]
  callGraph := ⟨[[], [⟨⟨0, 0⟩, 1⟩]], 1⟩

theorem lowered_logging :
    lowered "app" [⟨"app/a/x.program.json", callerFile⟩, ⟨"app/a.program.json", calleeFile⟩] =
      .ok loggingProgram := by
  cbv

/-- The sources of the tidy directory. -/
theorem holds_tidy_source_iff {s : Source} :
    (∃ place bytes, Holds (.directory tidy) place bytes s.file ∧
      s.name = place.foldl Path.join "app") ↔
    s ∈ [⟨"app/a/x.program.json", callerFile⟩, ⟨"app/a.program.json", calleeFile⟩] := by
  obtain ⟨name, file⟩ := s
  constructor
  · rintro ⟨place, bytes, ⟨-, hfound, text, htext, hparse⟩, hname⟩
    rcases tidy_cases hfound with ⟨rfl, rfl⟩ | ⟨rfl, rfl⟩
    · obtain rfl := String.toByteArray_inj.1 htext
      obtain rfl : callerFile = file := Option.some.inj (parse?_callerModel.symm.trans hparse)
      obtain rfl : name = "app/a/x.program.json" := hname
      exact List.mem_cons_self ..
    · obtain rfl := String.toByteArray_inj.1 htext
      obtain rfl : calleeFile = file := Option.some.inj (parse?_calleeModel.symm.trans hparse)
      obtain rfl : name = "app/a.program.json" := hname
      exact List.mem_cons_of_mem _ (List.mem_singleton_self _)
  · intro hmem
    rcases List.mem_cons.1 hmem with heq | hmem
    · cases heq
      exact ⟨["a", "x.program.json"], _, ⟨⟨["a"], "x", rfl⟩, rfl, _, rfl, parse?_callerModel⟩, rfl⟩
    · cases List.mem_singleton.1 hmem
      exact ⟨["a.program.json"], _, ⟨⟨[], "a", rfl⟩, rfl, _, rfl, parse?_calleeModel⟩, rfl⟩

/-- Clutter before, between and after the models does not change what is loaded. -/
theorem load_eq_of_sameModels_cluttered :
    (filesOf tidy).find "app" = .ok (.directory tidy) ∧
    (filesOf cluttered).find "app" = .ok (.directory cluttered) ∧
    (Tree.directory tidy).Proper ∧ (Tree.directory cluttered).Proper ∧
    (∀ place bytes file,
      Holds (.directory tidy) place bytes file ↔ Holds (.directory cluttered) place bytes file) ∧
    load (filesOf tidy) "app" = load (filesOf cluttered) "app" ∧
    load (filesOf cluttered) "app" = .ok loggingProgram := by
  have hfind : (filesOf tidy).find "app" = .ok (.directory tidy) := rfl
  have hfind' : (filesOf cluttered).find "app" = .ok (.directory cluttered) := rfl
  obtain ⟨hsame, found, hmem, horder, hload⟩ :=
    load_eq_of_sameModels hfind hfind' proper_tidy proper_cluttered holds_tidy_iff
  have hbefore : Path.Before "app/a/x.program.json" "app/a.program.json" :=
    Path.before_iff.2 (by decide +kernel)
  obtain rfl : found =
      [⟨"app/a/x.program.json", callerFile⟩, ⟨"app/a.program.json", calleeFile⟩] := by
    refine sources_ext horder ?_ fun s => (hmem s).trans holds_tidy_source_iff
    exact List.pairwise_pair.2 hbefore
  refine ⟨hfind, hfind', proper_tidy, proper_cluttered, holds_tidy_iff, hsame, ?_⟩
  rw [← hsame, hload, if_neg (List.cons_ne_nil _ _)]
  exact lowered_logging

end

end CryptoAudit.Model
