import Mathlib.Data.List.Perm.Basic
import CryptoAudit.Proofs.Model.Lowering

/-!
# The classes of a lowered program

Models declare classes one after the other, and a class that is declared again is the same class.
What lowering makes of them is described in terms of all declarations in order (`classModels`):

* `methodsInOrder_perm_lower`: the classes together list every method of the program once.
* `sourceFileOf_lower`: the source file of a class is the last that one of its declarations gives.

Both follow from what the two steps of declaring, a class and a method, do to the classes
(`declare_induction`).
-/

namespace CryptoAudit

namespace Program

/-! ## What the classes list -/

/-- The methods that the classes list, in order. -/
def listed (p : Program) : List MethodId := p.classes.flatMap (·.methods)

/-- Making sure that a class exists lists no method. -/
theorem listed_ensureClass (p : Program) (name : String) :
    (p.ensureClass name).listed = p.listed := by
  unfold ensureClass
  split
  · rfl
  · simp [listed]

/-- A class exists after this has been made sure. -/
theorem any_ensureClass (p : Program) (name : String) :
    (p.ensureClass name).classes.any (·.name == name) = true := by
  unfold ensureClass
  split
  next h => exact h
  next => simp

/-- Another method in one of the classes is another method that is listed. -/
theorem listed_modify_perm {classes : List ClassDef} {name : String}
    (h : classes.any (·.name == name) = true) (id : MethodId) :
    ((classes.modify (classes.findIdx (·.name == name)) fun c =>
      { c with methods := c.methods ++ [id] }).flatMap (·.methods)).Perm
        (classes.flatMap (·.methods) ++ [id]) := by
  induction classes with
  | nil => cases h
  | cons c classes ih =>
    rw [List.findIdx_cons]
    cases hname : c.name == name with
    | true => simpa using (List.perm_append_singleton id _).symm.append_left c.methods
    | false =>
      rw [List.any_cons, hname, Bool.false_or] at h
      simpa using (ih h).append_left c.methods

theorem listed_addMethod_perm (p : Program) (d : Declaration) :
    (p.addMethod d).listed.Perm (p.listed ++ [p.methods.length]) := by
  rw [← listed_ensureClass p d.className]
  exact listed_modify_perm (any_ensureClass p d.className) p.methods.length

/-- Declaring a class lists no method. -/
theorem listed_declareClass (p : Program) (name : String) (file : Option String) :
    (p.declareClass name file).listed = p.listed := by
  cases file with
  | none => exact listed_ensureClass p name
  | some file =>
    have hmodify : ∀ (classes : List ClassDef) (i : Nat),
        (classes.modify i fun c => { c with sourceFile := some file }).flatMap (·.methods) =
          classes.flatMap (·.methods) := by
      intro classes
      induction classes with
      | nil => simp
      | cons c classes ih =>
        intro i
        cases i <;> simp [ih]
    exact (hmodify _ _).trans (listed_ensureClass p name)

/-! ## The source file of a class -/

/-- Making sure that a class exists tells nothing about source files. -/
theorem sourceFileOf_ensureClass (p : Program) (name className : String) :
    (p.ensureClass name).sourceFileOf className = p.sourceFileOf className := by
  unfold ensureClass
  split
  · rfl
  · rw [sourceFileOf, sourceFileOf, List.find?_append]
    cases p.classes.find? (·.name == className) with
    | some c => rfl
    | none =>
      rw [Option.none_or, List.find?_singleton]
      split <;> rfl

/-- Changing the first class of a name without renaming it. -/
theorem find?_modify (classes : List ClassDef) (name className : String) {f : ClassDef → ClassDef}
    (hf : ∀ c, (f c).name = c.name) :
    (classes.modify (classes.findIdx (·.name == name)) f).find? (·.name == className) =
      (classes.find? (·.name == className)).map (if name = className then f else id) := by
  induction classes with
  | nil => rfl
  | cons c classes ih =>
    rw [List.findIdx_cons]
    by_cases hname : c.name = name
    · by_cases hclass : name = className
      · simp [hname, hclass, hf]
      · simp [hname, hclass, hf]
    · have hbeq : (c.name == name) = false := beq_eq_false_iff_ne.2 hname
      rw [hbeq, cond_false, List.modify_succ_cons, List.find?_cons, List.find?_cons]
      cases hclass : c.name == className with
      | true =>
        have hne : name ≠ className := fun heq => hname ((eq_of_beq hclass).trans heq.symm)
        simp [hne]
      | false => exact ih

/-- Declaring a class with a file gives it this file, and without one leaves what is known. -/
theorem sourceFileOf_declareClass (p : Program) (name : String) (file : Option String)
    (className : String) :
    (p.declareClass name file).sourceFileOf className =
      if name = className then file.or (p.sourceFileOf className)
      else p.sourceFileOf className := by
  cases file with
  | none => simp [declareClass, sourceFileOf_ensureClass]
  | some file =>
    have hmodify := find?_modify (p.ensureClass name).classes name className
      (f := fun c => { c with sourceFile := some file }) fun _ => rfl
    refine (congrArg (Option.bind · ClassDef.sourceFile) hmodify).trans ?_
    split
    next heq =>
      subst heq
      obtain ⟨c, hc⟩ : ∃ c, (p.ensureClass name).classes.find? (·.name == name) = some c := by
        rw [← Option.isSome_iff_exists, List.find?_isSome, ← List.any_eq_true]
        exact any_ensureClass p name
      rw [hc]
      rfl
    next =>
      rw [Option.map_id]
      exact sourceFileOf_ensureClass p name className

/-- Adding a method tells nothing about source files. -/
theorem sourceFileOf_addMethod (p : Program) (d : Declaration) (className : String) :
    (p.addMethod d).sourceFileOf className = p.sourceFileOf className := by
  have hmodify := find?_modify (p.ensureClass d.className).classes d.className className
    (f := fun c => { c with methods := c.methods ++ [p.methods.length] }) fun _ => rfl
  rw [← sourceFileOf_ensureClass p d.className, sourceFileOf, sourceFileOf]
  refine (congrArg (Option.bind · ClassDef.sourceFile) hmodify).trans ?_
  cases (p.ensureClass d.className).classes.find? (·.name == className) with
  | none => rfl
  | some c =>
    rw [Option.map_some]
    split <;> rfl

end Program

namespace Model

open Program

/-! ## Declaring models -/

/-- The classes that the models declare, in order. -/
def classModels (sources : List Source) : List ClassModel := sources.flatMap (·.file.classes)

/-- What both steps of declaring keep, in terms of the classes declared so far. -/
theorem declare_induction {P : List ClassModel → Program → Prop} (name : String)
    (hempty : P [] (.empty name))
    (hclass : ∀ cs p c, P cs p → P (cs ++ [c]) (p.declareClass c.name c.sourceFile))
    (hmethod : ∀ cs p d, P cs p → P cs (p.addMethod d)) (sources : List Source) :
    P (classModels sources) (declare name sources).program := by
  have hmethods : ∀ (source className : String) (cs : List ClassModel) (ms : List MethodModel)
      (d : Declared), P cs d.program →
        P cs (ms.foldl (·.addMethod source className ·) d).program := by
    intro source className cs ms
    induction ms with
    | nil => exact fun _ h => h
    | cons m ms ih => exact fun d h => ih _ (hmethod _ _ _ h)
  have hclasses : ∀ (source : String) (new cs : List ClassModel) (d : Declared), P cs d.program →
      P (cs ++ new) (new.foldl (Declared.addClass source) d).program := by
    intro source new
    induction new with
    | nil => simp
    | cons c new ih =>
      intro cs d h
      have hc := hmethods source c.name (cs ++ [c]) c.methods
        { d with program := d.program.declareClass c.name c.sourceFile } (hclass _ _ c h)
      simpa [Declared.addClass] using ih (cs ++ [c]) _ hc
  have hsources : ∀ (ss : List Source) (cs : List ClassModel) (d : Declared), P cs d.program →
      P (cs ++ classModels ss)
        (ss.foldl (fun d s => s.file.classes.foldl (Declared.addClass s.name) d) d).program := by
    intro ss
    induction ss with
    | nil => simp [classModels]
    | cons s ss ih =>
      intro cs d h
      simpa [classModels] using ih _ _ (hclasses s.name s.file.classes cs d h)
  exact hsources sources [] ⟨.empty name, []⟩ hempty

/-- The classes together list every method once. -/
theorem listed_declare_perm (name : String) (sources : List Source) :
    (declare name sources).program.listed.Perm
      (List.range (declare name sources).program.methods.length) := by
  refine declare_induction (P := fun _ p => p.listed.Perm (List.range p.methods.length)) name
    (List.Perm.refl _) (fun _ p c h => ?_) (fun _ p d h => ?_) sources
  · rw [listed_declareClass, (declareClass_methods p c.name c.sourceFile).1]
    exact h
  · rw [(addMethod_methods p d).1, List.length_append, List.length_singleton, List.range_succ]
    exact (listed_addMethod_perm p d).trans (h.append_right _)

/-- The source file of a class is the last that one of its declarations gives. -/
theorem sourceFileOf_declare (name : String) (sources : List Source) (className : String) :
    (declare name sources).program.sourceFileOf className =
      (((classModels sources).filter (·.name == className)).filterMap (·.sourceFile)).getLast? := by
  refine declare_induction (P := fun cs p => p.sourceFileOf className =
    ((cs.filter (·.name == className)).filterMap (·.sourceFile)).getLast?) name rfl
    (fun cs p c h => ?_) (fun _ p d h => ?_) sources
  · rw [sourceFileOf_declareClass, h]
    by_cases hname : c.name = className
    · rw [if_pos hname]
      cases hfile : c.sourceFile <;> simp [hname, hfile, List.filter_append]
    · simp [hname, List.filter_append]
  · rw [sourceFileOf_addMethod, h]

section
variable {name : String} {sources : List Source} {p : Program}

theorem sourceFileOf_lower (h : lower name sources = .ok p) (className : String) :
    p.sourceFileOf className =
      (((classModels sources).filter (·.name == className)).filterMap (·.sourceFile)).getLast? := by
  rw [← sourceFileOf_declare name, sourceFileOf, (filled_of_lower h).classes, sourceFileOf]

/-- The methods of the program are those of the models, in order. -/
theorem lower_methods (h : lower name sources = .ok p) :
    p.methods = (entries sources).zipIdx.map fun e => e.1.lowered p e.2 := by
  refine List.ext_getElem? fun i => ?_
  have hmethod : p.methods[i]? = _ := lower_method? h i
  rw [hmethod, List.getElem?_map, List.getElem?_zipIdx, Option.map_map, Nat.zero_add]
  rfl

/-- A list is what stands at its positions, in order. -/
theorem filterMap_range_getElem? {α : Type} (l : List α) :
    (List.range l.length).filterMap (l[·]?) = l := by
  induction l with
  | nil => rfl
  | cons a l ih =>
    rw [List.length_cons, List.range_succ_eq_map, List.filterMap_cons, List.filterMap_map]
    exact congrArg (a :: ·) ih

/-- The methods in the order of classes are all methods of the program. -/
theorem methodsInOrder_perm_lower (h : lower name sources = .ok p) :
    p.methodsInOrder.Perm p.methods := by
  have hlength : p.methods.length = (declare name sources).program.methods.length := by
    rw [lower_methods h, (declare_has name sources).methods, methodsFrom]
    simp
  have hlisted : p.listed.Perm (List.range p.methods.length) := by
    rw [hlength, listed, (filled_of_lower h).classes]
    exact listed_declare_perm name sources
  have hmap := hlisted.filterMap p.method?
  rwa [show (List.range p.methods.length).filterMap p.method? = p.methods from
    filterMap_range_getElem? p.methods] at hmap

end

end Model

end CryptoAudit
