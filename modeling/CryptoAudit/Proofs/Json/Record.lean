import Mathlib.Data.List.Nodup
import CryptoAudit.Json.Document
import CryptoAudit.Proofs.Json.RoundTrip

/-!
# Reading written records

A fact that is not known is written as null, or its member is left out. Both forms mean the same to
a reader, and each member may be written in either of them: `Omits v w` says that `w` is `v` without
some of its null members, at any depth. A reader `Reads` a datum from a value if it finds the datum
in every such form.

The readers of records look members up by name (`record?_object`), and so what they find for a
member of `v` is nothing, if the member is null, or a form of it (`Found`). With this each field of
a record is read on its own.
-/

namespace CryptoAudit.Json

open Document

mutual

/-- The second value is the first without some of its null members. -/
inductive Omits : Json → Json → Prop
  | null : Omits .null .null
  | bool (b : Bool) : Omits (.bool b) (.bool b)
  | int (n : Int) : Omits (.int n) (.int n)
  | text (s : String) : Omits (.text s) (.text s)
  | list {vs ws : List Json} (h : OmitsItems vs ws) : Omits (.list vs) (.list ws)
  | object {ms ns : List (String × Json)} (h : OmitsMembers ms ns) : Omits (.object ms) (.object ns)

/-- The same items, without some of their null members. -/
inductive OmitsItems : List Json → List Json → Prop
  | nil : OmitsItems [] []
  | cons {v w : Json} {vs ws : List Json} (h : Omits v w) (hrest : OmitsItems vs ws) :
      OmitsItems (v :: vs) (w :: ws)

/-- The members without some of those that are null. -/
inductive OmitsMembers : List (String × Json) → List (String × Json) → Prop
  | nil : OmitsMembers [] []
  | keep {k : String} {v w : Json} {ms ns : List (String × Json)} (h : Omits v w)
      (hrest : OmitsMembers ms ns) : OmitsMembers ((k, v) :: ms) ((k, w) :: ns)
  | drop {k : String} {ms ns : List (String × Json)} (hrest : OmitsMembers ms ns) :
      OmitsMembers ((k, .null) :: ms) ns

end

section
variable {v w : Json} {vs ws : List Json} {ms ns : List (String × Json)}

/-- Of items nothing need be left out, if of each one nothing need be. -/
theorem OmitsItems.refl (h : ∀ v ∈ vs, Omits v v) : OmitsItems vs vs := by
  induction vs with
  | nil => exact .nil
  | cons v vs ih =>
    obtain ⟨hv, hvs⟩ := List.forall_mem_cons.1 h
    exact .cons hv (ih hvs)

/-- Of members nothing need be left out, if of each value nothing need be. -/
theorem OmitsMembers.refl (h : ∀ m ∈ ms, Omits m.2 m.2) : OmitsMembers ms ms := by
  induction ms with
  | nil => exact .nil
  | cons m ms ih =>
    obtain ⟨hm, hms⟩ := List.forall_mem_cons.1 h
    exact .keep hm (ih hms)

/-- Of a plain value nothing need be left out. -/
theorem Plain.omits_refl (h : Plain v) : Omits v v := by
  induction h with
  | null => exact .null
  | bool b => exact .bool b
  | int n => exact .int n
  | text s => exact .text s
  | list _ ih => exact .list (.refl ih)
  | object _ ih => exact .object (.refl ih)

/-- What is left out of each item is left out of the list. -/
theorem OmitsItems.map {α : Type} {e e' : α → Json} {xs : List α}
    (h : ∀ x ∈ xs, Omits (e x) (e' x)) : OmitsItems (xs.map e) (xs.map e') := by
  induction xs with
  | nil => exact .nil
  | cons x xs ih =>
    obtain ⟨hx, hxs⟩ := List.forall_mem_cons.1 h
    exact .cons hx (ih hxs)

/-- What is left out of two lists of members is left out of both together. -/
theorem OmitsMembers.append {ms' ns' : List (String × Json)} (h : OmitsMembers ms ns)
    (h' : OmitsMembers ms' ns') : OmitsMembers (ms ++ ms') (ns ++ ns') := by
  induction ms generalizing ns with
  | nil =>
    cases h
    exact h'
  | cons m ms ih =>
    cases h with
    | keep hw hrest => exact .keep hw (ih hrest)
    | drop hrest => exact .drop (ih hrest)

/-- What holds of an item whatever is left out of it holds of all items that are left. -/
theorem OmitsItems.forall_mem {P : Json → Prop} (h : OmitsItems vs ws)
    (hvs : ∀ v ∈ vs, ∀ w, Omits v w → P w) : ∀ w ∈ ws, P w := by
  induction vs generalizing ws with
  | nil =>
    cases h
    exact nofun
  | cons v vs ih =>
    cases h with
    | cons hw hrest =>
      obtain ⟨hv, hvs⟩ := List.forall_mem_cons.1 hvs
      exact List.forall_mem_cons.2 ⟨hv _ hw, ih hrest hvs⟩

/-- What holds of a value whatever is left out of it holds of all members that are left. -/
theorem OmitsMembers.forall_mem {P : Json → Prop} (h : OmitsMembers ms ns)
    (hms : ∀ m ∈ ms, ∀ w, Omits m.2 w → P w) : ∀ n ∈ ns, P n.2 := by
  induction ms generalizing ns with
  | nil =>
    cases h
    exact nofun
  | cons m ms ih =>
    obtain ⟨hm, htail⟩ := List.forall_mem_cons.1 hms
    cases h with
    | keep hw hrest => exact List.forall_mem_cons.2 ⟨hm _ hw, ih hrest htail⟩
    | drop hrest => exact ih hrest htail

/-- Leaving null members out of a plain value leaves it plain. -/
theorem Omits.plain (h : Omits v w) (hv : Plain v) : Plain w := by
  induction hv generalizing w with
  | null | bool | int | text =>
    cases h
    constructor
  | list _ ih =>
    cases h with
    | list h => exact .list (h.forall_mem fun v hv w hw => ih v hv hw)
  | object _ ih =>
    cases h with
    | object h => exact .object (h.forall_mem fun m hm w hw => ih m hm hw)

theorem Omits.ne_null (h : Omits v w) (hv : v ≠ .null) : w ≠ .null := by
  rintro rfl
  cases h
  exact hv rfl

/-! ## Members by name -/

/-- The names of the members that are left are some of all names, in order. -/
theorem OmitsMembers.sublist (h : OmitsMembers ms ns) : (ns.map (·.1)).Sublist (ms.map (·.1)) := by
  induction ms generalizing ns with
  | nil =>
    cases h
    exact .slnil
  | cons m ms ih =>
    cases h with
    | keep _ hrest => exact (ih hrest).cons_cons _
    | drop hrest => exact (ih hrest).cons _

/-- What may be found for a member: nothing if it is null, or a form of it. -/
inductive Found : Json → Option Json → Prop
  | omitted : Found .null none
  | given {v w : Json} (h : Omits v w) : Found v (some w)

/-- A name that no member has is not found. -/
theorem lookup_eq_none {k : String} (h : k ∉ ns.map (·.1)) : ns.lookup k = none := by
  rw [List.lookup_eq_none_iff]
  intro n hn
  rw [bne_iff_ne]
  rintro rfl
  exact h (List.mem_map.2 ⟨n, hn, rfl⟩)

/-- Names are distinct, so that a member is found under its name or was left out. -/
theorem OmitsMembers.found (h : OmitsMembers ms ns) (hnodup : (ms.map (·.1)).Nodup) {k : String}
    (hmem : (k, v) ∈ ms) : Found v (ns.lookup k) := by
  induction ms generalizing ns with
  | nil => cases hmem
  | cons m ms ih =>
    obtain ⟨hnew, hrestNodup⟩ := List.nodup_cons.1 hnodup
    cases h with
    | @keep k' v' w _ ns hw hrest =>
      rcases List.mem_cons.1 hmem with heq | hmem
      · cases heq
        rw [List.lookup_cons_self]
        exact .given hw
      · have hne : (k == k') = false :=
          beq_eq_false_iff_ne.2 fun heq => hnew (heq ▸ List.mem_map.2 ⟨_, hmem, rfl⟩)
        rw [List.lookup_cons, hne]
        exact ih hrest hrestNodup hmem
    | drop hrest =>
      rcases List.mem_cons.1 hmem with heq | hmem
      · cases heq
        rw [lookup_eq_none fun hmem => hnew (hrest.sublist.subset hmem)]
        exact .omitted
      · exact ih hrest hrestNodup hmem

/-- With distinct names, the value of a field without aliases is found by its name. -/
theorem value?_of_nodup (hnodup : (ns.map (·.1)).Nodup) {f : Field} (hf : f.aliases = []) :
    f.value? ns = some (ns.lookup f.name) := by
  have hcalled : (f.called ·.1 : String × Json → Bool) = (·.1 == f.name) := by
    funext n
    simp [Field.called, hf]
  rw [Field.value?, hcalled]
  clear hcalled
  induction ns with
  | nil => rfl
  | cons n ns ih =>
    obtain ⟨hnew, hrest⟩ := List.nodup_cons.1 hnodup
    by_cases hname : n.1 = f.name
    · have hnone : ns.filter (·.1 == f.name) = [] := by
        rw [List.filter_eq_nil_iff]
        intro m hm heq
        exact hnew (List.mem_map.2 ⟨m, hm, (eq_of_beq heq).trans hname.symm⟩)
      obtain ⟨k, v⟩ := n
      obtain rfl : k = f.name := hname
      rw [List.filter_cons_of_pos (by simp), hnone, List.lookup_cons_self]
    · obtain ⟨k, v⟩ := n
      rw [List.filter_cons_of_neg (by simpa using hname), ih hrest, List.lookup_cons,
        beq_eq_false_iff_ne.2 (Ne.symm hname)]

/-- A record written by name has for each field the member of its name. -/
theorem record?_object (hnodup : (ns.map (·.1)).Nodup) {fields : List Field}
    (hfields : ∀ f ∈ fields, f.aliases = []) :
    record? fields (.object ns) = some (fields.map fun f => ns.lookup f.name) := by
  have hrecord : record? fields (.object ns) = byName? fields ns := rfl
  rw [hrecord, byName?]
  clear hrecord
  induction fields with
  | nil => rfl
  | cons f fields ih =>
    obtain ⟨hf, hrest⟩ := List.forall_mem_cons.1 hfields
    rw [List.mapM_cons, value?_of_nodup hnodup hf, ih hrest]
    rfl

/-- In whatever form a record is written, its members are found and no others. -/
theorem Omits.record? (h : Omits (.object ms) w) (hnodup : (ms.map (·.1)).Nodup) :
    ∃ ns : List (String × Json),
      (∀ fields : List Field, (∀ f ∈ fields, f.aliases = []) →
        Document.record? fields w = some (fields.map fun f => ns.lookup f.name)) ∧
      (∀ m ∈ ms, Found m.2 (ns.lookup m.1)) ∧
      ∀ k ∉ ms.map (·.1), ns.lookup k = none := by
  cases h with
  | @object _ ns h =>
    refine ⟨ns, fun _ => record?_object (h.sublist.nodup hnodup), fun m => h.found hnodup, ?_⟩
    intro k hk
    exact lookup_eq_none fun hmem => hk (h.sublist.subset hmem)

end

/-! ## Unknown facts -/

/-- A fact, or null if it is not known. -/
def orNull {α : Type} (e : α → Json) : Option α → Json
  | none => .null
  | some a => e a

/-- An optional value is plain, if all values are. -/
theorem plain_orNull {α : Type} {e : α → Json} (h : ∀ a, Plain (e a)) (x : Option α) :
    Plain (orNull e x) := by
  cases x with
  | none => exact .null
  | some a => exact h a

/-- What is known is not written as null, so the facts can be told apart. -/
theorem orNull_inj {α : Type} {e : α → Json} (hne : ∀ a, e a ≠ .null)
    (hinj : ∀ a b, e a = e b → a = b) {x y : Option α} (h : orNull e x = orNull e y) : x = y := by
  cases x with
  | none =>
    cases y with
    | none => rfl
    | some b => exact absurd h.symm (hne b)
  | some a =>
    cases y with
    | none => exact absurd h (hne a)
    | some b => exact congrArg some (hinj a b h)

theorem plain_nat (n : Nat) : Plain (.nat n) := .int n

theorem plain_list {α : Type} {e : α → Json} (h : ∀ a, Plain (e a)) (xs : List α) :
    Plain (.list (xs.map e)) :=
  .list (List.forall_mem_map.2 fun a _ => h a)

theorem plain_texts (ss : List String) : Plain (.texts ss) :=
  plain_list .text ss

theorem ofText?_eq_orNull (s : Option String) : Json.ofText? s = orNull .text s := by
  cases s <;> rfl

theorem plain_ofText? (s : Option String) : Plain (.ofText? s) := by
  rw [ofText?_eq_orNull]
  exact plain_orNull .text s

theorem omits_ofText? (s : Option String) : Omits (orNull .text s) (.ofText? s) := by
  rw [ofText?_eq_orNull]
  exact (plain_orNull .text s).omits_refl

/-- A fact that is not known is left out. -/
theorem omitsMembers_toList {α : Type} (k : String) {e e' : α → Json} (h : ∀ a, Omits (e a) (e' a))
    (x : Option α) : OmitsMembers [(k, orNull e x)] (x.map fun a => (k, e' a)).toList := by
  cases x with
  | none => exact .drop .nil
  | some a => exact .keep (h a) .nil

/-! ## Reading -/

/-- In whatever form the value is written, it is read as `a`. It is not null itself. -/
structure Reads {α : Type} (read : Json → Option α) (v : Json) (a : α) : Prop where
  ne_null : v ≠ .null
  read_eq : ∀ w, Omits v w → read w = some a

section
variable {α : Type} {read : Json → Option α} {v : Json} {a : α} {o : Option Json}

/-- A required field that is found is read. -/
theorem Found.required (h : Found v o) (hread : Reads read v a) :
    Document.required read o = some a := by
  cases h with
  | omitted => exact absurd rfl hread.ne_null
  | given hw => exact hread.read_eq _ hw

/-- A field with a default that is found is read. -/
theorem Found.orElse (h : Found v o) (hread : Reads read v a) (default : α) :
    Document.orElse default read o = some a := by
  cases h with
  | omitted => exact absurd rfl hread.ne_null
  | given hw => exact hread.read_eq _ hw

theorem given?_of_ne_null {w : Json} (h : w ≠ .null) : given? w = some (some w) := by
  cases w with
  | null => exact absurd rfl h
  | _ => rfl

/-- An optional field is read back, whether it is there, is null or was left out. -/
theorem Found.optional {e : α → Json} {x : Option α} (h : Found (orNull e x) o)
    (hread : ∀ a, x = some a → Reads read (e a) a) : Document.optional read o = some x := by
  cases x with
  | none =>
    cases h with
    | omitted => rfl
    | given hw =>
      cases hw
      rfl
  | some a =>
    obtain ⟨hne, hreads⟩ := hread a rfl
    rw [orNull] at h
    generalize e a = v at h hne hreads
    cases h with
    | omitted => exact absurd rfl hne
    | given hw =>
      rw [Document.optional, given?_of_ne_null (hw.ne_null hne)]
      simp [hreads _ hw]

/-- A text has one form. -/
theorem Reads.text {s : String} (h : read (.text s) = some a) : Reads read (.text s) a := by
  refine ⟨nofun, fun w hw => ?_⟩
  cases hw
  exact h

theorem reads_text (s : String) : Reads text? (.text s) s := .text rfl

theorem reads_name {ofName? : String → Option α} {name : String} (h : ofName? name = some a) :
    Reads (fun v => (name? v).bind ofName?) (.text name) a :=
  .text h

theorem reads_bool (b : Bool) : Reads bool? (.bool b) b := by
  refine ⟨nofun, fun w hw => ?_⟩
  cases hw
  rfl

theorem reads_below {bound n : Nat} (h : n < bound) : Reads (below? bound) (.nat n) n := by
  refine ⟨nofun, fun w hw => ?_⟩
  cases hw
  exact if_pos h

theorem reads_index {n : Nat} (h : n < 0x10000000000000000) : Reads index? (.nat n) n :=
  reads_below h

theorem reads_line {n : Nat} (h : n < 0x100000000) : Reads line? (.nat n) n :=
  reads_below h

/-- A list is read back, if its items are. -/
theorem Reads.list {e : α → Json} {xs : List α} (h : ∀ x ∈ xs, Reads read (e x) x) :
    Reads (list? read) (.list (xs.map e)) xs := by
  refine ⟨nofun, fun w hw => ?_⟩
  cases hw with
  | @list _ ws hitems =>
    have hlist : list? read (.list ws) = ws.mapM read := rfl
    rw [hlist]
    clear hlist
    induction xs generalizing ws with
    | nil =>
      cases hitems
      rfl
    | cons x xs ih =>
      obtain ⟨hx, hxs⟩ := List.forall_mem_cons.1 h
      cases hitems with
      | cons hw hrest =>
        rw [List.mapM_cons, hx.read_eq _ hw, ih hxs hrest]
        rfl

theorem reads_texts (ss : List String) : Reads (list? text?) (.texts ss) ss :=
  .list fun s _ => reads_text s

/-! ## Alternatives -/

@[simp] theorem tagged?_tag (name : String) (data : Json) :
    (Json.tag name data).tagged? = some (name, data) := rfl

theorem Plain.tag (name : String) {data : Json} (h : Plain data) : Plain (.tag name data) :=
  .object (List.forall_mem_singleton.2 h)

/-- An alternative with data is written in one form, up to its data. -/
theorem Omits.tag {name : String} {data w : Json} (h : Omits (.tag name data) w)
    (hdata : data ≠ .null) : ∃ data', w = .tag name data' ∧ Omits data data' := by
  cases h with
  | object h =>
    cases h with
    | keep hw hrest =>
      cases hrest
      exact ⟨_, rfl, hw⟩
    | drop => exact absurd rfl hdata

/-- An alternative with data is read if its data is. -/
theorem Reads.tag {β : Type} {readTag : Json → Option β} {b : β} {name : String}
    (h : Reads read v a) (htag : ∀ data, read data = some a → readTag (.tag name data) = some b) :
    Reads readTag (.tag name v) b := by
  refine ⟨nofun, fun w hw => ?_⟩
  obtain ⟨data, rfl, hdata⟩ := hw.tag h.ne_null
  exact htag data (h.read_eq data hdata)

end

end CryptoAudit.Json
