import Mathlib
import CryptoAudit.Proofs.Report.Markup

/-!
# Escaping loses nothing

Text is escaped by one pass after the other, each of which replaces one character. A later pass runs
over what the earlier ones have written. It changes nothing of that as long as no replacement has a
character that is replaced later (`foldl_replaceChar`), and then the passes together write for each
character of the text what the table of replacements says (`escape_eq_flatMap`).

The entities can be told apart: each of them begins with the only ampersand in it, and none is the
beginning of another. A text is therefore read back from left to right (`decode_escape`), also one
that has entities itself.
-/

namespace CryptoAudit.Report.Page

/-! ## One pass for all characters -/

/-- The characters with a meaning in markup and the entities that stand for them, in the order in
which they are replaced. -/
def entities : List (Char × String) :=
  [('&', "&amp;"), ('<', "&lt;"), ('>', "&gt;"), ('"', "&quot;")]

/-- What a table has for a character, or else the character itself. -/
def written (table : List (Char × String)) (c : Char) : List Char :=
  ((table.lookup c).map String.toList).getD [c]

theorem escape_eq_foldl (s : List Char) :
    escape s = entities.foldl (fun s e => replaceChar e.1 e.2 s) s := rfl

/-- A character is written as the first entry says, if it is that of the entry. -/
theorem written_cons (e : Char × String) (table : List (Char × String)) (c : Char) :
    written (e :: table) c = if c = e.1 then e.2.toList else written table c := by
  obtain ⟨d, entity⟩ := e
  rw [written, List.lookup_cons]
  by_cases h : c = d
  · simp [h]
  · simp [written, h, beq_eq_false_iff_ne.2 h]

/-- Text without characters of the table is written as it is. -/
theorem flatMap_written_of_notMem {table : List (Char × String)} {s : List Char}
    (h : ∀ e ∈ table, e.1 ∉ s) : s.flatMap (written table) = s := by
  have hsame : ∀ c ∈ s, written table c = [c] := by
    intro c hc
    have hnone : table.lookup c = none := by
      rw [List.lookup_eq_none_iff]
      intro e he
      have hne : c ≠ e.1 := fun heq => h e he (heq ▸ hc)
      simpa using hne
    rw [written, hnone]
    rfl
  rw [List.flatMap_congr hsame, List.flatMap_singleton']

/-- Passes one after the other are a single pass if no replacement has a character of a later
pass. -/
theorem foldl_replaceChar {table : List (Char × String)}
    (h : table.Pairwise fun e f => f.1 ∉ e.2.toList) (s : List Char) :
    table.foldl (fun s e => replaceChar e.1 e.2 s) s = s.flatMap (written table) := by
  induction table generalizing s with
  | nil => exact (List.flatMap_singleton' s).symm
  | cons e table ih =>
    obtain ⟨hlater, htable⟩ := List.pairwise_cons.1 h
    rw [List.foldl_cons, ih htable, replaceChar, List.flatMap_assoc]
    refine List.flatMap_congr fun c _ => ?_
    rw [written_cons]
    -- the later passes see the replacement of a character of this pass, or the character itself
    split
    · exact flatMap_written_of_notMem hlater
    · exact List.flatMap_singleton ..

theorem escape_eq_flatMap (s : List Char) : escape s = s.flatMap (written entities) := by
  rw [escape_eq_foldl, foldl_replaceChar]
  decide

/-! ## Ampersands -/

/-- An entity begins with the only ampersand in it. -/
theorem exists_name_of_mem_entities {e : Char × String} (he : e ∈ entities) :
    ∃ name, e.2.toList = '&' :: name ∧ '&' ∉ name := by
  have hall : ∀ e ∈ entities, e.2.toList.head? = some '&' ∧ '&' ∉ e.2.toList.tail := by decide
  obtain ⟨hhead, htail⟩ := hall e he
  exact ⟨_, List.eq_cons_of_mem_head? hhead, htail⟩

/-- A character is written as an entity, or as itself, and then it is no ampersand. -/
theorem written_entities_cases (c : Char) :
    (∃ e ∈ entities, e.1 = c ∧ written entities c = e.2.toList) ∨
      c ≠ '&' ∧ written entities c = [c] := by
  cases hc : entities.lookup c with
  | some name =>
    obtain ⟨before, after, hsplit, -⟩ := List.lookup_eq_some_iff.1 hc
    have hmem : (c, name) ∈ entities := by simp [hsplit]
    exact .inl ⟨(c, name), hmem, rfl, by rw [written, hc]; rfl⟩
  | none =>
    refine .inr ⟨?_, by rw [written, hc]; rfl⟩
    rintro rfl
    cases hc

/-- An ampersand of a text that begins without ampersands stands behind this beginning. -/
theorem suffix_of_suffix_append {name rest t : List Char} (hname : '&' ∉ name)
    (h : '&' :: rest <:+ name ++ t) : '&' :: rest <:+ t := by
  induction name with
  | nil => exact h
  | cons c name ih =>
    rw [List.mem_cons, not_or] at hname
    obtain ⟨hc, hname⟩ := hname
    rcases List.suffix_cons_iff.1 h with heq | h
    · exact absurd (List.cons.inj heq).1 hc
    · exact ih hname h

/-- Every ampersand of an escaped text begins an entity. -/
theorem exists_entity_of_suffix {s rest : List Char} (h : '&' :: rest <:+ escape s) :
    ∃ e ∈ entities, e.2.toList <+: '&' :: rest := by
  rw [escape_eq_flatMap] at h
  induction s with
  | nil => simp at h
  | cons c s ih =>
    rw [List.flatMap_cons] at h
    rcases written_entities_cases c with ⟨e, he, -, hwritten⟩ | ⟨hc, hwritten⟩
    · obtain ⟨name, hentity, hname⟩ := exists_name_of_mem_entities he
      rw [hwritten, hentity, List.cons_append] at h
      -- the ampersand is that of this entity, or it stands behind the entity
      rcases List.suffix_cons_iff.1 h with heq | h
      · rw [heq, ← List.cons_append, ← hentity]
        exact ⟨e, he, List.prefix_append ..⟩
      · exact ih (suffix_of_suffix_append hname h)
    · rw [hwritten] at h
      exact ih (suffix_of_suffix_append (by simpa using hc.symm) h)

/-! ## Reading back -/

/-- The character for which an entity stands at the beginning of a text, and the text after the
entity. -/
def entityAt? (cs : List Char) : Option (Char × List Char) :=
  entities.findSome? fun e => (e.2.toList.isPrefixOf? cs).map (e.1, ·)

/-- An entity that is read is one of the table, and what follows it is the rest. -/
theorem exists_of_entityAt? {cs rest : List Char} {d : Char}
    (h : entityAt? cs = some (d, rest)) : ∃ e ∈ entities, e.1 = d ∧ cs = e.2.toList ++ rest := by
  obtain ⟨e, he, hsome⟩ := List.exists_of_findSome?_eq_some h
  obtain ⟨rest', hrest, heq⟩ := Option.map_eq_some_iff.1 hsome
  cases heq
  exact ⟨e, he, rfl, (List.isPrefixOf?_eq_some_iff_append_eq.1 hrest).symm⟩

/-- Reading an entity leaves less to read. -/
theorem length_lt_of_entityAt? {cs rest : List Char} {d : Char}
    (h : entityAt? cs = some (d, rest)) : rest.length < cs.length := by
  obtain ⟨e, he, -, rfl⟩ := exists_of_entityAt? h
  obtain ⟨name, hentity, -⟩ := exists_name_of_mem_entities he
  rw [hentity, List.length_append, List.length_cons]
  omega

/-- Replaces the entities of a text by what they stand for, from left to right. -/
def decode : List Char → List Char
  | [] => []
  | c :: cs =>
    match _hat : entityAt? (c :: cs) with
    | some (d, rest) => d :: decode rest
    | none => c :: decode cs
termination_by cs => cs.length
decreasing_by
  · exact length_lt_of_entityAt? _hat
  · exact Nat.lt_succ_self _

/-- No entity is the beginning of another. -/
theorem prefixFree_entities {e f : Char × String} (he : e ∈ entities) (hf : f ∈ entities)
    (h : e.2.toList <+: f.2.toList) : e = f := by
  have hall : ∀ e ∈ entities, ∀ f ∈ entities, e.2.toList <+: f.2.toList → e = f := by decide
  exact hall e he f hf h

/-- An entity is read as its character, whatever follows it, since none begins with another. -/
theorem entityAt?_append {e : Char × String} (he : e ∈ entities) (rest : List Char) :
    entityAt? (e.2.toList ++ rest) = some (e.1, rest) := by
  cases hfound : entityAt? (e.2.toList ++ rest) with
  | none =>
    have hnone := List.findSome?_eq_none_iff.1 hfound e he
    rw [Option.map_eq_none_iff, List.isPrefixOf?_eq_some_iff_append_eq.2 rfl] at hnone
    cases hnone
  | some found =>
    -- an entity that comes first in the table and matches too would be comparable with `e`
    obtain ⟨f, hf, hchar, hsplit⟩ := exists_of_entityAt? hfound
    have hsame : e = f := by
      have hef := List.prefix_or_prefix_of_prefix (List.prefix_append e.2.toList rest)
        (hsplit ▸ List.prefix_append f.2.toList found.2)
      rcases hef with hef | hfe
      · exact prefixFree_entities he hf hef
      · exact (prefixFree_entities hf he hfe).symm
    subst hsame
    rw [List.append_cancel_left hsplit, hchar]

/-- Decoding an entity gives its character. -/
theorem decode_entity_append {e : Char × String} (he : e ∈ entities) (rest : List Char) :
    decode (e.2.toList ++ rest) = e.1 :: decode rest := by
  have hat := entityAt?_append he rest
  obtain ⟨name, hentity, -⟩ := exists_name_of_mem_entities he
  rw [hentity, List.cons_append] at hat ⊢
  rw [decode, hat]

/-- Decoding keeps every character but the one that begins an entity. -/
theorem decode_cons {c : Char} (hc : c ≠ '&') (cs : List Char) :
    decode (c :: cs) = c :: decode cs := by
  have hnone : entityAt? (c :: cs) = none := by
    cases hfound : entityAt? (c :: cs) with
    | none => rfl
    | some found =>
      obtain ⟨e, he, -, hsplit⟩ := exists_of_entityAt? hfound
      obtain ⟨name, hentity, -⟩ := exists_name_of_mem_entities he
      rw [hentity, List.cons_append] at hsplit
      exact absurd (List.cons.inj hsplit).1 hc
  rw [decode, hnone]

/-- Decoding an escaped text gives the text. -/
theorem decode_escape (s : List Char) : decode (escape s) = s := by
  rw [escape_eq_flatMap]
  induction s with
  | nil => rw [List.flatMap_nil, decode]
  | cons c s ih =>
    rw [List.flatMap_cons]
    rcases written_entities_cases c with ⟨e, he, rfl, hwritten⟩ | ⟨hc, hwritten⟩
    · rw [hwritten, decode_entity_append he, ih]
    · rw [hwritten, List.singleton_append, decode_cons hc, ih]

/-- The passes of the escape together replace each character with a meaning in markup by its entity
and keep all others. The result has none of these characters but ampersands, and every ampersand
begins an entity. Decoding gives the text back, so that different texts are written differently. -/
theorem escape_single_pass_lossless :
    (∀ s, escape s = s.flatMap (written entities)) ∧
    (∀ s, '<' ∉ escape s ∧ '>' ∉ escape s ∧ '"' ∉ escape s) ∧
    (∀ s rest, '&' :: rest <:+ escape s → ∃ e ∈ entities, e.2.toList <+: '&' :: rest) ∧
    (∀ s, decode (escape s) = s) ∧
    Function.Injective escape := by
  refine ⟨escape_eq_flatMap, fun s => ?_, fun s rest => exists_entity_of_suffix, decode_escape,
    Function.LeftInverse.injective decode_escape⟩
  have hinert (c : Char) (hc : delimits c = true) : c ∉ escape s := by
    intro hmem
    rw [inert_escape s c hmem] at hc
    cases hc
  exact ⟨hinert '<' rfl, hinert '>' rfl, hinert '"' rfl⟩

/-- A text that looks as if it were escaped already. -/
theorem escape_single_pass_lossless_nested :
    let s := "&amp;lt;<".toList
    escape s = "&amp;amp;lt;&lt;".toList ∧ '&' :: "lt;".toList <:+ escape s ∧
      (∃ e ∈ entities, e.2.toList <+: '&' :: "lt;".toList) ∧ decode (escape s) = s := by
  intro s
  obtain ⟨-, -, hampersand, hdecode, -⟩ := escape_single_pass_lossless
  have hescape : escape s = "&amp;amp;lt;&lt;".toList := by decide
  have hsuffix : '&' :: "lt;".toList <:+ escape s := by
    rw [hescape]
    decide
  exact ⟨hescape, hsuffix, hampersand s _ hsuffix, hdecode s⟩

end CryptoAudit.Report.Page
