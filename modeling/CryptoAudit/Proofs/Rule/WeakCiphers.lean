import Mathlib
import CryptoAudit.Proofs.Regex.Language
import CryptoAudit.Proofs.Rule.Validation
import CryptoAudit.Rule.Standard

/-!
# Which ciphers the standard rules flag

Three of the standard rules share the pattern for weak ciphers. It has two branches, of which only
the first is bound to the start and the end of the text: the text is the name of a weak cipher, or
such a name, a slash and more on the same line; or it has the code book mode anywhere.
`standard_flags_weak_ciphers` says so without the pattern.

The pattern is read into `cipherExpression` (`compile_weakCiphers`). Its parts that do not depend on
positions have languages (`Regex.Spells`), and the conditions at the start and the end make the
first branch match the whole text (`matches_named_iff`).
-/

namespace CryptoAudit

namespace Text

/-- No other character differs from the slash in case only. -/
theorem foldCase_eq_slash_iff {c : Char} : foldCase c = foldCase '/' ↔ c = '/' := by
  have hslash : foldCase '/' = '/' := by decide
  have himage : ∀ r ∈ foldRuns, 0x61 ≤ r.image := by decide +kernel
  refine ⟨fun h => ?_, fun h => h ▸ rfl⟩
  rw [hslash, foldCase] at h
  split at h
  next r hr =>
    -- the images of the table are beyond the slash
    have hcode := congrArg Char.toNat h
    have hle := himage r (List.mem_of_find?_eq_some hr)
    rw [Char.toNat_ofNat] at hcode
    split at hcode
    · have hslash : Char.toNat '/' = 0x2f := rfl
      omega
    · cases hcode
  next => exact h

end Text

namespace Rule

open Text (SameFold)
open Regex (Spells Spans)

/-- The names of ciphers that are too weak. -/
def weakNames : List String :=
  ["DES", "DESede", "3DES", "TripleDES", "RC2", "RC4", "ARCFOUR", "Blowfish"]

/-- The name of a weak cipher in any case, alone or with a slash and more on the same line. -/
def IsNamed (s : List Char) : Prop :=
  ∃ name ∈ weakNames, SameFold s name.toList ∨
    ∃ head rest, s = head ++ '/' :: rest ∧ SameFold head name.toList ∧ '\n' ∉ rest

/-- Somewhere in the text a cipher is asked for in code book mode. -/
def HasCodeBook (s : List Char) : Prop :=
  ∃ before mode after, s = before ++ mode ++ after ∧ SameFold mode "/ECB/".toList

/-! ## The expression -/

/-- What may follow the name. -/
def suffixExpression : Regex :=
  .repeated (.group true (.seq (.folded '/')
    (.repeated (.set (.compl (.range '\n' '\n'))) 0 none true))) 0 (some 1) true

/-- The expression for weak ciphers. -/
def cipherExpression : Regex :=
  .alt
    (.seq .empty (.seq (.assert .textStart)
      (.seq (.group true (.choice (weakNames.map String.toList)))
        (.seq suffixExpression (.assert .textEnd)))))
    (.word "/ECB/".toList)

/-- The pattern is read as the expression. -/
theorem compile_weakCiphers : Regex.compile weakCiphers = .ok cipherExpression := by
  decide +kernel

/-- The suffix is nothing, or a slash and more on the same line. -/
theorem spells_suffix :
    Spells suffixExpression fun w => w = [] ∨ ∃ rest, w = '/' :: rest ∧ '\n' ∉ rest := by
  have hline : ∀ c, (CharClass.compl (.range '\n' '\n')).mem c = true ↔ c ≠ '\n' := by
    intro c
    have hnewline : '\n' ≤ c ∧ c ≤ '\n' ↔ c = '\n' :=
      ⟨fun h => le_antisymm h.2 h.1, fun h => h ▸ ⟨le_refl _, le_refl _⟩⟩
    simp [CharClass.mem, ← hnewline]
  refine ((((Regex.spells_folded '/').seq (Regex.spells_many _ true)).group true).optional
    true).congr fun w => or_congr_right ⟨?_, ?_⟩
  · rintro ⟨u, rest, rfl, hslash, hrest⟩
    obtain ⟨c, rfl, hc⟩ := Text.sameFold_singleton_right.1 hslash
    obtain rfl := Text.foldCase_eq_slash_iff.1 hc
    exact ⟨rest, rfl, fun hmem => (hline _).1 (hrest _ hmem) rfl⟩
  · rintro ⟨rest, rfl, hrest⟩
    refine ⟨['/'], rest, rfl, rfl, fun c hc => (hline c).2 ?_⟩
    rintro rfl
    exact hrest hc

/-- The first branch matches the whole text or nothing. -/
theorem matches_named_iff {l : List Char} {i j : Nat} :
    Regex.Matches l.toArray (.seq .empty (.seq (.assert .textStart)
      (.seq (.group true (.choice (weakNames.map String.toList)))
        (.seq suffixExpression (.assert .textEnd))))) i j ↔
      i = 0 ∧ j = l.length ∧ IsNamed l := by
  have hspells := ((Regex.spells_choice (weakNames.map String.toList)).group true).seq spells_suffix
  have hwhole := hspells l 0 l.length (Nat.zero_le _)
  constructor
  · rintro ⟨_, rfl, _, ⟨hstart, rfl⟩, k, hname, n, hsuffix, hend, rfl⟩
    obtain rfl : i = 0 := by simpa [Assertion.holds] using hstart
    obtain rfl : n = l.length := by simpa [Assertion.holds] using hend
    obtain ⟨w, hw, head, v, rfl, ⟨_, hmem, hfold⟩, hsuffix⟩ := hwhole.1 ⟨k, hname, hsuffix⟩
    obtain ⟨name, hname, rfl⟩ := List.mem_map.1 hmem
    rw [Regex.spans_whole] at hw
    refine ⟨rfl, rfl, name, hname, ?_⟩
    rcases hsuffix with rfl | ⟨rest, rfl, hrest⟩
    · rw [List.append_nil] at hw
      exact .inl (hw ▸ hfold)
    · exact .inr ⟨head, rest, hw, hfold, hrest⟩
  · rintro ⟨rfl, rfl, name, hname, hnamed⟩
    have hmatches : (Regex.seq (.group true (.choice (weakNames.map String.toList)))
        suffixExpression).Matches l.toArray 0 l.length := by
      have hmem := List.mem_map_of_mem (f := String.toList) hname
      refine hwhole.2 ⟨l, Regex.spans_whole.2 rfl, ?_⟩
      rcases hnamed with hfold | ⟨head, rest, hl, hfold, hrest⟩
      · exact ⟨l, [], (List.append_nil l).symm, ⟨_, hmem, hfold⟩, .inl rfl⟩
      · exact ⟨head, _, hl, ⟨_, hmem, hfold⟩, .inr ⟨rest, rfl, hrest⟩⟩
    obtain ⟨k, hname, hsuffix⟩ := hmatches
    exact ⟨0, rfl, 0, ⟨rfl, rfl⟩, k, hname, _, hsuffix, by simp [Assertion.holds], rfl⟩

/-- The expression matches a text that is a weak name, or that has the code book mode in it. -/
theorem isMatch_cipherExpression (s : String) :
    cipherExpression.isMatch s = true ↔ IsNamed s.toList ∨ HasCodeBook s.toList := by
  have hmode := Regex.spells_word "/ECB/".toList s.toList
  rw [Regex.isMatch_iff]
  constructor
  · rintro ⟨i, j, hi, hmatches | hmatches⟩
    · exact .inl (matches_named_iff.1 hmatches).2.2
    · obtain ⟨mode, hspans, hfold⟩ := (hmode i j hi).1 hmatches
      obtain ⟨before, after, hs⟩ := Regex.exists_spans.1 ⟨i, j, hi, hspans⟩
      exact .inr ⟨before, mode, after, hs, hfold⟩
  · rintro (hnamed | ⟨before, mode, after, hs, hfold⟩)
    · exact ⟨0, _, Nat.zero_le _, .inl (matches_named_iff.2 ⟨rfl, rfl, hnamed⟩)⟩
    · obtain ⟨i, j, hi, hspans⟩ := Regex.exists_spans.2 ⟨before, after, hs⟩
      exact ⟨i, j, hi, .inr ((hmode i j hi).2 ⟨mode, hspans, hfold⟩)⟩

/-! ## The rules -/

/-- The rules whose pattern is that for weak ciphers. -/
def cipherRuleIds : List String := ["FIPS-002", "FIPS-005", "FIPS-008"]

/-- A member of the one list is related to a member of the other. -/
theorem exists_of_mem_left {α β : Type} {R : α → β → Prop} {as : List α} {bs : List β} {a : α}
    (h : List.Forall₂ R as bs) (ha : a ∈ as) : ∃ b ∈ bs, R a b := by
  induction h with
  | nil => cases ha
  | cons hr _ ih =>
    rcases List.mem_cons.1 ha with rfl | ha
    · exact ⟨_, List.mem_cons_self .., hr⟩
    · obtain ⟨b, hb, hab⟩ := ih ha
      exact ⟨b, List.mem_cons_of_mem _ hb, hab⟩

theorem exists_standard : ∃ rules, standard = .ok rules := by
  have hnone : failure? (RuleSet.ofRaw standardRaw) = none := by decide +kernel
  exact failure?_eq_none_iff.1 hnone

/-- A rule with the pattern for weak ciphers flags what the expression matches. -/
theorem matchesAlgorithm_of_becomes {raw : RawRule} {rule : Rule}
    (h : raw.Becomes Regex.compile rule) (hpattern : raw.pattern = some weakCiphers) (s : String) :
    rule.matchesAlgorithm s = true ↔ IsNamed s.toList ∨ HasCodeBook s.toList := by
  have hregex : rule.regex = some cipherExpression := by
    rw [h.regex, hpattern, Option.bind_some, compile_weakCiphers]
    rfl
  rw [matchesAlgorithm, hregex, isMatch_cipherExpression]

/-- The standard rules are accepted, and those for ciphers, key generators and secret key factories
flag a text if and only if it is the name of a weak cipher in any case, alone or with a slash and
more on the same line, or has the code book mode anywhere. -/
theorem standard_flags_weak_ciphers :
    ∃ rules, standard = .ok rules ∧
      (∀ id ∈ cipherRuleIds, ∃ rule ∈ rules.rules, rule.id = id) ∧
      ∀ rule ∈ rules.rules, rule.id ∈ cipherRuleIds → ∀ s : String,
        rule.matchesAlgorithm s = true ↔ IsNamed s.toList ∨ HasCodeBook s.toList := by
  obtain ⟨rules, hrules⟩ := exists_standard
  have hbecomes := RuleSet.becomes_of_ofRawWith Regex.compile hrules
  refine ⟨rules, hrules, fun id hid => ?_, fun rule hrule hid s => ?_⟩
  · have hraw : ∀ id ∈ cipherRuleIds, ∃ raw ∈ standardRaw, raw.id = some id := by decide +kernel
    obtain ⟨raw, hmem, hrawId⟩ := hraw id hid
    obtain ⟨rule, hrule, h⟩ := exists_of_mem_left hbecomes hmem
    refine ⟨rule, hrule, ?_⟩
    rw [h.id, hrawId, Option.getD_some]
  · have hpattern : ∀ raw ∈ standardRaw,
        raw.id.getD (raw.category ++ ":" ++ raw.declaringType ++ "." ++ raw.methodName) ∈
          cipherRuleIds → raw.pattern = some weakCiphers := by decide +kernel
    obtain ⟨raw, hmem, h⟩ := exists_of_mem_left hbecomes.flip hrule
    have h : raw.Becomes Regex.compile rule := h
    rw [h.id] at hid
    exact matchesAlgorithm_of_becomes h (hpattern raw hmem hid) s

/-- The letter ſ is an s in another case, so it does not hide a cipher. -/
theorem standard_flags_weak_ciphers_hidden :
    ∃ rules, standard = .ok rules ∧ ∃ rule ∈ rules.rules, rule.id = "FIPS-008" ∧
      rule.matchesAlgorithm "tripledeſ" = true ∧
      rule.matchesAlgorithm "DeſEDE/CBC\r/" = true ∧
      rule.matchesAlgorithm "\nAES/ecb/\n" = true := by
  obtain ⟨rules, hrules, hexists, hflags⟩ := standard_flags_weak_ciphers
  have hid : "FIPS-008" ∈ cipherRuleIds := by decide
  obtain ⟨rule, hrule, hruleId⟩ := hexists _ hid
  have hflag := hflags rule hrule (hruleId ▸ hid)
  refine ⟨rules, hrules, rule, hrule, hruleId, (hflag _).2 (.inl ?_), (hflag _).2 (.inl ?_),
    (hflag _).2 (.inr ?_)⟩
  · exact ⟨"TripleDES", by decide, .inl (by decide +kernel)⟩
  · exact ⟨"DESede", by decide, .inr ⟨"DeſEDE".toList, "CBC\r/".toList, by decide +kernel,
      by decide +kernel, by decide +kernel⟩⟩
  · exact ⟨"\nAES".toList, "/ecb/".toList, ['\n'], by decide +kernel, by decide +kernel⟩

end Rule

end CryptoAudit
