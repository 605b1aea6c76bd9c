import Mathlib.Data.List.Basic
import CryptoAudit.Proofs.Regex.Matching

/-!
# The language of an expression

An expression without conditions on positions matches the same texts wherever they stand: there is a
set of texts, its language, such that it matches between two positions just if the text between
them is in this set (`Regex.Spells`). The language is put together from those of the parts.
-/

namespace CryptoAudit

namespace Text

/-- The texts differ in case only. -/
def SameFold (s t : List Char) : Prop := s.map foldCase = t.map foldCase

instance (s t : List Char) : Decidable (SameFold s t) :=
  inferInstanceAs (Decidable (s.map foldCase = t.map foldCase))

theorem sameFold_nil_right {s : List Char} : SameFold s [] ↔ s = [] := by
  rw [SameFold, List.map_nil, List.map_eq_nil_iff]

theorem sameFold_singleton_right {s : List Char} {c : Char} :
    SameFold s [c] ↔ ∃ d, s = [d] ∧ foldCase d = foldCase c := by
  rw [SameFold, List.map_singleton, List.map_eq_singleton_iff]

theorem sameFold_append_right {s t u : List Char} :
    SameFold s (t ++ u) ↔ ∃ a b, s = a ++ b ∧ SameFold a t ∧ SameFold b u := by
  rw [SameFold, List.map_append, List.map_eq_append_iff]
  rfl

end Text

namespace Regex

open Text (SameFold)

/-! ## What stands between two positions -/

/-- The text between two positions of `l` is `w`. -/
def Spans (l : List Char) (i j : Nat) (w : List Char) : Prop := w <+: l.drop i ∧ j = i + w.length

section
variable {l u w : List Char} {i j : Nat}

/-- What begins in a text ends in it. -/
theorem Spans.within (h : Spans l i j w) (hi : i ≤ l.length) : j ≤ l.length := by
  have hle := h.1.length_le
  rw [List.length_drop] at hle
  have hj := h.2
  omega

theorem spans_nil : Spans l i j [] ↔ i = j := by
  simp [Spans, eq_comm]

/-- Between two positions there is one character if it stands at the first and the second is the
next. -/
theorem spans_singleton {c : Char} : Spans l i j [c] ↔ l[i]? = some c ∧ j = i + 1 := by
  have hhead : [c] <+: l.drop i ↔ l[i]? = some c := by
    rw [← List.head?_drop]
    cases l.drop i <;> simp [List.cons_prefix_cons, eq_comm]
  rw [Spans, hhead, List.length_singleton]

/-- A text of two parts stands between two positions if its parts do, with a position between
them. -/
theorem spans_append : Spans l i j (u ++ w) ↔ ∃ k, Spans l i k u ∧ Spans l k j w := by
  constructor
  · rintro ⟨⟨t, ht⟩, rfl⟩
    refine ⟨i + u.length, ⟨⟨w ++ t, ?_⟩, rfl⟩, ⟨t, ?_⟩, ?_⟩
    · rw [← ht, List.append_assoc]
    · rw [← List.drop_drop, ← ht, List.append_assoc, List.drop_left]
    · rw [List.length_append, Nat.add_assoc]
  · rintro ⟨_, ⟨⟨t, ht⟩, rfl⟩, ⟨t', ht'⟩, rfl⟩
    rw [← List.drop_drop, ← ht, List.drop_left] at ht'
    refine ⟨⟨t', ?_⟩, ?_⟩
    · rw [List.append_assoc, ht', ht]
    · rw [List.length_append, Nat.add_assoc]

/-- Between the ends of a text there is the whole of it. -/
theorem spans_whole : Spans l 0 l.length w ↔ l = w := by
  constructor
  · rintro ⟨hfront, hlength⟩
    rw [List.drop_zero] at hfront
    exact (hfront.eq_of_length (by omega)).symm
  · rintro rfl
    exact ⟨List.prefix_refl _, (Nat.zero_add _).symm⟩

/-- A text stands between some positions if and only if it is a part of the whole. -/
theorem exists_spans : (∃ i j, i ≤ l.length ∧ Spans l i j w) ↔
    ∃ before after, l = before ++ w ++ after := by
  constructor
  · rintro ⟨i, j, -, ⟨after, hafter⟩, -⟩
    refine ⟨l.take i, after, ?_⟩
    rw [List.append_assoc, hafter, List.take_append_drop]
  · rintro ⟨before, after, rfl⟩
    refine ⟨before.length, _, ?_, ⟨after, ?_⟩, rfl⟩
    · simp
    · rw [List.append_assoc, List.drop_left]

end

/-! ## Languages -/

/-- The expression matches between two positions just if the text between them is in `L`. -/
def Spells (r : Regex) (L : List Char → Prop) : Prop :=
  ∀ (l : List Char) (i j : Nat), i ≤ l.length →
    (r.Matches l.toArray i j ↔ ∃ w, Spans l i j w ∧ L w)

section
variable {r a b : Regex} {L M : List Char → Prop}

theorem Spells.congr (h : Spells r L) (hLM : ∀ w, L w ↔ M w) : Spells r M := by
  intro l i j hi
  rw [h l i j hi]
  exact exists_congr fun w => and_congr_right fun _ => hLM w

/-- The empty expression spells the empty word. -/
theorem spells_empty : Spells .empty (· = []) := by
  intro l i j _
  rw [Matches]
  constructor
  · exact fun h => ⟨[], spans_nil.2 h, rfl⟩
  · rintro ⟨w, hw, rfl⟩
    exact spans_nil.1 hw

/-- A character without regard to case spells the words of one character that are the same without
regard to case. -/
theorem spells_folded (c : Char) : Spells (.folded c) (SameFold · [c]) := by
  intro l i j _
  simp only [Matches, List.getElem?_toArray]
  constructor
  · rintro ⟨d, hd, hfold, hj⟩
    exact ⟨[d], spans_singleton.2 ⟨hd, hj⟩, Text.sameFold_singleton_right.2 ⟨d, rfl, hfold⟩⟩
  · rintro ⟨w, hw, hsame⟩
    obtain ⟨d, rfl, hfold⟩ := Text.sameFold_singleton_right.1 hsame
    obtain ⟨hd, hj⟩ := spans_singleton.1 hw
    exact ⟨d, hd, hfold, hj⟩

/-- A class spells its members. -/
theorem spells_set (s : CharClass) : Spells (.set s) fun w => ∃ c, w = [c] ∧ s.mem c = true := by
  intro l i j _
  simp only [Matches, List.getElem?_toArray]
  constructor
  · rintro ⟨c, hc, hmem, hj⟩
    exact ⟨[c], spans_singleton.2 ⟨hc, hj⟩, c, rfl, hmem⟩
  · rintro ⟨w, hw, c, rfl, hmem⟩
    obtain ⟨hc, hj⟩ := spans_singleton.1 hw
    exact ⟨c, hc, hmem, hj⟩

/-- A sequence spells a word of the first followed by one of the second. -/
theorem Spells.seq (ha : Spells a L) (hb : Spells b M) :
    Spells (.seq a b) fun w => ∃ u v, w = u ++ v ∧ L u ∧ M v := by
  intro l i j hi
  rw [Matches]
  constructor
  · rintro ⟨k, hak, hbk⟩
    obtain ⟨u, hu, hLu⟩ := (ha l i k hi).1 hak
    obtain ⟨v, hv, hMv⟩ := (hb l k j (hu.within hi)).1 hbk
    exact ⟨u ++ v, spans_append.2 ⟨k, hu, hv⟩, u, v, rfl, hLu, hMv⟩
  · rintro ⟨w, hw, u, v, rfl, hLu, hMv⟩
    obtain ⟨k, hu, hv⟩ := spans_append.1 hw
    exact ⟨k, (ha l i k hi).2 ⟨u, hu, hLu⟩, (hb l k j (hu.within hi)).2 ⟨v, hv, hMv⟩⟩

/-- A choice spells the words of both. -/
theorem Spells.alt (ha : Spells a L) (hb : Spells b M) :
    Spells (.alt a b) fun w => L w ∨ M w := by
  intro l i j hi
  rw [Matches, ha l i j hi, hb l i j hi]
  simp only [and_or_left, exists_or]

theorem Spells.group (ha : Spells a L) (captures : Bool) : Spells (.group captures a) L := ha

/-- So many steps of an expression match as many texts of its language in sequence. -/
theorem Spells.steps (ha : Spells a L) {l : List Char} {n i j : Nat} (hi : i ≤ l.length) :
    Steps (a.Matches l.toArray) n i j ↔
      ∃ ws : List (List Char), ws.length = n ∧ (∀ w ∈ ws, L w) ∧ Spans l i j ws.flatten := by
  induction n generalizing i with
  | zero =>
    constructor
    · intro h
      cases h
      exact ⟨[], rfl, List.forall_mem_nil _, spans_nil.2 rfl⟩
    · rintro ⟨ws, hlength, -, hspans⟩
      obtain rfl := List.length_eq_zero_iff.1 hlength
      obtain rfl := spans_nil.1 hspans
      exact .none _
  | succ n ih =>
    constructor
    · intro h
      cases h with
      | @step _ _ k _ hfirst hrest =>
        obtain ⟨w, hw, hLw⟩ := (ha l i k hi).1 hfirst
        obtain ⟨ws, rfl, hLws, hws⟩ := (ih (hw.within hi)).1 hrest
        exact ⟨w :: ws, rfl, List.forall_mem_cons.2 ⟨hLw, hLws⟩, spans_append.2 ⟨k, hw, hws⟩⟩
    · rintro ⟨ws, hlength, hL, hspans⟩
      cases ws with
      | nil => cases hlength
      | cons w ws =>
        obtain ⟨hLw, hLws⟩ := List.forall_mem_cons.1 hL
        obtain ⟨k, hw, hws⟩ := spans_append.1 hspans
        exact .step ((ha l i k hi).2 ⟨w, hw, hLw⟩)
          ((ih (hw.within hi)).2 ⟨ws, Nat.succ.inj hlength, hLws, hws⟩)

/-- A repetition spells words of the repeated expression, one after the other, as many as the bounds
allow. -/
theorem Spells.repeated (ha : Spells a L) (least : Nat) (most : Option Nat) (greedy : Bool) :
    Spells (.repeated a least most greedy) fun w =>
      ∃ ws : List (List Char), w = ws.flatten ∧ (∀ u ∈ ws, L u) ∧ least ≤ ws.length ∧
        ∀ m, most = some m → ws.length ≤ max least m := by
  intro l i j hi
  simp only [Matches, ha.steps hi]
  constructor
  · rintro ⟨n, hleast, hmost, ws, rfl, hL, hspans⟩
    exact ⟨_, hspans, ws, rfl, hL, hleast, hmost⟩
  · rintro ⟨w, hw, ws, rfl, hL, hleast, hmost⟩
    exact ⟨ws.length, hleast, hmost, ws, rfl, hL, hw⟩

/-- An optional expression spells its words and the empty one. -/
theorem Spells.optional (ha : Spells a L) (greedy : Bool) :
    Spells (.repeated a 0 (some 1) greedy) fun w => w = [] ∨ L w := by
  refine (ha.repeated 0 (some 1) greedy).congr fun w => ⟨?_, ?_⟩
  · rintro ⟨ws, rfl, hL, -, hmost⟩
    have hle : ws.length ≤ 1 := hmost 1 rfl
    cases ws with
    | nil => exact .inl rfl
    | cons u us =>
      obtain rfl : us = [] := List.length_eq_zero_iff.1 (by simpa using hle)
      exact .inr (by simpa using hL)
  · rintro (rfl | hw)
    · exact ⟨[], rfl, List.forall_mem_nil _, Nat.le_refl 0, fun m _ => Nat.zero_le _⟩
    · refine ⟨[w], by simp, by simpa using hw, Nat.zero_le _, ?_⟩
      rintro m hm
      cases hm
      exact Nat.le_refl 1

/-- Any number of characters of a set. -/
theorem spells_many (s : CharClass) (greedy : Bool) :
    Spells (.repeated (.set s) 0 none greedy) fun w => ∀ c ∈ w, s.mem c = true := by
  refine ((spells_set s).repeated 0 none greedy).congr fun w => ⟨?_, fun hw => ?_⟩
  · rintro ⟨ws, rfl, hL, -⟩ c hc
    obtain ⟨u, hu, hcu⟩ := List.mem_flatten.1 hc
    obtain ⟨d, rfl, hd⟩ := hL u hu
    cases List.mem_singleton.1 hcu
    exact hd
  · refine ⟨w.map ([·]), (List.flatMap_singleton' w).symm, fun u hu => ?_, Nat.zero_le _, nofun⟩
    obtain ⟨c, hc, rfl⟩ := List.mem_map.1 hu
    exact ⟨c, rfl, hw c hc⟩

end

/-! ## Words -/

/-- A word in any case. -/
def word : List Char → Regex
  | [] => .empty
  | [c] => .folded c
  | c :: cs => .seq (.folded c) (word cs)

/-- One of several words, in any case. -/
def choice : List (List Char) → Regex
  | [] => .set .none
  | [w] => word w
  | w :: ws => .alt (word w) (choice ws)

/-- A word without regard to case spells the words that are the same without regard to case. -/
theorem spells_word (cs : List Char) : Spells (word cs) (SameFold · cs) := by
  fun_induction word cs with
  | case1 => exact spells_empty.congr fun w => Text.sameFold_nil_right.symm
  | case2 c => exact spells_folded c
  | case3 c cs _ ih =>
    exact ((spells_folded c).seq ih).congr fun w => Text.sameFold_append_right.symm

/-- A choice of words spells what any of them does. -/
theorem spells_choice (ws : List (List Char)) :
    Spells (choice ws) fun w => ∃ word ∈ ws, SameFold w word := by
  fun_induction choice ws with
  | case1 => exact (spells_set .none).congr fun w => by simp [CharClass.mem]
  | case2 w => exact (spells_word w).congr fun u => by simp
  | case3 w ws _ ih => exact ((spells_word w).alt ih).congr fun u => by simp

end Regex

end CryptoAudit
