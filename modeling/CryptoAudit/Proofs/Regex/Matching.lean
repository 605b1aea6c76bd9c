import Mathlib.Data.List.TakeWhile
import CryptoAudit.Regex.Basic

/-!
# What expressions match

`Regex.Matches` says of two positions of a text that an expression matches what stands between
them. It is defined by the form of the expression alone. The search instead moves a set of positions
through the expression (`Regex.reach`): as a descending list, with a bound on the repetitions, and
without looking at a position twice. Both agree for every expression and every text
(`computes_reach`), so that a search tells whether the expression matches anywhere in the text
(`isMatch_iff`).

The bound on repetitions is right since a match never goes back. Where a repetition takes more steps
than there are characters, one of them stays where it is, so it may be left out or taken again
(`Steps.shorten`, `Steps.lengthen`).
-/

namespace CryptoAudit.Regex

/-! ## Matches -/

/-- So many steps of a relation lead from one position to another. -/
inductive Steps (R : Nat → Nat → Prop) : Nat → Nat → Nat → Prop
  | none (i : Nat) : Steps R 0 i i
  | step {n i k j : Nat} (hfirst : R i k) (hrest : Steps R n k j) : Steps R (n + 1) i j

/-- The expression matches the characters of the text from position `i` up to position `j`. A
repetition whose maximum is below its minimum has the minimum as its maximum. -/
def Matches (text : Array Char) : Regex → Nat → Nat → Prop
  | .empty, i, j => i = j
  | .char c, i, j => ∃ d, text[i]? = some d ∧ d = c ∧ j = i + 1
  | .folded c, i, j => ∃ d, text[i]? = some d ∧ Text.foldCase d = Text.foldCase c ∧ j = i + 1
  | .set s, i, j => ∃ d, text[i]? = some d ∧ s.mem d = true ∧ j = i + 1
  | .assert a, i, j => a.holds text i = true ∧ i = j
  | .seq a b, i, j => ∃ k, a.Matches text i k ∧ b.Matches text k j
  | .alt a b, i, j => a.Matches text i j ∨ b.Matches text i j
  | .repeated a least most _, i, j =>
    ∃ n, least ≤ n ∧ (∀ m, most = some m → n ≤ max least m) ∧ Steps (a.Matches text) n i j
  | .group _ a, i, j => a.Matches text i j

/-! ## Steps that do not go back -/

/-- The relation does not lead back, and not out of a text with `n` characters. -/
structure Forward (n : Nat) (R : Nat → Nat → Prop) : Prop where
  le {i j : Nat} (h : R i j) : i ≤ j
  within {i j : Nat} (h : R i j) (hi : i ≤ n) : j ≤ n

section
variable {n a b i j k : Nat} {R : Nat → Nat → Prop}

/-- Steps can be taken one after the other. -/
theorem Steps.trans (h : Steps R a i k) (h' : Steps R b k j) : Steps R (a + b) i j := by
  induction h with
  | none => rwa [Nat.zero_add]
  | step hfirst _ ih =>
    rw [Nat.add_right_comm]
    exact .step hfirst (ih h')

/-- Steps can be cut at any number of them. -/
theorem Steps.split (h : Steps R (a + b) i j) : ∃ k, Steps R a i k ∧ Steps R b k j := by
  induction a generalizing i with
  | zero => exact ⟨i, .none i, by rwa [Nat.zero_add] at h⟩
  | succ a ih =>
    rw [Nat.add_right_comm] at h
    cases h with
    | step hfirst hrest =>
      obtain ⟨k, ha, hb⟩ := ih hrest
      exact ⟨k, .step hfirst ha, hb⟩

/-- Steps that never go back, and stay in the text, do so together. -/
theorem Forward.steps (hR : Forward n R) (k : Nat) : Forward n (Steps R k) := by
  constructor
  · intro i j h
    induction h with
    | none => exact Nat.le_refl _
    | step hfirst _ ih => exact Nat.le_trans (hR.le hfirst) ih
  · intro i j h hi
    induction h with
    | none => exact hi
    | step hfirst _ ih => exact ih (hR.within hfirst hi)

/-- Of more steps than there are positions to go, one may be left out. -/
theorem Steps.leave_out (hR : Forward n R) (h : Steps R (k + 1) i j) (hk : j - i ≤ k) :
    Steps R k i j := by
  induction k generalizing i with
  | zero =>
    cases h with
    | @step _ _ x _ hfirst hrest =>
      have hix := hR.le hfirst
      have hxj := (hR.steps 0).le hrest
      obtain rfl : i = x := by omega
      exact hrest
  | succ k ih =>
    cases h with
    | @step _ _ x _ hfirst hrest =>
      have hix := hR.le hfirst
      rcases Nat.eq_or_lt_of_le hix with rfl | hlt
      · exact hrest
      · exact .step hfirst (ih hrest (by omega))

/-- Of more steps than there are positions to go, one may be taken again. -/
theorem Steps.take_again (hR : Forward n R) (h : Steps R k i j) (hk : j - i < k) :
    Steps R (k + 1) i j := by
  induction h with
  | none => omega
  | @step k i x j hfirst hrest ih =>
    have hix := hR.le hfirst
    rcases Nat.eq_or_lt_of_le hix with rfl | hlt
    · exact .step hfirst (.step hfirst hrest)
    · have hxj := (hR.steps k).le hrest
      exact .step hfirst (ih (by omega))

/-- No more steps are needed than there are positions to go. -/
theorem Steps.shorten (hR : Forward n R) {c : Nat} (h : Steps R k i j) (hc : j - i ≤ c) :
    Steps R (min k c) i j := by
  induction k with
  | zero => rwa [Nat.zero_min]
  | succ k ih =>
    by_cases hk : k + 1 ≤ c
    · rwa [Nat.min_eq_left hk]
    · have hmin : min (k + 1) c = min k c := by omega
      rw [hmin]
      exact ih (h.leave_out hR (by omega))

/-- More steps than there are positions to go lead where any larger number does. -/
theorem Steps.lengthen (hR : Forward n R) {c : Nat} (h : Steps R c i j) (hc : j - i < c)
    (hck : c ≤ k) : Steps R k i j := by
  obtain ⟨d, rfl⟩ := Nat.exists_eq_add_of_le hck
  clear hck
  induction d with
  | zero => exact h
  | succ d ih => exact ih.take_again hR (Nat.lt_of_lt_of_le hc (Nat.le_add_right c d))

end

/-- A match never goes back, and ends in the text. -/
theorem forward_matches (text : Array Char) (r : Regex) : Forward text.size (r.Matches text) := by
  have hchar : ∀ {i j : Nat} {d : Char}, text[i]? = some d → j = i + 1 → i ≤ j ∧ j ≤ text.size := by
    intro i j d hd hj
    obtain ⟨hlt, -⟩ := Array.getElem?_eq_some_iff.1 hd
    omega
  induction r with
  | empty => exact ⟨Nat.le_of_eq, fun h hi => h ▸ hi⟩
  | char c | folded c | set s =>
    constructor
    · rintro i j ⟨d, hd, -, hj⟩
      exact (hchar hd hj).1
    · rintro i j ⟨d, hd, -, hj⟩ -
      exact (hchar hd hj).2
  | assert a => exact ⟨fun h => Nat.le_of_eq h.2, fun h hi => h.2 ▸ hi⟩
  | seq a b iha ihb =>
    constructor
    · rintro i j ⟨k, ha, hb⟩
      exact Nat.le_trans (iha.le ha) (ihb.le hb)
    · rintro i j ⟨k, ha, hb⟩ hi
      exact ihb.within hb (iha.within ha hi)
  | alt a b iha ihb =>
    constructor
    · rintro i j (ha | hb)
      · exact iha.le ha
      · exact ihb.le hb
    · rintro i j (ha | hb) hi
      · exact iha.within ha hi
      · exact ihb.within hb hi
  | repeated a min max greedy ih =>
    constructor
    · rintro i j ⟨n, -, -, hsteps⟩
      exact (ih.steps n).le hsteps
    · rintro i j ⟨n, -, -, hsteps⟩ hi
      exact (ih.steps n).within hsteps hi
  | group captures a ih => exact ih

/-! ## Sets of positions -/

/-- The list is a set of positions of a text with `n` characters. -/
structure Positions (n : Nat) (l : List Nat) : Prop where
  descending : l.Pairwise (· > ·)
  within : ∀ i ∈ l, i ≤ n

section
variable {x y : Nat} {a b : List Nat}

/-- What is left of a descending list after the members above `x` is not above `x`. -/
theorem le_of_mem_dropWhile (hb : b.Pairwise (· > ·)) (h : y ∈ b.dropWhile (x < ·)) : y ≤ x := by
  induction b with
  | nil => cases h
  | cons z b ih =>
    obtain ⟨hz, hb⟩ := List.pairwise_cons.1 hb
    rw [List.dropWhile_cons] at h
    split at h
    next => exact ih hb h
    next hle =>
      have hzx : z ≤ x := by simpa using hle
      rcases List.mem_cons.1 h with rfl | hmem
      · exact hzx
      · exact Nat.le_trans (Nat.le_of_lt (hz y hmem)) hzx

theorem mem_iff_takeWhile_or_dropWhile (q : Nat → Bool) :
    y ∈ b ↔ y ∈ b.takeWhile q ∨ y ∈ b.dropWhile q := by
  rw [← List.mem_append, List.takeWhile_append_dropWhile]

/-- Dropping positions above `x` from the front loses none that is not above `x`. -/
theorem mem_dropWhile_iff (hy : y ≤ x) : y ∈ b.dropWhile (x < ·) ↔ y ∈ b := by
  have hnot : y ∉ b.takeWhile (x < ·) := by
    intro hmem
    have hlt : x < y := by simpa using List.mem_takeWhile_imp hmem
    omega
  rw [mem_iff_takeWhile_or_dropWhile (b := b) (x < ·)]
  exact (or_iff_right hnot).symm

/-- A descending list whose members are not above `x` has `x` as its head or not at all. -/
theorem head?_eq_some_iff (hb : b.Pairwise (· > ·)) (hle : ∀ z ∈ b, z ≤ x) :
    b.head? = some x ↔ x ∈ b := by
  cases b with
  | nil => simp
  | cons z b =>
    obtain ⟨hz, -⟩ := List.pairwise_cons.1 hb
    rw [List.head?_cons, Option.some_inj, List.mem_cons]
    refine ⟨fun h => .inl h.symm, fun h => h.elim Eq.symm fun hmem => ?_⟩
    have hzx := hle z (List.mem_cons_self ..)
    have hxz := hz x hmem
    omega

/-- Taking a position from the front of a list loses nothing where the position is kept apart. -/
theorem eq_or_mem_after :
    (y = x ∨ y ∈ if b.head? == some x then b.tail else b) ↔ y = x ∨ y ∈ b := by
  split
  next hhead =>
    obtain ⟨rest, rfl⟩ := List.head?_eq_some_iff.1 (beq_iff_eq.1 hhead)
    simp
  next => rfl

/-- A union has the members of both lists. -/
theorem mem_unite : y ∈ unite a b ↔ y ∈ a ∨ y ∈ b := by
  induction a generalizing b with
  | nil => simp [unite]
  | cons x a ih =>
    have hafter := eq_or_mem_after (y := y) (x := x) (b := b.dropWhile (x < ·))
    rw [unite, List.mem_append, List.mem_cons, ih, List.mem_cons,
      mem_iff_takeWhile_or_dropWhile (b := b) (x < ·)]
    grind

/-- What is left of a descending list after the members from `x` on is below `x`. -/
theorem lt_of_mem_after (hb : b.Pairwise (· > ·)) (hle : ∀ z ∈ b, z ≤ x)
    (h : y ∈ if b.head? == some x then b.tail else b) : y < x := by
  cases b with
  | nil => simp at h
  | cons z b =>
    obtain ⟨hz, -⟩ := List.pairwise_cons.1 hb
    have hzx := hle z (List.mem_cons_self ..)
    by_cases heq : z = x
    · subst heq
      exact hz y (by simpa using h)
    · have hmem : y = z ∨ y ∈ b := by simpa [heq] using h
      rcases hmem with rfl | hmem
      · omega
      · have hyz := hz y hmem
        omega

theorem after_sublist : (if b.head? == some x then b.tail else b).Sublist b := by
  split
  · exact List.tail_sublist b
  · exact .refl b

/-- The union of lists that descend descends. -/
theorem pairwise_unite (ha : a.Pairwise (· > ·)) (hb : b.Pairwise (· > ·)) :
    (unite a b).Pairwise (· > ·) := by
  induction a generalizing b with
  | nil => exact hb
  | cons x a ih =>
    obtain ⟨hx, ha⟩ := List.pairwise_cons.1 ha
    have hrest : (b.dropWhile (x < ·)).Pairwise (· > ·) := hb.sublist (List.dropWhile_sublist _)
    have hbelow : ∀ y ∈ unite a (if (b.dropWhile (x < ·)).head? == some x then
        (b.dropWhile (x < ·)).tail else b.dropWhile (x < ·)), y < x := by
      intro y hy
      rcases mem_unite.1 hy with hmem | hmem
      · exact hx y hmem
      · exact lt_of_mem_after hrest (fun z hz => le_of_mem_dropWhile hb hz) hmem
    rw [unite, List.pairwise_append, List.pairwise_cons]
    refine ⟨hb.sublist (List.takeWhile_sublist _),
      ⟨hbelow, ih ha (hrest.sublist after_sublist)⟩, ?_⟩
    intro z hz y hy
    have hxz : x < z := by simpa using List.mem_takeWhile_imp hz
    rcases List.mem_cons.1 hy with rfl | hy
    · exact hxz
    · exact Nat.lt_trans (hbelow y hy) hxz

/-- Of lists that descend, a difference has the members of the first that are not in the second. -/
theorem mem_without (ha : a.Pairwise (· > ·)) (hb : b.Pairwise (· > ·)) :
    y ∈ without a b ↔ y ∈ a ∧ y ∉ b := by
  induction a generalizing b with
  | nil => simp [without]
  | cons x a ih =>
    obtain ⟨hx, ha⟩ := List.pairwise_cons.1 ha
    have hrest : (b.dropWhile (x < ·)).Pairwise (· > ·) := hb.sublist (List.dropWhile_sublist _)
    have hhead : (b.dropWhile (x < ·)).head? = some x ↔ x ∈ b := by
      rw [head?_eq_some_iff hrest fun z hz => le_of_mem_dropWhile hb hz,
        mem_dropWhile_iff (Nat.le_refl x)]
    have htail : y ∈ without a (b.dropWhile (x < ·)) ↔ y ∈ a ∧ y ∉ b := by
      rw [ih ha hrest]
      exact and_congr_right fun hy => not_congr (mem_dropWhile_iff (Nat.le_of_lt (hx y hy)))
    rw [without]
    split
    next hfound =>
      have hmem : x ∈ b := hhead.1 (beq_iff_eq.1 hfound)
      rw [htail, List.mem_cons]
      refine ⟨fun h => ⟨.inr h.1, h.2⟩, fun h => ⟨h.1.resolve_left ?_, h.2⟩⟩
      rintro rfl
      exact h.2 hmem
    next hmissing =>
      have hnot : x ∉ b := fun hmem => hmissing (beq_iff_eq.2 (hhead.2 hmem))
      rw [List.mem_cons, htail, List.mem_cons]
      constructor
      · rintro (rfl | h)
        · exact ⟨.inl rfl, hnot⟩
        · exact ⟨.inr h.1, h.2⟩
      · rintro ⟨rfl | hy, hyb⟩
        · exact .inl rfl
        · exact .inr ⟨hy, hyb⟩

/-- A difference is what is left of the first list, in its order. -/
theorem without_sublist : (without a b).Sublist a := by
  induction a generalizing b with
  | nil => exact .slnil
  | cons x a ih =>
    rw [without]
    split
    · exact ih.cons x
    · exact ih.cons_cons x

end

/-! ## The search computes matches -/

/-- The function takes a set of positions to the set of those that the relation leads to. -/
structure Computes (n : Nat) (R : Nat → Nat → Prop) (step : List Nat → List Nat) : Prop where
  positions {l : List Nat} (h : Positions n l) : Positions n (step l)
  mem {l : List Nat} (h : Positions n l) (j : Nat) : j ∈ step l ↔ ∃ i ∈ l, R i j

section
variable {n : Nat} {R S : Nat → Nat → Prop} {f g : List Nat → List Nat}

/-- A function computes every relation that agrees with its own on positions of the text. -/
theorem Computes.congr (hf : Computes n R f) (h : ∀ i j, i ≤ n → (R i j ↔ S i j)) :
    Computes n S f := by
  refine ⟨hf.positions, fun hl j => ?_⟩
  rw [hf.mem hl]
  exact exists_congr fun i => and_congr_right fun hi => h i j (hl.within i hi)

/-- Functions one after the other compute the relations one after the other. -/
theorem Computes.comp (hf : Computes n R f) (hg : Computes n S g) :
    Computes n (fun i j => ∃ k, R i k ∧ S k j) fun l => g (f l) := by
  refine ⟨fun hl => hg.positions (hf.positions hl), fun hl j => ?_⟩
  simp only [hg.mem (hf.positions hl), hf.mem hl]
  constructor
  · rintro ⟨k, ⟨i, hi, hik⟩, hkj⟩
    exact ⟨i, hi, k, hik, hkj⟩
  · rintro ⟨i, hi, k, hik, hkj⟩
    exact ⟨k, ⟨i, hi, hik⟩, hkj⟩

theorem Positions.unite {a b : List Nat} (ha : Positions n a) (hb : Positions n b) :
    Positions n (unite a b) := by
  refine ⟨pairwise_unite ha.descending hb.descending, fun i hi => ?_⟩
  exact (mem_unite.1 hi).elim (ha.within i) (hb.within i)

theorem Computes.unite (hf : Computes n R f) (hg : Computes n S g) :
    Computes n (fun i j => R i j ∨ S i j) fun l => Regex.unite (f l) (g l) := by
  refine ⟨fun hl => (hf.positions hl).unite (hg.positions hl), fun hl j => ?_⟩
  simp only [mem_unite, hf.mem hl, hg.mem hl, and_or_left, exists_or]

theorem computes_id (n : Nat) : Computes n (fun i j => i = j) fun l => l :=
  ⟨fun hl => hl, fun _ j => by simp⟩

/-- A filter computes the positions at which its condition holds. -/
theorem computes_filter (n : Nat) (q : Nat → Bool) :
    Computes n (fun i j => q i = true ∧ i = j) (List.filter q) := by
  refine ⟨fun hl => ⟨hl.descending.filter q, fun i hi => ?_⟩, fun _ j => ?_⟩
  · exact hl.within i (List.mem_filter.1 hi).1
  · rw [List.mem_filter]
    constructor
    · exact fun h => ⟨j, h.1, h.2, rfl⟩
    · rintro ⟨i, hi, hq, rfl⟩
      exact ⟨hi, hq⟩

/-- Reading a character computes the step over a character that satisfies the condition. -/
theorem computes_afterChar (text : Array Char) (q : Char → Bool) :
    Computes text.size (fun i j => ∃ d, text[i]? = some d ∧ q d = true ∧ j = i + 1)
      (afterChar text q) := by
  have hmem : ∀ (l : List Nat) (j : Nat),
      j ∈ afterChar text q l ↔ ∃ i ∈ l, ∃ d, text[i]? = some d ∧ q d = true ∧ j = i + 1 := by
    intro l j
    simp only [afterChar, List.mem_map, List.mem_filter, Option.any_eq_true_iff_get]
    constructor
    · rintro ⟨i, ⟨hi, hsome, hq⟩, rfl⟩
      exact ⟨i, hi, _, (Option.some_get hsome).symm, hq, rfl⟩
    · rintro ⟨i, hi, d, hd, hq, rfl⟩
      exact ⟨i, ⟨hi, by simp [hd], by simpa [hd] using hq⟩, rfl⟩
  refine ⟨fun {l} hl => ⟨?_, fun j hj => ?_⟩, fun {l} _ j => hmem l j⟩
  · exact (hl.descending.filter _).map _ fun i k hik => Nat.add_lt_add_right hik 1
  · obtain ⟨i, -, d, hd, -, rfl⟩ := (hmem l j).1 hj
    exact (Array.getElem?_eq_some_iff.1 hd).1

/-- Repeating a function computes so many steps of its relation. -/
theorem Computes.times (hf : Computes n R f) (k : Nat) : Computes n (Steps R k) (times f k) := by
  induction k with
  | zero =>
    refine (computes_id n).congr fun i j _ => ⟨?_, ?_⟩
    · rintro rfl
      exact .none i
    · intro h
      cases h
      rfl
  | succ k ih =>
    have hsteps : Computes n (Steps R (k + 1)) fun l => Regex.times f k (f l) := by
      refine (hf.comp ih).congr fun i j _ => ⟨?_, ?_⟩
      · rintro ⟨x, hfirst, hrest⟩
        exact .step hfirst hrest
      · intro h
        cases h with
        | step hfirst hrest => exact ⟨_, hfirst, hrest⟩
    refine ⟨fun {l} hl => ?_, fun {l} hl j => ?_⟩
    · cases l with
      | nil => exact hl
      | cons i l => exact hsteps.positions hl
    · cases l with
      | nil => simp [Regex.times]
      | cons i l => exact hsteps.mem hl j

/-- Steps that begin at a position that was seen stay among those, or leave them through a new
one. -/
theorem Steps.leaves_seen {latest seen new : List Nat} {k i j : Nat}
    (hlatest : ∀ x ∈ latest, ∀ y, R x y → y ∈ seen ∨ y ∈ new)
    (hold : ∀ x ∈ seen, x ∉ latest → ∀ y, R x y → y ∈ seen)
    (h : Steps R k i j) (hi : i ∈ seen) :
    j ∈ seen ∨ ∃ m < k, ∃ x ∈ new, Steps R m x j := by
  induction h with
  | none => exact .inl hi
  | @step k i x j hfirst hrest ih =>
    have hx : x ∈ seen ∨ x ∈ new := by
      by_cases hmem : i ∈ latest
      · exact hlatest i hmem x hfirst
      · exact .inl (hold i hi hmem x hfirst)
    rcases hx with hx | hx
    · rcases ih hx with hj | ⟨m, hm, y, hy, hsteps⟩
      · exact .inl hj
      · exact .inr ⟨m, Nat.lt_succ_of_lt hm, y, hy, hsteps⟩
    · exact .inr ⟨k, Nat.lt_succ_self k, x, hx, hrest⟩

/-- The positions of a repetition between two rounds: of those that were seen, all but the latest
have been followed. -/
structure Frontier (n : Nat) (R : Nat → Nat → Prop) (latest seen : List Nat) : Prop where
  latestPositions : Positions n latest
  seenPositions : Positions n seen
  subset : latest ⊆ seen
  followed : ∀ x ∈ seen, x ∉ latest → ∀ y, R x y → y ∈ seen

section
variable {latest seen : List Nat}

/-- At the start all positions that were seen are the latest. -/
theorem Positions.frontier (h : Positions n latest) : Frontier n R latest latest :=
  ⟨h, h, List.Subset.refl latest, fun _ hx hfresh => absurd hx hfresh⟩

/-- A round finds the positions one step from the latest that were not seen. -/
theorem Frontier.mem_new (h : Frontier n R latest seen) (hf : Computes n R f) {y : Nat} :
    y ∈ without (f latest) seen ↔ (∃ x ∈ latest, R x y) ∧ y ∉ seen := by
  rw [mem_without (hf.positions h.latestPositions).descending h.seenPositions.descending,
    hf.mem h.latestPositions]

/-- A step from a latest position leads to one that was seen or is new. -/
theorem Frontier.new_of_step (h : Frontier n R latest seen) (hf : Computes n R f) {x y : Nat}
    (hx : x ∈ latest) (hxy : R x y) : y ∈ seen ∨ y ∈ without (f latest) seen := by
  by_cases hy : y ∈ seen
  · exact .inl hy
  · exact .inr ((h.mem_new hf).2 ⟨⟨x, hx, hxy⟩, hy⟩)

/-- A round leads from one frontier to the next. -/
theorem Frontier.next (h : Frontier n R latest seen) (hf : Computes n R f) :
    Frontier n R (without (f latest) seen) (unite (without (f latest) seen) seen) := by
  have hstep := hf.positions h.latestPositions
  have hnew : Positions n (without (f latest) seen) :=
    ⟨hstep.descending.sublist without_sublist,
      fun i hi => hstep.within i (without_sublist.subset hi)⟩
  refine ⟨hnew, hnew.unite h.seenPositions, fun y hy => mem_unite.2 (.inl hy),
    fun x hx hfresh y hxy => ?_⟩
  have hx : x ∈ seen := (mem_unite.1 hx).resolve_left hfresh
  by_cases hlate : x ∈ latest
  · exact mem_unite.2 (h.new_of_step hf hlate hxy).symm
  · exact mem_unite.2 (.inr (h.followed x hx hlate y hxy))

/-- A position that is reached from the latest ones was seen, or it is reached from a new one with
one step less. -/
theorem Frontier.reached (h : Frontier n R latest seen) (hf : Computes n R f) {k j : Nat}
    (hj : ∃ m ≤ k + 1, ∃ i ∈ latest, Steps R m i j) :
    j ∈ seen ∨ ∃ m ≤ k, ∃ i ∈ without (f latest) seen, Steps R m i j := by
  obtain ⟨m, hm, i, hi, hsteps⟩ := hj
  rcases hsteps.leaves_seen (fun x hx y => h.new_of_step hf hx) h.followed (h.subset hi) with
    hj | ⟨l, hl, x, hx, hrest⟩
  · exact .inl hj
  · exact .inr ⟨l, by omega, x, hx, hrest⟩

/-- A position that is reached from a new one is reached from the latest with one step more. -/
theorem Frontier.reached_of_new (h : Frontier n R latest seen) (hf : Computes n R f) {k j x m : Nat}
    (hm : m ≤ k) (hx : x ∈ without (f latest) seen) (hsteps : Steps R m x j) :
    ∃ m ≤ k + 1, ∃ i ∈ latest, Steps R m i j := by
  obtain ⟨⟨i, hi, hix⟩, -⟩ := (h.mem_new hf).1 hx
  exact ⟨m + 1, Nat.succ_le_succ hm, i, hi, .step hix hsteps⟩

/-- From a frontier, the rounds add to what was seen the positions that are reached from the
latest. -/
theorem Frontier.mem_upTo (h : Frontier n R latest seen) (hf : Computes n R f) (k : Nat) :
    Positions n (upTo f k latest seen) ∧
      ∀ j, j ∈ upTo f k latest seen ↔ j ∈ seen ∨ ∃ m ≤ k, ∃ i ∈ latest, Steps R m i j := by
  induction k generalizing latest seen with
  | zero =>
    refine ⟨h.seenPositions, fun j => ⟨.inl, ?_⟩⟩
    rintro (hj | ⟨m, hm, i, hi, hsteps⟩)
    · exact hj
    · cases Nat.le_zero.1 hm
      cases hsteps
      exact h.subset hi
  | succ k ih =>
    rw [upTo]
    split
    next hempty =>
      rw [List.isEmpty_iff] at hempty
      refine ⟨h.seenPositions, fun j => ⟨.inl, fun hj => hj.elim id fun hsteps => ?_⟩⟩
      refine (h.reached hf hsteps).resolve_right ?_
      rintro ⟨m, -, x, hx, -⟩
      rw [hempty] at hx
      cases hx
    next =>
      obtain ⟨hpositions, hmem⟩ := ih (h.next hf)
      refine ⟨hpositions, fun j => ?_⟩
      rw [hmem, mem_unite]
      constructor
      · rintro ((hj | hj) | ⟨m, hm, x, hx, hsteps⟩)
        · exact .inr (h.reached_of_new hf (Nat.zero_le k) hj (.none j))
        · exact .inl hj
        · exact .inr (h.reached_of_new hf hm hx hsteps)
      · rintro (hj | hsteps)
        · exact .inl (.inr hj)
        · exact (h.reached hf hsteps).elim (fun hj => .inl (.inr hj)) .inr

end

/-- The rounds of a repetition compute its steps, up to a number of them. -/
theorem Computes.upTo (hf : Computes n R f) (k : Nat) :
    Computes n (fun i j => ∃ m ≤ k, Steps R m i j) fun l => upTo f k l l := by
  refine ⟨fun hl => (hl.frontier.mem_upTo hf k).1, fun hl j => ?_⟩
  rw [(hl.frontier.mem_upTo hf k).2]
  constructor
  · rintro (hj | ⟨m, hm, i, hi, hsteps⟩)
    · exact ⟨j, hj, 0, Nat.zero_le k, .none j⟩
    · exact ⟨i, hi, m, hm, hsteps⟩
  · rintro ⟨i, hi, m, hm, hsteps⟩
    exact .inr ⟨m, hm, i, hi, hsteps⟩

/-- The bounds that the search puts on a repetition leave out nothing. -/
theorem repeats_iff (hR : Forward n R) (least : Nat) (most : Option Nat) {i j : Nat} (hi : i ≤ n) :
    (∃ k, Steps R (min least (n + 1)) i k ∧
      ∃ m ≤ most.elim n fun bound => min (bound - least) n, Steps R m k j) ↔
    ∃ m, least ≤ m ∧ (∀ bound, most = some bound → m ≤ max least bound) ∧ Steps R m i j := by
  constructor
  · rintro ⟨k, hfirst, m, hm, hrest⟩
    have hkn := (hR.steps _).within hfirst hi
    have hleast : Steps R least i k := by
      by_cases hle : least ≤ n + 1
      · rwa [min_eq_left hle] at hfirst
      · rw [min_eq_right (by omega)] at hfirst
        exact hfirst.lengthen hR (by omega) (by omega)
    refine ⟨least + m, Nat.le_add_right .., ?_, hleast.trans hrest⟩
    rintro bound rfl
    have hm : m ≤ min (bound - least) n := hm
    omega
  · rintro ⟨m, hm, hbound, hsteps⟩
    obtain ⟨rest, rfl⟩ := Nat.exists_eq_add_of_le hm
    obtain ⟨k, hfirst, hrest⟩ := hsteps.split
    have hkn := (hR.steps _).within hfirst hi
    have hjn := (hR.steps _).within hrest hkn
    refine ⟨k, hfirst.shorten hR (by omega), min rest n, ?_, hrest.shorten hR (by omega)⟩
    cases most with
    | none => exact Nat.min_le_right ..
    | some bound =>
      have hle := hbound bound rfl
      have hgoal : min rest n ≤ min (bound - least) n := by omega
      exact hgoal

end

/-- The search computes what the expression matches. -/
theorem computes_reach (text : Array Char) (r : Regex) :
    Computes text.size (r.Matches text) (r.reach text) := by
  induction r with
  | empty => exact computes_id _
  | char c => exact (computes_afterChar text (· == c)).congr fun i j _ => by simp [Matches]
  | folded c =>
    exact (computes_afterChar text fun d => Text.foldCase d == Text.foldCase c).congr
      fun i j _ => by simp [Matches]
  | set s => exact computes_afterChar text s.mem
  | assert a => exact computes_filter _ _
  | seq a b iha ihb => exact iha.comp ihb
  | alt a b iha ihb => exact iha.unite ihb
  | repeated a least most greedy ih =>
    refine ((ih.times _).comp (ih.upTo _)).congr fun i j hi => ?_
    cases most with
    | none => exact repeats_iff (forward_matches text a) least none hi
    | some bound => exact repeats_iff (forward_matches text a) least (some bound) hi
  | group captures a ih => exact ih

/-- A search tells whether the expression matches between any two positions of the text. -/
theorem isMatch_iff (r : Regex) (s : String) :
    r.isMatch s = true ↔ ∃ i j, i ≤ s.toList.length ∧ r.Matches s.toList.toArray i j := by
  have hall : Positions s.toList.toArray.size
      (List.range (s.toList.toArray.size + 1)).reverse := by
    refine ⟨List.pairwise_reverse.2 List.pairwise_lt_range, fun i hi => ?_⟩
    rw [List.mem_reverse, List.mem_range] at hi
    omega
  have hreach := (computes_reach s.toList.toArray r).mem hall
  simp only [List.mem_reverse, List.mem_range, List.size_toArray] at hreach
  rw [isMatch]
  simp only [Bool.not_eq_true', List.isEmpty_eq_false_iff_exists_mem, List.size_toArray, hreach]
  constructor
  · rintro ⟨j, i, hi, hmatches⟩
    exact ⟨i, j, by omega, hmatches⟩
  · rintro ⟨i, j, hi, hmatches⟩
    exact ⟨j, i, by omega, hmatches⟩

end CryptoAudit.Regex
