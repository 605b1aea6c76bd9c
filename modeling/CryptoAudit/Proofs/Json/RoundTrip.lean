import Mathlib.Data.List.Basic
import Mathlib.Data.List.TakeWhile
import CryptoAudit.Json.Printer
import CryptoAudit.Json.Reader

/-!
# Reading what was written

A value without fractions and unpaired surrogates (`Plain`) is read back from both of its written
forms (`Plain.parse?_toCompact`, `Plain.parse?_toPretty`).

Reader and printer meet in the words of a value. Characters spell words (`Spells`) if the lexer
finds these words at the start of any text that begins with the characters, as long as the text does
not go on with a character that would belong to the last word. Blanks and punctuation spell without
this condition, so that a value in its list or object spells its words with and without blanks
between them. The words of a value, in turn, lead from any state in which a value may begin to the
state after that value (`Plain.builds`).
-/

namespace CryptoAudit.Json

-- The equations of the lexer are its steps, and the proofs below run it by them.
attribute [local simp] lex

/-! ## Spelling -/

/-- The text does not begin with a character of a bare word. -/
def Stops (rest : List Char) : Prop := ∀ c ∈ rest.head?, isWordChar c = false

/-- Before a text that does not go on with a word, the characters are read as these words. -/
def Spells (cs : List Char) (ts : List Token) : Prop :=
  ∀ rest, Stops rest → lex .between (cs ++ rest) = (lex .between rest).map (ts ++ ·)

theorem stops_cons {c : Char} (h : isWordChar c = false) (cs : List Char) : Stops (c :: cs) := by
  rintro _ ⟨⟩
  exact h

theorem spells_nil : Spells [] [] := fun rest _ => by simp

/-- A blank in front of a text adds no token. -/
theorem Spells.blank {c : Char} {ts : List Token} {cs : List Char}
    (hc : opening? c = some ([], .between)) (h : Spells cs ts) : Spells (c :: cs) ts := by
  intro rest hrest
  rw [List.cons_append, lex, hc]
  simp [h rest hrest, Function.comp_def]

/-- A mark in front of a text is a token in front of its tokens. -/
theorem Spells.mark {c : Char} {t : Token} {ts : List Token} {cs : List Char}
    (hc : opening? c = some ([t], .between)) (h : Spells cs ts) : Spells (c :: cs) (t :: ts) := by
  intro rest hrest
  rw [List.cons_append, lex, hc]
  simp [h rest hrest, Function.comp_def]

/-- Texts one after the other give their tokens one after the other, if the first one ends where the
second begins. -/
theorem Spells.append {cs ds : List Char} {ts us : List Token} (h : Spells cs ts)
    (h' : Spells ds us) (hstops : ∀ rest, Stops rest → Stops (ds ++ rest)) :
    Spells (cs ++ ds) (ts ++ us) := by
  intro rest hrest
  rw [List.append_assoc, h _ (hstops rest hrest), h' rest hrest]
  simp [Function.comp_def]

/-- Words that are followed by a character between words. -/
theorem Spells.append_cons {cs ds : List Char} {ts us : List Token} {c : Char} (h : Spells cs ts)
    (h' : Spells (c :: ds) us) (hc : isWordChar c = false) :
    Spells (cs ++ c :: ds) (ts ++ us) :=
  h.append h' fun _ _ => stops_cons hc _

/-- A new line in front of a text, and its indentation, add no token. -/
theorem spells_newLine {cs : List Char} {ts : List Token} (depth : Nat) (h : Spells cs ts) :
    Spells (newLine depth ++ cs) ts := by
  have hspaces : ∀ n, Spells (List.replicate n ' ' ++ cs) ts := by
    intro n
    induction n with
    | zero => simpa using h
    | succ n ih => exact .blank (c := ' ') rfl ih
  exact .blank (c := '\n') rfl (hspaces _)

/-! ## Bare words -/

/-- A character of a word begins a word. -/
theorem opening?_of_isWordChar {c : Char} (h : isWordChar c = true) :
    opening? c = some ([], .word [c]) := by
  unfold opening?
  have hne : ∀ d, isWordChar d = false → (c == d) = false := by
    intro d hd
    rw [beq_eq_false_iff_ne]
    rintro rfl
    rw [h] at hd
    cases hd
  simp [hne ' ' rfl, hne '\t' rfl, hne '\n' rfl, hne '\r' rfl, hne '[' rfl, hne ']' rfl,
    hne '\x7b' rfl, hne '\x7d' rfl, hne ':' rfl, hne ',' rfl, hne '"' rfl, h]

/-- Characters of a word are gathered. -/
theorem lex_word_append (rev : List Char) {cs : List Char} (h : ∀ c ∈ cs, isWordChar c = true)
    (rest : List Char) : lex (.word rev) (cs ++ rest) = lex (.word (cs.reverse ++ rev)) rest := by
  induction cs generalizing rev with
  | nil => rfl
  | cons c cs ih =>
    obtain ⟨hc, hcs⟩ := List.forall_mem_cons.1 h
    rw [List.cons_append, lex, if_pos hc, ih _ hcs]
    simp

/-- A word that ends is a scalar. -/
theorem lex_word_of_stops {rev rest : List Char} {v : Json} (hv : ofWord? rev.reverse = some v)
    (h : Stops rest) : lex (.word rev) rest = (lex .between rest).map (.scalar v :: ·) := by
  cases rest with
  | nil => simp [lex, hv]
  | cons c cs =>
    have hc : isWordChar c = false := h c rfl
    rw [lex, lex, hv, hc]
    cases hopen : opening? c with
    | none => rfl
    | some o => simp [Function.comp_def]

/-- A word of word characters is read as the scalar that it stands for. -/
theorem spells_word {cs : List Char} {v : Json} (h : cs.all isWordChar = true)
    (hv : ofWord? cs = some v) (hne : cs ≠ []) : Spells cs [.scalar v] := by
  intro rest hrest
  cases cs with
  | nil => exact absurd rfl hne
  | cons c cs =>
    obtain ⟨hc, hcs⟩ := List.forall_mem_cons.1 (List.all_eq_true.1 h)
    rw [List.cons_append, lex, opening?_of_isWordChar hc]
    dsimp only
    rw [lex_word_append [c] hcs, lex_word_of_stops (by simpa using hv) hrest]
    simp [Function.comp_def]

/-! ## Integers -/

theorem isDigit_of_mem_toDigits {n : Nat} {c : Char} (h : c ∈ Nat.toDigits 10 n) :
    c.isDigit = true :=
  Nat.isDigit_of_mem_toDigits (by decide) (by decide) h

/-- Only zero is written with a zero in front. -/
theorem eq_zero_of_head?_toDigits {n : Nat} (h : (Nat.toDigits 10 n).head? = some '0') : n = 0 := by
  induction n using Nat.strongRecOn with
  | _ n ih =>
    by_cases hn : n < 10
    · rw [Nat.toDigits_of_lt_base hn] at h
      have hdigit : ∀ k < 10, Nat.digitChar k = '0' → k = 0 := by decide
      exact hdigit n hn (by simpa using h)
    · have hdiv : n / 10 = 0 := by
        refine ih (n / 10) (by omega) ?_
        rwa [Nat.toDigits_of_base_le (by decide) (by omega),
          List.head?_append_of_ne_nil _ Nat.toDigits_ne_nil] at h
      omega

theorem ofDigits_toDigits (n : Nat) : Text.ofDigits (Nat.toDigits 10 n) = n := by
  have hfold := Nat.ofDigitChars_ten_toDigits (n := n)
  rw [Nat.ofDigitChars_eq_foldl] at hfold
  simpa [Text.ofDigits, Nat.mul_comm] using hfold

/-- The decimal digits of a number are read as the number. -/
theorem magnitude?_toDigits (n : Nat) : magnitude? (Nat.toDigits 10 n) = some (some n) := by
  have hdigits : ∀ c ∈ Nat.toDigits 10 n, c.isDigit = true := fun c => isDigit_of_mem_toDigits
  have htake : (Nat.toDigits 10 n).takeWhile Char.isDigit = Nat.toDigits 10 n :=
    List.takeWhile_eq_self_iff.2 hdigits
  have hdrop : (Nat.toDigits 10 n).dropWhile Char.isDigit = [] :=
    List.dropWhile_eq_nil_iff.2 hdigits
  have hempty : (Nat.toDigits 10 n).isEmpty = false := by simp [Nat.toDigits_ne_nil]
  have hzero : ((Nat.toDigits 10 n).head? == some '0' &&
      (Nat.toDigits 10 n).length != 1) = false := by
    cases hhead : (Nat.toDigits 10 n).head? == some '0' with
    | false => rfl
    | true =>
      obtain rfl := eq_zero_of_head?_toDigits (eq_of_beq hhead)
      rfl
  unfold magnitude?
  simp only [htake, hdrop, hempty, hzero, ofDigits_toDigits]
  rfl

/-- A word that begins with a digit is a number. -/
theorem ofWord?_of_isDigit {c : Char} (hc : c.isDigit = true) {cs : List Char} {n : Nat}
    (h : magnitude? (c :: cs) = some (some n)) : ofWord? (c :: cs) = some (.int n) := by
  have hne : ∀ d : Char, d.isDigit = false → c ≠ d := by
    rintro d hd rfl
    rw [hc] at hd
    cases hd
  unfold ofWord?
  split
  next heq => exact absurd (List.cons.inj heq).1 (hne 'n' rfl)
  next heq => exact absurd (List.cons.inj heq).1 (hne 't' rfl)
  next heq => exact absurd (List.cons.inj heq).1 (hne 'f' rfl)
  next heq => exact absurd (List.cons.inj heq).1 (hne '-' rfl)
  next => rw [h, Option.map_some]

/-- The text of an integer is read as the integer. -/
theorem ofWord?_intDigits (n : Int) : ofWord? (intDigits n) = some (.int n) := by
  cases n with
  | ofNat n =>
    rw [intDigits]
    cases hdigits : Nat.toDigits 10 n with
    | nil => exact absurd hdigits Nat.toDigits_ne_nil
    | cons c cs =>
      have hc : c.isDigit = true := isDigit_of_mem_toDigits (hdigits ▸ List.mem_cons_self)
      exact ofWord?_of_isDigit hc (hdigits ▸ magnitude?_toDigits n)
  | negSucc n =>
    rw [intDigits]
    simp only [ofWord?, magnitude?_toDigits]
    rfl

/-- The text of an integer is a word. -/
theorem isWordChar_of_mem_intDigits {n : Int} {c : Char} (h : c ∈ intDigits n) :
    isWordChar c = true := by
  have hdigit : ∀ {k : Nat}, c ∈ Nat.toDigits 10 k → isWordChar c = true := by
    intro k hk
    simp [isWordChar, Char.isAlphanum, isDigit_of_mem_toDigits hk]
  cases n with
  | ofNat n => exact hdigit h
  | negSucc n =>
    rcases List.mem_cons.1 h with rfl | h
    · rfl
    · exact hdigit h

/-- The text of an integer is one token. -/
theorem spells_intDigits (n : Int) : Spells (intDigits n) [.scalar (.int n)] := by
  refine spells_word (List.all_eq_true.2 fun c => isWordChar_of_mem_intDigits)
    (ofWord?_intDigits n) ?_
  cases n with
  | ofNat n => exact Nat.toDigits_ne_nil
  | negSucc n => exact List.cons_ne_nil _ _

/-! ## Strings -/

theorem hexDigit?_hexDigit : ∀ n < 16, Text.hexDigit? (hexDigit n) = some n := by decide

/-- A four-digit escape is read as the control character that it was written for. -/
theorem lex_control (rev : List Piece) {c : Char} (h : c.toNat < 0x20) (rest : List Char) :
    lex (.string rev)
        ('\\' :: 'u' :: '0' :: '0' :: hexDigit (c.toNat / 16) :: hexDigit (c.toNat % 16) :: rest) =
      lex (.string (.char c :: rev)) rest := by
  have hhigh := hexDigit?_hexDigit (c.toNat / 16) (by omega)
  have hlow := hexDigit?_hexDigit (c.toNat % 16) (by omega)
  have hunit : Piece.ofUnit (c.toNat / 16 * 16 + c.toNat % 16) = .char c := by
    rw [Nat.div_add_mod', Piece.ofUnit, if_neg (by omega), Char.ofNat_toNat]
  have hzero : Text.hexDigit? '0' = some 0 := rfl
  simp [lex, hzero, hhigh, hlow, hunit]

/-- A character is written with a short escape, as a control character, or as it is. -/
theorem escape_cases (c : Char) :
    (∃ d, escape c = ['\\', d] ∧ shortEscape? d = some c ∧ d ≠ 'u') ∨
    (escape c = ['\\', 'u', '0', '0', hexDigit (c.toNat / 16), hexDigit (c.toNat % 16)] ∧
      c.toNat < 0x20) ∨
    (escape c = [c] ∧ c ≠ '"' ∧ c ≠ '\\' ∧ ¬c.toNat < 0x20) := by
  by_cases hshort : c ∈ ['"', '\\', '\x08', '\x0c', '\n', '\r', '\t']
  · left
    revert c
    simp only [List.forall_mem_cons]
    exact ⟨⟨'"', rfl, rfl, by decide⟩, ⟨'\\', rfl, rfl, by decide⟩, ⟨'b', rfl, rfl, by decide⟩,
      ⟨'f', rfl, rfl, by decide⟩, ⟨'n', rfl, rfl, by decide⟩, ⟨'r', rfl, rfl, by decide⟩,
      ⟨'t', rfl, rfl, by decide⟩, nofun⟩
  · right
    simp only [List.mem_cons, List.not_mem_nil, or_false, not_or] at hshort
    by_cases hcontrol : c.toNat < 0x20
    · exact .inl ⟨by simp [escape, hshort, hcontrol], hcontrol⟩
    · exact .inr ⟨by simp [escape, hshort, hcontrol], hshort.1, hshort.2.1, hcontrol⟩

/-- An escape is read as the character that it was written for. -/
theorem lex_escape (rev : List Piece) (c : Char) (rest : List Char) :
    lex (.string rev) (escape c ++ rest) = lex (.string (.char c :: rev)) rest := by
  rcases escape_cases c with ⟨d, hescape, hd, hne⟩ | ⟨hescape, hcontrol⟩ |
    ⟨hescape, hquote, hbackslash, hcontrol⟩
  · rw [hescape]
    simp [lex, hd, hne]
  · rw [hescape]
    exact lex_control rev hcontrol rest
  · rw [hescape]
    simp [lex, hquote, hbackslash, hcontrol]

theorem assemble?_map_char (cs : List Char) : assemble? (cs.map .char) = some cs := by
  induction cs with
  | nil => rfl
  | cons c cs ih => simp [assemble?, ih]

/-- Inside a string, the escaped characters up to the closing quote are read back. -/
theorem lex_string (rev : List Piece) (cs rest : List Char) :
    lex (.string rev) (cs.flatMap escape ++ '"' :: rest) =
      (lex .between rest).map (.scalar (ofPieces (rev.reverse ++ cs.map .char)) :: ·) := by
  induction cs generalizing rev with
  | nil => simp [lex]
  | cons c cs ih =>
    rw [List.flatMap_cons, List.append_assoc, lex_escape, ih]
    simp

/-- A quoted text is one token. -/
theorem spells_quote (s : String) : Spells (quote s) [.scalar (.text s)] := by
  intro rest _
  have hopen : lex .between (quote s ++ rest) =
      lex (.string []) (s.toList.flatMap escape ++ '"' :: rest) := by
    simp [quote, lex, opening?]
  rw [hopen, lex_string]
  simp [ofPieces, assemble?_map_char]

/-! ## Values -/

/-- A value in which numbers are integers and strings stand for texts. -/
inductive Plain : Json → Prop
  | null : Plain .null
  | bool (b : Bool) : Plain (.bool b)
  | int (n : Int) : Plain (.int n)
  | text (s : String) : Plain (.text s)
  | list {xs : List Json} (h : ∀ x ∈ xs, Plain x) : Plain (.list xs)
  | object {ms : List (String × Json)} (h : ∀ m ∈ ms, Plain m.2) : Plain (.object ms)

theorem spells_null : Spells ['n', 'u', 'l', 'l'] [.scalar .null] :=
  spells_word rfl rfl (List.cons_ne_nil _ _)

theorem spells_bool (b : Bool) : Spells (scalarText (.bool b)) [.scalar (.bool b)] := by
  cases b <;> exact spells_word rfl rfl (List.cons_ne_nil _ _)

section
variable {xs : List Json} {ms : List (String × Json)}

/-- The items of a list, without blanks between them, give the tokens of the items. -/
theorem spells_compactItems (h : ∀ x ∈ xs, Spells x.compact x.tokens) :
    Spells (compactItems xs) (itemTokens xs) := by
  induction xs with
  | nil => exact .mark (c := ']') rfl spells_nil
  | cons x xs ih =>
    obtain ⟨hx, hxs⟩ := List.forall_mem_cons.1 h
    have hitems := ih hxs
    rw [compactItems, itemTokens, List.cons_append, List.cons_append]
    refine .mark (c := ',') rfl ?_
    cases xs <;> exact hx.append_cons hitems rfl

theorem spells_compactMember {m : String × Json} (h : Spells m.2.compact m.2.tokens) :
    Spells (compactMember m) (memberToken m) := by
  rw [compactMember, memberToken]
  exact (spells_quote m.1).append_cons (.mark (c := ':') rfl h) rfl

/-- The members of an object, without blanks between them, give the tokens of the members. -/
theorem spells_compactMembers (h : ∀ m ∈ ms, Spells m.2.compact m.2.tokens) :
    Spells (compactMembers ms) (memberTokens ms) := by
  induction ms with
  | nil => exact .mark (c := '\x7d') rfl spells_nil
  | cons m ms ih =>
    obtain ⟨hm, hms⟩ := List.forall_mem_cons.1 h
    have hmembers := ih hms
    rw [compactMembers, memberTokens, List.cons_append, List.cons_append]
    refine .mark (c := ',') rfl ?_
    cases ms <;> exact (spells_compactMember hm).append_cons hmembers rfl

/-- A value without blanks spells its words. -/
theorem Plain.spells_compact {v : Json} (h : Plain v) : Spells v.compact v.tokens := by
  induction h with
  | null => exact spells_null
  | bool b => exact spells_bool b
  | int n => exact spells_intDigits n
  | text s => exact spells_quote s
  | @list xs _ ih =>
    cases xs with
    | nil => exact .mark (c := '[') rfl (.mark (c := ']') rfl spells_nil)
    | cons x xs =>
      obtain ⟨hx, hxs⟩ := List.forall_mem_cons.1 ih
      have hitems := spells_compactItems hxs
      rw [compact, tokens, List.cons_append, List.cons_append]
      refine .mark (c := '[') rfl ?_
      cases xs <;> exact hx.append_cons hitems rfl
  | @object ms _ ih =>
    cases ms with
    | nil => exact .mark (c := '\x7b') rfl (.mark (c := '\x7d') rfl spells_nil)
    | cons m ms =>
      obtain ⟨hm, hms⟩ := List.forall_mem_cons.1 ih
      have hmembers := spells_compactMembers hms
      rw [compact, tokens, List.cons_append, List.cons_append]
      refine .mark (c := '\x7b') rfl ?_
      cases ms <;> exact (spells_compactMember hm).append_cons hmembers rfl

/-- The items of a list, one on each line, give the tokens of the items. -/
theorem spells_prettyItems {depth : Nat}
    (h : ∀ x ∈ xs, Spells (x.pretty (depth + 1)) x.tokens) :
    Spells (prettyItems depth xs) (itemTokens xs) := by
  induction xs with
  | nil => exact spells_newLine depth (.mark (c := ']') rfl spells_nil)
  | cons x xs ih =>
    obtain ⟨hx, hxs⟩ := List.forall_mem_cons.1 h
    have hitems := ih hxs
    rw [prettyItems, itemTokens, List.cons_append, List.cons_append, List.cons_append,
      List.append_assoc]
    refine .mark (c := ',') rfl (spells_newLine (depth + 1) ?_)
    cases xs <;> exact hx.append_cons hitems rfl

theorem spells_prettyMember {depth : Nat} {m : String × Json}
    (h : Spells (m.2.pretty depth) m.2.tokens) : Spells (prettyMember depth m) (memberToken m) := by
  rw [prettyMember, memberToken]
  exact (spells_quote m.1).append_cons (.mark (c := ':') rfl (.blank (c := ' ') rfl h)) rfl

/-- The members of an object, one on each line, give the tokens of the members. -/
theorem spells_prettyMembers {depth : Nat}
    (h : ∀ m ∈ ms, Spells (m.2.pretty (depth + 1)) m.2.tokens) :
    Spells (prettyMembers depth ms) (memberTokens ms) := by
  induction ms with
  | nil => exact spells_newLine depth (.mark (c := '\x7d') rfl spells_nil)
  | cons m ms ih =>
    obtain ⟨hm, hms⟩ := List.forall_mem_cons.1 h
    have hmembers := ih hms
    rw [prettyMembers, memberTokens, List.cons_append, List.cons_append, List.cons_append,
      List.append_assoc]
    refine .mark (c := ',') rfl (spells_newLine (depth + 1) ?_)
    cases ms <;> exact (spells_prettyMember hm).append_cons hmembers rfl

/-- A value with one item or member a line spells its words. -/
theorem Plain.spells_pretty {v : Json} (h : Plain v) (depth : Nat) :
    Spells (v.pretty depth) v.tokens := by
  induction h generalizing depth with
  | null => exact spells_null
  | bool b => exact spells_bool b
  | int n => exact spells_intDigits n
  | text s => exact spells_quote s
  | @list xs _ ih =>
    cases xs with
    | nil => exact .mark (c := '[') rfl (.mark (c := ']') rfl spells_nil)
    | cons x xs =>
      obtain ⟨hx, hxs⟩ := List.forall_mem_cons.1 ih
      have hitems := spells_prettyItems fun y hy => hxs y hy (depth + 1)
      rw [pretty, tokens, List.cons_append, List.cons_append, List.cons_append, List.append_assoc]
      refine .mark (c := '[') rfl (spells_newLine (depth + 1) ?_)
      cases xs <;> exact (hx (depth + 1)).append_cons hitems rfl
  | @object ms _ ih =>
    cases ms with
    | nil => exact .mark (c := '\x7b') rfl (.mark (c := '\x7d') rfl spells_nil)
    | cons m ms =>
      obtain ⟨hm, hms⟩ := List.forall_mem_cons.1 ih
      have hmembers := spells_prettyMembers fun m hm => hms m hm (depth + 1)
      rw [pretty, tokens, List.cons_append, List.cons_append, List.cons_append, List.append_assoc]
      refine .mark (c := '\x7b') rfl (spells_newLine (depth + 1) ?_)
      cases ms <;> exact (spells_prettyMember (hm (depth + 1))).append_cons hmembers rfl

/-! ## Words become values -/

/-- A value may begin in the state, inside the frames of `stack`. -/
def Awaits (s : State) (stack : List Frame) : Prop :=
  ∀ t, t ≠ .endList → s.step t = beginValue stack t

theorem awaits_value (stack : List Frame) : Awaits (.value stack) stack := fun _ _ => rfl

/-- After the bracket of a list, a value becomes its first item. -/
theorem awaits_firstItem (stack : List Frame) : Awaits (.firstItem stack) (.items [] :: stack) := by
  intro t ht
  cases t with
  | endList => exact absurd rfl ht
  | _ => rfl

/-- The words of the value lead to the state after it. -/
def Builds (v : Json) : Prop :=
  ∀ (s : State) (stack : List Frame) (ts : List Token), Awaits s stack →
    (v.tokens ++ ts).foldlM State.step s = ts.foldlM State.step (.after stack v)

theorem foldlM_step {s s' : State} {t : Token} (h : s.step t = some s') (ts : List Token) :
    (t :: ts).foldlM State.step s = ts.foldlM State.step s' := by
  rw [List.foldlM_cons, h]
  rfl

theorem builds_scalar {v : Json} (h : v.tokens = [.scalar v]) : Builds v := by
  intro s stack ts hs
  have hscalar : s.step (.scalar v) = some (.after stack v) := hs _ nofun
  rw [h, List.singleton_append, foldlM_step hscalar]

/-- The tokens of further items add these to the list that is open, and close it. -/
theorem foldlM_itemTokens (h : ∀ x ∈ xs, Builds x) (rev : List Json) (stack : List Frame)
    (v : Json) (ts : List Token) :
    (itemTokens xs ++ ts).foldlM State.step (.after (.items rev :: stack) v) =
      ts.foldlM State.step (.after stack (.list (rev.reverse ++ v :: xs))) := by
  induction xs generalizing rev v with
  | nil => simp [itemTokens, State.step]
  | cons x xs ih =>
    obtain ⟨hx, hxs⟩ := List.forall_mem_cons.1 h
    have hcomma : State.step (.after (.items rev :: stack) v) .comma =
        some (.value (.items (v :: rev) :: stack)) := rfl
    rw [itemTokens, List.append_assoc, List.cons_append, foldlM_step hcomma,
      hx _ _ _ (awaits_value _), ih hxs]
    simp

/-- Members whose names stand for texts, as the reader keeps them. -/
def named (ms : List (String × Json)) : List (Option String × Json) :=
  ms.map fun m => (some m.1, m.2)

/-- An object that is closed has the members that were gathered. -/
theorem closeObject_named (ms : List (String × Json)) :
    closeObject (named ms).reverse = .object ms := by
  have hmapM : (named ms).mapM (fun m => m.1.map fun k => (k, m.2)) = some ms := by
    induction ms with
    | nil => rfl
    | cons m ms ih =>
      rw [named, List.map_cons, List.mapM_cons, ← named, ih]
      rfl
  rw [closeObject, List.reverse_reverse, hmapM]

/-- The words of a member lead from its beginning to the state after its value. -/
theorem foldlM_memberToken {m : String × Json} (h : Builds m.2) {s : State} {stack : List Frame}
    {rev : List (Option String × Json)} (ts : List Token)
    (hs : ∀ k, s.step (.scalar (.text k)) = some (.colon stack rev (some k))) :
    (memberToken m ++ ts).foldlM State.step s =
      ts.foldlM State.step (.after (.members rev (some m.1) :: stack) m.2) := by
  have hcolon : State.step (.colon stack rev (some m.1)) .colon =
      some (.value (.members rev (some m.1) :: stack)) := rfl
  rw [memberToken, List.cons_append, foldlM_step (hs m.1), List.cons_append, foldlM_step hcolon,
    h _ _ _ (awaits_value _)]

/-- The tokens of further members add these to the object that is open, and close it. -/
theorem foldlM_memberTokens (h : ∀ m ∈ ms, Builds m.2) (done : List (String × Json))
    (stack : List Frame) (m : String × Json) (ts : List Token) :
    (memberTokens ms ++ ts).foldlM State.step
        (.after (.members (named done).reverse (some m.1) :: stack) m.2) =
      ts.foldlM State.step (.after stack (.object (done ++ m :: ms))) := by
  have hrev : (some m.1, m.2) :: (named done).reverse = (named (done ++ [m])).reverse := by
    simp [named]
  induction ms generalizing done m with
  | nil =>
    have hend : State.step (.after (.members (named done).reverse (some m.1) :: stack) m.2)
        .endObject = some (.after stack (.object (done ++ [m]))) := by
      rw [State.step, hrev, closeObject_named]
    rw [memberTokens, List.singleton_append, foldlM_step hend]
  | cons n ms ih =>
    obtain ⟨hn, hms⟩ := List.forall_mem_cons.1 h
    have hcomma : State.step (.after (.members (named done).reverse (some m.1) :: stack) m.2)
        .comma = some (.member stack (named (done ++ [m])).reverse) := by
      rw [State.step, hrev]
    rw [memberTokens, List.append_assoc, List.cons_append, foldlM_step hcomma,
      foldlM_memberToken hn _ fun _ => rfl, ih hms _ _ (by simp [named])]
    simp

/-- From any state in which a value may begin, the words of a value lead to the state after it. -/
theorem Plain.builds {v : Json} (h : Plain v) : Builds v := by
  induction h with
  | null | bool | int | text => exact builds_scalar rfl
  | @list xs _ ih =>
    intro s stack ts hs
    have hopen : s.step .beginList = some (.firstItem stack) := hs _ nofun
    cases xs with
    | nil =>
      have hclose : State.step (.firstItem stack) .endList = some (.after stack (.list [])) := rfl
      rw [tokens, List.cons_append, foldlM_step hopen, List.singleton_append, foldlM_step hclose]
    | cons x xs =>
      obtain ⟨hx, hxs⟩ := List.forall_mem_cons.1 ih
      rw [tokens, List.append_assoc, List.cons_append, foldlM_step hopen,
        hx _ _ _ (awaits_firstItem stack), foldlM_itemTokens hxs]
      rfl
  | @object ms _ ih =>
    intro s stack ts hs
    have hopen : s.step .beginObject = some (.firstMember stack) := hs _ nofun
    cases ms with
    | nil =>
      have hclose : State.step (.firstMember stack) .endObject =
          some (.after stack (.object [])) := rfl
      rw [tokens, List.cons_append, foldlM_step hopen, List.singleton_append, foldlM_step hclose]
    | cons m ms =>
      obtain ⟨hm, hms⟩ := List.forall_mem_cons.1 ih
      rw [tokens, List.append_assoc, List.cons_append, foldlM_step hopen,
        foldlM_memberToken hm _ fun _ => rfl]
      exact foldlM_memberTokens hms [] stack m ts

end

/-- A plain value is built from its tokens. -/
theorem Plain.ofTokens?_tokens {v : Json} (h : Plain v) : ofTokens? v.tokens = some v := by
  have hbuilds := h.builds (.value []) [] [] (awaits_value [])
  rw [List.append_nil] at hbuilds
  rw [ofTokens?, hbuilds]
  rfl

/-- What spells the words of a value is read as the value. -/
theorem Plain.parse?_of_spells {v : Json} (h : Plain v) {cs : List Char}
    (hcs : Spells cs v.tokens) : parse? (String.ofList cs) = some v := by
  have hlex := hcs [] (by rintro _ ⟨⟩)
  rw [List.append_nil] at hlex
  rw [parse?, String.toList_ofList, hlex]
  simpa [lex] using h.ofTokens?_tokens

theorem Plain.parse?_toCompact {v : Json} (h : Plain v) : parse? v.toCompact = some v :=
  h.parse?_of_spells h.spells_compact

theorem Plain.parse?_toPretty {v : Json} (h : Plain v) : parse? v.toPretty = some v :=
  h.parse?_of_spells (h.spells_pretty 0)

end CryptoAudit.Json
