import Mathlib
import CryptoAudit.Report.Moment
import CryptoAudit.Report.Page

/-!
# The markup of a page does not depend on what is audited

A page is markup with words between its tags. Two reports that have the same verdict, as many
findings, and at each place findings that are marked in the same way and both have a trace or both
have none (`SameShape`), have pages with the same delimiters and the same tags, attributes included
(`render_sameMarkup`). The names and values of the audited program cannot change either.

All delimiters of a page stand in its `markup` parts: escaped text has none (`inert_escape`), and
neither have the numbers and words of the report. No piece of markup ends inside a tag (`Whole`), so
that a page has the tags of its pieces of markup, one after the other (`flatMap_render`), and which
pieces these are depends on the shape of the report only (`skeleton_parts`).
-/

namespace CryptoAudit.Report.Page

/-! ## Delimiters -/

/-- The character delimits a tag, or the value of an attribute in a tag. -/
def delimits (c : Char) : Bool := c == '<' || c == '>' || c == '"'

/-- The delimiters of a page, in order. -/
def delimiters (cs : List Char) : List Char := cs.filter delimits

/-- There are no delimiters. -/
def Inert (cs : List Char) : Prop := ∀ c ∈ cs, delimits c = false

theorem Inert.append {cs ds : List Char} (hcs : Inert cs) (hds : Inert ds) : Inert (cs ++ ds) :=
  List.forall_mem_append.2 ⟨hcs, hds⟩

theorem Inert.delimiters_eq {cs : List Char} (h : Inert cs) : delimiters cs = [] :=
  List.filter_eq_nil_iff.2 fun c hc => by simp [h c hc]

/-- For texts that are written out: their characters are those of a list. -/
theorem inert_ofList {cs : List Char} (h : cs.all (!delimits ·) = true) :
    Inert (String.ofList cs).toList := by
  intro c hc
  rw [String.toList_ofList] at hc
  simpa using List.all_eq_true.1 h c hc

/-- After a replacement, the characters are those of the replacement and the others of the text. -/
theorem mem_replaceChar {c d : Char} {replacement : String} {s : List Char}
    (h : d ∈ replaceChar c replacement s) : d ∈ replacement.toList ∨ d ∈ s ∧ d ≠ c := by
  obtain ⟨e, he, hd⟩ := List.mem_flatMap.1 h
  split at hd
  next => exact .inl hd
  next hne =>
    obtain rfl := List.mem_singleton.1 hd
    exact .inr ⟨he, hne⟩

/-- Each pass of the escape takes one character away and brings none of the delimiters back. -/
theorem inert_escape (s : List Char) : Inert (escape s) := by
  intro c hc
  rcases mem_replaceChar hc with hquot | ⟨hc, hquote⟩
  · exact inert_ofList rfl c hquot
  rcases mem_replaceChar hc with hgt | ⟨hc, hclose⟩
  · exact inert_ofList rfl c hgt
  rcases mem_replaceChar hc with hlt | ⟨-, hopen⟩
  · exact inert_ofList rfl c hlt
  · simp [delimits, hquote, hclose, hopen]

/-! ## Numbers and words of the report -/

/-- What is not a digit is not in a number. -/
theorem notMem_toString {c : Char} (hc : c.isDigit = false) (n : Nat) :
    c ∉ (toString n).toList := by
  rw [Nat.toString_eq_repr, Nat.toList_repr]
  intro hmem
  have hdigit : c.isDigit = true := Nat.isDigit_of_mem_toDigits (by decide) (by decide) hmem
  rw [hdigit] at hc
  cases hc

/-- A number has no marks in it. -/
theorem inert_toString (n : Nat) : Inert (toString n).toList := by
  intro c hc
  have hne (d : Char) (hd : d.isDigit = false) : (c == d) = false :=
    beq_eq_false_iff_ne.2 fun heq => notMem_toString hd n (heq ▸ hc)
  simp [delimits, hne '<' rfl, hne '>' rfl, hne '"' rfl]

/-- The label of a line has no marks in it. -/
theorem inert_lineLabel (f : Finding) : Inert f.lineLabel.toList := by
  rw [Finding.lineLabel]
  split
  · exact inert_toString _
  · exact inert_ofList rfl

theorem inert_provenance (p : Provenance) : Inert p.label.toList := by
  cases p <;> exact inert_ofList rfl

theorem inert_verdict (v : ProviderVerdict) : Inert v.label.toList := by
  cases v <;> exact inert_ofList rfl

theorem inert_severity (s : Severity) : Inert s.name.toList := by
  cases s <;> exact inert_ofList rfl

/-- A padded number has no marks in it. -/
theorem inert_padded (width n : Nat) : Inert (Moment.padded width n).toList := by
  rw [Moment.padded, String.toList_append, String.toList_ofList]
  refine .append (fun c hc => ?_) (inert_toString n)
  rw [List.eq_of_mem_replicate hc]
  rfl

/-- The moment at which a report is made has no delimiters. -/
theorem inert_moment (seconds nanoseconds : Nat) :
    Inert (Moment.text seconds nanoseconds).toList := by
  simp only [Moment.text, String.toList_append]
  refine .append (.append (.append (.append (.append (.append (.append (.append (.append (.append
    (.append (.append (.append (inert_padded _ _) ?_) (inert_padded _ _)) ?_) (inert_padded _ _))
    ?_) (inert_padded _ _)) ?_) (inert_padded _ _)) ?_) (inert_padded _ _)) ?_) (inert_padded _ _))
    ?_
  all_goals exact inert_ofList rfl

/-! ## Tags -/

/-- What a page consists of: tags, and the characters outside of tags. -/
inductive Token where
  /-- A tag with its attributes. -/
  | tag (content : List Char)
  | char (c : Char)
deriving DecidableEq

/-- The content of a tag. -/
def Token.tag? : Token → Option (List Char)
  | .tag content => some content
  | .char _ => none

/-- The tags and characters of a page from a place outside of tags on, or from one inside of a tag
whose characters so far are `rev`, the last one first. -/
def tokensFrom : Option (List Char) → List Char → List Token
  | _, [] => []
  | none, c :: cs => if c = '<' then tokensFrom (some []) cs else .char c :: tokensFrom none cs
  | some rev, c :: cs =>
    if c = '>' then .tag rev.reverse :: tokensFrom none cs else tokensFrom (some (c :: rev)) cs

/-- The tags and characters of a page. -/
def tokens (cs : List Char) : List Token := tokensFrom none cs

/-- The tags of a page with their attributes, in order. -/
def tags (cs : List Char) : List (List Char) := (tokens cs).filterMap Token.tag?

/-- The characters do not end inside of a tag, so that what follows them is read on its own. -/
def Whole (cs : List Char) : Prop := ∀ rest, tokens (cs ++ rest) = tokens cs ++ tokens rest

theorem Whole.append {cs ds : List Char} (hcs : Whole cs) (hds : Whole ds) : Whole (cs ++ ds) := by
  intro rest
  rw [List.append_assoc, hcs, hds, hcs ds, List.append_assoc]

theorem Whole.string_append {s t : String} (hs : Whole s.toList) (ht : Whole t.toList) :
    Whole (s ++ t).toList := by
  rw [String.toList_append]
  exact hs.append ht

/-- A text without marks is read character by character, whatever follows it. -/
theorem Inert.tokens_append {cs : List Char} (h : Inert cs) (rest : List Char) :
    tokens (cs ++ rest) = cs.map .char ++ tokens rest := by
  induction cs with
  | nil => rfl
  | cons c cs ih =>
    obtain ⟨hc, hcs⟩ := List.forall_mem_cons.1 h
    have hne : c ≠ '<' := by
      rintro rfl
      cases hc
    have hstep : tokens (c :: cs ++ rest) = .char c :: tokens (cs ++ rest) := if_neg hne
    rw [hstep, ih hcs, List.map_cons, List.cons_append]

theorem Inert.tokens_eq {cs : List Char} (h : Inert cs) : tokens cs = cs.map .char := by
  have happend := h.tokens_append []
  rwa [List.append_nil, show tokens [] = [] from rfl, List.append_nil] at happend

theorem Inert.whole {cs : List Char} (h : Inert cs) : Whole cs := by
  intro rest
  rw [h.tokens_append, h.tokens_eq]

theorem Inert.tags_eq {cs : List Char} (h : Inert cs) : tags cs = [] := by
  rw [tags, h.tokens_eq, List.filterMap_map]
  exact List.filterMap_eq_nil_iff.2 fun _ _ => rfl

/-- For markup that is written out. -/
theorem whole_ofList {cs : List Char} (h : Whole cs) : Whole (String.ofList cs).toList := by
  rwa [String.toList_ofList]

/-- For markup that is written out in three pieces, of which the second one is inside of a tag. -/
theorem whole_ofList_append {as bs cs : List Char} (h : Whole (as ++ bs ++ cs)) :
    Whole (String.ofList as ++ String.ofList bs ++ String.ofList cs).toList := by
  rwa [← String.ofList_append, ← String.ofList_append, String.toList_ofList]

/-! ## Parts -/

/-- Markup does not end inside of a tag, and words of the report have no delimiters. -/
def Part.Sound : Part → Prop
  | .markup s => Whole s.toList
  | .plain s => Inert s.toList
  | .text _ => True

/-- The text of a piece of markup. -/
def Part.markup? : Part → Option String
  | .markup s => some s
  | .plain _ | .text _ => none

/-- The pieces of markup among the parts of a page, in order. -/
def skeleton (ps : List Part) : List String := ps.filterMap Part.markup?

/-- What is shown for a part that is not markup has no marks in it. -/
theorem Part.Sound.inert {p : Part} (h : p.Sound) (hp : p.markup? = none) : Inert p.render := by
  cases p with
  | markup s => cases hp
  | plain s => exact h
  | text s => exact inert_escape _

/-- The marks of a part come in whole tags. -/
theorem Part.Sound.whole {p : Part} (h : p.Sound) : Whole p.render := by
  cases hp : p.markup? with
  | none => exact (h.inert hp).whole
  | some s =>
    cases p with
    | markup => exact h
    | plain | text => cases hp

section
variable {ps : List Part}

/-- The marks of parts come in whole tags, if those of each part do. -/
theorem whole_flatMap_render (h : ∀ p ∈ ps, p.Sound) : Whole (ps.flatMap Part.render) := by
  induction ps with
  | nil => exact fun _ => rfl
  | cons p ps ih =>
    obtain ⟨hp, hps⟩ := List.forall_mem_cons.1 h
    exact hp.whole.append (ih hps)

/-- The parts of a page are read one after the other. -/
theorem tokens_flatMap_render (h : ∀ p ∈ ps, p.Sound) :
    tokens (ps.flatMap Part.render) = ps.flatMap fun p => tokens p.render := by
  induction ps with
  | nil => rfl
  | cons p ps ih =>
    obtain ⟨hp, hps⟩ := List.forall_mem_cons.1 h
    rw [List.flatMap_cons, List.flatMap_cons, hp.whole, ih hps]

/-- What inert characters have nothing of, a page has only from its markup. -/
theorem flatMap_render {β : Type} {φ : List Char → List β} (hφ : ∀ cs, Inert cs → φ cs = [])
    (h : ∀ p ∈ ps, p.Sound) :
    ps.flatMap (fun p => φ p.render) = (skeleton ps).flatMap fun s => φ s.toList := by
  induction ps with
  | nil => rfl
  | cons p ps ih =>
    obtain ⟨hp, hps⟩ := List.forall_mem_cons.1 h
    rw [List.flatMap_cons, ih hps]
    cases p with
    | markup s => rfl
    | plain s =>
      rw [hφ _ (hp.inert rfl)]
      rfl
    | text s =>
      rw [hφ _ (hp.inert rfl)]
      rfl

theorem delimiters_flatMap_render (h : ∀ p ∈ ps, p.Sound) :
    delimiters (ps.flatMap Part.render) = (skeleton ps).flatMap fun s => delimiters s.toList := by
  rw [← flatMap_render (fun _ => Inert.delimiters_eq) h]
  exact List.filter_flatMap

theorem tags_flatMap_render (h : ∀ p ∈ ps, p.Sound) :
    tags (ps.flatMap Part.render) = (skeleton ps).flatMap fun s => tags s.toList := by
  rw [← flatMap_render (fun _ => Inert.tags_eq) h, tags, tokens_flatMap_render h]
  exact List.filterMap_flatMap

end

@[simp] theorem skeleton_nil : skeleton [] = [] := rfl

@[simp] theorem skeleton_append (ps qs : List Part) :
    skeleton (ps ++ qs) = skeleton ps ++ skeleton qs := List.filterMap_append

@[simp] theorem skeleton_markup (s : String) (ps : List Part) :
    skeleton (.markup s :: ps) = s :: skeleton ps := rfl

@[simp] theorem skeleton_plain (s : String) (ps : List Part) :
    skeleton (.plain s :: ps) = skeleton ps := rfl

@[simp] theorem skeleton_text (s : String) (ps : List Part) :
    skeleton (.text s :: ps) = skeleton ps := rfl

theorem forall_mem_enclosed {P : Part → Prop} {before after : String} {content : Part} :
    (∀ p ∈ enclosed before content after, P p) ↔
      P (.markup before) ∧ P content ∧ P (.markup after) := by
  simp [enclosed]

/-! ## The parts of a page are sound -/

/-- The style has no marks in it. -/
theorem inert_style : Inert ("\n".intercalate style).toList := by
  have hlines : ∀ line ∈ style, Inert line.toList := by
    unfold style
    repeat refine List.forall_mem_cons.2 ⟨inert_ofList rfl, ?_⟩
    exact List.forall_mem_nil _
  have hbreak : Inert "\n".toList := inert_ofList rfl
  rw [String.toList_intercalate]
  generalize style = lines at hlines
  induction lines with
  | nil => exact List.forall_mem_nil _
  | cons line lines ih =>
    obtain ⟨hline, hrest⟩ := List.forall_mem_cons.1 hlines
    cases lines with
    | nil => simpa [List.intercalate] using hline
    | cons next lines =>
      have hstep : "\n".toList.intercalate ((line :: next :: lines).map String.toList) =
          line.toList ++ ("\n".toList ++
            "\n".toList.intercalate ((next :: lines).map String.toList)) := by
        simp [List.intercalate]
      rw [hstep]
      exact hline.append (hbreak.append (ih hrest))

theorem whole_beforeTitle : Whole beforeTitle.toList :=
  .string_append (.string_append (whole_ofList fun _ => rfl) (whole_ofList fun _ => rfl))
    (whole_ofList fun _ => rfl)

theorem whole_beforeVersion : Whole beforeVersion.toList :=
  .string_append (.string_append (.string_append (.string_append (whole_ofList fun _ => rfl)
    inert_style.whole) (whole_ofList fun _ => rfl)) (whole_ofList fun _ => rfl))
    (whole_ofList fun _ => rfl)

theorem whole_banner (pass : Bool) : Whole (banner pass).toList := by
  cases pass <;> exact whole_ofList fun _ => rfl

theorem whole_beforeRows : Whole beforeRows.toList :=
  .string_append (.string_append (.string_append (whole_ofList fun _ => rfl)
    (whole_ofList fun _ => rfl)) (whole_ofList fun _ => rfl)) (whole_ofList fun _ => rfl)

/-- The parts of the summary are sound. -/
theorem sound_summary (r : Report) : ∀ p ∈ summary r, p.Sound := by
  simp only [summary, stat, List.forall_mem_append, forall_mem_enclosed, List.forall_mem_singleton]
  refine ⟨⟨⟨⟨⟨whole_ofList fun _ => rfl, ?_, inert_toString _, ?_⟩, ?_, inert_toString _, ?_⟩,
    ?_, inert_toString _, ?_⟩, ?_, inert_toString _, ?_⟩, whole_ofList fun _ => rfl⟩
  all_goals exact whole_ofList_append fun _ => rfl

/-- The parts of a trace are sound. -/
theorem sound_trace (f : Finding) : ∀ p ∈ trace f, p.Sound := by
  rw [trace]
  split
  · exact List.forall_mem_nil _
  · exact forall_mem_enclosed.2 ⟨whole_ofList fun _ => rfl, trivial, whole_ofList fun _ => rfl⟩

/-- The parts of the row of a finding are sound. -/
theorem sound_row (f : Finding) : ∀ p ∈ row f, p.Sound := by
  have hstart : Part.Sound (.markup ("<tr class=\"" ++ rowClass f ++ "\">\n")) := by
    rw [rowClass]
    split <;> exact whole_ofList_append fun _ => rfl
  have hcell : Part.Sound (.markup "  <td>") := whole_ofList fun _ => rfl
  have hcellEnd : Part.Sound (.markup "</td>\n") := whole_ofList fun _ => rfl
  have hcode : Part.Sound (.markup "  <td><code>") := whole_ofList fun _ => rfl
  have hcodeEnd : Part.Sound (.markup "</code></td>\n") := whole_ofList fun _ => rfl
  have hend : Part.Sound (.markup "</td>\n</tr>\n") := whole_ofList fun _ => rfl
  have hnil := List.forall_mem_nil Part.Sound
  simp only [row, List.forall_mem_append, forall_mem_enclosed, List.forall_mem_cons]
  exact ⟨⟨⟨⟨⟨⟨⟨⟨⟨⟨⟨hstart, hnil⟩, hcell, trivial, hcellEnd⟩, hcode, trivial, hcodeEnd⟩,
    hcode, trivial, hcodeEnd⟩, hcell, trivial, hcellEnd⟩, hcell, inert_provenance _, hnil⟩,
    sound_trace f⟩, hcellEnd, hnil⟩, hcell, inert_lineLabel f, hcellEnd⟩,
    hcell, trivial, hcellEnd⟩, hcell, inert_verdict _, hend⟩

/-- The parts of the table of findings are sound. -/
theorem sound_content (fs : List Finding) : ∀ p ∈ content fs, p.Sound := by
  rw [content]
  split
  · exact List.forall_mem_singleton.2 (whole_ofList fun _ => rfl)
  · simp only [List.forall_mem_append, List.forall_mem_singleton, List.forall_mem_flatMap]
    exact ⟨⟨whole_beforeRows, fun f _ => sound_row f⟩, whole_ofList fun _ => rfl⟩

/-- The parts of the footer are sound, if the time has no marks in it. -/
theorem sound_footer (r : Report) {stamp : Stamp} (h : Inert stamp.time.toList) :
    ∀ p ∈ footer r stamp, p.Sound := by
  simp only [footer, List.forall_mem_append, forall_mem_enclosed]
  refine ⟨⟨⟨⟨?_, trivial, ?_⟩, ?_, h, ?_⟩, ?_, inert_severity _, ?_⟩, ?_, trivial, ?_⟩
  all_goals exact whole_ofList fun _ => rfl

/-- All parts of a page are sound, if the time has no marks in it. -/
theorem sound_parts (r : Report) {stamp : Stamp} (h : Inert stamp.time.toList) :
    ∀ p ∈ parts r stamp, p.Sound := by
  simp only [parts, List.forall_mem_append, forall_mem_enclosed]
  exact ⟨⟨⟨⟨⟨whole_beforeTitle, trivial, whole_beforeVersion⟩, whole_ofList fun _ => rfl,
    inert_ofList rfl, whole_banner _⟩, sound_summary r⟩, sound_content _⟩, sound_footer r h⟩

theorem toList_render (r : Report) (stamp : Stamp) :
    (render r stamp).toList = (parts r stamp).flatMap Part.render := by
  rw [render, String.toList_ofList]

/-! ## The shape of a report -/

/-- The findings are marked in the same way, and both have a trace or both have none. -/
structure SameMarks (f g : Finding) : Prop where
  nonCompliant : f.isNonCompliant = g.isNonCompliant
  trace : f.trace.isEmpty = g.trace.isEmpty

/-- The reports have the same verdict and as many findings, with the same marks at each place. -/
structure SameShape (r s : Report) : Prop where
  pass : r.verdict.pass = s.verdict.pass
  findings : List.Forall₂ SameMarks r.findings s.findings

/-- Rows of findings with the same marks have the same markup. -/
theorem SameMarks.skeleton_row {f g : Finding} (h : SameMarks f g) :
    skeleton (row f) = skeleton (row g) := by
  have hclass : rowClass f = rowClass g := by rw [rowClass, rowClass, h.nonCompliant]
  have htrace : skeleton (Page.trace f) = skeleton (Page.trace g) := by
    rw [Page.trace, Page.trace, h.trace]
    split <;> rfl
  simp only [row, enclosed, skeleton_append, skeleton_markup, skeleton_plain, skeleton_text,
    hclass, htrace]

/-- The rows of findings that have the same marks, one by one, have the same markup. -/
theorem skeleton_rows {fs gs : List Finding} (h : List.Forall₂ SameMarks fs gs) :
    skeleton (fs.flatMap row) = skeleton (gs.flatMap row) := by
  induction h with
  | nil => rfl
  | cons hmarks _ ih =>
    rw [List.flatMap_cons, List.flatMap_cons, skeleton_append, skeleton_append,
      hmarks.skeleton_row, ih]

/-- The tables of findings that have the same marks, one by one, have the same markup. -/
theorem skeleton_content {fs gs : List Finding} (h : List.Forall₂ SameMarks fs gs) :
    skeleton (content fs) = skeleton (content gs) := by
  have hempty : fs.isEmpty = gs.isEmpty := by cases h <;> rfl
  rw [content, content, hempty]
  split
  · rfl
  · simp only [skeleton_append, skeleton_rows h]

/-- The markup of a page is that of every other page of the same shape. -/
theorem skeleton_parts {r s : Report} (h : SameShape r s) (stamp stamp' : Stamp) :
    skeleton (parts r stamp) = skeleton (parts s stamp') := by
  simp only [parts, summary, stat, footer, enclosed, skeleton_append, skeleton_markup,
    skeleton_plain, skeleton_text, skeleton_nil, h.pass, skeleton_content h.findings]

/-- Pages of reports of the same shape have the same delimiters and the same tags, whatever the
target, the fingerprint and the findings say. -/
theorem render_sameMarkup {r s : Report} (h : SameShape r s) {stamp stamp' : Stamp}
    (htime : Inert stamp.time.toList) (htime' : Inert stamp'.time.toList) :
    delimiters (render r stamp).toList = delimiters (render s stamp').toList ∧
      tags (render r stamp).toList = tags (render s stamp').toList := by
  have hr := sound_parts r htime
  have hs := sound_parts s htime'
  have hskeleton := skeleton_parts h stamp stamp'
  rw [toList_render, toList_render, delimiters_flatMap_render hr, delimiters_flatMap_render hs,
    tags_flatMap_render hr, tags_flatMap_render hs, hskeleton]
  exact ⟨rfl, rfl⟩

/-- A finding of a program whose names are markup. -/
def hostileFinding : Finding where
  ruleId := "cipher"
  category := "\"><script>"
  api := "Cipher.getInstance"
  severity := .high
  description := ""
  className := "</td></tr></table><h1>PASS</h1>"
  methodSignature := "a<b>(\" onclick=\"x)"
  algorithm := ""
  provenance := .unresolved
  trace := ["<init>", "&lt;clinit&gt;"]
  flagged := false
  location := none
  provider := "<img src=\"x\">"
  verdict := .notValidated

/-- A finding with the same marks. -/
def harmlessFinding : Finding := {
  hostileFinding with
  category := "cipher"
  className := "Main"
  methodSignature := "main()"
  algorithm := "AES"
  provenance := .tracedRecursively
  trace := ["run"]
  location := some ⟨"Main.java", 7⟩
  provider := "SunJCE" }

/-- A failed audit with one finding. -/
def reportOf (target fingerprint : String) (f : Finding) : Report :=
  ⟨target, [f], ⟨false, 1, 1, 1, some .high, .high⟩, fingerprint⟩

/-- Texts full of marks change the markup of a page no more than harmless ones. -/
theorem render_sameMarkup_hostile :
    let r := reportOf "</title>" "<" hostileFinding
    let s := reportOf "app.json" "0" harmlessFinding
    let stamp : Stamp := ⟨Moment.text 0 0, "<guid>"⟩
    SameShape r s ∧ Inert stamp.time.toList ∧
      delimiters (render r stamp).toList = delimiters (render s stamp).toList ∧
        tags (render r stamp).toList = tags (render s stamp).toList := by
  intro r s stamp
  have hshape : SameShape r s := ⟨rfl, .cons ⟨rfl, rfl⟩ .nil⟩
  have htime : Inert stamp.time.toList := inert_moment 0 0
  exact ⟨hshape, htime, render_sameMarkup hshape htime htime⟩

end CryptoAudit.Report.Page
