import Mathlib
import CryptoAudit.Proofs.Finding.Policy
import CryptoAudit.Proofs.Report.Markup
import CryptoAudit.Report.Console

/-!
# What reports mark and what they count

A page marks the rows of some findings and shows a number of non-compliant findings; a report for a
terminal does so with labels and its last line. Both mark the findings that are non-compliant by
themselves, and both show the number of violations of the policy. With a policy that fails on what
is unresolved these are not the same: the number shown is that of the marked findings together with
those that are violations only because something in them is unresolved (`numbers_shown`). So a
report may fail without a mark (`not_agree_unresolved`).

The rows and numbers are read off the written reports (`Page.markedRows`, `Page.shownCount`,
`Console.labelled`, `Console.shownCount`).
-/

namespace CryptoAudit

/-! ## Violations -/

namespace Policy

/-- The finding is a violation, but only since something in it is unresolved. -/
def countsUnresolved (p : Policy) (f : Finding) : Bool :=
  p.failOnUnresolved && f.hasUnresolved && !f.isNonCompliant

variable (p : Policy) (fs : List Finding)

/-- Violations are the findings that are not compliant and those that count for being unresolved. -/
theorem countP_isViolation :
    fs.countP p.isViolation = fs.countP Finding.isNonCompliant + fs.countP p.countsUnresolved := by
  induction fs with
  | nil => rfl
  | cons f fs ih =>
    have hone : (if p.isViolation f then 1 else 0) =
        (if f.isNonCompliant then 1 else 0) + (if p.countsUnresolved f then 1 else 0) := by
      rw [isViolation, countsUnresolved]
      cases f.isNonCompliant <;> simp
    rw [List.countP_cons, List.countP_cons, List.countP_cons, ih, hone]
    omega

/-- The number in the verdict is that of the violations among the reported findings. -/
theorem nonCompliantFindings_evaluate :
    (p.evaluate fs).nonCompliantFindings =
      (p.apply fs).countP Finding.isNonCompliant + (p.apply fs).countP p.countsUnresolved := by
  rw [evaluate_eq_judge, ← countP_isViolation]
  rfl

/-- No finding counts for being unresolved if and only if the policy does not ask for it or each
such finding is not compliant anyway. -/
theorem countsUnresolved_eq_zero_iff : fs.countP p.countsUnresolved = 0 ↔
    p.failOnUnresolved = false ∨ ∀ f ∈ fs, f.hasUnresolved = true → f.isNonCompliant = true := by
  rw [List.countP_eq_zero]
  unfold countsUnresolved
  cases p.failOnUnresolved <;> simp

/-- A verdict that fails counts at least one violation. -/
theorem nonCompliantFindings_pos (h : (p.evaluate fs).pass = false) :
    0 < (p.evaluate fs).nonCompliantFindings := by
  simp only [evaluate, Bool.not_eq_false'] at h
  obtain ⟨severity, hmem, -⟩ := List.any_eq_true.1 h
  exact List.length_pos_of_mem hmem

end Policy

namespace Report

/-! ## Pages -/

namespace Page

/-- The tag of a row that is marked. -/
def markedRow : List Char := "tr class=\"danger\"".toList

/-- The tag of the box of the summary for non-compliant findings. -/
def dangerBox : List Char := "div class=\"stat danger\"".toList

/-- The tag of the number in a box of the summary. -/
def countBox : List Char := "div class=\"count\"".toList

/-- The tag of the label in a box of the summary. -/
def labelBox : List Char := "div class=\"label\"".toList

/-- The number of rows of a page that are marked. -/
def markedRows (page : String) : Nat := (tags page.toList).count markedRow

/-- What follows the first tag with this content. -/
def after (content : List Char) : List Token → List Token
  | [] => []
  | t :: ts => if t = .tag content then ts else after content ts

/-- The characters up to the next tag. -/
def leading : List Token → List Char
  | .char c :: ts => c :: leading ts
  | .tag _ :: _ | [] => []

/-- The number of non-compliant findings in the summary of a page, which has this label. -/
def shownCount (page : String) : Option Nat :=
  let box := after countBox (after dangerBox (tokens page.toList))
  if leading (after labelBox box) = "Non-compliant".toList then (String.ofList (leading box)).toNat?
  else none

/-- A tag that does not stand in the front part is looked for in the rest. -/
theorem after_append {content : List Char} {ts : List Token} (h : .tag content ∉ ts)
    (us : List Token) : after content (ts ++ us) = after content us := by
  induction ts with
  | nil => rfl
  | cons t ts ih =>
    obtain ⟨ht, hts⟩ := not_or.1 (mt List.mem_cons.2 h)
    have hstep : after content (t :: ts ++ us) = after content (ts ++ us) := if_neg (Ne.symm ht)
    rw [hstep, ih hts]

/-- The characters in front of the next tag. -/
theorem leading_append (cs content : List Char) (ts : List Token) :
    leading (cs.map .char ++ .tag content :: ts) = cs := by
  induction cs with
  | nil => rfl
  | cons c cs ih => exact congrArg (c :: ·) ih

/-! ### The tags of the parts -/

/-- There is no tag with this content in a part. -/
def Part.Lacks (content : List Char) : Part → Prop
  | .markup s => content ∉ tags s.toList
  | .plain _ | .text _ => True

/-- How often a tag with this content stands in parts of a page. -/
def tagCount (content : List Char) (ps : List Part) : Nat :=
  ((skeleton ps).flatMap fun s => tags s.toList).count content

section
variable {content : List Char} {ps : List Part}

@[simp] theorem tagCount_append (ps qs : List Part) :
    tagCount content (ps ++ qs) = tagCount content ps + tagCount content qs := by
  rw [tagCount, skeleton_append, List.flatMap_append, List.count_append]
  rfl

/-- Parts that lack a tag do not count for it. -/
theorem tagCount_eq_zero (h : ∀ p ∈ ps, p.Lacks content) : tagCount content ps = 0 := by
  refine List.count_eq_zero.2 fun hmem => ?_
  obtain ⟨s, hs, hcontent⟩ := List.mem_flatMap.1 hmem
  obtain ⟨p, hp, hps⟩ := List.mem_filterMap.1 hs
  cases p with
  | markup =>
    cases hps
    exact h _ hp hcontent
  | plain | text => cases hps

/-- If the other parts lack a tag, it is counted in the markup in front. -/
theorem tagCount_markup_cons (s : String) (h : ∀ p ∈ ps, p.Lacks content) :
    tagCount content (.markup s :: ps) = (tags s.toList).count content := by
  have happend : tagCount content (.markup s :: ps) =
      (tags s.toList).count content + tagCount content ps := List.count_append
  rw [happend, tagCount_eq_zero h, Nat.add_zero]

/-- A tag that all parts lack is not read from them. -/
theorem tag_notMem_tokens (hsound : ∀ p ∈ ps, p.Sound) (h : ∀ p ∈ ps, p.Lacks content) :
    .tag content ∉ tokens (ps.flatMap Part.render) := by
  intro hmem
  have htags : content ∈ tags (ps.flatMap Part.render) := List.mem_filterMap.2 ⟨_, hmem, rfl⟩
  rw [tags_flatMap_render hsound] at htags
  exact List.count_eq_zero.1 (tagCount_eq_zero h) htags

end

/-! For markup that is written out, in one piece or in three. -/

section
variable {content as bs cs : List Char}

theorem lacks_ofList (h : (tags cs).contains content = false) :
    Part.Lacks (String.ofList content).toList (.markup (String.ofList cs)) := by
  rw [Part.Lacks, String.toList_ofList, String.toList_ofList]
  exact fun hmem => by simp [hmem] at h

/-- Markup in three pieces lacks a tag if the pieces together do. -/
theorem lacks_ofList_append (h : (tags (as ++ bs ++ cs)).contains content = false) :
    Part.Lacks (String.ofList content).toList
      (.markup (String.ofList as ++ String.ofList bs ++ String.ofList cs)) := by
  rw [← String.ofList_append, ← String.ofList_append]
  exact lacks_ofList h

/-- There is no tag with this content in a piece of markup, which is read on its own. -/
structure Avoids (content : List Char) (s : String) : Prop where
  whole : Whole s.toList
  notMem : content ∉ tags s.toList

theorem avoids_ofList (hwhole : Whole cs) (h : (tags cs).contains content = false) :
    Avoids (String.ofList content).toList (String.ofList cs) :=
  ⟨whole_ofList hwhole, lacks_ofList h⟩

/-- Texts that avoid a tag avoid it together. -/
theorem Avoids.append {s t : String} (hs : Avoids content s) (ht : Avoids content t) :
    Avoids content (s ++ t) := by
  refine ⟨.string_append hs.whole ht.whole, ?_⟩
  rw [tags, String.toList_append, hs.whole, List.filterMap_append]
  exact fun hmem => (List.mem_append.1 hmem).elim hs.notMem ht.notMem

/-- What follows a tag in markup of three pieces is found in the pieces together. -/
theorem after_ofList_append {next : List Char} {ts : List Token}
    (h : after content (tokens (as ++ bs ++ cs) ++ ts) = .tag next :: ts) :
    after (String.ofList content).toList
      (tokens (String.ofList as ++ String.ofList bs ++ String.ofList cs).toList ++ ts) =
        .tag (String.ofList next).toList :: ts := by
  rwa [← String.ofList_append, ← String.ofList_append, String.toList_ofList, String.toList_ofList,
    String.toList_ofList]

/-- The label that follows a tag in markup of three pieces is found in the pieces together. -/
theorem after_label_ofList_append {next : List Char} {ts us : List Token}
    (h : after content (tokens (as ++ bs ++ cs) ++ ts) = bs.map .char ++ .tag next :: us) :
    after (String.ofList content).toList
      (tokens (String.ofList as ++ String.ofList bs ++ String.ofList cs).toList ++ ts) =
        (String.ofList bs).toList.map .char ++ .tag next :: us := by
  rwa [← String.ofList_append, ← String.ofList_append, String.toList_ofList, String.toList_ofList,
    String.toList_ofList]

theorem tokens_ofList_append {ts : List Token} (h : tokens (as ++ bs ++ cs) = ts) :
    tokens (String.ofList as ++ String.ofList bs ++ String.ofList cs).toList = ts := by
  rwa [← String.ofList_append, ← String.ofList_append, String.toList_ofList]

theorem count_tags_ofList_append {n : Nat} (h : (tags (as ++ bs ++ cs)).count content = n) :
    (tags (String.ofList as ++ String.ofList bs ++ String.ofList cs).toList).count
      (String.ofList content).toList = n := by
  rwa [← String.ofList_append, ← String.ofList_append, String.toList_ofList, String.toList_ofList]

end

/-! ### The number in the summary -/

/-- The parts of a page up to the box for non-compliant findings. -/
def beforeBox (r : Report) : List Part :=
  enclosed beforeTitle (.text r.target) beforeVersion ++
  enclosed "" (.plain toolVersion) (banner r.verdict.pass) ++
  [.markup "  <div class=\"summary\">\n"] ++ stat "stat" r.findings.length "Call sites"

/-- The parts of a page from the box for non-compliant findings on. -/
def afterBox (r : Report) (stamp : Stamp) : List Part :=
  stat "stat safe" (r.findings.countP (·.verdict == .validated)) "FIPS provider" ++
  stat "stat" (r.findings.countP (·.hasUnresolved)) "Unresolved" ++
  [.markup "  </div>\n\n  "] ++ content r.findings ++ footer r stamp

theorem parts_eq (r : Report) (stamp : Stamp) :
    parts r stamp = beforeBox r ++
      (stat "stat danger" r.verdict.nonCompliantFindings "Non-compliant" ++ afterBox r stamp) := by
  simp only [parts, summary, beforeBox, afterBox, List.append_assoc]

section
variable {t : List Char} (ht : t = markedRow ∨ t = dangerBox)
include ht

/-- Neither of the two tags stands in the markup before the title. -/
theorem avoids_beforeTitle : Avoids t beforeTitle := by
  rcases ht with rfl | rfl
  all_goals
    refine .append (.append ?_ ?_) ?_
    all_goals exact avoids_ofList (fun _ => rfl) rfl

/-- Neither of the two tags stands in the markup between the title and the version. -/
theorem avoids_beforeVersion : Avoids t beforeVersion := by
  have hstyle : Avoids t ("\n".intercalate style) := by
    refine ⟨inert_style.whole, ?_⟩
    rw [inert_style.tags_eq]
    exact List.not_mem_nil
  rcases ht with rfl | rfl
  all_goals
    refine .append (.append (.append (.append ?_ hstyle) ?_) ?_) ?_
    all_goals exact avoids_ofList (fun _ => rfl) rfl

/-- Neither of the two tags that are looked for stands before the box. -/
theorem lacks_beforeBox (r : Report) : ∀ p ∈ beforeBox r, p.Lacks t := by
  simp only [beforeBox, stat, List.forall_mem_append, forall_mem_enclosed,
    List.forall_mem_singleton]
  have htitle := (avoids_beforeTitle ht).notMem
  have hversion := (avoids_beforeVersion ht).notMem
  rcases ht with rfl | rfl
  all_goals
    refine ⟨⟨⟨⟨htitle, trivial, hversion⟩, lacks_ofList rfl, trivial, ?_⟩, lacks_ofList rfl⟩,
      lacks_ofList_append rfl, trivial, lacks_ofList_append rfl⟩
    cases r.verdict.pass <;> exact lacks_ofList rfl

end

/-- The box for non-compliant findings up to its number. -/
def boxStart : String := "    <div class=\"" ++ "stat danger" ++ "\"><div class=\"count\">"

/-- The box for non-compliant findings from its number on. -/
def boxEnd : String := "</div><div class=\"label\">" ++ "Non-compliant" ++ "</div></div>\n"

/-- The box with the number is read as its start, the digits and its end. -/
theorem tokens_stat {n : Nat} (hsound : ∀ p ∈ stat "stat danger" n "Non-compliant", p.Sound) :
    tokens ((stat "stat danger" n "Non-compliant").flatMap Part.render) =
      tokens boxStart.toList ++ ((toString n).toList.map .char ++ tokens boxEnd.toList) := by
  rw [tokens_flatMap_render hsound, ← (inert_toString _).tokens_eq]
  simp only [stat, enclosed, List.flatMap_cons, List.flatMap_nil, List.append_nil]
  rfl

/-- The box starts with its tag and that of its number. -/
theorem after_boxStart (ts : List Token) :
    after dangerBox (tokens boxStart.toList ++ ts) = .tag countBox :: ts :=
  after_ofList_append rfl

/-- The number in the box ends at a tag. -/
theorem exists_tokens_boxEnd : ∃ t ts, tokens boxEnd.toList = .tag t :: ts :=
  ⟨_, _, tokens_ofList_append rfl⟩

/-- The label of the box follows its number. -/
theorem exists_after_boxEnd (ts : List Token) :
    ∃ t us, after labelBox (tokens boxEnd.toList ++ ts) =
      "Non-compliant".toList.map .char ++ .tag t :: us :=
  ⟨_, _, after_label_ofList_append rfl⟩

/-- The summary shows the number of the verdict. -/
theorem shownCount_render (r : Report) {stamp : Stamp} (htime : Inert stamp.time.toList) :
    shownCount (render r stamp) = some r.verdict.nonCompliantFindings := by
  have hsound := sound_parts r htime
  rw [parts_eq] at hsound
  obtain ⟨hbefore, hrest⟩ := List.forall_mem_append.1 hsound
  obtain ⟨hstat, -⟩ := List.forall_mem_append.1 hrest
  have hnotMem := tag_notMem_tokens hbefore (lacks_beforeBox (.inr rfl) r)
  have hbox : after countBox (after dangerBox (tokens (render r stamp).toList)) =
      (toString r.verdict.nonCompliantFindings).toList.map .char ++
        (tokens boxEnd.toList ++ tokens ((afterBox r stamp).flatMap Part.render)) := by
    rw [toList_render, parts_eq, List.flatMap_append, whole_flatMap_render hbefore,
      after_append hnotMem, List.flatMap_append, whole_flatMap_render hstat, tokens_stat hstat,
      List.append_assoc, after_boxStart, after, if_pos rfl, List.append_assoc]
  have hdigits : Token.tag labelBox ∉
      (toString r.verdict.nonCompliantFindings).toList.map Token.char := by simp
  obtain ⟨t, us, hlabel⟩ := exists_after_boxEnd (tokens ((afterBox r stamp).flatMap Part.render))
  obtain ⟨u, ts, hend⟩ := exists_tokens_boxEnd
  rw [shownCount, hbox, after_append hdigits, hlabel, leading_append, if_pos rfl, hend,
    List.cons_append, leading_append, String.ofList_toList, Nat.toString_eq_repr, Nat.toNat?_repr]

/-! ### Marked rows -/

/-- A row is marked if and only if its finding is not compliant. -/
theorem tagCount_row (f : Finding) :
    tagCount markedRow (row f) = if f.isNonCompliant then 1 else 0 := by
  have hcells : ∀ p ∈ (row f).tail, p.Lacks markedRow := by
    have hcell : Part.Lacks markedRow (.markup "  <td>") := lacks_ofList rfl
    have hcellEnd : Part.Lacks markedRow (.markup "</td>\n") := lacks_ofList rfl
    have hcode : Part.Lacks markedRow (.markup "  <td><code>") := lacks_ofList rfl
    have hcodeEnd : Part.Lacks markedRow (.markup "</code></td>\n") := lacks_ofList rfl
    have hend : Part.Lacks markedRow (.markup "</td>\n</tr>\n") := lacks_ofList rfl
    have hnil := List.forall_mem_nil (Part.Lacks markedRow)
    have htrace : ∀ p ∈ trace f, p.Lacks markedRow := by
      rw [trace]
      split
      · exact List.forall_mem_nil _
      · exact forall_mem_enclosed.2 ⟨lacks_ofList rfl, trivial, lacks_ofList rfl⟩
    simp only [row, List.cons_append, List.nil_append, List.tail_cons, List.forall_mem_append,
      forall_mem_enclosed, List.forall_mem_cons]
    exact ⟨⟨⟨⟨⟨⟨⟨⟨⟨⟨hcell, trivial, hcellEnd⟩, hcode, trivial, hcodeEnd⟩, hcode, trivial, hcodeEnd⟩,
      hcell, trivial, hcellEnd⟩, hcell, trivial, hnil⟩, htrace⟩, hcellEnd, hnil⟩,
      hcell, trivial, hcellEnd⟩, hcell, trivial, hcellEnd⟩, hcell, trivial, hend⟩
  rw [show row f = .markup ("<tr class=\"" ++ rowClass f ++ "\">\n") :: (row f).tail from rfl,
    tagCount_markup_cons _ hcells, rowClass]
  split <;> exact count_tags_ofList_append rfl

/-- As many rows are marked as findings are not compliant. -/
theorem tagCount_rows (fs : List Finding) :
    tagCount markedRow (fs.flatMap row) = fs.countP Finding.isNonCompliant := by
  induction fs with
  | nil => rfl
  | cons f fs ih =>
    rw [List.flatMap_cons, tagCount_append, tagCount_row, ih, List.countP_cons, Nat.add_comm]

/-- In the table as many rows are marked as findings are not compliant. -/
theorem tagCount_content (fs : List Finding) :
    tagCount markedRow (content fs) = fs.countP Finding.isNonCompliant := by
  have hbefore : Part.Lacks markedRow (.markup beforeRows) := by
    refine (Avoids.append (.append (.append ?_ ?_) ?_) ?_).notMem
    all_goals exact avoids_ofList (fun _ => rfl) rfl
  have hend : Part.Lacks markedRow (.markup "\n  </tbody>\n</table>") := lacks_ofList rfl
  rw [content]
  split
  next hempty =>
    rw [List.isEmpty_iff.1 hempty]
    exact tagCount_eq_zero (List.forall_mem_singleton.2 (lacks_ofList rfl))
  next =>
    rw [tagCount_append, tagCount_append, tagCount_rows,
      tagCount_eq_zero (List.forall_mem_singleton.2 hbefore),
      tagCount_eq_zero (List.forall_mem_singleton.2 hend), Nat.zero_add, Nat.add_zero]

/-- The rows of the findings that are non-compliant by themselves are marked. -/
theorem markedRows_render (r : Report) {stamp : Stamp} (htime : Inert stamp.time.toList) :
    markedRows (render r stamp) = r.findings.countP Finding.isNonCompliant := by
  have hstat : ∀ p ∈ stat "stat danger" r.verdict.nonCompliantFindings "Non-compliant",
      p.Lacks markedRow :=
    forall_mem_enclosed.2 ⟨lacks_ofList_append rfl, trivial, lacks_ofList_append rfl⟩
  have hsafe (n : Nat) : ∀ p ∈ stat "stat safe" n "FIPS provider", p.Lacks markedRow :=
    forall_mem_enclosed.2 ⟨lacks_ofList_append rfl, trivial, lacks_ofList_append rfl⟩
  have hunresolved (n : Nat) : ∀ p ∈ stat "stat" n "Unresolved", p.Lacks markedRow :=
    forall_mem_enclosed.2 ⟨lacks_ofList_append rfl, trivial, lacks_ofList_append rfl⟩
  have hend : Part.Lacks markedRow (.markup "  </div>\n\n  ") := lacks_ofList rfl
  have hfooter : ∀ p ∈ footer r stamp, p.Lacks markedRow := by
    simp only [footer, List.forall_mem_append, forall_mem_enclosed]
    refine ⟨⟨⟨⟨?_, trivial, ?_⟩, ?_, trivial, ?_⟩, ?_, trivial, ?_⟩, ?_, trivial, ?_⟩
    all_goals exact lacks_ofList rfl
  have hcount : markedRows (render r stamp) = tagCount markedRow (parts r stamp) := by
    rw [markedRows, toList_render, tags_flatMap_render (sound_parts r htime)]
    rfl
  rw [hcount, parts_eq, afterBox]
  simp only [tagCount_append, tagCount_eq_zero (lacks_beforeBox (.inl rfl) r),
    tagCount_eq_zero hstat, tagCount_eq_zero (hsafe _), tagCount_eq_zero (hunresolved _),
    tagCount_eq_zero (List.forall_mem_singleton.2 hend), tagCount_eq_zero hfooter,
    tagCount_content, Nat.zero_add, Nat.add_zero]

end Page

/-! ## Reports for a terminal -/

namespace Console

/-- The end of the first line of a finding that is labelled as non-compliant. -/
def label : List Char := " (NON-COMPLIANT)\n".toList

/-- The number of findings that a report labels as non-compliant. -/
def labelled (fs : List Finding) : Nat :=
  (sorted fs).countP fun f => label.isSuffixOf (headLine f).toList

/-- The number of non-compliant findings in the last line of a report: what stands there between the
last opening parenthesis and the next blank. -/
def shownCount (report : String) : Option Nat :=
  (String.ofList ((report.toList.reverse.takeWhile (· ≠ '(')).reverse.takeWhile (· ≠ ' '))).toNat?

section
variable {xs as bs cs ds : List Char}

/-- A text of three pieces has an ending if the pieces together have it, whatever is in front. -/
theorem isSuffixOf_ofList (h : ds.isSuffixOf (as ++ bs ++ cs) = true) :
    (String.ofList ds).toList.isSuffixOf
      (xs ++ (String.ofList as).toList ++ (String.ofList bs).toList ++ (String.ofList cs).toList) =
        true := by
  simp only [String.toList_ofList]
  rw [List.isSuffixOf_iff_suffix] at h ⊢
  rw [List.append_assoc, List.append_assoc, ← List.append_assoc as]
  exact h.trans (List.suffix_append ..)

/-- A text of three pieces lacks an ending if the pieces together lack it and are not a part of it,
whatever is in front. -/
theorem not_isSuffixOf_ofList (h : ds.isSuffixOf (as ++ bs ++ cs) = false)
    (h' : (as ++ bs ++ cs).isSuffixOf ds = false) :
    (String.ofList ds).toList.isSuffixOf
      (xs ++ (String.ofList as).toList ++ (String.ofList bs).toList ++ (String.ofList cs).toList) =
        false := by
  simp only [String.toList_ofList]
  rw [← Bool.not_eq_true, List.isSuffixOf_iff_suffix] at h h' ⊢
  rw [List.append_assoc, List.append_assoc, ← List.append_assoc as]
  intro hsuffix
  exact (List.suffix_or_suffix_of_suffix hsuffix (List.suffix_append ..)).elim h h'

end

/-- The findings that are non-compliant by themselves are labelled. -/
theorem isSuffixOf_headLine (f : Finding) :
    label.isSuffixOf (headLine f).toList = f.isNonCompliant := by
  simp only [headLine, String.toList_append, status]
  cases f.isNonCompliant with
  | true => exact isSuffixOf_ofList rfl
  | false =>
    cases f.hasUnresolved with
    | true => exact not_isSuffixOf_ofList rfl rfl
    | false => exact not_isSuffixOf_ofList rfl rfl

theorem labelled_eq (fs : List Finding) : labelled fs = fs.countP Finding.isNonCompliant := by
  rw [labelled, funext isSuffixOf_headLine]
  exact (List.mergeSort_perm ..).countP_eq _

theorem notMem_ofList {c : Char} {cs : List Char} (h : cs.contains c = false) :
    c ∉ (String.ofList cs).toList := by
  rw [String.toList_ofList]
  exact fun hmem => by simp [hmem] at h

/-- The word after the last opening parenthesis. -/
theorem takeWhile_reverse_append {xs ys zs : List Char} (hparen : '(' ∉ ys) (hblank : ' ' ∉ ys)
    (hzs : '(' ∉ zs) :
    ((xs ++ '(' :: (ys ++ ' ' :: zs)).reverse.takeWhile (· ≠ '(')).reverse.takeWhile (· ≠ ' ') =
      ys := by
  have hrest : '(' ∉ ys ++ ' ' :: zs := by simp [hparen, hzs]
  have hsplit : (xs ++ '(' :: (ys ++ ' ' :: zs)).reverse =
      (ys ++ ' ' :: zs).reverse ++ '(' :: xs.reverse := by simp
  have hlast : ((ys ++ ' ' :: zs).reverse ++ '(' :: xs.reverse).takeWhile (· ≠ '(') =
      (ys ++ ' ' :: zs).reverse := by
    rw [List.takeWhile_append_of_pos]
    · simp
    · intro c hc
      have hne : c ≠ '(' := fun heq => hrest (heq ▸ List.mem_reverse.1 hc)
      simpa using hne
  rw [hsplit, hlast, List.reverse_reverse, List.takeWhile_append_of_pos]
  · simp
  · intro c hc
    have hne : c ≠ ' ' := fun heq => hblank (heq ▸ hc)
    simpa using hne

theorem notMem_severity (s : Severity) : '(' ∉ s.name.toList := by
  cases s <;> exact notMem_ofList rfl

/-- The number of the verdict stands after the only parenthesis that is opened in the last line. -/
theorem exists_resultLine (v : PolicyVerdict) : ∃ xs zs, '(' ∉ zs ∧
    (resultLine v).toList =
      xs ++ '(' :: ((toString v.nonCompliantFindings).toList ++ ' ' :: zs) := by
  obtain ⟨highest, hhighest, hline⟩ : ∃ highest : String, '(' ∉ highest.toList ∧ resultLine v =
      "  Result: " ++ (if v.pass then "PASS" else "FAIL") ++ " (" ++
        toString v.nonCompliantFindings ++ " non-compliant, threshold: " ++
        v.failThreshold.name ++ ", highest: " ++ highest ++ ")\n\n" := by
    unfold resultLine
    cases v.highestSeverity with
    | none => exact ⟨"none", notMem_ofList rfl, rfl⟩
    | some s => exact ⟨s.name, notMem_severity s, rfl⟩
  have hopen : " (".toList = [' '] ++ ['('] := String.toList_ofList
  have hword : " non-compliant, threshold: ".toList =
      [' '] ++ "non-compliant, threshold: ".toList :=
    String.toList_ofList.trans (congrArg ([' '] ++ ·) String.toList_ofList.symm)
  have hthreshold : '(' ∉ "non-compliant, threshold: ".toList := notMem_ofList rfl
  have hcomma : '(' ∉ ", highest: ".toList := notMem_ofList rfl
  have hend : '(' ∉ ")\n\n".toList := notMem_ofList rfl
  refine ⟨"  Result: ".toList ++ (if v.pass then "PASS" else "FAIL").toList ++ [' '],
    "non-compliant, threshold: ".toList ++ v.failThreshold.name.toList ++ ", highest: ".toList ++
      highest.toList ++ ")\n\n".toList, ?_, ?_⟩
  · simp only [List.mem_append, not_or]
    exact ⟨⟨⟨⟨hthreshold, notMem_severity _⟩, hcomma⟩, hhighest⟩, hend⟩
  · simp only [hline, String.toList_append, hopen, hword, List.append_assoc, List.cons_append,
      List.nil_append]

/-- The last line of a report shows the number of the verdict. -/
theorem shownCount_render (r : Report) (h : r.findings ≠ []) :
    shownCount (render r) = some r.verdict.nonCompliantFindings := by
  obtain ⟨xs, zs, hzs, hresult⟩ := exists_resultLine r.verdict
  have hempty : r.findings.isEmpty = false := by simpa using h
  have htext : render r = header r.findings.length ++ String.join ((sorted r.findings).map block) ++
      resultLine r.verdict := by
    rw [render, hempty]
    rfl
  rw [shownCount, htext, String.toList_append, hresult, ← List.append_assoc,
    takeWhile_reverse_append (Page.notMem_toString rfl _) (Page.notMem_toString rfl _) hzs,
    String.ofList_toList, Nat.toString_eq_repr, Nat.toNat?_repr]

end Console

/-! ## Marks and numbers -/

/-- The marks of a report agree with the numbers it shows, and a report that fails has some. -/
structure Agree (r : Report) (stamp : Stamp) : Prop where
  rows : Page.shownCount (Page.render r stamp) = some (Page.markedRows (Page.render r stamp))
  labels : r.findings ≠ [] →
    Console.shownCount (Console.render r) = some (Console.labelled r.findings)
  failed : r.verdict.pass = false →
    0 < Page.markedRows (Page.render r stamp) ∧ 0 < Console.labelled r.findings

/-- A report shows the number of what it marks and of the findings that are violations only since
something in them is unresolved, and its marks agree if there are no such findings. -/
structure NumbersShown (p : Policy) (r : Report) (stamp : Stamp) : Prop where
  rows : Page.shownCount (Page.render r stamp) =
    some (Page.markedRows (Page.render r stamp) + r.findings.countP p.countsUnresolved)
  labels : r.findings ≠ [] → Console.shownCount (Console.render r) =
    some (Console.labelled r.findings + r.findings.countP p.countsUnresolved)
  failed : r.verdict.pass = false →
    0 < Page.markedRows (Page.render r stamp) + r.findings.countP p.countsUnresolved ∧
      0 < Console.labelled r.findings + r.findings.countP p.countsUnresolved
  agree : Agree r stamp ↔ p.failOnUnresolved = false ∨
    ∀ f ∈ r.findings, f.hasUnresolved = true → f.isNonCompliant = true

section
variable (p : Policy) (fs : List Finding) (target fingerprint : String)

/-- The report on findings under a policy. -/
def under : Report := ⟨target, p.apply fs, p.evaluate fs, fingerprint⟩

/-- The number that a page shows is that of its marked rows and of the findings that count for being
unresolved. -/
theorem shownCount_page {stamp : Stamp} (htime : Page.Inert stamp.time.toList) :
    Page.shownCount (Page.render (under p fs target fingerprint) stamp) =
      some (Page.markedRows (Page.render (under p fs target fingerprint) stamp) +
        (p.apply fs).countP p.countsUnresolved) := by
  rw [Page.shownCount_render _ htime, Page.markedRows_render _ htime]
  exact congrArg some (p.nonCompliantFindings_evaluate fs)

/-- The number that a console report shows is that of its labelled findings and of those that count
for being unresolved. -/
theorem shownCount_console (hne : p.apply fs ≠ []) :
    Console.shownCount (Console.render (under p fs target fingerprint)) =
      some (Console.labelled (p.apply fs) + (p.apply fs).countP p.countsUnresolved) := by
  rw [Console.shownCount_render _ hne, Console.labelled_eq]
  exact congrArg some (p.nonCompliantFindings_evaluate fs)

/-- If a verdict fails, some finding is marked or counts for being unresolved, in both reports. -/
theorem marks_pos {stamp : Stamp} (htime : Page.Inert stamp.time.toList)
    (hfailed : (p.evaluate fs).pass = false) :
    0 < Page.markedRows (Page.render (under p fs target fingerprint) stamp) +
        (p.apply fs).countP p.countsUnresolved ∧
      0 < Console.labelled (p.apply fs) + (p.apply fs).countP p.countsUnresolved := by
  have hpos := p.nonCompliantFindings_pos fs hfailed
  rw [p.nonCompliantFindings_evaluate] at hpos
  rw [Page.markedRows_render _ htime, Console.labelled_eq]
  exact ⟨hpos, hpos⟩

/-- The marks agree if no finding counts only since it is unresolved. -/
theorem agree_iff {stamp : Stamp} (htime : Page.Inert stamp.time.toList) :
    Agree (under p fs target fingerprint) stamp ↔ (p.apply fs).countP p.countsUnresolved = 0 := by
  have hrows := shownCount_page p fs target fingerprint htime
  constructor
  · intro hagree
    exact Nat.add_eq_left.1 (Option.some.inj (hrows.symm.trans hagree.rows))
  · intro hzero
    have hadd (n : Nat) : n + (p.apply fs).countP p.countsUnresolved = n := Nat.add_eq_left.2 hzero
    refine ⟨hrows.trans (congrArg some (hadd _)), fun hne => ?_, fun hfailed => ?_⟩
    · exact (shownCount_console p fs target fingerprint hne).trans (congrArg some (hadd _))
    · obtain ⟨hmarked, hlabelled⟩ := marks_pos p fs target fingerprint htime hfailed
      exact ⟨hmarked.trans_eq (hadd _), hlabelled.trans_eq (hadd _)⟩

/-- Reports show the number of the findings that they mark, together with that of the findings that
are violations only since something in them is unresolved. -/
theorem numbers_shown (guid : String) (seconds nanoseconds : Nat) :
    NumbersShown p (under p fs target fingerprint) ⟨Moment.text seconds nanoseconds, guid⟩ := by
  have htime := Page.inert_moment seconds nanoseconds
  generalize Moment.text seconds nanoseconds = time at htime ⊢
  refine ⟨shownCount_page p fs target fingerprint htime, shownCount_console p fs target fingerprint,
    marks_pos p fs target fingerprint htime, ?_⟩
  exact (agree_iff p fs target fingerprint htime).trans (p.countsUnresolved_eq_zero_iff _)

end

/-- A policy that fails on what is unresolved. -/
def strictPolicy : Policy := { Policy.standard with failOnUnresolved := true }

/-- A finding that is in order but for its provider, which is not known. -/
def unresolvedFinding : Finding where
  ruleId := "R1"
  category := "cipher"
  api := "javax.crypto.Cipher.getInstance"
  severity := .high
  description := ""
  className := "app.Main"
  methodSignature := "void main()"
  algorithm := "AES"
  provenance := .directConstant
  trace := []
  flagged := false
  location := none
  provider := ""
  verdict := .unresolved

/-- A report that fails on what is unresolved counts a finding that it does not mark. -/
theorem not_agree_unresolved :
    let r := under strictPolicy [unresolvedFinding] "app" ""
    let stamp : Stamp := ⟨Moment.text 0 0, ""⟩
    r.verdict.pass = false ∧ Page.markedRows (Page.render r stamp) = 0 ∧
      Console.labelled r.findings = 0 ∧ Page.shownCount (Page.render r stamp) = some 1 ∧
      ¬ Agree r stamp := by
  intro r stamp
  have htime : Page.Inert stamp.time.toList := Page.inert_moment 0 0
  have hkept : strictPolicy.ignores unresolvedFinding = false := by
    simp [strictPolicy, Policy.standard, Policy.ignores]
  have hseverity : strictPolicy.severityOf unresolvedFinding = .high := by
    simp [strictPolicy, Policy.standard, Policy.severityOf, unresolvedFinding]
  have hfilter : [unresolvedFinding].filter (!strictPolicy.ignores ·) = [unresolvedFinding] :=
    List.filter_cons_of_pos (by rw [hkept]; rfl)
  have hfindings : r.findings = [unresolvedFinding] := by
    change ([unresolvedFinding].filter _).map _ = _
    rw [hfilter, List.map_singleton, hseverity]
    rfl
  have hverdict : r.verdict = ⟨false, 1, 1, 1, some .high, .high⟩ := by
    change strictPolicy.evaluate [unresolvedFinding] = _
    have hviolation : [unresolvedFinding].filter strictPolicy.isViolation =
        [unresolvedFinding] := rfl
    rw [Policy.evaluate, hfilter, hviolation, List.map_singleton, hseverity]
    rfl
  refine ⟨by rw [hverdict], ?_, ?_, ?_, ?_⟩
  · rw [Page.markedRows_render r htime, hfindings]
    rfl
  · rw [Console.labelled_eq, hfindings]
    rfl
  · rw [Page.shownCount_render r htime, hverdict]
  · intro hagree
    have hcount := (agree_iff _ _ _ _ htime).1 hagree
    rw [show strictPolicy.apply [unresolvedFinding] = [unresolvedFinding] from hfindings] at hcount
    cases hcount

end Report

end CryptoAudit
