import CryptoAudit.Audit
import CryptoAudit.Finding.Basic
import CryptoAudit.Proofs.Program.Encoding
import CryptoAudit.Proofs.Text.Bytes

/-!
# The fingerprinted text determines the findings

The fingerprint of a report digests the bytes of `Finding.encodeAll`. Different lists of findings
have different bytes, because `toJson` is injective and a plain JSON value is read back from its
text. Read as a list of findings, the text gives the findings again if their line numbers have 32
bits, which is as many as a reader accepts.
-/

namespace CryptoAudit

open Document Json

/-! ## Names of alternatives -/

theorem Severity.ofName?_name (s : Severity) : ofName? s.name = some s := by
  cases s <;> rfl

theorem Severity.reads_read? (s : Severity) : Reads read? (.text s.name) s :=
  reads_name s.ofName?_name

theorem Provenance.ofName?_name (p : Provenance) : ofName? p.name = some p := by
  cases p <;> rfl

theorem ProviderVerdict.ofName?_name (v : ProviderVerdict) : ofName? v.name = some v := by
  cases v <;> rfl

theorem name_inj {α : Type} {name : α → String} {ofName? : String → Option α}
    (h : ∀ a, ofName? (name a) = some a) {a b : α} (hname : name a = name b) : a = b :=
  Option.some.inj ((h a).symm.trans (hname ▸ h b))

/-! ## Findings -/

/-- Different locations are written differently. -/
theorem SourceLocation.toJson_inj {l k : SourceLocation} (h : l.toJson = k.toJson) : l = k := by
  obtain ⟨file, line⟩ := l
  obtain ⟨file', line'⟩ := k
  simp only [toJson, Json.object.injEq, List.cons.injEq, Prod.mk.injEq] at h
  obtain ⟨⟨-, hfile⟩, ⟨-, hline⟩, -⟩ := h
  rw [ofText?_eq_orNull, ofText?_eq_orNull] at hfile
  obtain rfl := orNull_inj nofun (fun _ _ => Json.text.inj) hfile
  obtain rfl := Int.ofNat.inj (Json.int.inj hline)
  rfl

namespace Finding

/-- An empty trace is left out, and still different traces are written differently. -/
theorem trace_inj {t u : List String}
    (h : (if t.isEmpty then [] else [("algorithm_trace", Json.texts t)]) =
      if u.isEmpty then [] else [("algorithm_trace", Json.texts u)]) : t = u := by
  have htexts : Function.Injective (List.map Json.text) :=
    List.map_injective_iff.2 fun _ _ => Json.text.inj
  cases t with
  | nil =>
    cases u with
    | nil => rfl
    | cons => cases h
  | cons =>
    cases u with
    | nil => cases h
    | cons => exact htexts (by simpa [Json.texts] using h)

theorem location_eq_orNull (l : Option SourceLocation) :
    (match l with | some l => l.toJson | none => .null) = orNull SourceLocation.toJson l := by
  cases l <;> rfl

/-- The line number of the location has 32 bits. -/
def InRange (f : Finding) : Prop :=
  ∀ l, f.location = some l → l.line < 0x100000000

/-- What is written for a finding is plain, so that it can be read back. -/
theorem plain_toJson (f : Finding) : f.toJson.Plain := by
  have hlocation : Plain (match f.location with | some l => l.toJson | none => .null) := by
    rw [location_eq_orNull]
    exact plain_orNull SourceLocation.plain_toJson _
  refine .object ?_
  simp only [List.forall_mem_append, List.forall_mem_cons]
  refine ⟨⟨⟨.text _, .text _, .text _, .text _, .text _, .text _, .text _, .text _, .text _, nofun⟩,
    ?_⟩, .bool _, hlocation, .text _, .text _, nofun⟩
  split
  · exact nofun
  · exact List.forall_mem_singleton.2 (plain_texts _)

/-- Different findings are written differently. -/
theorem toJson_inj {f g : Finding} (h : f.toJson = g.toJson) : f = g := by
  -- The members before the trace and after it are as many in both, so the lists split there.
  obtain ⟨hbefore, hafter⟩ := List.append_inj' (Json.object.inj h) rfl
  obtain ⟨hbefore, htrace⟩ := List.append_inj hbefore rfl
  simp only [List.cons.injEq, Prod.mk.injEq, Json.text.injEq, Json.bool.injEq, true_and, and_true]
    at hbefore hafter
  obtain ⟨hrule, hcategory, hapi, hseverity, hdescription, hclass, hsignature, halgorithm,
    hprovenance⟩ := hbefore
  obtain ⟨hflagged, hlocation, hprovider, hverdict⟩ := hafter
  have hseverity := name_inj Severity.ofName?_name hseverity
  have hprovenance := name_inj Provenance.ofName?_name hprovenance
  have hverdict := name_inj ProviderVerdict.ofName?_name hverdict
  have htrace : f.trace = g.trace := trace_inj htrace
  have hlocation : f.location = g.location := by
    refine orNull_inj nofun (fun _ _ => SourceLocation.toJson_inj) ?_
    rw [← location_eq_orNull, ← location_eq_orNull]
    exact hlocation
  cases f
  cases g
  congr

/-- A finding is read back from what is written for it, if its line is in range. -/
theorem reads_ofJson? {f : Finding} (h : f.InRange) : Reads ofJson? f.toJson f := by
  refine ⟨nofun, fun w hw => ?_⟩
  obtain ⟨ns, hrecord, hfound, hmissing⟩ := hw.record? (by split <;> simp)
  -- An empty trace is the only fact that is left out and not null.
  have htrace : orElse [] (list? text?) (ns.lookup "algorithm_trace") = some f.trace := by
    cases htrace : f.trace with
    | nil =>
      rw [hmissing _ (by simp [htrace])]
      rfl
    | cons t ts =>
      have hmem := hfound ("algorithm_trace", .texts (t :: ts)) (by simp [htrace])
      exact hmem.orElse (reads_texts _) []
  simp only [List.forall_mem_append, List.forall_mem_cons] at hfound
  obtain ⟨⟨⟨hrule, hcategory, hapi, hseverity, hdescription, hclass, hsignature, halgorithm,
    hprovenance, -⟩, -⟩, hflagged, hlocation, hprovider, hverdict, -⟩ := hfound
  have hlocation : Found (orNull SourceLocation.toJson f.location) (ns.lookup "location") := by
    rw [← location_eq_orNull]
    exact hlocation
  rw [ofJson?, hrecord _ (by simp [Field.fixed, Field.loose])]
  simp only [List.map_cons, List.map_nil, Field.fixed, Field.loose,
    hrule.required (reads_text _), hcategory.required (reads_text _), hapi.required (reads_text _),
    hseverity.required (Severity.reads_read? _),
    hdescription.required (reads_text _), hclass.required (reads_text _),
    hsignature.required (reads_text _), halgorithm.required (reads_text _),
    hprovenance.required (reads_name (Provenance.ofName?_name _)), htrace,
    hflagged.required (reads_bool _),
    hlocation.optional fun l hl => SourceLocation.reads_ofJson? (h l hl),
    hprovider.required (reads_text _),
    hverdict.required (reads_name (ProviderVerdict.ofName?_name _))]
  rfl

/-! ## Lists of findings -/

/-- The bytes whose digest is the fingerprint of a report. -/
def fingerprinted (fs : List Finding) : List UInt8 := (encodeAll fs).toUTF8.toList

/-- Reads a list of findings from its text. -/
def decodeAll? (text : String) : Option (List Finding) :=
  (Json.parse? text).bind (list? ofJson?)

theorem plain_findings (fs : List Finding) : Plain (.list (fs.map toJson)) :=
  plain_list plain_toJson fs

/-- The texts of two lists of findings are equal if and only if the lists are. -/
theorem encodeAll_inj {fs gs : List Finding} : encodeAll fs = encodeAll gs ↔ fs = gs := by
  refine ⟨fun h => ?_, fun h => h ▸ rfl⟩
  have hparse : some (Json.list (fs.map toJson)) = some (.list (gs.map toJson)) := by
    rw [← (plain_findings fs).parse?_toCompact, ← (plain_findings gs).parse?_toCompact]
    exact congrArg Json.parse? h
  have hmap : fs.map toJson = gs.map toJson := Json.list.inj (Option.some.inj hparse)
  exact List.map_injective_iff.2 (fun _ _ => toJson_inj) hmap

/-- A list of findings is read back from its text. -/
theorem decodeAll?_encodeAll {fs : List Finding} (h : ∀ f ∈ fs, f.InRange) :
    decodeAll? (encodeAll fs) = some fs := by
  have hplain := plain_findings fs
  have hread : Reads (list? ofJson?) (.list (fs.map toJson)) fs :=
    .list fun f hf => reads_ofJson? (h f hf)
  rw [decodeAll?, encodeAll, hplain.parse?_toCompact]
  exact hread.read_eq _ hplain.omits_refl

/-- A fingerprint is the digest of bytes that determine the findings: other findings have other
bytes, and the findings are read back from the encoding. -/
theorem fingerprinted_lossless :
    (∀ fs, Audit.fingerprint fs =
      String.ofList ((Sha256.digest (fingerprinted fs)).words.flatMap Sha256.hexWord)) ∧
    (∀ fs gs, fingerprinted fs = fingerprinted gs ↔ fs = gs) ∧
    (∀ fs gs, encodeAll fs = encodeAll gs ↔ fs = gs) ∧
    ∀ fs : List Finding, (∀ f ∈ fs, f.InRange) → decodeAll? (encodeAll fs) = some fs := by
  refine ⟨fun _ => rfl, fun fs gs => ?_, fun _ _ => encodeAll_inj, fun _ => decodeAll?_encodeAll⟩
  rw [fingerprinted, fingerprinted, toUTF8_toList_inj, encodeAll_inj]

/-- A finding with this trace and location. -/
def traced (trace : List String) (location : Option SourceLocation) : Finding where
  ruleId := "R\"1\\"
  category := "weak_hash"
  api := "java.security.MessageDigest.getInstance"
  severity := .high
  description := "\x01\t😀"
  className := "a.Ω"
  methodSignature := "m()"
  algorithm := "MD5"
  provenance := .tracedRecursively
  trace := trace
  flagged := true
  location := location
  provider := "none"
  verdict := .notApplicable

/-- A trace of one name that looks like two has other bytes than a trace of two names, and both are
read back. -/
theorem fingerprinted_lossless_traced :
    fingerprinted [traced ["a\",\"b"] none] ≠ fingerprinted [traced ["a", "b"] none] ∧
    decodeAll? (encodeAll
        [traced ["a\",\"b"] none, traced [] (some ⟨some "é/\\.java", 4294967295⟩)]) =
      some [traced ["a\",\"b"] none, traced [] (some ⟨some "é/\\.java", 4294967295⟩)] := by
  obtain ⟨-, hbytes, -, hread⟩ := fingerprinted_lossless
  refine ⟨fun h => ?_, hread _ ?_⟩
  · exact absurd ((hbytes _ _).1 h) (by decide)
  · simp [InRange, traced]

end Finding

end CryptoAudit
