import Mathlib.Data.String.Basic

/-!
# The bytes of a text

A text is determined by its bytes (`toUTF8_toList_inj`), and its order among texts by theirs: texts
are in the order of their characters just if they are in the order of their bytes
(`Text.byteLt_iff`). Of two characters, the bytes of the smaller one come first whatever follows
them (`utf8EncodeChar_append_lt`), since a longer code begins with a larger byte.
-/

namespace CryptoAudit

/-- The loop that lists bytes puts those that are left after those that it has. -/
theorem toByteList_loop (bs : ByteArray) (i : Nat) (r : List UInt8) :
    ByteArray.toList.loop bs i r = r.reverse ++ bs.data.toList.drop i := by
  fun_induction ByteArray.toList.loop bs i r with
  | case1 i r hlt ih =>
    have hdrop : bs.data.toList.drop i = bs.get! i :: bs.data.toList.drop (i + 1) := by
      rw [List.drop_eq_getElem_cons hlt]
      simp [ByteArray.get!, hlt]
    rw [ih, hdrop, List.reverse_cons, List.append_assoc, List.singleton_append]
  | case2 i r hge =>
    rw [List.drop_eq_nil_of_le (Nat.le_of_not_lt hge), List.append_nil]

theorem toByteList_eq (bs : ByteArray) : bs.toList = bs.data.toList := by
  rw [ByteArray.toList, toByteList_loop]
  rfl

/-- A text is determined by its bytes. -/
theorem toUTF8_toList_inj {s t : String} : s.toUTF8.toList = t.toUTF8.toList ↔ s = t := by
  refine ⟨fun h => ?_, fun h => h ▸ rfl⟩
  rw [toByteList_eq, toByteList_eq] at h
  exact String.toByteArray_inj.1 (ByteArray.ext (Array.toList_inj.1 h))

theorem toUTF8_toList (s : String) : s.toUTF8.toList = s.toList.flatMap String.utf8EncodeChar := by
  rw [toByteList_eq]
  conv_lhs => rw [← String.ofList_toList (s := s)]
  exact List.toList_data_toByteArray

/-! ## Order -/

/-- The first text comes before the second in the order of their bytes. -/
def Text.ByteLt (s t : String) : Prop := s.toUTF8.toList < t.toUTF8.toList

theorem val_toNat_lt (c : Char) : c.val.toNat < 0x110000 := by
  have hvalid := c.valid
  simp only [UInt32.isValidChar, Nat.isValidChar] at hvalid
  omega

/-- A smaller character has a smaller encoding, whatever follows. -/
theorem utf8EncodeChar_append_lt {c d : Char} (h : c < d) (xs ys : List UInt8) :
    String.utf8EncodeChar c ++ xs < String.utf8EncodeChar d ++ ys := by
  have hlt : c.val.toNat < d.val.toNat := h
  have hbound := val_toNat_lt d
  unfold String.utf8EncodeChar
  generalize c.val.toNat = m at hlt ⊢
  generalize d.val.toNat = n at hlt hbound ⊢
  -- The bytes are the digits in base 64, so each is compared after those before it are equal.
  have hsecond : ∀ k, k / 4096 = k / 64 / 64 := by omega
  have hthird : ∀ k, k / 262144 = k / 64 / 64 / 64 := by omega
  simp only [hsecond, hthird]
  split_ifs <;>
    simp only [List.cons_append, List.cons_lt_cons_iff, UInt8.lt_iff_toNat_lt, ← UInt8.toNat_inj,
      UInt8.toNat_ofNat'] <;>
    omega

/-- A smaller text has a smaller encoding. -/
theorem flatMap_utf8EncodeChar_lt {cs ds : List Char} (h : cs < ds) :
    cs.flatMap String.utf8EncodeChar < ds.flatMap String.utf8EncodeChar := by
  induction h with
  | @nil d ds =>
    have hne : String.utf8EncodeChar d ≠ [] := String.utf8EncodeChar_ne_nil
    obtain ⟨byte, rest, hbytes⟩ := List.exists_cons_of_ne_nil hne
    rw [List.flatMap_nil, List.flatMap_cons, hbytes]
    exact .nil
  | rel hlt =>
    rw [List.flatMap_cons, List.flatMap_cons]
    exact utf8EncodeChar_append_lt hlt _ _
  | cons _ ih =>
    rw [List.flatMap_cons, List.flatMap_cons]
    exact List.append_left_lt ih

namespace Text

theorem byteLt_of_lt {s t : String} (h : s < t) : ByteLt s t := by
  rw [ByteLt, toUTF8_toList, toUTF8_toList]
  exact flatMap_utf8EncodeChar_lt (String.lt_iff_toList_lt.1 h)

/-- The order of texts is that of their bytes. -/
theorem byteLt_iff {s t : String} : ByteLt s t ↔ s < t := by
  refine ⟨fun h => ?_, byteLt_of_lt⟩
  rcases lt_trichotomy s t with hlt | rfl | hgt
  · exact hlt
  · exact absurd h (List.lt_irrefl _)
  · exact absurd h (List.lt_asymm (byteLt_of_lt hgt))

end Text

end CryptoAudit
