import CppDeps.Text
import Mathlib.Tactic

/-!
# Texts in the order of their bytes

Texts are compared character by character.  In UTF-8 this is the order of their bytes as well: the
encodings of two different characters first differ at a byte that both of them have, and the lesser
character has the lesser byte there (`Text.utf8EncodeChar_append_lt`).  What follows the two characters
plays no part, so a list of texts that ascends also ascends in its bytes (`Text.bytes_lt_bytes`).

A character of ASCII is a byte of its own, which occurs in the encoding of no other character.  So it can
be looked for among the bytes of a text (`Text.mem_bytes_iff`).
-/

namespace CppDeps

namespace Text

/-- The bytes of a text are those of its characters, one after the other. -/
lemma bytes_eq_flatMap (s : String) : bytes s = s.toList.flatMap String.utf8EncodeChar := by
  have hchars : s.toUTF8 = s.toList.utf8Encode := by
    rw [String.toUTF8_eq_toByteArray, ← String.toByteArray_ofList, String.ofList_toList]
  rw [bytes, hchars, List.utf8Encode, List.toList_data_toByteArray]

/-! ## Characters -/

/-- A character has a number below 17 · 2^16. -/
lemma toNat_val_lt (c : Char) : c.val.toNat < 1114112 := by
  rcases c.valid with h | ⟨-, h⟩
  · have hval : c.val.toNat < 55296 := h
    omega
  · exact h

/-- The byte of an ASCII character occurs in the encoding of no other character. -/
lemma mem_utf8EncodeChar_iff {c : Char} (hc : c.val.toNat < 128) (d : Char) :
    c.toUInt8 ∈ String.utf8EncodeChar d ↔ d = c := by
  have hbyte : c.toUInt8.toNat = c.val.toNat := by
    rw [Char.toUInt8, UInt32.toNat_toUInt8]
    omega
  have hd : d.val.toNat < 1114112 := toNat_val_lt d
  have hchar : d = c ↔ d.val.toNat = c.val.toNat := by
    rw [Char.ext_iff, UInt32.toNat_inj]
  rw [hchar]
  -- all bytes of a longer encoding are 128 or more
  unfold String.utf8EncodeChar
  dsimp only
  split_ifs <;>
    simp only [List.mem_cons, List.not_mem_nil, or_false, ← UInt8.toNat_inj, hbyte,
      UInt8.toNat_ofNat'] <;>
    omega

/-- The first bytes decide, unless they are the same. -/
lemma cons_lt_cons_of_le {m n : Nat} (hn : n < 256) (hle : m ≤ n) {rest rest' : List UInt8}
    (heq : m = n → rest < rest') : UInt8.ofNat m :: rest < UInt8.ofNat n :: rest' := by
  rw [List.cons_lt_cons_iff]
  rcases Nat.lt_or_eq_of_le hle with hlt | rfl
  · refine Or.inl ?_
    rw [UInt8.lt_iff_toNat_lt, UInt8.toNat_ofNat_of_lt' (hlt.trans hn), UInt8.toNat_ofNat_of_lt' hn]
    exact hlt
  · exact Or.inr ⟨rfl, heq rfl⟩

/-- The lesser of two characters has the lesser encoding, whatever follows the two. -/
lemma utf8EncodeChar_append_lt {c d : Char} (h : c < d) (rest rest' : List UInt8) :
    String.utf8EncodeChar c ++ rest < String.utf8EncodeChar d ++ rest' := by
  have hlt : c.val.toNat < d.val.toNat := h
  have hd : d.val.toNat < 1114112 := toNat_val_lt d
  -- the encodings have one to four bytes each; the numbers differ, so some byte does
  unfold String.utf8EncodeChar
  dsimp only
  split_ifs
  all_goals
    simp only [List.cons_append, List.nil_append]
    repeat refine cons_lt_cons_of_le (by omega) (by omega) fun hbyte => ?_
    exfalso
    omega

/-! ## Texts -/

/-- A text has an ASCII character just if it has its byte. -/
lemma mem_bytes_iff {c : Char} (hc : c.val.toNat < 128) (s : String) :
    c.toUInt8 ∈ bytes s ↔ c ∈ s.toList := by
  rw [bytes_eq_flatMap, List.mem_flatMap]
  simp only [mem_utf8EncodeChar_iff hc, exists_eq_right]

/-- The lesser of two lists of characters has the lesser bytes. -/
lemma flatMap_utf8EncodeChar_lt {chars chars' : List Char} (h : chars < chars') :
    chars.flatMap String.utf8EncodeChar < chars'.flatMap String.utf8EncodeChar := by
  induction h with
  | nil =>
    rename_i c chars'
    obtain ⟨byte, rest, hc⟩ := List.exists_cons_of_ne_nil (String.utf8EncodeChar_ne_nil (c := c))
    rw [List.flatMap_cons, hc]
    exact List.nil_lt_cons _ _
  | rel hlt =>
    rw [List.flatMap_cons, List.flatMap_cons]
    exact utf8EncodeChar_append_lt hlt _ _
  | cons _ ih =>
    rw [List.flatMap_cons, List.flatMap_cons]
    exact List.append_left_lt ih

/-- **The lesser of two texts has the lesser bytes.** -/
theorem bytes_lt_bytes {s t : String} (h : s < t) : bytes s < bytes t := by
  rw [bytes_eq_flatMap, bytes_eq_flatMap]
  exact flatMap_utf8EncodeChar_lt h

end Text

end CppDeps
