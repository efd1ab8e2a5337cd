import CppDeps.OsText
import CppDeps.Proofs.ByteOrder
import Mathlib.Data.List.TakeWhile
import Mathlib.Data.List.Basic
import Mathlib.Tactic

/-!
# Bytes and texts

The bytes of a text are read back as that text (`OsText.lossy_bytes`), and bytes that are read as a text
are those of it (`OsText.toText?_eq_some_iff`).  Bytes of no text are read as far as they go: a byte of
ASCII is always a character of its own, whatever stands before it, so the characters before and after it
can be read apart (`OsText.lossy_append_cons`).  Hence the extension of a name is that of the name as it
is shown.

Different names may be shown alike, since every broken character is shown as the same replacement.
-/

namespace CppDeps

namespace OsText

variable {s s' : OsText} {t : String} {state : Option OpenChar} {begun : OpenChar} {byte : UInt8}

/-! ## Texts -/

/-- The bytes that are read as a text are those of the text. -/
lemma toText?_eq_some_iff : toText? s = some t ↔ s = Text.bytes t := by
  unfold toText? String.fromUTF8?
  constructor
  · intro h
    split at h
    · rw [← Option.some.inj h]
      rfl
    · exact absurd h (by simp)
  · rintro rfl
    have hbytes : (⟨(Text.bytes t).toArray⟩ : ByteArray) = t.toByteArray := rfl
    have hvalid : (⟨(Text.bytes t).toArray⟩ : ByteArray).IsValidUTF8 := t.isValidUTF8
    rw [dif_pos hvalid]
    rfl

/-- The bytes of a text are read as the text. -/
@[simp]
lemma toText?_bytes (t : String) : toText? (Text.bytes t) = some t :=
  toText?_eq_some_iff.2 rfl

/-- The bytes of two texts in a row are those of the two. -/
lemma bytes_append (t t' : String) : Text.bytes (t ++ t') = Text.bytes t ++ Text.bytes t' := by
  rw [Text.bytes_eq_flatMap, Text.bytes_eq_flatMap, Text.bytes_eq_flatMap, String.toList_append,
    List.flatMap_append]

/-- The bytes of texts with slashes between them. -/
lemma bytes_intercalate (texts : List String) :
    Text.bytes ("/".intercalate texts) = [slash].intercalate (texts.map Text.bytes) := by
  have hslash : Text.bytes "/" = [slash] := by decide +kernel
  induction texts with
  | nil => decide +kernel
  | cons first texts ih =>
    by_cases hrest : texts = []
    · rw [hrest, String.intercalate_singleton, List.map_singleton, List.intercalate_singleton]
    · rw [String.intercalate_cons_of_ne_nil hrest, bytes_append, bytes_append, hslash, ih,
        List.map_cons, List.intercalate_cons_of_ne_nil (by simpa using hrest)]

/-! ## Characters -/

/-- No byte of ASCII begins a character of several bytes. -/
lemma openChar?_eq_none (h : byte.toNat < 0xc2) : openChar? byte = none := by
  unfold openChar?
  dsimp only
  repeat rw [if_neg (by omega)]

/-- What begins a character of several bytes is open after its first byte. -/
lemma start_of_openChar? (h : openChar? byte = some begun) : start byte = ([], some begun) := by
  have hbyte : ¬ byte.toNat < 0x80 := by
    intro hlt
    rw [openChar?_eq_none (by omega)] at h
    exact absurd h (by simp)
  rw [start, if_neg hbyte, h]

/-- After the first byte of a character the rest of it is read. -/
lemma decode_of_openChar? (h : openChar? byte = some begun) (s : OsText) :
    decode none (byte :: s) = decode (some begun) s := by
  rw [decode, next, start_of_openChar? h]
  rfl

/-- A byte with which nothing is complete leaves something open. -/
lemma next_snd_ne_none (h : (next state byte).1 = []) : (next state byte).2 ≠ none := by
  have hstart : (start byte).1 = [] → (start byte).2 ≠ none := by
    unfold start
    split_ifs
    · simp
    · split <;> simp
  cases state with
  | none => exact hstart h
  | some begun =>
    rw [next] at h ⊢
    split_ifs at h ⊢
    dsimp only at h ⊢
    split at h
    · exact absurd h (by simp)
    · simp

/-- A byte of ASCII is a character, and breaks off what is open before it. -/
lemma next_of_ascii (h : byte.toNat < 0x80) :
    next state byte = ((state.toList.map fun _ => none) ++ [some (Char.ofNat byte.toNat)], none) := by
  cases state with
  | none => rw [next, start, if_pos h]; rfl
  | some begun =>
    have hleast : (0x80 : UInt8).toNat ≤ begun.least.toNat := UInt8.le_iff_toNat_le.1 begun.le_least
    have hnot : ¬ (begun.least ≤ byte ∧ byte ≤ begun.greatest) := by
      rintro ⟨hle, -⟩
      have hle' := UInt8.le_iff_toNat_le.1 hle
      have h128 : (0x80 : UInt8).toNat = 128 := rfl
      omega
    rw [next, if_neg hnot, start, if_pos h]
    rfl

/-- **The characters before and after a byte of ASCII** are read apart. -/
lemma decode_append_cons (h : byte.toNat < 0x80) (state : Option OpenChar) (s s' : OsText) :
    decode state (s ++ byte :: s') =
      decode state s ++ some (Char.ofNat byte.toNat) :: decode none s' := by
  induction s generalizing state with
  | nil =>
    simp only [List.nil_append, decode, next_of_ascii h, List.append_assoc, List.cons_append]
  | cons first s ih => rw [List.cons_append, decode, decode, ih, List.append_assoc]

/-- The number of a byte that goes on with a character. -/
lemma toNat_ofNat_add {m : Nat} (hm : m < 64) : (UInt8.ofNat (m + 128)).toNat = m + 128 := by
  rw [UInt8.toNat_ofNat']
  omega

/-- A byte goes on with what is open if it is between the bounds. -/
lemma between_ofNat_add {m : Nat} (hm : m < 64) (hleast : begun.least.toNat ≤ m + 128)
    (hgreatest : m + 128 ≤ begun.greatest.toNat) :
    begun.least ≤ UInt8.ofNat (m + 128) ∧ UInt8.ofNat (m + 128) ≤ begun.greatest := by
  rw [UInt8.le_iff_toNat_le, UInt8.le_iff_toNat_le, toNat_ofNat_add hm]
  exact ⟨hleast, hgreatest⟩

/-- The last byte of a character completes it. -/
lemma decode_last {m : Nat} (hm : m < 64) (hlater : begun.later = 0)
    (hleast : begun.least.toNat ≤ m + 128) (hgreatest : m + 128 ≤ begun.greatest.toNat) (s : OsText) :
    decode (some begun) (UInt8.ofNat (m + 128) :: s) =
      some (Char.ofNat (64 * begun.value + m)) :: decode none s := by
  have hnext : next (some begun) (UInt8.ofNat (m + 128)) =
      ([some (Char.ofNat (64 * begun.value + m))], none) := by
    simp only [next, if_pos (between_ofNat_add hm hleast hgreatest), hlater, toNat_ofNat_add hm,
      Nat.add_sub_cancel]
  rw [decode, hnext]
  rfl

/-- Each byte before the last adds to the number of the character, which stays open. -/
lemma decode_later {m later : Nat} (hm : m < 64) (hlater : begun.later = later + 1)
    (hleast : begun.least.toNat ≤ m + 128) (hgreatest : m + 128 ≤ begun.greatest.toNat) (s : OsText) :
    decode (some begun) (UInt8.ofNat (m + 128) :: s) =
      decode (some { value := 64 * begun.value + m, later }) s := by
  have hnext : next (some begun) (UInt8.ofNat (m + 128)) =
      ([], some { value := 64 * begun.value + m, later }) := by
    simp only [next, if_pos (between_ofNat_add hm hleast hgreatest), hlater, toNat_ofNat_add hm,
      Nat.add_sub_cancel]
  rw [decode, hnext]
  rfl

/-- The first byte of a character of two bytes. -/
lemma openChar?_two {k : Nat} (hk : 2 ≤ k) (hk' : k < 32) :
    openChar? (UInt8.ofNat (k + 192)) = some { value := k, later := 0 } := by
  interval_cases k <;> rfl

/-- The first byte of a character of three bytes. -/
lemma openChar?_three {k : Nat} (hk : k < 16) :
    ∃ begun, openChar? (UInt8.ofNat (k + 224)) = some begun ∧ begun.value = k ∧ begun.later = 1 ∧
      (begun.least.toNat = if k = 0 then 160 else 128) ∧
      begun.greatest.toNat = if k = 13 then 159 else 191 := by
  interval_cases k <;> exact ⟨_, rfl, rfl, rfl, rfl, rfl⟩

/-- The first byte of a character of four bytes. -/
lemma openChar?_four {k : Nat} (hk : k < 5) :
    ∃ begun, openChar? (UInt8.ofNat (k + 240)) = some begun ∧ begun.value = k ∧ begun.later = 2 ∧
      (begun.least.toNat = if k = 0 then 144 else 128) ∧
      begun.greatest.toNat = if k = 4 then 143 else 191 := by
  interval_cases k <;> exact ⟨_, rfl, rfl, rfl, rfl, rfl⟩

/-- **The bytes of a character** are read as that character. -/
lemma decode_utf8EncodeChar (c : Char) (s : OsText) :
    decode none (String.utf8EncodeChar c ++ s) = some c :: decode none s := by
  have hvalue : c.val.toNat < 1114112 := Text.toNat_val_lt c
  have hchar : Char.ofNat c.val.toNat = c := Char.ofNat_toNat c
  have hsurrogates : c.val.toNat < 55296 ∨ 57343 < c.val.toNat := c.valid.imp_right And.left
  have hmost : (0xbf : UInt8).toNat = 191 := rfl
  have hleast : (0x80 : UInt8).toNat = 128 := rfl
  generalize hv : c.val.toNat = v at *
  rw [String.utf8EncodeChar, hv]
  split_ifs with hone htwo hthree
  · have hbyte : (UInt8.ofNat v).toNat = v := by
      rw [UInt8.toNat_ofNat']
      omega
    rw [List.singleton_append, decode, next, start, if_pos (by omega), hbyte, hchar]
    rfl
  · have hbegun := openChar?_two (show 2 ≤ v / 64 % 32 by omega) (by omega)
    have hnumber : 64 * (v / 64 % 32) + v % 64 = v := by omega
    rw [List.cons_append, List.singleton_append, decode_of_openChar? hbegun,
      decode_last (by omega) rfl (by dsimp only; omega) (by dsimp only; omega), hnumber, hchar]
  · obtain ⟨begun, hbegun, hfirst, hlater, hlow, hhigh⟩ :=
      openChar?_three (show v / 4096 % 16 < 16 by omega)
    have hnumber : 64 * (64 * (v / 4096 % 16) + v / 64 % 64) + v % 64 = v := by omega
    rw [List.cons_append, List.cons_append, List.singleton_append, decode_of_openChar? hbegun,
      decode_later (by omega) hlater (by split_ifs at hlow <;> omega)
        (by split_ifs at hhigh <;> omega),
      decode_last (by omega) rfl (by dsimp only; omega) (by dsimp only; omega), hfirst, hnumber, hchar]
  · obtain ⟨begun, hbegun, hfirst, hlater, hlow, hhigh⟩ :=
      openChar?_four (show v / 262144 % 8 < 5 by omega)
    have hnumber : 64 * (64 * (64 * (v / 262144 % 8) + v / 4096 % 64) + v / 64 % 64) + v % 64 = v := by
      omega
    rw [List.cons_append, List.cons_append, List.cons_append, List.singleton_append,
      decode_of_openChar? hbegun,
      decode_later (by omega) hlater (by split_ifs at hlow <;> omega)
        (by split_ifs at hhigh <;> omega),
      decode_later (by omega) rfl (by dsimp only; omega) (by dsimp only; omega),
      decode_last (by omega) rfl (by dsimp only; omega) (by dsimp only; omega), hfirst, hnumber, hchar]

/-- The bytes of a text are read as its characters. -/
lemma decode_bytes (t : String) : decode none (Text.bytes t) = t.toList.map some := by
  have hchars : ∀ chars : List Char,
      decode none (chars.flatMap String.utf8EncodeChar) = chars.map some := by
    intro chars
    induction chars with
    | nil => rfl
    | cons c chars ih => rw [List.flatMap_cons, decode_utf8EncodeChar, ih, List.map_cons]
  rw [Text.bytes_eq_flatMap, hchars]

/-- **The bytes of a text are shown as the text.** -/
@[simp]
theorem lossy_bytes (t : String) : lossy (Text.bytes t) = t := by
  rw [lossy, decode_bytes, List.map_map]
  exact (congrArg String.ofList (List.map_id _)).trans String.ofList_toList

/-- What is shown before and after a byte of ASCII. -/
lemma lossy_append_cons (h : byte.toNat < 0x80) (s s' : OsText) :
    lossy (s ++ byte :: s') = lossy s ++ String.singleton (Char.ofNat byte.toNat) ++ lossy s' := by
  rw [← String.toList_inj, lossy, decode_append_cons h, lossy, lossy]
  simp

/-- Something is shown of what is not empty. -/
lemma lossy_ne_empty (h : s ≠ []) : lossy s ≠ "" := by
  have hopen : ∀ state (s : OsText), state ≠ none ∨ s ≠ [] → decode state s ≠ [] := by
    intro state s
    induction s generalizing state with
    | nil =>
      rintro (hstate | hnil)
      · obtain ⟨begun, rfl⟩ := Option.ne_none_iff_exists'.1 hstate
        exact List.cons_ne_nil _ _
      · exact absurd rfl hnil
    | cons byte s ih =>
      intro _ hnil
      obtain ⟨hbyte, hrest⟩ := List.append_eq_nil_iff.1 hnil
      exact ih _ (Or.inl (next_snd_ne_none hbyte)) hrest
  intro hempty
  rw [lossy, ← String.toList_inj, String.toList_ofList] at hempty
  exact hopen none s (Or.inr h) (List.map_eq_nil_iff.1 hempty)

/-! ## Extensions -/

/-- An extension is what follows the last dot of a name, if something stands before that dot. -/
lemma extension?_eq_some_iff {name extension : OsText} : extension? name = some extension ↔
    ∃ stem, stem ≠ [] ∧ dot ∉ extension ∧ name = stem ++ dot :: extension := by
  unfold extension?
  constructor
  · intro h
    split at h
    · rename_i first last before hbefore
      have hfirst := List.head?_dropWhile_not (· != dot) name.reverse
      rw [hbefore] at hfirst
      obtain rfl : first = dot := by simpa using hfirst
      rw [← Option.some.inj h]
      refine ⟨(last :: before).reverse, by simp, ?_, ?_⟩
      · rw [List.mem_reverse]
        intro hmem
        have hne : (dot != dot) = true := @List.mem_takeWhile_imp _ (· != dot) _ _ hmem
        exact bne_iff_ne.1 hne rfl
      · calc name
            = (name.reverse.takeWhile (· != dot) ++ name.reverse.dropWhile (· != dot)).reverse := by
              rw [List.takeWhile_append_dropWhile, List.reverse_reverse]
          _ = (last :: before).reverse ++ dot :: (name.reverse.takeWhile (· != dot)).reverse := by
              rw [hbefore, List.reverse_append, List.reverse_cons, List.append_assoc,
                List.singleton_append]
    · exact absurd h (by simp)
  · rintro ⟨stem, hstem, hextension, rfl⟩
    have hall : ∀ byte ∈ extension.reverse, (byte != dot) = true := by
      intro byte hbyte
      exact bne_iff_ne.2 fun h => hextension (h ▸ List.mem_reverse.1 hbyte)
    obtain ⟨last, before, hbefore⟩ :=
      List.exists_cons_of_ne_nil fun h => hstem (List.reverse_eq_nil_iff.1 h)
    have hreversed : (stem ++ dot :: extension).reverse =
        extension.reverse ++ dot :: last :: before := by
      rw [List.reverse_append, List.reverse_cons, List.append_assoc, hbefore, List.singleton_append]
    rw [hreversed, List.takeWhile_append_of_pos hall, List.dropWhile_append_of_pos hall]
    simp

end OsText

end CppDeps
