import TinyCLR.Text.UnicodeHelper

/-!
# Texts in UTF-8

What the helper makes of a front part of an encoded text: the characters that are complete there,
as far as there is room for them and none of them lies outside the basic plane.
-/

namespace TinyCLR.Text

/-- The bytes of a text. -/
def encode (text : List Char) : List UInt8 := text.flatMap String.utf8EncodeChar

/-- The UTF-16 units of a character. -/
def charUnits (c : Char) : List Nat :=
  if c.toNat < 0x10000 then [c.toNat]
  else [(c.toNat - 0x10000) / 1024 + 0xD800, (c.toNat - 0x10000) % 1024 + 0xDC00]

def units (text : List Char) : List Nat := text.flatMap charUnits

/-- In the basic plane. -/
def Basic (c : Char) : Prop := c.toNat < 0x10000

instance (c : Char) : Decidable (Basic c) := inferInstanceAs (Decidable (_ < _))

instance (priority := high) (text : List Char) : Decidable (∀ c ∈ text, Basic c) :=
  List.decidableBAll Basic text

def size (c : Char) : Nat := (String.utf8EncodeChar c).length

@[simp] theorem encode_nil : encode [] = [] := rfl

theorem encode_cons (c : Char) (text : List Char) :
    encode (c :: text) = String.utf8EncodeChar c ++ encode text := rfl

theorem encode_append (text text' : List Char) :
    encode (text ++ text') = encode text ++ encode text' := List.flatMap_append

theorem charUnits_basic {c : Char} (h : Basic c) : charUnits c = [c.toNat] := if_pos h

theorem units_basic {text : List Char} (h : ∀ c ∈ text, Basic c) :
    units text = text.map Char.toNat := by
  induction text with
  | nil => rfl
  | cons c text ih =>
      rw [units, List.flatMap_cons, charUnits_basic (h c List.mem_cons_self), List.map_cons]
      exact congrArg _ (ih fun d hd => h d (List.mem_cons_of_mem _ hd))

/-- The encodings of the basic plane, with what they decode to. -/
theorem encodeChar_cases {c : Char} (h : Basic c) :
    (c.toNat < 0x80 ∧ String.utf8EncodeChar c = [UInt8.ofNat c.toNat]) ∨
    (0x80 ≤ c.toNat ∧ c.toNat < 0x800 ∧ String.utf8EncodeChar c =
      [UInt8.ofNat (c.toNat / 64 % 32 + 0xC0), UInt8.ofNat (c.toNat % 64 + 0x80)]) ∨
    (0x800 ≤ c.toNat ∧ String.utf8EncodeChar c =
      [UInt8.ofNat (c.toNat / 4096 % 16 + 0xE0), UInt8.ofNat (c.toNat / 64 % 64 + 0x80),
        UInt8.ofNat (c.toNat % 64 + 0x80)]) := by
  unfold Basic at h
  have hval : c.val.toNat = c.toNat := rfl
  unfold String.utf8EncodeChar
  simp only [hval]
  split_ifs
  · exact .inl ⟨by omega, rfl⟩
  · exact .inr (.inl ⟨by omega, by omega, rfl⟩)
  · exact .inr (.inr ⟨by omega, rfl⟩)
  · omega

theorem size_pos (c : Char) : 0 < size c := by
  rw [size]
  unfold String.utf8EncodeChar
  simp only
  split_ifs <;> simp

/-- How many characters are complete in so many bytes. -/
def complete : List Char → Nat → Nat
  | [], _ => 0
  | c :: text, b => if size c ≤ b then complete text (b - size c) + 1 else 0

theorem complete_le (text : List Char) (b : Nat) : complete text b ≤ text.length := by
  induction text generalizing b with
  | nil => exact Nat.le_refl 0
  | cons c text ih =>
      rw [complete, List.length_cons]
      split
      · exact Nat.succ_le_succ (ih _)
      · exact Nat.zero_le _

/-- What is complete there lies there. -/
theorem length_encode_take_le {text : List Char} {b n : Nat} (h : n ≤ complete text b) :
    (encode (text.take n)).length ≤ b := by
  induction text generalizing b n with
  | nil => simp
  | cons c text ih =>
      cases n with
      | zero => simp
      | succ n =>
          rw [complete] at h
          split at h
          case isTrue hsize =>
            have hrest := ih (Nat.le_of_succ_le_succ h)
            rw [List.take_succ_cons, encode_cons, List.length_append]
            rw [size] at hsize hrest
            omega
          case isFalse => omega

/-- Behind some complete characters the others are still complete. -/
theorem complete_drop {text : List Char} {b n : Nat} (h : n ≤ complete text b) :
    complete (text.drop n) (b - (encode (text.take n)).length) = complete text b - n := by
  induction text generalizing b n with
  | nil => simp [complete]
  | cons c text ih =>
      cases n with
      | zero => simp
      | succ n =>
          rw [complete] at h ⊢
          split at h
          case isTrue hsize =>
            rw [if_pos hsize, List.drop_succ_cons, List.take_succ_cons, encode_cons,
              List.length_append, Nat.add_sub_add_right, ← ih (Nat.le_of_succ_le_succ h)]
            congr 1
            rw [size]
            omega
          case isFalse => omega

/-- Where no character is complete, there is none or a part of one at most. -/
theorem complete_eq_zero {text : List Char} {b : Nat} :
    complete text b = 0 ↔ ∀ c ∈ text.head?, b < size c := by
  cases text with
  | nil => simp [complete]
  | cons c text => simp [complete]

theorem size_le (c : Char) : size c ≤ 4 := by
  rw [size]
  unfold String.utf8EncodeChar
  simp only
  split_ifs <;> simp

theorem size_le_of_basic {c : Char} (h : Basic c) : size c ≤ 3 := by
  rw [size]
  rcases encodeChar_cases h with ⟨-, hcode⟩ | ⟨-, -, hcode⟩ | ⟨-, hcode⟩ <;> simp [hcode]

theorem encode_eq_nil_iff {text : List Char} : encode text = [] ↔ text = [] := by
  cases text with
  | nil => simp
  | cons c text =>
      have hsize := size_pos c
      rw [size] at hsize
      simp only [encode_cons, List.append_eq_nil_iff, reduceCtorEq, iff_false, not_and]
      intro hcode
      simp [hcode] at hsize

/-- No two texts have the same bytes. -/
theorem encode_injective : Function.Injective encode := by
  intro text text' h
  induction text generalizing text' with
  | nil => exact (encode_eq_nil_iff.mp h.symm).symm
  | cons c text ih =>
      cases text' with
      | nil => exact absurd (encode_eq_nil_iff.mp h) (List.cons_ne_nil _ _)
      | cons c' text' =>
          rw [encode_cons, encode_cons] at h
          have hc : c = c' := by
            have hdecode := congrArg (fun bytes => bytes.toByteArray.utf8DecodeChar? 0) h
            simp only [List.toByteArray_append, ByteArray.utf8DecodeChar?_utf8EncodeChar_append,
              Option.some.injEq] at hdecode
            exact hdecode
          rw [hc] at h ⊢
          rw [ih (List.append_cancel_left h)]

/-! ## Decoding -/

theorem toNat_ofNat {n : Nat} (h : n < 256) : (UInt8.ofNat n).toNat = n :=
  Nat.mod_eq_of_lt h

theorem convert_char {c : Char} (hzero : c.toNat ≠ 0) (hbasic : Basic c) (src : List UInt8)
    (room : Nat) : convertFromUTF8 (String.utf8EncodeChar c ++ src) (room + 1) =
      (c.toNat :: (convertFromUTF8 src room).1, (convertFromUTF8 src room).2 + size c) := by
  rw [size]
  unfold Basic at hbasic
  rcases encodeChar_cases hbasic with ⟨h, hcode⟩ | ⟨hlow, hhigh, hcode⟩ | ⟨hlow, hcode⟩ <;>
    rw [hcode]
  · have hb : (UInt8.ofNat c.toNat).toNat = c.toNat := toNat_ofNat (by omega)
    have hne : UInt8.ofNat c.toNat ≠ 0 := by
      rw [ne_eq, ← UInt8.toNat_inj, hb]
      exact hzero
    have hlt : UInt8.ofNat c.toNat < 0x80 := by
      rw [UInt8.lt_iff_toNat_lt, hb]
      exact h
    have hdecode := convertFromUTF8_ascii hne hlt src room
    rw [hb] at hdecode
    exact hdecode
  · have hb : (UInt8.ofNat (c.toNat / 64 % 32 + 0xC0)).toNat = c.toNat / 64 % 32 + 0xC0 :=
      toNat_ofNat (by omega)
    have hb₁ : (UInt8.ofNat (c.toNat % 64 + 0x80)).toNat = c.toNat % 64 + 0x80 :=
      toNat_ofNat (by omega)
    have hdecode := convertFromUTF8_two src room (by omega) (by omega)
      (UInt8.ofNat (c.toNat % 64 + 0x80)) (b := UInt8.ofNat (c.toNat / 64 % 32 + 0xC0))
    rw [hb, loadLowpart, hb₁] at hdecode
    have hvalue : (c.toNat / 64 % 32 + 0xC0) % 32 * 64 + (c.toNat % 64 + 0x80) % 64 = c.toNat := by
      omega
    rw [hvalue] at hdecode
    exact hdecode
  · have hb : (UInt8.ofNat (c.toNat / 4096 % 16 + 0xE0)).toNat = c.toNat / 4096 % 16 + 0xE0 :=
      toNat_ofNat (by omega)
    have hb₁ : (UInt8.ofNat (c.toNat / 64 % 64 + 0x80)).toNat = c.toNat / 64 % 64 + 0x80 :=
      toNat_ofNat (by omega)
    have hb₂ : (UInt8.ofNat (c.toNat % 64 + 0x80)).toNat = c.toNat % 64 + 0x80 :=
      toNat_ofNat (by omega)
    have hdecode := convertFromUTF8_three src room (by omega) (by omega)
      (UInt8.ofNat (c.toNat / 64 % 64 + 0x80)) (UInt8.ofNat (c.toNat % 64 + 0x80))
      (b := UInt8.ofNat (c.toNat / 4096 % 16 + 0xE0))
    rw [hb, loadLowpart, loadLowpart, hb₁, hb₂] at hdecode
    have hvalue : ((c.toNat / 4096 % 16 + 0xE0) % 16 * 64 + (c.toNat / 64 % 64 + 0x80) % 64) * 64 +
        (c.toNat % 64 + 0x80) % 64 = c.toNat := by
      omega
    rw [hvalue] at hdecode
    exact hdecode

/-- A character of which only a part is there is left for later. -/
theorem convert_partial {c : Char} (hbasic : Basic c) {b : Nat} (hb : b < size c) (room : Nat) :
    convertFromUTF8 ((String.utf8EncodeChar c).take b) room = ([], 0) := by
  rw [size] at hb
  unfold Basic at hbasic
  cases room with
  | zero => cases (String.utf8EncodeChar c).take b <;> rfl
  | succ room =>
      cases b with
      | zero => rfl
      | succ b =>
          rcases encodeChar_cases hbasic with ⟨h, hcode⟩ | ⟨hlow, hhigh, hcode⟩ | ⟨hlow, hcode⟩ <;>
            rw [hcode] at hb ⊢ <;>
            simp only [List.length_cons, List.length_nil] at hb
          · omega
          · have hb₀ : (UInt8.ofNat (c.toNat / 64 % 32 + 0xC0)).toNat = c.toNat / 64 % 32 + 0xC0 :=
              toNat_ofNat (by omega)
            obtain rfl : b = 0 := by omega
            exact convertFromUTF8_partial [] room (by omega) (by omega) (.inl rfl)
          · have hb₀ : (UInt8.ofNat (c.toNat / 4096 % 16 + 0xE0)).toNat =
              c.toNat / 4096 % 16 + 0xE0 := toNat_ofNat (by omega)
            rw [List.take_succ_cons]
            apply convertFromUTF8_partial _ room (by omega) (by omega)
            obtain rfl | rfl : b = 0 ∨ b = 1 := by omega
            · exact .inl rfl
            · exact .inr ⟨by omega, rfl⟩

/-- What is made of a front part of a text. -/
theorem convert_spec (text : List Char) (hzero : ∀ c ∈ text, c.toNat ≠ 0) (b room : Nat)
    (hbasic : ∀ c ∈ text.take room, Basic c) :
    convertFromUTF8 ((encode text).take b) room =
      ((text.take (min room (complete text b))).map Char.toNat,
        (encode (text.take (min room (complete text b)))).length) := by
  induction text generalizing b room with
  | nil =>
      rw [encode_nil, List.take_nil]
      cases room <;> rfl
  | cons c text ih =>
      cases room with
      | zero =>
          rw [Nat.zero_min]
          cases (encode (c :: text)).take b <;> rfl
      | succ room =>
          have hc : Basic c := hbasic c (by simp)
          rw [encode_cons, complete, List.take_append]
          by_cases hb : size c ≤ b
          · rw [if_pos hb, List.take_of_length_le hb,
              convert_char (hzero c List.mem_cons_self) hc]
            have hrest := ih (fun d hd => hzero d (List.mem_cons_of_mem _ hd)) (b - size c) room
              (fun d hd => hbasic d (List.mem_cons_of_mem _ hd))
            rw [size] at hrest
            rw [hrest, Nat.succ_min_succ, List.take_succ_cons, List.map_cons, encode_cons,
              List.length_append, Nat.add_comm, size]
          · rw [if_neg hb, Nat.min_zero]
            have hnone : b - (String.utf8EncodeChar c).length = 0 := by
              rw [size] at hb
              omega
            rw [hnone, List.take_zero, List.append_nil]
            exact convert_partial hc (by omega) _

end TinyCLR.Text
