import Mathlib

/-!
# The Unicode helper

Strings are kept in UTF-8 and end at the first zero byte; arrays of characters hold UTF-16.
-/

namespace TinyCLR.Text

/-- `UTF8_BAD_LOWPART` -/
def badLowpart (ch : UInt8) : Bool := ch < 0x80 || ch > 0xBF

/-- `CountNumberOfCharacters`, over the bytes before the terminator; `none` for `-1`. -/
def countNumberOfCharacters : List UInt8 → Option Nat
  | [] => some 0
  | ch :: src =>
      if ch == 0 then some 0
      else if ch < 0x80 then (countNumberOfCharacters src).map (· + 1)
      else if ch < 0xC0 then none
      else if ch < 0xE0 then
        match src with
        | c₁ :: src =>
            if badLowpart c₁ then none else (countNumberOfCharacters src).map (· + 1)
        | _ => none
      else if ch < 0xF0 then
        match src with
        | c₁ :: c₂ :: src =>
            if badLowpart c₁ || badLowpart c₂ then none
            else (countNumberOfCharacters src).map (· + 1)
        | _ => none
      else
        match src with
        | c₁ :: c₂ :: c₃ :: src =>
            if badLowpart c₁ || badLowpart c₂ || badLowpart c₃ then none
            else (countNumberOfCharacters src).map (· + 2)
        | _ => none

/-- `UTF8_LOAD_LOWPART` -/
def loadLowpart (ch : UInt8) (ch2 : Nat) : Nat := ch2 * 64 + ch.toNat % 64

/-- `ConvertFromUTF8` with room for so many characters, over the bytes that it may read (a
terminator stands behind them): the characters, and how many bytes it moves on. Both its callers
pass the room for `iMaxChars`. -/
def convertFromUTF8 : List UInt8 → Nat → List Nat × Nat
  | [], _ => ([], 0)
  | _, 0 => ([], 0)
  | ch :: src, room + 1 =>
      if ch == 0 then ([], 0)
      else if ch < 0x80 then
        let (chars, used) := convertFromUTF8 src room
        (ch.toNat :: chars, used + 1)
      else if ch < 0xC0 then ([], 1)
      else if ch < 0xE0 then
        if ch < 0xC2 then ([], 0)
        else
          match src with
          | c₁ :: src =>
              let (chars, used) := convertFromUTF8 src room
              (loadLowpart c₁ (ch.toNat % 32) :: chars, used + 2)
          | _ => ([], 0)
      else if ch < 0xF0 then
        match src with
        | c₁ :: c₂ :: src =>
            let (chars, used) := convertFromUTF8 src room
            (loadLowpart c₂ (loadLowpart c₁ (ch.toNat % 16)) :: chars, used + 3)
        | _ => ([], 0)
      else if ch ≥ 0xF5 then ([], 0)
      else
        match src, room with
        | c₁ :: c₂ :: c₃ :: src, room + 1 =>
            let ch2 := loadLowpart c₃ (loadLowpart c₂ (loadLowpart c₁ (ch.toNat % 8)))
            let (chars, used) := convertFromUTF8 src room
            ((ch2 / 1024 + 0xD800) :: (ch2 % 1024 + 0xDC00) :: chars, used + 4)
        | _, _ => ([], 0)

theorem countNumberOfCharacters_ascii {ch : UInt8} (hzero : ch ≠ 0) (hlow : ch < 0x80)
    (src : List UInt8) :
    countNumberOfCharacters (ch :: src) = (countNumberOfCharacters src).map (· + 1) := by
  rw [countNumberOfCharacters.eq_def]
  simp [hzero, hlow]

theorem convertFromUTF8_ascii {ch : UInt8} (hzero : ch ≠ 0) (hlow : ch < 0x80)
    (src : List UInt8) (room : Nat) : convertFromUTF8 (ch :: src) (room + 1) =
      (ch.toNat :: (convertFromUTF8 src room).1, (convertFromUTF8 src room).2 + 1) := by
  rw [convertFromUTF8.eq_def]
  simp [hzero, hlow]

section Sequences

variable {b : UInt8} (src : List UInt8) (room : Nat)

theorem convertFromUTF8_two (hlow : 0xC2 ≤ b.toNat) (hhigh : b.toNat < 0xE0) (c₁ : UInt8) :
    convertFromUTF8 (b :: c₁ :: src) (room + 1) =
      (loadLowpart c₁ (b.toNat % 32) :: (convertFromUTF8 src room).1,
        (convertFromUTF8 src room).2 + 2) := by
  rw [convertFromUTF8.eq_def]
  simp only [beq_iff_eq, ← UInt8.toNat_inj, UInt8.lt_iff_toNat_lt, UInt8.reduceToNat]
  rw [if_neg (by omega), if_neg (by omega), if_neg (by omega), if_pos hhigh, if_neg (by omega)]

theorem convertFromUTF8_three (hlow : 0xE0 ≤ b.toNat) (hhigh : b.toNat < 0xF0) (c₁ c₂ : UInt8) :
    convertFromUTF8 (b :: c₁ :: c₂ :: src) (room + 1) =
      (loadLowpart c₂ (loadLowpart c₁ (b.toNat % 16)) :: (convertFromUTF8 src room).1,
        (convertFromUTF8 src room).2 + 3) := by
  rw [convertFromUTF8.eq_def]
  simp only [beq_iff_eq, ← UInt8.toNat_inj, UInt8.lt_iff_toNat_lt, UInt8.reduceToNat]
  rw [if_neg (by omega), if_neg (by omega), if_neg (by omega), if_neg (by omega), if_pos hhigh]

/-- The front part of a sequence is left alone. -/
theorem convertFromUTF8_partial (hlow : 0xC0 ≤ b.toNat) (hhigh : b.toNat < 0xF0)
    (h : src = [] ∨ 0xE0 ≤ b.toNat ∧ src.length = 1) :
    convertFromUTF8 (b :: src) (room + 1) = ([], 0) := by
  rw [convertFromUTF8.eq_def]
  simp only [beq_iff_eq, ← UInt8.toNat_inj, UInt8.lt_iff_toNat_lt, UInt8.reduceToNat]
  rw [if_neg (by omega), if_neg (by omega), if_neg (by omega)]
  rcases h with rfl | ⟨hthree, hlength⟩
  · split_ifs <;> rfl
  · rw [if_neg (by omega), if_pos hhigh]
    obtain ⟨c₁, rfl⟩ := List.length_eq_one_iff.mp hlength
    rfl

end Sequences

end TinyCLR.Text
