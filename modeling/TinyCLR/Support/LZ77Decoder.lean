import Mathlib
import TinyCLR.Library.SlidingWindow
import TinyCLR.Support.LZ77

/-!
# What the decompressor accepts

No input makes `LZ77_Decompress` leave its buffers. Items that spell a text are decoded to that
text, also where a match reaches into the bytes that it is producing.
-/

namespace TinyCLR.Support.LZ77

open SlidingWindow

/-! ## Safety -/

namespace Decoder

/-- The accesses so far are those in front of the two places, and inside the buffers. -/
structure Safe (input : List Byte) (outSize : Nat) (d : Decoder) : Prop where
  inBuf : d.inBuf ≤ input.length
  outBuf : d.outBuf.length ≤ outSize
  reads : d.reads = List.range d.inBuf
  writes : d.writes = List.range d.outBuf.length

theorem kept_safe (input : List Byte) (outSize : Nat) : Kept input outSize (Safe input outSize) where
  read := by
    intro d h hlt
    exact { h with inBuf := hlt, reads := by rw [h.reads, List.range_succ] }
  write := by
    intro d byte h hlt
    have hlength : (d.outBuf ++ [byte]).length = d.outBuf.length + 1 := List.length_append
    exact
      { h with
        outBuf := hlength ▸ hlt
        writes := by rw [h.writes, hlength, List.range_succ] }
  window := fun _ _ _ h => { h with }

theorem Kept.decodeBlocks {input : List Byte} {outSize : Nat} {P : Decoder → Prop}
    (h : Kept input outSize P) {d : Decoder} (hd : P d) :
    Everywhere P (d.decodeBlocks input outSize) := by
  induction d using decodeBlocks.induct input outSize with
  | case1 d hlt e herror =>
      rw [Decoder.decodeBlocks, if_pos hlt]
      split
      · next e' he' => exact (congrArg (Everywhere P) he').mp (h.decodeBlock hd)
      · next d' hd' => exact absurd (herror.symm.trans hd') (by simp)
  | case2 d hlt d' hok ih =>
      rw [Decoder.decodeBlocks, if_pos hlt]
      split
      · next e' he' => exact absurd (hok.symm.trans he') (by simp)
      · next d'' hd'' =>
          obtain rfl : d' = d'' := Except.ok.inj (hok.symm.trans hd'')
          exact ih ((congrArg (Everywhere P) hok).mp (h.decodeBlock hd))
  | case3 d hlt =>
      rw [Decoder.decodeBlocks, if_neg hlt]
      exact hd

end Decoder

/-- Whatever the input is, the decompressor reads and writes inside its buffers only. -/
theorem decompress_safe (input : List Byte) (outSize : Nat) :
    Decoder.Everywhere (Decoder.Safe input outSize) (decompress input outSize) :=
  (Decoder.kept_safe input outSize).decodeBlocks
    ⟨Nat.zero_le _, Nat.zero_le _, rfl, rfl⟩

/-! ## Items -/

/-- What a flag bit stands for. -/
inductive Item where
  | single (byte : Byte)
  | code (count offset : Nat)

namespace Item

def flag : Item → Bool
  | .single _ => true
  | .code _ _ => false

def data : Item → List Byte
  | .single byte => [byte]
  | .code count offset =>
      let iCompCode := compCode (BitVec.ofNat 32 count) (BitVec.ofNat 32 offset)
      [compCodeLobyte iCompCode, compCodeHibyte iCompCode]

def length : Item → Nat
  | .single _ => 1
  | .code count _ => count

end Item

/-- The text of a file, with the blanks in front of it. -/
def textOf (x : List Byte) (j : Int) : Byte := if j < 0 then blank else x.getD j.toNat 0

/-- The window in front of byte `n` of a file. -/
def windowAt (x : List Byte) (n : Int) : Nat → Byte := contents (textOf x) blank winSize n

/-- A new window is blank. -/
theorem windowAt_zero (x : List Byte) : windowAt x (0 : Nat) = fun _ => blank := by
  funext i
  have hpos : (0 : Int) < winSize := by decide
  have hnonneg := Int.emod_nonneg (((0 : Nat) : Int) - 1 - i) hpos.ne'
  rw [windowAt, contents, textOf]
  split
  · rw [if_pos]
    omega
  · rfl

/-- The bytes of `x` from `n` on agree with those from `o` on. -/
def Agrees (x : List Byte) (n o : Int) (count : Nat) : Prop :=
  ∀ k < count, textOf x (n + k) = textOf x (o + k)

/-- An item describes the bytes of `x` from `n` on. -/
def Item.Fits (x : List Byte) (n : Nat) : Item → Prop
  | .single byte => x[n]? = some byte
  | .code count offset => 3 ≤ count ∧ count ≤ maxLen ∧ n + count ≤ x.length ∧
      ∃ o : Int, n - winSize ≤ o ∧ o < n ∧ offset = cell winSize o ∧ Agrees x n o count

/-- The items spell the bytes of `x` from `n` to `m`. -/
inductive Spells (x : List Byte) : Nat → List Item → Nat → Prop where
  | nil (n : Nat) : Spells x n [] n
  | cons {n m : Nat} {item : Item} {items : List Item} :
      item.Fits x n → Spells x (n + item.length) items m → Spells x n (item :: items) m

theorem Spells.append {x : List Byte} {n m k : Nat} {items more : List Item}
    (h : Spells x n items m) (hmore : Spells x m more k) : Spells x n (items ++ more) k := by
  induction h with
  | nil n => exact hmore
  | cons hfits _ ih => exact .cons hfits (ih hmore)

theorem Spells.split {x : List Byte} {n m : Nat} {items more : List Item}
    (h : Spells x n (items ++ more) m) : ∃ k, Spells x n items k ∧ Spells x k more m := by
  induction items generalizing n with
  | nil => exact ⟨n, .nil n, h⟩
  | cons item items ih =>
      cases h with
      | cons hfits hrest =>
          obtain ⟨k, hitems, hmore⟩ := ih hrest
          exact ⟨k, .cons hfits hitems, hmore⟩

theorem Item.length_pos {x : List Byte} {n : Nat} {item : Item} (h : item.Fits x n) :
    0 < item.length := by
  cases item with
  | single byte => exact Nat.one_pos
  | code count offset => exact Nat.lt_of_lt_of_le (by decide) h.1

theorem Item.Fits.le_length {x : List Byte} {n : Nat} {item : Item} (h : item.Fits x n) :
    n + item.length ≤ x.length := by
  cases item with
  | single byte => exact (List.getElem?_eq_some_iff.mp h).1
  | code count offset => exact h.2.2.1

theorem Spells.le {x : List Byte} {n m : Nat} {items : List Item} (h : Spells x n items m) :
    n ≤ m := by
  induction h with
  | nil n => exact Nat.le_refl n
  | cons _ _ ih => exact (Nat.le_add_right _ _).trans ih

/-! ## The bytes of a code -/

theorem and_0x0F00 (n : Nat) : n &&& 0x0F00 = n / 256 % 16 * 256 := by
  have hshift : n &&& 0x0F00 = ((n >>> 8) &&& 15) <<< 8 := by
    apply Nat.eq_of_testBit_eq
    intro i
    have hmask : (0x0F00 : Nat) = 15 <<< 8 := rfl
    rw [hmask]
    simp only [Nat.testBit_and, Nat.testBit_shiftLeft, Nat.testBit_shiftRight]
    by_cases hi : 8 ≤ i <;> simp [hi]
  rw [hshift, Nat.shiftLeft_eq, Nat.shiftRight_eq_div_pow]
  exact congrArg (· * 256) (Nat.and_two_pow_sub_one_eq_mod (n / 256) 4)

section Code

variable {count : Nat} (hlow : 3 ≤ count) (hhigh : count ≤ maxLen) (offset : Nat)

include hlow hhigh

/-- The length is stored in the bits 8 to 11, the offset around them. -/
theorem toNat_compCode :
    (compCode (BitVec.ofNat 32 count) (BitVec.ofNat 32 offset)).toNat =
      (count - 3) * 256 + (offset + 4080) % 4096 / 256 * 4096 + (offset + 4080) % 256 := by
  simp only [maxLen] at hhigh
  have hx : (BitVec.ofNat 32 count - 3#32).toNat = count - 3 := by
    rw [BitVec.toNat_sub, BitVec.toNat_ofNat, BitVec.toNat_ofNat]
    omega
  have hy : (BitVec.ofNat 32 offset - 0x10#32).toNat = (offset + (2 ^ 32 - 16)) % 2 ^ 32 := by
    rw [BitVec.toNat_sub, BitVec.toNat_ofNat, BitVec.toNat_ofNat]
    omega
  have hlength : ((BitVec.ofNat 32 count - 3#32) &&& 0x0F#32).toNat = count - 3 := by
    rw [BitVec.toNat_and, hx]
    exact (Nat.and_two_pow_sub_one_eq_mod (count - 3) 4).trans (Nat.mod_eq_of_lt (by omega))
  have hmiddle : ((BitVec.ofNat 32 offset - 0x10#32) &&& 0x0F00#32).toNat =
      (offset + 4080) % 4096 / 256 * 256 := by
    rw [BitVec.toNat_and, hy]
    exact (and_0x0F00 _).trans (by omega)
  have hlast : ((BitVec.ofNat 32 offset - 0x10#32) &&& 0x00FF#32).toNat =
      (offset + 4080) % 256 := by
    rw [BitVec.toNat_and, hy]
    exact (Nat.and_two_pow_sub_one_eq_mod _ 8).trans (by omega)
  have hcode : compCode (BitVec.ofNat 32 count) (BitVec.ofNat 32 offset) =
      ((BitVec.ofNat 32 count - 3#32) &&& 0x0F#32) <<< 8 +
        ((BitVec.ofNat 32 offset - 0x10#32) &&& 0x0F00#32) <<< 4 +
        ((BitVec.ofNat 32 offset - 0x10#32) &&& 0x00FF#32) := rfl
  rw [hcode, BitVec.toNat_add, BitVec.toNat_add, BitVec.toNat_shiftLeft, BitVec.toNat_shiftLeft,
    hlength, hmiddle, hlast, Nat.shiftLeft_eq, Nat.shiftLeft_eq]
  omega

theorem toNat_hibyte :
    (compCodeHibyte (compCode (BitVec.ofNat 32 count) (BitVec.ofNat 32 offset))).toNat =
      count - 3 + (offset + 4080) % 4096 / 256 * 16 := by
  rw [compCodeHibyte, BitVec.toNat_setWidth, BitVec.toNat_ushiftRight, BitVec.toNat_setWidth,
    toNat_compCode hlow hhigh, Nat.shiftRight_eq_div_pow]
  simp only [maxLen] at hhigh
  omega

theorem toNat_lobyte :
    (compCodeLobyte (compCode (BitVec.ofNat 32 count) (BitVec.ofNat 32 offset))).toNat =
      (offset + 4080) % 256 := by
  rw [compCodeLobyte, BitVec.toNat_setWidth, toNat_compCode hlow hhigh]
  omega

theorem lengthOf_hibyte :
    lengthOf (compCodeHibyte (compCode (BitVec.ofNat 32 count) (BitVec.ofNat 32 offset))) =
      count := by
  have hmask : (0x0F : Byte).toNat = 2 ^ 4 - 1 := rfl
  rw [lengthOf, BitVec.toNat_and, toNat_hibyte hlow hhigh, hmask, Nat.and_two_pow_sub_one_eq_mod]
  simp only [maxLen] at hhigh
  omega

/-- The decompressor finds the cells that the compressor has meant. -/
theorem fake2RealPos_offsetOf (k : Nat) :
    fake2RealPos (offsetOf
      (compCodeLobyte (compCode (BitVec.ofNat 32 count) (BitVec.ofNat 32 offset)))
      (compCodeHibyte (compCode (BitVec.ofNat 32 count) (BitVec.ofNat 32 offset))) + k) =
        (offset + k) % winSize := by
  have hhibyte := toNat_hibyte hlow hhigh offset
  have hbound := (compCodeHibyte
    (compCode (BitVec.ofNat 32 count) (BitVec.ofNat 32 offset))).isLt
  have hnibble : ∀ w : Byte, ((w &&& 0xF0) >>> 4).toNat = w.toNat / 16 := by decide +kernel
  have h12 := Nat.and_two_pow_sub_one_eq_mod
    ((count - 3 + (offset + 4080) % 4096 / 256 * 16) / 16 * 0x0100 + (offset + 4080) % 256) 12
  have hmask : winSize - 1 = 2 ^ 12 - 1 := rfl
  have hsize : winSize = 2 ^ 12 := rfl
  simp only [maxLen] at hhigh
  rw [fake2RealPos, offsetOf, hnibble, hhibyte, toNat_lobyte hlow hhigh, hmask,
    Nat.and_two_pow_sub_one_eq_mod, hsize]
  refine (congrArg (fun z => (z + 0x0010 + k) % 2 ^ 12) h12).trans ?_
  omega

end Code

theorem fake2RealPos_eq (n : Nat) : fake2RealPos n = cell winSize n := by
  rw [cell_natCast]
  exact Nat.and_two_pow_sub_one_eq_mod n 12

theorem winSize_pos : 0 < winSize := by decide

/-! ## Decoding -/

namespace Decoder

/-- The decoder has produced the first `n` bytes of `x`. -/
structure At (x : List Byte) (n : Nat) (d : Decoder) : Prop where
  window : d.window = windowAt x n
  currPos : d.currPos = n
  outBuf : d.outBuf = x.take n

variable {x : List Byte} {n : Nat} {d : Decoder}

theorem textOf_natCast (x : List Byte) (n : Nat) : textOf x n = x.getD n 0 := by
  rw [textOf, if_neg (by omega), Int.toNat_natCast]

theorem At.putByte (h : At x n d) (hn : n < x.length) :
    ∃ d', d.putByte x.length (textOf x n) = .ok d' ∧ At x (n + 1) d' ∧ d'.inBuf = d.inBuf := by
  have hlength : d.outBuf.length = n := by
    rw [h.outBuf, List.length_take, Nat.min_eq_left hn.le]
  rw [Decoder.putByte, checkedWrite, if_neg (by rw [hlength]; omega)]
  refine ⟨_, rfl, ⟨?_, ?_, ?_⟩, rfl⟩
  · show Function.update d.window (fake2RealPos d.currPos) (textOf x n) = windowAt x (n + 1 : Nat)
    rw [h.window, h.currPos, fake2RealPos_eq]
    exact contents_push _ _ winSize_pos n
  · show d.currPos + 1 = n + 1
    rw [h.currPos]
  · show d.outBuf ++ [textOf x n] = x.take (n + 1)
    rw [h.outBuf, textOf_natCast, List.take_succ_eq_append_getElem hn, List.getD_eq_getElem _ _ hn]

/-- The bytes of a match are copied, also those that the copy itself has produced. -/
theorem At.copyData {o : Int} {offset count : Nat} (h : At x n d) (hlow : n - winSize ≤ o)
    (hhigh : o < n) (hcell : ∀ k, fake2RealPos (offset + k) = cell winSize (o + k))
    (hcount : n + count ≤ x.length) (hagrees : Agrees x n o count) :
    ∃ d', Decoder.copyData x.length offset count d = .ok d' ∧ At x (n + count) d' ∧
      d'.inBuf = d.inBuf := by
  induction count generalizing n o offset d with
  | zero => exact ⟨d, rfl, h, rfl⟩
  | succ count ih =>
      have hfirst : d.window (fake2RealPos offset) = textOf x n := by
        have hcell0 := hcell 0
        have hagrees0 := hagrees 0 (Nat.succ_pos _)
        simp only [Nat.add_zero, Nat.cast_zero, Int.add_zero] at hcell0 hagrees0
        rw [h.window, hcell0, hagrees0]
        exact contents_cell winSize_pos hlow hhigh
      obtain ⟨d₁, hput, hd₁, hin₁⟩ := h.putByte (by omega)
      obtain ⟨d', hcopy, hd', hin'⟩ := ih (o := o + 1) hd₁
        (by push_cast; omega) (by push_cast; omega)
        (fun k => by
          have hk := hcell (k + 1)
          rw [show offset + 1 + k = offset + (k + 1) by omega, hk]
          congr 1
          push_cast
          omega)
        (by omega)
        (fun k hk => by
          have hk' := hagrees (k + 1) (by omega)
          push_cast at hk' ⊢
          rw [show (n : Int) + 1 + k = n + (k + 1) by omega, hk',
            show o + 1 + (k : Int) = o + (k + 1) by omega])
      refine ⟨d', ?_, ?_, hin'.trans hin₁⟩
      · rw [Decoder.copyData, hfirst, hput]
        exact hcopy
      · rw [show n + (count + 1) = n + 1 + count by omega]
        exact hd'

theorem checkedRead_of_drop {input rest : List Byte} {byte : Byte}
    (h : input.drop d.inBuf = byte :: rest) :
    ∃ d', d.checkedRead input = .ok (byte, d') ∧ input.drop d'.inBuf = rest ∧
      d'.window = d.window ∧ d'.currPos = d.currPos ∧ d'.outBuf = d.outBuf := by
  have hlt : d.inBuf < input.length := by
    by_contra hge
    rw [List.drop_eq_nil_of_le (Nat.le_of_not_lt hge)] at h
    cases h
  rw [List.drop_eq_getElem_cons hlt, List.cons.injEq] at h
  rw [checkedRead, if_neg (Nat.not_le.mpr hlt), List.getD_eq_getElem _ _ hlt, h.1]
  exact ⟨_, rfl, h.2, rfl, rfl, rfl⟩

theorem At.of_eq (h : At x n d) {d' : Decoder} (hwindow : d'.window = d.window)
    (hcurrPos : d'.currPos = d.currPos) (houtBuf : d'.outBuf = d.outBuf) : At x n d' :=
  ⟨hwindow.trans h.window, hcurrPos.trans h.currPos, houtBuf.trans h.outBuf⟩

theorem At.decodeItem {input rest : List Byte} {item : Item} {bitMap : Byte} {counter : Nat}
    (h : At x n d) (hfits : item.Fits x n) (hdrop : input.drop d.inBuf = item.data ++ rest)
    (hbit : bitSet bitMap counter = item.flag) :
    ∃ d', d.decodeItem input x.length bitMap counter = .ok d' ∧ At x (n + item.length) d' ∧
      input.drop d'.inBuf = rest := by
  cases item with
  | single byte =>
      obtain ⟨hn, hbyte⟩ := List.getElem?_eq_some_iff.mp hfits
      have htext : textOf x n = byte := by
        rw [textOf_natCast, List.getD_eq_getElem _ _ hn, hbyte]
      obtain ⟨d₁, hread, hdrop₁, hw, hc, ho⟩ := checkedRead_of_drop hdrop
      obtain ⟨d', hput, hd', hin'⟩ := (h.of_eq hw hc ho).putByte hn
      refine ⟨d', ?_, hd', by rw [hin', hdrop₁]; rfl⟩
      rw [Decoder.decodeItem, if_pos (show bitSet bitMap counter = true from hbit), hread]
      exact htext ▸ hput
  | code count offset =>
      obtain ⟨hlow, hhigh, hle, o, ho₁, ho₂, rfl, hagrees⟩ := hfits
      obtain ⟨d₁, hread₁, hdrop₁, hw₁, hc₁, hout₁⟩ := checkedRead_of_drop hdrop
      obtain ⟨d₂, hread₂, hdrop₂, hw₂, hc₂, hout₂⟩ := checkedRead_of_drop hdrop₁
      have hcell := fake2RealPos_offsetOf hlow hhigh (cell winSize o)
      obtain ⟨d', hcopy, hd', hin'⟩ := ((h.of_eq hw₁ hc₁ hout₁).of_eq hw₂ hc₂ hout₂).copyData
        ho₁ ho₂ (fun k => (hcell k).trans (cell_add winSize_pos o k)) hle hagrees
      refine ⟨d', ?_, hd', by rw [hin', hdrop₂]; rfl⟩
      rw [Decoder.decodeItem, if_neg (by rw [hbit]; exact Bool.false_ne_true), hread₁]
      show (d₁.checkedRead input >>= _) = _
      rw [hread₂]
      show Decoder.copyData x.length _ (lengthOf _) d₂ = _
      rw [lengthOf_hibyte hlow hhigh]
      exact hcopy

end Decoder

/-! ## Blocks -/

/-- The flag byte of some items, the first of which has the given number in its block. -/
def flagBits : Nat → List Item → Byte
  | _, [] => 0
  | i, item :: items => (if item.flag then (1 : Byte) <<< i else 0) ||| flagBits (i + 1) items

def encodeBlock (items : List Item) : List Byte := flagBits 0 items :: items.flatMap Item.data

theorem flagBits_below {i j : Nat} (items : List Item) (h : j < i) :
    (flagBits i items).getLsbD j = false := by
  induction items generalizing i with
  | nil => exact BitVec.getLsbD_zero
  | cons item items ih =>
      rw [flagBits, BitVec.getLsbD_or, ih (Nat.lt_succ_of_lt h), Bool.or_false]
      split
      · rw [BitVec.getLsbD_shiftLeft]
        simp [h]
      · exact BitVec.getLsbD_zero

theorem bitSet_flagBits {i k : Nat} {items : List Item} (hk : k < items.length)
    (hi : i + k < 8) : Decoder.bitSet (flagBits i items) (i + k) = items[k].flag := by
  induction items generalizing i k with
  | nil => exact absurd hk (Nat.not_lt_zero k)
  | cons item items ih =>
      cases k with
      | zero =>
          rw [Decoder.bitSet, flagBits, BitVec.getLsbD_or, Nat.add_zero,
            flagBits_below items (Nat.lt_succ_self i), Bool.or_false, List.getElem_cons_zero]
          cases item.flag with
          | false => exact BitVec.getLsbD_zero
          | true =>
              have hlt : i < 8 := hi
              simp [hlt]
      | succ k =>
          have hbit := ih (i := i + 1) (k := k) (Nat.lt_of_succ_lt_succ hk) (by omega)
          rw [Decoder.bitSet] at hbit
          rw [Decoder.bitSet, flagBits, BitVec.getLsbD_or, List.getElem_cons_succ, ← hbit,
            show i + (k + 1) = i + 1 + k by omega]
          split
          · rw [BitVec.getLsbD_shiftLeft]
            have hne : i + 1 + k - i ≠ 0 := by omega
            simp [hne]
          · simp

namespace Decoder

variable {x : List Byte} {n m : Nat} {d : Decoder}

theorem At.length_outBuf (h : At x n d) (hn : n ≤ x.length) : d.outBuf.length = n := by
  rw [h.outBuf, List.length_take, Nat.min_eq_left hn]

/-- The items behind a bit map are decoded one after the other, until the block ends or the text
is complete. -/
theorem At.decodeItems {input rest : List Byte} {items : List Item} {bitMap : Byte} {left : Nat}
    (h : At x n d) (hspells : Spells x n items m)
    (hdrop : input.drop d.inBuf = items.flatMap Item.data ++ rest)
    (hend : items.length = left ∨ items.length ≤ left ∧ m = x.length) (hleft : left ≤ 8)
    (hbits : ∀ k (hk : k < items.length), bitSet bitMap (8 - left + k) = items[k].flag) :
    ∃ d', Decoder.decodeItems input x.length bitMap left d = .ok d' ∧ At x m d' ∧
      input.drop d'.inBuf = rest := by
  induction items generalizing n d left with
  | nil =>
      cases hspells
      refine ⟨d, ?_, h, hdrop⟩
      cases left with
      | zero => rfl
      | succ left =>
          obtain ⟨-, rfl⟩ := hend.resolve_left (by simp)
          rw [Decoder.decodeItems, if_neg]
          rw [h.length_outBuf (Nat.le_refl _)]
          exact Nat.lt_irrefl _
  | cons item items ih =>
      cases hspells with
      | cons hfits hrest =>
          have hpos := Item.length_pos hfits
          have hle := hfits.le_length
          obtain ⟨left, rfl⟩ : ∃ l, left = l + 1 := by
            rcases hend with hend | ⟨hend, -⟩
            · exact ⟨items.length, hend.symm⟩
            · exact ⟨left - 1, by rw [List.length_cons] at hend; omega⟩
          have hbit : bitSet bitMap (7 - left) = item.flag := by
            have hfirst := hbits 0 (by simp)
            rwa [show 8 - (left + 1) + 0 = 7 - left by omega] at hfirst
          rw [List.flatMap_cons, List.append_assoc] at hdrop
          obtain ⟨d₁, hitem, hd₁, hdrop₁⟩ := h.decodeItem hfits hdrop hbit
          have hend' : items.length = left ∨ items.length ≤ left ∧ m = x.length := by
            rw [List.length_cons] at hend
            omega
          obtain ⟨d', hitems, hd', hdrop'⟩ := ih hd₁ hrest hdrop₁ hend' (by omega)
            (fun k hk => by
              have hnext := hbits (k + 1) (by rw [List.length_cons]; omega)
              rwa [show 8 - (left + 1) + (k + 1) = 8 - left + k by omega] at hnext)
          refine ⟨d', ?_, hd', hdrop'⟩
          rw [Decoder.decodeItems, if_pos (by rw [h.length_outBuf (by omega)]; omega), hitem]
          exact hitems

/-- Blocks of eight items each, but for the last one, which may be shorter. -/
inductive Blocks : List (List Item) → Prop where
  | nil : Blocks []
  | last {items : List Item} : items ≠ [] → items.length ≤ 8 → Blocks [items]
  | cons {items : List Item} {blocks : List (List Item)} : items.length = 8 → Blocks blocks →
      Blocks (items :: blocks)

theorem At.decodeBlock {input rest : List Byte} {items : List Item} (h : At x n d)
    (hspells : Spells x n items m) (hdrop : input.drop d.inBuf = encodeBlock items ++ rest)
    (hend : items.length = 8 ∨ items.length ≤ 8 ∧ m = x.length) :
    ∃ d', d.decodeBlock input x.length = .ok d' ∧ At x m d' ∧ input.drop d'.inBuf = rest := by
  obtain ⟨d₁, hread, hdrop₁, hw, hc, ho⟩ := checkedRead_of_drop hdrop
  have hbits : ∀ k (hk : k < items.length),
      bitSet (flagBits 0 items) (8 - 8 + k) = items[k].flag := by
    intro k hk
    exact bitSet_flagBits (i := 0) hk (by omega)
  obtain ⟨d', hitems, hd', hdrop'⟩ :=
    (h.of_eq hw hc ho).decodeItems hspells hdrop₁ hend (Nat.le_refl 8) hbits
  refine ⟨d', ?_, hd', hdrop'⟩
  rw [Decoder.decodeBlock, hread]
  exact hitems

theorem decodeBlocks_of_ok {input : List Byte} {outSize : Nat} {d' : Decoder}
    (hlt : d.inBuf < input.length) (h : d.decodeBlock input outSize = .ok d') :
    d.decodeBlocks input outSize = d'.decodeBlocks input outSize := by
  rw [decodeBlocks.eq_1 input outSize d, if_pos hlt]
  split
  · next e he => exact absurd (h.symm.trans he) (by simp)
  · next d'' hd'' =>
      obtain rfl : d' = d'' := Except.ok.inj (h.symm.trans hd'')
      rfl

theorem inBuf_lt {input rest : List Byte} {items : List Item}
    (h : input.drop d.inBuf = encodeBlock items ++ rest) : d.inBuf < input.length := by
  by_contra hge
  rw [List.drop_eq_nil_of_le (Nat.le_of_not_lt hge)] at h
  cases h

/-- Blocks that spell a text are decoded to it, and nothing of the input is left. -/
theorem At.decodeBlocks {input : List Byte} {blocks : List (List Item)} (h : At x n d)
    (hblocks : Blocks blocks) (hspells : Spells x n blocks.flatten x.length)
    (hdrop : input.drop d.inBuf = blocks.flatMap encodeBlock) :
    ∃ d', d.decodeBlocks input x.length = .ok d' ∧ At x x.length d' ∧
      input.length ≤ d'.inBuf := by
  induction hblocks generalizing n d with
  | nil =>
      cases hspells
      have hend : input.length ≤ d.inBuf := List.drop_eq_nil_iff.mp hdrop
      refine ⟨d, ?_, h, hend⟩
      rw [Decoder.decodeBlocks, if_neg (Nat.not_lt.mpr hend)]
  | @last items hne hlength =>
      rw [List.flatten_cons, List.flatten_nil, List.append_nil] at hspells
      rw [List.flatMap_cons, List.flatMap_nil] at hdrop
      obtain ⟨d₁, hblock, hd₁, hdrop₁⟩ := h.decodeBlock hspells hdrop (.inr ⟨hlength, rfl⟩)
      have hend : input.length ≤ d₁.inBuf := List.drop_eq_nil_iff.mp hdrop₁
      refine ⟨d₁, ?_, hd₁, hend⟩
      rw [decodeBlocks_of_ok (inBuf_lt hdrop) hblock, Decoder.decodeBlocks,
        if_neg (Nat.not_lt.mpr hend)]
  | @cons items blocks hlength hrest ih =>
      rw [List.flatten_cons] at hspells
      rw [List.flatMap_cons] at hdrop
      obtain ⟨k, hitems, hmore⟩ := hspells.split
      obtain ⟨d₁, hblock, hd₁, hdrop₁⟩ := h.decodeBlock hitems hdrop (.inl hlength)
      obtain ⟨d', hblocks, hd', hend⟩ := ih hd₁ hmore hdrop₁
      refine ⟨d', ?_, hd', hend⟩
      rw [decodeBlocks_of_ok (inBuf_lt hdrop) hblock]
      exact hblocks

end Decoder

/-- The decompressor accepts blocks that spell a text, takes all of them and produces the text. -/
theorem decompress_blocks {x : List Byte} {blocks : List (List Item)}
    (hblocks : Decoder.Blocks blocks) (hspells : Spells x 0 blocks.flatten x.length) :
    ∃ d, decompress (blocks.flatMap encodeBlock) x.length = .ok d ∧ d.outBuf = x ∧
      d.inBuf = (blocks.flatMap encodeBlock).length := by
  have hstart : Decoder.At x 0 ⟨fun _ => blank, 0, 0, [], [], []⟩ :=
    ⟨(windowAt_zero x).symm, rfl, rfl⟩
  obtain ⟨d, hdecode, hd, hend⟩ := hstart.decodeBlocks (d := ⟨fun _ => blank, 0, 0, [], [], []⟩)
    hblocks hspells rfl
  have hsafe := (congrArg (Decoder.Everywhere _) hdecode).mp (decompress_safe _ _)
  refine ⟨d, hdecode, ?_, Nat.le_antisymm hsafe.inBuf hend⟩
  rw [hd.outBuf, List.take_length]

end TinyCLR.Support.LZ77
