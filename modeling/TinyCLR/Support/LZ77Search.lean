import Mathlib
import TinyCLR.Support.LZ77Decoder

/-!
# The search of the compressor

A reader that has read `r` bytes has one possible state, and reading and unreading move between
these states. The search for a match compares bytes of the text, as long as it does not start in
the bytes that it has read ahead.
-/

namespace TinyCLR.Support.LZ77

open SlidingWindow

/-! ## The writer -/

/-- The items that a writer has been given. -/
structure Writer.Written (blocks : List (List Item)) (part : List Item) (w : Writer) : Prop where
  full : ∀ block ∈ blocks, block.length = 8
  open_ : part.length < 8
  flagByte : w.flagByte = flagBits 0 part
  dataBytes : w.dataBytes = part.flatMap Item.data
  flagCount : w.flagCount = part.length
  outfile : w.outfile = blocks.flatMap encodeBlock

/-- A writer into which some items have been written. -/
def Writer.Holds (items : List Item) (w : Writer) : Prop :=
  ∃ blocks part, w.Written blocks part ∧ items = blocks.flatten ++ part

namespace Writer

variable {w : Writer} {items : List Item}

theorem holds_start : Holds [] ⟨0, [], 0, []⟩ :=
  ⟨[], [], ⟨by simp, by decide, rfl, rfl, rfl, rfl⟩, rfl⟩

theorem flagBits_snoc (i : Nat) (part : List Item) (item : Item) :
    flagBits i (part ++ [item]) =
      flagBits i part ||| (if item.flag then (1 : Byte) <<< (i + part.length) else 0) := by
  induction part generalizing i with
  | nil => simp [flagBits]
  | cons head part ih =>
      rw [List.cons_append, flagBits, flagBits, ih, List.length_cons, BitVec.or_assoc,
        show i + 1 + part.length = i + (part.length + 1) by omega]

/-- What both ways of saving an item have in common. -/
theorem Holds.checkFlagByte (h : w.Holds items) (item : Item) {flagByte : Byte}
    {dataBytes : List Byte} (hflagByte : flagByte =
      w.flagByte ||| (if item.flag then (1 : Byte) <<< w.flagCount else 0))
    (hdataBytes : dataBytes = w.dataBytes ++ item.data) :
    Holds (items ++ [item])
      (checkFlagByte { w with flagByte := flagByte, dataBytes := dataBytes }) := by
  obtain ⟨blocks, part, hw, rfl⟩ := h
  have hflag : flagByte = flagBits 0 (part ++ [item]) := by
    rw [hflagByte, flagBits_snoc, hw.flagByte, hw.flagCount, Nat.zero_add]
  have hdata : dataBytes = (part ++ [item]).flatMap Item.data := by
    rw [hdataBytes, hw.dataBytes, List.flatMap_append, List.flatMap_cons, List.flatMap_nil,
      List.append_nil]
  have hcount : w.flagCount + 1 = (part ++ [item]).length := by
    rw [hw.flagCount, List.length_append, List.length_singleton]
  have hopen := hw.open_
  have hlength := hw.flagCount
  by_cases hfull : w.flagCount + 1 = 8
  · have hwritten : checkFlagByte { w with flagByte := flagByte, dataBytes := dataBytes } =
        ⟨0, [], 0, w.outfile ++ flagByte :: dataBytes⟩ :=
      (if_pos hfull).trans (if_pos (Nat.succ_pos _))
    rw [hwritten]
    refine ⟨blocks ++ [part ++ [item]], [], ⟨?_, by decide, rfl, rfl, rfl, ?_⟩, by simp⟩
    · intro block hblock
      rcases List.mem_append.mp hblock with hblock | hblock
      · exact hw.full block hblock
      · rw [List.mem_singleton.mp hblock, ← hcount]
        exact hfull
    · have hblock : encodeBlock (part ++ [item]) = flagByte :: dataBytes := by
        rw [hflag, hdata]
        rfl
      simp only [List.flatMap_append, List.flatMap_cons, List.flatMap_nil, List.append_nil, hblock,
        hw.outfile]
  · have hwritten : checkFlagByte { w with flagByte := flagByte, dataBytes := dataBytes } =
        ⟨flagByte, dataBytes, w.flagCount + 1, w.outfile⟩ := if_neg hfull
    rw [hwritten]
    refine ⟨blocks, part ++ [item], ⟨hw.full, ?_, hflag, hdata, hcount, hw.outfile⟩,
      List.append_assoc _ _ _⟩
    omega

theorem Holds.saveUncompByte (h : w.Holds items) (byte : Byte) :
    Holds (items ++ [.single byte]) (w.saveUncompByte byte) :=
  h.checkFlagByte (.single byte) rfl rfl

theorem Holds.saveCode (h : w.Holds items) (count offset : Nat) :
    Holds (items ++ [.code count offset]) (w.saveCode count offset) :=
  h.checkFlagByte (.code count offset) BitVec.or_zero.symm rfl

theorem blocks_of_full {blocks : List (List Item)} {part : List Item}
    (h : ∀ block ∈ blocks, block.length = 8) (hpart : part ≠ []) (hopen : part.length < 8) :
    Decoder.Blocks (blocks ++ [part]) := by
  induction blocks with
  | nil => exact .last hpart hopen.le
  | cons block blocks ih =>
      exact .cons (h block List.mem_cons_self) (ih fun b hb => h b (List.mem_cons_of_mem _ hb))

theorem blocks_of_full' {blocks : List (List Item)}
    (h : ∀ block ∈ blocks, block.length = 8) : Decoder.Blocks blocks := by
  induction blocks with
  | nil => exact .nil
  | cons block blocks ih =>
      exact .cons (h block List.mem_cons_self) (ih fun b hb => h b (List.mem_cons_of_mem _ hb))

/-- The last call of `WriteFlagByte` completes the output. -/
theorem Holds.writeFlagByte (h : w.Holds items) :
    ∃ blocks, w.writeFlagByte.outfile = blocks.flatMap encodeBlock ∧ Decoder.Blocks blocks ∧
      blocks.flatten = items := by
  obtain ⟨blocks, part, hw, rfl⟩ := h
  rw [Writer.writeFlagByte]
  split
  · next hpos =>
      rw [hw.flagCount] at hpos
      refine ⟨blocks ++ [part], ?_, blocks_of_full hw.full (List.length_pos_iff.mp hpos) hw.open_,
        by simp⟩
      show w.outfile ++ w.flagByte :: w.dataBytes = _
      rw [hw.outfile, hw.flagByte, hw.dataBytes, List.flatMap_append, List.flatMap_cons,
        List.flatMap_nil, List.append_nil]
      rfl
  · next hzero =>
      have hnil : part = [] := by
        rw [hw.flagCount] at hzero
        exact List.length_eq_zero_iff.mp (Nat.eq_zero_of_not_pos hzero)
      exact ⟨blocks, hw.outfile, blocks_of_full' hw.full, by rw [hnil, List.append_nil]⟩

end Writer

/-! ## The reader -/

/-- The reader that has read the bytes in front of `r`. -/
def readerAt (x : List Byte) (r : Nat) : Reader where
  window := windowAt x r
  currPos := cell winSize ((r : Int) - 1)
  infilePos := r

theorem addIndex_cell (j : Int) : addIndex (cell winSize j) = cell winSize (j + 1) := by
  have hadd := cell_add winSize_pos j 1
  have hlt := cell_lt winSize_pos j
  rw [Nat.cast_one] at hadd
  rw [addIndex, ← hadd]
  split
  · next h => rw [h, Nat.mod_self]
  · exact (Nat.mod_eq_of_lt (by omega)).symm

theorem dropIndex_cell (j : Int) : dropIndex (cell winSize j) = cell winSize (j - 1) := by
  have hadd := addIndex_cell (j - 1)
  have hlt := cell_lt winSize_pos (j - 1)
  rw [Int.sub_add_cancel] at hadd
  rw [← hadd, addIndex, dropIndex]
  split
  · next h => simp only [if_true]; omega
  · next h => rw [if_neg (Nat.succ_ne_zero _), Nat.add_sub_cancel]

variable {x : List Byte} {r : Nat}

theorem getNextChar_readerAt (h : r < x.length) :
    (readerAt x r).getNextChar x = (some (textOf x r), readerAt x (r + 1)) := by
  have hcell : addIndex (cell winSize ((r : Int) - 1)) = cell winSize r := by
    rw [addIndex_cell, Int.sub_add_cancel]
  have hpush := contents_push (textOf x) blank winSize_pos r
  have hread : (readerAt x r).getNextChar x = (some (x.getD r 0),
      ⟨Function.update (windowAt x r) (addIndex (cell winSize ((r : Int) - 1))) (x.getD r 0),
        addIndex (cell winSize ((r : Int) - 1)), r + 1⟩) := if_pos h
  rw [hread, hcell, ← Decoder.textOf_natCast, windowAt, hpush, readerAt, Nat.cast_succ,
    Int.add_sub_cancel]
  rfl

theorem getNextChar_end (h : x.length ≤ r) :
    (readerAt x r).getNextChar x = (none, readerAt x r) :=
  if_neg (Nat.not_lt.mpr h)

/-- Unreading puts back the byte that has left the window. -/
theorem unreadChar_readerAt (x : List Byte) (r : Nat) :
    (readerAt x (r + 1)).unreadChar (textOf x ((r : Int) - winSize)) = readerAt x r := by
  have hpop := contents_pop (textOf x) blank winSize_pos r
  rw [Reader.unreadChar, readerAt, readerAt]
  simp only [windowAt, Nat.cast_succ, Int.add_sub_cancel, hpop, dropIndex_cell,
    Nat.add_sub_cancel]

theorem windowAt_cell {r : Int} {j : Int} (hlow : r - winSize ≤ j) (hhigh : j < r) :
    windowAt x r (cell winSize j) = textOf x j :=
  contents_cell winSize_pos hlow hhigh

/-- The byte in the cell behind the current one is the next to leave the window. -/
theorem window_addIndex (x : List Byte) (r : Nat) :
    (readerAt x r).window (addIndex (readerAt x r).currPos) = textOf x ((r : Int) - winSize) := by
  show windowAt x r (addIndex (cell winSize ((r : Int) - 1))) = _
  rw [addIndex_cell, Int.sub_add_cancel, ← cell_sub_size]
  exact windowAt_cell (Int.le_refl _) (by have := winSize_pos; omega)

/-- What an attempt to read byte `r` gives. -/
def ahead (x : List Byte) (r : Nat) : Option Byte × Reader :=
  if r < x.length then (some (textOf x r), readerAt x (r + 1)) else (none, readerAt x r)

theorem getNextChar_eq (x : List Byte) (r : Nat) : (readerAt x r).getNextChar x = ahead x r := by
  rw [ahead]
  split
  · exact getNextChar_readerAt ‹_›
  · exact getNextChar_end (Nat.le_of_not_lt ‹_›)

/-! ## The first match -/

/-- The match from `o` on has been followed for `c` characters. -/
structure Follows (x : List Byte) (n : Nat) (o : Int) (c : Nat) (s : Search) : Prop where
  count : s.count = c
  shifter : s.shifter = cell winSize (o + c)
  le : n + c ≤ x.length
  low : 1 ≤ c
  high : c ≤ maxLen
  agrees : Agrees x n o c
  oldchar0 : s.oldchar0 = textOf x (n + 1 - winSize)
  oldchar1 : 2 ≤ c → s.oldchar1 = textOf x (n + 2 - winSize)
  oldchar2 : s.oldchar2 = textOf x (n + c - winSize)
  bestoffset : s.bestoffset = cell winSize o

theorem Agrees.succ {x : List Byte} {n : Nat} {o : Int} {c : Nat} (h : Agrees x n o c)
    (hnext : textOf x (n + c) = textOf x (o + c)) : Agrees x n o (c + 1) := by
  intro k hk
  rcases Nat.lt_succ_iff_lt_or_eq.mp hk with hk | rfl
  · exact h k hk
  · exact hnext

variable {n : Nat} {o : Int}

/-- The match is followed up to the first difference, up to the greatest length or up to the end
of the file, and one character has been read behind it. -/
theorem followMatch_spec (left : Nat) {c : Nat} {s : Search} (hlow : n - winSize < o) (hhigh : o < n)
    (h : Follows x n o c s) (hreader : s.reader = readerAt x (n + c)) (hleft : maxLen < left + c) :
    ∃ c', Follows x n o c' (followMatch x left s) ∧
      ((followMatch x left s).ch, (followMatch x left s).reader) = ahead x (n + c') ∧
      ((followMatch x left s).ch ≠ none →
        (followMatch x left s).ch ≠
          some ((followMatch x left s).reader.window (followMatch x left s).shifter) ∨
        (followMatch x left s).count = maxLen) := by
  induction left generalizing c s with
  | zero =>
      have := h.high
      omega
  | succ left ih =>
      have hget : s.reader.getNextChar x = ahead x (n + c) := by rw [hreader, getNextChar_eq]
      rw [followMatch, hget]
      by_cases hend : n + c < x.length
      · have hahead : ahead x (n + c) = (some (textOf x (n + c : Nat)), readerAt x (n + c + 1)) :=
          if_pos hend
        have hwindow : (readerAt x (n + c + 1)).window s.shifter = textOf x (o + c) := by
          rw [h.shifter]
          exact windowAt_cell (by push_cast; omega) (by push_cast; omega)
        have hold := window_addIndex x (n + c + 1)
        rw [hahead]
        dsimp only
        split
        · next hsame =>
            rw [hwindow, Option.some.injEq, h.count] at hsame
            have hfollows : Follows x n o (c + 1)
                { s with
                  reader := readerAt x (n + c + 1)
                  ch := some (textOf x (n + c : Nat))
                  count := s.count + 1
                  oldchar1 := if s.count + 1 = 2 then
                    (readerAt x (n + c + 1)).window
                      (addIndex (readerAt x (n + c + 1)).currPos) else s.oldchar1
                  oldchar2 := (readerAt x (n + c + 1)).window
                    (addIndex (readerAt x (n + c + 1)).currPos)
                  shifter := addIndex s.shifter } :=
              { count := congrArg (· + 1) h.count
                shifter := by
                  rw [h.shifter, addIndex_cell]
                  push_cast
                  rw [Int.add_assoc]
                le := hend
                low := Nat.succ_pos c
                high := hsame.2
                agrees := h.agrees.succ (by rw [← Nat.cast_add]; exact hsame.1)
                oldchar0 := h.oldchar0
                oldchar1 := by
                  intro htwo
                  show (if s.count + 1 = 2 then _ else s.oldchar1) = _
                  rw [h.count]
                  split
                  · next hc =>
                      rw [hold, show n + c + 1 = n + 2 by omega]
                      push_cast
                      rfl
                  · exact h.oldchar1 (by omega)
                oldchar2 := by rw [hold]; push_cast; rw [Int.add_assoc]
                bestoffset := h.bestoffset }
            exact ih hfollows rfl (by omega)
        · next hdiff =>
            refine ⟨c, { h with }, hahead.symm, fun _ => ?_⟩
            by_contra hnot
            rw [not_or, not_not] at hnot
            have hmax : s.count ≠ maxLen := hnot.2
            have hle := h.high
            have hcount := h.count
            exact hdiff ⟨hnot.1, by omega⟩
      · have hahead : ahead x (n + c) = (none, readerAt x (n + c)) := if_neg hend
        rw [hahead]
        dsimp only
        rw [if_neg (by simp)]
        exact ⟨c, { h with }, hahead.symm, fun hne => absurd rfl hne⟩

/-- The previous occurrence lies inside the window, and it is the nearest one. -/
theorem findPrevious_spec {left shifter : Nat} {p : Int} (hlow : n - winSize + left ≤ p)
    (hhigh : p < n) (h : findPrevious (windowAt x (n + 1 : Nat)) (cell winSize n) left
      (cell winSize p) = some shifter) :
    ∃ o : Int, n - winSize < o ∧ o ≤ p ∧ shifter = cell winSize o ∧ textOf x n = textOf x o ∧
      ∀ j, o < j → j ≤ p → textOf x j ≠ textOf x n := by
  induction left generalizing p with
  | zero => cases h
  | succ left ih =>
      push_cast at hlow
      have hp : windowAt x (n + 1 : Nat) (cell winSize p) = textOf x p :=
        windowAt_cell (by push_cast; omega) (by push_cast; omega)
      have hn : windowAt x (n + 1 : Nat) (cell winSize n) = textOf x n :=
        windowAt_cell (by push_cast; have := winSize_pos; omega) (by push_cast; omega)
      rw [findPrevious, hp, hn] at h
      split at h
      · next hsame =>
          exact ⟨p, by omega, Int.le_refl p, (Option.some.inj h).symm, hsame.symm,
            fun j hj hjp => absurd hj (by omega)⟩
      · next hne =>
          rw [dropIndex_cell] at h
          obtain ⟨o, ho, hop, hshifter, hsame, hnearest⟩ := ih (by omega) (by omega) h
          refine ⟨o, ho, by omega, hshifter, hsame, fun j hj hjp => ?_⟩
          rcases Int.lt_or_eq_of_le hjp with hlt | rfl
          · exact hnearest j hj (by omega)
          · exact hne

/-- A character that is not found does not occur among those that were looked at. -/
theorem findPrevious_none {left : Nat} {p : Int} (hlow : n - winSize + left ≤ p)
    (hhigh : p < n) (h : findPrevious (windowAt x (n + 1 : Nat)) (cell winSize n) left
      (cell winSize p) = none) {j : Int} (hj : p - left < j) (hjp : j ≤ p) :
    textOf x j ≠ textOf x n := by
  induction left generalizing p with
  | zero => exact absurd hj (by push_cast; omega)
  | succ left ih =>
      push_cast at hlow hj
      have hp : windowAt x (n + 1 : Nat) (cell winSize p) = textOf x p :=
        windowAt_cell (by push_cast; omega) (by push_cast; omega)
      have hn : windowAt x (n + 1 : Nat) (cell winSize n) = textOf x n :=
        windowAt_cell (by push_cast; have := winSize_pos; omega) (by push_cast; omega)
      rw [findPrevious, hp, hn] at h
      split at h
      · cases h
      · next hne =>
          rw [dropIndex_cell] at h
          rcases Int.lt_or_eq_of_le hjp with hlt | rfl
          · exact ih (by omega) (by omega) h (by omega) (by omega)
          · exact hne

/-- The best match so far; the reader stands behind its last character. -/
structure Best (x : List Byte) (n : Nat) (s : Search) : Prop where
  reader : s.reader = readerAt x (n + s.bestcount)
  ch : s.ch ≠ none ↔ n + s.bestcount < x.length
  le : n + s.bestcount ≤ x.length
  low : 1 ≤ s.bestcount
  high : s.bestcount ≤ maxLen
  oldchar0 : s.oldchar0 = textOf x (n + 1 - winSize)
  oldchar1 : 2 ≤ s.bestcount → s.oldchar1 = textOf x (n + 2 - winSize)
  oldchar2 : s.oldchar2 = textOf x (n + s.bestcount - winSize)
  best : ∃ o : Int, n - winSize ≤ o ∧ o < n ∧ s.bestoffset = cell winSize o ∧
    Agrees x n o s.bestcount

/-- What has been read behind a match is unread, if there is anything. -/
theorem unread_ahead {r : Nat} {ch : Option Byte} {reader : Reader} (old : Byte)
    (h : (ch, reader) = ahead x r) (hold : old = textOf x ((r : Int) - winSize)) :
    (if ch ≠ none then reader.unreadChar old else reader) = readerAt x r := by
  rw [ahead] at h
  split at h
  · obtain ⟨rfl, rfl⟩ := Prod.mk.inj h
    rw [if_pos (Option.some_ne_none _), hold, unreadChar_readerAt]
  · obtain ⟨rfl, rfl⟩ := Prod.mk.inj h
    exact if_neg (not_not.mpr rfl)

theorem ahead_ch {r : Nat} {ch : Option Byte} {reader : Reader}
    (h : (ch, reader) = ahead x r) : ch ≠ none ↔ r < x.length := by
  rw [ahead] at h
  split at h
  · next hlt => simp [(Prod.mk.inj h).1, hlt]
  · next hlt => simp [(Prod.mk.inj h).1, hlt]

/-- The first match, which is as long as it can be. -/
structure First (x : List Byte) (n : Nat) (o : Int) (s : Search) : Prop extends Best x n s where
  shifter : s.shifter = cell winSize (o - 1)
  offset : s.bestoffset = cell winSize o
  agrees : Agrees x n o s.bestcount
  longest : n + s.bestcount < x.length →
    s.bestcount = maxLen ∨ textOf x (n + s.bestcount) ≠ textOf x (o + s.bestcount)

theorem firstMatch_spec (hlow : n - winSize < o) (hhigh : o < n) (hn : n < x.length)
    (hsame : textOf x n = textOf x o) (oldchar1 : Byte) :
    First x n o (firstMatch x (readerAt x (n + 1)) oldchar1 (cell winSize o)) := by
  have hold := window_addIndex x (n + 1)
  have hstart : Follows x n o 1
      { reader := readerAt x (n + 1)
        ch := none
        oldchar0 := (readerAt x (n + 1)).window (addIndex (readerAt x (n + 1)).currPos)
        oldchar1 := oldchar1
        oldchar2 := (readerAt x (n + 1)).window (addIndex (readerAt x (n + 1)).currPos)
        count := 1
        shifter := addIndex (cell winSize o)
        newPos := 0
        bestcount := 1
        bestoffset := cell winSize o } :=
    { count := rfl
      shifter := addIndex_cell o
      le := hn
      low := Nat.le_refl 1
      high := by decide
      agrees := by
        intro k hk
        obtain rfl := Nat.lt_one_iff.mp hk
        simpa using hsame
      oldchar0 := by rw [hold]; push_cast; rfl
      oldchar1 := fun h => absurd h (by decide)
      oldchar2 := by rw [hold]; push_cast; rfl
      bestoffset := rfl }
  obtain ⟨c, hfollows, hahead, hexit⟩ := followMatch_spec maxLen hlow hhigh hstart rfl
    (Nat.lt_succ_self maxLen)
  rw [firstMatch]
  generalize followMatch x maxLen _ = s at hfollows hahead hexit
  have hcount := hfollows.count
  have hreader : (if s.ch ≠ none ∧ (s.ch ≠ some (s.reader.window s.shifter) ∨ s.count = maxLen) then
      s.reader.unreadChar s.oldchar2 else s.reader) = readerAt x (n + c) := by
    have hunread := unread_ahead s.oldchar2 hahead
      (by rw [hfollows.oldchar2]; push_cast; rfl)
    by_cases hch : s.ch ≠ none
    · rw [if_pos ⟨hch, hexit hch⟩]
      rwa [if_pos hch] at hunread
    · rw [if_neg fun h => hch h.1]
      rwa [if_neg hch] at hunread
  subst hcount
  exact
    { shifter := dropIndex_cell o
      offset := hfollows.bestoffset
      agrees := hfollows.agrees
      longest := by
        intro hmore
        rw [ahead, if_pos hmore] at hahead
        obtain ⟨hch, hreader'⟩ := Prod.mk.inj hahead
        have hreason := hexit (by rw [hch]; exact Option.some_ne_none _)
        rw [hch, hreader', hfollows.shifter] at hreason
        have hwindow : (readerAt x (n + s.count + 1)).window (cell winSize (o + s.count)) =
            textOf x (o + s.count) := windowAt_cell (by push_cast; omega) (by push_cast; omega)
        rw [hwindow, ne_eq, Option.some.injEq] at hreason
        push_cast at hreason
        exact hreason.symm
      reader := hreader
      ch := ahead_ch hahead
      le := hfollows.le
      low := hfollows.low
      high := hfollows.high
      oldchar0 := hfollows.oldchar0
      oldchar1 := hfollows.oldchar1
      oldchar2 := hfollows.oldchar2
      best := ⟨o, hlow.le, hhigh, hfollows.bestoffset, hfollows.agrees⟩ }

/-! ## The search for a better match -/

/-- The match from `o` on has been compared for `c` characters. Characters behind the best match
are read when they are needed. -/
structure Compares (x : List Byte) (n : Nat) (o : Int) (b bestoffset c : Nat) (s : Search) :
    Prop where
  count : s.count = c
  shifter : s.shifter = cell winSize (o + c)
  newPos : s.newPos = cell winSize (n + c)
  bestcount : s.bestcount = b
  bestoffset : s.bestoffset = bestoffset
  high : c ≤ maxLen
  agrees : Agrees x n o c
  le : n + c ≤ x.length
  oldchar0 : s.oldchar0 = textOf x (n + 1 - winSize)
  oldchar1 : 2 ≤ max b c → s.oldchar1 = textOf x (n + 2 - winSize)
  oldchar2 : s.oldchar2 = textOf x (n + max b c - winSize)
  behind : c < b → s.reader = readerAt x (n + b) ∧ (s.ch ≠ none ↔ n + b < x.length)
  ahead : b ≤ c → (s.ch, s.reader) = ahead x (n + c)

theorem compareMatch_spec (left : Nat) {b bestoffset c : Nat} {s : Search} (hb : 1 ≤ b)
    (hlow : n + b - winSize ≤ o) (hhigh : o < n) (h : Compares x n o b bestoffset c s)
    (hleft : maxLen ≤ left + c) :
    ∃ c', Compares x n o b bestoffset c' (Search.compareMatch x left s) ∧
      ((Search.compareMatch x left s).ch ≠ none → maxLen ≤ c' ∨
        (Search.compareMatch x left s).reader.window (Search.compareMatch x left s).shifter ≠
          (Search.compareMatch x left s).reader.window
            (Search.compareMatch x left s).newPos) := by
  induction left generalizing c s with
  | zero => exact ⟨c, h, fun _ => .inl (by omega)⟩
  | succ left ih =>
      rw [Search.compareMatch]
      split
      · next hcond =>
          obtain ⟨hch, hsame, hcount⟩ := hcond
          rw [h.count] at hcount
          -- where the reader stands before this character
          obtain ⟨r, hreader, hlt, hpos⟩ : ∃ r, s.reader = readerAt x r ∧ n + c < x.length ∧
              (c < b ∧ r = n + b ∧ r < x.length ∨ b ≤ c ∧ r = n + c + 1) := by
            by_cases hc : c < b
            · obtain ⟨hreader, hmore⟩ := h.behind hc
              have hmore' := hmore.mp hch
              exact ⟨n + b, hreader, by omega, .inl ⟨hc, rfl, hmore'⟩⟩
            · have hahead := h.ahead (Nat.le_of_not_lt hc)
              have hmore := (ahead_ch hahead).mp hch
              rw [LZ77.ahead, if_pos hmore] at hahead
              exact ⟨n + c + 1, (Prod.mk.inj hahead).2, hmore, .inr ⟨Nat.le_of_not_lt hc, rfl⟩⟩
          have hsource : s.reader.window s.shifter = textOf x (o + c) := by
            rw [hreader, h.shifter]
            exact windowAt_cell (by omega) (by omega)
          have htarget : s.reader.window s.newPos = textOf x (n + c) := by
            rw [hreader, h.newPos]
            exact windowAt_cell (by have : maxLen < winSize := by decide
                                    have := h.high; omega) (by omega)
          have hagrees : Agrees x n o (c + 1) :=
            h.agrees.succ (by rw [← hsource, ← htarget, hsame])
          have hshifter : addIndex s.shifter = cell winSize (o + (c + 1 : Nat)) := by
            rw [h.shifter, addIndex_cell, Int.add_assoc, Nat.cast_succ]
          have hnewPos : addIndex s.newPos = cell winSize (n + (c + 1 : Nat)) := by
            rw [h.newPos, addIndex_cell, Int.add_assoc, Nat.cast_succ]
          split
          · next hread =>
              -- the reader comes to stand behind the next character
              rw [h.bestcount, h.count] at hread
              obtain rfl : r = n + (c + 1) := by omega
              have hold := window_addIndex x (n + (c + 1))
              have hmax : max b (c + 1) = c + 1 := Nat.max_eq_right (by omega)
              rw [hreader, getNextChar_eq]
              apply ih (c := c + 1) _ (by omega)
              exact
                { count := congrArg (· + 1) h.count
                  shifter := hshifter
                  newPos := hnewPos
                  bestcount := h.bestcount
                  bestoffset := h.bestoffset
                  high := hcount
                  agrees := hagrees
                  le := hlt
                  oldchar0 := h.oldchar0
                  oldchar1 := by
                    intro htwo
                    show (if s.count = 1 then _ else s.oldchar1) = _
                    rw [h.count]
                    split
                    · next hone =>
                        rw [hold, hone]
                        push_cast
                        rfl
                    · exact h.oldchar1 (by omega)
                  oldchar2 := by
                    show (readerAt x (n + (c + 1))).window _ = _
                    rw [hold, hmax]
                    push_cast
                    rfl
                  behind := fun hlt => absurd hlt (by omega)
                  ahead := fun _ => rfl }
          · next hread =>
              rw [h.bestcount, h.count] at hread
              have hmax : max b (c + 1) = max b c := by omega
              apply ih (c := c + 1) _ (by omega)
              exact
                { count := congrArg (· + 1) h.count
                  shifter := hshifter
                  newPos := hnewPos
                  bestcount := h.bestcount
                  bestoffset := h.bestoffset
                  high := hcount
                  agrees := hagrees
                  le := hlt
                  oldchar0 := h.oldchar0
                  oldchar1 := by rw [hmax]; exact h.oldchar1
                  oldchar2 := by rw [hmax]; exact h.oldchar2
                  behind := fun _ => h.behind (by omega)
                  ahead := fun hle => absurd hle (by omega) }
      · next hcond =>
          refine ⟨c, h, fun hch => ?_⟩
          by_contra hnot
          rw [not_or, not_not] at hnot
          exact hcond ⟨hch, hnot.2, by rw [h.count]; omega⟩

/-- A match that starts outside the characters read ahead can only improve the best one. -/
theorem tryMatch_spec {s : Search} (h : Best x n s) (hlow : n + s.bestcount - winSize ≤ o)
    (hhigh : o < n) :
    Best x n (s.tryMatch x (cell winSize n) (cell winSize o)) ∧
      (s.tryMatch x (cell winSize n) (cell winSize o)).shifter = cell winSize (o - 1) := by
  have hlow1 := h.low
  have hstart : Compares x n o s.bestcount s.bestoffset 0
      { s with count := 0, shifter := cell winSize o, newPos := cell winSize n } :=
    { count := rfl
      shifter := by simp
      newPos := by simp
      bestcount := rfl
      bestoffset := rfl
      high := Nat.zero_le _
      agrees := fun k hk => absurd hk (Nat.not_lt_zero k)
      le := by have := h.le; omega
      oldchar0 := h.oldchar0
      oldchar1 := by rw [Nat.max_zero]; exact h.oldchar1
      oldchar2 := by rw [Nat.max_zero]; exact h.oldchar2
      behind := fun _ => ⟨h.reader, h.ch⟩
      ahead := fun hle => absurd hle (by omega) }
  obtain ⟨c, ht, hexit⟩ := compareMatch_spec maxLen h.low hlow hhigh hstart
    (Nat.le_refl _)
  refine ⟨?_, dropIndex_cell o⟩
  rw [Search.tryMatch]
  generalize Search.compareMatch x maxLen _ = t at ht hexit
  have hcount := ht.count
  have hbest := ht.bestcount
  by_cases hc : c < s.bestcount
  · -- a shorter match: nothing has been read
    obtain ⟨hreader, hch⟩ := ht.behind hc
    have hmax : max s.bestcount c = s.bestcount := by omega
    have holdchar1 := ht.oldchar1
    have holdchar2 := ht.oldchar2
    have hhigh' := h.high
    have hkeep : ¬ t.bestcount < t.count := by omega
    rw [hmax] at holdchar1 holdchar2
    simp only [if_neg hkeep]
    rw [if_neg (by omega)]
    exact
      { reader := by rw [hbest]; exact hreader
        ch := by rw [hbest]; exact hch
        le := by rw [hbest]; exact h.le
        low := by rw [hbest]; exact h.low
        high := by rw [hbest]; exact h.high
        oldchar0 := ht.oldchar0
        oldchar1 := by rw [hbest]; exact holdchar1
        oldchar2 := by rw [hbest]; exact holdchar2
        best := by rw [hbest, ht.bestoffset]; exact h.best }
  · have hahead := ht.ahead (Nat.le_of_not_lt hc)
    have hmax : max s.bestcount c = c := by omega
    have holdchar1 := ht.oldchar1
    have holdchar2 := ht.oldchar2
    rw [hmax] at holdchar1 holdchar2
    have hnew : (if t.bestcount < t.count then t.count else t.bestcount) = c := by
      split <;> omega
    have hreader : (if t.ch ≠ none ∧ (maxLen ≤ t.count ∨
        (t.reader.window t.shifter ≠ t.reader.window t.newPos ∧ t.bestcount ≤ t.count)) then
          t.reader.unreadChar t.oldchar2 else t.reader) = readerAt x (n + c) := by
      have hunread := unread_ahead t.oldchar2 hahead
        (by rw [holdchar2]; push_cast; rfl)
      by_cases hch : t.ch ≠ none
      · have hreason := hexit hch
        rw [if_pos ⟨hch, hreason.imp (fun hlong => by omega) fun hdiff => ⟨hdiff, by omega⟩⟩]
        rwa [if_pos hch] at hunread
      · rw [if_neg fun h => hch h.1]
        rwa [if_neg hch] at hunread
    simp only [hnew]
    exact
      { reader := hreader
        ch := ahead_ch hahead
        le := ht.le
        low := by
          show 1 ≤ c
          omega
        high := ht.high
        oldchar0 := ht.oldchar0
        oldchar1 := holdchar1
        oldchar2 := holdchar2
        best := by
          by_cases hlonger : t.bestcount < t.count
          · exact ⟨o, by omega, hhigh, if_pos hlonger, ht.agrees⟩
          · obtain ⟨o', ho', hho', hoffset, hagrees⟩ := h.best
            have heq : s.bestcount = c := by omega
            refine ⟨o', ho', hho', ?_, heq ▸ hagrees⟩
            rw [← hoffset, ← ht.bestoffset]
            exact if_neg hlonger }

/-- The next start of a match lies outside the characters read ahead, unless there is none. -/
theorem nextStart_spec (window : Nat → Byte) {currPos : Nat} (savePos : Nat) {q : Int}
    (hq : cell winSize q = currPos) (left : Nat) {p : Int} (hlow : q ≤ p)
    (hleft : p < q + left) :
    ∃ p' : Int, q ≤ p' ∧ p' ≤ p ∧
      Search.nextStart window currPos savePos left (cell winSize p) = cell winSize p' := by
  induction left generalizing p with
  | zero => exact absurd hleft (by omega)
  | succ left ih =>
      rw [Search.nextStart]
      split
      · next hgo =>
          have hne : p ≠ q := fun heq => hgo.1 (heq ▸ hq)
          rw [dropIndex_cell]
          obtain ⟨p', hp', hpp', hstart⟩ := ih (p := p - 1) (by omega) (by push_cast at hleft; omega)
          exact ⟨p', hp', by omega, hstart⟩
      · exact ⟨p, hlow, Int.le_refl p, rfl⟩

/-- The search stands on characters that it has read ahead and that have wrapped round the end of
the window, in front of the current one; `InBetween` does not see this. -/
def Search.Reenters (savePos : Nat) (s : Search) : Prop :=
  s.reader.currPos < savePos ∧ s.shifter < s.reader.currPos ∧ s.bestcount < maxLen

/-- A state in which the search tests whether it goes on. -/
inductive Search.Reaches (infile : List Byte) (savePos : Nat) : Search → Search → Prop where
  | here (s : Search) : Reaches infile savePos s s
  | next {s t u : Search} : s.goesOn savePos = true → s.tryNext infile savePos = some t →
      Reaches infile savePos t u → Reaches infile savePos s u

/-- The search never stands on characters that `InBetween` does not see. -/
def Search.StaysOut (infile : List Byte) (savePos : Nat) (s : Search) : Prop :=
  ∀ t, Reaches infile savePos s t → ¬ t.Reenters savePos

/-- Where the search goes on, it looks at characters from before those read ahead. -/
theorem goesOn_outside {s : Search} {p : Int} (h : Best x n s) (hshifter : s.shifter = cell winSize p)
    (hlow : n - winSize ≤ p) (hgo : s.goesOn (cell winSize n) = true)
    (hout : ¬ s.Reenters (cell winSize n)) : n + s.bestcount - winSize ≤ p := by
  by_contra hinside
  have hb := h.high
  rw [Search.goesOn, decide_eq_true_eq] at hgo
  obtain ⟨hne, hshort, hbetween⟩ := hgo
  have hlow1 := h.low
  have hcurr : s.reader.currPos = (n + s.bestcount - 1) % winSize := by
    rw [h.reader, ← cell_natCast]
    show cell winSize (((n + s.bestcount : Nat) : Int) - 1) = _
    congr 1
    omega
  obtain ⟨t, ht, hcell⟩ : ∃ t : Nat, t < s.bestcount ∧ cell winSize p = (n + t) % winSize := by
    refine ⟨(p + winSize - n).toNat, by omega, ?_⟩
    rw [← cell_add_size, ← cell_natCast]
    congr 1
    omega
  rw [cell_natCast] at hbetween hout
  rw [hshifter, hcell, hcurr] at hbetween hne
  rw [Search.Reenters, hshifter, hcell, hcurr] at hout
  have hoff : ¬ (n % winSize ≤ (n + t) % winSize ∧ (n + t) % winSize ≤
      if (n + s.bestcount - 1) % winSize < n % winSize then
        (n + s.bestcount - 1) % winSize + winSize
      else (n + s.bestcount - 1) % winSize) := of_decide_eq_false hbetween
  by_cases hwrap : (n + s.bestcount - 1) % winSize < n % winSize
  · rw [if_pos hwrap] at hoff
    simp only [winSize, maxLen] at *
    omega
  · rw [if_neg hwrap] at hoff
    simp only [winSize, maxLen] at *
    omega

/-- The next place of a search that stays out of the characters read ahead. -/
theorem tryNext_spec {s t : Search} {p : Int} (h : Best x n s)
    (hshifter : s.shifter = cell winSize p) (hlow : n - winSize ≤ p) (hhigh : p < n)
    (hgo : s.goesOn (cell winSize n) = true) (hout : ¬ s.Reenters (cell winSize n))
    (hnext : s.tryNext x (cell winSize n) = some t) :
    Best x n t ∧ ∃ p' : Int, t.shifter = cell winSize p' ∧ n - winSize ≤ p' ∧ p' < p := by
  have hinside := goesOn_outside h hshifter hlow hgo hout
  have hlow1 := h.low
  have hq : cell winSize (n + s.bestcount - 1 - winSize) = s.reader.currPos := by
    rw [cell_sub_size, h.reader]
    exact congrArg _ (by push_cast; rfl)
  obtain ⟨p', hqp', hpp', hstart⟩ := nextStart_spec s.reader.window (cell winSize n) hq winSize
    (p := p) (by omega) (by omega)
  rw [Search.tryNext, hshifter, hstart] at hnext
  split at hnext
  · cases hnext
  · next hne =>
      have hne' : p' ≠ n + s.bestcount - 1 - winSize := fun heq => hne (heq ▸ hq)
      obtain rfl := Option.some.inj hnext
      obtain ⟨hbest, hshifter'⟩ := tryMatch_spec h (o := p') (by omega) (by omega)
      exact ⟨hbest, p' - 1, hshifter', by omega, by omega⟩

/-- The search ends with a best match, when it stays out of the characters read ahead. -/
theorem findBest_spec (fuel : Nat) {s : Search} {p : Int} (h : Best x n s)
    (hshifter : s.shifter = cell winSize p) (hlow : n - winSize ≤ p) (hhigh : p < n)
    (hout : s.StaysOut x (cell winSize n)) :
    (∀ s', Search.findBest x (cell winSize n) fuel s = some s' → Best x n s') ∧
      (p < n - winSize + fuel → (Search.findBest x (cell winSize n) fuel s).isSome) := by
  induction fuel generalizing s p with
  | zero => exact ⟨fun s' hs' => (by cases hs'), fun hfuel => absurd hfuel (by omega)⟩
  | succ fuel ih =>
      rw [Search.findBest]
      split
      · next hgo =>
          split
          · exact ⟨fun s' hs' => Option.some.inj hs' ▸ h, fun _ => rfl⟩
          · next t hnext =>
              obtain ⟨hbest, p', hshifter', hlow', hpp'⟩ :=
                tryNext_spec h hshifter hlow hhigh hgo (hout s (.here s)) hnext
              have hrest := ih hbest hshifter' hlow' (by omega)
                fun u hu => hout u (.next hgo hnext hu)
              exact ⟨hrest.1, fun hfuel => hrest.2 (by push_cast at hfuel; omega)⟩
      · exact ⟨fun s' hs' => Option.some.inj hs' ▸ h, fun _ => rfl⟩

/-- As long as the text fits into the window, no search can enter what it has read ahead. -/
theorem staysOut_of_short {s : Search} {p : Int} (h : Best x n s)
    (hshifter : s.shifter = cell winSize p) (hlow : n - winSize ≤ p) (hhigh : p < n)
    (hshort : x.length ≤ winSize) : s.StaysOut x (cell winSize n) := by
  have hnever : ∀ t, Best x n t → ¬ t.Reenters (cell winSize n) := by
    intro t ht hreenters
    have hle := ht.le
    have hlow1 := ht.low
    have hcurr : t.reader.currPos = (n + t.bestcount - 1) % winSize := by
      rw [ht.reader, ← cell_natCast]
      show cell winSize (((n + t.bestcount : Nat) : Int) - 1) = _
      congr 1
      omega
    have hwrap := hreenters.1
    rw [hcurr, cell_natCast, Nat.mod_eq_of_lt (by omega), Nat.mod_eq_of_lt (by omega)] at hwrap
    omega
  intro t hreaches
  induction hreaches generalizing p with
  | here s => exact hnever s h
  | next hgo hnext _ ih =>
      obtain ⟨hbest, p', hshifter', hlow', hpp'⟩ :=
        tryNext_spec h hshifter hlow hhigh hgo (hnever _ h) hnext
      exact ih hbest hshifter' hlow' (by omega)

end TinyCLR.Support.LZ77
