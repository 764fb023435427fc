import Mathlib
import TinyCLR.Library.TransitionSystem
import TinyCLR.Support.LZ77Search

/-!
# The round trip of the compression

Each pass of `Execute` spells some more bytes of the file. What it writes is decompressed to the
file, as long as no search enters characters read ahead that have wrapped round the end of the
window. `InBetween` is meant to prevent this, and fails to.
-/

namespace TinyCLR.Support.LZ77

open SlidingWindow TransitionSystem

/-- The compressor in front of byte `n`, which it has read; the items before it are saved. -/
structure Head (x : List Byte) (n : Nat) (items : List Item) (c : Compressor) : Prop where
  read : (c.ch, c.reader) = ahead x n
  le : n ≤ x.length
  spells : Spells x 0 items n
  writer : c.writer.Holds items

variable {x : List Byte} {n : Nat} {items : List Item} {c : Compressor}

theorem Head.ch (h : Head x n items c) (hn : n < x.length) : c.ch = some (textOf x n) := by
  have hread := h.read
  rw [ahead, if_pos hn] at hread
  exact (Prod.mk.inj hread).1

theorem Head.reader (h : Head x n items c) (hn : n < x.length) : c.reader = readerAt x (n + 1) := by
  have hread := h.read
  rw [ahead, if_pos hn] at hread
  exact (Prod.mk.inj hread).2

theorem Head.ch_none (h : Head x n items c) : c.ch = none ↔ n = x.length := by
  have hle := h.le
  have hch := ahead_ch h.read
  rw [← not_iff_not]
  exact hch.trans (by omega)

theorem currPos_readerAt (x : List Byte) (n : Nat) :
    (readerAt x (n + 1)).currPos = cell winSize n := by
  show cell winSize (((n + 1 : Nat) : Int) - 1) = _
  congr 1
  push_cast
  omega

theorem Spells.snoc {m : Nat} {item : Item} (h : Spells x m items n) (hfits : item.Fits x n) :
    Spells x m (items ++ [item]) (n + item.length) :=
  h.append (.cons hfits (.nil _))

theorem fits_single (h : n < x.length) : (Item.single (textOf x n)).Fits x n := by
  rw [Item.Fits, Decoder.textOf_natCast, List.getD_eq_getElem _ _ h]
  exact List.getElem?_eq_getElem h

/-- The restored window behind a match of two characters or less. -/
theorem restore_one (x : List Byte) (r : Nat) :
    Function.update (windowAt x (r + 1 : Nat)) (cell winSize r) (textOf x ((r : Int) - winSize)) =
      windowAt x r := by
  rw [windowAt, Nat.cast_succ]
  exact contents_pop _ _ winSize_pos r

theorem restore_two (x : List Byte) (r : Nat) :
    Function.update (Function.update (windowAt x (r + 2 : Nat)) (cell winSize r)
      (textOf x ((r : Int) - winSize))) (cell winSize (r + 1 : Nat))
        (textOf x (((r + 1 : Nat) : Int) - winSize)) = windowAt x r := by
  have hne : cell winSize r ≠ cell winSize (r + 1 : Nat) := by
    intro heq
    have hone : (1 : Int) < winSize := by decide
    have := (cell_inj winSize_pos (by push_cast; omega) (by push_cast; omega)).mp heq
    push_cast at this
    omega
  rw [Function.update_comm hne, restore_one, restore_one]

theorem passSingle_spec (hwriter : c.writer.Holds items) (hspells : Spells x 0 items n)
    (hreader : c.reader = readerAt x (n + 1)) (hn : n < x.length) :
    Head x (n + 1) (items ++ [.single (textOf x n)]) (c.passSingle x (textOf x n)) where
  read := by
    have hget := getNextChar_eq x (n + 1)
    rw [← hreader] at hget
    exact hget
  le := hn
  spells := hspells.snoc (fits_single hn)
  writer := hwriter.saveUncompByte _

theorem giveUpMatch_reader {s : Search} (h : Best x n s) (hshort : s.bestcount < 3) :
    (c.giveUpMatch (cell winSize n) s (some (textOf x (n + s.bestcount : Nat)))
      (readerAt x (n + s.bestcount + 1))).reader = readerAt x (n + 1) := by
  have hlow := h.low
  have hcell : addIndex (cell winSize n) = cell winSize (n + 1 : Nat) := addIndex_cell n
  have hcell' : addIndex (cell winSize (n + 1 : Nat)) = cell winSize (n + 1 + 1 : Nat) :=
    addIndex_cell _
  have hold0 : s.oldchar0 = textOf x (((n + 1 : Nat) : Int) - winSize) := h.oldchar0
  rcases (show s.bestcount = 1 ∨ s.bestcount = 2 by omega) with hone | htwo
  · rw [Compressor.giveUpMatch, hone]
    simp only [hcell, hold0, readerAt, OfNat.one_ne_ofNat, if_false, Reader.mk.injEq]
    refine ⟨restore_one x (n + 1), ?_, rfl⟩
    rw [dropIndex_cell]
    congr 1
    push_cast
    omega
  · have hold1 : s.oldchar1 = textOf x (((n + 1 + 1 : Nat) : Int) - winSize) := by
      rw [h.oldchar1 htwo.ge]
      congr 2
    rw [Compressor.giveUpMatch, htwo]
    simp only [hcell, hcell', hold0, hold1, readerAt, if_true, Reader.mk.injEq]
    refine ⟨restore_two x (n + 1), ?_, by omega⟩
    rw [dropIndex_cell, dropIndex_cell]
    congr 1
    push_cast
    omega

/-- The end of a pass that has found a best match. -/
theorem finishMatch_spec {s : Search} (hwriter : c.writer.Holds items)
    (hspells : Spells x 0 items n) (hn : n + 3 ≤ x.length) (h : Best x n s) :
    ∃ item, item.Fits x n ∧ (3 ≤ s.bestcount → item = .code s.bestcount s.bestoffset) ∧
      Head x (n + item.length) (items ++ [item]) (c.finishMatch x (cell winSize n) s) := by
  have hlow := h.low
  have hhigh := h.high
  by_cases hshort : s.bestcount < 3
  · -- the match is given up: its first character is saved, the others are put back
    have hlt : n + s.bestcount < x.length := by omega
    have hch := h.ch.mpr hlt
    have hwindow : windowAt x (n + s.bestcount + 1 : Nat) (cell winSize n) = textOf x n := by
      have hsize : (3 : Int) ≤ winSize := by decide
      exact windowAt_cell (by push_cast; omega) (by push_cast; omega)
    have hfinish : c.finishMatch x (cell winSize n) s =
        (c.giveUpMatch (cell winSize n) s (some (textOf x (n + s.bestcount : Nat)))
          (readerAt x (n + s.bestcount + 1))).nextChar x := by
      rw [Compressor.finishMatch, if_pos hch, h.reader, getNextChar_readerAt hlt]
      dsimp only
      rw [if_pos ⟨Option.some_ne_none _, hhigh⟩, if_pos hshort]
    refine ⟨.single (textOf x n), fits_single (by omega),
      fun hlong => absurd hlong (by omega), ?_⟩
    rw [hfinish]
    exact
      { read := by
          have hget := getNextChar_eq x (n + 1)
          rw [← giveUpMatch_reader (c := c) h hshort] at hget
          exact hget
        le := by
          show n + 1 ≤ x.length
          omega
        spells := hspells.snoc (fits_single (by omega))
        writer := by
          show Writer.Holds _ (c.writer.saveUncompByte (windowAt x _ (cell winSize n)))
          rw [hwindow]
          exact hwriter.saveUncompByte _ }
  · have hfits : (Item.code s.bestcount s.bestoffset).Fits x n :=
      ⟨Nat.le_of_not_lt hshort, hhigh, h.le, h.best⟩
    refine ⟨_, hfits, fun _ => rfl, ?_⟩
    have hread : (((c.finishMatch x (cell winSize n) s).ch),
        (c.finishMatch x (cell winSize n) s).reader) = ahead x (n + s.bestcount) ∧
        (c.finishMatch x (cell winSize n) s).writer =
          c.writer.saveCode s.bestcount s.bestoffset := by
      by_cases hch : s.ch ≠ none
      · have hlt := h.ch.mp hch
        have hfinish : c.finishMatch x (cell winSize n) s =
            (c.saveMatch s (some (textOf x (n + s.bestcount : Nat)))
              (readerAt x (n + s.bestcount + 1))).nextChar x := by
          rw [Compressor.finishMatch, if_pos hch, h.reader, getNextChar_readerAt hlt]
          dsimp only
          rw [if_pos ⟨Option.some_ne_none _, hhigh⟩, if_neg hshort]
        have hunread : (c.saveMatch s (some (textOf x (n + s.bestcount : Nat)))
            (readerAt x (n + s.bestcount + 1))).reader = readerAt x (n + s.bestcount) := by
          have hold : s.oldchar2 = textOf x (((n + s.bestcount : Nat) : Int) - winSize) := by
            rw [h.oldchar2]
            push_cast
            rfl
          rw [Compressor.saveMatch]
          dsimp only
          rw [if_pos (Option.some_ne_none _), hold, unreadChar_readerAt]
        have hget := getNextChar_eq x (n + s.bestcount)
        rw [← hunread] at hget
        rw [hfinish]
        exact ⟨hget, rfl⟩
      · have hend : ¬ n + s.bestcount < x.length := fun hlt => hch (h.ch.mpr hlt)
        have hnone : s.ch = none := not_not.mp hch
        have hfinish : c.finishMatch x (cell winSize n) s = c.saveMatch s none s.reader := by
          rw [Compressor.finishMatch, if_neg hch, hnone]
          dsimp only
          rw [if_neg (fun h => h.1 rfl), if_neg hshort]
        rw [hfinish, ahead, if_neg hend, h.reader]
        exact ⟨rfl, rfl⟩
    exact
      { read := hread.1
        le := h.le
        spells := hspells.snoc hfits
        writer := by
          rw [hread.2]
          exact hwriter.saveCode _ _ }

/-! ## Passes -/

/-- The search of a pass, if there is one, stays out of the characters read ahead that have
wrapped round the end of the window. -/
def Compressor.StaysOut (infile : List Byte) (c : Compressor) : Prop :=
  ∀ shifter, 2 ≤ infile.length - c.reader.infilePos →
    findPrevious c.reader.window c.reader.currPos (winSize - 1) (dropIndex c.reader.currPos) =
      some shifter →
    (firstMatch infile c.reader c.oldchar1 shifter).StaysOut infile c.reader.currPos

/-- The first match of a pass that finds the current character in the window. -/
theorem Head.firstMatch (h : Head x n items c) (hn : n < x.length) {shifter : Nat}
    (hfound : findPrevious c.reader.window c.reader.currPos (winSize - 1)
      (dropIndex c.reader.currPos) = some shifter) :
    ∃ o : Int, n - winSize < o ∧ o < n ∧ shifter = cell winSize o ∧
      (∀ j, o < j → j < n → textOf x j ≠ textOf x n) ∧
      First x n o (LZ77.firstMatch x c.reader c.oldchar1 shifter) := by
  rw [h.reader hn, currPos_readerAt, dropIndex_cell] at hfound
  obtain ⟨o, hlow, hhigh, rfl, hsame, hnearest⟩ :=
    findPrevious_spec (by have : winSize = 4096 := rfl; omega) (by omega) hfound
  refine ⟨o, hlow, by omega, rfl, fun j hj hjn => hnearest j hj (by omega), ?_⟩
  rw [h.reader hn]
  exact firstMatch_spec hlow (by omega) hn hsame c.oldchar1

/-- A pass spells some bytes, and it ends. -/
theorem pass_spec (fuel : Nat) (h : Head x n items c) (hn : n < x.length)
    (hout : c.StaysOut x) :
    (∀ c', c.pass x fuel (textOf x n) = some c' →
      ∃ item, item.Fits x n ∧ Head x (n + item.length) (items ++ [item]) c') ∧
    (winSize ≤ fuel → (c.pass x fuel (textOf x n)).isSome) := by
  have hcurr : c.reader.currPos = cell winSize n := by rw [h.reader hn, currPos_readerAt]
  have hsingle : ∃ item, item.Fits x n ∧
      Head x (n + item.length) (items ++ [item]) (c.passSingle x (textOf x n)) :=
    ⟨_, fits_single hn, passSingle_spec h.writer h.spells (h.reader hn) hn⟩
  rw [Compressor.pass]
  split
  · exact ⟨fun c' hc' => Option.some.inj hc' ▸ hsingle, fun _ => rfl⟩
  · next hfar =>
      split
      · exact ⟨fun c' hc' => Option.some.inj hc' ▸ hsingle, fun _ => rfl⟩
      · next shifter hfound =>
          have hstays := hout shifter (Nat.le_of_not_lt hfar) hfound
          have hfar' : n + 3 ≤ x.length := by
            have hpos : c.reader.infilePos = n + 1 := by rw [h.reader hn]; rfl
            omega
          obtain ⟨o, hlow, hhigh, -, -, hfirst⟩ := h.firstMatch hn hfound
          rw [hcurr] at hstays ⊢
          have hfind := findBest_spec fuel hfirst.toBest hfirst.shifter (by omega) (by omega) hstays
          constructor
          · intro c' hc'
            obtain ⟨s', hs', rfl⟩ := Option.map_eq_some_iff.mp hc'
            obtain ⟨item, hfits, -, hhead⟩ :=
              finishMatch_spec h.writer h.spells hfar' (hfind.1 s' hs')
            exact ⟨item, hfits, hhead⟩
          · intro hfuel
            rw [Option.isSome_map]
            exact hfind.2 (by omega)

/-! ## Runs -/

/-- The step of the loop of `Execute`; the action is the fuel of the pass. -/
def passStep (infile : List Byte) (c : Compressor) (fuel : Nat) : Option Compressor :=
  c.ch.bind fun ch => c.pass infile fuel ch

/-- In no pass of `Execute` does the search stand on characters read ahead that have wrapped round
the end of the window. -/
def Clean (x : List Byte) (oldchar1 : Byte) : Prop :=
  ∀ c, Reachable (passStep x) (· = Compressor.start x oldchar1) (fun _ _ => True) c → c.StaysOut x

theorem head_start (x : List Byte) (oldchar1 : Byte) :
    Head x 0 [] (Compressor.start x oldchar1) where
  read := by
    have hget := getNextChar_eq x 0
    have hreader : readerAt x 0 = ⟨fun _ => blank, dropIndex 0, 0⟩ := by
      rw [readerAt, windowAt_zero]
      rfl
    rw [hreader] at hget
    exact hget
  le := Nat.zero_le _
  spells := .nil 0
  writer := Writer.holds_start

/-- From every head the loop reaches the end of the file. -/
theorem passes_spec {oldchar1 : Byte} (hclean : Clean x oldchar1) {fuel : Nat}
    (h : Head x n items c)
    (hreach : Reachable (passStep x) (· = Compressor.start x oldchar1) (fun _ _ => True) c)
    (hfuel : winSize + (x.length - n) < fuel) :
    ∃ c' items', c.passes x fuel = some c' ∧ Head x x.length items' c' := by
  induction fuel generalizing n items c with
  | zero => exact absurd hfuel (Nat.not_lt_zero _)
  | succ fuel ih =>
      rw [Compressor.passes]
      by_cases hend : n = x.length
      · rw [h.ch_none.mpr hend]
        exact ⟨c, items, rfl, hend ▸ h⟩
      · have hn : n < x.length := Nat.lt_of_le_of_ne h.le hend
        obtain ⟨hreturns, htotal⟩ := pass_spec fuel h hn (hclean c hreach)
        obtain ⟨c', hpass⟩ := Option.isSome_iff_exists.mp (htotal (by omega))
        obtain ⟨item, hfits, hhead⟩ := hreturns c' hpass
        have hpos := Item.length_pos hfits
        have hstep : passStep x c fuel = some c' := by
          rw [passStep, h.ch hn]
          exact hpass
        rw [h.ch hn]
        dsimp only
        rw [hpass]
        exact ih hhead (hreach.next trivial hstep) (by omega)

/-- What the compressor writes is accepted, taken to its end and decompressed to the file. -/
def RoundTrips (x : List Byte) (oldchar1 : Byte) : Prop :=
  ∃ fuel out d, Compressor.execute x fuel oldchar1 = some out ∧
    decompress out x.length = .ok d ∧ d.outBuf = x ∧ d.inBuf = out.length

theorem roundTrips_of_clean {oldchar1 : Byte} (hclean : Clean x oldchar1) :
    RoundTrips x oldchar1 := by
  have hfuel : winSize + (x.length - 0) < winSize + x.length + 1 := by omega
  obtain ⟨c, items, hpasses, hhead⟩ :=
    passes_spec hclean (head_start x oldchar1) (.start rfl) hfuel
  obtain ⟨blocks, hout, hblocks, rfl⟩ := hhead.writer.writeFlagByte
  obtain ⟨d, hdecode, houtBuf, hin⟩ := decompress_blocks hblocks hhead.spells
  refine ⟨winSize + x.length + 1, blocks.flatMap encodeBlock, d, ?_, hdecode, houtBuf, hin⟩
  rw [Compressor.execute, hpasses, ← hout]
  rfl

/-- A file that fits into the window is compressed and decompressed faithfully. -/
theorem clean_of_short (hshort : x.length ≤ winSize) (oldchar1 : Byte) : Clean x oldchar1 := by
  have hstays : ∀ {n items c}, Head x n items c → c.StaysOut x := by
    intro n items c h shifter hfar hfound
    have hn : n < x.length := by
      by_contra hge
      have hread := h.read
      rw [ahead, if_neg hge] at hread
      rw [(Prod.mk.inj hread).2] at hfar
      have hpos : (readerAt x n).infilePos = n := rfl
      omega
    obtain ⟨o, hlow, hhigh, -, -, hfirst⟩ := h.firstMatch hn hfound
    rw [h.reader hn, currPos_readerAt, ← h.reader hn]
    exact staysOut_of_short hfirst.toBest hfirst.shifter (by omega) (by omega) hshort
  have hhead : ∀ c, Reachable (passStep x) (· = Compressor.start x oldchar1) (fun _ _ => True) c →
      ∃ n items, Head x n items c := by
    intro c hreach
    refine hreach.invariant (fun c => ∃ n items, Head x n items c) ?_ ?_
    · rintro _ rfl
      exact ⟨0, [], head_start x oldchar1⟩
    · rintro c fuel c' ⟨n, items, h⟩ - hstep
      obtain ⟨ch, hch, hpass⟩ := Option.bind_eq_some_iff.mp hstep
      have hn : n < x.length := by
        refine Nat.lt_of_le_of_ne h.le fun hend => ?_
        rw [h.ch_none.mpr hend] at hch
        cases hch
      obtain rfl := Option.some.inj ((h.ch hn).symm.trans hch)
      obtain ⟨item, -, hhead⟩ := (pass_spec fuel h hn (hstays h)).1 c' hpass
      exact ⟨_, _, hhead⟩
  intro c hreach
  obtain ⟨n, items, h⟩ := hhead c hreach
  exact hstays h

/-- Where `InBetween` is not deceived, compression and decompression are inverse. Whatever its
input is, the decompressor stays inside its buffers. -/
theorem lz77_sound (x : List Byte) (oldchar1 : Byte) (input : List Byte) (outSize : Nat) :
    (Clean x oldchar1 → RoundTrips x oldchar1) ∧
      Decoder.Everywhere (Decoder.Safe input outSize) (decompress input outSize) :=
  ⟨roundTrips_of_clean, decompress_safe input outSize⟩

/-- The letters `abcabc`. -/
theorem lz77_sound_sample : RoundTrips [0x61, 0x62, 0x63, 0x61, 0x62, 0x63] 0 :=
  (lz77_sound _ 0 [] 0).1 (clean_of_short (by decide) 0)

/-! ## A file that is not restored -/

/-- A pass without a match saves its character. -/
theorem pass_unique (fuel : Nat) (h : Head x n items c) (hn : n < x.length)
    (hunique : ∀ j, j < (n : Int) → textOf x j ≠ textOf x n) :
    c.pass x fuel (textOf x n) = some (c.passSingle x (textOf x n)) := by
  have hnone : findPrevious c.reader.window c.reader.currPos (winSize - 1)
      (dropIndex c.reader.currPos) = none := by
    by_contra hsome
    obtain ⟨shifter, hfound⟩ := Option.ne_none_iff_exists'.mp hsome
    rw [h.reader hn, currPos_readerAt, dropIndex_cell] at hfound
    obtain ⟨o, -, hhigh, -, hsame, -⟩ :=
      findPrevious_spec (by have : winSize = 4096 := rfl; omega) (by omega) hfound
    exact hunique o (by omega) hsame.symm
  rw [Compressor.pass, hnone]
  split <;> rfl

/-- A pass with a match goes on with the search for the best one. -/
theorem pass_search {fuel : Nat} {c' : Compressor} (h : Head x n items c) (hn : n + 3 ≤ x.length)
    (hseen : ∃ j : Int, n - winSize < j ∧ j < n ∧ textOf x j = textOf x n)
    (hpass : c.pass x fuel (textOf x n) = some c') :
    ∃ (o : Int) (s s' : Search), n - winSize < o ∧ o < n ∧
      (∀ j, o < j → j < n → textOf x j ≠ textOf x n) ∧ First x n o s ∧
      Search.findBest x (cell winSize n) fuel s = some s' ∧
      c' = c.finishMatch x (cell winSize n) s' := by
  obtain ⟨j, hj, hjn, hsame⟩ := hseen
  have hlt : n < x.length := by omega
  have hpos : c.reader.infilePos = n + 1 := by rw [h.reader hlt]; rfl
  rw [Compressor.pass, if_neg (by omega)] at hpass
  split at hpass
  · next hnone =>
      rw [h.reader hlt, currPos_readerAt, dropIndex_cell] at hnone
      have hsize : winSize = 4096 := rfl
      exact absurd hsame (findPrevious_none (by omega) (by omega) hnone (by omega) (by omega))
  · next shifter hfound =>
      obtain ⟨o, hlow, hhigh, -, hnearest, hfirst⟩ := h.firstMatch hlt hfound
      rw [h.reader hlt, currPos_readerAt, ← h.reader hlt] at hpass
      obtain ⟨s', hs', rfl⟩ := Option.map_eq_some_iff.mp hpass
      exact ⟨o, _, s', hlow, hhigh, hnearest, hfirst, hs', rfl⟩

/-- A pass inside a run of one character takes the greatest length. -/
theorem pass_run {fuel : Nat} {c' : Compressor} (h : Head x n items c)
    (hn : n + maxLen < x.length)
    (hrun : ∀ j : Int, n - 1 ≤ j → j < n + maxLen → textOf x j = textOf x n)
    (hpass : c.pass x fuel (textOf x n) = some c') :
    ∃ items', Head x (n + maxLen) items' c' := by
  have hmax : maxLen = 18 := rfl
  have hsize : winSize = 4096 := rfl
  obtain ⟨o, s, s', hlow, hhigh, hnearest, hfirst, hfind, rfl⟩ := pass_search h (by omega)
    ⟨n - 1, by omega, by omega, hrun _ (by omega) (by omega)⟩ hpass
  have ho : o = n - 1 := by
    by_contra hne
    exact hnearest (n - 1) (by omega) (by omega) (hrun _ (by omega) (by omega))
  have hhighest := hfirst.high
  have hfull : s.bestcount = maxLen := by
    by_contra hshort
    rcases hfirst.longest (by omega) with hfull | hdiff
    · exact hshort hfull
    · refine absurd ?_ hdiff
      rw [hrun (n + s.bestcount) (by omega) (by omega), ho,
        hrun (n - 1 + s.bestcount) (by omega) (by omega)]
  have hsame : s' = s := by
    cases fuel with
    | zero => cases hfind
    | succ fuel =>
        have hstop : ¬ s.goesOn (cell winSize n) = true := by
          rw [Search.goesOn, decide_eq_true_eq]
          exact fun hgo => absurd hgo.2.1 (by omega)
        rw [Search.findBest, if_neg hstop] at hfind
        exact (Option.some.inj hfind).symm
  obtain ⟨item, -, hcode, hhead⟩ := finishMatch_spec h.writer h.spells (by omega) hfirst.toBest
  rw [hcode (by omega), Item.length, hfull, ← hsame] at hhead
  exact ⟨_, hhead⟩

/-- At the end of the file the search changes nothing any more. -/
theorem findBest_end {fuel savePos : Nat} {s s' : Search} (hch : s.ch = none)
    (h : Search.findBest x savePos fuel s = some s') :
    s'.ch = none ∧ s'.bestcount = s.bestcount ∧ s'.bestoffset = s.bestoffset := by
  induction fuel generalizing s with
  | zero => cases h
  | succ fuel ih =>
      rw [Search.findBest] at h
      split at h
      · split at h
        · cases h
          exact ⟨hch, rfl, rfl⟩
        · next t hnext =>
            rw [Search.tryNext] at hnext
            split at hnext
            · cases hnext
            · have hcompare : ∀ offset, Search.compareMatch x maxLen
                  { s with count := 0, shifter := offset, newPos := savePos } =
                    { s with count := 0, shifter := offset, newPos := savePos } := fun offset =>
                if_neg fun hcond => hcond.1 hch
              obtain rfl := Option.some.inj hnext
              obtain ⟨hch', hcount, hoffset⟩ := ih (by rw [Search.tryMatch, hcompare]; exact hch) h
              rw [Search.tryMatch, hcompare] at hcount hoffset
              simp only [Nat.not_lt_zero, if_false] at hcount hoffset
              exact ⟨hch', hcount, hoffset⟩
      · cases h
        exact ⟨hch, rfl, rfl⟩

/-- Files with a run of one character, behind two others. -/
def runText (run : Nat) (tail : List Byte) : List Byte :=
  [0x41, 0x42] ++ (List.replicate run 0x63 ++ tail)

section RunText

variable (run : Nat) (tail : List Byte)

theorem textOf_run {j : Int} (hlow : 2 ≤ j) (hhigh : j < 2 + run) :
    textOf (runText run tail) j = 0x63 := by
  obtain ⟨k, rfl⟩ := Int.eq_ofNat_of_zero_le (show 0 ≤ j by omega)
  rw [Decoder.textOf_natCast, runText, List.getD_eq_getElem?_getD,
    List.getElem?_append_right (by simp; omega), List.getElem?_append_left (by simp; omega),
    List.getElem?_replicate, if_pos (by simp; omega)]
  rfl

theorem textOf_tail (k : Nat) : textOf (runText run tail) (2 + run + k : Nat) = tail.getD k 0 := by
  rw [Decoder.textOf_natCast, runText, List.getD_eq_getElem?_getD,
    List.getElem?_append_right (by simp; omega), List.getElem?_append_right (by simp; omega),
    List.getD_eq_getElem?_getD]
  congr 2
  simp
  omega

theorem textOf_head {j : Int} (hj : j < 2) :
    textOf (runText run tail) j = if j < 0 then 0x20 else if j = 0 then 0x41 else 0x42 := by
  rw [textOf]
  split
  · rfl
  · rcases (show j = 0 ∨ j = 1 by omega) with rfl | rfl <;> rfl

theorem length_runText : (runText run tail).length = 2 + run + tail.length := by
  simp [runText]
  omega

end RunText

/-- A file that ends in `Bccz` behind the end of the window, while its second character is the
only other `B`. -/
def wrapFile : List Byte :=
  runText 4087 [0x44, 0x45, 0x46, 0x47, 0x48, 0x49, 0x42, 0x63, 0x63, 0x7A]

/-- What the decompressor makes of its compressed form: the last code copies old characters. -/
def wrapDecoded : List Byte :=
  runText 4087 [0x44, 0x45, 0x46, 0x47, 0x48, 0x49, 0x20, 0x41, 0x42, 0x63]

theorem length_wrapFile : wrapFile.length = 4099 := length_runText _ _

theorem length_wrapDecoded : wrapDecoded.length = 4099 := length_runText _ _

/-- The places in front of which the compressor comes to stand. -/
def OnTrack (n : Nat) : Prop :=
  n < 3 ∨ n ≤ 4089 ∧ n % 18 = 3 ∨ 4089 ≤ n ∧ n ≤ 4095

theorem wrapFile_unique {n : Nat} (hn : n < 3 ∨ 4089 ≤ n ∧ n < 4095) (j : Int) (hj : j < n) :
    textOf wrapFile j ≠ textOf wrapFile n := by
  have hhead : ∀ i : Int, i < 2 →
      textOf wrapFile i = if i < 0 then 0x20 else if i = 0 then 0x41 else 0x42 := fun i hi =>
    textOf_head 4087 _ hi
  have hrun : ∀ i : Int, 2 ≤ i → i < 4089 → textOf wrapFile i = 0x63 := fun i hlow hhigh =>
    textOf_run 4087 _ hlow (by omega)
  have htail : ∀ k : Nat, k < 6 → textOf wrapFile (4089 + k : Nat) = BitVec.ofNat 8 (0x44 + k) := by
    intro k hk
    rw [wrapFile, textOf_tail 4087]
    interval_cases k <;> rfl
  rcases hn with hn | hn
  · by_cases htwo : n = 2
    · rw [htwo, hhead j (by omega), hrun (2 : Nat) (by decide) (by decide)]
      split_ifs <;> decide
    · rw [hhead j (by omega), hhead n (by omega)]
      split_ifs <;> first | omega | decide
  · obtain ⟨k, hk, rfl⟩ : ∃ k : Nat, k < 6 ∧ n = 4089 + k :=
      ⟨n - 4089, by omega, by omega⟩
    rw [htail k hk]
    by_cases hj2 : j < 2
    · rw [hhead j hj2]
      interval_cases k <;> split_ifs <;> decide
    · by_cases hj3 : j < 4089
      · rw [hrun j (by omega) hj3]
        interval_cases k <;> decide
      · obtain ⟨i, hi, rfl⟩ : ∃ i : Nat, i < k ∧ j = (4089 + i : Nat) :=
          ⟨(j - 4089).toNat, by omega, by omega⟩
        rw [htail i (by omega)]
        intro heq
        have hnat := congrArg BitVec.toNat heq
        rw [BitVec.toNat_ofNat, BitVec.toNat_ofNat] at hnat
        omega

theorem wrapFile_pass {fuel : Nat} {c' : Compressor} (h : Head wrapFile n items c)
    (htrack : OnTrack n) (hn : n < 4095)
    (hpass : c.pass wrapFile fuel (textOf wrapFile n) = some c') :
    ∃ n' items', n < n' ∧ OnTrack n' ∧ Head wrapFile n' items' c' := by
  have hlength := length_wrapFile
  rw [OnTrack] at htrack
  by_cases hrun : 3 ≤ n ∧ n < 4089
  · have hmax : maxLen = 18 := rfl
    have htext : ∀ j : Int, n - 1 ≤ j → j < n + maxLen → textOf wrapFile j = 0x63 :=
      fun j hlow hhigh => textOf_run 4087 _ (by omega) (by omega)
    obtain ⟨items', hhead⟩ := pass_run h (by omega)
      (fun j hlow hhigh => (htext j hlow hhigh).trans (htext n (by omega) (by omega)).symm) hpass
    exact ⟨n + maxLen, items', by omega, .inr (by omega), hhead⟩
  · have hunique := wrapFile_unique (n := n) (by omega)
    rw [pass_unique fuel h (by omega) hunique] at hpass
    obtain rfl := Option.some.inj hpass
    refine ⟨n + 1, _, Nat.lt_succ_self n, ?_,
      passSingle_spec h.writer h.spells (h.reader (by omega)) (by omega)⟩
    rw [OnTrack]
    omega

/-- A match of three characters, one character in front of the end of the file, is taken for one
of four when the characters are compared with themselves. -/
theorem tryMatch_self {r : Nat} (hlength : x.length = r + 1) {s : Search}
    (hreader : s.reader = readerAt x r) (hch : s.ch ≠ none) (hcount : s.bestcount = 3)
    (savePos : Nat) :
    (s.tryMatch x savePos savePos).ch = none ∧ (s.tryMatch x savePos savePos).bestcount = 4 ∧
      (s.tryMatch x savePos savePos).bestoffset = savePos := by
  obtain ⟨reader, ch, oldchar0, oldchar1, oldchar2, count, shifter, newPos, bestcount,
    bestoffset⟩ := s
  obtain rfl : reader = readerAt x r := hreader
  obtain rfl : bestcount = 3 := hcount
  have hread : (readerAt x r).getNextChar x = (some (textOf x r), readerAt x (r + 1)) :=
    getNextChar_readerAt (by omega)
  have hend : (readerAt x (r + 1)).getNextChar x = (none, readerAt x (r + 1)) :=
    getNextChar_end (by omega)
  have hcompare : ∀ left, ∃ t, Search.compareMatch x (left + 5) ⟨readerAt x r, ch, oldchar0,
      oldchar1, oldchar2, 0, savePos, savePos, 3, bestoffset⟩ = t ∧ t.ch = none ∧ t.count = 4 ∧
        t.bestcount = 3 := by
    intro left
    simp [Search.compareMatch, hread, hend, maxLen, show ch ≠ none from hch]
  obtain ⟨t, hcompare, htch, htcount, htbest⟩ := hcompare 13
  rw [Search.tryMatch, show maxLen = 13 + 5 from rfl, hcompare]
  simp [htch, htcount, htbest]

theorem textOf_wrapFile_end (k : Nat) :
    textOf wrapFile (4095 + k : Nat) = [0x42, 0x63, 0x63, 0x7A].getD k 0 := by
  have htail :=
    textOf_tail 4087 [0x44, 0x45, 0x46, 0x47, 0x48, 0x49, 0x42, 0x63, 0x63, 0x7A] (6 + k)
  rw [show 2 + 4087 + (6 + k) = 4095 + k by omega, Nat.add_comm 6 k] at htail
  exact htail

/-- The first match of the last pass: the other `B` and the two characters behind it. -/
theorem wrapFile_first {o : Int} {s : Search} (hlow : (4095 : Nat) - winSize < o)
    (hhigh : o < (4095 : Nat))
    (hnearest : ∀ j, o < j → j < (4095 : Nat) → textOf wrapFile j ≠ textOf wrapFile (4095 : Nat))
    (h : First wrapFile 4095 o s) : o = 1 ∧ s.bestcount = 3 := by
  have hsize : winSize = 4096 := rfl
  have hlength := length_wrapFile
  have hone : textOf wrapFile 1 = 0x42 := rfl
  have hend0 : textOf wrapFile (4095 : Nat) = 0x42 := textOf_wrapFile_end 0
  have hrun : ∀ i : Int, 2 ≤ i → i < 4089 → textOf wrapFile i = 0x63 := fun i hlow hhigh =>
    textOf_run 4087 _ hlow (by omega)
  have hpos := h.low
  have hsame : textOf wrapFile (4095 : Nat) = textOf wrapFile o := by
    have hfirst := h.agrees 0 hpos
    rwa [Nat.cast_zero, Int.add_zero, Int.add_zero] at hfirst
  have ho : o = 1 := by
    rcases Int.lt_trichotomy o 1 with hlt | heq | hgt
    · exact absurd (hone.trans hend0.symm) (hnearest 1 hlt (by omega))
    · exact heq
    · by_cases hrunning : o < 4089
      · rw [hend0, hrun o (by omega) hrunning] at hsame
        exact absurd hsame (by decide)
      · obtain ⟨k, hk, rfl⟩ : ∃ k : Nat, k < 6 ∧ o = (4089 + k : Nat) :=
          ⟨(o - 4089).toNat, by omega, by omega⟩
        rw [hend0, wrapFile, textOf_tail 4087] at hsame
        interval_cases k <;> exact absurd hsame (by decide)
  subst ho
  refine ⟨rfl, ?_⟩
  have hle := h.le
  have hfour : ¬ 4 ≤ s.bestcount := by
    intro hfour
    have hlast := h.agrees 3 hfour
    have hend3 : textOf wrapFile (4095 + 3 : Nat) = 0x7A := textOf_wrapFile_end 3
    rw [show ((4095 : Nat) : Int) + (3 : Nat) = (4095 + 3 : Nat) by rfl, hend3,
      hrun _ (by decide) (by decide)] at hlast
    exact absurd hlast (by decide)
  rcases h.longest (by omega) with hmax | hdiff
  · exact absurd hmax (by have : maxLen = 18 := rfl; omega)
  · by_contra hthree
    rcases (show s.bestcount = 1 ∨ s.bestcount = 2 by omega) with hb | hb
    · rw [hb] at hdiff
      exact hdiff ((textOf_wrapFile_end 1).trans (hrun _ (by decide) (by decide)).symm)
    · rw [hb] at hdiff
      exact hdiff ((textOf_wrapFile_end 2).trans (hrun _ (by decide) (by decide)).symm)

theorem window_readerAt {r i : Nat} {j : Int} (hi : cell winSize j = i)
    (hlow : r - winSize ≤ j) (hhigh : j < r) : (readerAt x r).window i = textOf x j :=
  hi ▸ windowAt_cell hlow hhigh

/-- The search of the last pass goes on inside what it has read ahead. -/
theorem wrapFile_search {fuel : Nat} {s s' : Search} (h : First wrapFile 4095 1 s)
    (hcount : s.bestcount = 3)
    (hfind : Search.findBest wrapFile (cell winSize (4095 : Nat)) fuel s = some s') :
    s'.ch = none ∧ s'.bestcount = 4 ∧ s'.bestoffset = 4095 := by
  have hlength := length_wrapFile
  have hreader : s.reader = readerAt wrapFile 4098 := by rw [h.reader, hcount]
  have hcurr : s.reader.currPos = 1 := by rw [hreader]; rfl
  have hshifter : s.shifter = 0 := h.shifter
  have hsave : cell winSize (4095 : Nat) = 4095 := rfl
  have hch : s.ch ≠ none := h.ch.mpr (by omega)
  cases fuel with
  | zero => cases hfind
  | succ fuel =>
      have hgo : s.goesOn 4095 = true := by
        rw [Search.goesOn, hcurr, hshifter, hcount]
        rfl
      have hnew : s.reader.window 0 ≠ s.reader.window 4095 := by
        have hsize : winSize = 4096 := rfl
        have hzero := window_readerAt (x := wrapFile) (r := 4098) (j := (4095 + 1 : Nat))
          (i := 0) rfl (by omega) (by omega)
        have hlast := window_readerAt (x := wrapFile) (r := 4098) (j := (4095 + 0 : Nat))
          (i := 4095) rfl (by omega) (by omega)
        rw [← hreader] at hzero hlast
        rw [hzero, hlast, textOf_wrapFile_end, textOf_wrapFile_end]
        decide
      have hstart : Search.nextStart s.reader.window s.reader.currPos 4095 winSize s.shifter =
          4095 := by
        rw [hcurr, hshifter]
        exact (if_pos ⟨by decide, hnew⟩).trans (if_neg fun hcond => hcond.2 rfl)
      have hnext : s.tryNext wrapFile 4095 = some (s.tryMatch wrapFile 4095 4095) := by
        rw [Search.tryNext, hstart, hcurr]
        rfl
      rw [hsave, Search.findBest, if_pos hgo, hnext] at hfind
      obtain ⟨htch, htcount, htoffset⟩ := tryMatch_self hlength hreader hch hcount 4095
      obtain ⟨hch', hcount', hoffset'⟩ := findBest_end htch hfind
      exact ⟨hch', hcount'.trans htcount, hoffset'.trans htoffset⟩

/-- The last pass saves a code whose source is the place where its data go. -/
theorem wrapFile_last {fuel : Nat} {c' : Compressor} (h : Head wrapFile 4095 items c)
    (hpass : c.pass wrapFile fuel (textOf wrapFile (4095 : Nat)) = some c') :
    c'.ch = none ∧ c'.writer.Holds (items ++ [.code 4 4095]) := by
  have hlength := length_wrapFile
  have hsize : winSize = 4096 := rfl
  have hone : textOf wrapFile 1 = textOf wrapFile (4095 : Nat) := (textOf_wrapFile_end 0).symm
  obtain ⟨o, s, s', hlow, hhigh, hnearest, hfirst, hfind, rfl⟩ :=
    pass_search h (by omega) ⟨1, by omega, by omega, hone⟩ hpass
  obtain ⟨rfl, hthree⟩ := wrapFile_first hlow hhigh hnearest hfirst
  obtain ⟨hch, hcount, hoffset⟩ := wrapFile_search hfirst hthree hfind
  have hfinish : c.finishMatch wrapFile (cell winSize (4095 : Nat)) s' =
      c.saveMatch s' none s'.reader := by
    rw [Compressor.finishMatch, hch, if_neg (fun h => h rfl)]
    dsimp only
    rw [if_neg (fun h => h.1 rfl), if_neg (by omega)]
  rw [hfinish]
  refine ⟨rfl, ?_⟩
  have hsaved := h.writer.saveCode 4 4095
  rw [← hcount, ← hoffset] at hsaved
  rw [← hcount, ← hoffset]
  exact hsaved

/-- Every run over the file ends in that code. -/
theorem wrapFile_passes {fuel : Nat} {c' : Compressor} (h : Head wrapFile n items c)
    (htrack : OnTrack n) (hpasses : c.passes wrapFile fuel = some c') :
    ∃ items', Spells wrapFile 0 items' 4095 ∧ c'.writer.Holds (items' ++ [.code 4 4095]) := by
  have hlength := length_wrapFile
  induction fuel generalizing n items c with
  | zero => cases hpasses
  | succ fuel ih =>
      have hle : n ≤ 4095 := by
        rw [OnTrack] at htrack
        omega
      have hn : n < wrapFile.length := by omega
      rw [Compressor.passes, h.ch hn] at hpasses
      obtain ⟨c₁, hpass, hrest⟩ := Option.bind_eq_some_iff.mp hpasses
      rcases Nat.lt_or_eq_of_le hle with hlt | rfl
      · obtain ⟨n', items', -, htrack', hhead'⟩ := wrapFile_pass h htrack hlt hpass
        exact ih hhead' htrack' hrest
      · obtain ⟨hch, hholds⟩ := wrapFile_last h hpass
        cases fuel with
        | zero => cases hrest
        | succ fuel =>
            rw [Compressor.passes, hch] at hrest
            obtain rfl := Option.some.inj hrest
            exact ⟨items, h.spells, hholds⟩

/-- What is spelled up to `m` depends on the bytes up to there only. -/
theorem Spells.congr {y : List Byte} {k m : Nat} (h : Spells x k items m) (hm : m ≤ y.length)
    (hsame : ∀ j : Int, j < m → textOf y j = textOf x j) : Spells y k items m := by
  induction h with
  | nil k => exact .nil k
  | @cons k m item items hfits hrest ih =>
      have hlast := hrest.le
      refine .cons ?_ (ih hm hsame)
      cases item with
      | single byte =>
          have hk : k < m := hlast
          obtain ⟨hkx, hbyte⟩ := List.getElem?_eq_some_iff.mp hfits
          have hfits' := fits_single (x := y) (n := k) (by omega)
          rw [hsame k (by omega), Decoder.textOf_natCast, List.getD_eq_getElem _ _ hkx,
            hbyte] at hfits'
          exact hfits'
      | code count offset =>
          have hkm : k + count ≤ m := hlast
          obtain ⟨hlow, hhigh, -, o, ho₁, ho₂, hoffset, hagrees⟩ := hfits
          refine ⟨hlow, hhigh, by omega, o, ho₁, ho₂, hoffset, fun i hi => ?_⟩
          rw [hsame _ (by omega), hsame _ (by omega)]
          exact hagrees i hi

theorem wrapDecoded_spells {items' : List Item} (h : Spells wrapFile 0 items' 4095) :
    Spells wrapDecoded 0 (items' ++ [.code 4 4095]) wrapDecoded.length := by
  have hlength := length_wrapDecoded
  have hsize : winSize = 4096 := rfl
  have hprefix : Spells wrapDecoded 0 items' 4095 := by
    apply h.congr (by omega)
    intro j hj
    by_cases hj2 : j < 2
    · rw [wrapDecoded, wrapFile, textOf_head _ _ hj2, textOf_head _ _ hj2]
    · by_cases hj3 : j < 4089
      · rw [wrapDecoded, wrapFile, textOf_run _ _ (by omega) (by omega),
          textOf_run _ _ (by omega) (by omega)]
      · obtain ⟨k, hk, rfl⟩ : ∃ k : Nat, k < 6 ∧ j = (2 + 4087 + k : Nat) :=
          ⟨(j - 4089).toNat, by omega, by omega⟩
        rw [wrapDecoded, wrapFile, textOf_tail, textOf_tail]
        interval_cases k <;> rfl
  suffices hcode : (Item.code 4 4095).Fits wrapDecoded 4095 by
    rw [hlength]
    exact hprefix.snoc hcode
  refine ⟨by decide, by decide, by omega, -1, by omega, by omega, rfl, fun k hk => ?_⟩
  have htail : textOf wrapDecoded (2 + 4087 + (6 + k) : Nat) =
      [0x44, 0x45, 0x46, 0x47, 0x48, 0x49, 0x20, 0x41, 0x42, 0x63].getD (6 + k) 0 :=
    textOf_tail _ _ _
  rw [show ((4095 : Nat) : Int) + k = (2 + 4087 + (6 + k) : Nat) by push_cast; omega, htail]
  interval_cases k <;> rfl

/-- The file is not restored. -/
theorem not_lz77_sound_sample : ¬ RoundTrips wrapFile 0 := by
  rintro ⟨fuel, out, d, hexecute, hdecode, hout, -⟩
  obtain ⟨c, hpasses, rfl⟩ := Option.map_eq_some_iff.mp hexecute
  obtain ⟨items, hspells, hholds⟩ :=
    wrapFile_passes (head_start wrapFile 0) (.inl (by decide)) hpasses
  obtain ⟨blocks, hblocks, hfull, hitems⟩ := hholds.writeFlagByte
  have hspells' := wrapDecoded_spells hspells
  rw [← hitems] at hspells'
  obtain ⟨d', hdecode', hout', -⟩ := decompress_blocks hfull hspells'
  have hsize : wrapFile.length = wrapDecoded.length :=
    length_wrapFile.trans length_wrapDecoded.symm
  rw [hblocks, hsize, hdecode'] at hdecode
  obtain rfl := Except.ok.inj hdecode
  have hsame : textOf wrapFile (2 + 4087 + 6 : Nat) = textOf wrapDecoded (2 + 4087 + 6 : Nat) := by
    rw [← hout, hout']
  rw [wrapFile, wrapDecoded, textOf_tail, textOf_tail] at hsame
  exact absurd hsame (by decide)

end TinyCLR.Support.LZ77
