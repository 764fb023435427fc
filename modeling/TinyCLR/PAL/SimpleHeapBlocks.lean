import Mathlib
import TinyCLR.PAL.SimpleHeap

/-!
# The blocks of the simple heap

The blocks that the headers in memory describe: they are linked both ways, they tile the buffer,
and no two free ones are neighbours. Each operation keeps this and leaves the payload of the other
blocks alone.
-/

namespace TinyCLR.SimpleHeap

open LittleEndian Word32

/-- A block of the buffer, header included. -/
structure Block where
  addr : Nat
  length : Nat
  busy : Bool
  deriving DecidableEq

namespace Block

variable (b : Block)

def stop : Nat := b.addr + b.length

/-- The address that a client has for the block. -/
def payload : Nat := b.addr + headerSize

/-- The bytes between head and tail guard. -/
def usable : Nat := b.length - (headerSize + guardSize)

/-- The bytes of the header and of the tail guard. -/
def Owns (a : Nat) : Prop :=
  (b.addr ≤ a ∧ a < b.addr + headerSize) ∨ (b.busy = true ∧ b.stop - guardSize ≤ a ∧ a < b.stop)

end Block

/-- The header of a block in memory, with its neighbours in the list. -/
structure Header (m : Memory) (before : Nat) (b : Block) (after : Nat) : Prop where
  prev : prev m b.addr = before
  next : next m b.addr = after
  length : length m b.addr = b.length
  signature : signature m b.addr = if b.busy then cBusy else cFree
  guards : b.busy = true → headGuard m b.addr = cGuard ∧ load m (b.stop - guardSize) = cGuard

def headAddr : List Block → Nat → Nat
  | [], after => after
  | b :: _, _ => b.addr

def lastAddr : Nat → List Block → Nat
  | before, [] => before
  | _, b :: blocks => lastAddr b.addr blocks

/-- A part of the list, between the addresses of its neighbours. -/
def Linked (m : Memory) : Nat → List Block → Nat → Prop
  | _, [], _ => True
  | before, b :: blocks, after =>
      Header m before b (headAddr blocks after) ∧ Linked m b.addr blocks after

/-- Blocks that follow each other without a gap. -/
def Tiles : Nat → List Block → Nat → Prop
  | start, [], stop => start = stop
  | start, b :: blocks, stop =>
      b.addr = start ∧ headerSize ≤ b.length ∧
        (b.busy = true → headerSize + guardSize ≤ b.length) ∧ Tiles b.stop blocks stop

/-- A buffer that has room for a header and leaves 64 bytes of the address space free. -/
structure Buffer where
  base : Nat
  len : Nat
  base_pos : 0 < base
  room : headerSize ≤ len
  stop_le : base + len ≤ 2 ^ 32
  len_le : len + 64 ≤ 2 ^ 32

/-- The headers in memory describe these blocks of the buffer. -/
structure Represents (m : Memory) (buf : Buffer) (blocks : List Block) : Prop where
  linked : Linked m 0 blocks 0
  tiles : Tiles buf.base blocks (buf.base + buf.len)
  coalesced : blocks.IsChain fun b c => b.busy = true ∨ c.busy = true

/-! ## Lists of blocks -/

variable {m m' : Memory} {b : Block} {blocks l r : List Block} {before after start stop : Nat}

theorem headAddr_append (l r : List Block) (after : Nat) :
    headAddr (l ++ r) after = headAddr l (headAddr r after) := by
  cases l <;> rfl

theorem linked_append :
    Linked m before (l ++ r) after ↔
      Linked m before l (headAddr r after) ∧ Linked m (lastAddr before l) r after := by
  induction l generalizing before with
  | nil => simp [Linked, lastAddr]
  | cons b l ih => simp only [List.cons_append, Linked, lastAddr, headAddr_append, ih, and_assoc]

theorem tiles_append : Tiles start (l ++ r) stop ↔ ∃ mid, Tiles start l mid ∧ Tiles mid r stop := by
  induction l generalizing start with
  | nil => simp [Tiles]
  | cons b l ih => simp only [List.cons_append, Tiles, ih, exists_and_left, and_assoc]

theorem Tiles.le (h : Tiles start blocks stop) : start ≤ stop := by
  induction blocks generalizing start with
  | nil => exact Nat.le_of_eq h
  | cons b blocks ih =>
      obtain ⟨rfl, _, _, hrest⟩ := h
      exact (Nat.le_add_right _ _).trans (ih hrest)

theorem Tiles.mem (h : Tiles start blocks stop) (hb : b ∈ blocks) :
    start ≤ b.addr ∧ b.stop ≤ stop ∧ headerSize ≤ b.length ∧
      (b.busy = true → headerSize + guardSize ≤ b.length) := by
  induction blocks generalizing start with
  | nil => cases hb
  | cons c blocks ih =>
      obtain ⟨rfl, hlen, hbusy, hrest⟩ := h
      rcases List.mem_cons.mp hb with rfl | hb
      · exact ⟨le_rfl, hrest.le, hlen, hbusy⟩
      · obtain ⟨hstart, hstop⟩ := ih hrest hb
        exact ⟨(Nat.le_add_right _ _).trans hstart, hstop⟩

/-- The start of the list behind some blocks. -/
theorem Tiles.headAddr_eq (h : Tiles start blocks stop) (hne : blocks ≠ []) :
    headAddr blocks after = start := by
  cases blocks with
  | nil => exact absurd rfl hne
  | cons b blocks => exact h.1

/-! ## Changes of the memory that keep headers -/

theorem Header.congr (h : Header m before b after)
    (hbusy : b.busy = true → headerSize + guardSize ≤ b.length)
    (hm : ∀ a, b.Owns a → m' a = m a) : Header m' before b after := by
  have hfield : ∀ i, i + 4 ≤ headerSize → load m' (b.addr + i) = load m (b.addr + i) :=
    fun i hi => load_congr fun a hle hlt => hm a (.inl ⟨by omega, by omega⟩)
  refine ⟨?_, ?_, ?_, ?_, fun hb => ⟨?_, ?_⟩⟩
  · exact (hfield 4 (by decide)).trans h.prev
  · exact (hfield 0 (by decide)).trans h.next
  · exact (hfield 8 (by decide)).trans h.length
  · exact (hfield 12 (by decide)).trans h.signature
  · exact (hfield 16 (by decide)).trans (h.guards hb).1
  · refine (load_congr fun a hle hlt => hm a (.inr ⟨hb, hle, ?_⟩)).trans (h.guards hb).2
    have := hbusy hb
    simp only [Block.stop, headerSize, guardSize] at *
    omega

theorem Linked.congr (h : Linked m before blocks after) (ht : Tiles start blocks stop)
    (hm : ∀ b ∈ blocks, ∀ a, b.Owns a → m' a = m a) : Linked m' before blocks after := by
  induction blocks generalizing before start with
  | nil => trivial
  | cons b blocks ih =>
      refine ⟨h.1.congr ht.2.2.1 (hm b List.mem_cons_self), ih h.2 ht.2.2.2 fun c hc => ?_⟩
      exact hm c (List.mem_cons_of_mem b hc)

theorem Block.Owns.mem {a : Nat} (h : b.Owns a) (hlen : headerSize ≤ b.length) :
    b.addr ≤ a ∧ a < b.stop := by
  rcases h with ⟨hle, hlt⟩ | ⟨_, hle, hlt⟩
  · exact ⟨hle, by simp only [Block.stop]; omega⟩
  · refine ⟨?_, hlt⟩
    simp only [Block.stop, headerSize, guardSize] at *
    omega

/-- A part of the list survives a change of the memory outside of its blocks. -/
theorem Linked.outside (h : Linked m before blocks after) (ht : Tiles start blocks stop)
    (hm : ∀ a, start ≤ a → a < stop → m' a = m a) : Linked m' before blocks after := by
  apply h.congr ht
  intro b hb a ha
  obtain ⟨hstart, hstop, hlen, _⟩ := ht.mem hb
  obtain ⟨hle, hlt⟩ := ha.mem hlen
  exact hm a (hstart.trans hle) (hlt.trans_le hstop)

/-- The memory after the list `r` got another predecessor. -/
def relink (m : Memory) (r : List Block) (before : Nat) : Memory :=
  match r with
  | [] => m
  | b :: _ => setPrev m b.addr before

theorem Linked.relink (h : Linked m before r after) (ht : Tiles start r stop) {before' : Nat}
    (hlt : before' < 2 ^ 32) : Linked (relink m r before') before' r after := by
  cases r with
  | nil => trivial
  | cons b r =>
      obtain ⟨rfl, hlen, hbusy, hrest⟩ := ht
      simp only [headerSize, guardSize] at hlen hbusy
      have hb := h.1
      refine ⟨⟨load_store_same hlt, ?_, ?_, ?_, fun hbusy' => ⟨?_, ?_⟩⟩, ?_⟩
      · exact (load_store_of_disjoint (by omega)).trans hb.next
      · exact (load_store_of_disjoint (by omega)).trans hb.length
      · exact (load_store_of_disjoint (by omega)).trans hb.signature
      · exact (load_store_of_disjoint (by omega)).trans (hb.guards hbusy').1
      · refine (load_store_of_disjoint ?_).trans (hb.guards hbusy').2
        have := hbusy hbusy'
        simp only [Block.stop, guardSize]
        omega
      · apply h.2.outside hrest
        intro a hle _
        simp only [Block.stop] at hle
        exact store_outside (by omega)

theorem load_relink {a : Nat} (ht : Tiles start r stop) (h : a + 4 ≤ start) :
    load (relink m r before) a = load m a := by
  cases r with
  | nil => rfl
  | cons b r =>
      have := ht.1
      exact load_store_of_disjoint (by omega)

/-- A new predecessor changes one field of the first header. -/
theorem relink_outside {a : Nat} (ht : Tiles start r stop) (h : a < start + 4 ∨ start + 8 ≤ a) :
    relink m r before a = m a := by
  cases r with
  | nil => rfl
  | cons b r =>
      have := ht.1
      exact store_outside (by omega)

theorem relink_congr {a : Nat} (h : m a = m' a) : relink m r before a = relink m' r before a := by
  cases r with
  | nil => exact h
  | cons b r => simp only [relink, setPrev, store, put, h]

/-- The source sets the predecessor of the next block only if there is one. -/
theorem relink_eq (ht : Tiles start r stop) (hpos : 0 < start) :
    (if headAddr r 0 = 0 then m else setPrev m (headAddr r 0) before) = relink m r before := by
  cases r with
  | nil => rfl
  | cons b r =>
      have hne : headAddr (b :: r) 0 ≠ 0 := by
        rw [ht.headAddr_eq (List.cons_ne_nil b r)]
        omega
      rw [if_neg hne]
      rfl

theorem sub32_u32 {a b : Nat} (hle : b ≤ a) (h : a ≤ 2 ^ 32) (hpos : 0 < b) :
    sub32 (u32 a) b = a - b := by
  simp only [sub32, u32]
  omega

/-! ## Allocation -/

/-- A free block that is large enough. -/
def Block.Fits (n : Nat) (b : Block) : Bool := !b.busy && decide (n ≤ b.length)

/-- The block that an allocation of `n` bytes makes of a free one. -/
def Block.allocated (n : Nat) (b : Block) : Block :=
  if b.length ≤ n + headerSize * 2 then { b with busy := true } else ⟨b.stop - n, n, true⟩

/-- What an allocation leaves of a free block. -/
def Block.remainder (n : Nat) (b : Block) : List Block :=
  if b.length ≤ n + headerSize * 2 then [] else [{ b with length := b.length - n }]

theorem cFree_ne_cBusy : cFree ≠ cBusy := by decide

theorem Header.signature_eq_cFree (h : Header m before b after) :
    SimpleHeap.signature m b.addr = cFree ↔ b.busy = false := by
  rw [h.signature]
  cases b.busy <;> simp [cFree_ne_cBusy.symm]

theorem findFit_eq {n fuel : Nat} (h : Linked m before blocks 0) (ht : Tiles start blocks stop)
    (hpos : 0 < start) (hfuel : blocks.length < fuel) :
    findFit m n fuel (headAddr blocks 0) =
      some (((blocks.find? (Block.Fits n)).map Block.addr).getD 0) := by
  induction blocks generalizing before start fuel with
  | nil =>
      cases fuel with
      | zero => cases hfuel
      | succ fuel => rfl
  | cons b blocks ih =>
      cases fuel with
      | zero => cases hfuel
      | succ fuel =>
          obtain ⟨rfl, _, _, hrest⟩ := ht
          have hcond : (signature m b.addr = cFree ∧ n ≤ length m b.addr) ↔ b.Fits n = true := by
            rw [h.1.signature_eq_cFree, h.1.length]
            simp [Block.Fits]
          rw [findFit, headAddr, if_neg hpos.ne', List.find?_cons]
          cases hfits : b.Fits n with
          | true => exact if_pos (hcond.mpr hfits)
          | false =>
              rw [if_neg (by simp [hcond, hfits]), h.1.next]
              exact ih h.2 hrest (by simp only [Block.stop]; omega) (by simpa using hfuel)

theorem Tiles.length_le (h : Tiles start blocks stop) :
    start + headerSize * blocks.length ≤ stop := by
  induction blocks generalizing start with
  | nil => exact Nat.le_of_eq h
  | cons b blocks ih =>
      obtain ⟨rfl, hlen, _, hrest⟩ := h
      have := ih hrest
      simp only [Block.stop, headerSize, List.length_cons] at *
      omega

theorem tailGuardAddr_eq {n : Nat} (hlen : SimpleHeap.length m b.addr = n)
    (hn : guardSize ≤ n) (hstop : b.addr + n ≤ 2 ^ 32) :
    tailGuardAddr m b.addr = b.addr + n - guardSize := by
  rw [tailGuardAddr, hlen]
  exact sub32_u32 (by omega) hstop (by decide)

section MarkBusy

variable {c : Block} (hlength : length m c.addr = c.length)
  (hroom : headerSize + guardSize ≤ c.length) (hstop : c.stop ≤ 2 ^ 32)

include hlength hroom hstop

theorem markBusy_eq :
    markBusy m c.addr =
      store (setHeadGuard (setSignature m c.addr cBusy) c.addr cGuard) (c.stop - guardSize)
        cGuard := by
  simp only [headerSize, guardSize, Block.stop] at hroom hstop
  have hkeep : length (setHeadGuard (setSignature m c.addr cBusy) c.addr cGuard) c.addr =
      c.length := by
    rw [← hlength, length, setHeadGuard, load_store_of_disjoint (by omega), setSignature,
      load_store_of_disjoint (by omega)]
    rfl
  rw [markBusy, tailGuardAddr_eq hkeep (by simp only [guardSize]; omega) hstop]
  rfl

/-- A block with its links and its length in place gets busy. -/
theorem markBusy_header (hbusy : c.busy = true) (hprev : prev m c.addr = before)
    (hnext : next m c.addr = after) : Header (markBusy m c.addr) before c after := by
  rw [markBusy_eq hlength hroom hstop]
  simp only [headerSize, guardSize, Block.stop] at hroom hstop
  simp only [prev, next, length] at hprev hnext hlength
  constructor <;>
    simp only [prev, next, length, signature, headGuard, setHeadGuard, setSignature, guardSize,
      Block.stop, hbusy, if_true, forall_const]
  · simp (disch := omega) only [load_store_of_disjoint, hprev]
  · simp (disch := omega) only [load_store_of_disjoint, hnext]
  · simp (disch := omega) only [load_store_of_disjoint, hlength]
  · rw [load_store_of_disjoint (by omega), load_store_of_disjoint (by omega),
      load_store_same (by decide)]
  · rw [load_store_of_disjoint (by omega), load_store_same (by decide),
      load_store_same (by decide)]
    exact ⟨rfl, rfl⟩

theorem markBusy_outside {a : Nat} (hbusy : c.busy = true) (h : ¬c.Owns a) :
    markBusy m c.addr a = m a := by
  rw [markBusy_eq hlength hroom hstop]
  simp only [Block.Owns, headerSize, guardSize, Block.stop, hbusy, true_and] at *
  rw [store_outside (by omega), setHeadGuard, store_outside (by omega), setSignature,
    store_outside (by omega)]

end MarkBusy

section Split

variable {n : Nat} (hb : Header m before b (headAddr r 0)) (ht : Tiles b.stop r stop)
  (hlarge : n + headerSize * 2 < b.length) (hroom : headerSize + guardSize ≤ n)
  (hpos : 0 < b.addr) (hstop : b.stop ≤ 2 ^ 32)

include hb ht hlarge hroom hpos hstop

/-- The split as a sequence of stores. -/
theorem split_eq :
    split m b.addr n =
      (b.stop - n,
        setLength (setLength (relink (setNext (setPrev (setNext m (b.stop - n) (headAddr r 0))
          (b.stop - n) b.addr) b.addr (b.stop - n)) r (b.stop - n)) (b.stop - n) n) b.addr
            (b.length - n)) := by
  have hptr : sub32 (u32 (b.addr + length m b.addr)) n = b.stop - n := by
    rw [hb.length]
    simp only [Block.stop, headerSize, guardSize] at *
    exact sub32_u32 (by omega) hstop (by omega)
  have hkeep : length (setLength (relink (setNext (setPrev (setNext m (b.stop - n) (headAddr r 0))
      (b.stop - n) b.addr) b.addr (b.stop - n)) r (b.stop - n)) (b.stop - n) n) b.addr =
      b.length := by
    rw [← hb.length]
    simp only [Block.stop, headerSize, guardSize] at *
    rw [length, setLength, load_store_of_disjoint (by omega), load_relink ht (by omega), setNext,
      setPrev, setNext]
    simp (disch := omega) only [load_store_of_disjoint]
    rfl
  have hlen : sub32 b.length n = b.length - n := by
    simp only [Block.stop, headerSize, guardSize] at *
    exact sub32_of_le (by omega) (by omega)
  simp only [split, hptr, hb.next, relink_eq ht (show 0 < b.stop by
    simp only [Block.stop]; omega), hkeep, hlen]

/-- The rest of a block that has been split. -/
theorem split_header_rest (hfree : b.busy = false) :
    Header (split m b.addr n).2 before { b with length := b.length - n } (b.stop - n) := by
  rw [split_eq hb ht hlarge hroom hpos hstop]
  have hprev := hb.prev
  have hsignature := hb.signature
  simp only [Block.stop, headerSize, guardSize] at *
  simp only [prev, signature] at hprev hsignature
  constructor
  · simp (disch := omega) only [prev, setLength, setNext, setPrev, load_store_of_disjoint,
      load_relink ht, hprev]
  · simp (disch := omega) only [next, setLength, setNext, setPrev, load_store_of_disjoint,
      load_relink ht, load_store_same]
  · exact load_store_same (by omega)
  · simp (disch := omega) only [signature, setLength, setNext, setPrev, load_store_of_disjoint,
      load_relink ht, hsignature]
  · intro hbusy
    rw [hfree] at hbusy
    cases hbusy

/-- The links and the length of the new block. -/
theorem split_new :
    prev (split m b.addr n).2 (b.stop - n) = b.addr ∧
      next (split m b.addr n).2 (b.stop - n) = headAddr r 0 ∧
      length (split m b.addr n).2 (b.stop - n) = n := by
  have hafter : headAddr r 0 < 2 ^ 32 := hb.next ▸ load_lt m b.addr
  rw [split_eq hb ht hlarge hroom hpos hstop]
  simp only [Block.stop, headerSize, guardSize] at *
  refine ⟨?_, ?_, ?_⟩
  · simp (disch := omega) only [prev, setLength, setNext, setPrev, load_store_of_disjoint,
      load_relink ht, load_store_same]
  · simp (disch := omega) only [next, setLength, setNext, setPrev, load_store_of_disjoint,
      load_relink ht, load_store_same]
  · simp (disch := omega) only [length, setLength, setNext, setPrev, load_store_of_disjoint,
      load_store_same]

theorem split_outside {a : Nat} (ha : a < b.addr ∨ b.stop ≤ a) :
    (split m b.addr n).2 a = relink m r (b.stop - n) a := by
  rw [split_eq hb ht hlarge hroom hpos hstop]
  simp only [Block.stop, headerSize, guardSize] at *
  rw [setLength, store_outside (by omega), setLength, store_outside (by omega)]
  apply relink_congr
  rw [setNext, store_outside (by omega), setPrev, store_outside (by omega), setNext,
    store_outside (by omega)]

end Split

/-- The payload of the busy blocks is the same in both memories. -/
def SamePayload (blocks : List Block) (m m' : Memory) : Prop :=
  ∀ b ∈ blocks, b.busy = true → ∀ a, b.payload ≤ a → a < b.payload + b.usable → m' a = m a

theorem Block.mem_payload {a : Nat} (hle : b.payload ≤ a) (hlt : a < b.payload + b.usable) :
    b.addr + headerSize ≤ a ∧ a + guardSize < b.stop := by
  simp only [Block.payload, Block.usable, Block.stop, headerSize, guardSize] at *
  omega

/-- What holds of a block in the middle of the list. -/
structure Focus (m : Memory) (buf : Buffer) (l : List Block) (b : Block) (r : List Block) :
    Prop where
  left : Linked m 0 l b.addr
  header : Header m (lastAddr 0 l) b (headAddr r 0)
  right : Linked m b.addr r 0
  tilesLeft : Tiles buf.base l b.addr
  tilesRight : Tiles b.stop r (buf.base + buf.len)
  room : headerSize ≤ b.length
  busyRoom : b.busy = true → headerSize + guardSize ≤ b.length

theorem Represents.focus {buf : Buffer} (h : Represents m buf (l ++ b :: r)) :
    Focus m buf l b r := by
  obtain ⟨hl, hb, hr⟩ := linked_append.mp h.linked
  obtain ⟨mid, htl, rfl, hroom, hbusy, htr⟩ := tiles_append.mp h.tiles
  exact ⟨hl, hb, hr, htl, htr, hroom, hbusy⟩

namespace Focus

variable {buf : Buffer} (h : Focus m buf l b r)

include h

theorem addr_pos : 0 < b.addr := buf.base_pos.trans_le h.tilesLeft.le

theorem stop_le : b.stop ≤ 2 ^ 32 := h.tilesRight.le.trans buf.stop_le

theorem length_le : b.length ≤ buf.len := by
  have hleft := h.tilesLeft.le
  have hright := h.tilesRight.le
  simp only [Block.stop] at hright
  omega

/-- The blocks on both sides are outside of the block. -/
theorem outside {k : Block} (hk : k ∈ l ++ b :: r) :
    k.stop ≤ b.addr ∨ k = b ∨ b.stop ≤ k.addr := by
  rcases List.mem_append.mp hk with hk | hk
  · exact .inl (h.tilesLeft.mem hk).2.1
  · rcases List.mem_cons.mp hk with rfl | hk
    · exact .inr (.inl rfl)
    · exact .inr (.inr (h.tilesRight.mem hk).1)

/-- The payload of a busy block is outside of a free one and of the header behind that. -/
theorem payload_outside {k : Block} {a : Nat} (hk : k ∈ l ++ b :: r) (hbusy : k.busy = true)
    (hfree : b.busy = false) (hle : k.payload ≤ a) (hlt : a < k.payload + k.usable) :
    a < b.addr ∨ b.stop + headerSize ≤ a := by
  have ha := Block.mem_payload hle hlt
  rcases h.outside hk with hk | rfl | hk
  · exact .inl (by omega)
  · rw [hfree] at hbusy
    cases hbusy
  · exact .inr (by omega)

end Focus

theorem coalesced_allocated {c : Block} {rest : List Block}
    (h : (l ++ b :: r).IsChain fun b c => b.busy = true ∨ c.busy = true) (hbusy : c.busy = true)
    (hrest : rest = [] ∨ ∃ b', rest = [b'] ∧ b'.busy = b.busy) :
    (l ++ rest ++ c :: r).IsChain fun b c => b.busy = true ∨ c.busy = true := by
  obtain ⟨hl, hbr, hseam⟩ := List.isChain_append.mp h
  have hr : (c :: r).IsChain fun b c => b.busy = true ∨ c.busy = true := by
    cases r with
    | nil => exact .singleton c
    | cons d r => exact .cons_cons (.inl hbusy) hbr.tail
  apply List.isChain_append.mpr
  rcases hrest with rfl | ⟨b', rfl, hb'⟩
  · simpa [hl, hr] using fun x _ => .inr hbusy
  · refine ⟨?_, hr, by simp [hbusy]⟩
    apply List.isChain_append.mpr
    refine ⟨hl, .singleton b', fun x hx y hy => ?_⟩
    cases hy
    rw [hb']
    exact hseam x hx b rfl

theorem findFit_focus {buf : Buffer} {n : Nat} (h : Represents m buf (l ++ b :: r))
    (hfits : b.Fits n = true) (hfirst : ∀ c ∈ l, c.Fits n = false) :
    findFit m n (2 ^ 32) buf.base = some b.addr := by
  have hbase : headAddr (l ++ b :: r) 0 = buf.base := h.tiles.headAddr_eq (by simp)
  have hlen := h.tiles.length_le
  have hstop := buf.stop_le
  have hpos := buf.base_pos
  simp only [headerSize] at hlen
  have hnone : l.find? (Block.Fits n) = none := by simpa using hfirst
  rw [← hbase, findFit_eq h.linked h.tiles hpos (by omega), List.find?_append, hnone,
    List.find?_cons, hfits]
  rfl

section Fits

variable {buf : Buffer} {n : Nat} (h : Represents m buf (l ++ b :: r)) (hfree : b.busy = false)
  (hle : n ≤ b.length) (hroom : headerSize + guardSize ≤ n)

include h hfree hle hroom

/-- A block that fits as a whole. -/
theorem represents_exact :
    Represents (markBusy m b.addr) buf (l ++ { b with busy := true } :: r) ∧
      SamePayload (l ++ b :: r) m (markBusy m b.addr) := by
  have hf := h.focus
  have hb := hf.header
  let c : Block := { b with busy := true }
  have hout : ∀ a, ¬c.Owns a → markBusy m b.addr a = m a := fun a ha =>
    markBusy_outside (c := c) hb.length (hroom.trans hle) hf.stop_le rfl ha
  have hin : ∀ {a}, c.Owns a → b.addr ≤ a ∧ a < b.stop := fun ha => ha.mem hf.room
  refine ⟨⟨?_, ?_, ?_⟩, fun k hk hbusy a hle hlt => ?_⟩
  · apply linked_append.mpr
    refine ⟨hf.left.outside hf.tilesLeft fun a _ hlt => ?_, ?_, ?_⟩
    · exact hout a fun ha => by have := hin ha; omega
    · exact markBusy_header (c := c) hb.length (hroom.trans hle) hf.stop_le rfl hb.prev hb.next
    · refine hf.right.outside hf.tilesRight fun a hle _ => ?_
      exact hout a fun ha => by have := hin ha; omega
  · apply tiles_append.mpr
    exact ⟨b.addr, hf.tilesLeft, rfl, hf.room, fun _ => hroom.trans hle, hf.tilesRight⟩
  · simpa using coalesced_allocated (c := c) h.coalesced rfl (.inl rfl)
  · have ha := hf.payload_outside hk hbusy hfree hle hlt
    exact hout a fun hmem => by have := hin hmem; omega

/-- A block that is split. -/
theorem represents_split (hlarge : n + headerSize * 2 < b.length) :
    Represents (markBusy (split m b.addr n).2 (b.stop - n)) buf
        (l ++ [{ b with length := b.length - n }] ++ ⟨b.stop - n, n, true⟩ :: r) ∧
      SamePayload (l ++ b :: r) m (markBusy (split m b.addr n).2 (b.stop - n)) := by
  have hf := h.focus
  have hpos := hf.addr_pos
  have hstop := hf.stop_le
  have hrest := split_header_rest hf.header hf.tilesRight hlarge hroom hpos hstop hfree
  obtain ⟨hprev, hnext, hlength⟩ := split_new hf.header hf.tilesRight hlarge hroom hpos hstop
  have hsplit : ∀ a, a < b.addr ∨ b.stop ≤ a →
      (split m b.addr n).2 a = relink m r (b.stop - n) a := fun a ha =>
    split_outside hf.header hf.tilesRight hlarge hroom hpos hstop ha
  obtain ⟨c, hc⟩ : ∃ c : Block, c = ⟨b.stop - n, n, true⟩ := ⟨_, rfl⟩
  have haddr : c.addr = b.stop - n := by rw [hc]
  have hlen : c.length = n := by rw [hc]
  have hcbusy : c.busy = true := by rw [hc]
  have hcstop : c.stop = b.stop := by
    simp only [Block.stop] at *
    omega
  rw [← hc, ← haddr]
  rw [← haddr] at hprev hnext hlength hrest hsplit
  rw [← hlen] at hroom
  generalize (split m b.addr n).2 = m₁ at *
  have hlength : length m₁ c.addr = c.length := hlength.trans hlen.symm
  have hout : ∀ a, ¬c.Owns a → markBusy m₁ c.addr a = m₁ a := fun a ha =>
    markBusy_outside hlength hroom (hcstop ▸ hstop) hcbusy ha
  have hin : ∀ {a}, c.Owns a → c.addr ≤ a ∧ a < b.stop := fun ha => by
    rw [← hcstop]
    exact ha.mem ((Nat.le_add_right _ _).trans hroom)
  have hbstop : b.stop = b.addr + b.length := rfl
  refine ⟨⟨?_, ?_, ?_⟩, fun k hk hbusy a hle hlt => ?_⟩
  · rw [List.append_assoc]
    apply linked_append.mpr
    refine ⟨hf.left.outside hf.tilesLeft fun a _ hlt => ?_, ?_, ?_, ?_⟩
    · rw [hout a fun ha => by have := hin ha; omega, hsplit a (.inl hlt),
        relink_outside hf.tilesRight (by omega)]
    · apply hrest.congr fun hbusy => absurd hbusy (by simp [hfree])
      intro a ha
      apply hout
      intro hca
      have := hin hca
      rcases ha with ⟨_, hlt⟩ | ⟨hbusy, _⟩
      · simp only [headerSize] at *
        omega
      · simp [hfree] at hbusy
    · exact markBusy_header hlength hroom (hcstop ▸ hstop) hcbusy hprev hnext
    · have hlt : c.addr < 2 ^ 32 := by
        simp only [headerSize, guardSize] at hroom
        omega
      have hlinked : Linked (relink m r c.addr) c.addr r 0 := hf.right.relink hf.tilesRight hlt
      refine hlinked.outside hf.tilesRight fun a hle _ => ?_
      rw [hout a fun ha => by have := hin ha; omega, hsplit a (.inr hle)]
  · rw [List.append_assoc]
    apply tiles_append.mpr
    refine ⟨b.addr, hf.tilesLeft, rfl, ?_, fun hbusy => ?_, ?_, ?_, fun _ => hroom, ?_⟩
    · simp only [headerSize] at *
      omega
    · simp [hfree] at hbusy
    · simp only [Block.stop] at *
      omega
    · exact (Nat.le_add_right _ _).trans hroom
    · exact hcstop ▸ hf.tilesRight
  · exact coalesced_allocated h.coalesced hcbusy (.inr ⟨_, rfl, rfl⟩)
  · have ha := hf.payload_outside hk hbusy hfree hle hlt
    rw [hout a fun hmem => by have := hin hmem; omega, hsplit a (ha.imp_right fun h => by omega),
      relink_outside hf.tilesRight]
    simp only [headerSize] at ha
    omega

end Fits

theorem allocate_spec {buf : Buffer} {len : Nat} (h : Represents m buf (l ++ b :: r))
    (hroom : headerSize + guardSize ≤ blockSize len) (hfits : b.Fits (blockSize len) = true)
    (hfirst : ∀ c ∈ l, c.Fits (blockSize len) = false) :
    ∃ m', allocate m buf.base len = some ((b.allocated (blockSize len)).payload, m') ∧
      Represents m' buf
        (l ++ b.remainder (blockSize len) ++ b.allocated (blockSize len) :: r) ∧
      SamePayload (l ++ b :: r) m m' := by
  have hf := h.focus
  have hstop := hf.stop_le
  have hlength := hf.length_le
  have hspace := buf.len_le
  obtain ⟨hfree, hle⟩ : b.busy = false ∧ blockSize len ≤ b.length := by
    simpa [Block.Fits] using hfits
  have hsum : u32 (blockSize len + headerSize * 2) = blockSize len + headerSize * 2 := by
    simp only [headerSize] at *
    exact u32_of_lt (by omega)
  rw [allocate, findFit_focus h hfits hfirst, Option.map_some, if_neg hf.addr_pos.ne',
    hf.header.length, hsum]
  generalize blockSize len = n at *
  unfold Block.allocated Block.remainder
  by_cases hexact : b.length ≤ n + headerSize * 2
  · simp only [if_pos hexact]
    obtain ⟨hrepresents, hsame⟩ := represents_exact h hfree hle hroom
    refine ⟨_, ?_, by simpa using hrepresents, hsame⟩
    rw [u32_of_lt]
    · rfl
    · simp only [headerSize, guardSize, Block.stop] at *
      omega
  · simp only [if_neg hexact]
    obtain ⟨hrepresents, hsame⟩ :=
      represents_split h hfree hle hroom (Nat.lt_of_not_le hexact)
    have hptr : (split m b.addr n).1 = b.stop - n := by
      rw [split_eq hf.header hf.tilesRight (Nat.lt_of_not_le hexact) hroom hf.addr_pos hstop]
    refine ⟨_, ?_, hrepresents, hsame⟩
    rw [hptr, u32_of_lt]
    · rfl
    · simp only [headerSize, guardSize] at *
      omega

theorem allocate_none {buf : Buffer} {len : Nat} (h : Represents m buf blocks)
    (hnone : ∀ c ∈ blocks, c.Fits (blockSize len) = false) :
    allocate m buf.base len = some (0, m) := by
  have hne : blocks ≠ [] := by
    rintro rfl
    have hstart := h.tiles
    have hroom := buf.room
    simp only [Tiles, headerSize] at *
    omega
  have hlen := h.tiles.length_le
  have hstop := buf.stop_le
  have hpos := buf.base_pos
  have hbase : headAddr blocks 0 = buf.base := h.tiles.headAddr_eq hne
  have hfind : blocks.find? (Block.Fits (blockSize len)) = none := by simpa using hnone
  simp only [headerSize] at hlen
  rw [allocate, ← hbase, findFit_eq h.linked h.tiles hpos (by omega), hfind]
  rfl

/-! ## Release -/

/-- Two neighbouring blocks as one. -/
def Block.join (b d : Block) : Block := { b with length := b.length + d.length }

section Merge

variable {buf : Buffer} {d : Block} (h : Focus m buf l b (d :: r)) (hfree : b.busy = false)
  (hdfree : d.busy = false)

include h hdfree

theorem mergeNext_eq :
    mergeNext m b.addr =
      relink (setNext (setLength m b.addr (b.length + d.length)) b.addr (headAddr r 0)) r
        b.addr := by
  obtain ⟨haddr, hdroom, _, htail⟩ := h.tilesRight
  have hb := h.header
  obtain ⟨hd, _⟩ := h.right
  have hpos := h.addr_pos
  have hstop := h.tilesRight.le
  have hlen : u32 (b.length + d.length) = b.length + d.length := by
    have htail' := htail.le
    have hbound := buf.stop_le
    simp only [Block.stop] at *
    exact u32_of_lt (by omega)
  have hnext : next m b.addr = d.addr := hb.next
  have hcond : next m b.addr ≠ 0 ∧ signature m (next m b.addr) = cFree := by
    rw [hnext]
    exact ⟨by simp only [Block.stop] at haddr; omega, hd.signature_eq_cFree.mpr hdfree⟩
  have hroom := h.room
  have hnextNext : next (setLength m b.addr (b.length + d.length)) d.addr = headAddr r 0 := by
    rw [← hd.next, next, setLength]
    simp only [Block.stop, headerSize] at *
    exact load_store_of_disjoint (by omega)
  rw [mergeNext, if_pos hcond, hnext, hb.length, hd.length, hlen]
  simp only [hnextNext]
  exact relink_eq htail (by simp only [Block.stop]; omega)

theorem mergeNext_outside {a : Nat} (ha : a < b.addr ∨ d.stop + headerSize ≤ a) :
    mergeNext m b.addr a = m a := by
  obtain ⟨haddr, hdroom, _, htail⟩ := h.tilesRight
  have hroom := h.room
  rw [mergeNext_eq h hdfree]
  simp only [Block.stop, headerSize] at *
  rw [relink_outside htail (by omega), setNext, store_outside (by omega), setLength,
    store_outside (by omega)]

include hfree in
theorem focus_mergeNext : Focus (mergeNext m b.addr) buf l (b.join d) r := by
  obtain ⟨haddr, hdroom, _, htail⟩ := h.tilesRight
  have hroom := h.room
  have hb := h.header
  have hstop : (b.join d).stop = d.stop := by
    simp only [Block.stop, Block.join] at *
    omega
  have hpos := h.addr_pos
  have hbound : b.addr + (b.length + d.length) ≤ 2 ^ 32 := by
    have htail' := htail.le
    have hstop_le := buf.stop_le
    simp only [Block.stop] at *
    omega
  have hafter : headAddr r 0 < 2 ^ 32 := h.right.1.next ▸ load_lt m d.addr
  refine ⟨?_, ?_, ?_, h.tilesLeft, hstop ▸ htail, ?_, fun hbusy => ?_⟩
  · exact h.left.outside h.tilesLeft fun a _ hlt => mergeNext_outside h hdfree (.inl hlt)
  · have hprev := hb.prev
    have hsignature := hb.signature
    rw [mergeNext_eq h hdfree]
    simp only [Block.stop, headerSize, Block.join, prev, signature] at *
    constructor
    · simp (disch := omega) only [prev, setNext, setLength, load_relink htail,
        load_store_of_disjoint, hprev]
    · simp (disch := omega) only [next, setNext, setLength, load_relink htail, load_store_same]
    · simp (disch := omega) only [length, setNext, setLength, load_relink htail,
        load_store_of_disjoint]
      exact load_store_same (by omega)
    · simp (disch := omega) only [signature, setNext, setLength, load_relink htail,
        load_store_of_disjoint, hsignature]
    · intro hbusy
      simp [hfree] at hbusy
  · have hlinked : Linked (relink m r b.addr) b.addr r 0 :=
      h.right.2.relink htail (by simp only [headerSize] at hroom; omega)
    refine hlinked.outside htail fun a hle _ => ?_
    rw [mergeNext_eq h hdfree]
    apply relink_congr
    simp only [Block.stop, headerSize] at *
    rw [setNext, store_outside (by omega), setLength, store_outside (by omega)]
  · simp only [Block.join]
    omega
  · simp [Block.join, hfree] at hbusy

end Merge

theorem lastAddr_append_singleton (before : Nat) (l : List Block) (p : Block) :
    lastAddr before (l ++ [p]) = p.addr := by
  induction l generalizing before with
  | nil => rfl
  | cons b l ih => exact ih b.addr

namespace Focus

variable {buf : Buffer}

theorem represents (h : Focus m buf l b r)
    (hcoalesced : (l ++ b :: r).IsChain fun b c => b.busy = true ∨ c.busy = true) :
    Represents m buf (l ++ b :: r) :=
  ⟨linked_append.mpr ⟨h.left, h.header, h.right⟩,
    tiles_append.mpr ⟨b.addr, h.tilesLeft, rfl, h.room, h.busyRoom, h.tilesRight⟩, hcoalesced⟩

/-- The same list, seen from the block before. -/
theorem shift {p : Block} (h : Focus m buf (l ++ [p]) b r) : Focus m buf l p (b :: r) := by
  obtain ⟨hl, hp, _⟩ := linked_append.mp h.left
  obtain ⟨mid, htl, rfl, hroom, hbusy, hstop⟩ := tiles_append.mp h.tilesLeft
  have hstop : p.stop = b.addr := hstop
  have hheader := h.header
  rw [lastAddr_append_singleton] at hheader
  exact ⟨hl, hp, ⟨hheader, h.right⟩, htl, ⟨hstop.symm, h.room, h.busyRoom, h.tilesRight⟩, hroom,
    hbusy⟩

/-- A block becomes free. -/
theorem free (h : Focus m buf l b r) :
    Focus (setSignature m b.addr cFree) buf l { b with busy := false } r := by
  have hb := h.header
  have hroom := h.room
  simp only [headerSize] at hroom
  have hout : ∀ a, a < b.addr ∨ b.stop ≤ a → setSignature m b.addr cFree a = m a := fun a ha => by
    simp only [Block.stop] at ha
    exact store_outside (by omega)
  refine ⟨?_, ⟨?_, ?_, ?_, ?_, fun hbusy => by cases hbusy⟩, ?_, h.tilesLeft, h.tilesRight,
    h.room, fun hbusy => by cases hbusy⟩
  · exact h.left.outside h.tilesLeft fun a _ hlt => hout a (.inl hlt)
  · exact (load_store_of_disjoint (by dsimp only; omega)).trans hb.prev
  · exact (load_store_of_disjoint (by dsimp only; omega)).trans hb.next
  · exact (load_store_of_disjoint (by dsimp only; omega)).trans hb.length
  · exact load_store_same (by decide)
  · exact h.right.outside h.tilesRight fun a hle _ => hout a (.inr hle)

theorem mergeNext_of_busy (h : Focus m buf l b r) (hnext : ∀ d ∈ r.head?, d.busy = true) :
    mergeNext m b.addr = m := by
  have hcond : ¬(next m b.addr ≠ 0 ∧ signature m (next m b.addr) = cFree) := by
    rw [h.header.next]
    cases r with
    | nil => simp [headAddr]
    | cons d r =>
        have hd := h.right.1.signature_eq_cFree
        have hbusy := hnext d rfl
        simp only [headAddr, hd, hbusy]
        simp
  exact if_neg hcond

theorem mergePrev_of_busy (h : Focus m buf l b r) (hprev : ∀ p ∈ l.getLast?, p.busy = true) :
    mergePrev m b.addr = m := by
  have hcond : ¬(prev m b.addr ≠ 0 ∧ signature m (prev m b.addr) = cFree) := by
    rw [h.header.prev]
    rcases List.eq_nil_or_concat' l with rfl | ⟨l, p, rfl⟩
    · simp [lastAddr]
    · have hp := h.shift.header.signature_eq_cFree
      have hbusy := hprev p (by simp)
      rw [lastAddr_append_singleton, hp, hbusy]
      simp
  exact if_neg hcond

/-- The merge with a preceding free block is that block's merge with its next one. -/
theorem mergePrev_of_free {p : Block} (h : Focus m buf (l ++ [p]) b r) (hp : p.busy = false)
    (hfree : b.busy = false) : mergePrev m b.addr = mergeNext m p.addr := by
  have hpaddr : prev m b.addr = p.addr := h.header.prev.trans (lastAddr_append_singleton 0 l p)
  have hcond : prev m b.addr ≠ 0 ∧ signature m (prev m b.addr) = cFree := by
    rw [hpaddr]
    exact ⟨h.shift.addr_pos.ne', h.shift.header.signature_eq_cFree.mpr hp⟩
  have hnext : next m p.addr = b.addr := h.shift.header.next
  have hcond' : next m p.addr ≠ 0 ∧ signature m (next m p.addr) = cFree := by
    rw [hnext]
    exact ⟨h.addr_pos.ne', h.header.signature_eq_cFree.mpr hfree⟩
  rw [mergePrev, if_pos hcond, mergeNext, if_pos hcond', hpaddr, hnext]

theorem guardsIntact (h : Focus m buf l b r) (hbusy : b.busy = true) :
    guardsIntact m b.addr = true := by
  obtain ⟨hhead, htail⟩ := h.header.guards hbusy
  have hroom := h.busyRoom hbusy
  have haddr : tailGuardAddr m b.addr = b.stop - guardSize :=
    tailGuardAddr_eq h.header.length ((Nat.le_add_left _ _).trans hroom) h.stop_le
  simp [SimpleHeap.guardsIntact, hhead, haddr, htail]

end Focus

/-- What a release leaves: a free block around the one that was busy, made of it and of the free
blocks next to it. -/
structure Released (buf : Buffer) (l : List Block) (b : Block) (r : List Block) (m m' : Memory) :
    Prop where
  represents : ∃ l' f r' joinedLeft joinedRight,
    Represents m' buf (l' ++ f :: r') ∧ l = l' ++ joinedLeft ∧ r = joinedRight ++ r' ∧
      f.busy = false ∧ f.addr ≤ b.addr ∧ b.stop ≤ f.stop ∧
      ∀ k ∈ joinedLeft ++ joinedRight, k.busy = false
  payload : SamePayload (l ++ r) m m'

/-- The first block of a list is busy, if there is one. -/
def HeadBusy (r : List Block) : Prop := ∀ d ∈ r.head?, d.busy = true

theorem merge_right {buf : Buffer} (h : Focus m buf l b r) (hfree : b.busy = false)
    (hcoalesced : r.IsChain fun b c => b.busy = true ∨ c.busy = true) :
    ∃ f r' joined, Focus (mergeNext m b.addr) buf l f r' ∧ r = joined ++ r' ∧
      (∀ k ∈ joined, k.busy = false) ∧ f.busy = false ∧ f.addr = b.addr ∧ b.stop ≤ f.stop ∧
      HeadBusy r' ∧
      ∀ a, a < f.addr ∨ f.stop + headerSize ≤ a → mergeNext m b.addr a = m a := by
  cases r with
  | nil =>
      have hsame := h.mergeNext_of_busy (by simp)
      rw [hsame]
      exact ⟨b, [], [], h, rfl, by simp, hfree, rfl, le_rfl, by simp [HeadBusy], fun _ _ => rfl⟩
  | cons d r =>
      cases hd : d.busy with
      | true =>
          have hsame := h.mergeNext_of_busy (by simpa using hd)
          rw [hsame]
          exact ⟨b, d :: r, [], h, rfl, by simp, hfree, rfl, le_rfl, by simpa [HeadBusy] using hd,
            fun _ _ => rfl⟩
      | false =>
          have haddr := h.tilesRight.1
          have hstop : (b.join d).stop = d.stop := by
            simp only [Block.stop, Block.join] at *
            omega
          refine ⟨b.join d, r, [d], focus_mergeNext h hfree hd, rfl, by simpa using hd, hfree, rfl,
            ?_, ?_, fun a ha => mergeNext_outside h hd (by rwa [hstop] at ha)⟩
          · rw [hstop]
            exact haddr ▸ Nat.le_add_right _ _
          · cases r with
            | nil => simp [HeadBusy]
            | cons e r =>
                have hseam := hcoalesced.rel
                simpa [HeadBusy, hd] using hseam

theorem merge_left {buf : Buffer} (h : Focus m buf l b r) (hfree : b.busy = false)
    (hcoalesced : l.IsChain fun b c => b.busy = true ∨ c.busy = true) :
    ∃ f l' joined, Focus (mergePrev m b.addr) buf l' f r ∧ l = l' ++ joined ∧
      (∀ k ∈ joined, k.busy = false) ∧ f.busy = false ∧ f.addr ≤ b.addr ∧ f.stop = b.stop ∧
      (∀ p ∈ l'.getLast?, p.busy = true) ∧
      ∀ a, a < f.addr ∨ f.stop + headerSize ≤ a → mergePrev m b.addr a = m a := by
  rcases List.eq_nil_or_concat' l with rfl | ⟨l, p, rfl⟩
  · have hsame := h.mergePrev_of_busy (by simp)
    rw [hsame]
    exact ⟨b, [], [], h, rfl, by simp, hfree, le_rfl, rfl, by simp, fun _ _ => rfl⟩
  · cases hp : p.busy with
    | true =>
        have hsame := h.mergePrev_of_busy (by simpa using hp)
        rw [hsame]
        exact ⟨b, l ++ [p], [], h, by simp, by simp, hfree, le_rfl, rfl, by simpa using hp,
          fun _ _ => rfl⟩
    | false =>
        have hshift := h.shift
        have haddr : b.addr = p.stop := hshift.tilesRight.1
        have hstop : (p.join b).stop = b.stop := by
          simp only [Block.stop, Block.join] at *
          omega
        rw [h.mergePrev_of_free hp hfree]
        refine ⟨p.join b, l, [p], focus_mergeNext hshift hp hfree, rfl, by simpa using hp, hp,
          ?_, hstop, ?_, fun a ha => mergeNext_outside hshift hfree (by rwa [hstop] at ha)⟩
        · rw [haddr]
          exact Nat.le_add_right _ _
        · intro q hq
          have hseam := (List.isChain_append.mp hcoalesced).2.2 q hq p rfl
          simpa [hp] using hseam

theorem release_spec {buf : Buffer} (h : Represents m buf (l ++ b :: r)) (hbusy : b.busy = true) :
    ∃ m', release m b.payload = some m' ∧ Released buf l b r m m' := by
  have hf := h.focus
  have hstop := hf.stop_le
  have hroom := hf.busyRoom hbusy
  obtain ⟨hcl, hcr, _⟩ := List.isChain_append.mp h.coalesced
  obtain ⟨f₁, r', jr, hf₁, rfl, hjr, hfree₁, haddr₁, hstop₁, hhead, hsame₁⟩ :=
    merge_right hf.free rfl hcr.tail
  obtain ⟨f, l', jl, hf₂, rfl, hjl, hfree, haddr, hstop₂, hlast, hsame₂⟩ :=
    merge_left hf₁ hfree₁ hcl
  have hblk : sub32 b.payload headerSize = b.addr := by
    simp only [Block.payload, Block.stop, headerSize, guardSize] at *
    rw [sub32_of_le (by omega) (by omega)]
    omega
  have hne : b.payload ≠ 0 := by
    simp only [Block.payload, headerSize]
    omega
  have hrelease : release m b.payload =
      some (mergePrev (mergeNext (setSignature m b.addr cFree) b.addr) b.addr) := by
    simp only [release, if_neg hne, hblk, hf.guardsIntact hbusy, Bool.true_eq_false, if_false]
  have haddr₁ : f₁.addr = b.addr := haddr₁
  have hstop₁ : b.stop ≤ f₁.stop := hstop₁
  rw [haddr₁] at hf₂ hsame₂ haddr
  refine ⟨_, hrelease, ⟨l', f, r', jl, jr, hf₂.represents ?_, rfl, rfl, hfree, haddr,
    hstop₂ ▸ hstop₁, ?_⟩, ?_⟩
  · have hcr' := (List.isChain_append.mp hcr.tail).2.1
    apply List.isChain_append.mpr
    refine ⟨(List.isChain_append.mp hcl).1, ?_, fun p hp _ _ => .inl (hlast p hp)⟩
    cases r' with
    | nil => exact .singleton f
    | cons d r' => exact .cons_cons (.inr (hhead d rfl)) hcr'
  · intro k hk
    exact (List.mem_append.mp hk).elim (hjl k) (hjr k)
  · intro k hk hkbusy a hle hlt
    have ha := Block.mem_payload hle hlt
    have hside : a < f.addr ∨ f.stop + headerSize ≤ a := by
      simp only [List.mem_append] at hk
      rcases hk with (hk | hk) | hk | hk
      · exact .inl (by have := (hf₂.tilesLeft.mem hk).2.1; omega)
      · simp [hjl k hk] at hkbusy
      · simp [hjr k hk] at hkbusy
      · exact .inr (by have := (hf₂.tilesRight.mem hk).1; omega)
    rw [hsame₂ a hside, hsame₁ a (by rw [haddr₁]; omega), setSignature, store_outside]
    simp only [Block.stop, headerSize, guardSize] at *
    omega

end TinyCLR.SimpleHeap
