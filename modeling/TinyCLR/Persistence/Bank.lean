import Mathlib
import TinyCLR.Support.CRC

/-!
# A bank of the persistence manager

A bank is the range of erase blocks of one storage usage, read as words between `m_start` and
`m_end`. On a device that supports execution in place those words are the cells of the flash
itself; otherwise they are a buffer in memory that is written through and read back. A write
clears bits and may report a fault after some of its words, an erase that succeeds sets every
cell of its block.
-/

namespace TinyCLR.Persistence

open Support

abbrev FlashWord := BitVec 32

def erased : FlashWord := 0xFFFFFFFF#32
def invalidated : FlashWord := 0#32

/-- The place of a bank in the address space, counted in words. -/
structure Geometry where
  start : Nat
  blockCount : Nat
  blockWords : Nat
  supportsXIP : Bool
  blockCount_pos : 0 < blockCount
  blockWords_pos : 0 < blockWords
  inAddressSpace : start + blockCount * blockWords < 2 ^ 30

namespace Geometry

variable (g : Geometry)

/-- `m_end` -/
def finish : Nat := g.start + g.blockCount * g.blockWords

/-- The addresses of one erase block. -/
def InBlock (block p : Nat) : Prop :=
  g.start + block * g.blockWords ≤ p ∧ p < g.start + (block + 1) * g.blockWords

instance (block p : Nat) : Decidable (g.InBlock block p) :=
  inferInstanceAs (Decidable (_ ∧ _))

/-- The block of a bank with one block is the bank. -/
theorem inBlock_zero_iff (h : g.blockCount = 1) (p : Nat) :
    g.InBlock 0 p ↔ g.start ≤ p ∧ p < g.finish := by
  simp [InBlock, finish, h]

end Geometry

namespace ObjectHeader

/-- POV1 = Persisted Object V1 -/
def version : FlashWord := 0x504F5631#32
def inUseBlock : FlashWord := 0xFFFFFFFF#32
def deletedBlock : FlashWord := 0#32

/-- `sizeof(ObjectHeader)` in words: signature, status and checksum, the six words of the
identity, the five words of the array header. -/
def words : Nat := 14

variable (w : Nat → FlashWord) (p : Nat)

def signature : FlashWord := w p
def status : FlashWord := w (p + 1)
def crcIdentity : FlashWord := w (p + 2)
def identityCrc : FlashWord := w (p + 3)
def identityLength : FlashWord := w (p + 5)

def bytesAt (p count : Nat) : List (BitVec 8) :=
  (List.range' p count).flatMap fun q => wordBytes (w q)

/-- `ComputeCRC`: the identity first, then the array header. -/
def computeCRC : FlashWord :=
  Support.computeCRC (bytesAt w (p + 9) 5) (Support.computeCRC (bytesAt w (p + 3) 6) 0)

/-- `CLR_RT_HeapBlock_WeakReference_Identity::ComputeCRC` over the data behind the header,
then the selector hash and the id. -/
def identityComputeCRC (buildCRC : FlashWord) : FlashWord :=
  let length := (identityLength w p).toNat
  let data := (bytesAt w (p + words) ((length + 3) / 4)).take length
  Support.computeCRC (bytesAt w (p + 7) 1)
    (Support.computeCRC (bytesAt w (p + 6) 1) (Support.computeCRC data buildCRC))

def hasGoodSignature : Bool := signature w p == version
def isInUse : Bool := status w p == inUseBlock

/-- `IsGood( false )` -/
def isGoodHeader : Bool := hasGoodSignature w p && crcIdentity w p == computeCRC w p

/-- `IsGood( true )`, where the checksum of the data starts from `g_buildCRC`. -/
def isGood (buildCRC : FlashWord) : Bool :=
  isGoodHeader w p && isInUse w p && identityCrc w p == identityComputeCRC w p buildCRC

/-- `Length`: header and data rounded up to words, in 32-bit arithmetic. -/
def length : FlashWord :=
  (BitVec.ofNat 32 (4 * words) + identityLength w p + 3) &&& ~~~3#32

/-- `Next`: the pointer behind the object, which wraps with the address space. -/
def next : Nat := (p + (length w p).toNat / 4) % 2 ^ 30

/-- `Find`: the first place before the last possible one that carries the signature. -/
def find (start finish : Nat) : Option Nat :=
  (List.range' start (finish - words - start)).find? fun q => hasGoodSignature w q

end ObjectHeader

namespace BankHeader

/-- PSV1 = Persisted Storage V1 -/
def version : FlashWord := 0x50535631#32
def inUseBank : FlashWord := 0xFFFFFFFF#32

def words : Nat := 3

variable (w : Nat → FlashWord) (p : Nat)

def hasGoodSignature : Bool := w p == version
def isInUse : Bool := w (p + 1) == inUseBank
def sequenceNumber : FlashWord := w (p + 2)

def isGood : Bool := hasGoodSignature w p && isInUse w p && sequenceNumber w p != 0#32

def find (start finish : Nat) : Option Nat :=
  (List.range' start (finish - words - start)).find? fun q => isGood w q

/-- The words that `Initialize` gives a header: the sequence number is still erased. -/
def fresh : List FlashWord := [version, inUseBank, 0xFFFFFFFF#32]

end BankHeader

/-- The contents of a bank and the two pointers kept of it. `flash` are the cells of the
device and `buffer` the copy in memory, both under the address at which the word is read. -/
structure Bank where
  flash : Nat → FlashWord
  buffer : Nat → FlashWord
  bankHeader : Option Nat
  current : Option Nat

/-- What the device makes of one erase: its answer, and what is in the block when it failed. -/
structure EraseOutcome where
  ok : Bool
  left : Nat → FlashWord

/-- What the device makes of one write: its answer, and which of the words took effect when it
failed. -/
structure WriteOutcome where
  ok : Bool
  programmed : Nat → Bool

namespace Bank

variable (g : Geometry) (b : Bank)

/-- The words as the runtime reads them. -/
def read (p : Nat) : FlashWord := if g.supportsXIP then b.flash p else b.buffer p

/-- `ReloadNonXIPBufferData`, and the same read at the start of `Initialize`. -/
def reload : Bank :=
  if g.supportsXIP then b
  else { b with
    buffer := fun p => if g.start ≤ p ∧ p < g.finish then b.flash p else b.buffer p }

/-- A device write: words that take effect lose bits, no word gains one. -/
def program (o : WriteOutcome) (dst : Nat) (src : List FlashWord) : Bank :=
  { b with
    flash := fun p =>
      if h : dst ≤ p ∧ p - dst < src.length then
        if o.ok || o.programmed (p - dst) then b.flash p &&& src.get ⟨p - dst, h.2⟩
        else b.flash p
      else b.flash p }

/-- `Write`: without execution in place the buffer is updated first, whatever the device says. -/
def write (o : WriteOutcome) (dst : Nat) (src : List FlashWord) : Bool × Bank :=
  let buffered :=
    if g.supportsXIP then b
    else { b with
      buffer := fun p =>
        if h : dst ≤ p ∧ p - dst < src.length then src.get ⟨p - dst, h.2⟩ else b.buffer p }
  (o.ok, buffered.program o dst src)

/-- `Invalidate`: the words that match are cleared. With a buffer the whole range is written
back, otherwise each match is a write of its own. -/
def invalidate (programmed : Nat → Bool) (dst : Nat) (matching : FlashWord) (length : Nat) :
    Bank :=
  let inRange := fun p => decide (dst ≤ p ∧ p < dst + length)
  if g.supportsXIP then
    { b with
      flash := fun p =>
        if inRange p && b.flash p == matching && programmed (p - dst) then
          b.flash p &&& invalidated
        else b.flash p }
  else
    let buffer := fun p =>
      if inRange p && b.buffer p == matching then invalidated else b.buffer p
    { b with
      buffer := buffer
      flash := fun p =>
        if inRange p && programmed (p - dst) then b.flash p &&& buffer p else b.flash p }

/-- The inner loop of `Initialize`: over the good headers that follow each other. -/
def skipGood (w : Nat → FlashWord) : Nat → Nat → Nat → Option (Nat × Nat)
  | 0, _, _ => none
  | fuel + 1, ptr, current =>
      if ObjectHeader.isGoodHeader w ptr then
        skipGood w fuel (ObjectHeader.next w ptr) (ObjectHeader.next w ptr)
      else some (ptr, current)

/-- The outer loop of `Initialize`: from signature to signature, until none is left. The loops
are cut off by the watchdog, `fuel` is how many turns it allows; the result is `m_current`. -/
def scanObjects (w : Nat → FlashWord) (finish : Nat) : Nat → Nat → Nat → Option Nat
  | 0, _, _ => none
  | fuel + 1, ptr, current =>
      match ObjectHeader.find w ptr finish with
      | none => some current
      | some found =>
          match skipGood w fuel found current with
          | none => none
          | some (last, current') => scanObjects w finish fuel ((last + 1) % 2 ^ 30) current'

def firstObjectHeader (header : Nat) : Nat := header + BankHeader.words

/-- `Bank::Initialize` on a bank whose stream and buffer are there. -/
def initializeBank (fuel : Nat) : Option Bank :=
  let b := b.reload g
  let w := b.read g
  match BankHeader.find w g.start g.finish with
  | none => some { b with bankHeader := none, current := none }
  | some header =>
      (scanObjects w g.finish fuel (firstObjectHeader header) (firstObjectHeader header)).map
        fun current => { b with bankHeader := some header, current := some current }

/-- What the device does during one call of `Format`, place by place. -/
structure FormatOutcome where
  write : Nat → WriteOutcome
  invalidate : Nat → Nat → Bool
  fuel : Nat

/-- `Format` from a place on: the header goes to the first place that takes it. -/
def formatFrom (o : FormatOutcome) : Bank → List Nat → Option (Bool × Bank)
  | b, [] => some (false, b)
  | b, ptr :: rest =>
      let (ok, b') := b.write g (o.write ptr) ptr BankHeader.fresh
      if ok then (b'.initializeBank g o.fuel).map (true, ·)
      else formatFrom o (b'.invalidate g (o.invalidate ptr) ptr BankHeader.version
        BankHeader.words) rest

def format (o : FormatOutcome) : Option (Bool × Bank) :=
  formatFrom g o b (List.range' g.start (g.finish - BankHeader.words - g.start))

/-- The device erase of one block. -/
def eraseBlock (o : EraseOutcome) (block : Nat) : Bank :=
  { b with
    flash := fun p =>
      if g.InBlock block p then (if o.ok then erased else o.left p) else b.flash p }

/-- `Erase`: false when the index is past the last block, otherwise the answer of the device;
the index moves on in both outcomes. -/
def erase (o : EraseOutcome) (blockIndex : Nat) : Bool × Bank × Nat :=
  if g.blockCount ≤ blockIndex then (false, b, blockIndex)
  else (o.ok, (b.eraseBlock g o blockIndex).reload g, blockIndex + 1)

section Blank

/-- What failed attempts to format a blank bank can leave in a word. -/
def Leftover (w : FlashWord) : Prop := w = erased ∨ w = BankHeader.version ∨ w = invalidated

theorem Leftover.not_signature {w : FlashWord} (h : Leftover w) :
    w ≠ ObjectHeader.version := by
  rcases h with rfl | rfl | rfl <;> decide

theorem Leftover.and {v w : FlashWord} (hv : Leftover v) (hw : Leftover w) :
    Leftover (v &&& w) := by
  rcases hv with rfl | rfl | rfl <;> rcases hw with rfl | rfl | rfl <;> unfold Leftover <;> decide

/-- Blank from `ptr` on, after attempts at the places before it. -/
structure BlankFrom (f : Nat → FlashWord) (ptr : Nat) : Prop where
  above : ∀ p, ptr ≤ p → p < g.finish → f p = erased
  below : ∀ p, g.start ≤ p → p < ptr → Leftover (f p)

/-- The cells are blank from `ptr` on, and so is the buffer when there is one. -/
structure Blank (ptr : Nat) : Prop where
  flash : BlankFrom g b.flash ptr
  buffer : g.supportsXIP = false → BlankFrom g b.buffer ptr

variable {g b}

theorem fresh_above {i : Nat} (h : i < BankHeader.fresh.length) (hi : i ≠ 0) :
    BankHeader.fresh.get ⟨i, h⟩ = erased := by
  have hlen : BankHeader.fresh.length = 3 := rfl
  obtain rfl | rfl : i = 1 ∨ i = 2 := by omega
  · rfl
  · rfl

theorem erased_and (w : FlashWord) : erased &&& w = w :=
  BitVec.allOnes_and

/-- Programming a header over blank cells changes one of them. -/
theorem program_blank {o : WriteOutcome} {ptr : Nat} (h : BlankFrom g b.flash ptr)
    (hptr : ptr + BankHeader.words < g.finish) :
    BlankFrom g (b.program o ptr BankHeader.fresh).flash (ptr + 1) := by
  have hwords : BankHeader.words = 3 := rfl
  constructor
  · intro p hp hfin
    have herased := h.above p (by omega) hfin
    simp only [program]
    split
    · split
      · rw [fresh_above _ (by omega), herased, erased_and]
      · exact herased
    · exact herased
  · intro p hstart hp
    rcases Nat.lt_succ_iff_lt_or_eq.mp hp with hlt | rfl
    · simp only [program, dif_neg (show ¬(ptr ≤ p ∧ p - ptr < BankHeader.fresh.length) by omega)]
      exact h.below p hstart hlt
    · have herased := h.above p le_rfl (by omega)
      simp only [program]
      split
      · split
        · right; left
          simp only [Nat.sub_self, herased, erased_and]
          rfl
        · exact Or.inl herased
      · exact Or.inl herased

/-- A header in the buffer over blank words. -/
theorem write_buffer_blank {o : WriteOutcome} {ptr : Nat} (hxip : g.supportsXIP = false)
    (h : BlankFrom g b.buffer ptr) (hptr : ptr + BankHeader.words < g.finish) :
    BlankFrom g (b.write g o ptr BankHeader.fresh).2.buffer (ptr + 1) := by
  have hwords : BankHeader.words = 3 := rfl
  constructor
  · intro p hp hfin
    simp only [write, hxip, program, Bool.false_eq_true, if_false]
    split
    · exact fresh_above _ (by omega)
    · exact h.above p (by omega) hfin
  · intro p hstart hp
    simp only [write, hxip, program, Bool.false_eq_true, if_false]
    rcases Nat.lt_succ_iff_lt_or_eq.mp hp with hlt | rfl
    · rw [dif_neg (by omega)]
      exact h.below p hstart hlt
    · split
      · simp only [Nat.sub_self]
        exact Or.inr (Or.inl rfl)
      · exact Or.inl (h.above p le_rfl (by omega))

theorem write_blank {o : WriteOutcome} {ptr : Nat} (h : Blank g b ptr)
    (hptr : ptr + BankHeader.words < g.finish) :
    Blank g (b.write g o ptr BankHeader.fresh).2 (ptr + 1) := by
  refine ⟨?_, fun hxip => write_buffer_blank hxip (h.buffer hxip) hptr⟩
  unfold write
  refine program_blank ?_ hptr
  split <;> exact h.flash

/-- The buffer after `Invalidate`. -/
theorem invalidate_buffer_blank (programmed : Nat → Bool) {ptr : Nat}
    (hxip : g.supportsXIP = false) (h : BlankFrom g b.buffer (ptr + 1)) :
    BlankFrom g (b.invalidate g programmed ptr BankHeader.version BankHeader.words).buffer
      (ptr + 1) := by
  have herased : erased ≠ BankHeader.version := by decide
  constructor
  · intro p hp hfin
    simp [invalidate, hxip, h.above p hp hfin, herased]
  · intro p hstart hp
    simp only [invalidate, hxip, Bool.false_eq_true, if_false]
    split
    · exact Or.inr (Or.inr rfl)
    · exact h.below p hstart hp

/-- Clearing words keeps erased words above and leftovers below. -/
theorem invalidate_blank {programmed : Nat → Bool} {ptr : Nat} (h : Blank g b (ptr + 1)) :
    Blank g (b.invalidate g programmed ptr BankHeader.version BankHeader.words) (ptr + 1) := by
  have herased : erased ≠ BankHeader.version := by decide
  refine ⟨⟨?_, ?_⟩, fun hxip => invalidate_buffer_blank programmed hxip (h.buffer hxip)⟩
  · intro p hp hfin
    have hflash := h.flash.above p hp hfin
    cases hxip : g.supportsXIP with
    | true => simp [invalidate, hxip, hflash, herased]
    | false => simp [invalidate, hxip, hflash, (h.buffer hxip).above p hp hfin, herased]
  · intro p hstart hp
    have hflash := h.flash.below p hstart hp
    cases hxip : g.supportsXIP with
    | true =>
        simp only [invalidate, hxip, if_true]
        split
        · exact hflash.and (Or.inr (Or.inr rfl))
        · exact hflash
    | false =>
        have hbuffer := (invalidate_buffer_blank programmed hxip (h.buffer hxip)).below p hstart hp
        simp only [invalidate, hxip, Bool.false_eq_true, if_false] at hbuffer ⊢
        split
        · exact hflash.and hbuffer
        · exact hflash

theorem reload_blank (h : BlankFrom g b.flash g.start) : Blank g (b.reload g) g.start := by
  unfold reload
  split
  case isTrue hxip => exact ⟨h, fun hno => absurd hno (by simp [hxip])⟩
  case isFalse =>
    refine ⟨h, fun _ => ⟨fun p hp hfin => ?_, fun p hstart hp => by omega⟩⟩
    simp only [if_pos (show g.start ≤ p ∧ p < g.finish by omega)]
    exact h.above p hp hfin

/-- A block that was erased is blank. -/
theorem eraseBlock_blank {o : EraseOutcome} (hok : o.ok = true) (hone : g.blockCount = 1) :
    BlankFrom g (b.eraseBlock g o 0).flash g.start := by
  refine ⟨fun p hp hfin => ?_, fun p hstart hp => by omega⟩
  simp only [eraseBlock, if_pos ((g.inBlock_zero_iff hone p).mpr ⟨hp, hfin⟩), hok, if_true]

@[simp] theorem read_reload {p : Nat} (hstart : g.start ≤ p) (hfin : p < g.finish) :
    (b.reload g).read g p = b.flash p := by
  unfold reload read
  split <;> simp_all

/-- The header that a successful write left at `ptr` is good once the bank is read back. -/
theorem written_header_isGood {o : WriteOutcome} {ptr : Nat} (h : BlankFrom g b.flash ptr)
    (hstart : g.start ≤ ptr) (hptr : ptr + BankHeader.words < g.finish) (hok : o.ok = true) :
    BankHeader.isGood (((b.write g o ptr BankHeader.fresh).2.reload g).read g) ptr = true := by
  have hwords : BankHeader.words = 3 := rfl
  have hword : ∀ i (hi : i < BankHeader.fresh.length),
      ((b.write g o ptr BankHeader.fresh).2.reload g).read g (ptr + i) =
        BankHeader.fresh.get ⟨i, hi⟩ := by
    intro i hi
    have hlen : BankHeader.fresh.length = 3 := rfl
    rw [read_reload (by omega) (by omega)]
    have herased := h.above (ptr + i) (by omega) (by omega)
    cases hxip : g.supportsXIP <;>
      simp [write, hxip, program, hi, hok, herased, erased_and]
  have h0 := hword 0 (by decide)
  have h1 := hword 1 (by decide)
  have h2 := hword 2 (by decide)
  simp only [Nat.add_zero] at h0
  simp only [BankHeader.isGood, BankHeader.hasGoodSignature, BankHeader.isInUse,
    BankHeader.sequenceNumber, h0, h1, h2]
  decide

/-- Over words without a signature the scan ends in its first turn. -/
theorem scanObjects_leftover {w : Nat → FlashWord} {fuel ptr current : Nat} (hptr : g.start ≤ ptr)
    (h : ∀ p, g.start ≤ p → p < g.finish → Leftover (w p)) (hfuel : fuel ≠ 0) :
    scanObjects w g.finish fuel ptr current = some current := by
  have hnone : ObjectHeader.find w ptr g.finish = none := by
    unfold ObjectHeader.find
    rw [List.find?_eq_none]
    intro q hq
    have hrange := List.mem_range'_1.mp hq
    have := (h q (by omega) (by omega)).not_signature
    simpa [ObjectHeader.hasGoodSignature, ObjectHeader.signature] using this
  cases fuel with
  | zero => exact absurd rfl hfuel
  | succ fuel => simp only [scanObjects, hnone]

/-- `Initialize` on leftovers with a good header among them: no object is found, and the next
one will go right behind the header. -/
theorem initializeBank_leftover {ptr : Nat}
    (h : ∀ p, g.start ≤ p → p < g.finish → Leftover (b.flash p)) (hstart : g.start ≤ ptr)
    (hptr : ptr + BankHeader.words < g.finish)
    (hgood : BankHeader.isGood ((b.reload g).read g) ptr = true) {fuel : Nat} {b' : Bank}
    (hinit : b.initializeBank g fuel = some b') :
    ∃ header, b' = { b.reload g with
      bankHeader := some header, current := some (firstObjectHeader header) } := by
  have hread : ∀ p, g.start ≤ p → p < g.finish → Leftover ((b.reload g).read g p) := by
    intro p hp hfin
    rw [read_reload hp hfin]
    exact h p hp hfin
  have hmem : ptr ∈ List.range' g.start (g.finish - BankHeader.words - g.start) := by
    rw [List.mem_range'_1]
    omega
  cases hfind : BankHeader.find ((b.reload g).read g) g.start g.finish with
  | none =>
      have hbad := List.find?_eq_none.mp hfind ptr hmem
      rw [hgood] at hbad
      exact absurd rfl hbad
  | some header =>
      refine ⟨header, ?_⟩
      have hrange := List.mem_range'_1.mp (List.mem_of_find?_eq_some hfind)
      have hfirst : g.start ≤ firstObjectHeader header := by
        unfold firstObjectHeader
        omega
      simp only [initializeBank, hfind, Option.map_eq_some_iff] at hinit
      obtain ⟨current, hscan, rfl⟩ := hinit
      have hfuel : fuel ≠ 0 := by
        rintro rfl
        cases hscan
      rw [scanObjects_leftover hfirst hread hfuel] at hscan
      rw [Option.some.inj hscan]

/-- What `Format` leaves in a bank that was blank. -/
structure FormattedBlank (ok : Bool) (b' : Bank) : Prop where
  leftover : ∀ p, g.start ≤ p → p < g.finish → Leftover (b'.read g p)
  current : ok = true → ∃ header,
    b'.bankHeader = some header ∧ b'.current = some (firstObjectHeader header)

theorem BlankFrom.leftover {f : Nat → FlashWord} {ptr : Nat} (h : BlankFrom g f ptr) {p : Nat}
    (hstart : g.start ≤ p) (hfin : p < g.finish) : Leftover (f p) := by
  by_cases hp : ptr ≤ p
  · exact Or.inl (h.above p hp hfin)
  · exact h.below p hstart (by omega)

theorem Blank.leftover {ptr : Nat} (h : Blank g b ptr) {p : Nat} (hstart : g.start ≤ p)
    (hfin : p < g.finish) : Leftover (b.read g p) := by
  unfold read
  split
  case isTrue => exact h.flash.leftover hstart hfin
  case isFalse hxip => exact (h.buffer (by simpa using hxip)).leftover hstart hfin

/-- The loop of `Format`, from a place up to which all attempts failed. -/
theorem formatFrom_blank {o : FormatOutcome} (n : Nat) {ptr : Nat} (hn : ptr + n + BankHeader.words
    = g.finish ∨ n = 0) (hstart : g.start ≤ ptr) (h : Blank g b ptr) {ok : Bool} {b' : Bank}
    (hformat : formatFrom g o b (List.range' ptr n) = some (ok, b')) :
    FormattedBlank (g := g) ok b' := by
  induction n generalizing b ptr with
  | zero =>
      simp only [List.range'_zero, formatFrom, Option.some.injEq, Prod.mk.injEq] at hformat
      obtain ⟨rfl, rfl⟩ := hformat
      exact ⟨fun p hp hfin => h.leftover hp hfin, fun hno => by cases hno⟩
  | succ n ih =>
      have hptr : ptr + BankHeader.words < g.finish := by omega
      have hwritten := write_blank (o := o.write ptr) h hptr
      simp only [List.range'_succ, formatFrom] at hformat
      split at hformat
      case isTrue hok =>
        have hleft := fun p hp hfin => hwritten.flash.leftover (p := p) hp hfin
        have hgood := written_header_isGood h.flash hstart hptr hok
        obtain ⟨b'', hinit, hpair⟩ := Option.map_eq_some_iff.mp hformat
        obtain ⟨rfl, rfl⟩ := Prod.mk.inj hpair
        obtain ⟨header, rfl⟩ := initializeBank_leftover hleft hstart hptr hgood hinit
        refine ⟨fun p hp hfin => ?_, fun _ => ⟨header, rfl, rfl⟩⟩
        have hread := read_reload (b := (b.write g (o.write ptr) ptr BankHeader.fresh).2) hp hfin
        exact hread.symm ▸ hleft p hp hfin
      case isFalse =>
        exact ih (by omega) (by omega) (invalidate_blank hwritten) hformat

/-- `Format` of a blank bank. -/
theorem format_blank {o : FormatOutcome} (h : Blank g b g.start) {ok : Bool} {b' : Bank}
    (hformat : b.format g o = some (ok, b')) : FormattedBlank (g := g) ok b' :=
  formatFrom_blank _ (by omega) le_rfl h hformat

end Blank

end Bank

end TinyCLR.Persistence
