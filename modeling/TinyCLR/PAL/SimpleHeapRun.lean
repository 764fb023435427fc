import Mathlib
import TinyCLR.Library.TransitionSystem
import TinyCLR.PAL.SimpleHeapBlocks

/-!
# Runs of the simple heap

A client allocates, releases and reallocates, and writes into what it has. It holds the pointers
with the sizes it asked for. Sizes close to `2 ^ 32` wrap in `SimpleHeap_Allocate`, and
`SimpleHeap_ReAllocate` reads behind its block when the new size is larger than what the old
block offers with its tail guard; runs without such requests keep all blocks apart.
-/

namespace TinyCLR.SimpleHeap

open LittleEndian Word32 TransitionSystem

/-- The memory, and the pointers that the client holds with the sizes it asked for. -/
structure State where
  memory : Memory
  live : List (Nat × Nat)

inductive Op where
  | allocate (len : Nat)
  | release (ptr : Nat)
  | reAllocate (ptr len : Nat)
  | write (ptr i : Nat) (byte : BitVec 8)

/-- The pointers that are left without one of them. -/
def drop (live : List (Nat × Nat)) (ptr : Nat) : List (Nat × Nat) :=
  live.filter fun x => x.1 ≠ ptr

def step (buf : Buffer) (s : State) : Op → Option State
  | .allocate len =>
      (allocate s.memory buf.base len).map fun result =>
        ⟨result.2, if result.1 = 0 then s.live else (result.1, len) :: s.live⟩
  | .release ptr => (release s.memory ptr).map fun m => ⟨m, drop s.live ptr⟩
  | .reAllocate ptr len =>
      (reAllocate s.memory buf.base ptr len).map fun result =>
        ⟨result.2, if result.1 = 0 then s.live else (result.1, len) :: drop s.live ptr⟩
  | .write ptr i byte => some ⟨Function.update s.memory (ptr + i) byte, s.live⟩

/-- `SimpleHeap_Initialize` on a buffer, whatever is in the memory. -/
def start (buf : Buffer) (m : Memory) : State := ⟨heapInitialize m buf.base buf.len, []⟩

/-- What the client has to keep to: it uses pointers that it holds, and sizes are 32-bit words. -/
def Valid (s : State) : Op → Prop
  | .allocate len => len < 2 ^ 32
  | .release ptr => ptr = 0 ∨ ∃ n, (ptr, n) ∈ s.live
  | .reAllocate ptr len => len < 2 ^ 32 ∧ (ptr = 0 ∨ ∃ n, (ptr, n) ∈ s.live)
  | .write ptr i _ => ∃ n, (ptr, n) ∈ s.live ∧ i < n

/-- No free block is large enough for a request. -/
def NoFit (buf : Buffer) (m : Memory) (len : Nat) : Prop :=
  findFit m (blockSize len) (2 ^ 32) buf.base = some 0

/-- The size of a request does not wrap. -/
def Unwrapped (len : Nat) : Prop := len + (headerSize + guardSize + 3) < 2 ^ 32

/-- Requests that the heap serves well, or not at all. -/
def Served (buf : Buffer) (s : State) : Op → Prop
  | .allocate len => Unwrapped len ∨ NoFit buf s.memory len
  | .release _ => True
  | .reAllocate ptr len =>
      Unwrapped len ∧
          (ptr = 0 ∨ len + headerSize ≤ length s.memory (sub32 ptr headerSize)) ∨
        NoFit buf s.memory len
  | .write _ _ _ => True

/-- What the client holds are the busy blocks, each large enough. -/
structure Books (blocks : List Block) (live : List (Nat × Nat)) : Prop where
  block : ∀ x ∈ live, ∃ b ∈ blocks, b.busy = true ∧ b.payload = x.1 ∧ x.2 ≤ b.usable
  held : ∀ b ∈ blocks, b.busy = true → ∃ n, (b.payload, n) ∈ live
  nodup : (live.map Prod.fst).Nodup

/-- The invariant of the heap and its client. -/
def Inv (buf : Buffer) (s : State) : Prop :=
  ∃ blocks, Represents s.memory buf blocks ∧ Books blocks s.live

variable {buf : Buffer} {m m' : Memory} {s : State} {blocks l r : List Block} {b : Block} {len : Nat}

theorem represents_heapInitialize (buf : Buffer) (m : Memory) :
    Represents (heapInitialize m buf.base buf.len) buf [⟨buf.base, buf.len, false⟩] := by
  have hroom := buf.room
  have hstop := buf.len_le
  refine ⟨⟨⟨?_, ?_, ?_, ?_, fun h => nomatch h⟩, trivial⟩,
    ⟨rfl, hroom, (fun h => nomatch h), rfl⟩, .singleton _⟩
  all_goals
    simp only [heapInitialize, setHeadGuard, setSignature, setPrev, setNext, setLength, prev,
      next, length, signature, headAddr]
  · rw [load_store_of_disjoint (by omega), load_store_of_disjoint (by omega),
      load_store_same (by decide)]
  · rw [load_store_of_disjoint (by omega), load_store_of_disjoint (by omega),
      load_store_of_disjoint (by omega), load_store_same (by decide)]
  · simp (disch := omega) only [load_store_of_disjoint]
    exact load_store_same (by omega)
  · rw [load_store_of_disjoint (by omega), load_store_same (by decide)]
    rfl

theorem inv_start (buf : Buffer) (m : Memory) : Inv buf (start buf m) :=
  ⟨_, represents_heapInitialize buf m, by simp [start], by simp, by simp [start]⟩

theorem blockSize_ge (h : Unwrapped len) : len + (headerSize + guardSize) ≤ blockSize len := by
  simp only [Unwrapped, headerSize, guardSize] at h
  simp only [blockSize, headerSize, guardSize]
  rw [u32_of_lt (by omega : len + 20 < 2 ^ 32), u32_of_lt (by omega : len + 20 + 4 < 2 ^ 32),
    u32_of_lt (by omega)]
  omega

/-! ## One request -/

/-- The blocks that are busy are the same but for one that is added. -/
def BusyAdded (blocks blocks' : List Block) (c : Block) : Prop :=
  ∀ k, (k ∈ blocks' ∧ k.busy = true) ↔ k = c ∨ (k ∈ blocks ∧ k.busy = true)

def BusyRemoved (blocks blocks' : List Block) (b : Block) : Prop :=
  ∀ k, (k ∈ blocks' ∧ k.busy = true) ↔ k ≠ b ∧ k ∈ blocks ∧ k.busy = true

/-- What an allocation gives: a block that was part of a free one, large enough. -/
structure Allocated (buf : Buffer) (blocks : List Block) (m m' : Memory) (len : Nat)
    (c : Block) : Prop where
  represents : ∃ blocks', Represents m' buf blocks' ∧ BusyAdded blocks blocks' c
  fresh : ∀ k ∈ blocks, k.busy = true → k.stop ≤ c.addr ∨ c.stop ≤ k.addr
  usable : len ≤ c.usable
  room : headerSize + guardSize ≤ c.length
  payload : SamePayload blocks m m'

theorem Block.free_of_fits {n : Nat} (hfits : b.Fits n = true) : b.busy = false := by
  have h : b.busy = false ∧ n ≤ b.length := by simpa [Block.Fits] using hfits
  exact h.1

theorem Block.allocated_facts {n : Nat} (hfits : b.Fits n = true) :
    (b.allocated n).busy = true ∧ b.addr ≤ (b.allocated n).addr ∧
      (b.allocated n).stop = b.stop ∧ n ≤ (b.allocated n).length := by
  obtain ⟨_, hle⟩ : b.busy = false ∧ n ≤ b.length := by simpa [Block.Fits] using hfits
  unfold Block.allocated
  split_ifs
  · exact ⟨rfl, le_rfl, rfl, hle⟩
  · simp only [Block.stop]
    exact ⟨trivial, by omega, by omega, le_rfl⟩

theorem Block.remainder_free {n : Nat} {k : Block} (hfits : b.Fits n = true)
    (hk : k ∈ b.remainder n) : k.busy = false := by
  have hfree := free_of_fits hfits
  unfold Block.remainder at hk
  split_ifs at hk
  · cases hk
  · rw [List.mem_singleton.mp hk]
    exact hfree

/-- A served allocation fails without a trace or gives a block. -/
theorem allocate_served (h : Represents m buf blocks) (hserved : Unwrapped len ∨ NoFit buf m len) :
    allocate m buf.base len = some (0, m) ∨
      ∃ c m', allocate m buf.base len = some (c.payload, m') ∧ Unwrapped len ∧
        Allocated buf blocks m m' len c := by
  cases hfind : blocks.find? (Block.Fits (blockSize len)) with
  | none => exact .inl (allocate_none h (by simpa using hfind))
  | some b =>
      obtain ⟨hfits, l, r, rfl, hfirst⟩ := List.find?_eq_some_iff_append.mp hfind
      have hf := h.focus
      have hfirst : ∀ c ∈ l, c.Fits (blockSize len) = false := by simpa using hfirst
      have hunwrapped : Unwrapped len := by
        refine hserved.resolve_right fun hnofit => ?_
        rw [NoFit, findFit_focus h hfits hfirst] at hnofit
        exact hf.addr_pos.ne' (Option.some.inj hnofit)
      have hsize := blockSize_ge hunwrapped
      have hroom := (Nat.le_add_left _ _).trans hsize
      obtain ⟨m', hallocate, hrepresents, hsame⟩ := allocate_spec h hroom hfits hfirst
      obtain ⟨hbusy, haddr, hstop, hlength⟩ := Block.allocated_facts hfits
      have hfree := Block.free_of_fits hfits
      refine .inr ⟨_, m', hallocate, hunwrapped, ⟨_, hrepresents, fun k => ?_⟩, fun k hk hkbusy => ?_,
        ?_, hroom.trans hlength, hsame⟩
      · have hrem : k ∈ b.remainder (blockSize len) → k.busy = false := Block.remainder_free hfits
        simp only [List.mem_append, List.mem_cons]
        constructor
        · rintro ⟨(hk | hk) | rfl | hk, hkbusy⟩
          · exact .inr ⟨.inl hk, hkbusy⟩
          · simp [hrem hk] at hkbusy
          · exact .inl rfl
          · exact .inr ⟨.inr (.inr hk), hkbusy⟩
        · rintro (rfl | ⟨hk | rfl | hk, hkbusy⟩)
          · exact ⟨.inr (.inl rfl), hbusy⟩
          · exact ⟨.inl (.inl hk), hkbusy⟩
          · simp [hfree] at hkbusy
          · exact ⟨.inr (.inr hk), hkbusy⟩
      · rcases hf.outside hk with hk | rfl | hk
        · exact .inl (hk.trans haddr)
        · simp [hfree] at hkbusy
        · exact .inr (hstop ▸ hk)
      · simp only [Block.usable]
        omega

/-- What a release gives: the block is free, the others are untouched. -/
structure Freed (buf : Buffer) (blocks : List Block) (b : Block) (m m' : Memory) : Prop where
  represents : ∃ blocks', Represents m' buf blocks' ∧ BusyRemoved blocks blocks' b ∧
    ∃ f ∈ blocks', f.busy = false ∧ f.addr ≤ b.addr ∧ b.stop ≤ f.stop
  payload : SamePayload (blocks.filter (· ≠ b)) m m'

theorem release_freed (h : Represents m buf blocks) (hb : b ∈ blocks) (hbusy : b.busy = true) :
    ∃ m', release m b.payload = some m' ∧ Freed buf blocks b m m' := by
  obtain ⟨l, r, rfl⟩ := List.append_of_mem hb
  have hf := h.focus
  obtain ⟨m', hrelease, ⟨l', f, r', jl, jr, hrepresents, rfl, rfl, hfree, haddr, hstop, hjoined⟩,
    hsame⟩ := release_spec h hbusy
  have hroom := hf.room
  have hne : ∀ k ∈ (l' ++ jl) ++ (jr ++ r'), k ≠ b := by
    rintro k hk rfl
    rcases List.mem_append.mp hk with hk | hk
    · have := (hf.tilesLeft.mem hk).2.1
      simp only [Block.stop, headerSize] at *
      omega
    · have := (hf.tilesRight.mem hk).1
      simp only [Block.stop, headerSize] at *
      omega
  refine ⟨m', hrelease, ⟨_, hrepresents, fun k => ?_, f, by simp, hfree, haddr, hstop⟩, ?_⟩
  · have hk := hne k
    have hfree' := hjoined k
    simp only [List.mem_append, List.mem_cons] at hk hfree' ⊢
    constructor
    · rintro ⟨hmem | rfl | hmem, hkbusy⟩
      · exact ⟨hk (.inl (.inl hmem)), .inl (.inl hmem), hkbusy⟩
      · simp [hfree] at hkbusy
      · exact ⟨hk (.inr (.inr hmem)), .inr (.inr (.inr hmem)), hkbusy⟩
    · rintro ⟨hneq, (hmem | hmem) | hmem | hmem | hmem, hkbusy⟩
      · exact ⟨.inl hmem, hkbusy⟩
      · simp [hfree' (.inl hmem)] at hkbusy
      · exact absurd hmem hneq
      · simp [hfree' (.inr hmem)] at hkbusy
      · exact ⟨.inr (.inr hmem), hkbusy⟩
  · intro k hk
    obtain ⟨hmem, hneq⟩ := List.mem_filter.mp hk
    apply hsame k
    simp only [List.mem_append, List.mem_cons] at hmem ⊢
    simp only [decide_eq_true_eq] at hneq
    tauto

/-- Blocks of one list that are not the same do not overlap. -/
theorem Represents.apart (h : Represents m buf blocks) {k : Block} (hb : b ∈ blocks)
    (hk : k ∈ blocks) : k.stop ≤ b.addr ∨ k = b ∨ b.stop ≤ k.addr := by
  obtain ⟨l, r, rfl⟩ := List.append_of_mem hb
  exact h.focus.outside hk

/-- Writing into the payload of busy blocks keeps all headers and guards. -/
theorem Represents.write (h : Represents m buf blocks) (hb : b ∈ blocks)
    (hm : ∀ a, ¬(b.payload ≤ a ∧ a < b.payload + b.usable) → m' a = m a) :
    Represents m' buf blocks := by
  refine ⟨h.linked.congr h.tiles fun k hk a ha => hm a ?_, h.tiles, h.coalesced⟩
  rintro ⟨hle, hlt⟩
  have hpayload := Block.mem_payload hle hlt
  have hmem := ha.mem (h.tiles.mem hk).2.2.1
  rcases h.apart hb hk with hside | rfl | hside
  · omega
  · rcases ha with ⟨_, hlt'⟩ | ⟨_, hle', _⟩ <;> omega
  · omega

/-- What a reallocation gives: a new block with the old contents, and the old block is free. -/
structure Moved (buf : Buffer) (blocks : List Block) (m m' : Memory) (len : Nat) (b c : Block) :
    Prop where
  represents : ∃ blocks', Represents m' buf blocks' ∧
    (∀ k, (k ∈ blocks' ∧ k.busy = true) ↔ k ≠ b ∧ (k = c ∨ (k ∈ blocks ∧ k.busy = true))) ∧
    ∃ f ∈ blocks', f.busy = false ∧ f.addr ≤ b.addr ∧ b.stop ≤ f.stop
  fresh : ∀ k ∈ blocks, k.busy = true → k.stop ≤ c.addr ∨ c.stop ≤ k.addr
  usable : len ≤ c.usable
  room : headerSize + guardSize ≤ c.length
  copied : ∀ i, i < b.usable → i < len → m' (c.payload + i) = m (b.payload + i)
  reads : b.payload + copyLength m b.payload len ≤ b.stop
  writes : c.payload + copyLength m b.payload len ≤ c.stop
  payload : SamePayload (blocks.filter (· ≠ b)) m m'

theorem Represents.length_eq (h : Represents m buf blocks) (hb : b ∈ blocks) :
    length m b.addr = b.length := by
  obtain ⟨l, r, rfl⟩ := List.append_of_mem hb
  exact h.focus.header.length

theorem Represents.blk_eq (h : Represents m buf blocks) (hb : b ∈ blocks) :
    sub32 b.payload headerSize = b.addr := by
  obtain ⟨l, r, rfl⟩ := List.append_of_mem hb
  have hroom := h.focus.room
  have hstop := h.focus.stop_le
  have hlength := h.focus.length_le
  have hspace := buf.len_le
  have hpos := h.focus.addr_pos
  simp only [sub32, u32, Block.payload, Block.stop, headerSize] at *
  omega

theorem Block.payload_ne_zero (b : Block) : b.payload ≠ 0 := by
  simp only [Block.payload, headerSize]
  omega

theorem allocate_noFit (h : NoFit buf m len) : allocate m buf.base len = some (0, m) := by
  rw [NoFit] at h
  rw [allocate, h]
  rfl

/-- A block of at least a header and a guard is as long as its parts. -/
theorem Block.payload_stop (hroom : headerSize + guardSize ≤ b.length) :
    b.payload + b.usable + guardSize = b.stop := by
  simp only [Block.payload, Block.usable, Block.stop] at *
  omega

theorem reAllocate_served (h : Represents m buf blocks) (hb : b ∈ blocks) (hbusy : b.busy = true)
    (hserved : (Unwrapped len ∧ len + headerSize ≤ b.length) ∨ NoFit buf m len) :
    reAllocate m buf.base b.payload len = some (0, m) ∨
      ∃ c m', reAllocate m buf.base b.payload len = some (c.payload, m') ∧
        Moved buf blocks m m' len b c := by
  rcases hserved with ⟨hunwrapped, hsize⟩ | hnofit
  swap
  · left
    simp only [reAllocate, allocate_noFit hnofit, Option.bind_some, if_true]
  rcases allocate_served h (.inl hunwrapped) with hnone |
    ⟨c, m₁, hallocate, _, ⟨blocks₁, hrepresents, hadded⟩, hfresh, husable, hroom, hsame⟩
  · left
    simp only [reAllocate, hnone, Option.bind_some, if_true]
  right
  obtain ⟨hb₁, _⟩ := (hadded b).mpr (.inr ⟨hb, hbusy⟩)
  obtain ⟨hc₁, hcbusy⟩ := (hadded c).mpr (.inl rfl)
  have hbc := hfresh b hb hbusy
  have hbroom := (h.tiles.mem hb).2.2.2 hbusy
  have hbstop := b.payload_stop hbroom
  have hcstop := c.payload_stop hroom
  -- the length of the old block is the same before and after the allocation
  have hcopy : copyLength m₁ b.payload len = len ∧ copyLength m b.payload len = len := by
    simp only [copyLength, h.blk_eq hb, hrepresents.length_eq hb₁, h.length_eq hb]
    exact ⟨if_neg (by omega), if_neg (by omega)⟩
  have hwritten : ∀ a, ¬(c.payload ≤ a ∧ a < c.payload + c.usable) →
      memcpy m₁ c.payload b.payload len a = m₁ a := fun a ha => if_neg (by omega)
  obtain ⟨m', hrelease, hfreed⟩ := release_freed (hrepresents.write hc₁ hwritten) hb₁ hbusy
  obtain ⟨blocks', hrepresents', hremoved, hfree⟩ := hfreed.represents
  have hne : c ≠ b := by
    rintro rfl
    simp only [Block.stop, headerSize, guardSize] at *
    omega
  refine ⟨c, m', ?_, ⟨blocks', hrepresents', fun k => ?_, hfree⟩, hfresh, husable, hroom,
    fun i hi hlt => ?_, ?_, ?_, fun k hk hkbusy a hle hlt => ?_⟩
  · have hmoved : (release (memcpy m₁ c.payload b.payload (copyLength m₁ b.payload len))
        b.payload).map (fun m => (c.payload, m)) = some (c.payload, m') := by
      rw [hcopy.1, hrelease]
      rfl
    rw [reAllocate, hallocate, Option.bind_some]
    exact (if_neg c.payload_ne_zero).trans ((if_neg b.payload_ne_zero).trans hmoved)
  · rw [hremoved k, hadded k]
  · have hci : m' (c.payload + i) = memcpy m₁ c.payload b.payload len (c.payload + i) := by
      apply hfreed.payload c (List.mem_filter.mpr ⟨hc₁, by simpa using hne⟩) hcbusy
      · omega
      · omega
    have hbi : m₁ (b.payload + i) = m (b.payload + i) := by
      apply hsame b hb hbusy
      · omega
      · omega
    rw [hci, ← hbi, memcpy, if_pos (by omega), Nat.add_sub_cancel_left]
  · rw [hcopy.2]
    simp only [Block.payload, Block.stop]
    omega
  · rw [hcopy.2]
    omega
  · obtain ⟨hkmem, hkne⟩ := List.mem_filter.mp hk
    obtain ⟨hk₁, _⟩ := (hadded k).mpr (.inr ⟨hkmem, hkbusy⟩)
    have hkc := hfresh k hkmem hkbusy
    have hka := Block.mem_payload hle hlt
    have hcp : c.addr ≤ c.payload := Nat.le_add_right _ _
    rw [hfreed.payload k (List.mem_filter.mpr ⟨hk₁, hkne⟩) hkbusy a hle hlt,
      hwritten a (by omega), hsame k hkmem hkbusy a hle hlt]

/-! ## The books of the client -/

section Books

variable {blocks' : List Block} {c : Block} {live : List (Nat × Nat)}

theorem Books.added (h : Books blocks live) (hadded : BusyAdded blocks blocks' c)
    (husable : len ≤ c.usable) (hfresh : ∀ k ∈ blocks, k.busy = true → k.payload ≠ c.payload) :
    Books blocks' ((c.payload, len) :: live) := by
  constructor
  · intro x hx
    rcases List.mem_cons.mp hx with rfl | hx
    · obtain ⟨hmem, hbusy⟩ := (hadded c).mpr (.inl rfl)
      exact ⟨c, hmem, hbusy, rfl, husable⟩
    · obtain ⟨b, hb, hbusy, hpayload⟩ := h.block x hx
      obtain ⟨hmem, _⟩ := (hadded b).mpr (.inr ⟨hb, hbusy⟩)
      exact ⟨b, hmem, hbusy, hpayload⟩
  · intro b hb hbusy
    rcases (hadded b).mp ⟨hb, hbusy⟩ with rfl | ⟨hb, _⟩
    · exact ⟨len, List.mem_cons_self⟩
    · obtain ⟨n, hn⟩ := h.held b hb hbusy
      exact ⟨n, List.mem_cons_of_mem _ hn⟩
  · apply List.nodup_cons.mpr
    refine ⟨fun hmem => ?_, h.nodup⟩
    obtain ⟨x, hx, hxc⟩ := List.mem_map.mp hmem
    obtain ⟨b, hb, hbusy, hpayload, _⟩ := h.block x hx
    exact hfresh b hb hbusy (hpayload.trans hxc)

theorem Books.removed (h : Books blocks live) (hremoved : BusyRemoved blocks blocks' b)
    (hinj : ∀ k ∈ blocks, k.busy = true → k.payload = b.payload → k = b) :
    Books blocks' (drop live b.payload) := by
  constructor
  · intro x hx
    obtain ⟨hx, hne⟩ := List.mem_filter.mp hx
    obtain ⟨k, hk, hbusy, hpayload, hsize⟩ := h.block x hx
    have hkb : k ≠ b := by
      rintro rfl
      simp [hpayload] at hne
    obtain ⟨hmem, _⟩ := (hremoved k).mpr ⟨hkb, hk, hbusy⟩
    exact ⟨k, hmem, hbusy, hpayload, hsize⟩
  · intro k hk hbusy
    obtain ⟨hkb, hk, _⟩ := (hremoved k).mp ⟨hk, hbusy⟩
    obtain ⟨n, hn⟩ := h.held k hk hbusy
    refine ⟨n, List.mem_filter.mpr ⟨hn, ?_⟩⟩
    simpa using fun heq => hkb (hinj k hk hbusy heq)
  · exact (List.filter_sublist.map Prod.fst).nodup h.nodup

end Books

theorem Represents.payload_inj (h : Represents m buf blocks) (hb : b ∈ blocks) {k : Block}
    (hk : k ∈ blocks) (heq : k.payload = b.payload) : k = b := by
  have hbroom := (h.tiles.mem hb).2.2.1
  have hkroom := (h.tiles.mem hk).2.2.1
  simp only [Block.payload, headerSize] at *
  rcases h.apart hb hk with hside | hside | hside
  · simp only [Block.stop] at hside
    omega
  · exact hside
  · simp only [Block.stop] at hside
    omega

/-- A block outside of all busy ones has a payload of its own. -/
theorem Represents.payload_fresh {c : Block} (h : Represents m buf blocks)
    (hroom : headerSize + guardSize ≤ c.length)
    (hfresh : ∀ k ∈ blocks, k.busy = true → k.stop ≤ c.addr ∨ c.stop ≤ k.addr) (k : Block)
    (hk : k ∈ blocks) (hbusy : k.busy = true) : k.payload ≠ c.payload := by
  have hkroom := (h.tiles.mem hk).2.2.1
  have hside := hfresh k hk hbusy
  simp only [Block.payload, Block.stop, headerSize, guardSize] at *
  omega

/-! ## Steps -/

/-- What an operation does, in terms of the blocks before it. -/
def Effect (buf : Buffer) (blocks : List Block) (s s' : State) : Op → Prop
  | .allocate len =>
      s' = s ∨ ∃ c, s'.live = (c.payload, len) :: s.live ∧
        Allocated buf blocks s.memory s'.memory len c
  | .release ptr =>
      (ptr = 0 ∧ s' = s) ∨ ∃ b ∈ blocks, b.busy = true ∧ b.payload = ptr ∧
        s'.live = drop s.live ptr ∧ Freed buf blocks b s.memory s'.memory
  | .reAllocate ptr len =>
      s' = s ∨
        (ptr = 0 ∧ ∃ c, s'.live = (c.payload, len) :: s.live ∧
          Allocated buf blocks s.memory s'.memory len c) ∨
        ∃ b ∈ blocks, ∃ c, b.busy = true ∧ b.payload = ptr ∧
          s'.live = (c.payload, len) :: drop s.live ptr ∧
          Moved buf blocks s.memory s'.memory len b c
  | .write ptr i byte => s' = ⟨Function.update s.memory (ptr + i) byte, s.live⟩

theorem drop_zero (h : Books blocks s.live) : drop s.live 0 = s.live := by
  apply List.filter_eq_self.mpr
  intro x hx
  obtain ⟨b, _, _, hpayload, _⟩ := h.block x hx
  simpa [← hpayload] using b.payload_ne_zero

theorem step_allocate (h : Represents s.memory buf blocks) (hbooks : Books blocks s.live)
    (hserved : Served buf s (.allocate len)) :
    ∃ s', step buf s (.allocate len) = some s' ∧ Inv buf s' ∧
      Effect buf blocks s s' (.allocate len) := by
  rcases allocate_served h hserved with hnone | ⟨c, m', hallocate, _, hallocated⟩
  · refine ⟨s, ?_, ⟨blocks, h, hbooks⟩, .inl rfl⟩
    rw [step, hnone]
    rfl
  · obtain ⟨blocks', hrepresents, hadded⟩ := hallocated.represents
    refine ⟨⟨m', (c.payload, len) :: s.live⟩, ?_, ⟨blocks', hrepresents, ?_⟩,
      .inr ⟨c, rfl, hallocated⟩⟩
    · rw [step, hallocate, Option.map_some, if_neg c.payload_ne_zero]
    · exact hbooks.added hadded hallocated.usable
        (h.payload_fresh hallocated.room hallocated.fresh)

theorem step_release {ptr : Nat} (h : Represents s.memory buf blocks)
    (hbooks : Books blocks s.live) (hvalid : Valid s (.release ptr)) :
    ∃ s', step buf s (.release ptr) = some s' ∧ Inv buf s' ∧
      Effect buf blocks s s' (.release ptr) := by
  rcases hvalid with rfl | ⟨n, hlive⟩
  · refine ⟨s, ?_, ⟨blocks, h, hbooks⟩, .inl ⟨rfl, rfl⟩⟩
    rw [step, drop_zero hbooks]
    rfl
  · obtain ⟨b, hb, hbusy, rfl, _⟩ := hbooks.block _ hlive
    obtain ⟨m', hrelease, hfreed⟩ := release_freed h hb hbusy
    obtain ⟨blocks', hrepresents, hremoved, _⟩ := hfreed.represents
    refine ⟨⟨m', drop s.live b.payload⟩, ?_, ⟨blocks', hrepresents, ?_⟩,
      .inr ⟨b, hb, hbusy, rfl, rfl, hfreed⟩⟩
    · rw [step, hrelease]
      rfl
    · exact hbooks.removed hremoved fun k hk _ heq => h.payload_inj hb hk heq

theorem step_reAllocate {ptr : Nat} (h : Represents s.memory buf blocks)
    (hbooks : Books blocks s.live) (hvalid : Valid s (.reAllocate ptr len))
    (hserved : Served buf s (.reAllocate ptr len)) :
    ∃ s', step buf s (.reAllocate ptr len) = some s' ∧ Inv buf s' ∧
      Effect buf blocks s s' (.reAllocate ptr len) := by
  rcases hvalid.2 with rfl | ⟨n, hlive⟩
  · rcases allocate_served h (hserved.imp_left And.left) with
      hnone | ⟨c, m', hallocate, _, hallocated⟩
    · refine ⟨s, ?_, ⟨blocks, h, hbooks⟩, .inl rfl⟩
      rw [step, reAllocate, hnone]
      rfl
    · obtain ⟨blocks', hrepresents, hadded⟩ := hallocated.represents
      refine ⟨⟨m', (c.payload, len) :: s.live⟩, ?_, ⟨blocks', hrepresents, ?_⟩,
        .inr (.inl ⟨rfl, c, rfl, hallocated⟩)⟩
      · rw [step, reAllocate, hallocate, Option.bind_some, if_neg c.payload_ne_zero, if_pos rfl,
          Option.map_some, if_neg c.payload_ne_zero, drop_zero hbooks]
      · exact hbooks.added hadded hallocated.usable
          (h.payload_fresh hallocated.room hallocated.fresh)
  · obtain ⟨b, hb, hbusy, rfl, _⟩ := hbooks.block _ hlive
    have hserved : (Unwrapped len ∧ len + headerSize ≤ b.length) ∨ NoFit buf s.memory len := by
      refine hserved.imp_left fun ⟨hunwrapped, hsize⟩ => ⟨hunwrapped, ?_⟩
      have hsize := hsize.resolve_left b.payload_ne_zero
      rwa [h.blk_eq hb, h.length_eq hb] at hsize
    rcases reAllocate_served h hb hbusy hserved with hnone | ⟨c, m', hreAllocate, hmoved⟩
    · refine ⟨s, ?_, ⟨blocks, h, hbooks⟩, .inl rfl⟩
      rw [step, hnone]
      rfl
    · obtain ⟨blocks', hrepresents, hbusy', _⟩ := hmoved.represents
      have hfresh := h.payload_fresh hmoved.room hmoved.fresh
      have hne : c ≠ b := fun heq => hfresh b hb hbusy (congrArg Block.payload heq.symm)
      have hremoved : BusyRemoved blocks (blocks.filter (· ≠ b)) b := fun k => by
        simp only [List.mem_filter, decide_eq_true_eq]
        tauto
      have hadded : BusyAdded (blocks.filter (· ≠ b)) blocks' c := fun k => by
        rw [hbusy' k]
        simp only [List.mem_filter, decide_eq_true_eq]
        constructor
        · tauto
        · rintro (rfl | ⟨⟨hk, hkne⟩, hkbusy⟩)
          · exact ⟨hne, .inl rfl⟩
          · exact ⟨hkne, .inr ⟨hk, hkbusy⟩⟩
      refine ⟨⟨m', (c.payload, len) :: drop s.live b.payload⟩, ?_, ⟨blocks', hrepresents, ?_⟩,
        .inr (.inr ⟨b, hb, c, hbusy, rfl, rfl, hmoved⟩)⟩
      · rw [step, hreAllocate, Option.map_some, if_neg c.payload_ne_zero]
      · have hbooks' := hbooks.removed hremoved fun k hk _ heq => h.payload_inj hb hk heq
        exact hbooks'.added hadded hmoved.usable fun k hk hkbusy =>
          hfresh k (List.mem_filter.mp hk).1 hkbusy

theorem step_write {ptr i : Nat} {byte : BitVec 8} (h : Represents s.memory buf blocks)
    (hbooks : Books blocks s.live) (hvalid : Valid s (.write ptr i byte)) :
    ∃ s', step buf s (.write ptr i byte) = some s' ∧ Inv buf s' ∧
      Effect buf blocks s s' (.write ptr i byte) := by
  obtain ⟨n, hlive, hi⟩ := hvalid
  obtain ⟨b, hb, hbusy, rfl, husable⟩ := hbooks.block _ hlive
  refine ⟨_, rfl, ⟨blocks, ?_, hbooks⟩, rfl⟩
  apply h.write hb
  intro a ha
  apply Function.update_of_ne
  rintro rfl
  exact ha ⟨Nat.le_add_right _ _, by dsimp only at husable; omega⟩

/-- A valid request that the heap serves is answered and keeps the invariant. -/
theorem step_served {op : Op} (h : Represents s.memory buf blocks) (hbooks : Books blocks s.live)
    (hvalid : Valid s op) (hserved : Served buf s op) :
    ∃ s', step buf s op = some s' ∧ Inv buf s' ∧ Effect buf blocks s s' op := by
  cases op with
  | allocate len => exact step_allocate h hbooks hserved
  | release ptr => exact step_release h hbooks hvalid
  | reAllocate ptr len => exact step_reAllocate h hbooks hvalid hserved
  | write ptr i byte => exact step_write h hbooks hvalid

/-- The bytes that the client asked for do not overlap. -/
theorem Books.disjoint {live : List (Nat × Nat)} (h : Represents m buf blocks)
    (hbooks : Books blocks live) :
    live.Pairwise fun x y => x.1 + x.2 ≤ y.1 ∨ y.1 + y.2 ≤ x.1 := by
  apply (List.pairwise_map.mp hbooks.nodup).imp_of_mem
  intro x y hx hy hne
  obtain ⟨b, hb, hbusy, hbx, hxsize⟩ := hbooks.block x hx
  obtain ⟨c, hc, hcbusy, hcy, hysize⟩ := hbooks.block y hy
  have hbstop := b.payload_stop ((h.tiles.mem hb).2.2.2 hbusy)
  have hcstop := c.payload_stop ((h.tiles.mem hc).2.2.2 hcbusy)
  have hbp : b.addr ≤ b.payload := Nat.le_add_right _ _
  have hcp : c.addr ≤ c.payload := Nat.le_add_right _ _
  rcases h.apart hb hc with hside | rfl | hside
  · omega
  · exact absurd (hbx.symm.trans hcy) hne
  · omega

/-- In every run of valid requests that the heap serves, the headers describe blocks that tile the
buffer with no two free neighbours, the client's allocations are busy blocks of their own, and the
next request has its effect and nothing else. -/
theorem heap_sound (buf : Buffer) (m : Memory) {s : State}
    (h : Reachable (step buf) (fun s => s = start buf m)
      (fun s op => Valid s op ∧ Served buf s op) s) :
    ∃ blocks, Represents s.memory buf blocks ∧ Books blocks s.live ∧
      (s.live.Pairwise fun x y => x.1 + x.2 ≤ y.1 ∨ y.1 + y.2 ≤ x.1) ∧
      ∀ op, Valid s op → Served buf s op →
        ∃ s', step buf s op = some s' ∧ Inv buf s' ∧ Effect buf blocks s s' op := by
  have hinv : Inv buf s := by
    apply h.invariant (Inv buf)
    · rintro s rfl
      exact inv_start buf m
    · rintro s op s' ⟨blocks, hrepresents, hbooks⟩ ⟨hvalid, hserved⟩ hstep
      obtain ⟨t, ht, hinv, _⟩ := step_served hrepresents hbooks hvalid hserved
      rwa [Option.some.inj (hstep.symm.trans ht)]
  obtain ⟨blocks, hrepresents, hbooks⟩ := hinv
  exact ⟨blocks, hrepresents, hbooks, hbooks.disjoint hrepresents,
    fun op hvalid hserved => step_served hrepresents hbooks hvalid hserved⟩

/-! ## A buffer of 4096 bytes -/

def sampleBuffer : Buffer where
  base := 0x1000
  len := 0x1000
  base_pos := by decide
  room := by decide
  stop_le := by decide
  len_le := by decide

/-- The first allocation in the sample buffer. -/
theorem step_sample (m : Memory) (len : Nat) (hroom : headerSize + guardSize ≤ blockSize len)
    (hle : blockSize len ≤ 0x1000) :
    ∃ s' c, step sampleBuffer (start sampleBuffer m) (.allocate len) = some s' ∧
      s'.live = [(Block.payload c, len)] := by
  have hfits : Block.Fits (blockSize len) ⟨sampleBuffer.base, sampleBuffer.len, false⟩ = true := by
    simp [Block.Fits, sampleBuffer, hle]
  obtain ⟨m', hallocate, _⟩ :=
    allocate_spec (l := []) (represents_heapInitialize sampleBuffer m) hroom hfits (by simp)
  refine ⟨⟨m', [((Block.allocated (blockSize len)
    ⟨sampleBuffer.base, sampleBuffer.len, false⟩).payload, len)]⟩, _, ?_, rfl⟩
  rw [step, start, hallocate, Option.map_some, if_neg (Block.payload_ne_zero _)]

theorem heap_sound_sample : ∃ s : State, s.live.map Prod.snd = [16] ∧
    ∃ blocks, Represents s.memory sampleBuffer blocks ∧ Books blocks s.live := by
  obtain ⟨s, c, hstep, hlive⟩ := step_sample (fun _ => 0) 16 (by decide) (by decide)
  have hvalid : Valid (start sampleBuffer fun _ => 0) (.allocate 16) := by
    unfold Valid
    decide
  have hserved : Served sampleBuffer (start sampleBuffer fun _ => 0) (.allocate 16) := by
    unfold Served Unwrapped
    exact .inl (by decide)
  obtain ⟨blocks, hrepresents, hbooks, _⟩ :=
    heap_sound sampleBuffer (fun _ => 0) (.next (.start rfl) ⟨hvalid, hserved⟩ hstep)
  exact ⟨s, by rw [hlive]; rfl, blocks, hrepresents, hbooks⟩

/-- A request of `0xFFFFFFFF` bytes gets a block of 24 bytes. -/
theorem not_heap_sound_sample : ¬ ∀ (buf : Buffer) (m : Memory) (s : State),
    Reachable (step buf) (fun s => s = start buf m) Valid s →
      ∃ blocks, Represents s.memory buf blocks ∧ Books blocks s.live := by
  intro h
  obtain ⟨s, c, hstep, hlive⟩ := step_sample (fun _ => 0) 0xFFFFFFFF (by decide) (by decide)
  have hvalid : Valid (start sampleBuffer fun _ => 0) (.allocate 0xFFFFFFFF) := by
    unfold Valid
    decide
  obtain ⟨blocks, hrepresents, hbooks⟩ :=
    h sampleBuffer (fun _ => 0) s (.next (.start rfl) hvalid hstep)
  obtain ⟨b, hb, _, _, husable⟩ := hbooks.block (Block.payload c, 0xFFFFFFFF) (by simp [hlive])
  have hmem := hrepresents.tiles.mem hb
  simp only [Block.usable, Block.stop, sampleBuffer, headerSize, guardSize] at *
  omega

end TinyCLR.SimpleHeap
