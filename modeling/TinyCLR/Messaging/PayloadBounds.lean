import Mathlib
import TinyCLR.Library.Word32
import TinyCLR.HeapBlock.HeapCluster

/-!
# What the messaging handlers touch

The handlers of `CLR_Messaging` cast the received payload to a structure and queue messages for
the endpoints. Each access through the payload's pointer and each one into a new message object is
logged as a range of offsets; what lies behind the payload is memory like any other.
-/

namespace TinyCLR.Messaging.Payload

open Word32 (u32 u32_lt u32_of_lt sub32 sub32_of_le load)
open LittleEndian (Memory)
open HeapCluster (sizeofHeapBlock hbMaxSize convertFromSizeToHeapBlocks)

/-! ## Memory for payloads and messages -/

/-- `sizeof(CLR_RT_HeapBlock_BinaryBlob)` -/
def sizeofBinaryBlob : ℕ := sizeofHeapBlock + 4

/-- The event cache and the heap: the size in blocks of what they give for a number of blocks. -/
structure NodeSource where
  extract : ℕ → Option ℕ
  le_extract : ∀ {blocks got}, extract blocks = some got → blocks ≤ got
  extract_le : ∀ {blocks got}, extract blocks = some got → got ≤ hbMaxSize

/-- `CLR_RT_Memory::Allocate`: the bytes of the object, from its data on. -/
def allocate (source : NodeSource) (len : ℕ) : Option ℕ :=
  let totLength := u32 (sizeofBinaryBlob + len)
  (source.extract (convertFromSizeToHeapBlocks totLength)).map fun blocks =>
    blocks * sizeofHeapBlock - sizeofBinaryBlob

/-! ## Structures on the wire -/

structure Port where
  type : ℕ
  id : ℕ
  deriving DecidableEq

structure Address where
  seq : ℕ
  source : Port
  dest : Port
  deriving DecidableEq

def sizeofAddress : ℕ := 20

/-- `CLR_RT_HeapBlock_EndPoint::Address` at an offset of the payload; `source` and `dest` are
`m_from` and `m_to`. -/
def addressAt (payload : Memory) (a : ℕ) : Address where
  seq := load payload a
  source := ⟨load payload (a + 4), load payload (a + 8)⟩
  dest := ⟨load payload (a + 12), load payload (a + 16)⟩

/-- `CLR_RT_HeapBlock_EndPoint::Message` -/
structure Message where
  cmd : ℕ
  addr : Address
  found : Bool
  length : ℕ
  data : List (BitVec 8)

/-- The offset of `m_data`, behind a heap block, the command, the address, `m_found` and
`m_length`. -/
def dataOffset : ℕ := sizeofHeapBlock + 4 + sizeofAddress + 4 + 4

/-- `sizeof(CLR_RT_HeapBlock_EndPoint::Message)`, with `m_data[ 1 ]` and its padding. -/
def sizeofMessage : ℕ := dataOffset + 4

def cmdQuery : ℕ := 0x00020090
def cmdSend : ℕ := 0x00020091
def cmdReply : ℕ := 0x00020092

/-! ## Accesses -/

/-- Bytes touched through the pointer to the payload, or in a message object of some size. -/
inductive Access where
  | payload (offset count : ℕ)
  | message (offset count size : ℕ)

/-- A message that was received: its size, the bytes at the payload's pointer, and the bytes of
the object there. -/
structure Received where
  size : ℕ
  payload : Memory
  allocated : ℕ

/-- No bytes are touched, or they are bytes of the payload, in the object that holds it, or bytes
of the message object. -/
def Access.InBounds (msg : Received) : Access → Prop
  | .payload offset count =>
      count = 0 ∨ offset + count ≤ msg.size ∧ offset + count ≤ msg.allocated
  | .message offset count size => count = 0 ∨ offset + count ≤ size

/-- The endpoints, and the memory while a message is handled. -/
structure Env where
  hasEndPoint : Port → Bool
  source : NodeSource

/-- What a handler has touched, the message it has queued, and `m_found` and `m_addr` of the
reply, with its success. -/
structure Effect where
  accesses : List Access
  queued : Option Message
  reply : Option (Bool × Bool × Address)

/-! ## Handlers -/

/-- `AllocateAndQueueMessage`; the data is at an offset of the payload, or absent. The result is
the accesses and the message, or `none` for `false`. -/
def allocateAndQueueMessage (env : Env) (msg : Received) (cmd length : ℕ) (data : Option ℕ)
    (port : Port) (addr : Address) (found : Bool) : List Access × Option Message :=
  if !env.hasEndPoint port then ([], none)
  else
    match allocate env.source (u32 (sizeofMessage + length)) with
    | none => ([], none)
    | some size =>
        let header := Access.message 0 dataOffset size
        match data with
        | none => ([header], some ⟨cmd, addr, found, length, []⟩)
        | some offset =>
            ([header, .payload offset length, .message dataOffset length size],
              some ⟨cmd, addr, found, length,
                (List.range length).map fun i => msg.payload (offset + i)⟩)

def messagingQuery (env : Env) (msg : Received) : Effect :=
  let addr := addressAt msg.payload 0
  { accesses := [.payload 0 sizeofAddress]
    queued := none
    reply := some (true, env.hasEndPoint addr.dest, addr) }

/-- A reply to a query has `m_found` in front of the address. -/
def messagingQueryReply (env : Env) (msg : Received) : Effect :=
  let addr := addressAt msg.payload 4
  let (accesses, queued) := allocateAndQueueMessage env msg cmdQuery 0 none addr.source addr
    (load msg.payload 0 != 0)
  { accesses := .payload 0 (4 + sizeofAddress) :: accesses, queued := queued, reply := none }

/-- The data behind the address is queued for the port that `target` takes from it. -/
def queueData (env : Env) (msg : Received) (cmd : ℕ) (target : Address → Port) : Effect :=
  let addr := addressAt msg.payload 0
  let len := sub32 msg.size sizeofAddress
  let (accesses, queued) :=
    allocateAndQueueMessage env msg cmd len (some sizeofAddress) (target addr) addr false
  { accesses := .payload 0 sizeofAddress :: accesses
    queued := queued
    reply := some (queued.isSome, true, addr) }

def messagingSend (env : Env) (msg : Received) : Effect :=
  queueData env msg cmdSend Address.dest

def messagingReply (env : Env) (msg : Received) : Effect :=
  queueData env msg cmdReply Address.source

/-- `Messaging_Send__Reply` and `Messaging_Reply__Reply`: retransmission is not implemented. -/
def messagingDataReply : Effect where
  accesses := []
  queued := none
  reply := none

inductive Handler where
  | query
  | queryReply
  | send
  | sendReply
  | reply
  | replyReply
  deriving DecidableEq

def Handler.run (env : Env) (msg : Received) : Handler → Effect
  | .query => messagingQuery env msg
  | .queryReply => messagingQueryReply env msg
  | .send => messagingSend env msg
  | .sendReply => messagingDataReply
  | .reply => messagingReply env msg
  | .replyReply => messagingDataReply

/-- `App_ProcessHeader`: there is no object for an empty payload, and a message is refused when
there is no memory for its payload. -/
def processHeader (source : NodeSource) (size : ℕ) (payload : Memory) : Option Received :=
  if size ≠ 0 then
    (allocate source size).map fun allocated => ⟨size, payload, allocated⟩
  else some ⟨size, payload, 0⟩

/-! ## Bounds -/

/-- A message with data has the length of the bytes behind the address, and these bytes. -/
def Message.CarriesPayload (m : Message) (msg : Received) : Prop :=
  m.length + sizeofAddress = msg.size ∧
    m.data = (List.range m.length).map fun i => msg.payload (sizeofAddress + i)

/-- Whatever the payload's bytes, the memory and the endpoints are: if the message is accepted,
its handler stays in bounds and queues exactly what follows the address. -/
def Handler.Bounded (h : Handler) (size : ℕ) : Prop :=
  ∀ (receiving : NodeSource) (payload : Memory) (env : Env) (msg : Received),
    processHeader receiving size payload = some msg →
      (∀ a ∈ (h.run env msg).accesses, a.InBounds msg) ∧
      (h = .send ∨ h = .reply → ∀ m ∈ (h.run env msg).queued, m.CarriesPayload msg)

/-- The bytes of the structure that a handler reads. -/
def Handler.needed : Handler → ℕ
  | .query | .send | .reply => sizeofAddress
  | .queryReply => 4 + sizeofAddress
  | .sendReply | .replyReply => 0

/-- The heap gives what is asked for, up to its largest block. -/
def exactSource : NodeSource where
  extract := fun blocks => if blocks ≤ hbMaxSize then some blocks else none
  le_extract := by
    intro blocks got h
    split at h <;> simp_all
  extract_le := by
    intro blocks got h
    split at h <;> simp_all

theorem le_allocate {source : NodeSource} {len size : ℕ} (hlen : len < 2 ^ 32 - 27)
    (h : allocate source len = some size) :
    len ≤ size ∧ len + sizeofBinaryBlob < hbMaxSize * sizeofHeapBlock + 1 := by
  obtain ⟨blocks, hblocks, rfl⟩ := Option.map_eq_some_iff.mp h
  have hle := source.le_extract hblocks
  have hmax := source.extract_le hblocks
  rw [u32_of_lt (by simp only [sizeofBinaryBlob, sizeofHeapBlock]; omega),
    convertFromSizeToHeapBlocks,
    u32_of_lt (by simp only [sizeofBinaryBlob, sizeofHeapBlock]; omega)] at hle
  simp only [sizeofBinaryBlob, sizeofHeapBlock, hbMaxSize] at hle hmax ⊢
  omega

/-- From here on the size of the object wraps, and a small one is given. -/
theorem allocate_exact_of_wrap {len : ℕ} (hlow : 2 ^ 32 - 27 ≤ len) (hhigh : len < 2 ^ 32) :
    ∃ size < sizeofAddress, allocate exactSource len = some size := by
  have hblocks : convertFromSizeToHeapBlocks (u32 (sizeofBinaryBlob + len)) ≤ 2 := by
    simp only [convertFromSizeToHeapBlocks, u32, sizeofBinaryBlob, sizeofHeapBlock]
    omega
  refine ⟨_, ?_, congrArg (Option.map _) (if_pos (hblocks.trans (by decide)))⟩
  generalize convertFromSizeToHeapBlocks (u32 (sizeofBinaryBlob + len)) = blocks at hblocks
  simp only [sizeofAddress, sizeofBinaryBlob, sizeofHeapBlock]
  omega

theorem allocate_exact_of_small {len : ℕ} (hlen : len < 1000) :
    ∃ size, allocate exactSource len = some size := by
  have hblocks : convertFromSizeToHeapBlocks (u32 (sizeofBinaryBlob + len)) ≤ hbMaxSize := by
    simp only [convertFromSizeToHeapBlocks, u32, sizeofBinaryBlob, sizeofHeapBlock, hbMaxSize]
    omega
  exact ⟨_, congrArg (Option.map _) (if_pos hblocks)⟩

section Accepted

variable {receiving : NodeSource} {payload : Memory} {env : Env} {msg : Received} {size : ℕ}

theorem size_of_processHeader (h : processHeader receiving size payload = some msg) :
    msg.size = size := by
  unfold processHeader at h
  split at h
  · obtain ⟨allocated, -, rfl⟩ := Option.map_eq_some_iff.mp h
    rfl
  · obtain rfl := Option.some.inj h
    rfl

theorem allocated_of_processHeader (h : processHeader receiving size payload = some msg)
    (hpos : 0 < size) (hsize : size < 2 ^ 32 - 27) :
    size ≤ msg.allocated ∧ size + sizeofBinaryBlob < hbMaxSize * sizeofHeapBlock + 1 := by
  rw [processHeader, if_pos hpos.ne'] at h
  obtain ⟨allocated, hallocated, rfl⟩ := Option.map_eq_some_iff.mp h
  exact le_allocate hsize hallocated

/-- The message object has room for its header and for data of this length. -/
theorem queue_inBounds {cmd length : ℕ} {data : Option ℕ} {port : Port} {addr : Address}
    {found : Bool} (hlength : length + sizeofMessage < 2 ^ 32 - 27)
    (hdata : ∀ offset ∈ data, offset + length ≤ msg.size ∧ offset + length ≤ msg.allocated) :
    ∀ a ∈ (allocateAndQueueMessage env msg cmd length data port addr found).1, a.InBounds msg := by
  unfold allocateAndQueueMessage
  split
  · simp
  · rw [u32_of_lt (by omega)]
    cases hsize : allocate env.source (sizeofMessage + length) with
    | none => simp
    | some size =>
        obtain ⟨hle, -⟩ := le_allocate (by omega) hsize
        have hheader : (Access.message 0 dataOffset size).InBounds msg := by
          right
          simp only [sizeofMessage] at hle
          omega
        have hcopy : (Access.message dataOffset length size).InBounds msg := by
          right
          simp only [sizeofMessage] at hle
          omega
        cases data with
        | none => simpa using hheader
        | some offset =>
            have hread : (Access.payload offset length).InBounds msg :=
              .inr (hdata offset rfl)
            simp [hheader, hcopy, hread]

theorem queued_eq {cmd length offset : ℕ} {port : Port} {addr : Address} {found : Bool}
    {m : Message}
    (h : (allocateAndQueueMessage env msg cmd length (some offset) port addr found).2 = some m) :
    m = ⟨cmd, addr, found, length,
      (List.range length).map fun i => msg.payload (offset + i)⟩ ∧
    ∃ size, allocate env.source (u32 (sizeofMessage + length)) = some size ∧
      Access.message dataOffset length size ∈
        (allocateAndQueueMessage env msg cmd length (some offset) port addr found).1 := by
  unfold allocateAndQueueMessage at h ⊢
  split at h
  · cases h
  · rename_i hport
    cases hsize : allocate env.source (u32 (sizeofMessage + length)) with
    | none => simp [hsize] at h
    | some size =>
        simp only [hsize] at h
        refine ⟨(Option.some.inj h).symm, size, rfl, ?_⟩
        rw [if_neg hport]
        simp

end Accepted

section Handlers

variable {size : ℕ}

theorem queueData_bounded {cmd : ℕ} {target : Address → Port} {env : Env} {msg : Received}
    (hneeded : sizeofAddress ≤ msg.size) (hobject : msg.size ≤ msg.allocated)
    (hsize : msg.size + sizeofBinaryBlob < hbMaxSize * sizeofHeapBlock + 1) :
    (∀ a ∈ (queueData env msg cmd target).accesses, a.InBounds msg) ∧
      ∀ m ∈ (queueData env msg cmd target).queued, m.CarriesPayload msg := by
  have hlarge : msg.size < 2 ^ 20 := by
    simp only [sizeofBinaryBlob, sizeofHeapBlock, hbMaxSize] at hsize
    omega
  have hlen : sub32 msg.size sizeofAddress = msg.size - sizeofAddress :=
    sub32_of_le hneeded (by omega)
  constructor
  · simp only [queueData, List.forall_mem_cons]
    constructor
    · exact .inr ⟨by omega, by omega⟩
    · apply queue_inBounds
      · rw [hlen]
        simp only [sizeofMessage, dataOffset, sizeofAddress, sizeofHeapBlock]
        omega
      · intro offset hoffset
        obtain rfl := Option.some.inj hoffset
        omega
  · intro m hm
    obtain ⟨rfl, -⟩ := queued_eq hm
    constructor
    · simp only [hlen]
      omega
    · simp only

/-- A payload that holds the structure, of a size that the heap does not take for a smaller one. -/
theorem bounded_of_needed {h : Handler} (hneeded : h.needed ≤ size) (hsize : size < 2 ^ 32 - 27) :
    h.Bounded size := by
  intro receiving payload env msg hmsg
  have hmsize := size_of_processHeader hmsg
  have hobject (hpos : 0 < size) := allocated_of_processHeader hmsg hpos hsize
  cases h with
  | query =>
      simp only [Handler.needed, sizeofAddress] at hneeded
      obtain ⟨hle, -⟩ := hobject (by omega)
      constructor
      · intro a ha
        obtain rfl := List.mem_singleton.mp ha
        right
        simp only [sizeofAddress]
        omega
      · rintro (h | h) <;> cases h
  | queryReply =>
      simp only [Handler.needed, sizeofAddress] at hneeded
      obtain ⟨hle, -⟩ := hobject (by omega)
      constructor
      · simp only [Handler.run, messagingQueryReply, List.forall_mem_cons]
        constructor
        · right
          simp only [sizeofAddress]
          omega
        · apply queue_inBounds
          · decide
          · simp
      · rintro (h | h) <;> cases h
  | send =>
      simp only [Handler.needed] at hneeded
      obtain ⟨hle, hroom⟩ := hobject (by simp only [sizeofAddress] at hneeded; omega)
      rw [← hmsize] at hneeded hle hroom
      obtain ⟨haccess, hqueued⟩ := queueData_bounded hneeded hle hroom
      exact ⟨haccess, fun _ => hqueued⟩
  | reply =>
      simp only [Handler.needed] at hneeded
      obtain ⟨hle, hroom⟩ := hobject (by simp only [sizeofAddress] at hneeded; omega)
      rw [← hmsize] at hneeded hle hroom
      obtain ⟨haccess, hqueued⟩ := queueData_bounded hneeded hle hroom
      exact ⟨haccess, fun _ => hqueued⟩
  | sendReply | replyReply =>
      constructor
      · simp [Handler.run, messagingDataReply]
      · rintro (h | h) <;> cases h

theorem bounded_of_unread {h : Handler} (hneeded : h.needed = 0) : h.Bounded size := by
  intro receiving payload env msg hmsg
  cases h with
  | query | queryReply | send | reply => simp [Handler.needed, sizeofAddress] at hneeded
  | sendReply | replyReply =>
      constructor
      · simp [Handler.run, messagingDataReply]
      · rintro (h | h) <;> cases h

/-- Below the size of the address the length wraps, and whenever a message is queued the copy is
longer than any object. -/
theorem copy_overruns {cmd : ℕ} {target : Address → Port} {env : Env} {msg : Received}
    {m : Message} (hshort : msg.size < sizeofAddress)
    (hqueued : (queueData env msg cmd target).queued = some m) :
    ∃ a ∈ (queueData env msg cmd target).accesses, ¬a.InBounds msg ∧
      ∃ allocated, a = .message dataOffset (sub32 msg.size sizeofAddress) allocated := by
  have hlen : 2 ^ 31 < sub32 msg.size sizeofAddress := by
    simp only [sub32, u32, sizeofAddress] at hshort ⊢
    omega
  obtain ⟨-, allocated, hsize, hmem⟩ := queued_eq hqueued
  obtain ⟨blocks, hblocks, rfl⟩ := Option.map_eq_some_iff.mp hsize
  have hmax := env.source.extract_le hblocks
  refine ⟨_, List.mem_cons_of_mem _ hmem, ?_, _, rfl⟩
  simp only [Access.InBounds, hbMaxSize, sizeofHeapBlock] at hmax ⊢
  omega

/-- Every handler that reads begins with the structure at the start of the payload. -/
theorem first_access {h : Handler} (hneeded : h.needed ≠ 0) (env : Env) (msg : Received) :
    Access.payload 0 h.needed ∈ (h.run env msg).accesses := by
  cases h with
  | query | queryReply | send | reply => exact List.mem_cons_self
  | sendReply | replyReply => exact absurd rfl hneeded

theorem needed_of_bounded {h : Handler} (hsize : size < 2 ^ 32) (hneeded : h.needed ≠ 0)
    (hbounded : h.Bounded size) : h.needed ≤ size ∧ size < 2 ^ 32 - 27 := by
  have hread : ∀ msg, processHeader exactSource size (fun _ => 0) = some msg →
      h.needed ≤ msg.size ∧ h.needed ≤ msg.allocated := by
    intro msg hmsg
    have henv := hbounded exactSource _ ⟨fun _ => false, exactSource⟩ msg hmsg
    have := henv.1 _ (first_access hneeded _ msg)
    simpa [Access.InBounds, hneeded] using this
  have hlarge : sizeofAddress ≤ h.needed := by
    cases h with
    | query | queryReply | send | reply => decide
    | sendReply | replyReply => exact absurd rfl hneeded
  by_contra hnot
  by_cases hwrap : 2 ^ 32 - 27 ≤ size
  · obtain ⟨allocated, hsmall, hallocated⟩ := allocate_exact_of_wrap hwrap hsize
    have hmsg : processHeader exactSource size (fun _ => 0) = some ⟨size, fun _ => 0, allocated⟩ := by
      rw [processHeader, if_pos (by omega), hallocated]
      rfl
    have := (hread _ hmsg).2
    simp only at this
    omega
  · have hshort : size < h.needed := by omega
    have hmost : h.needed ≤ 24 := by cases h <;> decide
    by_cases hzero : size = 0
    · have hmsg : processHeader exactSource size (fun _ => 0) = some ⟨size, fun _ => 0, 0⟩ := by
        rw [processHeader, if_neg (by omega)]
      have := (hread _ hmsg).1
      simp only at this
      omega
    · obtain ⟨allocated, hallocated⟩ := allocate_exact_of_small (show size < 1000 by omega)
      have hmsg : processHeader exactSource size (fun _ => 0) =
          some ⟨size, fun _ => 0, allocated⟩ := by
        rw [processHeader, if_pos hzero, hallocated]
        rfl
      have := (hread _ hmsg).1
      simp only at this
      omega

/-- The handlers stay in bounds exactly for the payloads that hold the structure they read and
whose object has a size without wrapping. -/
theorem handler_bounded_iff (h : Handler) (size : UInt32) : h.Bounded size.toNat ↔
    h.needed = 0 ∨ h.needed ≤ size.toNat ∧ size.toNat < 2 ^ 32 - 27 := by
  constructor
  · intro hbounded
    by_cases hneeded : h.needed = 0
    · exact .inl hneeded
    · exact .inr (needed_of_bounded size.toNat_lt hneeded hbounded)
  · rintro (hneeded | ⟨hneeded, hsize⟩)
    · exact bounded_of_unread hneeded
    · exact bounded_of_needed hneeded hsize

/-- A message without payload is sent to an endpoint: the address is read through a null
pointer. -/
theorem not_bounded_empty : ¬∀ (h : Handler) (size : UInt32), h.Bounded size.toNat := by
  intro hall
  have hread := needed_of_bounded (h := .send) (by decide) (by decide) (hall .send 0)
  exact absurd hread.1 (by decide)

end Handlers

end TinyCLR.Messaging.Payload
