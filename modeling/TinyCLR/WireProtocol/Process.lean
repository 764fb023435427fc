import Mathlib
import TinyCLR.WireProtocol.Packet

/-!
# `WP_Message::Process`

The receiver synchronises on a marker, reads the rest of the header and then the payload. Bytes
arrive in pieces; each pass through the loop of `Process` is one step, and a call of `Process`
ends when the physical layer has no more bytes for the moment.
-/

namespace TinyCLR.WireProtocol

/-! ## The surroundings of a message -/

/-- What the serial port still has to deliver, and what it has delivered. An empty piece is a
moment without bytes. -/
structure PhysicalLayer where
  pieces : List (List Byte)
  received : List Byte

namespace PhysicalLayer

variable (phy : PhysicalLayer)

/-- `Phy_ReceiveBytes`: the bytes that it stores, or `none` when it returns false. -/
def receiveBytes (size : Nat) : Option (List Byte) × PhysicalLayer :=
  if size = 0 then (some [], phy)
  else
    match phy.pieces with
    | [] => (none, phy)
    | [] :: rest => (none, { phy with pieces := rest })
    | (b :: bs) :: rest =>
        let read := (b :: bs).take size
        let left := (b :: bs).drop size
        (some read,
          { pieces := if left = [] then rest else left :: rest
            received := phy.received ++ read })

def pending : List Byte := phy.pieces.flatten

end PhysicalLayer

/-- The answer of `ProcessHeader`, and whether it has put a buffer into `m_payload`. -/
structure HeaderReply where
  accepted : Bool
  buffer : Bool

/-- `WP_ApplicationLayer`. Its functions may also send messages of their own. -/
structure ApplicationLayer (σ : Type*) where
  processHeader : Controller σ → Packet → HeaderReply × Controller σ
  processPayload : Controller σ → Packet → List Byte → Controller σ
  release : Controller σ → Controller σ

/-- `HAL_Time_CurrentTicks`, reading by reading, and `HAL_Time_TicksToTime`. -/
structure Clock where
  currentTicks : Nat → BitVec 64
  ticksToTime : BitVec 64 → BitVec 64

/-- What the receiver does to the outside. -/
inductive Call where
  | processHeader (header : Packet)
  | processPayload (header : Packet) (payload : List Byte)
  | transmitMessage (header : Packet)
  deriving DecidableEq

/-! ## The message -/

/-- `WP_Message::ReceiveState` -/
inductive ReceiveState where
  | idle
  | initial
  | waitingForHeader
  | readingHeader
  | completeHeader
  | readingPayload
  | completePayload
  deriving DecidableEq

/-- `c_PayloadTimeout` -/
def payloadTimeout : BitVec 64 := 60000000

/-- `WP_Message`. The lists hold the bytes in front of `m_pos`, of the header buffer and of the
payload buffer. -/
structure Message where
  header : List Byte
  payload : Option (List Byte)
  size : Nat
  payloadTicks : BitVec 64
  rxState : ReceiveState

/-- The inbound message of a controller in its surroundings. -/
structure Reception (σ : Type*) extends Message where
  controller : Controller σ
  phy : PhysicalLayer
  readings : Nat
  calls : List Call

/-- One of the markers agrees with the bytes, as far as there are any. -/
def startsMarker (header : List Byte) : Bool :=
  let lenCmp := min header.length sizeofSignature
  header.take lenCmp == markerDebuggerV1.take lenCmp ||
    header.take lenCmp == markerPacketV1.take lenCmp

/-- The synchronisation to the start of a message, with `m_size`. -/
def synch : List Byte → Nat → List Byte × Nat
  | [], size => ([], size)
  | b :: bs, size => if startsMarker (b :: bs) then (b :: bs, size) else synch bs (size + 1)

namespace Reception

variable {σ : Type*} (app : ApplicationLayer σ) (clock : Clock) (r : Reception σ)

def packet : Packet := Packet.ofBytes r.header

def release : Reception σ :=
  if r.payload = none then r
  else { r with controller := app.release r.controller, payload := none }

def replyBadPacket (flags : BitVec 32) : Reception σ :=
  let (msg, controller) :=
    r.controller.prepareRequest 0 (Flags.nonCritical ||| Flags.nack ||| flags) []
  { r with controller := controller, calls := r.calls ++ [.transmitMessage msg] }

/-- The state `Initialize` -/
def startHeader : Reception σ :=
  { r.release app with rxState := .waitingForHeader, header := [], size := sizeofPacket }

def waitForHeader : Reception σ × Bool :=
  match r.phy.receiveBytes r.size with
  | (none, phy) => ({ r with phy := phy }, false)
  | (some bytes, phy) =>
      let (header, size) := synch (r.header ++ bytes) (r.size - bytes.length)
      let len := sizeofPacket - size
      ({ r with
          phy := phy
          header := header
          size := size
          rxState := if sizeofSignature ≤ len then .readingHeader else .waitingForHeader }, true)

def readHeader : Reception σ × Bool :=
  match r.phy.receiveBytes r.size with
  | (none, phy) => ({ r with phy := phy }, false)
  | (some bytes, phy) =>
      let size := r.size - bytes.length
      ({ r with
          phy := phy
          header := r.header ++ bytes
          size := size
          rxState := if size = 0 then .completeHeader else .readingHeader }, true)

/-- The end of `CompleteHeader` when the packet is bad. -/
def rejectHeader : Reception σ :=
  let answered :=
    if r.packet.flags &&& Flags.nonCritical = 0 then r.replyBadPacket Flags.badHeader else r
  { answered with rxState := .initial }

/-- The call of `ProcessHeader`, with its result. -/
def callProcessHeader : Bool × Reception σ :=
  let (reply, controller) := app.processHeader r.controller r.packet
  (reply.accepted,
    { r with
      controller := controller
      calls := r.calls ++ [.processHeader r.packet]
      payload := if reply.buffer then some [] else r.payload })

/-- `CompleteHeader` behind a header that the application has accepted. -/
def acceptHeader : Reception σ :=
  if r.packet.size = 0 then { r with rxState := .completePayload }
  else if r.payload = none then { r with rxState := .initial }
  else
    { r with
      payloadTicks := clock.currentTicks r.readings
      readings := r.readings + 1
      size := r.packet.size.toNat
      rxState := .readingPayload }

def completeHeader : Reception σ :=
  if r.packet.verifyHeader then
    let (accepted, called) := r.callProcessHeader app
    if accepted then called.acceptHeader clock else called.rejectHeader
  else r.rejectHeader

/-- The time since the last payload bytes is too long. -/
def payloadLate : Bool :=
  payloadTimeout ≤ clock.ticksToTime (clock.currentTicks r.readings - r.payloadTicks)

def readPayload : Reception σ × Bool :=
  if r.payloadLate clock then
    ({ r with rxState := .initial, readings := r.readings + 1 }, true)
  else
    let ticked : Reception σ :=
      { r with payloadTicks := clock.currentTicks r.readings, readings := r.readings + 1 }
    match r.phy.receiveBytes r.size with
    | (none, phy) => ({ ticked with phy := phy }, false)
    | (some bytes, phy) =>
        let size := r.size - bytes.length
        ({ ticked with
            phy := phy
            payload := some (r.payload.getD [] ++ bytes)
            size := size
            rxState := if size = 0 then .completePayload else .readingPayload }, true)

def completePayload : Reception σ :=
  let answered : Reception σ :=
    if r.packet.verifyPayload r.payload then
      { r with
        controller := app.processPayload r.controller r.packet (r.payload.getD [])
        calls := r.calls ++ [.processPayload r.packet (r.payload.getD [])] }
    else r.replyBadPacket Flags.badPayload
  { answered with rxState := .initial }

/-- One pass through the loop of `Process`, and whether another one follows. -/
def step : Reception σ × Bool :=
  match r.rxState with
  | .idle => (r, false)
  | .initial => (r.startHeader app, true)
  | .waitingForHeader => r.waitForHeader
  | .readingHeader => r.readHeader
  | .completeHeader => (r.completeHeader app clock, true)
  | .readingPayload => r.readPayload clock
  | .completePayload => (r.completePayload app, true)

end Reception

/-! ## Termination -/

namespace PhysicalLayer

variable {phy phy' : PhysicalLayer} {size : Nat}

theorem receiveBytes_some {bytes : List Byte} (h : phy.receiveBytes size = (some bytes, phy')) :
    bytes.length ≤ size ∧ (size ≠ 0 → bytes ≠ []) ∧ bytes ++ phy'.pending = phy.pending ∧
      phy'.received = phy.received ++ bytes ∧ phy'.pieces.length ≤ phy.pieces.length := by
  obtain ⟨pieces, received⟩ := phy
  by_cases hsize : size = 0
  · simp only [receiveBytes, hsize, if_true, Prod.mk.injEq, Option.some.injEq] at h
    obtain ⟨rfl, rfl⟩ := h
    simp [hsize]
  · simp only [receiveBytes, if_neg hsize] at h
    match pieces, h with
    | (b :: bs) :: rest, h =>
        simp only [Prod.mk.injEq, Option.some.injEq] at h
        obtain ⟨rfl, rfl⟩ := h
        refine ⟨List.length_take_le _ _, fun _ => by simp [hsize], ?_, rfl, ?_⟩
        · by_cases hleft : (b :: bs).drop size = []
          · have hall := List.take_append_drop size (b :: bs)
            rw [hleft, List.append_nil] at hall
            simp only [pending, if_pos hleft, hall, List.flatten_cons]
          · simp only [pending, if_neg hleft, List.flatten_cons, ← List.append_assoc,
              List.take_append_drop]
        · show (if _ then _ else _ : List (List Byte)).length ≤ _
          split <;> simp

theorem receiveBytes_none (h : phy.receiveBytes size = (none, phy')) :
    size ≠ 0 ∧ phy'.pending = phy.pending ∧ phy'.received = phy.received ∧
      phy'.pieces = phy.pieces.tail := by
  obtain ⟨pieces, received⟩ := phy
  by_cases hsize : size = 0
  · simp [receiveBytes, hsize] at h
  · refine ⟨hsize, ?_⟩
    simp only [receiveBytes, if_neg hsize] at h
    match pieces, h with
    | [], h =>
        obtain ⟨-, rfl⟩ := Prod.mk.inj h
        exact ⟨rfl, rfl, rfl⟩
    | [] :: rest, h =>
        obtain ⟨-, rfl⟩ := Prod.mk.inj h
        exact ⟨rfl, rfl, rfl⟩

end PhysicalLayer

theorem synch_size (header : List Byte) (size : Nat) :
    (synch header size).1.length + (synch header size).2 = header.length + size := by
  induction header generalizing size with
  | nil => rfl
  | cons b bs ih =>
      rw [synch]
      split
      · rfl
      · rw [ih, List.length_cons]
        omega

namespace Reception

variable {σ : Type*} (app : ApplicationLayer σ) (clock : Clock) (r : Reception σ)

/-- How far a pass without new bytes is from the next wait for bytes. -/
def rank : Nat :=
  match r.rxState with
  | .idle => 0
  | .waitingForHeader => if r.size = 0 then 6 else 0
  | .initial => 1
  | .completePayload => 2
  | .readingPayload => 3
  | .completeHeader => 4
  | .readingHeader => 5

def measure : Nat := 8 * r.phy.pending.length + r.rank

theorem rank_le : r.rank ≤ 6 := by
  rw [rank]
  split <;> first | omega | split <;> omega

@[simp] theorem replyBadPacket_phy (flags : BitVec 32) : (r.replyBadPacket flags).phy = r.phy := rfl

@[simp] theorem release_phy : (r.release app).phy = r.phy := by
  rw [release]
  split <;> rfl

@[simp] theorem rejectHeader_phy : r.rejectHeader.phy = r.phy := by
  rw [rejectHeader]
  split <;> rfl

@[simp] theorem rejectHeader_rxState : r.rejectHeader.rxState = .initial := rfl

@[simp] theorem acceptHeader_phy : (r.acceptHeader clock).phy = r.phy := by
  rw [acceptHeader]
  split
  · rfl
  · split <;> rfl

@[simp] theorem completeHeader_phy : (r.completeHeader app clock).phy = r.phy := by
  rw [completeHeader]
  split
  · show (if _ then _ else _ : Reception σ).phy = _
    split
    · exact acceptHeader_phy clock _
    · exact rejectHeader_phy _
  · exact rejectHeader_phy r

@[simp] theorem completePayload_phy : (r.completePayload app).phy = r.phy := by
  rw [completePayload]
  split <;> rfl

theorem rank_rejectHeader : r.rejectHeader.rank = 1 := rfl

theorem rank_acceptHeader : (r.acceptHeader clock).rank ≤ 3 := by
  rw [acceptHeader]
  split
  · simp [rank]
  · split <;> simp [rank]

theorem rank_completeHeader : (r.completeHeader app clock).rank ≤ 3 := by
  rw [completeHeader]
  split
  · show (if _ then _ else _ : Reception σ).rank ≤ _
    split
    · exact rank_acceptHeader clock _
    · exact (rank_rejectHeader _).trans_le (by decide)
  · exact (rank_rejectHeader r).trans_le (by decide)

/-- A pass after which another one follows takes bytes or comes closer to a wait. -/
theorem measure_step (h : (r.step app clock).2 = true) :
    (r.step app clock).1.measure < r.measure := by
  have hconsumed : ∀ {bytes : List Byte} {phy : PhysicalLayer} (r' : Reception σ),
      r.phy.receiveBytes r.size = (some bytes, phy) → r'.phy = phy → r.size ≠ 0 →
      r'.measure < r.measure := by
    intro bytes phy r' hreceive hphy hsize
    obtain ⟨-, hne, hpending, -⟩ := PhysicalLayer.receiveBytes_some hreceive
    have hlength := congrArg List.length hpending
    have hpos := List.length_pos_iff.mpr (hne hsize)
    have hrank := rank_le r'
    rw [List.length_append] at hlength
    rw [measure, measure, hphy]
    omega
  have hidle : ∀ {bytes : List Byte} {phy : PhysicalLayer} (r' : Reception σ),
      r.phy.receiveBytes r.size = (some bytes, phy) → r'.phy = phy → r'.rank < r.rank →
      r'.measure < r.measure := by
    intro bytes phy r' hreceive hphy hrank
    obtain ⟨-, -, hpending, -⟩ := PhysicalLayer.receiveBytes_some hreceive
    have hlength := congrArg List.length hpending
    rw [List.length_append] at hlength
    rw [measure, measure, hphy]
    omega
  have hkept : ∀ r' : Reception σ, r'.phy = r.phy → r'.rank < r.rank → r'.measure < r.measure := by
    intro r' hphy hrank
    rw [measure, measure, hphy]
    omega
  revert h
  rw [step]
  split
  · exact fun h => absurd h Bool.false_ne_true
  · next hstate =>
      exact fun _ => hkept _ (release_phy app r) (by simp [rank, hstate, startHeader, sizeofPacket])
  · next hstate =>
      rw [waitForHeader]
      split
      · exact fun h => absurd h Bool.false_ne_true
      · next bytes phy hreceive =>
          intro _
          by_cases hsize : r.size = 0
          · refine hidle _ hreceive rfl ?_
            have hrank : r.rank = 6 := by simp [rank, hstate, hsize]
            rw [hrank]
            by_cases hlen : sizeofSignature ≤
                sizeofPacket - (synch (r.header ++ bytes) (r.size - bytes.length)).2
            · simp [rank, hlen]
            · have hne : (synch (r.header ++ bytes) (r.size - bytes.length)).2 ≠ 0 := by
                intro hzero
                exact hlen (by rw [hzero]; decide)
              simp [rank, hlen, hne]
          · exact hconsumed _ hreceive rfl hsize
  · next hstate =>
      rw [readHeader]
      split
      · exact fun h => absurd h Bool.false_ne_true
      · next bytes phy hreceive =>
          intro _
          by_cases hsize : r.size = 0
          · exact hidle _ hreceive rfl (by simp [rank, hstate, hsize])
          · exact hconsumed _ hreceive rfl hsize
  · next hstate =>
      intro _
      have hrank := rank_completeHeader app clock r
      exact hkept _ (completeHeader_phy app clock r)
        (lt_of_le_of_lt hrank (by simp [rank, hstate]))
  · next hstate =>
      rw [readPayload]
      split
      · exact fun _ => hkept _ rfl (by simp [rank, hstate])
      · split
        · exact fun h => absurd h Bool.false_ne_true
        · next bytes phy hreceive =>
            intro _
            by_cases hsize : r.size = 0
            · exact hidle _ hreceive rfl (by simp [rank, hstate, hsize])
            · exact hconsumed _ hreceive rfl hsize
  · next hstate =>
      exact fun _ => hkept _ (completePayload_phy app r)
        (by simp [rank, hstate, completePayload])

/-- `Process`; the state `Idle` is the only one in which it does nothing. It returns true. -/
def process (r : Reception σ) : Reception σ :=
  if (r.step app clock).2 = true then process (r.step app clock).1 else (r.step app clock).1
termination_by r.measure
decreasing_by exact measure_step app clock r ‹_›

/-- `WP_Controller::Initialize`, with everything that the port will deliver. -/
def start (controller : Controller σ) (pieces : List (List Byte)) : Reception σ where
  header := []
  payload := none
  size := 0
  payloadTicks := 0
  rxState := .initial
  controller := controller
  phy := ⟨pieces, []⟩
  readings := 0
  calls := []

end Reception

end TinyCLR.WireProtocol
