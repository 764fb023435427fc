import TinyCLR.Library.RingBuffer
import TinyCLR.Library.TransitionSystem

/-!
# The serial driver

One port of `USART_Driver` with its flow control by XON and XOFF. What a function does with the
interrupts off is one step. The functions that take and give the interrupts back in a loop
(`Read`, `Write`) are cut into the turns of their loops, between which an interrupt may run.
-/

namespace TinyCLR.COM

open RingBuffer

def XON : UInt8 := 17

def XOFF : UInt8 := 19

/-- The bits of `HAL_USART_STATE::Flag`. The receive XOFF state is the pair of its two reasons. -/
structure Flag where
  txBufferXoff : Bool
  txBufferXon : Bool
  txSwFlowCtrl : Bool
  txXonState : Bool
  rxSwFlowCtrl : Bool
  xoffFlagFull : Bool
  xoffClockHalt : Bool
  rxHwFlowCtrl : Bool
  powersave : Bool
  initialized : Bool
  deriving DecidableEq

/-- `RX_XOFF_STATE(x) != 0` -/
def Flag.rxXoffState (flag : Flag) : Bool := flag.xoffFlagFull || flag.xoffClockHalt

/-- The reasons to stop the peer. -/
inductive Reason where
  | flagFull
  | clockHalt
  deriving DecidableEq

/-- `SET_RX_XOFF_STATE` and `CLEAR_RX_XOFF_STATE`. -/
def Flag.setReason (flag : Flag) (value : Bool) : Reason → Flag
  | .flagFull => { flag with xoffFlagFull := value }
  | .clockHalt => { flag with xoffClockHalt := value }

/-- The flags after `SendXOFF`: the XOFF is sent for the first reason. -/
def Flag.stop (flag : Flag) (reason : Reason) : Flag :=
  (if flag.rxXoffState then flag else { flag with txBufferXoff := true }).setReason true reason

/-- The flags after `SendXON`: the XON is sent when no reason is left. -/
def Flag.start (flag : Flag) (reason : Reason) : Flag :=
  let flag := flag.setReason false reason
  if flag.rxXoffState then flag else { flag with txBufferXon := true }

/-- What has gone to the peer. A character of the transmit queue is recorded with whether the
peer had asked us to stop. -/
inductive Sent where
  | control (c : UInt8)
  | data (c : UInt8) (stopped : Bool)
  deriving DecidableEq

/-- The last four fields are no part of the driver: the copy of the flags that a thread in
`Write` has in a register, whether the clock is stopped, when the peer has sent us an XOFF
without an XON since, and what was sent to the peer, the newest first. -/
structure Port where
  flag : Flag
  ticksStartTxXOFF : Nat
  txQueue : Buffer UInt8
  rxQueue : Buffer UInt8
  rxBufferHighWaterMark : Nat
  rxBufferLowWaterMark : Nat
  loaded : Option Flag
  clockStopped : Bool
  stoppedSince : Option Nat
  sent : List Sent

def emptyBuffer (size : Nat) : Buffer UInt8 := ⟨0, 0, size, false, fun _ => 0⟩

/-- `USART_Driver::Initialize` of a port with flow control by XON and XOFF both ways. -/
def initializePort (hwIn : Bool) (txSize rxSize : Nat) : Port where
  flag :=
    { txBufferXoff := false
      txBufferXon := false
      txSwFlowCtrl := true
      txXonState := true
      rxSwFlowCtrl := true
      xoffFlagFull := false
      xoffClockHalt := false
      rxHwFlowCtrl := hwIn
      powersave := false
      initialized := true }
  ticksStartTxXOFF := 0
  txQueue := emptyBuffer txSize
  rxQueue := emptyBuffer rxSize
  rxBufferHighWaterMark := rxSize * 3 / 4
  rxBufferLowWaterMark := rxSize * 1 / 4
  loaded := none
  clockStopped := false
  stoppedSince := none
  sent := []

namespace Port

variable (p : Port)

def setFlag (flag : Flag) : Port := { p with flag := flag }

def sendXOFF (reason : Reason) : Port :=
  if p.flag.powersave then p else p.setFlag (p.flag.stop reason)

def sendXON (reason : Reason) : Port :=
  if p.flag.powersave then p else p.setFlag (p.flag.start reason)

/-- Whether the character was taken, and the port. -/
def addCharToRxBuffer (c : UInt8) (now : Nat) : Bool × Port :=
  if p.flag.txSwFlowCtrl ∧ c = XOFF then
    (true, { p with
      ticksStartTxXOFF := now
      flag := { p.flag with txXonState := false }
      stoppedSince := some now })
  else if p.flag.txSwFlowCtrl ∧ c = XON then
    (true, { p with flag := { p.flag with txXonState := true }, stoppedSince := none })
  else if p.rxQueue.full then (false, p)
  else
    let p := { p with rxQueue := (p.rxQueue.push [c]).2 }
    if p.rxBufferHighWaterMark ≤ p.rxQueue.numberOfElements ∧ p.flag.rxSwFlowCtrl then
      (true, p.sendXOFF .flagFull)
    else (true, p)

/-- The peer has asked us to stop, and the timeout is not over. -/
def stopped (timeout : Option Nat) (now : Nat) : Bool :=
  match p.stoppedSince with
  | none => false
  | some since =>
      match timeout with
      | none => true
      | some ticks => decide (now - since ≤ ticks)

def removeCharFromTxBuffer (timeout : Option Nat) (now : Nat) : Option UInt8 × Port :=
  if p.flag.txBufferXoff then
    (some XOFF, { p with
      flag := { p.flag with txBufferXoff := false }
      sent := .control XOFF :: p.sent })
  else if p.flag.txBufferXon then
    (some XON, { p with
      flag := { p.flag with txBufferXon := false }
      sent := .control XON :: p.sent })
  else
    match p.txQueue.pop 1 with
    | ([], txQueue) => (none, { p with txQueue := txQueue })
    | (c :: _, txQueue) =>
        (some c, { p with
          txQueue := txQueue
          sent := .data c (p.stopped timeout now) :: p.sent })

def powerSave (enable : Bool) : Bool × Port :=
  (p.flag.powersave, p.setFlag { p.flag with powersave := enable })

/-- The port's turn in the loop over the ports. -/
def prepareForClockStop : Port :=
  let p := { p with clockStopped := true }
  if p.flag.rxSwFlowCtrl then p.sendXOFF .clockHalt else p

/-- The port's turn in the loop over the ports. -/
def clockStopFinished : Port :=
  let p := { p with clockStopped := false }
  if p.flag.rxSwFlowCtrl then p.sendXON .clockHalt else p

/-- `Read` and `Write` refuse a port in power save. -/
def refuses : Bool := p.flag.powersave || !p.flag.initialized

/-- One turn of the loop of `Read`: the characters that it has moved, and the port. -/
def readTurn (toRead : Nat) : List UInt8 × Port :=
  let (moved, rxQueue) := p.rxQueue.pop toRead
  let p := { p with rxQueue := rxQueue }
  if moved = [] then (moved, p)
  else if p.rxQueue.numberOfElements ≤ p.rxBufferLowWaterMark ∧
      p.rxBufferLowWaterMark < p.rxQueue.numberOfElements + moved.length ∧
      p.flag.rxSwFlowCtrl then
    (moved, p.sendXON .flagFull)
  else (moved, p)

/-- The loop of `Read` where no interrupt comes between its turns. -/
def readLoop : Nat → Nat → List UInt8 → Port → List UInt8 × Port
  | 0, _, chars, p => (chars, p)
  | fuel + 1, size, chars, p =>
      if chars.length < size then
        let (moved, p) := p.readTurn (size - chars.length)
        if moved = [] then (chars, p) else readLoop fuel size (chars ++ moved) p
      else (chars, p)

def read (size : Nat) : Option (List UInt8) × Port :=
  if p.refuses then (none, p)
  else
    let (chars, p) := readLoop (size + 1) size [] p
    (some chars, p)

/-- The head of `Write` reads the flags and the clock with the interrupts on. A timeout loads the
flag word in order to set a bit of it. -/
inductive Gate where
  | refused
  | held
  | timedOut
  | free

def writeGate (timeout : Option Nat) (now : Nat) : Gate :=
  if p.refuses then .refused
  else if p.flag.txSwFlowCtrl && !p.flag.txXonState then
    match timeout with
    | none => .held
    | some ticks => if ticks < now - p.ticksStartTxXOFF then .timedOut else .held
  else .free

/-- `SET_USART_FLAG` of the timeout, first half. -/
def writeLoad : Port := { p with loaded := some p.flag }

/-- `SET_USART_FLAG` of the timeout, second half: the word goes back with the bit set. -/
def writeStore (flag : Flag) : Port :=
  { p with flag := { flag with txXonState := true }, loaded := none }

/-- One turn of the loop of `Write`: how many characters were queued, and the port. -/
def writeTurn (chars : List UInt8) : Nat × Port :=
  let (n, txQueue) := p.txQueue.push chars
  (n, { p with txQueue := txQueue })

/-- `Write` where no interrupt comes between its parts. -/
def write (chars : List UInt8) (timeout : Option Nat) (now : Nat) : Option Nat × Port :=
  if chars = [] then (none, p)
  else
    match p.writeGate timeout now with
    | .refused => (none, p)
    | .held => (some 0, p)
    | .timedOut => queue (p.writeLoad.writeStore p.flag)
    | .free => queue p
where
  queue (p : Port) : Option Nat × Port :=
    let (n, p) := p.writeTurn chars
    if n = 0 then (some 0, p)
    else
      let (m, p) := p.writeTurn (chars.drop n)
      (some (n + m), p)

def discardBuffer (fRx : Bool) : Port :=
  if fRx then
    let once := (p.rxQueue.pop p.rxQueue.numberOfElements).2
    let p := { p with rxQueue := (once.pop once.numberOfElements).2 }
    if p.flag.rxSwFlowCtrl then p.sendXON .flagFull else p
  else
    let once := (p.txQueue.pop p.txQueue.numberOfElements).2
    { p with txQueue := (once.pop once.numberOfElements).2 }

end Port

/-- The steps of the functions, in any interleaving. -/
inductive Action where
  | addCharToRxBuffer (c : UInt8) (now : Nat)
  | removeCharFromTxBuffer (now : Nat)
  | powerSave (enable : Bool)
  | prepareForClockStop
  | clockStopFinished
  | readTurn (toRead : Nat)
  | writeLoad (now : Nat)
  | writeStore
  | writeTurn (chars : List UInt8)
  | discardBuffer (fRx : Bool)
  deriving DecidableEq

/-- `timeout` is `USART_TX_XOFF_TIMEOUT_TICKS`, `none` for the infinite one. -/
def step (timeout : Option Nat) (p : Port) : Action → Option Port
  | .addCharToRxBuffer c now => some (p.addCharToRxBuffer c now).2
  | .removeCharFromTxBuffer now => some (p.removeCharFromTxBuffer timeout now).2
  | .powerSave enable => some (p.powerSave enable).2
  | .prepareForClockStop => some p.prepareForClockStop
  | .clockStopFinished => some p.clockStopFinished
  | .readTurn toRead => some (p.readTurn toRead).2
  | .writeLoad now =>
      match p.writeGate timeout now with
      | .timedOut => some p.writeLoad
      | _ => none
  | .writeStore => p.loaded.map p.writeStore
  | .writeTurn chars => some (p.writeTurn chars).2
  | .discardBuffer fRx => some (p.discardBuffer fRx)

/-! ### The functions are runs of their parts -/

open TransitionSystem

theorem readLoop_run (timeout : Option Nat) (fuel size : Nat) (chars : List UInt8) (p : Port) :
    ∃ turns, run (step timeout) p turns = some (Port.readLoop fuel size chars p).2 := by
  induction fuel generalizing chars p with
  | zero => exact ⟨[], rfl⟩
  | succ fuel ih =>
      rw [Port.readLoop]
      split
      · dsimp only
        split
        · exact ⟨[.readTurn (size - chars.length)], rfl⟩
        · obtain ⟨turns, hrun⟩ := ih (chars ++ (p.readTurn (size - chars.length)).1)
            (p.readTurn (size - chars.length)).2
          exact ⟨.readTurn (size - chars.length) :: turns, hrun⟩
      · exact ⟨[], rfl⟩

theorem read_run (timeout : Option Nat) (p : Port) (size : Nat) :
    ∃ turns, run (step timeout) p turns = some (p.read size).2 := by
  rw [Port.read]
  split
  · exact ⟨[], rfl⟩
  · exact readLoop_run timeout (size + 1) size [] p

theorem queue_run (timeout : Option Nat) (p : Port) (chars : List UInt8) :
    ∃ turns, run (step timeout) p turns = some (Port.write.queue chars p).2 := by
  rw [Port.write.queue]
  dsimp only
  split
  · exact ⟨[.writeTurn chars], rfl⟩
  · exact ⟨[.writeTurn chars, .writeTurn (chars.drop (p.writeTurn chars).1)], rfl⟩

theorem write_run (timeout : Option Nat) (p : Port) (chars : List UInt8) (now : Nat) :
    ∃ turns, run (step timeout) p turns = some (p.write chars timeout now).2 := by
  rw [Port.write]
  split
  · exact ⟨[], rfl⟩
  · cases hgate : p.writeGate timeout now with
    | refused => exact ⟨[], rfl⟩
    | held => exact ⟨[], rfl⟩
    | free => exact queue_run timeout p chars
    | timedOut =>
        obtain ⟨turns, hrun⟩ := queue_run timeout (p.writeLoad.writeStore p.flag) chars
        refine ⟨.writeLoad now :: .writeStore :: turns, ?_⟩
        rw [run_cons, step, hgate, Option.bind_some, run_cons, step, Port.writeLoad,
          Option.map_some, Option.bind_some]
        exact hrun

end TinyCLR.COM
