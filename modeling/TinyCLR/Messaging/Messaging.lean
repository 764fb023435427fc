import TinyCLR.Library.TransitionSystem
import TinyCLR.WireProtocol.Packet

/-!
# The messaging endpoint

`CLR_Messaging` answers requests and takes replies. What it sends is kept in two caches, one of
the replies it has given and one of the requests it has made, so that a message that comes
again is recognised. Handlers are scripts of the calls that they make, and the environment
decides which writes to the port and which allocations succeed.
-/

namespace TinyCLR.Messaging

open WireProtocol

namespace Flags

def noCaching : BitVec 32 := 0x2000
def ack : BitVec 32 := 0x8000

end Flags

/-- `(flags & flag) != 0` -/
def hasFlag (flags flag : BitVec 32) : Bool := flags &&& flag != 0

/-- A request that is neither `NonCritical` nor `NoCaching`. -/
def isExact (flags : BitVec 32) : Bool :=
  !hasFlag flags Flags.nonCritical && !hasFlag flags Flags.noCaching

/-- The flags that `ReplyToCommand` puts together. -/
def replyFlags (noCaching fSuccess fCritical : Bool) : BitVec 32 :=
  (if noCaching then Flags.noCaching else 0) ||| (if fSuccess then Flags.ack else Flags.nack) |||
    (if fCritical then 0 else Flags.nonCritical)

/-- `CachedMessage`. The serial number tells entries of one command and sequence number apart and
is no part of the program. -/
structure CachedMessage where
  serial : Nat
  processed : Bool
  size : Nat
  lastSeen : Int
  header : Packet
  payload : List Byte

/-- The command and the sequence number of the request that a cached reply answers. -/
def CachedMessage.key (c : CachedMessage) : BitVec 32 × BitVec 16 :=
  (c.header.cmd, c.header.seqReply)

/-- What has happened: the handler of a request that is to be answered once was invoked, a request
was answered (both since the last purge), the handler of a reply was invoked for a cached
request. -/
inductive Event where
  | invoked (cmd : BitVec 32) (seq : BitVec 16)
  | answered (cmd : BitVec 32) (seq : BitVec 16) (flags : BitVec 32) (payload : List Byte)
  | replied (serial : Nat)
  deriving DecidableEq

def Event.isReplied : Event → Bool
  | .replied _ => true
  | _ => false

/-- What the environment does to one message that is sent. -/
structure Outcome where
  headerWritten : Bool
  payloadWritten : Bool
  allocated : Bool

/-- Both writes to the port give the whole size; an empty payload is not written. -/
def Outcome.transmits (o : Outcome) (payload : List Byte) : Bool :=
  o.headerWritten && (payload.isEmpty || o.payloadWritten)

/-- The fields of `CLR_Messaging`, the size of a cache entry and the log, newest event first. A
lookup is the list of its two tables of commands. -/
structure CLRMessaging where
  controller : Controller Unit
  lookupRequests : List (List (BitVec 32))
  lookupReplies : List (List (BitVec 32))
  cacheSubordinate : List CachedMessage
  cacheMaster : List CachedMessage
  cacheTotalSize : Nat
  sizeofCachedMessage : Nat
  nextSerial : Nat
  log : List Event

/-- The calls of a handler, with what becomes of the message that each sends. -/
inductive Call where
  | reply (fSuccess fCritical : Bool) (payload : List Byte) (o : Outcome)
  | send (cmd flags : BitVec 32) (payload : List Byte) (o : Outcome)

/-- What a handler does, what it returns, and what becomes of the answer that the dispatcher (or
the cache) sends. -/
structure Script where
  calls : List Call
  ret : Bool
  o : Outcome

namespace CLRMessaging

variable (s : CLRMessaging) (now : Int)

def record (event : Event) : CLRMessaging := { s with log := event :: s.log }

def newEntry (header : Packet) (payload : List Byte) : CachedMessage where
  serial := s.nextSerial
  processed := false
  size := s.sizeofCachedMessage + payload.length
  lastSeen := now
  header := if payload.isEmpty then { header with size := 0 } else header
  payload := payload

/-- `TransmitMessage` -/
def transmitMessage (header : Packet) (payload : List Byte) (fQueue : Bool) (o : Outcome) :
    Bool × CLRMessaging :=
  if !o.transmits payload then (false, s)
  else if !fQueue || hasFlag header.flags Flags.noCaching then (true, s)
  else if !hasFlag header.flags Flags.reply && hasFlag header.flags Flags.nonCritical then
    (true, s)
  else if !o.allocated then (true, s)
  else
    let entry := s.newEntry now header payload
    let s := { s with
      cacheTotalSize := s.cacheTotalSize + entry.size, nextSerial := s.nextSerial + 1 }
    if hasFlag header.flags Flags.reply then
      (true, { s with cacheSubordinate := entry :: s.cacheSubordinate })
    else (true, { s with cacheMaster := entry :: s.cacheMaster })

/-- The part of `ReplyToCommand` that prepares the reply and sends it. -/
def sendReply (header : Packet) (fSuccess fCritical : Bool) (payload : List Byte) (o : Outcome) :
    CLRMessaging :=
  let noCaching := hasFlag header.flags Flags.noCaching
  let payload := if fSuccess then payload else []
  let (reply, controller) :=
    s.controller.prepareReply header (replyFlags noCaching fSuccess fCritical) payload
  let (sent, s) := { s with controller := controller }.transmitMessage now reply payload true o
  if sent && !noCaching && !hasFlag header.flags Flags.reply then
    s.record (.answered header.cmd header.seq reply.flags payload)
  else s

/-- `ReplyToCommand`: the header of the message that is answered, and the endpoint. -/
def replyToCommand (header : Packet) (fSuccess fCritical : Bool) (payload : List Byte)
    (o : Outcome) : Packet × CLRMessaging :=
  if hasFlag header.flags Flags.nonCritical then (header, s)
  else
    let header := { header with flags := header.flags ||| Flags.nonCritical }
    (header, s.sendReply now header fSuccess fCritical payload o)

/-- `SendEvent` -/
def sendEvent (cmd flags : BitVec 32) (payload : List Byte) (o : Outcome) : CLRMessaging :=
  let (header, controller) := s.controller.prepareRequest cmd flags payload
  ({ s with controller := controller }.transmitMessage now header payload true o).2

def runCalls : List Call → Packet → CLRMessaging → Packet × CLRMessaging
  | [], header, s => (header, s)
  | .reply fSuccess fCritical payload o :: calls, header, s =>
      let (header, s) := s.replyToCommand now header fSuccess fCritical payload o
      runCalls calls header s
  | .send cmd flags payload o :: calls, header, s =>
      runCalls calls header (s.sendEvent now cmd flags payload o)

/-- The handler is invoked, and answered for if it has not answered itself. -/
def invoke (header : Packet) (script : Script) : CLRMessaging :=
  let (header, s) := runCalls now script.calls header s
  (s.replyToCommand now header script.ret false [] script.o).2

/-- The first entry of a list that matches, and the list with it at the front. -/
def touch (found : CachedMessage → Bool) (cache : List CachedMessage) :
    Option (CachedMessage × List CachedMessage) :=
  (cache.find? found).map fun c => ({ c with lastSeen := now }, cache.eraseP found)

def processReply (header : Packet) (script : Script) : CLRMessaging :=
  let known := s.lookupReplies.flatten.contains header.cmd
  match touch now (fun c => c.header.cmd == header.cmd && c.header.seq == header.seqReply)
      s.cacheMaster with
  | some (c, rest) =>
      let s := { s with cacheMaster := { c with processed := true } :: rest }
      if c.processed then s
      else if known then (s.record (.replied c.serial)).invoke now header script
      else (s.replyToCommand now header false false [] script.o).2
  | none =>
      if known then s.invoke now header script
      else (s.replyToCommand now header false false [] script.o).2

def processRequest (header : Packet) (script : Script) : CLRMessaging :=
  match touch now (fun c => header.cmd == c.header.cmd && header.seq == c.header.seqReply)
      s.cacheSubordinate with
  | some (c, rest) =>
      let s := { s with cacheSubordinate := c :: rest }
      let (sent, s) := s.transmitMessage now c.header c.payload false script.o
      if sent then s.record (.answered header.cmd header.seq c.header.flags c.payload) else s
  | none =>
      if s.lookupRequests.flatten.contains header.cmd then
        (if isExact header.flags then s.record (.invoked header.cmd header.seq)
          else s).invoke now header script
      else (s.replyToCommand now header false false [] script.o).2

/-- `ProcessPayload` -/
def processPayload (header : Packet) (script : Script) : CLRMessaging :=
  if hasFlag header.flags Flags.nack then s
  else if hasFlag header.flags Flags.reply then s.processReply now header script
  else s.processRequest now header script

def maxCacheSize : Nat := 5 * 1024

/-- `PurgeCache` of one list, from its end to its front: what stays, and the total size. -/
def purgeList (oldest : Int) : List CachedMessage → Nat → List CachedMessage × Nat
  | [], total => ([], total)
  | c :: cache, total =>
      let (cache, total) := purgeList oldest cache total
      if c.lastSeen < oldest ∨ maxCacheSize < total then (cache, total - c.size)
      else (c :: cache, total)

/-- `PurgeCache`. What the log says of requests starts over. -/
def purgeCache : CLRMessaging :=
  let oldest := now - 10000000 * 3
  let (cacheMaster, total) := purgeList oldest s.cacheMaster s.cacheTotalSize
  let (cacheSubordinate, total) := purgeList oldest s.cacheSubordinate total
  { s with
    cacheMaster := cacheMaster
    cacheSubordinate := cacheSubordinate
    cacheTotalSize := total
    log := s.log.filter Event.isReplied }

end CLRMessaging

inductive Action where
  | receive (header : Packet) (script : Script) (now : Int)
  | send (cmd flags : BitVec 32) (payload : List Byte) (o : Outcome) (now : Int)
  | purge (now : Int)

def step (s : CLRMessaging) : Action → Option CLRMessaging
  | .receive header script now => some (s.processPayload now header script)
  | .send cmd flags payload o now => some (s.sendEvent now cmd flags payload o)
  | .purge now => some (s.purgeCache now)

end TinyCLR.Messaging
