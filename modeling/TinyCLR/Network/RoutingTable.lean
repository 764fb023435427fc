import Mathlib
import TinyCLR.Library.ReplayWindow
import TinyCLR.Library.TransitionSystem

/-!
# Broadcasts in the mesh

Each node numbers its broadcasts with one byte. A receiver keeps, in the entry of its routing
table for the originator, the highest number and a window of 32 bits for the numbers before it,
and takes a broadcast only when its number is new.
-/

namespace TinyCLR.Network

open TransitionSystem

abbrev Addr := BitVec 16

def cSeqNoWraparound : BitVec 8 := 4

/-- `Routing.IncSeqNoBroadcast`. -/
def incSeqNoBroadcast (seqNoBroadcast : BitVec 8) : BitVec 8 :=
  if seqNoBroadcast = 255 then cSeqNoWraparound else seqNoBroadcast + 1

/-- An entry of the routing table, with its fields for broadcasts. -/
structure Entry where
  targetAddr : Addr
  broadcastSeqNoValid : Bool
  broadcastSeqNo : BitVec 8
  /-- The 32 numbers before `broadcastSeqNo`, bit 0 for `broadcastSeqNo - 1`. -/
  broadcastWindow : BitVec 32
  broadcastActive : Bool
  deriving DecidableEq

/-- The entry that `AddEntry` adds. -/
def Entry.new (targetAddr : Addr) : Entry := ⟨targetAddr, false, 0, 0, false⟩

/-- `CheckBroadcastSeqNo`, for the entry of the originator. Where a count of a shift is 32 or
more, it is taken modulo 32. -/
def Entry.checkBroadcastSeqNo (entry : Entry) (seqNo : BitVec 8) : Bool × Entry :=
  if !entry.broadcastSeqNoValid then
    (true, { entry with
      broadcastSeqNoValid := true
      broadcastSeqNo := seqNo
      broadcastWindow := 0
      broadcastActive := true })
  else if seqNo < cSeqNoWraparound ∧ cSeqNoWraparound < entry.broadcastSeqNo then
    (true, { entry with
      broadcastSeqNo := seqNo
      broadcastWindow := 0
      broadcastActive := true })
  else
    let seqOffset := (seqNo - entry.broadcastSeqNo).toInt
    if seqOffset = 0 then (false, entry)
    else if seqOffset < 0 then
      if -32 ≤ seqOffset then
        let toggle := 1#32 <<< ((0 - 1 - seqOffset) % 32).toNat
        if 0#32 < entry.broadcastWindow &&& toggle then (false, entry)
        else (true, { entry with
          broadcastWindow := entry.broadcastWindow ||| toggle
          broadcastActive := true })
      else (false, entry)
    else
      (true, { entry with
        broadcastWindow := (entry.broadcastWindow <<< 1 ||| 1#32) <<< ((seqOffset - 1) % 32).toNat
        broadcastSeqNo := seqNo
        broadcastActive := true })

abbrev RoutingTable := List Entry

namespace RoutingTable

def findTargetAddr (table : RoutingTable) (targetAddr : Addr) : Option ℕ :=
  table.findIdx? fun entry => entry.targetAddr = targetAddr

/-- `UpdateRoute` for an address without an entry. -/
def updateRoute (table : RoutingTable) (targetAddr : Addr) : RoutingTable :=
  match table.findTargetAddr targetAddr with
  | none => table ++ [Entry.new targetAddr]
  | some _ => table

/-- `RemoveEntry` for the entry of an address. -/
def removeEntry (table : RoutingTable) (targetAddr : Addr) : RoutingTable :=
  match table.findTargetAddr targetAddr with
  | none => table
  | some i => table.eraseIdx i

def checkBroadcastSeqNo (table : RoutingTable) (orgAddrShort : Addr) (seqNo : BitVec 8) :
    Bool × RoutingTable :=
  match table.findTargetAddr orgAddrShort with
  | none =>
      let (isNew, entry) := (Entry.new orgAddrShort).checkBroadcastSeqNo seqNo
      (isNew, table ++ [entry])
  | some i =>
      match table[i]? with
      | none => (false, table)
      | some entry =>
          let (isNew, entry) := entry.checkBroadcastSeqNo seqNo
          (isNew, table.set i entry)

end RoutingTable

/-! ## Runs -/

/-- A node that sends broadcasts, with the numbers of those it sent since it started. -/
structure Originator where
  seqNoBroadcast : BitVec 8
  numbers : List (BitVec 8)

/-- The originators, one receiver, and which broadcasts have arrived there and were taken, by
their places in the order of sending. -/
structure Mesh where
  originator : Addr → Originator
  table : RoutingTable
  arrived : Addr → List ℕ
  delivered : Addr → List ℕ

inductive Event where
  /-- A node sends a broadcast. -/
  | send (orig : Addr)
  /-- A copy of a broadcast comes to the receiver. -/
  | arrive (orig : Addr) (k : ℕ)
  /-- A node starts again, and its entry is new. -/
  | restart (orig : Addr)
  /-- The receiver learns a route to a node. -/
  | route (target : Addr)

def Originator.start : Originator := ⟨0, []⟩

def Originator.send (o : Originator) : Originator :=
  let seqNoBroadcast := incSeqNoBroadcast o.seqNoBroadcast
  ⟨seqNoBroadcast, o.numbers ++ [seqNoBroadcast]⟩

def Mesh.step (s : Mesh) : Event → Option Mesh
  | .send orig => some { s with
      originator := Function.update s.originator orig (s.originator orig).send }
  | .arrive orig k =>
      (s.originator orig).numbers[k]?.map fun seqNo =>
        let (isNew, table) := s.table.checkBroadcastSeqNo orig seqNo
        { s with
          table
          arrived := Function.update s.arrived orig (k :: s.arrived orig)
          delivered := if isNew then Function.update s.delivered orig (k :: s.delivered orig)
            else s.delivered }
  | .restart orig => some
      { originator := Function.update s.originator orig .start
        table := s.table.removeEntry orig
        arrived := Function.update s.arrived orig []
        delivered := Function.update s.delivered orig [] }
  | .route target => some { s with table := s.table.updateRoute target }

/-- Nothing was sent, and the receiver's table is empty. -/
def Mesh.Initial (s : Mesh) : Prop :=
  (∀ orig, s.originator orig = .start) ∧ s.table = [] ∧ (∀ orig, s.arrived orig = []) ∧
    ∀ orig, s.delivered orig = []

/-- A copy arrives at most 24 broadcasts late, and at most 28 places after one that arrived; and a
copy of the first three broadcasts comes before all but the fourth of the later ones. -/
def Mesh.Admitted (s : Mesh) : Event → Prop
  | .arrive orig k =>
      (s.originator orig).numbers.length ≤ k + 25 ∧
      (s.arrived orig = [] ∨ ∃ k' ∈ s.arrived orig, k ≤ k' + 28) ∧
      (k < 3 → ∀ k' ∈ s.arrived orig, k' < 4)
  | _ => True

instance (s : Mesh) : (event : Event) → Decidable (s.Admitted event)
  | .arrive orig k => inferInstanceAs (Decidable (
      (s.originator orig).numbers.length ≤ k + 25 ∧
      (s.arrived orig = [] ∨ ∃ k' ∈ s.arrived orig, k ≤ k' + 28) ∧
      (k < 3 → ∀ k' ∈ s.arrived orig, k' < 4)))
  | .send _ | .restart _ | .route _ => .isTrue trivial

/-- Every broadcast that has arrived was taken once, and no other. -/
def Mesh.DeliveredOnce (s : Mesh) : Prop :=
  ∀ orig, (s.delivered orig).Nodup ∧ ∀ k, k ∈ s.delivered orig ↔ k ∈ s.arrived orig

end TinyCLR.Network
