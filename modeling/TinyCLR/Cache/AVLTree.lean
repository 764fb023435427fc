import Mathlib
import TinyCLR.Library.TransitionSystem

/-!
# `CLR_RT_AVLTree`

The tree links entries that its owner allocates: the callbacks compare an entry with a datum,
hand out a new entry, take one back, and move the datum of one entry to another. The operations
below follow the source; a result of `none` stands for the dereference of a null link, which the
balance of the tree rules out.
-/

namespace TinyCLR

inductive Skew where
  | left | none | right
  deriving DecidableEq, Repr

def Skew.toInt : Skew → Int
  | .left => -1
  | .none => 0
  | .right => 1

inductive AVLTree (Entry : Type) where
  | nil
  | node (n : Entry) (left right : AVLTree Entry) (skew : Skew)
  deriving DecidableEq, Repr

namespace AVLTree

inductive Result where
  | ok | balance | notFound | duplicate | error
  deriving DecidableEq, Repr

/-- `OwnerInfo`: the callbacks, with the state that they work on. -/
structure OwnerInfo (State Entry Datum : Type) where
  compare : State → Entry → Datum → Int
  newNode : State → Datum → Option (Entry × State)
  freeNode : State → Entry → State
  /-- The datum of the first entry goes to the second one. -/
  reassignNode : State → Entry → Entry → State

variable {State Entry Datum : Type}

def isNil : AVLTree Entry → Bool
  | nil => true
  | node .. => false

def find (o : OwnerInfo State Entry Datum) (srcDatum : Datum) (s : State) :
    AVLTree Entry → Option Entry
  | nil => none
  | node n left right _ =>
      let cmp := o.compare s n srcDatum
      if cmp = 0 then some n
      else if cmp > 0 then find o srcDatum s left
      else find o srcDatum s right

def rotateLeft : AVLTree Entry → Option (AVLTree Entry)
  | node top left (node bottom inner right skew) skew' =>
      some (node bottom (node top left inner skew') right skew)
  | _ => none

def rotateRight : AVLTree Entry → Option (AVLTree Entry)
  | node top (node bottom left inner skew) right skew' =>
      some (node bottom left (node top inner right skew') skew)
  | _ => none

/-- The skews of the two upper nodes after a double rotation around a node of this skew, whose
parent is the right child of the top. -/
def skewsRight : Skew → Skew × Skew
  | .right => (.left, .none)
  | .left => (.none, .right)
  | .none => (.none, .none)

def skewsLeft : Skew → Skew × Skew
  | .left => (.right, .none)
  | .right => (.none, .left)
  | .none => (.none, .none)

/-- The case of `LeftGrown` and `RightShrunk` where the left child leans to the right. -/
def rotateLeftRight (n : Entry) (l : Entry) (ll lr right : AVLTree Entry) :
    Option (AVLTree Entry) :=
  match lr with
  | nil => none
  | node r rl rr skew =>
      (rotateLeft (node l ll (node r rl rr .none) (skewsLeft skew).2)).bind fun left =>
        rotateRight (node n left right (skewsLeft skew).1)

/-- The case of `RightGrown` and `LeftShrunk` where the right child leans to the left. -/
def rotateRightLeft (n : Entry) (left : AVLTree Entry) (r : Entry) (rl rr : AVLTree Entry) :
    Option (AVLTree Entry) :=
  match rl with
  | nil => none
  | node l ll lr skew =>
      (rotateRight (node r (node l ll lr .none) rr (skewsRight skew).2)).bind fun right =>
        rotateLeft (node n left right (skewsRight skew).1)

def leftGrown : AVLTree Entry → Option (Result × AVLTree Entry)
  | nil => none
  | node n left right skew =>
      match skew with
      | .left =>
          match left with
          | nil => none
          | node l ll lr .left =>
              (rotateRight (node n (node l ll lr .none) right .none)).map (.ok, ·)
          | node l ll lr _ => (rotateLeftRight n l ll lr right).map (.ok, ·)
      | .right => some (.ok, node n left right .none)
      | .none => some (.balance, node n left right .left)

def rightGrown : AVLTree Entry → Option (Result × AVLTree Entry)
  | nil => none
  | node n left right skew =>
      match skew with
      | .left => some (.ok, node n left right .none)
      | .right =>
          match right with
          | nil => none
          | node r rl rr .right =>
              (rotateLeft (node n left (node r rl rr .none) .none)).map (.ok, ·)
          | node r rl rr _ => (rotateRightLeft n left r rl rr).map (.ok, ·)
      | .none => some (.balance, node n left right .right)

def leftShrunk : AVLTree Entry → Option (Result × AVLTree Entry)
  | nil => none
  | node n left right skew =>
      match skew with
      | .left => some (.balance, node n left right .none)
      | .right =>
          match right with
          | nil => none
          | node r rl rr .right =>
              (rotateLeft (node n left (node r rl rr .none) .none)).map (.balance, ·)
          | node r rl rr .none =>
              (rotateLeft (node n left (node r rl rr .left) .right)).map (.ok, ·)
          | node r rl rr .left => (rotateRightLeft n left r rl rr).map (.balance, ·)
      | .none => some (.ok, node n left right .right)

def rightShrunk : AVLTree Entry → Option (Result × AVLTree Entry)
  | nil => none
  | node n left right skew =>
      match skew with
      | .right => some (.balance, node n left right .none)
      | .left =>
          match left with
          | nil => none
          | node l ll lr .left =>
              (rotateRight (node n (node l ll lr .none) right .none)).map (.balance, ·)
          | node l ll lr .none =>
              (rotateRight (node n (node l ll lr .right) right .left)).map (.ok, ·)
          | node l ll lr .right => (rotateLeftRight n l ll lr right).map (.balance, ·)
      | .none => some (.ok, node n left right .left)

/-- `res == RES_BALANCE ? fix( n ) : res`. -/
def rebalance (fix : AVLTree Entry → Option (Result × AVLTree Entry)) (res : Result) (t : AVLTree Entry)
    (s : State) : Option (Result × AVLTree Entry × State) :=
  if res = .balance then (fix t).map fun r => (r.1, r.2, s) else some (res, t, s)

/-- `FindHighest`; the flag is the result of the source, `false` for an empty subtree. -/
def findHighest (o : OwnerInfo State Entry Datum) (target : Entry) :
    AVLTree Entry → State → Option (Bool × Result × AVLTree Entry × State)
  | nil, s => some (false, .balance, nil, s)
  | node n left right skew, s =>
      if right.isNil then
        some (true, .balance, left, o.freeNode (o.reassignNode s n target) n)
      else
        match findHighest o target right s with
        | none => none
        | some (false, res, right, s) => some (false, res, node n left right skew, s)
        | some (true, res, right, s) =>
            (rebalance rightShrunk res (node n left right skew) s).map (true, ·)

def findLowest (o : OwnerInfo State Entry Datum) (target : Entry) :
    AVLTree Entry → State → Option (Bool × Result × AVLTree Entry × State)
  | nil, s => some (false, .balance, nil, s)
  | node n left right skew, s =>
      if left.isNil then
        some (true, .balance, right, o.freeNode (o.reassignNode s n target) n)
      else
        match findLowest o target left s with
        | none => none
        | some (false, res, left, s) => some (false, res, node n left right skew, s)
        | some (true, res, left, s) =>
            (rebalance leftShrunk res (node n left right skew) s).map (true, ·)

def insert (o : OwnerInfo State Entry Datum) (newDatum : Datum) :
    AVLTree Entry → State → Option (Result × AVLTree Entry × State)
  | nil, s =>
      match o.newNode s newDatum with
      | none => some (.error, nil, s)
      | some (n, s) => some (.balance, node n nil nil .none, s)
  | node n left right skew, s =>
      let cmp := o.compare s n newDatum
      if cmp > 0 then
        (insert o newDatum left s).bind fun r =>
          rebalance leftGrown r.1 (node n r.2.1 right skew) r.2.2
      else if cmp < 0 then
        (insert o newDatum right s).bind fun r =>
          rebalance rightGrown r.1 (node n left r.2.1 skew) r.2.2
      else some (.duplicate, node n left right skew, s)

/-- The end of `Remove`, when there is no left subtree to take a replacement from. -/
def removeRoot (o : OwnerInfo State Entry Datum) (n : Entry) (left right : AVLTree Entry)
    (skew : Skew) (s : State) : Option (Result × AVLTree Entry × State) :=
  if right.isNil then some (.balance, nil, o.freeNode s n)
  else
    match findLowest o n right s with
    | none => none
    | some (true, res, right, s) => rebalance rightShrunk res (node n left right skew) s
    | some (false, _, _, s) => some (.balance, nil, o.freeNode s n)

def remove (o : OwnerInfo State Entry Datum) (oldDatum : Datum) :
    AVLTree Entry → State → Option (Result × AVLTree Entry × State)
  | nil, s => some (.notFound, nil, s)
  | node n left right skew, s =>
      let cmp := o.compare s n oldDatum
      if cmp > 0 then
        (remove o oldDatum left s).bind fun r =>
          rebalance leftShrunk r.1 (node n r.2.1 right skew) r.2.2
      else if cmp < 0 then
        (remove o oldDatum right s).bind fun r =>
          rebalance rightShrunk r.1 (node n left r.2.1 skew) r.2.2
      else if left.isNil then removeRoot o n left right skew s
      else
        match findHighest o n left s with
        | none => none
        | some (true, res, left, s) => rebalance leftShrunk res (node n left right skew) s
        | some (false, _, left, s) => removeRoot o n left right skew s

/-! ## Balance -/

@[simp] def height : AVLTree Entry → Nat
  | nil => 0
  | node _ left right _ => max left.height right.height + 1

@[simp] def entries : AVLTree Entry → List Entry
  | nil => []
  | node n left right _ => left.entries ++ n :: right.entries

/-- Every skew is the difference of the heights, and never more than one. -/
@[simp] def Balanced : AVLTree Entry → Prop
  | nil => True
  | node _ left right skew =>
      left.Balanced ∧ right.Balanced ∧ (right.height : Int) - left.height = skew.toInt

/-- A subtree that has just grown leans to one side, unless it is a single new node. -/
def Leaning : AVLTree Entry → Prop
  | nil => False
  | node _ _ _ skew => skew ≠ .none

theorem leftGrown_spec {n : Entry} {left right : AVLTree Entry} {skew : Skew} {h : Nat}
    (hl : left.Balanced) (hr : right.Balanced) (hheight : left.height = h + 1)
    (hskew : (right.height : Int) - h = skew.toInt) (hlean : left.Leaning ∨ h = 0) :
    ∃ res t, leftGrown (node n left right skew) = some (res, t) ∧ t.Balanced ∧
      t.entries = left.entries ++ n :: right.entries ∧
      (res = .ok ∧ t.height = max h right.height + 1 ∨
        res = .balance ∧ t.height = max h right.height + 2 ∧ t.Leaning) := by
  cases skew with
  | right =>
      simp only [Skew.toInt] at hskew
      refine ⟨_, _, rfl, ?_, by simp, .inl ⟨rfl, ?_⟩⟩
      · refine ⟨hl, hr, ?_⟩
        simp only [Skew.toInt]
        omega
      · simp only [height]
        omega
  | none =>
      simp only [Skew.toInt] at hskew
      refine ⟨_, _, rfl, ?_, by simp, .inr ⟨rfl, ?_, nofun⟩⟩
      · refine ⟨hl, hr, ?_⟩
        simp only [Skew.toInt]
        omega
      · simp only [height]
        omega
  | left =>
      simp only [Skew.toInt] at hskew
      cases left with
      | nil => simp at hheight
      | node l ll lr sl =>
          obtain ⟨hll, hlr, hsl⟩ := hl
          simp only [height] at hheight
          cases sl with
          | left =>
              simp only [Skew.toInt] at hsl
              refine ⟨_, _, rfl, ⟨hll, ⟨hlr, hr, ?_⟩, ?_⟩, by simp, .inl ⟨rfl, ?_⟩⟩
              · simp only [Skew.toInt]
                omega
              · simp only [height, Skew.toInt]
                omega
              · simp only [height]
                omega
          | none =>
              rcases hlean with hlean | hzero
              · exact absurd rfl hlean
              · omega
          | right =>
              simp only [Skew.toInt] at hsl
              cases lr with
              | nil =>
                  simp only [height] at hsl
                  omega
              | node r rl rr sr =>
                  obtain ⟨hrl, hrr, hsr⟩ := hlr
                  simp only [height] at hsl hheight
                  refine ⟨_, _, rfl, ⟨⟨hll, hrl, ?_⟩, ⟨hrr, hr, ?_⟩, ?_⟩, by simp, .inl ⟨rfl, ?_⟩⟩ <;>
                    cases sr <;> simp only [height, skewsLeft, Skew.toInt] at hsr ⊢ <;> omega

theorem rightGrown_spec {n : Entry} {left right : AVLTree Entry} {skew : Skew} {h : Nat}
    (hl : left.Balanced) (hr : right.Balanced) (hheight : right.height = h + 1)
    (hskew : (h : Int) - left.height = skew.toInt) (hlean : right.Leaning ∨ h = 0) :
    ∃ res t, rightGrown (node n left right skew) = some (res, t) ∧ t.Balanced ∧
      t.entries = left.entries ++ n :: right.entries ∧
      (res = .ok ∧ t.height = max left.height h + 1 ∨
        res = .balance ∧ t.height = max left.height h + 2 ∧ t.Leaning) := by
  cases skew with
  | left =>
      simp only [Skew.toInt] at hskew
      refine ⟨_, _, rfl, ?_, by simp, .inl ⟨rfl, ?_⟩⟩
      · refine ⟨hl, hr, ?_⟩
        simp only [Skew.toInt]
        omega
      · simp only [height]
        omega
  | none =>
      simp only [Skew.toInt] at hskew
      refine ⟨_, _, rfl, ?_, by simp, .inr ⟨rfl, ?_, nofun⟩⟩
      · refine ⟨hl, hr, ?_⟩
        simp only [Skew.toInt]
        omega
      · simp only [height]
        omega
  | right =>
      simp only [Skew.toInt] at hskew
      cases right with
      | nil => simp at hheight
      | node r rl rr sr =>
          obtain ⟨hrl, hrr, hsr⟩ := hr
          simp only [height] at hheight
          cases sr with
          | right =>
              simp only [Skew.toInt] at hsr
              refine ⟨_, _, rfl, ⟨⟨hl, hrl, ?_⟩, hrr, ?_⟩, by simp, .inl ⟨rfl, ?_⟩⟩
              · simp only [Skew.toInt]
                omega
              · simp only [height, Skew.toInt]
                omega
              · simp only [height]
                omega
          | none =>
              rcases hlean with hlean | hzero
              · exact absurd rfl hlean
              · omega
          | left =>
              simp only [Skew.toInt] at hsr
              cases rl with
              | nil =>
                  simp only [height] at hsr
                  omega
              | node l ll lr sl =>
                  obtain ⟨hll, hlr, hsl⟩ := hrl
                  simp only [height] at hsr hheight
                  refine ⟨_, _, rfl, ⟨⟨hl, hll, ?_⟩, ⟨hlr, hrr, ?_⟩, ?_⟩, by simp, .inl ⟨rfl, ?_⟩⟩ <;>
                    cases sl <;> simp only [height, skewsRight, Skew.toInt] at hsl ⊢ <;> omega

theorem leftShrunk_spec {n : Entry} {left right : AVLTree Entry} {skew : Skew} {h : Nat}
    (hl : left.Balanced) (hr : right.Balanced) (hheight : left.height + 1 = h)
    (hskew : (right.height : Int) - h = skew.toInt) :
    ∃ res t, leftShrunk (node n left right skew) = some (res, t) ∧ t.Balanced ∧
      t.entries = left.entries ++ n :: right.entries ∧
      (res = .ok ∧ t.height = max h right.height + 1 ∨
        res = .balance ∧ t.height = max h right.height) := by
  cases skew with
  | left =>
      simp only [Skew.toInt] at hskew
      refine ⟨_, _, rfl, ?_, by simp, .inr ⟨rfl, ?_⟩⟩
      · refine ⟨hl, hr, ?_⟩
        simp only [Skew.toInt]
        omega
      · simp only [height]
        omega
  | none =>
      simp only [Skew.toInt] at hskew
      refine ⟨_, _, rfl, ?_, by simp, .inl ⟨rfl, ?_⟩⟩
      · refine ⟨hl, hr, ?_⟩
        simp only [Skew.toInt]
        omega
      · simp only [height]
        omega
  | right =>
      simp only [Skew.toInt] at hskew
      cases right with
      | nil =>
          simp only [height] at hskew
          omega
      | node r rl rr sr =>
          obtain ⟨hrl, hrr, hsr⟩ := hr
          simp only [height] at hskew
          cases sr with
          | right =>
              simp only [Skew.toInt] at hsr
              refine ⟨_, _, rfl, ⟨⟨hl, hrl, ?_⟩, hrr, ?_⟩, by simp, .inr ⟨rfl, ?_⟩⟩
              · simp only [Skew.toInt]
                omega
              · simp only [height, Skew.toInt]
                omega
              · simp only [height]
                omega
          | none =>
              simp only [Skew.toInt] at hsr
              refine ⟨_, _, rfl, ⟨⟨hl, hrl, ?_⟩, hrr, ?_⟩, by simp, .inl ⟨rfl, ?_⟩⟩
              · simp only [Skew.toInt]
                omega
              · simp only [height, Skew.toInt]
                omega
              · simp only [height]
                omega
          | left =>
              simp only [Skew.toInt] at hsr
              cases rl with
              | nil =>
                  simp only [height] at hsr
                  omega
              | node l ll lr sl =>
                  obtain ⟨hll, hlr, hsl⟩ := hrl
                  simp only [height] at hsr hskew
                  refine ⟨_, _, rfl, ⟨⟨hl, hll, ?_⟩, ⟨hlr, hrr, ?_⟩, ?_⟩, by simp, .inr ⟨rfl, ?_⟩⟩ <;>
                    cases sl <;> simp only [height, skewsRight, Skew.toInt] at hsl ⊢ <;> omega

theorem rightShrunk_spec {n : Entry} {left right : AVLTree Entry} {skew : Skew} {h : Nat}
    (hl : left.Balanced) (hr : right.Balanced) (hheight : right.height + 1 = h)
    (hskew : (h : Int) - left.height = skew.toInt) :
    ∃ res t, rightShrunk (node n left right skew) = some (res, t) ∧ t.Balanced ∧
      t.entries = left.entries ++ n :: right.entries ∧
      (res = .ok ∧ t.height = max left.height h + 1 ∨
        res = .balance ∧ t.height = max left.height h) := by
  cases skew with
  | right =>
      simp only [Skew.toInt] at hskew
      refine ⟨_, _, rfl, ?_, by simp, .inr ⟨rfl, ?_⟩⟩
      · refine ⟨hl, hr, ?_⟩
        simp only [Skew.toInt]
        omega
      · simp only [height]
        omega
  | none =>
      simp only [Skew.toInt] at hskew
      refine ⟨_, _, rfl, ?_, by simp, .inl ⟨rfl, ?_⟩⟩
      · refine ⟨hl, hr, ?_⟩
        simp only [Skew.toInt]
        omega
      · simp only [height]
        omega
  | left =>
      simp only [Skew.toInt] at hskew
      cases left with
      | nil =>
          simp only [height] at hskew
          omega
      | node l ll lr sl =>
          obtain ⟨hll, hlr, hsl⟩ := hl
          simp only [height] at hskew
          cases sl with
          | left =>
              simp only [Skew.toInt] at hsl
              refine ⟨_, _, rfl, ⟨hll, ⟨hlr, hr, ?_⟩, ?_⟩, by simp, .inr ⟨rfl, ?_⟩⟩
              · simp only [Skew.toInt]
                omega
              · simp only [height, Skew.toInt]
                omega
              · simp only [height]
                omega
          | none =>
              simp only [Skew.toInt] at hsl
              refine ⟨_, _, rfl, ⟨hll, ⟨hlr, hr, ?_⟩, ?_⟩, by simp, .inl ⟨rfl, ?_⟩⟩
              · simp only [Skew.toInt]
                omega
              · simp only [height, Skew.toInt]
                omega
              · simp only [height]
                omega
          | right =>
              simp only [Skew.toInt] at hsl
              cases lr with
              | nil =>
                  simp only [height] at hsl
                  omega
              | node r rl rr sr =>
                  obtain ⟨hrl, hrr, hsr⟩ := hlr
                  simp only [height] at hsl hskew
                  refine ⟨_, _, rfl, ⟨⟨hll, hrl, ?_⟩, ⟨hrr, hr, ?_⟩, ?_⟩, by simp, .inr ⟨rfl, ?_⟩⟩ <;>
                    cases sr <;> simp only [height, skewsLeft, Skew.toInt] at hsr ⊢ <;> omega

/-! ## The owner of the tree -/

/-- What the callbacks keep: entries are handed out once, each has a key, and the comparison of an
entry with a datum follows a total order of the keys. -/
structure Owner (State Entry Datum Key : Type) [LinearOrder Key] extends
    OwnerInfo State Entry Datum where
  valid : State → Prop
  live : State → Entry → Prop
  key : State → Entry → Key
  admissible : Datum → Prop
  datumKey : Datum → Key
  compare_pos : ∀ s n d, 0 < compare s n d ↔ datumKey d < key s n
  compare_neg : ∀ s n d, compare s n d < 0 ↔ key s n < datumKey d
  newNode_spec : ∀ {s d n s'}, valid s → admissible d → newNode s d = some (n, s') →
    valid s' ∧ ¬ live s n ∧ (∀ m, live s' m ↔ live s m ∨ m = n) ∧ key s' n = datumKey d ∧
      ∀ m, m ≠ n → key s' m = key s m
  freeNode_spec : ∀ {s n}, valid s → live s n →
    valid (freeNode s n) ∧ (∀ m, live (freeNode s n) m ↔ live s m ∧ m ≠ n) ∧
      ∀ m, key (freeNode s n) m = key s m
  reassignNode_spec : ∀ {s n m}, valid s → live s n → live s m → n ≠ m →
    valid (reassignNode s n m) ∧ (∀ k, live (reassignNode s n m) k ↔ live s k) ∧
      key (reassignNode s n m) m = key s n ∧ ∀ k, k ≠ m → key (reassignNode s n m) k = key s k

section Owner

variable {Key : Type} [LinearOrder Key] (o : Owner State Entry Datum Key)

theorem Owner.key_eq {s : State} {n : Entry} {d : Datum} (hpos : ¬ 0 < o.compare s n d)
    (hneg : ¬ o.compare s n d < 0) : o.key s n = o.datumKey d :=
  le_antisymm (not_lt.mp fun hlt => hpos ((o.compare_pos s n d).mpr hlt))
    (not_lt.mp fun hlt => hneg ((o.compare_neg s n d).mpr hlt))

/-- The keys of the tree, in order. -/
def keys (s : State) (t : AVLTree Entry) : List Key :=
  t.entries.map (o.key s)

/-- A balanced search tree of entries that its owner has handed out. -/
structure Valid (s : State) (t : AVLTree Entry) : Prop where
  state : o.valid s
  balanced : t.Balanced
  live : ∀ n ∈ t.entries, o.live s n
  nodup : t.entries.Nodup
  sorted : (t.keys o s).Pairwise (· < ·)

variable {o}

theorem keys_node (s : State) (n : Entry) (left right : AVLTree Entry) (skew : Skew) :
    (node n left right skew).keys o s = left.keys o s ++ o.key s n :: right.keys o s := by
  simp [keys]

/-- The parts of a valid tree are valid, and the root separates them. -/
theorem Valid.node {s : State} {n : Entry} {left right : AVLTree Entry} {skew : Skew}
    (h : (node n left right skew).Valid o s) :
    left.Valid o s ∧ right.Valid o s ∧ o.live s n ∧
      (right.height : Int) - left.height = skew.toInt ∧
      (∀ k ∈ left.keys o s, k < o.key s n) ∧ (∀ k ∈ right.keys o s, o.key s n < k) ∧
      n ∉ left.entries ∧ n ∉ right.entries ∧ ∀ m ∈ left.entries, m ∉ right.entries := by
  obtain ⟨hs, ⟨hbl, hbr, hskew⟩, hlive, hnodup, hsorted⟩ := h
  rw [keys_node, List.pairwise_append, List.pairwise_cons] at hsorted
  obtain ⟨hsl, ⟨hroot, hsr⟩, hcross⟩ := hsorted
  rw [entries, List.nodup_append, List.nodup_cons] at hnodup
  obtain ⟨hnl, ⟨hnot, hnr⟩, hdisj⟩ := hnodup
  refine ⟨⟨hs, hbl, fun m hm => hlive m (by simp [hm]), hnl, hsl⟩,
    ⟨hs, hbr, fun m hm => hlive m (by simp [hm]), hnr, hsr⟩, hlive n (by simp), hskew,
    fun k hk => hcross k hk _ (by simp), hroot, ?_, hnot, ?_⟩
  · exact fun hmem => hdisj n hmem n (by simp) rfl
  · exact fun m hm hmem => hdisj m hm m (by simp [hmem]) rfl

/-- `Find` meets an entry of the tree with the key, exactly when there is one. -/
theorem find_spec {s : State} (d : Datum) {t : AVLTree Entry} (h : t.Valid o s) :
    (∀ n, find o.toOwnerInfo d s t = some n → n ∈ t.entries ∧ o.key s n = o.datumKey d) ∧
      (find o.toOwnerInfo d s t = none → o.datumKey d ∉ t.keys o s) := by
  induction t with
  | nil => exact ⟨nofun, fun _ => by simp [keys]⟩
  | node m left right skew ihl ihr =>
      obtain ⟨hl, hr, -, -, hlt, hgt, -⟩ := h.node
      rw [find, keys_node]
      by_cases hpos : 0 < o.compare s m d
      · have hkey := (o.compare_pos s m d).mp hpos
        obtain ⟨hsome, hnone⟩ := ihl hl
        rw [if_neg (by omega), if_pos hpos]
        refine ⟨fun n hn => ⟨?_, (hsome n hn).2⟩, fun hn hmem => ?_⟩
        · simp [(hsome n hn).1]
        · rcases List.mem_append.mp hmem with hmem | hmem
          · exact hnone hn hmem
          · rcases List.mem_cons.mp hmem with heq | hmem
            · exact absurd heq hkey.ne
            · exact absurd (hgt _ hmem) hkey.not_gt
      · by_cases hneg : o.compare s m d < 0
        · have hkey := (o.compare_neg s m d).mp hneg
          obtain ⟨hsome, hnone⟩ := ihr hr
          rw [if_neg (by omega), if_neg hpos]
          refine ⟨fun n hn => ⟨?_, (hsome n hn).2⟩, fun hn hmem => ?_⟩
          · simp [(hsome n hn).1]
          · rcases List.mem_append.mp hmem with hmem | hmem
            · exact absurd (hlt _ hmem) hkey.not_gt
            · rcases List.mem_cons.mp hmem with heq | hmem
              · exact absurd heq hkey.ne'
              · exact hnone hn hmem
        · have hkey := o.key_eq hpos hneg
          rw [if_pos (by omega)]
          refine ⟨fun n hn => ?_, nofun⟩
          rw [← Option.some.inj hn]
          exact ⟨by simp, hkey⟩

/-- The outcome of `Insert`. -/
structure Inserted (o : Owner State Entry Datum Key) (d : Datum) (s : State) (t : AVLTree Entry)
    (r : Result × AVLTree Entry × State) : Prop where
  /-- The key is there already and nothing changes. -/
  duplicate : r.1 = .duplicate ↔ o.datumKey d ∈ t.keys o s
  unchanged : r.1 = .duplicate ∨ r.1 = .error → r.2 = (t, s)
  error : r.1 = .error → o.newNode s d = none
  notFound : r.1 ≠ .notFound
  balanced : r.2.1.Balanced
  height : r.1 ≠ .balance → r.2.1.height = t.height
  grown : r.1 = .balance → r.2.1.height = t.height + 1 ∧ (r.2.1.Leaning ∨ t.height = 0)
  /-- Otherwise one new entry takes its place in the order. -/
  added : r.1 = .ok ∨ r.1 = .balance → ∃ n before after,
    o.newNode s d = some (n, r.2.2) ∧ t.entries = before ++ after ∧
      r.2.1.entries = before ++ n :: after ∧ (∀ m ∈ before, o.key s m < o.datumKey d) ∧
      ∀ m ∈ after, o.datumKey d < o.key s m

/-- What happened in a subtree happened in the whole tree, when the key belongs there. -/
theorem Inserted.lift {d : Datum} {s : State} {t u : AVLTree Entry}
    {r : Result × AVLTree Entry × State} {res : Result} (h : Inserted o d s u r)
    (t' : AVLTree Entry) (before after : List Entry) (ht : t.entries = before ++ u.entries ++ after)
    (ht' : t'.entries = before ++ r.2.1.entries ++ after)
    (hbefore : ∀ m ∈ before, o.key s m < o.datumKey d)
    (hafter : ∀ m ∈ after, o.datumKey d < o.key s m)
    (hres : r.1 = .balance ∧ (res = .ok ∨ res = .balance) ∨ r.1 ≠ .balance ∧ res = r.1)
    (hsame : r.1 = .duplicate ∨ r.1 = .error → t' = t) (hbalanced : t'.Balanced)
    (hheight : res ≠ .balance → t'.height = t.height)
    (hgrown : res = .balance → t'.height = t.height + 1 ∧ (t'.Leaning ∨ t.height = 0)) :
    Inserted o d s t (res, t', r.2.2) := by
  have hkeys : o.datumKey d ∈ t.keys o s ↔ o.datumKey d ∈ u.keys o s := by
    have hpre : o.datumKey d ∉ before.map (o.key s) := by
      intro hmem
      obtain ⟨m, hm, heq⟩ := List.mem_map.mp hmem
      exact (hbefore m hm).ne heq
    have hpost : o.datumKey d ∉ after.map (o.key s) := by
      intro hmem
      obtain ⟨m, hm, heq⟩ := List.mem_map.mp hmem
      exact (hafter m hm).ne' heq
    simp only [keys, ht, List.map_append, List.mem_append, hpre, hpost, false_or, or_false]
  have hdup : res = .duplicate ↔ r.1 = .duplicate := by
    rcases hres with ⟨hb, hres | hres⟩ | ⟨-, hres⟩
    · simp [hb, hres]
    · simp [hb, hres]
    · rw [hres]
  have herror : res = .error → r.1 = .error := by
    rcases hres with ⟨-, hres | hres⟩ | ⟨-, hres⟩
    · simp [hres]
    · simp [hres]
    · rw [hres]
      exact id
  refine ⟨hdup.trans (h.duplicate.trans hkeys.symm), ?_, fun he => h.error (herror he), ?_,
    hbalanced, hheight, hgrown, ?_⟩
  · intro hunchanged
    have hr : r.1 = .duplicate ∨ r.1 = .error := hunchanged.imp hdup.mp herror
    have hs : r.2.2 = s := congrArg Prod.snd (h.unchanged hr)
    exact Prod.ext (hsame hr) hs
  · rcases hres with ⟨-, hres | hres⟩ | ⟨-, hres⟩
    · simp [hres]
    · simp [hres]
    · exact hres.symm ▸ h.notFound
  · intro hadded
    have hr : r.1 = .ok ∨ r.1 = .balance := by
      rcases hres with ⟨hb, -⟩ | ⟨-, hres⟩
      · exact .inr hb
      · exact hres ▸ hadded
    obtain ⟨n, pre, post, hnew, hu, hr', hpre, hpost⟩ := h.added hr
    refine ⟨n, before ++ pre, post ++ after, hnew, by simp [ht, hu], by simp [ht', hr'], ?_, ?_⟩
    · intro m hm
      exact (List.mem_append.mp hm).elim (hbefore m) (hpre m)
    · intro m hm
      exact (List.mem_append.mp hm).elim (hpost m) (hafter m)

/-- `Insert` never meets a null link, and ends in one of the outcomes above. -/
theorem insert_spec {s : State} {d : Datum} {t : AVLTree Entry} (h : t.Valid o s) :
    ∃ r, insert o.toOwnerInfo d t s = some r ∧ Inserted o d s t r := by
  induction t with
  | nil =>
      rw [insert]
      cases hnew : o.newNode s d with
      | none =>
          refine ⟨_, rfl, ?_⟩
          constructor <;> simp [keys, hnew]
      | some r =>
          refine ⟨_, rfl, ?_⟩
          constructor <;> simp [keys, hnew, Skew.toInt]
  | node m left right skew ihl ihr =>
      obtain ⟨hl, hr, -, hskew, hlt, hgt, -⟩ := h.node
      have hlt' : ∀ n ∈ left.entries, o.key s n < o.key s m :=
        fun n hn => hlt _ (List.mem_map_of_mem hn)
      have hgt' : ∀ n ∈ right.entries, o.key s m < o.key s n :=
        fun n hn => hgt _ (List.mem_map_of_mem hn)
      rw [insert]
      by_cases hpos : 0 < o.compare s m d
      · have hkey := (o.compare_pos s m d).mp hpos
        obtain ⟨r, hinsert, hins⟩ := ihl hl
        have hafter : ∀ n ∈ m :: right.entries, o.datumKey d < o.key s n := by
          intro n hn
          rcases List.mem_cons.mp hn with rfl | hn
          · exact hkey
          · exact hkey.trans (hgt' n hn)
        rw [if_pos hpos, hinsert, Option.bind_some, rebalance]
        split
        next hbalance =>
          obtain ⟨hheight, hlean⟩ := hins.grown hbalance
          obtain ⟨res, t', heq, hbal, hentries, hout⟩ :=
            leftGrown_spec (n := m) hins.balanced hr.balanced hheight hskew hlean
          rw [heq]
          refine ⟨_, rfl, hins.lift t' [] (m :: right.entries) rfl
            (by simpa using hentries) (by simp) hafter (.inl ⟨hbalance, ?_⟩) ?_ hbal ?_ ?_⟩
          · exact hout.imp And.left And.left
          · simp [hbalance]
          · intro hne
            rcases hout with ⟨-, hh⟩ | ⟨hb, -⟩
            · simpa using hh
            · exact absurd hb hne
          · intro hb
            rcases hout with ⟨ho, -⟩ | ⟨-, hh, hlean'⟩
            · simp [ho] at hb
            · exact ⟨by simpa using hh, .inl hlean'⟩
        next hbalance =>
          have hheight := hins.height hbalance
          refine ⟨_, rfl, hins.lift _ [] (m :: right.entries) rfl rfl
            (by simp) hafter (.inr ⟨hbalance, rfl⟩) ?_ ?_ ?_ (fun hb => absurd hb hbalance)⟩
          · intro hsame
            rw [show r.2.1 = left from congrArg Prod.fst (hins.unchanged hsame)]
          · exact ⟨hins.balanced, hr.balanced, by rw [hheight]; exact hskew⟩
          · intro _
            simp [hheight]
      · by_cases hneg : o.compare s m d < 0
        · have hkey := (o.compare_neg s m d).mp hneg
          obtain ⟨r, hinsert, hins⟩ := ihr hr
          have hbefore : ∀ n ∈ left.entries ++ [m], o.key s n < o.datumKey d := by
            intro n hn
            rcases List.mem_append.mp hn with hn | hn
            · exact (hlt' n hn).trans hkey
            · exact List.mem_singleton.mp hn ▸ hkey
          rw [if_neg hpos, if_pos hneg, hinsert, Option.bind_some, rebalance]
          split
          next hbalance =>
            obtain ⟨hheight, hlean⟩ := hins.grown hbalance
            obtain ⟨res, t', heq, hbal, hentries, hout⟩ :=
              rightGrown_spec (n := m) hl.balanced hins.balanced hheight hskew hlean
            rw [heq]
            refine ⟨_, rfl, hins.lift t' (left.entries ++ [m]) []
              (by simp) (by simpa using hentries) hbefore (by simp) (.inl ⟨hbalance, ?_⟩) ?_ hbal
              ?_ ?_⟩
            · exact hout.imp And.left And.left
            · simp [hbalance]
            · intro hne
              rcases hout with ⟨-, hh⟩ | ⟨hb, -⟩
              · simpa using hh
              · exact absurd hb hne
            · intro hb
              rcases hout with ⟨ho, -⟩ | ⟨-, hh, hlean'⟩
              · simp [ho] at hb
              · exact ⟨by simpa using hh, .inl hlean'⟩
          next hbalance =>
            have hheight := hins.height hbalance
            refine ⟨_, rfl, hins.lift _ (left.entries ++ [m]) [] (by simp)
              (by simp) hbefore (by simp) (.inr ⟨hbalance, rfl⟩) ?_ ?_ ?_
              (fun hb => absurd hb hbalance)⟩
            · intro hsame
              rw [show r.2.1 = right from congrArg Prod.fst (hins.unchanged hsame)]
            · exact ⟨hl.balanced, hins.balanced, by rw [hheight]; exact hskew⟩
            · intro _
              simp [hheight]
        · have hkey := o.key_eq hpos hneg
          rw [if_neg hpos, if_neg hneg]
          refine ⟨_, rfl, ⟨?_, fun _ => rfl, nofun, nofun, h.balanced, fun _ => rfl, nofun, ?_⟩⟩
          · simp [keys, hkey]
          · simp

/-- A valid tree stays valid, and has exactly the new key more. -/
theorem Inserted.valid {d : Datum} {s : State} {t : AVLTree Entry}
    {r : Result × AVLTree Entry × State} (h : Inserted o d s t r) (ht : t.Valid o s)
    (hd : o.admissible d) : r.2.1.Valid o r.2.2 := by
  by_cases hsame : r.1 = .duplicate ∨ r.1 = .error
  · rw [h.unchanged hsame]
    exact ht
  · have hadded : r.1 = .ok ∨ r.1 = .balance := by
      have hnot := h.notFound
      cases hr : r.1 <;> simp [hr] at hsame hnot ⊢
    obtain ⟨n, before, after, hnew, hentries, hentries', hbefore, hafter⟩ := h.added hadded
    obtain ⟨hvalid, hfresh, hlive, hkey, hkeep⟩ := o.newNode_spec ht.state hd hnew
    have hnot : n ∉ before ++ after := fun hmem => hfresh (ht.live n (hentries ▸ hmem))
    have hsame' : ∀ m ∈ before ++ after, o.key r.2.2 m = o.key s m :=
      fun m hm => hkeep m fun heq => hnot (heq ▸ hm)
    refine ⟨hvalid, h.balanced, ?_, ?_, ?_⟩
    · intro m hm
      rw [hentries'] at hm
      rw [hlive]
      rcases List.mem_append.mp hm with hm | hm
      · exact .inl (ht.live m (by simp [hentries, hm]))
      · rcases List.mem_cons.mp hm with rfl | hm
        · exact .inr rfl
        · exact .inl (ht.live m (by simp [hentries, hm]))
    · rw [hentries']
      have hnodup := hentries ▸ ht.nodup
      exact (List.perm_middle.nodup_iff).mpr (List.nodup_cons.mpr ⟨hnot, hnodup⟩)
    · have hsorted := ht.sorted
      rw [keys, hentries, List.map_append, List.pairwise_append] at hsorted
      obtain ⟨hpre, hpost, hcross⟩ := hsorted
      have hb : before.map (o.key r.2.2) = before.map (o.key s) :=
        List.map_congr_left fun m hm => hsame' m (List.mem_append_left _ hm)
      have ha : after.map (o.key r.2.2) = after.map (o.key s) :=
        List.map_congr_left fun m hm => hsame' m (List.mem_append_right _ hm)
      rw [keys, hentries', List.map_append, List.map_cons, hb, ha, hkey, List.pairwise_append,
        List.pairwise_cons]
      refine ⟨hpre, ⟨?_, hpost⟩, ?_⟩
      · intro k hk
        obtain ⟨m, hm, rfl⟩ := List.mem_map.mp hk
        exact hafter m hm
      · intro k hk k' hk'
        rcases List.mem_cons.mp hk' with rfl | hk'
        · obtain ⟨m, hm, rfl⟩ := List.mem_map.mp hk
          exact hbefore m hm
        · exact hcross k hk k' hk'

/-! ## Removal -/

theorem rebalance_left {n : Entry} {left right t' : AVLTree Entry} {skew : Skew} {res : Result}
    (s : State) (hbal : t'.Balanced) (hr : right.Balanced)
    (hskew : (right.height : Int) - left.height = skew.toInt)
    (hout : res = .ok ∧ t'.height = left.height ∨ res = .balance ∧ t'.height + 1 = left.height) :
    ∃ res' u, rebalance leftShrunk res (node n t' right skew) s = some (res', u, s) ∧
      u.Balanced ∧ u.entries = t'.entries ++ n :: right.entries ∧
      (res' = .ok ∧ u.height = (node n left right skew).height ∨
        res' = .balance ∧ u.height + 1 = (node n left right skew).height) := by
  rcases hout with ⟨rfl, hheight⟩ | ⟨rfl, hheight⟩
  · refine ⟨.ok, node n t' right skew, rfl, ⟨hbal, hr, ?_⟩, rfl, .inl ⟨rfl, ?_⟩⟩
    · rw [hheight]
      exact hskew
    · simp [hheight]
  · obtain ⟨res', u, heq, hbal', hentries, hout⟩ := leftShrunk_spec (n := n) hbal hr hheight hskew
    refine ⟨res', u, ?_, hbal', hentries, hout.imp ?_ ?_⟩
    · simp [rebalance, heq]
    · exact fun h => ⟨h.1, by simpa using h.2⟩
    · exact fun h => ⟨h.1, by simpa using h.2⟩

theorem rebalance_right {n : Entry} {left right t' : AVLTree Entry} {skew : Skew} {res : Result}
    (s : State) (hl : left.Balanced) (hbal : t'.Balanced)
    (hskew : (right.height : Int) - left.height = skew.toInt)
    (hout : res = .ok ∧ t'.height = right.height ∨ res = .balance ∧ t'.height + 1 = right.height) :
    ∃ res' u, rebalance rightShrunk res (node n left t' skew) s = some (res', u, s) ∧
      u.Balanced ∧ u.entries = left.entries ++ n :: t'.entries ∧
      (res' = .ok ∧ u.height = (node n left right skew).height ∨
        res' = .balance ∧ u.height + 1 = (node n left right skew).height) := by
  rcases hout with ⟨rfl, hheight⟩ | ⟨rfl, hheight⟩
  · refine ⟨.ok, node n left t' skew, rfl, ⟨hl, hbal, ?_⟩, rfl, .inl ⟨rfl, ?_⟩⟩
    · rw [hheight]
      exact hskew
    · simp [hheight]
  · obtain ⟨res', u, heq, hbal', hentries, hout⟩ := rightShrunk_spec (n := n) hl hbal hheight hskew
    refine ⟨res', u, ?_, hbal', hentries, hout.imp ?_ ?_⟩
    · simp [rebalance, heq]
    · exact fun h => ⟨h.1, by simpa using h.2⟩
    · exact fun h => ⟨h.1, by simpa using h.2⟩

/-- `FindHighest` takes the last entry out of a subtree and gives its datum to the target. -/
theorem findHighest_spec (i : OwnerInfo State Entry Datum) (target : Entry) (s : State)
    {t : AVLTree Entry} (hb : t.Balanced) (hne : t.isNil = false) :
    ∃ res t' freed, findHighest i target t s =
        some (true, res, t', i.freeNode (i.reassignNode s freed target) freed) ∧
      t'.Balanced ∧ t.entries = t'.entries ++ [freed] ∧
      (res = .ok ∧ t'.height = t.height ∨ res = .balance ∧ t'.height + 1 = t.height) := by
  induction t with
  | nil => cases hne
  | node n left right skew _ ihr =>
      obtain ⟨hl, hr, hskew⟩ := hb
      rw [findHighest]
      cases hnil : right.isNil with
      | true =>
          cases right with
          | nil =>
              refine ⟨_, left, n, rfl, hl, by simp, .inr ⟨rfl, ?_⟩⟩
              simp
          | node => cases hnil
      | false =>
          obtain ⟨res, t', freed, hfind, hbal, hentries, hout⟩ := ihr hr hnil
          obtain ⟨res', u, heq, hbal', hentries', hout'⟩ := rebalance_right (n := n)
            (i.freeNode (i.reassignNode s freed target) freed) hl hbal hskew hout
          rw [if_neg (by simp), hfind]
          refine ⟨res', u, freed, ?_, hbal', by simp [hentries', hentries], hout'⟩
          simp [heq]

theorem findLowest_spec (i : OwnerInfo State Entry Datum) (target : Entry) (s : State)
    {t : AVLTree Entry} (hb : t.Balanced) (hne : t.isNil = false) :
    ∃ res t' freed, findLowest i target t s =
        some (true, res, t', i.freeNode (i.reassignNode s freed target) freed) ∧
      t'.Balanced ∧ t.entries = freed :: t'.entries ∧
      (res = .ok ∧ t'.height = t.height ∨ res = .balance ∧ t'.height + 1 = t.height) := by
  induction t with
  | nil => cases hne
  | node n left right skew ihl _ =>
      obtain ⟨hl, hr, hskew⟩ := hb
      rw [findLowest]
      cases hnil : left.isNil with
      | true =>
          cases left with
          | nil =>
              refine ⟨_, right, n, rfl, hr, by simp, .inr ⟨rfl, ?_⟩⟩
              simp
          | node => cases hnil
      | false =>
          obtain ⟨res, t', freed, hfind, hbal, hentries, hout⟩ := ihl hl hnil
          obtain ⟨res', u, heq, hbal', hentries', hout'⟩ := rebalance_left (n := n)
            (i.freeNode (i.reassignNode s freed target) freed) hbal hr hskew hout
          rw [if_neg (by simp), hfind]
          refine ⟨res', u, freed, ?_, hbal', by simp [hentries', hentries], hout'⟩
          simp [heq]

/-- The outcome of `Remove`. -/
structure Removed (o : Owner State Entry Datum Key) (d : Datum) (s : State) (t : AVLTree Entry)
    (r : Result × AVLTree Entry × State) : Prop where
  notFound : r.1 = .notFound ↔ o.datumKey d ∉ t.keys o s
  unchanged : r.1 = .notFound → r.2 = (t, s)
  result : r.1 = .notFound ∨ r.1 = .ok ∨ r.1 = .balance
  balanced : r.2.1.Balanced
  height : r.1 ≠ .balance → r.2.1.height = t.height
  shrunk : r.1 = .balance → r.2.1.height + 1 = t.height
  /-- The key leaves the order and one entry is freed, in general not the one that had the key. -/
  removed : r.1 ≠ .notFound → ∃ freed before after,
    t.keys o s = before ++ o.datumKey d :: after ∧ r.2.1.keys o r.2.2 = before ++ after ∧
      t.entries.Perm (freed :: r.2.1.entries) ∧ o.valid r.2.2 ∧
      (∀ m, o.live r.2.2 m ↔ o.live s m ∧ m ≠ freed) ∧
      ∀ m, m ∉ t.entries → o.key r.2.2 m = o.key s m

theorem Removed.lift {d : Datum} {s : State} {t u : AVLTree Entry}
    {r : Result × AVLTree Entry × State} {res : Result} (h : Removed o d s u r)
    (t' : AVLTree Entry) (before after : List Entry)
    (ht : t.entries = before ++ u.entries ++ after)
    (ht' : t'.entries = before ++ r.2.1.entries ++ after)
    (hdisj : ∀ m ∈ before ++ after, m ∉ u.entries)
    (hbefore : ∀ m ∈ before, o.key s m < o.datumKey d)
    (hafter : ∀ m ∈ after, o.datumKey d < o.key s m)
    (hres : r.1 ≠ .notFound ∧ (res = .ok ∨ res = .balance) ∨ r.1 = .notFound ∧ res = r.1)
    (hsame : r.1 = .notFound → t' = t) (hbalanced : t'.Balanced)
    (hheight : res ≠ .balance → t'.height = t.height)
    (hshrunk : res = .balance → t'.height + 1 = t.height) :
    Removed o d s t (res, t', r.2.2) := by
  have hkeys : o.datumKey d ∈ t.keys o s ↔ o.datumKey d ∈ u.keys o s := by
    have hpre : o.datumKey d ∉ before.map (o.key s) := by
      intro hmem
      obtain ⟨m, hm, heq⟩ := List.mem_map.mp hmem
      exact (hbefore m hm).ne heq
    have hpost : o.datumKey d ∉ after.map (o.key s) := by
      intro hmem
      obtain ⟨m, hm, heq⟩ := List.mem_map.mp hmem
      exact (hafter m hm).ne' heq
    simp only [keys, ht, List.map_append, List.mem_append, hpre, hpost, false_or, or_false]
  have hnot : res = .notFound ↔ r.1 = .notFound := by
    rcases hres with ⟨hb, hres | hres⟩ | ⟨-, hres⟩
    · simp [hb, hres]
    · simp [hb, hres]
    · rw [hres]
  refine ⟨hnot.trans (h.notFound.trans (not_congr hkeys.symm)), ?_, ?_, hbalanced, hheight,
    hshrunk, ?_⟩
  · intro hunchanged
    have hr := hnot.mp hunchanged
    have hs : r.2.2 = s := congrArg Prod.snd (h.unchanged hr)
    exact Prod.ext (hsame hr) hs
  · rcases hres with ⟨-, hres⟩ | ⟨-, hres⟩
    · exact .inr hres
    · exact hres.symm ▸ h.result
  · intro hne
    obtain ⟨freed, pre, post, hold, hnew, hperm, hvalid, hlive, hkeep⟩ :=
      h.removed fun hr => hne (hnot.mpr hr)
    have hb : before.map (o.key r.2.2) = before.map (o.key s) :=
      List.map_congr_left fun m hm => hkeep m (hdisj m (List.mem_append_left _ hm))
    have ha : after.map (o.key r.2.2) = after.map (o.key s) :=
      List.map_congr_left fun m hm => hkeep m (hdisj m (List.mem_append_right _ hm))
    refine ⟨freed, before.map (o.key s) ++ pre, post ++ after.map (o.key s), ?_, ?_, ?_, hvalid,
      hlive, ?_⟩
    · have hu : u.entries.map (o.key s) = pre ++ o.datumKey d :: post := hold
      simp [keys, ht, hu]
    · have hr' : r.2.1.entries.map (o.key r.2.2) = pre ++ post := hnew
      simp [keys, ht', hb, ha, hr']
    · have hperm' := (hperm.append_left before).append_right after
      rw [ht, ht']
      refine hperm'.trans ?_
      simp only [List.append_assoc, List.cons_append]
      exact List.perm_middle
    · intro m hm
      apply hkeep
      intro hmem
      exact hm (by simp [ht, hmem])

/-- The entry `freed` gives its datum to `n` and is freed. -/
theorem reassigned {s : State} {n freed : Entry} (hs : o.valid s) (hn : o.live s n)
    (hfreed : o.live s freed) (hne : freed ≠ n) :
    o.valid (o.freeNode (o.reassignNode s freed n) freed) ∧
      (∀ m, o.live (o.freeNode (o.reassignNode s freed n) freed) m ↔ o.live s m ∧ m ≠ freed) ∧
      o.key (o.freeNode (o.reassignNode s freed n) freed) n = o.key s freed ∧
      ∀ m, m ≠ n → o.key (o.freeNode (o.reassignNode s freed n) freed) m = o.key s m := by
  obtain ⟨hv, hlive, hkey, hkeep⟩ := o.reassignNode_spec hs hfreed hn hne
  obtain ⟨hv', hlive', hkeep'⟩ := o.freeNode_spec hv ((hlive freed).mpr hfreed)
  refine ⟨hv', fun m => ?_, (hkeep' n).trans hkey, fun m hm => (hkeep' m).trans (hkeep m hm)⟩
  rw [hlive', hlive]

/-- The neighbour of the removed root in the order takes its place. -/
theorem Removed.root {s : State} {d : Datum} {n freed : Entry} {t u : AVLTree Entry}
    {res : Result} {before after before' after' : List Entry} (h : t.Valid o s)
    (hkey : o.key s n = o.datumKey d) (ht : t.entries = before ++ n :: after)
    (hu : u.entries = before' ++ n :: after')
    (hfreed : before = before' ++ [freed] ∧ after = after' ∨
      before = before' ∧ after = freed :: after')
    (hbalanced : u.Balanced)
    (hout : res = .ok ∧ u.height = t.height ∨ res = .balance ∧ u.height + 1 = t.height) :
    Removed o d s t (res, u, o.freeNode (o.reassignNode s freed n) freed) := by
  have hnodup := h.nodup
  rw [ht, List.nodup_append, List.nodup_cons] at hnodup
  obtain ⟨-, ⟨hafter, -⟩, hdisj⟩ := hnodup
  have hbefore : n ∉ before := fun hmem => hdisj n hmem n List.mem_cons_self rfl
  have hmem : freed ∈ before ∨ freed ∈ after := by
    rcases hfreed with ⟨hb, -⟩ | ⟨-, ha⟩
    · exact .inl (hb ▸ by simp)
    · exact .inr (ha ▸ by simp)
  have hne : freed ≠ n := by
    rintro rfl
    exact hmem.elim hbefore hafter
  have hlive : o.live s freed := h.live freed (ht ▸ by
    rcases hmem with hmem | hmem <;> simp [hmem])
  obtain ⟨hvalid, hlive', hkeyn, hkeep⟩ :=
    reassigned h.state (h.live n (ht ▸ by simp)) hlive hne
  set s' := o.freeNode (o.reassignNode s freed n) freed with hs'
  have hb : before.map (o.key s') = before.map (o.key s) :=
    List.map_congr_left fun m hm => hkeep m fun heq => hbefore (heq ▸ hm)
  have ha : after.map (o.key s') = after.map (o.key s) :=
    List.map_congr_left fun m hm => hkeep m fun heq => hafter (heq ▸ hm)
  have hpresent : o.datumKey d ∈ t.keys o s := by
    rw [keys, ht, ← hkey]
    exact List.mem_map_of_mem (by simp)
  refine ⟨?_, ?_, ?_, hbalanced, ?_, ?_, fun _ => ?_⟩
  · rcases hout with ⟨ho, -⟩ | ⟨ho, -⟩ <;> simp [ho, hpresent]
  · rcases hout with ⟨ho, -⟩ | ⟨ho, -⟩ <;> simp [ho]
  · exact .inr (hout.imp And.left And.left)
  · intro hr
    rcases hout with ⟨-, hh⟩ | ⟨ho, -⟩
    · exact hh
    · exact absurd ho hr
  · intro hr
    rcases hout with ⟨ho, -⟩ | ⟨-, hh⟩
    · rw [show res = .balance from hr] at ho
      cases ho
    · exact hh
  · refine ⟨freed, before.map (o.key s), after.map (o.key s), by simp [keys, ht, hkey], ?_, ?_,
      hvalid, hlive', ?_⟩
    · rcases hfreed with ⟨rfl, rfl⟩ | ⟨rfl, rfl⟩
      · rw [List.map_append, List.map_append] at hb
        simp only [keys, hu, List.map_append, List.map_cons, hkeyn, ha]
        rw [List.append_inj_left' hb rfl]
        simp
      · rw [List.map_cons] at ha
        simp only [keys, hu, List.map_append, List.map_cons, hkeyn, hb]
        rw [List.cons.inj ha |>.2]
    · rw [ht, hu]
      rcases hfreed with ⟨rfl, rfl⟩ | ⟨rfl, rfl⟩
      · simp only [List.append_assoc, List.cons_append, List.nil_append]
        exact List.perm_middle
      · exact (List.perm_middle.trans (List.Perm.cons _ List.perm_middle)).trans
          ((List.Perm.swap _ _ _).trans (List.Perm.cons _ List.perm_middle.symm))
    · intro m hm
      apply hkeep
      rintro rfl
      exact hm (ht ▸ by simp)

/-- The root of a subtree without a left child. -/
theorem removeRoot_spec {s : State} {d : Datum} {n : Entry} {right : AVLTree Entry} {skew : Skew}
    (h : (node n nil right skew).Valid o s) (hkey : o.key s n = o.datumKey d) :
    ∃ r, removeRoot o.toOwnerInfo n nil right skew s = some r ∧
      Removed o d s (node n nil right skew) r := by
  obtain ⟨hl, hr, hlive, hskew, -⟩ := h.node
  rw [removeRoot]
  cases hnil : right.isNil with
  | true =>
      cases right with
      | node => cases hnil
      | nil =>
          obtain ⟨hvalid, hlive', hkeep⟩ := o.freeNode_spec h.state hlive
          refine ⟨_, rfl, ⟨by simp [keys, hkey], nofun, .inr (.inr rfl), trivial, by simp,
            fun _ => by simp, fun _ => ?_⟩⟩
          exact ⟨n, [], [], by simp [keys, hkey], rfl, by simp, hvalid, hlive',
            fun m _ => hkeep m⟩
  | false =>
      obtain ⟨res, t', freed, hfind, hbal, hentries, hout⟩ :=
        findLowest_spec o.toOwnerInfo n s hr.balanced hnil
      obtain ⟨res', u, heq, hbal', hentries', hout'⟩ := rebalance_right (n := n)
        (o.freeNode (o.reassignNode s freed n) freed) hl.balanced hbal hskew hout
      rw [if_neg (by simp), hfind]
      exact ⟨_, heq, Removed.root h hkey rfl hentries' (.inr ⟨rfl, hentries⟩) hbal' hout'⟩

/-- `Remove` never meets a null link, and ends in one of the outcomes above. -/
theorem remove_spec {s : State} {d : Datum} {t : AVLTree Entry} (h : t.Valid o s) :
    ∃ r, remove o.toOwnerInfo d t s = some r ∧ Removed o d s t r := by
  induction t with
  | nil =>
      refine ⟨_, rfl, ?_⟩
      constructor <;> simp [keys]
  | node n left right skew ihl ihr =>
      obtain ⟨hl, hr, hlive, hskew, hlt, hgt, hnl, hnr, hdisj⟩ := h.node
      have hlt' : ∀ m ∈ left.entries, o.key s m < o.key s n :=
        fun m hm => hlt _ (List.mem_map_of_mem hm)
      have hgt' : ∀ m ∈ right.entries, o.key s n < o.key s m :=
        fun m hm => hgt _ (List.mem_map_of_mem hm)
      have hdisj' : ∀ m ∈ right.entries, m ∉ left.entries := fun m hm hm' => hdisj m hm' hm
      have hout : ∀ {u : AVLTree Entry} {r}, Removed o d s u r → r.1 ≠ .notFound →
          r.1 = .ok ∧ r.2.1.height = u.height ∨ r.1 = .balance ∧ r.2.1.height + 1 = u.height := by
        intro u r hrem hnot
        rcases hrem.result with hr | hr | hr
        · exact absurd hr hnot
        · exact .inl ⟨hr, hrem.height (by simp [hr])⟩
        · exact .inr ⟨hr, hrem.shrunk hr⟩
      rw [remove]
      by_cases hpos : 0 < o.compare s n d
      · have hkey := (o.compare_pos s n d).mp hpos
        obtain ⟨r, hremove, hrem⟩ := ihl hl
        have hafter : ∀ m ∈ n :: right.entries, o.datumKey d < o.key s m := by
          intro m hm
          rcases List.mem_cons.mp hm with rfl | hm
          · exact hkey
          · exact hkey.trans (hgt' m hm)
        have hother : ∀ m ∈ [] ++ n :: right.entries, m ∉ left.entries := by
          intro m hm
          rcases List.mem_cons.mp hm with rfl | hm
          · exact hnl
          · exact hdisj' m hm
        rw [if_pos hpos, hremove, Option.bind_some]
        by_cases hnot : r.1 = .notFound
        · obtain ⟨res, u, s'⟩ := r
          obtain ⟨rfl, rfl⟩ := Prod.mk.inj (hrem.unchanged hnot)
          subst hnot
          exact ⟨_, rfl, hrem.lift _ [] (n :: right.entries) rfl rfl hother (by simp) hafter
            (.inr ⟨rfl, rfl⟩) (fun _ => rfl) h.balanced (fun _ => rfl) nofun⟩
        · obtain ⟨res', u, heq, hbal, hentries, hout'⟩ :=
            rebalance_left (n := n) r.2.2 hrem.balanced hr.balanced hskew (hout hrem hnot)
          refine ⟨_, heq, hrem.lift u [] (n :: right.entries) rfl (by simpa using hentries) hother
            (by simp) hafter (.inl ⟨hnot, hout'.imp And.left And.left⟩)
            (fun hr => absurd hr hnot) hbal ?_ ?_⟩
          · exact fun hb => (hout'.resolve_right fun ho => hb ho.1).2
          · intro hb
            rcases hout' with ⟨ho, -⟩ | ⟨-, hh⟩
            · simp [ho] at hb
            · exact hh
      · by_cases hneg : o.compare s n d < 0
        · have hkey := (o.compare_neg s n d).mp hneg
          obtain ⟨r, hremove, hrem⟩ := ihr hr
          have hbefore : ∀ m ∈ left.entries ++ [n], o.key s m < o.datumKey d := by
            intro m hm
            rcases List.mem_append.mp hm with hm | hm
            · exact (hlt' m hm).trans hkey
            · exact List.mem_singleton.mp hm ▸ hkey
          have hother : ∀ m ∈ (left.entries ++ [n]) ++ [], m ∉ right.entries := by
            intro m hm
            rw [List.append_nil] at hm
            rcases List.mem_append.mp hm with hm | hm
            · exact hdisj m hm
            · exact List.mem_singleton.mp hm ▸ hnr
          rw [if_neg hpos, if_pos hneg, hremove, Option.bind_some]
          by_cases hnot : r.1 = .notFound
          · obtain ⟨res, u, s'⟩ := r
            obtain ⟨rfl, rfl⟩ := Prod.mk.inj (hrem.unchanged hnot)
            subst hnot
            exact ⟨_, rfl, hrem.lift _ (left.entries ++ [n]) [] (by simp) (by simp) hother hbefore
              (by simp) (.inr ⟨rfl, rfl⟩) (fun _ => rfl) h.balanced (fun _ => rfl) nofun⟩
          · obtain ⟨res', u, heq, hbal, hentries, hout'⟩ :=
              rebalance_right (n := n) r.2.2 hl.balanced hrem.balanced hskew (hout hrem hnot)
            refine ⟨_, heq, hrem.lift u (left.entries ++ [n]) [] (by simp)
              (by simpa using hentries) hother hbefore (by simp)
              (.inl ⟨hnot, hout'.imp And.left And.left⟩) (fun hr => absurd hr hnot) hbal ?_ ?_⟩
            · exact fun hb => (hout'.resolve_right fun ho => hb ho.1).2
            · intro hb
              rcases hout' with ⟨ho, -⟩ | ⟨-, hh⟩
              · simp [ho] at hb
              · exact hh
        · have hkey := o.key_eq hpos hneg
          rw [if_neg hpos, if_neg hneg]
          cases hnil : left.isNil with
          | true =>
              cases left with
              | nil => exact removeRoot_spec h hkey
              | node => cases hnil
          | false =>
              obtain ⟨res, t', freed, hfind, hbal, hentries, hout'⟩ :=
                findHighest_spec o.toOwnerInfo n s hl.balanced hnil
              obtain ⟨res', u, heq, hbal', hentries', hout''⟩ := rebalance_left (n := n)
                (o.freeNode (o.reassignNode s freed n) freed) hbal hr.balanced hskew hout'
              rw [if_neg (by simp), hfind]
              exact ⟨_, heq, Removed.root h hkey rfl hentries' (.inl ⟨hentries, rfl⟩) hbal' hout''⟩

/-- A valid tree stays valid, and has exactly the given key less. -/
theorem Removed.valid {d : Datum} {s : State} {t : AVLTree Entry}
    {r : Result × AVLTree Entry × State} (h : Removed o d s t r) (ht : t.Valid o s) :
    r.2.1.Valid o r.2.2 := by
  by_cases hsame : r.1 = .notFound
  · rw [h.unchanged hsame]
    exact ht
  · obtain ⟨freed, before, after, hold, hnew, hperm, hvalid, hlive, -⟩ := h.removed hsame
    obtain ⟨hnot, hnodup⟩ := List.nodup_cons.mp (hperm.nodup_iff.mp ht.nodup)
    refine ⟨hvalid, h.balanced, fun m hm => ?_, hnodup, ?_⟩
    · refine (hlive m).mpr ⟨ht.live m (hperm.mem_iff.mpr (by simp [hm])), ?_⟩
      rintro rfl
      exact hnot hm
    · have hsorted := ht.sorted
      rw [hold] at hsorted
      rw [hnew]
      exact hsorted.sublist ((List.sublist_cons_self _ _).append_left before)

/-! ## Runs -/

/-- A call of `Insert` with a datum that the owner can store, or of `Remove`. -/
inductive Operation (o : Owner State Entry Datum Key) where
  | insert (newDatum : { d : Datum // o.admissible d })
  | remove (oldDatum : Datum)

/-- The tree and the state of its owner after one call. -/
def step (o : Owner State Entry Datum Key) (c : AVLTree Entry × State) :
    Operation o → Option (AVLTree Entry × State)
  | .insert d => (insert o.toOwnerInfo d.val c.1 c.2).map Prod.snd
  | .remove d => (remove o.toOwnerInfo d c.1 c.2).map Prod.snd

/-- What a tree promises to the next call: its shape, and the answers of the three operations
with their effect on the keys. A call of `Insert` that is no duplicate fails only when the owner
has no entry left. -/
structure Correct (o : Owner State Entry Datum Key) (t : AVLTree Entry) (s : State) : Prop where
  searchTree : (t.keys o s).Pairwise (· < ·)
  balanced : t.Balanced
  find : ∀ d, match find o.toOwnerInfo d s t with
    | some n => n ∈ t.entries ∧ o.key s n = o.datumKey d
    | none => o.datumKey d ∉ t.keys o s
  insert : ∀ d, o.admissible d → ∃ res t' s', insert o.toOwnerInfo d t s = some (res, t', s') ∧
    (res = .duplicate ↔ o.datumKey d ∈ t.keys o s) ∧
    (res = .duplicate → (t', s') = (t, s)) ∧
    (res = .error → (t', s') = (t, s) ∧ o.newNode s d = none) ∧
    (res ≠ .duplicate → res ≠ .error →
      ∀ k, k ∈ t'.keys o s' ↔ k ∈ t.keys o s ∨ k = o.datumKey d)
  remove : ∀ d, ∃ res t' s', remove o.toOwnerInfo d t s = some (res, t', s') ∧
    (res = .notFound ↔ o.datumKey d ∉ t.keys o s) ∧
    (res = .notFound → (t', s') = (t, s)) ∧
    ∀ k, k ∈ t'.keys o s' ↔ k ∈ t.keys o s ∧ k ≠ o.datumKey d

/-- A successful `Insert` adds its key. -/
theorem Inserted.keys_iff {d : Datum} {s : State} {t : AVLTree Entry}
    {r : Result × AVLTree Entry × State} (h : Inserted o d s t r) (ht : t.Valid o s)
    (hd : o.admissible d) (hadded : r.1 = .ok ∨ r.1 = .balance) (k : Key) :
    k ∈ r.2.1.keys o r.2.2 ↔ k ∈ t.keys o s ∨ k = o.datumKey d := by
  obtain ⟨n, before, after, hnew, hentries, hentries', -⟩ := h.added hadded
  obtain ⟨-, hfresh, -, hkey, hkeep⟩ := o.newNode_spec ht.state hd hnew
  have hsame : ∀ m ∈ before ++ after, o.key r.2.2 m = o.key s m :=
    fun m hm => hkeep m fun heq => hfresh (ht.live n (hentries ▸ heq ▸ hm))
  have hbefore := List.map_congr_left fun m hm => hsame m (List.mem_append_left after hm)
  have hafter := List.map_congr_left fun m hm => hsame m (List.mem_append_right before hm)
  simp only [keys, hentries, hentries', List.map_append, List.map_cons, hbefore, hafter, hkey,
    List.mem_append, List.mem_cons]
  tauto

/-- `Remove` takes its key away, if it is there. -/
theorem Removed.keys_iff {d : Datum} {s : State} {t : AVLTree Entry}
    {r : Result × AVLTree Entry × State} (h : Removed o d s t r) (ht : t.Valid o s) (k : Key) :
    k ∈ r.2.1.keys o r.2.2 ↔ k ∈ t.keys o s ∧ k ≠ o.datumKey d := by
  by_cases hsame : r.1 = .notFound
  · rw [h.unchanged hsame]
    refine ⟨fun hk => ⟨hk, ?_⟩, And.left⟩
    rintro rfl
    exact h.notFound.mp hsame hk
  · obtain ⟨freed, before, after, hold, hnew, -⟩ := h.removed hsame
    have hnodup : (t.keys o s).Nodup := ht.sorted.imp fun hlt => hlt.ne
    rw [hold] at hnodup
    have hnot := (List.nodup_cons.mp (List.perm_middle.nodup_iff.mp hnodup)).1
    rw [hold, hnew]
    constructor
    · intro hk
      refine ⟨?_, fun heq => hnot (heq ▸ hk)⟩
      exact (List.mem_append.mp hk).elim (List.mem_append_left _)
        fun hk => List.mem_append_right _ (List.mem_cons_of_mem _ hk)
    · rintro ⟨hk, hne⟩
      rcases List.mem_append.mp hk with hk | hk
      · exact List.mem_append_left _ hk
      · exact List.mem_append_right _ ((List.mem_cons.mp hk).resolve_left hne)

theorem Valid.correct {t : AVLTree Entry} {s : State} (h : t.Valid o s) : Correct o t s := by
  refine ⟨h.sorted, h.balanced, fun d => ?_, fun d hd => ?_, fun d => ?_⟩
  · obtain ⟨hsome, hnone⟩ := find_spec d h
    cases hfind : AVLTree.find o.toOwnerInfo d s t with
    | none => exact hnone hfind
    | some n => exact hsome n hfind
  · obtain ⟨r, hr, hins⟩ := insert_spec (d := d) h
    refine ⟨r.1, r.2.1, r.2.2, hr, hins.duplicate, fun hdup => hins.unchanged (.inl hdup),
      fun herr => ⟨hins.unchanged (.inr herr), hins.error herr⟩, fun hdup herr k => ?_⟩
    refine hins.keys_iff h hd ?_ k
    have hnot := hins.notFound
    cases hres : r.1 <;> simp_all
  · obtain ⟨r, hr, hrem⟩ := remove_spec (d := d) h
    exact ⟨r.1, r.2.1, r.2.2, hr, hrem.notFound, hrem.unchanged, hrem.keys_iff h⟩

/-- One call is never stuck and keeps the tree valid. -/
theorem Valid.step {c : AVLTree Entry × State} (h : c.1.Valid o c.2) (op : Operation o) :
    ∃ c', AVLTree.step o c op = some c' ∧ c'.1.Valid o c'.2 := by
  cases op with
  | insert d =>
      obtain ⟨r, hr, hins⟩ := insert_spec (d := d.val) h
      exact ⟨r.2, by simp [AVLTree.step, hr], hins.valid h d.property⟩
  | remove d =>
      obtain ⟨r, hr, hrem⟩ := remove_spec (d := d) h
      exact ⟨r.2, by simp [AVLTree.step, hr], hrem.valid h⟩

theorem Valid.run {c : AVLTree Entry × State} (h : c.1.Valid o c.2) (ops : List (Operation o)) :
    ∃ c', TransitionSystem.run (AVLTree.step o) c ops = some c' ∧ c'.1.Valid o c'.2 := by
  induction ops generalizing c with
  | nil => exact ⟨c, rfl, h⟩
  | cons op ops ih =>
      obtain ⟨c₁, hstep, hvalid⟩ := Valid.step h op
      obtain ⟨c', hrun, hvalid'⟩ := ih hvalid
      refine ⟨c', ?_, hvalid'⟩
      rw [TransitionSystem.run_cons, hstep]
      exact hrun

theorem valid_nil {s : State} (hs : o.valid s) : (nil : AVLTree Entry).Valid o s :=
  ⟨hs, trivial, by simp, by simp, by simp [keys]⟩

/-- Every sequence of calls on an empty tree runs through, and what it leaves is correct. -/
theorem run_correct (o : Owner State Entry Datum Key) (s₀ : { s : State // o.valid s })
    (ops : List (Operation o)) :
    ∃ t s, TransitionSystem.run (AVLTree.step o) (nil, s₀.val) ops = some (t, s) ∧
      Correct o t s := by
  obtain ⟨c, hrun, hvalid⟩ := Valid.run (c := (nil, s₀.val)) (valid_nil s₀.property) ops
  exact ⟨c.1, c.2, hrun, hvalid.correct⟩

end Owner

end AVLTree

end TinyCLR
