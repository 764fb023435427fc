import TinyCLR.Library.SharedList

/-!
# Hashtable

The objects of a program that uses `System.Collections.Hashtable`: the entries, which live until
nothing refers to them and are therefore never taken away here, the tables with the heads of their
chains, and the enumerators. A chain goes from newer to older entries, and a cloned table starts
with the chains of the original.
-/

namespace TinyCLR.Collections

/-- `Equals` and `GetHashCode` of the keys, consistent with each other. -/
structure KeyType (K : Type) where
  equals : K → K → Bool
  getHashCode : K → BitVec 32
  equals_refl : ∀ k, equals k k
  equals_symm : ∀ {k l}, equals k l → equals l k
  equals_trans : ∀ {k l m}, equals k l → equals l m → equals k m
  getHashCode_eq : ∀ {k l}, equals k l → getHashCode k = getHashCode l

inductive Exn where
  | argumentNull
  | argument
  | indexOutOfRange
  | outOfRange
  | divideByZero
  deriving DecidableEq

structure Entry (K V : Type) where
  key : K
  value : V
  next : Option ℕ
  deriving DecidableEq

structure Hashtable where
  buckets : List (Option ℕ)
  numberOfBuckets : ℕ
  count : ℤ
  loadFactor : ℤ
  maxLoadFactor : ℤ
  growthFactor : ℚ
  deriving DecidableEq

def defaultCapacity : ℕ := 4

def initializeHashTable (capacity : ℕ) (maxLoadFactor : ℤ) : Hashtable :=
  { buckets := List.replicate capacity none
    numberOfBuckets := capacity
    count := 0
    loadFactor := 0
    maxLoadFactor := maxLoadFactor
    growthFactor := 2 }

/-- What an enumerator returns. -/
inductive EnumeratorType where
  | de
  | key
  | value
  deriving DecidableEq

inductive Item (K V : Type) where
  | de (key : K) (value : V)
  | key (key : K)
  | value (value : V)
  deriving DecidableEq

def EnumeratorType.current {K V : Type} (key : K) (value : V) : EnumeratorType → Item K V
  | .de => .de key value
  | .key => .key key
  | .value => .value value

structure Enumerator where
  ht : ℕ
  temp : Option ℕ
  index : ℤ
  returnType : EnumeratorType
  deriving DecidableEq

section Operations

variable {K V : Type} (keys : KeyType K)

def hash (key : K) (numOfBuckets : ℕ) : ℤ :=
  let hashcode := keys.getHashCode key
  let hashcode := if hashcode.slt 0 then hashcode * (-1) else hashcode
  hashcode.toInt.tmod numOfBuckets

/-- The bucket that is looked at, if the array has it. -/
def whichBucket (key : K) (buckets : List (Option ℕ)) (numOfBuckets : ℕ) : Except Exn ℕ :=
  if numOfBuckets = 0 then .error .divideByZero
  else if hash keys key numOfBuckets < 0 ∨ buckets.length ≤ hash keys key numOfBuckets then
    .error .indexOutOfRange
  else .ok (hash keys key numOfBuckets).toNat

/-- The loop over a chain, of `n` turns at most. -/
def entryForKey (heap : List (Entry K V)) (key : K) : ℕ → Option ℕ → Option ℕ
  | 0, _ => none
  | _ + 1, none => none
  | n + 1, some cur =>
      match heap[cur]? with
      | none => none
      | some e => if keys.equals e.key key then some cur else entryForKey heap key n e.next

def setValue (heap : List (Entry K V)) (p : ℕ) (value : V) : List (Entry K V) :=
  heap.modify p fun e => { e with value := value }

def setNext (heap : List (Entry K V)) (p : ℕ) (next : Option ℕ) : List (Entry K V) :=
  heap.modify p fun e => { e with next := next }

/-- The private `Add`, into buckets that need not be those of the table yet. -/
def addEntry (heap : List (Entry K V)) (ht : Hashtable) (buckets : List (Option ℕ)) (key : K)
    (value : V) (overwrite : Bool) :
    Except Exn (List (Entry K V) × Hashtable × List (Option ℕ)) :=
  match whichBucket keys key buckets ht.numberOfBuckets with
  | .error x => .error x
  | .ok whichBucket =>
      match entryForKey keys heap key heap.length (buckets.getD whichBucket none) with
      | some found =>
          if overwrite then .ok (setValue heap found value, ht, buckets) else .error .argument
      | none =>
          .ok (heap ++ [{ key := key, value := value, next := buckets.getD whichBucket none }],
            { ht with
              count := ht.count + 1
              loadFactor := (ht.count + 1).tdiv ht.numberOfBuckets },
            buckets.set whichBucket (some heap.length))

/-- The entries of the buckets, chain after chain. -/
def cells (heap : List (Entry K V)) (buckets : List (Option ℕ)) : List ℕ :=
  buckets.flatMap (SharedList.walk Entry.next heap)

/-- The entries are added to the new buckets one by one, until one cannot be added. -/
def reinsert (heap : List (Entry K V)) (ht : Hashtable) (buckets : List (Option ℕ)) :
    List ℕ → (List (Entry K V) × Hashtable × List (Option ℕ)) × Option Exn
  | [] => ((heap, ht, buckets), none)
  | cur :: rest =>
      match heap[cur]? with
      | none => reinsert heap ht buckets rest
      | some e =>
          match addEntry keys heap ht buckets e.key e.value false with
          | .error x => ((heap, ht, buckets), some x)
          | .ok (heap, ht, buckets) => reinsert heap ht buckets rest

/-- The table has its new number of buckets from the start, the new buckets only at the end. -/
def rehash (heap : List (Entry K V)) (ht : Hashtable) (newSize : ℤ) :
    (List (Entry K V) × Hashtable) × Option Exn :=
  if newSize < 0 then ((heap, ht), some .outOfRange)
  else
    match reinsert keys heap { ht with numberOfBuckets := newSize.toNat, count := 0 }
        (List.replicate newSize.toNat none) (cells heap ht.buckets) with
    | ((heap, ht, buckets), none) => ((heap, { ht with buckets := buckets }), none)
    | ((heap, ht, _), some x) => ((heap, ht), some x)

/-- What `Add` and the setter of the indexer do; `scaled` is the conversion to `int` of the
product of a number of buckets and a growth factor. -/
def store (scaled : ℕ → ℚ → ℤ) (heap : List (Entry K V)) (ht : Hashtable) (key : K) (value : V)
    (overwrite : Bool) : (List (Entry K V) × Hashtable) × Option Exn :=
  match addEntry keys heap ht ht.buckets key value overwrite with
  | .error x => ((heap, ht), some x)
  | .ok (heap, ht, buckets) =>
      if ht.maxLoadFactor ≤ ht.loadFactor then
        rehash keys heap { ht with buckets := buckets } (scaled ht.numberOfBuckets ht.growthFactor)
      else ((heap, { ht with buckets := buckets }), none)

/-- The entry of a key, for the getter, `Contains` and `Remove`. -/
def lookup (heap : List (Entry K V)) (ht : Hashtable) (key : K) : Except Exn (Option ℕ) :=
  (whichBucket keys key ht.buckets ht.numberOfBuckets).map fun i =>
    entryForKey keys heap key heap.length (ht.buckets.getD i none)

def clear (ht : Hashtable) : Hashtable :=
  { ht with
    buckets := List.replicate defaultCapacity none
    numberOfBuckets := defaultCapacity
    loadFactor := 0
    count := 0 }

/-- The first entry of a chain that `found` comes after. -/
def precedes (heap : List (Entry K V)) (found : ℕ) : ℕ → Option ℕ → Option ℕ
  | 0, _ => none
  | _ + 1, none => none
  | n + 1, some cur =>
      match heap[cur]? with
      | none => none
      | some e => if e.next = some found then some cur else precedes heap found n e.next

def remove (heap : List (Entry K V)) (ht : Hashtable) (key : K) :
    Except Exn (List (Entry K V) × Hashtable) :=
  match whichBucket keys key ht.buckets ht.numberOfBuckets with
  | .error x => .error x
  | .ok whichBucket =>
      let head := ht.buckets.getD whichBucket none
      match entryForKey keys heap key heap.length head with
      | none => .ok (heap, ht)
      | some found =>
          let after := (heap[found]?).bind Entry.next
          if head = some found then
            .ok (heap, { ht with
              buckets := ht.buckets.set whichBucket after
              count := ht.count - 1 })
          else
            match precedes heap found heap.length head with
            | none => .ok (heap, ht)
            | some cur => .ok (setNext heap cur after, { ht with count := ht.count - 1 })

/-- The heads of the chains are copied. The constructor of the new table sets the growth factor,
which is not copied. -/
def clone (ht : Hashtable) : Except Exn Hashtable :=
  if ht.buckets.length < ht.numberOfBuckets then .error .outOfRange
  else .ok { initializeHashTable ht.numberOfBuckets ht.maxLoadFactor with
    count := ht.count
    loadFactor := ht.loadFactor
    buckets := ht.buckets.take ht.numberOfBuckets }

/-- One chain into the array, from element `j` on, as far as the array goes. -/
def copyChain (heap : List (Entry K V)) (type : EnumeratorType) :
    ℕ → Option ℕ → ℕ × List (Option (Item K V)) → ℕ × List (Option (Item K V))
  | 0, _, a => a
  | _ + 1, none, a => a
  | n + 1, some cur, (j, array) =>
      match heap[cur]? with
      | none => (j, array)
      | some e =>
          if j < array.length then
            copyChain heap type n e.next
              (j + 1, array.set j (some (type.current e.key e.value)))
          else (j, array)

/-- The buckets from `i` on, `n` of them. -/
def copyBuckets (heap : List (Entry K V)) (buckets : List (Option ℕ)) (type : EnumeratorType) :
    ℕ → ℕ → ℕ × List (Option (Item K V)) → Except Exn (ℕ × List (Option (Item K V)))
  | 0, _, a => .ok a
  | n + 1, i, a =>
      match buckets[i]? with
      | none => .error .indexOutOfRange
      | some head =>
          copyBuckets heap buckets type n (i + 1) (copyChain heap type heap.length head a)

/-- `CopyTo` of the table for whole entries, and of its `Keys` and `Values`. The index, which
ought to say where in the array to begin, says with which bucket. -/
def copyTo (heap : List (Entry K V)) (ht : Hashtable) (type : EnumeratorType)
    (array : List (Option (Item K V))) (index : ℤ) : Except Exn (List (Option (Item K V))) :=
  let bound : ℕ := if type = .de then ht.buckets.length else ht.numberOfBuckets
  if index < 0 then .error .indexOutOfRange
  else (copyBuckets heap ht.buckets type (bound - index.toNat) index.toNat (0, array)).map Prod.snd

/-- From `startLoop` on without an entry, through `n` buckets at most. -/
def nextBucket (ht : Hashtable) : ℕ → ℤ → Except Exn (ℤ × Option ℕ)
  | 0, index => .ok (index, none)
  | n + 1, index =>
      if index + 1 < ht.numberOfBuckets then
        match ht.buckets[(index + 1).toNat]? with
        | none => .error .indexOutOfRange
        | some none => nextBucket ht n (index + 1)
        | some (some p) => .ok (index + 1, some p)
      else .ok (index + 1, none)

def moveNext (heap : List (Entry K V)) (ht : Hashtable) (e : Enumerator) :
    Except Exn (Bool × Enumerator) :=
  match e.temp.bind fun p => (heap[p]?).bind Entry.next with
  | some p => .ok (true, { e with temp := some p })
  | none =>
      (nextBucket ht (ht.numberOfBuckets + 1) e.index).map fun r =>
        (r.2.isSome, { e with index := r.1, temp := r.2 })

/-- `MoveNext` and `Current` in turn, until there is nothing more. -/
def enumerate (heap : List (Entry K V)) (ht : Hashtable) :
    ℕ → Enumerator → Except Exn (List (Item K V) × Enumerator)
  | 0, e => .ok ([], e)
  | n + 1, e =>
      match moveNext heap ht e with
      | .error x => .error x
      | .ok (false, e) => .ok ([], e)
      | .ok (true, e) =>
          match e.temp.bind fun p => heap[p]? with
          | none => .ok ([], e)
          | some cur =>
              (enumerate heap ht n e).map fun r =>
                (e.returnType.current cur.key cur.value :: r.1, r.2)

/-- The entry at which the enumerator stands stays. -/
def Enumerator.reset (e : Enumerator) : Enumerator := { e with index := -1 }

end Operations

/-! ## The calls of a program -/

structure System (K V : Type) where
  heap : List (Entry K V)
  tables : List Hashtable
  enumerators : List Enumerator

def System.empty (K V : Type) : System K V := { heap := [], tables := [], enumerators := [] }

/-- The calls, on the table or the enumerator with the given number. A key may be null. -/
inductive Op (K V : Type) where
  | create (capacity maxLoadFactor : ℤ)
  | setMaxLoadFactor (t : ℕ) (factor : ℤ)
  | setGrowthFactor (t : ℕ) (factor : ℚ)
  | add (t : ℕ) (key : Option K) (value : V)
  | setItem (t : ℕ) (key : Option K) (value : V)
  | getItem (t : ℕ) (key : Option K)
  | contains (t : ℕ) (key : Option K)
  | remove (t : ℕ) (key : Option K)
  | clear (t : ℕ)
  | count (t : ℕ)
  | clone (t : ℕ)
  | copyTo (t : ℕ) (type : EnumeratorType) (array : List (Option (Item K V))) (index : ℤ)
  | getEnumerator (t : ℕ) (type : EnumeratorType)
  | moveNext (e : ℕ)
  | enumerate (e : ℕ)
  | reset (e : ℕ)

inductive Answer (K V : Type) where
  | done
  | value (value : Option V)
  | flag (flag : Bool)
  | count (count : ℤ)
  | created (number : ℕ)
  | array (array : List (Option (Item K V)))
  | items (items : List (Item K V))
  deriving DecidableEq

section Exec

variable {K V : Type} (keys : KeyType K) (scaled : ℕ → ℚ → ℤ)

namespace System

def setTable (s : System K V) (t : ℕ) (ht : Hashtable) : System K V :=
  { s with tables := s.tables.set t ht }

/-- The state after a call that may change the entries and one table. -/
def stored (s : System K V) (t : ℕ) (r : (List (Entry K V) × Hashtable) × Option Exn) :
    Except Exn (Answer K V) × System K V :=
  (match r.2 with | none => .ok .done | some x => .error x,
    { s with heap := r.1.1, tables := s.tables.set t r.1.2 })

/-- A call with a key: the null key is refused first. -/
def keyed (s : System K V) (key : Option K) (f : K → Except Exn (Answer K V) × System K V) :
    Except Exn (Answer K V) × System K V :=
  match key with
  | none => (.error .argumentNull, s)
  | some key => f key

def enumerated (s : System K V) (e : ℕ) (r : Except Exn (Answer K V × Enumerator)) :
    Except Exn (Answer K V) × System K V :=
  match r with
  | .error x => (.error x, s)
  | .ok (a, en) => (.ok a, { s with enumerators := s.enumerators.set e en })

/-- The value of the entry that was found, null without one. -/
def valueAt (s : System K V) (found : Option ℕ) : Option V :=
  (found.bind fun p => s.heap[p]?).map Entry.value

end System

/-- One call, what it answers and the state after it; `none` where the object does not exist. -/
def exec (s : System K V) : Op K V → Option (Except Exn (Answer K V) × System K V)
  | .create capacity maxLoadFactor =>
      if capacity < 0 then some (.error .outOfRange, s)
      else some (.ok (.created s.tables.length),
        { s with tables := s.tables ++ [initializeHashTable capacity.toNat maxLoadFactor] })
  | .setMaxLoadFactor t factor =>
      s.tables[t]?.map fun ht => (.ok .done, s.setTable t { ht with maxLoadFactor := factor })
  | .setGrowthFactor t factor =>
      s.tables[t]?.map fun ht => (.ok .done, s.setTable t { ht with growthFactor := factor })
  | .add t key value =>
      s.tables[t]?.map fun ht => s.keyed key fun key =>
        s.stored t (store keys scaled s.heap ht key value false)
  | .setItem t key value =>
      s.tables[t]?.map fun ht => s.keyed key fun key =>
        s.stored t (store keys scaled s.heap ht key value true)
  | .getItem t key =>
      s.tables[t]?.map fun ht => s.keyed key fun key =>
        ((lookup keys s.heap ht key).map fun found => .value (s.valueAt found), s)
  | .contains t key =>
      s.tables[t]?.map fun ht => s.keyed key fun key =>
        ((lookup keys s.heap ht key).map fun found => .flag found.isSome, s)
  | .remove t key =>
      s.tables[t]?.map fun ht => s.keyed key fun key =>
        match remove keys s.heap ht key with
        | .error x => (.error x, s)
        | .ok r => s.stored t (r, none)
  | .clear t => s.tables[t]?.map fun ht => (.ok .done, s.setTable t (clear ht))
  | .count t => s.tables[t]?.map fun ht => (.ok (.count ht.count), s)
  | .clone t =>
      s.tables[t]?.map fun ht =>
        match clone ht with
        | .error x => (.error x, s)
        | .ok copy => (.ok (.created s.tables.length), { s with tables := s.tables ++ [copy] })
  | .copyTo t type array index =>
      s.tables[t]?.map fun ht => ((copyTo s.heap ht type array index).map .array, s)
  | .getEnumerator t type =>
      s.tables[t]?.map fun _ =>
        (.ok (.created s.enumerators.length),
          { s with enumerators := s.enumerators ++
            [{ ht := t, temp := none, index := -1, returnType := type }] })
  | .moveNext e =>
      s.enumerators[e]?.bind fun en => s.tables[en.ht]?.map fun ht =>
        s.enumerated e ((moveNext s.heap ht en).map fun r => (.flag r.1, r.2))
  | .enumerate e =>
      s.enumerators[e]?.bind fun en => s.tables[en.ht]?.map fun ht =>
        s.enumerated e ((enumerate s.heap ht (2 * s.heap.length + 1) en).map fun r =>
          (.items r.1, r.2))
  | .reset e =>
      s.enumerators[e]?.map fun en =>
        (.ok .done, { s with enumerators := s.enumerators.set e en.reset })

/-- The state after a call. -/
def step (s : System K V) (op : Op K V) : Option (System K V) :=
  (exec keys scaled s op).map Prod.snd

end Exec

end TinyCLR.Collections
