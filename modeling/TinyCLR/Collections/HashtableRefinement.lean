import TinyCLR.Collections.HashtableChains
import TinyCLR.Library.TransitionSystem

/-!
# Hash tables as finite maps

The calls of a program on any number of tables, clones among them, and on their enumerators, beside
the same calls on finite maps. The answers agree as long as no bucket has a negative number, no
entry that a clone shares is written to, the buckets grow to a number of `int` and no enumerator is
reset in the middle of a chain.
-/

namespace TinyCLR.Collections

open SharedList TransitionSystem

variable {K V : Type} {keys : KeyType K} {heap heap' : List (Entry K V)} {ht : Hashtable}
  {es : List (K × V)} {type : EnumeratorType}

/-! ## Enumeration -/

/-- The entries at some positions, as an enumerator or `CopyTo` gives them. -/
def items (type : EnumeratorType) (l : List (K × V)) : List (Item K V) :=
  l.map fun a => type.current a.1 a.2

/-- The entry that follows the one at which an enumerator stands. -/
def follower (heap : List (Entry K V)) (temp : Option ℕ) : Option ℕ :=
  temp.bind fun p => (heap[p]?).bind Entry.next

/-- What an enumerator has still to visit. -/
def upcoming (heap : List (Entry K V)) (ht : Hashtable) (e : Enumerator) : List ℕ :=
  chain heap (follower heap e.temp) ++ cells heap (ht.buckets.drop (e.index + 1).toNat)

theorem nextBucket_spec {n : ℕ} (index : ℤ) (hd : Chained heap)
    (hlen : ht.buckets.length = ht.numberOfBuckets)
    (hvalid : ∀ b ∈ ht.buckets, ∀ p ∈ b, p < heap.length) (hindex : -1 ≤ index)
    (hn : ht.numberOfBuckets ≤ index + n) :
    ∃ index', nextBucket ht n index =
        .ok (index', (cells heap (ht.buckets.drop (index + 1).toNat)).head?) ∧ -1 ≤ index' ∧
      chain heap (follower heap (cells heap (ht.buckets.drop (index + 1).toNat)).head?) ++
        cells heap (ht.buckets.drop (index' + 1).toNat) =
          (cells heap (ht.buckets.drop (index + 1).toNat)).tail := by
  induction n generalizing index with
  | zero =>
      have hdrop : ht.buckets.drop (index + 1).toNat = [] := by
        apply List.drop_eq_nil_of_le
        omega
      refine ⟨index, ?_, hindex, ?_⟩
      · rw [nextBucket, hdrop]
        rfl
      · rw [hdrop]
        show chain heap none ++ [] = []
        rw [chain, walk_none, List.nil_append]
  | succ n ih =>
      rw [nextBucket]
      by_cases hlt : index + 1 < ht.numberOfBuckets
      · have hi : (index + 1).toNat < ht.buckets.length := by omega
        have hsucc : (index + 1 + 1).toNat = (index + 1).toNat + 1 := by omega
        rw [if_pos hlt, List.getElem?_eq_getElem hi]
        have hdrop := List.drop_eq_getElem_cons hi
        have hmem : ht.buckets[(index + 1).toNat] ∈ ht.buckets := List.getElem_mem hi
        rw [hdrop, cells_cons]
        cases hb : ht.buckets[(index + 1).toNat] with
        | none =>
            obtain ⟨index', hrun, hge, htail⟩ := ih (index + 1) (by omega) (by omega)
            rw [hsucc] at hrun htail
            rw [chain, walk_none, List.nil_append]
            exact ⟨index', hrun, hge, htail⟩
        | some p =>
            have hp : p < heap.length := hvalid _ hmem p hb
            have hc : heap[p]? = some heap[p] := List.getElem?_eq_getElem hp
            have hchain : chain heap (some p) = p :: chain heap (heap[p]).next := walk_some hd hc
            rw [hchain, List.cons_append, List.head?_cons, List.tail_cons, follower,
              Option.bind_some, hc, Option.bind_some]
            exact ⟨index + 1, rfl, by omega, by rw [hsucc]⟩
      · have hdrop : ht.buckets.drop (index + 1).toNat = [] := by
          apply List.drop_eq_nil_of_le
          omega
        have hdrop' : ht.buckets.drop (index + 1 + 1).toNat = [] := by
          apply List.drop_eq_nil_of_le
          omega
        rw [if_neg hlt]
        refine ⟨index + 1, ?_, by omega, ?_⟩
        · rw [hdrop]
          rfl
        · rw [hdrop, hdrop']
          show chain heap none ++ [] = []
          rw [chain, walk_none, List.nil_append]

/-- Each call moves on to the next entry. -/
theorem moveNext_spec {e : Enumerator} (hd : Chained heap)
    (hlen : ht.buckets.length = ht.numberOfBuckets)
    (hvalid : ∀ b ∈ ht.buckets, ∀ p ∈ b, p < heap.length) (hindex : -1 ≤ e.index) :
    ∃ e', moveNext heap ht e = .ok (!(upcoming heap ht e).isEmpty, e') ∧ e'.ht = e.ht ∧
      e'.returnType = e.returnType ∧ -1 ≤ e'.index ∧ e'.temp = (upcoming heap ht e).head? ∧
      upcoming heap ht e' = (upcoming heap ht e).tail := by
  rw [moveNext]
  cases hf : follower heap e.temp with
  | some p =>
      have hp : p < heap.length := by
        obtain ⟨q, -, hq⟩ := Option.bind_eq_some_iff.mp hf
        obtain ⟨c, hc, hnext⟩ := Option.bind_eq_some_iff.mp hq
        exact (hd.lt hc hnext).trans (lt_of_getElem? hc)
      have hc : heap[p]? = some heap[p] := List.getElem?_eq_getElem hp
      have hup : upcoming heap ht e = p :: (chain heap (heap[p]).next ++
          cells heap (ht.buckets.drop (e.index + 1).toNat)) := by
        rw [upcoming, hf, chain, walk_some hd hc, List.cons_append]
      rw [hup]
      rw [follower] at hf
      rw [hf]
      refine ⟨{ e with temp := some p }, rfl, rfl, rfl, hindex, rfl, ?_⟩
      rw [upcoming, follower, Option.bind_some, hc, Option.bind_some, List.tail_cons]
  | none =>
      obtain ⟨index', hrun, hge, htail⟩ := nextBucket_spec (n := ht.numberOfBuckets + 1)
        e.index hd hlen hvalid hindex (by omega)
      have hup : upcoming heap ht e = cells heap (ht.buckets.drop (e.index + 1).toNat) := by
        rw [upcoming, hf, chain, walk_none, List.nil_append]
      rw [hup]
      rw [follower] at hf
      rw [hf]
      dsimp only
      rw [hrun]
      refine ⟨{ e with
        index := index'
        temp := (cells heap (ht.buckets.drop (e.index + 1).toNat)).head? }, ?_, rfl, rfl, hge, rfl,
        htail⟩
      rw [Except.map]
      cases cells heap (ht.buckets.drop (e.index + 1).toNat) with
      | nil => rfl
      | cons p rest => rfl

/-- An enumerator that has room to end visits all that is upcoming. -/
theorem enumerate_spec {n : ℕ} {e : Enumerator} (hd : Chained heap)
    (hlen : ht.buckets.length = ht.numberOfBuckets)
    (hvalid : ∀ b ∈ ht.buckets, ∀ p ∈ b, p < heap.length) (hindex : -1 ≤ e.index)
    (hn : (upcoming heap ht e).length < n) :
    ∃ e', enumerate heap ht n e =
        .ok (items e.returnType (contents heap (upcoming heap ht e)), e') ∧ e'.ht = e.ht ∧
      e'.returnType = e.returnType ∧ -1 ≤ e'.index ∧ e'.temp = none := by
  induction n generalizing e with
  | zero => omega
  | succ n ih =>
      obtain ⟨e₁, hmove, hht, htype, hge, htemp, htail⟩ :=
        moveNext_spec hd hlen hvalid hindex (e := e)
      rw [enumerate, hmove]
      cases hup : upcoming heap ht e with
      | nil =>
          rw [hup] at htemp
          exact ⟨e₁, rfl, hht, htype, hge, htemp⟩
      | cons p rest =>
          rw [hup] at htemp htail hn
          have hp : p < heap.length := by
            have hmem : p ∈ upcoming heap ht e := by
              rw [hup]
              exact List.mem_cons_self
            rw [upcoming, List.mem_append] at hmem
            cases hmem with
            | inl h => exact lt_of_mem_walk hd h
            | inr h =>
                obtain ⟨c, hc⟩ := exists_entry hd h
                exact lt_of_getElem? hc
          have hc : heap[p]? = some heap[p] := List.getElem?_eq_getElem hp
          rw [List.tail_cons] at htail
          obtain ⟨e₂, hrun, hht₂, htype₂, hge₂, htemp₂⟩ := ih (e := e₁) hge (by
            rw [htail]
            rw [List.length_cons] at hn
            omega)
          refine ⟨e₂, ?_, hht₂.trans hht, htype₂.trans htype, hge₂, htemp₂⟩
          simp only [List.isEmpty_cons, Bool.not_false, htemp, List.head?_cons, Option.bind_some,
            hc, hrun]
          rw [Except.map, htail, htype, contents, contents, List.filterMap_cons, hc]
          rfl

/-! ## CopyTo -/

theorem copyChain_spec {m : ℕ} {head : Option ℕ} (done rest : List (Option (Item K V))) :
    copyChain heap type m head (done.length, done ++ rest) =
      (let its := (items type (contents heap (walkFrom Entry.next heap m head))).map some
       ((done ++ its.take rest.length).length,
        (done ++ its.take rest.length) ++ rest.drop its.length)) := by
  induction m generalizing head done rest with
  | zero => simp [copyChain, walkFrom, contents, items]
  | succ m ih =>
      cases head with
      | none => simp [copyChain, walkFrom, contents, items]
      | some p =>
          rw [copyChain, walkFrom]
          cases hc : heap[p]? with
          | none => simp [contents, items]
          | some e =>
              cases rest with
              | nil => simp
              | cons r rest =>
                  have hset : (done ++ r :: rest).set done.length
                      (some (type.current e.key e.value)) =
                        (done ++ [some (type.current e.key e.value)]) ++ rest := by
                    rw [List.set_append_right _ _ le_rfl, Nat.sub_self, List.set_cons_zero,
                      List.append_assoc]
                    rfl
                  have hlen : done.length + 1 =
                      (done ++ [some (type.current e.key e.value)]).length := by
                    rw [List.length_append, List.length_singleton]
                  dsimp only
                  rw [if_pos (by simp), hset, hlen, ih]
                  simp [contents, items, hc]

variable (heap type) in
theorem copyBuckets_spec {buckets : List (Option ℕ)} {n i : ℕ} (hn : i + n = buckets.length)
    (done rest : List (Option (Item K V))) :
    copyBuckets heap buckets type n i (done.length, done ++ rest) =
      (let its := (items type (contents heap (cells heap (buckets.drop i)))).map some
       .ok ((done ++ its.take rest.length).length,
        (done ++ its.take rest.length) ++ rest.drop its.length)) := by
  induction n generalizing i done rest with
  | zero =>
      rw [copyBuckets, List.drop_eq_nil_of_le (by omega)]
      simp [cells, contents, items]
  | succ n ih =>
      have hi : i < buckets.length := by omega
      rw [copyBuckets, List.getElem?_eq_getElem hi, List.drop_eq_getElem_cons hi, cells_cons]
      dsimp only
      rw [copyChain_spec, ih (by omega)]
      simp only [contents_append, items, List.map_append, List.length_append, List.length_map,
        List.take_append, List.length_drop, List.drop_drop, List.append_assoc, walk]

variable (type) in
theorem copyTo_spec {n : ℕ} {count : ℤ} (hs : Shows keys heap ht.buckets n count es)
    (hn : n = ht.numberOfBuckets) (array : List (Option (Item K V))) :
    ∃ l, l.Perm es ∧ copyTo heap ht type array 0 =
      .ok (((items type l).map some).take array.length ++ array.drop l.length) := by
  refine ⟨_, hs.perm, ?_⟩
  have hbound : (if type = .de then ht.buckets.length else ht.numberOfBuckets) =
      ht.buckets.length := by
    rw [hs.length_eq, hn]
    split <;> rfl
  have hspec := copyBuckets_spec heap type
    (show 0 + ht.buckets.length = ht.buckets.length by omega) [] array
  rw [copyTo, if_neg (by omega), hbound]
  rw [List.length_nil, List.nil_append, List.drop_zero] at hspec
  rw [show ((0 : ℤ).toNat) = 0 from rfl, Nat.sub_zero, hspec]
  simp [Except.map, items]

/-! ## The calls on finite maps -/

structure MapEnumerator where
  table : ℕ
  type : EnumeratorType
  fresh : Bool
  deriving DecidableEq

/-- Maps in place of the tables, and enumerators that are at their start or not. -/
structure MapSystem (K V : Type) where
  tables : List (List (K × V))
  enumerators : List MapEnumerator

def MapSystem.empty (K V : Type) : MapSystem K V := { tables := [], enumerators := [] }

namespace MapSystem

variable (keys)

def entries (m : MapSystem K V) (t : ℕ) : List (K × V) := m.tables.getD t []

def modify (m : MapSystem K V) (t : ℕ) (f : List (K × V) → List (K × V)) : MapSystem K V :=
  { m with tables := m.tables.modify t f }

def freshen (m : MapSystem K V) (e : ℕ) (fresh : Bool) : MapSystem K V :=
  { m with enumerators := m.enumerators.modify e fun en => { en with fresh := fresh } }

/-- The maps after a call. -/
def next (m : MapSystem K V) : Op K V → MapSystem K V
  | .create _ _ => { m with tables := m.tables ++ [[]] }
  | .add t (some key) value =>
      m.modify t fun es => if (find keys es key).isSome then es else (key, value) :: es
  | .setItem t (some key) value =>
      m.modify t fun es =>
        if (find keys es key).isSome then replace keys es key value else (key, value) :: es
  | .remove t (some key) => m.modify t fun es => erase keys es key
  | .clear t => m.modify t fun _ => []
  | .clone t => { m with tables := m.tables ++ [m.entries t] }
  | .getEnumerator t type =>
      { m with enumerators := m.enumerators ++ [{ table := t, type := type, fresh := true }] }
  | .moveNext e => m.freshen e false
  | .enumerate e => m.freshen e false
  | .reset e => m.freshen e true
  | _ => m

/-- What maps answer. The order in which entries are visited is left open, and so is what an
enumerator visits that has gone on from its start. -/
def Answered (m : MapSystem K V) : Op K V → Except Exn (Answer K V) → Prop
  | .create _ _, a => a = .ok (.created m.tables.length)
  | .setMaxLoadFactor _ _, a => a = .ok .done
  | .setGrowthFactor _ _, a => a = .ok .done
  | .add _ none _, a => a = .error .argumentNull
  | .add t (some key) _, a =>
      a = if (find keys (m.entries t) key).isSome then .error .argument else .ok .done
  | .setItem _ none _, a => a = .error .argumentNull
  | .setItem _ (some _) _, a => a = .ok .done
  | .getItem _ none, a => a = .error .argumentNull
  | .getItem t (some key), a => a = .ok (.value (find keys (m.entries t) key))
  | .contains _ none, a => a = .error .argumentNull
  | .contains t (some key), a => a = .ok (.flag (find keys (m.entries t) key).isSome)
  | .remove _ none, a => a = .error .argumentNull
  | .remove _ (some _), a => a = .ok .done
  | .clear _, a => a = .ok .done
  | .count t, a => a = .ok (.count (m.entries t).length)
  | .clone _, a => a = .ok (.created m.tables.length)
  | .copyTo t type array index, a => index = 0 →
      ∃ l, l.Perm (m.entries t) ∧
        a = .ok (.array (((items type l).map some).take array.length ++ array.drop l.length))
  | .getEnumerator _ _, a => a = .ok (.created m.enumerators.length)
  | .moveNext e, a => ∃ flag, a = .ok (.flag flag) ∧
      ∀ en ∈ m.enumerators[e]?, en.fresh → flag = !(m.entries en.table).isEmpty
  | .enumerate e, a => ∃ its, a = .ok (.items its) ∧
      ∀ en ∈ m.enumerators[e]?, en.fresh →
        ∃ l, l.Perm (m.entries en.table) ∧ its = items en.type l
  | .reset _, a => a = .ok .done

end MapSystem

/-- From call to call, the program is answered as maps answer. -/
def Follows (keys : KeyType K) (scaled : ℕ → ℚ → ℤ) (s : System K V) (m : MapSystem K V) :
    List (Op K V) → Prop
  | [] => True
  | op :: ops => ∀ a s', exec keys scaled s op = some (a, s') →
      m.Answered keys op a ∧ Follows keys scaled s' (m.next keys op) ops

/-! ## What the calls have to meet -/

section Conditions

variable (keys) (scaled : ℕ → ℚ → ℤ)

/-- The entry of a key in a table. -/
def found (s : System K V) (ht : Hashtable) (key : K) : Option ℕ :=
  entryForKey keys s.heap key s.heap.length
    (ht.buckets.getD (hash keys key ht.numberOfBuckets).toNat none)

/-- An entry on the chains of another table. -/
def Shared (s : System K V) (t p : ℕ) : Prop :=
  ∃ ht ∈ s.tables.eraseIdx t, p ∈ cells s.heap ht.buckets

/-- With the key and its own entries, the table can grow. -/
def CanGrow (s : System K V) (ht : Hashtable) (key : K) : Prop :=
  0 < scaled ht.numberOfBuckets ht.growthFactor ∧
  0 ≤ hash keys key (scaled ht.numberOfBuckets ht.growthFactor).toNat ∧
  ∀ p ∈ cells s.heap ht.buckets, ∀ e ∈ s.heap[p]?,
    0 ≤ hash keys e.key (scaled ht.numberOfBuckets ht.growthFactor).toNat

/-- No bucket with a negative number, no write to an entry that another table has, growth to a
number of `int`, and no reset of an enumerator in the middle of a chain. -/
def Meets (s : System K V) : Op K V → Prop
  | .create capacity _ => 1 ≤ capacity
  | .add t key _ => ∀ k ∈ key, ∀ ht ∈ s.tables[t]?, 0 ≤ hash keys k ht.numberOfBuckets ∧
      (found keys s ht k = none → ht.maxLoadFactor ≤ (ht.count + 1).tdiv ht.numberOfBuckets →
        CanGrow keys scaled s ht k)
  | .setItem t key value => ∀ k ∈ key, ∀ ht ∈ s.tables[t]?,
      0 ≤ hash keys k ht.numberOfBuckets ∧
      (found keys s ht k = none → ht.maxLoadFactor ≤ (ht.count + 1).tdiv ht.numberOfBuckets →
        CanGrow keys scaled s ht k) ∧
      (found keys s ht k ≠ none → ht.maxLoadFactor ≤ ht.loadFactor → CanGrow keys scaled s ht k) ∧
      ∀ p ∈ found keys s ht k, ∀ e ∈ s.heap[p]?, e.value ≠ value → ¬ Shared s t p
  | .getItem t key => ∀ k ∈ key, ∀ ht ∈ s.tables[t]?, 0 ≤ hash keys k ht.numberOfBuckets
  | .contains t key => ∀ k ∈ key, ∀ ht ∈ s.tables[t]?, 0 ≤ hash keys k ht.numberOfBuckets
  | .remove t key => ∀ k ∈ key, ∀ ht ∈ s.tables[t]?, 0 ≤ hash keys k ht.numberOfBuckets ∧
      ∀ p ∈ found keys s ht k, ∀ q ∈ cells s.heap ht.buckets, follower s.heap (some q) = some p →
        ¬ Shared s t q
  | .reset e => ∀ en ∈ s.enumerators[e]?, follower s.heap en.temp = none
  | _ => True

instance [DecidableEq V] (s : System K V) : (op : Op K V) → Decidable (Meets keys scaled s op)
  | .create capacity _ => inferInstanceAs (Decidable (1 ≤ capacity))
  | .add t key _ => by unfold Meets CanGrow; infer_instance
  | .setItem t key value => by unfold Meets CanGrow Shared; infer_instance
  | .getItem t key => by unfold Meets; infer_instance
  | .contains t key => by unfold Meets; infer_instance
  | .remove t key => by unfold Meets Shared; infer_instance
  | .reset e => by unfold Meets; infer_instance
  | .setMaxLoadFactor _ _ => .isTrue trivial
  | .setGrowthFactor _ _ => .isTrue trivial
  | .clear _ => .isTrue trivial
  | .count _ => .isTrue trivial
  | .clone _ => .isTrue trivial
  | .copyTo _ _ _ _ => .isTrue trivial
  | .getEnumerator _ _ => .isTrue trivial
  | .moveNext _ => .isTrue trivial
  | .enumerate _ => .isTrue trivial

end Conditions

/-! ## Refinement -/

/-- An enumerator stands in a table; at its start, nothing but the whole table is upcoming. -/
structure Stands (s : System K V) (en : Enumerator) (x : MapEnumerator) : Prop where
  table : en.ht = x.table
  type : en.returnType = x.type
  index : -1 ≤ en.index
  exists_table : en.ht < s.tables.length
  valid : ∀ p ∈ en.temp, p < s.heap.length
  fresh : x.fresh → en.index = -1 ∧ follower s.heap en.temp = none

structure Refines (keys : KeyType K) (s : System K V) (m : MapSystem K V) : Prop where
  chained : Chained s.heap
  tables_length : s.tables.length = m.tables.length
  enumerators_length : s.enumerators.length = m.enumerators.length
  shows : ∀ (t : ℕ) (ht : Hashtable), s.tables[t]? = some ht →
    Shows keys s.heap ht.buckets ht.numberOfBuckets ht.count (m.entries t)
  stands : ∀ (e : ℕ) (en : Enumerator) (x : MapEnumerator), s.enumerators[e]? = some en →
    m.enumerators[e]? = some x → Stands s en x

theorem follower_eq_none {temp : Option ℕ} {touched : ℕ → Prop} (hev : Evolves heap heap' touched)
    (hvalid : ∀ p ∈ temp, p < heap.length) (h : follower heap temp = none) :
    follower heap' temp = none := by
  cases temp with
  | none => rfl
  | some p =>
      obtain ⟨c₀, hc⟩ : ∃ c, heap[p]? = some c := ⟨_, List.getElem?_eq_getElem (hvalid p rfl)⟩
      rw [follower, Option.bind_some, hc, Option.bind_some] at h
      obtain ⟨c, hc', hnone⟩ := hev.ends p _ hc h
      rw [follower, Option.bind_some, hc', Option.bind_some, hnone]

namespace Stands

variable {s : System K V} {en : Enumerator} {x : MapEnumerator}

theorem evolve {touched : ℕ → Prop} (h : Stands s en x) (hev : Evolves s.heap heap' touched)
    (tables : List Hashtable) (hlen : s.tables.length ≤ tables.length)
    (enumerators : List Enumerator) : Stands ⟨heap', tables, enumerators⟩ en x where
  table := h.table
  type := h.type
  index := h.index
  exists_table := h.exists_table.trans_le hlen
  valid p hp := (h.valid p hp).trans_le hev.length_le
  fresh hf := ⟨(h.fresh hf).1, follower_eq_none hev h.valid (h.fresh hf).2⟩

end Stands

namespace MapSystem

variable {m : MapSystem K V}

theorem entries_modify {t u : ℕ} {f : List (K × V) → List (K × V)} (ht : t < m.tables.length) :
    (m.modify t f).entries u = if t = u then f (m.entries t) else m.entries u := by
  rw [entries, entries, entries, modify, List.getD_eq_getElem?_getD]
  by_cases h : t = u
  · subst u
    rw [if_pos rfl, List.getElem?_modify_eq, List.getElem?_eq_getElem ht,
      List.getD_eq_getElem _ _ ht]
    rfl
  · rw [if_neg h, List.getElem?_modify_ne _ _ h, ← List.getD_eq_getElem?_getD]

theorem entries_append (es : List (K × V)) (u : ℕ) (enumerators : List MapEnumerator) :
    entries ⟨m.tables ++ [es], enumerators⟩ u =
      if u = m.tables.length then es else m.entries u := by
  rw [entries, entries, List.getD_eq_getElem?_getD, List.getD_eq_getElem?_getD]
  by_cases h : u = m.tables.length
  · rw [if_pos h, h, List.getElem?_append_right le_rfl, Nat.sub_self]
    rfl
  · rw [if_neg h]
    by_cases hlt : u < m.tables.length
    · rw [List.getElem?_append_left hlt]
    · rw [List.getElem?_eq_none (by rw [List.length_append, List.length_singleton]; omega),
        List.getElem?_eq_none (by omega)]

end MapSystem

namespace Refines

variable {s : System K V} {m : MapSystem K V} {t : ℕ}

theorem lt_tables (hr : Refines keys s m) (ht : s.tables[t]? = some ht) : t < m.tables.length := by
  rw [← hr.tables_length]
  exact lt_of_getElem? ht

/-- One table goes on with other entries, the others keep theirs. -/
theorem evolve {touched : ℕ → Prop} {ht' : Hashtable} {f : List (K × V) → List (K × V)}
    (hr : Refines keys s m) (hget : s.tables[t]? = some ht)
    (hev : Evolves s.heap heap' touched)
    (hs : Shows keys heap' ht'.buckets ht'.numberOfBuckets ht'.count (f (m.entries t)))
    (hothers : ∀ p, touched p → ¬ Shared s t p) :
    Refines keys { s with heap := heap', tables := s.tables.set t ht' } (m.modify t f) where
  chained := hev.chained
  tables_length := by
    rw [List.length_set, hr.tables_length, MapSystem.modify, List.length_modify]
  enumerators_length := hr.enumerators_length
  shows u hu hget' := by
    rw [MapSystem.entries_modify (hr.lt_tables hget)]
    rw [List.getElem?_set] at hget'
    by_cases htu : t = u
    · rw [if_pos htu, if_pos (lt_of_getElem? hget), Option.some.injEq] at hget'
      rw [if_pos htu, ← hget']
      exact hs
    · rw [if_neg htu] at hget'
      rw [if_neg htu]
      apply (hr.shows u hu hget').evolves hr.chained hev
      intro p hp htouched
      apply hothers p htouched
      exact ⟨hu, List.mem_eraseIdx_iff_getElem?.mpr ⟨u, Ne.symm htu, hget'⟩, hp⟩
  stands e en x hen hx := by
    apply (hr.stands e en x hen hx).evolve hev
    rw [List.length_set]

/-- One table shows another map, and no entry is written. -/
theorem setTable {ht' : Hashtable} {f : List (K × V) → List (K × V)} (hr : Refines keys s m)
    (hget : s.tables[t]? = some ht)
    (hs : Shows keys s.heap ht'.buckets ht'.numberOfBuckets ht'.count (f (m.entries t))) :
    Refines keys (s.setTable t ht') (m.modify t f) :=
  hr.evolve hget (Evolves.refl hr.chained fun _ => False) hs (by simp)

theorem modify_self {f : List (K × V) → List (K × V)} (hr : Refines keys s m)
    (hf : f (m.entries t) = m.entries t) (hlt : t < m.tables.length) :
    Refines keys s (m.modify t f) where
  chained := hr.chained
  tables_length := by rw [hr.tables_length, MapSystem.modify, List.length_modify]
  enumerators_length := hr.enumerators_length
  shows u hu hget := by
    rw [MapSystem.entries_modify hlt]
    split
    · rename_i htu
      subst u
      rw [hf]
      exact hr.shows t hu hget
    · exact hr.shows u hu hget
  stands := hr.stands

theorem create (hr : Refines keys s m) {es : List (K × V)} {ht' : Hashtable}
    (hs : Shows keys s.heap ht'.buckets ht'.numberOfBuckets ht'.count es) :
    Refines keys { s with tables := s.tables ++ [ht'] } { m with tables := m.tables ++ [es] } where
  chained := hr.chained
  tables_length := by simp [hr.tables_length]
  enumerators_length := hr.enumerators_length
  shows u hu hget := by
    rw [MapSystem.entries_append]
    by_cases h : u < s.tables.length
    · rw [List.getElem?_append_left h] at hget
      rw [if_neg (by rw [← hr.tables_length]; omega)]
      exact hr.shows u hu hget
    · rw [List.getElem?_append_right (by omega), List.getElem?_singleton] at hget
      split at hget
      · cases hget
        rw [if_pos (by rw [← hr.tables_length]; omega)]
        exact hs
      · cases hget
  stands e en x hen hx := by
    apply (hr.stands e en x hen hx).evolve (Evolves.refl hr.chained fun _ => False)
    simp

theorem setEnumerator (hr : Refines keys s m) {e : ℕ} {en' : Enumerator} {fresh : Bool}
    (h : ∀ x, m.enumerators[e]? = some x → Stands s en' { x with fresh := fresh }) :
    Refines keys { s with enumerators := s.enumerators.set e en' } (m.freshen e fresh) where
  chained := hr.chained
  tables_length := hr.tables_length
  enumerators_length := by
    rw [List.length_set, hr.enumerators_length, MapSystem.freshen, List.length_modify]
  shows := hr.shows
  stands i en x hen hx := by
    rw [MapSystem.freshen] at hx
    by_cases hei : e = i
    · subst i
      rw [List.getElem?_modify_eq] at hx
      obtain ⟨y, hy, rfl⟩ := Option.map_eq_some_iff.mp hx
      rw [List.getElem?_set, if_pos rfl] at hen
      split at hen
      · cases hen
        have := h y hy
        exact ⟨this.table, this.type, this.index, this.exists_table, this.valid, this.fresh⟩
      · cases hen
    · rw [List.getElem?_modify_ne _ _ hei] at hx
      rw [List.getElem?_set_ne hei] at hen
      have := hr.stands i en x hen hx
      exact ⟨this.table, this.type, this.index, this.exists_table, this.valid, this.fresh⟩

end Refines

section Calls

variable {scaled : ℕ → ℚ → ℤ} {s s' : System K V} {m : MapSystem K V} {t e : ℕ} {key : K}
  {value : V} {a : Except Exn (Answer K V)}

/-- A key is in the map when its entry is found. -/
theorem found_cases {n : ℕ} {count : ℤ} (hs : Shows keys s.heap ht.buckets n count es)
    (hn : n = ht.numberOfBuckets) (h : 0 ≤ hash keys key n) :
    (found keys s ht key = none ∧ find keys es key = none ∧
      ∀ e ∈ es, keys.equals e.1 key = false) ∨
    ∃ p e, found keys s ht key = some p ∧ p ∈ cells s.heap ht.buckets ∧
      holdsKey keys s.heap key p ∧ s.heap[p]? = some e ∧ find keys es key = some e.value := by
  subst n
  cases hf : found keys s ht key with
  | none =>
      have habsent := hs.absent h hf
      exact .inl ⟨rfl, find_eq_none habsent, habsent⟩
  | some p =>
      obtain ⟨hp, hk⟩ := (hs.found_iff h).mp hf
      have hk' := hk
      rw [holdsKey, Option.any_eq_true] at hk
      obtain ⟨e, he, hke⟩ := hk
      exact .inr ⟨p, e, rfl, hp, hk', he, hs.find_of_found hp he hke⟩

theorem lookup_eq (hs : Shows keys s.heap ht.buckets ht.numberOfBuckets ht.count es)
    (h : 0 ≤ hash keys key ht.numberOfBuckets) :
    lookup keys s.heap ht key = .ok (found keys s ht key) := by
  rw [lookup, whichBucket_eq hs.positive hs.length_eq h]
  rfl

theorem grows_of_canGrow (hs : Shows keys s.heap ht.buckets ht.numberOfBuckets ht.count es)
    (h : CanGrow keys scaled s ht key) (value : V) :
    Grows keys (scaled ht.numberOfBuckets ht.growthFactor) ((key, value) :: es) := by
  obtain ⟨hpos, hkey, hall⟩ := h
  refine ⟨hpos, fun a ha => ?_⟩
  cases List.mem_cons.mp ha with
  | inl ha => rwa [ha]
  | inr ha =>
      obtain ⟨p, hp, e, he, rfl⟩ := mem_contents.mp (hs.perm.mem_iff.mpr ha)
      exact hall p hp e he

theorem Grows.tail {newSize : ℤ} {x : K × V} (h : Grows keys newSize (x :: es)) :
    Grows keys newSize es :=
  ⟨h.1, fun a ha => h.2 a (List.mem_cons_of_mem _ ha)⟩

/-- A new entry, for `Add` and the setter. -/
theorem store_new (hr : Refines keys s m) (hget : s.tables[t]? = some ht)
    (h : 0 ≤ hash keys key ht.numberOfBuckets)
    (habsent : ∀ e ∈ m.entries t, keys.equals e.1 key = false)
    (hgrow : ht.maxLoadFactor ≤ (ht.count + 1).tdiv ht.numberOfBuckets →
      CanGrow keys scaled s ht key) (overwrite : Bool) {f : List (K × V) → List (K × V)}
    (hf : f (m.entries t) = (key, value) :: m.entries t)
    (hx : s.stored t (store keys scaled s.heap ht key value overwrite) = (a, s')) :
    a = .ok .done ∧ Refines keys s' (m.modify t f) := by
  have hs := hr.shows t ht hget
  obtain ⟨heap', ht', hstore, hs', hev⟩ := store_absent hr.chained hs h habsent value overwrite
    fun hload => grows_of_canGrow hs (hgrow hload) value
  rw [hstore, System.stored, Prod.mk.injEq] at hx
  obtain ⟨rfl, rfl⟩ := hx
  refine ⟨rfl, hr.evolve hget hev ?_ (by simp)⟩
  rw [hf]
  exact hs'

theorem add_spec (hr : Refines keys s m) (hget : s.tables[t]? = some ht)
    (hm : Meets keys scaled s (.add t (some key) value))
    (hx : s.stored t (store keys scaled s.heap ht key value false) = (a, s')) :
    m.Answered keys (.add t (some key) value) a ∧
      Refines keys s' (m.next keys (.add t (some key) value)) := by
  obtain ⟨h, hgrow⟩ := hm key rfl ht hget
  have hs := hr.shows t ht hget
  rw [MapSystem.Answered, MapSystem.next]
  cases found_cases hs rfl h with
  | inl hnone =>
      obtain ⟨hfound, hfind, habsent⟩ := hnone
      rw [hfind]
      apply store_new hr hget h habsent (hgrow hfound) false _ hx
      rw [hfind]
      rfl
  | inr hsome =>
      obtain ⟨p, e, -, hp, hk, -, hfind⟩ := hsome
      rw [add_found hs h hp hk, System.stored, Prod.mk.injEq] at hx
      obtain ⟨rfl, rfl⟩ := hx
      rw [hfind]
      refine ⟨rfl, hr.setTable hget ?_⟩
      rw [hfind]
      exact hs

theorem setItem_spec (hr : Refines keys s m) (hget : s.tables[t]? = some ht)
    (hm : Meets keys scaled s (.setItem t (some key) value))
    (hx : s.stored t (store keys scaled s.heap ht key value true) = (a, s')) :
    m.Answered keys (.setItem t (some key) value) a ∧
      Refines keys s' (m.next keys (.setItem t (some key) value)) := by
  obtain ⟨h, hgrow, hgrow', hshared⟩ := hm key rfl ht hget
  have hs := hr.shows t ht hget
  rw [MapSystem.Answered, MapSystem.next]
  cases found_cases hs rfl h with
  | inl hnone =>
      obtain ⟨hfound, hfind, habsent⟩ := hnone
      apply store_new hr hget h habsent (hgrow hfound) true _ hx
      rw [hfind]
      rfl
  | inr hsome =>
      obtain ⟨p, e, hfound, hp, hk, he, hfind⟩ := hsome
      obtain ⟨heap', ht', hstore, hs', hev⟩ := setItem_found scaled hr.chained hs h hp
        hk value fun hload =>
          (grows_of_canGrow hs (hgrow' (by rw [hfound]; exact Option.some_ne_none p) hload)
            value).tail
      rw [hstore, System.stored, Prod.mk.injEq] at hx
      obtain ⟨rfl, rfl⟩ := hx
      refine ⟨rfl, hr.evolve hget hev ?_ ?_⟩
      · rw [hfind]
        exact hs'
      · intro q hq
        obtain ⟨rfl, f, hf, hne⟩ := hq
        exact hshared q hfound f hf hne

theorem getItem_spec (hr : Refines keys s m) (hget : s.tables[t]? = some ht)
    (h : 0 ≤ hash keys key ht.numberOfBuckets) :
    (lookup keys s.heap ht key).map (fun p => (.value (s.valueAt p) : Answer K V)) =
      .ok (.value (find keys (m.entries t) key)) := by
  have hs := hr.shows t ht hget
  rw [lookup_eq hs h, Except.map]
  cases found_cases hs rfl h with
  | inl hnone =>
      obtain ⟨hfound, hfind, -⟩ := hnone
      rw [hfound, hfind]
      rfl
  | inr hsome =>
      obtain ⟨p, e, hfound, -, -, he, hfind⟩ := hsome
      rw [hfound, hfind, System.valueAt, Option.bind_some, he]
      rfl

theorem contains_spec (hr : Refines keys s m) (hget : s.tables[t]? = some ht)
    (h : 0 ≤ hash keys key ht.numberOfBuckets) :
    (lookup keys s.heap ht key).map (fun p => (.flag p.isSome : Answer K V)) =
      .ok (.flag (find keys (m.entries t) key).isSome) := by
  have hs := hr.shows t ht hget
  rw [lookup_eq hs h, Except.map]
  cases found_cases hs rfl h with
  | inl hnone =>
      obtain ⟨hfound, hfind, -⟩ := hnone
      rw [hfound, hfind]
      rfl
  | inr hsome =>
      obtain ⟨p, e, hfound, -, -, -, hfind⟩ := hsome
      rw [hfound, hfind]
      rfl

theorem erase_of_absent (h : ∀ e ∈ es, keys.equals e.1 key = false) :
    erase keys es key = es := by
  apply List.filter_eq_self.mpr
  intro e he
  rw [h e he]
  rfl

variable (scaled) in
theorem remove_spec (hr : Refines keys s m) (hget : s.tables[t]? = some ht)
    (hm : Meets keys scaled s (.remove t (some key))) :
    ∃ r, remove keys s.heap ht key = .ok r ∧
      Refines keys { s with heap := r.1, tables := s.tables.set t r.2 }
        (m.modify t fun es => erase keys es key) := by
  obtain ⟨h, hshared⟩ := hm key rfl ht hget
  have hs := hr.shows t ht hget
  cases found_cases hs rfl h with
  | inl hnone =>
      obtain ⟨-, -, habsent⟩ := hnone
      refine ⟨_, remove_absent hs h habsent, hr.setTable hget ?_⟩
      rw [erase_of_absent habsent]
      exact hs
  | inr hsome =>
      obtain ⟨p, e, hfound, hp, hk, -, -⟩ := hsome
      obtain ⟨heap', ht', hremove, hs', hev⟩ := remove_found hr.chained hs h hp hk
      refine ⟨_, hremove, hr.evolve hget hev hs' ?_⟩
      intro q hq
      exact hshared p hfound q hq.1 hq.2

theorem upcoming_lt (hd : Chained s.heap) {en : Enumerator} {p : ℕ}
    (hp : p ∈ upcoming s.heap ht en) : p < s.heap.length := by
  rw [upcoming, List.mem_append] at hp
  cases hp with
  | inl h => exact lt_of_mem_walk hd h
  | inr h =>
      obtain ⟨c, hc⟩ := exists_entry hd h
      exact lt_of_getElem? hc

/-- All the rest of a chain and all the rest of the buckets. -/
theorem upcoming_length (hd : Chained s.heap)
    (hs : Shows keys s.heap ht.buckets ht.numberOfBuckets ht.count es) (en : Enumerator) :
    (upcoming s.heap ht en).length < 2 * s.heap.length + 1 := by
  have hchain : (chain s.heap (follower s.heap en.temp)).length ≤ s.heap.length :=
    walk_length_le hd _
  have hsub : (cells s.heap (ht.buckets.drop (en.index + 1).toNat)).Sublist
      (cells s.heap ht.buckets) := by
    conv_rhs => rw [← List.take_append_drop (en.index + 1).toNat ht.buckets]
    rw [cells_append]
    exact List.sublist_append_right _ _
  have hrange : cells s.heap ht.buckets ⊆ List.range s.heap.length := by
    intro p hp
    obtain ⟨c, hc⟩ := exists_entry hd hp
    exact List.mem_range.mpr (lt_of_getElem? hc)
  have hle := ((hs.nodup hd).subperm hrange).length_le
  have hdrop := hsub.length_le
  rw [List.length_range] at hle
  rw [upcoming, List.length_append]
  omega

theorem upcoming_fresh {en : Enumerator} {x : MapEnumerator} (h : Stands s en x) (hf : x.fresh) :
    upcoming s.heap ht en = cells s.heap ht.buckets := by
  obtain ⟨hindex, hfollower⟩ := h.fresh hf
  rw [upcoming, hfollower, hindex, chain, walk_none, List.nil_append]
  rfl

theorem exists_enumerator (hr : Refines keys s m) {en : Enumerator}
    (hget : s.enumerators[e]? = some en) :
    ∃ x, m.enumerators[e]? = some x ∧ Stands s en x := by
  have hlt : e < m.enumerators.length := by
    rw [← hr.enumerators_length]
    exact lt_of_getElem? hget
  exact ⟨_, List.getElem?_eq_getElem hlt,
    hr.stands e en _ hget (List.getElem?_eq_getElem hlt)⟩

theorem moveNext_answered (hr : Refines keys s m) {en : Enumerator}
    (hen : s.enumerators[e]? = some en) (hget : s.tables[en.ht]? = some ht)
    (hx : s.enumerated e ((moveNext s.heap ht en).map fun r => (.flag r.1, r.2)) = (a, s')) :
    m.Answered keys (.moveNext e) a ∧ Refines keys s' (m.next keys (.moveNext e)) := by
  obtain ⟨x, hxe, hstands⟩ := exists_enumerator hr hen
  have hs := hr.shows en.ht ht hget
  obtain ⟨en', hmove, hht, htype, hindex, htemp, -⟩ :=
    moveNext_spec hr.chained hs.length_eq hs.valid hstands.index
  rw [hmove, Except.map] at hx
  cases hx
  rw [MapSystem.Answered, MapSystem.next]
  refine ⟨⟨_, rfl, fun y hy hfresh => ?_⟩, hr.setEnumerator fun y hy => ?_⟩
  · rw [hxe] at hy
    cases hy
    rw [upcoming_fresh hstands hfresh, ← hstands.table]
    have hperm := hs.perm
    cases hcells : cells s.heap ht.buckets with
    | nil =>
        rw [hcells] at hperm
        rw [List.nil_perm.mp hperm]
        rfl
    | cons p rest =>
        obtain ⟨c, hc⟩ := exists_entry hr.chained
          (show p ∈ cells s.heap ht.buckets by rw [hcells]; exact List.mem_cons_self)
        have hmem : (c.key, c.value) ∈ m.entries en.ht := hperm.mem_iff.mp
          (mem_contents.mpr ⟨p, by rw [hcells]; exact List.mem_cons_self, c, hc, rfl⟩)
        cases hm : m.entries en.ht with
        | nil =>
            rw [hm] at hmem
            cases hmem
        | cons b bs => rfl
  · rw [hxe] at hy
    cases hy
    refine ⟨hht.trans hstands.table, htype.trans hstands.type, hindex,
      hht.trans_lt hstands.exists_table, fun p hp => ?_, by simp⟩
    rw [htemp] at hp
    exact upcoming_lt hr.chained (List.mem_of_head? hp)

theorem enumerate_answered (hr : Refines keys s m) {en : Enumerator}
    (hen : s.enumerators[e]? = some en) (hget : s.tables[en.ht]? = some ht)
    (hx : s.enumerated e ((enumerate s.heap ht (2 * s.heap.length + 1) en).map fun r =>
      (.items r.1, r.2)) = (a, s')) :
    m.Answered keys (.enumerate e) a ∧ Refines keys s' (m.next keys (.enumerate e)) := by
  obtain ⟨x, hxe, hstands⟩ := exists_enumerator hr hen
  have hs := hr.shows en.ht ht hget
  obtain ⟨en', hrun, hht, htype, hindex, htemp⟩ := enumerate_spec hr.chained hs.length_eq hs.valid
    hstands.index (upcoming_length hr.chained hs en)
  rw [hrun, Except.map] at hx
  cases hx
  rw [MapSystem.Answered, MapSystem.next]
  refine ⟨⟨_, rfl, fun y hy hfresh => ?_⟩, hr.setEnumerator fun y hy => ?_⟩
  · rw [hxe] at hy
    cases hy
    rw [upcoming_fresh hstands hfresh, ← hstands.table, ← hstands.type]
    exact ⟨_, hs.perm, rfl⟩
  · rw [hxe] at hy
    cases hy
    refine ⟨hht.trans hstands.table, htype.trans hstands.type, hindex,
      hht.trans_lt hstands.exists_table, fun p hp => ?_, by simp⟩
    rw [htemp] at hp
    cases hp

/-- The end of a chain is as good a place to start from as no entry at all. -/
theorem reset_stands {en : Enumerator} {x : MapEnumerator} (h : Stands s en x)
    (hrests : follower s.heap en.temp = none) : Stands s en.reset { x with fresh := true } where
  table := h.table
  type := h.type
  index := le_refl (-1)
  exists_table := h.exists_table
  valid := h.valid
  fresh _ := ⟨rfl, hrests⟩

theorem clone_spec (hs : Shows keys s.heap ht.buckets ht.numberOfBuckets ht.count es) :
    ∃ copy, clone ht = .ok copy ∧
      Shows keys s.heap copy.buckets copy.numberOfBuckets copy.count es := by
  rw [clone, if_neg (by have := hs.length_eq; omega)]
  refine ⟨_, rfl, ?_⟩
  dsimp only
  rw [List.take_of_length_le hs.length_eq.le]
  exact hs

theorem shows_new (heap : List (Entry K V)) {capacity : ℤ} (h : 1 ≤ capacity)
    (maxLoadFactor : ℤ) :
    Shows keys heap (initializeHashTable capacity.toNat maxLoadFactor).buckets
      (initializeHashTable capacity.toNat maxLoadFactor).numberOfBuckets
      (initializeHashTable capacity.toNat maxLoadFactor).count [] :=
  shows_replicate (by omega)

theorem getEnumerator_spec (hr : Refines keys s m) (hget : s.tables[t]? = some ht)
    (type : EnumeratorType) :
    Refines keys
      { s with enumerators := s.enumerators ++
        [{ ht := t, temp := none, index := -1, returnType := type }] }
      { m with enumerators := m.enumerators ++
        [{ table := t, type := type, fresh := true }] } where
  chained := hr.chained
  tables_length := hr.tables_length
  enumerators_length := by simp [hr.enumerators_length]
  shows := hr.shows
  stands i en x hen hx := by
    have hlen := hr.enumerators_length
    by_cases hi : i < s.enumerators.length
    · rw [List.getElem?_append_left hi] at hen
      rw [List.getElem?_append_left (by omega)] at hx
      have := hr.stands i en x hen hx
      exact ⟨this.table, this.type, this.index, this.exists_table, this.valid, this.fresh⟩
    · rw [List.getElem?_append_right (by omega), List.getElem?_singleton] at hen hx
      rw [hlen] at hen
      split at hx
      · rw [if_pos ‹_›] at hen
        cases hen
        cases hx
        exact ⟨rfl, rfl, le_rfl, lt_of_getElem? hget, by simp, fun _ => ⟨rfl, rfl⟩⟩
      · cases hx

/-- Every call is answered as the maps answer it, and leaves what shows them. -/
theorem exec_spec (hr : Refines keys s m) {op : Op K V} (hm : Meets keys scaled s op)
    (hx : exec keys scaled s op = some (a, s')) :
    m.Answered keys op a ∧ Refines keys s' (m.next keys op) := by
  cases op with
  | create capacity maxLoadFactor =>
      rw [exec, if_neg (by have : 1 ≤ capacity := hm; omega), Option.some.injEq,
        Prod.mk.injEq] at hx
      obtain ⟨rfl, rfl⟩ := hx
      rw [MapSystem.Answered, MapSystem.next, hr.tables_length]
      exact ⟨rfl, hr.create (shows_new _ hm _)⟩
  | setMaxLoadFactor t factor =>
      obtain ⟨ht, hget, hx⟩ := Option.map_eq_some_iff.mp hx
      cases hx
      refine ⟨rfl, ?_⟩
      show Refines keys _ m
      have := hr.setTable (f := id) hget (show Shows keys s.heap
        { ht with maxLoadFactor := factor }.buckets _ _ _ from hr.shows t ht hget)
      rwa [MapSystem.modify, List.modify_id] at this
  | setGrowthFactor t factor =>
      obtain ⟨ht, hget, hx⟩ := Option.map_eq_some_iff.mp hx
      cases hx
      refine ⟨rfl, ?_⟩
      show Refines keys _ m
      have := hr.setTable (f := id) hget (show Shows keys s.heap
        { ht with growthFactor := factor }.buckets _ _ _ from hr.shows t ht hget)
      rwa [MapSystem.modify, List.modify_id] at this
  | add t key value =>
      obtain ⟨ht, hget, hx⟩ := Option.map_eq_some_iff.mp hx
      cases key with
      | none =>
          cases hx
          exact ⟨rfl, hr⟩
      | some key => exact add_spec hr hget hm hx
  | setItem t key value =>
      obtain ⟨ht, hget, hx⟩ := Option.map_eq_some_iff.mp hx
      cases key with
      | none =>
          cases hx
          exact ⟨rfl, hr⟩
      | some key => exact setItem_spec hr hget hm hx
  | getItem t key =>
      obtain ⟨ht, hget, hx⟩ := Option.map_eq_some_iff.mp hx
      cases key with
      | none =>
          cases hx
          exact ⟨rfl, hr⟩
      | some key =>
          cases hx
          exact ⟨getItem_spec hr hget (hm key rfl ht hget), hr⟩
  | contains t key =>
      obtain ⟨ht, hget, hx⟩ := Option.map_eq_some_iff.mp hx
      cases key with
      | none =>
          cases hx
          exact ⟨rfl, hr⟩
      | some key =>
          cases hx
          exact ⟨contains_spec hr hget (hm key rfl ht hget), hr⟩
  | remove t key =>
      obtain ⟨ht, hget, hx⟩ := Option.map_eq_some_iff.mp hx
      cases key with
      | none =>
          cases hx
          exact ⟨rfl, hr⟩
      | some key =>
          obtain ⟨r, hremove, hr'⟩ := remove_spec scaled hr hget hm
          rw [System.keyed, hremove] at hx
          cases hx
          exact ⟨rfl, hr'⟩
  | clear t =>
      obtain ⟨ht, hget, hx⟩ := Option.map_eq_some_iff.mp hx
      cases hx
      rw [MapSystem.Answered, MapSystem.next]
      exact ⟨rfl, hr.setTable hget (shows_replicate (by decide))⟩
  | count t =>
      obtain ⟨ht, hget, hx⟩ := Option.map_eq_some_iff.mp hx
      cases hx
      rw [MapSystem.Answered, (hr.shows t ht hget).count_eq]
      exact ⟨rfl, hr⟩
  | clone t =>
      obtain ⟨ht, hget, hx⟩ := Option.map_eq_some_iff.mp hx
      obtain ⟨copy, hclone, hs⟩ := clone_spec (hr.shows t ht hget)
      rw [hclone] at hx
      cases hx
      rw [MapSystem.Answered, MapSystem.next, hr.tables_length]
      exact ⟨rfl, hr.create hs⟩
  | copyTo t type array index =>
      obtain ⟨ht, hget, hx⟩ := Option.map_eq_some_iff.mp hx
      cases hx
      refine ⟨fun hindex => ?_, hr⟩
      obtain ⟨l, hperm, hcopy⟩ := copyTo_spec type (hr.shows t ht hget) rfl array
      refine ⟨l, hperm, ?_⟩
      rw [hindex, hcopy]
      rfl
  | getEnumerator t type =>
      obtain ⟨ht, hget, hx⟩ := Option.map_eq_some_iff.mp hx
      cases hx
      rw [MapSystem.Answered, MapSystem.next, hr.enumerators_length]
      exact ⟨rfl, getEnumerator_spec hr hget type⟩
  | moveNext e =>
      obtain ⟨en, hen, hx⟩ := Option.bind_eq_some_iff.mp hx
      obtain ⟨ht, hget, hx⟩ := Option.map_eq_some_iff.mp hx
      exact moveNext_answered hr hen hget hx
  | enumerate e =>
      obtain ⟨en, hen, hx⟩ := Option.bind_eq_some_iff.mp hx
      obtain ⟨ht, hget, hx⟩ := Option.map_eq_some_iff.mp hx
      exact enumerate_answered hr hen hget hx
  | reset e =>
      obtain ⟨en, hen, hx⟩ := Option.map_eq_some_iff.mp hx
      cases hx
      obtain ⟨x, hxe, hstands⟩ := exists_enumerator hr hen
      rw [MapSystem.Answered, MapSystem.next]
      refine ⟨rfl, hr.setEnumerator fun y hy => ?_⟩
      rw [hxe] at hy
      cases hy
      exact reset_stands hstands (hm en hen)

end Calls

theorem refines_empty : Refines keys (System.empty K V) (MapSystem.empty K V) where
  chained p c hc := by simp [System.empty] at hc
  tables_length := rfl
  enumerators_length := rfl
  shows t ht hget := by simp [System.empty] at hget
  stands e en x hen := by simp [System.empty] at hen

theorem follows_of_refines {scaled : ℕ → ℚ → ℤ} {s : System K V} {m : MapSystem K V}
    {ops : List (Op K V)} (hr : Refines keys s m)
    (h : AdmittedRun (step keys scaled) (Meets keys scaled) s ops) :
    Follows keys scaled s m ops := by
  induction ops generalizing s m with
  | nil => trivial
  | cons op ops ih =>
      obtain ⟨hm, s₁, hs₁, hrest⟩ := h
      intro a s' hx
      obtain ⟨hanswered, hr'⟩ := exec_spec hr hm hx
      rw [step, hx] at hs₁
      cases hs₁
      exact ⟨hanswered, ih hr' hrest⟩

/-- In every run whose calls all meet their conditions, the tables are answered as finite maps. -/
theorem hashtable_refines_map (keys : KeyType K) (scaled : ℕ → ℚ → ℤ) (ops : List (Op K V))
    (h : AdmittedRun (step keys scaled) (Meets keys scaled) (System.empty K V) ops) :
    Follows keys scaled (System.empty K V) (MapSystem.empty K V) ops :=
  follows_of_refines refines_empty h

/-- Numbers as keys that are their own hash codes. -/
def numberKeys : KeyType (BitVec 32) where
  equals k l := k == l
  getHashCode k := k
  equals_refl _ := beq_self_eq_true _
  equals_symm h := by rw [eq_of_beq h, beq_self_eq_true]
  equals_trans h h' := by rw [eq_of_beq h, eq_of_beq h', beq_self_eq_true]
  getHashCode_eq h := eq_of_beq h

/-- The product as a whole number, as long as it is one of `int`. -/
def scaledExactly (n : ℕ) (factor : ℚ) : ℤ := n * factor.num / factor.den

/-- A table of one bucket that grows while it is filled, and a clone that goes its own way. -/
def independentCalls : List (Op (BitVec 32) ℕ) :=
  [.create 1 2, .add 0 (some 5) 50, .add 0 (some 6) 60, .clone 0, .remove 0 (some 6),
    .setItem 1 (some 7) 70, .getItem 1 (some 6), .getEnumerator 1 .key, .moveNext 0, .enumerate 0,
    .reset 0, .enumerate 0]

theorem hashtable_refines_map_independent :
    Follows numberKeys scaledExactly (System.empty (BitVec 32) ℕ) (MapSystem.empty (BitVec 32) ℕ)
      independentCalls :=
  hashtable_refines_map numberKeys scaledExactly independentCalls (by decide +kernel)

/-- The calls that the tables are made for: growth and load factors above 1, keys that are not
null, and copies from the start. -/
def InDomain : Op K V → Prop
  | .create capacity maxLoadFactor => 1 ≤ capacity ∧ 1 < maxLoadFactor
  | .setMaxLoadFactor _ factor => 1 < factor
  | .setGrowthFactor _ factor => 1 < factor
  | .add _ key _ => key ≠ none
  | .setItem _ key _ => key ≠ none
  | .getItem _ key => key ≠ none
  | .contains _ key => key ≠ none
  | .remove _ key => key ≠ none
  | .copyTo _ _ _ index => index = 0
  | _ => True

/-- A value is replaced in the original after it was cloned, and then asked for in the clone. -/
def sharedCalls : List (Op (BitVec 32) ℕ) :=
  [.create 4 2, .add 0 (some 1) 10, .clone 0, .setItem 0 (some 1) 20, .getItem 1 (some 1)]

theorem follows_head {keys : KeyType K} {scaled : ℕ → ℚ → ℤ} {s s' : System K V}
    {m : MapSystem K V} {op : Op K V} {ops : List (Op K V)} {a : Except Exn (Answer K V)}
    (h : Follows keys scaled s m (op :: ops)) (hx : exec keys scaled s op = some (a, s')) :
    m.Answered keys op a ∧ Follows keys scaled s' (m.next keys op) ops :=
  h a s' hx

/-- The clone shows the new value of the original. -/
theorem not_independent_sample :
    (∀ op ∈ sharedCalls, InDomain op) ∧
      ¬ Follows numberKeys scaledExactly (System.empty (BitVec 32) ℕ)
        (MapSystem.empty (BitVec 32) ℕ) sharedCalls := by
  constructor
  · simp [sharedCalls, InDomain]
  · intro h
    obtain ⟨-, h⟩ := follows_head h rfl
    obtain ⟨-, h⟩ := follows_head h rfl
    obtain ⟨-, h⟩ := follows_head h rfl
    obtain ⟨-, h⟩ := follows_head h rfl
    obtain ⟨h, -⟩ := follows_head h rfl
    revert h
    show ¬ (_ = Except.ok (Answer.value _))
    decide +kernel

end TinyCLR.Collections
