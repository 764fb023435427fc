import TinyCLR.Collections.Hashtable

/-!
# The chains of a hash table

A table shows a map when the entries on its chains are those of the map, each on the chain of its
hash code. An operation keeps that for its own table, and says which entries it writes: a table
whose entries are not written shows what it did.
-/

namespace TinyCLR.Collections

open SharedList

variable {K V : Type} (keys : KeyType K)

/-! ## Maps -/

/-- The value of a key among entries. -/
def find (es : List (K × V)) (key : K) : Option V :=
  (es.find? fun e => keys.equals e.1 key).map Prod.snd

/-- No two entries have equal keys. -/
def Distinct (es : List (K × V)) : Prop :=
  es.Pairwise fun a b => keys.equals a.1 b.1 = false

/-- The entries with another value for a key. -/
def replace (es : List (K × V)) (key : K) (value : V) : List (K × V) :=
  es.map fun e => if keys.equals e.1 key then (e.1, value) else e

def erase (es : List (K × V)) (key : K) : List (K × V) :=
  es.filter fun e => !keys.equals e.1 key

variable {keys} {heap heap' : List (Entry K V)} {buckets : List (Option ℕ)} {n : ℕ} {count : ℤ}
  {es : List (K × V)} {key : K} {value : V}

theorem find_eq_none (h : ∀ e ∈ es, keys.equals e.1 key = false) : find keys es key = none := by
  rw [find, List.find?_eq_none.mpr, Option.map_none]
  intro e he
  simp [h e he]

theorem equals_false_symm {k l : K} (h : keys.equals k l = false) : keys.equals l k = false := by
  cases hl : keys.equals l k with
  | false => rfl
  | true => rw [keys.equals_symm hl] at h; cases h

theorem Distinct.perm {es' : List (K × V)} (hd : Distinct keys es) (hp : es.Perm es') :
    Distinct keys es' :=
  (hp.pairwise_iff fun h => equals_false_symm h).mp hd

theorem Distinct.eq_of_equals (hd : Distinct keys es) {a b : K × V} (ha : a ∈ es) (hb : b ∈ es)
    (hka : keys.equals a.1 key) (hkb : keys.equals b.1 key) : a = b := by
  by_contra hne
  have hsymm : Std.Symm fun a b : K × V => keys.equals a.1 b.1 = false :=
    ⟨fun _ _ h => equals_false_symm h⟩
  have := List.Pairwise.forall hd ha hb hne
  rw [keys.equals_trans hka (keys.equals_symm hkb)] at this
  cases this

theorem find_eq_some (hd : Distinct keys es) {e : K × V} (he : e ∈ es)
    (hk : keys.equals e.1 key) : find keys es key = some e.2 := by
  rw [find]
  cases hf : es.find? fun e => keys.equals e.1 key with
  | none =>
      rw [List.find?_eq_none] at hf
      exact absurd hk (hf e he)
  | some f =>
      have hfk := List.find?_some hf
      rw [hd.eq_of_equals (List.mem_of_find?_eq_some hf) he hfk hk, Option.map_some]

theorem Distinct.cons (hd : Distinct keys es) (h : ∀ e ∈ es, keys.equals e.1 key = false) :
    Distinct keys ((key, value) :: es) :=
  List.pairwise_cons.mpr ⟨fun e he => equals_false_symm (h e he), hd⟩

theorem Distinct.replace (hd : Distinct keys es) : Distinct keys (replace keys es key value) := by
  apply List.Pairwise.map _ _ hd
  intro a b h
  split <;> split <;> exact h

theorem Distinct.erase (hd : Distinct keys es) : Distinct keys (erase keys es key) :=
  hd.filter _

/-! ## What a table shows -/

/-- The entry at a position is that of the key. -/
def holdsKey (keys : KeyType K) (heap : List (Entry K V)) (key : K) (p : ℕ) : Bool :=
  (heap[p]?).any fun e => keys.equals e.key key

/-- Keys and values of the entries at some positions. -/
def contents (heap : List (Entry K V)) (ids : List ℕ) : List (K × V) :=
  ids.filterMap fun p => (heap[p]?).map fun e => (e.key, e.value)

abbrev Chained (heap : List (Entry K V)) : Prop := Descends Entry.next heap

abbrev chain (heap : List (Entry K V)) (head : Option ℕ) : List ℕ := walk Entry.next heap head

/-- The buckets hold the entries of a map, each in the bucket of its hash code. -/
structure Shows (keys : KeyType K) (heap : List (Entry K V)) (buckets : List (Option ℕ)) (n : ℕ)
    (count : ℤ) (es : List (K × V)) : Prop where
  positive : 0 < n
  length_eq : buckets.length = n
  valid : ∀ b ∈ buckets, ∀ p ∈ b, p < heap.length
  hashed : ∀ i p, p ∈ chain heap (buckets.getD i none) → ∀ e ∈ heap[p]?, hash keys e.key n = i
  perm : (contents heap (cells heap buckets)).Perm es
  count_eq : count = es.length
  distinct : Distinct keys es

theorem hash_congr {k l : K} (h : keys.equals k l) : hash keys k n = hash keys l n := by
  rw [hash, hash, keys.getHashCode_eq h]

variable (keys) in
theorem hash_lt (hn : 0 < n) (key : K) : hash keys key n < n :=
  Int.tmod_lt_of_pos _ (by omega)

theorem whichBucket_eq (hn : 0 < n) (hlen : buckets.length = n) (h : 0 ≤ hash keys key n) :
    whichBucket keys key buckets n = .ok (hash keys key n).toNat := by
  have := hash_lt keys hn key
  rw [whichBucket, if_neg (by omega), if_neg (by omega)]

theorem entryForKey_eq (head : Option ℕ) (m : ℕ) :
    entryForKey keys heap key m head =
      (walkFrom Entry.next heap m head).find? (holdsKey keys heap key) := by
  induction m generalizing head with
  | zero => rfl
  | succ m ih =>
      cases head with
      | none => rfl
      | some p =>
          rw [entryForKey, walkFrom]
          cases he : heap[p]? with
          | none => rfl
          | some e =>
              simp only [List.find?_cons, holdsKey, he, Option.any_some]
              split <;> rename_i h
              · rw [h]
              · rw [Bool.eq_false_of_not_eq_true h]
                exact ih e.next

theorem contents_append (a b : List ℕ) :
    contents heap (a ++ b) = contents heap a ++ contents heap b := by
  rw [contents, List.filterMap_append]
  rfl

theorem mem_contents {ids : List ℕ} {a : K × V} :
    a ∈ contents heap ids ↔ ∃ p ∈ ids, ∃ e, heap[p]? = some e ∧ (e.key, e.value) = a := by
  rw [contents, List.mem_filterMap]
  simp only [Option.map_eq_some_iff]

/-- The same entries at the positions, the same contents. -/
theorem contents_congr {ids : List ℕ}
    (h : ∀ p ∈ ids, (heap'[p]?).map (fun e => (e.key, e.value)) =
      (heap[p]?).map fun e => (e.key, e.value)) : contents heap' ids = contents heap ids :=
  List.filterMap_congr h

theorem cells_append (a b : List (Option ℕ)) :
    cells heap (a ++ b) = cells heap a ++ cells heap b := by
  rw [cells, List.flatMap_append]
  rfl

theorem cells_cons (b : Option ℕ) (rest : List (Option ℕ)) :
    cells heap (b :: rest) = chain heap b ++ cells heap rest := by
  rw [cells, List.flatMap_cons]
  rfl

theorem mem_cells {p : ℕ} :
    p ∈ cells heap buckets ↔ ∃ b ∈ buckets, p ∈ chain heap b := by
  rw [cells, List.mem_flatMap]

theorem buckets_split {i : ℕ} (hi : i < buckets.length) :
    buckets = buckets.take i ++ buckets.getD i none :: buckets.drop (i + 1) := by
  rw [List.getD_eq_getElem _ _ hi, ← List.drop_eq_getElem_cons hi, List.take_append_drop]

variable (heap) in
theorem cells_split {i : ℕ} (hi : i < buckets.length) :
    cells heap buckets = cells heap (buckets.take i) ++
      (chain heap (buckets.getD i none) ++ cells heap (buckets.drop (i + 1))) := by
  conv_lhs => rw [buckets_split hi]
  rw [cells_append, cells_cons]

theorem getD_set {i j : ℕ} (hi : i < buckets.length) (b : Option ℕ) :
    (buckets.set i b).getD j none = if i = j then b else buckets.getD j none := by
  by_cases hij : i = j
  · subst j
    simp [hi]
  · simp [List.getD_eq_getElem?_getD, List.getElem?_set_ne hij, hij]

theorem getD_of_mem_take {i : ℕ} {b : Option ℕ} (hb : b ∈ buckets.take i) :
    ∃ j < i, buckets.getD j none = b := by
  obtain ⟨j, hj, rfl⟩ := List.mem_iff_getElem.mp hb
  rw [List.length_take] at hj
  exact ⟨j, by omega, by rw [List.getElem_take, List.getD_eq_getElem _ _ (by omega)]⟩

theorem getD_of_mem_drop {i : ℕ} {b : Option ℕ} (hb : b ∈ buckets.drop (i + 1)) :
    ∃ j, i < j ∧ buckets.getD j none = b := by
  obtain ⟨j, hj, rfl⟩ := List.mem_iff_getElem.mp hb
  rw [List.length_drop] at hj
  exact ⟨i + 1 + j, by omega, by rw [List.getElem_drop, List.getD_eq_getElem _ _ (by omega)]⟩

theorem cells_set {i : ℕ} (hi : i < buckets.length) (b : Option ℕ) :
    cells heap (buckets.set i b) = cells heap (buckets.take i) ++
      (chain heap b ++ cells heap (buckets.drop (i + 1))) := by
  rw [List.set_eq_take_append_cons_drop, if_pos hi, cells_append, cells_cons]

theorem exists_entry (hd : Chained heap) {p : ℕ} (hp : p ∈ cells heap buckets) :
    ∃ e, heap[p]? = some e := by
  obtain ⟨b, -, hmem⟩ := mem_cells.mp hp
  exact ⟨_, List.getElem?_eq_getElem (lt_of_mem_walk hd hmem)⟩

namespace Shows

/-- Each key stands for one entry. -/
theorem unique (hs : Shows keys heap buckets n count es) {p q : ℕ} (hp : p ∈ cells heap buckets)
    (hq : q ∈ cells heap buckets) (hkp : holdsKey keys heap key p)
    (hkq : holdsKey keys heap key q) : p = q := by
  by_contra hne
  have hd := hs.distinct.perm hs.perm.symm
  rw [Distinct, contents, List.pairwise_filterMap] at hd
  rw [holdsKey, Option.any_eq_true] at hkp hkq
  obtain ⟨e, he, hke⟩ := hkp
  obtain ⟨f, hf, hkf⟩ := hkq
  have hsymm : Std.Symm fun p q : ℕ =>
      ∀ x, (heap[p]?).map (fun e => (e.key, e.value)) = some x →
      ∀ y, (heap[q]?).map (fun e => (e.key, e.value)) = some y → keys.equals x.1 y.1 = false :=
    ⟨fun _ _ h x hx y hy => equals_false_symm (h y hy x hx)⟩
  have := List.Pairwise.forall hd hp hq hne (e.key, e.value) (by rw [he]; rfl) (f.key, f.value)
    (by rw [hf]; rfl)
  rw [keys.equals_trans hke (keys.equals_symm hkf)] at this
  cases this

theorem nodup (hs : Shows keys heap buckets n count es) (hd : Chained heap) :
    (cells heap buckets).Nodup := by
  have h := hs.distinct.perm hs.perm.symm
  rw [Distinct, contents, List.pairwise_filterMap] at h
  apply List.Pairwise.imp_of_mem _ h
  intro p q hp _ hpq heq
  obtain ⟨e, he⟩ := exists_entry hd hp
  subst heq
  have := hpq (e.key, e.value) (by rw [he]; rfl) (e.key, e.value) (by rw [he]; rfl)
  rw [keys.equals_refl] at this
  cases this

/-- In the other buckets, no entry has a key of this hash code. -/
theorem elsewhere (hs : Shows keys heap buckets n count es) (h : 0 ≤ hash keys key n) {p : ℕ}
    (hp : p ∈ cells heap (buckets.take (hash keys key n).toNat) ∨
      p ∈ cells heap (buckets.drop ((hash keys key n).toNat + 1))) :
    holdsKey keys heap key p = false := by
  have hother : ∃ i, i ≠ (hash keys key n).toNat ∧ p ∈ chain heap (buckets.getD i none) := by
    cases hp with
    | inl hp =>
        obtain ⟨b, hb, hmem⟩ := mem_cells.mp hp
        obtain ⟨i, hi, rfl⟩ := getD_of_mem_take hb
        exact ⟨i, by omega, hmem⟩
    | inr hp =>
        obtain ⟨b, hb, hmem⟩ := mem_cells.mp hp
        obtain ⟨i, hi, rfl⟩ := getD_of_mem_drop hb
        exact ⟨i, by omega, hmem⟩
  obtain ⟨i, hne, hmem⟩ := hother
  rw [holdsKey]
  cases he : heap[p]? with
  | none => rfl
  | some e =>
      rw [Option.any_some]
      by_contra hk
      have := hs.hashed i p hmem e he
      rw [hash_congr (Bool.eq_true_of_not_eq_false hk)] at this
      omega

/-- What is looked for in one bucket is not in any other. -/
theorem found_iff (hs : Shows keys heap buckets n count es) (h : 0 ≤ hash keys key n) {p : ℕ} :
    entryForKey keys heap key heap.length (buckets.getD (hash keys key n).toNat none) = some p ↔
      p ∈ cells heap buckets ∧ holdsKey keys heap key p := by
  have hlt := hash_lt keys hs.positive key
  have hlen := hs.length_eq
  have hsplit := cells_split heap
    (show (hash keys key n).toNat < buckets.length by omega)
  rw [entryForKey_eq]
  change (chain heap _).find? _ = some p ↔ _
  constructor
  · intro hf
    refine ⟨?_, List.find?_some hf⟩
    rw [hsplit]
    exact List.mem_append_right _ (List.mem_append_left _ (List.mem_of_find?_eq_some hf))
  · rintro ⟨hp, hk⟩
    have hmem : p ∈ chain heap (buckets.getD (hash keys key n).toNat none) := by
      rw [hsplit, List.mem_append, List.mem_append] at hp
      rcases hp with hp | hp | hp
      · rw [hs.elsewhere h (.inl hp)] at hk
        cases hk
      · exact hp
      · rw [hs.elsewhere h (.inr hp)] at hk
        cases hk
    cases hf : (chain heap (buckets.getD (hash keys key n).toNat none)).find?
        (holdsKey keys heap key) with
    | none =>
        rw [List.find?_eq_none] at hf
        exact absurd hk (hf p hmem)
    | some q =>
        have hq : q ∈ cells heap buckets := by
          rw [hsplit]
          exact List.mem_append_right _ (List.mem_append_left _ (List.mem_of_find?_eq_some hf))
        rw [hs.unique hq hp (List.find?_some hf) hk]

theorem find_of_found (hs : Shows keys heap buckets n count es) {p : ℕ} {e : Entry K V}
    (hp : p ∈ cells heap buckets) (he : heap[p]? = some e) (hk : keys.equals e.key key) :
    find keys es key = some e.value := by
  have hmem : (e.key, e.value) ∈ es := hs.perm.mem_iff.mp (mem_contents.mpr ⟨p, hp, e, he, rfl⟩)
  exact find_eq_some hs.distinct hmem hk

theorem absent (hs : Shows keys heap buckets n count es) (h : 0 ≤ hash keys key n)
    (hf : entryForKey keys heap key heap.length (buckets.getD (hash keys key n).toNat none) =
      none) :
    ∀ e ∈ es, keys.equals e.1 key = false := by
  intro a ha
  obtain ⟨p, hp, e, he, rfl⟩ := mem_contents.mp (hs.perm.mem_iff.mpr ha)
  by_contra hk
  have : holdsKey keys heap key p := by
    rw [holdsKey, he, Option.any_some]
    exact Bool.eq_true_of_not_eq_false hk
  rw [(hs.found_iff h).mpr ⟨hp, this⟩] at hf
  cases hf

/-- A table whose entries stay shows the same map. -/
theorem frame (hs : Shows keys heap buckets n count es) (hd : Chained heap) (hd' : Chained heap')
    (hsame : ∀ p ∈ cells heap buckets, heap'[p]? = heap[p]?) (hle : heap.length ≤ heap'.length) :
    Shows keys heap' buckets n count es := by
  have hchain : ∀ b ∈ buckets, chain heap' b = chain heap b := by
    intro b hb
    apply walk_frame hd hd' (hs.valid b hb)
    intro p hp
    rw [hsame p (mem_cells.mpr ⟨b, hb, hp⟩)]
  have hcells : cells heap' buckets = cells heap buckets := List.flatMap_congr hchain
  constructor
  · exact hs.positive
  · exact hs.length_eq
  · intro b hb p hp
    exact (hs.valid b hb p hp).trans_le hle
  · intro i p hp e he
    by_cases hi : i < buckets.length
    · have hb : buckets.getD i none ∈ buckets := by
        rw [List.getD_eq_getElem _ _ hi]
        exact List.getElem_mem hi
      rw [hchain _ hb] at hp
      rw [hsame p (mem_cells.mpr ⟨_, hb, hp⟩)] at he
      exact hs.hashed i p hp e he
    · rw [List.getD_eq_default _ _ (by omega), chain, walk_none] at hp
      cases hp
  · have hcontents : contents heap' (cells heap buckets) = contents heap (cells heap buckets) :=
      contents_congr fun p hp => by rw [hsame p hp]
    rw [hcells, hcontents]
    exact hs.perm
  · exact hs.count_eq
  · exact hs.distinct

theorem valid_getD (hs : Shows keys heap buckets n count es) (i : ℕ) :
    ∀ p ∈ buckets.getD i none, p < heap.length := by
  by_cases hi : i < buckets.length
  · apply hs.valid
    rw [List.getD_eq_getElem _ _ hi]
    exact List.getElem_mem hi
  · rw [List.getD_eq_default _ _ (by omega)]
    intro p hp
    cases hp

end Shows

/-! ## Steps of the heap -/

/-- Entries are added, and of the old ones only those are written that `touched` says. The end of
a chain stays an end. -/
structure Evolves (heap heap' : List (Entry K V)) (touched : ℕ → Prop) : Prop where
  chained : Chained heap'
  length_le : heap.length ≤ heap'.length
  same : ∀ q, q < heap.length → ¬ touched q → heap'[q]? = heap[q]?
  ends : ∀ (q : ℕ) (e : Entry K V), heap[q]? = some e → e.next = none →
    ∃ e' : Entry K V, heap'[q]? = some e' ∧ e'.next = none

theorem Evolves.refl (hd : Chained heap) (touched : ℕ → Prop) : Evolves heap heap touched where
  chained := hd
  length_le := le_rfl
  same _ _ _ := rfl
  ends _ e he hnone := ⟨e, he, hnone⟩

theorem Evolves.trans {heap'' : List (Entry K V)} {touched : ℕ → Prop}
    (h : Evolves heap heap' touched) (h' : Evolves heap' heap'' fun _ => False) :
    Evolves heap heap'' touched where
  chained := h'.chained
  length_le := h.length_le.trans h'.length_le
  same q hq ht := by rw [h'.same q (hq.trans_le h.length_le) (by simp), h.same q hq ht]
  ends q e he hnone := by
    obtain ⟨e', he', hnone'⟩ := h.ends q e he hnone
    exact h'.ends q e' he' hnone'

/-- Nothing on the chains of the table is written. -/
theorem Shows.evolves {touched : ℕ → Prop} (hs : Shows keys heap buckets n count es)
    (hd : Chained heap) (h : Evolves heap heap' touched)
    (hu : ∀ p ∈ cells heap buckets, ¬ touched p) : Shows keys heap' buckets n count es := by
  apply hs.frame hd h.chained _ h.length_le
  intro p hp
  obtain ⟨e, he⟩ := exists_entry hd hp
  exact h.same p (lt_of_getElem? he) (hu p hp)

theorem evolves_append (hd : Chained heap) {e : Entry K V} (he : ∀ q ∈ e.next, q < heap.length) :
    Evolves heap (heap ++ [e]) fun _ => False where
  chained := hd.append he
  length_le := by simp
  same q hq _ := List.getElem?_append_left hq
  ends q f hf hnone := ⟨f, by rw [List.getElem?_append_left (lt_of_getElem? hf), hf], hnone⟩

theorem getElem?_setValue (p q : ℕ) :
    (setValue heap p value)[q]? =
      if p = q then (heap[q]?).map fun e => { e with value := value } else heap[q]? := by
  rw [setValue]
  split
  · subst q
    apply List.getElem?_modify_eq
  · exact List.getElem?_modify_ne _ _ ‹_›

theorem getElem?_setNext (p q : ℕ) (next : Option ℕ) :
    (setNext heap p next)[q]? =
      if p = q then (heap[q]?).map fun e => { e with next := next } else heap[q]? := by
  rw [setNext]
  split
  · subst q
    apply List.getElem?_modify_eq
  · exact List.getElem?_modify_ne _ _ ‹_›

variable (heap value) in
theorem setValue_links (p q : ℕ) :
    (setValue heap p value)[q]?.map Entry.next = heap[q]?.map Entry.next := by
  rw [getElem?_setValue]
  split
  · rw [Option.map_map]
    rfl
  · rfl

/-! ## Add -/

/-- A new entry in front of its chain. -/
theorem Shows.push (hs : Shows keys heap buckets n count es) (hd : Chained heap) {i : ℕ}
    (hi : i < buckets.length) (hkey : hash keys key n = i)
    (habsent : ∀ e ∈ es, keys.equals e.1 key = false) (value : V) :
    Shows keys (heap ++ [⟨key, value, buckets.getD i none⟩]) (buckets.set i (some heap.length)) n
      (count + 1) ((key, value) :: es) := by
  have hhead := hs.valid_getD i
  have hev := evolves_append hd (e := ⟨key, value, buckets.getD i none⟩) hhead
  have hnew : (heap ++ [⟨key, value, buckets.getD i none⟩])[heap.length]? =
      some ⟨key, value, buckets.getD i none⟩ := by
    rw [List.getElem?_append_right le_rfl, Nat.sub_self]
    rfl
  have hpush := walk_push hd (c := ⟨key, value, buckets.getD i none⟩) hhead
  have hkeep : ∀ b ∈ buckets, chain (heap ++ [⟨key, value, buckets.getD i none⟩]) b =
      chain heap b := fun b hb => walk_append hd hhead (hs.valid b hb)
  have hold : ∀ p, p < heap.length →
      (heap ++ [⟨key, value, buckets.getD i none⟩])[p]? = heap[p]? := fun p hp =>
    hev.same p hp (by simp)
  constructor
  · exact hs.positive
  · rw [List.length_set]
    exact hs.length_eq
  · intro b hb p hp
    rw [List.length_append, List.length_singleton]
    cases List.mem_or_eq_of_mem_set hb with
    | inl hb => exact (hs.valid b hb p hp).trans (Nat.lt_succ_self _)
    | inr hb =>
        subst hb
        cases hp
        omega
  · intro j p hp e he
    by_cases hj : j = i
    · subst j
      rw [getD_set hi, if_pos rfl, chain, hpush, List.mem_cons] at hp
      cases hp with
      | inl hp =>
          rw [hp, hnew] at he
          cases he
          exact hkey
      | inr hp =>
          rw [hold p (lt_of_mem_walk hd hp)] at he
          exact hs.hashed i p hp e he
    · rw [getD_set hi, if_neg (Ne.symm hj), chain, walk_append hd hhead (hs.valid_getD j)] at hp
      rw [hold p (lt_of_mem_walk hd hp)] at he
      exact hs.hashed j p hp e he
  · have hsplit := cells_split heap hi
    have hcells : cells (heap ++ [⟨key, value, buckets.getD i none⟩])
        (buckets.set i (some heap.length)) = cells heap (buckets.take i) ++
          heap.length :: (chain heap (buckets.getD i none) ++
            cells heap (buckets.drop (i + 1))) := by
      rw [cells_set hi, chain, hpush, cells, cells,
        List.flatMap_congr fun b hb => hkeep b (List.mem_of_mem_take hb),
        List.flatMap_congr fun b hb => hkeep b (List.mem_of_mem_drop hb)]
      rfl
    have hlt : ∀ p ∈ cells heap buckets, p < heap.length := fun p hp => by
      obtain ⟨e, he⟩ := exists_entry hd hp
      exact lt_of_getElem? he
    rw [hsplit] at hlt
    have hfront : contents (heap ++ [⟨key, value, buckets.getD i none⟩])
        (cells heap (buckets.take i)) = contents heap (cells heap (buckets.take i)) :=
      contents_congr fun p hp => by rw [hold p (hlt p (List.mem_append_left _ hp))]
    have hback : contents (heap ++ [⟨key, value, buckets.getD i none⟩])
        (chain heap (buckets.getD i none) ++ cells heap (buckets.drop (i + 1))) =
          contents heap (chain heap (buckets.getD i none) ++ cells heap (buckets.drop (i + 1))) :=
      contents_congr fun p hp => by rw [hold p (hlt p (List.mem_append_right _ hp))]
    have hmid : contents (heap ++ [⟨key, value, buckets.getD i none⟩])
        (heap.length :: (chain heap (buckets.getD i none) ++
          cells heap (buckets.drop (i + 1)))) = (key, value) ::
        contents heap (chain heap (buckets.getD i none) ++ cells heap (buckets.drop (i + 1))) := by
      rw [← hback, contents, List.filterMap_cons, hnew]
      rfl
    rw [hcells, contents_append, hfront, hmid]
    refine List.perm_middle.trans (List.Perm.cons _ ?_)
    rw [← contents_append, ← hsplit]
    exact hs.perm
  · rw [hs.count_eq, List.length_cons]
    push_cast
    rfl
  · exact hs.distinct.cons habsent

theorem Shows.not_found (hs : Shows keys heap buckets n count es) (h : 0 ≤ hash keys key n)
    (habsent : ∀ e ∈ es, keys.equals e.1 key = false) :
    entryForKey keys heap key heap.length (buckets.getD (hash keys key n).toNat none) = none := by
  cases hf : entryForKey keys heap key heap.length
      (buckets.getD (hash keys key n).toNat none) with
  | none => rfl
  | some p =>
      obtain ⟨hp, hk⟩ := (hs.found_iff h).mp hf
      rw [holdsKey, Option.any_eq_true] at hk
      obtain ⟨e, he, hke⟩ := hk
      have := habsent _ (hs.perm.mem_iff.mp (mem_contents.mpr ⟨p, hp, e, he, rfl⟩))
      rw [hke] at this
      cases this

theorem addEntry_absent {ht : Hashtable} (hd : Chained heap)
    (hs : Shows keys heap buckets ht.numberOfBuckets ht.count es)
    (h : 0 ≤ hash keys key ht.numberOfBuckets)
    (habsent : ∀ e ∈ es, keys.equals e.1 key = false) (value : V) (overwrite : Bool) :
    ∃ heap' buckets', addEntry keys heap ht buckets key value overwrite =
        .ok (heap', { ht with
          count := ht.count + 1
          loadFactor := (ht.count + 1).tdiv ht.numberOfBuckets }, buckets') ∧
      Shows keys heap' buckets' ht.numberOfBuckets (ht.count + 1) ((key, value) :: es) ∧
      Evolves heap heap' fun _ => False := by
  have hlt := hash_lt keys hs.positive key
  have hlen := hs.length_eq
  have hpush := hs.push hd (i := (hash keys key ht.numberOfBuckets).toNat) (by omega) (by omega)
    habsent value
  refine ⟨_, _, ?_, hpush, evolves_append hd (hs.valid_getD _)⟩
  rw [addEntry, whichBucket_eq hs.positive hlen h]
  dsimp only
  rw [hs.not_found h habsent]

theorem addEntry_found {ht : Hashtable}
    (hs : Shows keys heap buckets ht.numberOfBuckets ht.count es)
    (h : 0 ≤ hash keys key ht.numberOfBuckets) {p : ℕ} (hp : p ∈ cells heap buckets)
    (hk : holdsKey keys heap key p) (value : V) (overwrite : Bool) :
    addEntry keys heap ht buckets key value overwrite =
      if overwrite then .ok (setValue heap p value, ht, buckets) else .error .argument := by
  rw [addEntry, whichBucket_eq hs.positive hs.length_eq h]
  dsimp only
  rw [(hs.found_iff h).mpr ⟨hp, hk⟩]

/-! ## The setter of the indexer -/

theorem evolves_setValue (hd : Chained heap) (p : ℕ) (value : V) :
    Evolves heap (setValue heap p value) fun q => q = p ∧ ∃ e ∈ heap[q]?, e.value ≠ value where
  chained := by
    intro q e he r hr
    have hlink := setValue_links heap value p q
    rw [he, Option.map_some] at hlink
    obtain ⟨f, hf, hnext⟩ := Option.map_eq_some_iff.mp hlink.symm
    exact hd.lt hf (hnext.trans hr)
  length_le := by rw [setValue, List.length_modify]
  same q hq ht := by
    rw [getElem?_setValue]
    split
    · rename_i hpq
      obtain ⟨e, he⟩ : ∃ e, heap[q]? = some e := ⟨_, List.getElem?_eq_getElem hq⟩
      have hv : e.value = value := by
        by_contra hv
        exact ht ⟨hpq.symm, e, he, hv⟩
      rw [he, Option.map_some, ← hv]
    · rfl
  ends q e he hnone := by
    have hlink := setValue_links heap value p q
    rw [he, Option.map_some, Option.map_eq_some_iff] at hlink
    obtain ⟨f, hf, hnext⟩ := hlink
    exact ⟨f, hf, hnext.trans hnone⟩

theorem Shows.setValue (hs : Shows keys heap buckets n count es) (hd : Chained heap) {p : ℕ}
    (hp : p ∈ cells heap buckets) (hk : holdsKey keys heap key p) (value : V) :
    Shows keys (setValue heap p value) buckets n count (replace keys es key value) := by
  have hev := evolves_setValue hd p value
  have hchain : ∀ b ∈ buckets, chain (Collections.setValue heap p value) b = chain heap b :=
    fun b hb => walk_frame hd hev.chained (hs.valid b hb) fun q _ => setValue_links _ _ p q
  have hentry : ∀ (q : ℕ) (e : Entry K V), (Collections.setValue heap p value)[q]? = some e →
      ∃ f, heap[q]? = some f ∧ f.key = e.key := by
    intro q e he
    rw [getElem?_setValue] at he
    split at he
    · obtain ⟨f, hf, rfl⟩ := Option.map_eq_some_iff.mp he
      exact ⟨f, hf, rfl⟩
    · exact ⟨e, he, rfl⟩
  constructor
  · exact hs.positive
  · exact hs.length_eq
  · intro b hb q hq
    exact (hs.valid b hb q hq).trans_le hev.length_le
  · intro i q hq e he
    obtain ⟨f, hf, hkey⟩ := hentry q e he
    have hwalk : chain (Collections.setValue heap p value) (buckets.getD i none) =
        chain heap (buckets.getD i none) :=
      walk_frame hd hev.chained (hs.valid_getD i) fun q _ => setValue_links _ _ p q
    rw [hwalk] at hq
    rw [← hkey]
    exact hs.hashed i q hq f hf
  · have hcells : cells (Collections.setValue heap p value) buckets = cells heap buckets :=
      List.flatMap_congr hchain
    rw [hcells, Collections.replace]
    refine List.Perm.trans (List.Perm.of_eq ?_) (hs.perm.map _)
    rw [contents, contents, List.map_filterMap]
    apply List.filterMap_congr
    intro q hq
    obtain ⟨f, hf⟩ := exists_entry hd hq
    rw [getElem?_setValue, hf]
    by_cases hpq : p = q
    · subst q
      rw [holdsKey, hf, Option.any_some] at hk
      simp [hk]
    · have hnot : keys.equals f.key key = false := by
        by_contra h
        apply hpq
        apply hs.unique hp hq hk
        rw [holdsKey, hf, Option.any_some]
        exact Bool.eq_true_of_not_eq_false h
      simp [hpq, hnot]
  · rw [hs.count_eq, Collections.replace, List.length_map]
  · exact hs.distinct.replace

/-! ## Rehashing -/

theorem shows_replicate (hn : 0 < n) :
    Shows keys heap (List.replicate n none) n 0 ([] : List (K × V)) := by
  have hnone : ∀ b ∈ List.replicate n (none : Option ℕ), b = none := fun b hb =>
    List.eq_of_mem_replicate hb
  have hcells : cells heap (List.replicate n none) = [] := by
    rw [cells, List.flatMap_eq_nil_iff]
    intro b hb
    rw [hnone b hb, walk_none]
  constructor
  · exact hn
  · exact List.length_replicate
  · intro b hb p hp
    rw [hnone b hb] at hp
    cases hp
  · intro i p hp
    have : (List.replicate n (none : Option ℕ)).getD i none = none := by
      rw [List.getD_eq_getElem?_getD, List.getElem?_replicate]
      split <;> rfl
    rw [this, chain, walk_none] at hp
    cases hp
  · rw [hcells]
    exact List.Perm.refl _
  · rfl
  · exact List.Pairwise.nil

/-- All entries find their place among the new buckets. -/
theorem reinsert_spec {ids : List ℕ} (ht : Hashtable) (hd : Chained heap)
    (hs : Shows keys heap buckets ht.numberOfBuckets ht.count es)
    (hids : ∀ p ∈ ids, p < heap.length)
    (hhash : ∀ a ∈ contents heap ids, 0 ≤ hash keys a.1 ht.numberOfBuckets)
    (hdist : Distinct keys (contents heap ids ++ es)) :
    ∃ heap' ht' buckets', reinsert keys heap ht buckets ids = ((heap', ht', buckets'), none) ∧
      ht'.numberOfBuckets = ht.numberOfBuckets ∧
      Shows keys heap' buckets' ht'.numberOfBuckets ht'.count (contents heap ids ++ es) ∧
      Evolves heap heap' fun _ => False := by
  induction ids generalizing heap ht buckets es with
  | nil => exact ⟨heap, ht, buckets, rfl, rfl, hs, Evolves.refl hd _⟩
  | cons p ids ih =>
      obtain ⟨e, he⟩ : ∃ e, heap[p]? = some e :=
        ⟨_, List.getElem?_eq_getElem (hids p List.mem_cons_self)⟩
      have hcons : contents heap (p :: ids) = (e.key, e.value) :: contents heap ids := by
        rw [contents, List.filterMap_cons, he]
        rfl
      rw [hcons, List.cons_append, Distinct, List.pairwise_cons] at hdist
      rw [hcons] at hhash
      have habsent : ∀ a ∈ es, keys.equals a.1 e.key = false := fun a ha =>
        equals_false_symm (hdist.1 a (List.mem_append_right _ ha))
      obtain ⟨heap₁, buckets₁, hadd, hs₁, hev₁⟩ := addEntry_absent hd hs
        (hhash _ List.mem_cons_self) habsent e.value false
      have hsame : contents heap₁ ids = contents heap ids := contents_congr fun q hq => by
        rw [hev₁.same q (hids q (List.mem_cons_of_mem _ hq)) (by simp)]
      obtain ⟨heap₂, ht₂, buckets₂, hrun, hn, hs₂, hev₂⟩ := ih
        { ht with
          count := ht.count + 1
          loadFactor := (ht.count + 1).tdiv ht.numberOfBuckets } hev₁.chained hs₁
        (fun q hq => (hids q (List.mem_cons_of_mem _ hq)).trans_le hev₁.length_le)
        (by rw [hsame]; exact fun a ha => hhash a (List.mem_cons_of_mem _ ha))
        (by
          rw [hsame]
          apply Distinct.perm _ List.perm_middle.symm
          exact List.pairwise_cons.mpr hdist)
      refine ⟨heap₂, ht₂, buckets₂, ?_, hn, ?_, hev₁.trans hev₂⟩
      · rw [reinsert, he]
        dsimp only
        rw [hadd]
        exact hrun
      · rw [hsame] at hs₂
        rw [hcons]
        exact { hs₂ with
          perm := hs₂.perm.trans List.perm_middle
          count_eq := by
            rw [hs₂.count_eq]
            simp only [List.length_append, List.length_cons]
            omega
          distinct := hs₂.distinct.perm List.perm_middle }

theorem rehash_spec (ht : Hashtable) (hd : Chained heap)
    (hs : Shows keys heap ht.buckets ht.numberOfBuckets ht.count es) {newSize : ℤ}
    (hsize : 0 < newSize) (hhash : ∀ a ∈ es, 0 ≤ hash keys a.1 newSize.toNat) :
    ∃ heap' ht', rehash keys heap ht newSize = ((heap', ht'), none) ∧
      Shows keys heap' ht'.buckets ht'.numberOfBuckets ht'.count es ∧
      Evolves heap heap' fun _ => False := by
  have hids : ∀ p ∈ cells heap ht.buckets, p < heap.length := fun p hp => by
    obtain ⟨e, he⟩ := exists_entry hd hp
    exact lt_of_getElem? he
  obtain ⟨heap', ht', buckets', hrun, hn, hs', hev⟩ := reinsert_spec
    { ht with numberOfBuckets := newSize.toNat, count := 0 } hd
    (shows_replicate (by show 0 < newSize.toNat; omega)) hids
    (fun a ha => hhash a (hs.perm.mem_iff.mp ha))
    (by
      rw [List.append_nil]
      exact hs.distinct.perm hs.perm.symm)
  refine ⟨heap', { ht' with buckets := buckets' }, ?_, ?_, hev⟩
  · rw [rehash, if_neg (by omega), hrun]
  · rw [List.append_nil] at hs'
    exact { hs' with
      perm := hs'.perm.trans hs.perm
      count_eq := by rw [hs'.count_eq, hs.perm.length_eq]
      distinct := hs'.distinct.perm hs.perm }

/-- A new size for the buckets, in which each key has a bucket. -/
def Grows (keys : KeyType K) (newSize : ℤ) (es : List (K × V)) : Prop :=
  0 < newSize ∧ ∀ a ∈ es, 0 ≤ hash keys a.1 newSize.toNat

theorem store_absent {scaled : ℕ → ℚ → ℤ} {ht : Hashtable} (hd : Chained heap)
    (hs : Shows keys heap ht.buckets ht.numberOfBuckets ht.count es)
    (h : 0 ≤ hash keys key ht.numberOfBuckets)
    (habsent : ∀ e ∈ es, keys.equals e.1 key = false) (value : V) (overwrite : Bool)
    (hgrow : ht.maxLoadFactor ≤ (ht.count + 1).tdiv ht.numberOfBuckets →
      Grows keys (scaled ht.numberOfBuckets ht.growthFactor) ((key, value) :: es)) :
    ∃ heap' ht', store keys scaled heap ht key value overwrite = ((heap', ht'), none) ∧
      Shows keys heap' ht'.buckets ht'.numberOfBuckets ht'.count ((key, value) :: es) ∧
      Evolves heap heap' fun _ => False := by
  obtain ⟨heap₁, buckets₁, hadd, hs₁, hev₁⟩ := addEntry_absent hd hs h habsent value overwrite
  rw [store, hadd]
  dsimp only
  split
  · rename_i hload
    obtain ⟨hsize, hhash⟩ := hgrow hload
    obtain ⟨heap₂, ht₂, hrun, hs₂, hev₂⟩ := rehash_spec
      { ht with
        count := ht.count + 1
        loadFactor := (ht.count + 1).tdiv ht.numberOfBuckets
        buckets := buckets₁ } hev₁.chained hs₁ hsize hhash
    exact ⟨heap₂, ht₂, hrun, hs₂, hev₁.trans hev₂⟩
  · exact ⟨_, _, rfl, hs₁, hev₁⟩

theorem setItem_found (scaled : ℕ → ℚ → ℤ) {ht : Hashtable} (hd : Chained heap)
    (hs : Shows keys heap ht.buckets ht.numberOfBuckets ht.count es)
    (h : 0 ≤ hash keys key ht.numberOfBuckets) {p : ℕ} (hp : p ∈ cells heap ht.buckets)
    (hk : holdsKey keys heap key p) (value : V)
    (hgrow : ht.maxLoadFactor ≤ ht.loadFactor →
      Grows keys (scaled ht.numberOfBuckets ht.growthFactor) es) :
    ∃ heap' ht', store keys scaled heap ht key value true = ((heap', ht'), none) ∧
      Shows keys heap' ht'.buckets ht'.numberOfBuckets ht'.count (replace keys es key value) ∧
      Evolves heap heap' fun q => q = p ∧ ∃ e ∈ heap[q]?, e.value ≠ value := by
  have hev := evolves_setValue hd p value
  have hs₁ := hs.setValue hd hp hk value
  rw [store, addEntry_found hs h hp hk, if_pos rfl]
  dsimp only
  split
  · rename_i hload
    obtain ⟨hsize, hhash⟩ := hgrow hload
    have hhash₁ : ∀ a ∈ replace keys es key value,
        0 ≤ hash keys a.1 (scaled ht.numberOfBuckets ht.growthFactor).toNat := by
      intro a ha
      obtain ⟨b, hb, rfl⟩ := List.mem_map.mp ha
      have := hhash b hb
      split <;> exact this
    obtain ⟨heap₂, ht₂, hrun, hs₂, hev₂⟩ := rehash_spec ht hev.chained hs₁ hsize hhash₁
    exact ⟨heap₂, ht₂, hrun, hs₂, hev.trans hev₂⟩
  · exact ⟨_, _, rfl, hs₁, hev⟩

theorem add_found {scaled : ℕ → ℚ → ℤ} {ht : Hashtable}
    (hs : Shows keys heap ht.buckets ht.numberOfBuckets ht.count es)
    (h : 0 ≤ hash keys key ht.numberOfBuckets) {p : ℕ} (hp : p ∈ cells heap ht.buckets)
    (hk : holdsKey keys heap key p) (value : V) :
    store keys scaled heap ht key value false = ((heap, ht), some .argument) := by
  rw [store, addEntry_found hs h hp hk]
  rfl

/-! ## Remove -/

theorem precedes_eq (found : ℕ) (head : Option ℕ) (m : ℕ) :
    precedes heap found m head = (walkFrom Entry.next heap m head).find? fun p =>
      decide ((heap[p]?).bind Entry.next = some found) := by
  induction m generalizing head with
  | zero => rfl
  | succ m ih =>
      cases head with
      | none => rfl
      | some p =>
          rw [precedes, walkFrom]
          cases he : heap[p]? with
          | none => rfl
          | some e =>
              simp only [List.find?_cons, he, Option.bind_some]
              split <;> rename_i hnext
              · simp [hnext]
              · simp [hnext, ih]

/-- Without the entry of a key, its contents are left. -/
theorem Shows.contents_erase (hs : Shows keys heap buckets n count es) (hd : Chained heap) {p : ℕ}
    {front back : List ℕ} (hcells : cells heap buckets = front ++ p :: back)
    (hk : holdsKey keys heap key p) :
    (contents heap (front ++ back)).Perm (erase keys es key) ∧
      count = (erase keys es key).length + 1 := by
  have hp : p ∈ cells heap buckets := by
    rw [hcells]
    exact List.mem_append_right _ List.mem_cons_self
  obtain ⟨e, he⟩ := exists_entry hd hp
  have hnodup := hs.nodup hd
  rw [hcells, List.nodup_middle, List.nodup_cons] at hnodup
  have hrest : ∀ q ∈ front ++ back, holdsKey keys heap key q = false := by
    intro q hq
    by_contra hkq
    have hqc : q ∈ cells heap buckets := by
      rw [hcells]
      apply List.perm_middle.mem_iff.mpr
      exact List.mem_cons_of_mem _ hq
    apply hnodup.1
    rw [← hs.unique hqc hp (Bool.eq_true_of_not_eq_false hkq) hk]
    exact hq
  have hperm : (contents heap (p :: (front ++ back))).Perm es := by
    refine List.Perm.trans ?_ hs.perm
    rw [hcells]
    exact List.Perm.filterMap _ List.perm_middle.symm
  have hcons : contents heap (p :: (front ++ back)) =
      (e.key, e.value) :: contents heap (front ++ back) := by
    rw [contents, List.filterMap_cons, he]
    rfl
  rw [holdsKey, he, Option.any_some] at hk
  have herase : (contents heap (front ++ back)).Perm (erase keys es key) := by
    refine List.Perm.trans (List.Perm.of_eq ?_) (hperm.filter _)
    rw [hcons, List.filter_cons, hk]
    symm
    apply List.filter_eq_self.mpr
    intro a ha
    obtain ⟨q, hq, f, hf, rfl⟩ := mem_contents.mp ha
    have := hrest q hq
    rw [holdsKey, hf, Option.any_some] at this
    rw [this]
    rfl
  refine ⟨herase, ?_⟩
  rw [hs.count_eq, ← hperm.length_eq, hcons, List.length_cons, herase.length_eq]
  push_cast
  rfl

/-- An entry is taken out of its chain, whichever way. -/
theorem Shows.unlink (hs : Shows keys heap buckets n count es) (hd : Chained heap) {i p : ℕ}
    {b : Option ℕ} (front back : List ℕ) (hi : i < buckets.length)
    (hle : heap.length ≤ heap'.length) (hb : ∀ q ∈ b, q < heap.length)
    (hkeep : ∀ q : ℕ, (heap'[q]?).map (fun e => (e.key, e.value)) =
      (heap[q]?).map fun e => (e.key, e.value))
    (hold : chain heap (buckets.getD i none) = front ++ p :: back)
    (hnew : chain heap' b = front ++ back)
    (hother : ∀ j, j ≠ i → chain heap' (buckets.getD j none) = chain heap (buckets.getD j none))
    (hk : holdsKey keys heap key p) :
    Shows keys heap' (buckets.set i b) n (count - 1) (erase keys es key) := by
  have hcells : cells heap buckets = (cells heap (buckets.take i) ++ front) ++
      p :: (back ++ cells heap (buckets.drop (i + 1))) := by
    rw [cells_split heap hi, hold]
    simp only [List.append_assoc, List.cons_append]
  obtain ⟨hperm, hcount⟩ := hs.contents_erase hd hcells hk
  have hcells' : cells heap' (buckets.set i b) = (cells heap (buckets.take i) ++ front) ++
      (back ++ cells heap (buckets.drop (i + 1))) := by
    have htake : cells heap' (buckets.take i) = cells heap (buckets.take i) := by
      apply List.flatMap_congr
      intro c hc
      obtain ⟨j, hj, rfl⟩ := getD_of_mem_take hc
      exact hother j (by omega)
    have hdrop : cells heap' (buckets.drop (i + 1)) = cells heap (buckets.drop (i + 1)) := by
      apply List.flatMap_congr
      intro c hc
      obtain ⟨j, hj, rfl⟩ := getD_of_mem_drop hc
      exact hother j (by omega)
    rw [cells_set hi, htake, hdrop, hnew]
    simp only [List.append_assoc]
  have hcontents : ∀ ids, contents heap' ids = contents heap ids := fun ids =>
    contents_congr fun q _ => hkeep q
  constructor
  · exact hs.positive
  · rw [List.length_set]
    exact hs.length_eq
  · intro c hc q hq
    apply lt_of_lt_of_le _ hle
    cases List.mem_or_eq_of_mem_set hc with
    | inl hc => exact hs.valid c hc q hq
    | inr hc =>
        rw [hc] at hq
        exact hb q hq
  · intro j q hq e he
    have hkey : ∃ f, heap[q]? = some f ∧ f.key = e.key := by
      have := hkeep q
      rw [he, Option.map_some] at this
      obtain ⟨f, hf, hfe⟩ := Option.map_eq_some_iff.mp this.symm
      exact ⟨f, hf, congrArg Prod.fst hfe⟩
    obtain ⟨f, hf, hfe⟩ := hkey
    have hmem : q ∈ chain heap (buckets.getD j none) := by
      rw [getD_set hi] at hq
      split at hq
      · subst j
        rw [hnew] at hq
        rw [hold]
        apply List.perm_middle.mem_iff.mpr
        exact List.mem_cons_of_mem _ hq
      · rwa [hother j (Ne.symm ‹_›)] at hq
    rw [← hfe]
    exact hs.hashed j q hmem f hf
  · rw [hcells', hcontents]
    exact hperm
  · rw [hcount]
    omega
  · exact hs.distinct.erase

theorem evolves_setNext (hd : Chained heap) {c p : ℕ} {e f : Entry K V} (he : heap[c]? = some e)
    (hlink : e.next = some p) (hf : heap[p]? = some f) :
    Evolves heap (setNext heap c f.next) fun q => q = c where
  chained := by
    have : setNext heap c f.next = heap.set c { e with next := f.next } := by
      rw [setNext, List.modify_eq_set_getElem?, he]
      rfl
    rw [this]
    apply hd.set
    intro q hq
    exact (hd.lt hf hq).trans (hd.lt he hlink)
  length_le := by rw [setNext, List.length_modify]
  same q _ ht := by rw [getElem?_setNext, if_neg (Ne.symm ht)]
  ends q g hg hnone := by
    by_cases hqc : c = q
    · subst q
      rw [he] at hg
      cases hg
      rw [hlink] at hnone
      cases hnone
    · exact ⟨g, by rw [getElem?_setNext, if_neg hqc, hg], hnone⟩

theorem remove_absent {ht : Hashtable}
    (hs : Shows keys heap ht.buckets ht.numberOfBuckets ht.count es)
    (h : 0 ≤ hash keys key ht.numberOfBuckets)
    (habsent : ∀ e ∈ es, keys.equals e.1 key = false) :
    remove keys heap ht key = .ok (heap, ht) := by
  rw [remove, whichBucket_eq hs.positive hs.length_eq h]
  dsimp only
  rw [hs.not_found h habsent]

theorem remove_found {ht : Hashtable} (hd : Chained heap)
    (hs : Shows keys heap ht.buckets ht.numberOfBuckets ht.count es)
    (h : 0 ≤ hash keys key ht.numberOfBuckets) {p : ℕ} (hp : p ∈ cells heap ht.buckets)
    (hk : holdsKey keys heap key p) :
    ∃ heap' ht', remove keys heap ht key = .ok (heap', ht') ∧
      Shows keys heap' ht'.buckets ht'.numberOfBuckets ht'.count (erase keys es key) ∧
      Evolves heap heap' fun q =>
        q ∈ cells heap ht.buckets ∧ (heap[q]?).bind Entry.next = some p := by
  have hlt := hash_lt keys hs.positive key
  have hlen := hs.length_eq
  have hfound := (hs.found_iff h).mpr ⟨hp, hk⟩
  have hmem : p ∈ chain heap (ht.buckets.getD (hash keys key ht.numberOfBuckets).toNat none) := by
    rw [entryForKey_eq] at hfound
    exact List.mem_of_find?_eq_some hfound
  have hi : (hash keys key ht.numberOfBuckets).toNat < ht.buckets.length := by omega
  obtain ⟨e, he⟩ := exists_entry hd hp
  rw [remove, whichBucket_eq hs.positive hlen h]
  dsimp only
  rw [hfound]
  dsimp only
  rw [he, Option.bind_some]
  generalize (hash keys key ht.numberOfBuckets).toNat = i at *
  split
  · -- the entry at the front: the bucket goes on with the next one
    rename_i hhead
    refine ⟨_, _, rfl, ?_, Evolves.refl hd _⟩
    apply hs.unlink hd [] _ hi le_rfl _ (fun _ => rfl) _ rfl (fun _ _ => rfl) hk
    · intro q hq
      exact (hd.lt he hq).trans (lt_of_getElem? he)
    · rw [hhead, List.nil_append]
      exact walk_some hd he
  · -- behind another entry, whose link is changed
    rename_i hhead
    have hprecedes : ∃ c ∈ chain heap (ht.buckets.getD i none),
        precedes heap p heap.length (ht.buckets.getD i none) = some c ∧
        (heap[c]?).bind Entry.next = some p := by
      rw [precedes_eq]
      cases hfind : (walkFrom Entry.next heap heap.length (ht.buckets.getD i none)).find? fun c =>
          decide ((heap[c]?).bind Entry.next = some p) with
      | none =>
          obtain ⟨c, hc, hlink⟩ := exists_link hd hmem hhead
          exact absurd hlink (by simpa using List.find?_eq_none.mp hfind c hc)
      | some c =>
          exact ⟨c, List.mem_of_find?_eq_some hfind, rfl, by simpa using List.find?_some hfind⟩
    obtain ⟨c, hc, hprec, hlink⟩ := hprecedes
    obtain ⟨f, hf, hfp⟩ := Option.bind_eq_some_iff.mp hlink
    rw [hprec]
    dsimp only
    have hb : ht.buckets.getD i none ∈ ht.buckets := by
      rw [List.getD_eq_getElem _ _ hi]
      exact List.getElem_mem hi
    have hev := evolves_setNext hd hf hfp he
    refine ⟨_, _, rfl, ?_, { hev with
      same := fun q hq ht => hev.same q hq fun hqc => ht (by
        rw [hqc]
        exact ⟨mem_cells.mpr ⟨_, hb, hc⟩, hlink⟩) }⟩
    obtain ⟨front, hfront⟩ := walk_eq_append hd hc
    rw [walk_some hd hf, hfp, walk_some hd he] at hfront
    have hset : setNext heap c e.next = heap.set c { f with next := e.next } := by
      rw [setNext, List.modify_eq_set_getElem?, hf]
      rfl
    have hsame : ht.buckets.set i (ht.buckets.getD i none) = ht.buckets := by
      rw [List.getD_eq_getElem _ _ hi, List.set_getElem_self]
    have := hs.unlink (b := ht.buckets.getD i none) hd (front ++ [c])
      (walk Entry.next heap e.next) hi
      (show heap.length ≤ (setNext heap c e.next).length from hev.length_le)
      (hs.valid_getD i)
      (by
        intro q
        rw [getElem?_setNext]
        split
        · rw [Option.map_map]
          rfl
        · rfl)
      (by rw [List.append_assoc]; exact hfront)
      (by
        rw [hset, List.append_assoc]
        exact walk_unlink hd hf hfp he
          (show ({ f with next := e.next } : Entry K V).next = e.next from rfl) hfront)
      (by
        intro j hj
        apply walk_frame hd hev.chained (hs.valid_getD j)
        intro q hq
        have hqc : q ≠ c := by
          intro hqc
          rw [hqc] at hq
          have h₁ := hs.hashed j c hq f hf
          have h₂ := hs.hashed i c hc f hf
          omega
        rw [getElem?_setNext, if_neg (Ne.symm hqc)])
      hk
    rw [hsame] at this
    exact this

end TinyCLR.Collections
