import Mathlib

/-!
# Linked lists that share their ends

The cells of a heap are linked by the position of the next cell. Where each link leads to an
earlier cell, every list ends, and a list changes only with the cells on it.
-/

namespace SharedList

variable {Cell : Type*} (next : Cell → Option ℕ)

/-- Each link leads to an earlier cell. -/
def Descends (heap : List Cell) : Prop :=
  ∀ p c, heap[p]? = some c → ∀ q ∈ next c, q < p

/-- The positions on the list from `head` on, `n` of them at most. -/
def walkFrom (heap : List Cell) : ℕ → Option ℕ → List ℕ
  | 0, _ => []
  | _ + 1, none => []
  | n + 1, some p =>
      match heap[p]? with
      | none => []
      | some c => p :: walkFrom heap n (next c)

/-- The positions on the list from `head` on. -/
def walk (heap : List Cell) (head : Option ℕ) : List ℕ := walkFrom next heap heap.length head

variable {next} {heap heap' : List Cell}

theorem Descends.lt (hd : Descends next heap) {p q : ℕ} {c : Cell} (hc : heap[p]? = some c)
    (hq : next c = some q) : q < p :=
  hd p c hc q hq

/-- Room for as many cells as lie below the head is enough. -/
theorem walkFrom_eq (hd : Descends next heap) {n m : ℕ} {head : Option ℕ}
    (hn : ∀ p ∈ head, p < n) (hm : ∀ p ∈ head, p < m) :
    walkFrom next heap n head = walkFrom next heap m head := by
  induction n generalizing m head with
  | zero =>
      cases head with
      | none => cases m <;> rfl
      | some p => exact absurd (hn p rfl) (by omega)
  | succ n ih =>
      cases head with
      | none => cases m <;> rfl
      | some p =>
          have hp := hn p rfl
          have hpm := hm p rfl
          cases m with
          | zero => omega
          | succ m =>
              rw [walkFrom, walkFrom]
              cases hc : heap[p]? with
              | none => rfl
              | some c =>
                  have hnext : ∀ q ∈ next c, q < p := fun q hq => hd.lt hc hq
                  have hrest : walkFrom next heap n (next c) = walkFrom next heap m (next c) := by
                    apply ih
                    · intro q hq
                      have := hnext q hq
                      omega
                    · intro q hq
                      have := hnext q hq
                      omega
                  simp only [hrest]

@[simp] theorem walk_none : walk next heap none = [] := by
  rw [walk]
  cases heap.length <;> rfl

theorem lt_of_getElem? {p : ℕ} {c : Cell} (hc : heap[p]? = some c) : p < heap.length := by
  by_contra h
  rw [List.getElem?_eq_none (by omega)] at hc
  cases hc

theorem walk_some (hd : Descends next heap) {p : ℕ} {c : Cell} (hc : heap[p]? = some c) :
    walk next heap (some p) = p :: walk next heap (next c) := by
  have hp := lt_of_getElem? hc
  obtain ⟨n, hn⟩ : ∃ n, heap.length = n + 1 := ⟨heap.length - 1, by omega⟩
  have hrest : walkFrom next heap n (next c) = walkFrom next heap heap.length (next c) := by
    apply walkFrom_eq hd
    · intro q hq
      have := hd.lt hc hq
      omega
    · intro q hq
      have := hd.lt hc hq
      omega
  rw [walk, walk, ← hrest, hn, walkFrom, hc]

theorem walk_dangling {p : ℕ} (hp : heap.length ≤ p) : walk next heap (some p) = [] := by
  rw [walk]
  cases heap.length with
  | zero => rfl
  | succ n => rw [walkFrom, List.getElem?_eq_none hp]

/-- What holds of the empty list, and of a list when it holds of what follows its first cell,
holds of every list. -/
theorem walk_induction (hd : Descends next heap) {motive : Option ℕ → Prop}
    (nil : motive none) (dangling : ∀ p, heap.length ≤ p → motive (some p))
    (cons : ∀ p c, heap[p]? = some c → motive (next c) → motive (some p)) (head : Option ℕ) :
    motive head := by
  have hall : ∀ p, motive (some p) := by
    intro p
    induction p using Nat.strong_induction_on with
    | _ p ih =>
        cases hc : heap[p]? with
        | none => exact dangling p (List.getElem?_eq_none_iff.mp hc)
        | some c =>
            apply cons p c hc
            cases hq : next c with
            | none => exact nil
            | some q => exact ih q (hd.lt hc hq)
  cases head with
  | none => exact nil
  | some p => exact hall p

theorem lt_of_mem_walk (hd : Descends next heap) {head : Option ℕ} {q : ℕ}
    (hq : q ∈ walk next heap head) : q < heap.length := by
  induction head using walk_induction hd with
  | nil => simp at hq
  | dangling p hp => simp [walk_dangling hp] at hq
  | cons p c hc ih =>
      rw [walk_some hd hc, List.mem_cons] at hq
      cases hq with
      | inl h => exact h ▸ lt_of_getElem? hc
      | inr h => exact ih h

theorem le_of_mem_walk (hd : Descends next heap) {head : Option ℕ} {q : ℕ}
    (hq : q ∈ walk next heap head) : ∃ p ∈ head, q ≤ p := by
  induction head using walk_induction hd with
  | nil => simp at hq
  | dangling p hp => simp [walk_dangling hp] at hq
  | cons p c hc ih =>
      rw [walk_some hd hc, List.mem_cons] at hq
      cases hq with
      | inl h => exact ⟨p, rfl, h.le⟩
      | inr h =>
          obtain ⟨r, hr, hle⟩ := ih h
          exact ⟨p, rfl, hle.trans (hd.lt hc hr).le⟩

/-- The positions go down along a list. -/
theorem walk_pairwise (hd : Descends next heap) (head : Option ℕ) :
    (walk next heap head).Pairwise (· > ·) := by
  induction head using walk_induction hd with
  | nil => simp
  | dangling p hp => simp [walk_dangling hp]
  | cons p c hc ih =>
      rw [walk_some hd hc, List.pairwise_cons]
      refine ⟨fun q hq => ?_, ih⟩
      obtain ⟨r, hr, hle⟩ := le_of_mem_walk hd hq
      exact hle.trans_lt (hd.lt hc hr)

theorem walk_nodup (hd : Descends next heap) (head : Option ℕ) : (walk next heap head).Nodup :=
  (walk_pairwise hd head).imp fun h => Nat.ne_of_gt h

theorem walk_length_le (hd : Descends next heap) (head : Option ℕ) :
    (walk next heap head).length ≤ heap.length := by
  have hsub : walk next heap head ⊆ List.range heap.length := fun q hq =>
    List.mem_range.mpr (lt_of_mem_walk hd hq)
  have := ((walk_nodup hd head).subperm hsub).length_le
  rwa [List.length_range] at this

/-- A list stays as it is where the links of its cells do. -/
theorem walk_frame (hd : Descends next heap) (hd' : Descends next heap') {head : Option ℕ}
    (hhead : ∀ p ∈ head, p < heap.length)
    (hsame : ∀ p ∈ walk next heap head, heap'[p]?.map next = heap[p]?.map next) :
    walk next heap' head = walk next heap head := by
  induction head using walk_induction hd with
  | nil => simp
  | dangling p hp => exact absurd (hhead p rfl) (by omega)
  | cons p c hc ih =>
      have hmem : p ∈ walk next heap (some p) := by rw [walk_some hd hc]; apply List.mem_cons_self
      have hp := hsame p hmem
      rw [hc, Option.map_some, Option.map_eq_some_iff] at hp
      obtain ⟨c', hc', hnext⟩ := hp
      rw [walk_some hd hc, walk_some hd' hc', hnext, ih]
      · intro q hq
        exact (hd.lt hc hq).trans (lt_of_getElem? hc)
      · intro q hq
        apply hsame
        rw [walk_some hd hc]
        exact List.mem_cons_of_mem _ hq

theorem Descends.append (hd : Descends next heap) {c : Cell}
    (hc : ∀ q ∈ next c, q < heap.length) : Descends next (heap ++ [c]) := by
  intro p d hp q hq
  by_cases h : p < heap.length
  · rw [List.getElem?_append_left h] at hp
    exact hd.lt hp hq
  · rw [List.getElem?_append_right (by omega), List.getElem?_singleton] at hp
    split at hp
    · cases hp
      have := hc q hq
      omega
    · cases hp

theorem walk_append (hd : Descends next heap) {c : Cell} (hc : ∀ q ∈ next c, q < heap.length)
    {head : Option ℕ} (hhead : ∀ p ∈ head, p < heap.length) :
    walk next (heap ++ [c]) head = walk next heap head := by
  apply walk_frame hd (hd.append hc) hhead
  intro p hp
  rw [List.getElem?_append_left (lt_of_mem_walk hd hp)]

/-- A new cell in front of a list. -/
theorem walk_push (hd : Descends next heap) {c : Cell} (hc : ∀ q ∈ next c, q < heap.length) :
    walk next (heap ++ [c]) (some heap.length) = heap.length :: walk next heap (next c) := by
  have hat : (heap ++ [c])[heap.length]? = some c := by
    rw [List.getElem?_append_right le_rfl, Nat.sub_self]
    rfl
  rw [walk_some (hd.append hc) hat, walk_append hd hc hc]

/-- A cell on a list is where another list begins. -/
theorem walk_eq_append (hd : Descends next heap) {head : Option ℕ} {p : ℕ}
    (hp : p ∈ walk next heap head) :
    ∃ front, walk next heap head = front ++ walk next heap (some p) := by
  induction head using walk_induction hd with
  | nil => simp at hp
  | dangling q hq => simp [walk_dangling hq] at hp
  | cons q c hc ih =>
      rw [walk_some hd hc, List.mem_cons] at hp
      cases hp with
      | inl h => exact ⟨[], by rw [h, List.nil_append]⟩
      | inr h =>
          obtain ⟨front, hfront⟩ := ih h
          exact ⟨q :: front, by rw [walk_some hd hc, hfront, List.cons_append]⟩

/-- A cell behind the head has one before it. -/
theorem exists_link (hd : Descends next heap) {head : Option ℕ} {p : ℕ}
    (hp : p ∈ walk next heap head) (hne : head ≠ some p) :
    ∃ q ∈ walk next heap head, (heap[q]?).bind next = some p := by
  induction head using walk_induction hd with
  | nil => simp at hp
  | dangling q hq => simp [walk_dangling hq] at hp
  | cons q c hc ih =>
      rw [walk_some hd hc, List.mem_cons] at hp
      rw [walk_some hd hc]
      cases hp with
      | inl h => exact absurd (congrArg some h.symm) hne
      | inr h =>
          by_cases hlink : next c = some p
          · exact ⟨q, List.mem_cons_self, by rw [hc, Option.bind_some, hlink]⟩
          · obtain ⟨r, hr, hrp⟩ := ih h hlink
            exact ⟨r, List.mem_cons_of_mem _ hr, hrp⟩

/-- Another link in a cell, to where the list of an earlier cell goes on. -/
theorem Descends.set (hd : Descends next heap) {p : ℕ} {c : Cell}
    (hc : ∀ q ∈ next c, q < p) : Descends next (heap.set p c) := by
  intro r d hr q hq
  rw [List.getElem?_set] at hr
  split at hr
  · split at hr
    · cases hr
      subst r
      exact hc q hq
    · cases hr
  · exact hd.lt hr hq

/-- The cell behind `p` is taken out of every list that goes through `p`. -/
theorem walk_unlink (hd : Descends next heap) {p m : ℕ} {c d c' : Cell}
    (hp : heap[p]? = some c) (hlink : next c = some m) (hm : heap[m]? = some d)
    (hc' : next c' = next d) {head : Option ℕ} {front back : List ℕ}
    (hwalk : walk next heap head = front ++ p :: m :: back) :
    walk next (heap.set p c') head = front ++ p :: back := by
  have hmp := hd.lt hp hlink
  have hbelow : ∀ q ∈ next c', q < p := fun q hq => (hd.lt hm (hc' ▸ hq)).trans hmp
  have hd' : Descends next (heap.set p c') := hd.set hbelow
  have hat : (heap.set p c')[p]? = some c' := List.getElem?_set_self (lt_of_getElem? hp)
  have hhead : ∀ q ∈ head, ∃ e, heap[q]? = some e := by
    intro q hq
    cases hq
    by_contra h
    rw [walk_dangling] at hwalk
    · simp at hwalk
    · by_contra hlt
      exact h ⟨_, List.getElem?_eq_getElem (by omega)⟩
  induction front generalizing head with
  | nil =>
      cases head with
      | none => simp at hwalk
      | some q =>
          obtain ⟨e, he⟩ := hhead q rfl
          rw [walk_some hd he, List.nil_append, List.cons.injEq] at hwalk
          obtain ⟨rfl, hrest⟩ := hwalk
          cases hp.symm.trans he
          rw [hlink, walk_some hd hm, List.cons.injEq] at hrest
          have hkeep : walk next (heap.set q c') (next d) = walk next heap (next d) := by
            apply walk_frame hd hd'
            · intro r hr
              exact (hd.lt hm hr).trans (lt_of_getElem? hm)
            · intro r hr
              obtain ⟨s, hs, hle⟩ := le_of_mem_walk hd hr
              have := hd.lt hm hs
              rw [List.getElem?_set_ne (by omega)]
          rw [walk_some hd' hat, hc', hkeep, hrest.2, List.nil_append]
  | cons r front ih =>
      cases head with
      | none => simp at hwalk
      | some q =>
          obtain ⟨e, he⟩ := hhead q rfl
          rw [walk_some hd he, List.cons_append, List.cons.injEq] at hwalk
          obtain ⟨rfl, hrest⟩ := hwalk
          have hmem : p ∈ walk next heap (next e) := by
            rw [hrest]
            exact List.mem_append_right _ List.mem_cons_self
          have hqp : p ≠ q := by
            obtain ⟨s, hs, hle⟩ := le_of_mem_walk hd hmem
            have := hd.lt he hs
            omega
          have he' : (heap.set p c')[q]? = some e := by rw [List.getElem?_set_ne hqp, he]
          rw [walk_some hd' he', List.cons_append, ih hrest]
          intro s hs
          exact ⟨_, List.getElem?_eq_getElem ((hd.lt he hs).trans (lt_of_getElem? he))⟩

end SharedList
