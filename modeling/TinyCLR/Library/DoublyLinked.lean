import Mathlib

/-!
# Doubly linked lists

Nodes with a link forward and a link backward, either of which may be missing. A list runs from a
sentinel without a link backward to one without a link forward.
-/

namespace DoublyLinked

variable {α : Type*}

structure Links (α : Type*) where
  next : α → Option α
  prev : α → Option α

namespace Links

/-- Two nodes are linked both ways. -/
def Joined (L : Links α) (a b : α) : Prop := L.next a = some b ∧ L.prev b = some a

/-- The same links seen from the other end. -/
def flip (L : Links α) : Links α := ⟨L.prev, L.next⟩

/-- The list from one sentinel to the other, with the nodes in between. -/
structure IsList (L : Links α) (head : α) (nodes : List α) (tail : α) : Prop where
  joined : (head :: (nodes ++ [tail])).IsChain L.Joined
  nodup : (head :: (nodes ++ [tail])).Nodup
  first : L.prev head = none
  last : L.next tail = none

/-- Follows the links from a node to the first one that meets `p`, or else to the last one; `none`
when the fuel does not reach that far. -/
def seek (step : α → Option α) (p : α → Bool) : ℕ → α → Option (α × Bool)
  | 0, _ => none
  | fuel + 1, a =>
      match step a with
      | none => some (a, false)
      | some b => if p a then some (a, true) else seek step p fuel b

variable {L L' : Links α} {head tail a b c x y : α} {nodes l l₁ l₂ m : List α}

theorem isChain_congr (h : l.IsChain L.Joined) (hnext : ∀ a ∈ l.dropLast, L'.next a = L.next a)
    (hprev : ∀ b ∈ l.tail, L'.prev b = L.prev b) : l.IsChain L'.Joined := by
  induction l with
  | nil => exact .nil
  | cons a l ih =>
      cases l with
      | nil => exact .singleton a
      | cons b l =>
          simp only [List.isChain_cons_cons] at h ⊢
          refine ⟨⟨(hnext a (by simp)).trans h.1.1, (hprev b (by simp)).trans h.1.2⟩, ?_⟩
          apply ih h.2
          · exact fun c hc => hnext c (by simp [hc])
          · exact fun c hc => hprev c (by simp at hc; simp [hc])

/-- A list depends on the links of its own nodes only. -/
theorem IsList.congr (h : L.IsList head nodes tail)
    (hnext : ∀ a ∈ head :: (nodes ++ [tail]), L'.next a = L.next a)
    (hprev : ∀ a ∈ head :: (nodes ++ [tail]), L'.prev a = L.prev a) :
    L'.IsList head nodes tail where
  joined := isChain_congr h.joined (fun a ha => hnext a (List.mem_of_mem_dropLast ha))
    fun a ha => hprev a (List.mem_of_mem_tail ha)
  nodup := h.nodup
  first := (hprev head (by simp)).trans h.first
  last := (hnext tail (by simp)).trans h.last

theorem IsList.flip (h : L.IsList head nodes tail) : L.flip.IsList tail nodes.reverse head where
  joined := by
    have hrev := List.isChain_reverse.mpr (h.joined.imp (S := fun a b => L.flip.Joined b a)
      fun a b hab => ⟨hab.2, hab.1⟩)
    simpa using hrev
  nodup := by
    have hrev := List.nodup_reverse.mpr h.nodup
    simpa using hrev
  first := h.last
  last := h.first

/-! ## Following the links -/

theorem headD_append_singleton (l : List α) (y z : α) : (l ++ [y]).headD z = l.headD y := by
  cases l <;> rfl

theorem next_of_isChain (h : (a :: (l ++ [y])).IsChain L.Joined) :
    L.next a = some (l.headD y) := by
  cases l with
  | nil => exact (List.isChain_pair.mp h).1
  | cons b l => exact (List.isChain_cons_cons.mp h).1.1

theorem prev_of_isChain (h : (x :: (l ++ [a])).IsChain L.Joined) :
    L.prev a = some (l.getLastD x) := by
  induction l generalizing x with
  | nil => exact (List.isChain_pair.mp h).2
  | cons b l ih => rw [List.getLastD_cons, ih (List.isChain_cons_cons.mp h).2]

/-- The neighbours of a node. -/
theorem IsList.neighbours (h : L.IsList head (l₁ ++ a :: l₂) tail) :
    L.next a = some (l₂.headD tail) ∧ L.prev a = some (l₁.getLastD head) := by
  have hchain := h.joined
  rw [List.append_assoc, List.cons_append, List.isChain_cons_split] at hchain
  exact ⟨next_of_isChain hchain.2, prev_of_isChain hchain.1⟩

theorem IsList.next_head (h : L.IsList head nodes tail) : L.next head = some (nodes.headD tail) :=
  next_of_isChain h.joined

theorem IsList.prev_tail (h : L.IsList head nodes tail) :
    L.prev tail = some (nodes.getLastD head) :=
  prev_of_isChain h.joined

/-- From the first node on, the links lead to the first one that meets `p`, or to the end. -/
theorem seek_of_isChain {p : α → Bool} {fuel : ℕ} (h : (nodes ++ [tail]).IsChain L.Joined)
    (hlast : L.next tail = none) (hfuel : nodes.length < fuel) :
    seek L.next p fuel (nodes.headD tail) =
      some (((nodes.find? p).getD tail), (nodes.find? p).isSome) := by
  induction nodes generalizing fuel with
  | nil =>
      cases fuel with
      | zero => exact absurd hfuel (Nat.lt_irrefl _)
      | succ fuel => simp [seek, hlast]
  | cons a nodes ih =>
      cases fuel with
      | zero => exact absurd hfuel (Nat.not_lt_zero _)
      | succ fuel =>
          rw [List.headD_cons, seek, next_of_isChain h]
          by_cases hp : p a
          · simp [hp]
          · have hrest := ih h.tail (Nat.lt_of_succ_lt_succ hfuel)
            simp only [hp, Bool.false_eq_true, if_false, List.find?_cons_of_neg, not_false_iff]
            exact hrest

theorem IsList.seek_next (h : L.IsList head nodes tail) {p : α → Bool} {fuel : ℕ}
    (hfuel : nodes.length < fuel) :
    (L.next head).bind (seek L.next p fuel) =
      some ((nodes.find? p).getD tail, (nodes.find? p).isSome) := by
  rw [h.next_head, Option.bind_some, seek_of_isChain h.joined.tail h.last hfuel]

theorem IsList.seek_prev (h : L.IsList head nodes tail) {p : α → Bool} {fuel : ℕ}
    (hfuel : nodes.length < fuel) :
    (L.prev tail).bind (seek L.prev p fuel) =
      some ((nodes.reverse.find? p).getD head, (nodes.reverse.find? p).isSome) :=
  h.flip.seek_next (by simpa using hfuel)

/-! ## Changing the list -/

/-- Between two nodes a stretch is replaced by another one, when the other links stay. -/
theorem IsList.splice {A B nodes' n : List α} (h : L.IsList head nodes tail)
    (hw : head :: (nodes ++ [tail]) = A ++ a :: (m ++ b :: B))
    (hw' : head :: (nodes' ++ [tail]) = A ++ a :: (n ++ b :: B))
    (hnodup : (head :: (nodes' ++ [tail])).Nodup)
    (hmid : (a :: (n ++ [b])).IsChain L'.Joined)
    (hnext : ∀ c ∈ A ++ b :: B, L'.next c = L.next c)
    (hprev : ∀ c ∈ A ++ a :: B, L'.prev c = L.prev c) : L'.IsList head nodes' tail := by
  obtain ⟨hold, hrest⟩ := List.isChain_split.mp (hw ▸ h.joined)
  have hold' := (List.isChain_cons_split.mp hrest).2
  have hbefore : (A ++ [a]).IsChain L'.Joined := by
    apply isChain_congr hold
    · intro c hc
      exact hnext c (List.mem_append_left _ (by simpa using hc))
    · intro c hc
      apply hprev c
      have := List.mem_of_mem_tail hc
      simp only [List.mem_append, List.mem_cons] at this ⊢
      tauto
  have hafter : (b :: B).IsChain L'.Joined := by
    apply isChain_congr hold'
    · exact fun c hc => hnext c (List.mem_append_right _ (List.mem_of_mem_dropLast hc))
    · exact fun c hc => hprev c (by simp at hc; simp [hc])
  have hhead : head ∈ A ++ a :: B := by
    cases A with
    | nil => simp [(List.cons.inj hw).1]
    | cons c A => simp [(List.cons.inj hw).1]
  have htail : tail ∈ A ++ b :: B := by
    have hlast := congrArg List.getLast? hw
    rw [← List.cons_append, List.getLast?_concat, ← List.cons_append, ← List.append_assoc,
      List.getLast?_append_of_ne_nil _ (by simp)] at hlast
    exact List.mem_append_right _ (List.mem_of_getLast? hlast.symm)
  refine ⟨?_, hnodup, (hprev head hhead).trans h.first, (hnext tail htail).trans h.last⟩
  rw [hw']
  exact List.isChain_split.mpr ⟨hbefore, List.isChain_cons_split.mpr ⟨hmid, hafter⟩⟩

/-- The node in front of a stretch and the one behind it. -/
theorem exists_around (head tail : α) (l₁ l₂ : List α) :
    ∃ A a b B, head :: l₁ = A ++ [a] ∧ l₂ ++ [tail] = b :: B := by
  obtain ⟨A, a, ha⟩ := (List.eq_nil_or_concat' (head :: l₁)).resolve_left
    (List.cons_ne_nil head l₁)
  cases l₂ with
  | nil => exact ⟨A, a, tail, [], ha, rfl⟩
  | cons b l₂ => exact ⟨A, a, b, l₂ ++ [tail], ha, rfl⟩

variable {A B : List α}

theorem around_eq (ha : head :: l₁ = A ++ [a]) (hb : l₂ ++ [tail] = b :: B) (m : List α) :
    head :: (l₁ ++ (m ++ l₂) ++ [tail]) = A ++ a :: (m ++ b :: B) := by
  rw [show head :: (l₁ ++ (m ++ l₂) ++ [tail]) = (head :: l₁) ++ (m ++ (l₂ ++ [tail])) by simp,
    ha, hb]
  simp

/-- A node leads to the node in front of it and to the one behind it. -/
theorem IsList.links_of_around (h : L.IsList head (l₁ ++ c :: l₂) tail)
    (ha : head :: l₁ = A ++ [a]) (hb : l₂ ++ [tail] = b :: B) :
    L.prev c = some a ∧ L.next c = some b := by
  have hchain := h.joined
  rw [← List.singleton_append (l := l₂), around_eq ha hb, List.singleton_append,
    List.isChain_append_cons_cons] at hchain
  exact ⟨hchain.2.1.2, (List.isChain_cons_cons.mp hchain.2.2).1.1⟩

theorem IsList.joined_of_around (h : L.IsList head (l₁ ++ l₂) tail)
    (ha : head :: l₁ = A ++ [a]) (hb : l₂ ++ [tail] = b :: B) :
    L.next a = some b ∧ L.prev b = some a := by
  have hchain := h.joined
  rw [← List.nil_append l₂, around_eq ha hb, List.nil_append, List.isChain_append_cons_cons]
    at hchain
  exact hchain.2.1

theorem ne_of_mem_around (h : (A ++ a :: l).Nodup) (hc : c ∈ A ++ l) : c ≠ a := by
  rintro rfl
  exact (List.nodup_cons.mp (List.nodup_middle.mp h)).1 hc

variable [DecidableEq α]

def setNext (L : Links α) (a : α) (next : Option α) : Links α :=
  { L with next := Function.update L.next a next }

def setPrev (L : Links α) (a : α) (prev : Option α) : Links α :=
  { L with prev := Function.update L.prev a prev }

@[simp] theorem setNext_prev (a : α) (n : Option α) : (L.setNext a n).prev = L.prev := rfl
@[simp] theorem setPrev_next (a : α) (p : Option α) : (L.setPrev a p).next = L.next := rfl

theorem setNext_next (a c : α) (n : Option α) :
    (L.setNext a n).next c = if c = a then n else L.next c := Function.update_apply ..

theorem setPrev_prev (a c : α) (p : Option α) :
    (L.setPrev a p).prev c = if c = a then p else L.prev c := Function.update_apply ..

/-- The stretch between two nodes is taken out. -/
theorem IsList.close (h : L.IsList head (l₁ ++ (m ++ l₂)) tail)
    (ha : head :: l₁ = A ++ [a]) (hb : l₂ ++ [tail] = b :: B) :
    ((L.setNext a b).setPrev b a).IsList head (l₁ ++ l₂) tail := by
  have hnodup : (head :: (l₁ ++ l₂ ++ [tail])).Nodup := h.nodup.sublist (by simp)
  have hsplit := hnodup
  rw [← List.nil_append l₂, around_eq ha hb, List.nil_append] at hsplit
  apply h.splice (n := []) (around_eq ha hb m) (by simpa using around_eq ha hb []) hnodup
  · exact List.isChain_pair.mpr ⟨by simp [setNext_next], by simp [setPrev_prev]⟩
  · intro c hc
    simp only [setPrev_next, setNext_next, if_neg (ne_of_mem_around hsplit hc)]
  · intro c hc
    have hne : c ≠ b := ne_of_mem_around (A := A ++ [a]) (l := B) (by simpa using hsplit)
      (by simpa using hc)
    simp only [setPrev_prev, if_neg hne, setNext_prev]

/-- The stretch between two nodes is replaced by one node. -/
theorem IsList.insert (h : L.IsList head (l₁ ++ (m ++ l₂)) tail)
    (ha : head :: l₁ = A ++ [a]) (hb : l₂ ++ [tail] = b :: B)
    (hc : c ∉ head :: (l₁ ++ (l₂ ++ [tail]))) :
    ((((L.setNext c b).setPrev c a).setPrev b c).setNext a c).IsList head (l₁ ++ c :: l₂) tail := by
  have hwhole := around_eq ha hb [c]
  rw [List.singleton_append, List.singleton_append] at hwhole
  have hnodup : (head :: (l₁ ++ c :: l₂ ++ [tail])).Nodup := by
    have hrest : (head :: (l₁ ++ (l₂ ++ [tail]))).Nodup := h.nodup.sublist (by simp)
    have hperm := @List.nodup_middle _ c (head :: l₁) (l₂ ++ [tail])
    simp only [List.cons_append, List.append_assoc] at hperm ⊢
    exact hperm.mpr (List.nodup_cons.mpr ⟨hc, hrest⟩)
  have hsplit := hnodup
  rw [hwhole] at hsplit
  have hne : a ≠ c ∧ b ≠ c := by
    simp only [List.nodup_append, List.nodup_cons, List.mem_cons] at hsplit
    grind
  have hnext : ∀ d ∈ A ++ b :: B, d ≠ a ∧ d ≠ c := by
    simp only [List.nodup_append, List.nodup_cons, List.mem_cons, List.mem_append] at hsplit ⊢
    grind
  have hprev : ∀ d ∈ A ++ a :: B, d ≠ b ∧ d ≠ c := by
    simp only [List.nodup_append, List.nodup_cons, List.mem_cons, List.mem_append] at hsplit ⊢
    grind
  apply h.splice (n := [c]) (around_eq ha hb m) (by simpa using hwhole) hnodup
  · simp only [List.cons_append, List.nil_append, List.isChain_cons_cons, Joined, setNext_next,
      setPrev_next, setNext_prev, setPrev_prev]
    simp [hne.1.symm, hne.2.symm]
  · intro d hd
    simp [setNext_next, hnext d hd]
  · intro d hd
    simp [setPrev_prev, hprev d hd]

end Links

end DoublyLinked
