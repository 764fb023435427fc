import Mathlib

/-!
# Circular lists by index

A table of nodes with next and previous links. A ring starts at a head and visits a list of nodes
before it comes back; several rings share one table. Moving a node to the front of a ring takes it
out of the ring that it is in.
-/

namespace Rings

variable {ι : Type*}

structure Links (ι : Type*) where
  next : ι → ι
  prev : ι → ι

namespace Links

/-- The chain from `a` through the nodes of the list to `z`. -/
def Chain (e : Links ι) : ι → List ι → ι → Prop
  | a, [], z => e.next a = z ∧ e.prev z = a
  | a, b :: l, z => e.next a = b ∧ e.prev b = a ∧ Chain e b l z

/-- The ring with this head and these nodes. -/
def Ring (e : Links ι) (head : ι) (l : List ι) : Prop :=
  e.Chain head l head

theorem Chain.congr {e e' : Links ι} {a z : ι} {l : List ι} (h : e.Chain a l z)
    (hnext : ∀ x ∈ a :: l, e'.next x = e.next x)
    (hprev : ∀ x ∈ l ++ [z], e'.prev x = e.prev x) : e'.Chain a l z := by
  induction l generalizing a with
  | nil => exact ⟨(hnext a (by simp)).trans h.1, (hprev z (by simp)).trans h.2⟩
  | cons b l ih =>
      obtain ⟨hn, hp, hrest⟩ := h
      refine ⟨(hnext a (by simp)).trans hn, (hprev b (by simp)).trans hp, ih hrest ?_ ?_⟩
      · exact fun x hx => hnext x (List.mem_cons_of_mem a hx)
      · exact fun x hx => hprev x (List.mem_cons_of_mem b hx)

theorem Chain.append {e : Links ι} {a b z : ι} {l l' : List ι} :
    e.Chain a (l ++ b :: l') z ↔ e.Chain a l b ∧ e.Chain b l' z := by
  induction l generalizing a with
  | nil =>
      simp only [List.nil_append, Chain]
      tauto
  | cons c l ih =>
      simp only [List.cons_append, Chain, ih]
      tauto

/-- The links of a node lead to its neighbours. -/
theorem Chain.next_mem {e : Links ι} {a z : ι} {l : List ι} (h : e.Chain a l z) :
    e.next a ∈ l ++ [z] := by
  cases l with
  | nil => simp [h.1]
  | cons b l => simp [h.1]

theorem Chain.prev_mem {e : Links ι} {a z : ι} {l : List ι} (h : e.Chain a l z) :
    e.prev z ∈ a :: l := by
  induction l generalizing a with
  | nil => simp [h.2]
  | cons b l ih => exact List.mem_cons_of_mem a (ih h.2.2)

theorem Chain.prev_eq {e : Links ι} {a z : ι} {l : List ι} (h : e.Chain a l z) :
    e.prev z = (a :: l).getLast (by simp) := by
  induction l generalizing a with
  | nil => exact h.2
  | cons b l ih => rw [List.getLast_cons (by simp), ih h.2.2]

variable [DecidableEq ι]

/-- Closes the gap that the node leaves behind. -/
def unlink (e : Links ι) (i : ι) : Links ι where
  next := Function.update e.next (e.prev i) (e.next i)
  prev := Function.update e.prev (e.next i) (e.prev i)

/-- Puts the node behind the head. -/
def insertAfter (e : Links ι) (head i : ι) : Links ι where
  next := Function.update (Function.update e.next i (e.next head)) head i
  prev := Function.update (Function.update e.prev i head) (e.next head) i

/-- A node in the middle is taken out. -/
theorem Chain.unlink {e : Links ι} {a i z : ι} {A B : List ι} (h : e.Chain a (A ++ i :: B) z)
    (hnodup : (a :: (A ++ i :: B)).Nodup) (hz : z ∉ A ++ i :: B) :
    (e.unlink i).Chain a (A ++ B) z := by
  induction A generalizing a with
  | nil =>
      obtain ⟨-, hprev, hrest⟩ := h
      simp only [List.nil_append] at hnodup hz ⊢
      obtain ⟨ha, hnodup⟩ := List.nodup_cons.mp hnodup
      cases B with
      | nil =>
          obtain ⟨hn, -⟩ := hrest
          refine ⟨?_, ?_⟩ <;> simp [Links.unlink, hprev, hn]
      | cons b B =>
          obtain ⟨hn, -, hrest⟩ := hrest
          refine ⟨by simp [Links.unlink, hprev, hn], by simp [Links.unlink, hprev, hn], ?_⟩
          apply hrest.congr
          · intro x hx
            have hne : x ≠ a := fun heq => ha (heq ▸ List.mem_cons_of_mem i hx)
            simp [Links.unlink, hprev, hne]
          · intro x hx
            have hne : x ≠ b := by
              rintro rfl
              rcases List.mem_append.mp hx with hx | hx
              · exact (List.nodup_cons.mp (List.nodup_cons.mp hnodup).2).1 hx
              · exact hz (List.mem_singleton.mp hx ▸ by simp)
            simp [Links.unlink, hn, hne]
  | cons c A ih =>
      obtain ⟨hn, hp, hrest⟩ := h
      obtain ⟨ha, hnodup⟩ := List.nodup_cons.mp hnodup
      have hrest' := ih hrest hnodup fun hmem => hz (List.mem_cons_of_mem c hmem)
      have hsplit := Chain.append.mp hrest
      refine ⟨?_, ?_, hrest'⟩
      · have hne : a ≠ e.prev i := by
          intro heq
          have hmem := hsplit.1.prev_mem
          rw [← heq] at hmem
          apply ha
          rcases List.mem_cons.mp hmem with rfl | hmem
          · simp
          · simp [hmem]
        simpa [Links.unlink, hne] using hn
      · have hne : c ≠ e.next i := by
          intro heq
          have hmem := hsplit.2.next_mem
          rw [← heq] at hmem
          rcases List.mem_append.mp hmem with hmem | hmem
          · exact (List.nodup_cons.mp hnodup).1 (by simp [hmem])
          · exact hz (List.mem_singleton.mp hmem ▸ by simp)
        simpa [Links.unlink, hne] using hp

theorem Ring.unlink {e : Links ι} {head i : ι} {A B : List ι} (h : e.Ring head (A ++ i :: B))
    (hnodup : (head :: (A ++ i :: B)).Nodup) : (e.unlink i).Ring head (A ++ B) :=
  Chain.unlink h hnodup (List.nodup_cons.mp hnodup).1

/-- A ring that the neighbours of the node are not on does not notice. -/
theorem Ring.unlink_other {e : Links ι} {head i : ι} {l : List ι} (h : e.Ring head l)
    (hnext : e.next i ∉ head :: l) (hprev : e.prev i ∉ head :: l) :
    (e.unlink i).Ring head l := by
  apply Chain.congr h
  · intro x hx
    have hne : x ≠ e.prev i := fun heq => hprev (heq ▸ hx)
    exact Function.update_of_ne hne _ _
  · intro x hx
    have hx' : x ∈ head :: l := by simpa [or_comm] using hx
    have hne : x ≠ e.next i := fun heq => hnext (heq ▸ hx')
    exact Function.update_of_ne hne _ _

theorem Ring.insertAfter {e : Links ι} {head i : ι} {l : List ι} (h : e.Ring head l)
    (hnodup : (head :: l).Nodup) (hi : i ∉ head :: l) : (e.insertAfter head i).Ring head (i :: l) := by
  obtain ⟨hhead, -⟩ := List.nodup_cons.mp hnodup
  have hne : i ≠ head := fun heq => hi (heq ▸ List.mem_cons_self)
  have hnext : e.next head ∈ l ++ [head] := Chain.next_mem h
  have hni : e.next head ≠ i := by
    intro heq
    rw [heq] at hnext
    exact hi (by simpa [or_comm] using hnext)
  refine ⟨Function.update_self _ _ _, ?_, ?_⟩
  · simp [Links.insertAfter, hni.symm]
  · cases l with
    | nil =>
        have hself : e.next head = head := h.1
        exact ⟨by simp [Links.insertAfter, hne, hself], by simp [Links.insertAfter, hself]⟩
    | cons b l =>
        obtain ⟨hn, -, hrest⟩ := h
        refine ⟨by simp [Links.insertAfter, hne, hn], by simp [Links.insertAfter, hn], ?_⟩
        apply Chain.congr hrest
        · intro x hx
          have hxh : x ≠ head := fun heq => hhead (heq ▸ hx)
          have hxi : x ≠ i := fun heq => hi (heq ▸ List.mem_cons_of_mem head hx)
          simp [Links.insertAfter, hxh, hxi]
        · intro x hx
          have hxb : x ≠ b := by
            rintro rfl
            rcases List.mem_append.mp hx with hx | hx
            · exact (List.nodup_cons.mp (List.nodup_cons.mp hnodup).2).1 hx
            · exact hhead (List.mem_singleton.mp hx ▸ List.mem_cons_self)
          have hxi : x ≠ i := by
            rintro rfl
            rcases List.mem_append.mp hx with hx | hx
            · exact hi (by simp [hx])
            · exact hne (List.mem_singleton.mp hx)
          simp [Links.insertAfter, hn, hxb, hxi]

theorem Ring.insertAfter_other {e : Links ι} {head head' i : ι} {l : List ι} (h : e.Ring head' l)
    (hhead : head ∉ head' :: l) (hi : i ∉ head' :: l) (hnext : e.next head ∉ head' :: l) :
    (e.insertAfter head i).Ring head' l := by
  apply Chain.congr h
  · intro x hx
    have hxh : x ≠ head := fun heq => hhead (heq ▸ hx)
    have hxi : x ≠ i := fun heq => hi (heq ▸ hx)
    simp [Links.insertAfter, hxh, hxi]
  · intro x hx
    have hx' : x ∈ head' :: l := by simpa [or_comm] using hx
    have hxn : x ≠ e.next head := fun heq => hnext (heq ▸ hx')
    have hxi : x ≠ i := fun heq => hi (heq ▸ hx')
    simp [Links.insertAfter, hxn, hxi]

end Links

/-- The rings of a table: no node is on two of them. A node that is on no list is the head of a
ring of its own. -/
structure Layout (e : Links ι) (head : ι → Prop) (list : ι → List ι) : Prop where
  ring : ∀ h, head h → e.Ring h (list h)
  nodup : ∀ h, head h → (h :: list h).Nodup
  disjoint : ∀ h, head h → ∀ k, head k → h ≠ k → List.Disjoint (h :: list h) (k :: list k)

/-- The node moves behind the head, from its own ring or from any list. -/
theorem Layout.moveToFront [DecidableEq ι] {e : Links ι} {head : ι → Prop} {list : ι → List ι}
    (h : Layout e head list) {slot i : ι} (hslot : head slot) (hne : i ≠ slot)
    (hi : (head i ∧ list i = []) ∨ ∃ g, head g ∧ i ∈ list g) :
    Layout ((e.unlink i).insertAfter slot i) (fun k => head k ∧ k ≠ i)
      (Function.update (fun k => (list k).erase i) slot (i :: (list slot).erase i)) := by
  -- the table without the node
  have hout : Layout (e.unlink i) (fun k => head k ∧ k ≠ i) fun k => (list k).erase i := by
    refine ⟨?_, ?_, ?_⟩
    · rintro k ⟨hk, hki⟩
      by_cases hmem : i ∈ list k
      · obtain ⟨A, B, hAB⟩ := List.append_of_mem hmem
        have hnodup := h.nodup k hk
        rw [hAB] at hnodup
        have hA : i ∉ A := fun hmem =>
          (List.nodup_append.mp (List.nodup_cons.mp hnodup).2).2.2 i hmem i (by simp) rfl
        simp only [hAB]
        rw [List.erase_append_right _ hA, List.erase_cons_head]
        exact (hAB ▸ h.ring k hk).unlink hnodup
      · have hlinks : ∃ g, head g ∧ g ≠ k ∧ e.next i ∈ g :: list g ∧ e.prev i ∈ g :: list g := by
          rcases hi with ⟨hhead, hempty⟩ | ⟨g, hg, hig⟩
          · have hself := h.ring i hhead
            rw [hempty] at hself
            exact ⟨i, hhead, Ne.symm hki, by simp [hself.1], by simp [hself.2]⟩
          · obtain ⟨A, B, hAB⟩ := List.append_of_mem hig
            have hring := h.ring g hg
            rw [hAB] at hring
            obtain ⟨hbefore, hafter⟩ := Links.Chain.append.mp hring
            refine ⟨g, hg, fun heq => hmem (heq ▸ hig), ?_, ?_⟩
            · have := hafter.next_mem
              rw [hAB]
              simp only [List.mem_append, List.mem_cons] at this ⊢
              tauto
            · have := hbefore.prev_mem
              rw [hAB]
              simp only [List.mem_append, List.mem_cons] at this ⊢
              tauto
        obtain ⟨g, hg, hgk, hnext, hprev⟩ := hlinks
        rw [List.erase_of_not_mem hmem]
        exact (h.ring k hk).unlink_other (h.disjoint g hg k hk hgk hnext)
          (h.disjoint g hg k hk hgk hprev)
    · rintro k ⟨hk, -⟩
      exact (h.nodup k hk).sublist (List.Sublist.cons_cons k List.erase_sublist)
    · rintro k ⟨hk, -⟩ k' ⟨hk', -⟩ hkk' x hx hx'
      apply h.disjoint k hk k' hk' hkk'
      · exact (List.Sublist.cons_cons k List.erase_sublist).subset hx
      · exact (List.Sublist.cons_cons k' List.erase_sublist).subset hx'
  have hfresh : ∀ k, head k → k ≠ i → i ∉ k :: (list k).erase i := by
    intro k hk hki hmem
    rcases List.mem_cons.mp hmem with heq | hmem
    · exact hki heq.symm
    · exact (List.nodup_cons.mp (h.nodup k hk)).2.not_mem_erase hmem
  have hs : head slot ∧ slot ≠ i := ⟨hslot, hne.symm⟩
  have hnext : (e.unlink i).next slot ∈ slot :: (list slot).erase i := by
    have := Links.Chain.next_mem (hout.ring slot hs)
    simpa [or_comm] using this
  refine ⟨?_, ?_, ?_⟩
  · rintro k ⟨hk, hki⟩
    by_cases hkslot : k = slot
    · subst hkslot
      rw [Function.update_self]
      exact (hout.ring k hs).insertAfter (hout.nodup k hs) (hfresh k hk hki)
    · rw [Function.update_of_ne hkslot]
      apply (hout.ring k ⟨hk, hki⟩).insertAfter_other
      · exact hout.disjoint slot hs k ⟨hk, hki⟩ (Ne.symm hkslot) List.mem_cons_self
      · exact hfresh k hk hki
      · exact hout.disjoint slot hs k ⟨hk, hki⟩ (Ne.symm hkslot) hnext
  · rintro k ⟨hk, hki⟩
    by_cases hkslot : k = slot
    · subst hkslot
      rw [Function.update_self]
      have hnodup := hout.nodup k hs
      have hnot := hfresh k hk hki
      simp only [List.nodup_cons, List.mem_cons, not_or] at hnodup hnot ⊢
      exact ⟨⟨hki, hnodup.1⟩, hnot.2, hnodup.2⟩
    · rw [Function.update_of_ne hkslot]
      exact hout.nodup k ⟨hk, hki⟩
  · rintro k ⟨hk, hki⟩ k' ⟨hk', hki'⟩ hkk' x hx hx'
    by_cases hx₀ : x = i
    · subst hx₀
      by_cases hkslot : k = slot
      · have hk'slot : k' ≠ slot := fun heq => hkk' (hkslot.trans heq.symm)
        rw [Function.update_of_ne hk'slot] at hx'
        exact hfresh k' hk' hki' hx'
      · rw [Function.update_of_ne hkslot] at hx
        exact hfresh k hk hki hx
    · have hold : ∀ j, x ∈ j :: Function.update (fun k => (list k).erase i) slot
          (i :: (list slot).erase i) j → x ∈ j :: (list j).erase i := by
        intro j hj
        by_cases hjslot : j = slot
        · subst hjslot
          rw [Function.update_self] at hj
          simp only [List.mem_cons, hx₀, false_or] at hj ⊢
          exact hj
        · rwa [Function.update_of_ne hjslot] at hj
      exact hout.disjoint k ⟨hk, hki⟩ k' ⟨hk', hki'⟩ hkk' (hold k hx) (hold k' hx')

end Rings
