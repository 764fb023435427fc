import Mathlib

/-!
# Tables of half-open intervals

A table of disjoint intervals `[lo, hi)` in ascending order, the insertion of an interval before
the first that starts behind it, and the binary search for the interval that holds a point.
-/

namespace IntervalTable

section Table

variable {α β : Type*} [LinearOrder α] (lo hi : β → α)

def Holds (r : β) (p : α) : Prop := lo r ≤ p ∧ p < hi r

def Apart (r s : β) : Prop := hi r ≤ lo s ∨ hi s ≤ lo r

def Proper (r : β) : Prop := lo r < hi r

/-- Each interval ends before those behind it start. -/
def Ascending (table : List β) : Prop := table.Pairwise fun r s => hi r ≤ lo s

/-- The new interval goes before the first that starts behind it. -/
def insert (x : β) : List β → List β
  | [] => [x]
  | r :: table => if lo x < lo r then x :: r :: table else r :: insert x table

/-- The search between `left` and `right`. -/
def search (table : List β) (p : α) (left right : ℕ) : Option β :=
  if left < right then
    match table[(left + right) / 2]? with
    | none => none
    | some r =>
        if p < lo r then search table p left ((left + right) / 2)
        else if hi r ≤ p then search table p ((left + right) / 2 + 1) right
        else some r
  else none
termination_by right - left

variable {lo hi}

theorem insert_perm (x : β) (table : List β) : (insert lo x table).Perm (x :: table) := by
  induction table with
  | nil => exact List.Perm.refl _
  | cons r table ih =>
      rw [insert]
      split
      · exact List.Perm.refl _
      · exact (ih.cons r).trans (List.Perm.swap x r table)

theorem length_insert (x : β) (table : List β) :
    (insert lo x table).length = table.length + 1 := (insert_perm x table).length_eq

/-- An interval apart from those of the table finds its place. -/
theorem Ascending.insert {table : List β} (h : Ascending lo hi table) {x : β}
    (hx : Proper lo hi x) (hproper : ∀ r ∈ table, Proper lo hi r)
    (hapart : ∀ r ∈ table, Apart lo hi x r) : Ascending lo hi (insert lo x table) := by
  induction table with
  | nil => exact List.pairwise_singleton _ _
  | cons r table ih =>
      rw [Ascending, List.pairwise_cons] at h
      rw [List.forall_mem_cons] at hproper hapart
      rw [IntervalTable.insert]
      split
      · rename_i hlt
        have hr : hi x ≤ lo r := by
          cases hapart.1 with
          | inl h => exact h
          | inr h => exact absurd (hproper.1.trans_le h) (not_lt.mpr hlt.le)
        rw [Ascending, List.pairwise_cons, List.forall_mem_cons, List.pairwise_cons]
        refine ⟨⟨hr, fun s hs => ?_⟩, h⟩
        exact hr.trans (hproper.1.le.trans (h.1 s hs))
      · rename_i hge
        have hr : hi r ≤ lo x := by
          cases hapart.1 with
          | inl h => exact absurd (hx.trans_le h) hge
          | inr h => exact h
        rw [Ascending, List.pairwise_cons]
        refine ⟨fun s hs => ?_, ih h.2 hproper.2 hapart.2⟩
        cases List.mem_cons.mp ((insert_perm x table).mem_iff.mp hs) with
        | inl hs => exact hs ▸ hr
        | inr hs => exact h.1 s hs

section Turns

variable {table : List β} {p : α} {left right : ℕ} {s : β}

theorem search_stop (hlt : ¬left < right) : search lo hi table p left right = none := by
  rw [search, if_neg hlt]

theorem search_none (hlt : left < right) (hs : table[(left + right) / 2]? = none) :
    search lo hi table p left right = none := by
  rw [search, if_pos hlt, hs]

theorem search_below (hlt : left < right) (hs : table[(left + right) / 2]? = some s)
    (hbelow : p < lo s) :
    search lo hi table p left right = search lo hi table p left ((left + right) / 2) := by
  conv_lhs => rw [search, if_pos hlt, hs]
  exact if_pos hbelow

theorem search_above (hlt : left < right) (hs : table[(left + right) / 2]? = some s)
    (hbelow : ¬p < lo s) (habove : hi s ≤ p) :
    search lo hi table p left right = search lo hi table p ((left + right) / 2 + 1) right := by
  conv_lhs => rw [search, if_pos hlt, hs]
  exact (if_neg hbelow).trans (if_pos habove)

theorem search_found (hlt : left < right) (hs : table[(left + right) / 2]? = some s)
    (hbelow : ¬p < lo s) (habove : ¬hi s ≤ p) : search lo hi table p left right = some s := by
  rw [search, if_pos hlt, hs]
  exact (if_neg hbelow).trans (if_neg habove)

end Turns

/-- The search looks at nothing from `right` on. -/
theorem search_take {table : List β} {p : α} {left right n : ℕ} (h : right ≤ n) :
    search lo hi (table.take n) p left right = search lo hi table p left right := by
  have htake : left < right →
      (table.take n)[(left + right) / 2]? = table[(left + right) / 2]? := fun hlt =>
    List.getElem?_take_of_lt (by omega)
  induction left, right using search.induct lo hi table p with
  | case1 left right hlt hnone =>
      rw [search_none hlt hnone, search_none hlt ((htake hlt).trans hnone)]
  | case2 left right hlt s hs hbelow ih =>
      rw [search_below hlt hs hbelow, search_below hlt ((htake hlt).trans hs) hbelow]
      exact ih (by omega) fun _ => List.getElem?_take_of_lt (by omega)
  | case3 left right hlt s hs hbelow habove ih =>
      rw [search_above hlt hs hbelow habove, search_above hlt ((htake hlt).trans hs) hbelow habove]
      exact ih h fun _ => List.getElem?_take_of_lt (by omega)
  | case4 left right hlt s hs hbelow habove =>
      rw [search_found hlt hs hbelow habove, search_found hlt ((htake hlt).trans hs) hbelow habove]
  | case5 left right hlt => rw [search_stop hlt, search_stop hlt]

/-- What the search finds holds the point. -/
theorem holds_of_search {table : List β} {p : α} {left right : ℕ} {r : β}
    (h : search lo hi table p left right = some r) : r ∈ table ∧ Holds lo hi r p := by
  induction left, right using search.induct lo hi table p with
  | case1 left right hlt hnone =>
      rw [search_none hlt hnone] at h
      cases h
  | case2 left right hlt s hs hbelow ih =>
      rw [search_below hlt hs hbelow] at h
      exact ih h
  | case3 left right hlt s hs hbelow habove ih =>
      rw [search_above hlt hs hbelow habove] at h
      exact ih h
  | case4 left right hlt s hs hbelow habove =>
      rw [search_found hlt hs hbelow habove] at h
      cases h
      exact ⟨List.mem_of_getElem? hs, not_lt.mp hbelow, not_le.mp habove⟩
  | case5 left right hlt =>
      rw [search_stop hlt] at h
      cases h

theorem Ascending.le {table : List β} (h : Ascending lo hi table) {i j : ℕ} {r s : β}
    (hr : table[i]? = some r) (hs : table[j]? = some s) (hij : i < j) : hi r ≤ lo s := by
  obtain ⟨hi', rfl⟩ := List.getElem?_eq_some_iff.mp hr
  obtain ⟨hj', rfl⟩ := List.getElem?_eq_some_iff.mp hs
  exact List.pairwise_iff_getElem.mp h i j hi' hj' hij

section Positions

variable {table : List β} {p : α} {i c : ℕ} {r s : β}

theorem Ascending.lt_of_below (h : Ascending lo hi table) (hs : table[c]? = some s)
    (hproper : Proper lo hi s) (hr : table[i]? = some r) (hholds : Holds lo hi r p)
    (hbelow : p < lo s) : i < c := by
  by_contra hge
  cases (not_lt.mp hge).lt_or_eq with
  | inl hlt =>
      have hle := (h.le hs hr hlt).trans hholds.1
      exact absurd (hproper.trans_le hle) (not_lt.mpr hbelow.le)
  | inr heq =>
      rw [heq, hr] at hs
      cases hs
      exact absurd hholds.1 (not_le.mpr hbelow)

theorem Ascending.lt_of_above (h : Ascending lo hi table) (hs : table[c]? = some s)
    (hproper : Proper lo hi s) (hr : table[i]? = some r) (hholds : Holds lo hi r p)
    (habove : hi s ≤ p) : c < i := by
  by_contra hge
  cases (not_lt.mp hge).lt_or_eq with
  | inl hlt =>
      have hlt := (hholds.2.trans_le (h.le hr hs hlt)).trans hproper
      exact absurd habove (not_le.mpr hlt)
  | inr heq =>
      rw [← heq, hr] at hs
      cases hs
      exact absurd habove (not_le.mpr hholds.2)

end Positions

/-- The search finds the interval that holds the point. -/
theorem search_of_holds {table : List β} (h : Ascending lo hi table)
    (hproper : ∀ r ∈ table, Proper lo hi r) {p : α} {left right i : ℕ} {r : β}
    (hr : table[i]? = some r) (hholds : Holds lo hi r p) (hleft : left ≤ i) (hright : i < right)
    (hlen : right ≤ table.length) : search lo hi table p left right = some r := by
  induction left, right using search.induct lo hi table p with
  | case1 left right hlt hnone =>
      rw [List.getElem?_eq_none_iff] at hnone
      omega
  | case2 left right hlt s hs hbelow ih =>
      have hbefore := h.lt_of_below hs (hproper s (List.mem_of_getElem? hs)) hr hholds hbelow
      rw [search_below hlt hs hbelow]
      exact ih hleft hbefore (by omega)
  | case3 left right hlt s hs hbelow habove ih =>
      have hbehind := h.lt_of_above hs (hproper s (List.mem_of_getElem? hs)) hr hholds habove
      rw [search_above hlt hs hbelow habove]
      exact ih hbehind hright hlen
  | case4 left right hlt s hs hbelow habove =>
      rw [search_found hlt hs hbelow habove]
      have hsame : (left + right) / 2 = i := by
        cases lt_trichotomy ((left + right) / 2) i with
        | inl hlt =>
            have hle := (h.le hs hr hlt).trans hholds.1
            exact absurd hle habove
        | inr hge =>
            cases hge with
            | inl heq => exact heq
            | inr hgt =>
                have hlt := hholds.2.trans_le (h.le hr hs hgt)
                exact absurd hlt hbelow
      rw [← hs, hsame, hr]
  | case5 left right hlt => omega

end Table

end IntervalTable
