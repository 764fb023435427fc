import Mathlib
import TinyCLR.Network.RoutingTable

/-!
# Runs of broadcasts

However many broadcasts are sent, and however often the numbers wrap around, a receiver takes each
broadcast that arrives once, as long as copies come neither too late nor too far ahead.
-/

namespace TinyCLR.Network

open TransitionSystem

/-- Where the broadcast at place `k` stands in the row of all numbers; the numbers below
`cSeqNoWraparound` are left out after the first 255. -/
def position (k : ℕ) : ℕ := k + 1 + 4 * ((k - 3) / 252)

/-- The number of the broadcast at place `k`. -/
def number (k : ℕ) : BitVec 8 := BitVec.ofNat 8 (position k)

section Numbers

variable {k m : ℕ}

theorem number_zero : number 0 = 1 := rfl

theorem toNat_number (k : ℕ) : (number k).toNat = position k % 256 := BitVec.toNat_ofNat ..

theorem number_succ (k : ℕ) : incSeqNoBroadcast (number k) = number (k + 1) := by
  have hnext : position (k + 1) % 256 =
      if position k % 256 = 255 then 4 else (position k + 1) % 256 := by
    rw [position, position]
    split_ifs <;> omega
  have hlast : number k = 255 ↔ position k % 256 = 255 := by
    rw [← BitVec.toNat_inj, toNat_number]
    rfl
  apply BitVec.eq_of_toNat_eq
  rw [toNat_number, hnext, incSeqNoBroadcast]
  split_ifs with h h' h'
  · rfl
  · exact absurd (hlast.mp h) h'
  · exact absurd (hlast.mpr h') h
  · have hone : (1 : BitVec 8).toNat = 1 := rfl
    rw [BitVec.toNat_add, toNat_number, hone]
    omega

theorem position_lt (h : k < m) : position k < position m := by
  rw [position, position]
  omega

theorem position_inj : position k = position m ↔ k = m := by
  constructor
  · intro h
    rcases lt_trichotomy k m with hlt | heq | hlt
    · have := position_lt hlt
      omega
    · exact heq
    · have := position_lt hlt
      omega
  · intro h
    rw [h]

/-- At most one gap of four numbers lies between broadcasts that are close to each other. -/
theorem position_le {c : ℕ} (h : k ≤ m + c) (hc : c ≤ 200) : position k ≤ position m + c + 4 := by
  rw [position, position]
  omega

theorem number_lt_wraparound : number k < cSeqNoWraparound ↔ k < 3 := by
  rw [BitVec.lt_def, toNat_number, position]
  change _ < 4 ↔ _
  omega

theorem number_gt_wraparound (h : cSeqNoWraparound < number k) : 4 ≤ k := by
  rw [BitVec.lt_def, toNat_number, position] at h
  change 4 < _ at h
  omega

theorem toInt_sub_number {d : ℤ} (h : (position k : ℤ) = position m + d) (hlow : -128 ≤ d)
    (hhigh : d < 128) : (number k - number m).toInt = d := by
  rw [BitVec.toInt_sub, number, number, BitVec.toInt_ofNat', BitVec.toInt_ofNat',
    Int.bmod_sub_bmod, Int.sub_bmod_bmod, h, add_sub_cancel_left]
  exact Int.bmod_eq_of_le (by omega) (by omega)

end Numbers

/-- The entry stands for the broadcasts that have arrived. -/
def Entry.Remembers (entry : Entry) (arrived : List ℕ) : Prop :=
  entry.broadcastSeqNoValid = true ∧ ∃ m ∈ arrived, entry.broadcastSeqNo = number m ∧
    ReplayWindow.Shows (fun p => ∃ k ∈ arrived, position k = p) (position m)
      entry.broadcastWindow

section Entries

variable {entry : Entry} {arrived : List ℕ} {k : ℕ}

theorem Entry.targetAddr_check (entry : Entry) (seqNo : BitVec 8) :
    (entry.checkBroadcastSeqNo seqNo).2.targetAddr = entry.targetAddr := by
  rw [Entry.checkBroadcastSeqNo]
  dsimp only
  split_ifs <;> rfl

theorem seen_cons (k : ℕ) (arrived : List ℕ) (p : ℕ) :
    (∃ k' ∈ k :: arrived, position k' = p) ↔ p = position k ∨ ∃ k' ∈ arrived, position k' = p := by
  rw [List.exists_mem_cons_iff, eq_comm]

/-- The first broadcast that arrives. -/
theorem Entry.check_first (h : entry.broadcastSeqNoValid = false) (k : ℕ) :
    (entry.checkBroadcastSeqNo (number k)).1 = true ∧
      (entry.checkBroadcastSeqNo (number k)).2.Remembers [k] := by
  rw [Entry.checkBroadcastSeqNo, h]
  refine ⟨rfl, rfl, k, List.mem_singleton_self k, rfl, ?_⟩
  refine (ReplayWindow.Shows.first (position k)).congr fun p => ?_
  rw [seen_cons]
  simp

/-- A broadcast is taken when it has not arrived before. -/
theorem Entry.check_next (h : entry.Remembers arrived) (hlate : ∀ k' ∈ arrived, k' ≤ k + 24)
    (hnear : ∃ k' ∈ arrived, k ≤ k' + 28) (hlow : k < 3 → ∀ k' ∈ arrived, k' < 4) :
    (entry.checkBroadcastSeqNo (number k)).1 = decide (k ∉ arrived) ∧
      (entry.checkBroadcastSeqNo (number k)).2.Remembers (k :: arrived) := by
  obtain ⟨hvalid, m, hm, hseqNo, hshows⟩ := h
  have hrestart : ¬(number k < cSeqNoWraparound ∧ cSeqNoWraparound < entry.broadcastSeqNo) := by
    rintro ⟨hk, hentry⟩
    have := hlow (number_lt_wraparound.mp hk) m hm
    rw [hseqNo] at hentry
    have := number_gt_wraparound hentry
    omega
  have hmem : k ∈ arrived ↔ ∃ k' ∈ arrived, position k' = position k := by
    constructor
    · intro hk
      exact ⟨k, hk, rfl⟩
    · rintro ⟨k', hk', heq⟩
      rwa [← position_inj.mp heq]
  have hnear' : position k ≤ position m + 32 := by
    obtain ⟨k', hk', hle⟩ := hnear
    have := hshows.le _ ⟨k', hk', rfl⟩
    have := position_le hle (by omega)
    omega
  have hlate' : position m ≤ position k + 28 := position_le (hlate m hm) (by omega)
  rw [Entry.checkBroadcastSeqNo, hvalid, Bool.not_true, if_neg Bool.false_ne_true,
    if_neg hrestart, hseqNo,
    toInt_sub_number (show (position k : ℤ) = position m + (position k - position m : ℤ) by omega)
      (by omega) (by omega)]
  rcases lt_trichotomy (position k) (position m) with hlt | heq | hgt
  · -- a late copy, whose place is inside the window
    have hshift : ((0 - 1 - ((position k : ℤ) - position m)) % 32).toNat =
        position m - position k - 1 := by omega
    dsimp only
    rw [if_neg (by omega), if_pos (by omega), if_pos (by omega), hshift]
    have hplace : position k + (position m - position k) = position m := by omega
    have hmeets := hshows.meets (by omega) (by omega) hplace
    by_cases hseen : k ∈ arrived
    · rw [if_pos (hmeets.mpr (hmem.mp hseen))]
      refine ⟨(decide_eq_false (not_not.mpr hseen)).symm, hvalid, m, List.mem_cons_of_mem _ hm,
        hseqNo, hshows.congr fun p => ?_⟩
      rw [seen_cons, or_iff_right_of_imp]
      rintro rfl
      exact hmem.mp hseen
    · rw [if_neg fun hc => hseen (hmem.mpr (hmeets.mp hc))]
      refine ⟨(decide_eq_true hseen).symm, rfl, m, List.mem_cons_of_mem _ hm, rfl, ?_⟩
      exact (hshows.mark (by omega) hplace).congr fun p => seen_cons k arrived p
  · -- a copy of the latest broadcast
    obtain rfl := position_inj.mp heq
    rw [if_pos (by omega)]
    refine ⟨(decide_eq_false (not_not.mpr hm)).symm, hvalid, k, List.mem_cons_of_mem _ hm, hseqNo,
      hshows.congr fun p => ?_⟩
    rw [seen_cons, or_iff_right_of_imp]
    rintro rfl
    exact ⟨k, hm, rfl⟩
  · -- a broadcast that is later than all before
    have hnew : k ∉ arrived := fun hk => by
      have := hshows.le _ ⟨k, hk, rfl⟩
      omega
    have hshift : (((position k : ℤ) - position m - 1) % 32).toNat =
        position k - position m - 1 := by omega
    dsimp only
    rw [if_neg (by omega), if_neg (by omega), hshift]
    refine ⟨(decide_eq_true hnew).symm, rfl, k, List.mem_cons_self, rfl, ?_⟩
    exact (hshows.advance (by omega)
      (show position m + (position k - position m) = position k by omega)).congr
      fun p => seen_cons k arrived p

end Entries

section Tables

/-- The entry that `findTargetAddr` finds. -/
def RoutingTable.entry (table : RoutingTable) (addr : Addr) : Option Entry :=
  table.find? fun entry => entry.targetAddr = addr

/-- No address has two entries. -/
def RoutingTable.Distinct (table : RoutingTable) : Prop := (table.map Entry.targetAddr).Nodup

variable {table : RoutingTable} {addr : Addr} {e : Entry}

theorem RoutingTable.entry_cons (e : Entry) (table : RoutingTable) (addr : Addr) :
    RoutingTable.entry (e :: table) addr =
      if e.targetAddr = addr then some e else RoutingTable.entry table addr := by
  by_cases h : e.targetAddr = addr
  · simp [RoutingTable.entry, h]
  · simp [RoutingTable.entry, h]

theorem RoutingTable.findTargetAddr_cons (e : Entry) (table : RoutingTable) (addr : Addr) :
    RoutingTable.findTargetAddr (e :: table) addr =
      if e.targetAddr = addr then some 0
      else (RoutingTable.findTargetAddr table addr).map (· + 1) := by
  by_cases h : e.targetAddr = addr
  · simp [RoutingTable.findTargetAddr, List.findIdx?_cons, h]
  · simp [RoutingTable.findTargetAddr, List.findIdx?_cons, h]

theorem RoutingTable.entry_eq_none :
    table.entry addr = none ↔ addr ∉ table.map Entry.targetAddr := by
  rw [RoutingTable.entry, List.find?_eq_none]
  simp

theorem RoutingTable.findTargetAddr_eq_none (h : table.entry addr = none) :
    table.findTargetAddr addr = none := by
  rw [RoutingTable.findTargetAddr, List.findIdx?_eq_none_iff]
  rw [RoutingTable.entry, List.find?_eq_none] at h
  simpa using h

/-- The entry that is found, and what becomes of the table when it is replaced or taken out. -/
theorem RoutingTable.found (h : table.entry addr = some e) :
    ∃ i, table.findTargetAddr addr = some i ∧ table[i]? = some e ∧ e.targetAddr = addr ∧
      (∀ e', e'.targetAddr = addr → (RoutingTable.entry (table.set i e') addr = some e' ∧
        (∀ a ≠ addr, RoutingTable.entry (table.set i e') a = table.entry a) ∧
        (table.set i e').map Entry.targetAddr = table.map Entry.targetAddr)) ∧
      ((table.eraseIdx i).map Entry.targetAddr = (table.map Entry.targetAddr).eraseIdx i ∧
        ∀ a ≠ addr, RoutingTable.entry (table.eraseIdx i) a = table.entry a) := by
  induction table with
  | nil => cases h
  | cons d table ih =>
      rw [RoutingTable.entry_cons] at h
      by_cases hd : d.targetAddr = addr
      · rw [if_pos hd, Option.some.injEq] at h
        subst h
        refine ⟨0, ?_, rfl, hd, fun e' he' => ⟨?_, fun a ha => ?_, ?_⟩, rfl, fun a ha => ?_⟩
        · rw [RoutingTable.findTargetAddr_cons, if_pos hd]
        · rw [List.set_cons_zero, RoutingTable.entry_cons, if_pos he']
        · rw [List.set_cons_zero, RoutingTable.entry_cons, RoutingTable.entry_cons, he', hd,
            if_neg (Ne.symm ha), if_neg (Ne.symm ha)]
        · rw [List.set_cons_zero, List.map_cons, List.map_cons, he', hd]
        · rw [List.eraseIdx_cons_zero, RoutingTable.entry_cons, hd, if_neg (Ne.symm ha)]
      · rw [if_neg hd] at h
        obtain ⟨i, hfind, hget, haddr, hset, herase, hrest⟩ := ih h
        refine ⟨i + 1, ?_, hget, haddr, fun e' he' => ⟨?_, fun a ha => ?_, ?_⟩, ?_, fun a ha => ?_⟩
        · rw [RoutingTable.findTargetAddr_cons, if_neg hd, hfind]
          rfl
        · rw [List.set_cons_succ, RoutingTable.entry_cons, if_neg hd, (hset e' he').1]
        · rw [List.set_cons_succ, RoutingTable.entry_cons, RoutingTable.entry_cons,
            (hset e' he').2.1 a ha]
        · rw [List.set_cons_succ, List.map_cons, List.map_cons, (hset e' he').2.2]
        · rw [List.eraseIdx_cons_succ, List.map_cons, List.map_cons, List.eraseIdx_cons_succ,
            herase]
        · rw [List.eraseIdx_cons_succ, RoutingTable.entry_cons, RoutingTable.entry_cons,
            hrest a ha]

theorem RoutingTable.entry_append (h : table.entry addr = none) (he : e.targetAddr = addr) :
    RoutingTable.entry (table ++ [e]) addr = some e ∧
      ∀ a ≠ addr, RoutingTable.entry (table ++ [e]) a = table.entry a := by
  constructor
  · rw [RoutingTable.entry] at h ⊢
    rw [List.find?_append, h]
    simp [he]
  · intro a ha
    rw [RoutingTable.entry, List.find?_append, RoutingTable.entry]
    simp [he, Ne.symm ha]

theorem RoutingTable.Distinct.append (hd : table.Distinct) (h : table.entry addr = none)
    (he : e.targetAddr = addr) : RoutingTable.Distinct (table ++ [e]) := by
  rw [RoutingTable.entry_eq_none] at h
  rw [RoutingTable.Distinct, List.map_append, List.map_singleton, he]
  exact List.Nodup.append hd (List.nodup_singleton _) (by simpa using h)

/-- A check answers by the entry of its address, or by a new one, and changes no other. -/
theorem RoutingTable.check_spec (hd : table.Distinct) (addr : Addr) (seqNo : BitVec 8) :
    ∃ e, (table.entry addr = some e ∨ table.entry addr = none ∧ e = Entry.new addr) ∧
      (table.checkBroadcastSeqNo addr seqNo).1 = (e.checkBroadcastSeqNo seqNo).1 ∧
      (table.checkBroadcastSeqNo addr seqNo).2.entry addr =
        some (e.checkBroadcastSeqNo seqNo).2 ∧
      (∀ a ≠ addr, (table.checkBroadcastSeqNo addr seqNo).2.entry a = table.entry a) ∧
      (table.checkBroadcastSeqNo addr seqNo).2.Distinct := by
  cases hentry : table.entry addr with
  | none =>
      have hcheck : table.checkBroadcastSeqNo addr seqNo =
          (((Entry.new addr).checkBroadcastSeqNo seqNo).1,
            table ++ [((Entry.new addr).checkBroadcastSeqNo seqNo).2]) := by
        rw [RoutingTable.checkBroadcastSeqNo, RoutingTable.findTargetAddr_eq_none hentry]
      have haddr : ((Entry.new addr).checkBroadcastSeqNo seqNo).2.targetAddr = addr :=
        Entry.targetAddr_check (Entry.new addr) seqNo
      rw [hcheck]
      exact ⟨Entry.new addr, .inr ⟨rfl, rfl⟩, rfl, (RoutingTable.entry_append hentry haddr).1,
        (RoutingTable.entry_append hentry haddr).2, hd.append hentry haddr⟩
  | some e =>
      obtain ⟨i, hfind, hget, haddr, hset, -⟩ := RoutingTable.found hentry
      have hcheck : table.checkBroadcastSeqNo addr seqNo =
          ((e.checkBroadcastSeqNo seqNo).1, table.set i (e.checkBroadcastSeqNo seqNo).2) := by
        rw [RoutingTable.checkBroadcastSeqNo, hfind]
        dsimp only
        rw [hget]
      obtain ⟨hself, hother, hmap⟩ :=
        hset _ ((Entry.targetAddr_check e seqNo).trans haddr)
      rw [hcheck]
      refine ⟨e, .inl rfl, rfl, hself, hother, ?_⟩
      rw [RoutingTable.Distinct, hmap]
      exact hd

theorem RoutingTable.remove_spec (hd : table.Distinct) (addr : Addr) :
    (table.removeEntry addr).entry addr = none ∧
      (∀ a ≠ addr, (table.removeEntry addr).entry a = table.entry a) ∧
      (table.removeEntry addr).Distinct := by
  cases hentry : table.entry addr with
  | none =>
      rw [RoutingTable.removeEntry, RoutingTable.findTargetAddr_eq_none hentry]
      exact ⟨hentry, fun _ _ => rfl, hd⟩
  | some e =>
      obtain ⟨i, hfind, hget, haddr, -, hmap, hother⟩ := RoutingTable.found hentry
      rw [RoutingTable.removeEntry, hfind]
      refine ⟨?_, hother, ?_⟩
      · have hplace : (table.map Entry.targetAddr)[i]? = some addr := by
          rw [List.getElem?_map, hget, Option.map_some, haddr]
        obtain ⟨hlt, hget'⟩ := List.getElem?_eq_some_iff.mp hplace
        rw [RoutingTable.entry_eq_none, hmap, ← hget', ← hd.erase_getElem i hlt]
        exact hd.not_mem_erase
      · rw [RoutingTable.Distinct, hmap]
        exact hd.eraseIdx i

theorem RoutingTable.update_spec (hd : table.Distinct) (addr : Addr) :
    ((table.updateRoute addr).entry addr = table.entry addr ∨
      table.entry addr = none ∧ (table.updateRoute addr).entry addr = some (Entry.new addr)) ∧
      (∀ a ≠ addr, (table.updateRoute addr).entry a = table.entry a) ∧
      (table.updateRoute addr).Distinct := by
  cases hentry : table.entry addr with
  | none =>
      rw [RoutingTable.updateRoute, RoutingTable.findTargetAddr_eq_none hentry]
      exact ⟨.inr ⟨rfl, (RoutingTable.entry_append hentry rfl).1⟩,
        (RoutingTable.entry_append hentry rfl).2, hd.append hentry rfl⟩
  | some e =>
      obtain ⟨i, hfind, -⟩ := RoutingTable.found hentry
      rw [RoutingTable.updateRoute, hfind]
      exact ⟨.inl hentry, fun _ _ => rfl, hd⟩

end Tables

section Runs

variable {s s' : Mesh} {orig : Addr}

/-- The originator has sent `n` broadcasts. -/
def Originator.Sent (o : Originator) (n : ℕ) : Prop :=
  o.numbers = (List.range n).map number ∧ o.seqNoBroadcast = if n = 0 then 0 else number (n - 1)

theorem Originator.Sent.send {o : Originator} {n : ℕ} (h : o.Sent n) : o.send.Sent (n + 1) := by
  have hnext : incSeqNoBroadcast o.seqNoBroadcast = number n := by
    rw [h.2]
    cases n with
    | zero => rfl
    | succ n => exact number_succ n
  constructor
  · rw [Originator.send, hnext, h.1, List.range_succ, List.map_append]
    rfl
  · rw [Originator.send, hnext]
    rfl

/-- What the receiver knows of one originator. -/
structure Known (o : Originator) (entry : Option Entry) (arrived : List ℕ) : Prop where
  sent : ∃ n, o.Sent n ∧ ∀ k ∈ arrived, k < n
  fresh : arrived = [] → ∀ e, entry = some e → e.broadcastSeqNoValid = false
  remembers : arrived ≠ [] → ∃ e, entry = some e ∧ e.Remembers arrived

structure Mesh.Inv (s : Mesh) : Prop where
  distinct : s.table.Distinct
  known : ∀ orig, Known (s.originator orig) (s.table.entry orig) (s.arrived orig)
  once : s.DeliveredOnce

theorem Known.start (entry : Option Entry)
    (h : ∀ e, entry = some e → e.broadcastSeqNoValid = false) :
    Known .start entry [] :=
  ⟨⟨0, ⟨rfl, rfl⟩, fun _ hk => absurd hk List.not_mem_nil⟩, fun _ => h, fun hne => absurd rfl hne⟩

theorem Mesh.Initial.inv (h : s.Initial) : s.Inv := by
  obtain ⟨horiginator, htable, harrived, hdelivered⟩ := h
  refine ⟨?_, fun orig => ?_, fun orig => ?_⟩
  · rw [htable]
    exact List.nodup_nil
  · rw [horiginator, htable, harrived]
    exact Known.start none fun _ he => by cases he
  · rw [hdelivered, harrived]
    exact ⟨List.nodup_nil, fun _ => Iff.rfl⟩

theorem Mesh.Inv.send (h : s.Inv) (orig : Addr) :
    Mesh.Inv
      { s with originator := Function.update s.originator orig (s.originator orig).send } := by
  refine ⟨h.distinct, fun a => ?_, h.once⟩
  have hknown := h.known a
  by_cases ha : a = orig
  · subst ha
    obtain ⟨n, hsent, hlt⟩ := hknown.sent
    dsimp only
    rw [Function.update_self]
    exact ⟨⟨n + 1, hsent.send, fun k hk => Nat.lt_succ_of_lt (hlt k hk)⟩, hknown.fresh,
      hknown.remembers⟩
  · dsimp only
    rw [Function.update_of_ne ha]
    exact hknown

theorem Mesh.Inv.restart (h : s.Inv) (orig : Addr) :
    Mesh.Inv
      { originator := Function.update s.originator orig .start
        table := s.table.removeEntry orig
        arrived := Function.update s.arrived orig []
        delivered := Function.update s.delivered orig [] } := by
  obtain ⟨hnone, hother, hdistinct⟩ := RoutingTable.remove_spec h.distinct orig
  refine ⟨hdistinct, fun a => ?_, fun a => ?_⟩
  · dsimp only
    by_cases ha : a = orig
    · subst ha
      rw [Function.update_self, Function.update_self, hnone]
      exact Known.start none fun _ he => by cases he
    · rw [Function.update_of_ne ha, Function.update_of_ne ha, hother a ha]
      exact h.known a
  · dsimp only
    by_cases ha : a = orig
    · subst ha
      rw [Function.update_self, Function.update_self]
      exact ⟨List.nodup_nil, fun _ => Iff.rfl⟩
    · rw [Function.update_of_ne ha, Function.update_of_ne ha]
      exact h.once a

theorem Mesh.Inv.route (h : s.Inv) (target : Addr) :
    Mesh.Inv { s with table := s.table.updateRoute target } := by
  obtain ⟨hself, hother, hdistinct⟩ := RoutingTable.update_spec h.distinct target
  refine ⟨hdistinct, fun a => ?_, h.once⟩
  have hknown := h.known a
  dsimp only
  by_cases ha : a = target
  · subst ha
    rcases hself with heq | ⟨hnone, hnew⟩
    · rw [heq]
      exact hknown
    · refine ⟨hknown.sent, fun _ e he => ?_, fun hne => ?_⟩
      · rw [hnew, Option.some.injEq] at he
        rw [← he]
        rfl
      · obtain ⟨e, he, -⟩ := hknown.remembers hne
        rw [hnone] at he
        cases he
  · rw [hother a ha]
    exact hknown

/-- A copy is taken when its broadcast has not arrived, and is remembered. -/
theorem Known.check {o : Originator} {e : Entry} {arrived : List ℕ} {k : ℕ}
    (h : Known o (some e) arrived) (hk : k < o.numbers.length)
    (hlate : o.numbers.length ≤ k + 25) (hnear : arrived = [] ∨ ∃ k' ∈ arrived, k ≤ k' + 28)
    (hlow : k < 3 → ∀ k' ∈ arrived, k' < 4) :
    (e.checkBroadcastSeqNo (number k)).1 = decide (k ∉ arrived) ∧
      Known o (some (e.checkBroadcastSeqNo (number k)).2) (k :: arrived) := by
  obtain ⟨n, hsent, hlt⟩ := h.sent
  have hlength : o.numbers.length = n := by rw [hsent.1, List.length_map, List.length_range]
  have hsent' : ∃ n, o.Sent n ∧ ∀ k' ∈ k :: arrived, k' < n := by
    refine ⟨n, hsent, fun k' hk' => ?_⟩
    rcases List.mem_cons.mp hk' with rfl | hk'
    · omega
    · exact hlt k' hk'
  have hresult : (e.checkBroadcastSeqNo (number k)).1 = decide (k ∉ arrived) ∧
      (e.checkBroadcastSeqNo (number k)).2.Remembers (k :: arrived) := by
    by_cases hempty : arrived = []
    · subst hempty
      obtain ⟨htrue, hremembers⟩ := Entry.check_first (h.fresh rfl e rfl) k
      exact ⟨htrue.trans (by simp), hremembers⟩
    · obtain ⟨e', he', hremembers⟩ := h.remembers hempty
      obtain rfl := Option.some.inj he'
      refine Entry.check_next hremembers (fun k' hk' => ?_) (hnear.resolve_left hempty) hlow
      have := hlt k' hk'
      omega
  exact ⟨hresult.1, hsent', fun hc => absurd hc (List.cons_ne_nil _ _),
    fun _ => ⟨_, rfl, hresult.2⟩⟩

theorem Mesh.Inv.arrive (h : s.Inv) {k : ℕ} {seqNo : BitVec 8}
    (hk : (s.originator orig).numbers[k]? = some seqNo) (hadm : s.Admitted (.arrive orig k)) :
    Mesh.Inv
      { s with
        table := (s.table.checkBroadcastSeqNo orig seqNo).2
        arrived := Function.update s.arrived orig (k :: s.arrived orig)
        delivered :=
          if (s.table.checkBroadcastSeqNo orig seqNo).1 then
            Function.update s.delivered orig (k :: s.delivered orig)
          else s.delivered } := by
  obtain ⟨hlate, hnear, hlow⟩ := hadm
  obtain ⟨e, hentry, hanswer, hself, hother, hdistinct⟩ :=
    RoutingTable.check_spec h.distinct orig seqNo
  have hknown : Known (s.originator orig) (some e) (s.arrived orig) := by
    have hold := h.known orig
    rcases hentry with hsome | ⟨hnone, rfl⟩
    · rwa [hsome] at hold
    · refine ⟨hold.sent, fun _ e he => ?_, fun hne => ?_⟩
      · rw [← Option.some.inj he]
        rfl
      · obtain ⟨e, he, -⟩ := hold.remembers hne
        rw [hnone] at he
        cases he
  have hlt : k < (s.originator orig).numbers.length := (List.getElem?_eq_some_iff.mp hk).1
  have hnumber : seqNo = number k := by
    obtain ⟨n, hsent, -⟩ := hknown.sent
    rw [hsent.1, List.getElem?_map] at hk
    rw [hsent.1, List.length_map, List.length_range] at hlt
    rw [List.getElem?_range hlt, Option.map_some, Option.some.injEq] at hk
    exact hk.symm
  subst hnumber
  obtain ⟨htaken, hknown'⟩ := hknown.check hlt hlate hnear hlow
  refine ⟨hdistinct, fun a => ?_, fun a => ?_⟩
  · dsimp only
    by_cases ha : a = orig
    · subst ha
      rw [Function.update_self, hself]
      exact hknown'
    · rw [Function.update_of_ne ha, hother a ha]
      exact h.known a
  · dsimp only
    rw [hanswer, htaken]
    obtain ⟨hnodup, hmem⟩ := h.once a
    by_cases ha : a = orig
    · subst ha
      rw [Function.update_self]
      by_cases hseen : k ∈ s.arrived a
      · rw [decide_eq_false (not_not.mpr hseen), if_neg Bool.false_ne_true]
        refine ⟨hnodup, fun k' => ?_⟩
        rw [hmem, List.mem_cons, or_iff_right_of_imp]
        rintro rfl
        exact hseen
      · rw [decide_eq_true hseen, if_pos rfl, Function.update_self]
        refine ⟨List.nodup_cons.mpr ⟨fun hc => hseen ((hmem k).mp hc), hnodup⟩, fun k' => ?_⟩
        rw [List.mem_cons, List.mem_cons, hmem]
    · rw [Function.update_of_ne ha]
      split_ifs
      · rw [Function.update_of_ne ha]
        exact h.once a
      · exact h.once a

theorem Mesh.Inv.step (h : s.Inv) {event : Event} (hadm : s.Admitted event)
    (hstep : s.step event = some s') : s'.Inv := by
  cases event with
  | send orig =>
      obtain rfl := Option.some.inj hstep
      exact h.send orig
  | arrive orig k =>
      rw [Mesh.step, Option.map_eq_some_iff] at hstep
      obtain ⟨seqNo, hk, rfl⟩ := hstep
      exact h.arrive hk hadm
  | restart orig =>
      obtain rfl := Option.some.inj hstep
      exact h.restart orig
  | route target =>
      obtain rfl := Option.some.inj hstep
      exact h.route target

def sampleMesh : Mesh := ⟨fun _ => .start, [], fun _ => [], fun _ => []⟩

/-- Three broadcasts, of which the second comes last and twice. -/
def sampleEvents : List Event :=
  [.send 5, .arrive 5 0, .send 5, .send 5, .route 9, .arrive 5 2, .arrive 5 1, .arrive 5 1]

end Runs

end TinyCLR.Network
