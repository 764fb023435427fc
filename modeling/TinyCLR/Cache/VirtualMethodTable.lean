import TinyCLR.Cache.AVLTree
import TinyCLR.Library.Ring
import TinyCLR.TypeSystem.VirtualMethod

/-!
# The cache of virtual method lookups

Both implementations of `CLR_RT_EventCache::VirtualMethodTable`: the table of hash buckets whose
entries are also kept in a list by their last use, and the AVL tree whose entries come from two
lists. A result of `none` stands for a walk that does not end or for a null link.
-/

namespace TinyCLR

open Rings

/-- `Payload::Key`. -/
structure LookupKey where
  mdVirtual : MethodDefIndex
  cls : TypeDefIndex
  deriving DecidableEq

structure Payload where
  key : LookupKey
  md : MethodDefIndex

/-- The payload is what a lookup without the cache would find. -/
def Payload.Right (ts : TypeSystem) (p : Payload) : Prop :=
  ts.findVirtualMethodDef p.key.cls p.key.mdVirtual = some p.md

/-- The results of a sequence of lookups. -/
def lookups {Table : Type} (find : Table → TypeDefIndex → MethodDefIndex →
    Option (Option MethodDefIndex × Table)) :
    Table → List (TypeDefIndex × MethodDefIndex) → Option (List (Option MethodDefIndex))
  | _, [] => some []
  | t, (cls, mdVirtual) :: rest =>
      (find t cls mdVirtual).bind fun r => (lookups find r.2 rest).map (r.1 :: ·)

/-- When every lookup keeps the invariant and finds what the uncached path finds, so does every
sequence of lookups. -/
theorem lookups_eq {Table : Type} {ts : TypeSystem} (Inv : Table → Prop)
    {find : Table → TypeDefIndex → MethodDefIndex → Option (Option MethodDefIndex × Table)}
    (hfind : ∀ t cls mdVirtual, Inv t →
      ∃ t', find t cls mdVirtual = some (ts.resolve cls mdVirtual, t') ∧ Inv t')
    (qs : List (TypeDefIndex × MethodDefIndex)) {t : Table} (h : Inv t) :
    lookups find t qs = some (qs.map fun q => ts.resolve q.1 q.2) := by
  induction qs generalizing t with
  | nil => rfl
  | cons q qs ih =>
      obtain ⟨cls, mdVirtual⟩ := q
      obtain ⟨t', heq, h'⟩ := hfind t cls mdVirtual h
      rw [lookups, heq, Option.bind_some, ih h']
      rfl

/-! ## Hash buckets -/

/-- `PLATFORM_DEPENDENT_ENTRY_SIZE` and `PLATFORM_DEPENDENT_HASH_TABLE_SIZE`. -/
structure TableSize where
  entries : Nat
  hashTable : Nat
  entries_pos : 0 < entries
  hashTable_pos : 0 < hashTable

namespace TableSize

def linkArraySize (size : TableSize) : Nat := size.entries + size.hashTable
def linkMRUArraySize (size : TableSize) : Nat := size.entries + 1
def payloadArraySize (size : TableSize) : Nat := size.entries

end TableSize

/-- The table of hash buckets. -/
structure HashTable where
  entries : Links Nat
  entriesMRU : Links Nat
  payloads : Nat → Payload

namespace HashTable

/-- `Initialize`; the payloads are whatever the memory holds. -/
def initializeTable (size : TableSize) (payloads : Nat → Payload) : HashTable where
  entries := { next := fun idx => idx, prev := fun idx => idx }
  entriesMRU :=
    { next := fun idx => if idx = size.linkMRUArraySize - 1 then 0 else idx + 1
      prev := fun idx => if idx = 0 then size.linkMRUArraySize - 1 else idx - 1 }
  payloads := payloads

def moveEntryToTop (entries : Links Nat) (slot idx : Nat) : Links Nat :=
  if entries.next slot ≠ idx then (entries.unlink idx).insertAfter slot idx else entries

def getNewEntry (size : TableSize) (t : HashTable) : Nat :=
  t.entriesMRU.prev (size.linkMRUArraySize - 1)

/-- The two moves at the end of `FindVirtualMethod`. -/
def moveToTop (size : TableSize) (t : HashTable) (idxHead idx : Nat) : HashTable :=
  { t with
    entries := moveEntryToTop t.entries idxHead idx
    entriesMRU := moveEntryToTop t.entriesMRU (size.linkMRUArraySize - 1) idx }

/-- The walk through a bucket: the entry with the key, or none when the head comes round. -/
def searchBucket (t : HashTable) (key : LookupKey) (idxHead : Nat) :
    Nat → Nat → Option (Option Nat)
  | 0, _ => none
  | fuel + 1, idx =>
      if idx ≠ idxHead then
        if (t.payloads idx).key = key then some (some idx)
        else searchBucket t key idxHead fuel (t.entries.next idx)
      else some none

/-- `FindVirtualMethod`, for a hash of the key. -/
def findVirtualMethod (ts : TypeSystem) (size : TableSize) (computeCRC : LookupKey → Nat)
    (t : HashTable) (cls : TypeDefIndex) (mdVirtual : MethodDefIndex) :
    Option (Option MethodDefIndex × HashTable) :=
  if cls.assembly = mdVirtual.assembly ∧ cls.type = ts.owner mdVirtual then
    some (some mdVirtual, t)
  else
    let key : LookupKey := { mdVirtual := mdVirtual, cls := cls }
    let idxHead := computeCRC key % (size.linkArraySize - size.payloadArraySize) +
      size.payloadArraySize
    match t.searchBucket key idxHead (size.payloadArraySize + 1) (t.entries.next idxHead) with
    | none => none
    | some (some idx) => some (some (t.payloads idx).md, t.moveToTop size idxHead idx)
    | some none =>
        match ts.findVirtualMethodDef cls mdVirtual with
        | none => some (none, t)
        | some md =>
            let idx := t.getNewEntry size
            let t := { t with
              payloads := Function.update t.payloads idx { key := key, md := md } }
            some (some md, t.moveToTop size idxHead idx)

/-- The buckets hold entries of the table with right payloads, and the list of last uses holds
every entry. -/
structure Books (ts : TypeSystem) (size : TableSize) (t : HashTable) (head : Nat → Prop)
    (bucket : Nat → List Nat) (lru : List Nat) : Prop where
  layout : Layout t.entries head bucket
  slot : ∀ k, size.entries ≤ k → k < size.linkArraySize → head k
  bucket_lt : ∀ k, head k → ∀ idx ∈ bucket k, idx < size.entries
  placed : ∀ idx, idx < size.entries →
    head idx ∧ bucket idx = [] ∨ ∃ k, head k ∧ idx ∈ bucket k
  right : ∀ k, head k → ∀ idx ∈ bucket k, (t.payloads idx).Right ts
  mru : Layout t.entriesMRU (· = size.entries) fun _ => lru
  mru_mem : ∀ idx, idx ∈ lru ↔ idx < size.entries

def Inv (ts : TypeSystem) (size : TableSize) (t : HashTable) : Prop :=
  ∃ head bucket lru, Books ts size t head bucket lru

/-- The walk of a bucket ends at its head and finds the first entry with the key. -/
theorem searchBucket_eq {t : HashTable} (key : LookupKey) {idxHead a : Nat} {l : List Nat}
    {fuel : Nat} (h : t.entries.Chain a l idxHead) (hhead : idxHead ∉ l)
    (hfuel : l.length < fuel) :
    t.searchBucket key idxHead fuel (t.entries.next a) =
      some (l.find? fun idx => (t.payloads idx).key = key) := by
  induction l generalizing a fuel with
  | nil =>
      obtain ⟨fuel, rfl⟩ := Nat.exists_eq_succ_of_ne_zero (Nat.ne_of_gt hfuel)
      rw [h.1, searchBucket, if_neg (by simp)]
      rfl
  | cons b l ih =>
      obtain ⟨fuel, rfl⟩ := Nat.exists_eq_succ_of_ne_zero (Nat.ne_of_gt (Nat.zero_lt_of_lt hfuel))
      obtain ⟨hnext, -, hrest⟩ := h
      have hne : b ≠ idxHead := fun heq => hhead (heq ▸ List.mem_cons_self)
      rw [hnext, searchBucket, if_pos hne, List.find?_cons]
      by_cases hkey : (t.payloads b).key = key
      · simp [hkey]
      · rw [if_neg hkey, ih hrest (fun hmem => hhead (List.mem_cons_of_mem b hmem))
          (Nat.lt_of_succ_lt_succ hfuel)]
        simp [hkey]

/-- `MoveEntryToTop` on a table of rings, whether or not the entry stands at the top already. -/
theorem moveEntryToTop_layout {e : Links Nat} {head : Nat → Prop} {list : Nat → List Nat}
    (h : Layout e head list) {slot idx : Nat} (hslot : head slot) (hne : idx ≠ slot)
    (hidx : head idx ∧ list idx = [] ∨ ∃ k, head k ∧ idx ∈ list k) :
    ∃ head' list', Layout (moveEntryToTop e slot idx) head' list' ∧
      (∀ k, head' k ↔ head k ∧ k ≠ idx) ∧
      ∀ k, head k → ∀ i, i ∈ list' k ↔ i ∈ list k ∧ i ≠ idx ∨ k = slot ∧ i = idx := by
  rw [moveEntryToTop]
  split
  next =>
    refine ⟨_, _, h.moveToFront hslot hne hidx, fun _ => Iff.rfl, ?_⟩
    intro k hk i
    have hnodup := (List.nodup_cons.mp (h.nodup k hk)).2
    by_cases hks : k = slot
    · subst hks
      rw [Function.update_self, List.mem_cons, hnodup.mem_erase_iff]
      tauto
    · rw [Function.update_of_ne hks, hnodup.mem_erase_iff]
      tauto
  next htop =>
    have htop := not_not.mp htop
    have hmem : idx ∈ list slot := by
      have := Links.Chain.next_mem (h.ring slot hslot)
      rw [htop] at this
      rcases List.mem_append.mp this with hmem | hmem
      · exact hmem
      · exact absurd (List.mem_singleton.mp hmem) hne
    have honly : ∀ k, head k → idx ∈ k :: list k → k = slot := by
      intro k hk hin
      by_contra hks
      exact h.disjoint k hk slot hslot hks hin (List.mem_cons_of_mem slot hmem)
    refine ⟨head, list, h, fun k => ⟨fun hk => ⟨hk, ?_⟩, And.left⟩, fun k hk i => ?_⟩
    · rintro rfl
      exact hne (honly k hk List.mem_cons_self)
    · by_cases hi : i = idx
      · subst hi
        refine ⟨fun hin => .inr ⟨honly k hk (List.mem_cons_of_mem k hin), rfl⟩, ?_⟩
        rintro (⟨-, hni⟩ | ⟨rfl, -⟩)
        · exact absurd rfl hni
        · exact hmem
      · simp [hi]

/-- An entry with a right payload moves to the top of a bucket and of the list of last uses. -/
theorem Books.moveToTop {ts : TypeSystem} {size : TableSize} {t t' : HashTable}
    {head : Nat → Prop} {bucket : Nat → List Nat} {lru : List Nat}
    (h : Books ts size t head bucket lru) {slot idx : Nat} (hslot : size.entries ≤ slot)
    (hslot' : slot < size.linkArraySize) (hidx : idx < size.entries)
    (hentries : t'.entries = t.entries) (hmru : t'.entriesMRU = t.entriesMRU)
    (hpayload : ∀ i, i ≠ idx → t'.payloads i = t.payloads i)
    (hright : (t'.payloads idx).Right ts) : (t'.moveToTop size slot idx).Inv ts size := by
  have hne : idx ≠ slot := fun heq => Nat.lt_irrefl _ (heq ▸ Nat.lt_of_lt_of_le hidx hslot)
  obtain ⟨head', bucket', hlayout, hhead, hbucket⟩ :=
    moveEntryToTop_layout h.layout (h.slot slot hslot hslot') hne (h.placed idx hidx)
  have hlru : idx ∈ lru := (h.mru_mem idx).mpr hidx
  obtain ⟨headMRU, lists, hlayoutMRU, hheadMRU, hlists⟩ :=
    moveEntryToTop_layout h.mru (show size.entries = size.entries from rfl) (Nat.ne_of_lt hidx)
      (.inr ⟨size.entries, rfl, hlru⟩)
  have hE : headMRU size.entries := (hheadMRU size.entries).mpr ⟨rfl, (Nat.ne_of_lt hidx).symm⟩
  refine ⟨head', bucket', lists size.entries, ?_, ?_, ?_, ?_, ?_, ⟨?_, ?_, ?_⟩, ?_⟩
  · rw [HashTable.moveToTop, hentries]
    exact hlayout
  · intro k hk hk'
    refine (hhead k).mpr ⟨h.slot k hk hk', ?_⟩
    rintro rfl
    exact Nat.lt_irrefl _ (Nat.lt_of_lt_of_le hidx hk)
  · intro k hk i hi
    obtain ⟨hk, -⟩ := (hhead k).mp hk
    rcases (hbucket k hk i).mp hi with ⟨hi, -⟩ | ⟨-, rfl⟩
    · exact h.bucket_lt k hk i hi
    · exact hidx
  · intro i hi
    by_cases hii : i = idx
    · subst hii
      exact .inr ⟨slot, (hhead slot).mpr ⟨h.slot slot hslot hslot', hne.symm⟩,
        (hbucket slot (h.slot slot hslot hslot') i).mpr (.inr ⟨rfl, rfl⟩)⟩
    · rcases h.placed i hi with ⟨hi', hempty⟩ | ⟨k, hk, hmem⟩
      · refine .inl ⟨(hhead i).mpr ⟨hi', hii⟩, List.eq_nil_iff_forall_not_mem.mpr fun j hj => ?_⟩
        rcases (hbucket i hi' j).mp hj with ⟨hj, -⟩ | ⟨hislot, -⟩
        · rw [hempty] at hj
          cases hj
        · exact Nat.lt_irrefl _ (Nat.lt_of_lt_of_le (hislot ▸ hi) hslot)
      · refine .inr ⟨k, (hhead k).mpr ⟨hk, ?_⟩, (hbucket k hk i).mpr (.inl ⟨hmem, hii⟩)⟩
        rintro rfl
        rcases h.placed k hidx with ⟨-, hempty⟩ | ⟨g, hg, hkg⟩
        · rw [hempty] at hmem
          cases hmem
        · by_cases hgk : g = k
          · subst hgk
            exact (List.nodup_cons.mp (h.layout.nodup g hg)).1 hkg
          · exact h.layout.disjoint g hg k hk hgk (List.mem_cons_of_mem g hkg) List.mem_cons_self
  · intro k hk i hi
    obtain ⟨hk, -⟩ := (hhead k).mp hk
    rcases (hbucket k hk i).mp hi with ⟨hi, hii⟩ | ⟨-, rfl⟩
    · rw [HashTable.moveToTop, hpayload i hii]
      exact h.right k hk i hi
    · exact hright
  · rintro k rfl
    rw [HashTable.moveToTop, hmru]
    exact hlayoutMRU.ring size.entries hE
  · rintro k rfl
    exact hlayoutMRU.nodup size.entries hE
  · rintro k rfl k' rfl hkk'
    exact absurd rfl hkk'
  · intro i
    rw [hlists size.entries rfl i, h.mru_mem i]
    constructor
    · rintro (⟨hi, -⟩ | ⟨-, rfl⟩)
      · exact hi
      · exact hidx
    · intro hi
      by_cases hii : i = idx
      · exact .inr ⟨rfl, hii⟩
      · exact .inl ⟨hi, hii⟩

/-- `GetNewEntry` is an entry of the table. -/
theorem Books.getNewEntry_lt {ts : TypeSystem} {size : TableSize} {t : HashTable}
    {head : Nat → Prop} {bucket : Nat → List Nat} {lru : List Nat}
    (h : Books ts size t head bucket lru) : t.getNewEntry size < size.entries := by
  have hring := h.mru.ring size.entries rfl
  have hne : lru ≠ [] := List.ne_nil_of_mem ((h.mru_mem 0).mpr size.entries_pos)
  have hlast := Links.Chain.prev_eq hring
  rw [List.getLast_cons hne] at hlast
  apply (h.mru_mem _).mp
  rw [show t.getNewEntry size = _ from hlast]
  exact List.getLast_mem hne

/-- One lookup finds what the uncached path finds. -/
theorem findVirtualMethod_spec (ts : TypeSystem) (size : TableSize) (computeCRC : LookupKey → Nat)
    (t : HashTable) (cls : TypeDefIndex) (mdVirtual : MethodDefIndex) (h : t.Inv ts size) :
    ∃ t', findVirtualMethod ts size computeCRC t cls mdVirtual =
      some (ts.resolve cls mdVirtual, t') ∧ t'.Inv ts size := by
  rw [findVirtualMethod]
  split
  next howner =>
    have hcls : cls = ts.ownerType mdVirtual := by
      obtain ⟨a, c⟩ := cls
      simpa [TypeSystem.ownerType] using howner
    exact ⟨t, by rw [hcls, ts.resolve_owner], h⟩
  next hother =>
    have hresolve : ts.resolve cls mdVirtual = ts.findVirtualMethodDef cls mdVirtual := by
      refine if_neg fun hcls => hother ?_
      rw [hcls.1]
      exact ⟨rfl, rfl⟩
    obtain ⟨head, bucket, lru, hbooks⟩ := h
    set key : LookupKey := { mdVirtual := mdVirtual, cls := cls } with hkey
    set slot := computeCRC key % (size.linkArraySize - size.payloadArraySize) +
      size.payloadArraySize with hslot
    have hmod : computeCRC key % (size.linkArraySize - size.payloadArraySize) <
        size.linkArraySize - size.payloadArraySize := by
      apply Nat.mod_lt
      have := size.hashTable_pos
      simp only [TableSize.linkArraySize, TableSize.payloadArraySize]
      omega
    have hge : size.entries ≤ slot := Nat.le_add_left _ _
    have hlt : slot < size.linkArraySize := by
      simp only [TableSize.linkArraySize, TableSize.payloadArraySize] at hmod hslot ⊢
      omega
    have hhead := hbooks.slot slot hge hlt
    obtain ⟨hnot, hnodup⟩ := List.nodup_cons.mp (hbooks.layout.nodup slot hhead)
    have hlength : (bucket slot).length < size.payloadArraySize + 1 := by
      have hsub : bucket slot ⊆ List.range size.entries := fun idx hidx =>
        List.mem_range.mpr (hbooks.bucket_lt slot hhead idx hidx)
      have := (List.subperm_of_subset hnodup hsub).length_le
      rw [List.length_range] at this
      exact Nat.lt_succ_of_le this
    have hsearch := searchBucket_eq key (hbooks.layout.ring slot hhead) hnot hlength
    dsimp only
    rw [hsearch, hresolve]
    cases hfind : (bucket slot).find? fun idx => (t.payloads idx).key = key with
    | some idx =>
        have hmem := List.mem_of_find?_eq_some hfind
        have hk : (t.payloads idx).key = key := by simpa using List.find?_some hfind
        have hright := hbooks.right slot hhead idx hmem
        refine ⟨_, ?_, hbooks.moveToTop hge hlt (hbooks.bucket_lt slot hhead idx hmem) rfl rfl
          (fun _ _ => rfl) hright⟩
        rw [Payload.Right, hk] at hright
        rw [hright]
    | none =>
        dsimp only
        cases hdef : ts.findVirtualMethodDef cls mdVirtual with
        | none => exact ⟨t, rfl, head, bucket, lru, hbooks⟩
        | some md =>
            refine ⟨_, rfl, hbooks.moveToTop hge hlt hbooks.getNewEntry_lt rfl rfl ?_ ?_⟩
            · exact fun i hi => Function.update_of_ne hi _ _
            · dsimp only
              rw [Function.update_self]
              exact hdef

/-- The chain of all entries that `Initialize` links. -/
theorem initializeTable_chain (size : TableSize) (payloads : Nat → Payload) {a n : Nat}
    (h : a + n + 1 = size.entries) :
    (initializeTable size payloads).entriesMRU.Chain a (List.range' (a + 1) n) size.entries := by
  induction n generalizing a with
  | zero =>
      refine ⟨?_, ?_⟩
      · show (if a = size.entries then 0 else a + 1) = size.entries
        rw [if_neg (by omega)]
        omega
      · show (if size.entries = 0 then size.entries else size.entries - 1) = a
        rw [if_neg (by omega)]
        omega
  | succ n ih =>
      refine ⟨?_, ?_, ih (by omega)⟩
      · simp [initializeTable, TableSize.linkMRUArraySize]
        omega
      · simp [initializeTable, TableSize.linkMRUArraySize]

theorem initializeTable_inv (ts : TypeSystem) (size : TableSize) (payloads : Nat → Payload) :
    (initializeTable size payloads).Inv ts size := by
  have hpos := size.entries_pos
  refine ⟨fun _ => True, fun _ => [], List.range size.entries, ⟨?_, ?_, ?_⟩, fun _ _ _ => trivial,
    by simp, fun _ _ => .inl ⟨trivial, rfl⟩, by simp, ⟨?_, ?_, ?_⟩, fun _ => List.mem_range⟩
  · exact fun k _ => ⟨rfl, rfl⟩
  · simp
  · intro k _ k' _ hkk' x hx hx'
    exact hkk' ((List.mem_singleton.mp hx).symm.trans (List.mem_singleton.mp hx'))
  · rintro k rfl
    obtain ⟨n, hn⟩ := Nat.exists_eq_succ_of_ne_zero (Nat.ne_of_gt hpos)
    rw [List.range_eq_range', hn, List.range'_succ]
    refine ⟨?_, ?_, ?_⟩
    · simp [initializeTable, TableSize.linkMRUArraySize, hn]
    · simp [initializeTable, TableSize.linkMRUArraySize, hn]
    · have := initializeTable_chain size payloads (a := 0) (n := n) (by omega)
      rwa [hn] at this
  · rintro k rfl
    exact List.nodup_cons.mpr ⟨by simp, List.nodup_range⟩
  · rintro k rfl k' rfl hkk'
    exact absurd rfl hkk'

end HashTable

/-! ## AVL tree -/

/-- `Payload::Compare`. -/
def Payload.compare (left right : Payload) : Int :=
  if left.key.mdVirtual.data = right.key.mdVirtual.data then
    if left.key.cls.data = right.key.cls.data then 0
    else if left.key.cls.data < right.key.cls.data then -1
    else 1
  else if left.key.mdVirtual.data < right.key.mdVirtual.data then -1
  else 1

/-- The entries, numbered by their place in `m_entries`, and the lists that hold them. -/
structure LookupEntries where
  payload : Nat → Payload
  freeItems : List Nat
  inUse : List Nat

namespace LookupEntries

/-- `InsertAfterNode` for two nodes of the list. -/
def insertAfterNode (node nodeNew : Nat) : List Nat → List Nat
  | [] => []
  | n :: ns => if n = node then n :: nodeNew :: ns else n :: insertAfterNode node nodeNew ns

def newNode (s : LookupEntries) (p : Payload) : Option (Nat × LookupEntries) :=
  match s.freeItems with
  | [] => none
  | n :: rest =>
      some (n,
        { payload := Function.update s.payload n p, freeItems := rest, inUse := n :: s.inUse })

def freeNode (s : LookupEntries) (n : Nat) : LookupEntries :=
  { s with freeItems := s.freeItems.erase n ++ [n], inUse := s.inUse.erase n }

def reassign (s : LookupEntries) (source target : Nat) : LookupEntries :=
  { s with
    inUse := if source = target then s.inUse else insertAfterNode source target (s.inUse.erase target)
    payload := Function.update s.payload target (s.payload source) }

def ownerInfo : AVLTree.OwnerInfo LookupEntries Nat Payload where
  compare := fun s n p => (s.payload n).compare p
  newNode := newNode
  freeNode := freeNode
  reassignNode := reassign

/-- The key of a payload, ordered as `Compare` does. -/
def keyOf (p : Payload) : ℕ ×ₗ ℕ :=
  toLex (p.key.mdVirtual.data, p.key.cls.data)

theorem compare_pos (l r : Payload) : 0 < l.compare r ↔ keyOf r < keyOf l := by
  rw [Payload.compare, keyOf, keyOf, Prod.Lex.toLex_lt_toLex]
  split_ifs <;> simp only <;> omega

theorem compare_neg (l r : Payload) : l.compare r < 0 ↔ keyOf l < keyOf r := by
  rw [Payload.compare, keyOf, keyOf, Prod.Lex.toLex_lt_toLex]
  split_ifs <;> simp only <;> omega

theorem insertAfterNode_perm {node nodeNew : Nat} {l : List Nat} (h : node ∈ l) :
    (insertAfterNode node nodeNew l).Perm (nodeNew :: l) := by
  induction l with
  | nil => cases h
  | cons n ns ih =>
      rw [insertAfterNode]
      split
      next => exact List.Perm.swap _ _ _
      next hne =>
        have hmem := (List.mem_cons.mp h).resolve_left (Ne.symm hne)
        exact (List.Perm.cons n (ih hmem)).trans (List.Perm.swap _ _ _)

/-- Every entry is in one list, and the payloads in use are right. -/
structure Valid (ts : TypeSystem) (s : LookupEntries) : Prop where
  nodup : (s.inUse ++ s.freeItems).Nodup
  right : ∀ n ∈ s.inUse, (s.payload n).Right ts

theorem reassign_perm (s : LookupEntries) {source target : Nat} (hs : source ∈ s.inUse)
    (ht : target ∈ s.inUse) (hne : source ≠ target) :
    (s.reassign source target).inUse.Perm s.inUse := by
  simp only [reassign, if_neg hne]
  exact (insertAfterNode_perm ((List.mem_erase_of_ne hne).mpr hs)).trans
    (List.perm_cons_erase ht).symm

/-- The callbacks of the table keep what the tree asks of its owner. -/
def owner (ts : TypeSystem) : AVLTree.Owner LookupEntries Nat Payload (ℕ ×ₗ ℕ) where
  toOwnerInfo := ownerInfo
  valid := Valid ts
  live := fun s n => n ∈ s.inUse
  key := fun s n => keyOf (s.payload n)
  admissible := Payload.Right ts
  datumKey := keyOf
  compare_pos := fun s n p => compare_pos (s.payload n) p
  compare_neg := fun s n p => compare_neg (s.payload n) p
  newNode_spec := by
    intro s p n s' hs hp hnew
    simp only [ownerInfo, newNode] at hnew
    cases hfree : s.freeItems with
    | nil =>
        rw [hfree] at hnew
        cases hnew
    | cons m rest =>
        rw [hfree] at hnew
        obtain ⟨rfl, rfl⟩ := Prod.mk.inj (Option.some.inj hnew)
        have hnodup := hs.nodup
        rw [hfree, List.perm_middle.nodup_iff, List.nodup_cons] at hnodup
        have hnot : m ∉ s.inUse := fun hmem => hnodup.1 (List.mem_append_left _ hmem)
        refine ⟨⟨?_, ?_⟩, hnot, ?_, ?_, ?_⟩
        · exact List.nodup_cons.mpr hnodup
        · intro k hk
          rcases List.mem_cons.mp hk with rfl | hk
          · simpa using hp
          · have hne : k ≠ m := fun heq => hnot (heq ▸ hk)
            simpa [hne] using hs.right k hk
        · intro k
          simp [or_comm]
        · simp
        · intro k hk
          simp [hk]
  freeNode_spec := by
    intro s n hs hn
    have hnodup := hs.nodup
    obtain ⟨hin, hfree, hdisj⟩ := List.nodup_append.mp hnodup
    have hnot : n ∉ s.freeItems := fun hmem => hdisj n hn n hmem rfl
    refine ⟨⟨?_, ?_⟩, ?_, fun _ => rfl⟩
    · simp only [ownerInfo, freeNode, List.erase_of_not_mem hnot]
      refine List.nodup_append.mpr ⟨hin.erase n, ?_, ?_⟩
      · exact List.nodup_append.mpr ⟨hfree, by simp, fun a ha b hb heq =>
          hnot (List.mem_singleton.mp hb ▸ heq ▸ ha)⟩
      · intro a ha b hb heq
        rcases List.mem_append.mp hb with hb | hb
        · exact hdisj a (List.mem_of_mem_erase ha) b hb heq
        · rw [heq, List.mem_singleton.mp hb] at ha
          exact hin.not_mem_erase ha
    · exact fun k hk => hs.right k (List.mem_of_mem_erase hk)
    · intro k
      simp only [ownerInfo, freeNode]
      rw [hin.mem_erase_iff, and_comm]
  reassignNode_spec := by
    intro s source target hs hsource htarget hne
    have hperm := s.reassign_perm hsource htarget hne
    refine ⟨⟨?_, ?_⟩, fun k => hperm.mem_iff, ?_, ?_⟩
    · exact (hperm.append_right s.freeItems).nodup_iff.mpr hs.nodup
    · intro k hk
      by_cases hkt : k = target
      · subst hkt
        simpa [ownerInfo, reassign] using hs.right source hsource
      · simpa [ownerInfo, reassign, hkt] using hs.right k (hperm.mem_iff.mp hk)
    · simp [ownerInfo, reassign]
    · intro k hk
      simp [ownerInfo, reassign, hk]

end LookupEntries

/-- The table with the AVL tree. -/
structure TreeTable where
  tree : AVLTree Nat
  lookup : LookupEntries

namespace TreeTable

open LookupEntries AVLTree

/-- `Initialize`: every entry is free. -/
def initializeTable (payloadArraySize : Nat) (payloads : Nat → Payload) : TreeTable where
  tree := .nil
  lookup := { payload := payloads, freeItems := List.range payloadArraySize, inUse := [] }

/-- The insertion at the end of `FindVirtualMethod`, whose result is not looked at. -/
def insertPayload (t : TreeTable) (p : Payload) : Option TreeTable :=
  (AVLTree.insert ownerInfo p t.tree t.lookup).map fun r => { tree := r.2.1, lookup := r.2.2 }

def findVirtualMethod (ts : TypeSystem) (t : TreeTable) (cls : TypeDefIndex)
    (mdVirtual : MethodDefIndex) : Option (Option MethodDefIndex × TreeTable) :=
  if cls.data = (ts.ownerType mdVirtual).data ∧ (ts.methodDef mdVirtual).isAbstract = false then
    some (some mdVirtual, t)
  else
    let key : Payload := { key := { mdVirtual := mdVirtual, cls := cls }, md := ⟨0, 0⟩ }
    match AVLTree.find ownerInfo key t.lookup t.tree with
    | some en =>
        some (some (t.lookup.payload en).md,
          { t with lookup := { t.lookup with inUse := en :: t.lookup.inUse.erase en } })
    | none =>
        match ts.findVirtualMethodDef cls mdVirtual with
        | none => some (none, t)
        | some md =>
            if t.lookup.freeItems = [] then
              match t.lookup.inUse.getLast? with
              | none => some (some md, t)
              | some en =>
                  (AVLTree.remove ownerInfo (t.lookup.payload en) t.tree t.lookup).bind fun r =>
                    (insertPayload { tree := r.2.1, lookup := r.2.2 } { key with md := md }).map
                      (some md, ·)
            else (insertPayload t { key with md := md }).map (some md, ·)

def Inv (ts : TypeSystem) (t : TreeTable) : Prop :=
  t.tree.Valid (owner ts) t.lookup

theorem insertPayload_spec {ts : TypeSystem} {t : TreeTable} {p : Payload} (h : t.Inv ts)
    (hp : p.Right ts) : ∃ t', t.insertPayload p = some t' ∧ t'.Inv ts := by
  obtain ⟨r, hinsert, hins⟩ := insert_spec (d := p) h
  refine ⟨{ tree := r.2.1, lookup := r.2.2 }, ?_, hins.valid h hp⟩
  rw [insertPayload, show AVLTree.insert ownerInfo p t.tree t.lookup = some r from hinsert]
  rfl

theorem findVirtualMethod_spec (ts : TypeSystem) (t : TreeTable) (cls : TypeDefIndex)
    (mdVirtual : MethodDefIndex) (h : t.Inv ts) :
    ∃ t', findVirtualMethod ts t cls mdVirtual = some (ts.resolve cls mdVirtual, t') ∧
      t'.Inv ts := by
  rw [findVirtualMethod, TypeSystem.resolve]
  simp only [TypeDefIndex.data_inj]
  split
  next => exact ⟨t, rfl, h⟩
  next =>
    set key : Payload := { key := { mdVirtual := mdVirtual, cls := cls }, md := ⟨0, 0⟩ } with hkey
    obtain ⟨hsome, -⟩ := find_spec (o := owner ts) key h
    cases hfind : AVLTree.find ownerInfo key t.lookup t.tree with
    | some en =>
        obtain ⟨hmem, hk⟩ := hsome en hfind
        have hlive : en ∈ t.lookup.inUse := h.live en hmem
        have hright := h.state.right en hlive
        have hkeys : (t.lookup.payload en).key = { mdVirtual := mdVirtual, cls := cls } := by
          have := toLex.injective hk
          simp only [Prod.mk.injEq, MethodDefIndex.data_inj, TypeDefIndex.data_inj] at this
          obtain ⟨hm, hc⟩ := this
          generalize (t.lookup.payload en).key = k at hm hc
          obtain ⟨m, c⟩ := k
          simp only at hm hc
          rw [hm, hc]
        rw [Payload.Right, hkeys] at hright
        refine ⟨_, by rw [hright], ?_⟩
        have hperm := (List.perm_cons_erase hlive).symm
        refine ⟨⟨?_, ?_⟩, h.balanced, ?_, h.nodup, h.sorted⟩
        · exact (hperm.append_right t.lookup.freeItems).nodup_iff.mpr h.state.nodup
        · exact fun n hn => h.state.right n (hperm.mem_iff.mp hn)
        · exact fun n hn => hperm.mem_iff.mpr (h.live n hn)
    | none =>
        dsimp only
        cases hdef : ts.findVirtualMethodDef cls mdVirtual with
        | none => exact ⟨t, rfl, h⟩
        | some md =>
            have hright : Payload.Right ts { key with md := md } := hdef
            dsimp only
            split
            next =>
              cases hlast : t.lookup.inUse.getLast? with
              | none => exact ⟨t, rfl, h⟩
              | some en =>
                  obtain ⟨r, hremove, hrem⟩ := remove_spec (d := t.lookup.payload en) h
                  have hinv : Inv ts { tree := r.2.1, lookup := r.2.2 } := hrem.valid h
                  obtain ⟨t', hinsert, hinv'⟩ := insertPayload_spec hinv hright
                  refine ⟨t', ?_, hinv'⟩
                  dsimp only
                  rw [show AVLTree.remove ownerInfo (t.lookup.payload en) t.tree t.lookup = some r
                    from hremove, Option.bind_some, hinsert]
                  rfl
            next =>
              obtain ⟨t', hinsert, hinv'⟩ := insertPayload_spec h hright
              exact ⟨t', by rw [hinsert]; rfl, hinv'⟩

theorem initializeTable_inv (ts : TypeSystem) (payloadArraySize : Nat) (payloads : Nat → Payload) :
    (initializeTable payloadArraySize payloads).Inv ts where
  state := ⟨List.nodup_range, nofun⟩
  balanced := trivial
  live := nofun
  nodup := List.nodup_nil
  sorted := List.Pairwise.nil

end TreeTable

/-- Any sequence of lookups finds with either table what the uncached path finds. -/
theorem virtualMethodTable_transparent (ts : TypeSystem) (size : TableSize)
    (computeCRC : LookupKey → Nat) (payloads : Nat → Payload)
    (qs : List (TypeDefIndex × MethodDefIndex)) :
    lookups (HashTable.findVirtualMethod ts size computeCRC)
        (HashTable.initializeTable size payloads) qs =
        some (qs.map fun q => ts.resolve q.1 q.2) ∧
      lookups (TreeTable.findVirtualMethod ts)
        (TreeTable.initializeTable size.payloadArraySize payloads) qs =
        some (qs.map fun q => ts.resolve q.1 q.2) := by
  constructor
  · apply lookups_eq (HashTable.Inv ts size)
    · exact fun t cls mdVirtual h => HashTable.findVirtualMethod_spec ts size computeCRC t cls _ h
    · exact HashTable.initializeTable_inv ts size payloads
  · apply lookups_eq (TreeTable.Inv ts)
    · exact fun t cls mdVirtual h => TreeTable.findVirtualMethod_spec ts t cls mdVirtual h
    · exact TreeTable.initializeTable_inv ts _ payloads

end TinyCLR
