import Mathlib
import TinyCLR.FAT.SectorCacheLines
import TinyCLR.Library.TransitionSystem

/-!
# Runs of the cache of sectors

Eviction, one access to a sector, and from these what every run of accesses, flushes and marks
keeps.
-/

namespace TinyCLR.FAT


namespace CacheGeometry

variable {g : CacheGeometry}

/-! ## Eviction -/

section Eviction

variable {useLRU : Bool} {lines : List (Option CacheLine)} {c c' : Candidates} {i j : Nat}
  {l : CacheLine}

/-- A line becomes the first candidate. -/
def Candidates.Beaten (c : Candidates) (useLRU : Bool) (l : CacheLine) : Prop :=
  (useLRU = true ∧ l.lruCounter < c.minCounter) ∨ (¬useLRU = true ∧ c.minCounter < l.lruCounter)

theorem Candidates.look_spec (c : Candidates) (useLRU : Bool) (i : Nat) (l : CacheLine) :
    ((c.Beaten useLRU l ∧ (c.look useLRU i l).top = some i) ∨
      (¬c.Beaten useLRU l ∧ (c.look useLRU i l).top = c.top ∧
        (c.look useLRU i l).minCounter = c.minCounter)) ∧
    ((c.look useLRU i l).topReadOnly = some i ∨
      (c.look useLRU i l).topReadOnly = c.topReadOnly) := by
  rw [look, Beaten]
  split
  · rename_i hbeaten
    split
    · exact ⟨.inl ⟨hbeaten, rfl⟩, .inl rfl⟩
    · exact ⟨.inl ⟨hbeaten, rfl⟩, .inr rfl⟩
  · rename_i hbeaten
    split
    · exact ⟨.inr ⟨hbeaten, rfl, rfl⟩, .inl rfl⟩
    · exact ⟨.inr ⟨hbeaten, rfl, rfl⟩, .inr rfl⟩

theorem scanLines_inl (h : scanLines useLRU lines j c = .inl i) :
    ∃ k, i = j + k ∧ lines[k]? = some none := by
  induction lines generalizing j c with
  | nil => cases h
  | cons line lines ih =>
      cases line with
      | none =>
          cases h
          exact ⟨0, rfl, rfl⟩
      | some l =>
          obtain ⟨k, hk, hnone⟩ := ih h
          exact ⟨k + 1, by omega, hnone⟩

theorem scanLines_inr_full (h : scanLines useLRU lines j c = .inr c') : none ∉ lines := by
  induction lines generalizing j c with
  | nil => exact List.not_mem_nil
  | cons line lines ih =>
      cases line with
      | none => cases h
      | some l =>
          intro hmem
          rcases List.mem_cons.mp hmem with heq | hmem
          · cases heq
          · exact ih h hmem

/-- Each candidate is a line that was looked at. -/
theorem scanLines_inr_lt (h : scanLines useLRU lines j c = .inr c')
    (hi : c'.top = some i ∨ c'.topReadOnly = some i) :
    (c.top = some i ∨ c.topReadOnly = some i) ∨ (j ≤ i ∧ i < j + lines.length) := by
  induction lines generalizing j c with
  | nil =>
      cases h
      exact .inl hi
  | cons line lines ih =>
      cases line with
      | none => cases h
      | some l =>
          rw [List.length_cons]
          rcases ih h with hlook | hrange
          · obtain ⟨htop, hreadOnly⟩ := c.look_spec useLRU j l
            rcases hlook with hlook | hlook
            · rcases htop with ⟨-, hj⟩ | ⟨-, hsame, -⟩
              · rw [hj] at hlook
                cases hlook
                exact .inr ⟨by omega, by omega⟩
              · exact .inl (.inl (hsame.symm.trans hlook))
            · rcases hreadOnly with hj | hsame
              · rw [hj] at hlook
                cases hlook
                exact .inr ⟨by omega, by omega⟩
              · exact .inl (.inr (hsame.symm.trans hlook))
          · exact .inr ⟨by omega, by omega⟩

/-- There is a candidate when one of the lines can become one. -/
theorem scanLines_inr_top (h : scanLines useLRU lines j c = .inr c')
    (hbeaten : c.top.isSome = true ∨ ∃ l, some l ∈ lines ∧ c.Beaten useLRU l) :
    c'.top.isSome = true := by
  induction lines generalizing j c with
  | nil =>
      cases h
      rcases hbeaten with htop | ⟨l, hl, -⟩
      · exact htop
      · cases hl
  | cons line lines ih =>
      cases line with
      | none => cases h
      | some l =>
          apply ih h
          obtain ⟨htop, -⟩ := c.look_spec useLRU j l
          rcases htop with ⟨-, hj⟩ | ⟨hnot, hsame, hmin⟩
          · left
            rw [hj]
            rfl
          · rw [hsame]
            rcases hbeaten with hsome | ⟨m, hm, hbeaten⟩
            · exact .inl hsome
            · right
              refine ⟨m, ?_, ?_⟩
              · rcases List.mem_cons.mp hm with heq | hm
                · cases heq
                  exact absurd hbeaten hnot
                · exact hm
              · rwa [Candidates.Beaten, hmin]

/-- A place can be made free: the eviction goes by least use, or there is a place without a line,
or a line whose count is not zero. -/
def CanEvict (s : SectorCache) (useLRU : Bool) : Prop :=
  useLRU = true ∨ none ∈ s.cacheLines ∨ ∃ l, some l ∈ s.cacheLines ∧ l.lruCounter ≠ 0

variable {device volume : Nat → UInt8} {touched : List Nat} {s : SectorCache}

theorem getUnusedCacheLine_spec (h : g.Represents device volume touched s)
    (hpos : 0 < s.cacheLines.length) (hcan : CanEvict s useLRU) :
    ∃ i < s.cacheLines.length, g.getUnusedCacheLine s useLRU = some (i, g.flushLine s i true) := by
  rw [getUnusedCacheLine]
  cases hscan : scanLines useLRU s.cacheLines 0 (firstCandidates useLRU) with
  | inl i =>
      obtain ⟨k, hk, hnone⟩ := scanLines_inl hscan
      rw [Nat.zero_add] at hk
      subst hk
      refine ⟨i, (List.getElem?_eq_some_iff.mp hnone).1, ?_⟩
      rw [flushLine, hnone]
  | inr c =>
      have hfull := scanLines_inr_full hscan
      have hlt {i : Nat} (hi : c.top = some i ∨ c.topReadOnly = some i) :
          i < s.cacheLines.length := by
        rcases scanLines_inr_lt hscan hi with (hfirst | hfirst) | hrange
        · cases hfirst
        · cases hfirst
        · omega
      have htop : c.top.isSome = true := by
        apply scanLines_inr_top hscan
        right
        rcases hcan with hlru | hmem | ⟨l, hl, hcounter⟩
        · obtain ⟨line, hline⟩ : ∃ line, s.cacheLines[0]? = some line :=
            ⟨_, List.getElem?_eq_getElem hpos⟩
          cases line with
          | none => exact absurd (List.mem_of_getElem? hline) hfull
          | some l =>
              obtain ⟨t, -, -, hshows⟩ := h.line 0 l hline
              have hcounter := hshows.counter_lt
              refine ⟨l, List.mem_of_getElem? hline, .inl ⟨hlru, ?_⟩⟩
              rw [firstCandidates, hlru]
              dsimp only
              rw [if_pos rfl]
              omega
        · exact absurd hmem hfull
        · cases useLRU with
          | true =>
              obtain ⟨k, hk⟩ := List.mem_iff_getElem?.mp hl
              obtain ⟨t, -, -, hshows⟩ := h.line k l hk
              have hlt := hshows.counter_lt
              refine ⟨l, hl, .inl ⟨rfl, ?_⟩⟩
              change l.lruCounter < 0x7FFFFFFF
              omega
          | false => exact ⟨l, hl, .inr ⟨Bool.false_ne_true, Nat.pos_of_ne_zero hcounter⟩⟩
      dsimp only
      split
      · rename_i hreadOnly
        obtain ⟨i, hi⟩ := Option.isSome_iff_exists.mp hreadOnly.1
        exact ⟨i, hlt (.inr hi), by rw [hi]; rfl⟩
      · obtain ⟨i, hi⟩ := Option.isSome_iff_exists.mp htop
        exact ⟨i, hlt (.inl hi), by rw [hi]; rfl⟩

end Eviction

/-! ## One access -/

section Access

variable {device volume : Nat → UInt8} {touched : List Nat} {s : SectorCache} {i sector : Nat}
  {l : CacheLine}

theorem changeLine_lines (hi : s.cacheLines[i]? = some (some l)) (f : CacheLine → CacheLine) :
    (changeLine s i f).cacheLines = s.cacheLines.set i (some (f l)) := by
  apply List.ext_getElem?
  intro k
  rw [changeLine, List.getElem?_modify, List.getElem?_set]
  split
  · rename_i heq
    subst heq
    rw [hi, if_pos (List.getElem?_eq_some_iff.mp hi).1]
    rfl
  · exact Option.map_id'

theorem covers_some : g.covers sector (some l) = true ↔
    l.begin ≤ sector ∧ sector < l.begin + g.sectorsPerLine := by
  simp [covers]

theorem getCacheLine_some (h : g.Represents device volume touched s) (hg : g.Regular)
    (hfound : g.getCacheLine s sector = some i) :
    ∃ l, s.cacheLines[i]? = some (some l) ∧ g.LineShows volume (sector / g.sectorsPerLine) l := by
  obtain ⟨hlt, hcovers, -⟩ := List.findIdx?_eq_some_iff_getElem.mp hfound
  cases hline : s.cacheLines[i] with
  | none =>
      rw [hline] at hcovers
      cases hcovers
  | some l =>
      rw [hline] at hcovers
      have hi : s.cacheLines[i]? = some (some l) := by
        rw [List.getElem?_eq_getElem hlt, hline]
      obtain ⟨t, -, -, hshows⟩ := h.line i l hi
      have hrange := covers_some.mp hcovers
      rw [hshows.begin_eq] at hrange
      rw [(hg.mem_line_iff _ _).mp hrange]
      exact ⟨l, hi, hshows⟩

theorem getCacheLine_none (hg : g.Regular) (hmiss : g.getCacheLine s sector = none) {j : Nat}
    {l : CacheLine} (hj : s.cacheLines[j]? = some (some l)) :
    l.begin ≠ sector / g.sectorsPerLine * g.sectorsPerLine := by
  intro hbegin
  have hfalse := List.findIdx?_eq_none_iff.mp hmiss _ (List.mem_of_getElem? hj)
  have htrue : g.covers sector (some l) = true := by
    rw [covers_some, hbegin, hg.mem_line_iff]
  rw [htrue] at hfalse
  cases hfalse

/-- A hit, or the eviction of a line and a read from the device. -/
theorem fetchLine_spec (h : g.Represents device volume touched s) (hg : g.Regular)
    (hsector : sector < g.sectorCount) {useLRU : Bool} (hpos : 0 < s.cacheLines.length)
    (hcan : g.getCacheLine s sector = none → CanEvict s useLRU) :
    ∃ i l s', g.fetchLine s sector useLRU = some (i, s') ∧
      g.Represents device volume (sector :: touched) s' ∧ s'.cacheLines[i]? = some (some l) ∧
      g.LineShows volume (sector / g.sectorsPerLine) l ∧
      s'.cacheLines.length = s.cacheLines.length ∧
      ∀ j, g.getCacheLine s sector = some j → j = i ∧ s' = s := by
  rw [fetchLine]
  cases hfound : g.getCacheLine s sector with
  | some i =>
      obtain ⟨l, hi, hshows⟩ := getCacheLine_some h hg hfound
      refine ⟨i, l, s, rfl, h.touch sector, hi, hshows, rfl, fun j hj => ?_⟩
      cases hj
      exact ⟨rfl, rfl⟩
  | none =>
      obtain ⟨i, hlt, heq⟩ := getUnusedCacheLine_spec h hpos (hcan hfound)
      have hflushed := h.flushLine i true
      have hlength := length_flushLine g s i true
      have hmiss (j : Nat) (l : CacheLine)
          (hj : (g.flushLine s i true).cacheLines[j]? = some (some l)) :
          l.begin ≠ sector / g.sectorsPerLine * g.sectorsPerLine := by
        obtain ⟨l', hl', hbegin⟩ := begin_flushLine hj
        rw [hbegin]
        exact getCacheLine_none hg hfound hl'
      dsimp only
      rw [heq]
      have hclean (l : CacheLine) (hl : (g.flushLine s i true).cacheLines[i]? = some (some l)) :
          l.dirty = false := clean_flushLine hl
      generalize g.flushLine s i true = s₁ at hflushed hlength hmiss hclean heq ⊢
      have hloaded : g.Represents device volume (sector :: touched) { s₁ with
          cacheLines := s₁.cacheLines.set i (some (g.readLine s₁ sector))
          lruCounter := Word32.u32 (s₁.lruCounter + 1) } :=
        hflushed.load hg hsector (by omega) hclean hmiss rfl rfl
      have hself : (s₁.cacheLines.set i (some (g.readLine s₁ sector)))[i]? =
          some (some (g.readLine s₁ sector)) := List.getElem?_set_self (by omega)
      obtain ⟨t, -, -, hshows⟩ := hloaded.line i _ hself
      have hbegin : t / g.sectorsPerLine * g.sectorsPerLine =
          sector / g.sectorsPerLine * g.sectorsPerLine :=
        hshows.begin_eq.symm.trans (lineBegin_eq_mul sector)
      have hsame := Nat.eq_of_mul_eq_mul_right hg.sectors_pos hbegin
      refine ⟨i, _, _, rfl, hloaded, hself, hsame ▸ hshows, ?_, nofun⟩
      rw [List.length_set, hlength]

/-- The cache after a line has been marked. -/
structure Marked (s : SectorCache) (i : Nat) (l : CacheLine) (s' : SectorCache) (l' : CacheLine) :
    Prop where
  lines_eq : s'.cacheLines = s.cacheLines.set i (some l')
  device_eq : s'.device = s.device
  begin_eq : l'.begin = l.begin
  address_eq : l'.bsByteAddress = l.bsByteAddress
  counter_lt : l.lruCounter < 2 ^ 30 → l'.lruCounter < 2 ^ 30
  buffer_eq : l'.buffer = l.buffer
  dirty_mono : l.dirty = true → l'.dirty = true

theorem Marked.trans {s₁ s₂ s₃ : SectorCache} {l₁ l₂ l₃ : CacheLine}
    (h : Marked s₁ i l₁ s₂ l₂) (h' : Marked s₂ i l₂ s₃ l₃) : Marked s₁ i l₁ s₃ l₃ where
  lines_eq := by rw [h'.lines_eq, h.lines_eq, List.set_set]
  device_eq := h'.device_eq.trans h.device_eq
  begin_eq := h'.begin_eq.trans h.begin_eq
  address_eq := h'.address_eq.trans h.address_eq
  counter_lt hlt := h'.counter_lt (h.counter_lt hlt)
  buffer_eq := h'.buffer_eq.trans h.buffer_eq
  dirty_mono hdirty := h'.dirty_mono (h.dirty_mono hdirty)

theorem Marked.represents {s' : SectorCache} {l' : CacheLine} (hm : Marked s i l s' l')
    (hi : s.cacheLines[i]? = some (some l)) (h : g.Represents device volume touched s) :
    g.Represents device volume touched s' := by
  obtain ⟨t, -, -, hshows⟩ := h.line i l hi
  exact h.mark hi hm.lines_eq hm.device_eq hm.begin_eq hm.address_eq
    (hm.counter_lt hshows.counter_lt) hm.buffer_eq hm.dirty_mono

theorem Marked.lookup {s' : SectorCache} {l' : CacheLine} (hm : Marked s i l s' l')
    (hi : s.cacheLines[i]? = some (some l)) : s'.cacheLines[i]? = some (some l') := by
  rw [hm.lines_eq, List.getElem?_set_self (List.getElem?_eq_some_iff.mp hi).1]

theorem Marked.self (hi : s.cacheLines[i]? = some (some l)) : Marked s i l s l :=
  ⟨(set_self hi).symm, rfl, rfl, rfl, id, rfl, id⟩

theorem marked_setDirty (hi : s.cacheLines[i]? = some (some l)) :
    Marked s i l (changeLine s i (·.setDirty true)) (l.setDirty true) :=
  ⟨changeLine_lines hi _, rfl, rfl, rfl, id, rfl, fun _ => rfl⟩

theorem marked_touchLine (hi : s.cacheLines[i]? = some (some l)) :
    ∃ l', Marked s i l (touchLine s i) l' := by
  rw [touchLine, hi]
  dsimp only
  split
  · exact ⟨_, changeLine_lines hi _, rfl, rfl, rfl, fun _ => Nat.mod_lt _ (by norm_num), rfl, id⟩
  · exact ⟨l, Marked.self hi⟩

/-- `GetSector` finds a place that shows the sector, in a dirty line when it is for writing or the
line has been dirty. -/
theorem getSector_spec (h : g.Represents device volume touched s) (hg : g.Regular)
    (hsector : sector < g.sectorCount) (useLRU forWrite : Bool) (hpos : 0 < s.cacheLines.length)
    (hcan : g.getCacheLine s sector = none → CanEvict s useLRU) :
    ∃ i l s', g.getSector s sector useLRU forWrite = some (some i, s') ∧
      g.Represents device volume (sector :: touched) s' ∧ s'.cacheLines[i]? = some (some l) ∧
      g.LineShows volume (sector / g.sectorsPerLine) l ∧
      s'.cacheLines.length = s.cacheLines.length ∧
      (forWrite = true ∨ (∃ j m, g.getCacheLine s sector = some j ∧
        s.cacheLines[j]? = some (some m) ∧ m.dirty = true) → l.dirty = true) := by
  obtain ⟨i, l₁, s₁, hfetch, hrep, hi, hshows, hlength, hhit⟩ := fetchLine_spec h hg hsector hpos hcan
  have hwrite : ∃ l₂, Marked s₁ i l₁
      (if forWrite then changeLine s₁ i (·.setDirty true) else s₁) l₂ ∧
      (forWrite = true → l₂.dirty = true) := by
    cases forWrite with
    | true => exact ⟨_, marked_setDirty hi, fun _ => rfl⟩
    | false => exact ⟨l₁, Marked.self hi, nofun⟩
  obtain ⟨l₂, hmarked, hdirty⟩ := hwrite
  obtain ⟨l₃, htouched⟩ := marked_touchLine (hmarked.lookup hi)
  have hall := hmarked.trans htouched
  refine ⟨i, l₃, _, ?_, hall.represents hi hrep, hall.lookup hi, ?_, ?_, ?_⟩
  · rw [getSector, if_neg (by omega), hfetch]
    rfl
  · exact ⟨hall.begin_eq.trans hshows.begin_eq, hall.address_eq.trans hshows.address_eq,
      hall.counter_lt hshows.counter_lt, fun k hk => by rw [hall.buffer_eq, hshows.buffer_eq k hk]⟩
  · rw [hall.lines_eq, List.length_set, hlength]
  · rintro (hforWrite | ⟨j, m, hj, hm, hmdirty⟩)
    · exact htouched.dirty_mono (hdirty hforWrite)
    · obtain ⟨rfl, rfl⟩ := hhit j hj
      rw [hm] at hi
      cases hi
      exact hall.dirty_mono hmdirty

/-- A sector of a volume. -/
def sectorAddress (g : CacheGeometry) (sector : Nat) : Nat :=
  g.baseByteAddress + sector * g.bytesPerSector

def storeSector (g : CacheGeometry) (volume : Nat → UInt8) (sector : Nat) (bytes : Nat → UInt8) :
    Nat → UInt8 := fun a =>
  if g.sectorAddress sector ≤ a ∧ a < g.sectorAddress sector + g.bytesPerSector then
    bytes (a - g.sectorAddress sector)
  else volume a

/-- The pointer to a sector shows its bytes. -/
theorem shown_eq (hg : g.Regular) (hi : s.cacheLines[i]? = some (some l))
    (hshows : g.LineShows volume (sector / g.sectorsPerLine) l) {k : Nat}
    (hk : k < g.bytesPerSector) :
    g.shown s i sector k = some (volume (g.sectorAddress sector + k)) := by
  have hle := hg.sector_le sector
  have haddress := hg.sector_address sector
  rw [shown, hi]
  change some (l.buffer _) = _
  rw [hshows.begin_eq, hshows.buffer_eq _ (by omega), sectorAddress, ← haddress]
  congr 2
  omega

/-- A store through the pointer to a sector of a line that is or becomes dirty. -/
theorem updateSector_represents (h : g.Represents device volume touched s) (hg : g.Regular)
    (hi : s.cacheLines[i]? = some (some l))
    (hshows : g.LineShows volume (sector / g.sectorsPerLine) l) (bytes : Nat → UInt8)
    {s' : SectorCache} {l' : CacheLine}
    (hlines : s'.cacheLines = s.cacheLines.set i (some l')) (hdevice : s'.device = s.device)
    (hbegin : l'.begin = l.begin) (haddress : l'.bsByteAddress = l.bsByteAddress)
    (hcounter : l'.lruCounter < 2 ^ 30) (hdirty : l'.dirty = true)
    (hbuffer : l'.buffer = (g.storeBytes l sector bytes).buffer) :
    g.Represents device (g.storeSector volume sector bytes) touched s' := by
  have hle := hg.sector_le sector
  have hsum := hg.sector_address sector
  apply h.replace hi hlines hbegin haddress hcounter
  · intro k hk
    rw [hbuffer, storeBytes, storeSector, hshows.begin_eq, hshows.address_eq, sectorAddress]
    dsimp only
    generalize (sector - sector / g.sectorsPerLine * g.sectorsPerLine) * g.bytesPerSector = offset
      at hle hsum ⊢
    by_cases hin : offset ≤ k ∧ k < offset + g.bytesPerSector
    · rw [if_pos hin, if_pos (by omega)]
      congr 1
      omega
    · rw [if_neg hin, if_neg (by omega)]
      exact hshows.buffer_eq k hk
  · intro a ha
    rw [storeSector, if_neg]
    rw [LineHas, hshows.address_eq] at ha
    rw [sectorAddress]
    omega
  · intro a _ hclean
    rw [hdirty] at hclean
    cases hclean
  · exact fun a _ => congrFun hdevice a


/-- A sector is found in the line that shows it. -/
theorem getCacheLine_eq (h : g.Represents device volume touched s) (hg : g.Regular)
    (hi : s.cacheLines[i]? = some (some l))
    (hshows : g.LineShows volume (sector / g.sectorsPerLine) l) :
    g.getCacheLine s sector = some i := by
  cases hfound : g.getCacheLine s sector with
  | none => exact absurd hshows.begin_eq (getCacheLine_none hg hfound hi)
  | some j =>
      obtain ⟨m, hj, hm⟩ := getCacheLine_some h hg hfound
      rw [h.distinct j i m l hj hi (hm.begin_eq.trans hshows.begin_eq.symm)]

/-- A change that keeps where a line begins does not move any sector. -/
theorem getCacheLine_changeLine (f : CacheLine → CacheLine) (hf : ∀ l, (f l).begin = l.begin) :
    g.getCacheLine (changeLine s i f) sector = g.getCacheLine s sector := by
  have hmap (xs : List (Option CacheLine)) :
      xs.findIdx? (g.covers sector) = (xs.map (g.covers sector)).findIdx? id := by
    rw [List.findIdx?_map]
    rfl
  rw [getCacheLine, getCacheLine, hmap, hmap]
  congr 1
  apply List.ext_getElem?
  intro k
  rw [List.getElem?_map, List.getElem?_map, changeLine, List.getElem?_modify]
  cases s.cacheLines[k]? with
  | none => rfl
  | some line =>
      split
      · cases line with
        | none => rfl
        | some l => simp [covers, hf]
      · rfl

theorem markSectorDirty_represents (h : g.Represents device volume touched s) (hg : g.Regular)
    (sector : Nat) : g.Represents device volume touched (g.markSectorDirty s sector) ∧
      (g.markSectorDirty s sector).cacheLines.length = s.cacheLines.length := by
  rw [markSectorDirty]
  cases hfound : g.getCacheLine s sector with
  | none => exact ⟨h, rfl⟩
  | some i =>
      obtain ⟨l, hi, -⟩ := getCacheLine_some h hg hfound
      exact ⟨(marked_setDirty hi).represents hi h, List.length_modify ..⟩

end Access

/-! ## Runs -/

/-- The cache beside the volume that it is to stand for and the sectors that were fetched. -/
structure CachedVolume where
  cache : SectorCache
  volume : Nat → UInt8
  touched : List Nat

/-- The operations. An access gets a sector and may store new bytes in it at once; `mark` is a call
of `MarkSectorDirty` right after the store. -/
inductive CacheAction where
  | access (sector : Nat) (useLRU forWrite : Bool) (update : Option (Nat → UInt8)) (mark : Bool)
  | eraseSector (sector : Nat)
  | markSectorDirty (sector : Nat)
  | flushSector (sector : Nat)
  | flushAll

/-- The store of an access. -/
def storeUpdate (g : CacheGeometry) (s : SectorCache) (i sector : Nat)
    (update : Option (Nat → UInt8)) (mark : Bool) : SectorCache :=
  let s := update.elim s (g.updateSector s i sector)
  if mark then g.markSectorDirty s sector else s

def storeVolume (g : CacheGeometry) (volume : Nat → UInt8) (sector : Nat)
    (update : Option (Nat → UInt8)) : Nat → UInt8 :=
  update.elim volume (g.storeSector volume sector)

def cacheStep (g : CacheGeometry) (σ : CachedVolume) : CacheAction → Option CachedVolume
  | .access sector useLRU forWrite update mark =>
      (g.getSector σ.cache sector useLRU forWrite).map fun r =>
        match r.1 with
        | none => { σ with cache := r.2 }
        | some i =>
            { cache := g.storeUpdate r.2 i sector update mark
              volume := g.storeVolume σ.volume sector update
              touched := sector :: σ.touched }
  | .eraseSector sector =>
      (g.eraseSector σ.cache sector).map fun s =>
        { cache := s
          volume := g.storeSector σ.volume sector fun _ => 0
          touched := sector :: σ.touched }
  | .markSectorDirty sector => some { σ with cache := g.markSectorDirty σ.cache sector }
  | .flushSector sector => some { σ with cache := g.flushSector σ.cache sector }
  | .flushAll => some { σ with cache := g.flushAll σ.cache }

def CacheAction.InVolume (g : CacheGeometry) : CacheAction → Prop
  | .access sector _ _ _ _ => sector < g.sectorCount
  | .eraseSector sector => sector < g.sectorCount
  | .markSectorDirty sector => sector < g.sectorCount
  | .flushSector sector => sector < g.sectorCount
  | .flushAll => True

/-- A sector is in the cache, or there is a place for it. -/
def CanFetch (g : CacheGeometry) (s : SectorCache) (sector : Nat) (useLRU : Bool) : Prop :=
  g.getCacheLine s sector = none → CanEvict s useLRU

/-- The line of a sector is in the cache and dirty. -/
def DirtyHit (g : CacheGeometry) (s : SectorCache) (sector : Nat) : Prop :=
  ∃ (i : Nat) (l : CacheLine), g.getCacheLine s sector = some i ∧
    s.cacheLines[i]? = some (some l) ∧ l.dirty = true

/-- New bytes are stored in a sector that was got for writing, that is marked right after the
store, or whose line is dirty already. -/
def CacheAction.Kept (g : CacheGeometry) (s : SectorCache) : CacheAction → Prop
  | .access sector useLRU forWrite update mark =>
      g.CanFetch s sector useLRU ∧
        (update = none ∨ forWrite = true ∨ mark = true ∨ g.DirtyHit s sector)
  | _ => True

/-- What holds of a cache: no two lines hold one address, every sector is shown as it was last
stored, a flush of all lines and the end of the cache leave the device with these bytes, and what
is outside of the lines that were fetched has not changed. -/
structure Transparent (g : CacheGeometry) (device : Nat → UInt8) (σ : CachedVolume) : Prop where
  apart : ∀ (i j : Nat) (l l' : CacheLine), σ.cache.cacheLines[i]? = some (some l) →
    σ.cache.cacheLines[j]? = some (some l') → i ≠ j → ∀ a, g.LineHas l a → ¬g.LineHas l' a
  shows : ∀ sector < g.sectorCount, ∀ useLRU forWrite, g.CanFetch σ.cache sector useLRU →
    ∃ i s', g.getSector σ.cache sector useLRU forWrite = some (some i, s') ∧
      ∀ k < g.bytesPerSector,
        g.shown s' i sector k = some (σ.volume (g.sectorAddress sector + k))
  flushAll_eq : (g.flushAll σ.cache).device = σ.volume
  uninitialize_eq : (g.uninitializeCache σ.cache).device = σ.volume
  untouched : ∀ a, (∀ t ∈ σ.touched, ¬g.InLine (t / g.sectorsPerLine) a) →
    σ.cache.device a = device a ∧ σ.volume a = device a

section Runs

variable {device : Nat → UInt8} {σ σ' : CachedVolume}

/-- What every step keeps. -/
structure Stands (g : CacheGeometry) (device : Nat → UInt8) (σ : CachedVolume) : Prop where
  represents : g.Represents device σ.volume σ.touched σ.cache
  nonempty : 0 < σ.cache.cacheLines.length

theorem stands_initialized (g : CacheGeometry) (device : Nat → UInt8) {size : Nat}
    (hsize : 0 < size) : g.Stands device ⟨initialized size device, device, []⟩ := by
  have hnone (i : Nat) (l : CacheLine) : (List.replicate size none)[i]? ≠ some (some l) := by
    rw [List.getElem?_replicate]
    split <;> simp
  refine ⟨⟨fun i l hi => ?_, fun i j l l' hi => ?_, fun _ _ => rfl, fun _ _ => ⟨rfl, rfl⟩⟩, ?_⟩
  · exact absurd hi (hnone i l)
  · exact absurd hi (hnone i l)
  · rwa [initialized, List.length_replicate]

theorem Stands.transparent (h : g.Stands device σ) (hg : g.Regular) : g.Transparent device σ where
  apart _ _ _ _ hi hj hne _ ha := h.represents.apart hi hj hne ha
  shows sector hsector useLRU forWrite hcan := by
    obtain ⟨i, l, s', hget, -, hi, hshows, -, -⟩ :=
      getSector_spec h.represents hg hsector useLRU forWrite h.nonempty hcan
    exact ⟨i, s', hget, fun k hk => shown_eq hg hi hshows hk⟩
  flushAll_eq := (flushAll_spec h.represents).2.1
  uninitialize_eq := uninitialize_spec h.represents
  untouched := h.represents.untouched

/-- The store of an access is kept when the line is dirty or is marked. -/
theorem storeUpdate_represents {volume : Nat → UInt8} {touched : List Nat} {s : SectorCache}
    {i sector : Nat} {l : CacheLine} (h : g.Represents device volume touched s) (hg : g.Regular)
    (hi : s.cacheLines[i]? = some (some l))
    (hshows : g.LineShows volume (sector / g.sectorsPerLine) l)
    {update : Option (Nat → UInt8)} {mark : Bool}
    (hkept : update = none ∨ mark = true ∨ l.dirty = true) :
    g.Represents device (g.storeVolume volume sector update) touched
        (g.storeUpdate s i sector update mark) ∧
      (g.storeUpdate s i sector update mark).cacheLines.length = s.cacheLines.length := by
  cases update with
  | none =>
      cases mark with
      | false => exact ⟨h, rfl⟩
      | true => exact markSectorDirty_represents h hg sector
  | some bytes =>
      cases mark with
      | false =>
          have hdirty : l.dirty = true := by
            rcases hkept with hnone | hmark | hdirty
            · cases hnone
            · cases hmark
            · exact hdirty
          exact ⟨updateSector_represents h hg hi hshows bytes (changeLine_lines hi _) rfl rfl rfl
            hshows.counter_lt hdirty rfl, List.length_modify ..⟩
      | true =>
          have hfound : g.getCacheLine (g.updateSector s i sector bytes) sector = some i := by
            rw [updateSector, getCacheLine_changeLine]
            · exact getCacheLine_eq h hg hi hshows
            · exact fun _ => rfl
          have hlines := changeLine_lines hi (g.storeBytes · sector bytes)
          have hstored : (g.updateSector s i sector bytes).cacheLines[i]? =
              some (some (g.storeBytes l sector bytes)) := by
            rw [updateSector, hlines, List.getElem?_set_self (List.getElem?_eq_some_iff.mp hi).1]
          have hmarked : (changeLine (g.updateSector s i sector bytes) i
              (·.setDirty true)).cacheLines =
                s.cacheLines.set i (some ((g.storeBytes l sector bytes).setDirty true)) := by
            rw [changeLine_lines hstored, updateSector, hlines, List.set_set]
          have heq : g.storeUpdate s i sector (some bytes) true =
              changeLine (g.updateSector s i sector bytes) i (·.setDirty true) := by
            change g.markSectorDirty (g.updateSector s i sector bytes) sector = _
            rw [markSectorDirty, hfound]
          rw [heq]
          refine ⟨updateSector_represents h hg hi hshows bytes hmarked rfl rfl rfl
            hshows.counter_lt rfl rfl, ?_⟩
          rw [hmarked, List.length_set]

/-- Each admitted action goes on, and the cache stands for the new volume. -/
theorem cacheStep_spec (hg : g.Regular) (h : g.Stands device σ) {a : CacheAction}
    (hvolume : a.InVolume g) (hkept : a.Kept g σ.cache) :
    ∃ σ', cacheStep g σ a = some σ' ∧ g.Stands device σ' := by
  cases a with
  | access sector useLRU forWrite update mark =>
      obtain ⟨i, l, s', hget, hrep, hi, hshows, hlength, hdirty⟩ :=
        getSector_spec h.represents hg hvolume useLRU forWrite h.nonempty hkept.1
      have hdirtied : update = none ∨ mark = true ∨ l.dirty = true := by
        rcases hkept.2 with hnone | hwrite | hmark | hhit
        · exact .inl hnone
        · exact .inr (.inr (hdirty (.inl hwrite)))
        · exact .inr (.inl hmark)
        · exact .inr (.inr (hdirty (.inr hhit)))
      obtain ⟨hstored, hstoredLength⟩ := storeUpdate_represents hrep hg hi hshows hdirtied
      refine ⟨_, congrArg (Option.map _) hget, hstored, ?_⟩
      exact (hstoredLength.trans hlength).symm ▸ h.nonempty
  | eraseSector sector =>
      obtain ⟨i, l, s', hget, hrep, hi, hshows, hlength, hdirty⟩ :=
        getSector_spec h.represents hg hvolume true true h.nonempty fun _ => .inl rfl
      have hstored := updateSector_represents hrep hg hi hshows (fun _ => 0)
        (changeLine_lines hi (g.storeBytes · sector fun _ => 0)) rfl rfl rfl hshows.counter_lt
        (hdirty (.inl rfl)) rfl
      refine ⟨_, congrArg (Option.map _) (congrArg (Option.map _) hget), hstored, ?_⟩
      exact ((List.length_modify ..).trans hlength).symm ▸ h.nonempty
  | markSectorDirty sector =>
      obtain ⟨hrep, hlength⟩ := markSectorDirty_represents h.represents hg sector
      exact ⟨_, rfl, hrep, hlength.symm ▸ h.nonempty⟩
  | flushSector sector =>
      refine ⟨_, rfl, ?_⟩
      rw [flushSector]
      cases g.getCacheLine σ.cache sector with
      | none => exact h
      | some i =>
          exact ⟨h.represents.flushLine i true,
            (length_flushLine g σ.cache i true).symm ▸ h.nonempty⟩
  | flushAll =>
      obtain ⟨hrep, -, hlength⟩ := flushAll_spec h.represents
      exact ⟨_, rfl, hrep, hlength.symm ▸ h.nonempty⟩

/-- Two sectors in lines of one. -/
def twoSectors : CacheGeometry where
  bytesPerSector := 1
  sectorCount := 2
  baseByteAddress := 0
  lineSize := 1

theorem twoSectors_regular : twoSectors.Regular where
  sector_pos := by decide
  line_pos := by decide
  dvd := by decide
  fits sector hsector := by
    change sector < 2 at hsector
    change 0 + (sector / 1 + 1) * 1 ≤ 2 ^ 32
    omega

end Runs

end CacheGeometry

end TinyCLR.FAT
