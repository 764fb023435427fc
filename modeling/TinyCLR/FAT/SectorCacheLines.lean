import Mathlib
import TinyCLR.FAT.SectorCache

/-!
# What the cache of sectors stands for

A cache stands for one volume of bytes: the lines show it, and the device shows it outside of the
dirty lines. A flush keeps that.
-/

namespace TinyCLR.FAT


namespace CacheGeometry

/-- Lines are made of whole sectors and lie in the address space. -/
structure Regular (g : CacheGeometry) : Prop where
  sector_pos : 0 < g.bytesPerSector
  line_pos : 0 < g.lineSize
  dvd : g.bytesPerSector ∣ g.lineSize
  fits : ∀ sector < g.sectorCount,
    g.baseByteAddress + (sector / g.sectorsPerLine + 1) * g.lineSize ≤ 2 ^ 32

variable {g : CacheGeometry}

theorem lineBegin_eq_mul (sector : Nat) :
    g.lineBegin sector = sector / g.sectorsPerLine * g.sectorsPerLine := by
  have hdiv := Nat.div_add_mod' sector g.sectorsPerLine
  rw [lineBegin]
  omega

namespace Regular

theorem line_eq (h : g.Regular) : g.sectorsPerLine * g.bytesPerSector = g.lineSize :=
  Nat.div_mul_cancel h.dvd

theorem sectors_pos (h : g.Regular) : 0 < g.sectorsPerLine :=
  Nat.div_pos (Nat.le_of_dvd h.line_pos h.dvd) h.sector_pos

theorem lineAddress_eq (h : g.Regular) {sector : Nat} (hsector : sector < g.sectorCount) :
    g.lineAddress (g.lineBegin sector) =
      g.baseByteAddress + sector / g.sectorsPerLine * g.lineSize := by
  have hfits := h.fits sector hsector
  have hpos := h.line_pos
  rw [Nat.succ_mul] at hfits
  rw [lineAddress, lineBegin_eq_mul, Nat.mul_assoc, h.line_eq, Word32.u32_of_lt (by omega)]

/-- A sector is in the line with the number of the sector's line. -/
theorem mem_line_iff (h : g.Regular) (q sector : Nat) :
    (q * g.sectorsPerLine ≤ sector ∧ sector < q * g.sectorsPerLine + g.sectorsPerLine) ↔
      sector / g.sectorsPerLine = q := by
  rw [Nat.div_eq_iff h.sectors_pos]
  have hpos := h.sectors_pos
  omega

/-- The bytes of a sector lie in its line. -/
theorem sector_le (h : g.Regular) (sector : Nat) :
    (sector - sector / g.sectorsPerLine * g.sectorsPerLine) * g.bytesPerSector +
      g.bytesPerSector ≤ g.lineSize := by
  have hlt := Nat.mod_lt sector h.sectors_pos
  have hdiv := Nat.div_add_mod' sector g.sectorsPerLine
  rw [← h.line_eq, ← Nat.succ_mul]
  apply Nat.mul_le_mul_right
  omega

theorem sector_address (h : g.Regular) (sector : Nat) :
    sector / g.sectorsPerLine * g.lineSize +
      (sector - sector / g.sectorsPerLine * g.sectorsPerLine) * g.bytesPerSector =
        sector * g.bytesPerSector := by
  have hle := Nat.div_mul_le_self sector g.sectorsPerLine
  rw [← h.line_eq, ← Nat.mul_assoc, ← Nat.add_mul, Nat.add_sub_cancel' hle]

end Regular

/-- An address of the line with a number. -/
def InLine (g : CacheGeometry) (q a : Nat) : Prop :=
  g.baseByteAddress + q * g.lineSize ≤ a ∧ a < g.baseByteAddress + q * g.lineSize + g.lineSize

theorem InLine.unique {q q' a : Nat} (h : g.InLine q a) (h' : g.InLine q' a) : q = q' := by
  have hpos : 0 < g.lineSize := by
    have hle := h.1
    have hlt := h.2
    omega
  rcases Nat.lt_trichotomy q q' with hlt | heq | hgt
  · have hle := Nat.mul_le_mul_right g.lineSize (Nat.succ_le_of_lt hlt)
    rw [Nat.succ_mul] at hle
    have hlow := h'.1
    have hhigh := h.2
    omega
  · exact heq
  · have hle := Nat.mul_le_mul_right g.lineSize (Nat.succ_le_of_lt hgt)
    rw [Nat.succ_mul] at hle
    have hlow := h.1
    have hhigh := h'.2
    omega

/-- An address that a line holds. -/
def LineHas (g : CacheGeometry) (l : CacheLine) (a : Nat) : Prop :=
  l.bsByteAddress ≤ a ∧ a < l.bsByteAddress + g.lineSize

/-- A line shows its part of a volume. -/
structure LineShows (g : CacheGeometry) (volume : Nat → UInt8) (q : Nat) (l : CacheLine) : Prop where
  begin_eq : l.begin = q * g.sectorsPerLine
  address_eq : l.bsByteAddress = g.baseByteAddress + q * g.lineSize
  counter_lt : l.lruCounter < 2 ^ 30
  buffer_eq : ∀ k < g.lineSize, l.buffer k = volume (g.baseByteAddress + q * g.lineSize + k)

/-- The cache stands for a volume. The touched sectors are those that were ever fetched; nothing
outside of their lines has changed since the device was as `device`. -/
structure Represents (g : CacheGeometry) (device volume : Nat → UInt8) (touched : List Nat)
    (s : SectorCache) : Prop where
  line : ∀ (i : Nat) (l : CacheLine), s.cacheLines[i]? = some (some l) →
    ∃ t ∈ touched, t < g.sectorCount ∧ g.LineShows volume (t / g.sectorsPerLine) l
  distinct : ∀ (i j : Nat) (l l' : CacheLine), s.cacheLines[i]? = some (some l) →
    s.cacheLines[j]? = some (some l') → l.begin = l'.begin → i = j
  device_eq : ∀ a, (∀ (i : Nat) (l : CacheLine), s.cacheLines[i]? = some (some l) →
    l.dirty = true → ¬g.LineHas l a) → s.device a = volume a
  untouched : ∀ a, (∀ t ∈ touched, ¬g.InLine (t / g.sectorsPerLine) a) →
    s.device a = device a ∧ volume a = device a

theorem LineShows.has_iff {volume : Nat → UInt8} {q : Nat} {l : CacheLine}
    (h : g.LineShows volume q l) (a : Nat) : g.LineHas l a ↔ g.InLine q a := by
  rw [LineHas, InLine, h.address_eq]

namespace Represents

variable {device volume volume' : Nat → UInt8} {touched : List Nat} {s s' : SectorCache}
  {i j : Nat} {l l' : CacheLine}

/-- No two lines hold one address. -/
theorem apart (h : g.Represents device volume touched s)
    (hi : s.cacheLines[i]? = some (some l)) (hj : s.cacheLines[j]? = some (some l'))
    (hne : i ≠ j) {a : Nat} (ha : g.LineHas l a) : ¬g.LineHas l' a := by
  intro ha'
  obtain ⟨t, -, -, hshows⟩ := h.line i l hi
  obtain ⟨t', -, -, hshows'⟩ := h.line j l' hj
  have heq := ((hshows.has_iff a).mp ha).unique ((hshows'.has_iff a).mp ha')
  apply hne
  apply h.distinct i j l l' hi hj
  rw [hshows.begin_eq, hshows'.begin_eq, heq]

/-- A line is replaced by one that shows its part of the new volume, and the device below it shows
it as well when the line is clean. -/
theorem replace (h : g.Represents device volume touched s)
    (hi : s.cacheLines[i]? = some (some l))
    (hlines : s'.cacheLines = s.cacheLines.set i (some l'))
    (hbegin : l'.begin = l.begin) (haddress : l'.bsByteAddress = l.bsByteAddress)
    (hcounter : l'.lruCounter < 2 ^ 30)
    (hbuffer : ∀ k < g.lineSize, l'.buffer k = volume' (l.bsByteAddress + k))
    (hvolume : ∀ a, ¬g.LineHas l a → volume' a = volume a)
    (hclean : ∀ a, g.LineHas l a → l'.dirty = false → s'.device a = volume' a)
    (hdevice : ∀ a, ¬g.LineHas l a → s'.device a = s.device a) :
    g.Represents device volume' touched s' := by
  obtain ⟨t, ht, hcount, hshows⟩ := h.line i l hi
  have hlt : i < s.cacheLines.length := (List.getElem?_eq_some_iff.mp hi).1
  have hself : s'.cacheLines[i]? = some (some l') := by
    rw [hlines, List.getElem?_set_self hlt]
  have hother (k : Nat) (hk : i ≠ k) : s'.cacheLines[k]? = s.cacheLines[k]? := by
    rw [hlines, List.getElem?_set_ne hk]
  constructor
  · intro k m hk
    by_cases heq : i = k
    · subst heq
      rw [hself] at hk
      cases hk
      refine ⟨t, ht, hcount, hbegin.trans hshows.begin_eq, haddress.trans hshows.address_eq,
        hcounter, fun n hn => ?_⟩
      rw [hbuffer n hn, hshows.address_eq]
    · rw [hother k heq] at hk
      obtain ⟨t', ht', hcount', hshows'⟩ := h.line k m hk
      refine ⟨t', ht', hcount', hshows'.begin_eq, hshows'.address_eq, hshows'.counter_lt,
        fun n hn => ?_⟩
      rw [hshows'.buffer_eq n hn, hvolume]
      intro ha
      apply h.apart hi hk heq ha
      rw [LineHas, hshows'.address_eq]
      omega
  · intro k k' m m' hk hk' hsame
    by_cases heq : i = k
    · by_cases heq' : i = k'
      · exact heq.symm.trans heq'
      · subst heq
        rw [hself] at hk
        cases hk
        rw [hother k' heq'] at hk'
        exact h.distinct i k' l m' hi hk' (hbegin.symm.trans hsame)
    · rw [hother k heq] at hk
      by_cases heq' : i = k'
      · subst heq'
        rw [hself] at hk'
        cases hk'
        exact h.distinct k i m l hk hi (hsame.trans hbegin)
      · rw [hother k' heq'] at hk'
        exact h.distinct k k' m m' hk hk' hsame
  · intro a ha
    by_cases hin : g.LineHas l a
    · apply hclean a hin
      rw [← Bool.not_eq_true]
      intro hdirty
      apply ha i l' hself hdirty
      rwa [LineHas, haddress]
    · rw [hdevice a hin, hvolume a hin]
      apply h.device_eq
      intro k m hk hdirty
      by_cases heq : i = k
      · subst heq
        rw [hi] at hk
        cases hk
        exact hin
      · exact ha k m ((hother k heq).trans hk) hdirty
  · intro a ha
    have hin : ¬g.LineHas l a := fun hin => ha t ht ((hshows.has_iff a).mp hin)
    rw [hdevice a hin, hvolume a hin]
    exact h.untouched a ha

/-- A clean line, or a place without one, takes in another line from the device. -/
theorem load (h : g.Represents device volume touched s) (hg : g.Regular) {sector : Nat}
    (hsector : sector < g.sectorCount) (hlt : i < s.cacheLines.length)
    (hclean : ∀ l, s.cacheLines[i]? = some (some l) → l.dirty = false)
    (hmiss : ∀ (j : Nat) (l : CacheLine), s.cacheLines[j]? = some (some l) →
      l.begin ≠ sector / g.sectorsPerLine * g.sectorsPerLine)
    (hlines : s'.cacheLines = s.cacheLines.set i (some (g.readLine s sector)))
    (hdevice : s'.device = s.device) :
    g.Represents device volume (sector :: touched) s' := by
  have hself : s'.cacheLines[i]? = some (some (g.readLine s sector)) := by
    rw [hlines, List.getElem?_set_self hlt]
  have hother (k : Nat) (hk : i ≠ k) : s'.cacheLines[k]? = s.cacheLines[k]? := by
    rw [hlines, List.getElem?_set_ne hk]
  have haddress := hg.lineAddress_eq hsector
  constructor
  · intro k m hk
    by_cases heq : i = k
    · subst heq
      rw [hself] at hk
      cases hk
      refine ⟨sector, List.mem_cons_self, hsector, lineBegin_eq_mul sector, haddress,
        Nat.mod_lt _ (by norm_num), fun n hn => ?_⟩
      change s.device (g.lineAddress (g.lineBegin sector) + n) = _
      rw [haddress]
      apply h.device_eq
      intro j m hj _ ha
      obtain ⟨t, -, -, hshows⟩ := h.line j m hj
      have hin : g.InLine (sector / g.sectorsPerLine)
          (g.baseByteAddress + sector / g.sectorsPerLine * g.lineSize + n) := by
        rw [InLine]
        omega
      apply hmiss j m hj
      rw [hshows.begin_eq, ((hshows.has_iff _).mp ha).unique hin]
    · rw [hother k heq] at hk
      obtain ⟨t, ht, hcount, hshows⟩ := h.line k m hk
      exact ⟨t, List.mem_cons_of_mem sector ht, hcount, hshows⟩
  · intro k k' m m' hk hk' hsame
    by_cases heq : i = k
    · by_cases heq' : i = k'
      · exact heq.symm.trans heq'
      · subst heq
        rw [hself] at hk
        cases hk
        rw [hother k' heq'] at hk'
        exact absurd (hsame.symm.trans (lineBegin_eq_mul sector)) (hmiss k' m' hk')
    · rw [hother k heq] at hk
      by_cases heq' : i = k'
      · subst heq'
        rw [hself] at hk'
        cases hk'
        exact absurd (hsame.trans (lineBegin_eq_mul sector)) (hmiss k m hk)
      · rw [hother k' heq'] at hk'
        exact h.distinct k k' m m' hk hk' hsame
  · intro a ha
    rw [hdevice]
    apply h.device_eq
    intro k m hk hdirty
    by_cases heq : i = k
    · subst heq
      rw [hclean m hk] at hdirty
      cases hdirty
    · exact ha k m ((hother k heq).trans hk) hdirty
  · intro a ha
    rw [hdevice]
    exact h.untouched a fun t ht => ha t (List.mem_cons_of_mem sector ht)

theorem touch (h : g.Represents device volume touched s) (sector : Nat) :
    g.Represents device volume (sector :: touched) s := by
  refine ⟨fun k m hk => ?_, h.distinct, h.device_eq, fun a ha => ?_⟩
  · obtain ⟨t, ht, hrest⟩ := h.line k m hk
    exact ⟨t, List.mem_cons_of_mem sector ht, hrest⟩
  · exact h.untouched a fun t ht => ha t (List.mem_cons_of_mem sector ht)

/-- Marks on a line change nothing that it shows. -/
theorem mark (h : g.Represents device volume touched s)
    (hi : s.cacheLines[i]? = some (some l))
    (hlines : s'.cacheLines = s.cacheLines.set i (some l')) (hdevice : s'.device = s.device)
    (hbegin : l'.begin = l.begin) (haddress : l'.bsByteAddress = l.bsByteAddress)
    (hcounter : l'.lruCounter < 2 ^ 30) (hbuffer : l'.buffer = l.buffer)
    (hdirty : l.dirty = true → l'.dirty = true) : g.Represents device volume touched s' := by
  obtain ⟨t, -, -, hshows⟩ := h.line i l hi
  apply h.replace hi hlines hbegin haddress hcounter
  · intro k hk
    rw [hbuffer, hshows.buffer_eq k hk, hshows.address_eq]
  · exact fun _ _ => rfl
  · intro a ha hclean
    rw [hdevice]
    apply h.device_eq
    intro k m hk hmdirty
    by_cases heq : i = k
    · subst heq
      rw [hi] at hk
      cases hk
      rw [hdirty hmdirty] at hclean
      cases hclean
    · exact h.apart hi hk heq ha
  · exact fun _ _ => congrFun hdevice _

end Represents

/-! ## Flushing -/

section Flushing

variable {device volume : Nat → UInt8} {touched : List Nat} {s : SectorCache} {i : Nat}
  {l : CacheLine}

theorem set_self {α : Type*} {xs : List α} {x : α} (h : xs[i]? = some x) : xs.set i x = xs := by
  apply List.ext_getElem?
  intro k
  rw [List.getElem?_set]
  split
  · rename_i heq
    subst heq
    rw [h, if_pos (List.getElem?_eq_some_iff.mp h).1]
  · rfl

/-- What a flush does to the cache: nothing, or a write of a dirty line. -/
theorem flushLine_cases (g : CacheGeometry) (s : SectorCache) (i : Nat) (clear : Bool) :
    (g.flushLine s i clear = s ∧
      ∀ l : CacheLine, s.cacheLines[i]? = some (some l) → l.dirty = false) ∨
    ∃ l : CacheLine, s.cacheLines[i]? = some (some l) ∧ l.dirty = true ∧
      (g.flushLine s i clear).device = g.writeLine s.device l ∧
      (g.flushLine s i clear).lruCounter = s.lruCounter ∧
      (g.flushLine s i clear).cacheLines =
        s.cacheLines.set i (some (if clear then l.setDirty false else l)) := by
  rw [flushLine]
  cases hi : s.cacheLines[i]? with
  | none => exact .inl ⟨rfl, nofun⟩
  | some line =>
      cases line with
      | none => exact .inl ⟨rfl, nofun⟩
      | some l =>
          cases hdirty : l.dirty with
          | false =>
              refine .inl ⟨?_, ?_⟩
              · dsimp only
                rw [hdirty, if_neg Bool.false_ne_true]
              · intro l' hl'
                cases hl'
                exact hdirty
          | true =>
              refine .inr ⟨l, rfl, hdirty, ?_⟩
              dsimp only
              rw [hdirty, if_pos rfl]
              refine ⟨rfl, rfl, ?_⟩
              cases clear with
              | true => rfl
              | false => exact (set_self hi).symm

theorem writeLine_of_has {dev : Nat → UInt8} {a : Nat} (h : g.LineHas l a) :
    g.writeLine dev l a = l.buffer (a - l.bsByteAddress) := if_pos h

theorem writeLine_of_not_has {dev : Nat → UInt8} {a : Nat} (h : ¬g.LineHas l a) :
    g.writeLine dev l a = dev a := if_neg h

/-- A line shows the volume at each address that it holds. -/
theorem Represents.buffer_at (h : g.Represents device volume touched s)
    (hi : s.cacheLines[i]? = some (some l)) {a : Nat} (ha : g.LineHas l a) :
    l.buffer (a - l.bsByteAddress) = volume a := by
  obtain ⟨t, -, -, hshows⟩ := h.line i l hi
  have hle := ha.1
  have hlt := ha.2
  rw [hshows.buffer_eq _ (by omega), ← hshows.address_eq]
  congr 1
  omega

theorem Represents.flushLine (h : g.Represents device volume touched s) (i : Nat) (clear : Bool) :
    g.Represents device volume touched (g.flushLine s i clear) := by
  rcases flushLine_cases g s i clear with ⟨heq, -⟩ | ⟨l, hi, hdirty, hdevice, -, hlines⟩
  · rwa [heq]
  · obtain ⟨t, -, -, hshows⟩ := h.line i l hi
    have hkeep (clear : Bool) : (if clear then l.setDirty false else l).begin = l.begin ∧
        (if clear then l.setDirty false else l).bsByteAddress = l.bsByteAddress ∧
        (if clear then l.setDirty false else l).lruCounter = l.lruCounter ∧
        (if clear then l.setDirty false else l).buffer = l.buffer := by
      cases clear <;> exact ⟨rfl, rfl, rfl, rfl⟩
    obtain ⟨hbegin, haddress, hcounter, hbuffer⟩ := hkeep clear
    refine h.replace hi hlines hbegin haddress (hcounter ▸ hshows.counter_lt) ?_
      (fun _ _ => rfl) ?_ ?_
    · intro k hk
      rw [hbuffer, hshows.buffer_eq k hk, hshows.address_eq]
    · intro a ha _
      rw [hdevice, writeLine_of_has ha]
      exact h.buffer_at hi ha
    · intro a ha
      rw [hdevice, writeLine_of_not_has ha]

theorem length_flushLine (g : CacheGeometry) (s : SectorCache) (i : Nat) (clear : Bool) :
    (g.flushLine s i clear).cacheLines.length = s.cacheLines.length := by
  rcases flushLine_cases g s i clear with ⟨heq, -⟩ | ⟨l, -, -, -, -, hlines⟩
  · rw [heq]
  · rw [hlines, List.length_set]

theorem lruCounter_flushLine (g : CacheGeometry) (s : SectorCache) (i : Nat) (clear : Bool) :
    (g.flushLine s i clear).lruCounter = s.lruCounter := by
  rcases flushLine_cases g s i clear with ⟨heq, -⟩ | ⟨l, -, -, -, hcounter, -⟩
  · rw [heq]
  · exact hcounter

/-- A flush that clears leaves its line clean. -/
theorem clean_flushLine {l' : CacheLine}
    (h : (g.flushLine s i true).cacheLines[i]? = some (some l')) : l'.dirty = false := by
  rcases flushLine_cases g s i true with ⟨heq, hclean⟩ | ⟨l, hi, -, -, -, hlines⟩
  · rw [heq] at h
    exact hclean l' h
  · rw [hlines, List.getElem?_set_self (List.getElem?_eq_some_iff.mp hi).1] at h
    cases h
    rfl

theorem begin_flushLine {j : Nat} {clear : Bool} {l' : CacheLine}
    (h : (g.flushLine s i clear).cacheLines[j]? = some (some l')) :
    ∃ l : CacheLine, s.cacheLines[j]? = some (some l) ∧ l'.begin = l.begin := by
  rcases flushLine_cases g s i clear with ⟨heq, -⟩ | ⟨l, hi, -, -, -, hlines⟩
  · rw [heq] at h
    exact ⟨l', h, rfl⟩
  · by_cases hij : i = j
    · subst hij
      rw [hlines, List.getElem?_set_self (List.getElem?_eq_some_iff.mp hi).1] at h
      refine ⟨l, hi, ?_⟩
      cases h
      cases clear <;> rfl
    · rw [hlines, List.getElem?_set_ne hij] at h
      exact ⟨l', h, rfl⟩

/-- The device shows the volume outside of the dirty lines from a place on. -/
def ShowsBelow (g : CacheGeometry) (volume : Nat → UInt8) (k : Nat) (s : SectorCache) : Prop :=
  ∀ a, (∀ (i : Nat) (l : CacheLine), k ≤ i → s.cacheLines[i]? = some (some l) → l.dirty = true →
    ¬g.LineHas l a) → s.device a = volume a

theorem ShowsBelow.flushLine {k : Nat} (hshows : g.ShowsBelow volume k s)
    (h : g.Represents device volume touched s) :
    g.ShowsBelow volume (k + 1) (g.flushLine s k false) := by
  rcases flushLine_cases g s k false with ⟨heq, hclean⟩ | ⟨l, hi, hdirty, hdevice, -, hlines⟩
  · rw [heq]
    intro a ha
    apply hshows
    intro i l hle hi hdirty
    rcases Nat.eq_or_lt_of_le hle with rfl | hlt
    · rw [hclean l hi] at hdirty
      cases hdirty
    · exact ha i l hlt hi hdirty
  · rw [if_neg Bool.false_ne_true, set_self hi] at hlines
    intro a ha
    rw [hdevice]
    by_cases hin : g.LineHas l a
    · rw [writeLine_of_has hin]
      exact h.buffer_at hi hin
    · rw [writeLine_of_not_has hin]
      apply hshows
      intro i l' hle hi' hdirty'
      rcases Nat.eq_or_lt_of_le hle with rfl | hlt
      · rw [hi] at hi'
        cases hi'
        exact hin
      · exact ha i l' hlt (by rwa [hlines]) hdirty'

theorem flushAll_from (h : g.Represents device volume touched s) (k n : Nat)
    (hshows : g.ShowsBelow volume k s) :
    g.Represents device volume touched
        ((List.range' k n).foldl (fun s i => g.flushLine s i false) s) ∧
      g.ShowsBelow volume (k + n) ((List.range' k n).foldl (fun s i => g.flushLine s i false) s) ∧
      ((List.range' k n).foldl (fun s i => g.flushLine s i false) s).cacheLines.length =
        s.cacheLines.length := by
  induction n generalizing k s with
  | zero => exact ⟨h, hshows, rfl⟩
  | succ n ih =>
      rw [List.range'_succ, List.foldl_cons]
      obtain ⟨hrep, hbelow, hlength⟩ := ih (h.flushLine k false) (k + 1) (hshows.flushLine h)
      refine ⟨hrep, ?_, hlength.trans (length_flushLine g s k false)⟩
      rwa [show k + (n + 1) = k + 1 + n by omega]

/-- After `FlushAll` the device holds the volume. -/
theorem flushAll_spec (h : g.Represents device volume touched s) :
    g.Represents device volume touched (g.flushAll s) ∧ (g.flushAll s).device = volume ∧
      (g.flushAll s).cacheLines.length = s.cacheLines.length := by
  have hstart : g.ShowsBelow volume 0 s := fun a ha =>
    h.device_eq a fun i l hi hdirty => ha i l (Nat.zero_le i) hi hdirty
  rw [flushAll, List.range_eq_range']
  obtain ⟨hrep, hshows, hlength⟩ := flushAll_from h 0 s.cacheLines.length hstart
  refine ⟨hrep, funext fun a => hshows a ?_, hlength⟩
  intro i l hle hi
  have hlt := (List.getElem?_eq_some_iff.mp hi).1
  omega

/-- A clean line can go. -/
theorem Represents.release (h : g.Represents device volume touched s)
    (hclean : ∀ l : CacheLine, s.cacheLines[i]? = some (some l) → l.dirty = false) :
    g.Represents device volume touched { s with cacheLines := s.cacheLines.set i none } := by
  have hsame {k : Nat} {m : CacheLine} (hk : (s.cacheLines.set i none)[k]? = some (some m)) :
      s.cacheLines[k]? = some (some m) := by
    rw [List.getElem?_set] at hk
    split at hk
    · split at hk <;> cases hk
    · exact hk
  refine ⟨fun k m hk => h.line k m (hsame hk),
    fun k k' m m' hk hk' => h.distinct k k' m m' (hsame hk) (hsame hk'), ?_, h.untouched⟩
  intro a ha
  apply h.device_eq
  intro k m hk hdirty
  by_cases heq : i = k
  · subst heq
    rw [hclean m hk] at hdirty
    cases hdirty
  · exact ha k m (by rwa [List.getElem?_set_ne heq]) hdirty

theorem uninitialize_from (h : g.Represents device volume touched s) (k n : Nat)
    (hgone : ∀ i < k, ∀ l : CacheLine, s.cacheLines[i]? ≠ some (some l)) :
    let s' := (List.range' k n).foldl (fun s i => { g.flushLine s i true with
      cacheLines := (g.flushLine s i true).cacheLines.set i none }) s
    g.Represents device volume touched s' ∧
      (∀ i < k + n, ∀ l : CacheLine, s'.cacheLines[i]? ≠ some (some l)) ∧
      s'.cacheLines.length = s.cacheLines.length := by
  induction n generalizing k s with
  | zero => exact ⟨h, hgone, rfl⟩
  | succ n ih =>
      have hstep := (h.flushLine k true).release fun l hl => clean_flushLine hl
      have hnext := ih hstep (k + 1) fun i hi l hl => by
        rw [List.getElem?_set] at hl
        split at hl
        · split at hl <;> cases hl
        · obtain ⟨l', hl', -⟩ := begin_flushLine hl
          exact hgone i (by omega) l' hl'
      obtain ⟨hrep, hnone, hlength⟩ := hnext
      rw [List.length_set, length_flushLine] at hlength
      rw [List.range'_succ, List.foldl_cons]
      refine ⟨hrep, ?_, hlength⟩
      rwa [show k + (n + 1) = k + 1 + n by omega]

/-- After `Uninitialize` the device holds the volume. -/
theorem uninitialize_spec (h : g.Represents device volume touched s) :
    (g.uninitializeCache s).device = volume := by
  rw [uninitializeCache, List.range_eq_range']
  obtain ⟨hrep, hnone, hlength⟩ := uninitialize_from h 0 s.cacheLines.length fun i hi => by omega
  refine funext fun a => hrep.device_eq a ?_
  intro i l hi
  have hlt := (List.getElem?_eq_some_iff.mp hi).1
  exact absurd hi (hnone i (by omega) l)

end Flushing

end CacheGeometry

end TinyCLR.FAT
