import Mathlib
import TinyCLR.Framework.MemoryStream

/-!
# Runs of a memory stream

A memory stream behaves like an array with a position as long as no position leaves 32 bits and no
write behind the end finds bytes there that an earlier `SetLength` cut off.
-/

namespace TinyCLR.Framework.IO

/-- The call needs memory and there is none. -/
def Operation.lacksMemory : Operation → Bool
  | .write _ _ _ memory | .writeByte _ memory | .setLength _ memory | .toArray memory => !memory
  | _ => false

section Steps

variable {s : MemoryStream} {memory : Bool}

/-- An operation on the stream does what it does on the array, or throws for lack of memory and
changes nothing. -/
def Refines (s : MemoryStream) (op : Operation) : Prop :=
  (s.step op).2.Inv ∧
    ((op.lacksMemory = true ∧ s.step op = (.error .outOfMemory, s)) ∨
      (s.step op).1 = (s.toArrayStream.step op).1 ∧
        (s.step op).2.toArrayStream = (s.toArrayStream.step op).2)

theorem refines_of_eq {op : Operation} {r : Result} {s' : MemoryStream} (hs : s.step op = (r, s'))
    (ha : s.toArrayStream.step op = (r, s'.toArrayStream)) (hinv : s'.Inv) : Refines s op := by
  rw [Refines, hs, ha]
  exact ⟨hinv, .inr ⟨rfl, rfl⟩⟩

theorem refines_of_full {op : Operation} (hop : op.lacksMemory = true)
    (hs : s.step op = (.error .outOfMemory, s)) (hinv : s.Inv) : Refines s op := by
  rw [Refines, hs]
  exact ⟨hinv, .inl ⟨hop, rfl⟩⟩

/-- A closed stream refuses what needs an open one. -/
theorem closed_refines (hinv : s.Inv) (hclosed : s.isOpen = false) {op : Operation}
    (hop : op.needsOpen = true) : Refines s op := by
  have habstract : s.toArrayStream.step op = (.error .objectDisposed, s.toArrayStream) :=
    if_pos ⟨hop, hclosed⟩
  apply refines_of_eq _ habstract hinv
  cases op
  case toArray => cases hop
  case dispose => cases hop
  all_goals
    simp only [MemoryStream.step, MemoryStream.write, MemoryStream.writeByte, MemoryStream.read,
      MemoryStream.readByte, MemoryStream.seek, MemoryStream.setPosition,
      MemoryStream.getPosition, MemoryStream.getLength, MemoryStream.setLength,
      MemoryStream.writeTo, hclosed, if_true, Bool.false_eq_true, if_false]

theorem MemoryStream.Inv.limit (hinv : s.Inv) (n : ℕ) :
    s.toArrayStream.limit.any (· < n) = true ↔ s.expandable = false ∧ s.capacity < n := by
  have := hinv.length_nonneg.trans hinv.length_le
  rw [MemoryStream.toArrayStream]
  cases s.expandable with
  | true => simp
  | false =>
      simp
      omega

/-- A buffer for a write up to `next`: the contents are the same, and the bytes between the end and
the position are zero. -/
structure HasRoom (s : MemoryStream) (next : ℤ) (b : List UInt8) : Prop where
  next_le : next ≤ b.length
  length_le : s.length ≤ b.length
  contents : b.take s.length.toNat = s.buffer.take s.length.toNat
  fixed : s.expandable = false → (b.length : ℤ) = s.capacity
  clear : ∀ i, s.length.toNat ≤ i → i < s.position.toNat → b[i]? = some 0

theorem HasRoom.self (hinv : s.Inv) {next : ℤ} (hnext : next ≤ s.capacity)
    (hclear : ∀ i, s.length.toNat ≤ i → i < s.position.toNat → s.buffer[i]? = some 0) :
    HasRoom s next s.buffer :=
  ⟨hinv.capacity ▸ hnext, hinv.capacity ▸ hinv.length_le, rfl, fun _ => hinv.capacity.symm, hclear⟩

/-- The three ways in which room for a write is found. -/
theorem room_cases (memory : Bool) {next : ℤ} (hinv : s.Inv) (hgap : s.GapClear next)
    (hposition : s.position ≤ next) :
    ((s.expandable = false ∧ s.capacity < next) ∧
      s.ensureCapacity memory next = .error .notSupported) ∨
    (memory = false ∧ s.ensureCapacity memory next = .error .outOfMemory) ∨
    (¬(s.expandable = false ∧ s.capacity < next) ∧ ∃ b allocated, HasRoom s next b ∧
      s.ensureCapacity memory next =
        .ok (allocated, { s with buffer := b, capacity := b.length })) := by
  have hlow := hinv.length_nonneg
  have hle := hinv.length_le
  have hcapacity := hinv.capacity
  rcases le_or_gt next s.capacity with h | h
  · refine .inr (.inr ⟨fun hc => absurd hc.2 (by omega), s.buffer, false,
      HasRoom.self hinv h fun i hi hi' => ?_, ?_⟩)
    · rcases hgap with hin | hbeyond | hclear
      · omega
      · omega
      · exact hclear i (by omega) (by omega)
    · rw [MemoryStream.ensureCapacity_fits h, ← hcapacity]
  · cases hexpandable : s.expandable with
    | false => exact .inl ⟨⟨rfl, h⟩, MemoryStream.ensureCapacity_fixed h hexpandable⟩
    | true =>
        cases memory with
        | false => exact .inr (.inl ⟨rfl, MemoryStream.ensureCapacity_full hinv h hexpandable⟩)
        | true =>
            obtain ⟨k, hk, heq⟩ := MemoryStream.ensureCapacity_grows hinv h hexpandable
            have htake : (s.buffer.take s.length.toNat).length = s.length.toNat := by
              rw [List.length_take]
              omega
            have hlength : (s.buffer.take s.length.toNat ++ List.replicate k (0 : UInt8)).length =
                s.length.toNat + k := by
              rw [List.length_append, htake, List.length_replicate]
            refine .inr (.inr ⟨fun hc => by simp at hc,
              s.buffer.take s.length.toNat ++ List.replicate k 0, true, ⟨?_, ?_, ?_, ?_, ?_⟩, ?_⟩)
            · rw [hlength]
              omega
            · rw [hlength]
              omega
            · rw [List.take_left' htake]
            · intro hc
              rw [hexpandable] at hc
              cases hc
            · intro i hi hi'
              rw [List.getElem?_append_right (by omega), htake, List.getElem?_replicate,
                if_pos (by omega)]
            · rw [heq, hlength, show ((s.length.toNat + k : ℕ) : ℤ) = s.length + k by omega,
                hexpandable]

/-- The stream after bytes were written to a buffer with room for them. -/
def written (s : MemoryStream) (b bytes : List UInt8) (next : ℤ) : MemoryStream :=
  { s with
    buffer := b.splice s.position.toNat bytes
    position := next
    length := max s.length next
    capacity := b.length }

theorem put_refines {next : ℤ} {b bytes : List UInt8} (hinv : s.Inv) (hroom : HasRoom s next b)
    (hnext : next = s.position + bytes.length) (hlt : next < 2 ^ 31)
    (hfits : ¬(s.expandable = false ∧ s.capacity < next)) :
    (written s b bytes next).Inv ∧
      s.toArrayStream.put bytes = (.ok .done, (written s b bytes next).toArrayStream) := by
  have hlow := hinv.length_nonneg
  have hposition := hinv.position_nonneg
  have hlength := hroom.length_le
  have hle := hroom.next_le
  have hp : s.position.toNat + bytes.length ≤ b.length := by omega
  have hsplice := List.length_splice hp
  constructor
  · refine ⟨?_, ?_, ?_, max_lt hinv.length_lt hlt, ?_, hlt⟩
    · dsimp only [written]
      rw [hsplice]
    · dsimp only [written]
      omega
    · dsimp only [written]
      omega
    · dsimp only [written]
      omega
  · have hlimit := hinv.limit (s.position.toNat + bytes.length)
    have hcontents := take_splice_eq_overwrite (l := s.length.toNat) (by omega) hp hroom.clear
    rw [hroom.contents] at hcontents
    rw [ArrayStream.put]
    change (if 2 ^ 31 ≤ s.position.toNat + bytes.length then _ else _) = _
    rw [if_neg (by omega), if_neg]
    · congr 1
      rw [MemoryStream.toArrayStream, MemoryStream.toArrayStream, written]
      congr 1
      · rw [← hcontents]
        congr 1
        change _ = (max s.length next).toNat
        omega
      · change s.position.toNat + bytes.length = next.toNat
        omega
      · cases hexpandable : s.expandable with
        | true => rfl
        | false =>
            have := hroom.fixed hexpandable
            change some s.capacity.toNat = some (b.length : ℤ).toNat
            rw [this]
    · intro hc
      obtain ⟨hfixed, hcapacity⟩ := hlimit.mp hc
      exact hfits ⟨hfixed, by omega⟩

/-- A buffer that cannot grow is full. -/
theorem put_fixed {next : ℤ} {bytes : List UInt8} (hinv : s.Inv)
    (hnext : next = s.position + bytes.length) (hlt : next < 2 ^ 31)
    (hfixed : s.expandable = false ∧ s.capacity < next) :
    s.toArrayStream.put bytes = (.error .notSupported, s.toArrayStream) := by
  have hposition := hinv.position_nonneg
  have hlimit := (hinv.limit (s.position.toNat + bytes.length)).mpr ⟨hfixed.1, by omega⟩
  rw [ArrayStream.put]
  change (if 2 ^ 31 ≤ s.position.toNat + bytes.length then _ else
    if s.toArrayStream.limit.any (· < s.position.toNat + bytes.length) = true then _ else _) = _
  rw [if_neg (by omega), if_pos hlimit]

theorem checkArray_ok {buffer : Option (List UInt8)} {offset count : ℤ} {b : List UInt8}
    (h : MemoryStream.checkArray buffer offset count = .ok b) :
    0 ≤ offset ∧ 0 ≤ count ∧ count + offset ≤ b.length := by
  cases buffer with
  | none => cases h
  | some a =>
      rw [MemoryStream.checkArray] at h
      split_ifs at h with h1 h2
      cases h
      omega

/-- A call on an open stream is not refused. -/
theorem open_step (hopen : s.isOpen = true) (op : Operation) :
    ¬(op.needsOpen = true ∧ s.toArrayStream.isOpen = false) :=
  fun hc => by simp [MemoryStream.toArrayStream, hopen] at hc

theorem write_refines {buffer : Option (List UInt8)} {offset count : Int32} (hinv : s.Inv)
    (hopen : s.isOpen = true)
    (hmeets : ∀ b, MemoryStream.checkArray buffer offset.toInt count.toInt = .ok b →
      s.position + count.toInt < 2 ^ 31 ∧ s.GapClear (s.position + count.toInt)) :
    Refines s (.write buffer offset count memory) := by
  have hstep : s.step (.write buffer offset count memory) = s.write buffer offset count memory :=
    rfl
  have habstract : s.toArrayStream.step (.write buffer offset count memory) = _ :=
    if_neg (open_step hopen _)
  dsimp only at habstract
  rw [MemoryStream.write, if_neg (by simp [hopen])] at hstep
  cases hcheck : MemoryStream.checkArray buffer offset.toInt count.toInt with
  | error e =>
      rw [hcheck] at hstep habstract
      exact refines_of_eq hstep habstract hinv
  | ok b =>
      rw [hcheck] at hstep habstract
      obtain ⟨hoffset, hcount, hinside⟩ := checkArray_ok hcheck
      obtain ⟨hlt, hgap⟩ := hmeets b hcheck
      have hposition := hinv.position_nonneg
      have hwrap : int32 (s.position + count.toInt) = s.position + count.toInt :=
        int32_of_bounds (by omega) hlt
      have hbytes : ((b.window offset.toInt.toNat count.toInt.toNat).length : ℤ) =
          count.toInt := by
        rw [List.length_window (by omega)]
        omega
      have hnext : s.position + count.toInt =
          s.position + (b.window offset.toInt.toNat count.toInt.toNat).length := by
        rw [hbytes]
      dsimp only at hstep habstract
      rw [hwrap] at hstep
      have hgrown : (if s.length < s.position + count.toInt then
          (if s.capacity < s.position + count.toInt then
            (s.ensureCapacity memory (s.position + count.toInt)).map Prod.snd else .ok s).map
            fun s' => { s' with length := s.position + count.toInt }
          else .ok s) =
          (s.ensureCapacity memory (s.position + count.toInt)).map fun p =>
            { p.2 with length := max s.length (s.position + count.toInt) } := by
        have hle := hinv.length_le
        split_ifs with hgrows hlarge
        · rw [max_eq_right (by omega)]
          cases s.ensureCapacity memory (s.position + count.toInt) <;> rfl
        · rw [max_eq_right (by omega), MemoryStream.ensureCapacity_fits (by omega)]
          rfl
        · rw [max_eq_left (by omega), MemoryStream.ensureCapacity_fits (by omega)]
          rfl
      rw [hgrown] at hstep
      rcases room_cases memory hinv hgap (by omega) with ⟨hfixed, hensure⟩ |
        ⟨hmemory, hensure⟩ | ⟨hfits, a, allocated, hroom, hensure⟩
      · rw [hensure] at hstep
        exact refines_of_eq hstep (habstract.trans (put_fixed hinv hnext hlt hfixed)) hinv
      · rw [hensure] at hstep
        exact refines_of_full (by simp [Operation.lacksMemory, hmemory]) hstep hinv
      · rw [hensure] at hstep
        obtain ⟨hinv', hput⟩ := put_refines hinv hroom hnext hlt hfits
        have hcopy : arrayCopy b offset.toInt a s.position count.toInt = _ :=
          arrayCopy_inside hcount hoffset hposition hinside (by have := hroom.next_le; omega)
        refine refines_of_eq ?_ (habstract.trans hput) hinv'
        rw [hstep]
        dsimp only [Except.map]
        rw [hcopy]
        rfl

theorem splice_singleton {l : List UInt8} {p : ℕ} (hp : p < l.length) (x : UInt8) :
    l.splice p [x] = l.set p x := by
  rw [List.splice, List.set_eq_take_append_cons_drop, if_pos hp]
  rfl

theorem writeByte_refines {value : UInt8} (hinv : s.Inv) (hopen : s.isOpen = true)
    (hlt : s.position + 1 < 2 ^ 31) (hgap : s.GapClear (s.position + 1)) :
    Refines s (.writeByte value memory) := by
  have hstep : s.step (.writeByte value memory) = s.writeByte value memory := rfl
  have habstract : s.toArrayStream.step (.writeByte value memory) = s.toArrayStream.put [value] :=
    if_neg (open_step hopen _)
  have hposition := hinv.position_nonneg
  have hwrap : int32 (s.position + 1) = s.position + 1 := int32_of_bounds (by omega) hlt
  have hgrown : (if s.capacity ≤ s.position then
      (s.ensureCapacity memory (s.position + 1)).map Prod.snd else .ok s) =
      (s.ensureCapacity memory (s.position + 1)).map Prod.snd := by
    split_ifs with hgrows
    · rfl
    · rw [MemoryStream.ensureCapacity_fits (by omega)]
      rfl
  rw [MemoryStream.writeByte, if_neg (by simp [hopen])] at hstep
  dsimp only at hstep
  rw [hwrap, hgrown] at hstep
  rcases room_cases memory hinv hgap (by omega) with ⟨hfixed, hensure⟩ |
    ⟨hmemory, hensure⟩ | ⟨hfits, b, allocated, hroom, hensure⟩
  · rw [hensure] at hstep
    exact refines_of_eq hstep (habstract.trans (put_fixed hinv rfl hlt hfixed)) hinv
  · rw [hensure] at hstep
    exact refines_of_full (by simp [Operation.lacksMemory, hmemory]) hstep hinv
  · rw [hensure] at hstep
    have hnext : s.position + 1 = s.position + ([value] : List UInt8).length := rfl
    obtain ⟨hinv', hput⟩ := put_refines hinv hroom hnext hlt hfits
    have hle := hroom.next_le
    refine refines_of_eq ?_ (habstract.trans hput) hinv'
    rw [hstep]
    change (if s.position < 0 ∨ (b.length : ℤ) ≤ s.position then _ else
      ((.ok .done, _) : Result × MemoryStream)) = _
    rw [if_neg (by omega)]
    dsimp only
    rw [hwrap, ← splice_singleton (by omega)]
    congr 1
    rw [written]
    congr 1
    rw [max_def]
    split_ifs <;> omega

theorem read_refines {buffer : Option (List UInt8)} {offset count : Int32} (hinv : s.Inv)
    (hopen : s.isOpen = true) : Refines s (.read buffer offset count) := by
  have hstep : s.step (.read buffer offset count) = s.read buffer offset count := rfl
  have habstract : s.toArrayStream.step (.read buffer offset count) = _ :=
    if_neg (open_step hopen _)
  dsimp only at habstract
  have hlow := hinv.length_nonneg
  have hlt := hinv.length_lt
  have hposition := hinv.position_nonneg
  have hplt := hinv.position_lt
  have hcapacity := hinv.capacity
  have hle := hinv.length_le
  rw [MemoryStream.read, if_neg (by simp [hopen]),
    int32_of_bounds (by omega : -2 ^ 31 ≤ s.length - s.position) (by omega)] at hstep
  cases hcheck : MemoryStream.checkArray buffer offset.toInt count.toInt with
  | error e =>
      rw [hcheck] at hstep habstract
      exact refines_of_eq hstep habstract hinv
  | ok b =>
      rw [hcheck] at hstep habstract
      obtain ⟨hoffset, hcount, hinside⟩ := checkArray_ok hcheck
      dsimp only at hstep habstract
      generalize hn : (if count.toInt < s.length - s.position then count.toInt
        else s.length - s.position) = n at hstep
      have hget : s.toArrayStream.get count.toInt.toNat =
          s.buffer.window s.position.toNat n.toNat := by
        apply List.ext_getElem?
        intro i
        rw [ArrayStream.get, List.getElem?_window, List.getElem?_window]
        change (if i < count.toInt.toNat then
          (s.buffer.take s.length.toNat)[s.position.toNat + i]? else none) = _
        rw [List.getElem?_take]
        split_ifs at hn ⊢ <;> first | rfl | omega
      rw [hget] at habstract
      by_cases hzero : n ≤ 0
      · rw [if_pos hzero] at hstep
        rw [show n.toNat = 0 by omega, List.window_zero, List.splice_nil] at habstract
        exact refines_of_eq hstep habstract hinv
      · have hwindow : (s.buffer.window s.position.toNat n.toNat).length = n.toNat := by
          apply List.length_window
          split_ifs at hn <;> omega
        have hcopy : arrayCopy s.buffer s.position b offset.toInt n = _ :=
          arrayCopy_inside (by omega) hposition hoffset (by split_ifs at hn <;> omega)
            (by split_ifs at hn <;> omega)
        have hwrap : int32 (s.position + n) = s.position + n :=
          int32_of_bounds (by omega) (by split_ifs at hn <;> omega)
        rw [if_neg hzero, hcopy] at hstep
        dsimp only at hstep
        rw [hwrap] at hstep
        rw [hwindow] at habstract
        refine refines_of_eq hstep ?_ ⟨hcapacity, hlow, hle, hlt, ?_, ?_⟩
        · rw [habstract, show ((n.toNat : ℕ) : ℤ) = n by omega]
          congr 1
          rw [MemoryStream.toArrayStream, MemoryStream.toArrayStream]
          congr 1
          dsimp only
          omega
        · dsimp only
          omega
        · dsimp only
          split_ifs at hn <;> omega

theorem readByte_refines (hinv : s.Inv) (hopen : s.isOpen = true) : Refines s .readByte := by
  have hstep : s.step .readByte = s.readByte := rfl
  have hnext : s.toArrayStream.contents[s.toArrayStream.position]? =
      (s.buffer.take s.length.toNat)[s.position.toNat]? := rfl
  have habstract : s.toArrayStream.step .readByte = _ := if_neg (open_step hopen _)
  dsimp only at habstract
  rw [hnext] at habstract
  have hlow := hinv.length_nonneg
  have hlt := hinv.length_lt
  have hposition := hinv.position_nonneg
  have hcapacity := hinv.capacity
  have hle := hinv.length_le
  rw [MemoryStream.readByte, if_neg (by simp [hopen])] at hstep
  by_cases hend : s.length ≤ s.position
  · rw [if_pos hend] at hstep
    rw [List.getElem?_take_eq_none (by omega)] at habstract
    exact refines_of_eq hstep habstract hinv
  · rw [if_neg hend] at hstep
    have hget := List.getElem?_eq_getElem (show s.position.toNat < s.buffer.length by omega)
    rw [List.getElem?_take_of_lt (by omega), hget] at habstract
    dsimp only at hstep
    rw [if_neg (by omega), hget, int32_of_bounds (by omega) (by omega)] at hstep
    refine refines_of_eq hstep ?_ ⟨hcapacity, hlow, hle, hlt, ?_, ?_⟩
    · rw [habstract]
      dsimp only
      congr 1
      rw [MemoryStream.toArrayStream, MemoryStream.toArrayStream]
      congr 1
      dsimp only
      omega
    · dsimp only
      omega
    · dsimp only
      omega

/-- A stream that is only moved. -/
theorem move_inv (hinv : s.Inv) {position : ℤ} (hlow : 0 ≤ position) (hlt : position < 2 ^ 31) :
    { s with position := position }.Inv :=
  ⟨hinv.capacity, hinv.length_nonneg, hinv.length_le, hinv.length_lt, hlow, hlt⟩

theorem moveTo_eq {position : ℤ} (hlow : 0 ≤ position) :
    s.toArrayStream.moveTo position =
      (.ok (.number position), { s with position := position }.toArrayStream) :=
  if_neg (by omega)

theorem moveTo_low {position : ℤ} (hlow : position < 0) :
    s.toArrayStream.moveTo position = (.error .io, s.toArrayStream) := if_pos hlow

theorem seek_refines {offset : Int64} {seekOrigin : SeekOrigin} (hinv : s.Inv)
    (hopen : s.isOpen = true) (hlt : offset.toInt ≤ memStreamMaxLength →
      (seekOrigin = .fromCurrent → s.position + offset.toInt < 2 ^ 31) ∧
      (seekOrigin = .fromEnd → s.length + offset.toInt < 2 ^ 31)) :
    Refines s (.seek offset seekOrigin) := by
  have hstep : s.step (.seek offset seekOrigin) = s.seek offset seekOrigin := rfl
  have habstract : s.toArrayStream.step (.seek offset seekOrigin) = _ :=
    if_neg (open_step hopen _)
  dsimp only at habstract
  have hlow := hinv.length_nonneg
  have hllt := hinv.length_lt
  have hposition := hinv.position_nonneg
  have hplt := hinv.position_lt
  rw [MemoryStream.seek, if_neg (by simp [hopen])] at hstep
  by_cases hmax : memStreamMaxLength < offset.toInt
  · rw [if_pos hmax] at hstep habstract
    exact refines_of_eq hstep habstract hinv
  · rw [if_neg hmax] at hstep habstract
    have hlt := hlt (by omega)
    unfold memStreamMaxLength at hmax
    cases seekOrigin with
    | fromBegin =>
        dsimp only at hstep habstract
        by_cases hneg : offset.toInt < 0
        · rw [if_pos hneg] at hstep
          exact refines_of_eq hstep (habstract.trans (moveTo_low hneg)) hinv
        · rw [if_neg hneg, int32_of_bounds (by omega) (by omega), origin, Int.zero_add] at hstep
          exact refines_of_eq hstep (habstract.trans (moveTo_eq (by omega)))
            (move_inv hinv (by omega) (by omega))
    | fromCurrent =>
        have hlt := hlt.1 rfl
        have habs : (s.toArrayStream.position : ℤ) = s.position := Int.toNat_of_nonneg hposition
        dsimp only at hstep habstract
        rw [habs] at habstract
        unfold origin at hstep
        by_cases hneg : offset.toInt + s.position < 0
        · rw [if_pos hneg] at hstep
          exact refines_of_eq hstep (habstract.trans (moveTo_low (by omega))) hinv
        · rw [if_neg hneg, int32_of_bounds (x := offset.toInt) (by omega) (by omega),
            int32_of_bounds (by omega) hlt] at hstep
          exact refines_of_eq hstep (habstract.trans (moveTo_eq (by omega)))
            (move_inv hinv (by omega) hlt)
    | fromEnd =>
        have hlt := hlt.2 rfl
        dsimp only at hstep habstract
        rw [hinv.length_contents] at habstract
        unfold origin at hstep
        by_cases hneg : s.length + offset.toInt < 0
        · rw [if_pos hneg] at hstep
          exact refines_of_eq hstep (habstract.trans (moveTo_low hneg)) hinv
        · rw [if_neg hneg, int32_of_bounds (x := offset.toInt) (by omega) (by omega),
            int32_of_bounds (by omega) hlt] at hstep
          exact refines_of_eq hstep (habstract.trans (moveTo_eq (by omega)))
            (move_inv hinv (by omega) hlt)
    | undefined => exact refines_of_eq hstep habstract hinv

theorem setPosition_refines {value : Int64} (hinv : s.Inv) (hopen : s.isOpen = true) :
    Refines s (.setPosition value) := by
  have hstep : s.step (.setPosition value) = s.setPosition value := rfl
  have habstract : s.toArrayStream.step (.setPosition value) =
      if value.toInt < 0 ∨ memStreamMaxLength < value.toInt then
        (.error .argumentOutOfRange, s.toArrayStream)
      else (.ok .done, { s.toArrayStream with position := value.toInt.toNat }) :=
    if_neg (open_step hopen _)
  rw [MemoryStream.setPosition, if_neg (by simp [hopen])] at hstep
  by_cases hbad : value.toInt < 0 ∨ memStreamMaxLength < value.toInt
  · rw [if_pos hbad] at hstep habstract
    exact refines_of_eq hstep habstract hinv
  · rw [if_neg hbad] at hstep habstract
    unfold memStreamMaxLength at hbad
    rw [origin, Int.zero_add] at hstep
    exact refines_of_eq hstep habstract (move_inv hinv (by omega) (by omega))

/-- The stream after its length was set in a buffer that is large enough. -/
def resized (s : MemoryStream) (b : List UInt8) (n : ℤ) : MemoryStream :=
  { s with
    buffer := b
    length := n
    capacity := b.length
    position := if n < s.position then n else s.position }

theorem resize_refines {b : List UInt8} {n : ℤ} (hinv : s.Inv) (hn : 0 ≤ n) (hlt : n < 2 ^ 31)
    (hle : n ≤ b.length)
    (hcontents : b.take n.toNat = (s.buffer.take s.length.toNat).take n.toNat ++
      List.replicate (n.toNat - s.length.toNat) 0)
    (hfixed : s.expandable = false → (b.length : ℤ) = s.capacity) :
    (resized s b n).Inv ∧
      s.toArrayStream.resize n.toNat = (.ok .done, (resized s b n).toArrayStream) := by
  have hposition := hinv.position_nonneg
  have hplt := hinv.position_lt
  have hcontentsLength := hinv.length_contents
  constructor
  · refine ⟨rfl, hn, hle, hlt, ?_, ?_⟩
    · dsimp only [resized]
      split_ifs <;> omega
    · dsimp only [resized]
      split_ifs <;> omega
  · have hlimit : ¬s.toArrayStream.limit.any (· < n.toNat) = true := by
      rw [hinv.limit]
      rintro ⟨hf, hc⟩
      have := hfixed hf
      omega
    rw [ArrayStream.resize, if_neg hlimit]
    congr 1
    rw [show s.toArrayStream.contents.length = s.length.toNat by omega]
    rw [MemoryStream.toArrayStream, MemoryStream.toArrayStream, resized]
    dsimp only
    rw [← hcontents]
    congr 1
    · split_ifs <;> omega
    · cases hexpandable : s.expandable with
      | true => rfl
      | false => rw [hfixed hexpandable]

theorem arrayClear_inside {array : List UInt8} {i n : ℤ} (hn : 0 ≤ n) (hi : 0 ≤ i)
    (h : n + i ≤ array.length) :
    arrayClear array i n = .ok (array.splice i.toNat (List.replicate n.toNat 0)) := by
  have hwrap := int32_le (show -2 ^ 31 ≤ n + i by omega)
  rw [arrayClear, if_neg (by omega : ¬n = -1), if_neg (by omega), if_neg (by omega)]

/-- The end of `SetLength`, behind the choice of the buffer. -/
theorem finish_setLength (s : MemoryStream) (b : List UInt8) (n : ℤ)
    (hcapacity : s.capacity = b.length) :
    (if n < s.position then { { s with buffer := b, length := n } with position := n }
      else { s with buffer := b, length := n }) = resized s b n := by
  rw [resized, ← hcapacity]
  split_ifs <;> rfl

theorem setLength_refines {value : Int64} (hinv : s.Inv) (hopen : s.isOpen = true) :
    Refines s (.setLength value memory) := by
  have hstep : s.step (.setLength value memory) = s.setLength value memory := rfl
  have habstract : s.toArrayStream.step (.setLength value memory) =
      if memStreamMaxLength < value.toInt ∨ value.toInt < 0 then
        (.error .argumentOutOfRange, s.toArrayStream)
      else s.toArrayStream.resize value.toInt.toNat :=
    if_neg (open_step hopen _)
  have hlow := hinv.length_nonneg
  have hlen := hinv.length_le
  have hcapacity := hinv.capacity
  rw [MemoryStream.setLength, if_neg (by simp [hopen])] at hstep
  by_cases hbad : memStreamMaxLength < value.toInt ∨ value.toInt < 0
  · rw [if_pos hbad] at hstep habstract
    exact refines_of_eq hstep habstract hinv
  · rw [if_neg hbad] at hstep habstract
    unfold memStreamMaxLength at hbad
    dsimp only at hstep
    rw [origin, Int.zero_add] at hstep
    generalize hvalue : value.toInt = n at *
    clear hvalue
    rcases le_or_gt n s.capacity with hfits | hlarge
    · rw [MemoryStream.ensureCapacity_fits hfits] at hstep
      dsimp only at hstep
      obtain ⟨b, hb, hblength, hcontents⟩ : ∃ b, (if false = false ∧ s.length < n then
          arrayClear s.buffer s.length (n - s.length) else .ok s.buffer) = .ok b ∧
          s.capacity = b.length ∧ b.take n.toNat = (s.buffer.take s.length.toNat).take n.toNat ++
            List.replicate (n.toNat - s.length.toNat) 0 := by
        by_cases hgrows : s.length < n
        · have hsum : s.length.toNat + (List.replicate (n - s.length).toNat (0 : UInt8)).length ≤
              s.buffer.length := by
            rw [List.length_replicate]
            omega
          refine ⟨_, by rw [if_pos ⟨rfl, hgrows⟩, arrayClear_inside (by omega) hlow (by omega)],
            by rw [List.length_splice hsum, hcapacity], ?_⟩
          have htake : (s.buffer.take s.length.toNat).length = s.length.toNat := by
            rw [List.length_take]
            omega
          rw [List.splice, ← List.append_assoc, List.take_left',
            List.take_of_length_le (l := s.buffer.take s.length.toNat) (by omega),
            show (n - s.length).toNat = n.toNat - s.length.toNat by omega]
          rw [List.length_append, htake, List.length_replicate]
          omega
        · refine ⟨s.buffer, by rw [if_neg (by simp [hgrows])], hcapacity, ?_⟩
          rw [show n.toNat - s.length.toNat = 0 by omega, List.replicate_zero, List.append_nil,
            List.take_take, min_eq_left (by omega)]
      rw [hb] at hstep
      dsimp only at hstep
      rw [finish_setLength s b n hblength] at hstep
      obtain ⟨hinv', hresize⟩ := resize_refines hinv (by omega) (by omega) (by omega) hcontents
        fun _ => hblength.symm
      exact refines_of_eq hstep (habstract.trans hresize) hinv'
    · cases hexpandable : s.expandable with
      | false =>
          rw [MemoryStream.ensureCapacity_fixed hlarge hexpandable] at hstep
          have hlimit := (hinv.limit n.toNat).mpr ⟨hexpandable, by omega⟩
          rw [ArrayStream.resize, if_pos hlimit] at habstract
          exact refines_of_eq hstep habstract hinv
      | true =>
          cases memory with
          | false =>
              rw [MemoryStream.ensureCapacity_full hinv hlarge hexpandable] at hstep
              exact refines_of_full rfl hstep hinv
          | true =>
              obtain ⟨k, hk, heq⟩ := MemoryStream.ensureCapacity_grows hinv hlarge hexpandable
              have htake : (s.buffer.take s.length.toNat).length = s.length.toNat := by
                rw [List.length_take]
                omega
              have hlength : (s.buffer.take s.length.toNat ++
                  List.replicate k (0 : UInt8)).length = s.length.toNat + k := by
                rw [List.length_append, htake, List.length_replicate]
              rw [heq] at hstep
              dsimp only at hstep
              rw [if_neg (by simp)] at hstep
              dsimp only at hstep
              have hcontents : (s.buffer.take s.length.toNat ++
                  List.replicate k (0 : UInt8)).take n.toNat =
                  (s.buffer.take s.length.toNat).take n.toNat ++
                    List.replicate (n.toNat - s.length.toNat) 0 := by
                rw [List.take_append, htake, List.take_replicate, min_eq_left (by omega)]
              obtain ⟨hinv', hresize⟩ := resize_refines hinv (by omega) (by omega)
                (by rw [hlength]; omega) hcontents fun hf => by simp [hexpandable] at hf
              refine refines_of_eq ?_ (habstract.trans hresize) hinv'
              rw [hstep]
              congr 1
              rw [resized, hlength, show ((s.length.toNat + k : ℕ) : ℤ) = s.length + k by omega]
              split_ifs <;> rfl

theorem toArray_refines (hinv : s.Inv) : Refines s (.toArray memory) := by
  have hstep : s.step (.toArray memory) = (s.toArray memory, s) := rfl
  have habstract : s.toArrayStream.step (.toArray memory) =
      (.ok (.contents s.toArrayStream.contents), s.toArrayStream) :=
    if_neg fun hc => by cases hc.1
  have hlow := hinv.length_nonneg
  have hle := hinv.length_le
  have hcapacity := hinv.capacity
  cases memory with
  | false => exact refines_of_full rfl hstep hinv
  | true =>
      rw [MemoryStream.toArray, if_pos rfl, origin, Int.sub_zero,
        arrayCopy_inside hlow le_rfl le_rfl (by omega) (by rw [List.length_replicate]; omega)]
        at hstep
      refine refines_of_eq hstep ?_ hinv
      rw [habstract]
      congr 3
      change s.buffer.take s.length.toNat =
        (List.replicate s.length.toNat (0 : UInt8)).splice 0 (s.buffer.window 0 s.length.toNat)
      have htake : (s.buffer.take s.length.toNat).length = s.length.toNat := by
        rw [List.length_take]
        omega
      rw [List.splice, List.window, List.drop_zero, List.take_zero, List.nil_append, htake,
        List.drop_replicate, Nat.zero_add, Nat.sub_self, List.replicate_zero, List.append_nil]

theorem writeTo_refines {stream : Bool} (hinv : s.Inv) (hopen : s.isOpen = true) :
    Refines s (.writeTo stream) := by
  have hstep : s.step (.writeTo stream) = (s.writeTo stream, s) := rfl
  have habstract : s.toArrayStream.step (.writeTo stream) =
      if stream = false then (.error .argumentNull, s.toArrayStream)
      else (.ok (.contents s.toArrayStream.contents), s.toArrayStream) :=
    if_neg (open_step hopen _)
  rw [MemoryStream.writeTo, if_neg (by simp [hopen]), origin, Int.sub_zero] at hstep
  cases stream with
  | false => exact refines_of_eq hstep habstract hinv
  | true => exact refines_of_eq hstep habstract hinv

end Steps

section Claims

/-- The condition under which an operation does what it does on an array: no sum of positions
reaches `2 ^ 31`, and a write behind the end without new memory finds zeros in front of it. -/
def MemoryStream.Meets (s : MemoryStream) : Operation → Prop
  | .write buffer offset count _ => s.isOpen = true →
      ∀ b, checkArray buffer offset.toInt count.toInt = .ok b →
        s.position + count.toInt < 2 ^ 31 ∧ s.GapClear (s.position + count.toInt)
  | .writeByte _ _ => s.isOpen = true →
      s.position + 1 < 2 ^ 31 ∧ s.GapClear (s.position + 1)
  | .seek offset seekOrigin => s.isOpen = true → offset.toInt ≤ memStreamMaxLength →
      (seekOrigin = .fromCurrent → s.position + offset.toInt < 2 ^ 31) ∧
        (seekOrigin = .fromEnd → s.length + offset.toInt < 2 ^ 31)
  | _ => True

/-- Every step of a run meets the condition. -/
def AllMeet : MemoryStream → List Operation → Prop
  | _, [] => True
  | s, op :: ops => s.Meets op ∧ AllMeet (s.step op).2 ops

/-- A stream of either constructor and the array it stands for. -/
inductive Created : MemoryStream → ArrayStream → Prop
  | new : Created .new ⟨[], 0, none, true⟩
  | ofBuffer (buffer : List UInt8) (h : buffer.length < 2 ^ 31) :
      Created (.ofBuffer buffer) ⟨buffer, 0, some buffer.length, true⟩

/-- Through a whole run, contents, length, position and all results are those of the array. Only a
call for which there is no memory may throw instead, and changes nothing. -/
def Agrees : MemoryStream → ArrayStream → List Operation → Prop
  | s, a, [] => s.toArrayStream = a
  | s, a, op :: ops => s.toArrayStream = a ∧
      ((op.lacksMemory = true ∧ s.step op = (.error .outOfMemory, s) ∧ Agrees s a ops) ∨
        ((s.step op).1 = (a.step op).1 ∧ Agrees (s.step op).2 (a.step op).2 ops))

instance decidableAgrees : ∀ s a ops, Decidable (Agrees s a ops)
  | s, a, [] => inferInstanceAs (Decidable (s.toArrayStream = a))
  | s, a, op :: ops =>
      have := decidableAgrees s a ops
      have := decidableAgrees (s.step op).2 (a.step op).2 ops
      inferInstanceAs (Decidable (s.toArrayStream = a ∧
        ((op.lacksMemory = true ∧ s.step op = (.error .outOfMemory, s) ∧ Agrees s a ops) ∨
          ((s.step op).1 = (a.step op).1 ∧ Agrees (s.step op).2 (a.step op).2 ops))))

variable {s : MemoryStream} {a : ArrayStream} {op : Operation} {ops : List Operation}

theorem ArrayStream.put_error {bytes : List UInt8} {e : Exception}
    (h : (a.put bytes).1 = .error e) : (a.put bytes).2 = a := by
  unfold put at h ⊢
  dsimp only at h ⊢
  split_ifs at h ⊢
  · rfl
  · rfl

theorem ArrayStream.resize_error {n : ℕ} {e : Exception} (h : (a.resize n).1 = .error e) :
    (a.resize n).2 = a := by
  unfold resize at h ⊢
  split_ifs at h ⊢
  rfl

theorem ArrayStream.moveTo_error {position : ℤ} {e : Exception}
    (h : (a.moveTo position).1 = .error e) : (a.moveTo position).2 = a := by
  unfold moveTo at h ⊢
  split_ifs at h ⊢
  rfl

/-- What throws leaves the array as it was. -/
theorem ArrayStream.step_error {e : Exception} (h : (a.step op).1 = .error e) :
    (a.step op).2 = a := by
  unfold step at h ⊢
  split_ifs at h ⊢ with hclosed
  · rfl
  · cases op with
    | write buffer offset count memory =>
        dsimp only at h ⊢
        cases hcheck : MemoryStream.checkArray buffer offset.toInt count.toInt with
        | error e => rfl
        | ok b =>
            rw [hcheck] at h
            exact put_error h
    | writeByte value memory => exact put_error h
    | read buffer offset count =>
        dsimp only at h ⊢
        cases hcheck : MemoryStream.checkArray buffer offset.toInt count.toInt with
        | error e => rfl
        | ok b =>
            rw [hcheck] at h
            cases h
    | readByte =>
        dsimp only at h ⊢
        cases hget : a.contents[a.position]? with
        | none => rfl
        | some b =>
            rw [hget] at h
            cases h
    | seek offset seekOrigin =>
        dsimp only at h ⊢
        split_ifs at h ⊢
        · rfl
        · cases seekOrigin with
          | fromBegin => exact moveTo_error h
          | fromCurrent => exact moveTo_error h
          | fromEnd => exact moveTo_error h
          | undefined => rfl
    | setPosition value =>
        dsimp only at h ⊢
        split_ifs at h ⊢
        rfl
    | setLength value memory =>
        dsimp only at h ⊢
        split_ifs at h ⊢
        · rfl
        · exact resize_error h
    | writeTo stream =>
        dsimp only at h ⊢
        split_ifs at h ⊢
        rfl
    | getPosition => rfl
    | getLength => rfl
    | toArray memory => rfl
    | dispose => cases h

/-- A closed stream stays as it is. -/
theorem dispose_refines (hinv : s.Inv) : Refines s .dispose := by
  have habstract : s.toArrayStream.step .dispose =
      (.ok .done, { s with isOpen := false }.toArrayStream) := if_neg fun hc => by cases hc.1
  exact refines_of_eq rfl habstract ⟨hinv.capacity, hinv.length_nonneg, hinv.length_le,
    hinv.length_lt, hinv.position_nonneg, hinv.position_lt⟩

theorem step_refines (hinv : s.Inv) (hmeets : s.Meets op) : Refines s op := by
  cases hopen : s.isOpen with
  | false =>
      cases hop : op.needsOpen with
      | true => exact closed_refines hinv hopen hop
      | false =>
          cases op
          case toArray memory => exact toArray_refines hinv
          case dispose => exact dispose_refines hinv
          all_goals exact absurd hop (by simp [Operation.needsOpen])
  | true =>
      cases op with
      | write buffer offset count memory => exact write_refines hinv hopen (hmeets hopen)
      | writeByte value memory =>
          exact writeByte_refines hinv hopen (hmeets hopen).1 (hmeets hopen).2
      | read buffer offset count => exact read_refines hinv hopen
      | readByte => exact readByte_refines hinv hopen
      | seek offset seekOrigin => exact seek_refines hinv hopen (hmeets hopen)
      | setPosition value => exact setPosition_refines hinv hopen
      | getPosition =>
          have habs : (s.toArrayStream.position : ℤ) = s.position :=
            Int.toNat_of_nonneg hinv.position_nonneg
          refine refines_of_eq (r := .ok (.number s.position)) ?_ ?_ hinv
          · rw [MemoryStream.step, MemoryStream.getPosition, if_pos hopen, origin, Int.sub_zero]
          · rw [ArrayStream.step, if_neg (open_step hopen _)]
            rw [habs]
      | getLength =>
          refine refines_of_eq (r := .ok (.number s.length)) ?_ ?_ hinv
          · rw [MemoryStream.step, MemoryStream.getLength, if_pos hopen, origin, Int.sub_zero]
          · rw [ArrayStream.step, if_neg (open_step hopen _)]
            rw [hinv.length_contents]
      | setLength value memory => exact setLength_refines hinv hopen
      | toArray memory => exact toArray_refines hinv
      | writeTo stream => exact writeTo_refines hinv hopen
      | dispose => exact dispose_refines hinv

theorem agrees_of_meets (hinv : s.Inv) (hmeets : AllMeet s ops) :
    Agrees s s.toArrayStream ops := by
  induction ops generalizing s with
  | nil => rfl
  | cons op ops ih =>
      obtain ⟨hinv', hcases⟩ := step_refines hinv hmeets.1
      have hnext := ih hinv' hmeets.2
      refine ⟨rfl, ?_⟩
      rcases hcases with ⟨hmemory, hfull⟩ | ⟨hresult, hstate⟩
      · rw [hfull] at hnext
        exact .inl ⟨hmemory, hfull, hnext⟩
      · rw [hstate] at hnext
        exact .inr ⟨hresult, hnext⟩

theorem Created.inv (h : Created s a) : s.Inv ∧ s.toArrayStream = a := by
  have hzero : (0 : ℤ) < 2 ^ 31 := by norm_num
  cases h with
  | new =>
      have hsize : ((List.replicate 256 (0 : UInt8)).length : ℤ) = 256 := by
        rw [List.length_replicate]
        rfl
      exact ⟨⟨hsize.symm, le_rfl, Int.le_of_lt (by decide : (0 : ℤ) < 256), hzero, le_rfl, hzero⟩,
        rfl⟩
  | ofBuffer buffer h =>
      refine ⟨⟨rfl, Int.natCast_nonneg _, le_rfl, ?_, le_rfl, hzero⟩, ?_⟩
      · change (buffer.length : ℤ) < 2 ^ 31
        omega
      · rw [MemoryStream.toArrayStream, MemoryStream.ofBuffer]
        simp [origin]

/-- In every run whose steps meet the condition, the stream is an array with a position, on which
an operation that throws changes nothing. -/
theorem memoryStream_refines (hcreated : Created s a) (hmeets : AllMeet s ops) :
    Agrees s a ops ∧ ∀ (a : ArrayStream) (op : Operation) (e : Exception),
      (a.step op).1 = .error e → (a.step op).2 = a :=
  ⟨hcreated.inv.2 ▸ agrees_of_meets hcreated.inv.1 hmeets, fun _ _ _ h => ArrayStream.step_error h⟩

theorem memoryStream_refines_sample :
    Agrees .new ⟨[], 0, none, true⟩ [.seek 2 .fromBegin, .writeByte 9 true, .toArray true] ∧
      ∀ (a : ArrayStream) (op : Operation) (e : Exception),
        (a.step op).1 = .error e → (a.step op).2 = a := by
  refine memoryStream_refines .new ⟨fun _ _ => ⟨nofun, nofun⟩, fun _ => ⟨by decide, .inr (.inr ?_)⟩,
    trivial, trivial⟩
  intro i _ hi
  have hlt : i < 2 := Int.ofNat_lt.mp hi
  interval_cases i <;> rfl

/-- A byte that was cut off is seen again by a write behind the end. -/
theorem not_agrees_stale :
    ¬Agrees .new ⟨[], 0, none, true⟩ [.writeByte 7 true, .setLength 0 true, .seek 1 .fromBegin,
      .writeByte 9 true, .toArray true] := by
  decide +kernel

end Claims

end TinyCLR.Framework.IO
