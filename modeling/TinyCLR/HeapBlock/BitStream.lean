import TinyCLR.HeapBlock.BitReading

/-!
# What is written is read back

A stream that is only written to holds the bits that were written, filled up to whole bytes with
zeros. It is read from its start, or from a copy of its bytes.
-/

namespace TinyCLR.HeapBlock.MemoryStream

/-! ## Writing -/

/-- The stream holds these bits, and stands behind the last of them. -/
structure Written (s : MemoryStream) (bits : List Bool) : Prop where
  own : ∀ b ∈ s.buffers, b.data = none ∧ b.length ≤ payloadSize
  last : ∃ front b, s.buffers = front ++ [b] ∧ s.current = front.length ∧ s.pos + 1 = b.length
  avail_le : s.avail ≤ 8
  standing : 0 < s.avail → 0 ≤ s.pos
  bits : Bits.ofBytes s.toArray = bits ++ List.replicate s.avail false

theorem modify_append {α : Type*} (front : List α) (b : α) (f : α → α) :
    (front ++ [b]).modify front.length f = front ++ [f b] := by
  induction front with
  | nil => rfl
  | cons a front ih =>
      rw [List.cons_append, List.length_cons, List.modify_succ_cons, ih, List.cons_append]

/-- The payload bytes of a buffer that count. -/
def Buffer.written (b : Buffer) : List Nat := (List.range b.length).map b.payload

theorem toArray_append (front : List Buffer) (b : Buffer) (current : Nat) (pos : Int) (avail : Nat) :
    ({ buffers := front ++ [b], current := current, pos := pos, avail := avail } :
      MemoryStream).toArray = front.flatMap Buffer.written ++ b.written := by
  rw [toArray, List.flatMap_append, List.flatMap_singleton]
  rfl

theorem written_update_last {b : Buffer} {i : Nat} (hi : i + 1 = b.length) (v : Nat) :
    ({ b with payload := Function.update b.payload i v } : Buffer).written =
      (List.range i).map b.payload ++ [v] := by
  rw [Buffer.written]
  simp only [← hi]
  rw [List.range_succ, List.map_append, List.map_singleton, Function.update_self]
  congr 1
  apply List.map_congr_left
  intro j hj
  have hlt := List.mem_range.mp hj
  exact Function.update_of_ne (by omega) _ _

/-- A new byte is eight zeros. -/
theorem written_appendByte {s : MemoryStream} {bits : List Bool} {front : List Buffer} {b : Buffer}
    (hown : ∀ c ∈ front ++ [b], c.data = none ∧ c.length ≤ payloadSize)
    (hbuffers : s.buffers = front ++ [b]) (hcurrent : s.current = front.length)
    (hpos : s.pos = b.length) (hroom : b.length < payloadSize)
    (hbits : Bits.ofBytes s.toArray = bits) : Written s.appendByte.toMemoryStream bits := by
  have hmodify : s.appendByte.buffers = front ++ [{ b with
      length := b.length + 1, payload := Function.update b.payload s.pos.toNat 0 }] := by
    show s.buffers.modify s.current _ = _
    rw [hbuffers, hcurrent, modify_append]
  have hnat : s.pos.toNat = b.length := by omega
  have hwritten : (Buffer.mk b.data (b.length + 1)
      (Function.update b.payload b.length 0)).written = b.written ++ [0] :=
    @written_update_last { b with length := b.length + 1 } b.length rfl 0
  have hold : s.toArray = front.flatMap Buffer.written ++ b.written := by
    rw [toArray, hbuffers, List.flatMap_append, List.flatMap_singleton]
    rfl
  refine ⟨?_, ⟨front, _, hmodify, hcurrent, ?_⟩, le_rfl, fun _ => ?_, ?_⟩
  · intro c hc
    rw [hmodify] at hc
    rcases List.mem_append.mp hc with hc | hc
    · exact hown c (List.mem_append_left _ hc)
    · rw [List.mem_singleton.mp hc]
      exact ⟨(hown b (List.mem_append_right _ (List.mem_singleton_self b))).1, hroom⟩
  · show s.pos + 1 = ((b.length + 1 : Nat) : Int)
    omega
  · show 0 ≤ s.pos
    omega
  · have hnew : s.appendByte.toMemoryStream.toArray =
        front.flatMap Buffer.written ++ (b.written ++ [0]) := by
      rw [toArray, hmodify, List.flatMap_append, List.flatMap_singleton, hnat, ← hwritten]
      rfl
    rw [hnew, ← List.append_assoc, ← hold, Bits.ofBytes_append, hbits]
    rfl

/-- A turn of `WriteBits` makes room without touching what was written. -/
theorem toWritable_spec {C : Cache} {s : MemoryStream} {s' : Standing} {bits : List Bool}
    (hs : Written s bits) (h : s.toWritable C = .ok s') : Written s'.toMemoryStream bits := by
  rw [toWritable] at h
  split at h
  · cases h
    exact hs
  · next havail =>
      have hzero : s.avail = 0 := by omega
      obtain ⟨front, b, hbuffers, hcurrent, hpos⟩ := hs.last
      have hbits := hs.bits
      rw [hzero, List.replicate_zero, List.append_nil] at hbits
      have hown := hs.own
      rw [hbuffers] at hown
      simp only at h
      split at h
      · next hroom =>
          cases h
          exact written_appendByte hown hbuffers hcurrent hpos (by omega) hbits
      · split at h
        · cases h
        · next s₁ hnew =>
            cases h
            rw [newBuffer] at hnew
            split at hnew
            · cases hnew
              refine @written_appendByte _ bits s.buffers
                { data := none, length := 0, payload := C.payload s.buffers.length }
                ?_ rfl rfl rfl (show 0 < payloadSize by decide) ?_
              · intro c hc
                rcases List.mem_append.mp hc with hc | hc
                · exact hs.own c hc
                · rw [List.mem_singleton.mp hc]
                  exact ⟨rfl, Nat.zero_le _⟩
              · rw [toArray_append, ← hbits]
                show Bits.ofBytes (s.buffers.flatMap Buffer.written ++ []) = _
                rw [List.append_nil]
                rfl
            · cases hnew

/-- Bits are put behind those that were written. -/
theorem putBits_spec {s : MemoryStream} {bits : List Bool} (hs : Written s bits)
    (havail : 0 < s.avail) (c : Nat) {k : Nat} (hk : k ≤ s.avail) :
    Written (s.putBits (c &&& (2 ^ k - 1)) k) (bits ++ Bits.ofNat k c) := by
  obtain ⟨front, b, hbuffers, hcurrent, hpos⟩ := hs.last
  have hstanding := hs.standing havail
  have havail_le := hs.avail_le
  generalize hv : b.payload s.pos.toNat ||| ((c &&& (2 ^ k - 1)) <<< (s.avail - k)) % 2 ^ 8 = v
  have hlast : s.pos.toNat + 1 = b.length := by omega
  have hmodify : (s.putBits (c &&& (2 ^ k - 1)) k).buffers =
      front ++ [{ b with payload := Function.update b.payload s.pos.toNat v }] := by
    show s.buffers.modify s.current _ = _
    rw [hbuffers, hcurrent, modify_append, hv]
  have hold : s.toArray = front.flatMap Buffer.written ++
      ((List.range s.pos.toNat).map b.payload ++ [b.payload s.pos.toNat]) := by
    have hwritten := written_update_last hlast (b.payload s.pos.toNat)
    rw [Function.update_eq_self] at hwritten
    rw [toArray, hbuffers, List.flatMap_append, List.flatMap_singleton, ← hwritten]
    rfl
  have hnew : (s.putBits (c &&& (2 ^ k - 1)) k).toArray = front.flatMap Buffer.written ++
      ((List.range s.pos.toNat).map b.payload ++ [v]) := by
    rw [toArray, hmodify, List.flatMap_append, List.flatMap_singleton,
      ← written_update_last hlast v]
    rfl
  have hbits := hs.bits
  rw [hold, ← List.append_assoc, Bits.ofBytes_append] at hbits
  have hbyte : Bits.ofBytes [b.payload s.pos.toNat] = Bits.ofNat 8 (b.payload s.pos.toNat) :=
    List.flatMap_singleton _ _
  rw [hbyte, ← List.take_append_drop (8 - s.avail) (Bits.ofNat 8 (b.payload s.pos.toNat)),
    ← List.append_assoc] at hbits
  have hlength : ((Bits.ofNat 8 (b.payload s.pos.toNat)).drop (8 - s.avail)).length = s.avail := by
    rw [List.length_drop, Bits.length_ofNat]
    omega
  obtain ⟨hfront, hzero⟩ := List.append_inj' hbits (by rw [hlength, List.length_replicate])
  refine ⟨?_, ⟨front, _, hmodify, hcurrent, hpos⟩, ?_, fun _ => hstanding, ?_⟩
  · intro d hd
    have hown := hs.own
    rw [hbuffers] at hown
    rw [hmodify] at hd
    rcases List.mem_append.mp hd with hd | hd
    · exact hown d (List.mem_append_left _ hd)
    · rw [List.mem_singleton.mp hd]
      exact hown b (List.mem_append_right _ (List.mem_singleton_self b))
  · show s.avail - k ≤ 8
    omega
  · rw [hnew, ← List.append_assoc, Bits.ofBytes_append]
    have hvbits : Bits.ofBytes [v] = (Bits.ofNat 8 (b.payload s.pos.toNat)).take (8 - s.avail) ++
        Bits.ofNat k c ++ List.replicate (s.avail - k) false := by
      rw [← Bits.ofNat_or _ c hk havail_le hzero, hv]
      exact List.flatMap_singleton _ _
    rw [hvbits, ← List.append_assoc, ← List.append_assoc, hfront]
    rfl

/-- The loop of `WriteBits` appends the lowest bits of the value. -/
theorem writeLoop_spec {C : Cache} {s s' : MemoryStream} {val n : Nat} {bits : List Bool}
    (hs : Written s bits) (hfull : s.avail < 8) (h : s.writeLoop C val n = .ok ((), s')) :
    Written s' (bits ++ Bits.ofNat n val) ∧ s'.avail < 8 := by
  induction n using Nat.strong_induction_on generalizing s bits with
  | _ n ih =>
      rw [writeLoop] at h
      by_cases hn : n = 0
      · rw [if_pos hn] at h
        cases h
        subst hn
        rw [Bits.ofNat_zero, List.append_nil]
        exact ⟨hs, hfull⟩
      · rw [if_neg hn] at h
        split at h
        · cases h
        · next s₁ hwritable =>
            have hs₁ := toWritable_spec hs hwritable
            have hpos := s₁.avail_pos
            have havail_le := hs₁.avail_le
            simp only at h
            generalize hinsert : min n s₁.avail = insert at h
            have hput := putBits_spec hs₁ hpos (val >>> (n - insert)) (k := insert) (by omega)
            have hless : (putBits s₁.toMemoryStream
                ((val >>> (n - insert)) &&& (2 ^ insert - 1)) insert).avail < 8 := by
              show s₁.avail - insert < 8
              omega
            obtain ⟨hdone, hfull'⟩ := ih (n - insert) (by omega) hput hless h
            refine ⟨?_, hfull'⟩
            have hsplit := Bits.ofNat_add insert (n - insert) val
            rw [Nat.add_sub_of_le (by omega)] at hsplit
            rw [hsplit, ← List.append_assoc]
            exact hdone

/-- Writes fail only for want of room. -/
theorem writeLoop_ok {C : Cache} (hroom : ∀ n, C.room n = true) (s : MemoryStream) (val n : Nat) :
    ∃ s', s.writeLoop C val n = .ok ((), s') := by
  induction n using Nat.strong_induction_on generalizing s with
  | _ n ih =>
      rw [writeLoop]
      by_cases hn : n = 0
      · exact ⟨s, if_pos hn⟩
      · have hwritable : ∃ s', s.toWritable C = .ok s' := by
          rw [toWritable]
          split
          · exact ⟨_, rfl⟩
          · simp only [newBuffer, hroom, if_true]
            split
            · exact ⟨_, rfl⟩
            · exact ⟨_, rfl⟩
        obtain ⟨s₁, hs₁⟩ := hwritable
        have hpos := s₁.avail_pos
        rw [if_neg hn, hs₁]
        exact ih (n - min n s₁.avail) (by omega) _

/-! ## Calls -/

/-- A call that writes, of a width that `WriteBits` is for. -/
inductive Write where
  | bits (res : UInt64) (n : Nat) (h : 0 < n ∧ n ≤ 64)
  | array (buf : List UInt8)

/-- A call that reads. -/
inductive Read where
  | bits (n : Nat) (h : 0 < n ∧ n ≤ 64)
  | array (bytes : Nat)

/-- The bits that a call appends. -/
def Write.payload : Write → List Bool
  | .bits res n _ => Bits.ofNat n res.toNat
  | .array buf => Bits.ofBytes (buf.map UInt8.toNat)

def write (C : Cache) (s : MemoryStream) : Write → Result Unit
  | .bits res n _ => s.writeBits C res.toNat n
  | .array buf => s.writeArray C (buf.map UInt8.toNat)

def writeAll (C : Cache) (s : MemoryStream) : List Write → Result Unit
  | [] => .ok ((), s)
  | w :: ws =>
      match s.write C w with
      | .error e => .error e
      | .ok (_, s) => s.writeAll C ws

def Read.width : Read → Nat
  | .bits n _ => n
  | .array bytes => 8 * bytes

/-- What a call returns for the bits that are left. -/
def Read.value (bits : List Bool) : Read → List Nat
  | .bits n _ => [Bits.toNat (bits.take n)]
  | .array bytes => bytesOf bits bytes

def read (s : MemoryStream) : Read → Option (Result (List Nat))
  | .bits n _ =>
      (s.readBits n).map fun r =>
        match r with
        | .error e => .error e
        | .ok (val, s) => .ok ([val], s)
  | .array bytes => s.readArray bytes

/-- The call that reads what a call has written, and what it is to return. -/
def Write.back : Write → Read
  | .bits _ n h => .bits n h
  | .array buf => .array buf.length

def Write.values : Write → List Nat
  | .bits res n _ => [res.toNat % 2 ^ n]
  | .array buf => buf.map UInt8.toNat

theorem read_spec {s : MemoryStream} (hs : s.Valid) (r : Read) :
    (r.width ≤ s.remaining.length → ∃ s', s.read r = some (.ok (r.value s.remaining, s')) ∧
      s'.Valid ∧ s'.remaining = s.remaining.drop r.width) ∧
    (s.remaining.length < r.width → ∃ s', s.read r = some (.error (.outOfRange, s'))) := by
  cases r with
  | bits n h =>
      obtain ⟨hok, herror⟩ := readBits_spec hs n
      constructor
      · intro hle
        obtain ⟨s', hread, hvalid, hrest⟩ := hok hle
        exact ⟨s', by rw [read, hread]; rfl, hvalid, hrest⟩
      · intro hlt
        obtain ⟨s', hread⟩ := herror hlt
        exact ⟨s', by rw [read, hread]; rfl⟩
  | array bytes => exact readArray_spec hs bytes

theorem writeArray_spec {C : Cache} {s s' : MemoryStream} {buf : List Nat} {bits : List Bool}
    (hs : Written s bits) (hfull : s.avail < 8) (h : s.writeArray C buf = .ok ((), s')) :
    Written s' (bits ++ Bits.ofBytes buf) ∧ s'.avail < 8 := by
  induction buf generalizing s bits with
  | nil =>
      cases h
      rw [Bits.ofBytes_nil, List.append_nil]
      exact ⟨hs, hfull⟩
  | cons data buf ih =>
      rw [writeArray] at h
      split at h
      · cases h
      · next s₁ hwrite =>
          obtain ⟨hs₁, hfull₁⟩ := writeLoop_spec hs hfull hwrite
          rw [Bits.ofBytes_cons, ← List.append_assoc]
          exact ih hs₁ hfull₁ h

theorem writeBits_spec {C : Cache} {s s' : MemoryStream} {res n : Nat} (hn : n ≤ 64)
    {bits : List Bool} (hs : Written s bits) (hfull : s.avail < 8)
    (h : s.writeBits C res n = .ok ((), s')) :
    Written s' (bits ++ Bits.ofNat n res) ∧ s'.avail < 8 := by
  have hmod : ∀ {k v : Nat}, k ≤ 32 → Bits.ofNat k (v % 2 ^ 32) = Bits.ofNat k v := by
    intro k v hk
    apply Bits.ofNat_congr
    intro i hi
    rw [Nat.testBit_mod_two_pow, decide_eq_true (by omega), Bool.true_and]
  rw [writeBits] at h
  split at h
  · next hlong =>
      split at h
      · cases h
      · next s₁ hwrite =>
          obtain ⟨hs₁, hfull₁⟩ := writeLoop_spec hs hfull hwrite
          obtain ⟨hs₂, hfull₂⟩ := writeLoop_spec hs₁ hfull₁ h
          refine ⟨?_, hfull₂⟩
          have hsplit := Bits.ofNat_add (n - 32) 32 res
          rw [Nat.sub_add_cancel hlong.le] at hsplit
          rw [hmod (by omega), hmod le_rfl, List.append_assoc, ← hsplit] at hs₂
          exact hs₂
  · next hshort =>
      have hdone := writeLoop_spec hs hfull h
      rwa [hmod (by omega)] at hdone

theorem writeAll_spec {C : Cache} {s s' : MemoryStream} {ws : List Write} {bits : List Bool}
    (hs : Written s bits) (hfull : s.avail < 8) (h : s.writeAll C ws = .ok ((), s')) :
    Written s' (bits ++ ws.flatMap Write.payload) ∧ s'.avail < 8 := by
  induction ws generalizing s bits with
  | nil =>
      cases h
      rw [List.flatMap_nil, List.append_nil]
      exact ⟨hs, hfull⟩
  | cons w ws ih =>
      rw [writeAll] at h
      split at h
      · cases h
      · next s₁ hwrite =>
          have hone : Written s₁ (bits ++ w.payload) ∧ s₁.avail < 8 := by
            cases w with
            | bits res n hn => exact writeBits_spec hn.2 hs hfull hwrite
            | array buf => exact writeArray_spec hs hfull hwrite
          rw [List.flatMap_cons, ← List.append_assoc]
          exact ih hone.1 hone.2 h

theorem writeAll_ok {C : Cache} (hroom : ∀ n, C.room n = true) (s : MemoryStream)
    (ws : List Write) : ∃ s', s.writeAll C ws = .ok ((), s') := by
  induction ws generalizing s with
  | nil => exact ⟨s, rfl⟩
  | cons w ws ih =>
      have hone : ∃ s', s.write C w = .ok ((), s') := by
        cases w with
        | bits res n h =>
            rw [write, writeBits]
            split
            · obtain ⟨s₁, hs₁⟩ := writeLoop_ok hroom s ((res.toNat >>> 32) % 2 ^ 32) (n - 32)
              rw [hs₁]
              exact writeLoop_ok hroom s₁ _ 32
            · exact writeLoop_ok hroom s _ n
        | array buf =>
            rw [write]
            generalize buf.map UInt8.toNat = bytes
            induction bytes generalizing s with
            | nil => exact ⟨s, rfl⟩
            | cons data bytes ihBytes =>
                obtain ⟨s₁, hs₁⟩ := writeLoop_ok hroom s data 8
                rw [writeArray, hs₁]
                exact ihBytes s₁
      obtain ⟨s₁, hs₁⟩ := hone
      rw [writeAll, hs₁]
      exact ih s₁

/-! ## Reading back -/

/-- A stream to read from: the one that was written, from its start, or one over its bytes. -/
def Opened (C : Cache) (ws : List Write) (s₀ : MemoryStream) : Prop :=
  ∃ s s', createInstance C none = .ok s ∧ s.writeAll C ws = .ok ((), s') ∧
    (s₀ = s'.rewind ∨ ∃ C', createInstance C' (some s'.toArray) = .ok s₀)

theorem written_createInstance {C : Cache} {s : MemoryStream}
    (h : createInstance C none = .ok s) : Written s [] ∧ s.avail < 8 := by
  rw [createInstance, newBuffer] at h
  split at h
  · cases h
  · next s₁ hnew =>
      split at hnew
      · cases hnew
        cases h
        refine ⟨⟨?_, ⟨[], _, rfl, rfl, rfl⟩, Nat.zero_le 8, fun h => absurd h (Nat.lt_irrefl 0),
          rfl⟩, Nat.succ_pos 7⟩
        intro b hb
        rw [List.mem_singleton.mp hb]
        exact ⟨rfl, Nat.zero_le _⟩
      · cases hnew

theorem bytes_of_own {b : Buffer} (h : b.data = none) : b.bytes = b.written := by
  rw [Buffer.bytes, h]
  rfl

/-- From its start, all that was written is left. -/
theorem Written.rewind {s : MemoryStream} {bits : List Bool} (hs : Written s bits) :
    s.rewind.Valid ∧ s.rewind.remaining = bits ++ List.replicate s.avail false := by
  obtain ⟨front, last, hbuffers, -, -⟩ := hs.last
  obtain ⟨b, rest, hcons⟩ : ∃ b rest, s.buffers = b :: rest := by
    cases front with
    | nil => exact ⟨last, [], hbuffers⟩
    | cons b front => exact ⟨b, front ++ [last], hbuffers⟩
  have hreadable : ∀ c ∈ s.buffers, c.Readable := by
    intro c hc
    obtain ⟨hdata, hlength⟩ := hs.own c hc
    rw [Buffer.Readable, hdata]
    exact hlength
  have hdrop : s.rewind.buffers.drop s.rewind.current = b :: rest := hcons
  refine ⟨⟨hreadable, ⟨b, rest, hdrop, le_rfl, ?_⟩, Nat.zero_le 8,
    fun h => absurd h (Nat.lt_irrefl 0)⟩, ?_⟩
  · show (-1 : Int) + 1 ≤ b.length
    omega
  · have hbytes : s.buffers.flatMap Buffer.bytes = s.toArray := by
      rw [toArray, List.flatMap_congr]
      intro c hc
      exact bytes_of_own (hs.own c hc).1
    rw [remaining_eq hdrop, ← hs.bits, ← hbytes, hcons, List.flatMap_cons]
    show (Bits.ofNat 8 _).drop 8 ++ Bits.ofBytes (b.bytes.drop 0 ++ _) = _
    rw [List.drop_eq_nil_of_le (by rw [Bits.length_ofNat]), List.drop_zero]
    rfl

/-- A stream over bytes has all their bits left. -/
theorem createInstance_over {C : Cache} {s : MemoryStream} {buf : List Nat}
    (h : createInstance C (some buf) = .ok s) : s.Valid ∧ s.remaining = Bits.ofBytes buf := by
  rw [createInstance, newBuffer] at h
  split at h
  · cases h
  · next s₁ hnew =>
      split at hnew
      · cases hnew
        cases h
        have hall : buf.take buf.length = buf := List.take_length
        refine ⟨⟨?_, ⟨_, [], rfl, le_rfl, ?_⟩, Nat.zero_le 8, fun h => absurd h (Nat.lt_irrefl 0)⟩,
          ?_⟩
        · intro b hb
          rw [List.mem_singleton.mp hb]
          exact le_rfl
        · show (-1 : Int) + 1 ≤ (buf.length : Nat)
          omega
        · show (Bits.ofNat 8 _).drop 8 ++ Bits.ofBytes ((buf.take buf.length).drop 0 ++ []) = _
          rw [List.drop_eq_nil_of_le (by rw [Bits.length_ofNat]), List.drop_zero, hall,
            List.append_nil]
          rfl
      · cases hnew

/-- An opened stream has left what was written, filled up to whole bytes. -/
theorem Opened.spec {C : Cache} {ws : List Write} {s₀ : MemoryStream} (h : Opened C ws s₀) :
    s₀.Valid ∧ ∃ pad < 8,
      s₀.remaining = ws.flatMap Write.payload ++ List.replicate pad false := by
  obtain ⟨s, s', hcreate, hwrite, hopen⟩ := h
  obtain ⟨hs, hfull⟩ := written_createInstance hcreate
  obtain ⟨hs', hfull'⟩ := writeAll_spec hs hfull hwrite
  rw [List.nil_append] at hs'
  rcases hopen with rfl | ⟨C', hcopy⟩
  · exact ⟨hs'.rewind.1, s'.avail, hfull', hs'.rewind.2⟩
  · obtain ⟨hvalid, hremaining⟩ := createInstance_over hcopy
    exact ⟨hvalid, s'.avail, hfull', hremaining.trans hs'.bits⟩

/-! ## Sessions -/

/-- A read, what it returned (`none` where it went behind the buffers), and `BitsAvailable` before
and after it. -/
structure Entry where
  request : Read
  before : Int32
  result : Option (Except HResult (List Nat))
  after : Int32

/-- A stream that is read, and the reads so far. -/
structure Session where
  stream : MemoryStream
  log : List Entry

def step (σ : Session) (r : Read) : Option Session :=
  let before := σ.stream.bitsAvailable
  match σ.stream.read r with
  | none => some { σ with log := σ.log ++ [⟨r, before, none, before⟩] }
  | some (.error (e, s)) =>
      some { stream := s, log := σ.log ++ [⟨r, before, some (.error e), s.bitsAvailable⟩] }
  | some (.ok (val, s)) =>
      some { stream := s, log := σ.log ++ [⟨r, before, some (.ok val), s.bitsAvailable⟩] }

/-- A read returns the next bits and counts them off, or fails because there are not as many. -/
def Entry.Follows (bits : List Bool) (e : Entry) : Prop :=
  if e.request.width ≤ bits.length then
    e.result = some (.ok (e.request.value bits)) ∧
      e.after = e.before - Int32.ofInt e.request.width
  else e.result = some (.error .outOfRange)

/-- The bits that are left after a read; one that fails leaves none. -/
def Entry.left (bits : List Bool) (e : Entry) : List Bool := bits.drop e.request.width

def Follows : List Bool → List Entry → Prop
  | _, [] => True
  | bits, e :: log => e.Follows bits ∧ Follows (e.left bits) log

def Entry.ok (e : Entry) : Bool :=
  match e.result with
  | some (.ok _) => true
  | _ => false

/-- No read has failed so far. -/
def NoneFailed (σ : Session) (_ : Read) : Prop := σ.log.all Entry.ok = true

theorem follows_append (bits : List Bool) (log : List Entry) (e : Entry) :
    Follows bits (log ++ [e]) ↔ Follows bits log ∧ e.Follows (log.foldl Entry.left bits) := by
  induction log generalizing bits with
  | nil => exact ⟨fun h => ⟨trivial, h.1⟩, fun h => ⟨h.2, trivial⟩⟩
  | cons f log ih =>
      rw [List.cons_append, Follows, Follows, ih, List.foldl_cons, and_assoc]

/-- What the log says, and where the stream stands as long as no read has failed. -/
structure Session.Inv (bits : List Bool) (σ : Session) : Prop where
  follows : Follows bits σ.log
  stream : σ.log.all Entry.ok = true →
    σ.stream.Valid ∧ σ.stream.remaining = σ.log.foldl Entry.left bits

theorem step_inv {bits : List Bool} {σ σ' : Session} {r : Read} (h : σ.Inv bits)
    (hok : NoneFailed σ r) (hstep : step σ r = some σ') : σ'.Inv bits := by
  obtain ⟨hvalid, hremaining⟩ := h.stream hok
  obtain ⟨hread, hfail⟩ := read_spec hvalid r
  rw [step] at hstep
  by_cases hroom : r.width ≤ σ.stream.remaining.length
  · obtain ⟨s', hs', hvalid', hremaining'⟩ := hread hroom
    rw [hs'] at hstep
    cases hstep
    have hcount : s'.bitsAvailable = σ.stream.bitsAvailable - Int32.ofInt r.width := by
      rw [bitsAvailable_eq hvalid, bitsAvailable_eq hvalid', hremaining', ← Int32.ofInt_sub,
        List.length_drop, Nat.cast_sub hroom]
    refine ⟨(follows_append bits σ.log _).mpr ⟨h.follows, ?_⟩, fun _ => ⟨hvalid', ?_⟩⟩
    · rw [Entry.Follows, ← hremaining, if_pos hroom]
      exact ⟨rfl, hcount⟩
    · rw [List.foldl_append, ← hremaining]
      exact hremaining'
  · obtain ⟨s', hs'⟩ := hfail (by omega)
    rw [hs'] at hstep
    cases hstep
    refine ⟨(follows_append bits σ.log _).mpr ⟨h.follows, ?_⟩, fun hall => ?_⟩
    · rw [Entry.Follows, ← hremaining, if_neg hroom]
    · rw [List.all_append, Bool.and_eq_true] at hall
      cases hall.2

/-- What a call reads of what a call has written. -/
theorem value_back (w : Write) (rest : List Bool) :
    w.back.width = w.payload.length ∧ w.back.value (w.payload ++ rest) = w.values := by
  cases w with
  | bits res n h =>
      have hlength : (Bits.ofNat n res.toNat).length = n := Bits.length_ofNat n res.toNat
      refine ⟨hlength.symm, ?_⟩
      show [Bits.toNat ((Bits.ofNat n res.toNat ++ rest).take n)] = [res.toNat % 2 ^ n]
      rw [List.take_append_of_le_length hlength.ge, List.take_of_length_le hlength.le,
        Bits.toNat_ofNat]
  | array buf =>
      refine ⟨by
        show 8 * buf.length = (Bits.ofBytes (buf.map UInt8.toNat)).length
        rw [Bits.length_ofBytes, List.length_map], ?_⟩
      show bytesOf (Bits.ofBytes (buf.map UInt8.toNat) ++ rest) buf.length = buf.map UInt8.toNat
      induction buf with
      | nil => rfl
      | cons b buf ih =>
          have hlength : (Bits.ofNat 8 b.toNat).length = 8 := Bits.length_ofNat 8 b.toNat
          rw [List.map_cons, Bits.ofBytes_cons, List.length_cons, bytesOf_succ, List.append_assoc,
            List.take_append_of_le_length hlength.ge, List.take_of_length_le hlength.le,
            Bits.toNat_ofNat, Nat.mod_eq_of_lt b.toNat_lt, List.drop_append_of_le_length hlength.ge,
            List.drop_eq_nil_of_le hlength.le, List.nil_append, ih]

/-- Reading back what is left returns what was written. -/
theorem run_back {s : MemoryStream} (hs : s.Valid) (ws : List Write) (rest : List Bool)
    (hremaining : s.remaining = ws.flatMap Write.payload ++ rest) (log : List Entry) :
    ∃ σ, TransitionSystem.run step ⟨s, log⟩ (ws.map Write.back) = some σ ∧
      σ.log.map Entry.result =
        log.map Entry.result ++ ws.map fun w => some (Except.ok w.values) := by
  induction ws generalizing s log with
  | nil => exact ⟨_, rfl, (List.append_nil _).symm⟩
  | cons w ws ih =>
      rw [List.flatMap_cons, List.append_assoc] at hremaining
      obtain ⟨hwidth, hvalue⟩ := value_back w (ws.flatMap Write.payload ++ rest)
      obtain ⟨s', hread, hvalid', hremaining'⟩ := (read_spec hs w.back).1 (by
        rw [hremaining, hwidth, List.length_append]
        omega)
      rw [hremaining, hvalue] at hread
      obtain ⟨σ, hrun, hlog⟩ := ih hvalid' (by
        rw [hremaining', hremaining, hwidth, List.drop_left])
        (log ++ [⟨w.back, s.bitsAvailable, some (.ok w.values), s'.bitsAvailable⟩])
      refine ⟨σ, ?_, ?_⟩
      · rw [List.map_cons, TransitionSystem.run_cons, step]
        simp only [hread]
        exact hrun
      · rw [hlog, List.map_append, List.append_assoc]
        rfl

/-- What was written is read back, and every read that does not follow one that has failed returns
the next bits and counts them off, or fails because it goes past the end. -/
theorem bit_stream_round_trip (C : Cache) (ws : List Write) (s₀ : MemoryStream)
    (h : Opened C ws s₀) :
    (∃ σ, TransitionSystem.run step ⟨s₀, []⟩ (ws.map Write.back) = some σ ∧
      σ.log.map Entry.result = ws.map fun w => some (Except.ok w.values)) ∧
    ∃ pad < 8, ∀ σ, TransitionSystem.Reachable step (· = ⟨s₀, []⟩) NoneFailed σ →
      Follows (ws.flatMap Write.payload ++ List.replicate pad false) σ.log := by
  obtain ⟨hvalid, pad, hpad, hremaining⟩ := h.spec
  refine ⟨run_back hvalid ws _ hremaining [], pad, hpad, fun σ hσ => ?_⟩
  refine (hσ.invariant (Session.Inv _) ?_ fun _ _ _ => step_inv).follows
  rintro _ rfl
  exact ⟨trivial, fun _ => ⟨hvalid, hremaining⟩⟩

def sampleCache : Cache := ⟨fun _ => true, fun _ _ => 0⟩

/-- A stream that was just created. -/
def emptyStream : MemoryStream := ⟨[⟨none, 0, fun _ => 0⟩], 0, -1, 0⟩

/-- 3 bits, two bytes and 41 bits. -/
theorem bit_stream_sample :
    ∃ s₀ σ, Opened sampleCache
        [.bits 13 3 (by decide), .array [200, 1], .bits 1099511627783 41 (by decide)] s₀ ∧
      TransitionSystem.run step ⟨s₀, []⟩
        [.bits 3 (by decide), .array 2, .bits 41 (by decide)] = some σ ∧
      σ.log.map Entry.result =
        [some (.ok [5]), some (.ok [200, 1]), some (.ok [1099511627783])] := by
  obtain ⟨s', hwrite⟩ := @writeAll_ok sampleCache (fun _ => rfl) emptyStream
    [.bits 13 3 (by decide), .array [200, 1], .bits 1099511627783 41 (by decide)]
  have hopened : Opened sampleCache
      [.bits 13 3 (by decide), .array [200, 1], .bits 1099511627783 41 (by decide)] s'.rewind :=
    ⟨emptyStream, s', rfl, hwrite, .inl rfl⟩
  obtain ⟨⟨σ, hrun, hlog⟩, -⟩ := bit_stream_round_trip sampleCache _ s'.rewind hopened
  exact ⟨s'.rewind, σ, hopened, hrun, hlog⟩

/-- The same stream, after a read has failed: it stands at the end of the list of buffers. -/
def spentStream : MemoryStream := { emptyStream with current := 1, pos := 0, avail := 8 }

def oneBit : Read := .bits 1 (by decide)

/-- An empty stream is read twice: the second read goes behind the buffers. -/
theorem not_bit_stream_sample :
    ¬∀ (C : Cache) (ws : List Write) (s₀ : MemoryStream), Opened C ws s₀ →
      ∃ pad < 8, ∀ σ, TransitionSystem.Reachable step (· = ⟨s₀, []⟩) (fun _ _ => True) σ →
        Follows (ws.flatMap Write.payload ++ List.replicate pad false) σ.log := by
  intro hall
  obtain ⟨pad, -, hfollows⟩ := hall sampleCache [] emptyStream
    ⟨emptyStream, emptyStream, rfl, rfl, .inl rfl⟩
  have hfirst : read emptyStream oneBit = some (.error (.outOfRange, spentStream)) := by
    simp [read, oneBit, readBits, readLoop, toReadable, nextBuffer, emptyStream, spentStream]
  have hsecond : read spentStream oneBit = none := by
    simp [read, oneBit, readBits, readLoop, toReadable, byte, emptyStream, spentStream]
  have hfirstStep : step ⟨emptyStream, []⟩ oneBit = some ⟨spentStream,
      [⟨oneBit, emptyStream.bitsAvailable, some (.error .outOfRange),
        spentStream.bitsAvailable⟩]⟩ := by
    rw [step, hfirst]
    rfl
  have hsecondStep : ∀ log, step ⟨spentStream, log⟩ oneBit = some ⟨spentStream,
      log ++ [⟨oneBit, spentStream.bitsAvailable, none, spentStream.bitsAvailable⟩]⟩ := by
    intro log
    rw [step, hsecond]
  have hstart : TransitionSystem.Reachable step (· = ⟨emptyStream, []⟩) (fun _ _ => True)
      ⟨emptyStream, []⟩ := .start rfl
  obtain ⟨-, hwild, -⟩ := hfollows _
    ((hstart.next trivial hfirstStep).next trivial (hsecondStep _))
  rw [Entry.Follows] at hwild
  split at hwild
  · cases hwild.1
  · cases hwild

end TinyCLR.HeapBlock.MemoryStream
