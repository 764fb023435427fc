import TinyCLR.HeapBlock.MemoryStream
import TinyCLR.Library.TransitionSystem

/-!
# Reading bits

A stream that stands within its buffers is a list of bits that are still to be read. A read takes
its bits off that list, or fails because there are not as many.
-/

namespace TinyCLR.HeapBlock.MemoryStream

/-- The bytes of a buffer that count. -/
def Buffer.bytes (b : Buffer) : List Nat :=
  match b.data with
  | none => (List.range b.length).map b.payload
  | some data => data.take b.length

/-- All bytes that count lie within the buffer. -/
def Buffer.Readable (b : Buffer) : Prop :=
  match b.data with
  | none => b.length ≤ payloadSize
  | some data => b.length ≤ data.length

theorem Buffer.Readable.length_bytes {b : Buffer} (h : b.Readable) : b.bytes.length = b.length := by
  unfold Readable at h
  unfold bytes
  cases hdata : b.data with
  | none => rw [List.length_map, List.length_range]
  | some data =>
      rw [hdata] at h
      exact List.length_take_of_le h

theorem Buffer.Readable.read {b : Buffer} (h : b.Readable) {i : Nat} (hi : i < b.length) :
    b.read i = b.bytes[i]? := by
  unfold Readable at h
  unfold Buffer.read bytes
  cases hdata : b.data with
  | none =>
      rw [hdata] at h
      simp only at h
      simp only [List.getElem?_map, List.getElem?_range hi, Option.map_some]
      rw [if_pos (by omega)]
  | some data => exact (List.getElem?_take_of_lt hi).symm

/-- The bits that are left: of the byte where the stream stands, of those behind it, and of the
buffers behind. -/
def remaining (s : MemoryStream) : List Bool :=
  match s.buffers.drop s.current with
  | [] => []
  | b :: rest =>
      (Bits.ofNat 8 (b.bytes.getD s.pos.toNat 0)).drop (8 - s.avail) ++
        Bits.ofBytes (b.bytes.drop (s.pos + 1).toNat ++ rest.flatMap Buffer.bytes)

/-- The stream stands within its buffers, on a byte or in front of the first. -/
structure Valid (s : MemoryStream) : Prop where
  readable : ∀ b ∈ s.buffers, b.Readable
  here : ∃ b rest, s.buffers.drop s.current = b :: rest ∧ -1 ≤ s.pos ∧ s.pos + 1 ≤ b.length
  avail_le : s.avail ≤ 8
  standing : 0 < s.avail → 0 ≤ s.pos

theorem remaining_eq {s : MemoryStream} {b : Buffer} {rest : List Buffer}
    (h : s.buffers.drop s.current = b :: rest) :
    s.remaining = (Bits.ofNat 8 (b.bytes.getD s.pos.toNat 0)).drop (8 - s.avail) ++
      Bits.ofBytes (b.bytes.drop (s.pos + 1).toNat ++ rest.flatMap Buffer.bytes) := by
  rw [remaining, h]

theorem readable_of_drop {s : MemoryStream} {b : Buffer} {rest : List Buffer} (hs : s.Valid)
    (h : s.buffers.drop s.current = b :: rest) : ∀ c ∈ b :: rest, c.Readable := fun c hc =>
  hs.readable c (List.mem_of_mem_drop (h ▸ hc))

theorem length_flatMap_bytes {rest : List Buffer} (h : ∀ b ∈ rest, b.Readable) :
    ((rest.flatMap Buffer.bytes).length : Int) * 8 =
      (rest.map fun b => (8 * b.length : Int)).sum := by
  induction rest with
  | nil => rfl
  | cons b rest ih =>
      have hb := (h b List.mem_cons_self).length_bytes
      have hrest := ih fun c hc => h c (List.mem_cons_of_mem b hc)
      rw [List.flatMap_cons, List.length_append, List.map_cons, List.sum_cons, ← hrest, hb]
      push_cast
      ring

/-- `BitsAvailable` is right, modulo 2^32. -/
theorem bitsAvailable_eq {s : MemoryStream} (hs : s.Valid) :
    s.bitsAvailable = Int32.ofInt s.remaining.length := by
  obtain ⟨b, rest, hdrop, hlow, hhigh⟩ := hs.here
  have hreadable := readable_of_drop hs hdrop
  have hb := (hreadable b List.mem_cons_self).length_bytes
  have hrest := length_flatMap_bytes fun c hc => hreadable c (List.mem_cons_of_mem b hc)
  have havail := hs.avail_le
  rw [bitsAvailable, remaining_eq hdrop, hdrop, List.map_cons, List.sum_cons, ← hrest,
    List.length_append, List.length_drop, Bits.length_ofNat, Bits.length_ofBytes,
    List.length_append, List.length_drop, hb]
  congr 1
  omega

/-! ## The next byte -/

/-- The search ends at the next byte there is, or behind all buffers. -/
theorem nextBuffer_spec {b : Buffer} {rest : List Buffer} (hreadable : ∀ c ∈ b :: rest, c.Readable)
    (current : Nat) {pos : Nat} (hpos : pos ≤ b.length) :
    (b.bytes.drop pos ++ rest.flatMap Buffer.bytes = [] ∧ ∃ current' pos',
      nextBuffer (b :: rest) current pos = some (.error .outOfRange, current', pos')) ∨
    ∃ b' rest' n pos', nextBuffer (b :: rest) current pos = some (.ok (), current + n, pos') ∧
      (b :: rest).drop n = b' :: rest' ∧ pos' < b'.length ∧
      b'.bytes.drop pos' ++ rest'.flatMap Buffer.bytes =
        b.bytes.drop pos ++ rest.flatMap Buffer.bytes := by
  induction rest generalizing b current pos with
  | nil =>
      have hlength := (hreadable b List.mem_cons_self).length_bytes
      by_cases hend : b.length ≤ pos
      · left
        refine ⟨?_, current + 1, pos, ?_⟩
        · rw [List.drop_eq_nil_of_le (by omega)]
          rfl
        · rw [nextBuffer, if_pos hend]
      · right
        refine ⟨b, [], 0, pos, ?_, rfl, by omega, rfl⟩
        rw [nextBuffer, if_neg hend]
        rfl
  | cons next rest ih =>
      have hlength := (hreadable b List.mem_cons_self).length_bytes
      by_cases hend : b.length ≤ pos
      · have hskip : nextBuffer (b :: next :: rest) current pos =
            nextBuffer (next :: rest) (current + 1) 0 := by
          rw [nextBuffer, if_pos hend]
        have hbytes : b.bytes.drop pos ++ (next :: rest).flatMap Buffer.bytes =
            next.bytes.drop 0 ++ rest.flatMap Buffer.bytes := by
          rw [List.drop_eq_nil_of_le (by omega), List.nil_append, List.flatMap_cons, List.drop_zero]
        rw [hskip, hbytes]
        rcases ih (fun c hc => hreadable c (List.mem_cons_of_mem b hc)) (current + 1)
          (Nat.zero_le _) with h | ⟨b', rest', n, pos', hnext, hdrop, hlt, heq⟩
        · exact .inl h
        · right
          refine ⟨b', rest', n + 1, pos', ?_, hdrop, hlt, heq⟩
          rw [hnext, Nat.add_right_comm, Nat.add_assoc]
      · right
        refine ⟨b, next :: rest, 0, pos, ?_, rfl, by omega, rfl⟩
        rw [nextBuffer, if_neg hend]
        rfl

theorem ofBytes_eq_nil {l : List Nat} (h : Bits.ofBytes l = []) : l = [] := by
  cases l with
  | nil => rfl
  | cons b l =>
      have hlength := congrArg List.length h
      rw [Bits.length_ofBytes, List.length_cons, List.length_nil] at hlength
      omega

/-- A turn of `ReadBits` comes to the next bits that are left. -/
theorem toReadable_spec {s : MemoryStream} (hs : s.Valid) :
    (s.remaining = [] ∧ ∃ s', s.toReadable = some (.error (.outOfRange, s'))) ∨
    ∃ s' : Standing, s.toReadable = some (.ok s') ∧ s'.toMemoryStream.Valid ∧
      s'.toMemoryStream.remaining = s.remaining := by
  by_cases havail : 0 < s.avail
  · right
    exact ⟨⟨s, havail⟩, by rw [toReadable, dif_pos havail], hs, rfl⟩
  · obtain ⟨b, rest, hdrop, hlow, hhigh⟩ := hs.here
    have hzero : s.avail = 0 := by omega
    have hremaining : s.remaining =
        Bits.ofBytes (b.bytes.drop (s.pos + 1).toNat ++ rest.flatMap Buffer.bytes) := by
      rw [remaining_eq hdrop, hzero, List.drop_eq_nil_of_le (by rw [Bits.length_ofNat]),
        List.nil_append]
    have hreadable := readable_of_drop hs hdrop
    rcases @nextBuffer_spec b rest hreadable s.current (s.pos + 1).toNat (by omega) with
      ⟨hempty, current', pos', hnext⟩ | ⟨b', rest', n, pos', hnext, hdrop', hlt, heq⟩
    · left
      refine ⟨by rw [hremaining, hempty, Bits.ofBytes_nil],
        { s with current := current', pos := pos', avail := 8 }, ?_⟩
      rw [toReadable, dif_neg havail, hdrop, hnext]
    · right
      have hbuffers : s.buffers.drop (s.current + n) = b' :: rest' := by
        rw [← List.drop_drop, hdrop, hdrop']
      refine ⟨⟨{ s with current := s.current + n, pos := pos', avail := 8 }, Nat.succ_pos 7⟩, ?_,
        ⟨hs.readable, ⟨b', rest', hbuffers, ?_, ?_⟩, le_rfl, fun _ => ?_⟩, ?_⟩
      · rw [toReadable, dif_neg havail, hdrop, hnext]
      · simp only
        omega
      · simp only
        omega
      · simp only
        omega
      · have hlength : pos' < b'.bytes.length := by
          rw [(hreadable b' (List.mem_of_mem_drop (hdrop' ▸ List.mem_cons_self))).length_bytes]
          exact hlt
        have hget : b'.bytes.getD pos' 0 = b'.bytes[pos'] := by
          rw [List.getD_eq_getElem?_getD, List.getElem?_eq_getElem hlength, Option.getD_some]
        rw [hremaining, ← heq, @remaining_eq
          { s with current := s.current + n, pos := pos', avail := 8 } b' rest' hbuffers]
        simp only [Int.toNat_natCast, hget, Nat.sub_self, List.drop_zero]
        have hnext' : ((pos' : Int) + 1).toNat = pos' + 1 := by omega
        rw [hnext', List.drop_eq_getElem_cons hlength, List.cons_append, Bits.ofBytes_cons]

/-- The byte where a stream stands, and what is left of it. -/
theorem byte_spec {s : MemoryStream} (hs : s.Valid) (havail : 0 < s.avail) :
    ∃ v tail, s.byte = some v ∧ ∀ k ≤ s.avail,
      ({ s with avail := s.avail - k } : MemoryStream).Valid ∧
      ({ s with avail := s.avail - k } : MemoryStream).remaining =
        (Bits.ofNat 8 v).drop (8 - (s.avail - k)) ++ tail := by
  obtain ⟨b, rest, hdrop, hlow, hhigh⟩ := hs.here
  have hreadable := readable_of_drop hs hdrop b List.mem_cons_self
  have hpos := hs.standing havail
  have hlt : s.pos.toNat < b.length := by omega
  have hlength := hreadable.length_bytes
  have hget : b.bytes[s.pos.toNat]? = some (b.bytes.getD s.pos.toNat 0) := by
    rw [List.getD_eq_getElem?_getD, List.getElem?_eq_getElem (by omega), Option.getD_some]
  have hbuffer : s.buffers[s.current]? = some b := by
    have hhead := congrArg List.head? hdrop
    rwa [List.head?_drop, List.head?_cons] at hhead
  refine ⟨b.bytes.getD s.pos.toNat 0,
    Bits.ofBytes (b.bytes.drop (s.pos + 1).toNat ++ rest.flatMap Buffer.bytes), ?_, ?_⟩
  · rw [byte, hbuffer, Option.bind_some, hreadable.read hlt, hget]
  · intro k hk
    have havail_le := hs.avail_le
    refine ⟨⟨hs.readable, ⟨b, rest, hdrop, hlow, hhigh⟩, ?_, fun _ => hpos⟩, remaining_eq hdrop⟩
    simp only
    omega

/-! ## Reads -/

/-- The loop of `ReadBits` takes the next bits, if there are as many. -/
theorem readLoop_spec {s : MemoryStream} (hs : s.Valid) (val bits : Nat) :
    (bits ≤ s.remaining.length → ∃ s', s.readLoop val bits =
      some (.ok (val ||| Bits.toNat (s.remaining.take bits), s')) ∧ s'.Valid ∧
        s'.remaining = s.remaining.drop bits) ∧
    (s.remaining.length < bits → ∃ s', s.readLoop val bits =
      some (.error (.outOfRange, s'))) := by
  induction bits using Nat.strong_induction_on generalizing s val with
  | _ bits ih =>
      rw [readLoop]
      by_cases hbits : bits = 0
      · rw [if_pos hbits]
        subst hbits
        refine ⟨fun _ => ⟨s, ?_, hs, List.drop_zero.symm⟩, fun h => absurd h (Nat.not_lt_zero _)⟩
        rw [List.take_zero]
        exact congrArg (fun v => some (Except.ok (v, s))) (Nat.or_zero val).symm
      · rw [if_neg hbits]
        rcases toReadable_spec hs with ⟨hempty, s', hread⟩ | ⟨s', hread, hs', hremaining⟩
        · rw [hread, hempty]
          refine ⟨fun h => ?_, fun _ => ⟨s', rfl⟩⟩
          rw [List.length_nil] at h
          omega
        · obtain ⟨v, tail, hbyte, hnext⟩ := byte_spec hs' s'.avail_pos
          have havail := hs'.avail_le
          have hpos := s'.avail_pos
          rw [hread]
          simp only [hbyte]
          generalize hinsert : min bits s'.avail = insert
          have hle : insert ≤ s'.avail := by omega
          obtain ⟨hvalid, hleft⟩ := hnext insert hle
          have hall := (hnext 0 (Nat.zero_le _)).2
          rw [Nat.sub_zero] at hall
          have hremaining' : s.remaining = (Bits.ofNat 8 v).drop (8 - s'.avail) ++ tail := by
            rw [← hremaining]
            exact hall
          have hlength : ((Bits.ofNat 8 v).drop (8 - s'.avail)).length = s'.avail := by
            rw [List.length_drop, Bits.length_ofNat]
            omega
          have hroom : insert ≤ s.remaining.length := by
            rw [hremaining', List.length_append]
            omega
          have hdrop : ({ s'.toMemoryStream with avail := s'.avail - insert } :
              MemoryStream).remaining = s.remaining.drop insert := by
            rw [hleft, hremaining', List.drop_append_of_le_length (by omega), List.drop_drop]
            congr 2
            omega
          have htake : Bits.toNat (s.remaining.take insert) =
              (v >>> (s'.avail - insert)) &&& (2 ^ insert - 1) := by
            rw [hremaining', List.take_append_of_le_length (by omega),
              Bits.toNat_window v hle havail]
          rw [← htake]
          obtain ⟨hok, herror⟩ := ih (bits - insert) (by omega) hvalid
            (val ||| Bits.toNat (s.remaining.take insert) <<< (bits - insert))
          rw [hdrop] at hok herror
          rw [List.length_drop] at hok herror
          constructor
          · intro h
            obtain ⟨s'', hloop, hvalid'', hrest⟩ := hok (by omega)
            refine ⟨s'', ?_, hvalid'', ?_⟩
            · have hsplit : s.remaining.take bits =
                  s.remaining.take insert ++ (s.remaining.drop insert).take (bits - insert) := by
                rw [← List.take_add]
                congr 1
                omega
              have hsecond : ((s.remaining.drop insert).take (bits - insert)).length =
                  bits - insert := by
                rw [List.length_take, List.length_drop]
                omega
              rw [hloop, hsplit, Bits.toNat_append, hsecond, Nat.or_assoc]
            · rw [hrest, List.drop_drop]
              congr 1
              omega
          · intro h
            exact herror (by omega)

theorem readLoop_ok {s : MemoryStream} (hs : s.Valid) {bits : Nat}
    (h : bits ≤ s.remaining.length) : ∃ s', s.readLoop 0 bits =
      some (.ok (Bits.toNat (s.remaining.take bits), s')) ∧ s'.Valid ∧
        s'.remaining = s.remaining.drop bits := by
  obtain ⟨s', hloop, hvalid, hrest⟩ := (readLoop_spec hs 0 bits).1 h
  rw [Nat.zero_or] at hloop
  exact ⟨s', hloop, hvalid, hrest⟩

/-- `ReadBits` takes the next bits, if there are as many. -/
theorem readBits_spec {s : MemoryStream} (hs : s.Valid) (bits : Nat) :
    (bits ≤ s.remaining.length → ∃ s', s.readBits bits =
      some (.ok (Bits.toNat (s.remaining.take bits), s')) ∧ s'.Valid ∧
        s'.remaining = s.remaining.drop bits) ∧
    (s.remaining.length < bits → ∃ s', s.readBits bits = some (.error (.outOfRange, s'))) := by
  rw [readBits]
  by_cases hbits : 32 < bits
  · rw [if_pos hbits]
    constructor
    · intro h
      obtain ⟨s₁, hhigh, hvalid₁, hrest₁⟩ := @readLoop_ok s hs (bits - 32) (by omega)
      obtain ⟨s₂, hlow, hvalid₂, hrest₂⟩ := @readLoop_ok s₁ hvalid₁ 32 (by
        rw [hrest₁, List.length_drop]
        omega)
      refine ⟨s₂, ?_, hvalid₂, ?_⟩
      · have hsplit : s.remaining.take bits =
            s.remaining.take (bits - 32) ++ (s.remaining.drop (bits - 32)).take 32 := by
          rw [← List.take_add]
          congr 1
          omega
        have hsecond : ((s.remaining.drop (bits - 32)).take 32).length = 32 := by
          rw [List.length_take, List.length_drop]
          omega
        rw [hhigh]
        simp only [hlow]
        rw [hsplit, Bits.toNat_append, hsecond, hrest₁]
      · rw [hrest₂, hrest₁, List.drop_drop]
        congr 1
        omega
    · intro h
      by_cases hfirst : bits - 32 ≤ s.remaining.length
      · obtain ⟨s₁, hhigh, hvalid₁, hrest₁⟩ := readLoop_ok hs hfirst
        obtain ⟨s₂, hlow⟩ := (readLoop_spec hvalid₁ 0 32).2 (by
          rw [hrest₁, List.length_drop]
          omega)
        refine ⟨s₂, ?_⟩
        rw [hhigh]
        simp only [hlow]
      · obtain ⟨s₁, hhigh⟩ := (readLoop_spec hs 0 (bits - 32)).2 (by omega)
        refine ⟨s₁, ?_⟩
        rw [hhigh]
  · rw [if_neg hbits]
    exact ⟨readLoop_ok hs, (readLoop_spec hs 0 bits).2⟩

/-- The bytes of a list of bits. -/
def bytesOf (bits : List Bool) (n : Nat) : List Nat :=
  (List.range n).map fun i => Bits.toNat ((bits.drop (8 * i)).take 8)

theorem bytesOf_succ (bits : List Bool) (n : Nat) :
    bytesOf bits (n + 1) = Bits.toNat (bits.take 8) :: bytesOf (bits.drop 8) n := by
  rw [bytesOf, List.range_succ_eq_map, List.map_cons, List.map_map]
  congr 1
  apply List.map_congr_left
  intro i _
  rw [Function.comp_apply, List.drop_drop]
  congr 3
  omega

theorem readArray_spec {s : MemoryStream} (hs : s.Valid) (bytes : Nat) :
    (8 * bytes ≤ s.remaining.length → ∃ s', s.readArray bytes =
      some (.ok (bytesOf s.remaining bytes, s')) ∧ s'.Valid ∧
        s'.remaining = s.remaining.drop (8 * bytes)) ∧
    (s.remaining.length < 8 * bytes → ∃ s', s.readArray bytes =
      some (.error (.outOfRange, s'))) := by
  induction bytes generalizing s with
  | zero => exact ⟨fun _ => ⟨s, rfl, hs, rfl⟩, fun h => absurd h (Nat.not_lt_zero _)⟩
  | succ bytes ih =>
      rw [readArray]
      by_cases hfirst : 8 ≤ s.remaining.length
      · obtain ⟨s₁, hread, hvalid₁, hrest₁⟩ := readLoop_ok hs hfirst
        obtain ⟨hok, herror⟩ := ih hvalid₁
        rw [hrest₁, List.length_drop] at hok herror
        have hlt : Bits.toNat (s.remaining.take 8) < 2 ^ 8 := by
          have hlt := Bits.toNat_lt (s.remaining.take 8)
          rwa [List.length_take_of_le hfirst] at hlt
        rw [hread]
        constructor
        · intro h
          obtain ⟨s₂, hread₂, hvalid₂, hrest₂⟩ := hok (by omega)
          refine ⟨s₂, ?_, hvalid₂, ?_⟩
          · simp only [hread₂]
            rw [Nat.mod_eq_of_lt hlt, bytesOf_succ]
          · rw [hrest₂, List.drop_drop]
            congr 1
            omega
        · intro h
          obtain ⟨s₂, hread₂⟩ := herror (by omega)
          refine ⟨s₂, ?_⟩
          simp only [hread₂]
      · obtain ⟨s₁, hread⟩ := (readLoop_spec hs 0 8).2 (by omega)
        refine ⟨fun h => absurd h (by omega), fun _ => ⟨s₁, ?_⟩⟩
        rw [hread]

end TinyCLR.HeapBlock.MemoryStream
