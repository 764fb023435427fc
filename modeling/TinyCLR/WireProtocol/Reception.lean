import Mathlib
import TinyCLR.WireProtocol.Process

/-!
# Reception of messages

Between the messages of a stream there may be noise that contains no marker. However the stream
is cut into pieces, the application sees the messages, each of them once. Of an arbitrary stream
it sees nothing whose CRC does not match.
-/

namespace TinyCLR.WireProtocol

/-! ## Synchronisation -/

theorem startsMarker_iff {header : List Byte} :
    startsMarker header = true ↔
      ∃ marker ∈ markers, header.take sizeofSignature <+: marker := by
  have htake : ∀ marker : List Byte, marker.length = sizeofSignature →
      ((header.take (min header.length sizeofSignature) ==
        marker.take (min header.length sizeofSignature)) = true ↔
          header.take sizeofSignature <+: marker) := by
    intro marker hlength
    rw [beq_iff_eq, List.prefix_iff_eq_take, List.length_take, Nat.min_comm sizeofSignature]
    have hmin : header.take (min header.length sizeofSignature) =
        header.take sizeofSignature := by
      rcases Nat.le_total header.length sizeofSignature with h | h
      · rw [Nat.min_eq_left h, List.take_of_length_le h, List.take_length]
      · rw [Nat.min_eq_right h]
    rw [hmin]
  rw [startsMarker, Bool.or_eq_true, htake _ (length_marker (.head _)),
    htake _ (length_marker (.tail _ (.head _)))]
  simp [markers]

theorem synch_suffix (header : List Byte) (size : Nat) : (synch header size).1 <:+ header := by
  induction header generalizing size with
  | nil => exact List.suffix_refl []
  | cons b bs ih =>
      rw [synch]
      split
      · exact List.suffix_refl _
      · exact (ih (size + 1)).trans (List.suffix_cons b bs)

theorem startsMarker_synch (header : List Byte) (size : Nat) :
    startsMarker (synch header size).1 = true := by
  induction header generalizing size with
  | nil => rfl
  | cons b bs ih =>
      rw [synch]
      split
      · assumption
      · exact ih (size + 1)

/-- No marker starts in the noise, also none that runs into what follows. -/
def Quiet (noise rest : List Byte) : Prop :=
  ∀ i < noise.length, ∀ marker ∈ markers, ¬ marker <+: (noise ++ rest).drop i

instance (noise rest : List Byte) : Decidable (Quiet noise rest) :=
  inferInstanceAs (Decidable (∀ i < noise.length, ∀ marker ∈ markers,
    ¬ marker <+: (noise ++ rest).drop i))

theorem Quiet.tail {b : Byte} {noise rest : List Byte} (h : Quiet (b :: noise) rest) :
    Quiet noise rest :=
  fun i hi => h (i + 1) (Nat.succ_lt_succ hi)

/-- The synchronisation throws away noise only, and it does not take noise for a marker. -/
theorem synch_noise {header pending noise rest : List Byte} (size : Nat)
    (happend : header ++ pending = noise ++ rest) (hquiet : Quiet noise rest)
    (hrest : rest = [] ∨ ∃ marker ∈ markers, marker <+: rest) :
    ∃ noise', (synch header size).1 ++ pending = noise' ++ rest ∧ Quiet noise' rest ∧
      (sizeofSignature ≤ (synch header size).1.length → noise' = []) := by
  induction header generalizing noise size with
  | nil =>
      exact ⟨noise, happend, hquiet, fun h => absurd (show sizeofSignature ≤ 0 from h) (by decide)⟩
  | cons b bs ih =>
      by_cases hstarts : startsMarker (b :: bs) = true
      · rw [synch, if_pos hstarts]
        refine ⟨noise, happend, hquiet, fun hlength => ?_⟩
        obtain ⟨marker, hmem, hprefix⟩ := startsMarker_iff.mp hstarts
        have heq : (b :: bs).take sizeofSignature = marker := by
          apply hprefix.eq_of_length
          rw [List.length_take, Nat.min_eq_left hlength, length_marker hmem]
          rfl
        have hmarker : marker <+: noise ++ rest := by
          rw [← heq, ← happend]
          exact (List.take_prefix _ _).trans (List.prefix_append _ _)
        cases noise with
        | nil => rfl
        | cons c cs => exact absurd hmarker (hquiet 0 (Nat.succ_pos _) marker hmem)
      · rw [synch, if_neg hstarts]
        cases noise with
        | nil =>
            rw [List.nil_append] at happend
            rcases hrest with rfl | ⟨marker, hmem, hprefix⟩
            · exact absurd happend (List.cons_ne_nil _ _)
            · refine absurd (startsMarker_iff.mpr ⟨marker, hmem, ?_⟩) hstarts
              have htake : (b :: bs).take sizeofSignature <+: rest := by
                rw [← happend]
                exact (List.take_prefix _ _).trans (List.prefix_append _ _)
              apply List.prefix_of_prefix_length_le htake hprefix
              rw [length_marker hmem]
              exact List.length_take_le _ _
        | cons c cs =>
            have htail : bs ++ pending = cs ++ rest := (List.cons.inj happend).2
            exact ih (size + 1) htail hquiet.tail

/-! ## Streams of messages -/

/-- The bytes on the wire: each message behind some noise, and noise at the end. -/
def stream : List (List Byte × Frame) → List Byte → List Byte
  | [], tail => tail
  | (noise, f) :: todo, tail => noise ++ (f.bytes ++ stream todo tail)

/-- None of the noise of a stream starts a marker. -/
def QuietStream : List (List Byte × Frame) → List Byte → Prop
  | [], tail => Quiet tail []
  | (noise, f) :: todo, tail =>
      Quiet noise (f.bytes ++ stream todo tail) ∧ QuietStream todo tail

/-- The calls by which the application gets a message. -/
def Frame.calls (f : Frame) : List Call :=
  [.processHeader f.header, .processPayload f.header f.payload]

def expectedCalls (todo : List (List Byte × Frame)) : List Call :=
  todo.flatMap fun entry => entry.2.calls

/-- A stream of valid messages in quiet noise. -/
structure Calm (todo : List (List Byte × Frame)) (tail : List Byte) : Prop where
  valid : ∀ entry ∈ todo, entry.2.Valid
  quiet : QuietStream todo tail

theorem Calm.rest {entry : List Byte × Frame} {todo : List (List Byte × Frame)}
    {tail : List Byte} (h : Calm (entry :: todo) tail) : Calm todo tail :=
  ⟨fun e he => h.valid e (List.mem_cons_of_mem _ he), h.quiet.2⟩

theorem Calm.empty_noise {entry : List Byte × Frame} {todo : List (List Byte × Frame)}
    {tail : List Byte} (h : Calm (entry :: todo) tail) : Calm (([], entry.2) :: todo) tail where
  valid := by
    intro e he
    rcases List.mem_cons.mp he with rfl | he
    · exact h.valid entry List.mem_cons_self
    · exact h.valid e (List.mem_cons_of_mem _ he)
  quiet := ⟨fun i hi => absurd hi (Nat.not_lt_zero i), h.quiet.2⟩

/-- The header buffer after a synchronisation: either it waits for the rest of the first marker,
or the first message starts in it. -/
theorem Calm.synch {todo : List (List Byte × Frame)} {tail header pending : List Byte} (size : Nat)
    (h : Calm todo tail) (happend : header ++ pending = stream todo tail) :
    ∃ todo' tail', (synch header size).1 ++ pending = stream todo' tail' ∧ Calm todo' tail' ∧
      expectedCalls todo' = expectedCalls todo ∧
      (sizeofSignature ≤ (WireProtocol.synch header size).1.length →
        ∃ f rest, todo' = ([], f) :: rest) := by
  match todo, h, happend with
  | [], h, happend =>
      rw [stream, ← List.append_nil tail] at happend
      obtain ⟨noise', happend', hquiet', hlong⟩ := synch_noise size happend h.quiet (.inl rfl)
      refine ⟨[], noise', by rw [happend', List.append_nil]; rfl, ⟨h.valid, hquiet'⟩, rfl, ?_⟩
      intro hlength
      obtain rfl := hlong hlength
      have hnil := (List.append_eq_nil_iff.mp happend').1
      rw [hnil] at hlength
      exact absurd hlength (by decide)
  | (noise, f) :: todo, h, happend =>
      obtain ⟨marker, hmem, hprefix⟩ := (h.valid _ List.mem_cons_self).startsWithMarker
      obtain ⟨noise', happend', hquiet', hlong⟩ := synch_noise size happend h.quiet.1
        (.inr ⟨marker, hmem, hprefix.trans (List.prefix_append _ _)⟩)
      refine ⟨(noise', f) :: todo, tail, happend', ⟨?_, hquiet', h.quiet.2⟩, rfl, ?_⟩
      · intro e he
        rcases List.mem_cons.mp he with rfl | he
        · exact h.valid (noise, f) List.mem_cons_self
        · exact h.valid e (List.mem_cons_of_mem _ he)
      · intro hlength
        exact ⟨f, todo, by rw [hlong hlength]⟩

/-! ## Runs of the receiver -/

/-- An application that accepts every header, and has a buffer for every payload. -/
structure ApplicationLayer.Accepts {σ : Type*} (app : ApplicationLayer σ) : Prop where
  accepted : ∀ c header, (app.processHeader c header).1.accepted = true
  buffer : ∀ c header, header.size ≠ 0 → (app.processHeader c header).1.buffer = true

namespace Reception

variable {σ : Type*} (app : ApplicationLayer σ) (clock : Clock) (r : Reception σ)

/-- The receiver after one pass; a call of `Process` goes on where the last one has returned. -/
def next : Reception σ := (r.step app clock).1

/-- No pass finds that the rest of a payload is late. -/
def NoPayloadTimeout : Prop :=
  ∀ k, ((next app clock)^[k] r).rxState = .readingPayload →
    ((next app clock)^[k] r).payloadLate clock = false

/-- A call of `Process` is a number of passes, the last of which returns. -/
theorem process_eq_iterate :
    ∃ k, r.process app clock = (next app clock)^[k + 1] r ∧
      (((next app clock)^[k] r).step app clock).2 = false := by
  induction r using process.induct app clock with
  | case1 r hagain ih =>
      obtain ⟨k, hprocess, hlast⟩ := ih
      rw [process, if_pos hagain]
      exact ⟨k + 1, hprocess, hlast⟩
  | case2 r hlast =>
      rw [process, if_neg hlast]
      exact ⟨0, rfl, eq_false_of_ne_true hlast⟩

theorem processes_eq_iterate (n : Nat) :
    ∃ k, (process app clock)^[n] r = (next app clock)^[k] r := by
  induction n with
  | zero => exact ⟨0, rfl⟩
  | succ n ih =>
      obtain ⟨k, hk⟩ := ih
      obtain ⟨j, hj, -⟩ := process_eq_iterate app clock ((next app clock)^[k] r)
      rw [Function.iterate_succ_apply', hk, hj, ← Function.iterate_add_apply]
      exact ⟨j + 1 + k, rfl⟩

/-- The receiver can do nothing without further bytes. -/
structure Blocked : Prop where
  size : r.size ≠ 0
  rxState : r.rxState = .waitingForHeader ∨ r.rxState = .readingHeader ∨
    r.rxState = .readingPayload

variable {r}

/-- A pass that returns has used up one moment without bytes. -/
theorem step_returns (h : (r.step app clock).2 = false) (hidle : r.rxState ≠ .idle) :
    (r.next app clock).Blocked ∧ (r.next app clock).phy.pieces = r.phy.pieces.tail := by
  revert h
  rw [next, step]
  split
  · next hstate => exact absurd hstate hidle
  · exact fun h => absurd h Bool.noConfusion
  · next hstate =>
      rw [waitForHeader]
      split
      · next phy hreceive =>
          obtain ⟨hsize, -, -, hpieces⟩ := PhysicalLayer.receiveBytes_none hreceive
          exact fun _ => ⟨⟨hsize, .inl hstate⟩, hpieces⟩
      · exact fun h => absurd h Bool.noConfusion
  · next hstate =>
      rw [readHeader]
      split
      · next phy hreceive =>
          obtain ⟨hsize, -, -, hpieces⟩ := PhysicalLayer.receiveBytes_none hreceive
          exact fun _ => ⟨⟨hsize, .inr (.inl hstate)⟩, hpieces⟩
      · exact fun h => absurd h Bool.noConfusion
  · exact fun h => absurd h Bool.noConfusion
  · next hstate =>
      rw [readPayload]
      split
      · exact fun h => absurd h Bool.noConfusion
      · split
        · next phy hreceive =>
            obtain ⟨hsize, -, -, hpieces⟩ := PhysicalLayer.receiveBytes_none hreceive
            exact fun _ => ⟨⟨hsize, .inr (.inr hstate)⟩, hpieces⟩
        · exact fun h => absurd h Bool.noConfusion
  · exact fun h => absurd h Bool.noConfusion

theorem next_pieces_le (r : Reception σ) :
    (r.next app clock).phy.pieces.length ≤ r.phy.pieces.length := by
  have hsome : ∀ {bytes : List Byte} {phy : PhysicalLayer},
      r.phy.receiveBytes r.size = (some bytes, phy) →
        phy.pieces.length ≤ r.phy.pieces.length := fun h =>
    (PhysicalLayer.receiveBytes_some h).2.2.2.2
  have hnone : ∀ {phy : PhysicalLayer}, r.phy.receiveBytes r.size = (none, phy) →
      phy.pieces.length ≤ r.phy.pieces.length := fun h => by
    rw [(PhysicalLayer.receiveBytes_none h).2.2.2, List.length_tail]
    exact Nat.sub_le _ _
  rw [next, step]
  split
  · exact Nat.le_refl _
  · exact (congrArg (fun phy => phy.pieces.length) (release_phy app r)).le
  · rw [waitForHeader]
    split
    · exact hnone ‹_›
    · exact hsome ‹_›
  · rw [readHeader]
    split
    · exact hnone ‹_›
    · exact hsome ‹_›
  · exact (congrArg (fun phy => phy.pieces.length) (completeHeader_phy app clock r)).le
  · rw [readPayload]
    split
    · exact Nat.le_refl _
    · split
      · exact hnone ‹_›
      · exact hsome ‹_›
  · exact (congrArg (fun phy => phy.pieces.length) (completePayload_phy app r)).le

/-! ## Messages in noise -/

/-- How far the reception of a stream of valid messages has come, when the application is to see
`all` in the end. -/
inductive Receiving (all : List Call) (r : Reception σ) : Prop where
  | initial (todo : List (List Byte × Frame)) (tail : List Byte) :
      r.rxState = .initial → Calm todo tail → r.phy.pending = stream todo tail →
      r.calls ++ expectedCalls todo = all → Receiving all r
  | waitingForHeader (todo : List (List Byte × Frame)) (tail : List Byte) :
      r.rxState = .waitingForHeader → r.payload = none → Calm todo tail →
      r.header ++ r.phy.pending = stream todo tail →
      r.header.length + r.size = sizeofPacket → r.header.length < sizeofSignature →
      r.calls ++ expectedCalls todo = all → Receiving all r
  | readingHeader (f : Frame) (todo : List (List Byte × Frame)) (tail : List Byte) :
      r.rxState = .readingHeader → r.payload = none → f.Valid → Calm todo tail →
      r.header ++ r.phy.pending = f.bytes ++ stream todo tail →
      r.header.length + r.size = sizeofPacket →
      r.calls ++ (f.calls ++ expectedCalls todo) = all → Receiving all r
  | completeHeader (f : Frame) (todo : List (List Byte × Frame)) (tail : List Byte) :
      r.rxState = .completeHeader → r.payload = none → f.Valid → Calm todo tail →
      r.header = f.header.bytes →
      r.phy.pending = f.payload ++ stream todo tail →
      r.calls ++ (f.calls ++ expectedCalls todo) = all → Receiving all r
  | readingPayload (f : Frame) (data : List Byte) (todo : List (List Byte × Frame))
      (tail : List Byte) :
      r.rxState = .readingPayload → f.Valid → Calm todo tail → r.header = f.header.bytes →
      r.payload = some data → data ++ r.phy.pending = f.payload ++ stream todo tail →
      data.length + r.size = f.payload.length →
      r.calls ++ (.processPayload f.header f.payload :: expectedCalls todo) = all →
      Receiving all r
  | completePayload (f : Frame) (todo : List (List Byte × Frame)) (tail : List Byte) :
      r.rxState = .completePayload → f.Valid → Calm todo tail → r.header = f.header.bytes →
      r.payload.getD [] = f.payload → (f.header.size ≠ 0 → r.payload ≠ none) →
      r.phy.pending = stream todo tail →
      r.calls ++ (.processPayload f.header f.payload :: expectedCalls todo) = all →
      Receiving all r

theorem packet_of_header {f : Frame} (h : f.Valid) (hheader : r.header = f.header.bytes) :
    r.packet = f.header := by
  rw [packet, hheader]
  exact f.header.ofBytes_bytes h.length_signature

variable {app clock} {all : List Call}

theorem Receiving.waitForHeader {todo : List (List Byte × Frame)} {tail : List Byte}
    (hstate : r.rxState = .waitingForHeader) (hnone : r.payload = none) (hcalm : Calm todo tail)
    (happend : r.header ++ r.phy.pending = stream todo tail)
    (hsize : r.header.length + r.size = sizeofPacket)
    (hshort : r.header.length < sizeofSignature) (hcalls : r.calls ++ expectedCalls todo = all) :
    Receiving all r.waitForHeader.1 := by
  rw [Reception.waitForHeader]
  split
  · next phy hreceive =>
      obtain ⟨-, hpending, -⟩ := PhysicalLayer.receiveBytes_none hreceive
      exact .waitingForHeader todo tail hstate hnone hcalm (hpending ▸ happend) hsize hshort hcalls
  · next bytes phy hreceive =>
      obtain ⟨hle, -, hpending, -⟩ := PhysicalLayer.receiveBytes_some hreceive
      have happend' : (r.header ++ bytes) ++ phy.pending = stream todo tail := by
        rw [List.append_assoc, hpending, happend]
      obtain ⟨todo', tail', happend', hcalm', hexpected, hlong⟩ :=
        hcalm.synch (r.size - bytes.length) happend'
      have hlength := synch_size (r.header ++ bytes) (r.size - bytes.length)
      rw [List.length_append] at hlength
      have hsize' : (synch (r.header ++ bytes) (r.size - bytes.length)).1.length +
          (synch (r.header ++ bytes) (r.size - bytes.length)).2 = sizeofPacket := by omega
      by_cases hsynched : sizeofSignature ≤
          (synch (r.header ++ bytes) (r.size - bytes.length)).1.length
      · obtain ⟨f, rest, rfl⟩ := hlong hsynched
        apply Receiving.readingHeader f rest tail'
        · exact if_pos (by omega)
        · exact hnone
        · exact hcalm'.valid _ List.mem_cons_self
        · exact hcalm'.rest
        · exact happend'
        · exact hsize'
        · rw [← hexpected] at hcalls
          exact hcalls
      · apply Receiving.waitingForHeader todo' tail'
        · exact if_neg (by omega)
        · exact hnone
        · exact hcalm'
        · exact happend'
        · exact hsize'
        · exact Nat.lt_of_not_le hsynched
        · rw [hexpected]
          exact hcalls

theorem Receiving.readHeader {f : Frame} {todo : List (List Byte × Frame)} {tail : List Byte}
    (hstate : r.rxState = .readingHeader) (hnone : r.payload = none) (hvalid : f.Valid)
    (hcalm : Calm todo tail)
    (happend : r.header ++ r.phy.pending = f.bytes ++ stream todo tail)
    (hsize : r.header.length + r.size = sizeofPacket)
    (hcalls : r.calls ++ (f.calls ++ expectedCalls todo) = all) :
    Receiving all r.readHeader.1 := by
  rw [Reception.readHeader]
  split
  · next phy hreceive =>
      obtain ⟨-, hpending, -⟩ := PhysicalLayer.receiveBytes_none hreceive
      exact .readingHeader f todo tail hstate hnone hvalid hcalm (hpending ▸ happend) hsize hcalls
  · next bytes phy hreceive =>
      obtain ⟨hle, -, hpending, -⟩ := PhysicalLayer.receiveBytes_some hreceive
      have happend' : (r.header ++ bytes) ++ phy.pending = f.bytes ++ stream todo tail := by
        rw [List.append_assoc, hpending, happend]
      have hlength : (r.header ++ bytes).length = r.header.length + bytes.length :=
        List.length_append
      by_cases hdone : r.size - bytes.length = 0
      · have hfull : (r.header ++ bytes).length = f.header.bytes.length := by
          rw [f.header.length_bytes hvalid.length_signature]
          omega
        rw [Frame.bytes, List.append_assoc f.header.bytes] at happend'
        obtain ⟨hheader, hpending'⟩ := List.append_inj happend' hfull
        apply Receiving.completeHeader f todo tail
        · exact if_pos hdone
        · exact hnone
        · exact hvalid
        · exact hcalm
        · exact hheader
        · exact hpending'
        · exact hcalls
      · apply Receiving.readingHeader f todo tail
        · exact if_neg hdone
        · exact hnone
        · exact hvalid
        · exact hcalm
        · exact happend'
        · show (r.header ++ bytes).length + (r.size - bytes.length) = sizeofPacket
          omega
        · exact hcalls

theorem completeHeader_of_accepted (hverify : r.packet.verifyHeader = true)
    (haccepted : (r.callProcessHeader app).1 = true) :
    r.completeHeader app clock = (r.callProcessHeader app).2.acceptHeader clock := by
  rw [completeHeader, if_pos hverify]
  exact if_pos haccepted

theorem Receiving.completeHeader_step {f : Frame} {todo : List (List Byte × Frame)}
    {tail : List Byte} (haccepts : app.Accepts) (hnone : r.payload = none) (hvalid : f.Valid)
    (hcalm : Calm todo tail) (hheader : r.header = f.header.bytes)
    (hpending : r.phy.pending = f.payload ++ stream todo tail)
    (hcalls : r.calls ++ (f.calls ++ expectedCalls todo) = all) :
    Receiving all (r.completeHeader app clock) := by
  have hpacket := packet_of_header hvalid hheader
  have hsize := hvalid.size
  have hcalls' : (r.callProcessHeader app).2.calls ++
      (.processPayload f.header f.payload :: expectedCalls todo) = all := by
    show (r.calls ++ [.processHeader r.packet]) ++ _ = all
    rw [← hcalls, hpacket, List.append_assoc]
    rfl
  have hcalled : (r.callProcessHeader app).2.packet = f.header := hpacket
  rw [completeHeader_of_accepted (hpacket ▸ hvalid.header) (haccepts.accepted _ _), acceptHeader,
    hcalled]
  split
  · next hzero =>
      rw [hzero] at hsize
      have hnil : f.payload = [] := List.length_eq_zero_iff.mp hsize.symm
      have hempty : (r.callProcessHeader app).2.payload.getD [] = f.payload := by
        show (if _ then some [] else r.payload : Option (List Byte)).getD [] = _
        rw [hnone, hnil]
        split <;> rfl
      rw [hnil] at hpending
      exact .completePayload f todo tail rfl hvalid hcalm hheader hempty
        (fun hne => absurd hzero hne) hpending hcalls'
  · next hne =>
      have hbuffer : (r.callProcessHeader app).2.payload = some [] :=
        if_pos (haccepts.buffer _ _ (hpacket ▸ hne))
      rw [if_neg (by simp [hbuffer])]
      exact .readingPayload f [] todo tail rfl hvalid hcalm hheader hbuffer hpending
        ((Nat.zero_add _).trans hsize) hcalls'

theorem Receiving.readPayload {f : Frame} {data : List Byte} {todo : List (List Byte × Frame)}
    {tail : List Byte} (hstate : r.rxState = .readingPayload) (hlate : r.payloadLate clock = false)
    (hvalid : f.Valid) (hcalm : Calm todo tail) (hheader : r.header = f.header.bytes)
    (hdata : r.payload = some data)
    (happend : data ++ r.phy.pending = f.payload ++ stream todo tail)
    (hsize : data.length + r.size = f.payload.length)
    (hcalls : r.calls ++ (.processPayload f.header f.payload :: expectedCalls todo) = all) :
    Receiving all (r.readPayload clock).1 := by
  rw [Reception.readPayload, if_neg (ne_true_of_eq_false hlate)]
  split
  · next phy hreceive =>
      obtain ⟨-, hpending, -⟩ := PhysicalLayer.receiveBytes_none hreceive
      exact .readingPayload f data todo tail hstate hvalid hcalm hheader hdata
        (hpending ▸ happend) hsize hcalls
  · next bytes phy hreceive =>
      obtain ⟨hle, -, hpending, -⟩ := PhysicalLayer.receiveBytes_some hreceive
      have happend' : (data ++ bytes) ++ phy.pending = f.payload ++ stream todo tail := by
        rw [List.append_assoc, hpending, happend]
      have hlength : (data ++ bytes).length = data.length + bytes.length := List.length_append
      by_cases hdone : r.size - bytes.length = 0
      · obtain ⟨hpayload, hpending'⟩ := List.append_inj happend' (by omega)
        apply Receiving.completePayload f todo tail
        · exact if_pos hdone
        · exact hvalid
        · exact hcalm
        · exact hheader
        · show r.payload.getD [] ++ bytes = f.payload
          rw [hdata, ← hpayload]
          rfl
        · exact fun _ => Option.some_ne_none _
        · exact hpending'
        · exact hcalls
      · apply Receiving.readingPayload f (data ++ bytes) todo tail
        · exact if_neg hdone
        · exact hvalid
        · exact hcalm
        · exact hheader
        · show some (r.payload.getD [] ++ bytes) = some (data ++ bytes)
          rw [hdata]
          rfl
        · exact happend'
        · show (data ++ bytes).length + (r.size - bytes.length) = f.payload.length
          omega
        · exact hcalls

theorem Receiving.completePayload_step {f : Frame} {todo : List (List Byte × Frame)}
    {tail : List Byte} (hvalid : f.Valid) (hcalm : Calm todo tail)
    (hheader : r.header = f.header.bytes) (hpayload : r.payload.getD [] = f.payload)
    (hbuffer : f.header.size ≠ 0 → r.payload ≠ none) (hpending : r.phy.pending = stream todo tail)
    (hcalls : r.calls ++ (.processPayload f.header f.payload :: expectedCalls todo) = all) :
    Receiving all (r.completePayload app) := by
  have hpacket := packet_of_header hvalid hheader
  have hverify : r.packet.verifyPayload r.payload = true := by
    rw [Packet.verifyPayload, hpacket, hpayload, if_neg fun h => hbuffer h.2 h.1]
    exact beq_iff_eq.mpr hvalid.payload
  have hcalls' : (r.calls ++ [.processPayload r.packet (r.payload.getD [])]) ++
      expectedCalls todo = all := by
    rw [← hcalls, hpacket, hpayload, List.append_assoc]
    rfl
  rw [Reception.completePayload, if_pos hverify]
  exact .initial todo tail rfl hcalm hpending hcalls'

/-- Every pass that does not find the payload late keeps the reception going. -/
theorem Receiving.next (haccepts : app.Accepts) (h : Receiving all r)
    (hlate : r.rxState = .readingPayload → r.payloadLate clock = false) :
    Receiving all (r.next app clock) := by
  cases h with
  | initial todo tail hstate hcalm hpending hcalls =>
      rw [Reception.next, step, hstate]
      apply Receiving.waitingForHeader todo tail rfl
      · show (r.release app).payload = none
        rw [release]
        split
        · assumption
        · rfl
      · exact hcalm
      · show [] ++ (r.release app).phy.pending = _
        rw [release_phy]
        exact hpending
      · exact Nat.zero_add _
      · exact Nat.succ_pos _
      · show (r.release app).calls ++ _ = all
        rw [release]
        split <;> exact hcalls
  | waitingForHeader todo tail hstate hnone hcalm happend hsize hshort hcalls =>
      rw [Reception.next, step, hstate]
      exact Receiving.waitForHeader hstate hnone hcalm happend hsize hshort hcalls
  | readingHeader f todo tail hstate hnone hvalid hcalm happend hsize hcalls =>
      rw [Reception.next, step, hstate]
      exact Receiving.readHeader hstate hnone hvalid hcalm happend hsize hcalls
  | completeHeader f todo tail hstate hnone hvalid hcalm hheader hpending hcalls =>
      rw [Reception.next, step, hstate]
      exact Receiving.completeHeader_step haccepts hnone hvalid hcalm hheader hpending hcalls
  | readingPayload f data todo tail hstate hvalid hcalm hheader hdata happend hsize hcalls =>
      rw [Reception.next, step, hstate]
      exact Receiving.readPayload hstate (hlate hstate) hvalid hcalm hheader hdata happend hsize
        hcalls
  | completePayload f todo tail hstate hvalid hcalm hheader hpayload hbuffer hpending hcalls =>
      rw [Reception.next, step, hstate]
      exact Receiving.completePayload_step hvalid hcalm hheader hpayload hbuffer hpending hcalls

/-- A receiver that is blocked at the end of the stream has passed on every message. -/
theorem Receiving.done (h : Receiving all r) (hblocked : r.Blocked) (hpending : r.phy.pending = []) :
    r.calls = all := by
  have hsize := hblocked.size
  have hstates := hblocked.rxState
  cases h with
  | initial todo tail hstate => simp [hstate] at hstates
  | waitingForHeader todo tail hstate hnone hcalm happend _ hshort hcalls =>
      rw [hpending, List.append_nil] at happend
      match todo, hcalm, happend, hcalls with
      | [], _, _, hcalls => simpa [expectedCalls] using hcalls
      | (noise, f) :: todo, hcalm, happend, _ =>
          have hlength := f.header.length_bytes (hcalm.valid _ List.mem_cons_self).length_signature
          have hheader := congrArg List.length happend
          simp only [stream, Frame.bytes, List.length_append, hlength] at hheader
          have : sizeofSignature < sizeofPacket := by decide
          omega
  | readingHeader f todo tail hstate hnone hvalid hcalm happend hsize' hcalls =>
      rw [hpending, List.append_nil] at happend
      have hlength := f.header.length_bytes hvalid.length_signature
      have hheader := congrArg List.length happend
      simp only [Frame.bytes, List.length_append, hlength] at hheader
      omega
  | completeHeader f todo tail hstate => simp [hstate] at hstates
  | readingPayload f data todo tail hstate hvalid hcalm hheader hdata happend hsize' hcalls =>
      rw [hpending, List.append_nil] at happend
      have hlength := congrArg List.length happend
      rw [List.length_append] at hlength
      omega
  | completePayload f todo tail hstate => simp [hstate] at hstates

theorem Receiving.iterate (haccepts : app.Accepts) (h : Receiving all r)
    (hclock : r.NoPayloadTimeout app clock) (k : Nat) :
    Receiving all ((Reception.next app clock)^[k] r) := by
  induction k with
  | zero => exact h
  | succ k ih =>
      rw [Function.iterate_succ_apply']
      exact ih.next haccepts (hclock k)

theorem Receiving.not_idle (h : Receiving all r) : r.rxState ≠ .idle := by
  cases h <;> simp [*]

/-- Each call of `Process` ends with the receiver blocked, and uses up one piece at least. -/
theorem Receiving.process_blocked (haccepts : app.Accepts) (h : Receiving all r)
    (hclock : r.NoPayloadTimeout app clock) :
    (r.process app clock).Blocked ∧
      (r.process app clock).phy.pieces.length ≤ r.phy.pieces.length - 1 := by
  obtain ⟨k, hprocess, hlast⟩ := process_eq_iterate app clock r
  have hstep := step_returns app clock hlast (h.iterate haccepts hclock k).not_idle
  have hpieces : ∀ j, ((Reception.next app clock)^[j] r).phy.pieces.length ≤
      r.phy.pieces.length := by
    intro j
    induction j with
    | zero => exact Nat.le_refl _
    | succ j ih =>
        rw [Function.iterate_succ_apply']
        exact (next_pieces_le app clock _).trans ih
  rw [hprocess, Function.iterate_succ_apply']
  refine ⟨hstep.1, ?_⟩
  rw [hstep.2, List.length_tail]
  exact Nat.sub_le_sub_right (hpieces k) 1

theorem NoPayloadTimeout.iterate (h : r.NoPayloadTimeout app clock) (k : Nat) :
    ((Reception.next app clock)^[k] r).NoPayloadTimeout app clock := by
  intro j
  rw [← Function.iterate_add_apply]
  exact h (j + k)

/-- Once `Process` has been called more often than there are pieces, the application has seen
the messages, and nothing else. -/
theorem Receiving.processes (haccepts : app.Accepts) (h : Receiving all r)
    (hclock : r.NoPayloadTimeout app clock) {n : Nat} (hn : r.phy.pieces.length < n) :
    ((process app clock)^[n] r).calls = all := by
  have hkeep : ∀ j, Receiving all ((process app clock)^[j] r) ∧
      ((process app clock)^[j] r).NoPayloadTimeout app clock := by
    intro j
    obtain ⟨k, hk⟩ := processes_eq_iterate app clock r j
    rw [hk]
    exact ⟨h.iterate haccepts hclock k, hclock.iterate k⟩
  have hpieces : ∀ j, ((process app clock)^[j] r).phy.pieces.length ≤
      r.phy.pieces.length - j := by
    intro j
    induction j with
    | zero => exact Nat.le_refl _
    | succ j ih =>
        have hone := ((hkeep j).1.process_blocked haccepts (hkeep j).2).2
        rw [Function.iterate_succ_apply']
        omega
  obtain ⟨m, rfl⟩ : ∃ m, n = m + 1 := ⟨n - 1, by omega⟩
  have hempty : ((process app clock)^[m + 1] r).phy.pieces = [] :=
    List.length_eq_zero_iff.mp (Nat.le_zero.mp ((hpieces (m + 1)).trans (by omega)))
  apply (hkeep (m + 1)).1.done
  · rw [Function.iterate_succ_apply']
    exact ((hkeep m).1.process_blocked haccepts (hkeep m).2).1
  · rw [PhysicalLayer.pending, hempty]
    rfl

theorem receiving_start {todo : List (List Byte × Frame)} {tail : List Byte}
    (hcalm : Calm todo tail) (controller : Controller σ) {pieces : List (List Byte)}
    (hpieces : pieces.flatten = stream todo tail) :
    Receiving (expectedCalls todo) (start controller pieces) :=
  .initial todo tail rfl hcalm hpieces (List.nil_append _)

end Reception

/-! ## Arbitrary streams -/

/-- What the application is called with has matching CRCs. -/
def Call.Certified : Call → Prop
  | .processHeader header => header.verifyHeader = true
  | .processPayload header payload =>
      header.verifyHeader = true ∧ payload.length = header.size.toNat ∧
        Support.computeCRC payload 0 = header.crcData
  | .transmitMessage _ => True

namespace Reception

variable {σ : Type*} {app : ApplicationLayer σ} {clock : Clock} {r : Reception σ}

/-- What holds between the passes, whatever the stream `bytes` is and however late its pieces
are. -/
structure Sound (bytes : List Byte) (r : Reception σ) : Prop where
  received : r.phy.received ++ r.phy.pending = bytes
  calls : ∀ call ∈ r.calls, call.Certified
  payload : r.rxState = .waitingForHeader ∨ r.rxState = .readingHeader ∨
    r.rxState = .completeHeader → r.payload = none
  waitingForHeader : r.rxState = .waitingForHeader →
    r.header <:+ r.phy.received ∧ startsMarker r.header = true
  readingPayload : r.rxState = .readingPayload → r.packet.verifyHeader = true ∧
    ∃ data, r.payload = some data ∧ data.length + r.size = r.packet.size.toNat
  completePayload : r.rxState = .completePayload → r.packet.verifyHeader = true ∧
    (r.payload.getD []).length = r.packet.size.toNat

variable {bytes : List Byte}

theorem Sound.of_initial (hreceived : r.phy.received ++ r.phy.pending = bytes)
    (hcalls : ∀ call ∈ r.calls, call.Certified) (hstate : r.rxState = .initial) :
    r.Sound bytes where
  received := hreceived
  calls := hcalls
  payload := by simp [hstate]
  waitingForHeader := by simp [hstate]
  readingPayload := by simp [hstate]
  completePayload := by simp [hstate]

theorem certified_append {calls : List Call} {call : Call} (h : ∀ c ∈ calls, c.Certified)
    (hcall : call.Certified) : ∀ c ∈ calls ++ [call], c.Certified := by
  intro c hc
  rcases List.mem_append.mp hc with hc | hc
  · exact h c hc
  · exact List.mem_singleton.mp hc ▸ hcall

theorem received_step {size : Nat} {phy : PhysicalLayer} {new : List Byte}
    (hreceive : r.phy.receiveBytes size = (some new, phy))
    (h : r.phy.received ++ r.phy.pending = bytes) : phy.received ++ phy.pending = bytes := by
  obtain ⟨-, -, hpending, hreceived, -⟩ := PhysicalLayer.receiveBytes_some hreceive
  rw [hreceived, List.append_assoc, hpending, h]

theorem received_none {size : Nat} {phy : PhysicalLayer}
    (hreceive : r.phy.receiveBytes size = (none, phy))
    (h : r.phy.received ++ r.phy.pending = bytes) : phy.received ++ phy.pending = bytes := by
  obtain ⟨-, hpending, hreceived, -⟩ := PhysicalLayer.receiveBytes_none hreceive
  rw [hreceived, hpending, h]

theorem sound_rejectHeader (hreceived : r.phy.received ++ r.phy.pending = bytes)
    (hcalls : ∀ call ∈ r.calls, call.Certified) : r.rejectHeader.Sound bytes := by
  rw [rejectHeader]
  split
  · exact .of_initial hreceived (certified_append hcalls trivial) rfl
  · exact .of_initial hreceived hcalls rfl

theorem sound_acceptHeader (hreceived : r.phy.received ++ r.phy.pending = bytes)
    (hcalls : ∀ call ∈ r.calls, call.Certified) (hverify : r.packet.verifyHeader = true)
    (hpayload : r.payload = none ∨ r.payload = some []) :
    (r.acceptHeader clock).Sound bytes := by
  have hempty : r.payload.getD [] = [] := by
    rcases hpayload with h | h <;> rw [h] <;> rfl
  rw [acceptHeader]
  split
  · next hzero =>
      exact
        { received := hreceived
          calls := hcalls
          payload := by simp
          waitingForHeader := by simp
          readingPayload := by simp
          completePayload := fun _ => ⟨hverify, by
            show (r.payload.getD []).length = r.packet.size.toNat
            rw [hempty, hzero]
            rfl⟩ }
  · split
    · exact .of_initial hreceived hcalls rfl
    · next hbuffer =>
        exact
          { received := hreceived
            calls := hcalls
            payload := by simp
            waitingForHeader := by simp
            readingPayload := fun _ =>
              ⟨hverify, [], hpayload.resolve_left hbuffer, Nat.zero_add _⟩
            completePayload := by simp }

/-- The last reading of the clock is the one that the message remembers. -/
def Ticked (clock : Clock) (r : Reception σ) : Prop :=
  r.rxState = .readingPayload → ∃ i, r.readings = i + 1 ∧ r.payloadTicks = clock.currentTicks i

theorem ticked_of_ne (h : r.rxState ≠ .readingPayload) : r.Ticked clock :=
  fun hstate => absurd hstate h

theorem ticked_acceptHeader : (r.acceptHeader clock).Ticked clock := by
  rw [acceptHeader]
  split
  · exact ticked_of_ne (by simp)
  · split
    · exact ticked_of_ne (by simp)
    · exact fun _ => ⟨_, rfl, rfl⟩

theorem Ticked.next (h : r.Ticked clock) : (r.next app clock).Ticked clock := by
  rw [Reception.next, step]
  split
  · exact h
  · exact ticked_of_ne (by simp [startHeader])
  · next hwait =>
      rw [waitForHeader]
      split
      · exact ticked_of_ne (by simp [hwait])
      · exact ticked_of_ne (by dsimp only; split <;> decide)
  · next hread =>
      rw [readHeader]
      split
      · exact ticked_of_ne (by simp [hread])
      · exact ticked_of_ne (by dsimp only; split <;> decide)
  · rw [completeHeader]
    split
    · show Ticked clock (if (r.callProcessHeader app).1 = true then _ else _)
      split
      · exact ticked_acceptHeader
      · exact ticked_of_ne (by simp)
    · exact ticked_of_ne (by simp)
  · rw [readPayload]
    split
    · exact ticked_of_ne (by simp)
    · split <;> exact fun _ => ⟨_, rfl, rfl⟩
  · exact ticked_of_ne (by simp [completePayload])

/-- Where the clock is read often enough, no payload is late. -/
theorem noPayloadTimeout_of_steady (app : ApplicationLayer σ)
    (h : ∀ i, clock.ticksToTime (clock.currentTicks (i + 1) - clock.currentTicks i) <
      payloadTimeout) (controller : Controller σ) (pieces : List (List Byte)) :
    (start controller pieces).NoPayloadTimeout app clock := by
  intro k
  have hticked : ((Reception.next app clock)^[k] (start controller pieces)).Ticked clock := by
    induction k with
    | zero => exact fun hstate => absurd hstate (by simp [start])
    | succ k ih =>
        rw [Function.iterate_succ_apply']
        exact ih.next
  intro hstate
  obtain ⟨i, hreadings, hticks⟩ := hticked hstate
  rw [payloadLate, hreadings, hticks]
  exact decide_eq_false (BitVec.not_le.mpr (h i))

/-- What the wait for a header leaves in the buffer. -/
theorem Sound.synched (h : r.Sound bytes) (hstate : r.rxState = .waitingForHeader) :
    r.waitForHeader.1.header <:+ r.waitForHeader.1.phy.received ∧
      startsMarker r.waitForHeader.1.header = true := by
  obtain ⟨hsuffix, hstarts⟩ := h.waitingForHeader hstate
  rw [waitForHeader]
  split
  · next phy hreceive =>
      obtain ⟨-, -, hreceived, -⟩ := PhysicalLayer.receiveBytes_none hreceive
      exact ⟨hreceived ▸ hsuffix, hstarts⟩
  · next new phy hreceive =>
      obtain ⟨-, -, -, hreceived, -⟩ := PhysicalLayer.receiveBytes_some hreceive
      obtain ⟨front, hfront⟩ := hsuffix
      have hlonger : r.header ++ new <:+ phy.received :=
        ⟨front, by rw [hreceived, ← hfront, List.append_assoc]⟩
      exact ⟨(synch_suffix _ _).trans hlonger, startsMarker_synch _ _⟩

theorem Sound.waitForHeader (h : r.Sound bytes) (hstate : r.rxState = .waitingForHeader) :
    r.waitForHeader.1.Sound bytes := by
  have hnone := h.payload (.inl hstate)
  have hsynched := h.synched hstate
  revert hsynched
  rw [Reception.waitForHeader]
  split
  · next phy hreceive =>
      intro hsynched
      exact
        { received := received_none hreceive h.received
          calls := h.calls
          payload := fun _ => hnone
          waitingForHeader := fun _ => hsynched
          readingPayload := by simp [hstate]
          completePayload := by simp [hstate] }
  · next new phy hreceive =>
      intro hsynched
      exact
        { received := received_step hreceive h.received
          calls := h.calls
          payload := fun _ => hnone
          waitingForHeader := fun _ => hsynched
          readingPayload := by
            intro hread
            exact absurd hread (by dsimp only; split <;> decide)
          completePayload := by
            intro hcomplete
            exact absurd hcomplete (by dsimp only; split <;> decide) }

theorem Sound.readHeader (h : r.Sound bytes) (hstate : r.rxState = .readingHeader) :
    r.readHeader.1.Sound bytes := by
  have hnone := h.payload (.inr (.inl hstate))
  rw [Reception.readHeader]
  split
  · next phy hreceive =>
      exact
        { received := received_none hreceive h.received
          calls := h.calls
          payload := fun _ => hnone
          waitingForHeader := by simp [hstate]
          readingPayload := by simp [hstate]
          completePayload := by simp [hstate] }
  · next new phy hreceive =>
      exact
        { received := received_step hreceive h.received
          calls := h.calls
          payload := fun _ => hnone
          waitingForHeader := fun hwait => absurd hwait (by dsimp only; split <;> decide)
          readingPayload := fun hread => absurd hread (by dsimp only; split <;> decide)
          completePayload := fun hcomplete => absurd hcomplete (by dsimp only; split <;> decide) }

theorem Sound.completeHeader_step (h : r.Sound bytes) (hstate : r.rxState = .completeHeader) :
    (r.completeHeader app clock).Sound bytes := by
  have hnone := h.payload (.inr (.inr hstate))
  rw [completeHeader]
  split
  · next hverify =>
      have hcalls : ∀ call ∈ (r.callProcessHeader app).2.calls, call.Certified :=
        certified_append h.calls hverify
      have hpayload : (r.callProcessHeader app).2.payload = none ∨
          (r.callProcessHeader app).2.payload = some [] := by
        by_cases hbuffer : (app.processHeader r.controller r.packet).1.buffer = true
        · exact .inr (if_pos hbuffer)
        · exact .inl ((if_neg hbuffer).trans hnone)
      show (if (r.callProcessHeader app).1 = true then _ else _ : Reception σ).Sound bytes
      split
      · exact sound_acceptHeader h.received hcalls hverify hpayload
      · exact sound_rejectHeader h.received hcalls
  · exact sound_rejectHeader h.received h.calls

theorem Sound.readPayload (h : r.Sound bytes) (hstate : r.rxState = .readingPayload) :
    (r.readPayload clock).1.Sound bytes := by
  obtain ⟨hverify, data, hdata, hsize⟩ := h.readingPayload hstate
  rw [Reception.readPayload]
  split
  · exact .of_initial h.received h.calls rfl
  · split
    · next phy hreceive =>
        exact
          { received := received_none hreceive h.received
            calls := h.calls
            payload := by simp [hstate]
            waitingForHeader := by simp [hstate]
            readingPayload := fun _ => ⟨hverify, data, hdata, hsize⟩
            completePayload := by simp [hstate] }
    · next new phy hreceive =>
        obtain ⟨hle, -⟩ := PhysicalLayer.receiveBytes_some hreceive
        have hlength : (r.payload.getD [] ++ new).length = data.length + new.length := by
          rw [hdata]
          exact List.length_append
        exact
          { received := received_step hreceive h.received
            calls := h.calls
            payload := by
              rintro (h | h | h) <;> exact absurd h (by dsimp only; split <;> decide)
            waitingForHeader := fun hwait => absurd hwait (by dsimp only; split <;> decide)
            readingPayload := by
              refine fun _ => ⟨hverify, _, rfl, ?_⟩
              show (r.payload.getD [] ++ new).length + (r.size - new.length) = r.packet.size.toNat
              omega
            completePayload := by
              intro hcomplete
              have hdone : r.size - new.length = 0 := by
                by_contra hne
                exact absurd ((if_neg hne).symm.trans hcomplete) (by decide)
              refine ⟨hverify, ?_⟩
              show (r.payload.getD [] ++ new).length = r.packet.size.toNat
              omega }

theorem Sound.completePayload_step (h : r.Sound bytes) (hstate : r.rxState = .completePayload) :
    (r.completePayload app).Sound bytes := by
  obtain ⟨hverify, hlength⟩ := h.completePayload hstate
  rw [Reception.completePayload]
  split
  · next hpayload =>
      have hcrc : Support.computeCRC (r.payload.getD []) 0 = r.packet.crcData := by
        rw [Packet.verifyPayload] at hpayload
        split at hpayload
        · exact absurd hpayload (by decide)
        · exact beq_iff_eq.mp hpayload
      exact .of_initial h.received (certified_append h.calls ⟨hverify, hlength, hcrc⟩) rfl
  · exact .of_initial h.received (certified_append h.calls trivial) rfl

theorem Sound.next (h : r.Sound bytes) : (r.next app clock).Sound bytes := by
  rw [Reception.next, step]
  split
  · exact h
  · have hphy := release_phy app r
    have hcalls : (r.release app).calls = r.calls := by
      rw [release]
      split <;> rfl
    have hnone : (r.release app).payload = none := by
      rw [release]
      split
      · assumption
      · rfl
    exact
      { received := by
          show (r.release app).phy.received ++ (r.release app).phy.pending = bytes
          rw [hphy]
          exact h.received
        calls := by
          show ∀ call ∈ (r.release app).calls, call.Certified
          rw [hcalls]
          exact h.calls
        payload := fun _ => hnone
        waitingForHeader := fun _ => ⟨List.nil_suffix, rfl⟩
        readingPayload := by simp [startHeader]
        completePayload := by simp [startHeader] }
  · exact h.waitForHeader ‹_›
  · exact h.readHeader ‹_›
  · exact h.completeHeader_step ‹_›
  · exact h.readPayload ‹_›
  · exact h.completePayload_step ‹_›

theorem sound_iterate (app : ApplicationLayer σ) (clock : Clock) (controller : Controller σ)
    (pieces : List (List Byte)) (k : Nat) :
    ((Reception.next app clock)^[k] (start controller pieces)).Sound pieces.flatten := by
  induction k with
  | zero => exact .of_initial (List.nil_append _) (by simp [start]) rfl
  | succ k ih =>
      rw [Function.iterate_succ_apply']
      exact ih.next

end Reception

/-! ## The receiver -/

open Reception

/-- A stream of messages in quiet noise reaches the application message by message, whatever its
pieces are. Of an arbitrary stream only certified contents reach it, and after each wait for a
header the buffer is the end of what has been received, from the beginning of a marker on. -/
theorem reception_sound {σ τ : Type*} (app : ApplicationLayer σ) (clock : Clock)
    (controller : Controller σ) (pieces : List (List Byte)) :
    (∀ (todo : List (List Byte × Frame)) (tail : List Byte),
      (∀ entry ∈ todo, Sent (σ := τ) entry.2) → QuietStream todo tail →
      pieces.flatten = stream todo tail → app.Accepts →
      (start controller pieces).NoPayloadTimeout app clock →
      ∀ n, pieces.length < n →
        ((process app clock)^[n] (start controller pieces)).calls =
          todo.flatMap fun entry => entry.2.calls) ∧
    ∀ k, ((Reception.next app clock)^[k] (start controller pieces)).phy.received <+:
        pieces.flatten ∧
      (∀ call ∈ ((Reception.next app clock)^[k] (start controller pieces)).calls,
        call.Certified) ∧
      (((Reception.next app clock)^[k] (start controller pieces)).rxState = .waitingForHeader →
        ((Reception.next app clock)^[k + 1] (start controller pieces)).header <:+
            ((Reception.next app clock)^[k + 1] (start controller pieces)).phy.received ∧
          ∃ marker ∈ markers, ((Reception.next app clock)^[k + 1]
            (start controller pieces)).header.take sizeofSignature <+: marker) := by
  constructor
  · intro todo tail hsent hquiet hpieces haccepts hclock n hn
    have hcalm : Calm todo tail := ⟨fun entry hentry => (hsent entry hentry).valid, hquiet⟩
    exact (receiving_start hcalm controller hpieces).processes haccepts hclock hn
  · intro k
    have hsound := sound_iterate app clock controller pieces k
    refine ⟨⟨_, hsound.received⟩, hsound.calls, fun hstate => ?_⟩
    have hsynched := hsound.synched hstate
    rw [Function.iterate_succ_apply', next, step, hstate]
    exact ⟨hsynched.1, startsMarker_iff.mp hsynched.2⟩

/-- An application that takes everything. -/
def sampleApp : ApplicationLayer Unit where
  processHeader := fun c _ => (⟨true, true⟩, c)
  processPayload := fun c _ _ => c
  release := id

/-- A clock that advances by a tick with each reading. -/
def sampleClock : Clock where
  currentTicks := fun n => BitVec.ofNat 64 n
  ticksToTime := id

def sampleController : Controller Unit := ⟨none, 7, ()⟩

/-- A message of three bytes, behind the noise `MSM`. -/
def sampleStream : List (List Byte × Frame) :=
  [([0x4D, 0x53, 0x4D], ⟨(sampleController.prepareRequest 5 0 [1, 2, 3]).1, [1, 2, 3]⟩)]

/-- The message in two pieces, with a pause after the first bytes of its marker. -/
def samplePieces : List (List Byte) :=
  [(stream sampleStream []).take 6, [], (stream sampleStream []).drop 6]

theorem reception_sound_sample :
    ((process sampleApp sampleClock)^[4] (start sampleController samplePieces)).calls =
      sampleStream.flatMap fun entry => entry.2.calls := by
  have hquiet : QuietStream sampleStream [] :=
    ⟨by decide +kernel, fun i hi => absurd hi (Nat.not_lt_zero i)⟩
  have haccepts : sampleApp.Accepts := ⟨fun _ _ => rfl, fun _ _ _ => rfl⟩
  refine (reception_sound (τ := Unit) sampleApp sampleClock sampleController samplePieces).1
    sampleStream [] (fun entry hentry => ?_) hquiet ?_ haccepts
    (noPayloadTimeout_of_steady sampleApp (fun i => ?_) _ _) 4 (by decide)
  · rw [List.mem_singleton.mp hentry]
    exact Sent.request sampleController 5 0 [1, 2, 3] (by decide) (by decide)
  · simp [samplePieces, List.take_append_drop]
  · show BitVec.ofNat 64 (i + 1) - BitVec.ofNat 64 i < payloadTimeout
    rw [BitVec.ofNat_add]
    have hone : BitVec.ofNat 64 i + BitVec.ofNat 64 1 - BitVec.ofNat 64 i = 1#64 := by
      rw [BitVec.add_comm, BitVec.add_sub_cancel]
    rw [hone]
    decide

end TinyCLR.WireProtocol
