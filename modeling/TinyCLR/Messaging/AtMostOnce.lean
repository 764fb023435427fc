import TinyCLR.Library.TransitionSystem
import TinyCLR.Messaging.Messaging

/-!
# Requests are handled once

A request that comes again is recognised by the reply that was cached when it was first answered,
and a reply by the mark on the request that it answers. The first holds as far as the reply
reached the cache and nothing else took its place there.
-/

namespace TinyCLR.Messaging

open WireProtocol TransitionSystem

/-! ## The property -/

def isRequest (flags : BitVec 32) : Bool :=
  !hasFlag flags Flags.nack && !hasFlag flags Flags.reply

/-- Each request was handled once, each repetition of it was and will be given the same answer, and
each cached request had one reply handled. -/
structure CLRMessaging.AtMostOnce (s : CLRMessaging) : Prop where
  invoked : ∀ cmd seq, s.log.count (.invoked cmd seq) ≤ 1
  answered : ∀ cmd seq flags payload flags' payload', .answered cmd seq flags payload ∈ s.log →
    .answered cmd seq flags' payload' ∈ s.log → flags' = flags ∧ payload' = payload
  repeated : ∀ header script now flags payload, isRequest header.flags = true →
    isExact header.flags = true → .answered header.cmd header.seq flags payload ∈ s.log →
    script.o.transmits payload = true → (s.processPayload now header script).log =
      .answered header.cmd header.seq flags payload :: s.log
  replied : ∀ serial, s.log.count (.replied serial) ≤ 1

/-! ## The condition -/

/-- An answer that is sent, and what becomes of it. -/
structure Answer where
  fSuccess : Bool
  fCritical : Bool
  payload : List Byte
  o : Outcome

namespace Answer

/-- The answer to a command that has no handler. -/
def refusal (o : Outcome) : Answer := ⟨false, false, [], o⟩

variable (a : Answer)

def flags : BitVec 32 := replyFlags false a.fSuccess a.fCritical ||| Flags.reply

def sent : List Byte := if a.fSuccess then a.payload else []

/-- The answer to a message of these flags comes into the cache. -/
def caches (flags : BitVec 32) : Bool :=
  isExact flags && a.o.transmits a.sent && a.o.allocated

end Answer

def firstReply : List Call → Option Answer
  | [] => none
  | .reply fSuccess fCritical payload o :: _ => some ⟨fSuccess, fCritical, payload, o⟩
  | .send _ _ _ _ :: calls => firstReply calls

/-- The one answer that a message gets: the first of its handler, else the dispatcher's. -/
def Script.answer (script : Script) : Answer :=
  (firstReply script.calls).getD ⟨script.ret, false, [], script.o⟩

/-- A message that is sent unasked does not pass for a reply. -/
def Call.plain : Call → Bool
  | .reply _ _ _ _ => true
  | .send _ flags _ _ => !hasFlag flags Flags.reply

namespace CLRMessaging

variable (s : CLRMessaging)

def handles (header : Packet) : Bool :=
  (if hasFlag header.flags Flags.reply then s.lookupReplies
    else s.lookupRequests).flatten.contains header.cmd

def answer (header : Packet) (script : Script) : Answer :=
  if s.handles header then script.answer else .refusal script.o

def cachesKey (header : Packet) : Bool :=
  s.cacheSubordinate.any fun c => c.key == (header.cmd, header.seq)

def hasAnswered (header : Packet) : Bool :=
  s.log.any fun
    | .answered cmd seq _ _ => (cmd, seq) == (header.cmd, header.seq)
    | _ => false

/-- The request that a reply answers has had its reply. -/
def isSettled (header : Packet) : Bool :=
  (s.cacheMaster.find? fun c => c.header.cmd == header.cmd && c.header.seq == header.seqReply).any
    (·.processed)

/-- The answer to a request that is handled comes into the cache. -/
def KeepsAnswer (header : Packet) (script : Script) : Prop :=
  s.cachesKey header = false → s.handles header = true →
    (s.answer header script).caches header.flags = true

/-- The answer to a reply does not take the place of an answer to a request. -/
def SparesAnswers (header : Packet) (script : Script) : Prop :=
  s.isSettled header = false → (s.answer header script).caches header.flags = true →
    s.cachesKey header = false ∧ s.hasAnswered header = false

/-- The condition on a step, in the state in which it is taken. -/
def Admitted : Action → Prop
  | .receive header script _ => script.calls.all Call.plain = true ∧
      (hasFlag header.flags Flags.nack = false → isExact header.flags = true →
        if hasFlag header.flags Flags.reply then s.SparesAnswers header script
        else s.KeepsAnswer header script)
  | .send _ flags _ _ _ => hasFlag flags Flags.reply = false
  | .purge _ => True

instance (header : Packet) (script : Script) : Decidable (s.KeepsAnswer header script) :=
  inferInstanceAs (Decidable (_ → _ → _))

instance (header : Packet) (script : Script) : Decidable (s.SparesAnswers header script) :=
  inferInstanceAs (Decidable (_ → _ → _ ∧ _))

instance : (a : Action) → Decidable (s.Admitted a)
  | .receive header script _ => inferInstanceAs (Decidable (_ ∧ (_ → _ →
      if hasFlag header.flags Flags.reply then s.SparesAnswers header script
      else s.KeepsAnswer header script)))
  | .send _ _ _ _ _ => inferInstanceAs (Decidable (_ = _))
  | .purge _ => .isTrue trivial

end CLRMessaging

/-- An endpoint as it is initialised. -/
def Initial (s : CLRMessaging) : Prop :=
  s.cacheSubordinate = [] ∧ s.cacheMaster = [] ∧ s.log = []

/-! ## The flags of an answer -/

theorem hasFlag_or (flags flags' flag : BitVec 32) :
    hasFlag (flags ||| flags') flag = (hasFlag flags flag || hasFlag flags' flag) := by
  simp only [hasFlag, bne, BitVec.and_or_distrib_right]
  rw [Bool.eq_iff_iff]
  simp [BitVec.or_eq_zero_iff]
  tauto

theorem hasFlag_answer (a : Answer) :
    hasFlag a.flags Flags.noCaching = false ∧ hasFlag a.flags Flags.reply = true := by
  simp only [Answer.flags]
  cases a.fSuccess <;> cases a.fCritical <;> decide

theorem isExact_iff {flags : BitVec 32} : isExact flags = true ↔
    hasFlag flags Flags.nonCritical = false ∧ hasFlag flags Flags.noCaching = false := by
  simp [isExact]

/-! ## The two caches -/

/-- What a cached reply is recognised by, and what it answers. -/
def CachedMessage.face (c : CachedMessage) :
    (BitVec 32 × BitVec 16) × BitVec 32 × List Byte :=
  (c.key, c.header.flags, c.payload)

abbrev Face := (BitVec 32 × BitVec 16) × BitVec 32 × List Byte

/-- A request that is answered so is answered so again. -/
def Remembers (known : BitVec 32 → Bool) (faces : List Face) (key : BitVec 32 × BitVec 16)
    (answer : BitVec 32 × List Byte) : Prop :=
  (key, answer) ∈ faces ∨
    key ∉ faces.map Prod.fst ∧ known key.1 = false ∧ ∀ o, answer = ((Answer.refusal o).flags, [])

/-- The replies that were given: what the log says agrees with the cache. -/
structure Given (known : BitVec 32 → Bool) (faces : List Face) (log : List Event) : Prop where
  keys : (faces.map Prod.fst).Nodup
  once : ∀ cmd seq, log.count (.invoked cmd seq) ≤ 1
  invoked : ∀ cmd seq, .invoked cmd seq ∈ log → (cmd, seq) ∈ faces.map Prod.fst
  answered : ∀ cmd seq flags payload, .answered cmd seq flags payload ∈ log →
    Remembers known faces (cmd, seq) (flags, payload)

/-- The requests that were made: those with a reply that was handled are marked. -/
structure Made (cache : List CachedMessage) (next : Nat) (log : List Event) : Prop where
  serials : (cache.map (·.serial)).Nodup
  fresh : ∀ c ∈ cache, c.serial < next
  used : ∀ serial, .replied serial ∈ log → serial < next
  marked : ∀ c ∈ cache, .replied c.serial ∈ log → c.processed = true
  once : ∀ serial, log.count (.replied serial) ≤ 1

section Given

variable {known : BitVec 32 → Bool} {faces faces' : List Face} {log : List Event}
  {cmd : BitVec 32} {seq : BitVec 16} {flags : BitVec 32} {payload : List Byte}
  {key : BitVec 32 × BitVec 16} {answer answer' : BitVec 32 × List Byte}

theorem eq_of_mem_faces (hkeys : (faces.map Prod.fst).Nodup) (h : (key, answer) ∈ faces)
    (h' : (key, answer') ∈ faces) : answer' = answer := by
  have := List.inj_on_of_nodup_map hkeys h' h rfl
  exact (Prod.mk.inj this).2

theorem Remembers.unique (hkeys : (faces.map Prod.fst).Nodup)
    (h : Remembers known faces key answer) (h' : Remembers known faces key answer') :
    answer' = answer := by
  rcases h with h | ⟨hkey, -, h⟩ <;> rcases h' with h' | ⟨hkey', -, h'⟩
  · exact eq_of_mem_faces hkeys h h'
  · exact absurd (List.mem_map_of_mem h) hkey'
  · exact absurd (List.mem_map_of_mem h') hkey
  · exact (h' ⟨true, true, true⟩).trans (h ⟨true, true, true⟩).symm

theorem Given.perm (h : Given known faces log) (hperm : faces'.Perm faces) :
    Given known faces' log where
  keys := (hperm.map Prod.fst).nodup_iff.mpr h.keys
  once := h.once
  invoked cmd seq hmem := ((hperm.map Prod.fst).mem_iff).mpr (h.invoked cmd seq hmem)
  answered cmd seq flags payload hmem := by
    rcases h.answered cmd seq flags payload hmem with hface | ⟨hkey, hrest⟩
    · exact .inl (hperm.mem_iff.mpr hface)
    · exact .inr ⟨fun hmem => hkey ((hperm.map Prod.fst).mem_iff.mp hmem), hrest⟩

/-- A reply comes into the cache. -/
theorem Given.cons (h : Given known faces log) (hfresh : key ∉ faces.map Prod.fst)
    (hheld : ∀ answer', .answered key.1 key.2 answer'.1 answer'.2 ∈ log → answer' = answer) :
    Given known ((key, answer) :: faces) log where
  keys := List.nodup_cons.mpr ⟨hfresh, h.keys⟩
  once := h.once
  invoked cmd seq hmem := List.mem_cons_of_mem _ (h.invoked cmd seq hmem)
  answered cmd seq flags payload hmem := by
    by_cases hkey : (cmd, seq) = key
    · subst hkey
      exact .inl (hheld (flags, payload) hmem ▸ List.mem_cons_self)
    · rcases h.answered cmd seq flags payload hmem with hface | ⟨hout, hrest⟩
      · exact .inl (List.mem_cons_of_mem _ hface)
      · exact .inr ⟨by simp [hkey, hout], hrest⟩

theorem Given.record_invoked (h : Given known faces log) (hkey : (cmd, seq) ∈ faces.map Prod.fst)
    (hnew : .invoked cmd seq ∉ log) : Given known faces (.invoked cmd seq :: log) where
  keys := h.keys
  once cmd' seq' := by
    by_cases heq : Event.invoked cmd seq = .invoked cmd' seq'
    · rw [← heq, List.count_cons_self, List.count_eq_zero.mpr hnew]
    · rw [List.count_cons_of_ne heq]
      exact h.once cmd' seq'
  invoked cmd' seq' hmem := by
    rcases List.mem_cons.mp hmem with heq | hmem
    · cases heq
      exact hkey
    · exact h.invoked cmd' seq' hmem
  answered cmd' seq' flags payload hmem := h.answered cmd' seq' flags payload (by simpa using hmem)

theorem Given.record_answered (h : Given known faces log)
    (hremembers : Remembers known faces (cmd, seq) (flags, payload)) :
    Given known faces (.answered cmd seq flags payload :: log) where
  keys := h.keys
  once cmd' seq' := by simpa using h.once cmd' seq'
  invoked cmd' seq' hmem := h.invoked cmd' seq' (by simpa using hmem)
  answered cmd' seq' flags' payload' hmem := by
    rcases List.mem_cons.mp hmem with heq | hmem
    · cases heq
      exact hremembers
    · exact h.answered cmd' seq' flags' payload' hmem

theorem Given.record_replied (h : Given known faces log) (serial : Nat) :
    Given known faces (.replied serial :: log) where
  keys := h.keys
  once cmd seq := by simpa using h.once cmd seq
  invoked cmd seq hmem := h.invoked cmd seq (by simpa using hmem)
  answered cmd seq flags payload hmem := h.answered cmd seq flags payload (by simpa using hmem)

/-- After a purge the log says nothing of requests. -/
theorem Given.purge (h : Given known faces log) (hsub : faces'.Sublist faces) :
    Given known faces' (log.filter Event.isReplied) where
  keys := h.keys.sublist (hsub.map Prod.fst)
  once cmd seq := by
    rw [List.count_eq_zero.mpr (by simp [Event.isReplied])]
    exact Nat.zero_le 1
  invoked cmd seq hmem := absurd (List.mem_filter.mp hmem).2 (by simp [Event.isReplied])
  answered cmd seq flags payload hmem :=
    absurd (List.mem_filter.mp hmem).2 (by simp [Event.isReplied])

end Given

section Made

variable {cache cache' : List CachedMessage} {next next' : Nat} {log : List Event}
  {c : CachedMessage}

theorem Made.push (h : Made cache next log) (hserial : c.serial = next) :
    Made (c :: cache) (next + 1) log where
  serials := by
    rw [List.map_cons, List.nodup_cons, List.mem_map]
    refine ⟨?_, h.serials⟩
    rintro ⟨c', hmem, heq⟩
    have := h.fresh c' hmem
    omega
  fresh c' hmem := by
    rcases List.mem_cons.mp hmem with rfl | hmem
    · omega
    · have := h.fresh c' hmem
      omega
  used serial hmem := (h.used serial hmem).trans (Nat.lt_succ_self next)
  marked c' hmem hlog := by
    rcases List.mem_cons.mp hmem with rfl | hmem
    · have := h.used _ hlog
      omega
    · exact h.marked c' hmem hlog
  once := h.once

theorem Made.skip (h : Made cache next log) : Made cache (next + 1) log where
  serials := h.serials
  fresh c hmem := (h.fresh c hmem).trans (Nat.lt_succ_self next)
  used serial hmem := (h.used serial hmem).trans (Nat.lt_succ_self next)
  marked := h.marked
  once := h.once

theorem Made.record (h : Made cache next log) {event : Event} (hevent : event.isReplied = false) :
    Made cache next (event :: log) where
  serials := h.serials
  fresh := h.fresh
  used serial hmem := by
    rcases List.mem_cons.mp hmem with rfl | hmem
    · cases hevent
    · exact h.used serial hmem
  marked c hmem hlog := by
    rcases List.mem_cons.mp hlog with heq | hlog
    · rw [← heq] at hevent
      cases hevent
    · exact h.marked c hmem hlog
  once serial := by
    rw [List.count_cons_of_ne]
    · exact h.once serial
    · rintro rfl
      cases hevent

theorem Made.purge (h : Made cache next log) (hsub : cache'.Sublist cache) :
    Made cache' next (log.filter Event.isReplied) where
  serials := h.serials.sublist (hsub.map _)
  fresh c hmem := h.fresh c (hsub.subset hmem)
  used serial hmem := h.used serial (List.mem_filter.mp hmem).1
  marked c hmem hlog := h.marked c (hsub.subset hmem) (List.mem_filter.mp hlog).1
  once serial := by
    rw [List.count_filter rfl]
    exact h.once serial

/-- An entry is marked, and moves. -/
theorem Made.mark (h : Made cache next log) {c' : CachedMessage} {rest : List CachedMessage}
    (hperm : (c :: rest).Perm cache) (hserial : c'.serial = c.serial)
    (hprocessed : c'.processed = true) : Made (c' :: rest) next log where
  serials := by
    rw [List.map_cons, hserial]
    exact (hperm.map (·.serial)).nodup_iff.mpr h.serials
  fresh d hmem := by
    rcases List.mem_cons.mp hmem with rfl | hmem
    · rw [hserial]
      exact h.fresh c (hperm.subset List.mem_cons_self)
    · exact h.fresh d (hperm.subset (List.mem_cons_of_mem _ hmem))
  used := h.used
  marked d hmem hlog := by
    rcases List.mem_cons.mp hmem with rfl | hmem
    · exact hprocessed
    · exact h.marked d (hperm.subset (List.mem_cons_of_mem _ hmem)) hlog
  once := h.once

/-- The reply to a request that is marked only now is handled. -/
theorem Made.record_replied (h : Made (c :: cache) next log) (hprocessed : c.processed = true)
    (hnew : .replied c.serial ∉ log) : Made (c :: cache) next (.replied c.serial :: log) where
  serials := h.serials
  fresh := h.fresh
  used serial hmem := by
    rcases List.mem_cons.mp hmem with heq | hmem
    · cases heq
      exact h.fresh c List.mem_cons_self
    · exact h.used serial hmem
  marked d hmem hlog := by
    rcases List.mem_cons.mp hlog with heq | hlog
    · have hserial : d.serial = c.serial := by simpa using heq
      have : d = c := List.inj_on_of_nodup_map h.serials hmem List.mem_cons_self hserial
      rw [this]
      exact hprocessed
    · exact h.marked d hmem hlog
  once serial := by
    by_cases heq : Event.replied c.serial = .replied serial
    · rw [← heq, List.count_cons_self, List.count_eq_zero.mpr hnew]
    · rw [List.count_cons_of_ne heq]
      exact h.once serial

end Made

/-! ## What one message does -/

namespace CLRMessaging

def known (s : CLRMessaging) (cmd : BitVec 32) : Bool := s.lookupRequests.flatten.contains cmd

def faces (s : CLRMessaging) : List Face := s.cacheSubordinate.map CachedMessage.face

def Made (s : CLRMessaging) : Prop := Messaging.Made s.cacheMaster s.nextSerial s.log

/-- What is said of the handling of messages. -/
structure Inv (s : CLRMessaging) : Prop where
  given : Given s.known s.faces s.log
  made : s.Made

end CLRMessaging

namespace Answer

variable (a : Answer) (header : Packet)

def face : Face := ((header.cmd, header.seq), a.flags, a.sent)

def event : Event := .answered header.cmd header.seq a.flags a.sent

/-- The answer to a message of these flags is one to a request, and goes out. -/
def records (flags : BitVec 32) : Bool :=
  isExact flags && !hasFlag flags Flags.reply && a.o.transmits a.sent

end Answer

/-- From one state to the other no request is answered. -/
structure Quiet (s s' : CLRMessaging) : Prop where
  known : s'.known = s.known
  faces : s'.faces = s.faces
  log : s'.log = s.log
  made : s.Made → s'.Made

/-- From one state to the other a message is answered. -/
structure Answers (header : Packet) (a : Answer) (s s' : CLRMessaging) : Prop where
  known : s'.known = s.known
  faces : s'.faces = if a.caches header.flags then a.face header :: s.faces else s.faces
  log : s'.log = if a.records header.flags then a.event header :: s.log else s.log
  made : s.Made → s'.Made

variable {s s' s'' : CLRMessaging} {header : Packet} {a : Answer} {now : Int} {o : Outcome}
  {payload : List Byte} {calls : List Call}

theorem Quiet.refl (s : CLRMessaging) : Quiet s s := ⟨rfl, rfl, rfl, id⟩

theorem Quiet.trans (h : Quiet s s') (h' : Quiet s' s'') : Quiet s s'' where
  known := h'.known.trans h.known
  faces := h'.faces.trans h.faces
  log := h'.log.trans h.log
  made := h'.made ∘ h.made

theorem Quiet.answers (h : Quiet s s') (hexact : isExact header.flags = false) :
    Answers header a s s' where
  known := h.known
  faces := by simp [Answer.caches, hexact, h.faces]
  log := by simp [Answer.records, hexact, h.log]
  made := h.made

theorem Quiet.trans_answers (h : Quiet s s') (h' : Answers header a s' s'') :
    Answers header a s s'' where
  known := h'.known.trans h.known
  faces := by rw [h'.faces, h.faces]
  log := by rw [h'.log, h.log]
  made := h'.made ∘ h.made

theorem Answers.trans_quiet (h : Answers header a s s') (h' : Quiet s' s'') :
    Answers header a s s'' where
  known := h'.known.trans h.known
  faces := by rw [h'.faces, h.faces]
  log := by rw [h'.log, h.log]
  made := h'.made ∘ h.made

theorem quiet_controller (s : CLRMessaging) (controller : Controller Unit) :
    Quiet s { s with controller := controller } := ⟨rfl, rfl, rfl, id⟩

/-! ### Sending -/

theorem transmitMessage_fst (s : CLRMessaging) (now : Int) (header : Packet) (payload : List Byte)
    (fQueue : Bool) (o : Outcome) :
    (s.transmitMessage now header payload fQueue o).1 = o.transmits payload := by
  unfold CLRMessaging.transmitMessage
  cases o.transmits payload <;> grind

theorem transmitMessage_false (s : CLRMessaging) (now : Int) (header : Packet)
    (payload : List Byte) (o : Outcome) :
    (s.transmitMessage now header payload false o).2 = s := by
  unfold CLRMessaging.transmitMessage
  cases o.transmits payload <;> rfl

theorem transmitMessage_noCaching (h : hasFlag header.flags Flags.noCaching = true) :
    (s.transmitMessage now header payload true o).2 = s := by
  unfold CLRMessaging.transmitMessage
  cases o.transmits payload <;> simp [h]

/-- A reply goes into the cache of replies. -/
theorem transmitMessage_reply (s : CLRMessaging) (now : Int) (header : Packet)
    (payload : List Byte) (o : Outcome)
    (hcaching : hasFlag header.flags Flags.noCaching = false)
    (hreply : hasFlag header.flags Flags.reply = true) :
    let t := (s.transmitMessage now header payload true o).2
    t.known = s.known ∧ t.log = s.log ∧ (s.Made → t.Made) ∧ t.faces =
      if o.transmits payload && o.allocated then
        ((header.cmd, header.seqReply), header.flags, payload) :: s.faces else s.faces := by
  cases htransmits : o.transmits payload <;> cases hallocated : o.allocated <;>
    simp only [CLRMessaging.transmitMessage, htransmits, hallocated, hcaching, hreply] <;>
    refine ⟨rfl, rfl, ?_, ?_⟩
  any_goals exact id
  any_goals rfl
  · exact Messaging.Made.skip
  · cases payload <;> rfl

/-- A message that is no reply leaves the cache of replies alone. -/
theorem transmitMessage_request (s : CLRMessaging) (now : Int) (header : Packet)
    (payload : List Byte) (o : Outcome) (hreply : hasFlag header.flags Flags.reply = false) :
    Quiet s (s.transmitMessage now header payload true o).2 := by
  unfold CLRMessaging.transmitMessage
  split
  · exact Quiet.refl s
  · split
    · exact Quiet.refl s
    · split
      · exact Quiet.refl s
      · split
        · exact Quiet.refl s
        · simp only [hreply]
          exact ⟨rfl, rfl, rfl, fun h => h.push rfl⟩

theorem sendEvent_quiet (s : CLRMessaging) (now : Int) (cmd : BitVec 32) {flags : BitVec 32}
    (payload : List Byte) (o : Outcome) (hflags : hasFlag flags Flags.reply = false) :
    Quiet s (s.sendEvent now cmd flags payload o) := by
  have hsent := transmitMessage_request
    { s with controller := (s.controller.prepareRequest cmd flags payload).2 } now
    (s.controller.prepareRequest cmd flags payload).1 payload o hflags
  exact (quiet_controller s _).trans hsent

/-! ### Answering -/

theorem replyToCommand_nonCritical (h : hasFlag header.flags Flags.nonCritical = true)
    (fSuccess fCritical : Bool) :
    s.replyToCommand now header fSuccess fCritical payload o = (header, s) := by
  simp [CLRMessaging.replyToCommand, h]

theorem replyToCommand_fst (s : CLRMessaging) (now : Int) (header : Packet)
    (fSuccess fCritical : Bool) (payload : List Byte) (o : Outcome) :
    hasFlag (s.replyToCommand now header fSuccess fCritical payload o).1.flags
      Flags.nonCritical = true := by
  unfold CLRMessaging.replyToCommand
  split
  · assumption
  · rw [hasFlag_or]
    exact Bool.or_true _

theorem sendReply_noCaching (h : hasFlag header.flags Flags.noCaching = true)
    (fSuccess fCritical : Bool) :
    Quiet s (s.sendReply now header fSuccess fCritical payload o) := by
  simp only [CLRMessaging.sendReply, h, Bool.not_true, Bool.and_false, Bool.false_and]
  rw [transmitMessage_noCaching]
  · exact quiet_controller s _
  · simp only [Controller.prepareReply, Controller.prepare, replyFlags, hasFlag_or]
    exact rfl

theorem sendReply_caching (s : CLRMessaging) (now : Int) (header : Packet) (a : Answer)
    (h : hasFlag header.flags Flags.noCaching = false) :
    let t := s.sendReply now header a.fSuccess a.fCritical a.payload a.o
    t.known = s.known ∧ (s.Made → t.Made) ∧
      t.faces = (if a.o.transmits a.sent && a.o.allocated then a.face header :: s.faces
        else s.faces) ∧
      t.log = if a.o.transmits a.sent && !hasFlag header.flags Flags.reply then
        a.event header :: s.log else s.log := by
  let reply := s.controller.prepareReply header (replyFlags false a.fSuccess a.fCritical) a.sent
  let t := { s with controller := reply.2 }.transmitMessage now reply.1 a.sent true a.o
  obtain ⟨hcaching, hreply⟩ := hasFlag_answer a
  obtain ⟨hknown, hlog, hmade, hfaces⟩ := transmitMessage_reply
    { s with controller := reply.2 } now reply.1 a.sent a.o hcaching hreply
  have hsent : t.1 = a.o.transmits a.sent := transmitMessage_fst _ _ _ _ _ _
  have hstep : s.sendReply now header a.fSuccess a.fCritical a.payload a.o =
      if t.1 && !hasFlag header.flags Flags.reply then t.2.record (a.event header) else t.2 := by
    simp only [CLRMessaging.sendReply, h, Bool.not_false, Bool.and_true]
    rfl
  simp only [hstep, hsent]
  split
  · exact ⟨hknown, fun hs => (hmade hs).record rfl, hfaces, congrArg _ hlog⟩
  · exact ⟨hknown, hmade, hfaces, hlog⟩

theorem replyToCommand_answers (s : CLRMessaging) (now : Int) (header : Packet) (a : Answer) :
    Answers header a s
      (s.replyToCommand now header a.fSuccess a.fCritical a.payload a.o).2 := by
  cases hcritical : hasFlag header.flags Flags.nonCritical
  case true =>
    rw [replyToCommand_nonCritical hcritical]
    exact (Quiet.refl s).answers (by simp [isExact, hcritical])
  case false =>
    rw [CLRMessaging.replyToCommand, hcritical]
    cases hcaching : hasFlag header.flags Flags.noCaching
    case true =>
      apply Quiet.answers _ (by simp [isExact, hcaching])
      apply sendReply_noCaching
      rw [hasFlag_or, hcaching]
      rfl
    case false =>
      have hmarked (flag : BitVec 32) (h : hasFlag Flags.nonCritical flag = false) :
          hasFlag (header.flags ||| Flags.nonCritical) flag = hasFlag header.flags flag := by
        rw [hasFlag_or, h, Bool.or_false]
      obtain ⟨hknown, hmade, hfaces, hlog⟩ := sendReply_caching s now
        { header with flags := header.flags ||| Flags.nonCritical } a
        ((hmarked Flags.noCaching rfl).trans hcaching)
      have hexact : isExact header.flags = true := isExact_iff.mpr ⟨hcritical, hcaching⟩
      constructor
      · exact hknown
      · simp only [Answer.caches, hexact, Bool.true_and]
        exact hfaces
      · rw [hmarked Flags.reply rfl, Bool.and_comm] at hlog
        simp only [Answer.records, hexact, Bool.true_and]
        exact hlog
      · exact hmade

theorem runCalls_quiet (s : CLRMessaging) (now : Int)
    (h : hasFlag header.flags Flags.nonCritical = true)
    (hplain : calls.all Call.plain = true) :
    ∃ t, CLRMessaging.runCalls now calls header s = (header, t) ∧ Quiet s t := by
  induction calls generalizing s with
  | nil => exact ⟨s, rfl, Quiet.refl s⟩
  | cons call calls ih =>
      rw [List.all_cons, Bool.and_eq_true] at hplain
      cases call with
      | reply fSuccess fCritical payload o =>
          rw [CLRMessaging.runCalls, replyToCommand_nonCritical h]
          exact ih s hplain.2
      | send cmd flags payload o =>
          have hquiet := sendEvent_quiet s now cmd payload o ((Bool.not_eq_true' _).mp hplain.1)
          obtain ⟨t, hrun, ht⟩ := ih (s.sendEvent now cmd flags payload o) hplain.2
          exact ⟨t, hrun, hquiet.trans ht⟩

/-- Only the first reply counts. -/
theorem runCalls_answers (s : CLRMessaging) (now : Int) (header : Packet) (a : Answer)
    (hplain : calls.all Call.plain = true) :
    let t := CLRMessaging.runCalls now calls header s
    Answers header ((firstReply calls).getD a) s
      (t.2.replyToCommand now t.1 a.fSuccess a.fCritical a.payload a.o).2 := by
  induction calls generalizing s with
  | nil => exact replyToCommand_answers s now header a
  | cons call calls ih =>
      rw [List.all_cons, Bool.and_eq_true] at hplain
      cases call with
      | reply fSuccess fCritical payload o =>
          have hfirst := replyToCommand_answers s now header ⟨fSuccess, fCritical, payload, o⟩
          have hmarked := replyToCommand_fst s now header fSuccess fCritical payload o
          obtain ⟨t, hrun, hquiet⟩ := runCalls_quiet
            (s.replyToCommand now header fSuccess fCritical payload o).2 now hmarked hplain.2
          simp only [CLRMessaging.runCalls, hrun, replyToCommand_nonCritical hmarked]
          exact hfirst.trans_quiet hquiet
      | send cmd flags payload o =>
          have hquiet := sendEvent_quiet s now cmd payload o ((Bool.not_eq_true' _).mp hplain.1)
          exact hquiet.trans_answers (ih (s.sendEvent now cmd flags payload o) hplain.2)

theorem invoke_answers (s : CLRMessaging) (now : Int) (header : Packet) {script : Script}
    (hplain : script.calls.all Call.plain = true) :
    Answers header script.answer s (s.invoke now header script) :=
  runCalls_answers s now header ⟨script.ret, false, [], script.o⟩ hplain

/-! ## The invariant -/

theorem touch_perm {found : CachedMessage → Bool} {cache rest : List CachedMessage}
    {c : CachedMessage} (h : CLRMessaging.touch now found cache = some (c, rest)) :
    ∃ c₀, cache.find? found = some c₀ ∧ found c₀ = true ∧ c = { c₀ with lastSeen := now } ∧
      (c₀ :: rest).Perm cache := by
  obtain ⟨c₀, hfind, heq⟩ := Option.map_eq_some_iff.mp h
  obtain ⟨hc, before, after, rfl, hbefore⟩ := List.find?_eq_some_iff_append.mp hfind
  cases heq
  refine ⟨c₀, hfind, hc, rfl, ?_⟩
  rw [List.eraseP_append_right _ (fun d hd => by simpa using hbefore d hd),
    List.eraseP_cons_of_pos hc]
  exact List.perm_middle.symm

theorem mem_faces_iff {key : BitVec 32 × BitVec 16} :
    key ∈ s.faces.map Prod.fst ↔ ∃ c ∈ s.cacheSubordinate, c.key = key := by
  simp [CLRMessaging.faces, CachedMessage.face]

theorem cachesKey_eq_false_iff : s.cachesKey header = false ↔
    (header.cmd, header.seq) ∉ s.faces.map Prod.fst := by
  rw [mem_faces_iff]
  simp [CLRMessaging.cachesKey]

theorem hasAnswered_eq_false (h : s.hasAnswered header = false) (flags : BitVec 32)
    (payload : List Byte) : .answered header.cmd header.seq flags payload ∉ s.log := by
  intro hmem
  rw [CLRMessaging.hasAnswered, List.any_eq_false] at h
  exact h _ hmem (beq_self_eq_true _)

/-- A request that is not cached was answered, if at all, with a refusal. -/
theorem Given.refused {known : BitVec 32 → Bool} {faces : List Face} {log : List Event}
    (h : Given known faces log) {cmd : BitVec 32} {seq : BitVec 16} {flags : BitVec 32}
    (hkey : (cmd, seq) ∉ faces.map Prod.fst) (hlog : .answered cmd seq flags payload ∈ log) :
    known cmd = false ∧ ∀ o, flags = (Answer.refusal o).flags ∧ payload = [] := by
  rcases h.answered cmd seq flags payload hlog with hface | ⟨-, hknown, hrefusal⟩
  · exact absurd (List.mem_map_of_mem hface) hkey
  · exact ⟨hknown, fun o => Prod.mk.inj (hrefusal o)⟩

/-- The answer to a reply, or to a request that has no handler. -/
theorem CLRMessaging.Inv.answers (h : s.Inv) (hanswers : Answers header a s s')
    (hfresh : a.caches header.flags = true → (header.cmd, header.seq) ∉ s.faces.map Prod.fst)
    (hheld : a.caches header.flags = true → ∀ flags payload,
      .answered header.cmd header.seq flags payload ∈ s.log → flags = a.flags ∧ payload = a.sent)
    (hrecords : a.records header.flags = true → a.caches header.flags = false →
      Remembers s.known s.faces (header.cmd, header.seq) (a.flags, a.sent)) : s'.Inv where
  given := by
    rw [hanswers.known, hanswers.faces, hanswers.log]
    have hcached : Given s.known
        (if a.caches header.flags then a.face header :: s.faces else s.faces) s.log := by
      split
      case isTrue hcaches =>
        exact h.given.cons (hfresh hcaches) fun answer' hmem =>
          Prod.ext_iff.mpr (hheld hcaches _ _ hmem)
      case isFalse => exact h.given
    by_cases hrecord : a.records header.flags = true
    · rw [if_pos hrecord]
      apply hcached.record_answered
      split
      case isTrue => exact .inl List.mem_cons_self
      case isFalse hcaches => exact hrecords hrecord (Bool.eq_false_iff.mpr hcaches)
    · rw [if_neg hrecord]
      exact hcached
  made := hanswers.made h.made

theorem CLRMessaging.Inv.quiet (h : s.Inv) (hquiet : Quiet s s') : s'.Inv where
  given := by
    rw [hquiet.known, hquiet.faces, hquiet.log]
    exact h.given
  made := hquiet.made h.made

/-- The answer to a request that has a handler. -/
theorem CLRMessaging.Inv.handled (h : s.Inv) (hkey : (header.cmd, header.seq) ∉ s.faces.map Prod.fst)
    (hknown : s.known header.cmd = true) (hcaches : a.caches header.flags = true)
    (hanswers : Answers header a (s.record (.invoked header.cmd header.seq)) s') : s'.Inv where
  given := by
    rw [hanswers.known, hanswers.faces, hanswers.log, if_pos hcaches]
    have hcached : Given s.known (a.face header :: s.faces) s.log :=
      h.given.cons hkey fun answer' hmem => by
        have hunknown := (h.given.refused hkey hmem).1
        rw [hknown] at hunknown
        cases hunknown
    have hinvoked : Given s.known (a.face header :: s.faces)
        (.invoked header.cmd header.seq :: s.log) :=
      hcached.record_invoked List.mem_cons_self fun hmem => hkey (h.given.invoked _ _ hmem)
    split
    · exact hinvoked.record_answered (.inl List.mem_cons_self)
    · exact hinvoked
  made := hanswers.made (h.made.record rfl)

theorem inv_processReply (h : s.Inv) {script : Script} (hplain : script.calls.all Call.plain = true)
    (hreply : hasFlag header.flags Flags.reply = true)
    (hadm : isExact header.flags = true → s.SparesAnswers header script) :
    (s.processReply now header script).Inv := by
  -- whatever is touched, the message is answered in a state that is as good
  have hanswered {t t' : CLRMessaging} (ht : t.Inv) (hfaces : t.faces = s.faces)
      (hlog : ∀ flags payload, .answered header.cmd header.seq flags payload ∈ t.log →
        .answered header.cmd header.seq flags payload ∈ s.log)
      (hsettled : s.isSettled header = false)
      (hanswers : Answers header (s.answer header script) t t') : t'.Inv := by
    have hspared (hcaches : (s.answer header script).caches header.flags = true) :
        s.cachesKey header = false ∧ s.hasAnswered header = false := by
      have hexact : isExact header.flags = true := by
        simp only [Answer.caches, Bool.and_eq_true] at hcaches
        exact hcaches.1.1
      exact hadm hexact hsettled hcaches
    apply ht.answers hanswers
    · intro hcaches
      rw [hfaces]
      exact cachesKey_eq_false_iff.mp (hspared hcaches).1
    · intro hcaches flags payload hmem
      exact absurd (hlog _ _ hmem) (hasAnswered_eq_false (hspared hcaches).2 flags payload)
    · intro hrecords
      simp [Answer.records, hreply] at hrecords
  have hhandles : s.handles header = s.lookupReplies.flatten.contains header.cmd := by
    rw [CLRMessaging.handles, if_pos hreply]
  rw [CLRMessaging.processReply]
  split
  case h_1 c rest htouch =>
    obtain ⟨c₀, hfind, hfound, rfl, hperm⟩ := touch_perm htouch
    let t : CLRMessaging :=
      { s with cacheMaster := { c₀ with lastSeen := now, processed := true } :: rest }
    have hmarked : t.Made := h.made.mark hperm rfl rfl
    by_cases hprocessed : c₀.processed = true
    · rw [if_pos hprocessed]
      exact ⟨h.given, hmarked⟩
    · rw [if_neg hprocessed]
      have hsettled : s.isSettled header = false := by
        simpa [CLRMessaging.isSettled, hfind] using hprocessed
      have hnew : .replied c₀.serial ∉ s.log := fun hmem =>
        hprocessed (h.made.marked c₀ (hperm.subset List.mem_cons_self) hmem)
      split
      case isTrue hknown =>
        apply hanswered (t := t.record (.replied c₀.serial))
          ⟨h.given.record_replied c₀.serial, hmarked.record_replied rfl hnew⟩ rfl
          (fun _ _ hmem => by simpa [CLRMessaging.record] using hmem) hsettled
        rw [CLRMessaging.answer, hhandles, if_pos hknown]
        exact invoke_answers _ now header hplain
      case isFalse hknown =>
        apply hanswered (t := t) ⟨h.given, hmarked⟩ rfl (fun _ _ => id) hsettled
        rw [CLRMessaging.answer, hhandles, if_neg hknown]
        exact replyToCommand_answers _ now header (.refusal script.o)
  case h_2 htouch =>
    have hsettled : s.isSettled header = false := by
      have hnone := Option.map_eq_none_iff.mp htouch
      simp [CLRMessaging.isSettled, hnone]
    split
    case isTrue hknown =>
      apply hanswered h rfl (fun _ _ => id) hsettled
      rw [CLRMessaging.answer, hhandles, if_pos hknown]
      exact invoke_answers s now header hplain
    case isFalse hknown =>
      apply hanswered h rfl (fun _ _ => id) hsettled
      rw [CLRMessaging.answer, hhandles, if_neg hknown]
      exact replyToCommand_answers s now header (.refusal script.o)

theorem mem_faces_of_touch {c : CachedMessage} {rest : List CachedMessage}
    (htouch : CLRMessaging.touch now
      (fun c => header.cmd == c.header.cmd && header.seq == c.header.seqReply)
      s.cacheSubordinate = some (c, rest)) :
    ((header.cmd, header.seq), c.header.flags, c.payload) ∈ s.faces ∧
      ((c :: rest).map CachedMessage.face).Perm s.faces := by
  obtain ⟨c₀, -, hfound, rfl, hperm⟩ := touch_perm htouch
  have hfaces := hperm.map CachedMessage.face
  rw [Bool.and_eq_true, beq_iff_eq, beq_iff_eq] at hfound
  rw [hfound.1, hfound.2]
  exact ⟨hfaces.subset List.mem_cons_self, hfaces⟩

theorem cachesKey_of_touch_none (htouch : CLRMessaging.touch now
      (fun c => header.cmd == c.header.cmd && header.seq == c.header.seqReply)
      s.cacheSubordinate = none) : s.cachesKey header = false := by
  have hnone := List.find?_eq_none.mp (Option.map_eq_none_iff.mp htouch)
  rw [CLRMessaging.cachesKey, List.any_eq_false]
  intro c hmem hkey
  apply hnone c hmem
  have := Prod.mk.inj (beq_iff_eq.mp hkey)
  simp [this.1, this.2]

/-- A request that is cached is answered from the cache. -/
theorem processRequest_cached {script : Script} {c : CachedMessage} {rest : List CachedMessage}
    (htouch : CLRMessaging.touch now
      (fun c => header.cmd == c.header.cmd && header.seq == c.header.seqReply)
      s.cacheSubordinate = some (c, rest)) :
    s.processRequest now header script =
      let t := { s with cacheSubordinate := c :: rest }
      if script.o.transmits c.payload then
        t.record (.answered header.cmd header.seq c.header.flags c.payload)
      else t := by
  simp only [CLRMessaging.processRequest, htouch]
  rw [transmitMessage_fst, transmitMessage_false]

theorem inv_processRequest (h : s.Inv) {script : Script}
    (hplain : script.calls.all Call.plain = true)
    (hreply : hasFlag header.flags Flags.reply = false)
    (hadm : isExact header.flags = true → s.KeepsAnswer header script) :
    (s.processRequest now header script).Inv := by
  have hhandles : s.handles header = s.known header.cmd := by
    rw [CLRMessaging.handles, hreply]
    rfl
  cases htouch : CLRMessaging.touch now
      (fun c => header.cmd == c.header.cmd && header.seq == c.header.seqReply)
      s.cacheSubordinate with
  | some found =>
      obtain ⟨c, rest⟩ := found
      obtain ⟨hmem, hperm⟩ := mem_faces_of_touch htouch
      rw [processRequest_cached htouch]
      have hgiven := h.given.perm hperm
      split
      · exact ⟨hgiven.record_answered (.inl (hperm.symm.subset hmem)), h.made.record rfl⟩
      · exact ⟨hgiven, h.made⟩
  | none =>
      have hcached := cachesKey_of_touch_none htouch
      have hkey := cachesKey_eq_false_iff.mp hcached
      simp only [CLRMessaging.processRequest, htouch]
      change CLRMessaging.Inv (if s.known header.cmd = true then _ else _)
      by_cases hknown : s.known header.cmd = true
      · rw [if_pos hknown]
        by_cases hexact : isExact header.flags = true
        · have hcaches := hadm hexact hcached (hhandles.trans hknown)
          rw [CLRMessaging.answer, hhandles, if_pos hknown] at hcaches
          rw [if_pos hexact]
          exact h.handled hkey hknown hcaches (invoke_answers _ now header hplain)
        · rw [if_neg hexact]
          have hno : ∀ a : Answer, a.caches header.flags = false ∧ a.records header.flags = false := by
            intro a
            simp [Answer.caches, Answer.records, hexact]
          apply h.answers (invoke_answers s now header hplain)
          · simp [(hno _).1]
          · simp [(hno _).1]
          · simp [(hno _).2]
      · rw [if_neg hknown]
        apply h.answers (replyToCommand_answers s now header (.refusal script.o))
        · exact fun _ => hkey
        · exact fun _ flags payload hmem => (h.given.refused hkey hmem).2 script.o
        · exact fun _ _ => .inr ⟨hkey, Bool.eq_false_iff.mpr hknown, fun o => rfl⟩

/-! ### Purging -/

theorem purgeList_sublist (oldest : Int) (cache : List CachedMessage) (total : Nat) :
    (CLRMessaging.purgeList oldest cache total).1.Sublist cache := by
  induction cache with
  | nil => exact List.Sublist.refl []
  | cons c cache ih =>
      simp only [CLRMessaging.purgeList]
      split
      · exact ih.cons c
      · exact ih.cons_cons c

theorem inv_purgeCache (h : s.Inv) : (s.purgeCache now).Inv where
  given := h.given.purge ((purgeList_sublist _ _ _).map CachedMessage.face)
  made := h.made.purge (purgeList_sublist _ _ _)

/-! ### Every step -/

theorem inv_step (h : s.Inv) {action : Action} (hadm : s.Admitted action)
    (hstep : step s action = some s') : s'.Inv := by
  cases action with
  | receive header script now =>
      cases hstep
      obtain ⟨hplain, hadm⟩ := hadm
      rw [CLRMessaging.processPayload]
      split
      case isTrue => exact h
      case isFalse hnack =>
        have hnack := Bool.eq_false_iff.mpr hnack
        split
        case isTrue hreply =>
          rw [if_pos hreply] at hadm
          exact inv_processReply h hplain hreply (hadm hnack)
        case isFalse hreply =>
          rw [if_neg hreply] at hadm
          exact inv_processRequest h hplain (Bool.eq_false_iff.mpr hreply) (hadm hnack)
  | send cmd flags payload o now =>
      cases hstep
      exact h.quiet (sendEvent_quiet s now cmd payload o hadm)
  | purge now =>
      cases hstep
      exact inv_purgeCache h

theorem inv_initial (h : Initial s) : s.Inv := by
  obtain ⟨hsub, hmaster, hlog⟩ := h
  constructor
  · rw [CLRMessaging.faces, hsub, hlog]
    constructor <;> simp
  · rw [CLRMessaging.Made, hmaster, hlog]
    constructor <;> simp

/-! ## The result -/

/-- A request that was answered is answered so again. -/
theorem CLRMessaging.Inv.repeated (h : s.Inv) (script : Script) {flags : BitVec 32}
    (hrequest : isRequest header.flags = true) (hexact : isExact header.flags = true)
    (hanswered : .answered header.cmd header.seq flags payload ∈ s.log)
    (htransmits : script.o.transmits payload = true) :
    (s.processPayload now header script).log =
      .answered header.cmd header.seq flags payload :: s.log := by
  simp only [isRequest, Bool.and_eq_true, Bool.not_eq_true'] at hrequest
  obtain ⟨hnack, hreply⟩ := hrequest
  rw [CLRMessaging.processPayload, hnack, hreply]
  simp only [Bool.false_eq_true, if_false]
  cases htouch : CLRMessaging.touch now
      (fun c => header.cmd == c.header.cmd && header.seq == c.header.seqReply)
      s.cacheSubordinate with
  | some found =>
      obtain ⟨c, rest⟩ := found
      obtain ⟨hmem, hperm⟩ := mem_faces_of_touch htouch
      have heq : (flags, payload) = (c.header.flags, c.payload) :=
        Remembers.unique h.given.keys (.inl hmem) (h.given.answered _ _ _ _ hanswered)
      cases heq
      rw [processRequest_cached htouch]
      simp only [htransmits, if_true]
      rfl
  | none =>
      have hkey := cachesKey_eq_false_iff.mp (cachesKey_of_touch_none htouch)
      obtain ⟨hunknown, hrefusal⟩ := h.given.refused hkey hanswered
      obtain ⟨rfl, rfl⟩ := hrefusal script.o
      simp only [CLRMessaging.processRequest, htouch]
      change CLRMessaging.log (if s.known header.cmd = true then _ else _) = _
      rw [if_neg (by simp [hunknown])]
      have hanswers := replyToCommand_answers s now header (.refusal script.o)
      refine hanswers.log.trans (if_pos ?_)
      simp only [Answer.records, hexact, hreply, Bool.not_false, Bool.and_self, Bool.true_and]
      exact htransmits

/-- In a run in which the answers to requests come into the cache and keep their place there, each
request is handled at most once. -/
theorem commands_atMostOnce (s : CLRMessaging)
    (h : Reachable step Initial CLRMessaging.Admitted s) : s.AtMostOnce := by
  have hinv : s.Inv := h.invariant CLRMessaging.Inv (fun _ => inv_initial)
    (fun _ _ _ hs hadm hstep => inv_step hs hadm hstep)
  constructor
  · exact hinv.given.once
  · intro cmd seq flags payload flags' payload' hmem hmem'
    have := (hinv.given.answered _ _ _ _ hmem).unique hinv.given.keys
      (hinv.given.answered _ _ _ _ hmem')
    exact Prod.mk.inj this
  · intro header script now flags payload hrequest hexact hanswered htransmits
    exact hinv.repeated script hrequest hexact hanswered htransmits
  · exact hinv.made.once

/-! ## Two runs with one command -/

def smallEndpoint : CLRMessaging where
  controller := ⟨none, 0, ()⟩
  lookupRequests := [[], [1]]
  lookupReplies := [[], []]
  cacheSubordinate := []
  cacheMaster := []
  cacheTotalSize := 0
  sizeofCachedMessage := 64
  nextSerial := 0
  log := []

def smallRequest : Packet where
  signature := markerPacketV1
  crcHeader := 0
  crcData := 0
  cmd := 1
  seq := 7
  seqReply := 0
  flags := 0
  size := 0

/-- The handler gives one byte for an answer. -/
def oneByte (o : Outcome) : Script := ⟨[.reply true false [42] o], true, o⟩

def smallAnswer : Event :=
  .answered 1 7 (Flags.ack ||| Flags.nonCritical ||| Flags.reply) [42]

/-- The request comes twice, and the first answer is lost on the way. -/
def lostAnswer : List Action :=
  [.receive smallRequest (oneByte ⟨true, true, true⟩) 0,
    .receive smallRequest (oneByte ⟨true, true, true⟩) 1]

theorem commands_atMostOnce_sample :
    ∃ s ∈ run step smallEndpoint lostAnswer,
      s.log = [smallAnswer, smallAnswer, .invoked 1 7] ∧ s.AtMostOnce := by
  have hlog : (run step smallEndpoint lostAnswer).map (·.log) =
      some [smallAnswer, smallAnswer, .invoked 1 7] := by decide
  obtain ⟨s, hs, hlog⟩ := Option.map_eq_some_iff.mp hlog
  have hadm : AdmittedRun step CLRMessaging.Admitted smallEndpoint lostAnswer := by decide
  exact ⟨s, hs, hlog, commands_atMostOnce s (.run (.start ⟨rfl, rfl, rfl⟩) hadm hs)⟩

/-- The payload of the first answer cannot be written, and the request comes again. -/
def failedAnswer : List Action :=
  [.receive smallRequest (oneByte ⟨true, false, true⟩) 0,
    .receive smallRequest (oneByte ⟨true, true, true⟩) 1]

theorem not_commands_atMostOnce_sample :
    ∃ s, Reachable step Initial (fun _ _ => True) s ∧ ¬ s.AtMostOnce := by
  have hlog : (run step smallEndpoint failedAnswer).map (·.log) =
      some [smallAnswer, .invoked 1 7, .invoked 1 7] := by decide
  obtain ⟨s, hs, hlog⟩ := Option.map_eq_some_iff.mp hlog
  refine ⟨s, .run_of_some (.start ⟨rfl, rfl, rfl⟩) hs, fun h => ?_⟩
  have hcount := h.invoked 1 7
  rw [hlog] at hcount
  exact absurd hcount (by decide)

end TinyCLR.Messaging
