import TinyCLR.COM.Usart

/-!
# Flow control keeps the peer informed

The two pending control characters leave in a fixed order, so that they tell the peer the truth
only while an XON that still waits is not overtaken by a new XOFF. The invariant holds in every
interleaving in which that does not happen.
-/

namespace TinyCLR.COM

open RingBuffer TransitionSystem

/-- The last control character that the peer was sent. -/
def lastControl : List Sent → Option UInt8
  | [] => none
  | .control c :: _ => some c
  | .data _ _ :: sent => lastControl sent

namespace Port

variable (p : Port)

/-- No control character is pending. -/
def Settled : Prop := p.flag.txBufferXoff = false ∧ p.flag.txBufferXon = false

/-- What the peer was told agrees with the receive XOFF state, it is not left stopped with an
empty queue unless the clock is, and nothing but control characters was sent while it had us
stopped. -/
structure Informed : Prop where
  xoff : p.Settled → p.flag.rxXoffState = true → lastControl p.sent = some XOFF
  xon : p.Settled → p.flag.rxXoffState = false → .control XOFF ∈ p.sent →
    lastControl p.sent = some XON
  notStuck : p.Settled → lastControl p.sent = some XOFF →
    0 < p.rxQueue.numberOfElements ∨ p.clockStopped = true
  held : ∀ c, .data c true ∉ p.sent

/-! ## The condition -/

/-- No XON waits when a first reason to stop the peer arises. -/
def CanStop : Prop :=
  p.flag.powersave = false → p.flag.rxXoffState = false → p.flag.txBufferXon = false

/-- Power save does not keep the driver from taking back the reason. -/
def CanStart (set : Bool) : Prop := p.flag.powersave = true → set = false

instance : Decidable p.CanStop := inferInstanceAs (Decidable (_ → _ → _))

instance (set : Bool) : Decidable (p.CanStart set) := inferInstanceAs (Decidable (_ → _))

/-- The condition on a step, in the state in which it is taken. -/
def Admitted (timeout : Option Nat) : Action → Prop
  | .addCharToRxBuffer c _ => c ≠ XOFF → c ≠ XON → p.rxQueue.full = false →
      p.rxBufferHighWaterMark ≤ p.rxQueue.numberOfElements + 1 → p.CanStop
  | .removeCharFromTxBuffer now => p.Settled → p.txQueue.isEmpty = false →
      p.stopped timeout now = false
  | .prepareForClockStop => p.CanStop
  | .clockStopFinished => p.CanStart p.flag.xoffClockHalt
  | .readTurn _ => p.CanStart p.flag.xoffFlagFull
  | .discardBuffer fRx => fRx = true → p.CanStart p.flag.xoffFlagFull
  | .writeStore => ∀ flag ∈ p.loaded,
      { flag with txXonState := true } = { p.flag with txXonState := true }
  | _ => True

instance : Decidable p.Settled := inferInstanceAs (Decidable (_ ∧ _))

instance (timeout : Option Nat) : (a : Action) → Decidable (p.Admitted timeout a)
  | .addCharToRxBuffer _ _ => inferInstanceAs (Decidable (_ → _ → _ → _ → _))
  | .removeCharFromTxBuffer _ => inferInstanceAs (Decidable (_ → _ → _))
  | .powerSave _ => .isTrue trivial
  | .prepareForClockStop => inferInstanceAs (Decidable p.CanStop)
  | .clockStopFinished => inferInstanceAs (Decidable (p.CanStart _))
  | .readTurn _ => inferInstanceAs (Decidable (p.CanStart _))
  | .writeLoad _ => .isTrue trivial
  | .writeStore => inferInstanceAs (Decidable (∀ flag ∈ p.loaded, _))
  | .writeTurn _ => .isTrue trivial
  | .discardBuffer _ => inferInstanceAs (Decidable (_ → _))

end Port

/-- A port as it is opened. -/
def Initial (p : Port) : Prop :=
  ∃ hwIn txSize rxSize, 0 < txSize ∧ 0 < rxSize ∧ p = initializePort hwIn txSize rxSize

/-! ## The invariant -/

/-- What the flags say of the peer, as far as they and the history of control characters go. -/
structure Told (flag : Flag) (sent : List Sent) : Prop where
  xonPending : flag.txBufferXon = true → flag.rxXoffState = false
  xoffPending : flag.txBufferXoff = true → flag.txBufferXon = false → flag.rxXoffState = true
  settled : flag.txBufferXoff = false → flag.txBufferXon = false →
    (flag.rxXoffState = true ↔ lastControl sent = some XOFF)

structure Basic (p : Port) : Prop where
  rx : p.rxQueue.Valid
  tx : p.txQueue.Valid
  marks : p.rxBufferLowWaterMark < max 1 p.rxBufferHighWaterMark
  both : p.flag.txSwFlowCtrl = true ∧ p.flag.rxSwFlowCtrl = true
  told : Told p.flag p.sent
  controls : ∀ c, .control c ∈ p.sent → c = XOFF ∨ c = XON
  held : ∀ c, .data c true ∉ p.sent

/-- Each reason to stop the peer is there while it lasts. -/
structure Inv (p : Port) : Prop extends Basic p where
  full : p.flag.xoffFlagFull = true → p.rxBufferLowWaterMark < p.rxQueue.numberOfElements
  halt : p.flag.xoffClockHalt = true → p.clockStopped = true

variable {flag : Flag} {sent : List Sent} {p : Port} {reason : Reason}

theorem lastControl_of_mem {c : UInt8} (h : .control c ∈ sent) :
    ∃ c', .control c' ∈ sent ∧ lastControl sent = some c' := by
  induction sent with
  | nil => cases h
  | cons e sent ih =>
      cases e with
      | control c' => exact ⟨c', List.mem_cons_self, rfl⟩
      | data c' stopped =>
          have hsent : .control c ∈ sent := by simpa using h
          obtain ⟨c', hmem, hlast⟩ := ih hsent
          exact ⟨c', List.mem_cons_of_mem _ hmem, hlast⟩

theorem Inv.informed (h : Inv p) : p.Informed where
  xoff hsettled := (h.told.settled hsettled.1 hsettled.2).mp
  xon hsettled hzero hsent := by
    obtain ⟨c, hmem, hlast⟩ := lastControl_of_mem hsent
    rcases h.controls c hmem with rfl | rfl
    · have hxoff := (h.told.settled hsettled.1 hsettled.2).mpr hlast
      rw [hzero] at hxoff
      cases hxoff
    · exact hlast
  notStuck hsettled hlast := by
    have hstate := (h.told.settled hsettled.1 hsettled.2).mpr hlast
    rw [Flag.rxXoffState, Bool.or_eq_true] at hstate
    rcases hstate with hfull | hhalt
    · have := h.full hfull
      exact .inl (by omega)
    · exact .inr (h.halt hhalt)
  held := h.held

/-! ### The two ways in which the state changes -/

section Flags

variable (flag reason)

theorem rxXoffState_stop : (flag.stop reason).rxXoffState = true := by
  obtain ⟨_, _, _, _, _, full, halt, _, _, _⟩ := flag
  cases reason <;> cases full <;> cases halt <;> rfl

theorem txBufferXon_stop : (flag.stop reason).txBufferXon = flag.txBufferXon := by
  obtain ⟨_, _, _, _, _, full, halt, _, _, _⟩ := flag
  cases reason <;> cases full <;> cases halt <;> rfl

theorem txBufferXoff_stop : (flag.stop reason).txBufferXoff =
    (!flag.rxXoffState || flag.txBufferXoff) := by
  obtain ⟨_, _, _, _, _, full, halt, _, _, _⟩ := flag
  cases reason <;> cases full <;> cases halt <;> rfl

theorem flowCtrl_stop : (flag.stop reason).txSwFlowCtrl = flag.txSwFlowCtrl ∧
    (flag.stop reason).rxSwFlowCtrl = flag.rxSwFlowCtrl := by
  obtain ⟨_, _, _, _, _, full, halt, _, _, _⟩ := flag
  cases reason <;> cases full <;> cases halt <;> exact ⟨rfl, rfl⟩

theorem reasons_stop :
    (flag.stop reason).xoffFlagFull = (flag.xoffFlagFull || reason == .flagFull) ∧
      (flag.stop reason).xoffClockHalt = (flag.xoffClockHalt || reason == .clockHalt) := by
  obtain ⟨_, _, _, _, _, full, halt, _, _, _⟩ := flag
  cases reason <;> cases full <;> cases halt <;> exact ⟨rfl, rfl⟩

theorem txBufferXoff_start : (flag.start reason).txBufferXoff = flag.txBufferXoff := by
  obtain ⟨_, _, _, _, _, full, halt, _, _, _⟩ := flag
  cases reason <;> cases full <;> cases halt <;> rfl

theorem txBufferXon_start : (flag.start reason).txBufferXon =
    (!(flag.start reason).rxXoffState || flag.txBufferXon) := by
  obtain ⟨_, _, _, _, _, full, halt, _, _, _⟩ := flag
  cases reason <;> cases full <;> cases halt <;> rfl

theorem flowCtrl_start : (flag.start reason).txSwFlowCtrl = flag.txSwFlowCtrl ∧
    (flag.start reason).rxSwFlowCtrl = flag.rxSwFlowCtrl := by
  obtain ⟨_, _, _, _, _, full, halt, _, _, _⟩ := flag
  cases reason <;> cases full <;> cases halt <;> exact ⟨rfl, rfl⟩

theorem reasons_start :
    (flag.start reason).xoffFlagFull = (flag.xoffFlagFull && reason != .flagFull) ∧
      (flag.start reason).xoffClockHalt = (flag.xoffClockHalt && reason != .clockHalt) := by
  obtain ⟨_, _, _, _, _, full, halt, _, _, _⟩ := flag
  cases reason <;> cases full <;> cases halt <;> exact ⟨rfl, rfl⟩

end Flags

theorem Told.stop (h : Told flag sent)
    (hcan : flag.rxXoffState = false → flag.txBufferXon = false) :
    Told (flag.stop reason) sent where
  xonPending hxon := by
    rw [txBufferXon_stop] at hxon
    cases hstate : flag.rxXoffState
    · exact absurd ((hcan hstate).symm.trans hxon) Bool.noConfusion
    · exact absurd ((h.xonPending hxon).symm.trans hstate) Bool.noConfusion
  xoffPending _ _ := rxXoffState_stop flag reason
  settled hxoff hxon := by
    rw [txBufferXoff_stop, Bool.or_eq_false_iff, Bool.not_eq_false'] at hxoff
    rw [txBufferXon_stop] at hxon
    exact iff_of_true (rxXoffState_stop flag reason) ((h.settled hxoff.2 hxon).mp hxoff.1)

/-- While a reason is left the state was not zero before. -/
theorem rxXoffState_of_start (hstate : (flag.start reason).rxXoffState = true) :
    flag.rxXoffState = true := by
  rw [Flag.rxXoffState, (reasons_start flag reason).1, (reasons_start flag reason).2,
    Bool.or_eq_true, Bool.and_eq_true, Bool.and_eq_true] at hstate
  rw [Flag.rxXoffState, Bool.or_eq_true]
  exact hstate.imp And.left And.left

theorem Told.start (h : Told flag sent) : Told (flag.start reason) sent := by
  cases hstate : (flag.start reason).rxXoffState
  · have hpending : (flag.start reason).txBufferXon = true := by
      rw [txBufferXon_start, hstate, Bool.not_false, Bool.true_or]
    refine ⟨fun _ => hstate, fun _ hxon => ?_, fun _ hxon => ?_⟩
    · exact absurd (hpending.symm.trans hxon) Bool.noConfusion
    · exact absurd (hpending.symm.trans hxon) Bool.noConfusion
  · have hbefore := rxXoffState_of_start hstate
    have hsame : (flag.start reason).txBufferXon = flag.txBufferXon := by
      rw [txBufferXon_start, hstate, Bool.not_true, Bool.false_or]
    refine ⟨fun hxon => ?_, fun _ _ => hstate, fun hxoff hxon => ?_⟩
    · exact absurd ((h.xonPending (hsame.symm.trans hxon)).symm.trans hbefore) Bool.noConfusion
    · rw [txBufferXoff_start] at hxoff
      exact iff_of_true hstate ((h.settled hxoff (hsame.symm.trans hxon)).mp hbefore)

/-- The characters of the queue and the other bits of the flag word tell the peer nothing. -/
theorem Told.congr {flag' : Flag} (h : Told flag sent)
    (hxoff : flag'.txBufferXoff = flag.txBufferXoff) (hxon : flag'.txBufferXon = flag.txBufferXon)
    (hstate : flag'.rxXoffState = flag.rxXoffState) : Told flag' sent := by
  refine ⟨?_, ?_, ?_⟩
  · rw [hxon, hstate]
    exact h.xonPending
  · rw [hxoff, hxon, hstate]
    exact h.xoffPending
  · rw [hxoff, hxon, hstate]
    exact h.settled

theorem Basic.sendXOFF (h : Basic p) (hcan : p.CanStop) : Basic (p.sendXOFF reason) := by
  rw [Port.sendXOFF]
  split
  · exact h
  · rename_i hpower
    obtain ⟨htx, hrx⟩ := flowCtrl_stop p.flag reason
    exact ⟨h.rx, h.tx, h.marks, ⟨htx.trans h.both.1, hrx.trans h.both.2⟩,
      h.told.stop (hcan (by simpa using hpower)), h.controls, h.held⟩

theorem Basic.sendXON (h : Basic p) : Basic (p.sendXON reason) := by
  rw [Port.sendXON]
  split
  · exact h
  · obtain ⟨htx, hrx⟩ := flowCtrl_start p.flag reason
    exact ⟨h.rx, h.tx, h.marks, ⟨htx.trans h.both.1, hrx.trans h.both.2⟩, h.told.start,
      h.controls, h.held⟩

namespace Inv

theorem sendXOFF (h : Inv p) (hcan : p.CanStop)
    (hfull : reason = .flagFull → p.rxBufferLowWaterMark < p.rxQueue.numberOfElements)
    (hhalt : reason = .clockHalt → p.clockStopped = true) : Inv (p.sendXOFF reason) := by
  refine ⟨h.toBasic.sendXOFF hcan, ?_, ?_⟩ <;> rw [Port.sendXOFF] <;> split
  · exact h.full
  · intro hflag
    rcases Bool.or_eq_true_iff.mp ((reasons_stop p.flag reason).1.symm.trans hflag) with
      hold | hnew
    · exact h.full hold
    · exact hfull (beq_iff_eq.mp hnew)
  · exact h.halt
  · intro hflag
    rcases Bool.or_eq_true_iff.mp ((reasons_stop p.flag reason).2.symm.trans hflag) with
      hold | hnew
    · exact h.halt hold
    · exact hhalt (beq_iff_eq.mp hnew)

/-- The reason that is taken back, where power save does not keep it, needs not last. -/
theorem sendXON (h : Basic p)
    (hfull : p.flag.powersave = true ∨ reason ≠ .flagFull → p.flag.xoffFlagFull = true →
      p.rxBufferLowWaterMark < p.rxQueue.numberOfElements)
    (hhalt : p.flag.powersave = true ∨ reason ≠ .clockHalt → p.flag.xoffClockHalt = true →
      p.clockStopped = true) : Inv (p.sendXON reason) := by
  refine ⟨h.sendXON, ?_, ?_⟩ <;> rw [Port.sendXON] <;> split
  · rename_i hpower
    exact hfull (.inl hpower)
  · intro hflag
    obtain ⟨hold, hne⟩ :=
      Bool.and_eq_true_iff.mp ((reasons_start p.flag reason).1.symm.trans hflag)
    exact hfull (.inr (bne_iff_ne.mp hne)) hold
  · rename_i hpower
    exact hhalt (.inl hpower)
  · intro hflag
    obtain ⟨hold, hne⟩ :=
      Bool.and_eq_true_iff.mp ((reasons_start p.flag reason).2.symm.trans hflag)
    exact hhalt (.inr (bne_iff_ne.mp hne)) hold

/-! ### One lemma for each step -/

theorem addCharToRxBuffer (h : Inv p) {c : UInt8} {now : Nat} {timeout : Option Nat}
    (hadm : p.Admitted timeout (.addCharToRxBuffer c now)) :
    Inv (p.addCharToRxBuffer c now).2 := by
  rw [Port.addCharToRxBuffer]
  split
  · exact { h with told := h.told.congr rfl rfl rfl }
  split
  · exact { h with told := h.told.congr rfl rfl rfl }
  split
  · exact h
  rename_i hnotXoff hnotXon hnotFull
  have hfree : p.rxQueue.full = false := by simpa using hnotFull
  have hcount : (p.rxQueue.push [c]).2.numberOfElements = p.rxQueue.numberOfElements + 1 := by
    rw [Buffer.push_spec h.rx hfree, Buffer.push_one h.rx hfree]
  have hpushed : Inv { p with rxQueue := (p.rxQueue.push [c]).2 } :=
    { h with
      rx := Buffer.push_valid h.rx [c]
      full := fun hflag => by
        have := h.full hflag
        dsimp only
        omega }
  dsimp only
  split
  · rename_i hhigh
    refine hpushed.sendXOFF (hadm ?_ ?_ hfree ?_) (fun _ => ?_) (fun heq => by cases heq)
    · exact fun heq => hnotXoff ⟨h.both.1, heq⟩
    · exact fun heq => hnotXon ⟨h.both.1, heq⟩
    · have := hhigh.1
      omega
    · have := h.marks
      have := hhigh.1
      dsimp only at this ⊢
      omega
  · exact hpushed

theorem removeCharFromTxBuffer (h : Inv p) {timeout : Option Nat} {now : Nat}
    (hadm : p.Admitted timeout (.removeCharFromTxBuffer now)) :
    Inv (p.removeCharFromTxBuffer timeout now).2 := by
  rw [Port.removeCharFromTxBuffer]
  split
  · rename_i hxoff
    refine { h with
      told := ⟨h.told.xonPending, fun hfalse => ?_, fun _ hxon => ?_⟩
      controls := fun c hc => ?_
      held := fun c hc => ?_ }
    · cases hfalse
    · exact iff_of_true (h.told.xoffPending hxoff hxon) rfl
    · rcases List.mem_cons.mp hc with heq | hc
      · exact .inl (Sent.control.inj heq)
      · exact h.controls c hc
    · rcases List.mem_cons.mp hc with heq | hc
      · cases heq
      · exact h.held c hc
  split
  · rename_i hxoff hxon
    refine { h with
      told := ⟨fun hfalse => ?_, fun htrue => absurd htrue hxoff, fun _ _ => ?_⟩
      controls := fun c hc => ?_
      held := fun c hc => ?_ }
    · cases hfalse
    · rw [Flag.rxXoffState]
      refine iff_of_false (fun hstate => ?_) fun hlast =>
        absurd (Option.some.inj hlast) (by decide)
      exact absurd ((h.told.xonPending hxon).symm.trans hstate) Bool.noConfusion
    · rcases List.mem_cons.mp hc with heq | hc
      · exact .inr (Sent.control.inj heq)
      · exact h.controls c hc
    · rcases List.mem_cons.mp hc with heq | hc
      · cases heq
      · exact h.held c hc
  rename_i hxoff hxon
  have hvalid := Buffer.pop_valid h.tx 1
  split
  · rename_i txQueue hpop
    rw [hpop] at hvalid
    exact { h with tx := hvalid }
  · rename_i c rest txQueue hpop
    rw [hpop] at hvalid
    have hqueued : p.txQueue.isEmpty = false := by
      by_contra hempty
      rw [Buffer.pop_empty one_ne_zero (by simpa using hempty)] at hpop
      cases hpop
    have hstopped := hadm ⟨by simpa using hxoff, by simpa using hxon⟩ hqueued
    refine { h with
      tx := hvalid
      told := ⟨h.told.xonPending, h.told.xoffPending, h.told.settled⟩
      controls := fun c' hc => ?_
      held := fun c' hc => ?_ }
    · exact h.controls c' (by simpa using hc)
    · rcases List.mem_cons.mp hc with heq | hc
      · rw [hstopped] at heq
        cases heq
      · exact h.held c' hc

theorem prepareForClockStop (h : Inv p) (hadm : p.CanStop) : Inv p.prepareForClockStop := by
  rw [Port.prepareForClockStop]
  have hstopped : Inv { p with clockStopped := true } := { h with halt := fun _ => rfl }
  split
  · exact hstopped.sendXOFF hadm (fun heq => by cases heq) fun _ => rfl
  · exact hstopped

theorem clockStopFinished (h : Inv p) (hadm : p.CanStart p.flag.xoffClockHalt) :
    Inv p.clockStopFinished := by
  rw [Port.clockStopFinished]
  dsimp only
  rw [if_pos h.both.2]
  refine sendXON { h with } (fun _ => h.full) fun hpower hflag => ?_
  rcases hpower with hpower | hne
  · exact absurd ((hadm hpower).symm.trans hflag) Bool.noConfusion
  · exact absurd rfl hne

theorem readTurn (h : Inv p) {toRead : Nat} (hadm : p.CanStart p.flag.xoffFlagFull) :
    Inv (p.readTurn toRead).2 := by
  have hvalid := Buffer.pop_valid h.rx toRead
  have hbasic : Basic { p with rxQueue := (p.rxQueue.pop toRead).2 } := { h with rx := hvalid }
  rw [Port.readTurn]
  dsimp only
  rcases Nat.eq_zero_or_pos toRead with rfl | hpos
  · rw [Buffer.pop_zero, if_pos rfl]
    exact h
  rcases hempty : p.rxQueue.isEmpty with _ | _
  · obtain ⟨hlength, -, hcount, -⟩ := Buffer.pop_spec h.rx hpos.ne' hempty
    obtain ⟨hstretch, -⟩ := Buffer.stretch_spec h.rx hempty
    have hmoved : (p.rxQueue.pop toRead).1 ≠ [] := by
      rw [← List.length_pos_iff, hlength]
      exact lt_min hstretch hpos
    rw [if_neg hmoved]
    split
    · refine sendXON hbasic (fun hpower hflag => ?_) fun _ => h.halt
      rcases hpower with hpower | hne
      · exact absurd ((hadm hpower).symm.trans hflag) Bool.noConfusion
      · exact absurd rfl hne
    · rename_i hcross
      refine { hbasic with full := fun hflag => ?_, halt := h.halt }
      have hfull := h.full hflag
      by_contra hlow
      refine hcross ⟨Nat.le_of_not_lt hlow, ?_, h.both.2⟩
      rw [hlength]
      omega
  · rw [Buffer.pop_empty hpos.ne' hempty, if_pos rfl]
    rw [Buffer.pop_empty hpos.ne' hempty] at hbasic
    refine { hbasic with full := fun hflag => ?_, halt := h.halt }
    have hfull := h.full hflag
    rw [(Buffer.isEmpty_iff h.rx).mp hempty] at hfull
    exact absurd hfull (Nat.not_lt_zero _)

theorem writeStore (h : Inv p) {flag : Flag}
    (hadm : { flag with txXonState := true } = { p.flag with txXonState := true }) :
    Inv (p.writeStore flag) := by
  have hinv : Inv { p with flag := { p.flag with txXonState := true }, loaded := none } :=
    { h with told := h.told.congr rfl rfl rfl }
  rw [Port.writeStore, hadm]
  exact hinv

theorem writeTurn (h : Inv p) (chars : List UInt8) : Inv (p.writeTurn chars).2 :=
  { h with tx := Buffer.push_valid h.tx chars }

theorem discardBuffer (h : Inv p) {fRx : Bool}
    (hadm : fRx = true → p.CanStart p.flag.xoffFlagFull) : Inv (p.discardBuffer fRx) := by
  rw [Port.discardBuffer]
  split
  · rename_i hrx
    dsimp only
    rw [if_pos h.both.2]
    refine sendXON { h with rx := Buffer.pop_valid (Buffer.pop_valid h.rx _) _ }
      (fun hpower hflag => ?_) fun _ => h.halt
    rcases hpower with hpower | hne
    · exact absurd ((hadm hrx hpower).symm.trans hflag) Bool.noConfusion
    · exact absurd rfl hne
  · exact { h with tx := Buffer.pop_valid (Buffer.pop_valid h.tx _) _ }

theorem step (h : Inv p) {timeout : Option Nat} {a : Action} {p' : Port}
    (hadm : p.Admitted timeout a) (hstep : step timeout p a = some p') : Inv p' := by
  cases a with
  | addCharToRxBuffer c now =>
      obtain rfl := Option.some.inj hstep
      exact h.addCharToRxBuffer hadm
  | removeCharFromTxBuffer now =>
      obtain rfl := Option.some.inj hstep
      exact h.removeCharFromTxBuffer hadm
  | powerSave enable =>
      obtain rfl := Option.some.inj hstep
      exact { h with told := h.told.congr rfl rfl rfl }
  | prepareForClockStop =>
      obtain rfl := Option.some.inj hstep
      exact h.prepareForClockStop hadm
  | clockStopFinished =>
      obtain rfl := Option.some.inj hstep
      exact h.clockStopFinished hadm
  | readTurn toRead =>
      obtain rfl := Option.some.inj hstep
      exact h.readTurn hadm
  | writeLoad now =>
      rw [COM.step] at hstep
      split at hstep
      · obtain rfl := Option.some.inj hstep
        exact { h with }
      · cases hstep
  | writeStore =>
      obtain ⟨flag, hloaded, rfl⟩ := Option.map_eq_some_iff.mp hstep
      exact h.writeStore (hadm flag hloaded)
  | writeTurn chars =>
      obtain rfl := Option.some.inj hstep
      exact h.writeTurn chars
  | discardBuffer fRx =>
      obtain rfl := Option.some.inj hstep
      exact h.discardBuffer hadm

theorem of_initial (h : Initial p) : Inv p := by
  obtain ⟨hwIn, txSize, rxSize, htx, hrx, rfl⟩ := h
  refine ⟨⟨⟨hrx, hrx, fun _ => rfl⟩, ⟨htx, htx, fun _ => rfl⟩, ?_, ⟨rfl, rfl⟩, ?_, ?_, ?_⟩, ?_, ?_⟩
  · dsimp only [initializePort]
    omega
  · exact ⟨fun h => (by cases h), fun h => (by cases h), fun _ _ =>
      iff_of_false Bool.false_ne_true fun hnone => by cases hnone⟩
  · exact fun c hc => absurd hc List.not_mem_nil
  · exact fun c => List.not_mem_nil
  · exact fun h => (by cases h)
  · exact fun h => (by cases h)

end Inv

/-- In every interleaving in which no XON that waits is overtaken by a first XOFF, power save
does not keep a reason that is taken back, nothing changes the flags while `Write` has them in a
register and no character of the queue is sent while the peer has us stopped, the peer is
informed. -/
theorem flow_sound (timeout : Option Nat) {p : Port}
    (h : Reachable (step timeout) Initial (Port.Admitted · timeout) p) : p.Informed :=
  (h.invariant Inv (fun _ => Inv.of_initial) fun _ _ _ hinv hadm => hinv.step hadm).informed

/-! ## Two runs of a port with queues of four characters -/

def smallPort : Port := initializePort false 4 4

theorem smallPort_initial : Initial smallPort := ⟨false, 4, 4, by decide, by decide, rfl⟩

/-- Three characters arrive and stop the peer, who is started again when they are read. -/
def stopAndStart : List Action :=
  [.addCharToRxBuffer 65 0, .addCharToRxBuffer 66 0, .addCharToRxBuffer 67 0,
    .removeCharFromTxBuffer 0, .readTurn 4, .removeCharFromTxBuffer 0]

theorem flow_sound_sample :
    ∃ p ∈ run (step none) smallPort stopAndStart,
      p.sent = [.control XON, .control XOFF] ∧ p.Informed := by
  have hsent : (run (step none) smallPort stopAndStart).map (·.sent) =
      some [.control XON, .control XOFF] := by decide
  obtain ⟨p, hp, hsent⟩ := Option.map_eq_some_iff.mp hsent
  have hadm : AdmittedRun (step none) (Port.Admitted · none) smallPort stopAndStart := by decide
  exact ⟨p, hp, hsent, flow_sound none (.run (.start smallPort_initial) hadm hp)⟩

/-- The XON still waits when three more characters arrive. -/
def overtaken : List Action :=
  [.addCharToRxBuffer 65 0, .addCharToRxBuffer 66 0, .addCharToRxBuffer 67 0,
    .removeCharFromTxBuffer 0, .readTurn 4,
    .addCharToRxBuffer 68 0, .addCharToRxBuffer 69 0, .addCharToRxBuffer 70 0,
    .removeCharFromTxBuffer 0, .removeCharFromTxBuffer 0]

theorem not_flow_sound_sample :
    ∃ p, Reachable (step none) Initial (fun _ _ => True) p ∧ ¬ p.Informed := by
  have hend : (run (step none) smallPort overtaken).map
      (fun p => (decide p.Settled, p.flag.rxXoffState, lastControl p.sent)) =
        some (true, true, some XON) := by decide
  obtain ⟨p, hp, hend⟩ := Option.map_eq_some_iff.mp hend
  obtain ⟨hsettled, hend⟩ := Prod.mk.inj hend
  obtain ⟨hstate, hlast⟩ := Prod.mk.inj hend
  refine ⟨p, .run_of_some (.start smallPort_initial) hp, fun h => ?_⟩
  have hxoff := h.xoff (of_decide_eq_true hsettled) hstate
  exact absurd (Option.some.inj (hlast.symm.trans hxoff)) (by decide)

end TinyCLR.COM
