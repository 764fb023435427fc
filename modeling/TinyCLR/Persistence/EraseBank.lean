import TinyCLR.Library.TransitionSystem
import TinyCLR.Persistence.Bank

/-!
# Erasing and formatting the other bank

When the bank in use is full `AdvanceState` prepares the other one. It starts in `STATE_Erase`,
erases in `STATE_EraseSector` one block for each turn of its loop, under `m_eraseIndex`, then
formats the bank and goes on to `STATE_CopyToOtherBank`. The other states of the loop, the
mutators that run between its turns and what they do to the contents of the bank are an
environment that neither enters nor leaves `STATE_EraseSector`.
-/

namespace TinyCLR.Persistence

open TransitionSystem

/-- The states of `AdvanceState`. -/
inductive State where
  | flushNextObject
  | idle
  | erase
  | eraseSector
  | copyToOtherBank
  | copyBackToRam
  | switchBank
  deriving DecidableEq, Repr

/-- What the manager keeps of the bank it prepares; `stream` is the range of blocks under it,
which changes when the banks are switched. `erasedBlocks` are the blocks whose erase the device
has confirmed since `STATE_Erase`, and `formatted` is what `Format` answered, which
`AdvanceState` drops; both are history only. -/
structure Eraser where
  state : State
  stream : Geometry
  bankB : Bank
  eraseIndex : Nat
  erasedBlocks : List Nat
  formatted : Bool

/-- What the device does in one turn of the loop. -/
structure Outcome where
  erase : EraseOutcome
  format : Bank.FormatOutcome

/-- A turn of the loop of `AdvanceState`, forced or with enough idle time when `mayRun`, or
anything that the rest of the runtime does: to the contents of the bank at any time, to the
state and to the choice of the bank outside `STATE_EraseSector`. -/
inductive Action where
  | advance (mayRun : Bool) (o : Outcome)
  | touchBank (bankB : Bank)
  | changeState (state : State) (stream : Geometry) (bankB : Bank)

namespace Eraser

def advanceErase (s : Eraser) : Eraser :=
  { s with state := .eraseSector, eraseIndex := 0, erasedBlocks := [] }

def advanceEraseSector (s : Eraser) (o : Outcome) : Option Eraser :=
  let (result, bankB, eraseIndex) := s.bankB.erase s.stream o.erase s.eraseIndex
  if result then
    (bankB.format s.stream o.format).map fun (formatted, bankB) =>
      { s with
        state := .copyToOtherBank, bankB := bankB, eraseIndex := eraseIndex,
        erasedBlocks := s.eraseIndex :: s.erasedBlocks, formatted := formatted }
  else some { s with bankB := bankB, eraseIndex := eraseIndex }

def step (s : Eraser) : Action → Option Eraser
  | .advance mayRun o =>
      match s.state with
      | .erase => some (if mayRun then s.advanceErase else s)
      | .eraseSector => if mayRun then s.advanceEraseSector o else some s
      | _ => none
  | .touchBank bankB => some { s with bankB := bankB }
  | .changeState state stream bankB =>
      if s.state = .eraseSector ∨ state = .eraseSector then none
      else some { s with state := state, stream := stream, bankB := bankB }

/-- What the step to `STATE_CopyToOtherBank` is meant to leave: every block erased, and in the
formatted bank no header of an earlier generation, so that objects will go right behind the
bank header. -/
structure Prepared (s : Eraser) : Prop where
  everyBlockErased : ∀ block < s.stream.blockCount, block ∈ s.erasedBlocks
  noGoodHeader : ∀ p, s.stream.start ≤ p → p + ObjectHeader.words ≤ s.stream.finish →
    ObjectHeader.isGoodHeader (s.bankB.read s.stream) p = false
  current : s.formatted = true → ∃ header,
    s.bankB.bankHeader = some header ∧ s.bankB.current = some (Bank.firstObjectHeader header)

/-- Every step from `STATE_EraseSector` to `STATE_CopyToOtherBank` leaves a prepared bank. -/
def PreparedWhenCopying (s : Eraser) (_ : Action) (s' : Eraser) : Prop :=
  s.state = .eraseSector → s'.state = .copyToOtherBank → s'.Prepared

/-- The device confirms the erase of the block under `m_eraseIndex`. -/
def EraseSucceeds (s : Eraser) : Action → Prop
  | .advance mayRun o =>
      s.state = .eraseSector ∧ mayRun = true ∧ s.eraseIndex < s.stream.blockCount ∧
        o.erase.ok = true
  | .touchBank _ => False
  | .changeState _ _ _ => False

/-- The bank has one block, or the erase of the next one does not succeed. -/
def OneBlockOrFailure (s : Eraser) (a : Action) (_ : Eraser) : Prop :=
  s.stream.blockCount = 1 ∨ ¬ EraseSucceeds s a

/-- In `STATE_EraseSector` no erase has succeeded yet: the first success leaves the state. -/
def NothingErasedYet (s : Eraser) : Prop :=
  s.state = .eraseSector → s.erasedBlocks = []

/-- A turn in which the erase does not succeed stays in `STATE_EraseSector`. -/
theorem advanceEraseSector_failed {s s' : Eraser} {o : Outcome}
    (hfail : ¬(s.eraseIndex < s.stream.blockCount ∧ o.erase.ok = true))
    (h : s.advanceEraseSector o = some s') :
    s'.state = s.state ∧ s'.erasedBlocks = s.erasedBlocks := by
  have hresult : (s.bankB.erase s.stream o.erase s.eraseIndex).1 = false := by
    unfold Bank.erase
    split
    · rfl
    · simp only [Bool.eq_false_iff]
      intro hok
      exact hfail ⟨by omega, hok⟩
  simp only [advanceEraseSector, hresult, Bool.false_eq_true, if_false, Option.some.injEq] at h
  subst h
  exact ⟨rfl, rfl⟩

/-- What a turn with a successful erase does. -/
theorem advanceEraseSector_succeeded {s s' : Eraser} {o : Outcome}
    (hindex : s.eraseIndex < s.stream.blockCount) (hok : o.erase.ok = true)
    (h : s.advanceEraseSector o = some s') :
    ∃ formatted bankB,
      ((s.bankB.eraseBlock s.stream o.erase s.eraseIndex).reload s.stream).format s.stream
        o.format = some (formatted, bankB) ∧
      s' = { s with
        state := .copyToOtherBank, bankB := bankB, eraseIndex := s.eraseIndex + 1,
        erasedBlocks := s.eraseIndex :: s.erasedBlocks, formatted := formatted } := by
  have hresult : s.bankB.erase s.stream o.erase s.eraseIndex =
      (true, (s.bankB.eraseBlock s.stream o.erase s.eraseIndex).reload s.stream,
        s.eraseIndex + 1) := by
    simp only [Bank.erase, if_neg (show ¬ s.stream.blockCount ≤ s.eraseIndex by omega), hok]
  simp only [advanceEraseSector, hresult, if_true, Option.map_eq_some_iff] at h
  obtain ⟨⟨formatted, bankB⟩, hformat, rfl⟩ := h
  exact ⟨formatted, bankB, hformat, rfl⟩

/-- A bank of one block is prepared by a successful erase. -/
theorem prepared_of_one_block {s : Eraser} {o : Outcome} {formatted : Bool} {bankB : Bank}
    (hone : s.stream.blockCount = 1) (hindex : s.eraseIndex < s.stream.blockCount)
    (hok : o.erase.ok = true)
    (hformat : ((s.bankB.eraseBlock s.stream o.erase s.eraseIndex).reload s.stream).format
      s.stream o.format = some (formatted, bankB)) :
    Prepared { s with
      state := .copyToOtherBank, bankB := bankB, eraseIndex := s.eraseIndex + 1,
      erasedBlocks := s.eraseIndex :: s.erasedBlocks, formatted := formatted } := by
  have hzero : s.eraseIndex = 0 := by omega
  rw [hzero] at hformat
  have hblank := Bank.reload_blank (Bank.eraseBlock_blank (b := s.bankB) hok hone)
  have hform := Bank.format_blank hblank hformat
  constructor
  · intro block hblock
    have : block = s.eraseIndex := by
      dsimp only at hblock
      omega
    simp [this]
  · intro p hstart hfin
    have hwords : ObjectHeader.words = 14 := rfl
    have hsig := (hform.leftover p hstart (by dsimp only at hfin; omega)).not_signature
    simp [ObjectHeader.isGoodHeader, ObjectHeader.hasGoodSignature, ObjectHeader.signature, hsig]
  · exact hform.current

/-- After one successful erase the bank is prepared exactly when that was the only block. -/
theorem erased_prepared_iff {s s' : Eraser} {o : Outcome} (hs : s.erasedBlocks = [])
    (hindex : s.eraseIndex < s.stream.blockCount) (hok : o.erase.ok = true)
    (h : s.advanceEraseSector o = some s') : s'.Prepared ↔ s.stream.blockCount = 1 := by
  obtain ⟨formatted, bankB, hformat, rfl⟩ := advanceEraseSector_succeeded hindex hok h
  constructor
  · intro hprep
    have hpos := s.stream.blockCount_pos
    by_contra hne
    -- two blocks cannot both be the one that was erased
    have h0 := hprep.everyBlockErased 0 hpos
    have h1 := hprep.everyBlockErased 1 (by dsimp only; omega)
    simp only [hs, List.mem_singleton] at h0 h1
    omega
  · intro hone
    exact prepared_of_one_block hone hindex hok hformat

/-- A turn in `STATE_EraseSector`. -/
theorem advance_prepared_iff {s s' : Eraser} {o : Outcome} (hstate : s.state = .eraseSector)
    (hs : s.erasedBlocks = []) (h : s.advanceEraseSector o = some s') :
    NothingErasedYet s' ∧
      (PreparedWhenCopying s (.advance true o) s' ↔ OneBlockOrFailure s (.advance true o) s') := by
  by_cases hsucc : s.eraseIndex < s.stream.blockCount ∧ o.erase.ok = true
  · have hiff := erased_prepared_iff hs hsucc.1 hsucc.2 h
    obtain ⟨formatted, bankB, hformat, rfl⟩ :=
      advanceEraseSector_succeeded hsucc.1 hsucc.2 h
    refine ⟨fun hno => absurd hno (show State.copyToOtherBank ≠ .eraseSector by decide), ?_⟩
    have hyes : EraseSucceeds s (.advance true o) := ⟨hstate, rfl, hsucc⟩
    simp only [PreparedWhenCopying, OneBlockOrFailure, hstate, hiff, hyes, not_true, or_false,
      forall_const]
  · obtain ⟨hsame, herased⟩ := advanceEraseSector_failed hsucc h
    refine ⟨fun _ => herased.trans hs, ?_⟩
    constructor
    · intro _
      exact Or.inr fun hyes => hsucc hyes.2.2
    · intro _ _ hcopy
      rw [hsame, hstate] at hcopy
      cases hcopy

/-- The only other state in which the loop works for this bank is `STATE_Erase`. -/
theorem advance_outside {s s' : Eraser} {mayRun : Bool} {o : Outcome}
    (hstate : s.state ≠ .eraseSector) (h : step s (.advance mayRun o) = some s') :
    s.state = .erase ∧ s' = if mayRun then s.advanceErase else s := by
  simp only [step] at h
  split at h
  case h_1 herase => exact ⟨herase, (Option.some.inj h).symm⟩
  case h_2 hsector => exact absurd hsector hstate
  case h_3 => cases h

/-- One step from a state in which no erase has succeeded. -/
theorem step_prepared_iff (s : Eraser) (a : Action) (s' : Eraser) (hs : NothingErasedYet s)
    (h : step s a = some s') :
    NothingErasedYet s' ∧ (PreparedWhenCopying s a s' ↔ OneBlockOrFailure s a s') := by
  by_cases hstate : s.state = .eraseSector
  · cases a with
    | advance mayRun o =>
        cases mayRun with
        | true =>
            simp only [step, hstate, if_true] at h
            exact advance_prepared_iff hstate (hs hstate) h
        | false =>
            simp only [step, hstate, Bool.false_eq_true, if_false, Option.some.injEq] at h
            subst h
            refine ⟨hs, fun _ => Or.inr fun hyes => absurd hyes.2.1 (by decide),
              fun _ _ hcopy => ?_⟩
            rw [hstate] at hcopy
            cases hcopy
    | touchBank bankB =>
        simp only [step, Option.some.injEq] at h
        subst h
        refine ⟨hs, fun _ => Or.inr id, fun _ _ hcopy => ?_⟩
        dsimp only at hcopy
        rw [hstate] at hcopy
        cases hcopy
    | changeState state stream bankB => simp [step, hstate] at h
  · refine ⟨?_, fun _ => Or.inr ?_, fun _ hsector => absurd hsector hstate⟩
    · cases a with
      | advance mayRun o =>
          obtain ⟨-, rfl⟩ := advance_outside hstate h
          cases mayRun with
          | true => exact fun _ => rfl
          | false => exact fun hsector => absurd hsector hstate
      | touchBank bankB =>
          simp only [step, Option.some.injEq] at h
          subst h
          exact fun hsector => absurd hsector hstate
      | changeState state stream bankB =>
          simp only [step] at h
          split at h
          case isTrue => cases h
          case isFalse hnot =>
            obtain rfl := Option.some.inj h
            exact fun hsector => absurd (Or.inr hsector) hnot
    · cases a with
      | advance mayRun o => exact fun hyes => hstate hyes.1
      | touchBank bankB => exact id
      | changeState state stream bankB => exact id

/-- Whenever `AdvanceState` moves from `STATE_EraseSector` to `STATE_CopyToOtherBank` in a run,
the other bank is prepared, if and only if in that run no erase succeeds on a bank of more than
one block. -/
theorem prepared_whenever_copying_iff (s : Eraser) (hs : s.state ≠ .eraseSector)
    (as : List Action) :
    EveryStep step PreparedWhenCopying s as ↔ EveryStep step OneBlockOrFailure s as :=
  EveryStep.congr NothingErasedYet step_prepared_iff (fun h => absurd h hs) as

/-- A deleted-generation object of four bytes with its header, as an earlier use of the bank
stored it. -/
def staleObject : List FlashWord :=
  [0x504F5631#32, 0xFFFFFFFF#32, 2964058486#32, 4178903837#32, 2#32, 4#32, 0x1234#32, 7#32, 0#32,
   0x00030015#32, 0#32, 0#32, 4#32, 0x00000103#32, 0xCAFE#32]

/-- Two blocks of forty words at address 1024; the object is at the start of the second one. -/
def staleStart : Eraser :=
  { state := .erase
    stream :=
      { start := 1024, blockCount := 2, blockWords := 40, supportsXIP := true
        blockCount_pos := by decide, blockWords_pos := by decide, inAddressSpace := by decide }
    bankB :=
      { flash := fun p => if p < 1064 then erased else staleObject.getD (p - 1064) erased
        buffer := fun _ => 0, bankHeader := none, current := none }
    eraseIndex := 0
    erasedBlocks := []
    formatted := false }

/-- A device on which everything succeeds. -/
def sound : Outcome :=
  { erase := { ok := true, left := fun _ => 0 }
    format :=
      { write := fun _ => { ok := true, programmed := fun _ => true }
        invalidate := fun _ _ => true
        fuel := 100 } }

def staleRun : List Action := [.advance true sound, .advance true sound]

/-- The same run on a bank of one block of eighty words. -/
theorem prepared_whenever_copying_one_block :
    EveryStep step PreparedWhenCopying
      { staleStart with
        stream :=
          { start := 1024, blockCount := 1, blockWords := 80, supportsXIP := true
            blockCount_pos := by decide, blockWords_pos := by decide
            inAddressSpace := by decide } }
      staleRun := by
  apply (prepared_whenever_copying_iff _ (by decide) staleRun).mpr
  intro s hs
  cases Option.some.inj hs
  exact ⟨Or.inl rfl, fun s' _ => ⟨Or.inl rfl, trivial⟩⟩

/-- After the run the manager copies to a bank whose second block was not erased. -/
theorem staleRun_erased :
    (run step staleStart staleRun).map
      (fun s => (s.state, s.stream.blockCount, s.erasedBlocks)) =
      some (.copyToOtherBank, 2, [0]) := by
  decide +kernel

/-- The old object is still good in it, and new objects will go behind that one. -/
theorem staleRun_current :
    (run step staleStart staleRun).map
      (fun s => (ObjectHeader.isGood (s.bankB.read s.stream) 1064 0, s.bankB.bankHeader,
        s.bankB.current)) =
      some (true, some 1024, some 1079) := by
  decide +kernel

theorem not_prepared_whenever_copying :
    ¬ ∀ (s : Eraser) (as : List Action), s.state ≠ .eraseSector →
      EveryStep step PreparedWhenCopying s as := by
  intro h
  have hevery := h staleStart staleRun (by decide)
  obtain ⟨s, hrun, hfields⟩ := Option.map_eq_some_iff.mp staleRun_erased
  obtain ⟨hstate, hcount, herased⟩ :
      s.state = .copyToOtherBank ∧ s.stream.blockCount = 2 ∧ s.erasedBlocks = [0] := by
    simpa using hfields
  have hlast : step staleStart.advanceErase (.advance true sound) = some s := by
    obtain ⟨s', hstep, hdone⟩ := Option.bind_eq_some_iff.mp hrun
    cases Option.some.inj hstep
    obtain ⟨s'', hstep', hdone'⟩ := Option.bind_eq_some_iff.mp hdone
    exact hstep'.trans hdone'
  have hprep := ((hevery _ rfl).2 s hlast).1 rfl hstate
  have hblock := hprep.everyBlockErased 1 (by omega)
  rw [herased] at hblock
  exact absurd hblock (by decide)

end Eraser

end TinyCLR.Persistence
