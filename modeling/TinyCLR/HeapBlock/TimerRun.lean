import TinyCLR.HeapBlock.Timer

/-!
# Runs of a timer

Where no call of `Change` fails halfway and no timer is spawned without a time, a recurring timer
has a proper period, and rescheduling puts it on the next one.
-/

namespace TinyCLR.HeapBlock

namespace Timer

/-! ## The period -/

theorem wrap_of_bounds {time : Int} (hle : -2 ^ 63 ≤ time) (hlt : time < 2 ^ 63) :
    wrap time = time := by
  rw [wrap, Int.bmod_eq_of_le (by omega) (by omega)]

theorem scaled_int32 {time : Int} (hle : -2 ^ 31 ≤ time) (hlt : time < 2 ^ 31) :
    scaled .int32 time = time * toMilliseconds := by
  rw [scaled, if_pos rfl, toMilliseconds]
  exact wrap_of_bounds (by omega) (by omega)

theorem Arg.time_int32 {arg : Arg} {time : Int} (h : arg.time .int32 = some time)
    (hfinite : time ≠ timeoutInfinite) : -2 ^ 31 ≤ time ∧ time < 2 ^ 31 := by
  simp only [Arg.time, Option.some.injEq] at h
  split at h
  · exact absurd h.symm hfinite
  · rw [← h]
    exact ⟨arg.s4.le_toInt, arg.s4.toInt_lt⟩

/-- A time that is neither zero nor infinite is not scaled to zero. -/
theorem scaled_ne_zero {input : Input} {arg : Arg} {time : Int} (h : arg.time input = some time)
    (hzero : time ≠ 0) (hfinite : time ≠ timeoutInfinite) : scaled input time ≠ 0 := by
  cases input with
  | int32 =>
      obtain ⟨hle, hlt⟩ := Arg.time_int32 h hfinite
      rw [scaled_int32 hle hlt, toMilliseconds]
      omega
  | timeSpan => exact hzero
  | absolute => exact hzero

/-- A recurring timer has a period. -/
def HasPeriod (t : Timer) : Prop :=
  t.recurring = true → 0 < t.timeFrequency ∧ t.timeFrequency ≤ maxTime

section Change

variable {t : Timer} {input : Input} {due period : Arg} (machineTime : Int)

theorem setFrequency_hasPeriod (hperiod : period.time input = some t.timeFrequency)
    (h : Period input t.timeFrequency) : HasPeriod (setFrequency input t).2 := by
  by_cases hnone : t.timeFrequency = 0 ∨ t.timeFrequency = timeoutInfinite
  · rw [setFrequency, if_pos hnone]
    intro hrecurring
    cases hrecurring
  · obtain ⟨hzero, hfinite⟩ := not_or.mp hnone
    have hrange : InRange (scaled input t.timeFrequency) := (h.resolve_left hzero).resolve_left hfinite
    have hne := scaled_ne_zero hperiod hzero hfinite
    rw [setFrequency, if_neg hnone, if_pos hrange]
    intro _
    exact ⟨lt_of_le_of_ne hrange.1 hne.symm, hrange.2⟩

theorem setFrequency_timeLastExpiration :
    (setFrequency input t).2.timeLastExpiration = t.timeLastExpiration := by
  rw [setFrequency]
  split_ifs <;> rfl

/-- No call touches the last expiration, and one that succeeds leaves a period to a recurring
timer. -/
theorem change_cases :
    (change input due period machineTime t).2.timeLastExpiration = t.timeLastExpiration ∧
      (HasPeriod (change input due period machineTime t).2 ∨
        (change input due period machineTime t).1 ≠ .ok ∧
          (change input due period machineTime t).2.recurring = t.recurring ∨
        (change input due period machineTime t).2 = t) := by
  by_cases hrefused : Refused t input due
  · rw [change_refused machineTime hrefused]
    exact ⟨rfl, .inr (.inr rfl)⟩
  obtain ⟨-, -, expire, hdue⟩ := not_refused hrefused
  cases hperiod : period.time input with
  | none =>
      rw [change_nullPeriod machineTime hrefused hdue hperiod]
      exact ⟨rfl, .inr (.inl ⟨HRESULT.noConfusion, rfl⟩)⟩
  | some frequency =>
      by_cases hvalid : DueTime input expire
      · rw [change_dueTime machineTime hrefused hdue hperiod hvalid]
        refine ⟨setFrequency_timeLastExpiration, ?_⟩
        by_cases hfrequency : Period input frequency
        · exact .inl (setFrequency_hasPeriod hperiod hfrequency)
        · rw [setFrequency_outOfRange hfrequency]
          exact .inr (.inl ⟨HRESULT.noConfusion, rfl⟩)
      · rw [change_times machineTime hrefused hdue hperiod, setExpire_outOfRange machineTime hvalid]
        exact ⟨rfl, .inr (.inl ⟨HRESULT.noConfusion, rfl⟩)⟩

theorem change_hasPeriod (h : HasPeriod t) (hharmless : Harmless t input due period machineTime) :
    HasPeriod (change input due period machineTime t).2 := by
  rcases (change_cases machineTime).2 with hgood | ⟨hfails, -⟩ | hsame
  · exact hgood
  · rw [(atomic_iff_harmless machineTime).mpr hharmless hfails]
    exact h
  · rw [hsame]
    exact h

end Change

theorem fixedPeriod_bounds {anyChange : Nat} {add : Int} (h : fixedPeriod anyChange = some add) :
    0 < add ∧ add ≤ maxTime := by
  unfold fixedPeriod at h
  split at h
  all_goals cases h
  all_goals decide

theorem adjustNextFixedExpire_hasPeriod {t : Timer} (h : HasPeriod t) (baseTime : Int)
    (fNext : Bool) : HasPeriod (adjustNextFixedExpire baseTime fNext t) := by
  rw [adjustNextFixedExpire]
  cases hadd : fixedPeriod t.anyChange with
  | none => exact h
  | some add => exact fun _ => fixedPeriod_bounds hadd

theorem adjustNextFixedExpire_timeLastExpiration (t : Timer) (baseTime : Int) (fNext : Bool) :
    (adjustNextFixedExpire baseTime fNext t).timeLastExpiration = t.timeLastExpiration := by
  rw [adjustNextFixedExpire]
  cases fixedPeriod t.anyChange <;> rfl

/-! ## Rescheduling -/

/-- A time that leaves room for a period in both directions. -/
def Moderate (time : Int) : Prop := -2 ^ 62 ≤ time ∧ time < 2 ^ 62

theorem moderate_zero : Moderate 0 := ⟨by decide, by decide⟩

/-- The clocks show such times. -/
structure Clocks.Moderate (clocks : Clocks) : Prop where
  machineTime : Timer.Moderate clocks.machineTime
  localTime : Timer.Moderate clocks.localTime

theorem Clocks.Moderate.now {clocks : Clocks} (h : clocks.Moderate) (t : Timer) :
    Timer.Moderate (t.now clocks) := by
  rw [Timer.now]
  split
  · exact h.localTime
  · exact h.machineTime

/-- The expiration is not in the past, a whole number of periods behind the last one, and at most
one period ahead. -/
structure OnSchedule (t : Timer) (now expire : Int) : Prop where
  future : now ≤ expire
  periods : t.timeFrequency ∣ expire - t.timeLastExpiration
  near : expire ≤ max now t.timeLastExpiration + t.timeFrequency

theorem reschedule_onSchedule {t : Timer} (hrecurring : t.recurring = true)
    (henabled : t.enabledTimer = true) (hperiod : HasPeriod t)
    (hlast : Moderate t.timeLastExpiration) {clocks : Clocks} (hclocks : clocks.Moderate) :
    OnSchedule t (t.now clocks) (reschedule clocks t).timeExpire := by
  obtain ⟨hpos, hle⟩ := hperiod hrecurring
  obtain ⟨hnow, hnow'⟩ := hclocks.now t
  obtain ⟨hlast, hlast'⟩ := hlast
  have hmax : t.timeFrequency < 2 ^ 62 := lt_of_le_of_lt hle (by decide)
  have hnext : wrap (t.timeLastExpiration + t.timeFrequency) =
      t.timeLastExpiration + t.timeFrequency := wrap_of_bounds (by omega) (by omega)
  rw [reschedule, if_pos ⟨hrecurring, henabled⟩]
  simp only [hnext]
  split
  case isTrue hpast =>
    -- As many periods as were missed are skipped.
    have hbehind : wrap (t.now clocks - (t.timeLastExpiration + t.timeFrequency)) =
        t.now clocks - (t.timeLastExpiration + t.timeFrequency) :=
      wrap_of_bounds (by omega) (by omega)
    have hnonneg := Int.emod_nonneg (t.now clocks - (t.timeLastExpiration + t.timeFrequency))
      hpos.ne'
    have hrest := Int.emod_lt_of_pos (t.now clocks - (t.timeLastExpiration + t.timeFrequency)) hpos
    have hskip : t.timeFrequency ∣ t.now clocks - (t.timeLastExpiration + t.timeFrequency) -
        (t.now clocks - (t.timeLastExpiration + t.timeFrequency)) % t.timeFrequency :=
      Int.dvd_self_sub_emod
    rw [hbehind, Int.tmod_eq_emod_of_nonneg (by omega)]
    generalize (t.now clocks - (t.timeLastExpiration + t.timeFrequency)) % t.timeFrequency = rest
      at hnonneg hrest hskip ⊢
    rw [wrap_of_bounds (by omega) (by omega)]
    refine ⟨by omega, ?_, by omega⟩
    have hsplit : t.now clocks - rest + t.timeFrequency - t.timeLastExpiration =
        t.now clocks - (t.timeLastExpiration + t.timeFrequency) - rest + 2 * t.timeFrequency := by
      ring
    rw [hsplit]
    exact dvd_add hskip (Dvd.intro_left 2 rfl)
  case isFalse hfuture =>
    refine ⟨not_lt.mp hfuture, ?_, by omega⟩
    rw [add_sub_cancel_left]

/-! ## Runs -/

/-- What happens to a timer, with what it reads then. -/
inductive Action where
  | change (input : Input) (due period : Arg) (machineTime : Int)
  | destroy
  | trigger
  | spawn (clocks : Clocks) (pushed : Bool)
  | terminate (clocks : Clocks)
  | timeEvent (baseTime : Int) (fNext : Bool)

def step (t : Timer) : Action → Option Timer
  | .change input due period machineTime => some (Timer.change input due period machineTime t).2
  | .destroy => some (Timer.destroy t)
  | .trigger => some (Timer.trigger t)
  | .spawn clocks pushed =>
      if t.triggered then some (spawnTimer clocks pushed t) else none
  | .terminate clocks =>
      if t.executing then some (threadTerminationCallback clocks t) else none
  | .timeEvent baseTime fNext =>
      if t.enabledTimer ∧ t.anyChange ≠ 0 then some (adjustNextFixedExpire baseTime fNext t)
      else none

/-- The timers that a constructor leaves, whether it succeeds or not. -/
def Created (t : Timer) : Prop :=
  (∃ anyChange baseTime, t = createFixed anyChange baseTime) ∨
    ∃ input due period machineTime, t = (create input due period machineTime).2

/-- Calls of `Change` are harmless, and no timer is spawned that has meanwhile been set to no time
at all, or to one far out. -/
def Admitted (t : Timer) : Action → Prop
  | .change input due period machineTime => Harmless t input due period machineTime
  | .spawn _ _ => Moderate t.timeExpire
  | _ => True

/-- What holds of a timer at all times. -/
structure Inv (t : Timer) : Prop where
  hasPeriod : HasPeriod t
  moderate : Moderate t.timeLastExpiration

theorem Inv.created {t : Timer} (h : Created t) : Inv t := by
  rcases h with ⟨anyChange, baseTime, rfl⟩ | ⟨input, due, period, machineTime, rfl⟩
  · constructor
    · apply adjustNextFixedExpire_hasPeriod
      intro hrecurring
      cases hrecurring
    · rw [createFixed, adjustNextFixedExpire_timeLastExpiration]
      exact moderate_zero
  · have hnot : HasPeriod { createInstance with absoluteTimer := decide (input = .absolute) } := by
      intro hrecurring
      cases hrecurring
    obtain ⟨hlast, hperiod⟩ := @change_cases
      { createInstance with absoluteTimer := decide (input = .absolute) } input due period machineTime
    constructor
    · rcases hperiod with hgood | ⟨-, hsame⟩ | hsame
      · exact hgood
      · intro hrecurring
        rw [create, hsame] at hrecurring
        cases hrecurring
      · rw [create, hsame]
        exact hnot
    · rw [create, hlast]
      exact moderate_zero

theorem Inv.reschedule {t : Timer} (h : Inv t) (clocks : Clocks) : Inv (reschedule clocks t) := by
  rw [Timer.reschedule]
  split
  · exact ⟨h.hasPeriod, h.moderate⟩
  · exact h

theorem Inv.step {t t' : Timer} {a : Action} (h : Inv t) (hadmitted : Admitted t a)
    (hstep : step t a = some t') : Inv t' := by
  cases a with
  | change input due period machineTime =>
      cases hstep
      constructor
      · exact change_hasPeriod machineTime h.hasPeriod hadmitted
      · rw [(change_cases machineTime).1]
        exact h.moderate
  | destroy =>
      cases hstep
      exact ⟨h.hasPeriod, h.moderate⟩
  | trigger =>
      cases hstep
      rw [trigger]
      split
      · exact h
      · exact ⟨h.hasPeriod, h.moderate⟩
  | spawn clocks pushed =>
      rw [Timer.step, Option.ite_none_right_eq_some] at hstep
      obtain ⟨-, hspawn⟩ := hstep
      cases hspawn
      rw [spawnTimer]
      cases pushed with
      | true => exact ⟨h.hasPeriod, hadmitted⟩
      | false => exact ⟨h.hasPeriod, hadmitted⟩
  | terminate clocks =>
      rw [Timer.step, Option.ite_none_right_eq_some] at hstep
      cases hstep.2
      apply Inv.reschedule
      exact ⟨h.hasPeriod, h.moderate⟩
  | timeEvent baseTime fNext =>
      rw [Timer.step, Option.ite_none_right_eq_some] at hstep
      cases hstep.2
      constructor
      · exact adjustNextFixedExpire_hasPeriod h.hasPeriod baseTime fNext
      · rw [adjustNextFixedExpire_timeLastExpiration]
        exact h.moderate

theorem Inv.of_reachable {t : Timer}
    (h : TransitionSystem.Reachable Timer.step Created Admitted t) : Inv t :=
  h.invariant Inv (fun _ => Inv.created) fun _ _ _ hinv hadmitted hstep =>
    hinv.step hadmitted hstep

/-- What the configuration of a timer guarantees in a state. -/
structure Regular (t : Timer) : Prop where
  hasPeriod : HasPeriod t
  onSchedule : ∀ clocks : Clocks, clocks.Moderate → t.recurring = true → t.enabledTimer = true →
    OnSchedule t (t.now clocks) (Timer.reschedule clocks t).timeExpire

/-- Failing calls are atomic where they are harmless, and where all of them are, timers stay
regular. -/
theorem configuration_iff (t : Timer) (input : Input) (due period : Arg) (machineTime : Int) :
    (Atomic t input due period machineTime ↔ Harmless t input due period machineTime) ∧
      ∀ t', TransitionSystem.Reachable step Created Admitted t' → Regular t' := by
  refine ⟨atomic_iff_harmless machineTime, ?_⟩
  intro t' hreachable
  have hinv := Inv.of_reachable hreachable
  refine ⟨hinv.hasPeriod, ?_⟩
  intro clocks hclocks hrecurring henabled
  exact reschedule_onSchedule hrecurring henabled hinv.hasPeriod hinv.moderate hclocks

/-- A timer with a period of a second. -/
def second : Timer := (create .int32 ⟨0, none⟩ ⟨1000, none⟩ 0).2

theorem second_created : Created second := .inr ⟨.int32, ⟨0, none⟩, ⟨1000, none⟩, 0, rfl⟩

theorem configuration_sample : Regular second :=
  (configuration_iff second .int32 ⟨0, none⟩ ⟨-5, none⟩ 0).2 second (.start second_created)

/-- A negative period is refused after it has been written; the timer is still recurring. -/
theorem not_configuration_sample : ¬∀ (t : Timer) (input : Input) (due period : Arg)
    (machineTime : Int), Atomic t input due period machineTime ∧
      ∀ t', TransitionSystem.Reachable step Created (fun _ _ => True) t' → Regular t' := by
  intro hall
  obtain ⟨-, hregular⟩ := hall second .int32 ⟨0, none⟩ ⟨-5, none⟩ 0
  have hbroken := hregular (change .int32 ⟨0, none⟩ ⟨-5, none⟩ 0 second).2
    (.next (a := .change .int32 ⟨0, none⟩ ⟨-5, none⟩ 0) (.start second_created) trivial rfl)
  have hpos := (hbroken.hasPeriod (by decide +kernel)).1
  have hneg : (change .int32 ⟨0, none⟩ ⟨-5, none⟩ 0 second).2.timeFrequency = -50000 := by
    decide +kernel
  rw [hneg] at hpos
  exact absurd hpos (by decide)

end Timer

end TinyCLR.HeapBlock
