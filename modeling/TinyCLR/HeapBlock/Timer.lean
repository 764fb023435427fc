import TinyCLR.Library.TransitionSystem

/-!
# Timers

The configuration of a timer by its constructors, by `Change` and by the clock, and what
rescheduling makes of it. A call of `Change` overwrites the times of the timer before it checks
them.
-/

namespace TinyCLR.HeapBlock

/-- The flags are kept apart; `anyChange` is the part of them that tells fixed timers. -/
structure Timer where
  anyChange : Nat
  triggered : Bool
  executing : Bool
  absoluteTimer : Bool
  recurring : Bool
  enabledTimer : Bool
  timeExpire : Int
  timeFrequency : Int
  timeLastExpiration : Int
  ticksLastExpiration : Int
  deriving DecidableEq

namespace Timer

/-- `TIMEOUT_INFINITE` -/
def timeoutInfinite : Int := 0x7FFFFFFFFFFFFFFF

/-- `TIME_CONVERSION__TO_MILLISECONDS`, and `c_TickPerMillisecond` -/
def toMilliseconds : Int := 10000

/-- `TIME_CONVERSION__TO_SECONDS` -/
def toSeconds : Int := 10000000

def maxTime : Int := 0x7FFFFFFF * toMilliseconds

def minTime : Int := 0

/-- Arithmetic of `CLR_INT64`. -/
def wrap (time : Int) : Int := time.bmod (2 ^ 64)

/-- Any two of these codes are different, and only the first is not a failure. -/
inductive HRESULT where
  | ok
  | invalidParameter
  | nullReference
  | outOfRange
  deriving DecidableEq

/-- `c_INPUT_Int32`, `c_INPUT_TimeSpan` and `c_INPUT_Absolute`, of which each caller passes one. -/
inductive Input where
  | int32
  | timeSpan
  | absolute
  deriving DecidableEq

/-- An argument, read as an integer and as a time; `none` for a null pointer. -/
structure Arg where
  s4 : Int32
  valuePtr : Option Int
  deriving DecidableEq

/-- The times of the engine: `m_currentMachineTime` and `m_currentLocalTime`. -/
structure Clocks where
  machineTime : Int
  localTime : Int

/-- What the fields of `timer` are when it is created. -/
def createInstance : Timer where
  anyChange := 0
  triggered := false
  executing := false
  absoluteTimer := false
  recurring := false
  enabledTimer := false
  timeExpire := timeoutInfinite
  timeFrequency := timeoutInfinite
  timeLastExpiration := 0
  ticksLastExpiration := 0

/-- `TINYCLR_CHECK_HRESULT` -/
def check (r : HRESULT × Timer) (next : Timer → HRESULT × Timer) : HRESULT × Timer :=
  if r.1 = .ok then next r.2 else r

/-- A time as the call reads it: minus one millisecond is no time at all, but not for absolute
times. -/
def Arg.time (input : Input) (arg : Arg) : Option Int :=
  match input with
  | .int32 => some (if arg.s4.toInt = -1 then timeoutInfinite else arg.s4.toInt)
  | .timeSpan =>
      arg.valuePtr.map fun value => if value = -toMilliseconds then timeoutInfinite else value
  | .absolute => arg.valuePtr

/-- The times are overwritten one after the other. -/
def readTimes (input : Input) (due period : Arg) (t : Timer) : HRESULT × Timer :=
  if t.absoluteTimer ≠ decide (input = .absolute) then (.invalidParameter, t)
  else
    match due.time input with
    | none => (.nullReference, t)
    | some due =>
        match period.time input with
        | none => (.nullReference, { t with timeExpire := due })
        | some period => (.ok, { t with timeExpire := due, timeFrequency := period })

/-- Integers count milliseconds. -/
def scaled (input : Input) (time : Int) : Int :=
  if input = .int32 then wrap (time * toMilliseconds) else time

/-- `minTime <= time && time <= maxTime` -/
def InRange (time : Int) : Prop := minTime ≤ time ∧ time ≤ maxTime

instance (time : Int) : Decidable (InRange time) := inferInstanceAs (Decidable (_ ∧ _))

def setExpire (input : Input) (machineTime : Int) (t : Timer) : HRESULT × Timer :=
  if t.timeExpire = timeoutInfinite then (.ok, { t with enabledTimer := false })
  else if input = .absolute then (.ok, { t with enabledTimer := true })
  else if InRange (scaled input t.timeExpire) then
    (.ok, { t with
      timeExpire := wrap (scaled input t.timeExpire + machineTime)
      enabledTimer := true })
  else (.outOfRange, { t with timeExpire := scaled input t.timeExpire })

def setFrequency (input : Input) (t : Timer) : HRESULT × Timer :=
  if t.timeFrequency = 0 ∨ t.timeFrequency = timeoutInfinite then
    (.ok, { t with recurring := false })
  else if InRange (scaled input t.timeFrequency) then
    (.ok, { t with timeFrequency := scaled input t.timeFrequency, recurring := true })
  else (.outOfRange, { t with timeFrequency := scaled input t.timeFrequency })

/-- `ConfigureObject` with `c_ACTION_Change` -/
def change (input : Input) (due period : Arg) (machineTime : Int) (t : Timer) : HRESULT × Timer :=
  if t.anyChange ≠ 0 then (.invalidParameter, t)
  else
    check (readTimes input due period t) fun t =>
      check (setExpire input machineTime t) (setFrequency input)

/-- `ConfigureObject` with `c_ACTION_Destroy` -/
def destroy (t : Timer) : Timer := { t with enabledTimer := false }

/-- The period of a fixed timer. -/
def fixedPeriod (anyChange : Nat) : Option Int :=
  match anyChange with
  | 1 => some toSeconds
  | 2 => some (60 * toSeconds)
  | 3 => some (3600 * toSeconds)
  | 4 => some (86400 * toSeconds)
  | _ => none

/-- `AdjustNextFixedExpire`, where `baseTime` is the system time without what is below the unit of
the timer. -/
def adjustNextFixedExpire (baseTime : Int) (fNext : Bool) (t : Timer) : Timer :=
  match fixedPeriod t.anyChange with
  | none => t
  | some add =>
      { t with
        timeExpire := if fNext then wrap (baseTime + add) else baseTime
        timeFrequency := add
        recurring := true }

/-- `ConfigureObject` with `c_ACTION_Create`, for a fixed timer. -/
def createFixed (anyChange : Nat) (baseTime : Int) : Timer :=
  adjustNextFixedExpire baseTime true
    { createInstance with anyChange := anyChange, absoluteTimer := true, enabledTimer := true }

/-- `ConfigureObject` with `c_ACTION_Create`, for a timer with given times. -/
def create (input : Input) (due period : Arg) (machineTime : Int) : HRESULT × Timer :=
  change input due period machineTime
    { createInstance with absoluteTimer := decide (input = .absolute) }

/-- `Trigger` -/
def trigger (t : Timer) : Timer := if t.executing then t else { t with triggered := true }

/-- `SpawnTimer`; `pushed` tells that the thread could be given the callback. -/
def spawnTimer (clocks : Clocks) (pushed : Bool) (t : Timer) : Timer :=
  let t :=
    { t with
      ticksLastExpiration := clocks.machineTime
      timeLastExpiration := t.timeExpire
      timeExpire := timeoutInfinite }
  if pushed then { t with executing := true, triggered := false } else t

/-- The clock that the timer is compared with. -/
def now (t : Timer) (clocks : Clocks) : Int :=
  if t.absoluteTimer then clocks.localTime else clocks.machineTime

/-- `Reschedule` -/
def reschedule (clocks : Clocks) (t : Timer) : Timer :=
  if t.recurring ∧ t.enabledTimer then
    let cmp := t.now clocks
    let expire := wrap (t.timeLastExpiration + t.timeFrequency)
    { t with
      timeExpire :=
        if expire < cmp then
          wrap (cmp - (wrap (cmp - expire)).tmod t.timeFrequency + t.timeFrequency)
        else expire }
  else t

/-- `ThreadTerminationCallback` -/
def threadTerminationCallback (clocks : Clocks) (t : Timer) : Timer :=
  reschedule clocks { t with executing := false }

/-! ## Failing calls -/

section Change

variable (t : Timer) (input : Input) (due period : Arg) (machineTime : Int)

/-- A failing call leaves the timer as it was. -/
def Atomic : Prop :=
  (change input due period machineTime t).1 ≠ .ok → (change input due period machineTime t).2 = t

/-- The call fails before it has written anything. -/
def Refused : Prop :=
  t.anyChange ≠ 0 ∨ t.absoluteTimer ≠ decide (input = .absolute) ∨ due.time input = none

/-- The due time is acceptable. -/
def DueTime (time : Int) : Prop :=
  time = timeoutInfinite ∨ input = .absolute ∨ InRange (scaled input time)

/-- The period is acceptable. -/
def Period (time : Int) : Prop :=
  time = 0 ∨ time = timeoutInfinite ∨ InRange (scaled input time)

/-- The call has acceptable times. -/
def Acceptable : Prop :=
  ∃ expire, due.time input = some expire ∧ DueTime input expire ∧
    ∃ frequency, period.time input = some frequency ∧ Period input frequency

/-- What a due time makes of the expiration. -/
def expiration (time : Int) : Int :=
  if time = timeoutInfinite ∨ input = .absolute then time
  else wrap (scaled input time + machineTime)

/-- What the call writes before it fails is already there. -/
inductive Repeated : Prop where
  | period (hdue : due.time input = some t.timeExpire) (hperiod : period.time input = none)
  | dueTime (expire : Int) (hdue : due.time input = some expire)
      (hperiod : period.time input = some t.timeFrequency) (hnot : ¬DueTime input expire)
      (heq : scaled input expire = t.timeExpire)
  | frequency (expire frequency : Int) (hdue : due.time input = some expire)
      (hperiod : period.time input = some frequency) (hvalid : DueTime input expire)
      (hnot : ¬Period input frequency) (hexpire : expiration input machineTime expire = t.timeExpire)
      (henabled : t.enabledTimer = decide (expire ≠ timeoutInfinite))
      (heq : scaled input frequency = t.timeFrequency)

/-- The call cannot leave a timer behind that it has only half configured. -/
def Harmless : Prop :=
  Refused t input due ∨ Acceptable input due period ∨ Repeated t input due period machineTime

variable {t input due period}

theorem change_refused (h : Refused t input due) :
    (change input due period machineTime t).2 = t := by
  by_cases hfixed : t.anyChange = 0
  · rw [change, if_neg (not_not.mpr hfixed), readTimes]
    by_cases hkind : t.absoluteTimer = decide (input = .absolute)
    · have hdue : due.time input = none :=
        (h.resolve_left (not_not.mpr hfixed)).resolve_left (not_not.mpr hkind)
      rw [if_neg (not_not.mpr hkind), hdue]
      rfl
    · rw [if_pos hkind]
      rfl
  · rw [change, if_pos hfixed]

theorem not_refused (h : ¬Refused t input due) : t.anyChange = 0 ∧
    t.absoluteTimer = decide (input = .absolute) ∧ ∃ expire, due.time input = some expire := by
  simp only [Refused, not_or, not_not] at h
  exact ⟨h.1, h.2.1, Option.ne_none_iff_exists'.mp h.2.2⟩

section Read

variable {expire frequency : Int}

theorem change_nullPeriod (h : ¬Refused t input due) (hdue : due.time input = some expire)
    (hperiod : period.time input = none) :
    change input due period machineTime t = (.nullReference, { t with timeExpire := expire }) := by
  obtain ⟨hfixed, hkind, -⟩ := not_refused h
  rw [change, if_neg (not_not.mpr hfixed), readTimes, if_neg (not_not.mpr hkind), hdue, hperiod]
  rfl

theorem change_times (h : ¬Refused t input due) (hdue : due.time input = some expire)
    (hperiod : period.time input = some frequency) :
    change input due period machineTime t =
      check (setExpire input machineTime
        { t with timeExpire := expire, timeFrequency := frequency }) (setFrequency input) := by
  obtain ⟨hfixed, hkind, -⟩ := not_refused h
  rw [change, if_neg (not_not.mpr hfixed), readTimes, if_neg (not_not.mpr hkind), hdue, hperiod]
  rfl

end Read

theorem setExpire_dueTime (h : DueTime input t.timeExpire) :
    setExpire input machineTime t =
      (.ok, { t with
        timeExpire := expiration input machineTime t.timeExpire
        enabledTimer := decide (t.timeExpire ≠ timeoutInfinite) }) := by
  by_cases hinfinite : t.timeExpire = timeoutInfinite
  · rw [setExpire, if_pos hinfinite, expiration, if_pos (.inl hinfinite),
      decide_eq_false (not_not.mpr hinfinite)]
  · rw [setExpire, if_neg hinfinite, decide_eq_true hinfinite]
    by_cases habsolute : input = .absolute
    · rw [if_pos habsolute, expiration, if_pos (.inr habsolute)]
    · have hrange := (h.resolve_left hinfinite).resolve_left habsolute
      rw [if_neg habsolute, if_pos hrange, expiration, if_neg (not_or.mpr ⟨hinfinite, habsolute⟩)]

theorem setExpire_outOfRange (h : ¬DueTime input t.timeExpire) :
    setExpire input machineTime t =
      (.outOfRange, { t with timeExpire := scaled input t.timeExpire }) := by
  simp only [DueTime, not_or] at h
  rw [setExpire, if_neg h.1, if_neg h.2.1, if_neg h.2.2]

theorem setFrequency_period (h : Period input t.timeFrequency) :
    (setFrequency input t).1 = .ok := by
  by_cases hnone : t.timeFrequency = 0 ∨ t.timeFrequency = timeoutInfinite
  · rw [setFrequency, if_pos hnone]
  · rw [setFrequency, if_neg hnone, if_pos]
    exact (h.resolve_left (not_or.mp hnone).1).resolve_left (not_or.mp hnone).2

theorem setFrequency_outOfRange (h : ¬Period input t.timeFrequency) :
    setFrequency input t =
      (.outOfRange, { t with timeFrequency := scaled input t.timeFrequency }) := by
  simp only [Period, not_or] at h
  rw [setFrequency, if_neg (not_or.mpr ⟨h.1, h.2.1⟩), if_neg h.2.2]

theorem change_dueTime {expire frequency : Int} (h : ¬Refused t input due)
    (hdue : due.time input = some expire) (hperiod : period.time input = some frequency)
    (hvalid : DueTime input expire) :
    change input due period machineTime t =
      setFrequency input { t with
        timeExpire := expiration input machineTime expire
        timeFrequency := frequency
        enabledTimer := decide (expire ≠ timeoutInfinite) } := by
  rw [change_times machineTime h hdue hperiod, setExpire_dueTime machineTime hvalid]
  rfl

/-- A call with acceptable times succeeds. -/
theorem change_acceptable (h : ¬Refused t input due) (hacceptable : Acceptable input due period) :
    (change input due period machineTime t).1 = .ok := by
  obtain ⟨expire, hdue, hvalid, frequency, hperiod, hfrequency⟩ := hacceptable
  rw [change_dueTime machineTime h hdue hperiod hvalid]
  exact setFrequency_period hfrequency

theorem Refused.atomic (h : Refused t input due) : Atomic t input due period machineTime :=
  fun _ => change_refused machineTime h

section Failures

variable {expire frequency : Int}

theorem atomic_nullPeriod (h : ¬Refused t input due) (hdue : due.time input = some expire)
    (hperiod : period.time input = none) :
    Atomic t input due period machineTime ↔ expire = t.timeExpire := by
  rw [Atomic, change_nullPeriod machineTime h hdue hperiod]
  constructor
  · intro hatomic
    exact congrArg timeExpire (hatomic HRESULT.noConfusion)
  · rintro rfl _
    rfl

theorem atomic_dueTime (h : ¬Refused t input due) (hdue : due.time input = some expire)
    (hperiod : period.time input = some frequency) (hnot : ¬DueTime input expire) :
    Atomic t input due period machineTime ↔
      scaled input expire = t.timeExpire ∧ frequency = t.timeFrequency := by
  rw [Atomic, change_times machineTime h hdue hperiod, setExpire_outOfRange machineTime hnot]
  constructor
  · intro hatomic
    have hsame := hatomic HRESULT.noConfusion
    exact ⟨congrArg timeExpire hsame, congrArg timeFrequency hsame⟩
  · rintro ⟨hexpire, rfl⟩ _
    simp only [check, reduceCtorEq, if_false, hexpire]

theorem atomic_frequency (h : ¬Refused t input due) (hdue : due.time input = some expire)
    (hperiod : period.time input = some frequency) (hvalid : DueTime input expire)
    (hnot : ¬Period input frequency) :
    Atomic t input due period machineTime ↔
      expiration input machineTime expire = t.timeExpire ∧
        t.enabledTimer = decide (expire ≠ timeoutInfinite) ∧
        scaled input frequency = t.timeFrequency := by
  rw [Atomic, change_dueTime machineTime h hdue hperiod hvalid, setFrequency_outOfRange hnot]
  constructor
  · intro hatomic
    have hsame := hatomic HRESULT.noConfusion
    exact ⟨congrArg timeExpire hsame, (congrArg enabledTimer hsame).symm,
      congrArg timeFrequency hsame⟩
  · rintro ⟨hexpire, henabled, hfrequency⟩ _
    simp only [hexpire, ← henabled, hfrequency]

end Failures

/-- A failing call leaves the timer as it was in exactly the harmless cases. -/
theorem atomic_iff_harmless : Atomic t input due period machineTime ↔
    Harmless t input due period machineTime := by
  by_cases hrefused : Refused t input due
  · exact ⟨fun _ => .inl hrefused, fun _ => hrefused.atomic machineTime⟩
  obtain ⟨-, -, expire, hdue⟩ := not_refused hrefused
  constructor
  · intro hatomic
    right
    cases hperiod : period.time input with
    | none =>
        rw [atomic_nullPeriod machineTime hrefused hdue hperiod] at hatomic
        rw [hatomic] at hdue
        exact .inr (.period hdue hperiod)
    | some frequency =>
        by_cases hvalid : DueTime input expire
        · by_cases hfrequency : Period input frequency
          · exact .inl ⟨expire, hdue, hvalid, frequency, hperiod, hfrequency⟩
          · obtain ⟨hexpire, henabled, heq⟩ :=
              (atomic_frequency machineTime hrefused hdue hperiod hvalid hfrequency).mp hatomic
            exact .inr (.frequency expire frequency hdue hperiod hvalid hfrequency hexpire
              henabled heq)
        · obtain ⟨heq, rfl⟩ :=
            (atomic_dueTime machineTime hrefused hdue hperiod hvalid).mp hatomic
          exact .inr (.dueTime expire hdue hperiod hvalid heq)
  · rintro (hrefused | hacceptable | hrepeated)
    · exact hrefused.atomic machineTime
    · intro hfails
      exact absurd (change_acceptable machineTime hrefused hacceptable) hfails
    · cases hrepeated with
      | period hdue hperiod => exact (atomic_nullPeriod machineTime hrefused hdue hperiod).mpr rfl
      | dueTime expire hdue hperiod hnot heq =>
          exact (atomic_dueTime machineTime hrefused hdue hperiod hnot).mpr ⟨heq, rfl⟩
      | frequency expire frequency hdue hperiod hvalid hnot hexpire henabled heq =>
          exact (atomic_frequency machineTime hrefused hdue hperiod hvalid hnot).mpr
            ⟨hexpire, henabled, heq⟩

end Change

end Timer

end TinyCLR.HeapBlock
