import TinyCLR.Update.MFUpdate

/-!
# Only validated updates are installed

The flags of an update stand for answers that its package has given. The invariant says so for
every place of the table, against the log of what the providers were asked. It is kept by every
call that neither sees a validation fail nor changes the storage under a validated update.
-/

namespace TinyCLR.Update

open TransitionSystem

variable {World : Type}

/-- The answer of the last `Authenticate` since the handle was given out. -/
def lastAuthenticate (handle : Nat) : List Event → Option Bool
  | [] => none
  | .started h :: log => if h = handle then none else lastAuthenticate handle log
  | .authenticated h ok :: log => if h = handle then some ok else lastAuthenticate handle log
  | _ :: log => lastAuthenticate handle log

/-- The last `ValidateUpdate` since the handle was given out has returned true, and since then
no packet was written to the storage. -/
def validatedSince (handle : Nat) (storage : Option Storage) : List Event → Bool
  | [] => false
  | .started h :: log => h != handle && validatedSince handle storage log
  | .validated h ok :: log => if h = handle then ok else validatedSince handle storage log
  | .written st :: log => storage != some st && validatedSince handle storage log
  | _ :: log => validatedSince handle storage log

section Package

variable (packages : List (IUpdatePackage World)) (u : MFUpdate)

def storageOf : Option Storage :=
  ((packageOf packages u).bind (·.storage)).map fun storage => (storage.address, u.storageHandle)

def HasValidateUpdate : Prop :=
  ((packageOf packages u).bind fun package => package.validation.bind (·.validateUpdate)).isSome

def HasAuthenticate : Prop :=
  ((packageOf packages u).bind fun package => package.validation.bind (·.authenticate)).isSome

end Package

/-- Every call of `InstallUpdate` was for an update that had passed both checks. -/
def InstallsJustified (packages : List (IUpdatePackage World)) (log : List Event) : Prop :=
  ∀ handle u rest, (.installed handle u :: rest) <:+ log → HasValidateUpdate packages u →
    HasAuthenticate packages u → lastAuthenticate handle rest = some true ∧
      validatedSince handle (storageOf packages u) rest = true

structure Safe (packages : List (IUpdatePackage World)) (s : State World) : Prop where
  installs : InstallsJustified packages s.log
  remembered : ∀ i < updateCount, (s.updates i).flags.validated = true →
    HasValidateUpdate packages (s.updates i) →
      validatedSince i (storageOf packages (s.updates i)) s.log = true
  rejected : ∀ a handle, a.handle? = some handle → (handle < 0 ∨ 3 < handle) →
    call packages s a = some (false, s)

/-! ## The providers -/

/-- The callback has left alone what the manager keeps in the update. -/
structure Answer.Keeps (answer : Answer World) (u : MFUpdate) : Prop where
  flags : answer.update.flags = u.flags
  storageHandle : answer.update.storageHandle = u.storageHandle
  providers : answer.update.providers = u.providers

/-- No callback of the package writes to what the manager keeps in an update. -/
structure IUpdatePackage.Passive (package : IUpdatePackage World) : Prop where
  initializeUpdate : ∀ p f, package.update = some p → p.initializeUpdate = some f →
    ∀ u w, (f u w).Keeps u
  installUpdate : ∀ p f, package.update = some p → p.installUpdate = some f →
    ∀ u data w, (f u data w).Keeps u
  authCommand : ∀ p f, package.validation = some p → p.authCommand = some f →
    ∀ u cmd args w, (f u cmd args w).1.Keeps u
  authenticate : ∀ p f, package.validation = some p → p.authenticate = some f →
    ∀ u data w, (f u data w).Keeps u
  validatePacket : ∀ p f, package.validation = some p → p.validatePacket = some f →
    ∀ u data check w, (f u data check w).Keeps u
  validateUpdate : ∀ p f, package.validation = some p → p.validateUpdate = some f →
    ∀ u data w, (f u data w).Keeps u

/-! ## The condition -/

section Condition

variable (packages : List (IUpdatePackage World)) (s : State World)

/-- `ValidateUpdate` returns true where the call asks it. -/
def ValidationPasses (handle : Int) (validationData : List UInt8) : Prop :=
  ∀ i u package f, s.getUpdate handle = some (i, u) → packageOf packages u = some package →
    u.flags.authenticated = true → u.flags.validated = false →
      package.validation.bind (·.validateUpdate) = some f →
        (f u validationData s.world).ret = true

/-- A validated update that is opened again stays with its storage. -/
def ReopensSame (handle : Int) : Prop :=
  ∀ i u package storage, s.getUpdate handle = some (i, u) →
    packageOf packages u = some package → package.storage = some storage →
      u.flags.authenticated = true → u.flags.validated = true →
        (storage.openFile updateIDAny u.header.updateType u.header.updateSubType
          s.world).1 = u.storageHandle

/-- A validated update that is created again stays with its storage, or is released. -/
def RecreatesSame (handle : Int) : Prop :=
  ∀ i u package storage provider f, s.getUpdate handle = some (i, u) →
    packageOf packages u = some package → package.storage = some storage →
      package.update = some provider → provider.initializeUpdate = some f →
        u.flags.authenticated = true → u.flags.validated = true →
          let answer := f u s.world
          let storageHandle :=
            (storage.create answer.update.header u.flags answer.world).1.1
          storageHandle = -1 ∨ storageHandle = u.storageHandle

/-- A packet that is written goes to the storage of no validated update. -/
def WritesUnvalidated (handle : Int) (packetData validationData : List UInt8) : Prop :=
  ∀ i u package st, s.getUpdate handle = some (i, u) → packageOf packages u = some package →
    u.flags.authenticated = true →
      (checkPacket s u package packetData validationData).ret = true →
        storageOf packages u = some st → ∀ j < updateCount,
          (s.updates j).flags.validated = true → storageOf packages (s.updates j) ≠ some st

/-- The condition on a call, in the state in which it is made. -/
def Admitted : Action → Prop
  | .openUpdate handle => ReopensSame packages s handle
  | .createUpdate handle => RecreatesSame packages s handle
  | .addPacket handle _ packetData validationData =>
      WritesUnvalidated packages s handle packetData validationData
  | .validate handle validationData => ValidationPasses packages s handle validationData
  | .install handle validationData => ValidationPasses packages s handle validationData
  | .behind u => u.flags.inUse = false
  | _ => True

end Condition

/-- The table before the first call. -/
def Initial (s : State World) : Prop :=
  (∀ i < updateCount, s.updates i = .zero) ∧ (s.updates updateCount).flags.inUse = false ∧
    s.initialized = false ∧ s.log = []

/-! ## The invariant -/

/-- What the flags of the update at a place of the table stand for. -/
structure Books (packages : List (IUpdatePackage World)) (log : List Event) (i : Nat)
    (u : MFUpdate) : Prop where
  free : u.flags.inUse = false → u.flags.authenticated = false ∧ u.flags.validated = false
  authenticated : u.flags.authenticated = true → lastAuthenticate i log = some true
  validated : u.flags.validated = true → HasValidateUpdate packages u →
    validatedSince i (storageOf packages u) log = true

structure Inv (packages : List (IUpdatePackage World)) (s : State World) : Prop where
  installs : InstallsJustified packages s.log
  books : ∀ i < updateCount, Books packages s.log i (s.updates i)
  behind : (s.updates updateCount).flags.inUse = false

variable {packages : List (IUpdatePackage World)} {s : State World} {i : Nat} {u : MFUpdate}
  {log : List Event} {event : Event} {answer : Answer World}

theorem books_zero : Books packages log i .zero where
  free _ := ⟨rfl, rfl⟩
  authenticated h := by cases h
  validated h := by cases h

theorem packageOf_mem {package : IUpdatePackage World}
    (h : packageOf packages u = some package) : package ∈ packages := by
  obtain ⟨p, -, hp⟩ := Option.bind_eq_some_iff.mp h
  exact List.mem_of_getElem? hp

theorem getProviderByName_mem {name : List Char} {p : Nat} {package : IUpdatePackage World}
    (h : getProviderByName packages name = some (p, package)) : package ∈ packages := by
  obtain ⟨found, hfind, heq⟩ := Option.map_eq_some_iff.mp h
  obtain ⟨-, rfl⟩ := Prod.mk.inj heq
  have hmem := List.mem_of_find?_eq_some hfind
  exact (List.mem_zipIdx' hmem).2 ▸ List.getElem_mem _

theorem Answer.Keeps.packageOf (h : answer.Keeps u) :
    packageOf packages answer.update = packageOf packages u := by
  rw [Update.packageOf, Update.packageOf, h.providers]

theorem Answer.Keeps.storageOf (h : answer.Keeps u) :
    storageOf packages answer.update = storageOf packages u := by
  rw [Update.storageOf, Update.storageOf, h.packageOf, h.storageHandle]

theorem Answer.Keeps.hasValidateUpdate (h : answer.Keeps u) :
    HasValidateUpdate packages answer.update ↔ HasValidateUpdate packages u := by
  rw [HasValidateUpdate, HasValidateUpdate, h.packageOf]

theorem Books.keeps (hbooks : Books packages log i u) (h : answer.Keeps u) :
    Books packages log i answer.update where
  free := by
    rw [h.flags]
    exact hbooks.free
  authenticated := by
    rw [h.flags]
    exact hbooks.authenticated
  validated := by
    rw [h.flags, h.hasValidateUpdate, h.storageOf]
    exact hbooks.validated

theorem Books.setValidated (hbooks : Books packages log i u) (huse : u.flags.inUse = true)
    (hsince : HasValidateUpdate packages u →
      validatedSince i (storageOf packages u) log = true) :
    Books packages log i { u with flags := { u.flags with validated := true } } where
  free hfree := absurd (huse.symm.trans hfree) Bool.noConfusion
  authenticated := hbooks.authenticated
  validated _ := hsince

theorem checkPacket_keeps {package : IUpdatePackage World} (hpassive : package.Passive)
    (s : State World) (u : MFUpdate) (packetData validationData : List UInt8) :
    (checkPacket s u package packetData validationData).Keeps u := by
  rw [checkPacket]
  split
  · exact ⟨rfl, rfl, rfl⟩
  · rename_i f hf
    obtain ⟨valid, hvalid, hpacket⟩ := Option.bind_eq_some_iff.mp hf
    split
    · exact ⟨rfl, rfl, rfl⟩
    · exact hpassive.validatePacket valid f hvalid hpacket _ _ _ _

/-- What is validated stays with its storage, what is not may move to another. -/
theorem Books.reopened (hbooks : Books packages log i u) {storageHandle : Int}
    (h : u.flags.validated = true → storageHandle = u.storageHandle) (header : MFUpdateHeader) :
    Books packages log i { u with storageHandle := storageHandle, header := header } where
  free := hbooks.free
  authenticated := hbooks.authenticated
  validated hflag := by
    rw [h hflag]
    exact hbooks.validated hflag

/-- The event says nothing of the update at place `i`. -/
def Event.Spares (packages : List (IUpdatePackage World)) (i : Nat) (u : MFUpdate) :
    Event → Prop
  | .started handle => handle ≠ i
  | .authenticated handle _ => handle ≠ i
  | .validated handle _ => handle ≠ i
  | .written st => u.flags.validated = true → storageOf packages u ≠ some st
  | .installed _ _ => True

theorem Books.record (hbooks : Books packages log i u) (h : event.Spares packages i u) :
    Books packages (event :: log) i u where
  free := hbooks.free
  authenticated hflag := by
    have hlast := hbooks.authenticated hflag
    cases event with
    | started handle => exact (if_neg h).trans hlast
    | authenticated handle ok => exact (if_neg h).trans hlast
    | written st => exact hlast
    | validated handle ok => exact hlast
    | installed handle u => exact hlast
  validated hflag hpackage := by
    have hsince := hbooks.validated hflag hpackage
    cases event with
    | started handle =>
        rw [validatedSince, hsince, Bool.and_true]
        exact bne_iff_ne.mpr h
    | authenticated handle ok => exact hsince
    | written st =>
        rw [validatedSince, hsince, Bool.and_true]
        exact bne_iff_ne.mpr (h hflag)
    | validated handle ok => exact (if_neg h).trans hsince
    | installed handle u => exact hsince

theorem InstallsJustified.record (h : InstallsJustified packages log)
    (hevent : ∀ handle u, event = .installed handle u → HasValidateUpdate packages u →
      HasAuthenticate packages u → lastAuthenticate handle log = some true ∧
        validatedSince handle (storageOf packages u) log = true) :
    InstallsJustified packages (event :: log) := by
  intro handle u rest hsuffix
  rcases List.suffix_cons_iff.mp hsuffix with heq | hsuffix
  · obtain ⟨rfl, rfl⟩ := List.cons.inj heq
    exact hevent handle u rfl
  · exact h handle u rest hsuffix

namespace Inv

theorem withWorld (h : Inv packages s) (world : World) : Inv packages (s.withWorld world) :=
  ⟨h.installs, h.books, h.behind⟩

theorem put (h : Inv packages s) (hi : i < updateCount) (hu : Books packages s.log i u) :
    Inv packages (s.put i u) where
  installs := h.installs
  books j hj := by
    rcases eq_or_ne j i with rfl | hne
    · rw [State.put_self]
      exact hu
    · rw [State.put_of_ne hne]
      exact h.books j hj
  behind := by
    rw [State.put_of_ne (Nat.ne_of_gt hi)]
    exact h.behind

theorem release (h : Inv packages s) (hi : i < updateCount) :
    Inv packages (s.releaseUpdateHandle i) := by
  rw [State.releaseUpdateHandle, if_neg (by omega)]
  exact h.put hi books_zero

/-- An event about one place, together with the new update there. -/
theorem putRecord (h : Inv packages s) (hi : i < updateCount)
    (hevent : InstallsJustified packages (event :: s.log))
    (hspares : ∀ j < updateCount, j ≠ i → event.Spares packages j (s.updates j))
    (hu : Books packages (event :: s.log) i u) :
    Inv packages ((s.put i u).record event) where
  installs := hevent
  books j hj := by
    rw [State.record_updates]
    rcases eq_or_ne j i with rfl | hne
    · rw [State.put_self]
      exact hu
    · rw [State.put_of_ne hne]
      exact (h.books j hj).record (hspares j hj hne)
  behind := by
    rw [State.record_updates, State.put_of_ne (Nat.ne_of_gt hi)]
    exact h.behind

theorem record (h : Inv packages s) (hevent : InstallsJustified packages (event :: s.log))
    (hspares : ∀ j < updateCount, event.Spares packages j (s.updates j)) :
    Inv packages (s.record event) :=
  ⟨hevent, fun j hj => (h.books j hj).record (hspares j hj), h.behind⟩

theorem getUpdate (h : Inv packages s) {handle : Int}
    (hget : s.getUpdate handle = some (i, u)) :
    i < updateCount ∧ u = s.updates i ∧ u.flags.inUse = true := by
  rw [State.getUpdate] at hget
  split at hget
  · cases hget
  · rename_i hrange
    split at hget
    · rename_i huse
      obtain ⟨rfl, rfl⟩ := Prod.mk.inj (Option.some.inj hget)
      refine ⟨Nat.lt_of_le_of_ne (by omega) fun heq => ?_, rfl, huse⟩
      rw [heq, h.behind] at huse
      cases huse
    · cases hget

/-- A call is rejected, or it finds an update of the table and its package. -/
theorem withUpdate (h : Inv packages s) {handle : Int} {body} {r : Bool × State World}
    (hcall : withUpdate packages s handle body = some r) :
    r = (false, s) ∨ ∃ i package, i < updateCount ∧
      s.getUpdate handle = some (i, s.updates i) ∧ (s.updates i).flags.inUse = true ∧
        packageOf packages (s.updates i) = some package ∧
          body i (s.updates i) package = some r := by
  rw [Update.withUpdate] at hcall
  split at hcall
  · exact .inl (Option.some.inj hcall).symm
  · rename_i i u hget
    obtain ⟨hi, rfl, huse⟩ := h.getUpdate hget
    obtain ⟨package, hpackage, hbody⟩ := Option.bind_eq_some_iff.mp hcall
    exact .inr ⟨i, package, hi, hget, huse, hpackage, hbody⟩

/-! ### One lemma for each call -/

variable {r : Bool × State World} {handle : Int}

theorem authCommand (h : Inv packages s) (hpassive : ∀ package ∈ packages, package.Passive)
    {cmd : UInt32} {args : List UInt8}
    (hcall : authCommand packages s handle cmd args = some r) : Inv packages r.2 := by
  rcases h.withUpdate hcall with rfl | ⟨i, package, hi, -, -, hpackage, hbody⟩
  · exact h
  split at hbody
  · obtain rfl := Option.some.inj hbody
    exact h
  · rename_i valid hvalid
    split at hbody
    · obtain rfl := Option.some.inj hbody
      exact h
    · rename_i authCommand hauthCommand
      obtain rfl := Option.some.inj hbody
      have hkeeps := (hpassive package (packageOf_mem hpackage)).authCommand valid authCommand
        hvalid hauthCommand (s.updates i) cmd args s.world
      exact (h.put hi ((h.books i hi).keeps hkeeps)).withWorld _

theorem authenticate (h : Inv packages s) (hpassive : ∀ package ∈ packages, package.Passive)
    {authData : List UInt8} (hcall : authenticate packages s handle authData = some r) :
    Inv packages r.2 := by
  rcases h.withUpdate hcall with rfl | ⟨i, package, hi, -, huse, hpackage, hbody⟩
  · exact h
  split at hbody
  · obtain rfl := Option.some.inj hbody
    exact h
  · rename_i valid hvalid
    split at hbody
    · obtain rfl := Option.some.inj hbody
      exact h
    · rename_i authenticate hauthenticate
      have hkeeps := (hpassive package (packageOf_mem hpackage)).authenticate valid authenticate
        hvalid hauthenticate (s.updates i) authData s.world
      have hbooks := (h.books i hi).keeps hkeeps
      obtain rfl := Option.some.inj hbody
      rw [State.record_withWorld]
      refine (h.putRecord hi ?_ ?_ ?_).withWorld _
      · apply h.installs.record
        intro handle u heq
        cases heq
      · intro j hj hne
        exact hne.symm
      · refine ⟨fun hfree => ?_, fun hflag => ?_, hbooks.validated⟩
        · rw [hkeeps.flags, huse] at hfree
          cases hfree
        · exact (if_pos rfl).trans (congrArg some hflag)

theorem openUpdate (h : Inv packages s) (hadm : ReopensSame packages s handle)
    (hcall : openUpdate packages s handle = some r) : Inv packages r.2 := by
  rcases h.withUpdate hcall with rfl | ⟨i, package, hi, hget, -, hpackage, hbody⟩
  · exact h
  split at hbody
  · obtain rfl := Option.some.inj hbody
    exact h
  split at hbody
  · obtain rfl := Option.some.inj hbody
    exact h
  · rename_i hauth
    split at hbody
    · obtain rfl := Option.some.inj hbody
      exact h
    · rename_i storage hstorage
      have hsame := hadm i _ package storage hget hpackage hstorage (by simpa using hauth)
      have hopened := h.put hi ((h.books i hi).reopened hsame (s.updates i).header)
      dsimp only at hbody
      split at hbody
      · obtain rfl := Option.some.inj hbody
        exact hopened.withWorld _
      · split at hbody
        · obtain ⟨delete, -, rfl⟩ := Option.map_eq_some_iff.mp hbody
          exact ((hopened.withWorld _).withWorld _).withWorld _
        · obtain rfl := Option.some.inj hbody
          exact ((hopened.withWorld _).withWorld _).put hi
            (((h.books i hi).reopened hsame _))

theorem createUpdate (h : Inv packages s) (hpassive : ∀ package ∈ packages, package.Passive)
    (hadm : RecreatesSame packages s handle)
    (hcall : createUpdate packages s handle = some r) : Inv packages r.2 := by
  rcases h.withUpdate hcall with rfl | ⟨i, package, hi, hget, -, hpackage, hbody⟩
  · exact h
  split at hbody
  · obtain rfl := Option.some.inj hbody
    exact h
  rename_i provider hprovider
  split at hbody
  · obtain rfl := Option.some.inj hbody
    exact h
  rename_i hauth
  split at hbody
  · obtain rfl := Option.some.inj hbody
    exact h
  rename_i storage hstorage
  obtain ⟨f, hf, hbody⟩ := Option.bind_eq_some_iff.mp hbody
  have hkeeps := (hpassive package (packageOf_mem hpackage)).initializeUpdate provider f
    hprovider hf (s.updates i) s.world
  have hbooks := (h.books i hi).keeps hkeeps
  have hcalled := (h.put hi hbooks).withWorld (f (s.updates i) s.world).world
  have hsame := hadm i _ package storage provider f hget hpackage hstorage hprovider hf
    (by simpa using hauth)
  dsimp only at hbody hsame
  split at hbody
  · obtain rfl := Option.some.inj hbody
    exact hcalled.release hi
  obtain ⟨storage', hstorage', rfl⟩ := Option.map_eq_some_iff.mp hbody
  rw [hkeeps.packageOf, hpackage] at hstorage'
  obtain rfl := Option.some.inj (hstorage.symm.trans hstorage')
  rw [State.withWorld_world]
  rw [← hkeeps.flags] at hsame ⊢
  split
  · rw [State.releaseUpdateHandle_put _ hi]
    exact (hcalled.withWorld _).release hi
  · rename_i hsome
    refine (hcalled.put hi (hbooks.reopened (fun hflag => ?_) _)).withWorld _
    rw [hkeeps.storageHandle]
    exact (hsame hflag).resolve_left hsome

theorem addPacket (h : Inv packages s) (hpassive : ∀ package ∈ packages, package.Passive)
    {packetIndex : UInt32} {packetData validationData : List UInt8}
    (hadm : WritesUnvalidated packages s handle packetData validationData)
    (hcall : addPacket packages s handle packetIndex packetData validationData = some r) :
    Inv packages r.2 := by
  rcases h.withUpdate hcall with rfl | ⟨i, package, hi, hget, -, hpackage, hbody⟩
  · exact h
  split at hbody
  · obtain rfl := Option.some.inj hbody
    exact h
  split at hbody
  · obtain rfl := Option.some.inj hbody
    exact h
  rename_i hauth
  have hkeeps := checkPacket_keeps (hpassive package (packageOf_mem hpackage)) s (s.updates i)
    packetData validationData
  have hchecked := (h.put hi ((h.books i hi).keeps hkeeps)).withWorld
    (checkPacket s (s.updates i) package packetData validationData).world
  dsimp only at hbody
  split at hbody
  · obtain rfl := Option.some.inj hbody
    exact hchecked
  rename_i hpasses
  obtain ⟨storage, hstorage, rfl⟩ := Option.map_eq_some_iff.mp hbody
  apply (hchecked.withWorld _).record
  · apply hchecked.installs.record
    intro handle u heq
    cases heq
  · have hst : storageOf packages (s.updates i) = some (storage.address,
        (checkPacket s (s.updates i) package packetData validationData).update.storageHandle) := by
      rw [← hkeeps.storageOf, storageOf, hstorage, Option.map_some]
    have hother := hadm i _ package _ hget hpackage (by simpa using hauth) (by simpa using hpasses)
      hst
    intro j hj hvalidated
    rw [State.withWorld_updates, State.withWorld_updates] at hvalidated ⊢
    rcases eq_or_ne j i with rfl | hne
    · rw [State.put_self] at hvalidated ⊢
      rw [hkeeps.storageOf]
      exact hother j hj (hkeeps.flags ▸ hvalidated)
    · rw [State.put_of_ne hne] at hvalidated ⊢
      exact hother j hj hvalidated

theorem validateNow (h : Inv packages s) (hpassive : ∀ package ∈ packages, package.Passive)
    {package : IUpdatePackage World} {validationData : List UInt8} (hi : i < updateCount)
    (huse : (s.updates i).flags.inUse = true)
    (hpackage : packageOf packages (s.updates i) = some package)
    (hpasses : ∀ f, package.validation.bind (·.validateUpdate) = some f →
      (f (s.updates i) validationData s.world).ret = true)
    (hcall : validateNow packages s i (s.updates i) package validationData = some r) :
    Inv packages r.2 := by
  have hbooks := h.books i hi
  rw [Update.validateNow] at hcall
  split at hcall
  · rename_i hnone
    obtain ⟨-, -, rfl⟩ := Option.map_eq_some_iff.mp hcall
    refine (h.put hi (hbooks.setValidated huse fun hhas => ?_)).withWorld _
    rw [HasValidateUpdate, hpackage, Option.bind_some, hnone] at hhas
    cases hhas
  · rename_i f hf
    obtain ⟨valid, hvalid, hupdate⟩ := Option.bind_eq_some_iff.mp hf
    have hkeeps := (hpassive package (packageOf_mem hpackage)).validateUpdate valid f hvalid
      hupdate (s.updates i) validationData s.world
    obtain ⟨r', hclose, rfl⟩ := Option.map_eq_some_iff.mp hcall
    obtain ⟨-, -, rfl⟩ := Option.map_eq_some_iff.mp hclose
    rw [State.record_withWorld, hpasses f hf]
    refine (h.putRecord hi ?_ ?_ ?_).withWorld _
    · apply h.installs.record
      intro handle u heq
      cases heq
    · intro j hj hne
      exact hne.symm
    · refine ⟨fun hfree => ?_, (hbooks.keeps hkeeps).authenticated, fun _ _ => if_pos rfl⟩
      have hinUse := hkeeps.flags ▸ huse
      exact absurd (hinUse.symm.trans hfree) Bool.noConfusion

theorem validate (h : Inv packages s) (hpassive : ∀ package ∈ packages, package.Passive)
    {validationData : List UInt8} (hadm : ValidationPasses packages s handle validationData)
    (hcall : validate packages s handle validationData = some r) : Inv packages r.2 := by
  rcases h.withUpdate hcall with rfl | ⟨i, package, hi, hget, huse, hpackage, hbody⟩
  · exact h
  split at hbody
  · obtain rfl := Option.some.inj hbody
    exact h
  rename_i hauth
  split at hbody
  · obtain rfl := Option.some.inj hbody
    exact h
  rename_i hvalidated
  apply h.validateNow hpassive hi huse hpackage _ hbody
  intro f hf
  exact hadm i _ package f hget hpackage (by simpa using hauth) (by simpa using hvalidated) hf

theorem validateNow_flags (hpassive : ∀ package ∈ packages, package.Passive)
    {package : IUpdatePackage World} {validationData : List UInt8}
    (hpackage : packageOf packages u = some package)
    (hcall : Update.validateNow packages s i u package validationData = some r) :
    (r.2.updates i).flags = { u.flags with validated := true } := by
  rw [Update.validateNow] at hcall
  split at hcall
  · obtain ⟨-, -, rfl⟩ := Option.map_eq_some_iff.mp hcall
    rw [State.withWorld_updates, State.put_self]
  · rename_i f hf
    obtain ⟨valid, hvalid, hupdate⟩ := Option.bind_eq_some_iff.mp hf
    have hkeeps := (hpassive package (packageOf_mem hpackage)).validateUpdate valid f hvalid
      hupdate u validationData s.world
    obtain ⟨r', hclose, rfl⟩ := Option.map_eq_some_iff.mp hcall
    obtain ⟨-, -, rfl⟩ := Option.map_eq_some_iff.mp hclose
    rw [State.record_updates, State.withWorld_updates, State.put_self, hkeeps.flags]

theorem validate_eq {package : IUpdatePackage World} {validationData : List UInt8}
    (hget : s.getUpdate handle = some (i, u)) (hpackage : packageOf packages u = some package)
    (hauth : u.flags.authenticated = true) (hvalidated : u.flags.validated = false) :
    Update.validate packages s handle validationData =
      Update.validateNow packages s i u package validationData := by
  simp only [Update.validate, Update.withUpdate, hget, hpackage, Option.bind_some, hauth,
    hvalidated, Bool.not_true, Bool.false_eq_true, if_false]

/-- `InstallUpdate` is called when both flags of the update are set. -/
theorem installNow (h : Inv packages s) (hpassive : ∀ package ∈ packages, package.Passive)
    {validationData : List UInt8} (hi : i < updateCount)
    (hauth : (s.updates i).flags.authenticated = true)
    (hvalidated : (s.updates i).flags.validated = true)
    (hcall : installNow packages s i validationData = some r) : Inv packages r.2 := by
  obtain ⟨provider, hprovider, hbody⟩ := Option.bind_eq_some_iff.mp hcall
  obtain ⟨package, hpackage, hupdate⟩ := Option.bind_eq_some_iff.mp hprovider
  obtain ⟨f, hf, rfl⟩ := Option.map_eq_some_iff.mp hbody
  have hkeeps := (hpassive package (packageOf_mem hpackage)).installUpdate provider f hupdate hf
    (s.updates i) validationData s.world
  have hrecorded : Inv packages (s.record (.installed i (s.updates i))) := by
    apply h.record
    · apply h.installs.record
      intro handle u heq hhas _
      obtain ⟨rfl, rfl⟩ := Event.installed.inj heq
      exact ⟨(h.books _ hi).authenticated hauth, (h.books _ hi).validated hvalidated hhas⟩
    · intro j hj
      trivial
  exact (hrecorded.put hi ((hrecorded.books i hi).keeps hkeeps)).withWorld _

theorem install (h : Inv packages s) (hpassive : ∀ package ∈ packages, package.Passive)
    {validationData : List UInt8} (hadm : ValidationPasses packages s handle validationData)
    (hcall : install packages s handle validationData = some r) : Inv packages r.2 := by
  rcases h.withUpdate hcall with rfl | ⟨i, package, hi, hget, huse, hpackage, hbody⟩
  · exact h
  split at hbody
  · obtain rfl := Option.some.inj hbody
    exact h
  rename_i hauth
  split at hbody
  · rename_i hvalidated
    exact h.installNow hpassive hi (by simpa using hauth) hvalidated hbody
  · rename_i hvalidated
    obtain ⟨⟨valid, s'⟩, hvalidate, hbody⟩ := Option.bind_eq_some_iff.mp hbody
    have h' : Inv packages s' := h.validate hpassive hadm hvalidate
    dsimp only at hbody
    split at hbody
    · obtain rfl := Option.some.inj hbody
      exact h'
    · rw [validate_eq hget hpackage (by simpa using hauth) (by simpa using hvalidated)]
        at hvalidate
      have hflags := validateNow_flags hpassive hpackage hvalidate
      refine h'.installNow hpassive hi ?_ ?_ hbody
      · rw [hflags]
        simpa using hauth
      · rw [hflags]

theorem deleteUpdate (h : Inv packages s) {unset : Bool}
    (hcall : deleteUpdate packages s handle unset = some r) : Inv packages r.2 := by
  rcases h.withUpdate hcall with rfl | ⟨i, package, hi, hget, huse, hpackage, hbody⟩
  · exact h
  split at hbody
  · obtain rfl := Option.some.inj hbody
    exact h
  split at hbody
  · obtain rfl := Option.some.inj hbody
    exact h
  · obtain rfl := Option.some.inj hbody
    exact (h.withWorld _).release hi

theorem initializeUpdates (h : Inv packages s) : Inv packages s.initializeUpdates := by
  rw [State.initializeUpdates]
  split
  · exact h
  · refine ⟨h.installs, fun i hi => ?_, ?_⟩
    · dsimp only
      rw [if_pos hi]
      exact books_zero
    · dsimp only
      rw [if_neg (lt_irrefl _)]
      exact h.behind

/-- A place that is given out starts with an empty update. -/
theorem getNewUpdateHandle (h : Inv packages s) {header : MFUpdateHeader} {places : List Nat}
    {result : Option Nat × State World} (hplaces : ∀ i ∈ places, i < updateCount)
    (hnew : getNewUpdateHandle packages header places s = some result) :
    Inv packages result.2 ∧ ∀ i ∈ result.1, i < updateCount ∧
      (result.2.updates i).flags.authenticated = false ∧
        (result.2.updates i).flags.validated = false := by
  induction places generalizing s with
  | nil =>
      obtain rfl := Option.some.inj hnew
      exact ⟨h, fun i hi => absurd hi (Option.not_mem_none i)⟩
  | cons i rest ih =>
      have hi := hplaces i List.mem_cons_self
      rw [Update.getNewUpdateHandle] at hnew
      obtain ⟨s', hs', hnew⟩ := Option.bind_eq_some_iff.mp hnew
      have h' : Inv packages s' := by
        rw [vacate] at hs'
        split at hs'
        · obtain ⟨answer, -, rfl⟩ := Option.map_eq_some_iff.mp hs'
          split
          · exact (h.withWorld _).release hi
          · exact h.withWorld _
        · obtain rfl := Option.some.inj hs'
          exact h
      split at hnew
      · exact ih h' (fun j hj => hplaces j (List.mem_cons_of_mem i hj)) hnew
      · rename_i hfree
        obtain rfl := Option.some.inj hnew
        obtain ⟨hauth, hvalidated⟩ := (h'.books i hi).free (by simpa using hfree)
        constructor
        · refine h'.putRecord hi ?_ ?_ ⟨fun huse => ?_, fun hflag => ?_, fun hflag => ?_⟩
          · apply h'.installs.record
            intro handle u heq
            cases heq
          · intro j hj hne
            exact hne.symm
          · cases huse
          · exact absurd (hauth.symm.trans hflag) Bool.noConfusion
          · exact absurd (hvalidated.symm.trans hflag) Bool.noConfusion
        · intro j hj
          obtain rfl := Option.some.inj hj
          rw [State.record_updates, State.put_self]
          exact ⟨hi, hauth, hvalidated⟩

theorem initUpdate (h : Inv packages s) (hpassive : ∀ package ∈ packages, package.Passive)
    {name : List Char} {header : MFUpdateHeader} {result : Int × State World}
    (hcall : initUpdate packages s name header = some result) : Inv packages result.2 := by
  have h' := h.initializeUpdates
  rw [Update.initUpdate] at hcall
  dsimp only at hcall
  split at hcall
  · obtain rfl := Option.some.inj hcall
    exact h'
  rename_i p package hname
  obtain ⟨⟨found, s'⟩, hnew, hcall⟩ := Option.bind_eq_some_iff.mp hcall
  obtain ⟨hinv, hfound⟩ := h'.getNewUpdateHandle (fun i => List.mem_range.mp) hnew
  dsimp only at hcall hinv hfound
  split at hcall
  · obtain rfl := Option.some.inj hcall
    exact hinv
  rename_i i
  obtain ⟨hi, hauth, hvalidated⟩ := hfound i rfl
  obtain ⟨provider, hprovider, rfl⟩ := Option.map_eq_some_iff.mp hcall
  have hbooks : Books packages s'.log i
      { s'.updates i with header := header, providers := some p } :=
    ⟨(hinv.books i hi).free, (hinv.books i hi).authenticated,
      fun hflag => absurd (hvalidated.symm.trans hflag) Bool.noConfusion⟩
  split
  · exact hinv.put hi hbooks
  · rename_i f hf
    have hkeeps := (hpassive package (getProviderByName_mem hname)).initializeUpdate provider f
      hprovider hf { s'.updates i with header := header, providers := some p } s'.world
    have hcalled := hinv.put hi (hbooks.keeps hkeeps)
    split
    · exact hcalled.withWorld _
    · exact (hcalled.withWorld _).release hi

theorem step (h : Inv packages s) (hpassive : ∀ package ∈ packages, package.Passive)
    {a : Action} {s' : State World} (hadm : Admitted packages s a)
    (hstep : step packages s a = some s') : Inv packages s' := by
  obtain ⟨r, hcall, rfl⟩ := Option.map_eq_some_iff.mp hstep
  cases a with
  | initUpdate name header =>
      obtain ⟨result, hresult, rfl⟩ := Option.map_eq_some_iff.mp hcall
      exact h.initUpdate hpassive hresult
  | authCommand handle cmd args => exact h.authCommand hpassive hcall
  | authenticate handle authData => exact h.authenticate hpassive hcall
  | openUpdate handle => exact h.openUpdate hadm hcall
  | createUpdate handle => exact h.createUpdate hpassive hadm hcall
  | addPacket handle packetIndex packetData validationData =>
      exact h.addPacket hpassive hadm hcall
  | validate handle validationData => exact h.validate hpassive hadm hcall
  | install handle validationData => exact h.install hpassive hadm hcall
  | deleteUpdate handle unset => exact h.deleteUpdate hcall
  | behind u =>
      obtain rfl := Option.some.inj hcall
      refine ⟨h.installs, fun i hi => ?_, ?_⟩
      · rw [State.put_of_ne (Nat.ne_of_lt hi)]
        exact h.books i hi
      · rw [State.put_self]
        exact hadm

theorem of_initial (h : Initial s) : Inv packages s := by
  obtain ⟨hzero, hbehind, -, hlog⟩ := h
  refine ⟨fun handle u rest hsuffix => ?_, fun i hi => ?_, hbehind⟩
  · rw [hlog] at hsuffix
    exact absurd (List.suffix_nil.mp hsuffix) (List.cons_ne_nil _ _)
  · rw [hzero i hi]
    exact books_zero

/-- A handle outside of the table finds no update. -/
theorem rejects (h : Inv packages s) {a : Action} (hhandle : a.handle? = some handle)
    (hout : handle < 0 ∨ 3 < handle) : call packages s a = some (false, s) := by
  have hnone : s.getUpdate handle = none := by
    rcases hget : s.getUpdate handle with _ | ⟨i, u⟩
    · rfl
    · have hi := (h.getUpdate hget).1
      rw [updateCount] at hi
      have hhandle := State.getUpdate_handle hget
      omega
  have hrejected : ∀ body, Update.withUpdate packages s handle body = some (false, s) := by
    intro body
    rw [Update.withUpdate, hnone]
  cases a with
  | initUpdate name header => cases hhandle
  | behind u => cases hhandle
  | _ => cases hhandle; exact hrejected _

theorem safe (h : Inv packages s) : Safe packages s where
  installs := h.installs
  remembered i hi := (h.books i hi).validated
  rejected _ _ := h.rejects

end Inv

/-- In every run in which no validation fails, no packet goes to the storage of a validated
update and a validated update is not moved to another storage, only validated updates are
installed. -/
theorem install_sound (packages : List (IUpdatePackage World))
    (hpassive : ∀ package ∈ packages, package.Passive) {s : State World}
    (h : Reachable (step packages) Initial (Admitted packages) s) : Safe packages s :=
  (h.invariant (Inv packages) (fun _ => Inv.of_initial) fun _ _ _ hinv hadm =>
    hinv.step hpassive hadm).safe

/-! ## A package whose validation compares the file with the validation data -/

/-- The world is the content of the file. -/
def samplePackage : IUpdatePackage (List UInt8) where
  providerName := some ['A']
  update := some ⟨some fun u w => ⟨true, u, w⟩, some fun u _ w => ⟨true, u, w⟩⟩
  validation := some ⟨none, some fun u _ w => ⟨true, u, w⟩, none,
    some fun u data w => ⟨decide (w = data), u, w⟩⟩
  storage := some {
    address := 0
    create := fun header _ _ => ((0, header), [])
    openFile := fun _ _ _ w => (0, w)
    close := none
    delete := none
    write := fun _ _ data w => (data.length, w ++ data)
    getHeader := fun _ w => ((true, MFUpdate.zero.header), w) }

theorem samplePackage_passive : samplePackage.Passive := by
  constructor <;>
  · intro p f hp hf
    cases hp
    cases hf <;> intros <;> exact ⟨rfl, rfl, rfl⟩

def sampleStart : State (List UInt8) := ⟨fun _ => .zero, false, [], []⟩

theorem sampleStart_initial : Initial sampleStart :=
  ⟨fun _ _ => rfl, rfl, rfl, rfl⟩

def sampleRun : List Action :=
  [.initUpdate ['a'] MFUpdate.zero.header, .authenticate 0 [], .validate 0 [], .install 0 []]

/-- The update that is installed. -/
def sampleUpdate : MFUpdate := ⟨MFUpdate.zero.header, 0, ⟨true, false, true, true⟩, some 0⟩

theorem install_sound_sample :
    ∃ s ∈ run (step [samplePackage]) sampleStart sampleRun,
      s.log.head? = some (.installed 0 sampleUpdate) ∧ Safe [samplePackage] s := by
  have hlog : (run (step [samplePackage]) sampleStart sampleRun).map (·.log.head?) =
      some (some (.installed 0 sampleUpdate)) := rfl
  obtain ⟨s, hs, hhead⟩ := Option.map_eq_some_iff.mp hlog
  refine ⟨s, hs, hhead,
    install_sound [samplePackage] ?_ (.run (.start sampleStart_initial) ?_ hs)⟩
  · intro package hpackage
    obtain rfl := List.mem_singleton.mp hpackage
    exact samplePackage_passive
  · refine ⟨trivial, _, rfl, trivial, _, rfl, ?_, _, rfl, ?_, _, rfl, trivial⟩
    · intro i u package f hget hpackage hauth hvalidated hf
      cases hget
      cases hpackage
      cases hf
      rfl
    · intro i u package f hget hpackage hauth hvalidated hf
      cases hget
      cases hvalidated

/-- The validation fails, and the update is installed all the same. -/
def failedRun : List Action :=
  [.initUpdate ['a'] MFUpdate.zero.header, .authenticate 0 [], .validate 0 [1], .install 0 [1]]

theorem not_install_sound_sample :
    ∃ s, Reachable (step [samplePackage]) Initial (fun _ _ => True) s ∧
      ¬ Safe [samplePackage] s := by
  have hlog : (run (step [samplePackage]) sampleStart failedRun).map (·.log) =
      some [.installed 0 sampleUpdate, .validated 0 false, .authenticated 0 true, .started 0] := rfl
  obtain ⟨s, hs, hlog⟩ := Option.map_eq_some_iff.mp hlog
  refine ⟨s, .run_of_some (.start sampleStart_initial) hs, fun hsafe => ?_⟩
  have hsuffix := List.suffix_refl s.log
  nth_rewrite 1 [hlog] at hsuffix
  obtain ⟨-, hvalidated⟩ := hsafe.installs 0 sampleUpdate _ hsuffix rfl rfl
  cases hvalidated

end TinyCLR.Update
