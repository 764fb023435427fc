import TinyCLR.Library.TransitionSystem

/-!
# Updates

The update manager of the porting kit: a table of four updates, each driven by the callbacks of
its package through the calls of `MFUpdate.cpp`. The callbacks are arbitrary functions of the
update that they are handed and of the state of the outside world.
-/

namespace TinyCLR.Update

structure MFVersion where
  usMajor : UInt16
  usMinor : UInt16
  usBuild : UInt16
  usRevision : UInt16
  deriving DecidableEq

structure MFUpdateHeader where
  updateID : Int
  version : MFVersion
  updateType : UInt16
  updateSubType : UInt16
  updateSize : UInt32
  packetSize : UInt32
  deriving DecidableEq

/-- `MFUPDATE_UPDATEID_ANY`, as the `INT32` that it is passed as. -/
def updateIDAny : Int := -1

/-- The bits of `Flags` that have a name. -/
structure Flags where
  inUse : Bool
  backupRequired : Bool
  authenticated : Bool
  validated : Bool
  deriving DecidableEq

/-- `Providers` is an index of the table of packages. -/
structure MFUpdate where
  header : MFUpdateHeader
  storageHandle : Int
  flags : Flags
  providers : Option Nat
  deriving DecidableEq

/-- What `memset` leaves. -/
def MFUpdate.zero : MFUpdate where
  header := ⟨0, ⟨0, 0, 0, 0⟩, 0, 0, 0, 0⟩
  storageHandle := 0
  flags := ⟨false, false, false, false⟩
  providers := none

variable {World : Type}

/-- What a callback answers, and what it leaves of the update it was handed and of the world. -/
structure Answer (World : Type) where
  ret : Bool
  update : MFUpdate
  world : World

structure IUpdateProvider (World : Type) where
  initializeUpdate : Option (MFUpdate → World → Answer World)
  installUpdate : Option (MFUpdate → List UInt8 → World → Answer World)

structure IUpdateValidationProvider (World : Type) where
  authCommand : Option (MFUpdate → UInt32 → List UInt8 → World → Answer World × List UInt8)
  authenticate : Option (MFUpdate → List UInt8 → World → Answer World)
  validatePacket : Option (MFUpdate → List UInt8 → List UInt8 → World → Answer World)
  validateUpdate : Option (MFUpdate → List UInt8 → World → Answer World)

/-- `address` tells one storage provider from another. -/
structure IUpdateStorageProvider (World : Type) where
  address : Nat
  create : MFUpdateHeader → Flags → World → (Int × MFUpdateHeader) × World
  openFile : Int → UInt16 → UInt16 → World → Int × World
  close : Option (Int → World → World)
  delete : Option (Int → UInt16 → UInt16 → World → Bool × World)
  write : Int → UInt32 → List UInt8 → World → Int × World
  getHeader : Int → World → (Bool × MFUpdateHeader) × World

structure IUpdatePackage (World : Type) where
  providerName : Option (List Char)
  update : Option (IUpdateProvider World)
  validation : Option (IUpdateValidationProvider World)
  storage : Option (IUpdateStorageProvider World)

/-- A storage that packets are written to: the provider and the handle of the file. -/
abbrev Storage := Nat × Int

/-- What has been asked of the providers. The handle is the place in the table of updates. -/
inductive Event where
  | started (handle : Nat)
  | authenticated (handle : Nat) (ok : Bool)
  | written (storage : Storage)
  | validated (handle : Nat) (ok : Bool)
  | installed (handle : Nat) (update : MFUpdate)
  deriving DecidableEq

/-- `s_Updates` has four places. What lies at place 4 is the memory behind the table. The log,
its newest event first, is no part of the program. -/
structure State (World : Type) where
  updates : Nat → MFUpdate
  initialized : Bool
  world : World
  log : List Event

/-- `ARRAYSIZE(s_Updates)`. -/
def updateCount : Nat := 4

namespace State

variable (s : State World)

def put (handle : Nat) (update : MFUpdate) : State World :=
  { s with updates := Function.update s.updates handle update }

def withWorld (world : World) : State World :=
  { s with world := world }

def record (event : Event) : State World :=
  { s with log := event :: s.log }

variable {s} {i j : Nat} {u : MFUpdate} {w : World} {event : Event}

@[simp] theorem put_self : (s.put i u).updates i = u := Function.update_self ..

theorem put_of_ne (h : j ≠ i) : (s.put i u).updates j = s.updates j := Function.update_of_ne h ..

@[simp] theorem put_log : (s.put i u).log = s.log := rfl

@[simp] theorem put_world : (s.put i u).world = s.world := rfl

@[simp] theorem withWorld_updates : (s.withWorld w).updates = s.updates := rfl

@[simp] theorem withWorld_log : (s.withWorld w).log = s.log := rfl

@[simp] theorem withWorld_world : (s.withWorld w).world = w := rfl

@[simp] theorem record_updates : (s.record event).updates = s.updates := rfl

@[simp] theorem record_log : (s.record event).log = event :: s.log := rfl

@[simp] theorem record_world : (s.record event).world = s.world := rfl

theorem record_withWorld : (s.withWorld w).record event = (s.record event).withWorld w := rfl

variable (s)

/-- `MFUpdate_Initialize`. -/
def initializeUpdates : State World :=
  if s.initialized then s
  else { s with
    updates := fun i => if i < updateCount then .zero else s.updates i, initialized := true }

/-- The test of the handle lets `ARRAYSIZE(s_Updates)` itself pass. -/
def releaseUpdateHandle (handle : Nat) : State World :=
  if handle > updateCount then s else s.put handle .zero

theorem releaseUpdateHandle_put (hi : i < updateCount) :
    ((s.put i u).withWorld w).releaseUpdateHandle i = (s.withWorld w).releaseUpdateHandle i := by
  simp only [releaseUpdateHandle, put, withWorld, if_neg (Nat.not_lt.mpr hi.le),
    Function.update_idem]

/-- The test of the handle lets `ARRAYSIZE(s_Updates)` itself pass. -/
def getUpdate (handle : Int) : Option (Nat × MFUpdate) :=
  if handle < 0 ∨ handle > updateCount then none
  else if (s.updates handle.toNat).flags.inUse then some (handle.toNat, s.updates handle.toNat)
  else none

variable {s}

theorem getUpdate_handle {handle : Int} (h : s.getUpdate handle = some (i, u)) : handle = i := by
  rw [getUpdate] at h
  split at h
  · cases h
  · split at h
    · obtain ⟨rfl, -⟩ := Prod.mk.inj (Option.some.inj h)
      omega
    · cases h

end State

/-- A call ends with its answer, or with the call of a null pointer. -/
abbrev Outcome (World : Type) := Option (Bool × State World)

section Calls

variable (packages : List (IUpdatePackage World)) (s : State World)

/-- `update->Providers`. -/
def packageOf (update : MFUpdate) : Option (IUpdatePackage World) :=
  update.providers.bind fun p => packages[p]?

/-- The update in use and its package, as every call finds them. -/
def withUpdate (handle : Int)
    (body : Nat → MFUpdate → IUpdatePackage World → Outcome World) : Outcome World :=
  match s.getUpdate handle with
  | none => some (false, s)
  | some (i, update) =>
      (packageOf packages update).bind fun package => body i update package

/-- Whether `GetNewUpdateHandle` gives up an update in use, and what the query of its storage
leaves of the world. -/
def superseded (header : MFUpdateHeader) (update : MFUpdate) : Option (Bool × World) :=
  if header.updateType = update.header.updateType ∧
      header.updateSubType = update.header.updateSubType then
    some (true, s.world)
  else
    (packageOf packages update).map fun package =>
      match package.storage with
      | none => (true, s.world)
      | some storage =>
          let answer := storage.getHeader update.storageHandle s.world
          (!answer.1.1, answer.2)

def vacate (header : MFUpdateHeader) (i : Nat) : Option (State World) :=
  if (s.updates i).flags.inUse then
    (superseded packages s header (s.updates i)).map fun answer =>
      if answer.1 then (s.withWorld answer.2).releaseUpdateHandle i else s.withWorld answer.2
  else some s

def getNewUpdateHandle (header : MFUpdateHeader) :
    List Nat → State World → Option (Option Nat × State World)
  | [], s => some (none, s)
  | i :: rest, s =>
      (vacate packages s header i).bind fun s =>
        if (s.updates i).flags.inUse then getNewUpdateHandle header rest s
        else
          let update := s.updates i
          let taken := { update with flags := { update.flags with inUse := true } }
          some (some i, (s.put i taken).record (.started i))

/-- `hal_stricmp(..) == 0`. -/
def sameName (a b : List Char) : Bool :=
  a.map Char.toLower == b.map Char.toLower

def getProviderByName (name : List Char) : Option (Nat × IUpdatePackage World) :=
  (packages.zipIdx.find? fun package =>
    match package.1.providerName with
    | none => false
    | some providerName => sameName name providerName).map fun found => (found.2, found.1)

def initUpdate (name : List Char) (header : MFUpdateHeader) : Option (Int × State World) :=
  let s := s.initializeUpdates
  match getProviderByName packages name with
  | none => some (-1, s)
  | some (p, package) =>
      (getNewUpdateHandle packages header (List.range updateCount) s).bind fun (found, s) =>
        match found with
        | none => some (-1, s)
        | some i =>
            let update := { s.updates i with header := header, providers := some p }
            package.update.map fun provider =>
              match provider.initializeUpdate with
              | none => ((i : Int), s.put i update)
              | some initializeUpdate =>
                  let answer := initializeUpdate update s.world
                  let s := (s.put i answer.update).withWorld answer.world
                  if answer.ret then ((i : Int), s) else (-1, s.releaseUpdateHandle i)

def authCommand (handle : Int) (cmd : UInt32) (args : List UInt8) : Outcome World :=
  withUpdate packages s handle fun i update package =>
    match package.validation with
    | none => some (false, s)
    | some valid =>
        match valid.authCommand with
        | none => some (false, s)
        | some authCommand =>
            let (answer, _) := authCommand update cmd args s.world
            some (answer.ret, (s.put i answer.update).withWorld answer.world)

def authenticate (handle : Int) (authData : List UInt8) : Outcome World :=
  withUpdate packages s handle fun i update package =>
    match package.validation with
    | none => some (false, s)
    | some valid =>
        match valid.authenticate with
        | none => some (true, s)
        | some authenticate =>
            let answer := authenticate update authData s.world
            let flags := { answer.update.flags with authenticated := answer.ret }
            let s := (s.put i { answer.update with flags := flags }).withWorld answer.world
            some (answer.ret, s.record (.authenticated i answer.ret))

/-- `MFUpdate_Open`. -/
def openUpdate (handle : Int) : Outcome World :=
  withUpdate packages s handle fun i update package =>
    match package.update with
    | none => some (false, s)
    | some _ =>
        if !update.flags.authenticated then some (false, s)
        else
          match package.storage with
          | none => some (false, s)
          | some storage =>
              let (storageHandle, world) := storage.openFile updateIDAny
                update.header.updateType update.header.updateSubType s.world
              let update := { update with storageHandle := storageHandle }
              let s := (s.put i update).withWorld world
              if storageHandle = -1 then some (false, s)
              else
                let ((_, header), world) := storage.getHeader storageHandle s.world
                let s := s.withWorld world
                if header.updateID ≠ update.header.updateID ∨
                    header.version ≠ update.header.version then
                  storage.delete.map fun delete =>
                    let (_, world) := delete header.updateID header.updateType
                      header.updateSubType s.world
                    (false, s.withWorld world)
                else some (true, s.put i { update with header := header })

/-- `MFUpdate_Create`. -/
def createUpdate (handle : Int) : Outcome World :=
  withUpdate packages s handle fun i update package =>
    match package.update with
    | none => some (false, s)
    | some provider =>
        if !update.flags.authenticated then some (false, s)
        else
          match package.storage with
          | none => some (false, s)
          | some _ =>
              provider.initializeUpdate.bind fun initializeUpdate =>
                let answer := initializeUpdate update s.world
                let s := (s.put i answer.update).withWorld answer.world
                if !answer.ret then some (false, s.releaseUpdateHandle i)
                else
                  ((packageOf packages answer.update).bind (·.storage)).map fun storage =>
                    let ((storageHandle, header), world) :=
                      storage.create answer.update.header update.flags s.world
                    let created :=
                      { answer.update with storageHandle := storageHandle, header := header }
                    let s := (s.put i created).withWorld world
                    if storageHandle = -1 then (false, s.releaseUpdateHandle i) else (true, s)

/-- `ValidatePacket`, where there is one. `pValidationData` is null when it has no bytes. -/
def checkPacket (update : MFUpdate) (package : IUpdatePackage World)
    (packetData validationData : List UInt8) : Answer World :=
  match package.validation.bind (·.validatePacket) with
  | none => ⟨true, update, s.world⟩
  | some validatePacket =>
      if validationData.isEmpty then ⟨true, update, s.world⟩
      else validatePacket update packetData validationData s.world

def addPacket (handle : Int) (packetIndex : UInt32) (packetData validationData : List UInt8) :
    Outcome World :=
  withUpdate packages s handle fun i update package =>
    match package.storage with
    | none => some (false, s)
    | some _ =>
        if !update.flags.authenticated then some (false, s)
        else
          let checked := checkPacket s update package packetData validationData
          let s := (s.put i checked.update).withWorld checked.world
          if !checked.ret then some (false, s)
          else
            ((packageOf packages checked.update).bind (·.storage)).map fun storage =>
              let storageHandle := checked.update.storageHandle
              let (written, world) := storage.write storageHandle
                (packetIndex * checked.update.header.packetSize) packetData s.world
              (decide (written = packetData.length),
                (s.withWorld world).record (.written (storage.address, storageHandle)))

/-- The end of `MFUpdate_Validate`: the last assignment sets the bit whatever the validation
has answered. -/
def closeValidated (i : Nat) (answer : Answer World) : Outcome World :=
  (packageOf packages answer.update).map fun package =>
    let flags := { answer.update.flags with validated := true }
    let world :=
      match package.storage.bind (·.close) with
      | none => answer.world
      | some close => close answer.update.storageHandle answer.world
    (answer.ret, (s.put i { answer.update with flags := flags }).withWorld world)

/-- What follows the tests of the flags in `MFUpdate_Validate`. -/
def validateNow (i : Nat) (update : MFUpdate) (package : IUpdatePackage World)
    (validationData : List UInt8) : Outcome World :=
  match package.validation.bind (·.validateUpdate) with
  | none => closeValidated packages s i ⟨true, update, s.world⟩
  | some validateUpdate =>
      let answer := validateUpdate update validationData s.world
      (closeValidated packages s i answer).map fun result =>
        (result.1, result.2.record (.validated i answer.ret))

def validate (handle : Int) (validationData : List UInt8) : Outcome World :=
  withUpdate packages s handle fun i update package =>
    if !update.flags.authenticated then some (false, s)
    else if update.flags.validated then some (true, s)
    else validateNow packages s i update package validationData

def installNow (i : Nat) (validationData : List UInt8) : Outcome World :=
  ((packageOf packages (s.updates i)).bind (·.update)).bind fun provider =>
    provider.installUpdate.map fun installUpdate =>
      let answer := installUpdate (s.updates i) validationData s.world
      (answer.ret,
        ((s.record (.installed i (s.updates i))).put i answer.update).withWorld answer.world)

def install (handle : Int) (validationData : List UInt8) : Outcome World :=
  withUpdate packages s handle fun i update _ =>
    if !update.flags.authenticated then some (false, s)
    else if update.flags.validated then installNow packages s i validationData
    else
      Option.bind (validate packages s handle validationData) fun (valid, s) =>
        if !valid then some (false, s) else installNow packages s i validationData

/-- `MFUpdate_Delete`. Without a callback the answer is what was on the stack. -/
def deleteUpdate (handle : Int) (unset : Bool) : Outcome World :=
  withUpdate packages s handle fun i update package =>
    match package.storage with
    | none => some (false, s)
    | some storage =>
        if !update.flags.authenticated then some (false, s)
        else
          let (ret, world) :=
            match storage.delete with
            | none => (unset, s.world)
            | some delete => delete update.header.updateID update.header.updateType
                update.header.updateSubType s.world
          some (ret, (s.withWorld world).releaseUpdateHandle i)

end Calls

/-- The calls, and the writes of other code to the memory behind the table. -/
inductive Action where
  | initUpdate (name : List Char) (header : MFUpdateHeader)
  | authCommand (handle : Int) (cmd : UInt32) (args : List UInt8)
  | authenticate (handle : Int) (authData : List UInt8)
  | openUpdate (handle : Int)
  | createUpdate (handle : Int)
  | addPacket (handle : Int) (packetIndex : UInt32) (packetData validationData : List UInt8)
  | validate (handle : Int) (validationData : List UInt8)
  | install (handle : Int) (validationData : List UInt8)
  | deleteUpdate (handle : Int) (unset : Bool)
  | behind (update : MFUpdate)

/-- The handle that a call is given. -/
def Action.handle? : Action → Option Int
  | .initUpdate _ _ => none
  | .authCommand handle _ _ => some handle
  | .authenticate handle _ => some handle
  | .openUpdate handle => some handle
  | .createUpdate handle => some handle
  | .addPacket handle _ _ _ => some handle
  | .validate handle _ => some handle
  | .install handle _ => some handle
  | .deleteUpdate handle _ => some handle
  | .behind _ => none

def call (packages : List (IUpdatePackage World)) (s : State World) : Action → Outcome World
  | .initUpdate name header =>
      (initUpdate packages s name header).map fun result => (decide (result.1 ≠ -1), result.2)
  | .authCommand handle cmd args => authCommand packages s handle cmd args
  | .authenticate handle authData => authenticate packages s handle authData
  | .openUpdate handle => openUpdate packages s handle
  | .createUpdate handle => createUpdate packages s handle
  | .addPacket handle packetIndex packetData validationData =>
      addPacket packages s handle packetIndex packetData validationData
  | .validate handle validationData => validate packages s handle validationData
  | .install handle validationData => install packages s handle validationData
  | .deleteUpdate handle unset => deleteUpdate packages s handle unset
  | .behind update => some (true, s.put updateCount update)

def step (packages : List (IUpdatePackage World)) (s : State World) (a : Action) :
    Option (State World) :=
  (call packages s a).map Prod.snd

end TinyCLR.Update
