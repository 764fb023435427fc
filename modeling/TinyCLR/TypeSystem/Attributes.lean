import TinyCLR.HeapBlock.Convert
import TinyCLR.TypeSystem.VirtualMethod

/-!
# Attributes

`CLR_RT_AttributeEnumerator` over the attribute table of an assembly, and `CLR_RT_AttributeParser`
over the blob of an attribute. A blob is what the signature table holds from a place on.
-/

namespace TinyCLR.Attributes

open HeapBlock (NumericType)

/-! ## Metadata -/

def tblTypeDef : UInt16 := 4
def tblFieldDef : UInt16 := 5
def tblMethodDef : UInt16 := 6

/-- `CLR_RECORD_ATTRIBUTE`. -/
structure AttributeRecord where
  ownerType : UInt16
  ownerIdx : UInt16
  constructor : UInt16
  data : UInt16

/-- `Key`: the two halves that name the owner, read as one number. -/
def key (ownerType ownerIdx : UInt16) : ℕ := ownerType.toNat + 2 ^ 16 * ownerIdx.toNat

def AttributeRecord.key (r : AttributeRecord) : ℕ := Attributes.key r.ownerType r.ownerIdx

structure FieldDefIndex where
  assembly : UInt16
  field : ℕ
  deriving DecidableEq

/-- `CLR_RECORD_FIELDDEF`. -/
structure FieldDef where
  name : UInt16
  sig : UInt16

/-- The tables of one assembly, with the cross references already resolved. -/
structure Assembly where
  attributes : List AttributeRecord
  signatures : List UInt8
  getString : UInt16 → String
  methodRef : ℕ → MethodDefIndex
  typeRef : ℕ → TypeDefIndex
  /-- The signatures of `CLR_RECORD_TYPESPEC`. -/
  typeSpec : ℕ → UInt16
  fieldDef : ℕ → FieldDef

def Assembly.getSignature (assm : Assembly) (sig : UInt16) : List UInt8 :=
  assm.signatures.drop sig.toNat

/-- `CLR_RECORD_TYPEDEF`. -/
structure TypeDef where
  parent : Option TypeDefIndex
  isEnum : Bool
  dataType : UInt8
  iFieldsFirst : ℕ
  iFieldsNum : ℕ
  sFieldsFirst : ℕ
  sFieldsNum : ℕ

/-- The loaded assemblies. No type inherits from itself. -/
structure Metadata where
  assembly : UInt16 → Assembly
  typeDef : TypeDefIndex → TypeDef
  numArgs : MethodDefIndex → ℕ
  /-- The owner in `m_pCrossReference_MethodDef`. -/
  owner : MethodDefIndex → UInt16
  depth : TypeDefIndex → ℕ
  parent_depth : ∀ cls parent, (typeDef cls).parent = some parent → depth parent < depth cls

variable (md : Metadata)

/-! ## Enumeration -/

/-- Who the attributes belong to: a type, a field or a method, by its index in the assembly. -/
inductive Owner where
  | type (idx : UInt16)
  | field (idx : UInt16)
  | method (idx : UInt16)

/-- `CLR_RT_AttributeEnumerator`. The pointer is the number of records that it has passed, `none`
before the first; `m_match` and `m_blob` are those of the record that was found last. -/
structure Enumerator where
  assm : UInt16
  ptr : Option ℕ
  num : ℕ
  ownerType : UInt16
  ownerIdx : UInt16
  found : MethodDefIndex
  blob : List UInt8

/-- The three `Initialize`. That for a method sets the table of the fields. -/
def Enumerator.initializeOwner (assm : UInt16) (owner : Owner) : Enumerator :=
  let en (ownerType ownerIdx : UInt16) : Enumerator :=
    { assm := assm, ptr := none, num := 0, ownerType := ownerType, ownerIdx := ownerIdx,
      found := ⟨0, 0⟩, blob := [] }
  match owner with
  | .type idx => en tblTypeDef idx
  | .field idx => en tblFieldDef idx
  | .method idx => en tblFieldDef idx

/-- The constructor of a record, in this assembly or in the one that a reference leads to. -/
def resolveConstructor (assm : UInt16) (r : AttributeRecord) : MethodDefIndex :=
  if r.constructor &&& 0x8000 ≠ 0 then
    (md.assembly assm).methodRef (r.constructor &&& 0x7FFF).toNat
  else ⟨assm, r.constructor⟩

/-- The loop of `Advance` over `num` records from `ptr` on. -/
def advanceLoop (attributes : List AttributeRecord) (key : ℕ) :
    ℕ → ℕ → ℕ × ℕ × Option AttributeRecord
  | 0, ptr => (ptr, 0, none)
  | num + 1, ptr =>
      match attributes[ptr]? with
      | none => (ptr, num + 1, none)
      | some r =>
          if r.key = key then (ptr + 1, num, some r)
          else advanceLoop attributes key num (ptr + 1)

def Enumerator.advance (en : Enumerator) : Bool × Enumerator :=
  let attributes := (md.assembly en.assm).attributes
  let start : ℕ × ℕ :=
    match en.ptr with
    | none => (0, attributes.length)
    | some ptr => (ptr, en.num)
  match advanceLoop attributes (key en.ownerType en.ownerIdx) start.2 start.1 with
  | (ptr, num, none) => (false, { en with ptr := some ptr, num := num })
  | (ptr, num, some r) =>
      (true, { en with
        ptr := some ptr
        num := num
        found := resolveConstructor md en.assm r
        blob := (md.assembly en.assm).getSignature r.data })

/-- What `MatchNext` asks of the constructor: to be the given one, and to be declared by the given
type. -/
structure Filter where
  type : Option TypeDefIndex
  method : Option MethodDefIndex

/-- `InitializeFromMethod`: a cleared index has a cleared owner. -/
def declaringType (m : MethodDefIndex) : TypeDefIndex :=
  if m.data = 0 then ⟨0, 0⟩ else ⟨m.assembly, md.owner m⟩

def Filter.passes (filter : Filter) (m : MethodDefIndex) : Bool :=
  (match filter.method with | none => true | some im => m.data == im.data) &&
    match filter.type with | none => true | some it => (declaringType md m).data == it.data

/-- `MatchNext`, with `Advance` called `n` times at most. -/
def Enumerator.matchNext (filter : Filter) : ℕ → Enumerator → Bool × Enumerator
  | 0, en => (false, en)
  | n + 1, en =>
      match en.advance md with
      | (false, en) => (false, en)
      | (true, en) =>
          if filter.passes md en.found then (true, en) else Enumerator.matchNext filter n en

/-- The places of the records at which `MatchNext` stops until it returns false. -/
def visits (filter : Filter) (limit : ℕ) : ℕ → Enumerator → List ℕ
  | 0, _ => []
  | n + 1, en =>
      match en.matchNext md filter limit with
      | (false, _) => []
      | (true, en) => (en.ptr.getD 0 - 1) :: visits filter limit n en

/-! ## Signatures of fields -/

/-- `CLR_DataType`. -/
inductive DataType where
  | void
  | numeric (t : NumericType)
  | dateTime
  | timeSpan
  | string
  | object
  | «class»
  | valueType
  | szArray
  | byRef
  | other (dt : UInt8)
  deriving DecidableEq

def DataType.ofByte (b : UInt8) : DataType :=
  match b.toNat with
  | 0 => .void
  | 1 => .numeric .boolean
  | 2 => .numeric .i1
  | 3 => .numeric .u1
  | 4 => .numeric .char
  | 5 => .numeric .i2
  | 6 => .numeric .u2
  | 7 => .numeric .i4
  | 8 => .numeric .u4
  | 9 => .numeric .r4
  | 10 => .numeric .i8
  | 11 => .numeric .u8
  | 12 => .numeric .r8
  | 13 => .dateTime
  | 14 => .timeSpan
  | 15 => .string
  | 16 => .object
  | 17 => .class
  | 18 => .valueType
  | 19 => .szArray
  | 20 => .byRef
  | _ => .other b

inductive HResult where
  | wrongType
  | notSupported
  deriving DecidableEq

/-- `CLR_RT_SignatureParser::Element`; the class is kept where a token names it. -/
structure Element where
  byRef : Bool
  levels : ℕ
  dt : DataType
  cls : Option TypeDefIndex

def readUInt8 : List UInt8 → Option (UInt8 × List UInt8)
  | [] => none
  | b :: rest => some (b, rest)

/-- `TINYCLR_READ_UNALIGNED_UINT16`. -/
def readUInt16 : List UInt8 → Option (UInt16 × List UInt8)
  | b₀ :: b₁ :: rest => some (UInt16.ofNat (b₀.toNat + 2 ^ 8 * b₁.toNat), rest)
  | _ => none

/-- `CLR_UncompressData`. -/
def uncompressData : List UInt8 → Option (ℕ × List UInt8)
  | [] => none
  | b₀ :: rest =>
      if b₀ &&& 0x80 = 0 then some (b₀.toNat, rest)
      else if b₀ &&& 0xC0 = 0x80 then
        (readUInt8 rest).map fun r => ((b₀ &&& 0x3F).toNat * 2 ^ 8 + r.1.toNat, r.2)
      else
        match rest with
        | b₁ :: b₂ :: b₃ :: rest =>
            some ((b₀ &&& 0x1F).toNat * 2 ^ 24 + b₁.toNat * 2 ^ 16 + b₂.toNat * 2 ^ 8 + b₃.toNat,
              rest)
        | _ => none

/-- The token behind `CLASS` and `VALUETYPE`, whose low bits tell the table; `sub` is the parser
of a type specification. -/
def resolveElement (assm : UInt16) (sub : List UInt8 → Option (Except HResult Element))
    (sig : List UInt8) (byRef : Bool) (levels : ℕ) (dt : DataType) :
    Option (Except HResult Element) :=
  match uncompressData sig with
  | none => none
  | some (data, _) =>
      if data % 4 = 2 then
        (sub ((md.assembly assm).getSignature ((md.assembly assm).typeSpec (data / 4)))).map
          fun r => r.map fun el => { el with levels := el.levels + levels }
      else if data % 4 = 1 then
        some (.ok ⟨byRef, levels, dt, some ((md.assembly assm).typeRef (data / 4))⟩)
      else if data % 4 = 0 then
        some (.ok ⟨byRef, levels, dt, some ⟨assm, UInt16.ofNat (data / 4)⟩⟩)
      else some (.error .wrongType)

/-- `CLR_RT_SignatureParser::Advance` on the signature of a field or a type specification, in `n`
turns at most; `none` where it leaves the table. -/
def advanceSignature (assm : UInt16) :
    ℕ → List UInt8 → Bool → ℕ → Option (Except HResult Element)
  | 0, _, _, _ => none
  | _ + 1, [], _, _ => none
  | n + 1, b :: sig, byRef, levels =>
      match DataType.ofByte b with
      | .byRef =>
          if byRef then some (.error .wrongType) else advanceSignature assm n sig true levels
      | .szArray => advanceSignature assm n sig byRef (levels + 1)
      | .void => some (.ok ⟨byRef, levels, .void, none⟩)
      | .object => some (.ok ⟨byRef, levels, .object, none⟩)
      | .other _ => some (.error .wrongType)
      | .class =>
          resolveElement md assm (fun spec => advanceSignature assm n spec false 0) sig byRef levels
            .class
      | .valueType =>
          resolveElement md assm (fun spec => advanceSignature assm n spec false 0) sig byRef levels
            .valueType
      | dt => some (.ok ⟨byRef, levels, dt, none⟩)

/-! ## Fields -/

/-- `local_FindFieldDef` without a signature to match. -/
def findAmongFields (assm : UInt16) (text : String) : ℕ → ℕ → Option FieldDefIndex
  | 0, _ => none
  | num + 1, first =>
      if (md.assembly assm).getString ((md.assembly assm).fieldDef first).name = text then
        some ⟨assm, first⟩
      else findAmongFields assm text num (first + 1)

/-- `CLR_RT_Assembly::FindFieldDef`: the instance fields, then the static ones. -/
def findInType (cls : TypeDefIndex) (text : String) : Option FieldDefIndex :=
  let td := md.typeDef cls
  match findAmongFields md cls.assembly text td.iFieldsNum td.iFieldsFirst with
  | some fd => some fd
  | none => findAmongFields md cls.assembly text td.sFieldsNum td.sFieldsFirst

/-- The loop of `CLR_RT_ExecutionEngine::FindFieldDef`, for `n` types at most. -/
def findFieldLoop (text : String) : ℕ → TypeDefIndex → Option FieldDefIndex
  | 0, _ => none
  | n + 1, cls =>
      match findInType md cls text with
      | some fd => some fd
      | none =>
          match (md.typeDef cls).parent with
          | none => none
          | some parent => findFieldLoop text n parent

/-- There are no more types than the depth says. -/
def findFieldDef (cls : TypeDefIndex) (text : String) : Option FieldDefIndex :=
  findFieldLoop md text (md.depth cls + 1) cls

/-- The type of a field as the parser sees it: `Initialize_FieldDef` skips the calling convention,
and an enumeration counts as its underlying type. -/
def fieldType (fuel : ℕ) (fd : FieldDefIndex) : Option (Except HResult DataType) :=
  let assm := md.assembly fd.assembly
  (readUInt8 (assm.getSignature (assm.fieldDef fd.field).sig)).bind fun sig =>
    (advanceSignature md fd.assembly fuel sig.2 false 0).map fun r => r.map fun el =>
      match el.dt, el.cls with
      | .valueType, some cls =>
          if (md.typeDef cls).isEnum then .ofByte (md.typeDef cls).dataType else .valueType
      | dt, _ => dt

/-! ## The parser -/

def serializationTypeField : UInt8 := 0x53
def serializationTypeProperty : UInt8 := 0x54

/-- What the heap block of a value holds. Of a number these are the bytes of its own type; what the
block holds above them is left over from before. The string is null when there is no memory. -/
inductive Value where
  | numeric (t : NumericType) (bytes : List UInt8)
  | string (text : Option String)
  deriving DecidableEq

/-- `CLR_RT_AttributeParser::Value` of a named field. -/
structure NamedValue where
  pos : ℤ
  name : String
  value : Value
  deriving DecidableEq

/-- `CLR_RT_AttributeParser`. -/
structure Parser where
  assm : UInt16
  blob : List UInt8
  td : TypeDefIndex
  currentPos : ℤ
  fixedCount : ℤ
  namedCount : ℤ

def Parser.initializeFrom (en : Enumerator) : Except HResult Parser :=
  if en.found.data = 0 then .error .wrongType
  else
    .ok { assm := en.assm
          blob := en.blob
          td := declaringType md en.found
          currentPos := 0
          fixedCount := md.numArgs en.found - 1
          namedCount := -1 }

/-- The value behind the tag of its type, which is skipped. `allocated` says whether there is
memory for a string, whose creation is not checked. -/
def readValue (assm : UInt16) (allocated : Bool) (dt : DataType) (blob : List UInt8) :
    Option (Except HResult Value × List UInt8) :=
  match dt with
  | .numeric t =>
      let size := (t.sizeInBits + 7) / 8
      if (blob.drop 1).length < size then none
      else some (.ok (.numeric t ((blob.drop 1).take size)), (blob.drop 1).drop size)
  | .string =>
      (readUInt16 (blob.drop 1)).map fun r =>
        (.ok (.string (if allocated then some ((md.assembly assm).getString r.1) else none)), r.2)
  | _ => some (.error .wrongType, blob.drop 1)

/-- The part of `Next` for a named argument. The name is read before its kind is looked at. -/
def Parser.nextNamed (fuel : ℕ) (allocated : Bool) (p : Parser) :
    Option (Except HResult (Option NamedValue) × Parser) :=
  (readUInt8 p.blob).bind fun kind =>
    (readUInt16 kind.2).bind fun tk =>
      let name := (md.assembly p.assm).getString tk.1
      let p := { p with blob := tk.2 }
      if kind.1 ≠ serializationTypeField then some (.error .notSupported, p)
      else
        match findFieldDef md p.td name with
        | none => some (.error .wrongType, p)
        | some fd =>
            (fieldType md fuel fd).bind fun r =>
              match r with
              | .error x => some (.error x, p)
              | .ok dt =>
                  (readValue md p.assm allocated dt p.blob).map fun v =>
                    match v.1 with
                    | .error x => (.error x, { p with blob := v.2 })
                    | .ok value =>
                        (.ok (some { pos := p.currentPos, name := name, value := value }),
                          { p with blob := v.2, currentPos := p.currentPos + 1 })

/-- `Next`; `none` where it reads beyond the table. -/
def Parser.next (fuel : ℕ) (allocated : Bool) (p : Parser) :
    Option (Except HResult (Option NamedValue) × Parser) :=
  let start : Option Parser :=
    if p.currentPos = p.fixedCount then
      (readUInt16 p.blob).map fun n => { p with namedCount := n.1.toNat, blob := n.2 }
    else some p
  start.bind fun p =>
    if p.currentPos < p.fixedCount then some (.error .notSupported, p)
    else if p.currentPos < p.fixedCount + p.namedCount then p.nextNamed md fuel allocated
    else some (.ok none, p)

/-- `Next` until it returns NULL or fails, `n` times at most. -/
def Parser.values (fuel : ℕ) (allocated : ℤ → Bool) :
    ℕ → Parser → Option (List NamedValue × Except HResult Parser)
  | 0, _ => none
  | n + 1, p =>
      (p.next md fuel (allocated p.currentPos)).bind fun r =>
        match r with
        | (.error x, _) => some ([], .error x)
        | (.ok none, p) => some ([], .ok p)
        | (.ok (some v), p) =>
            (Parser.values fuel allocated n p).map fun vs => (v :: vs.1, vs.2)

end TinyCLR.Attributes
