import RandomArt.Binary64
import Mathlib.Data.Option.Basic

/-!
# Documents with plots as protocol buffers

The generated code writes a message field by field, without those that have their default value,
and reads the fields in any order: the last value of a field counts, the numbers of a list are
appended, fields with other numbers are skipped.
-/

namespace RandomArt.PlotMappingPb

/-- The values that the fields hold. -/
inductive Kind where
  | double
  | enum
  | bool
  | packedDouble
  | uint32
  | uint64
  | string
  | message

def Kind.Value (Double : Type) : Kind → Type
  | .double => Double
  | .enum => ℤ
  | .bool => Bool
  | .packedDouble => List Double
  | .uint32 => ℕ
  | .uint64 => ℕ
  | .string => String
  | .message => List UInt8

/-- The values that are written without a loss. What is as long as a word is not, and a `uint64`
has to be a number of the language. -/
def Kind.InRange {Double : Type} : (kind : Kind) → kind.Value Double → Prop
  | .double => fun _ => True
  | .enum => fun n : ℤ => -2 ^ 31 ≤ n ∧ n < 2 ^ 31
  | .bool => fun _ => True
  | .packedDouble => fun doubles : List Double => 8 * doubles.length < 2 ^ 32
  | .uint32 => fun n : ℕ => n < 2 ^ 32
  | .uint64 => fun n : ℕ => n < 2 ^ 64 ∧ Binary64.nearest n = n
  | .string => fun text : String => text.utf8ByteSize < 2 ^ 32
  | .message => fun bytes : List UInt8 => bytes.length < 2 ^ 32

/-- The numbers of the language, and the writer and the reader of the runtime library. Writing
is one function and reading is another, for each kind of a value. -/
structure Jspb (Double Field : Type) where
  zero : Double
  isZero : Double → Bool
  write : (kind : Kind) → ℕ → kind.Value Double → Field
  getResultBuffer : List Field → List UInt8
  fields : List UInt8 → Option (List Field)
  isEndGroup : Field → Bool
  getFieldNumber : Field → ℕ
  isDelimited : Field → Bool
  read : (kind : Kind) → Field → Option (kind.Value Double)

/-- The numbers that the writer takes for a field. -/
abbrev IsFieldNumber (number : ℕ) : Prop := 1 ≤ number ∧ number < 2 ^ 29

/-- The field is one that the writer has written without a loss. -/
def Jspb.Wrote {Double Field : Type} (jspb : Jspb Double Field) (field : Field) : Prop :=
  ∃ (kind : Kind) (number : ℕ) (value : kind.Value Double),
    IsFieldNumber number ∧ kind.InRange value ∧ field = jspb.write kind number value

/-- The reader reads what the writer has written. -/
structure Jspb.Lawful {Double Field : Type} (jspb : Jspb Double Field) : Prop where
  isZero_zero : jspb.isZero jspb.zero = true
  fields_getResultBuffer : ∀ fields, (∀ field ∈ fields, jspb.Wrote field) →
    jspb.fields (jspb.getResultBuffer fields) = some fields
  isEndGroup_write : ∀ kind number value, IsFieldNumber number →
    jspb.isEndGroup (jspb.write kind number value) = false
  getFieldNumber_write : ∀ kind number value, IsFieldNumber number →
    jspb.getFieldNumber (jspb.write kind number value) = number
  isDelimited_write : ∀ number doubles, IsFieldNumber number →
    jspb.isDelimited (jspb.write .packedDouble number doubles) = true
  read_write : ∀ (kind : Kind) number (value : kind.Value Double), IsFieldNumber number →
    kind.InRange value → jspb.read kind (jspb.write kind number value) = some value

/-- What a number field of a message holds, which is no zero but the default. -/
@[ext]
structure Jspb.Proto3Float {Double Field : Type} (jspb : Jspb Double Field) where
  val : Double
  eq_zero : jspb.isZero val = true → val = jspb.zero

section Messages

variable {Double Field : Type} (jspb : Jspb Double Field)

structure RegionBoundary where
  top : jspb.Proto3Float
  left : jspb.Proto3Float
  bottom : jspb.Proto3Float
  right : jspb.Proto3Float

structure ImageSize where
  pixelheight : ℕ
  pixelwidth : ℕ

structure PointPlotData where
  pixelref : ℤ
  resolution : Option ImageSize
  mappedRegion : Option (RegionBoundary jspb)
  uniform : Bool
  rowsList : List Double
  columnsList : List Double

structure BuildId where
  sourcename : String
  sourceurl : String
  sourceref : String
  version : String
  build : String

structure PointPlotMeta where
  ulid : String
  path : String
  createtime : ℕ
  origin : Option BuildId

structure PointPlotDocument where
  plotMeta : Option PointPlotMeta
  plotData : Option (PointPlotData jspb)

end Messages

section Writing

variable {Double Field : Type} (jspb : Jspb Double Field)

/-- A field, unless it has its default value. -/
def unlessDefault (isDefault : Bool) (field : Field) : List Field :=
  if isDefault then [] else [field]

/-- `writer.writeMessage(number, f, serializeBinaryToWriter)`, if there is one. -/
def writeMessage {Message : Type} (serializeBinaryToWriter : Message → List Field) (number : ℕ) :
    Option Message → List Field
  | none => []
  | some f => [jspb.write .message number (jspb.getResultBuffer (serializeBinaryToWriter f))]

def RegionBoundary.serializeBinaryToWriter (message : RegionBoundary jspb) : List Field :=
  unlessDefault (jspb.isZero message.top.val) (jspb.write .double 1 message.top.val) ++
  unlessDefault (jspb.isZero message.left.val) (jspb.write .double 2 message.left.val) ++
  unlessDefault (jspb.isZero message.bottom.val) (jspb.write .double 3 message.bottom.val) ++
  unlessDefault (jspb.isZero message.right.val) (jspb.write .double 4 message.right.val)

def ImageSize.serializeBinaryToWriter (message : ImageSize) : List Field :=
  unlessDefault (message.pixelheight == 0) (jspb.write .uint32 7 message.pixelheight) ++
  unlessDefault (message.pixelwidth == 0) (jspb.write .uint32 8 message.pixelwidth)

def PointPlotData.serializeBinaryToWriter (message : PointPlotData jspb) : List Field :=
  unlessDefault (message.pixelref == 0) (jspb.write .enum 1 message.pixelref) ++
  writeMessage jspb (ImageSize.serializeBinaryToWriter jspb) 2 message.resolution ++
  writeMessage jspb (RegionBoundary.serializeBinaryToWriter jspb) 3 message.mappedRegion ++
  unlessDefault (!message.uniform) (jspb.write .bool 4 message.uniform) ++
  unlessDefault message.rowsList.isEmpty (jspb.write .packedDouble 5 message.rowsList) ++
  unlessDefault message.columnsList.isEmpty (jspb.write .packedDouble 6 message.columnsList)

def BuildId.serializeBinaryToWriter (message : BuildId) : List Field :=
  unlessDefault (message.sourcename == "") (jspb.write .string 1 message.sourcename) ++
  unlessDefault (message.sourceurl == "") (jspb.write .string 2 message.sourceurl) ++
  unlessDefault (message.sourceref == "") (jspb.write .string 3 message.sourceref) ++
  unlessDefault (message.version == "") (jspb.write .string 4 message.version) ++
  unlessDefault (message.build == "") (jspb.write .string 5 message.build)

def PointPlotMeta.serializeBinaryToWriter (message : PointPlotMeta) : List Field :=
  unlessDefault (message.ulid == "") (jspb.write .string 1 message.ulid) ++
  unlessDefault (message.path == "") (jspb.write .string 2 message.path) ++
  unlessDefault (message.createtime == 0) (jspb.write .uint64 3 message.createtime) ++
  writeMessage jspb (BuildId.serializeBinaryToWriter jspb) 4 message.origin

def PointPlotDocument.serializeBinaryToWriter (message : PointPlotDocument jspb) : List Field :=
  writeMessage jspb (PointPlotMeta.serializeBinaryToWriter jspb) 1 message.plotMeta ++
  writeMessage jspb (PointPlotData.serializeBinaryToWriter jspb) 2 message.plotData

def PointPlotDocument.serializeBinary (message : PointPlotDocument jspb) : List UInt8 :=
  jspb.getResultBuffer (PointPlotDocument.serializeBinaryToWriter jspb message)

end Writing

section Reading

variable {Double Field Message : Type} (jspb : Jspb Double Field)

/-- What the cases of a reader do with a field: the value is read, then the message is set. -/
abbrev Cases (Field Message : Type) := ℕ → Option (Field → Option (Message → Message))

/-- One round of the loop over the fields. A field of another number is skipped. -/
def readCase (readCases : Cases Field Message) (msg : Message) (field : Field) : Option Message :=
  match readCases (jspb.getFieldNumber field) with
  | none => some msg
  | some handle => (handle field).map fun set => set msg

def deserializeBinaryFromReader (readCases : Cases Field Message) (msg : Message)
    (fields : List Field) : Option Message :=
  (fields.takeWhile fun field => !jspb.isEndGroup field).foldlM (readCase jspb readCases) msg

def readScalar (kind : Kind) (set : kind.Value Double → Message → Message) (field : Field) :
    Option (Message → Message) :=
  (jspb.read kind field).map set

/-- `reader.readMessage(value, deserializeBinaryFromReader)` with a new value. -/
def readMessage {Inner : Type} (readCases : Cases Field Inner) (empty : Inner)
    (set : Inner → Message → Message) (field : Field) : Option (Message → Message) := do
  let fields ← jspb.fields (← jspb.read .message field)
  return set (← deserializeBinaryFromReader jspb readCases empty fields)

def readDoubles (add : List Double → Message → Message) (field : Field) :
    Option (Message → Message) :=
  (if jspb.isDelimited field then jspb.read .packedDouble field
  else (jspb.read .double field).map fun value => ([value] : List Double)).map add

/-- `jspb.Message.setProto3FloatField` leaves out what equals the default. -/
def Jspb.proto3Float (value : Double) : jspb.Proto3Float :=
  if h : jspb.isZero value = true then ⟨jspb.zero, fun _ => rfl⟩ else ⟨value, fun h' => absurd h' h⟩

def RegionBoundary.empty : RegionBoundary jspb :=
  let zero : jspb.Proto3Float := ⟨jspb.zero, fun _ => rfl⟩
  ⟨zero, zero, zero, zero⟩

def RegionBoundary.readCases : Cases Field (RegionBoundary jspb)
  | 1 => some (readScalar jspb .double fun value msg => { msg with top := jspb.proto3Float value })
  | 2 => some (readScalar jspb .double fun value msg => { msg with left := jspb.proto3Float value })
  | 3 => some (readScalar jspb .double fun value msg =>
      { msg with bottom := jspb.proto3Float value })
  | 4 => some (readScalar jspb .double fun value msg =>
      { msg with right := jspb.proto3Float value })
  | _ => none

def ImageSize.empty : ImageSize := ⟨0, 0⟩

def ImageSize.readCases : Cases Field ImageSize
  | 7 => some (readScalar jspb .uint32 fun value msg => { msg with pixelheight := value })
  | 8 => some (readScalar jspb .uint32 fun value msg => { msg with pixelwidth := value })
  | _ => none

def PointPlotData.empty : PointPlotData jspb := ⟨0, none, none, false, [], []⟩

def PointPlotData.readCases : Cases Field (PointPlotData jspb)
  | 1 => some (readScalar jspb .enum fun value msg => { msg with pixelref := value })
  | 2 => some (readMessage jspb (ImageSize.readCases jspb) ImageSize.empty fun value msg =>
      { msg with resolution := some value })
  | 3 => some (readMessage jspb (RegionBoundary.readCases jspb) (RegionBoundary.empty jspb)
      fun value msg => { msg with mappedRegion := some value })
  | 4 => some (readScalar jspb .bool fun value msg => { msg with uniform := value })
  | 5 => some (readDoubles jspb fun values msg =>
      { msg with rowsList := msg.rowsList ++ values })
  | 6 => some (readDoubles jspb fun values msg =>
      { msg with columnsList := msg.columnsList ++ values })
  | _ => none

def BuildId.empty : BuildId := ⟨"", "", "", "", ""⟩

def BuildId.readCases : Cases Field BuildId
  | 1 => some (readScalar jspb .string fun value msg => { msg with sourcename := value })
  | 2 => some (readScalar jspb .string fun value msg => { msg with sourceurl := value })
  | 3 => some (readScalar jspb .string fun value msg => { msg with sourceref := value })
  | 4 => some (readScalar jspb .string fun value msg => { msg with version := value })
  | 5 => some (readScalar jspb .string fun value msg => { msg with build := value })
  | _ => none

def PointPlotMeta.empty : PointPlotMeta := ⟨"", "", 0, none⟩

def PointPlotMeta.readCases : Cases Field PointPlotMeta
  | 1 => some (readScalar jspb .string fun value msg => { msg with ulid := value })
  | 2 => some (readScalar jspb .string fun value msg => { msg with path := value })
  | 3 => some (readScalar jspb .uint64 fun value msg => { msg with createtime := value })
  | 4 => some (readMessage jspb (BuildId.readCases jspb) BuildId.empty fun value msg =>
      { msg with origin := some value })
  | _ => none

def PointPlotDocument.empty : PointPlotDocument jspb := ⟨none, none⟩

def PointPlotDocument.readCases : Cases Field (PointPlotDocument jspb)
  | 1 => some (readMessage jspb (PointPlotMeta.readCases jspb) PointPlotMeta.empty
      fun value msg => { msg with plotMeta := some value })
  | 2 => some (readMessage jspb (PointPlotData.readCases jspb) (PointPlotData.empty jspb)
      fun value msg => { msg with plotData := some value })
  | _ => none

def PointPlotDocument.deserializeBinary (bytes : List UInt8) : Option (PointPlotDocument jspb) := do
  deserializeBinaryFromReader jspb (PointPlotDocument.readCases jspb)
    (PointPlotDocument.empty jspb) (← jspb.fields bytes)

inductive AdaptError where
  | deserialize
  | notPlotData

/-- `PBufRegionMapFactory.adapt`, up to the map that only holds the data. -/
def adapt (sourceBuf : List UInt8) : Except AdaptError (PointPlotData jspb) :=
  match PointPlotDocument.deserializeBinary jspb sourceBuf with
  | none => .error .deserialize
  | some plotDocument =>
    match plotDocument.plotData with
    | none => .error .notPlotData
    | some plotData => .ok plotData

end Reading

end RandomArt.PlotMappingPb
