import RandomArt.PlotMappingPb
import RandomArt.WireFormat
import RandomArt.KeyedFold
import Mathlib.Data.List.TakeWhile

/-!
# Reading documents with plots

A document is read back as it was written, whatever its messages hold. Read from fields in
another order, or between fields that are not known, the messages are the same.
-/

namespace RandomArt.PlotMappingPb

variable {Double Field Message Inner : Type} {jspb : Jspb Double Field}

section Ranges

def ImageSize.Writable (message : ImageSize) : Prop :=
  message.pixelheight < 2 ^ 32 ∧ message.pixelwidth < 2 ^ 32

def BuildId.Writable (message : BuildId) : Prop :=
  ∀ text ∈ [message.sourcename, message.sourceurl, message.sourceref, message.version,
    message.build], text.utf8ByteSize < 2 ^ 32

/-- An inner message that can be written, if there is one, and is not too long. -/
def WritableMessage (jspb : Jspb Double Field) (Writable : Message → Prop)
    (serializeBinaryToWriter : Message → List Field) (message : Option Message) : Prop :=
  ∀ f ∈ message, Writable f ∧
    (jspb.getResultBuffer (serializeBinaryToWriter f)).length < 2 ^ 32

def PointPlotData.Writable (message : PointPlotData jspb) : Prop :=
  (-2 ^ 31 ≤ message.pixelref ∧ message.pixelref < 2 ^ 31) ∧
  WritableMessage jspb ImageSize.Writable (ImageSize.serializeBinaryToWriter jspb)
    message.resolution ∧
  WritableMessage jspb (fun _ => True) (RegionBoundary.serializeBinaryToWriter jspb)
    message.mappedRegion ∧
  8 * message.rowsList.length < 2 ^ 32 ∧ 8 * message.columnsList.length < 2 ^ 32

def PointPlotMeta.Writable (jspb : Jspb Double Field) (message : PointPlotMeta) : Prop :=
  message.ulid.utf8ByteSize < 2 ^ 32 ∧ message.path.utf8ByteSize < 2 ^ 32 ∧
  (message.createtime < 2 ^ 64 ∧ Binary64.nearest message.createtime = message.createtime) ∧
  WritableMessage jspb BuildId.Writable (BuildId.serializeBinaryToWriter jspb) message.origin

/-- Nothing is longer, and no number larger, than the format has room for. -/
def PointPlotDocument.Writable (message : PointPlotDocument jspb) : Prop :=
  WritableMessage jspb (PointPlotMeta.Writable jspb)
    (PointPlotMeta.serializeBinaryToWriter jspb) message.plotMeta ∧
  WritableMessage jspb PointPlotData.Writable (PointPlotData.serializeBinaryToWriter jspb)
    message.plotData

end Ranges

section Fields

variable {readCases : Cases Field Message} {msg : Message} {rest : List Field} {number : ℕ}

theorem wrote_unlessDefault {kind : Kind} {value : kind.Value Double} {isDefault : Bool}
    (hnumber : IsFieldNumber number) (hrange : kind.InRange value) :
    ∀ field ∈ unlessDefault isDefault (jspb.write kind number value), jspb.Wrote field := by
  intro field hfield
  cases isDefault with
  | true => cases hfield
  | false => exact ⟨kind, number, value, hnumber, hrange, List.mem_singleton.mp hfield⟩

theorem wrote_writeMessage {serialize : Inner → List Field} {Writable : Inner → Prop}
    {message : Option Inner} (hnumber : IsFieldNumber number)
    (hwritable : WritableMessage jspb Writable serialize message) :
    ∀ field ∈ writeMessage jspb serialize number message, jspb.Wrote field := by
  intro field hfield
  cases message with
  | none => cases hfield
  | some f =>
    have heq := List.mem_singleton.mp hfield
    exact ⟨.message, number, _, hnumber, (hwritable f rfl).2, heq⟩

theorem deserialize_nil : deserializeBinaryFromReader jspb readCases msg [] = some msg := rfl

/-- The loop goes on after a field that is no end of a group. -/
theorem deserialize_cons {field : Field} (hfield : jspb.isEndGroup field = false) :
    deserializeBinaryFromReader jspb readCases msg (field :: rest) =
      (readCase jspb readCases msg field).bind
        (deserializeBinaryFromReader jspb readCases · rest) := by
  rw [deserializeBinaryFromReader, List.takeWhile_cons_of_pos (by rw [hfield]; rfl),
    List.foldlM_cons]
  rfl

variable (hj : jspb.Lawful)
include hj

theorem deserialize_write {kind : Kind} {value : kind.Value Double}
    {handle : Field → Option (Message → Message)} {set : Message → Message}
    (hnumber : IsFieldNumber number) (hcase : readCases number = some handle)
    (hset : handle (jspb.write kind number value) = some set) :
    deserializeBinaryFromReader jspb readCases msg (jspb.write kind number value :: rest) =
      deserializeBinaryFromReader jspb readCases (set msg) rest := by
  rw [deserialize_cons (hj.isEndGroup_write _ _ _ hnumber), readCase,
    hj.getFieldNumber_write _ _ _ hnumber, hcase]
  simp only [hset, Option.map_some, Option.bind_some]

/-- A field that was left out would not have changed the message. -/
theorem deserialize_unlessDefault {kind : Kind} {value : kind.Value Double} {isDefault : Bool}
    {handle : Field → Option (Message → Message)} {set : Message → Message}
    (hnumber : IsFieldNumber number) (hcase : readCases number = some handle)
    (hset : handle (jspb.write kind number value) = some set)
    (hdefault : isDefault = true → set msg = msg) :
    deserializeBinaryFromReader jspb readCases msg
        (unlessDefault isDefault (jspb.write kind number value) ++ rest) =
      deserializeBinaryFromReader jspb readCases (set msg) rest := by
  cases isDefault with
  | true => rw [unlessDefault, if_pos rfl, List.nil_append, hdefault rfl]
  | false => exact deserialize_write hj hnumber hcase hset

theorem readScalar_write (kind : Kind) {value : kind.Value Double}
    {set : kind.Value Double → Message → Message} (hnumber : IsFieldNumber number)
    (hrange : kind.InRange value) :
    readScalar jspb kind set (jspb.write kind number value) = some (set value) := by
  rw [readScalar, hj.read_write kind number value hnumber hrange]
  rfl

theorem readDoubles_write {doubles : List Double} {add : List Double → Message → Message}
    (hnumber : IsFieldNumber number) (hrange : 8 * doubles.length < 2 ^ 32) :
    readDoubles jspb add (jspb.write .packedDouble number doubles) = some (add doubles) := by
  rw [readDoubles, if_pos (hj.isDelimited_write number doubles hnumber),
    hj.read_write .packedDouble number doubles hnumber hrange]
  rfl

/-- What is read back from its own fields is read back from an inner message. -/
theorem deserialize_writeMessage {innerCases : Cases Field Inner} {empty : Inner}
    {serialize : Inner → List Field} {set : Inner → Message → Message}
    (hnumber : IsFieldNumber number)
    (hcase : readCases number = some (readMessage jspb innerCases empty set))
    {Writable : Inner → Prop} {message : Option Inner}
    (hwrote : ∀ f, Writable f → ∀ field ∈ serialize f, jspb.Wrote field)
    (hread : ∀ f, Writable f →
      deserializeBinaryFromReader jspb innerCases empty (serialize f) = some f)
    (hwritable : WritableMessage jspb Writable serialize message) :
    deserializeBinaryFromReader jspb readCases msg
        (writeMessage jspb serialize number message ++ rest) =
      deserializeBinaryFromReader jspb readCases (message.elim msg (set · msg)) rest := by
  cases message with
  | none => rfl
  | some f =>
    obtain ⟨hf, hlength⟩ := hwritable f rfl
    refine deserialize_write hj hnumber hcase ?_
    have hfields : jspb.fields (jspb.getResultBuffer (serialize f)) = some (serialize f) :=
      hj.fields_getResultBuffer _ (hwrote f hf)
    rw [readMessage, hj.read_write .message number _ hnumber hlength]
    change (jspb.fields (jspb.getResultBuffer (serialize f))).bind _ = _
    rw [hfields, Option.bind_some, hread f hf]
    rfl

end Fields

section RoundTrip

variable (hj : jspb.Lawful)
include hj

omit hj in
@[simp] theorem proto3Float_val (value : jspb.Proto3Float) :
    jspb.proto3Float value.val = value := by
  rw [Jspb.proto3Float]
  split_ifs with h
  · exact Jspb.Proto3Float.ext (value.eq_zero h).symm
  · rfl

omit hj in
theorem proto3Float_of_isZero {value : Double} (h : jspb.isZero value = true) :
    jspb.proto3Float value = ⟨jspb.zero, fun _ => rfl⟩ := by
  rw [Jspb.proto3Float, dif_pos h]

omit hj in
theorem RegionBoundary.wrote_serialize (message : RegionBoundary jspb) :
    ∀ field ∈ RegionBoundary.serializeBinaryToWriter jspb message, jspb.Wrote field := by
  have hdouble {number : ℕ} {value : Double} {isDefault : Bool} (hnumber : IsFieldNumber number) :
      ∀ field ∈ unlessDefault isDefault (jspb.write .double number value), jspb.Wrote field :=
    wrote_unlessDefault hnumber trivial
  simp only [RegionBoundary.serializeBinaryToWriter, List.forall_mem_append]
  exact ⟨⟨⟨hdouble (by decide), hdouble (by decide)⟩, hdouble (by decide)⟩, hdouble (by decide)⟩

theorem RegionBoundary.deserialize_serialize (message : RegionBoundary jspb) :
    deserializeBinaryFromReader jspb (RegionBoundary.readCases jspb) (RegionBoundary.empty jspb)
      (RegionBoundary.serializeBinaryToWriter jspb message) = some message := by
  have hscalar {number : ℕ} {set : Double → RegionBoundary jspb → RegionBoundary jspb}
      {value : Double} (hnumber : IsFieldNumber number) :
      readScalar jspb .double set (jspb.write .double number value) = some (set value) :=
    readScalar_write hj .double hnumber trivial
  rw [RegionBoundary.serializeBinaryToWriter, ← List.append_nil (_ ++ _)]
  simp only [List.append_assoc]
  rw [deserialize_unlessDefault hj (by decide) rfl (hscalar (by decide)),
    deserialize_unlessDefault hj (by decide) rfl (hscalar (by decide)),
    deserialize_unlessDefault hj (by decide) rfl (hscalar (by decide)),
    deserialize_unlessDefault hj (by decide) rfl (hscalar (by decide)), deserialize_nil]
  · simp only [proto3Float_val]
  all_goals
    intro h
    simp only [proto3Float_of_isZero h, RegionBoundary.empty]

omit hj in
theorem ImageSize.wrote_serialize {message : ImageSize} (h : message.Writable) :
    ∀ field ∈ ImageSize.serializeBinaryToWriter jspb message, jspb.Wrote field := by
  simp only [ImageSize.serializeBinaryToWriter, List.forall_mem_append]
  exact ⟨wrote_unlessDefault (by decide) h.1, wrote_unlessDefault (by decide) h.2⟩

theorem ImageSize.deserialize_serialize {message : ImageSize} (h : message.Writable) :
    deserializeBinaryFromReader jspb (ImageSize.readCases jspb) ImageSize.empty
      (ImageSize.serializeBinaryToWriter jspb message) = some message := by
  rw [ImageSize.serializeBinaryToWriter, ← List.append_nil (_ ++ _)]
  simp only [List.append_assoc]
  rw [deserialize_unlessDefault hj (by decide) rfl
      (readScalar_write hj .uint32 (by decide) h.1),
    deserialize_unlessDefault hj (by decide) rfl
      (readScalar_write hj .uint32 (by decide) h.2), deserialize_nil]
  all_goals
    intro hdefault
    simp only [beq_iff_eq.mp hdefault, ImageSize.empty]

omit hj in
theorem BuildId.wrote_serialize {message : BuildId} (h : message.Writable) :
    ∀ field ∈ BuildId.serializeBinaryToWriter jspb message, jspb.Wrote field := by
  have htext {number : ℕ} {text : String} {isDefault : Bool} (hnumber : IsFieldNumber number)
      (hmem : text ∈ [message.sourcename, message.sourceurl, message.sourceref, message.version,
        message.build]) :
      ∀ field ∈ unlessDefault isDefault (jspb.write .string number text), jspb.Wrote field :=
    wrote_unlessDefault hnumber (h text hmem)
  simp only [BuildId.serializeBinaryToWriter, List.forall_mem_append]
  exact ⟨⟨⟨⟨htext (by decide) (by simp), htext (by decide) (by simp)⟩,
    htext (by decide) (by simp)⟩, htext (by decide) (by simp)⟩, htext (by decide) (by simp)⟩

theorem BuildId.deserialize_serialize {message : BuildId} (h : message.Writable) :
    deserializeBinaryFromReader jspb (BuildId.readCases jspb) BuildId.empty
      (BuildId.serializeBinaryToWriter jspb message) = some message := by
  have hscalar {number : ℕ} {set : String → BuildId → BuildId} {text : String}
      (hnumber : IsFieldNumber number)
      (htext : text ∈ [message.sourcename, message.sourceurl, message.sourceref, message.version,
        message.build]) :
      readScalar jspb .string set (jspb.write .string number text) = some (set text) :=
    readScalar_write hj .string hnumber (h text htext)
  rw [BuildId.serializeBinaryToWriter, ← List.append_nil (_ ++ _)]
  simp only [List.append_assoc]
  rw [deserialize_unlessDefault hj (by decide) rfl (hscalar (by decide) (by simp)),
    deserialize_unlessDefault hj (by decide) rfl (hscalar (by decide) (by simp)),
    deserialize_unlessDefault hj (by decide) rfl (hscalar (by decide) (by simp)),
    deserialize_unlessDefault hj (by decide) rfl (hscalar (by decide) (by simp)),
    deserialize_unlessDefault hj (by decide) rfl (hscalar (by decide) (by simp)), deserialize_nil]
  all_goals
    intro hdefault
    simp only [beq_iff_eq.mp hdefault, BuildId.empty]

omit hj in
theorem PointPlotMeta.wrote_serialize {message : PointPlotMeta} (h : message.Writable jspb) :
    ∀ field ∈ PointPlotMeta.serializeBinaryToWriter jspb message, jspb.Wrote field := by
  obtain ⟨hulid, hpath, htime, horigin⟩ := h
  simp only [PointPlotMeta.serializeBinaryToWriter, List.forall_mem_append]
  exact ⟨⟨⟨wrote_unlessDefault (by decide) hulid, wrote_unlessDefault (by decide) hpath⟩,
    wrote_unlessDefault (by decide) htime⟩, wrote_writeMessage (by decide) horigin⟩

theorem PointPlotMeta.deserialize_serialize {message : PointPlotMeta}
    (h : message.Writable jspb) :
    deserializeBinaryFromReader jspb (PointPlotMeta.readCases jspb) PointPlotMeta.empty
      (PointPlotMeta.serializeBinaryToWriter jspb message) = some message := by
  obtain ⟨hulid, hpath, htime, horigin⟩ := h
  rw [PointPlotMeta.serializeBinaryToWriter, ← List.append_nil (_ ++ _)]
  simp only [List.append_assoc]
  rw [deserialize_unlessDefault hj (by decide) rfl (readScalar_write hj .string (by decide) hulid),
    deserialize_unlessDefault hj (by decide) rfl (readScalar_write hj .string (by decide) hpath),
    deserialize_unlessDefault hj (by decide) rfl (readScalar_write hj .uint64 (by decide) htime),
    deserialize_writeMessage hj (by decide) rfl (fun _ => BuildId.wrote_serialize)
      (fun _ => BuildId.deserialize_serialize hj) horigin, deserialize_nil]
  · obtain ⟨ulid, path, createtime, _ | origin⟩ := message <;> rfl
  all_goals
    intro hdefault
    simp only [beq_iff_eq.mp hdefault, PointPlotMeta.empty]

omit hj in
theorem PointPlotData.wrote_serialize {message : PointPlotData jspb} (h : message.Writable) :
    ∀ field ∈ PointPlotData.serializeBinaryToWriter jspb message, jspb.Wrote field := by
  obtain ⟨href, hresolution, hregion, hrows, hcolumns⟩ := h
  simp only [PointPlotData.serializeBinaryToWriter, List.forall_mem_append]
  exact ⟨⟨⟨⟨⟨wrote_unlessDefault (by decide) href, wrote_writeMessage (by decide) hresolution⟩,
    wrote_writeMessage (by decide) hregion⟩, wrote_unlessDefault (by decide) trivial⟩,
    wrote_unlessDefault (by decide) hrows⟩, wrote_unlessDefault (by decide) hcolumns⟩

theorem PointPlotData.deserialize_serialize {message : PointPlotData jspb} (h : message.Writable) :
    deserializeBinaryFromReader jspb (PointPlotData.readCases jspb) (PointPlotData.empty jspb)
      (PointPlotData.serializeBinaryToWriter jspb message) = some message := by
  obtain ⟨href, hresolution, hregion, hrows, hcolumns⟩ := h
  have huniform {set : Bool → PointPlotData jspb → PointPlotData jspb} :
      readScalar jspb .bool set (jspb.write .bool 4 message.uniform) =
        some (set message.uniform) := readScalar_write hj .bool (by decide) trivial
  rw [PointPlotData.serializeBinaryToWriter, ← List.append_nil (_ ++ _)]
  simp only [List.append_assoc]
  rw [deserialize_unlessDefault hj (by decide) rfl (readScalar_write hj .enum (by decide) href),
    deserialize_writeMessage hj (by decide) rfl (fun _ => ImageSize.wrote_serialize)
      (fun _ => ImageSize.deserialize_serialize hj) hresolution,
    deserialize_writeMessage hj (by decide) rfl (fun f _ => RegionBoundary.wrote_serialize f)
      (fun f _ => RegionBoundary.deserialize_serialize hj f) hregion,
    deserialize_unlessDefault hj (by decide) rfl huniform,
    deserialize_unlessDefault hj (by decide) rfl (readDoubles_write hj (by decide) hrows),
    deserialize_unlessDefault hj (by decide) rfl (readDoubles_write hj (by decide) hcolumns),
    deserialize_nil]
  · obtain ⟨pixelref, _ | resolution, _ | mappedRegion, uniform, rows, columns⟩ := message <;> rfl
  · intro hdefault
    rw [List.isEmpty_iff.mp hdefault]
    simp only [List.append_nil]
  · intro hdefault
    rw [List.isEmpty_iff.mp hdefault]
    simp only [List.append_nil]
  · intro hdefault
    have hfalse : message.uniform = false := by simpa using hdefault
    rw [hfalse]
    obtain ⟨_, _ | _, _ | _, _, _, _⟩ := message <;> rfl
  · intro hdefault
    simp only [beq_iff_eq.mp hdefault, PointPlotData.empty]

omit hj in
theorem PointPlotDocument.wrote_serialize {message : PointPlotDocument jspb}
    (h : message.Writable) :
    ∀ field ∈ PointPlotDocument.serializeBinaryToWriter jspb message, jspb.Wrote field := by
  simp only [PointPlotDocument.serializeBinaryToWriter, List.forall_mem_append]
  exact ⟨wrote_writeMessage (by decide) h.1, wrote_writeMessage (by decide) h.2⟩

theorem PointPlotDocument.deserialize_serialize {message : PointPlotDocument jspb}
    (h : message.Writable) :
    deserializeBinaryFromReader jspb (PointPlotDocument.readCases jspb)
      (PointPlotDocument.empty jspb) (PointPlotDocument.serializeBinaryToWriter jspb message) =
        some message := by
  rw [PointPlotDocument.serializeBinaryToWriter, ← List.append_nil (_ ++ _)]
  simp only [List.append_assoc]
  rw [deserialize_writeMessage hj (by decide) rfl (fun _ => PointPlotMeta.wrote_serialize)
      (fun _ => PointPlotMeta.deserialize_serialize hj) h.1,
    deserialize_writeMessage hj (by decide) rfl (fun _ => PointPlotData.wrote_serialize)
      (fun _ => PointPlotData.deserialize_serialize hj) h.2, deserialize_nil]
  obtain ⟨_ | plotMeta, _ | plotData⟩ := message <;> rfl

/-- A document is read back from its bytes, and the adapter finds its plot. -/
theorem documents_read_back {message : PointPlotDocument jspb} (h : message.Writable) :
    PointPlotDocument.deserializeBinary jspb (PointPlotDocument.serializeBinary jspb message) =
        some message ∧
      adapt jspb (PointPlotDocument.serializeBinary jspb message) =
        message.plotData.elim (.error .notPlotData) .ok := by
  have hread : PointPlotDocument.deserializeBinary jspb
      (PointPlotDocument.serializeBinary jspb message) = some message := by
    rw [PointPlotDocument.deserializeBinary, PointPlotDocument.serializeBinary,
      hj.fields_getResultBuffer _ (PointPlotDocument.wrote_serialize h)]
    exact PointPlotDocument.deserialize_serialize hj h
  refine ⟨hread, ?_⟩
  rw [adapt, hread]
  obtain ⟨_, _ | _⟩ := message <;> rfl

end RoundTrip

section Bytes

open WireFormat

/-- A number of 32 bits with a sign, from the lowest bits. -/
def toInt32 (n : ℕ) : ℤ :=
  if n % 2 ^ 32 < 2 ^ 31 then (n % 2 ^ 32 : ℕ) else (n % 2 ^ 32 : ℕ) - 2 ^ 32

def payloadOf : (kind : Kind) → kind.Value UInt64 → Payload
  | .double => fun word : UInt64 => .fixed64 word
  | .enum => fun n : ℤ => .varint (n % 2 ^ 64).toNat
  | .bool => fun b : Bool => .varint (if b then 1 else 0)
  | .packedDouble => fun words : List UInt64 =>
      .delimited (words.flatMap fun word => littleEndian 8 word.toNat)
  | .uint32 => fun n : ℕ => .varint n
  | .uint64 => fun n : ℕ => .varint n
  | .string => fun text : String => .delimited text.toUTF8.data.toList
  | .message => fun bytes : List UInt8 => .delimited bytes

def ofPayload : (kind : Kind) → Payload → Option (kind.Value UInt64)
  | .double, .fixed64 word => some word
  | .enum, .varint n => some (toInt32 n)
  | .bool, .varint n => some (n != 0)
  | .packedDouble, .delimited bytes => readWords bytes.length bytes
  | .uint32, .varint n => some (n % 2 ^ 32)
  | .uint64, .varint n => some ⌊Binary64.nearest n⌋₊
  | .string, .delimited bytes => String.fromUTF8? ⟨bytes.toArray⟩
  | .message, .delimited bytes => some bytes
  | _, _ => none

/-- Doubles as their bits, where both zeros count as zero, and the documented bytes. -/
def wireFormat : Jspb UInt64 WireFormat.Field where
  zero := 0
  isZero word := word == 0 || word == 0x8000000000000000
  write kind number value := ⟨number, payloadOf kind value⟩
  getResultBuffer fields := fields.flatMap WireFormat.Field.bytes
  fields := readFields
  isEndGroup _ := false
  getFieldNumber := WireFormat.Field.number
  isDelimited field := field.payload.wireType == 2
  read kind field := ofPayload kind field.payload

theorem toInt32_emod {n : ℤ} (h : -2 ^ 31 ≤ n ∧ n < 2 ^ 31) : toInt32 (n % 2 ^ 64).toNat = n := by
  rw [toInt32]
  split_ifs <;> omega

theorem floor_nearest {n : ℕ} (h : Binary64.nearest n = n) : ⌊Binary64.nearest n⌋₊ = n := by
  rw [h, Nat.floor_natCast]

theorem ofPayload_payloadOf (kind : Kind) (value : kind.Value UInt64)
    (h : kind.InRange value) : ofPayload kind (payloadOf kind value) = some value := by
  cases kind with
  | double => rfl
  | enum => exact congrArg some (toInt32_emod h)
  | bool => cases value <;> rfl
  | packedDouble => exact readWords_words value
  | uint32 => exact congrArg some (Nat.mod_eq_of_lt h)
  | uint64 => exact congrArg some (floor_nearest h.2)
  | string =>
    have hvalid := String.isValidUTF8 value
    exact dif_pos hvalid
  | message => rfl

theorem wireFormat_lawful : wireFormat.Lawful where
  isZero_zero := rfl
  fields_getResultBuffer fields _ := readFields_bytes fields
  isEndGroup_write _ _ _ _ := rfl
  getFieldNumber_write _ _ _ _ := rfl
  isDelimited_write _ _ _ := rfl
  read_write kind _ value _ := ofPayload_payloadOf kind value

/-- A document with a plot of two rows and one column. -/
def smallDocument : PointPlotDocument wireFormat :=
  ⟨none, some ⟨1, some ⟨2, 1⟩, none, true, [0x3FF0000000000000, 0], [0x4000000000000000]⟩⟩

theorem documents_read_back_small :
    PointPlotDocument.deserializeBinary wireFormat
        (PointPlotDocument.serializeBinary wireFormat smallDocument) = some smallDocument ∧
      adapt wireFormat (PointPlotDocument.serializeBinary wireFormat smallDocument) =
        smallDocument.plotData.elim (.error .notPlotData) .ok := by
  apply documents_read_back wireFormat_lawful
  refine ⟨fun f hf => (Option.not_mem_none f hf).elim, fun f hf => ?_⟩
  obtain rfl := Option.mem_some_iff.mp hf
  refine ⟨⟨by decide, fun f hf => ?_, fun f hf => (Option.not_mem_none f hf).elim, by decide,
    by decide⟩, ?_⟩
  · obtain rfl := Option.mem_some_iff.mp hf
    refine ⟨⟨by decide, by decide⟩, ?_⟩
    simp [ImageSize.serializeBinaryToWriter, wireFormat, unlessDefault, WireFormat.Field.bytes,
      Payload.bytes, Payload.wireType, payloadOf, varint]
  · simp [PointPlotData.serializeBinaryToWriter, ImageSize.serializeBinaryToWriter, writeMessage,
      wireFormat, unlessDefault, WireFormat.Field.bytes, Payload.bytes, Payload.wireType, payloadOf,
      varint]

end Bytes

section Order

open KeyedFold

variable {readCases : Cases Field Message}

/-- Whatever two fields of different numbers are set to, their order does not matter. -/
def Independent (readCases : Cases Field Message) : Prop :=
  ∀ n n' handle handle', n ≠ n' → readCases n = some handle → readCases n' = some handle' →
    ∀ field field' set set', handle field = some set → handle' field' = some set' →
      ∀ msg, set (set' msg) = set' (set msg)

theorem commutes_readCase (h : Independent readCases) :
    Commutes jspb.getFieldNumber (readCase jspb readCases) := by
  intro field field' hne msg
  cases hcase : readCases (jspb.getFieldNumber field) with
  | none => simp [readCase, hcase]
  | some handle =>
    cases hcase' : readCases (jspb.getFieldNumber field') with
    | none => simp [readCase, hcase']
    | some handle' =>
      simp only [readCase, hcase, hcase']
      cases hset : handle field with
      | none => simp
      | some set =>
        cases hset' : handle' field' with
        | none => simp
        | some set' => exact congrArg some (h _ _ _ _ hne hcase hcase' _ _ _ _ hset hset' msg).symm

/-- Fields that the reader does not know, and the order of those of different numbers, do not
matter. -/
theorem deserialize_congr (h : Independent readCases) {fields fields' : List Field}
    (hend : ∀ field ∈ fields ++ fields', jspb.isEndGroup field = false)
    (hsame : ∀ number, (readCases number).isSome →
      fields.filter (jspb.getFieldNumber · = number) =
        fields'.filter (jspb.getFieldNumber · = number)) (msg : Message) :
    deserializeBinaryFromReader jspb readCases msg fields =
      deserializeBinaryFromReader jspb readCases msg fields' := by
  have htake : ∀ l : List Field, (∀ field ∈ l, jspb.isEndGroup field = false) →
      l.takeWhile (fun field => !jspb.isEndGroup field) = l := by
    intro l hl
    apply List.takeWhile_eq_self_iff.mpr
    intro field hfield
    rw [hl field hfield]
    rfl
  rw [deserializeBinaryFromReader, deserializeBinaryFromReader,
    htake fields fun field hfield => hend field (List.mem_append_left _ hfield),
    htake fields' fun field hfield => hend field (List.mem_append_right _ hfield)]
  apply foldlM_congr_known (commutes_readCase h) _ hsame
  intro field hunknown s
  rw [readCase, Option.isNone_iff_eq_none.mp (Option.isSome_eq_false_iff.mp hunknown)]

theorem exists_of_readScalar {kind : Kind} {set : kind.Value Double → Message → Message}
    {field : Field} {set' : Message → Message}
    (h : readScalar jspb kind set field = some set') : ∃ value, set' = set value :=
  (Option.map_eq_some_iff.mp h).imp fun _ hvalue => hvalue.2.symm

theorem exists_of_readDoubles {add : List Double → Message → Message} {field : Field}
    {set' : Message → Message} (h : readDoubles jspb add field = some set') :
    ∃ values, set' = add values :=
  (Option.map_eq_some_iff.mp h).imp fun _ hvalues => hvalues.2.symm

theorem exists_of_readMessage {innerCases : Cases Field Inner} {empty : Inner}
    {set : Inner → Message → Message} {field : Field} {set' : Message → Message}
    (h : readMessage jspb innerCases empty set field = some set') :
    ∃ value, set' = set value := by
  obtain ⟨bytes, -, h⟩ := Option.bind_eq_some_iff.mp h
  obtain ⟨fields, -, h⟩ := Option.bind_eq_some_iff.mp h
  obtain ⟨value, -, h⟩ := Option.bind_eq_some_iff.mp h
  exact ⟨value, (Option.some.inj h).symm⟩

/-- What a field sets in a plot, by its number. -/
theorem PointPlotData.exists_of_readCases {number : ℕ}
    {handle : Field → Option (PointPlotData jspb → PointPlotData jspb)} {field : Field}
    {set : PointPlotData jspb → PointPlotData jspb}
    (hcase : PointPlotData.readCases jspb number = some handle) (hset : handle field = some set) :
    (number = 1 ∧ ∃ value, set = fun msg => { msg with pixelref := value }) ∨
    (number = 2 ∧ ∃ value, set = fun msg => { msg with resolution := some value }) ∨
    (number = 3 ∧ ∃ value, set = fun msg => { msg with mappedRegion := some value }) ∨
    (number = 4 ∧ ∃ value, set = fun msg => { msg with uniform := value }) ∨
    (number = 5 ∧ ∃ values, set = fun msg => { msg with rowsList := msg.rowsList ++ values }) ∨
    (number = 6 ∧ ∃ values,
      set = fun msg => { msg with columnsList := msg.columnsList ++ values }) := by
  rw [PointPlotData.readCases.eq_def] at hcase
  split at hcase <;> cases hcase
  · exact Or.inl ⟨rfl, exists_of_readScalar hset⟩
  · exact Or.inr (Or.inl ⟨rfl, exists_of_readMessage hset⟩)
  · exact Or.inr (Or.inr (Or.inl ⟨rfl, exists_of_readMessage hset⟩))
  · exact Or.inr (Or.inr (Or.inr (Or.inl ⟨rfl, exists_of_readScalar hset⟩)))
  · exact Or.inr (Or.inr (Or.inr (Or.inr (Or.inl ⟨rfl, exists_of_readDoubles hset⟩))))
  · exact Or.inr (Or.inr (Or.inr (Or.inr (Or.inr ⟨rfl, exists_of_readDoubles hset⟩))))

theorem PointPlotData.independent : Independent (PointPlotData.readCases jspb) := by
  intro n n' handle handle' hne hcase hcase' field field' set set' hset hset' msg
  rcases PointPlotData.exists_of_readCases hcase hset with ⟨rfl, _, rfl⟩ | ⟨rfl, _, rfl⟩ |
    ⟨rfl, _, rfl⟩ | ⟨rfl, _, rfl⟩ | ⟨rfl, _, rfl⟩ | ⟨rfl, _, rfl⟩ <;>
  rcases PointPlotData.exists_of_readCases hcase' hset' with ⟨rfl, _, rfl⟩ | ⟨rfl, _, rfl⟩ |
    ⟨rfl, _, rfl⟩ | ⟨rfl, _, rfl⟩ | ⟨rfl, _, rfl⟩ | ⟨rfl, _, rfl⟩ <;>
  first
  | rfl
  | exact absurd rfl hne

theorem PointPlotDocument.independent : Independent (PointPlotDocument.readCases jspb) := by
  intro n n' handle handle' hne hcase hcase' field field' set set' hset hset' msg
  rw [PointPlotDocument.readCases.eq_def] at hcase hcase'
  split at hcase <;> cases hcase <;> obtain ⟨_, rfl⟩ := exists_of_readMessage hset <;>
  split at hcase' <;> cases hcase' <;> obtain ⟨_, rfl⟩ := exists_of_readMessage hset' <;>
  first
  | rfl
  | exact absurd rfl hne

/-- A document and a plot are the same read from fields in another order, as long as those of one
number keep theirs, and from fields with others in between that are not known. -/
theorem fields_in_any_order {fields fields' : List Field}
    (hend : ∀ field ∈ fields ++ fields', jspb.isEndGroup field = false) :
    ((∀ number, (PointPlotData.readCases jspb number).isSome →
        fields.filter (jspb.getFieldNumber · = number) =
          fields'.filter (jspb.getFieldNumber · = number)) →
      deserializeBinaryFromReader jspb (PointPlotData.readCases jspb) (PointPlotData.empty jspb)
          fields =
        deserializeBinaryFromReader jspb (PointPlotData.readCases jspb) (PointPlotData.empty jspb)
          fields') ∧
    ((∀ number, (PointPlotDocument.readCases jspb number).isSome →
        fields.filter (jspb.getFieldNumber · = number) =
          fields'.filter (jspb.getFieldNumber · = number)) →
      deserializeBinaryFromReader jspb (PointPlotDocument.readCases jspb)
          (PointPlotDocument.empty jspb) fields =
        deserializeBinaryFromReader jspb (PointPlotDocument.readCases jspb)
          (PointPlotDocument.empty jspb) fields') :=
  ⟨fun hsame => deserialize_congr PointPlotData.independent hend hsame _,
    fun hsame => deserialize_congr PointPlotDocument.independent hend hsame _⟩

/-- A reference point and a row, and a field 9 that nobody knows. -/
theorem fields_in_any_order_nine :
    deserializeBinaryFromReader wireFormat (PointPlotData.readCases wireFormat)
        (PointPlotData.empty wireFormat) [⟨1, .varint 1⟩, ⟨5, .fixed64 7⟩] =
      deserializeBinaryFromReader wireFormat (PointPlotData.readCases wireFormat)
        (PointPlotData.empty wireFormat) [⟨9, .fixed32 0⟩, ⟨5, .fixed64 7⟩, ⟨1, .varint 1⟩] := by
  apply (fields_in_any_order (fun _ _ => rfl)).1
  intro number hknown
  have hnine : number ≠ 9 := by
    rintro rfl
    cases hknown
  by_cases hone : number = 1
  · rw [hone]
    rfl
  · by_cases hfive : number = 5
    · rw [hfive]
      rfl
    · simp [wireFormat, Ne.symm hone, Ne.symm hfive, Ne.symm hnine]

end Order

end RandomArt.PlotMappingPb
