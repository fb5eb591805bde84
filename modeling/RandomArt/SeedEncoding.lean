import RandomArt.Base64Url
import RandomArt.MessageValue

/-!
# Seed encoding

Seeds travel as base64url strings and as typed arrays. Strings are encoded from the bytes of a
backing buffer, so that a view of a part of its buffer is encoded with bytes that it does not
show.
-/

namespace RandomArt.SeedEncoding

open Base64Url

inductive BufferEncoding where
  | base64url | base64 | hex | utf8 | utf16le | latin1 | ascii
  deriving DecidableEq

/-- The encodings of the runtime other than base64. -/
structure TextCodec where
  toText : BufferEncoding → List UInt8 → String
  ofText : BufferEncoding → String → List UInt8

/-- `buffer.toString(encoding)` -/
def bufferToString (codec : TextCodec) : BufferEncoding → List UInt8 → String
  | .base64url, bytes => String.ofList (encode bytes)
  | .base64, bytes => String.ofList (encodeStandard bytes)
  | encoding, bytes => codec.toText encoding bytes

/-- `Buffer.from(str, encoding)` -/
def bufferFrom (codec : TextCodec) : BufferEncoding → String → List UInt8
  | .base64url, str => decode str.toList
  | .base64, str => decode str.toList
  | encoding, str => codec.ofText encoding str

section Util

variable (codec : TextCodec)

def blessAnyAffix (str : String) : Bool :=
  let buffer := bufferFrom codec .base64url str
  let roundTrip := bufferToString codec .base64url buffer
  decide (str = roundTrip)

def fromEncodedAnyAffix (str : String) (encoding : BufferEncoding) : String :=
  bufferToString codec .base64url (bufferFrom codec encoding str)

def toAnyAffixData (affixString : String) : ByteView :=
  ByteView.ofBytes (bufferFrom codec .base64url affixString)

def fromAnyAffixData (anyAffixData : ByteView) : String :=
  bufferToString codec .base64url anyAffixData.buffer

end Util

section TermProperties

variable (codec : TextCodec)

def systemPrefixString (bin : ByteView) : String := bufferToString codec .base64url bin.buffer

def systemSuffixString (bin : ByteView) : String := bufferToString codec .base64url bin.buffer

def appPrefixString (bin : ByteView) (enc : BufferEncoding) : String :=
  bufferToString codec enc bin.buffer

def appSuffixString (bin : ByteView) (enc : BufferEncoding) : String :=
  bufferToString codec enc bin.buffer

structure TaskSeeds where
  seedPrefix : ByteView
  seedSuffix : ByteView

structure EncodedTerms where
  systemPrefixString : String
  systemSuffixString : String
  appPrefixString : String
  appSuffixString : String
  deriving DecidableEq

/-- The terms of a task: each method is applied to the properties that it selects. -/
def termProperties (task : TaskSeeds) (encoding : BufferEncoding) : EncodedTerms where
  systemPrefixString := systemPrefixString codec task.seedPrefix
  systemSuffixString := systemSuffixString codec task.seedSuffix
  appPrefixString := appPrefixString codec task.seedPrefix encoding
  appSuffixString := appSuffixString codec task.seedSuffix encoding

end TermProperties

/-- The base64url text of a byte sequence reads back as the byte sequence. -/
theorem bufferFrom_bufferToString (codec : TextCodec) (bytes : List UInt8) :
    bufferFrom codec .base64url (bufferToString codec .base64url bytes) = bytes := by
  rw [bufferToString, bufferFrom, String.toList_ofList, decode_encode]

theorem bufferToString_injective (codec : TextCodec) :
    Function.Injective (bufferToString codec .base64url) :=
  Function.LeftInverse.injective (bufferFrom_bufferToString codec)

/-- The bytes of a view are what is encoded, in every form that a term takes. -/
structure RespectsView (codec : TextCodec) (view : ByteView) : Prop where
  util : fromAnyAffixData codec view = bufferToString codec .base64url view.bytes
  roundTrip : (toAnyAffixData codec (fromAnyAffixData codec view)).bytes = view.bytes
  prefixTerm : ∀ task : TaskSeeds, task.seedPrefix = view → ∀ enc,
    (termProperties codec task enc).systemPrefixString =
      bufferToString codec .base64url view.bytes ∧
    (termProperties codec task enc).appPrefixString = bufferToString codec enc view.bytes
  suffixTerm : ∀ task : TaskSeeds, task.seedSuffix = view → ∀ enc,
    (termProperties codec task enc).systemSuffixString =
      bufferToString codec .base64url view.bytes ∧
    (termProperties codec task enc).appSuffixString = bufferToString codec enc view.bytes

theorem respectsView_iff (codec : TextCodec) (view : ByteView) :
    RespectsView codec view ↔ view.length = view.buffer.length := by
  rw [← view.bytes_eq_buffer_iff]
  constructor
  · intro h
    exact (bufferToString_injective codec h.util).symm
  · intro h
    refine ⟨?_, ?_, ?_, ?_⟩
    · rw [fromAnyAffixData, h]
    · rw [toAnyAffixData, fromAnyAffixData, bufferFrom_bufferToString, ByteView.bytes_ofBytes, h]
    · rintro task rfl enc
      simp only [termProperties, systemPrefixString, appPrefixString, h, and_self]
    · rintro task rfl enc
      simp only [termProperties, systemSuffixString, appSuffixString, h, and_self]

theorem blessAnyAffix_iff (codec : TextCodec) (str : String) :
    blessAnyAffix codec str = true ↔
      fromAnyAffixData codec (toAnyAffixData codec str) = str := by
  rw [blessAnyAffix, decide_eq_true_eq]
  exact eq_comm

theorem blessAnyAffix_bufferToString (codec : TextCodec) (bytes : List UInt8) :
    blessAnyAffix codec (bufferToString codec .base64url bytes) = true := by
  rw [blessAnyAffix, decide_eq_true_eq, bufferFrom_bufferToString]

/-- Encoding respects a view exactly when the view shows its whole buffer. Blessed are exactly
the strings that survive the way to data and back, the re-encoded ones among them. -/
theorem seedEncoding_respects_iff (codec : TextCodec) (view : ByteView) (str : String)
    (encoding : BufferEncoding) :
    (RespectsView codec view ↔ view.length = view.buffer.length) ∧
      (blessAnyAffix codec str = true ↔
        fromAnyAffixData codec (toAnyAffixData codec str) = str) ∧
      blessAnyAffix codec (fromEncodedAnyAffix codec str encoding) = true :=
  ⟨respectsView_iff codec view, blessAnyAffix_iff codec str,
    blessAnyAffix_bufferToString codec (bufferFrom codec encoding str)⟩

/-- The second byte of a buffer of three. -/
def subarrayView : ByteView := ⟨[1, 2, 3], 1, 1, by decide⟩

/-- A view of one byte out of three is encoded as all three. -/
theorem subarrayView_encodes_buffer :
    subarrayView.bytes = [2] ∧ ∀ codec,
      (toAnyAffixData codec (fromAnyAffixData codec subarrayView)).bytes = [1, 2, 3] ∧
        ¬RespectsView codec subarrayView := by
  refine ⟨rfl, fun codec => ⟨?_, ?_⟩⟩
  · rw [toAnyAffixData, fromAnyAffixData, bufferFrom_bufferToString, ByteView.bytes_ofBytes]
    rfl
  · rw [respectsView_iff]
    decide

end RandomArt.SeedEncoding
