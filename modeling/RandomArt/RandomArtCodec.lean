import RandomArt.MessageValue
import RandomArt.Base64Url

/-!
# The message codec

Messages are made plain for the wire: errors, content ids and typed arrays become objects
that name their kind under a tag key. Content ids, buffers and the text of arbitrary values
come from outside and are parameters.
-/

namespace RandomArt.RandomArtCodec

/-- What encoding or decoding throws: the class and the text of the error. -/
inductive Failure where
  | error (message : String)
  | typeError (message : String)
  | rangeError (message : String)
  deriving DecidableEq

/-- The code that the codec calls. A buffer made from bytes may lie anywhere in a larger one,
at a place that is good for any element size. -/
structure Host (Cid : Type) where
  cidText : Cid → String
  parse : Value Cid → Except Failure Cid
  parseBase58btc : Value Cid → Except Failure Cid
  place : List UInt8 → ByteView
  place_bytes : ∀ bytes, (place bytes).bytes = bytes
  place_aligned : ∀ bytes, 8 ∣ (place bytes).byteOffset
  /-- A buffer from a value that is not a text. -/
  bufferOf : Value Cid → Except Failure ByteView
  /-- The text of a value that is not a text. -/
  textOf : Value Cid → Except Failure String
  /-- The own properties of a content id, as a plain object. -/
  copyCid : Cid → Except Failure (Value Cid)
  /-- The enumerable properties of an error, decoded, as a plain object. -/
  copyError : Value Cid → Except Failure (Value Cid)

variable {Cid : Type} (host : Host Cid)

def TAG : String := "__t"

def field (entries : List (String × Value Cid)) (key : String) : Value Cid :=
  ((entries.find? (·.1 == key)).map (·.2)).getD .undefined

def tagOf (entries : List (String × Value Cid)) : Option String :=
  match field entries TAG with
  | .string valueType => some valueType
  | _ => none

def base64Text (bytes : List UInt8) : Value Cid :=
  .string (String.ofList (Base64Url.encodeStandard bytes))

mutual

def encodeMessage : Value Cid → Except Failure (Value Cid)
  | .error _ name message stack _ =>
    .ok (.object [(TAG, .string "Error"), ("name", name), ("message", message),
      ("stack", stack)])
  | .cid c => .ok (.object [(TAG, .string "CID"), ("v", .string (host.cidText c))])
  | .clamped view => .ok (.object [(TAG, .string "U8C"), ("v", base64Text view.buffer)])
  | .words view => .ok (.object [(TAG, .string "U32"), ("v", base64Text view.buffer)])
  | .array items => do return .array (← encodeAll items)
  | .null => .error (.typeError "Cannot convert undefined or null to object")
  -- a set has no properties of its own
  | .set _ => .ok (.object [])
  | .object entries => do return .object (← encodeEntries entries)
  | other => .ok other

def encodeAll : List (Value Cid) → Except Failure (List (Value Cid))
  | [] => .ok []
  | value :: rest => do return (← encodeMessage value) :: (← encodeAll rest)

def encodeEntries : List (String × Value Cid) → Except Failure (List (String × Value Cid))
  | [] => .ok []
  | (key, value) :: rest => do return (key, ← encodeMessage value) :: (← encodeEntries rest)

end

/-- A content id from text, in its own base or in base58; both it and the text are returned. -/
def parseCID (cidStr : Value Cid) : Except Failure (Value Cid) := do
  let cid ← tryCatch (host.parse cidStr) fun _ => host.parseBase58btc cidStr
  return .object [("cidStr", cidStr), ("cid", .cid cid)]

def bufferFrom : Value Cid → Except Failure ByteView
  | .string text => .ok (host.place (Base64Url.decode text.toList))
  | other => host.bufferOf other

/-- The words of a buffer from an offset on, which must be a word boundary. -/
def newWords (buffer : List UInt8) (byteOffset length : ℕ) : Except Failure (Value Cid) :=
  if aligned : 4 ∣ byteOffset then
    if bounds : byteOffset + 4 * length ≤ buffer.length then
      .ok (.words ⟨buffer, byteOffset, length, aligned, bounds⟩)
    else .error (.rangeError ("Invalid typed array length: " ++ toString length))
  else .error (.rangeError "start offset of Uint32Array should be a multiple of 4")

def errorText : Value Cid → Except Failure String
  | .undefined => .ok ""
  | .string message => .ok message
  | other => host.textOf other

def decodeTagged (valueType : String) (entries : List (String × Value Cid)) :
    Except Failure (Value Cid) :=
  match valueType with
  | "Error" => do
    let message ← errorText host (field entries "message")
    return .error "Error" (field entries "name") (.string message) (field entries "stack") []
  | "CID" => parseCID host (field entries "v")
  | "U32" => do
    let newBuffer ← bufferFrom host (field entries "v")
    newWords newBuffer.buffer newBuffer.byteOffset (newBuffer.length / 4)
  | "U8C" => do
    let newBuffer ← bufferFrom host (field entries "v")
    return .clamped newBuffer
  | other => .error (.error ("Unimplemented codec data transform type: " ++ other))

/-- Equality of set members: primitives by value, everything else only with itself. -/
def sameMember : Value Cid → Value Cid → Bool
  | .undefined, .undefined | .null, .null => true
  | .bool a, .bool b => a == b
  | .number a, .number b => decide (a = b)
  | .string a, .string b => a == b
  | _, _ => false

/-- A new set of values, each member once. -/
def newSet (values : List (Value Cid)) : Value Cid :=
  .set (values.foldl (fun members value =>
    if members.any (sameMember value) then members else members ++ [value]) [])

def indexed (elements : List ℕ) : Value Cid :=
  .object (elements.zipIdx.map fun (n, i) => (toString i, .number (.finite n)))

mutual

def decodeMessage : Value Cid → Except Failure (Value Cid)
  | .undefined => .ok .undefined
  | .null => .ok .undefined
  | .array items => do return .array (← decodeAll items)
  | .set items => do return newSet (← decodeAll items)
  | .object entries =>
    match tagOf entries with
    | some valueType => decodeTagged host valueType entries
    | none => do return .object (← decodeEntries entries)
  -- the other objects are read as their own enumerable properties
  | .error kind name message stack own => host.copyError (.error kind name message stack own)
  | .cid c => host.copyCid c
  | .clamped view => .ok (indexed (view.bytes.map UInt8.toNat))
  | .words view => .ok (indexed view.elements)
  | other => .ok other

def decodeAll : List (Value Cid) → Except Failure (List (Value Cid))
  | [] => .ok []
  | value :: rest => do return (← decodeMessage value) :: (← decodeAll rest)

def decodeEntries : List (String × Value Cid) → Except Failure (List (String × Value Cid))
  | [] => .ok []
  | (key, value) :: rest => do return (key, ← decodeMessage value) :: (← decodeEntries rest)

end

end RandomArt.RandomArtCodec
