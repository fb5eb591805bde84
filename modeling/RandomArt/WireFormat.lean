import Mathlib.Algebra.Ring.Nat
import Mathlib.Data.List.Basic
import Mathlib.Data.Option.Basic

/-!
# Numbered fields as bytes

A message is written as its fields, one after another. Each field starts with its number and the
form of what follows: a number of any size in groups of seven bits, a word of four or eight
bytes, or a given number of bytes.
-/

namespace RandomArt.WireFormat

section Numbers

/-- Groups of seven bits, the lowest first. All but the last have their highest bit set. -/
def varint (n : ℕ) : List UInt8 :=
  if n < 128 then [UInt8.ofNat n] else UInt8.ofNat (n % 128 + 128) :: varint (n / 128)
termination_by n
decreasing_by omega

def readVarint : List UInt8 → Option (ℕ × List UInt8)
  | [] => none
  | b :: bytes =>
    if b.toNat < 128 then some (b.toNat, bytes)
    else (readVarint bytes).map fun (n, rest) => (b.toNat - 128 + 128 * n, rest)

theorem toNat_ofNat {n : ℕ} (h : n < 256) : (UInt8.ofNat n).toNat = n := by
  rw [UInt8.toNat_ofNat', Nat.mod_eq_of_lt h]

theorem readVarint_varint (n : ℕ) (rest : List UInt8) :
    readVarint (varint n ++ rest) = some (n, rest) := by
  induction n using Nat.strongRecOn with
  | ind n ih =>
    rw [varint]
    split_ifs with h
    · rw [List.singleton_append, readVarint, toNat_ofNat (by omega), if_pos h]
    · rw [List.cons_append, readVarint, toNat_ofNat (by omega), if_neg (by omega),
        ih (n / 128) (by omega), Option.map_some]
      have hgroups : n % 128 + 128 - 128 + 128 * (n / 128) = n := by omega
      simp only [hgroups]

theorem varint_ne_nil (n : ℕ) : varint n ≠ [] := by
  rw [varint]
  split_ifs <;> exact List.cons_ne_nil _ _

/-- As many bytes as asked for, the lowest first. -/
def littleEndian : ℕ → ℕ → List UInt8
  | 0, _ => []
  | count + 1, n => UInt8.ofNat (n % 256) :: littleEndian count (n / 256)

def ofLittleEndian : List UInt8 → ℕ
  | [] => 0
  | b :: bytes => b.toNat + 256 * ofLittleEndian bytes

@[simp] theorem length_littleEndian (count n : ℕ) : (littleEndian count n).length = count := by
  induction count generalizing n with
  | zero => rfl
  | succ count ih => rw [littleEndian, List.length_cons, ih]

theorem ofLittleEndian_littleEndian (count : ℕ) {n : ℕ} (h : n < 256 ^ count) :
    ofLittleEndian (littleEndian count n) = n := by
  induction count generalizing n with
  | zero =>
    rw [pow_zero, Nat.lt_one_iff] at h
    exact h.symm
  | succ count ih =>
    rw [pow_succ] at h
    rw [littleEndian, ofLittleEndian, toNat_ofNat (Nat.mod_lt _ (by omega)),
      ih (Nat.div_lt_of_lt_mul (by rwa [Nat.mul_comm])), Nat.mod_add_div]

end Numbers

inductive Payload where
  | varint (n : ℕ)
  | fixed64 (word : UInt64)
  | delimited (bytes : List UInt8)
  | fixed32 (word : UInt32)
  deriving DecidableEq

structure Field where
  number : ℕ
  payload : Payload
  deriving DecidableEq

def Payload.wireType : Payload → ℕ
  | .varint _ => 0
  | .fixed64 _ => 1
  | .delimited _ => 2
  | .fixed32 _ => 5

def Payload.bytes : Payload → List UInt8
  | .varint n => WireFormat.varint n
  | .fixed64 word => littleEndian 8 word.toNat
  | .delimited bytes => WireFormat.varint bytes.length ++ bytes
  | .fixed32 word => littleEndian 4 word.toNat

def Field.bytes (field : Field) : List UInt8 :=
  varint (8 * field.number + field.payload.wireType) ++ field.payload.bytes

/-- The first bytes and the others, if there are as many. -/
def takeBytes (count : ℕ) (bytes : List UInt8) : Option (List UInt8 × List UInt8) :=
  if count ≤ bytes.length then some (bytes.splitAt count) else none

def readPayload (wireType : ℕ) (bytes : List UInt8) : Option (Payload × List UInt8) :=
  match wireType with
  | 0 => (readVarint bytes).map fun (n, rest) => (.varint n, rest)
  | 1 => (takeBytes 8 bytes).map fun (word, rest) =>
      (.fixed64 (UInt64.ofNat (ofLittleEndian word)), rest)
  | 2 => do
    let (count, bytes) ← readVarint bytes
    let (bytes, rest) ← takeBytes count bytes
    return (.delimited bytes, rest)
  | 5 => (takeBytes 4 bytes).map fun (word, rest) =>
      (.fixed32 (UInt32.ofNat (ofLittleEndian word)), rest)
  | _ => none

def readField (bytes : List UInt8) : Option (Field × List UInt8) := do
  let (tag, bytes) ← readVarint bytes
  let (payload, rest) ← readPayload (tag % 8) bytes
  return (⟨tag / 8, payload⟩, rest)

/-- At most the given number of fields. -/
def readWithin : ℕ → List UInt8 → Option (List Field)
  | _, [] => some []
  | 0, _ => none
  | limit + 1, bytes => do
    let (field, rest) ← readField bytes
    return field :: (← readWithin limit rest)

def readFields (bytes : List UInt8) : Option (List Field) := readWithin bytes.length bytes

theorem takeBytes_append (bytes rest : List UInt8) :
    takeBytes bytes.length (bytes ++ rest) = some (bytes, rest) := by
  rw [takeBytes, if_pos (by simp), List.splitAt_eq, List.take_left, List.drop_left]

theorem takeBytes_littleEndian (count n : ℕ) (rest : List UInt8) :
    takeBytes count (littleEndian count n ++ rest) = some (littleEndian count n, rest) := by
  have h := takeBytes_append (littleEndian count n) rest
  rwa [length_littleEndian] at h

theorem readPayload_bytes (payload : Payload) (rest : List UInt8) :
    readPayload payload.wireType (payload.bytes ++ rest) = some (payload, rest) := by
  cases payload with
  | varint n =>
    simp only [Payload.wireType, Payload.bytes, readPayload, readVarint_varint, Option.map_some]
  | fixed64 word =>
    have hword := ofLittleEndian_littleEndian 8 word.toNat_lt
    simp only [Payload.wireType, Payload.bytes, readPayload, takeBytes_littleEndian,
      Option.map_some, hword, UInt64.ofNat_toNat]
  | delimited bytes =>
    simp only [Payload.wireType, Payload.bytes, readPayload, List.append_assoc, readVarint_varint,
      Option.bind_eq_bind, Option.bind_some, takeBytes_append]
    rfl
  | fixed32 word =>
    have hword := ofLittleEndian_littleEndian 4 word.toNat_lt
    simp only [Payload.wireType, Payload.bytes, readPayload, takeBytes_littleEndian,
      Option.map_some, hword, UInt32.ofNat_toNat]

theorem Payload.wireType_lt (payload : Payload) : payload.wireType < 8 := by
  cases payload <;> simp [Payload.wireType]

theorem readField_bytes (field : Field) (rest : List UInt8) :
    readField (field.bytes ++ rest) = some (field, rest) := by
  have hlt := field.payload.wireType_lt
  have htype : (8 * field.number + field.payload.wireType) % 8 = field.payload.wireType := by omega
  have hnumber : (8 * field.number + field.payload.wireType) / 8 = field.number := by omega
  rw [readField, Field.bytes, List.append_assoc, readVarint_varint]
  simp only [Option.bind_eq_bind, Option.bind_some, htype, hnumber, readPayload_bytes]
  rfl

theorem Field.bytes_ne_nil (field : Field) : field.bytes ≠ [] :=
  List.append_ne_nil_of_left_ne_nil (varint_ne_nil _) _

theorem readWithin_bytes (fields : List Field) {limit : ℕ} (h : fields.length ≤ limit) :
    readWithin limit (fields.flatMap Field.bytes) = some fields := by
  induction fields generalizing limit with
  | nil => cases limit <;> rfl
  | cons field fields ih =>
    obtain ⟨limit, rfl⟩ := Nat.exists_eq_add_of_le' (Nat.le_of_add_left_le h)
    have hne : field.bytes ++ fields.flatMap Field.bytes ≠ [] :=
      List.append_ne_nil_of_left_ne_nil field.bytes_ne_nil _
    rw [List.flatMap_cons, readWithin, readField_bytes]
    · simp only [Option.bind_eq_bind, Option.bind_some, ih (Nat.le_of_succ_le_succ h)]
      rfl
    · exact hne

/-- The fields of a message are read as they were written. -/
theorem readFields_bytes (fields : List Field) :
    readFields (fields.flatMap Field.bytes) = some fields := by
  apply readWithin_bytes
  induction fields with
  | nil => exact Nat.le_refl 0
  | cons field fields ih =>
    have hpos := List.length_pos_of_ne_nil field.bytes_ne_nil
    rw [List.flatMap_cons, List.length_cons, List.length_append]
    omega

/-- Words of eight bytes, one after another. -/
def readWords : ℕ → List UInt8 → Option (List UInt64)
  | _, [] => some []
  | 0, _ => none
  | limit + 1, bytes => do
    let (word, rest) ← takeBytes 8 bytes
    return UInt64.ofNat (ofLittleEndian word) :: (← readWords limit rest)

theorem readWords_flatMap (words : List UInt64) {limit : ℕ} (h : words.length ≤ limit) :
    readWords limit (words.flatMap fun word => littleEndian 8 word.toNat) = some words := by
  induction words generalizing limit with
  | nil => cases limit <;> rfl
  | cons word words ih =>
    obtain ⟨limit, rfl⟩ := Nat.exists_eq_add_of_le' (Nat.le_of_add_left_le h)
    have hword := ofLittleEndian_littleEndian 8 word.toNat_lt
    rw [List.flatMap_cons, readWords, takeBytes_littleEndian]
    · simp only [Option.bind_eq_bind, Option.bind_some, ih (Nat.le_of_succ_le_succ h), hword,
        UInt64.ofNat_toNat]
      rfl
    · simp [littleEndian]

theorem readWords_words (words : List UInt64) :
    readWords (words.flatMap fun word => littleEndian 8 word.toNat).length
      (words.flatMap fun word => littleEndian 8 word.toNat) = some words := by
  apply readWords_flatMap
  induction words with
  | nil => exact Nat.le_refl 0
  | cons word words ih =>
    rw [List.flatMap_cons, List.length_cons, List.length_append, length_littleEndian]
    omega

end RandomArt.WireFormat
