import RandomArt.Base32
import RandomArt.DecimalText
import RandomArt.FixedPattern

/-!
# Public ids

What the two public id helpers have in common: UUIDs with their fields and little-endian
bytes, the patterns of public ids, decoding of a matched id, and the step from one id of a
series to the next. The helpers differ in how they write a UUID.
-/

namespace RandomArt

/-- A 128-bit UUID. -/
@[ext] structure UUID where
  int : ℕ
  bound : int < 2 ^ 128
  deriving DecidableEq

namespace PublicId
open Base32 FixedPattern

/-- What the helpers raise, with the values their messages quote. -/
inductive Failure where
  | unrecognizedFormat (format : String)
  | invalidId (publicId : List Char)
  | foreignNode (node nodeId : ℕ)
  | seriesExhausted (latest : UUID)
  | fieldOutOfRange
  | badByteCount
  | badBase32
  | noGroups
  deriving DecidableEq

section Uuid

variable (u : UUID)

def timeLow : ℕ := u.int >>> 96

def timeMid : ℕ := (u.int >>> 80) &&& 0xffff

def timeHiVersion : ℕ := (u.int >>> 64) &&& 0xffff

def clockSeqHiVariant : ℕ := (u.int >>> 56) &&& 0xff

def clockSeqLow : ℕ := (u.int >>> 48) &&& 0xff

def clockSeq : ℕ := ((clockSeqHiVariant u &&& 0x3f) <<< 8) + clockSeqLow u

def node : ℕ := u.int &&& 0xffffffffffff

/-- A time-based UUID of the usual variant. -/
def IsVersion1 : Prop := (u.int >>> 76) &&& 0xf = 1 ∧ (u.int >>> 62) &&& 0x3 = 2

instance : Decidable (IsVersion1 u) := inferInstanceAs (Decidable (_ ∧ _))

/-- A UUID from its six fields, each of which must be in range. -/
def ofFields (timeLow timeMid timeHiVersion clockSeqHiVariant clockSeqLow node : ℕ) :
    Except Failure UUID :=
  if h : timeLow < 2 ^ 32 ∧ timeMid < 2 ^ 16 ∧ timeHiVersion < 2 ^ 16 ∧
      clockSeqHiVariant < 2 ^ 8 ∧ clockSeqLow < 2 ^ 8 ∧ node < 2 ^ 48 then
    .ok ⟨timeLow * 2 ^ 96 + timeMid * 2 ^ 80 + timeHiVersion * 2 ^ 64 +
      clockSeqHiVariant * 2 ^ 56 + clockSeqLow * 2 ^ 48 + node, by omega⟩
  else .error .fieldOutOfRange

/-- Bytes with each of the first three fields turned round. -/
def swapFields (bytes : List UInt8) : List UInt8 :=
  (bytes.take 4).reverse ++ ((bytes.drop 4).take 2).reverse ++ ((bytes.drop 6).take 2).reverse ++
    bytes.drop 8

/-- The bytes of a UUID, its first three fields least significant byte first. -/
def bytesLe : List UInt8 := swapFields (toBytes 16 u.int)

def ofBytesLe (bytes : List UInt8) : Except Failure UUID :=
  if h : (swapFields bytes).length = 16 then
    .ok ⟨fromBytes (swapFields bytes), by
      have hlt := fromBytes_lt (swapFields bytes)
      rwa [h] at hlt⟩
  else .error .badByteCount

@[simp] theorem length_swapFields (bytes : List UInt8) :
    (swapFields bytes).length = bytes.length := by
  simp only [swapFields, List.length_append, List.length_reverse, List.length_take,
    List.length_drop]
  omega

theorem swapFields_swapFields (bytes : List UInt8) : swapFields (swapFields bytes) = bytes := by
  rcases bytes with _ | ⟨a, _ | ⟨b, _ | ⟨c, _ | ⟨d, _ | ⟨e, _ | ⟨f, _ | ⟨g, _ | ⟨h, rest⟩⟩⟩⟩⟩⟩⟩⟩ <;>
    rfl

@[simp] theorem length_bytesLe : (bytesLe u).length = 16 := by
  rw [bytesLe, length_swapFields, length_toBytes]

/-- A UUID is made again from its little-endian bytes. -/
theorem ofBytesLe_bytesLe : ofBytesLe (bytesLe u) = .ok u := by
  have hswap : swapFields (bytesLe u) = toBytes 16 u.int := swapFields_swapFields _
  rw [ofBytesLe, dif_pos (by rw [hswap, length_toBytes])]
  have hint : fromBytes (swapFields (bytesLe u)) = u.int := by
    rw [hswap]
    exact fromBytes_toBytes u.bound
  rw [Except.ok.injEq]
  apply UUID.ext
  dsimp only
  exact hint

/-- Sixteen bytes are the little-endian bytes of one UUID. -/
theorem exists_ofBytesLe {bytes : List UInt8} (h : bytes.length = 16) :
    ∃ v, ofBytesLe bytes = .ok v ∧ bytesLe v = bytes := by
  have hlength : (swapFields bytes).length = 16 := by rw [length_swapFields, h]
  refine ⟨_, dif_pos hlength, ?_⟩
  have hbytes := toBytes_fromBytes (swapFields bytes)
  rw [hlength] at hbytes
  rw [bytesLe, hbytes, swapFields_swapFields]

theorem bytesLe_of_ofBytesLe {bytes : List UInt8} {v : UUID} (h : ofBytesLe bytes = .ok v) :
    bytesLe v = bytes := by
  have hlength : bytes.length = 16 := by
    by_contra hne
    rw [ofBytesLe, dif_neg (by rwa [length_swapFields])] at h
    cases h
  obtain ⟨w, hw, hbytes⟩ := exists_ofBytesLe hlength
  rw [hw] at h
  cases h
  exact hbytes

end Uuid

section Patterns

def upperAlnum (c : Char) : Bool := c.isUpper || c.isDigit

def padDigit (c : Char) : Bool := c == '0' || c == '1' || c == '2' || c == '3'

def joinItems (sep : List Char) (parts : List (List Item)) : List Item :=
  (sep.map Item.literal).intercalate parts

def W (sep : List Char) (counts : List ℕ) : List Item :=
  joinItems sep (counts.map fun n => [.group n upperAlnum])

def Wn (sep : List Char) (counts : List ℕ) : List Item :=
  joinItems sep (counts.map fun n => [.group n upperAlnum, .group 1 padDigit])

def PARSE_PATH_PATTERN : List Item :=
  joinItems ['/'] [Wn ['/'] [2, 2, 2, 2], W ['/'] [8, 8]]

def PARSE_URL_PATTERN : List Item :=
  joinItems ['-'] [Wn [] [2, 2], Wn [] [2, 2], W ['-'] [8, 8]]

private theorem upperAlnum_quintetChar : ∀ n < 32, upperAlnum (quintetChar n) := by decide +kernel

theorem upperAlnum_b32encode {bytes : List UInt8} (h : 5 ∣ bytes.length) :
    ∀ c ∈ b32encode bytes, upperAlnum c := by
  intro c hc
  rw [b32encode_of_dvd h] at hc
  obtain ⟨n, hn, rfl⟩ := List.mem_map.mp hc
  exact upperAlnum_quintetChar n (BitWords.packWords_lt hn)

end Patterns

section Helper

def decodeWord (word : List Char) : Except Failure (List UInt8) :=
  (b32decode word).elim (.error .badBase32) .ok

/-- The UUID with the groups of a matched id. -/
def uuidOfTokens (tokens : List (List Char)) : Except Failure UUID := do
  let token := fun x => tokens.getD x []
  let dirs := [token 6, token 4, token 2, token 0]
  let padByte := ([7, 5, 3, 1].map fun x => Nat.ofDigitChars 10 (token x) 0 <<< (x - 1)).sum
  let word0 ← decodeWord dirs.flatten
  let word1 ← decodeWord (token 9)
  let word2 ← decodeWord (token 8)
  ofBytesLe (word0 ++ [UInt8.ofNat padByte] ++ word1 ++ word2)

/-- The UUID of an id that is written in the given pattern. -/
def parsePublicId (pattern : List Item) (srcPublicId : List Char) : Except Failure UUID :=
  match fullmatch pattern srcPublicId with
  | none => .error (.invalidId srcPublicId)
  | some tokens => uuidOfTokens tokens

/-- The next id of a series: the clock sequence goes up by one. -/
def nextPublicId (nodeId : ℕ) (decode : List Char → Except Failure UUID)
    (encode : UUID → Except Failure (List Char)) (latestPublicId : List Char) :
    Except Failure (List Char) := do
  let latest ← decode latestPublicId
  if node latest ≠ nodeId then .error (.foreignNode (node latest) nodeId)
  else if 0xfff ≤ clockSeq latest then .error (.seriesExhausted latest)
  else if clockSeqLow latest < 255 then
    encode (← ofFields (timeLow latest) (timeMid latest) (timeHiVersion latest)
      (clockSeqHiVariant latest) (clockSeqLow latest + 1) (node latest))
  else
    encode (← ofFields (timeLow latest) (timeMid latest) (timeHiVersion latest)
      (clockSeqHiVariant latest + 1) 0 (node latest))

end Helper

end PublicId

end RandomArt
