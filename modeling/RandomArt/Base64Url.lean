import RandomArt.BitWords
import Mathlib.Data.List.Basic
import Mathlib.Data.List.TakeWhile

/-!
# Base64 text

Unpadded base64url and padded standard encodings of a byte sequence, and the lenient
decoder that comes with them: of each code unit the low byte is read, in either alphabet. What is
outside the alphabets is passed over, a padding sign ends the text, and bits that do not fill a
byte are dropped.
-/

namespace RandomArt.Base64Url
open BitWords

/-- The URL-safe alphabet in order of value. -/
def alphabet : List Char :=
  "ABCDEFGHIJKLMNOPQRSTUVWXYZabcdefghijklmnopqrstuvwxyz0123456789-_".toList

def sextetChar (n : ℕ) : Char := alphabet.getD n 'A'

/-- The value of a character of either alphabet. -/
def charSextet (c : Char) : Option ℕ :=
  if c = '+' then some 62 else if c = '/' then some 63 else alphabet.idxOf? c

def encode (bytes : List UInt8) : List Char :=
  (packWords 8 6 (bytes.map UInt8.toNat)).map sextetChar

/-- The bytes that characters of one byte stand for. -/
def decodeChars (chars : List Char) : List UInt8 :=
  (unpackWords 8 6 ((chars.takeWhile (· ≠ '=')).filterMap charSextet)).map UInt8.ofNat

/-- What the decoder sees of a code unit. -/
def lowChar (unit : UInt16) : Char := Char.ofUInt8 unit.toUInt8

def decodeUnits (units : List UInt16) : List UInt8 := decodeChars (units.map lowChar)

/-- The code units of a character, two for one beyond the first plane. -/
def charUnits (c : Char) : List UInt16 :=
  if c.toNat < 0x10000 then [c.toNat.toUInt16]
  else
    let offset := c.toNat - 0x10000
    [(0xD800 + offset / 0x400).toUInt16, (0xDC00 + offset % 0x400).toUInt16]

def utf16 (text : List Char) : List UInt16 := text.flatMap charUnits

def decode (text : List Char) : List UInt8 := decodeUnits (utf16 text)

theorem utf16_eq_map {text : List Char} (h : ∀ c ∈ text, c.toNat < 0x10000) :
    utf16 text = text.map fun c => c.toNat.toUInt16 := by
  rw [utf16, ← List.flatMap_pure_eq_map]
  refine List.flatMap_congr fun c hc => ?_
  rw [charUnits, if_pos (h c hc)]
  rfl

theorem map_lowChar_utf16 {text : List Char} (h : ∀ c ∈ text, c.toNat < 128) :
    (utf16 text).map lowChar = text := by
  rw [utf16_eq_map fun c hc => (h c hc).trans (by decide), List.map_map]
  refine (List.map_congr_left fun c hc => ?_).trans (List.map_id text)
  have hbyte : c.toNat.toUInt16.toUInt8.toNat = c.toNat := by
    have hc' := h c hc
    simp
    omega
  exact Char.toNat_inj.mp hbyte

theorem charSextet_sextetChar : ∀ n < 64, charSextet (sextetChar n) = some n := by decide +kernel

theorem sextetChar_ne_pad : ∀ n < 64, sextetChar n ≠ '=' := by decide +kernel

theorem sextetChar_ascii : ∀ n < 64, (sextetChar n).toNat < 128 := by decide +kernel

theorem filterMap_charSextet_map {charOf : ℕ → Char}
    (hvalue : ∀ n < 64, charSextet (charOf n) = some n) {ws : List ℕ} (h : ∀ x ∈ ws, x < 64) :
    (ws.map charOf).filterMap charSextet = ws := by
  induction ws with
  | nil => rfl
  | cons x xs ih =>
    rw [List.map_cons, List.filterMap_cons, hvalue x (h x List.mem_cons_self)]
    simp only [ih (fun y hy => h y (List.mem_cons_of_mem _ hy))]

/-- A text of sextet characters, then padding signs, decodes to the bytes that were packed. -/
private theorem decode_map_append {charOf : ℕ → Char}
    (hvalue : ∀ n < 64, charSextet (charOf n) = some n) (hpad : ∀ n < 64, charOf n ≠ '=')
    (hascii : ∀ n < 64, (charOf n).toNat < 128) (bytes : List UInt8) (count : ℕ) :
    decode ((packWords 8 6 (bytes.map UInt8.toNat)).map charOf ++ List.replicate count '=') =
      bytes := by
  have hlt : ∀ x ∈ packWords 8 6 (bytes.map UInt8.toNat), x < 64 := fun x hx => packWords_lt hx
  have hkeep : ((packWords 8 6 (bytes.map UInt8.toNat)).map charOf ++
      List.replicate count '=').takeWhile (· ≠ '=') =
      (packWords 8 6 (bytes.map UInt8.toNat)).map charOf := by
    rw [List.takeWhile_append_of_pos]
    · cases count <;> simp [List.replicate_succ]
    · intro c hc
      obtain ⟨x, hx, rfl⟩ := List.mem_map.mp hc
      simpa using hpad x (hlt x hx)
  have hunits : ∀ c ∈ (packWords 8 6 (bytes.map UInt8.toNat)).map charOf ++
      List.replicate count '=', c.toNat < 128 := by
    intro c hc
    rcases List.mem_append.mp hc with hchar | hpadding
    · obtain ⟨x, hx, rfl⟩ := List.mem_map.mp hchar
      exact hascii x (hlt x hx)
    · rw [(List.mem_replicate.mp hpadding).2]
      decide
  have hbytes : ∀ x ∈ bytes.map UInt8.toNat, x < 2 ^ 8 := fun x hx => toNat_lt_of_mem hx
  rw [decode, decodeUnits, map_lowChar_utf16 hunits, decodeChars, hkeep,
    filterMap_charSextet_map hvalue hlt, unpackWords_packWords (by norm_num) (by norm_num) hbytes,
    slack_eq_zero_of_le (by norm_num) (by norm_num), List.replicate_zero, List.append_nil,
    map_ofNat_toNat]

/-- Decoding undoes encoding on every byte sequence. -/
@[simp] theorem decode_encode (bytes : List UInt8) : decode (encode bytes) = bytes := by
  have h := decode_map_append charSextet_sextetChar sextetChar_ne_pad sextetChar_ascii bytes 0
  rwa [List.replicate_zero, List.append_nil] at h

section Lengths

theorem length_encode (bytes : List UInt8) :
    (encode bytes).length = (8 * bytes.length + 5) / 6 := by
  rw [encode, List.length_map, length_packWords, List.length_map]
  rfl

/-- The bytes that the characters of the alphabets before a padding sign hold. -/
theorem length_decodeChars (text : List Char) : (decodeChars text).length =
    6 * ((text.takeWhile (· ≠ '=')).filterMap charSextet).length / 8 := by
  rw [decodeChars, List.length_map, unpackWords, length_readWords]

theorem charSextet_of_mem_encode {bytes : List UInt8} {c : Char} (h : c ∈ encode bytes) :
    ∃ n, charSextet c = some n := by
  obtain ⟨x, hx, rfl⟩ := List.mem_map.mp h
  exact ⟨x, charSextet_sextetChar x (packWords_lt hx)⟩

theorem charSextet_ascii {c : Char} {n : ℕ} (h : charSextet c = some n) :
    c.toNat < 128 ∧ c ≠ '=' := by
  rw [charSextet] at h
  split_ifs at h with hplus hslash
  · rw [hplus]
    decide
  · rw [hslash]
    decide
  · have hmem : c ∈ alphabet := List.isSome_idxOf?.mp (Option.isSome_iff_exists.mpr ⟨n, h⟩)
    obtain ⟨i, hi, rfl⟩ := List.getElem_of_mem hmem
    have hchar : sextetChar i = alphabet[i] := List.getD_eq_getElem _ _ hi
    rw [← hchar]
    exact ⟨sextetChar_ascii i hi, sextetChar_ne_pad i hi⟩

theorem length_decodeUnits_of_forall {units : List UInt16}
    (h : ∀ u ∈ units, ∃ n, charSextet (lowChar u) = some n) :
    (decodeUnits units).length = 6 * units.length / 8 := by
  have hmap : ∀ c ∈ units.map lowChar, ∃ n, charSextet c = some n := List.forall_mem_map.mpr h
  have hkeep : (units.map lowChar).takeWhile (· ≠ '=') = units.map lowChar := by
    rw [List.takeWhile_eq_self_iff]
    intro c hc
    obtain ⟨n, hn⟩ := hmap c hc
    simpa using (charSextet_ascii hn).2
  have hall : ((units.map lowChar).filterMap charSextet).length = units.length := by
    rw [← List.length_map lowChar, List.length_filterMap_eq_countP, List.countP_eq_length]
    intro c hc
    obtain ⟨n, hn⟩ := hmap c hc
    rw [hn]
    rfl
  rw [decodeUnits, length_decodeChars, hkeep, hall]

/-- A unit outside the alphabets costs its bits. -/
theorem length_decodeUnits_le_of_exists {units : List UInt16}
    (h : ∃ u ∈ units, charSextet (lowChar u) = none) :
    (decodeUnits units).length ≤ 6 * (units.length - 1) / 8 := by
  have hread : (((units.map lowChar).takeWhile (· ≠ '=')).filterMap charSextet).length ≤
      ((units.map lowChar).filterMap charSextet).length :=
    ((List.takeWhile_sublist _).filterMap _).length_le
  have hfewer : ((units.map lowChar).filterMap charSextet).length < units.length := by
    rw [← List.length_map lowChar, List.length_filterMap_eq_countP]
    refine lt_of_le_of_ne List.countP_le_length ?_
    intro hall
    obtain ⟨u, hu, hnone⟩ := h
    have hsome := List.countP_eq_length.mp hall (lowChar u) (List.mem_map_of_mem hu)
    rw [hnone] at hsome
    cases hsome
  rw [decodeUnits, length_decodeChars]
  omega

end Lengths

section Standard

/-- The standard alphabet, for sextets in order of value. -/
def standardAlphabet : List Char :=
  "ABCDEFGHIJKLMNOPQRSTUVWXYZabcdefghijklmnopqrstuvwxyz0123456789+/".toList

def standardChar (n : ℕ) : Char := standardAlphabet.getD n 'A'

/-- Base64 in the standard alphabet, padded to groups of four characters. -/
def encodeStandard (bytes : List UInt8) : List Char :=
  let text := (packWords 8 6 (bytes.map UInt8.toNat)).map standardChar
  text ++ List.replicate (padding 4 text.length) '='

theorem charSextet_standardChar : ∀ n < 64, charSextet (standardChar n) = some n := by
  decide +kernel

theorem standardChar_ne_pad : ∀ n < 64, standardChar n ≠ '=' := by decide +kernel

theorem standardChar_ascii : ∀ n < 64, (standardChar n).toNat < 128 := by decide +kernel

@[simp] theorem decode_encodeStandard (bytes : List UInt8) :
    decode (encodeStandard bytes) = bytes :=
  decode_map_append charSextet_standardChar standardChar_ne_pad standardChar_ascii bytes _

end Standard

end RandomArt.Base64Url
