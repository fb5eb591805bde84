import RandomArt.BitWords

/-!
# Base32 text

Bytes of a number, most significant first, and base32 text of bytes. Text is padded to
groups of eight characters; decoding takes whole groups of the alphabet only.
-/

namespace RandomArt.Base32
open BitWords

section Bytes

/-- The low bytes of a number, most significant first. -/
def toBytes (width n : ℕ) : List UInt8 :=
  (readWords 8 width (wordBits (8 * width) n)).map UInt8.ofNat

def byteBits (bytes : List UInt8) : List Bool := streamBits 8 (bytes.map UInt8.toNat)

/-- The number with the given bytes, most significant first. -/
def fromBytes (bytes : List UInt8) : ℕ := ofBits (byteBits bytes)

@[simp] theorem length_byteBits (bytes : List UInt8) :
    (byteBits bytes).length = 8 * bytes.length := by
  rw [byteBits, length_streamBits, List.length_map]

@[simp] theorem length_toBytes (width n : ℕ) : (toBytes width n).length = width := by
  rw [toBytes, List.length_map, length_readWords]

@[simp] theorem byteBits_toBytes (width n : ℕ) :
    byteBits (toBytes width n) = wordBits (8 * width) n := by
  rw [byteBits, toBytes, map_toNat_ofNat fun x hx => readWords_lt hx, streamBits_readWords]
  rw [length_wordBits, Nat.mul_comm]

theorem fromBytes_toBytes {width n : ℕ} (h : n < 2 ^ (8 * width)) :
    fromBytes (toBytes width n) = n := by
  rw [fromBytes, byteBits_toBytes, ofBits_wordBits_of_lt h]

theorem fromBytes_lt (bytes : List UInt8) : fromBytes bytes < 2 ^ (8 * bytes.length) := by
  have h := ofBits_lt (byteBits bytes)
  rwa [length_byteBits] at h

theorem fromBytes_append (bytes rest : List UInt8) :
    fromBytes (bytes ++ rest) = fromBytes bytes * 2 ^ (8 * rest.length) + fromBytes rest := by
  rw [fromBytes, byteBits, List.map_append, streamBits, List.flatMap_append]
  exact (ofBits_append _ _).trans (by rw [← streamBits, ← byteBits, ← streamBits, ← byteBits,
    length_byteBits, fromBytes, fromBytes])

theorem fromBytes_cons (byte : UInt8) (rest : List UInt8) :
    fromBytes (byte :: rest) = byte.toNat * 2 ^ (8 * rest.length) + fromBytes rest := by
  have hbyte : fromBytes [byte] = byte.toNat := by
    simp only [fromBytes, byteBits, List.map_singleton, streamBits_cons, streamBits_nil,
      List.append_nil]
    exact ofBits_wordBits_of_lt byte.toNat_lt
  rw [← List.singleton_append, fromBytes_append, hbyte]

theorem toBytes_fromBytes (bytes : List UInt8) :
    toBytes bytes.length (fromBytes bytes) = bytes := by
  have hbits : wordBits (8 * bytes.length) (fromBytes bytes) = byteBits bytes := by
    have h := wordBits_ofBits (byteBits bytes)
    rwa [length_byteBits] at h
  have hread := readWords_streamBits_append (fun x hx => @toNat_lt_of_mem bytes x hx) 0 []
  rw [List.append_nil, Nat.add_zero, List.length_map, readWords, List.append_nil] at hread
  rw [toBytes, hbits, byteBits, hread, map_ofNat_toNat]

end Bytes

section Text

/-- The alphabet in order of value. -/
def alphabet : List Char := "ABCDEFGHIJKLMNOPQRSTUVWXYZ234567".toList

def quintetChar (n : ℕ) : Char := alphabet.getD n 'A'

def charQuintet (c : Char) : Option ℕ := alphabet.idxOf? c

def b32encode (bytes : List UInt8) : List Char :=
  let text := (packWords 8 5 (bytes.map UInt8.toNat)).map quintetChar
  text ++ List.replicate (padding 8 text.length) '='

/-- The bytes of a base32 text; none where decoding raises an error. -/
def b32decode (text : List Char) : Option (List UInt8) :=
  let digits := (text.reverse.dropWhile (· = '=')).reverse
  if text.length % 8 = 0 ∧ text.length - digits.length ∈ [0, 1, 3, 4, 6] then
    (digits.mapM charQuintet).map fun ws => (unpackWords 8 5 ws).map UInt8.ofNat
  else none

theorem charQuintet_quintetChar : ∀ n < 32, charQuintet (quintetChar n) = some n := by
  decide +kernel

theorem quintetChar_ne_pad : ∀ n < 32, quintetChar n ≠ '=' := by decide +kernel

theorem quintetChar_of_charQuintet {c : Char} {n : ℕ} (h : charQuintet c = some n) :
    n < 32 ∧ quintetChar n = c := by
  obtain ⟨hlt, hchar, -⟩ := List.idxOf?_eq_some_iff.mp h
  refine ⟨hlt, ?_⟩
  rw [quintetChar, List.getD_eq_getElem _ _ hlt, hchar]

private theorem mapM_charQuintet {ws : List ℕ} (h : ∀ x ∈ ws, x < 32) :
    (ws.map quintetChar).mapM charQuintet = some ws := by
  induction ws with
  | nil => rfl
  | cons x xs ih =>
    rw [List.map_cons, List.mapM_cons, charQuintet_quintetChar x (h x List.mem_cons_self),
      ih fun y hy => h y (List.mem_cons_of_mem _ hy)]
    rfl

private theorem of_mapM_charQuintet {text : List Char} {ws : List ℕ}
    (h : text.mapM charQuintet = some ws) : text = ws.map quintetChar ∧ ∀ x ∈ ws, x < 32 := by
  induction text generalizing ws with
  | nil =>
    cases h
    exact ⟨rfl, by simp⟩
  | cons c text ih =>
    rw [List.mapM_cons] at h
    obtain ⟨x, hx, h⟩ := Option.bind_eq_some_iff.mp h
    obtain ⟨xs, hxs, h⟩ := Option.bind_eq_some_iff.mp h
    cases h
    obtain ⟨hlt, hchar⟩ := quintetChar_of_charQuintet hx
    obtain ⟨htext, hall⟩ := ih hxs
    refine ⟨by rw [List.map_cons, hchar, ← htext], ?_⟩
    exact List.forall_mem_cons.mpr ⟨hlt, hall⟩

private theorem digits_of_notMem {text : List Char} (h : '=' ∉ text) :
    (text.reverse.dropWhile (· = '=')).reverse = text := by
  cases hreverse : text.reverse with
  | nil => simpa using hreverse.symm
  | cons c rest =>
    have hc : c ≠ '=' := by
      rintro rfl
      exact h (List.mem_reverse.mp (hreverse ▸ List.mem_cons_self))
    rw [List.dropWhile_cons_of_neg (by simpa using hc), ← hreverse, List.reverse_reverse]

theorem pad_notMem_map {ws : List ℕ} (h : ∀ x ∈ ws, x < 32) : '=' ∉ ws.map quintetChar := by
  intro hmem
  obtain ⟨x, hx, hpad⟩ := List.mem_map.mp hmem
  exact quintetChar_ne_pad x (h x hx) hpad

/-- Bytes in groups of five are encoded without padding. -/
theorem b32encode_of_dvd {bytes : List UInt8} (h : 5 ∣ bytes.length) :
    b32encode bytes = (packWords 8 5 (bytes.map UInt8.toNat)).map quintetChar := by
  have hlength : padding 8 (packWords 8 5 (bytes.map UInt8.toNat)).length = 0 := by
    rw [length_packWords, List.length_map, padding]
    omega
  rw [b32encode]
  simp only [List.length_map]
  rw [hlength, List.replicate_zero, List.append_nil]

theorem length_b32encode {bytes : List UInt8} (h : 5 ∣ bytes.length) :
    (b32encode bytes).length = 8 * bytes.length / 5 := by
  rw [b32encode_of_dvd h, List.length_map, length_packWords, List.length_map]
  omega

theorem b32decode_b32encode {bytes : List UInt8} (h : 5 ∣ bytes.length) :
    b32decode (b32encode bytes) = some bytes := by
  have hlt : ∀ x ∈ packWords 8 5 (bytes.map UInt8.toNat), x < 32 := fun x hx => packWords_lt hx
  have hslack : slack 8 5 (bytes.map UInt8.toNat).length = 0 :=
    slack_eq_zero_of_le (by norm_num) (by norm_num) _
  have hlength := length_b32encode h
  rw [b32encode_of_dvd h] at hlength ⊢
  rw [b32decode, digits_of_notMem (pad_notMem_map hlt), if_pos, mapM_charQuintet hlt,
    Option.map_some, unpackWords_packWords (by norm_num) (by norm_num)
      (fun x hx => toNat_lt_of_mem hx), hslack, List.replicate_zero, List.append_nil,
    map_ofNat_toNat]
  rw [Nat.sub_self, hlength]
  refine ⟨?_, List.mem_cons_self⟩
  omega

/-- Whole groups without padding that can be decoded are the text of what they decode to. -/
theorem b32encode_of_b32decode {text : List Char} {bytes : List UInt8} (hpad : '=' ∉ text)
    (h : b32decode text = some bytes) :
    b32encode bytes = text ∧ 8 * bytes.length = 5 * text.length := by
  rw [b32decode, digits_of_notMem hpad] at h
  split at h
  · next hcount =>
    obtain ⟨ws, hws, rfl⟩ := Option.map_eq_some_iff.mp h
    obtain ⟨rfl, hlt⟩ := of_mapM_charQuintet hws
    rw [List.length_map] at hcount
    have hbytes : ((unpackWords 8 5 ws).map UInt8.ofNat).map UInt8.toNat = unpackWords 8 5 ws :=
      map_toNat_ofNat fun x hx => readWords_lt hx
    have hlength : (unpackWords 8 5 ws).length = 5 * ws.length / 8 := length_readWords _ _ _
    have hwhole : 8 ∣ 5 * ws.length := by omega
    have hdvd : 5 ∣ ((unpackWords 8 5 ws).map UInt8.ofNat).length := by
      rw [List.length_map, hlength]
      omega
    constructor
    · rw [b32encode_of_dvd hdvd, hbytes,
        packWords_unpackWords (by norm_num) (by norm_num) hlt hwhole]
    · rw [List.length_map, List.length_map, hlength]
      omega
  · cases h

end Text

end RandomArt.Base32
