import RandomArt.Base64Url
import RandomArt.MessageValue

/-!
# Seed hashes

Stagers name an image by a hash of its two seeds, joined by a colon. A seed that is a string is
taken as it stands, in the URL-safe alphabet and without padding; a seed that is an array is
encoded in the standard alphabet, with padding. The two texts of a byte string agree when it
fills its last group and needs neither of the characters on which the alphabets differ.
-/

namespace RandomArt.SeedHash

open BitWords
open Base64Url

/-- `string | Uint8ClampedArray` -/
inductive Seed where
  | text (str : String)
  | data (view : ByteView)

def Seed.hashText : Seed → String
  | text str => str
  | data view => String.ofList (encodeStandard view.bytes)

/-- The hash of a stager, over the digest function in hexadecimal. -/
abbrev HashSeeds := (String → String) → Seed → Seed → String

/-- The text that three updates feed to the digest, and the start of its digest. -/
def hashSeedsWith : HashSeeds := fun sha256Hex seedPrefix seedSuffix =>
  let updates := [seedPrefix.hashText, ":", seedSuffix.hashText]
  String.ofList ((sha256Hex (updates.foldl (· ++ ·) "")).toList.take 16)

def LocalImageStager.hashSeeds : HashSeeds := hashSeedsWith

def S3ImageStager.hashSeeds : HashSeeds := hashSeedsWith

section Texts

/-- A byte string whose two texts agree. -/
def SameText (bytes : List UInt8) : Prop :=
  3 ∣ bytes.length ∧ ∀ x ∈ packWords 8 6 (bytes.map UInt8.toNat), x < 62

theorem standardChar_eq_sextetChar_iff :
    ∀ n < 64, standardChar n = sextetChar n ↔ n < 62 := by decide +kernel

theorem padding_eq_zero_iff (bytes : List UInt8) :
    padding 4 (packWords 8 6 (bytes.map UInt8.toNat)).length = 0 ↔ 3 ∣ bytes.length := by
  have hlength := length_encode bytes
  rw [encode, List.length_map] at hlength
  rw [hlength, padding]
  omega

theorem encodeStandard_eq_encode_iff (bytes : List UInt8) :
    encodeStandard bytes = encode bytes ↔ SameText bytes := by
  have hchars : ∀ x ∈ packWords 8 6 (bytes.map UInt8.toNat),
      (standardChar x = sextetChar x ↔ x < 62) :=
    fun x hx => standardChar_eq_sextetChar_iff x (packWords_lt hx)
  have hmap : (packWords 8 6 (bytes.map UInt8.toNat)).map standardChar = encode bytes ↔
      ∀ x ∈ packWords 8 6 (bytes.map UInt8.toNat), x < 62 := by
    rw [encode, List.map_inj_left]
    exact forall₂_congr hchars
  rw [SameText, ← padding_eq_zero_iff, ← hmap]
  simp only [encodeStandard, List.length_map]
  constructor
  · intro h
    have hlength := congrArg List.length h
    rw [List.length_append, List.length_replicate, encode, List.length_map, List.length_map,
      Nat.add_eq_left] at hlength
    rw [hlength, List.replicate_zero, List.append_nil] at h
    exact ⟨hlength, h⟩
  · rintro ⟨hpadding, htext⟩
    rw [hpadding, List.replicate_zero, List.append_nil, htext]

theorem sextetChar_ne_colon : ∀ n < 64, sextetChar n ≠ ':' := by decide +kernel

theorem standardChar_ne_colon : ∀ n < 64, standardChar n ≠ ':' := by decide +kernel

theorem colon_notMem_map {charOf : ℕ → Char} (h : ∀ n < 64, charOf n ≠ ':')
    (bytes : List UInt8) : ':' ∉ (packWords 8 6 (bytes.map UInt8.toNat)).map charOf := by
  intro hmem
  obtain ⟨x, hx, hcolon⟩ := List.mem_map.mp hmem
  exact h x (packWords_lt hx) hcolon

end Texts

/-- The forms in which a byte string is given as a seed. -/
def Represents (bytes : List UInt8) : Seed → Prop
  | .text str => str = String.ofList (encode bytes)
  | .data view => view.bytes = bytes

theorem hashText_of_represents {bytes : List UInt8} {seed : Seed} (h : Represents bytes seed) :
    seed.hashText = String.ofList (encode bytes) ∨
      seed.hashText = String.ofList (encodeStandard bytes) := by
  cases seed with
  | text str => exact Or.inl h
  | data view =>
    rw [Represents] at h
    exact Or.inr (by rw [Seed.hashText, h])

theorem decode_hashText {bytes : List UInt8} {seed : Seed} (h : Represents bytes seed) :
    decode seed.hashText.toList = bytes := by
  rcases hashText_of_represents h with htext | htext <;>
    rw [htext, String.toList_ofList]
  · exact decode_encode bytes
  · exact decode_encodeStandard bytes

theorem colon_notMem_hashText {bytes : List UInt8} {seed : Seed} (h : Represents bytes seed) :
    ':' ∉ seed.hashText.toList := by
  rcases hashText_of_represents h with htext | htext <;>
    rw [htext, String.toList_ofList]
  · exact colon_notMem_map sextetChar_ne_colon bytes
  · rw [encodeStandard, List.mem_append, not_or]
    refine ⟨colon_notMem_map standardChar_ne_colon bytes, fun hpad => ?_⟩
    have hcolon := (List.mem_replicate.mp hpad).2
    revert hcolon
    decide

/-- The text that is hashed: whatever the digest function, the hash is the start of its digest. -/
def Preimage (hashSeeds : HashSeeds) (seedPrefix seedSuffix : Seed) (text : String) : Prop :=
  ∀ sha256Hex, hashSeeds sha256Hex seedPrefix seedSuffix =
    String.ofList ((sha256Hex text).toList.take 16)

theorem preimage_iff (seedPrefix seedSuffix : Seed) (text : String) :
    Preimage hashSeedsWith seedPrefix seedSuffix text ↔
      text.toList = seedPrefix.hashText.toList ++ ':' :: seedSuffix.hashText.toList := by
  have hupdates : ([seedPrefix.hashText, ":", seedSuffix.hashText].foldl (· ++ ·) "").toList =
      seedPrefix.hashText.toList ++ ':' :: seedSuffix.hashText.toList := by
    simp [String.toList_append]
  rw [← hupdates, String.toList_inj]
  constructor
  · intro h
    by_contra hne
    have heq := h fun t => if t = text then "0" else "1"
    simp only [hashSeedsWith, if_neg (Ne.symm hne), if_true] at heq
    revert heq
    decide
  · rintro rfl sha256Hex
    rfl

/-- What a hash of seeds promises: one text for all forms of a pair of byte strings, and another
text for every other pair. -/
structure SeedsDecide (hashSeeds : HashSeeds) (first last : List UInt8) : Prop where
  same : ∀ p p' s s', Represents first p → Represents first p' → Represents last s →
    Represents last s' → ∀ text, Preimage hashSeeds p s text → Preimage hashSeeds p' s' text
  distinct : ∀ first' last', (first, last) ≠ (first', last') → ∀ p s p' s', Represents first p →
    Represents last s → Represents first' p' → Represents last' s' →
      ∀ text, Preimage hashSeeds p s text → ¬Preimage hashSeeds p' s' text

/-- The text of a pair says which byte strings it was made of. -/
theorem seeds_of_preimage {first last first' last' : List UInt8} {p s p' s' : Seed}
    (hp : Represents first p) (hs : Represents last s) (hp' : Represents first' p')
    (hs' : Represents last' s') {text : String} (h : Preimage hashSeedsWith p s text)
    (h' : Preimage hashSeedsWith p' s' text) : (first, last) = (first', last') := by
  rw [preimage_iff] at h h'
  obtain ⟨hfirst, -, hlast⟩ := (List.append_cons_inj_of_notMem (colon_notMem_hashText hp)
    (colon_notMem_hashText hs)).mp (h.symm.trans h')
  rw [← decode_hashText hp, ← decode_hashText hs, hfirst, hlast, decode_hashText hp',
    decode_hashText hs']

theorem hashText_eq_of_represents {bytes : List UInt8} (hsame : SameText bytes) {seed : Seed}
    (h : Represents bytes seed) : seed.hashText = String.ofList (encode bytes) := by
  rcases hashText_of_represents h with htext | htext
  · exact htext
  · rw [htext, (encodeStandard_eq_encode_iff bytes).mpr hsame]

theorem seedsDecide_iff (first last : List UInt8) :
    SeedsDecide hashSeedsWith first last ↔ SameText first ∧ SameText last := by
  have htext : ∀ bytes, Represents bytes (.text (String.ofList (encode bytes))) := fun _ => rfl
  have hdata : ∀ bytes, Represents bytes (.data (.ofBytes bytes)) := ByteView.bytes_ofBytes
  constructor
  · intro h
    have hsame := h.same _ _ _ _ (htext first) (hdata first) (htext last) (hdata last)
      (String.ofList (encode first ++ ':' :: encode last))
      ((preimage_iff _ _ _).mpr (by simp only [Seed.hashText, String.toList_ofList]))
    rw [preimage_iff] at hsame
    simp only [Seed.hashText, String.toList_ofList, ByteView.bytes_ofBytes] at hsame
    obtain ⟨heq, -, heq'⟩ := (List.append_cons_inj_of_notMem
      (colon_notMem_map sextetChar_ne_colon first)
      (colon_notMem_map sextetChar_ne_colon last)).mp hsame
    exact ⟨(encodeStandard_eq_encode_iff first).mp heq.symm,
      (encodeStandard_eq_encode_iff last).mp heq'.symm⟩
  · rintro ⟨hfirst, hlast⟩
    refine ⟨?_, ?_⟩
    · intro p p' s s' hp hp' hs hs' text h
      rw [preimage_iff] at h ⊢
      rw [h, hashText_eq_of_represents hfirst hp, hashText_eq_of_represents hfirst hp',
        hashText_eq_of_represents hlast hs, hashText_eq_of_represents hlast hs']
    · intro first' last' hne p s p' s' hp hs hp' hs' text h h'
      exact hne (seeds_of_preimage hp hs hp' hs' h h')

/-- Two seeds decide the text that both stagers hash exactly when each fills its last group of
base64 characters and has no group of the values on which the alphabets differ. -/
theorem hashSeeds_seedsDecide_iff (first last : List UInt8) :
    (SeedsDecide LocalImageStager.hashSeeds first last ↔ SameText first ∧ SameText last) ∧
      (SeedsDecide S3ImageStager.hashSeeds first last ↔ SameText first ∧ SameText last) :=
  ⟨seedsDecide_iff first last, seedsDecide_iff first last⟩

/-- One zero byte is hashed with padding as an array, and without as a string. -/
theorem zeroByte_hashed_apart :
    Preimage S3ImageStager.hashSeeds (.text "AA") (.text "") "AA:" ∧
      Preimage S3ImageStager.hashSeeds (.data (.ofBytes [0])) (.text "") "AA==:" ∧
      Represents [0] (.text "AA") ∧
      ¬SeedsDecide LocalImageStager.hashSeeds [0] [] ∧
      ¬SeedsDecide S3ImageStager.hashSeeds [0] [] := by
  have hnot : ¬SeedsDecide hashSeedsWith [0] [] := by
    rw [seedsDecide_iff]
    exact fun h => absurd h.1.1 (by decide)
  exact ⟨(preimage_iff _ _ _).mpr (by decide), (preimage_iff _ _ _).mpr (by decide), rfl, hnot,
    hnot⟩

end RandomArt.SeedHash
