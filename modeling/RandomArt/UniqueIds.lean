import RandomArt.PublicId
import RandomArt.FallibleFold

/-!
# Public ids of the unique id service

This helper writes the little-endian bytes of a UUID as three base32 words and spreads the
one byte left over as four digits among the directory names. Reading an id back puts the
digits together in the other order.
-/

namespace RandomArt.UniqueIds
open Base32 FallibleFold FixedPattern PublicId

inductive IdFormat where
  | path
  | urlToken
  deriving DecidableEq

def DIR_SPLIT_PATTERN : List Item := W [] [2, 2, 2, 2]

/-- The base32 word of five bytes of a UUID. -/
def wordAt (u : UUID) (x : ℕ) : List Char := b32encode (((bytesLe u).drop x).take 5)

/-- Two bits of the byte that no word holds. -/
def padAt (u : UUID) (x : ℕ) : ℕ := ((bytesLe u).getD 5 0).toNat >>> x &&& 0x3

def uuidToPublicId (srcUuid : UUID) (fmt : IdFormat) : Except Failure (List Char) :=
  let words := [0, 6, 11].map (wordAt srcUuid)
  let pads := [0, 2, 4, 6].map fun x => DecimalText.print (padAt srcUuid x)
  match fullmatch DIR_SPLIT_PATTERN (words.getD 0 []) with
  | none => .error .noGroups
  | some groups =>
    let dirs := [3, 2, 1, 0].map fun x => groups.getD x [] ++ pads.getD x []
    match fmt with
    | .path => .ok (join '/' (dirs ++ [words.getD 2 [], words.getD 1 []]))
    | .urlToken =>
      .ok (join '-' [(dirs.take 2).flatten, ((dirs.drop 2).take 2).flatten, words.getD 2 [],
        words.getD 1 []])

def patternOf : IdFormat → List Item
  | .path => PARSE_PATH_PATTERN
  | .urlToken => PARSE_URL_PATTERN

def publicIdToUuid (srcPublicId : List Char) (fmt : IdFormat) : Except Failure UUID :=
  parsePublicId (patternOf fmt) srcPublicId

def getNextId (nodeId : ℕ) (latestPublicId : List Char) (fmt : IdFormat) :
    Except Failure (List Char) :=
  nextPublicId nodeId (publicIdToUuid · fmt) (uuidToPublicId · fmt) latestPublicId

def urlTokenToPath (publicId : List Char) : Except Failure (List Char) := do
  uuidToPublicId (← publicIdToUuid publicId .urlToken) .path

def pathToUrlToken (publicId : List Char) : Except Failure (List Char) := do
  uuidToPublicId (← publicIdToUuid publicId .path) .urlToken

section Tokens

/-- A group of a word, and a group of one digit. -/
def IsWord (n : ℕ) (t : List Char) : Prop := t.length = n ∧ ∀ c ∈ t, upperAlnum c

def IsDigit (t : List Char) : Prop := t.length = 1 ∧ ∀ c ∈ t, padDigit c

/-- The groups of an id: four directories, each a word and a digit, and two longer words. -/
theorem fits_patternOf_iff {fmt : IdFormat} {tokens : List (List Char)} :
    Fits (patternOf fmt) tokens ↔ ∃ t0 t1 t2 t3 t4 t5 t6 t7 t8 t9,
      tokens = [t0, t1, t2, t3, t4, t5, t6, t7, t8, t9] ∧
      (IsWord 2 t0 ∧ IsWord 2 t2 ∧ IsWord 2 t4 ∧ IsWord 2 t6 ∧ IsWord 8 t8 ∧ IsWord 8 t9) ∧
      IsDigit t1 ∧ IsDigit t3 ∧ IsDigit t5 ∧ IsDigit t7 := by
  have hpattern : Fits (patternOf fmt) tokens ↔ Fits [.group 2 upperAlnum, .group 1 padDigit,
      .group 2 upperAlnum, .group 1 padDigit, .group 2 upperAlnum, .group 1 padDigit,
      .group 2 upperAlnum, .group 1 padDigit, .group 8 upperAlnum, .group 8 upperAlnum]
      tokens := by
    cases fmt with
    | path =>
      rw [show patternOf .path = [.group 2 upperAlnum, .group 1 padDigit, .literal '/',
        .group 2 upperAlnum, .group 1 padDigit, .literal '/', .group 2 upperAlnum,
        .group 1 padDigit, .literal '/', .group 2 upperAlnum, .group 1 padDigit, .literal '/',
        .group 8 upperAlnum, .literal '/', .group 8 upperAlnum] from rfl]
      simp only [fits_group_iff, fits_literal_iff]
    | urlToken =>
      rw [show patternOf .urlToken = [.group 2 upperAlnum, .group 1 padDigit,
        .group 2 upperAlnum, .group 1 padDigit, .literal '-', .group 2 upperAlnum,
        .group 1 padDigit, .group 2 upperAlnum, .group 1 padDigit, .literal '-',
        .group 8 upperAlnum, .literal '-', .group 8 upperAlnum] from rfl]
      simp only [fits_group_iff, fits_literal_iff]
  rw [hpattern]
  simp only [fits_group_iff, fits_nil_iff]
  constructor
  · rintro ⟨t0, _, rfl, h0, t1, _, rfl, h1, t2, _, rfl, h2, t3, _, rfl, h3, t4, _, rfl, h4, t5, _,
      rfl, h5, t6, _, rfl, h6, t7, _, rfl, h7, t8, _, rfl, h8, t9, _, rfl, h9, rfl⟩
    exact ⟨t0, t1, t2, t3, t4, t5, t6, t7, t8, t9, rfl, ⟨h0, h2, h4, h6, h8, h9⟩, h1, h3, h5, h7⟩
  · rintro ⟨t0, t1, t2, t3, t4, t5, t6, t7, t8, t9, rfl, ⟨h0, h2, h4, h6, h8, h9⟩, h1, h3, h5, h7⟩
    exact ⟨t0, _, rfl, h0, t1, _, rfl, h1, t2, _, rfl, h2, t3, _, rfl, h3, t4, _, rfl, h4, t5, _,
      rfl, h5, t6, _, rfl, h6, t7, _, rfl, h7, t8, _, rfl, h8, t9, _, rfl, h9, rfl⟩

private theorem isDigit_print {v : ℕ} (hv : v < 4) : IsDigit (DecimalText.print v) := by
  have hchar : ∀ v < 4, padDigit v.digitChar := by decide
  rw [DecimalText.print_digit (by omega)]
  refine ⟨rfl, fun c hc => ?_⟩
  rw [List.mem_singleton.mp hc]
  exact hchar v hv

private theorem exists_of_isDigit {t : List Char} (h : IsDigit t) :
    ∃ v < 4, t = DecimalText.print v := by
  obtain ⟨c, rfl⟩ := List.length_eq_one_iff.mp h.1
  have hc := h.2 c List.mem_cons_self
  simp only [padDigit, Bool.or_eq_true, beq_iff_eq] at hc
  rcases hc with ((rfl | rfl) | rfl) | rfl
  · exact ⟨0, by decide, rfl⟩
  · exact ⟨1, by decide, rfl⟩
  · exact ⟨2, by decide, rfl⟩
  · exact ⟨3, by decide, rfl⟩

/-- Reading the groups of an id: its words, and a byte from its digits. -/
theorem uuidOfTokens_eq {t0 t2 t4 t6 t8 t9 : List Char} {v1 v3 v5 v7 : ℕ}
    {w0 w1 w2 : List UInt8} (h0 : decodeWord (t6 ++ (t4 ++ (t2 ++ (t0 ++ [])))) = .ok w0)
    (h1 : decodeWord t9 = .ok w1) (h2 : decodeWord t8 = .ok w2) :
    uuidOfTokens [t0, DecimalText.print v1, t2, DecimalText.print v3, t4, DecimalText.print v5,
      t6, DecimalText.print v7, t8, t9] =
      ofBytesLe (w0 ++ [UInt8.ofNat (v7 * 64 + v5 * 16 + v3 * 4 + v1)] ++ w1 ++ w2) := by
  have hbyte : ([7, 5, 3, 1].map fun x => Nat.ofDigitChars 10 ([t0, DecimalText.print v1, t2,
      DecimalText.print v3, t4, DecimalText.print v5, t6, DecimalText.print v7, t8, t9].getD x [])
      0 <<< (x - 1)).sum = v7 * 64 + v5 * 16 + v3 * 4 + v1 := by
    simp [DecimalText.value_print, Nat.shiftLeft_eq]
    omega
  rw [uuidOfTokens]
  simp only [hbyte]
  exact (bind_of_ok h0).trans ((bind_of_ok h1).trans (bind_of_ok h2))

/-- The id with the given groups. -/
private theorem render_patternOf (fmt : IdFormat) (t0 t1 t2 t3 t4 t5 t6 t7 t8 t9 : List Char) :
    render (patternOf fmt) [t0, t1, t2, t3, t4, t5, t6, t7, t8, t9] =
      match fmt with
      | .path => join '/' [t0 ++ t1, t2 ++ t3, t4 ++ t5, t6 ++ t7, t8, t9]
      | .urlToken => join '-' [t0 ++ t1 ++ (t2 ++ t3), t4 ++ t5 ++ (t6 ++ t7), t8, t9] := by
  cases fmt with
  | path =>
    change t0 ++ (t1 ++ '/' :: (t2 ++ (t3 ++ '/' :: (t4 ++ (t5 ++ '/' :: (t6 ++ (t7 ++
      '/' :: (t8 ++ '/' :: (t9 ++ []))))))))) = _
    simp [join_cons_cons]
  | urlToken =>
    change t0 ++ (t1 ++ (t2 ++ (t3 ++ '-' :: (t4 ++ (t5 ++ (t6 ++ (t7 ++
      '-' :: (t8 ++ '-' :: (t9 ++ [])))))))))  = _
    simp [join_cons_cons]

private theorem length_piece (u : UUID) {x : ℕ} (hx : x ≤ 11) :
    (((bytesLe u).drop x).take 5).length = 5 := by
  rw [List.length_take, List.length_drop, length_bytesLe]
  omega

private theorem isWord_wordAt (u : UUID) {x : ℕ} (hx : x ≤ 11) : IsWord 8 (wordAt u x) := by
  have hdvd : 5 ∣ (((bytesLe u).drop x).take 5).length := by rw [length_piece u hx]
  refine ⟨?_, upperAlnum_b32encode hdvd⟩
  rw [wordAt, length_b32encode hdvd, length_piece u hx]

theorem uuidToPublicId_eq (u : UUID) (fmt : IdFormat) :
    ∃ g0 g1 g2 g3, (IsWord 2 g0 ∧ IsWord 2 g1 ∧ IsWord 2 g2 ∧ IsWord 2 g3) ∧
      g0 ++ (g1 ++ (g2 ++ (g3 ++ []))) = wordAt u 0 ∧
      uuidToPublicId u fmt = .ok (render (patternOf fmt)
        [g3, DecimalText.print (padAt u 6), g2, DecimalText.print (padAt u 4),
          g1, DecimalText.print (padAt u 2), g0, DecimalText.print (padAt u 0),
          wordAt u 11, wordAt u 6]) := by
  obtain ⟨hlength, halnum⟩ := isWord_wordAt u (Nat.zero_le 11)
  obtain ⟨groups, hmatch, hcounts, hflatten⟩ :=
    @exists_fullmatch_groups upperAlnum [2, 2, 2, 2] (wordAt u 0) hlength halnum
  have hword : ∀ g ∈ groups, IsWord 2 g := by
    intro g hg
    constructor
    · have hmem := List.mem_map_of_mem (f := List.length) hg
      rw [hcounts] at hmem
      simpa using hmem
    · intro c hc
      apply halnum
      rw [← hflatten]
      exact List.mem_flatten.mpr ⟨g, hg, hc⟩
  obtain ⟨g0, _, rfl, -, h⟩ := List.map_eq_cons_iff.mp hcounts
  obtain ⟨g1, _, rfl, -, h⟩ := List.map_eq_cons_iff.mp h
  obtain ⟨g2, _, rfl, -, h⟩ := List.map_eq_cons_iff.mp h
  obtain ⟨g3, _, rfl, -, h⟩ := List.map_eq_cons_iff.mp h
  obtain rfl := List.map_eq_nil_iff.mp h
  refine ⟨g0, g1, g2, g3, ?_, hflatten, ?_⟩
  · refine ⟨hword g0 ?_, hword g1 ?_, hword g2 ?_, hword g3 ?_⟩ <;> simp
  · change fullmatch DIR_SPLIT_PATTERN (wordAt u 0) = some [g0, g1, g2, g3] at hmatch
    rw [uuidToPublicId, render_patternOf]
    simp only [List.map_cons, List.getD_cons_zero, hmatch]
    cases fmt with
    | path => rfl
    | urlToken => simp

end Tokens

section RoundTrip

/-- The four bit pairs of the byte that no word holds, lowest first. -/
def padPairs (u : UUID) : List ℕ := [0, 2, 4, 6].map (padAt u)

def padDigits (fmt : IdFormat) (id : List Char) : List Char :=
  (match fmt with
    | .path => [2, 6, 10, 14]
    | .urlToken => [2, 5, 9, 12]).map fun x => id.getD x ' '

private theorem decodeWord_wordAt (u : UUID) {x : ℕ} (hx : x ≤ 11) :
    decodeWord (wordAt u x) = .ok (((bytesLe u).drop x).take 5) := by
  have hdvd : 5 ∣ (((bytesLe u).drop x).take 5).length := by rw [length_piece u hx]
  rw [decodeWord, wordAt, b32decode_b32encode hdvd]
  rfl

theorem padAt_lt (u : UUID) (x : ℕ) : padAt u x < 4 :=
  Nat.lt_of_le_of_lt Nat.and_le_right (by decide)

private theorem pairs_of_byte (u : UUID) :
    ((bytesLe u).getD 5 0).toNat =
      padAt u 6 * 64 + padAt u 4 * 16 + padAt u 2 * 4 + padAt u 0 := by
  have hpair : ∀ x, padAt u x = ((bytesLe u).getD 5 0).toNat / 2 ^ x % 2 ^ 2 := fun x =>
    BitWords.shiftRight_and _ x 2
  have hlt := ((bytesLe u).getD 5 0).toNat_lt
  rw [hpair, hpair, hpair, hpair]
  omega

/-- Sixteen bytes as the three words and the byte between them. -/
private theorem pieces_of_bytes {bytes : List UInt8} (h : bytes.length = 16) :
    bytes.take 5 ++ [bytes.getD 5 0] ++ (bytes.drop 6).take 5 ++ (bytes.drop 11).take 5 =
      bytes := by
  have hbyte : bytes.drop 5 = bytes.getD 5 0 :: bytes.drop 6 := by
    rw [List.getD_eq_getElem _ _ (by omega), ← List.drop_eq_getElem_cons]
  have hlast : (bytes.drop 11).take 5 = (bytes.drop 6).drop 5 := by
    rw [List.drop_drop, List.take_of_length_le]
    rw [List.length_drop]
    omega
  rw [List.append_assoc, hlast, List.take_append_drop, List.append_assoc, List.singleton_append,
    ← hbyte, List.take_append_drop]

/-- The bytes that come back: the pairs of one of them are in the other order. -/
theorem publicIdToUuid_emitted (u : UUID) (fmt : IdFormat) :
    ∃ id, uuidToPublicId u fmt = .ok id ∧ publicIdToUuid id fmt =
      ofBytesLe ((bytesLe u).take 5 ++
        [UInt8.ofNat (padAt u 0 * 64 + padAt u 2 * 16 + padAt u 4 * 4 + padAt u 6)] ++
        ((bytesLe u).drop 6).take 5 ++ ((bytesLe u).drop 11).take 5) := by
  obtain ⟨g0, g1, g2, g3, ⟨hg0, hg1, hg2, hg3⟩, hword, hid⟩ := uuidToPublicId_eq u fmt
  refine ⟨_, hid, ?_⟩
  have hfits := (@fits_patternOf_iff fmt _).mpr ⟨g3, DecimalText.print (padAt u 6), g2,
    DecimalText.print (padAt u 4), g1, DecimalText.print (padAt u 2), g0,
    DecimalText.print (padAt u 0), wordAt u 11, wordAt u 6, rfl,
    ⟨hg3, hg2, hg1, hg0, isWord_wordAt u (by decide), isWord_wordAt u (by decide)⟩,
    isDigit_print (padAt_lt u 6), isDigit_print (padAt_lt u 4), isDigit_print (padAt_lt u 2),
    isDigit_print (padAt_lt u 0)⟩
  have h0 : decodeWord (g0 ++ (g1 ++ (g2 ++ (g3 ++ [])))) = .ok ((bytesLe u).take 5) := by
    rw [hword, decodeWord_wordAt u (Nat.zero_le 11), List.drop_zero]
  rw [publicIdToUuid, parsePublicId, fullmatch_render hfits]
  exact uuidOfTokens_eq h0 (decodeWord_wordAt u (by decide)) (decodeWord_wordAt u (by decide))

private theorem uuid_roundTrip_iff (u : UUID) (fmt : IdFormat) :
    ∃ id, uuidToPublicId u fmt = .ok id ∧
      (publicIdToUuid id fmt = .ok u ↔ (padPairs u).reverse = padPairs u) := by
  obtain ⟨id, hid, hparse⟩ := publicIdToUuid_emitted u fmt
  refine ⟨id, hid, ?_⟩
  have hlt := padAt_lt u
  have hbyte := pairs_of_byte u
  have hpieces := pieces_of_bytes (length_bytesLe u)
  have hmirror : (padPairs u).reverse = padPairs u ↔
      padAt u 0 = padAt u 6 ∧ padAt u 2 = padAt u 4 := by
    simp only [padPairs, List.map_cons, List.map_nil, List.reverse_cons, List.reverse_nil,
      List.nil_append, List.cons_append, List.cons.injEq, and_true]
    omega
  have hsame : UInt8.ofNat (padAt u 0 * 64 + padAt u 2 * 16 + padAt u 4 * 4 + padAt u 6) =
      (bytesLe u).getD 5 0 ↔ padAt u 0 = padAt u 6 ∧ padAt u 2 = padAt u 4 := by
    rw [← UInt8.toNat_inj, UInt8.toNat_ofNat_of_lt' (by
      have h0 := hlt 0
      have h2 := hlt 2
      have h4 := hlt 4
      have h6 := hlt 6
      change _ < 2 ^ 8
      omega), hbyte]
    have h0 := hlt 0
    have h2 := hlt 2
    have h4 := hlt 4
    have h6 := hlt 6
    omega
  rw [hparse, hmirror, ← hsame]
  constructor
  · intro h
    have hbytes := (bytesLe_of_ofBytesLe h).symm.trans hpieces.symm
    simp only [List.append_assoc, List.append_cancel_left_eq, List.singleton_append] at hbytes
    exact (List.cons.inj hbytes).1
  · intro h
    rw [h, hpieces, ofBytesLe_bytesLe]

private theorem pieces_append {w0 w1 w2 : List UInt8} (x : UInt8) (h0 : w0.length = 5)
    (h1 : w1.length = 5) (h2 : w2.length = 5) :
    (w0 ++ [x] ++ w1 ++ w2).take 5 = w0 ∧ ((w0 ++ [x] ++ w1 ++ w2).drop 6).take 5 = w1 ∧
      ((w0 ++ [x] ++ w1 ++ w2).drop 11).take 5 = w2 ∧ (w0 ++ [x] ++ w1 ++ w2).getD 5 0 = x := by
  have hfirst : (w0 ++ [x]).length = 6 := by rw [List.length_append, h0]; rfl
  have hsecond : (w0 ++ [x] ++ w1).length = 11 := by rw [List.length_append, hfirst, h1]
  refine ⟨?_, ?_, ?_, ?_⟩
  · rw [List.append_assoc, List.append_assoc, ← h0, List.take_left]
  · rw [List.append_assoc, ← hfirst, List.drop_left, ← h1, List.take_left]
  · rw [← hsecond, List.drop_left, ← h2, List.take_length]
  · rw [List.append_assoc, List.append_assoc, List.getD_append_right _ _ _ _ h0.le, h0]
    rfl

private theorem decodeWord_eq_ok {n : ℕ} {text : List Char} {bytes : List UInt8}
    (htext : IsWord n text) (h : decodeWord text = .ok bytes) :
    b32encode bytes = text ∧ 8 * bytes.length = 5 * n := by
  have hpad : '=' ∉ text := fun hmem => absurd (htext.2 '=' hmem) (by decide)
  have hdecode : b32decode text = some bytes := by
    rw [decodeWord] at h
    cases hcase : b32decode text with
    | none =>
      rw [hcase] at h
      cases h
    | some decoded =>
      rw [hcase] at h
      exact congrArg some (Except.ok.inj h)
  obtain ⟨hencode, hlength⟩ := b32encode_of_b32decode hpad hdecode
  rw [htext.1] at hlength
  exact ⟨hencode, hlength⟩

private theorem padDigits_render (fmt : IdFormat) {t0 t2 t4 t6 : List Char} (t8 t9 : List Char)
    (c1 c3 c5 c7 : Char) (h0 : IsWord 2 t0) (h2 : IsWord 2 t2) (h4 : IsWord 2 t4)
    (h6 : IsWord 2 t6) :
    padDigits fmt (render (patternOf fmt) [t0, [c1], t2, [c3], t4, [c5], t6, [c7], t8, t9]) =
      [c1, c3, c5, c7] := by
  obtain ⟨a, b, rfl⟩ := List.length_eq_two.mp h0.1
  obtain ⟨c, d, rfl⟩ := List.length_eq_two.mp h2.1
  obtain ⟨e, f, rfl⟩ := List.length_eq_two.mp h4.1
  obtain ⟨g, h, rfl⟩ := List.length_eq_two.mp h6.1
  cases fmt <;> rfl

private theorem IsWord.append {m n : ℕ} {s t : List Char} (hs : IsWord m s) (ht : IsWord n t) :
    IsWord (m + n) (s ++ t) := by
  refine ⟨by rw [List.length_append, hs.1, ht.1], fun c hc => ?_⟩
  exact (List.mem_append.mp hc).elim (hs.2 c) (ht.2 c)

private theorem isWord_nil : IsWord 0 [] := by
  refine ⟨rfl, fun c hc => ?_⟩
  cases hc

/-- The bytes of a UUID that was read are those of its words around the byte of its pairs. -/
private theorem pieces_of_ofBytesLe {u : UUID} {w0 w1 w2 : List UInt8} {v : ℕ}
    (h0 : w0.length = 5) (h1 : w1.length = 5) (h2 : w2.length = 5) (hv : v < 2 ^ 8)
    (h : ofBytesLe (w0 ++ [UInt8.ofNat v] ++ w1 ++ w2) = .ok u) :
    (bytesLe u).take 5 = w0 ∧ ((bytesLe u).drop 6).take 5 = w1 ∧
      ((bytesLe u).drop 11).take 5 = w2 ∧ ∀ x, padAt u x = v / 2 ^ x % 2 ^ 2 := by
  obtain ⟨hp0, hp1, hp2, hbyte⟩ := pieces_append (UInt8.ofNat v) h0 h1 h2
  rw [← bytesLe_of_ofBytesLe h] at hp0 hp1 hp2 hbyte
  refine ⟨hp0, hp1, hp2, fun x => ?_⟩
  have hvalue : ((bytesLe u).getD 5 0).toNat = v := by
    rw [hbyte, UInt8.toNat_ofNat_of_lt' hv]
  rw [← hvalue]
  exact BitWords.shiftRight_and _ x 2

private theorem print_padDigit {v : ℕ} (hv : v < 4) : DecimalText.print v = [v.digitChar] :=
  DecimalText.print_digit (by omega)

/-- What the groups of a readable id say about its UUID. -/
private theorem of_publicIdToUuid {s : List Char} {fmt : IdFormat} {u : UUID}
    (h : publicIdToUuid s fmt = .ok u) :
    ∃ t0 t2 t4 t6 t8 t9 v1 v3 v5 v7, (IsWord 2 t0 ∧ IsWord 2 t2 ∧ IsWord 2 t4 ∧ IsWord 2 t6) ∧
      (v1 < 4 ∧ v3 < 4 ∧ v5 < 4 ∧ v7 < 4) ∧
      s = render (patternOf fmt) [t0, DecimalText.print v1, t2, DecimalText.print v3, t4,
        DecimalText.print v5, t6, DecimalText.print v7, t8, t9] ∧
      wordAt u 0 = t6 ++ (t4 ++ (t2 ++ (t0 ++ []))) ∧ wordAt u 11 = t8 ∧ wordAt u 6 = t9 ∧
      padAt u 0 = v1 ∧ padAt u 2 = v3 ∧ padAt u 4 = v5 ∧ padAt u 6 = v7 := by
  rw [publicIdToUuid, parsePublicId] at h
  cases hmatch : fullmatch (patternOf fmt) s with
  | none =>
    rw [hmatch] at h
    cases h
  | some tokens =>
    rw [hmatch] at h
    obtain ⟨hfits, rfl⟩ := of_fullmatch hmatch
    obtain ⟨t0, t1, t2, t3, t4, t5, t6, t7, t8, t9, rfl, ⟨h0, h2, h4, h6, h8, h9⟩,
      h1, h3, h5, h7⟩ := fits_patternOf_iff.mp hfits
    obtain ⟨v1, hv1, rfl⟩ := exists_of_isDigit h1
    obtain ⟨v3, hv3, rfl⟩ := exists_of_isDigit h3
    obtain ⟨v5, hv5, rfl⟩ := exists_of_isDigit h5
    obtain ⟨v7, hv7, rfl⟩ := exists_of_isDigit h7
    change uuidOfTokens _ = .ok u at h
    have htokens := h
    rw [uuidOfTokens] at h
    obtain ⟨w0, hw0, h⟩ := exists_of_bind_eq_ok h
    obtain ⟨w1, hw1, h⟩ := exists_of_bind_eq_ok h
    obtain ⟨w2, hw2, h⟩ := exists_of_bind_eq_ok h
    have hw0 : decodeWord (t6 ++ (t4 ++ (t2 ++ (t0 ++ [])))) = .ok w0 := hw0
    have hw1 : decodeWord t9 = .ok w1 := hw1
    have hw2 : decodeWord t8 = .ok w2 := hw2
    rw [uuidOfTokens_eq hw0 hw1 hw2] at htokens
    have hdirs := h6.append (h4.append (h2.append (h0.append isWord_nil)))
    obtain ⟨he0, hl0⟩ := decodeWord_eq_ok hdirs hw0
    obtain ⟨he1, hl1⟩ := decodeWord_eq_ok h9 hw1
    obtain ⟨he2, hl2⟩ := decodeWord_eq_ok h8 hw2
    obtain ⟨hp0, hp1, hp2, hpad⟩ := @pieces_of_ofBytesLe u w0 w1 w2 _ (by omega) (by omega)
      (by omega) (by omega) htokens
    refine ⟨t0, t2, t4, t6, t8, t9, v1, v3, v5, v7, ⟨h0, h2, h4, h6⟩, ⟨hv1, hv3, hv5, hv7⟩, rfl,
      ?_, ?_, ?_, ?_, ?_, ?_, ?_⟩
    · rw [wordAt, List.drop_zero, hp0, he0]
    · rw [wordAt, hp2, he2]
    · rw [wordAt, hp1, he1]
    all_goals
      rw [hpad]
      omega

private theorem id_roundTrip_iff {s : List Char} {fmt : IdFormat} {u : UUID}
    (h : publicIdToUuid s fmt = .ok u) :
    uuidToPublicId u fmt = .ok s ↔ (padDigits fmt s).reverse = padDigits fmt s := by
  obtain ⟨t0, t2, t4, t6, t8, t9, v1, v3, v5, v7, ⟨h0, h2, h4, h6⟩, ⟨hv1, hv3, hv5, hv7⟩, rfl,
    hword, h11, h6', hp0, hp2, hp4, hp6⟩ := of_publicIdToUuid h
  obtain ⟨g0, g1, g2, g3, ⟨hg0, hg1, hg2, hg3⟩, hgroups, hid⟩ := uuidToPublicId_eq u fmt
  rw [hword] at hgroups
  obtain ⟨rfl, hrest⟩ := List.append_inj hgroups (hg0.1.trans h6.1.symm)
  obtain ⟨rfl, hrest'⟩ := List.append_inj hrest (hg1.1.trans h4.1.symm)
  obtain ⟨rfl, hlast⟩ := List.append_inj hrest' (hg2.1.trans h2.1.symm)
  obtain ⟨rfl, -⟩ := List.append_inj hlast (hg3.1.trans h0.1.symm)
  rw [hid, hp0, hp2, hp4, hp6, h11, h6', Except.ok.injEq, print_padDigit hv1,
    print_padDigit hv3, print_padDigit hv5, print_padDigit hv7]
  have hdigits := padDigits_render fmt t8 t9 v1.digitChar v3.digitChar v5.digitChar v7.digitChar
    h0 h2 h4 h6
  have hdigits' := padDigits_render fmt t8 t9 v7.digitChar v5.digitChar v3.digitChar v1.digitChar
    h0 h2 h4 h6
  constructor
  · intro heq
    have hsame := congrArg (padDigits fmt) heq
    rw [hdigits, hdigits'] at hsame
    rw [hdigits]
    exact hsame
  · intro hmirror
    rw [hdigits] at hmirror
    change [v7.digitChar, v5.digitChar, v3.digitChar, v1.digitChar] = _ at hmirror
    simp only [List.cons.injEq, and_true] at hmirror
    obtain ⟨h7, h5, -, -⟩ := hmirror
    rw [h7, h5]

/-- Exactly the UUIDs whose four bit pairs, and the ids whose four digits, are mirrored make the
round trip. -/
theorem roundTrip_iff (fmt : IdFormat) :
    (∀ u, ∃ id, uuidToPublicId u fmt = .ok id ∧
      (publicIdToUuid id fmt = .ok u ↔ (padPairs u).reverse = padPairs u)) ∧
    ∀ s u, publicIdToUuid s fmt = .ok u →
      (uuidToPublicId u fmt = .ok s ↔ (padDigits fmt s).reverse = padDigits fmt s) :=
  ⟨fun u => uuid_roundTrip_iff u fmt, fun _ _ => id_roundTrip_iff⟩

/-- A UUID whose byte 5 is 1 in little-endian order does not come back. -/
theorem uuid_not_roundTrip :
    ∃ id, uuidToPublicId ⟨2 ^ 88, by decide⟩ .path = .ok id ∧
      publicIdToUuid id .path ≠ .ok ⟨2 ^ 88, by decide⟩ := by
  obtain ⟨id, hid, hiff⟩ := uuid_roundTrip_iff ⟨2 ^ 88, by decide⟩ .path
  refine ⟨id, hid, fun h => absurd (hiff.mp h) ?_⟩
  decide +kernel

end RoundTrip

end RandomArt.UniqueIds
