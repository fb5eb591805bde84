import RandomArt.PublicId

/-!
# Public ids of signed image uploads

This helper packs the time, the node and the clock of a UUID into one number, writes it in
base32 and adds a digit. Its parsing patterns are those of the other helper.
-/

namespace RandomArt.SignedImageUploads
open Base32 FixedPattern PublicId

inductive IdFormat where
  | path
  | urlToken
  | uuid
  deriving DecidableEq

structure PublicIdHelper where
  nodeId : ℕ

def PARSE_TEST_DIR : List Item := W [] [4, 2, 2, 4, 6, 6]

def PARSE_TEST_URL : List Item := W [] [6, 6, 6, 6]

def timePart (allBits : ℕ) : ℕ :=
  let timeHi := ((allBits >>> 64) &&& 0x0fff) <<< 48
  let timeMid := ((allBits >>> 80) &&& 0xffff) <<< 32
  timeHi + timeMid + (allBits >>> 96)

/-- The number that an id spells: time, node and clock. -/
def baseNumber (allBits : ℕ) : ℕ :=
  let nodePart := allBits &&& 0xffffffffffff
  let clock := (allBits >>> 48) &&& 0x3ff
  (timePart allBits <<< 60) + (nodePart <<< 12) + clock

/-- The digit at the end of an id. -/
def nib (allBits : ℕ) : List Char := DecimalText.print ((allBits >>> 60) &&& 0x3)

def uuidToPublicId (srcUuid : UUID) (fmt : IdFormat) : Except Failure (List Char) :=
  let b32Str := b32encode (toBytes 15 (baseNumber srcUuid.int))
  match fmt with
  | .path =>
    match fullmatch PARSE_TEST_DIR b32Str with
    | none => .error .noGroups
    | some dirs => .ok (join '/' (dirs.take 5 ++ [dirs.getD 5 [] ++ nib srcUuid.int]))
  | .urlToken =>
    match fullmatch PARSE_TEST_URL b32Str with
    | none => .error .noGroups
    | some dirs => .ok (join '-' (dirs.take 3 ++ [dirs.getD 3 [] ++ nib srcUuid.int]))
  | .uuid => .error (.unrecognizedFormat "<built-in function format>")

def publicIdToUuid (srcPublicId : List Char) (fmt : IdFormat) : Except Failure UUID :=
  match fmt with
  | .path => parsePublicId PARSE_PATH_PATTERN srcPublicId
  | .urlToken => parsePublicId PARSE_URL_PATTERN srcPublicId
  | .uuid => .error (.unrecognizedFormat "IdFormat.UUID")

/-- A new id, given the UUID that was drawn for the helper's node. -/
def getNewId (latestUuid : UUID) (fmt : IdFormat) : Except Failure (List Char) :=
  uuidToPublicId latestUuid fmt

def getNextId (helper : PublicIdHelper) (latestPublicId : List Char) (fmt : IdFormat) :
    Except Failure (List Char) :=
  nextPublicId helper.nodeId (publicIdToUuid · fmt) (uuidToPublicId · fmt) latestPublicId

def urlTokenToPath (publicId : List Char) : Except Failure (List Char) := do
  uuidToPublicId (← publicIdToUuid publicId .urlToken) .path

def pathToUrlToken (publicId : List Char) : Except Failure (List Char) := do
  uuidToPublicId (← publicIdToUuid publicId .path) .urlToken

section Emitted

/-- The base32 text of an id. -/
def idText (u : UUID) : List Char := b32encode (toBytes 15 (baseNumber u.int))

private theorem dvd_length_toBytes (u : UUID) :
    5 ∣ (toBytes 15 (baseNumber u.int)).length := by
  rw [length_toBytes]
  decide

private theorem upperAlnum_idText (u : UUID) : ∀ c ∈ idText u, upperAlnum c :=
  upperAlnum_b32encode (dvd_length_toBytes u)

private theorem length_idText (u : UUID) : (idText u).length = 24 := by
  rw [idText, length_b32encode (dvd_length_toBytes u), length_toBytes]

private theorem upperAlnum_nib (u : UUID) : ∀ c ∈ nib u.int, upperAlnum c := by
  intro c hc
  have hdigit : c.isDigit := DecimalText.isDigit_of_mem_print hc
  rw [upperAlnum, hdigit, Bool.or_true]

private theorem length_nib (allBits : ℕ) : (nib allBits).length = 1 := by
  have hlt : (allBits >>> 60) &&& 0x3 < 10 := Nat.lt_of_le_of_lt Nat.and_le_right (by decide)
  rw [nib, DecimalText.print_digit hlt]
  rfl

private theorem sep_notMem {sep : Char} (hsep : upperAlnum sep = false) {text : List Char}
    (h : ∀ c ∈ text, upperAlnum c) : sep ∉ text := fun hmem => by
  have := h sep hmem
  rw [hsep] at this
  cases this

/-- Groups with a digit after the last one, joined. -/
private theorem join_withDigit {sep : Char} {dirs : List (List Char)} {n : ℕ}
    {text digit : List Char} (hcount : dirs.length = n + 1) (hflatten : dirs.flatten = text)
    (htext : sep ∉ text) (hdigit : sep ∉ digit) :
    (join sep (dirs.take n ++ [dirs.getD n [] ++ digit])).filter (· ≠ sep) = text ++ digit ∧
      (join sep (dirs.take n ++ [dirs.getD n [] ++ digit])).length =
        text.length + digit.length + n := by
  obtain ⟨init, last, rfl⟩ : ∃ init last, dirs = init ++ [last] := by
    rcases List.eq_nil_or_concat dirs with rfl | ⟨init, last, rfl⟩
    · cases hcount
    · exact ⟨init, last, List.concat_eq_append⟩
  have hinit : init.length = n := by
    rw [List.length_append] at hcount
    exact Nat.succ.inj hcount
  have hparts : (init ++ [last]).take n ++ [(init ++ [last]).getD n [] ++ digit] =
      init ++ [last ++ digit] := by
    rw [← hinit, List.take_left, List.getD_append_right _ _ _ _ le_rfl, Nat.sub_self]
    rfl
  have hall : (init ++ [last ++ digit]).flatten = text ++ digit := by
    rw [← hflatten]
    simp
  rw [hparts]
  constructor
  · rw [filter_join, hall]
    intro part hpart hsep
    have hmem : sep ∈ (init ++ [last ++ digit]).flatten := List.mem_flatten.mpr ⟨part, hpart, hsep⟩
    rw [hall] at hmem
    exact (List.mem_append.mp hmem).elim htext hdigit
  · have hlength := length_join sep (List.append_ne_nil_of_right_ne_nil init (List.cons_ne_nil
      (last ++ digit) []))
    rw [← List.length_flatten, hall, List.length_append, List.length_append, hinit,
      List.length_singleton] at hlength
    omega

/-- The text of a UUID cut into groups, with the digit added. -/
private theorem exists_dirs (u : UUID) {sep : Char} {counts : List ℕ} {n : ℕ}
    (hsum : counts.sum = 24) (hcounts : counts.length = n + 1) (hsep : upperAlnum sep = false) :
    ∃ dirs, fullmatch (counts.map fun n => .group n upperAlnum) (idText u) = some dirs ∧
      (join sep (dirs.take n ++ [dirs.getD n [] ++ nib u.int])).filter (· ≠ sep) =
        idText u ++ nib u.int ∧
      (join sep (dirs.take n ++ [dirs.getD n [] ++ nib u.int])).length = 25 + n := by
  have halnum := upperAlnum_idText u
  have hlength := length_idText u
  obtain ⟨dirs, hmatch, hwidths, hflatten⟩ :=
    exists_fullmatch_groups (hlength.trans hsum.symm) halnum
  have hcount : dirs.length = n + 1 := by rw [← hcounts, ← hwidths, List.length_map]
  obtain ⟨hfilter, hjoin⟩ := join_withDigit hcount hflatten
    (sep_notMem hsep halnum) (sep_notMem hsep (upperAlnum_nib u))
  refine ⟨dirs, hmatch, hfilter, ?_⟩
  rw [hjoin, hlength, length_nib]

def separator (fmt : IdFormat) : Char := if fmt = .path then '/' else '-'

/-- An id in a supported format: apart from separators, it is the text and the digit. -/
private theorem emitted (u : UUID) {fmt : IdFormat} (hfmt : fmt ≠ .uuid) :
    ∃ id, uuidToPublicId u fmt = .ok id ∧
      id.filter (· ≠ separator fmt) = idText u ++ nib u.int ∧
      id.length = if fmt = .path then 30 else 28 := by
  cases fmt with
  | path =>
    obtain ⟨dirs, hmatch, hfilter, hlength⟩ :=
      @exists_dirs u '/' [4, 2, 2, 4, 6, 6] 5 rfl rfl (by decide)
    refine ⟨_, ?_, hfilter, hlength⟩
    change fullmatch PARSE_TEST_DIR (idText u) = some dirs at hmatch
    rw [uuidToPublicId, ← idText, hmatch]
  | urlToken =>
    obtain ⟨dirs, hmatch, hfilter, hlength⟩ :=
      @exists_dirs u '-' [6, 6, 6, 6] 3 rfl rfl (by decide)
    refine ⟨_, ?_, hfilter, hlength⟩
    change fullmatch PARSE_TEST_URL (idText u) = some dirs at hmatch
    rw [uuidToPublicId, ← idText, hmatch]
  | uuid => exact absurd rfl hfmt

end Emitted

section Uniqueness
open BitWords

private theorem timePart_eq {n : ℕ} :
    timePart n = slice n 64 12 * 2 ^ 48 + slice n 80 16 * 2 ^ 32 + n / 2 ^ 96 := by
  have hhi : (n >>> 64) &&& 0x0fff = slice n 64 12 := shiftRight_and n 64 12
  have hmid : (n >>> 80) &&& 0xffff = slice n 80 16 := shiftRight_and n 80 16
  rw [timePart, hhi, hmid, Nat.shiftLeft_eq, Nat.shiftLeft_eq, Nat.shiftRight_eq_div_pow]

private theorem baseNumber_eq (n : ℕ) :
    baseNumber n = timePart n * 2 ^ 60 + slice n 0 48 * 2 ^ 12 + slice n 48 10 := by
  have hnode : n &&& 0xffffffffffff = slice n 0 48 := shiftRight_and n 0 48
  have hclock : (n >>> 48) &&& 0x3ff = slice n 48 10 := shiftRight_and n 48 10
  rw [baseNumber, hnode, hclock, Nat.shiftLeft_eq, Nat.shiftLeft_eq]

private theorem slice_top (u : UUID) : slice u.int 96 32 = u.int / 2 ^ 96 := by
  have hbound := u.bound
  rw [slice, Nat.mod_eq_of_lt]
  omega

private theorem baseNumber_lt (u : UUID) : baseNumber u.int < 2 ^ (8 * 15) := by
  have hhi := slice_lt u.int 64 12
  have hmid := slice_lt u.int 80 16
  have hlow := slice_lt u.int 96 32
  have hnode := slice_lt u.int 0 48
  have hclock := slice_lt u.int 48 10
  rw [slice_top] at hlow
  rw [baseNumber_eq, timePart_eq]
  omega

private theorem baseNumber_eq_iff (u v : UUID) :
    baseNumber u.int = baseNumber v.int ↔
      slice u.int 0 48 = slice v.int 0 48 ∧ slice u.int 48 10 = slice v.int 48 10 ∧
      slice u.int 64 12 = slice v.int 64 12 ∧ slice u.int 80 16 = slice v.int 80 16 ∧
      slice u.int 96 32 = slice v.int 96 32 := by
  have hbounds : ∀ w : UUID, slice w.int 64 12 < 2 ^ 12 ∧ slice w.int 80 16 < 2 ^ 16 ∧
      slice w.int 96 32 < 2 ^ 32 ∧ slice w.int 0 48 < 2 ^ 48 ∧ slice w.int 48 10 < 2 ^ 10 :=
    fun w => ⟨slice_lt _ _ _, slice_lt _ _ _, slice_lt _ _ _, slice_lt _ _ _, slice_lt _ _ _⟩
  have hu := hbounds u
  have hv := hbounds v
  rw [baseNumber_eq, baseNumber_eq, timePart_eq, timePart_eq, ← slice_top, ← slice_top]
  omega

private theorem idText_eq_iff (u v : UUID) :
    idText u = idText v ↔ baseNumber u.int = baseNumber v.int := by
  constructor
  · intro h
    have hdecode : ∀ w : UUID, b32decode (idText w) = some (toBytes 15 (baseNumber w.int)) :=
      fun w => b32decode_b32encode (dvd_length_toBytes w)
    have hbytes := hdecode u
    rw [h, hdecode v, Option.some.injEq] at hbytes
    rw [← fromBytes_toBytes (baseNumber_lt u), ← hbytes, fromBytes_toBytes (baseNumber_lt v)]
  · intro h
    rw [idText, idText, h]

private theorem nib_eq_iff (n m : ℕ) : nib n = nib m ↔ slice n 60 2 = slice m 60 2 := by
  rw [← shiftRight_and, ← shiftRight_and]
  exact DecimalText.print_inj

private theorem uuidToPublicId_eq_iff (u v : UUID) {fmt : IdFormat} (hfmt : fmt ≠ .uuid) :
    uuidToPublicId u fmt = uuidToPublicId v fmt ↔ idText u = idText v ∧ nib u.int = nib v.int := by
  constructor
  · intro h
    obtain ⟨id, hu, hfilter, -⟩ := emitted u hfmt
    obtain ⟨id', hv, hfilter', -⟩ := emitted v hfmt
    rw [hu, hv] at h
    cases h
    rw [hfilter] at hfilter'
    exact List.append_inj hfilter' (by rw [length_idText, length_idText])
  · rintro ⟨htext, hnib⟩
    rw [idText, idText] at htext
    cases fmt with
    | uuid => rfl
    | _ => rw [uuidToPublicId, uuidToPublicId, htext, hnib]

/-- Version-1 UUIDs have the same packed fields when they agree everywhere else than in bits
10 and 11 of the clock sequence. -/
private theorem slices_eq_iff {u v : UUID} (hu : IsVersion1 u) (hv : IsVersion1 v) :
    ((slice u.int 0 48 = slice v.int 0 48 ∧ slice u.int 48 10 = slice v.int 48 10 ∧
      slice u.int 64 12 = slice v.int 64 12 ∧ slice u.int 80 16 = slice v.int 80 16 ∧
      slice u.int 96 32 = slice v.int 96 32) ∧ slice u.int 60 2 = slice v.int 60 2) ↔
      ∀ i, i ≠ 58 → i ≠ 59 → u.int.testBit i = v.int.testBit i := by
  have hfixed : ∀ w : UUID, IsVersion1 w → slice w.int 76 4 = 1 ∧ slice w.int 62 2 = 2 := by
    rintro w ⟨hversion, hvariant⟩
    exact ⟨(shiftRight_and w.int 76 4).symm.trans hversion,
      (shiftRight_and w.int 62 2).symm.trans hvariant⟩
  have hversion : slice u.int 76 4 = slice v.int 76 4 := by
    rw [(hfixed u hu).1, (hfixed v hv).1]
  have hvariant : slice u.int 62 2 = slice v.int 62 2 := by
    rw [(hfixed u hu).2, (hfixed v hv).2]
  rw [slice_eq_iff] at hversion hvariant
  simp only [slice_eq_iff]
  constructor
  · rintro ⟨⟨hnode, hclock, hhi, hmid, hlow⟩, hnib⟩ i h58 h59
    by_cases htop : 128 ≤ i
    · have hlarge : ∀ w : UUID, w.int.testBit i = false := fun w =>
        Nat.testBit_lt_two_pow (w.bound.trans_le (Nat.pow_le_pow_right (by decide) htop))
      rw [hlarge u, hlarge v]
    · have hrange : i < 48 ∨ (48 ≤ i ∧ i < 58) ∨ (60 ≤ i ∧ i < 62) ∨ (62 ≤ i ∧ i < 64) ∨
          (64 ≤ i ∧ i < 76) ∨ (76 ≤ i ∧ i < 80) ∨ (80 ≤ i ∧ i < 96) ∨ (96 ≤ i ∧ i < 128) := by
        omega
      rcases hrange with h | ⟨hl, hr⟩ | ⟨hl, hr⟩ | ⟨hl, hr⟩ | ⟨hl, hr⟩ | ⟨hl, hr⟩ | ⟨hl, hr⟩ |
        ⟨hl, hr⟩
      · exact hnode i (Nat.zero_le i) (by omega)
      · exact hclock i hl (by omega)
      · exact hnib i hl (by omega)
      · exact hvariant i hl (by omega)
      · exact hhi i hl (by omega)
      · exact hversion i hl (by omega)
      · exact hmid i hl (by omega)
      · exact hlow i hl (by omega)
  · intro h
    refine ⟨⟨?_, ?_, ?_, ?_, ?_⟩, ?_⟩ <;> intro i hl hr <;> exact h i (by omega) (by omega)

/-- Two version-1 UUIDs get different ids exactly when they differ in a bit other than the two
that the clock mask drops. -/
theorem ids_ne_iff {u v : UUID} (hu : IsVersion1 u) (hv : IsVersion1 v) {fmt : IdFormat}
    (hfmt : fmt ≠ .uuid) :
    ∃ p q, uuidToPublicId u fmt = .ok p ∧ uuidToPublicId v fmt = .ok q ∧
      (p ≠ q ↔ ∃ i, i ≠ 58 ∧ i ≠ 59 ∧ u.int.testBit i ≠ v.int.testBit i) := by
  obtain ⟨p, hp, -⟩ := emitted u hfmt
  obtain ⟨q, hq, -⟩ := emitted v hfmt
  have heq : p = q ↔ ∀ i, i ≠ 58 → i ≠ 59 → u.int.testBit i = v.int.testBit i := by
    have hids := uuidToPublicId_eq_iff u v hfmt
    rw [hp, hq, Except.ok.injEq] at hids
    rw [hids, idText_eq_iff, nib_eq_iff, baseNumber_eq_iff, slices_eq_iff hu hv]
  refine ⟨p, q, hp, hq, ?_⟩
  rw [Ne, heq]
  simp only [not_forall, exists_prop]

/-- The least version-1 UUID, and the one with bit 10 of the clock sequence set as well. -/
def leastUuid : UUID := ⟨2 ^ 76 + 2 ^ 63, by decide⟩

def clockUuid : UUID := ⟨2 ^ 76 + 2 ^ 63 + 2 ^ 58, by decide⟩

theorem ids_ne_iff_least :
    ∃ p q, uuidToPublicId leastUuid .path = .ok p ∧ uuidToPublicId clockUuid .path = .ok q ∧
      (p ≠ q ↔ ∃ i, i ≠ 58 ∧ i ≠ 59 ∧ leastUuid.int.testBit i ≠ clockUuid.int.testBit i) :=
  ids_ne_iff (by decide) (by decide) (by decide)

/-- Two UUIDs with one id, in both formats. -/
theorem ids_of_least_and_clock :
    IsVersion1 leastUuid ∧ IsVersion1 clockUuid ∧ leastUuid ≠ clockUuid ∧
      uuidToPublicId leastUuid .path = uuidToPublicId clockUuid .path ∧
      uuidToPublicId leastUuid .urlToken = uuidToPublicId clockUuid .urlToken := by
  have hbase : idText leastUuid = idText clockUuid := by
    rw [idText_eq_iff]
    decide
  have hnib : nib leastUuid.int = nib clockUuid.int := by
    rw [nib_eq_iff]
    decide
  refine ⟨by decide, by decide, by decide, ?_, ?_⟩
  · exact (uuidToPublicId_eq_iff leastUuid clockUuid (by decide)).mpr ⟨hbase, hnib⟩
  · exact (uuidToPublicId_eq_iff leastUuid clockUuid (by decide)).mpr ⟨hbase, hnib⟩

end Uniqueness

section Acceptance

/-- No id that the helper writes has the length that its parser wants. -/
theorem publicIdToUuid_of_emitted {u : UUID} {fmt : IdFormat} {id : List Char}
    (h : uuidToPublicId u fmt = .ok id) : publicIdToUuid id fmt = .error (.invalidId id) := by
  have hfmt : fmt ≠ .uuid := by
    rintro rfl
    cases h
  obtain ⟨id', hid, -, hlength⟩ := emitted u hfmt
  rw [h] at hid
  cases hid
  cases fmt with
  | path =>
    have hwidth : id.length ≠ width PARSE_PATH_PATTERN := by
      rw [hlength]
      decide
    rw [publicIdToUuid, parsePublicId, fullmatch_eq_none_of_length hwidth]
  | urlToken =>
    have hwidth : id.length ≠ width PARSE_URL_PATTERN := by
      rw [hlength]
      decide
    rw [publicIdToUuid, parsePublicId, fullmatch_eq_none_of_length hwidth]
  | uuid => exact absurd rfl hfmt

/-- What makes the ids of one UUID usable: a series can be continued from them, and the two
formats can be turned into each other and back. -/
def Usable (helper : PublicIdHelper) (u : UUID) : Prop :=
  (∀ fmt, fmt ≠ .uuid → clockSeq u < 0xfff → ∃ id next, getNewId u fmt = .ok id ∧
    getNextId helper id fmt = .ok next ∧ ∃ v, publicIdToUuid next fmt = .ok v) ∧
  (∃ id path, getNewId u .urlToken = .ok id ∧ urlTokenToPath id = .ok path ∧
    pathToUrlToken path = .ok id) ∧
  (∃ id token, getNewId u .path = .ok id ∧ pathToUrlToken id = .ok token ∧
    urlTokenToPath token = .ok id)

private theorem getNextId_of_emitted (helper : PublicIdHelper) {u : UUID} {fmt : IdFormat}
    {id : List Char} (h : getNewId u fmt = .ok id) :
    getNextId helper id fmt = .error (.invalidId id) := by
  have herror : publicIdToUuid id fmt = .error (.invalidId id) := publicIdToUuid_of_emitted h
  rw [getNextId, nextPublicId, herror]
  rfl

private theorem urlTokenToPath_of_emitted {u : UUID} {id : List Char}
    (h : getNewId u .urlToken = .ok id) : urlTokenToPath id = .error (.invalidId id) := by
  have herror : publicIdToUuid id .urlToken = .error (.invalidId id) := publicIdToUuid_of_emitted h
  rw [urlTokenToPath, herror]
  rfl

/-- No UUID has usable ids; in particular no series can be continued. -/
theorem not_usable (helper : PublicIdHelper) (u : UUID) :
    ¬Usable helper u ∧ ∀ fmt id, getNewId u fmt = .ok id →
      getNextId helper id fmt = .error (.invalidId id) := by
  refine ⟨?_, fun fmt id h => getNextId_of_emitted helper h⟩
  rintro ⟨-, ⟨id, path, hid, hpath, -⟩, -⟩
  rw [urlTokenToPath_of_emitted hid] at hpath
  cases hpath

/-- The least version-1 UUID, of node 0 and with clock sequence 0, has no usable ids. -/
theorem least_not_usable :
    IsVersion1 leastUuid ∧ node leastUuid = 0 ∧ clockSeq leastUuid < 0xfff ∧
      ¬Usable ⟨0⟩ leastUuid := by
  refine ⟨by decide, by decide, by decide, ?_⟩
  rintro ⟨hnext, -⟩
  obtain ⟨id, next, hid, hget, -⟩ := hnext .path (by decide) (by decide)
  rw [getNextId_of_emitted ⟨0⟩ hid] at hget
  cases hget

end Acceptance

end RandomArt.SignedImageUploads
