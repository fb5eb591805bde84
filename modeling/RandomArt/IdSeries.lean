import RandomArt.UniqueIds

/-!
# Series of ids

Every step of a series reads the latest id back, which mirrors the four bit pairs of one byte of
its timestamp, and raises the clock sequence. The ids are therefore those of two timestamps in
turn; they are those of one timestamp when the pairs are mirrored already.
-/

namespace RandomArt.UniqueIds
open Base32 BitWords FallibleFold PublicId

section Fields

variable (u : UUID)

theorem node_eq : node u = u.int % 2 ^ 48 := Nat.and_two_pow_sub_one_eq_mod u.int 48

theorem clockSeqLow_eq : clockSeqLow u = u.int / 2 ^ 48 % 2 ^ 8 := shiftRight_and u.int 48 8

theorem clockSeqHiVariant_eq : clockSeqHiVariant u = u.int / 2 ^ 56 % 2 ^ 8 :=
  shiftRight_and u.int 56 8

theorem clockSeq_eq : clockSeq u = u.int / 2 ^ 48 % 2 ^ 14 := by
  have hhi : clockSeqHiVariant u &&& 0x3f = clockSeqHiVariant u % 2 ^ 6 :=
    Nat.and_two_pow_sub_one_eq_mod _ 6
  rw [clockSeq, hhi, Nat.shiftLeft_eq, clockSeqHiVariant_eq, clockSeqLow_eq]
  omega

theorem timeLow_eq : timeLow u = u.int / 2 ^ 96 := Nat.shiftRight_eq_div_pow u.int 96

theorem timeMid_eq : timeMid u = u.int / 2 ^ 80 % 2 ^ 16 := shiftRight_and u.int 80 16

theorem timeHiVersion_eq : timeHiVersion u = u.int / 2 ^ 64 % 2 ^ 16 := shiftRight_and u.int 64 16

/-- The UUID with another clock sequence; its node, its timestamp, its version and its variant
are the same. -/
def atClockSeq (k : ℕ) : UUID :=
  ⟨u.int / 2 ^ 62 * 2 ^ 62 + k % 2 ^ 14 * 2 ^ 48 + u.int % 2 ^ 48, by
    have hbound := u.bound
    omega⟩

@[simp] theorem node_atClockSeq (k : ℕ) : node (atClockSeq u k) = node u := by
  rw [node_eq, node_eq, atClockSeq]
  dsimp only
  omega

theorem clockSeq_atClockSeq {k : ℕ} (hk : k < 2 ^ 14) : clockSeq (atClockSeq u k) = k := by
  rw [clockSeq_eq, atClockSeq]
  dsimp only
  omega

theorem time_atClockSeq (k : ℕ) : timeLow (atClockSeq u k) = timeLow u ∧
    timeMid (atClockSeq u k) = timeMid u ∧ timeHiVersion (atClockSeq u k) = timeHiVersion u := by
  simp only [timeLow_eq, timeMid_eq, timeHiVersion_eq, atClockSeq]
  omega

@[simp] theorem atClockSeq_atClockSeq (j k : ℕ) :
    atClockSeq (atClockSeq u j) k = atClockSeq u k := by
  apply UUID.ext
  simp only [atClockSeq]
  omega

theorem atClockSeq_clockSeq : atClockSeq u (clockSeq u) = u := by
  apply UUID.ext
  simp only [atClockSeq, clockSeq_eq]
  omega

/-- The fields with the next clock sequence, with a carry or without one. -/
theorem ofFields_next (h : clockSeq u < 0xfff) :
    (if clockSeqLow u < 255 then
      ofFields (timeLow u) (timeMid u) (timeHiVersion u) (clockSeqHiVariant u) (clockSeqLow u + 1)
        (node u)
    else ofFields (timeLow u) (timeMid u) (timeHiVersion u) (clockSeqHiVariant u + 1) 0 (node u)) =
      .ok (atClockSeq u (clockSeq u + 1)) := by
  have hbound := u.bound
  rw [clockSeq_eq] at h
  rw [timeLow_eq, timeMid_eq, timeHiVersion_eq, clockSeqHiVariant_eq, clockSeqLow_eq, node_eq,
    clockSeq_eq]
  split_ifs with hlow
  · rw [ofFields, dif_pos (by omega), Except.ok.injEq]
    apply UUID.ext
    simp only [atClockSeq]
    omega
  · rw [ofFields, dif_pos (by omega), Except.ok.injEq]
    apply UUID.ext
    simp only [atClockSeq]
    omega

end Fields

section HighByte

variable (u : UUID) (b : ℕ)

/-- The byte of the timestamp that no word of an id holds. -/
def highByte : ℕ := u.int / 2 ^ 88 % 2 ^ 8

def setHighByte : UUID :=
  ⟨u.int / 2 ^ 96 * 2 ^ 96 + b % 2 ^ 8 * 2 ^ 88 + u.int % 2 ^ 88, by
    have hbound := u.bound
    omega⟩

@[simp] theorem highByte_setHighByte : highByte (setHighByte u b) = b % 2 ^ 8 := by
  rw [highByte, setHighByte]
  dsimp only
  omega

@[simp] theorem setHighByte_setHighByte (c : ℕ) :
    setHighByte (setHighByte u b) c = setHighByte u c := by
  apply UUID.ext
  simp only [setHighByte]
  omega

theorem setHighByte_highByte : setHighByte u (highByte u) = u := by
  apply UUID.ext
  simp only [setHighByte, highByte]
  omega

@[simp] theorem highByte_atClockSeq (k : ℕ) : highByte (atClockSeq u k) = highByte u := by
  simp only [highByte, atClockSeq]
  omega

theorem setHighByte_atClockSeq (k : ℕ) :
    setHighByte (atClockSeq u k) b = atClockSeq (setHighByte u b) k := by
  apply UUID.ext
  simp only [setHighByte, atClockSeq]
  omega

@[simp] theorem node_setHighByte : node (setHighByte u b) = node u := by
  simp only [node_eq, setHighByte]
  omega

private theorem exists_bytes {bytes : List UInt8} (h : bytes.length = 16) :
    ∃ b0 b1 b2 b3 b4 b5 b6 b7 rest, rest.length = 8 ∧
      bytes = b0 :: b1 :: b2 :: b3 :: b4 :: b5 :: b6 :: b7 :: rest := by
  match bytes, h with
  | b0 :: b1 :: b2 :: b3 :: b4 :: b5 :: b6 :: b7 :: rest, h =>
    exact ⟨b0, b1, b2, b3, b4, b5, b6, b7, rest, by simpa using h, rfl⟩

/-- In little-endian order the byte is the sixth one. -/
theorem ofBytesLe_highByte : ((bytesLe u).getD 5 0).toNat = highByte u ∧
    ∀ byte : UInt8, ofBytesLe ((bytesLe u).take 5 ++ [byte] ++ ((bytesLe u).drop 6).take 5 ++
      ((bytesLe u).drop 11).take 5) = .ok (setHighByte u byte.toNat) := by
  obtain ⟨b0, b1, b2, b3, b4, b5, b6, b7, rest, hrest, hbytes⟩ :=
    exists_bytes (length_toBytes 16 u.int)
  have hle : bytesLe u = b3 :: b2 :: b1 :: b0 :: b5 :: b4 :: b7 :: b6 :: rest := by
    rw [bytesLe, hbytes]
    rfl
  have hint (byte : UInt8) : fromBytes (b0 :: b1 :: b2 :: b3 :: byte :: b5 :: b6 :: b7 :: rest) =
      fromBytes [b0, b1, b2, b3] * 2 ^ 96 + byte.toNat * 2 ^ 88 +
        fromBytes (b5 :: b6 :: b7 :: rest) := by
    have happend := fromBytes_append [b0, b1, b2, b3] (byte :: b5 :: b6 :: b7 :: rest)
    rw [fromBytes_cons byte] at happend
    simp only [List.length_cons, hrest] at happend
    exact happend.trans (Nat.add_assoc _ _ _).symm
  have hlow : fromBytes (b5 :: b6 :: b7 :: rest) < 2 ^ 88 := by
    have hlt := fromBytes_lt (b5 :: b6 :: b7 :: rest)
    simpa only [List.length_cons, hrest] using hlt
  have hu : u.int = fromBytes [b0, b1, b2, b3] * 2 ^ 96 + b4.toNat * 2 ^ 88 +
      fromBytes (b5 :: b6 :: b7 :: rest) := by
    rw [← hint, ← hbytes, fromBytes_toBytes u.bound]
  have hb4 := b4.toNat_lt
  refine ⟨?_, fun byte => ?_⟩
  · rw [hle, highByte, hu]
    change b4.toNat = _
    omega
  · have hbyte := byte.toNat_lt
    have hswap : swapFields ((bytesLe u).take 5 ++ [byte] ++ ((bytesLe u).drop 6).take 5 ++
        ((bytesLe u).drop 11).take 5) =
          b0 :: b1 :: b2 :: b3 :: byte :: b5 :: b6 :: b7 :: rest := by
      have hpieces : rest.take 3 ++ (rest.drop 3).take 5 = rest := by
        rw [List.take_of_length_le (l := rest.drop 3) (by simp [hrest]), List.take_append_drop]
      rw [hle]
      change b0 :: b1 :: b2 :: b3 :: byte :: b5 :: b6 :: b7 ::
        (rest.take 3 ++ (rest.drop 3).take 5) = _
      rw [hpieces]
    rw [ofBytesLe, dif_pos (by rw [hswap]; simp [hrest]), Except.ok.injEq]
    apply UUID.ext
    simp only [hswap, hint, setHighByte, hu]
    omega

end HighByte

section Mirror

def mirrorByte (b : ℕ) : ℕ := b % 4 * 64 + b / 4 % 4 * 16 + b / 16 % 4 * 4 + b / 64 % 4

theorem mirrorByte_lt (b : ℕ) : mirrorByte b < 2 ^ 8 := by
  rw [mirrorByte]
  omega

private theorem exists_pairs {b : ℕ} (hb : b < 2 ^ 8) : ∃ p0 < 4, ∃ p2 < 4, ∃ p4 < 4, ∃ p6 < 4,
    b = p6 * 64 + p4 * 16 + p2 * 4 + p0 :=
  ⟨b % 4, by omega, b / 4 % 4, by omega, b / 16 % 4, by omega, b / 64, by omega, by omega⟩

theorem mirrorByte_eq {p0 p2 p4 p6 : ℕ} (h0 : p0 < 4) (h2 : p2 < 4) (h4 : p4 < 4) (h6 : p6 < 4) :
    mirrorByte (p6 * 64 + p4 * 16 + p2 * 4 + p0) = p0 * 64 + p2 * 16 + p4 * 4 + p6 := by
  rw [mirrorByte]
  omega

theorem mirrorByte_mirrorByte {b : ℕ} (hb : b < 2 ^ 8) : mirrorByte (mirrorByte b) = b := by
  obtain ⟨p0, h0, p2, h2, p4, h4, p6, h6, rfl⟩ := exists_pairs hb
  rw [mirrorByte_eq h0 h2 h4 h6, mirrorByte_eq h6 h4 h2 h0]

theorem highByte_lt (u : UUID) : highByte u < 2 ^ 8 := Nat.mod_lt _ (by decide)

/-- What reading the id of a UUID gives. -/
def mirror (u : UUID) : UUID := setHighByte u (mirrorByte (highByte u))

@[simp] theorem mirror_mirror (u : UUID) : mirror (mirror u) = u := by
  rw [mirror, mirror, highByte_setHighByte, setHighByte_setHighByte,
    Nat.mod_eq_of_lt (mirrorByte_lt _), mirrorByte_mirrorByte (highByte_lt u), setHighByte_highByte]

theorem mirror_atClockSeq (u : UUID) (k : ℕ) :
    mirror (atClockSeq u k) = atClockSeq (mirror u) k := by
  rw [mirror, mirror, highByte_atClockSeq, setHighByte_atClockSeq]

@[simp] theorem node_mirror (u : UUID) : node (mirror u) = node u := node_setHighByte u _

private theorem padAt_eq (u : UUID) (x : ℕ) : padAt u x = highByte u / 2 ^ x % 4 := by
  rw [← (ofBytesLe_highByte u).1]
  exact shiftRight_and _ x 2

/-- The pairs are mirrored when reading the id gives the UUID again. -/
theorem mirror_eq_iff (u : UUID) : mirror u = u ↔ (padPairs u).reverse = padPairs u := by
  have hbyte : mirror u = u ↔ mirrorByte (highByte u) = highByte u := by
    constructor
    · intro h
      have hhigh := congrArg highByte h
      rwa [mirror, highByte_setHighByte, Nat.mod_eq_of_lt (mirrorByte_lt _)] at hhigh
    · intro h
      rw [mirror, h, setHighByte_highByte]
  obtain ⟨p0, h0, p2, h2, p4, h4, p6, h6, hpairs⟩ := exists_pairs (highByte_lt u)
  have hpads : padPairs u = [p0, p2, p4, p6] := by
    have hall : padAt u 0 = p0 ∧ padAt u 2 = p2 ∧ padAt u 4 = p4 ∧ padAt u 6 = p6 := by
      rw [padAt_eq, padAt_eq, padAt_eq, padAt_eq, hpairs]
      refine ⟨?_, ?_, ?_, ?_⟩ <;> omega
    simp only [padPairs, List.map_cons, List.map_nil, hall]
  rw [hbyte, hpads, hpairs, mirrorByte_eq h0 h2 h4 h6]
  simp only [List.reverse_cons, List.reverse_nil, List.nil_append, List.cons_append,
    List.cons.injEq, and_true]
  omega

theorem publicIdToUuid_eq_mirror (u : UUID) (fmt : IdFormat) :
    ∃ id, uuidToPublicId u fmt = .ok id ∧ publicIdToUuid id fmt = .ok (mirror u) := by
  obtain ⟨id, hid, hparse⟩ := publicIdToUuid_emitted u fmt
  refine ⟨id, hid, ?_⟩
  have hbyte : padAt u 0 * 64 + padAt u 2 * 16 + padAt u 4 * 4 + padAt u 6 =
      mirrorByte (highByte u) := by
    simp only [padAt_eq, mirrorByte]
    omega
  rw [hparse, hbyte, (ofBytesLe_highByte u).2, mirror,
    UInt8.toNat_ofNat_of_lt' (mirrorByte_lt (highByte u))]

theorem uuidToPublicId_injective {u v : UUID} {fmt : IdFormat}
    (h : uuidToPublicId u fmt = uuidToPublicId v fmt) : u = v := by
  obtain ⟨id, hid, hu⟩ := publicIdToUuid_eq_mirror u fmt
  obtain ⟨id', hid', hv⟩ := publicIdToUuid_eq_mirror v fmt
  rw [hid, hid', Except.ok.injEq] at h
  rw [h, hv, Except.ok.injEq] at hu
  rw [← mirror_mirror u, ← hu, mirror_mirror]

end Mirror

section Series

/-- The id that so many calls lead to. -/
def nthId (nodeId : ℕ) (fmt : IdFormat) (start : List Char) : ℕ → Except Failure (List Char)
  | 0 => .ok start
  | calls + 1 => do getNextId nodeId (← nthId nodeId fmt start calls) fmt

/-- What a series of ids that starts with the one of `u` should be. -/
structure IsSeries (nodeId : ℕ) (fmt : IdFormat) (u : UUID) (start : List Char) : Prop where
  encodes : ∀ k ≤ 4095, nthId nodeId fmt start k = uuidToPublicId (atClockSeq u k) fmt
  distinct : ∀ j ≤ 4095, ∀ k ≤ 4095, nthId nodeId fmt start j = nthId nodeId fmt start k → j = k
  ends : ∃ failure, nthId nodeId fmt start 4096 = .error failure

variable {nodeId : ℕ} {fmt : IdFormat} {u : UUID} {start : List Char}

/-- One call: the UUID is mirrored and its clock sequence goes up. -/
theorem getNextId_eq {id : List Char} (hid : uuidToPublicId u fmt = .ok id)
    (hnode : node u = nodeId) :
    getNextId nodeId id fmt = if 0xfff ≤ clockSeq u then .error (.seriesExhausted (mirror u))
      else uuidToPublicId (atClockSeq (mirror u) (clockSeq u + 1)) fmt := by
  obtain ⟨id', hid', hparse⟩ := publicIdToUuid_eq_mirror u fmt
  rw [hid, Except.ok.injEq] at hid'
  subst hid'
  have hseq : clockSeq (mirror u) = clockSeq u := by
    simp only [clockSeq_eq, mirror, setHighByte]
    omega
  rw [getNextId, nextPublicId]
  refine (bind_of_ok hparse).trans ?_
  rw [node_mirror, hseq, if_neg (not_not.mpr hnode)]
  split_ifs with hend hlow
  · rfl
  · have hfields := ofFields_next (mirror u) (by omega)
    rw [if_pos hlow, hseq, node_mirror] at hfields
    exact bind_of_ok hfields
  · have hfields := ofFields_next (mirror u) (by omega)
    rw [if_neg hlow, hseq, node_mirror] at hfields
    exact bind_of_ok hfields

/-- The ids of a series are those of the UUID and of its mirror image in turn. -/
theorem nthId_eq (hstart : uuidToPublicId u fmt = .ok start) (hnode : node u = nodeId)
    (hseq : clockSeq u = 0) {k : ℕ} (hk : k ≤ 4095) :
    nthId nodeId fmt start k = uuidToPublicId (atClockSeq (mirror^[k] u) k) fmt := by
  induction k with
  | zero =>
    have hzero := atClockSeq_clockSeq u
    rw [hseq] at hzero
    rw [nthId, Function.iterate_zero_apply, hzero, hstart]
  | succ k ih =>
    have hnodes (j : ℕ) : node (mirror^[j] u) = node u := by
      induction j with
      | zero => rfl
      | succ j ihj => rw [Function.iterate_succ_apply', node_mirror, ihj]
    obtain ⟨id, hid, -⟩ := publicIdToUuid_eq_mirror (atClockSeq (mirror^[k] u) k) fmt
    have hlatest := (ih (by omega)).trans hid
    have hclock := clockSeq_atClockSeq (mirror^[k] u) (show k < 2 ^ 14 by omega)
    rw [nthId]
    refine (bind_of_ok hlatest).trans ?_
    rw [getNextId_eq hid (by rw [node_atClockSeq, hnodes, hnode]), hclock, if_neg (by omega),
      mirror_atClockSeq, atClockSeq_atClockSeq, Function.iterate_succ_apply']

theorem mirror_of_isSeries (hstart : uuidToPublicId u fmt = .ok start) (hnode : node u = nodeId)
    (hseq : clockSeq u = 0) (h : IsSeries nodeId fmt u start) : mirror u = u := by
  have hfirst := nthId_eq hstart hnode hseq (show 1 ≤ 4095 by decide)
  have hone := uuidToPublicId_injective (hfirst.symm.trans (h.encodes 1 (by decide)))
  have hback := congrArg (atClockSeq · 0) hone
  simp only [atClockSeq_atClockSeq, Function.iterate_one] at hback
  rw [← mirror_atClockSeq, ← hseq, atClockSeq_clockSeq] at hback
  exact hback

theorem isSeries_of_mirror (hstart : uuidToPublicId u fmt = .ok start) (hnode : node u = nodeId)
    (hseq : clockSeq u = 0) (hmirror : mirror u = u) : IsSeries nodeId fmt u start := by
  have hencodes : ∀ k ≤ 4095, nthId nodeId fmt start k = uuidToPublicId (atClockSeq u k) fmt := by
    intro k hk
    rw [nthId_eq hstart hnode hseq hk, Function.iterate_fixed hmirror]
  refine ⟨hencodes, ?_, ?_⟩
  · intro j hj k hk h
    rw [hencodes j hj, hencodes k hk] at h
    have hclock := congrArg clockSeq (uuidToPublicId_injective h)
    rwa [clockSeq_atClockSeq u (by omega), clockSeq_atClockSeq u (by omega)] at hclock
  · obtain ⟨id, hid, -⟩ := publicIdToUuid_eq_mirror (atClockSeq u 4095) fmt
    have hlast := (hencodes 4095 le_rfl).trans hid
    refine ⟨.seriesExhausted (mirror (atClockSeq u 4095)), ?_⟩
    rw [nthId]
    refine (bind_of_ok hlast).trans ?_
    rw [getNextId_eq hid (by rw [node_atClockSeq, hnode]), clockSeq_atClockSeq u (by decide),
      if_pos (by decide)]

/-- A series is what it should be exactly when the bit pairs of its first UUID are mirrored. -/
theorem isSeries_iff (nodeId : ℕ) (fmt : IdFormat) (u : UUID) (hnode : node u = nodeId)
    (hseq : clockSeq u = 0) : ∃ start, uuidToPublicId u fmt = .ok start ∧
      (IsSeries nodeId fmt u start ↔ (padPairs u).reverse = padPairs u) := by
  obtain ⟨start, hstart, -⟩ := publicIdToUuid_eq_mirror u fmt
  refine ⟨start, hstart, ?_⟩
  rw [← mirror_eq_iff]
  exact ⟨mirror_of_isSeries hstart hnode hseq, isSeries_of_mirror hstart hnode hseq⟩

/-- The version-1 UUID of node 1 at the given time, whose clock sequence is 0. -/
def uuidAt (timeMid : ℕ) (h : timeMid < 2 ^ 16) : UUID :=
  ⟨timeMid * 2 ^ 80 + 2 ^ 76 + 2 ^ 63 + 1, by omega⟩

theorem isSeries_early : ∃ start, uuidToPublicId (uuidAt 0 (by decide)) .path = .ok start ∧
    IsSeries 1 .path (uuidAt 0 (by decide)) start := by
  obtain ⟨start, hstart, hiff⟩ :=
    isSeries_iff 1 .path (uuidAt 0 (by decide)) (by decide) (by decide)
  exact ⟨start, hstart, hiff.mpr (by decide +kernel)⟩

/-- From a time whose high byte is 1 the first call leads to an id of another time. -/
theorem not_isSeries : IsVersion1 (uuidAt 256 (by decide)) ∧ node (uuidAt 256 (by decide)) = 1 ∧
    clockSeq (uuidAt 256 (by decide)) = 0 ∧
    ∀ start, uuidToPublicId (uuidAt 256 (by decide)) .path = .ok start →
      ¬IsSeries 1 .path (uuidAt 256 (by decide)) start := by
  refine ⟨by decide, by decide, by decide, fun start hstart h => ?_⟩
  have hmirror := (mirror_eq_iff _).mp (mirror_of_isSeries hstart (by decide) (by decide) h)
  revert hmirror
  decide +kernel

end Series

end RandomArt.UniqueIds
