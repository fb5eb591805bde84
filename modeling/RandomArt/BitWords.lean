import Mathlib.Data.Nat.Bitwise
import Mathlib.Tactic.Ring
import Mathlib.Tactic.Linarith

/-!
# Regrouping streams of fixed-width words

A stream of `a`-bit words, written most significant bit first and padded with
zero bits to a whole number of `b`-bit words, can be read back as `a`-bit words.
Reading takes every whole word that is present, so the padding itself can add
words: `unpackWords_packWords` says how many, namely the padding divided by `a`.
-/

namespace RandomArt.BitWords

/-- The low `w` bits of a number, most significant first. -/
def wordBits : ℕ → ℕ → List Bool
  | 0, _ => []
  | w + 1, n => n.testBit w :: wordBits w n

/-- The number with the given bits, most significant first. -/
def ofBits : List Bool → ℕ
  | [] => 0
  | b :: bs => b.toNat * 2 ^ bs.length + ofBits bs

@[simp] theorem length_wordBits (w n : ℕ) : (wordBits w n).length = w := by
  induction w with
  | zero => rfl
  | succ w ih => simp [wordBits, ih]

theorem ofBits_wordBits (w n : ℕ) : ofBits (wordBits w n) = n % 2 ^ w := by
  induction w with
  | zero => simp [wordBits, ofBits, Nat.mod_one]
  | succ w ih =>
    rw [wordBits, ofBits, ih, length_wordBits, Nat.mod_pow_succ, Nat.toNat_testBit]
    ring

theorem ofBits_wordBits_of_lt {w n : ℕ} (h : n < 2 ^ w) : ofBits (wordBits w n) = n := by
  rw [ofBits_wordBits, Nat.mod_eq_of_lt h]

theorem ofBits_lt (bs : List Bool) : ofBits bs < 2 ^ bs.length := by
  induction bs with
  | nil => simp [ofBits]
  | cons b bs ih =>
    rw [ofBits, List.length_cons, pow_succ]
    cases b <;> simp <;> omega

theorem ofBits_append (bs cs : List Bool) :
    ofBits (bs ++ cs) = ofBits bs * 2 ^ cs.length + ofBits cs := by
  induction bs with
  | nil => simp [ofBits]
  | cons b bs ih =>
    rw [List.cons_append, ofBits, ofBits, ih, List.length_append, pow_add]
    ring

@[simp] theorem ofBits_replicate_false (n : ℕ) : ofBits (List.replicate n false) = 0 := by
  induction n with
  | zero => rfl
  | succ n ih => simp [List.replicate_succ, ofBits, ih]

private theorem wordBits_add_mul (w n k : ℕ) : wordBits w (k * 2 ^ w + n) = wordBits w n := by
  have low : ∀ v ≤ w, wordBits v (k * 2 ^ w + n) = wordBits v n := by
    intro v hv
    induction v with
    | zero => rfl
    | succ v ih =>
      have hbit : (k * 2 ^ w + n).testBit v = n.testBit v := by
        have hl := Nat.testBit_mod_two_pow (k * 2 ^ w + n) w v
        have hr := Nat.testBit_mod_two_pow n w v
        rw [Nat.add_comm, Nat.add_mul_mod_self_right, hr] at hl
        simpa [show v < w by omega, Nat.add_comm] using hl.symm
      rw [wordBits, wordBits, hbit, ih (by omega)]
  exact low w le_rfl

@[simp] theorem wordBits_ofBits (bs : List Bool) : wordBits bs.length (ofBits bs) = bs := by
  induction bs with
  | nil => rfl
  | cons b bs ih =>
    have htop : (ofBits (b :: bs)).testBit bs.length = b := by
      rw [ofBits, Nat.testBit_eq_decide_div_mod_eq, Nat.add_comm,
        Nat.add_mul_div_right _ _ (by positivity), Nat.div_eq_of_lt (ofBits_lt bs)]
      cases b <;> simp
    rw [List.length_cons, wordBits, htop, ofBits, wordBits_add_mul, ih]

/-- The bits of a stream of `w`-bit words. -/
def streamBits (w : ℕ) (ws : List ℕ) : List Bool := ws.flatMap (wordBits w)

@[simp] theorem streamBits_nil (w : ℕ) : streamBits w [] = [] := rfl

@[simp] theorem streamBits_cons (w x : ℕ) (xs : List ℕ) :
    streamBits w (x :: xs) = wordBits w x ++ streamBits w xs := rfl

@[simp] theorem length_streamBits (w : ℕ) (ws : List ℕ) :
    (streamBits w ws).length = w * ws.length := by
  induction ws with
  | nil => rfl
  | cons x xs ih => rw [streamBits_cons, List.length_append, ih, length_wordBits,
      List.length_cons]; ring

/-- The first `n` words of width `w` that a bit stream holds. -/
def readWords (w : ℕ) : ℕ → List Bool → List ℕ
  | 0, _ => []
  | n + 1, bs => ofBits (bs.take w) :: readWords w n (bs.drop w)

@[simp] theorem length_readWords (w n : ℕ) (bs : List Bool) : (readWords w n bs).length = n := by
  induction n generalizing bs with
  | zero => rfl
  | succ n ih => simp [readWords, ih]

theorem readWords_lt {w n : ℕ} {bits : List Bool} {x : ℕ} (hx : x ∈ readWords w n bits) :
    x < 2 ^ w := by
  induction n generalizing bits with
  | zero => cases hx
  | succ n ih =>
    rcases List.mem_cons.mp hx with rfl | hx
    · exact (ofBits_lt _).trans_le
        (Nat.pow_le_pow_right (by norm_num) (List.length_take_le _ _))
    · exact ih hx

/-- Words that fit their width are read back from a stream, whatever follows them. -/
theorem readWords_streamBits_append {w : ℕ} {ws : List ℕ} (h : ∀ x ∈ ws, x < 2 ^ w)
    (n : ℕ) (rest : List Bool) :
    readWords w (ws.length + n) (streamBits w ws ++ rest) = ws ++ readWords w n rest := by
  induction ws with
  | nil => simp
  | cons x xs ih =>
    have htake : (wordBits w x ++ (streamBits w xs ++ rest)).take w = wordBits w x := by
      simp
    have hdrop : (wordBits w x ++ (streamBits w xs ++ rest)).drop w =
        streamBits w xs ++ rest := by
      simp
    rw [List.length_cons, Nat.add_right_comm, readWords, streamBits_cons, List.append_assoc,
      htake, hdrop, ofBits_wordBits_of_lt (h x List.mem_cons_self),
      ih (fun y hy => h y (List.mem_cons_of_mem _ hy)), List.cons_append]

/-- Zero bits hold zero words. -/
theorem readWords_replicate_false {w n m : ℕ} (h : n * w ≤ m) :
    readWords w n (List.replicate m false) = List.replicate n 0 := by
  induction n generalizing m with
  | zero => rfl
  | succ n ih =>
    rw [Nat.succ_mul] at h
    simp only [readWords, List.take_replicate, ofBits_replicate_false, List.drop_replicate,
      List.replicate_succ]
    rw [ih (by omega)]

/-- Reading the words of a stream whose length is a whole number of words and
writing them again gives the same bits. -/
theorem streamBits_readWords {w n : ℕ} {bs : List Bool} (h : bs.length = n * w) :
    streamBits w (readWords w n bs) = bs := by
  induction n generalizing bs with
  | zero =>
    have : bs = [] := List.eq_nil_of_length_eq_zero (by simpa using h)
    simp [this, readWords]
  | succ n ih =>
    rw [Nat.succ_mul] at h
    have hlen : (bs.take w).length = w := by rw [List.length_take]; omega
    have hword : wordBits w (ofBits (bs.take w)) = bs.take w := by
      have := wordBits_ofBits (bs.take w)
      rwa [hlen] at this
    rw [readWords, streamBits_cons, hword, ih (by rw [List.length_drop]; omega),
      List.take_append_drop]

/-- The zero bits that complete `len` bits to a whole number of `b`-bit words. -/
def padding (b len : ℕ) : ℕ := (b - len % b) % b

theorem padding_lt {b : ℕ} (hb : 0 < b) (len : ℕ) : padding b len < b := Nat.mod_lt _ hb

theorem add_padding {b : ℕ} (hb : 0 < b) (len : ℕ) :
    len + padding b len = (len + b - 1) / b * b := by
  have hmod := Nat.mod_lt len hb
  have hdiv := Nat.div_add_mod len b
  rcases Nat.eq_zero_or_pos (len % b) with h0 | hpos
  · have hq : (len + b - 1) / b = len / b := by
      have he : len + b - 1 = (b - 1) + b * (len / b) := by omega
      rw [he, Nat.add_mul_div_left _ _ hb, Nat.div_eq_of_lt (by omega), Nat.zero_add]
    rw [padding, h0, Nat.sub_zero, Nat.mod_self, hq, Nat.mul_comm]
    omega
  · have hq : (len + b - 1) / b = len / b + 1 := by
      have he : len + b - 1 = (len % b - 1) + b * (len / b + 1) := by
        rw [Nat.mul_add]; omega
      rw [he, Nat.add_mul_div_left _ _ hb, Nat.div_eq_of_lt (by omega), Nat.zero_add]
    rw [padding, Nat.mod_eq_of_lt (by omega), hq, Nat.add_mul, Nat.mul_comm (len / b)]
    omega

/-- The bits of a stream of `a`-bit words, padded to a whole number of `b`-bit words. -/
def paddedBits (a b : ℕ) (ws : List ℕ) : List Bool :=
  streamBits a ws ++ List.replicate (padding b (a * ws.length)) false

/-- Regroup `a`-bit words as `b`-bit words, padding the last one with zero bits. -/
def packWords (a b : ℕ) (ws : List ℕ) : List ℕ :=
  readWords b ((a * ws.length + b - 1) / b) (paddedBits a b ws)

/-- Every whole `a`-bit word that a stream of `b`-bit words holds. -/
def unpackWords (a b : ℕ) (ws : List ℕ) : List ℕ :=
  readWords a (b * ws.length / a) (streamBits b ws)

/-- The words that reading finds in the padding after `n` words of width `a`. -/
def slack (a b n : ℕ) : ℕ := padding b (a * n) / a

@[simp] theorem length_packWords (a b : ℕ) (ws : List ℕ) :
    (packWords a b ws).length = (a * ws.length + b - 1) / b := length_readWords _ _ _

theorem packWords_lt {a b : ℕ} {ws : List ℕ} {x : ℕ} (hx : x ∈ packWords a b ws) :
    x < 2 ^ b := readWords_lt hx

theorem streamBits_packWords {a b : ℕ} (hb : 0 < b) (ws : List ℕ) :
    streamBits b (packWords a b ws) = paddedBits a b ws := by
  apply streamBits_readWords
  rw [paddedBits, List.length_append, List.length_replicate, length_streamBits, add_padding hb]

/-- Reading back a packed stream gives the words followed by the slack as zeros. -/
theorem unpackWords_packWords {a b : ℕ} (ha : 0 < a) (hb : 0 < b) {ws : List ℕ}
    (h : ∀ x ∈ ws, x < 2 ^ a) :
    unpackWords a b (packWords a b ws) = ws ++ List.replicate (slack a b ws.length) 0 := by
  have htotal : b * (packWords a b ws).length / a = ws.length + slack a b ws.length := by
    rw [length_packWords, Nat.mul_comm, ← add_padding hb, slack, Nat.mul_comm a,
      Nat.add_comm, Nat.add_mul_div_right _ _ ha, Nat.add_comm]
  rw [unpackWords, htotal, streamBits_packWords hb, paddedBits,
    readWords_streamBits_append h, readWords_replicate_false]
  exact Nat.div_mul_le_self _ _

theorem packWords_unpackWords {a b : ℕ} (ha : 0 < a) (hb : 0 < b) {ws : List ℕ}
    (h : ∀ x ∈ ws, x < 2 ^ b) (hwhole : a ∣ b * ws.length) :
    packWords a b (unpackWords a b ws) = ws := by
  obtain ⟨n, hn⟩ := hwhole
  have hcount : b * ws.length / a = n := by rw [hn, Nat.mul_div_cancel_left _ ha]
  have hbits : streamBits a (unpackWords a b ws) = streamBits b ws := by
    rw [unpackWords, hcount, streamBits_readWords]
    rw [length_streamBits, hn, Nat.mul_comm]
  have hlength : (unpackWords a b ws).length = n := by
    rw [unpackWords, length_readWords, hcount]
  have hpadding : padding b (a * n) = 0 := by
    rw [padding, ← hn, Nat.mul_mod_right, Nat.sub_zero, Nat.mod_self]
  have hquotient : (a * n + b - 1) / b = ws.length := by
    rw [← hn, Nat.add_sub_assoc hb, Nat.mul_add_div hb, Nat.div_eq_of_lt (by omega), Nat.add_zero]
  have hread := readWords_streamBits_append h 0 []
  rw [List.append_nil, Nat.add_zero, readWords, List.append_nil] at hread
  rw [packWords, paddedBits, hbits, hlength, hpadding, hquotient, List.replicate_zero,
    List.append_nil, hread]

theorem slack_eq_zero_of_le {a b : ℕ} (hb : 0 < b) (h : b ≤ a) (n : ℕ) : slack a b n = 0 :=
  Nat.div_eq_of_lt ((padding_lt hb _).trans_le h)

section Slices

/-- The bits of a number from position `k` on, `w` of them. -/
def slice (n k w : ℕ) : ℕ := n / 2 ^ k % 2 ^ w

theorem shiftRight_and (n k w : ℕ) : (n >>> k) &&& (2 ^ w - 1) = slice n k w := by
  rw [Nat.and_two_pow_sub_one_eq_mod, Nat.shiftRight_eq_div_pow, slice]

theorem slice_lt (n k w : ℕ) : slice n k w < 2 ^ w := Nat.mod_lt _ (Nat.two_pow_pos w)

theorem testBit_slice (n k w i : ℕ) :
    (slice n k w).testBit i = (decide (i < w) && n.testBit (k + i)) := by
  rw [slice, Nat.testBit_mod_two_pow, Nat.testBit_div_two_pow, Nat.add_comm]

theorem slice_eq_iff {n m k w : ℕ} :
    slice n k w = slice m k w ↔ ∀ i, k ≤ i → i < k + w → n.testBit i = m.testBit i := by
  constructor
  · intro h i hki hiw
    have hbit := congrArg (Nat.testBit · (i - k)) h
    simp only [testBit_slice, Nat.add_sub_cancel' hki] at hbit
    simpa [show i - k < w by omega] using hbit
  · intro h
    apply Nat.eq_of_testBit_eq
    intro i
    rw [testBit_slice, testBit_slice]
    by_cases hi : i < w
    · rw [h (k + i) (by omega) (by omega)]
    · simp [hi]

end Slices

section Bytes

theorem toNat_lt_of_mem {bytes : List UInt8} {x : ℕ} (hx : x ∈ bytes.map UInt8.toNat) :
    x < 2 ^ 8 := by
  obtain ⟨b, -, rfl⟩ := List.mem_map.mp hx
  exact b.toNat_lt

theorem map_toNat_ofNat {ws : List ℕ} (h : ∀ x ∈ ws, x < 2 ^ 8) :
    (ws.map UInt8.ofNat).map UInt8.toNat = ws := by
  rw [List.map_map]
  conv_rhs => rw [← List.map_id ws]
  apply List.map_congr_left
  intro x hx
  exact UInt8.toNat_ofNat_of_lt' (h x hx)

theorem map_ofNat_toNat (bytes : List UInt8) :
    (bytes.map UInt8.toNat).map UInt8.ofNat = bytes := by
  rw [List.map_map]
  exact (List.map_congr_left (fun b _ => UInt8.ofNat_toNat)).trans (List.map_id _)

end Bytes

end RandomArt.BitWords
