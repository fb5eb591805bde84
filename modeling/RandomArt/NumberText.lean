import RandomArt.JsNumber
import Mathlib.Tactic.Ring

/-!
# Natural numbers in text

Natural numbers read back from their text. From `10 ^ 21` on the text is a mantissa
and an exponent, with a point unless the mantissa is a single digit.
-/

namespace RandomArt.JsNumber
open DecimalText

theorem dropWhile_of_forall {p : Char → Bool} {text : List Char}
    (h : ∀ c ∈ text, p c = false) : text.dropWhile p = text := by
  cases text with
  | nil => rfl
  | cons c rest => rw [List.dropWhile_cons_of_neg (by simp [h c List.mem_cons_self])]

/-- Conversion of a text that starts with a digit, has no blanks and no radix prefix. -/
private theorem ofText_of_isDigit {c : Char} {rest : List Char} (hc : c.isDigit)
    (hblank : ∀ x ∈ c :: rest, isBlank x = false)
    (hradix : ∀ x ∈ rest.head?, x ∉ ['x', 'X', 'o', 'O', 'b', 'B']) :
    ofText (c :: rest) = (unsignedDecimal (c :: rest)).elim nan finite := by
  have htrim : trim (c :: rest) = c :: rest := by
    rw [trim, dropWhile_of_forall hblank, dropWhile_of_forall, List.reverse_reverse]
    intro x hx
    exact hblank x (List.mem_reverse.mp hx)
  have hinfinity : c :: rest ≠ "Infinity".toList := by
    intro h
    obtain ⟨rfl, -⟩ := List.cons.inj h
    exact absurd hc (by decide)
  have hliteral : decimalLiteral (c :: rest) = (unsignedDecimal (c :: rest)).elim nan finite := by
    rw [decimalLiteral, splitSign_of_isDigit hc]
    simp only [if_neg hinfinity]
    cases unsignedDecimal (c :: rest) <;> rfl
  rw [ofText, htrim]
  rw [← hliteral]
  split
  all_goals first | rfl | (next h => simp_all)

theorem toText_natCast (n : ℕ) : toText (finite n) = natText n := by
  have habs : |(n : ℚ)| = n := abs_of_nonneg (Nat.cast_nonneg n)
  simp [toText, positiveText, habs]

theorem takeWhile_of_forall {p : Char → Bool} {text : List Char}
    (h : ∀ c ∈ text, p c) (rest : List Char) (hrest : ∀ c ∈ rest.head?, p c = false) :
    (text ++ rest).takeWhile p = text ∧ (text ++ rest).dropWhile p = rest := by
  rw [List.takeWhile_append_of_pos h, List.dropWhile_append_of_pos h]
  cases rest with
  | nil => simp
  | cons c rest => simp [hrest c rfl]

private theorem unsignedDecimal_whole {digits : List Char} (hdigits : ∀ c ∈ digits, c.isDigit)
    (hne : digits ≠ []) : unsignedDecimal digits = some (Nat.ofDigitChars 10 digits 0 : ℚ) := by
  obtain ⟨htake, hdrop⟩ := takeWhile_of_forall hdigits [] (by simp)
  rw [List.append_nil] at htake hdrop
  simp [unsignedDecimal, htake, hdrop, fractionPart, exponentPart, hne]

private theorem exponentPart_print (e : ℕ) :
    exponentPart ('e' :: '+' :: print e) = some (e : ℤ) := by
  have hne := print_ne_nil e
  have hdigits : (print e).all Char.isDigit :=
    List.all_eq_true.mpr fun c hc => isDigit_of_mem_print hc
  simp [exponentPart, splitSign, hne, hdigits, value_print]

/-- The digits of a number, apart from the zeros at their end. -/
private def mantissa (n : ℕ) : List Char := ((print n).reverse.dropWhile (· = '0')).reverse

private theorem exists_print_eq (n : ℕ) :
    ∃ zeros, print n = mantissa n ++ List.replicate zeros '0' := by
  refine ⟨((print n).reverse.takeWhile (· = '0')).length, ?_⟩
  have hzeros : (print n).reverse.takeWhile (· = '0') =
      List.replicate ((print n).reverse.takeWhile (· = '0')).length '0' := by
    rw [List.eq_replicate_iff]
    refine ⟨rfl, fun c hc => ?_⟩
    simpa using List.mem_takeWhile_imp hc
  rw [← List.reverse_replicate, ← hzeros, mantissa, ← List.reverse_append,
    List.takeWhile_append_dropWhile, List.reverse_reverse]

private theorem value_mantissa {n zeros : ℕ}
    (h : print n = mantissa n ++ List.replicate zeros '0') :
    n = Nat.ofDigitChars 10 (mantissa n) 0 * 10 ^ zeros := by
  have hvalue := value_print n
  rw [h, Nat.ofDigitChars_append, Nat.ofDigitChars_replicate_zero] at hvalue
  rw [mul_comm]
  exact hvalue.symm

private theorem unsignedDecimal_exponentText {digits : List Char} (e : ℕ)
    (hdigits : ∀ c ∈ digits, c.isDigit) (hne : digits ≠ []) :
    unsignedDecimal (exponentText digits '+' e) =
      some ((Nat.ofDigitChars 10 digits 0 : ℚ) *
        (10 : ℚ) ^ ((e : ℤ) - (digits.length - 1 : ℕ))) := by
  obtain _ | ⟨c, _ | ⟨d, ds⟩⟩ := digits
  · exact absurd rfl hne
  · obtain ⟨htake, hdrop⟩ := takeWhile_of_forall hdigits ('e' :: '+' :: print e) (by simp)
    simp only [List.cons_append, List.nil_append] at htake hdrop
    simp [unsignedDecimal, exponentText, htake, hdrop, fractionPart, exponentPart_print]
  · obtain ⟨hwhole, hpoint⟩ := @takeWhile_of_forall Char.isDigit [c] (by simp_all)
      ('.' :: d :: ds ++ 'e' :: '+' :: print e) (by simp)
    obtain ⟨hfraction, hexponent⟩ := @takeWhile_of_forall Char.isDigit (d :: ds) (by simp_all)
      ('e' :: '+' :: print e) (by simp)
    simp only [List.cons_append, List.nil_append] at hwhole hpoint hfraction hexponent
    simp [unsignedDecimal, exponentText, hwhole, hpoint, fractionPart, hfraction, hexponent,
      exponentPart_print]

private theorem isBlank_exponentText {digits : List Char} (e : ℕ)
    (hdigits : ∀ c ∈ digits, c.isDigit) {x : Char} (hx : x ∈ exponentText digits '+' e) :
    isBlank x = false := by
  have hcases : x.isDigit ∨ x = '.' ∨ x = 'e' ∨ x = '+' := by
    have hexponent : ∀ c ∈ print e, c.isDigit := fun c hc => isDigit_of_mem_print hc
    obtain _ | ⟨c, _ | ⟨d, ds⟩⟩ := digits <;>
      simp only [exponentText, List.cons_append, List.nil_append, List.mem_cons,
        List.mem_append] at hx <;> grind
  rcases hcases with h | rfl | rfl | rfl
  · exact isBlank_eq_false_of_isDigit h
  all_goals decide

private theorem isDigit_ne_radix {x : Char} (h : x.isDigit) :
    x ∉ ['x', 'X', 'o', 'O', 'b', 'B'] := by
  intro hx
  simp only [List.mem_cons, List.not_mem_nil, or_false] at hx
  rcases hx with rfl | rfl | rfl | rfl | rfl | rfl <;> exact absurd h (by decide)

theorem ofText_print (n : ℕ) : ofText (print n) = finite n := by
  have hdigits : ∀ c ∈ print n, c.isDigit := fun c hc => isDigit_of_mem_print hc
  obtain ⟨c, rest, hcons⟩ : ∃ c rest, print n = c :: rest :=
    List.exists_cons_of_ne_nil (print_ne_nil n)
  have hvalue := value_print n
  rw [hcons] at hdigits hvalue ⊢
  rw [ofText_of_isDigit (hdigits c List.mem_cons_self)
    (fun x hx => isBlank_eq_false_of_isDigit (hdigits x hx)),
    unsignedDecimal_whole hdigits (by simp), hvalue]
  · rfl
  · intro x hx
    exact isDigit_ne_radix (hdigits x (List.mem_cons_of_mem c (List.mem_of_mem_head? hx)))

private theorem ofText_exponentText {digits : List Char} (e : ℕ)
    (hdigits : ∀ c ∈ digits, c.isDigit) (hne : digits ≠ []) :
    ofText (exponentText digits '+' e) =
      finite ((Nat.ofDigitChars 10 digits 0 : ℚ) *
        (10 : ℚ) ^ ((e : ℤ) - (digits.length - 1 : ℕ))) := by
  have hblank := fun x hx => @isBlank_exponentText digits e hdigits x hx
  have hvalue := unsignedDecimal_exponentText e hdigits hne
  obtain ⟨c, ds, rfl⟩ := List.exists_cons_of_ne_nil hne
  obtain ⟨rest, hrest, hhead⟩ : ∃ rest, exponentText (c :: ds) '+' e = c :: rest ∧
      ∀ x ∈ rest.head?, x ∉ ['x', 'X', 'o', 'O', 'b', 'B'] := by
    cases ds with
    | nil => exact ⟨_, rfl, by simp⟩
    | cons d ds => exact ⟨_, rfl, by simp⟩
  rw [hrest] at hblank hvalue ⊢
  rw [ofText_of_isDigit (hdigits c List.mem_cons_self) hblank hhead, hvalue]
  rfl

/-- A natural number is read back from its text. -/
theorem ofText_natText (n : ℕ) : ofText (natText n) = finite n := by
  rw [natText]
  split
  · exact ofText_print n
  · next hlength =>
    obtain ⟨zeros, hprint⟩ := exists_print_eq n
    have hdigits : ∀ c ∈ mantissa n, c.isDigit := by
      intro c hc
      apply @isDigit_of_mem_print n
      rw [hprint]
      exact List.mem_append_left _ hc
    have hn : n = Nat.ofDigitChars 10 (mantissa n) 0 * 10 ^ zeros := value_mantissa hprint
    have hne : mantissa n ≠ [] := by
      intro h
      rw [h, Nat.ofDigitChars_nil, zero_mul] at hn
      rw [hn] at hlength
      exact hlength (by decide)
    have hpos := List.length_pos_iff.mpr hne
    have hlen : (print n).length = (mantissa n).length + zeros := by
      rw [hprint, List.length_append, List.length_replicate]
    have hexponent : (((print n).length - 1 : ℕ) : ℤ) - ((mantissa n).length - 1 : ℕ) = zeros := by
      omega
    have h := ofText_exponentText ((print n).length - 1) hdigits hne
    rw [hexponent, zpow_natCast] at h
    rw [show ((print n).reverse.dropWhile (· = '0')).reverse = mantissa n from rfl, h]
    congr 1
    exact_mod_cast hn.symm

/-- Numbers whose text has no point: below `10 ^ 21`, or of one significant digit. -/
def WrittenWhole (n : ℕ) : Prop := n < 10 ^ 21 ∨ ∃ d k, d < 10 ∧ n = d * 10 ^ k

theorem point_notMem_print (n : ℕ) : '.' ∉ print n := notMem_print rfl n

theorem length_print_le (n : ℕ) : (print n).length ≤ 21 ↔ n < 10 ^ 21 :=
  Nat.length_toDigits_le_iff (by decide) (by decide)

private theorem print_mul_pow {m : ℕ} (hm : 0 < m) (k : ℕ) :
    print (m * 10 ^ k) = print m ++ List.replicate k '0' := by
  induction k with
  | zero => simp
  | succ k ih =>
    have hpos : 0 < m * 10 ^ k := Nat.mul_pos hm (Nat.pow_pos (by decide))
    have hstep : Nat.toDigits 10 (m * 10 ^ k) ++ Nat.toDigits 10 0 =
        Nat.toDigits 10 (10 * (m * 10 ^ k) + 0) :=
      Nat.toDigits_append_toDigits (by decide) hpos (by decide)
    have hmul : m * 10 ^ (k + 1) = 10 * (m * 10 ^ k) + 0 := by ring
    rw [hmul, print, ← hstep, Nat.toDigits_zero, ← print, ih, List.append_assoc,
      ← List.replicate_succ']

private theorem mantissa_mul_pow {d : ℕ} (hd : d < 10) (hpos : 0 < d) (k : ℕ) :
    mantissa (d * 10 ^ k) = [d.digitChar] := by
  have hzero : d.digitChar ≠ '0' := by
    revert d
    decide
  rw [mantissa, print_mul_pow hpos, print_digit hd, List.reverse_append,
    List.reverse_replicate, List.dropWhile_append_of_pos]
  · simp [hzero]
  · intro c hc
    simp [List.eq_of_mem_replicate hc]

/-- The text of a natural number has a point exactly when it is not written whole. -/
theorem point_notMem_natText (n : ℕ) : '.' ∉ natText n ↔ WrittenWhole n := by
  have hunfold : natText n = if (print n).length ≤ 21 then print n
      else exponentText (mantissa n) '+' ((print n).length - 1) := rfl
  rw [hunfold]
  by_cases hlength : (print n).length ≤ 21
  · rw [if_pos hlength]
    exact iff_of_true (point_notMem_print n) (Or.inl ((length_print_le n).mp hlength))
  · rw [if_neg hlength]
    have hlarge : ¬n < 10 ^ 21 := fun h => hlength ((length_print_le n).mpr h)
    obtain ⟨zeros, hprint⟩ := exists_print_eq n
    have hn := value_mantissa hprint
    constructor
    · intro hpoint
      rcases hm : mantissa n with _ | ⟨c, _ | ⟨d, ds⟩⟩
      · rw [hm, Nat.ofDigitChars_nil, zero_mul] at hn
        omega
      · have hc : c.isDigit := isDigit_of_mem_print (n := n) (by simp [hprint, hm])
        refine Or.inr ⟨c.toNat - 48, zeros, ?_, ?_⟩
        · have := digit_range hc
          omega
        · rw [hm] at hn
          simpa [Nat.ofDigitChars_cons] using hn
      · exact absurd (by simp [hm, exponentText]) hpoint
    · intro hwhole
      obtain ⟨d, k, hd, rfl⟩ := hwhole.resolve_left hlarge
      have hpos : 0 < d := Nat.pos_of_ne_zero fun h => hlarge (by simp [h])
      rw [mantissa_mul_pow hd hpos]
      simp [exponentText, point_notMem_print]

end RandomArt.JsNumber
