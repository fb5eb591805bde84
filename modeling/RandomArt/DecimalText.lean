import Mathlib.Data.List.TakeWhile
import Mathlib.Data.Int.Basic

/-!
# Decimal integers in text

Printing a natural number in base ten and the lenient parser that reads an
optional sign and the longest run of digits, after blanks and before anything else.
-/

namespace RandomArt.DecimalText

/-- White space and line terminators, which parsing skips on the left. -/
def isBlank (c : Char) : Bool :=
  c.toNat ∈ [9, 10, 11, 12, 13, 32, 0xA0, 0x1680, 0x2028, 0x2029, 0x202F, 0x205F, 0x3000, 0xFEFF] ||
    (0x2000 ≤ c.toNat && c.toNat ≤ 0x200A)

/-- Base-ten digits of a natural number. -/
def print (n : ℕ) : List Char := Nat.toDigits 10 n

/-- The sign and the rest of a number's text. -/
def splitSign : List Char → Bool × List Char
  | '-' :: rest => (true, rest)
  | '+' :: rest => (false, rest)
  | rest => (false, rest)

/-- The integer at the start of a text; none where there is no digit. -/
def parseInt (text : List Char) : Option ℤ :=
  let signed := splitSign (text.dropWhile isBlank)
  let digits := signed.2.takeWhile Char.isDigit
  if digits = [] then none
  else
    let value : ℤ := Nat.ofDigitChars 10 digits 0
    some (if signed.1 then -value else value)

theorem isDigit_of_mem_print {n : ℕ} {c : Char} (h : c ∈ print n) : c.isDigit :=
  Nat.isDigit_of_mem_toDigits (by decide) (by decide) h

theorem value_print (n : ℕ) : Nat.ofDigitChars 10 (print n) 0 = n :=
  Nat.ofDigitChars_toDigits (by decide) (by decide)

theorem print_inj {m n : ℕ} : print m = print n ↔ m = n := by
  refine ⟨fun h => ?_, congrArg print⟩
  rw [← value_print m, h, value_print]

theorem print_ne_nil (n : ℕ) : print n ≠ [] := Nat.toDigits_ne_nil

theorem print_digit {d : ℕ} (h : d < 10) : print d = [d.digitChar] := Nat.toDigits_of_lt_base h

theorem notMem_print {c : Char} (hc : c.isDigit = false) (n : ℕ) : c ∉ print n := by
  intro h
  rw [isDigit_of_mem_print h] at hc
  cases hc

theorem digit_range {c : Char} (h : c.isDigit) : 48 ≤ c.toNat ∧ c.toNat ≤ 57 := by
  simpa [Char.isDigit, UInt32.le_iff_toNat_le] using h

theorem isBlank_eq_false_of_isDigit {c : Char} (h : c.isDigit) : isBlank c = false := by
  have := digit_range h
  simp only [isBlank, List.mem_cons, List.not_mem_nil, or_false, Bool.or_eq_false_iff,
    decide_eq_false_iff_not, Bool.and_eq_false_iff]
  omega

theorem splitSign_of_isDigit {c : Char} {cs : List Char} (h : c.isDigit) :
    splitSign (c :: cs) = (false, c :: cs) := by
  unfold splitSign
  split
  · next heq =>
    obtain ⟨rfl, -⟩ := List.cons.inj heq
    exact absurd h (by decide)
  · next heq =>
    obtain ⟨rfl, -⟩ := List.cons.inj heq
    exact absurd h (by decide)
  · rfl

/-- The parser reads a printed number exactly. -/
@[simp] theorem parseInt_print (n : ℕ) : parseInt (print n) = some (n : ℤ) := by
  have hne := print_ne_nil n
  obtain ⟨c, cs, hcons⟩ := List.exists_cons_of_ne_nil hne
  have hc : c.isDigit := isDigit_of_mem_print (hcons ▸ List.mem_cons_self)
  have hblank : (print n).dropWhile isBlank = print n := by
    rw [hcons, List.dropWhile_cons_of_neg (by simp [isBlank_eq_false_of_isDigit hc])]
  have hsign : splitSign (print n) = (false, print n) := by
    rw [hcons]
    exact splitSign_of_isDigit hc
  have htake : (print n).takeWhile Char.isDigit = print n :=
    List.takeWhile_eq_self_iff.mpr (fun x hx => isDigit_of_mem_print hx)
  simp [parseInt, hblank, hsign, htake, hne, value_print]

end RandomArt.DecimalText
