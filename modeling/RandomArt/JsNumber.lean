import RandomArt.DecimalText
import Mathlib.Data.Rat.Defs
import Mathlib.Data.Rat.Floor
import Mathlib.Algebra.Order.Field.Rat

/-!
# Numbers and their text

The number type of the host language in exact arithmetic: rationals, the two
infinities and NaN. `ofText` is the whole-string conversion, which accepts blanks
around a literal, an empty text, exponents and radix prefixes; `toText` is the
decimal text of a number.
-/

namespace RandomArt

inductive JsNumber where
  | nan
  | infinity (negative : Bool)
  | finite (q : ℚ)
  deriving DecidableEq

namespace JsNumber
open DecimalText

def isNaN : JsNumber → Bool
  | nan => true
  | _ => false

/-- The comparison `a >= b`, false as soon as one side is NaN. -/
def ge : JsNumber → JsNumber → Bool
  | nan, _ => false
  | _, nan => false
  | infinity false, _ => true
  | _, infinity true => true
  | infinity true, _ => false
  | _, infinity false => false
  | finite p, finite q => decide (q ≤ p)

/-- The arithmetic operators. There is only one zero. -/
def sub : JsNumber → JsNumber → JsNumber
  | finite p, finite q => finite (p - q)
  | nan, _ | _, nan => nan
  | infinity a, infinity b => if a = b then nan else infinity a
  | infinity a, finite _ => infinity a
  | finite _, infinity b => infinity !b

def mul : JsNumber → JsNumber → JsNumber
  | finite p, finite q => finite (p * q)
  | nan, _ | _, nan => nan
  | infinity a, infinity b => infinity (a != b)
  | infinity a, finite q | finite q, infinity a => if q = 0 then nan else infinity (a != (q < 0))

def div : JsNumber → JsNumber → JsNumber
  | finite p, finite q =>
    if q ≠ 0 then finite (p / q) else if p = 0 then nan else infinity (p < 0)
  | nan, _ | _, nan => nan
  | infinity _, infinity _ => nan
  | infinity a, finite q => infinity (a != (q < 0))
  | finite _, infinity _ => finite 0

def toInt : JsNumber → Option ℤ
  | finite q => if q.den = 1 then some q.num else none
  | _ => none

theorem toInt_eq_some_iff {x : JsNumber} {n : ℤ} : x.toInt = some n ↔ x = finite n := by
  cases x with
  | nan => simp [toInt]
  | infinity _ => simp [toInt]
  | finite q =>
    rw [toInt, finite.injEq]
    constructor
    · intro h
      split_ifs at h with hden
      · rw [← Option.some_inj.mp h, Rat.den_eq_one_iff q |>.mp hden]
    · rintro rfl
      simp

def trim (text : List Char) : List Char :=
  ((text.dropWhile isBlank).reverse.dropWhile isBlank).reverse

def digitValue (c : Char) : Option ℕ :=
  if c.isDigit then some (c.toNat - 48)
  else if 'a' ≤ c ∧ c ≤ 'f' then some (c.toNat - 87)
  else if 'A' ≤ c ∧ c ≤ 'F' then some (c.toNat - 55)
  else none

def radixLiteral (base : ℕ) (digits : List Char) : JsNumber :=
  let values := digits.map digitValue
  if digits = [] ∨ values.any (fun v => v.all (base ≤ ·)) then nan
  else finite (values.foldl (fun acc v => acc * base + v.getD 0) 0 : ℕ)

/-- The exponent part of a decimal literal: nothing, or a signed run of digits to the end. -/
def exponentPart : List Char → Option ℤ
  | [] => some 0
  | c :: rest =>
    if c = 'e' ∨ c = 'E' then
      let signed := splitSign rest
      if signed.2 ≠ [] ∧ signed.2.all Char.isDigit then
        let value : ℤ := Nat.ofDigitChars 10 signed.2 0
        some (if signed.1 then -value else value)
      else none
    else none

/-- The digits after a decimal point and what follows them. -/
def fractionPart : List Char → List Char × List Char
  | '.' :: rest => (rest.takeWhile Char.isDigit, rest.dropWhile Char.isDigit)
  | rest => ([], rest)

def unsignedDecimal (text : List Char) : Option ℚ :=
  let whole := text.takeWhile Char.isDigit
  let fraction := fractionPart (text.dropWhile Char.isDigit)
  if whole ++ fraction.1 = [] then none
  else
    (exponentPart fraction.2).map fun e =>
      (Nat.ofDigitChars 10 (whole ++ fraction.1) 0 : ℚ) * (10 : ℚ) ^ (e - (fraction.1.length : ℤ))

def decimalLiteral (text : List Char) : JsNumber :=
  let signed := splitSign text
  if signed.2 = "Infinity".toList then infinity signed.1
  else
    match unsignedDecimal signed.2 with
    | none => nan
    | some q => finite (if signed.1 then -q else q)

/-- Conversion of a whole text to a number. -/
def ofText (text : List Char) : JsNumber :=
  match trim text with
  | [] => finite 0
  | '0' :: 'x' :: digits | '0' :: 'X' :: digits => radixLiteral 16 digits
  | '0' :: 'o' :: digits | '0' :: 'O' :: digits => radixLiteral 8 digits
  | '0' :: 'b' :: digits | '0' :: 'B' :: digits => radixLiteral 2 digits
  | literal => decimalLiteral literal

def exponentText (mantissa : List Char) (sign : Char) (e : ℕ) : List Char :=
  let lead := match mantissa with
    | d :: d' :: ds => d :: '.' :: d' :: ds
    | ds => ds
  lead ++ 'e' :: sign :: print e

def natText (n : ℕ) : List Char :=
  let digits := print n
  if digits.length ≤ 21 then digits
  else exponentText (digits.reverse.dropWhile (· = '0')).reverse '+' (digits.length - 1)

/-- Decimal digits of `r / den` after the point, as long as they do not end. -/
def fractionDigits (den : ℕ) : ℕ → ℕ → List Char
  | 0, _ => []
  | fuel + 1, r =>
    if r = 0 then [] else Nat.digitChar (10 * r / den) :: fractionDigits den fuel (10 * r % den)

/-- Text of a non-negative number with a finite decimal expansion. -/
def positiveText (q : ℚ) : List Char :=
  let num := q.num.natAbs
  if q.den = 1 then natText num
  else
    let digits := fractionDigits q.den q.den (num % q.den)
    let zeros := (digits.takeWhile (· = '0')).length
    if num < q.den ∧ 6 ≤ zeros then exponentText (digits.drop zeros) '-' (zeros + 1)
    else print (num / q.den) ++ '.' :: digits

def toText : JsNumber → List Char
  | nan => "NaN".toList
  | infinity negative => (if negative then ['-'] else []) ++ "Infinity".toList
  | finite q => (if q < 0 then ['-'] else []) ++ positiveText |q|

end JsNumber

end RandomArt
