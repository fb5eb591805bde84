import RandomArt.NumberText
import Mathlib.Data.List.Induction
import Mathlib.Tactic.IntervalCases

/-!
# The grammar of numbers in text

Which texts are converted to a number, when there is no point in them, and which of these are the
canonical decimal texts of natural numbers.
-/

namespace RandomArt.JsNumber
open DecimalText

section Canonical

/-- Digits, of which the first is not a zero unless it is alone. -/
def IsCanonical (part : List Char) : Prop :=
  part ≠ [] ∧ (∀ c ∈ part, c.isDigit) ∧ (part.head? = some '0' → part = ['0'])

theorem digitChar_sub {c : Char} (h : c.isDigit) : (c.toNat - 48).digitChar = c := by
  obtain ⟨hlow, hhigh⟩ := digit_range h
  have hc : c = Char.ofNat c.toNat := (Char.ofNat_toNat c).symm
  rw [hc]
  generalize c.toNat = n at hlow hhigh
  interval_cases n <;> rfl

theorem print_append_digit {m d : ℕ} (hm : 0 < m) (hd : d < 10) :
    print m ++ [d.digitChar] = print (10 * m + d) := by
  rw [← print_digit hd]
  exact Nat.toDigits_append_toDigits (by decide) hm hd

theorem isCanonical_print (n : ℕ) : IsCanonical (print n) := by
  refine ⟨print_ne_nil n, fun c hc => isDigit_of_mem_print hc, ?_⟩
  induction n using Nat.strong_induction_on with
  | _ n ih =>
    by_cases hn : n < 10
    · rw [print_digit hn]
      simp
    · have hm : 0 < n / 10 := by omega
      have hprint : print n = print (n / 10) ++ [(n % 10).digitChar] := by
        rw [print_append_digit hm (by omega), Nat.div_add_mod]
      -- The first digit is that of the number without its last digit, which is not zero.
      rw [hprint, List.head?_append_of_ne_nil _ (print_ne_nil _)]
      intro hhead
      have hzero : n / 10 = 0 := print_inj.mp (ih (n / 10) (by omega) hhead)
      exact absurd hzero hm.ne'

/-- The canonical texts are those that are printed. -/
theorem isCanonical_iff {part : List Char} : IsCanonical part ↔ ∃ n, part = print n := by
  refine ⟨fun h => ?_, fun ⟨n, h⟩ => h ▸ isCanonical_print n⟩
  induction part using List.reverseRecOn with
  | nil => exact absurd rfl h.1
  | append_singleton front c ih =>
    obtain ⟨-, hdigits, hlead⟩ := h
    have hc : c.isDigit := hdigits c (by simp)
    have hlt : c.toNat - 48 < 10 := by
      have := digit_range hc
      omega
    rcases List.eq_nil_or_concat front with rfl | ⟨_, _, hfront⟩
    · exact ⟨c.toNat - 48, by rw [print_digit hlt, digitChar_sub hc]; rfl⟩
    · have hne : front ≠ [] := by simp [hfront]
      rw [List.head?_append_of_ne_nil _ hne] at hlead
      have hnotZero : front.head? ≠ some '0' := by
        intro hhead
        have hlength := congrArg List.length (hlead hhead)
        simp [hfront] at hlength
      obtain ⟨m, rfl⟩ := ih ⟨hne, fun d hd => hdigits d (List.mem_append_left _ hd),
        fun hhead => absurd hhead hnotZero⟩
      have hm : 0 < m := by
        refine Nat.pos_of_ne_zero fun hzero => hnotZero ?_
        rw [hzero]
        rfl
      exact ⟨10 * m + (c.toNat - 48), by rw [← print_append_digit hm hlt, digitChar_sub hc]⟩

end Canonical

section Numeric

def IsDigits (text : List Char) : Prop := text ≠ [] ∧ ∀ c ∈ text, c.isDigit

/-- The letter of an exponent, perhaps a sign, and digits. -/
def IsExponent (text : List Char) : Prop :=
  ∃ letter rest, text = letter :: rest ∧ (letter = 'e' ∨ letter = 'E') ∧
    IsDigits (splitSign rest).2

/-- What may follow a sign. -/
inductive IsUnsigned : List Char → Prop
  | infinity : IsUnsigned "Infinity".toList
  | digits {digits : List Char} : IsDigits digits → IsUnsigned digits
  | exponent {digits exponent : List Char} :
    IsDigits digits → IsExponent exponent → IsUnsigned (digits ++ exponent)

/-- The base that the letter of a prefix names. -/
def radixBase : Char → Option ℕ
  | 'x' | 'X' => some 16
  | 'o' | 'O' => some 8
  | 'b' | 'B' => some 2
  | _ => none

/-- The texts of numbers without a point and without blanks around them. -/
inductive IsLiteral : List Char → Prop
  | empty : IsLiteral []
  | signed {text : List Char} : IsUnsigned (splitSign text).2 → IsLiteral text
  | radix {letter : Char} {base : ℕ} {digits : List Char} : radixBase letter = some base →
    digits ≠ [] → (∀ d ∈ digits, ∃ value < base, digitValue d = some value) →
    IsLiteral ('0' :: letter :: digits)

/-- A literal, perhaps with blanks around it. -/
def IsNumeric (part : List Char) : Prop :=
  ∃ before literal after, part = before ++ literal ++ after ∧ (∀ c ∈ before, isBlank c) ∧
    (∀ c ∈ after, isBlank c) ∧ IsLiteral literal

theorem exponentPart_isSome {text : List Char} :
    (exponentPart text).isSome ↔ text = [] ∨ IsExponent text := by
  cases text with
  | nil => simp [exponentPart]
  | cons letter rest =>
    have hexponent : IsExponent (letter :: rest) ↔
        (letter = 'e' ∨ letter = 'E') ∧ IsDigits (splitSign rest).2 := by
      simp [IsExponent]
    rw [exponentPart, hexponent]
    split_ifs with hletter
    · simp [hletter, IsDigits]
    · simp [hletter]

theorem isDigit_eq_false_of_isExponent {text : List Char} (h : IsExponent text) :
    ∀ c ∈ text.head?, c.isDigit = false := by
  obtain ⟨letter, rest, rfl, hletter, -⟩ := h
  rintro c ⟨⟩
  rcases hletter with rfl | rfl <;> rfl

/-- A number without a point is digits, and perhaps an exponent. -/
theorem unsignedDecimal_isSome {text : List Char} (hpoint : '.' ∉ text) :
    (unsignedDecimal text).isSome ↔
      ∃ digits exponent, text = digits ++ exponent ∧ IsDigits digits ∧
        (exponent = [] ∨ IsExponent exponent) := by
  have hfraction : fractionPart (text.dropWhile Char.isDigit) =
      ([], text.dropWhile Char.isDigit) := by
    rcases hdrop : text.dropWhile Char.isDigit with _ | ⟨c, rest⟩
    · rfl
    · have hc : c ≠ '.' := by
        rintro rfl
        exact hpoint ((List.dropWhile_sublist _).subset (hdrop ▸ List.mem_cons_self))
      rw [fractionPart]
      rintro _ ⟨⟩
      exact hc rfl
  have hiff : (unsignedDecimal text).isSome ↔ text.takeWhile Char.isDigit ≠ [] ∧
      (exponentPart (text.dropWhile Char.isDigit)).isSome := by
    rw [unsignedDecimal]
    simp only [hfraction, List.append_nil]
    split_ifs with h <;> simp [h]
  rw [hiff, exponentPart_isSome]
  constructor
  · rintro ⟨hne, hexponent⟩
    exact ⟨_, _, List.takeWhile_append_dropWhile.symm, ⟨hne, fun c hc => List.mem_takeWhile_imp hc⟩,
      hexponent⟩
  · rintro ⟨digits, exponent, rfl, ⟨hne, hdigits⟩, hexponent⟩
    have hhead : ∀ c ∈ exponent.head?, c.isDigit = false := by
      rcases hexponent with rfl | hexponent
      · simp
      · exact isDigit_eq_false_of_isExponent hexponent
    obtain ⟨htake, hdrop⟩ := takeWhile_of_forall hdigits exponent hhead
    rw [htake, hdrop]
    exact ⟨hne, hexponent⟩

theorem isUnsigned_iff {text : List Char} :
    IsUnsigned text ↔ text = "Infinity".toList ∨ ∃ digits exponent, text = digits ++ exponent ∧
      IsDigits digits ∧ (exponent = [] ∨ IsExponent exponent) := by
  constructor
  · rintro (_ | hdigits | ⟨hdigits, hexponent⟩)
    · exact Or.inl rfl
    · exact Or.inr ⟨_, [], (List.append_nil _).symm, hdigits, Or.inl rfl⟩
    · exact Or.inr ⟨_, _, rfl, hdigits, Or.inr hexponent⟩
  · rintro (rfl | ⟨digits, exponent, rfl, hdigits, rfl | hexponent⟩)
    · exact .infinity
    · rw [List.append_nil]
      exact .digits hdigits
    · exact .exponent hdigits hexponent

theorem splitSign_snd_subset (text : List Char) : (splitSign text).2 ⊆ text := by
  unfold splitSign
  split
  · exact List.subset_cons_self _ _
  · exact List.subset_cons_self _ _
  · exact List.Subset.refl _

theorem decimalLiteral_isNaN {text : List Char} (hpoint : '.' ∉ text) :
    (decimalLiteral text).isNaN = false ↔ IsUnsigned (splitSign text).2 := by
  have hpoint' : '.' ∉ (splitSign text).2 := fun h => hpoint (splitSign_snd_subset text h)
  rw [isUnsigned_iff, ← unsignedDecimal_isSome hpoint', decimalLiteral]
  by_cases hinfinity : (splitSign text).2 = "Infinity".toList
  · simp [hinfinity, isNaN]
  · simp only [hinfinity, false_or]
    cases unsignedDecimal (splitSign text).2 <;> simp [isNaN]

theorem radixLiteral_isNaN {base : ℕ} {digits : List Char} :
    (radixLiteral base digits).isNaN = false ↔
      digits ≠ [] ∧ ∀ d ∈ digits, ∃ value < base, digitValue d = some value := by
  have hvalid (d : Char) : (digitValue d).all (base ≤ ·) = false ↔
      ∃ value < base, digitValue d = some value := by
    cases digitValue d <;> simp
  have hany : (digits.map digitValue).any (fun v => v.all (base ≤ ·)) = false ↔
      ∀ d ∈ digits, ∃ value < base, digitValue d = some value := by
    rw [List.any_map, List.any_eq_false]
    exact forall₂_congr fun d _ => by simpa using hvalid d
  rw [← hany, radixLiteral]
  split_ifs with h
  · rcases h with h | h <;> simp [isNaN, h]
  · simpa [isNaN] using h

theorem letter_of_radixBase {letter : Char} {base : ℕ} (h : radixBase letter = some base) :
    letter.isDigit = false ∧ isBlank letter = false ∧ ¬(letter = 'e' ∨ letter = 'E') := by
  unfold radixBase at h
  split at h
  iterate 6 exact ⟨rfl, rfl, by decide⟩
  cases h

theorem not_isUnsigned_radix {letter : Char} {base : ℕ} {digits : List Char}
    (h : radixBase letter = some base) : ¬IsUnsigned ('0' :: letter :: digits) := by
  obtain ⟨hnotDigit, -, hnotExponent⟩ := letter_of_radixBase h
  rw [isUnsigned_iff]
  rintro (hinfinity | ⟨_ | ⟨d, _ | ⟨d', ds⟩⟩, exponent, htext, ⟨hne, hdigits⟩, hexponent⟩)
  · exact absurd (List.cons.inj hinfinity).1 (by decide)
  · exact hne rfl
  · -- The letter would begin an exponent.
    obtain ⟨-, rfl⟩ := List.cons.inj htext
    rcases hexponent with hexponent | ⟨e, rest, hcons, he, -⟩
    · cases hexponent
    · obtain ⟨rfl, -⟩ := List.cons.inj hcons
      exact hnotExponent he
  · -- The letter would be a digit.
    obtain ⟨-, hcons⟩ := List.cons.inj htext
    obtain ⟨rfl, -⟩ := List.cons.inj hcons
    exact absurd (hdigits letter (by simp)) (by simp [hnotDigit])

theorem isLiteral_radix {letter : Char} {base : ℕ} {digits : List Char}
    (h : radixBase letter = some base) : IsLiteral ('0' :: letter :: digits) ↔
      digits ≠ [] ∧ ∀ d ∈ digits, ∃ value < base, digitValue d = some value := by
  constructor
  · rintro (_ | hunsigned | ⟨hbase, hne, hdigits⟩)
    · exact absurd hunsigned (not_isUnsigned_radix h)
    · cases Option.some.inj (h.symm.trans hbase)
      exact ⟨hne, hdigits⟩
  · rintro ⟨hne, hdigits⟩
    exact .radix h hne hdigits

theorem isLiteral_signed {text : List Char} (hne : text ≠ [])
    (hradix : ∀ letter digits, text = '0' :: letter :: digits → radixBase letter = none) :
    IsLiteral text ↔ IsUnsigned (splitSign text).2 := by
  refine ⟨?_, .signed⟩
  rintro (_ | hunsigned | ⟨hbase, -, -⟩)
  · exact absurd rfl hne
  · exact hunsigned
  · exact absurd (hradix _ _ rfl) (by simp [hbase])

/-- A text without a point is converted to a number when it is a literal between blanks. -/
theorem isNaN_ofText_trim {part : List Char} (hpoint : '.' ∉ trim part) :
    (ofText part).isNaN = false ↔ IsLiteral (trim part) := by
  unfold ofText
  revert hpoint
  generalize trim part = text
  intro hpoint
  split
  · exact iff_of_true rfl .empty
  iterate 6 exact radixLiteral_isNaN.trans (isLiteral_radix rfl).symm
  · next hne hx hX ho hO hb hB =>
    refine (decimalLiteral_isNaN hpoint).trans (isLiteral_signed (fun h => hne h) ?_).symm
    rintro letter digits rfl
    by_contra hbase
    unfold radixBase at hbase
    split at hbase
    · exact hx digits rfl
    · exact hX digits rfl
    · exact ho digits rfl
    · exact hO digits rfl
    · exact hb digits rfl
    · exact hB digits rfl
    · exact hbase rfl

end Numeric

section Blanks

theorem isBlank_of_digitValue {c : Char} {value : ℕ} (h : digitValue c = some value) :
    isBlank c = false := by
  have hrange : 48 ≤ c.toNat ∧ c.toNat ≤ 102 := by
    unfold digitValue at h
    split_ifs at h with hdigit hlower hupper
    · have := digit_range hdigit
      omega
    · simp only [Char.le_def, UInt32.le_iff_toNat_le] at hlower
      exact ⟨le_trans (by decide) hlower.1, hlower.2⟩
    · simp only [Char.le_def, UInt32.le_iff_toNat_le] at hupper
      exact ⟨le_trans (by decide) hupper.1, hupper.2.trans (by decide)⟩
  simp only [isBlank, List.mem_cons, List.not_mem_nil, or_false, Bool.or_eq_false_iff,
    decide_eq_false_iff_not, Bool.and_eq_false_iff]
  omega

theorem mem_splitSign {text : List Char} {c : Char} (hc : c ∈ text) :
    c = '-' ∨ c = '+' ∨ c ∈ (splitSign text).2 := by
  unfold splitSign
  split
  · exact (List.mem_cons.mp hc).imp_right Or.inr
  · exact Or.inr (List.mem_cons.mp hc)
  · exact Or.inr (Or.inr hc)

theorem isBlank_of_isExponent {text : List Char} (h : IsExponent text) {c : Char}
    (hc : c ∈ text) : isBlank c = false := by
  obtain ⟨letter, rest, rfl, hletter, -, hdigits⟩ := h
  rcases List.mem_cons.mp hc with rfl | hc
  · rcases hletter with rfl | rfl <;> rfl
  · rcases mem_splitSign hc with rfl | rfl | hc
    · rfl
    · rfl
    · exact isBlank_eq_false_of_isDigit (hdigits c hc)

theorem isBlank_of_isUnsigned {text : List Char} (h : IsUnsigned text) {c : Char}
    (hc : c ∈ text) : isBlank c = false := by
  rcases h with _ | hdigits | ⟨hdigits, hexponent⟩
  · have hall : "Infinity".toList.all (fun c => !isBlank c) = true := by decide
    simpa using List.all_eq_true.mp hall c hc
  · exact isBlank_eq_false_of_isDigit (hdigits.2 c hc)
  · rcases List.mem_append.mp hc with hc | hc
    · exact isBlank_eq_false_of_isDigit (hdigits.2 c hc)
    · exact isBlank_of_isExponent hexponent hc

theorem isBlank_of_isLiteral {text : List Char} (h : IsLiteral text) {c : Char}
    (hc : c ∈ text) : isBlank c = false := by
  rcases h with _ | hunsigned | ⟨hbase, -, hdigits⟩
  · cases hc
  · rcases mem_splitSign hc with rfl | rfl | hc
    · rfl
    · rfl
    · exact isBlank_of_isUnsigned hunsigned hc
  · rcases List.mem_cons.mp hc with rfl | hc
    · rfl
    rcases List.mem_cons.mp hc with rfl | hc
    · exact (letter_of_radixBase hbase).2.1
    · obtain ⟨value, -, hvalue⟩ := hdigits c hc
      exact isBlank_of_digitValue hvalue

theorem exists_trim (part : List Char) : ∃ before after, part = before ++ trim part ++ after ∧
    (∀ c ∈ before, isBlank c) ∧ ∀ c ∈ after, isBlank c := by
  refine ⟨part.takeWhile isBlank, ((part.dropWhile isBlank).reverse.takeWhile isBlank).reverse,
    ?_, fun c hc => List.mem_takeWhile_imp hc,
    fun c hc => List.mem_takeWhile_imp (List.mem_reverse.mp hc)⟩
  rw [trim, List.append_assoc, ← List.reverse_append, List.takeWhile_append_dropWhile,
    List.reverse_reverse, List.takeWhile_append_dropWhile]

theorem trim_of_isLiteral {before literal after : List Char} (hbefore : ∀ c ∈ before, isBlank c)
    (hafter : ∀ c ∈ after, isBlank c) (hliteral : IsLiteral literal) :
    trim (before ++ literal ++ after) = literal := by
  have hblank : ∀ c ∈ literal, isBlank c = false := fun c hc => isBlank_of_isLiteral hliteral hc
  have hfront : (literal ++ after).dropWhile isBlank = literal ++ after ∨ literal = [] := by
    rcases literal with _ | ⟨c, rest⟩
    · exact Or.inr rfl
    · exact Or.inl (List.dropWhile_cons_of_neg (by simp [hblank c]))
  rw [trim, List.append_assoc, List.dropWhile_append_of_pos hbefore]
  rcases hfront with hfront | rfl
  · rw [hfront, List.reverse_append, List.dropWhile_append_of_pos
      fun c hc => hafter c (List.mem_reverse.mp hc)]
    rw [dropWhile_of_forall fun c hc => hblank c (List.mem_reverse.mp hc), List.reverse_reverse]
  · rw [List.nil_append, List.dropWhile_eq_nil_iff.mpr hafter]
    rfl

theorem isNumeric_iff {part : List Char} : IsNumeric part ↔ IsLiteral (trim part) := by
  constructor
  · rintro ⟨before, literal, after, rfl, hbefore, hafter, hliteral⟩
    rwa [trim_of_isLiteral hbefore hafter hliteral]
  · intro h
    obtain ⟨before, after, hpart, hbefore, hafter⟩ := exists_trim part
    exact ⟨before, trim part, after, hpart, hbefore, hafter, h⟩

/-- A text without a point is converted to a number when the grammar has it. -/
theorem isNaN_ofText {part : List Char} (hpoint : '.' ∉ part) :
    (ofText part).isNaN = false ↔ IsNumeric part := by
  have hpoint' : '.' ∉ trim part := by
    intro h
    obtain ⟨before, after, hpart, -⟩ := exists_trim part
    exact hpoint (by rw [hpart]; simp [h])
  rw [isNaN_ofText_trim hpoint', isNumeric_iff]

end Blanks

theorem IsCanonical.isNumeric {part : List Char} (h : IsCanonical part) : IsNumeric part := by
  obtain ⟨n, rfl⟩ := isCanonical_iff.mp h
  rw [← isNaN_ofText (point_notMem_print n), ofText_print]
  rfl

end RandomArt.JsNumber
