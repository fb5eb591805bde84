import RandomArt.NumberGrammar
import RandomArt.ReleaseVersion

/-!
# The grammar of release versions

The texts that are read as a version when its components are doubles, and those among them that
are written as they were read.
-/

namespace RandomArt.ReleaseVersion
open JsNumber DecimalText Binary64

section Grammar

/-- Split at its points, the text has three parts, of which each is a `P`. -/
def HasParts (P : List Char → Prop) (s : String) : Prop :=
  ∃ x y z, s.toList.splitOn '.' = [x, y, z] ∧ P x ∧ P y ∧ P z

/-- Digits of a number below `10 ^ 21` that is the shortest decimal of its own double. -/
def IsExact (part : List Char) : Prop :=
  ∃ n : ℕ, part = print n ∧ n < 10 ^ 21 ∧ shortest (nearest (n : ℚ)) = n

theorem HasParts.mono {P Q : List Char → Prop} (hPQ : ∀ part, P part → Q part) {s : String}
    (h : HasParts P s) : HasParts Q s := by
  obtain ⟨x, y, z, hsplit, hx, hy, hz⟩ := h
  exact ⟨x, y, z, hsplit, hPQ x hx, hPQ y hy, hPQ z hz⟩

theorem IsExact.isCanonical {part : List Char} (h : IsExact part) : IsCanonical part := by
  obtain ⟨n, rfl, -⟩ := h
  exact isCanonical_print n

theorem isExact_of_lt {n : ℕ} (h : n < 2 ^ 53) : IsExact (print n) :=
  ⟨n, rfl, toTextDouble_toDouble_eq_print.mp (toTextDouble_toDouble_of_lt h)⟩

theorem notMem_of_mem_splitOn {text part : List Char} (h : part ∈ text.splitOn '.') :
    '.' ∉ part := by
  induction text generalizing part with
  | nil =>
    rw [List.splitOn_nil, List.mem_singleton] at h
    simp [h]
  | cons c text ih =>
    rw [List.splitOn_cons_eq_if_modifyHead] at h
    obtain ⟨first, rest, hsplit⟩ := List.exists_cons_of_ne_nil (List.splitOn_ne_nil '.' text)
    rw [hsplit] at h ih
    split_ifs at h with hc
    · rcases List.mem_cons.mp h with rfl | h
      · simp
      · exact ih h
    · rcases List.mem_cons.mp h with rfl | h
      · have hne : c ≠ '.' := by simpa using hc
        simp [hne.symm, ih List.mem_cons_self]
      · exact ih (List.mem_cons_of_mem _ h)

theorem toList_of_splitOn {s : String} {x y z : List Char}
    (h : s.toList.splitOn '.' = [x, y, z]) : s.toList = x ++ '.' :: y ++ '.' :: z := by
  have hjoin : ['.'].intercalate (s.toList.splitOn '.') = s.toList := List.intercalate_splitOn '.'
  rw [h] at hjoin
  simpa [List.intercalate, List.intersperse] using hjoin.symm

end Grammar

namespace Double

section Parts

variable {s : String} {x y z : List Char}

theorem parse_of_splitOn (h : s.toList.splitOn '.' = [x, y, z]) :
    parse s = if (ofText x).isNaN || (ofText y).isNaN || (ofText z).isNaN then none
      else some ⟨ofTextDouble x, ofTextDouble y, ofTextDouble z⟩ := by
  rw [parse, h]
  simp only [List.map_cons, List.map_nil, ofTextDouble, isNaN_toDouble]

theorem parse_of_length (h : (s.toList.splitOn '.').length ≠ 3) : parse s = none := by
  rw [parse]
  split
  · next heq =>
    have hlength := congrArg List.length heq
    rw [List.length_map] at hlength
    exact absurd hlength h
  · rfl

theorem isSome_parse_of_splitOn (h : s.toList.splitOn '.' = [x, y, z]) :
    (parse s).isSome ↔ IsNumeric x ∧ IsNumeric y ∧ IsNumeric z := by
  have hpoint (part : List Char) (hpart : part ∈ [x, y, z]) :=
    isNaN_ofText (notMem_of_mem_splitOn (h ▸ hpart))
  rw [parse_of_splitOn h, ← hpoint x (by simp), ← hpoint y (by simp), ← hpoint z (by simp)]
  cases (ofText x).isNaN <;> cases (ofText y).isNaN <;> cases (ofText z).isNaN <;> simp

theorem isSome_parse (s : String) : (parse s).isSome ↔ HasParts IsNumeric s := by
  by_cases hlength : (s.toList.splitOn '.').length = 3
  · obtain ⟨x, y, z, hsplit⟩ := List.length_eq_three.mp hlength
    rw [isSome_parse_of_splitOn hsplit]
    constructor
    · exact fun h => ⟨x, y, z, hsplit, h⟩
    · rintro ⟨x', y', z', hsplit', h⟩
      cases hsplit.symm.trans hsplit'
      exact h
  · refine iff_of_false (by simp [parse_of_length hlength]) ?_
    rintro ⟨x, y, z, hsplit, -⟩
    exact hlength (by rw [hsplit]; rfl)

end Parts

section Faithful

/-- The text is accepted when it is three canonical numbers, and is then written as it was. -/
def MeetsGrammar (s : String) : Prop :=
  ((parse s).isSome ↔ HasParts IsCanonical s) ∧ ∀ v, parse s = some v → toString v = s

/-- Every component is a natural number and a double. -/
def IsNatural (v : ReleaseVersion) : Prop :=
  ∀ x ∈ [v.x, v.y, v.z], ∃ n : ℕ, x = finite n ∧ x.toDouble = x

/-- The shortest decimals of the components are below `10 ^ 21` or of one significant digit. -/
def WritesWhole (v : ReleaseVersion) : Prop :=
  ∀ x ∈ [v.x, v.y, v.z], ∃ n m : ℕ, x = finite n ∧ shortest (n : ℚ) = m ∧ WrittenWhole m

/-- A canonical part is written as it was read when it is exact. -/
theorem toTextDouble_ofTextDouble {part : List Char} (h : IsCanonical part) :
    (ofTextDouble part).toTextDouble = part ↔ IsExact part := by
  obtain ⟨n, rfl⟩ := isCanonical_iff.mp h
  rw [ofTextDouble, ofText_print, toTextDouble_toDouble_eq_print]
  constructor
  · exact fun hn => ⟨n, rfl, hn⟩
  · rintro ⟨m, hprint, hm⟩
    obtain rfl := print_inj.mp hprint
    exact hm

theorem toString_eq_iff {s : String} {x y z : List Char} (h : s.toList.splitOn '.' = [x, y, z])
    (v : ReleaseVersion) : toString v = s ↔
      v.x.toTextDouble = x ∧ v.y.toTextDouble = y ∧ v.z.toTextDouble = z := by
  constructor
  · intro hs
    have hjoin : (v.x.toTextDouble ++ '.' :: v.y.toTextDouble ++ '.' :: v.z.toTextDouble).splitOn
        '.' = [x, y, z] := by
      rw [← h, ← hs, toString, String.toList_ofList]
    obtain ⟨hx, hy, hz⟩ := notMem_of_splitOn_join_length (by rw [hjoin]; rfl)
    rw [splitOn_join_of_notMem hx hy hz] at hjoin
    simpa using hjoin
  · rintro ⟨hx, hy, hz⟩
    rw [toString, hx, hy, hz, ← toList_of_splitOn h, String.ofList_toList]

theorem meetsGrammar_iff (s : String) :
    MeetsGrammar s ↔ (HasParts IsNumeric s → HasParts IsExact s) := by
  rw [MeetsGrammar, isSome_parse]
  constructor
  · rintro ⟨hiff, hwritten⟩ hnumeric
    obtain ⟨x, y, z, hsplit, hx, hy, hz⟩ := hiff.mp hnumeric
    obtain ⟨v, hv⟩ := Option.isSome_iff_exists.mp ((isSome_parse s).mpr hnumeric)
    have htexts := (toString_eq_iff hsplit v).mp (hwritten v hv)
    rw [parse_of_splitOn hsplit] at hv
    split_ifs at hv
    obtain rfl := Option.some.inj hv
    exact ⟨x, y, z, hsplit, (toTextDouble_ofTextDouble hx).mp htexts.1,
      (toTextDouble_ofTextDouble hy).mp htexts.2.1, (toTextDouble_ofTextDouble hz).mp htexts.2.2⟩
  · intro hexact
    refine ⟨⟨fun h => (hexact h).mono fun _ => IsExact.isCanonical,
      fun h => h.mono fun _ => IsCanonical.isNumeric⟩, fun v hv => ?_⟩
    obtain ⟨x, y, z, hsplit, hx, hy, hz⟩ :=
      hexact ((isSome_parse s).mp (Option.isSome_iff_exists.mpr ⟨v, hv⟩))
    rw [parse_of_splitOn hsplit] at hv
    split_ifs at hv
    obtain rfl := Option.some.inj hv
    exact (toString_eq_iff hsplit _).mpr ⟨(toTextDouble_ofTextDouble hx.isCanonical).mpr hx,
      (toTextDouble_ofTextDouble hy.isCanonical).mpr hy,
      (toTextDouble_ofTextDouble hz.isCanonical).mpr hz⟩

/-- A natural component is written as a natural number, which is read as the component. -/
theorem exists_natText {x : JsNumber} (h : ∃ n : ℕ, x = finite n ∧ x.toDouble = x) :
    ∃ m : ℕ, x.toTextDouble = natText m ∧ ofTextDouble (natText m) = x ∧
      ((∃ n m : ℕ, x = finite n ∧ shortest (n : ℚ) = m ∧ WrittenWhole m) ↔ '.' ∉ natText m) := by
  obtain ⟨n, rfl, hdouble⟩ := h
  obtain ⟨m, hm⟩ := exists_shortest_natCast n
  refine ⟨m, toTextDouble_natCast hm, ofTextDouble_natText hdouble hm, ?_⟩
  rw [point_notMem_natText]
  constructor
  · rintro ⟨n', m', hn, hm', hwhole⟩
    obtain rfl : n = n' := by simpa using hn
    rw [hm, Nat.cast_inj] at hm'
    exact hm' ▸ hwhole
  · exact fun hwhole => ⟨n, m, rfl, hm, hwhole⟩

theorem parse_toString_iff {v : ReleaseVersion} (h : IsNatural v) :
    parse (toString v) = some v ↔ WritesWhole v := by
  obtain ⟨x, hx, hreadx, hwholex⟩ := exists_natText (h v.x (by simp))
  obtain ⟨y, hy, hready, hwholey⟩ := exists_natText (h v.y (by simp))
  obtain ⟨z, hz, hreadz, hwholez⟩ := exists_natText (h v.z (by simp))
  have hlist : (toString v).toList = natText x ++ '.' :: natText y ++ '.' :: natText z := by
    rw [toString, String.toList_ofList, hx, hy, hz]
  have hwhole : WritesWhole v ↔ '.' ∉ natText x ∧ '.' ∉ natText y ∧ '.' ∉ natText z := by
    simp only [WritesWhole, List.forall_mem_cons, List.not_mem_nil, false_implies, implies_true,
      and_true, hwholex, hwholey, hwholez]
  rw [hwhole]
  constructor
  · intro hparse
    refine notMem_of_splitOn_join_length ?_
    by_contra hlength
    rw [parse_of_length (by rwa [hlist])] at hparse
    cases hparse
  · rintro ⟨hpx, hpy, hpz⟩
    have hsplit : (toString v).toList.splitOn '.' = [natText x, natText y, natText z] := by
      rw [hlist, splitOn_join_of_notMem hpx hpy hpz]
    rw [parse_of_splitOn hsplit, hreadx, hready, hreadz]
    simp [ofText_natText, isNaN]

/-- A text is treated as the grammar says unless it is three numbers that are not all exact, and a
natural version is read back from its text when this has no further points. -/
theorem grammar_iff (s : String) {v : ReleaseVersion} (h : IsNatural v) :
    (MeetsGrammar s ↔ (HasParts IsNumeric s → HasParts IsExact s)) ∧
      (parse (toString v) = some v ↔ WritesWhole v) :=
  ⟨meetsGrammar_iff s, parse_toString_iff h⟩

theorem grammar_iff_one : MeetsGrammar "1.0.0" ∧ IsNatural (natural 1 0 0) ∧
    parse (toString (natural 1 0 0)) = some (natural 1 0 0) := by
  have hexact : HasParts IsExact "1.0.0" := by
    have hsplit : "1.0.0".toList.splitOn '.' = [print 1, print 0, print 0] := by decide +kernel
    exact ⟨print 1, print 0, print 0, hsplit, isExact_of_lt (by norm_num),
      isExact_of_lt (by norm_num), isExact_of_lt (by norm_num)⟩
  have hcomponents : ∀ x ∈ [finite (1 : ℕ), finite (0 : ℕ), finite (0 : ℕ)], ∃ n : ℕ,
      x = finite n ∧ n < 2 ^ 53 := by
    simp only [List.forall_mem_cons, List.not_mem_nil, false_implies, implies_true, and_true]
    exact ⟨⟨1, rfl, by norm_num⟩, ⟨0, rfl, by norm_num⟩, ⟨0, rfl, by norm_num⟩⟩
  have hnatural : IsNatural (natural 1 0 0) := by
    intro x hx
    obtain ⟨n, rfl, hn⟩ := hcomponents x hx
    exact ⟨n, rfl, toDouble_finite_eq_iff.mpr
      ⟨nearest_natCast_of_lt hn, not_overflows_of_lt (hn.trans (by norm_num))⟩⟩
  obtain ⟨hgrammar, hroundTrip⟩ := grammar_iff "1.0.0" hnatural
  refine ⟨hgrammar.mpr fun _ => hexact, hnatural, hroundTrip.mpr fun x hx => ?_⟩
  obtain ⟨n, rfl, hn⟩ := hcomponents x hx
  exact ⟨n, n, rfl, shortest_natCast_of_lt hn, Or.inl (hn.trans (by norm_num))⟩

/-- A missing number is read as zero. -/
theorem missing_not_meetsGrammar : ¬MeetsGrammar "1..2" := by
  rintro ⟨hiff, -⟩
  have hsplit : "1..2".toList.splitOn '.' = [['1'], [], ['2']] := by decide +kernel
  have haccepted : (parse "1..2").isSome := by
    rw [parse_of_splitOn hsplit]
    decide +kernel
  obtain ⟨x, y, z, hsplit', -, hy, -⟩ := hiff.mp haccepted
  cases hsplit.symm.trans hsplit'
  exact hy.1 rfl

end Faithful

end Double

end RandomArt.ReleaseVersion
