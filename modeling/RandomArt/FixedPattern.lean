import Mathlib.Algebra.GroupWithZero.Nat
import Mathlib.Data.List.Basic

/-!
# Patterns of fixed width

Patterns built from groups of a given number of characters of a class and from literal
characters. A text matches in at most one way, so a match and the text it came from
determine each other.
-/

namespace RandomArt.FixedPattern

/-- One item of a pattern: a captured group, or a character that must be there. -/
inductive Item where
  | group (width : ℕ) (accepts : Char → Bool)
  | literal (c : Char)

/-- The captured groups of a match of the whole text. -/
def fullmatch : List Item → List Char → Option (List (List Char))
  | [], [] => some []
  | [], _ :: _ => none
  | .literal _ :: _, [] => none
  | .literal c :: items, d :: text => if d = c then fullmatch items text else none
  | .group width accepts :: items, text =>
    if (text.take width).length = width ∧ (text.take width).all accepts then
      (fullmatch items (text.drop width)).map (text.take width :: ·)
    else none

/-- The text with the given groups. -/
def render : List Item → List (List Char) → List Char
  | [], _ => []
  | .literal c :: items, groups => c :: render items groups
  | .group _ _ :: items, g :: groups => g ++ render items groups
  | .group _ _ :: items, [] => render items []

/-- Groups that a pattern can capture. -/
inductive Fits : List Item → List (List Char) → Prop where
  | nil : Fits [] []
  | literal {c : Char} {items : List Item} {groups : List (List Char)} :
    Fits items groups → Fits (.literal c :: items) groups
  | group {width : ℕ} {accepts : Char → Bool} {items : List Item} {g : List Char}
      {groups : List (List Char)} : g.length = width → (∀ c ∈ g, accepts c) →
    Fits items groups → Fits (.group width accepts :: items) (g :: groups)

theorem fits_nil_iff {groups : List (List Char)} : Fits [] groups ↔ groups = [] := by
  constructor
  · rintro ⟨⟩
    rfl
  · rintro rfl
    exact .nil

theorem fits_literal_iff {c : Char} {items : List Item} {groups : List (List Char)} :
    Fits (.literal c :: items) groups ↔ Fits items groups := by
  constructor
  · rintro ⟨⟩
    assumption
  · exact .literal

theorem fits_group_iff {n : ℕ} {accepts : Char → Bool} {items : List Item}
    {groups : List (List Char)} :
    Fits (.group n accepts :: items) groups ↔ ∃ g rest, groups = g :: rest ∧
      (g.length = n ∧ ∀ c ∈ g, accepts c) ∧ Fits items rest := by
  constructor
  · rintro ⟨⟩
    exact ⟨_, _, rfl, ⟨by assumption, by assumption⟩, by assumption⟩
  · rintro ⟨g, rest, rfl, ⟨hlength, haccepts⟩, hrest⟩
    exact .group hlength haccepts hrest

def width : List Item → ℕ
  | [] => 0
  | .literal _ :: items => width items + 1
  | .group n _ :: items => n + width items

theorem length_render {items : List Item} {groups : List (List Char)} (h : Fits items groups) :
    (render items groups).length = width items := by
  induction h with
  | nil => rfl
  | literal _ ih => rw [render, width, List.length_cons, ih]
  | group hlength _ _ ih => rw [render, width, List.length_append, ih, hlength]

theorem fullmatch_render {items : List Item} {groups : List (List Char)} (h : Fits items groups) :
    fullmatch items (render items groups) = some groups := by
  induction h with
  | nil => rfl
  | literal _ ih => rw [render, fullmatch, if_pos rfl, ih]
  | @group n accepts items g groups hlength haccepts _ ih =>
    have htake : (g ++ render items groups).take n = g := by
      rw [← hlength, List.take_left]
    have hdrop : (g ++ render items groups).drop n = render items groups := by
      rw [← hlength, List.drop_left]
    rw [render, fullmatch, htake, hdrop, if_pos ⟨hlength, List.all_eq_true.mpr haccepts⟩, ih]
    rfl

theorem of_fullmatch {items : List Item} {text : List Char} {groups : List (List Char)}
    (h : fullmatch items text = some groups) :
    Fits items groups ∧ text = render items groups := by
  induction items generalizing text groups with
  | nil =>
    cases text with
    | nil =>
      cases h
      exact ⟨.nil, rfl⟩
    | cons d text => cases h
  | cons item items ih =>
    cases item with
    | literal c =>
      cases text with
      | nil => cases h
      | cons d text =>
        rw [fullmatch] at h
        split at h
        · next heq =>
          obtain ⟨hfits, rfl⟩ := ih h
          exact ⟨.literal hfits, by rw [render, heq]⟩
        · cases h
    | group n accepts =>
      rw [fullmatch] at h
      split at h
      · next hgroup =>
        obtain ⟨rest, hrest, rfl⟩ := Option.map_eq_some_iff.mp h
        obtain ⟨hfits, htext⟩ := ih hrest
        refine ⟨.group hgroup.1 (List.all_eq_true.mp hgroup.2) hfits, ?_⟩
        rw [render, ← htext, List.take_append_drop]
      · cases h

theorem fullmatch_eq_none_of_length {items : List Item} {text : List Char}
    (h : text.length ≠ width items) : fullmatch items text = none := by
  cases hmatch : fullmatch items text with
  | none => rfl
  | some groups =>
    obtain ⟨hfits, rfl⟩ := of_fullmatch hmatch
    exact absurd (length_render hfits) h

/-- A text of accepted characters is cut into groups of any widths that add up to its length. -/
theorem exists_fullmatch_groups {accepts : Char → Bool} {counts : List ℕ} {text : List Char}
    (hlength : text.length = counts.sum) (haccepts : ∀ c ∈ text, accepts c) :
    ∃ groups, fullmatch (counts.map fun n => .group n accepts) text = some groups ∧
      groups.map List.length = counts ∧ groups.flatten = text := by
  induction counts generalizing text with
  | nil =>
    obtain rfl := List.eq_nil_of_length_eq_zero hlength
    exact ⟨[], rfl, rfl, rfl⟩
  | cons n counts ih =>
    rw [List.sum_cons] at hlength
    have hhead : (text.take n).length = n := by
      rw [List.length_take]
      omega
    have htail : (text.drop n).length = counts.sum := by
      rw [List.length_drop]
      omega
    obtain ⟨groups, hmatch, hcounts, hflatten⟩ :=
      ih htail fun c hc => haccepts c (List.mem_of_mem_drop hc)
    refine ⟨text.take n :: groups, ?_, ?_, ?_⟩
    · have hall : (text.take n).all accepts :=
        List.all_eq_true.mpr fun c hc => haccepts c (List.mem_of_mem_take hc)
      rw [List.map_cons, fullmatch, if_pos ⟨hhead, hall⟩, hmatch]
      rfl
    · rw [List.map_cons, hhead, hcounts]
    · rw [List.flatten_cons, hflatten, List.take_append_drop]

section Join

/-- Parts written one after another with a character between them. -/
def join (sep : Char) (parts : List (List Char)) : List Char := [sep].intercalate parts

@[simp] theorem join_singleton (sep : Char) (p : List Char) : join sep [p] = p := by
  simp [join, List.intercalate]

theorem join_cons_cons (sep : Char) (p q : List Char) (parts : List (List Char)) :
    join sep (p :: q :: parts) = p ++ sep :: join sep (q :: parts) := by
  rw [join, List.intercalate_cons_cons, join, List.append_assoc, List.singleton_append]

theorem length_join (sep : Char) {parts : List (List Char)} (h : parts ≠ []) :
    (join sep parts).length + 1 = (parts.map List.length).sum + parts.length := by
  induction parts with
  | nil => exact absurd rfl h
  | cons p parts ih =>
    cases parts with
    | nil => simp
    | cons q parts =>
      have := ih (List.cons_ne_nil q parts)
      rw [join_cons_cons, List.length_append, List.length_cons, List.map_cons, List.sum_cons,
        List.length_cons]
      omega

/-- Without the separators, the parts are all that is left. -/
theorem filter_join {sep : Char} {parts : List (List Char)} (h : ∀ p ∈ parts, sep ∉ p) :
    (join sep parts).filter (· ≠ sep) = parts.flatten := by
  induction parts with
  | nil => rfl
  | cons p parts ih =>
    have hp : p.filter (· ≠ sep) = p := by
      rw [List.filter_eq_self]
      intro c hc
      simpa using fun heq : c = sep => h p List.mem_cons_self (heq ▸ hc)
    have hrest := ih fun q hq => h q (List.mem_cons_of_mem p hq)
    cases parts with
    | nil => simpa using hp
    | cons q parts =>
      rw [join_cons_cons, List.filter_append, hp, List.filter_cons_of_neg (by simp), hrest]
      rfl

end Join

end RandomArt.FixedPattern
