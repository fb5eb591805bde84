import RandomArt.DoubleText

/-!
# Release versions

Versions travel in a header as three numbers joined by dots. The numbers are doubles: what is read
is rounded, and what is written is the shortest decimal that is rounded to the number.
-/

namespace RandomArt

structure ReleaseVersion where
  x : JsNumber
  y : JsNumber
  z : JsNumber
  deriving DecidableEq

namespace ReleaseVersion

/-- Parse a dotted version; none where the source throws. -/
def parse (v : String) : Option ReleaseVersion :=
  match (v.toList.splitOn '.').map JsNumber.ofTextDouble with
  | [x, y, z] => if x.isNaN || y.isNaN || z.isNaN then none else some ⟨x, y, z⟩
  | _ => none

def toString (v : ReleaseVersion) : String :=
  String.ofList (v.x.toTextDouble ++ '.' :: v.y.toTextDouble ++ '.' :: v.z.toTextDouble)

def canHandle (v incoming : ReleaseVersion) : Bool :=
  if v.x.isNaN ∨ v.x ≠ incoming.x then false else v.y.ge incoming.y

def isEqual (v other : ReleaseVersion) : Bool :=
  !v.x.isNaN && !v.y.isNaN && !v.z.isNaN && decide (v = other)

def currentRelease : ReleaseVersion := ⟨.finite 1, .finite 0, .finite 0⟩

example : parse "1.0.0" = some currentRelease := by decide +kernel

/-- A version of natural numbers. -/
def natural (x y z : ℕ) : ReleaseVersion := ⟨.finite x, .finite y, .finite z⟩

section Text

private theorem splitOn_length_pos (text : List Char) : 0 < (text.splitOn '.').length :=
  List.length_pos_iff.mpr (List.splitOn_ne_nil '.' text)

private theorem splitOn_length_of_mem {text : List Char} (h : '.' ∈ text) :
    2 ≤ (text.splitOn '.').length := by
  obtain ⟨before, after, rfl⟩ := List.append_of_mem h
  rw [List.splitOn_append_cons_self, List.length_append]
  have hbefore := splitOn_length_pos before
  have hafter := splitOn_length_pos after
  omega

theorem splitOn_join (x y z : List Char) : (x ++ '.' :: y ++ '.' :: z).splitOn '.' =
    x.splitOn '.' ++ y.splitOn '.' ++ z.splitOn '.' := by
  rw [List.append_assoc, List.cons_append, List.splitOn_append_cons_self,
    List.splitOn_append_cons_self, List.append_assoc]

/-- Three texts that are joined by points have three parts when there is no other point. -/
theorem splitOn_join_of_notMem {x y z : List Char} (hx : '.' ∉ x) (hy : '.' ∉ y) (hz : '.' ∉ z) :
    (x ++ '.' :: y ++ '.' :: z).splitOn '.' = [x, y, z] := by
  rw [splitOn_join, List.splitOn_eq_singleton hx, List.splitOn_eq_singleton hy,
    List.splitOn_eq_singleton hz]
  rfl

theorem notMem_of_splitOn_join_length {x y z : List Char}
    (h : ((x ++ '.' :: y ++ '.' :: z).splitOn '.').length = 3) :
    '.' ∉ x ∧ '.' ∉ y ∧ '.' ∉ z := by
  rw [splitOn_join, List.length_append, List.length_append] at h
  have hxpos := splitOn_length_pos x
  have hypos := splitOn_length_pos y
  have hzpos := splitOn_length_pos z
  refine ⟨fun hmem => ?_, fun hmem => ?_, fun hmem => ?_⟩ <;>
    have hlength := splitOn_length_of_mem hmem <;> omega

end Text

end ReleaseVersion

end RandomArt
