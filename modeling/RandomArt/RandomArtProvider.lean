import RandomArt.FormulaRange
import RandomArt.GenModelArtist

/-!
# The provider of random art

A model is made of the bytes of a seed: their hexadecimal text seeds the generator, and the formula
that is grown is compiled. Different seeds have different texts, every seed gives a model, and the
scaled colours of the model only ever leave the range of a byte at its upper end.
-/

namespace RandomArt.RandomArtProvider
open Formula

def hexChars : List UInt16 := "0123456789abcdef".toList.map fun c => UInt16.ofNat c.toNat

def byteHex (byte : UInt8) : List UInt16 :=
  [hexChars.getD (byte >>> 4 &&& 0xf).toNat 0, hexChars.getD (byte &&& 0xf).toNat 0]

/-- The seed text of two byte arrays, with a hyphen between them. -/
def bytesToSeed (seedPrefix seedSuffix : List UInt8) : List UInt16 :=
  seedPrefix.flatMap byteHex ++ 45 :: seedSuffix.flatMap byteHex

/-- The function of a point that a seed stands for; none if an exception is thrown. -/
def createModelFromPhrase {N : Type} [Arithmetic N] (phrase : List UInt16) :
    Option (N → N → Option (Channels N)) :=
  (generate phrase).bind fun expressionTree => getEvaluator expressionTree.toString

def createModel {N : Type} [Arithmetic N] (seedPrefix seedSuffix : List UInt8) :
    Option (N → N → Option (Channels N)) :=
  createModelFromPhrase (bytesToSeed seedPrefix seedSuffix)

noncomputable def scaleChannel (v : ℝ) : ℤ := max 0 (min 255 ⌊(v + 1) * 128 + 1 / 2⌋)

/-- The model of an evaluator. Where it gives no colour, channels are NaN, which count as zero. -/
noncomputable def model (evaluator : ℝ → ℝ → Option (Channels ℝ)) : GenModel ℝ where
  computePixel x y :=
    match x.bind fun x => y.bind fun y => evaluator x y with
    | some c => (scaleChannel c.r, scaleChannel c.g, scaleChannel c.b)
    | none => (0, 0, 0)
  inByte x y := by
    have hscale (v : ℝ) : 0 ≤ scaleChannel v ∧ scaleChannel v ≤ 255 := by
      rw [scaleChannel]
      omega
    cases h : evaluator x y with
    | none =>
      simp only [Option.bind_some, h]
      exact ⟨by decide, by decide, by decide⟩
    | some c =>
      simp only [Option.bind_some, h]
      exact ⟨hscale c.r, hscale c.g, hscale c.b⟩

section Seeds

theorem byteHex_injective : Function.Injective byteHex := by
  have hall : ∀ a : Fin 256, (byteHex (UInt8.ofNat a)).map hexChars.idxOf =
      [a.val / 16, a.val % 16] := by decide +kernel
  intro a b h
  have ha := hall ⟨a.toNat, a.toNat_lt⟩
  have hb := hall ⟨b.toNat, b.toNat_lt⟩
  simp only [UInt8.ofNat_toNat] at ha hb
  rw [h, hb, List.cons.injEq, List.cons.injEq] at ha
  exact UInt8.toNat_inj.mp (by omega)

theorem hyphen_notMem_byteHex (byte : UInt8) : (45 : UInt16) ∉ byteHex byte := by
  have hall : ∀ a : Fin 256, (45 : UInt16) ∉ byteHex (UInt8.ofNat a) := by decide +kernel
  simpa using hall ⟨byte.toNat, byte.toNat_lt⟩

theorem flatMap_byteHex_injective {a b : List UInt8} (h : a.flatMap byteHex = b.flatMap byteHex) :
    a = b := by
  induction a generalizing b with
  | nil =>
    cases b with
    | nil => rfl
    | cons y ys => simp [byteHex] at h
  | cons x xs ih =>
    cases b with
    | nil => simp [byteHex] at h
    | cons y ys =>
      rw [List.flatMap_cons, List.flatMap_cons] at h
      obtain ⟨hbyte, hrest⟩ := List.append_inj h rfl
      rw [byteHex_injective hbyte, ih hrest]

theorem bytesToSeed_inj {p s p' s' : List UInt8} :
    bytesToSeed p s = bytesToSeed p' s' ↔ p = p' ∧ s = s' := by
  refine ⟨fun h => ?_, fun ⟨hp, hs⟩ => by rw [hp, hs]⟩
  have hhyphen (bytes : List UInt8) : (45 : UInt16) ∉ bytes.flatMap byteHex := by
    intro hmem
    obtain ⟨byte, -, hbyte⟩ := List.mem_flatMap.mp hmem
    exact hyphen_notMem_byteHex byte hbyte
  obtain ⟨hp, -, hs⟩ := (List.append_cons_inj_of_notMem (hhyphen p) (hhyphen s)).mp h
  exact ⟨flatMap_byteHex_injective hp, flatMap_byteHex_injective hs⟩

end Seeds

section Pixels

theorem scaleChannel_eq {v : ℝ} (h : |v| ≤ 1) :
    scaleChannel v = min 255 ⌊(v + 1) * 128 + 1 / 2⌋ ∧ ⌊(v + 1) * 128 + 1 / 2⌋ ≤ 256 := by
  obtain ⟨hlow, hhigh⟩ := abs_le.mp h
  have hfloor0 : 0 ≤ ⌊(v + 1) * 128 + 1 / 2⌋ := Int.floor_nonneg.mpr (by linarith)
  have hfloor1 : ⌊(v + 1) * 128 + 1 / 2⌋ < 257 := by
    rw [Int.floor_lt]
    push_cast
    linarith
  rw [scaleChannel]
  constructor <;> omega

/-- Every phrase grows a tree, and what is compiled from the text of the tree computes, over any
arithmetic, what the tree means. -/
theorem createModelFromPhrase_eq {N : Type} [Arithmetic N] (phrase : List UInt16) :
    ∃ t k, generate phrase = some t ∧ ExpressionTree.Grown k 0 t ∧
      createModelFromPhrase (N := N) phrase = some fun x y => some (t.color x y) := by
  obtain ⟨t, k, -, ht, -, hgrown, -⟩ := exists_grown phrase
  refine ⟨t, k, ht, hgrown, ?_⟩
  rw [createModelFromPhrase, ht, Option.bind_some, getEvaluator_toString hgrown.constantsLe]

/-- Every seed gives a model, and the pixels of the square are the scaled channels of its colours,
of which only the number 256 is clamped. -/
theorem createModel_computePixel (seedPrefix seedSuffix : List UInt8) :
    ∃ evaluator, createModel (N := ℝ) seedPrefix seedSuffix = some evaluator ∧
      ∀ x y, |x| ≤ 1 → |y| ≤ 1 → ∃ c, evaluator x y = some c ∧ InUnit c ∧
        (model evaluator).computePixel (some x) (some y) =
          (min 255 ⌊(c.r + 1) * 128 + 1 / 2⌋, min 255 ⌊(c.g + 1) * 128 + 1 / 2⌋,
            min 255 ⌊(c.b + 1) * 128 + 1 / 2⌋) := by
  obtain ⟨t, k, -, ht, -, hgrown, -⟩ := exists_grown (bytesToSeed seedPrefix seedSuffix)
  refine ⟨fun x y => some (t.color x y), ?_, fun x y hx hy => ?_⟩
  · rw [createModel, createModelFromPhrase, ht, Option.bind_some,
      getEvaluator_toString hgrown.constantsLe]
  · have hcolor := hgrown.color_inUnit hx hy
    refine ⟨_, rfl, hcolor, ?_⟩
    rw [← (scaleChannel_eq hcolor.1).1, ← (scaleChannel_eq hcolor.2.1).1,
      ← (scaleChannel_eq hcolor.2.2).1]
    rfl

end Pixels

end RandomArt.RandomArtProvider
