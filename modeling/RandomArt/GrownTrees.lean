import RandomArt.ExpressionTree
import Mathlib.Algebra.Group.Action.Defs
import Mathlib.Algebra.Order.BigOperators.Group.List

/-!
# What is grown from a seed

The generator never fails. All leaves of its trees stand at one depth, between four and seven,
every operator stands deep enough, the constants keep their ranges, and the colours of the palette
are used in turn, from the left to the right.
-/

namespace RandomArt.Formula
open Binary64

namespace ExpressionTree

def operator : ExpressionTree → Operator
  | varX => .varX
  | varY => .varY
  | varT => .varT
  | palette _ _ => .palette
  | bw _ => .bw
  | random _ => .random
  | not _ => .not
  | sum _ _ => .sum
  | mul _ _ => .mul
  | mod _ _ => .mod
  | tent _ => .tent
  | well _ => .well
  | sin _ _ _ => .sin
  | mix _ _ _ => .mix
  | level _ _ _ _ => .level
  | closest _ _ _ => .closest

def args : ExpressionTree → List ExpressionTree
  | varX | varY | varT | palette _ _ | bw _ | random _ => []
  | not e | tent e | well e | sin _ _ e => [e]
  | sum e1 e2 | mul e1 e2 | mod e1 e2 => [e1, e2]
  | mix e e1 e2 | level _ e e1 e2 | closest e e1 e2 => [e, e1, e2]

/-- The colours of the palette that a tree uses, from the left to the right. -/
def hexes : ExpressionTree → List String
  | palette hex _ => [hex]
  | varX | varY | varT | bw _ | random _ => []
  | not e | tent e | well e | sin _ _ e => e.hexes
  | sum e1 e2 | mul e1 e2 | mod e1 e2 => e1.hexes ++ e2.hexes
  | mix e e1 e2 | level _ e e1 e2 | closest e e1 e2 => e.hexes ++ (e1.hexes ++ e2.hexes)

/-- The constants of the node itself are in their ranges. -/
def InRange : ExpressionTree → Prop
  | palette hex c => c = (parseColor hex).map centered
  | bw c => |c| ≤ fourFifths
  | random c => |c.r| ≤ 1 ∧ |c.g| ≤ 1 ∧ |c.b| ≤ 1
  | sin phase freq _ => (0 ≤ phase ∧ phase ≤ pi) ∧ 1 ≤ freq ∧ freq ≤ 6
  | level treshold _ _ _ => |treshold| ≤ fourFifths
  | _ => True

/-- A tree whose root stands at the given depth, with all of its leaves at the depth `k`. -/
inductive Grown (k : ℕ) : ℕ → ExpressionTree → Prop where
  | leaf {t} (terminal : t.operator ∈ terminals) (inRange : t.InRange) : Grown k k t
  | node {depth t} (above : depth < k) (nonterminal : t.operator ∈ nonterminals)
      (deep : t.operator.mindepth ≤ depth) (inRange : t.InRange)
      (below : ∀ e ∈ t.args, Grown k (depth + 1) e) : Grown k depth t

end ExpressionTree

section Palette

/-- The state in which the given colours of a palette have been used. -/
structure Gen.Used (palette used : List String) (s : Gen) : Prop where
  ready : s.random.Ready
  palette_eq : s.palette = some palette
  idx : s.paletteIdx = used.length % palette.length
  inTurn : ∀ j < used.length, used[j]? = palette[j % palette.length]?

variable {palette used : List String}

theorem uniform_spec {min max : ℚ} (hmin : nearest min = min) (hmax : nearest max = max)
    (hwidth : nearest (max - min) = max - min) (hle : min ≤ max) :
    Achieves (Gen.Used palette used) (uniform min max) fun c s =>
      (min ≤ c ∧ c ≤ max) ∧ s.Used palette used := by
  intro s hs
  obtain ⟨hrange, hready⟩ := hs.ready.uniform hmin hmax hwidth hle
  exact ⟨_, _, rfl, hrange, hready, hs.palette_eq, hs.idx, hs.inTurn⟩

theorem choice_spec {α : Type} {arr : List α} (hne : arr ≠ []) (hlength : arr.length ≤ 2 ^ 21) :
    Achieves (Gen.Used palette used) (choice arr) fun a s => a ∈ arr ∧ s.Used palette used := by
  intro s hs
  obtain ⟨⟨a, ha, hchoice⟩, hready⟩ := hs.ready.choice hne hlength
  refine ⟨a, { s with random := (s.random.choice arr).2 }, ?_, ha, hready, hs.palette_eq, hs.idx,
    hs.inTurn⟩
  have hrun : choice arr s = (s.random.choice arr).1.map fun a =>
      (a, { s with random := (s.random.choice arr).2 }) := rfl
  rw [hrun, hchoice]
  rfl

theorem wrap_succ {i n : ℕ} (hn : 0 < n) :
    (if n ≤ i % n + 1 then 0 else i % n + 1) = (i + 1) % n := by
  have hlt := Nat.mod_lt i hn
  have hsucc : (i + 1) % n = (i % n + 1) % n := by rw [Nat.mod_add_mod]
  rw [hsucc]
  split_ifs with h
  · rw [show i % n + 1 = n by omega, Nat.mod_self]
  · exact (Nat.mod_eq_of_lt (by omega)).symm

theorem nextHex_spec (hne : palette ≠ []) :
    Achieves (Gen.Used palette used) nextHex fun hex s => s.Used palette (used ++ [hex]) := by
  intro s hs
  have hpos := List.length_pos_iff.mpr hne
  have hlt : s.paletteIdx < palette.length := hs.idx ▸ Nat.mod_lt _ hpos
  refine ⟨palette[s.paletteIdx], { s with
    paletteIdx := if palette.length ≤ s.paletteIdx + 1 then 0 else s.paletteIdx + 1 }, ?_,
    hs.ready, hs.palette_eq, ?_, ?_⟩
  · rw [nextHex, hs.palette_eq, Option.bind_some, List.getElem?_eq_getElem hlt]
    rfl
  · rw [List.length_append, List.length_singleton]
    simp only [hs.idx, wrap_succ hpos]
  · intro j hj
    rw [List.length_append, List.length_singleton] at hj
    rcases Nat.lt_succ_iff_lt_or_eq.mp hj with hlt' | rfl
    · rw [List.getElem?_append_left hlt', hs.inTurn j hlt']
    · rw [List.getElem?_append_right le_rfl, Nat.sub_self, ← hs.idx,
        List.getElem?_eq_getElem hlt]
      rfl

end Palette

section Construction

variable {palette used : List String}

theorem uniform_fourFifths_spec : Achieves (Gen.Used palette used)
    (uniform (-fourFifths) fourFifths) fun c s => |c| ≤ fourFifths ∧ s.Used palette used :=
  (uniform_spec (by decide +kernel) (by decide +kernel) (by decide +kernel)
    (by decide +kernel)).weaken (fun _ hs => hs) fun _ _ ⟨hrange, hs⟩ => ⟨abs_le.mpr hrange, hs⟩

theorem uniform_one_spec : Achieves (Gen.Used palette used) (uniform (-1) 1) fun c s =>
    |c| ≤ 1 ∧ s.Used palette used :=
  (uniform_spec (by decide +kernel) (by decide +kernel) (by decide +kernel)
    (by decide +kernel)).weaken (fun _ hs => hs) fun _ _ ⟨hrange, hs⟩ => ⟨abs_le.mpr hrange, hs⟩

/-- A terminal is built with its constants in range. Only the palette's uses a colour. -/
theorem construct_terminal_spec (hne : palette ≠ []) {op : Operator} (hop : op ∈ terminals) :
    Achieves (Gen.Used palette used) (op.construct []) fun t s =>
      t.operator = op ∧ t.InRange ∧ s.Used palette (used ++ t.hexes) := by
  have hnothing (s : Gen) (hs : s.Used palette used) : s.Used palette (used ++ []) := by
    rwa [List.append_nil]
  cases op with
  | varX | varY | varT => exact .pure fun s hs => ⟨rfl, trivial, hnothing s hs⟩
  | palette => exact (nextHex_spec hne).bind fun hex => .pure fun s hs => ⟨rfl, rfl, hs⟩
  | bw =>
    exact uniform_fourFifths_spec.bind fun c => .pure fun s ⟨hc, hs⟩ =>
      ⟨rfl, hc, hnothing s hs⟩
  | random =>
    refine uniform_one_spec.bind fun r => .of_pure fun hr => ?_
    refine uniform_one_spec.bind fun g => .of_pure fun hg => ?_
    exact uniform_one_spec.bind fun b => .pure fun s ⟨hb, hs⟩ =>
      ⟨rfl, ⟨hr, hg, hb⟩, hnothing s hs⟩
  | _ => exact absurd hop (by decide)

/-- An operator is built from its arguments with its constants in range, and uses no colours. -/
theorem construct_nonterminal_spec {op : Operator} (hop : op ∈ nonterminals)
    {args : List ExpressionTree} (hargs : args.length = op.arity) :
    Achieves (Gen.Used palette used) (op.construct args) fun t s =>
      t.operator = op ∧ t.args = args ∧ t.InRange ∧ s.Used palette used := by
  cases op with
  | varX | varY | varT | palette | bw | random => exact absurd hop (by decide)
  | not | tent | well =>
    obtain ⟨e, rfl⟩ := List.length_eq_one_iff.mp hargs
    exact .pure fun s hs => ⟨rfl, rfl, trivial, hs⟩
  | sin =>
    obtain ⟨e, rfl⟩ := List.length_eq_one_iff.mp hargs
    refine (uniform_spec (by decide +kernel) (by decide +kernel) (by decide +kernel)
      (by decide +kernel)).bind fun phase => .of_pure fun hphase => ?_
    exact (uniform_spec (by decide +kernel) (by decide +kernel) (by decide +kernel)
      (by decide +kernel)).bind fun freq => .pure fun s ⟨hfreq, hs⟩ =>
        ⟨rfl, rfl, ⟨hphase, hfreq⟩, hs⟩
  | sum | mul | mod =>
    obtain ⟨e1, e2, rfl⟩ := List.length_eq_two.mp hargs
    exact .pure fun s hs => ⟨rfl, rfl, trivial, hs⟩
  | mix | closest =>
    obtain ⟨e, e1, e2, rfl⟩ := List.length_eq_three.mp hargs
    exact .pure fun s hs => ⟨rfl, rfl, trivial, hs⟩
  | level =>
    obtain ⟨e, e1, e2, rfl⟩ := List.length_eq_three.mp hargs
    exact uniform_fourFifths_spec.bind fun treshold => .pure fun s ⟨htreshold, hs⟩ =>
      ⟨rfl, rfl, htreshold, hs⟩

theorem ExpressionTree.hexes_eq_flatMap {t : ExpressionTree} (h : t.operator ∈ nonterminals) :
    t.hexes = t.args.flatMap hexes := by
  cases t with
  | palette hex c => exact absurd (show Operator.palette ∈ nonterminals from h) (by decide)
  | _ => simp [hexes, args]

theorem mem_nonterminals_iff {op : Operator} : op ∈ nonterminals ↔ 0 < op.arity := by
  cases op <;> decide

theorem mem_terminals_iff {op : Operator} : op ∈ terminals ↔ op.arity = 0 := by
  cases op <;> decide

end Construction

section Growth

open ExpressionTree

variable {palette : List String}

/-- Trees grow to the depth they are meant to, using the colours in turn. -/
theorem generateLevels_spec (hne : palette ≠ []) (levels depth : ℕ) (used : List String) :
    Achieves (Gen.Used palette used) (generateLevels levels depth) fun t s =>
      Grown (depth + levels) depth t ∧ s.Used palette (used ++ t.hexes) := by
  induction levels generalizing depth used with
  | zero =>
    refine (choice_spec (by decide) (by decide)).bind fun op => .of_pure fun hop => ?_
    refine (construct_terminal_spec hne hop).weaken (fun _ hs => hs) ?_
    rintro t s ⟨rfl, hrange, hs⟩
    exact ⟨.leaf hop hrange, hs⟩
  | succ levels ih =>
    have hmix : Operator.mix ∈ nonterminals.filter fun i => i.mindepth ≤ depth := by
      refine List.mem_filter.mpr ⟨by decide, ?_⟩
      simp [Operator.mindepth]
    have hlength : (nonterminals.filter fun i => i.mindepth ≤ depth).length ≤ 2 ^ 21 :=
      (List.length_filter_le _ _).trans (by decide)
    refine (choice_spec (List.ne_nil_of_mem hmix) hlength).bind fun op => .of_pure fun hop => ?_
    obtain ⟨hop, hdeep⟩ := List.mem_filter.mp hop
    have hdeep : op.mindepth ≤ depth := by simpa using hdeep
    -- The arguments grow from the left to the right.
    have hloop := Achieves.mapM (List.range op.arity)
      (f := fun _ => generateLevels levels (depth + 1))
      (I := fun args s => (∀ e ∈ args, Grown (depth + 1 + levels) (depth + 1) e) ∧
        s.Used palette (used ++ args.flatMap hexes)) fun done _ _ => .of_pure fun hdone =>
        (ih (depth + 1) (used ++ done.flatMap hexes)).weaken (fun _ hs => hs)
          fun t s ⟨ht, hs⟩ => by
            refine ⟨fun e he => ?_, ?_⟩
            · rcases List.mem_append.mp he with he | he
              · exact hdone e he
              · rwa [List.mem_singleton.mp he]
            · rwa [List.flatMap_append, List.flatMap_singleton, ← List.append_assoc]
    refine (hloop.weaken (fun s hs => ⟨by simp, by simpa using hs⟩) fun _ _ h => h).bind
      fun args => .of_pure fun hargs => .of_pure fun hgrown => ?_
    refine (construct_nonterminal_spec hop (by rw [hargs, List.length_range])).weaken
      (fun _ hs => hs) ?_
    rintro t s ⟨rfl, rfl, hrange, hs⟩
    refine ⟨.node (by omega) hop hdeep hrange ?_, by rwa [hexes_eq_flatMap hop]⟩
    rwa [show depth + (levels + 1) = depth + 1 + levels by omega]

theorem palettes_ne_nil {p : List String} (h : p ∈ palettes) : p ≠ [] := by
  have hall : palettes.all (fun p => !p.isEmpty) = true := by decide +kernel
  have := List.all_eq_true.mp hall p h
  simpa using this

theorem exists_grown (seed : List UInt16) : ∃ t k palette, generate seed = some t ∧
    (4 ≤ k ∧ k < 8) ∧ Grown k 0 t ∧ palette ∈ palettes ∧
      ∀ j < t.hexes.length, t.hexes[j]? = palette[j % palette.length]? := by
  obtain ⟨⟨palette, hpalette, hchoice⟩, hready⟩ :=
    (Alea.ready_seeded seed).choice (show palettes ≠ [] by decide +kernel) (by decide +kernel)
  obtain ⟨⟨k, hlow, hhigh, hk⟩, hready⟩ :=
    hready.randrange (show 4 < 8 by decide) (by decide)
  have hstart : Gen.Used palette [] ⟨_, some palette, 0⟩ :=
    ⟨hready, rfl, by simp, fun j hj => absurd hj (by simp)⟩
  obtain ⟨t, s, hrun, hgrown, hused⟩ :=
    generateLevels_spec (palettes_ne_nil hpalette) k 0 [] _ hstart
  refine ⟨t, k, palette, ?_, ⟨hlow, hhigh⟩, by simpa using hgrown, hpalette, by
    simpa using hused.inTurn⟩
  have hlevels : (⌈(k : ℚ)⌉ - (0 : ℕ)).toNat = k := by simp
  rw [generate]
  simp only [hchoice]
  have hk' : (((Alea.seeded seed).choice palettes).2.randrange 4 8).1 = k := by exact_mod_cast hk
  rw [hk', generateTree, hlevels]
  have hrun' : generateLevels k 0 ⟨(((Alea.seeded seed).choice palettes).2.randrange 4 8).2,
      some palette, 0⟩ = some (t, s) := by exact_mod_cast hrun
  rw [hrun']
  rfl

/-- A tree has as many leaves as three branches at every level give, at most. -/
theorem ExpressionTree.Grown.length_hexes_le {k depth : ℕ} {t : ExpressionTree}
    (h : Grown k depth t) : t.hexes.length ≤ 3 ^ (k - depth) := by
  induction h with
  | @leaf t hterminal _ =>
    rw [Nat.sub_self]
    cases t <;> simp_all [hexes, operator, mem_terminals_iff, Operator.arity]
  | @node depth t habove hnonterminal _ _ _ ih =>
    have hargs : t.args.length ≤ 3 := by cases t <;> simp [args]
    have hsum := List.sum_le_card_nsmul (t.args.map fun e => e.hexes.length) (3 ^ (k - (depth + 1)))
      (by simpa using ih)
    have hpow : 3 ^ (k - depth) = 3 * 3 ^ (k - (depth + 1)) := by
      rw [← pow_succ', show k - (depth + 1) + 1 = k - depth by omega]
    rw [List.length_map, smul_eq_mul] at hsum
    rw [hexes_eq_flatMap hnonterminal, List.length_flatMap, hpow]
    exact hsum.trans (Nat.mul_le_mul_right _ hargs)

/-- A seed grows a tree with all of its leaves at one depth and every operator deep enough, and
uses the colours of one palette in turn. Only a mixture or a level stands at the root. -/
theorem generate_grown (seed : List UInt16) : ∃ t k palette, generate seed = some t ∧
    (4 ≤ k ∧ k < 8) ∧ Grown k 0 t ∧ (t.operator = .mix ∨ t.operator = .level) ∧
      palette ∈ palettes ∧ t.hexes.length ≤ 3 ^ k ∧
      ∀ j < t.hexes.length, t.hexes[j]? = palette[j % palette.length]? := by
  obtain ⟨t, k, palette, hrun, hk, hgrown, hpalette, hinTurn⟩ := exists_grown seed
  refine ⟨t, k, palette, hrun, hk, hgrown, ?_, hpalette, hgrown.length_hexes_le, hinTurn⟩
  -- The depth at the root is zero, where nothing else may stand.
  cases hgrown with
  | leaf _ _ => omega
  | node _ hnonterminal hdeep _ _ =>
    generalize t.operator = op at *
    cases op <;> simp_all [Operator.mindepth]

end Growth

end RandomArt.Formula
