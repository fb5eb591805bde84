import Mathlib.Order.Lattice

/-!
# Computations with loops

A loop need not end. A computation is therefore run on fuel, which bounds the rounds of each of
its loops; it returns a result when it gives that result on any fuel that is large enough.
-/

namespace RandomArt

abbrev Looping (α : Type) := ReaderT ℕ Option α

namespace Looping

variable {α β σ : Type}

/-- What a round of a loop comes to. -/
inductive Round (σ α : Type) where
  | next (state : σ)
  | done (result : α)

/-- At most the given number of rounds. -/
def rounds (round : σ → Looping (Round σ α)) : ℕ → σ → Looping α
  | 0, _ => fun _ => none
  | limit + 1, state => do
    match ← round state with
    | .next state' => rounds round limit state'
    | .done result => pure result

def loop (round : σ → Looping (Round σ α)) (state : σ) : Looping α :=
  fun fuel => rounds round fuel state fuel

def Returns (m : Looping α) (a : α) : Prop := ∃ enough, ∀ fuel ≥ enough, m fuel = some a

theorem returns_pure (a : α) : Returns (pure a) a := ⟨0, fun _ _ => rfl⟩

theorem Returns.bind {m : Looping α} {f : α → Looping β} {a : α} {b : β} (hm : Returns m a)
    (hf : Returns (f a) b) : Returns (m >>= f) b := by
  obtain ⟨enough, hm⟩ := hm
  obtain ⟨enough', hf⟩ := hf
  refine ⟨max enough enough', fun fuel hfuel => ?_⟩
  change (m fuel).bind (fun a => f a fuel) = some b
  rw [hm fuel (le_trans (le_max_left _ _) hfuel), Option.bind_some,
    hf fuel (le_trans (le_max_right _ _) hfuel)]

/-- A computation returns one result at most. -/
theorem Returns.unique {m : Looping α} {a b : α} (ha : Returns m a) (hb : Returns m b) :
    a = b := by
  obtain ⟨enough, ha⟩ := ha
  obtain ⟨enough', hb⟩ := hb
  have hboth := (ha _ (le_max_left enough enough')).symm.trans (hb _ (le_max_right _ _))
  exact Option.some.inj hboth

section Loops

variable {round : σ → Looping (Round σ α)}

/-- Enough rounds on enough fuel give the result. -/
private def Ends (round : σ → Looping (Round σ α)) (state : σ) (a : α) : Prop :=
  ∃ enough, ∀ limit ≥ enough, ∀ fuel ≥ enough, rounds round limit state fuel = some a

private theorem ends_of_done {state : σ} {a : α} (h : Returns (round state) (.done a)) :
    Ends round state a := by
  obtain ⟨enough, h⟩ := h
  refine ⟨enough + 1, fun limit hlimit fuel hfuel => ?_⟩
  obtain ⟨limit, rfl⟩ := Nat.exists_eq_add_of_le' (Nat.le_of_add_left_le hlimit)
  change (round state fuel).bind _ = some a
  rw [h fuel (Nat.le_of_succ_le hfuel)]
  rfl

private theorem ends_of_next {state state' : σ} {a : α}
    (h : Returns (round state) (.next state')) (h' : Ends round state' a) :
    Ends round state a := by
  obtain ⟨enough, h⟩ := h
  obtain ⟨enough', h'⟩ := h'
  refine ⟨max enough enough' + 1, fun limit hlimit fuel hfuel => ?_⟩
  obtain ⟨limit, rfl⟩ := Nat.exists_eq_add_of_le' (Nat.le_of_add_left_le hlimit)
  change (round state fuel).bind _ = some a
  rw [h fuel (by omega), Option.bind_some]
  exact h' limit (by omega) fuel (by omega)

/-- The rule for loops: a round that starts where the invariant holds ends the loop with a good
result, or leads on to a smaller state where the invariant holds again. -/
theorem exists_returns_loop (I : σ → Prop) (Q : α → Prop) (size : σ → ℕ)
    (hround : ∀ state, I state → (∃ a, Returns (round state) (.done a) ∧ Q a) ∨
      ∃ state', Returns (round state) (.next state') ∧ I state' ∧ size state' < size state)
    {state : σ} (hstate : I state) : ∃ a, Returns (loop round state) a ∧ Q a := by
  have hends : ∃ a, Ends round state a ∧ Q a := by
    generalize hsize : size state = bound
    induction bound using Nat.strongRecOn generalizing state with
    | ind bound ih =>
      rcases hround state hstate with ⟨a, hdone, ha⟩ | ⟨state', hnext, hstate', hlt⟩
      · exact ⟨a, ends_of_done hdone, ha⟩
      · obtain ⟨a, hends, ha⟩ := ih _ (hsize ▸ hlt) hstate' rfl
        exact ⟨a, ends_of_next hnext hends, ha⟩
  obtain ⟨a, ⟨enough, hends⟩, ha⟩ := hends
  exact ⟨a, ⟨enough, fun fuel hfuel => hends fuel hfuel fuel hfuel⟩, ha⟩

end Loops

end Looping

end RandomArt
