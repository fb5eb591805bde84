import Mathlib.Control.Monad.Basic
import Mathlib.Data.List.Basic

/-!
# Computations on a state that do not fail

A computation that may fail achieves something when it returns from every state that satisfies its
precondition, with a result and a state that satisfy its postcondition.
-/

namespace RandomArt

variable {σ α β : Type}

/-- From every such state the computation returns, as promised. -/
def Achieves (P : σ → Prop) (m : StateT σ Option α) (Q : α → σ → Prop) : Prop :=
  ∀ s, P s → ∃ a s', m s = some (a, s') ∧ Q a s'

namespace Achieves

variable {P P' : σ → Prop} {Q Q' : α → σ → Prop} {m : StateT σ Option α}

theorem pure {a : α} (h : ∀ s, P s → Q a s) : Achieves P (pure a) Q := fun s hs =>
  ⟨a, s, rfl, h s hs⟩

theorem bind {f : α → StateT σ Option β} {R : β → σ → Prop} (hm : Achieves P m Q)
    (hf : ∀ a, Achieves (Q a) (f a) R) : Achieves P (m >>= f) R := by
  intro s hs
  obtain ⟨a, s', hrun, hQ⟩ := hm s hs
  obtain ⟨b, s'', hrun', hR⟩ := hf a s' hQ
  refine ⟨b, s'', ?_, hR⟩
  change (m s).bind (fun p => f p.1 p.2) = _
  rw [hrun]
  exact hrun'

theorem weaken (h : Achieves P m Q) (hpre : ∀ s, P' s → P s) (hpost : ∀ a s, Q a s → Q' a s) :
    Achieves P' m Q' := by
  intro s hs
  obtain ⟨a, s', hrun, hQ⟩ := h s (hpre s hs)
  exact ⟨a, s', hrun, hpost a s' hQ⟩

/-- What a precondition says apart from the state is known afterwards. -/
theorem of_pure {p : Prop} (h : p → Achieves P m Q) : Achieves (fun s => p ∧ P s) m Q :=
  fun s hs => h hs.1 s hs.2

/-- A loop keeps what every round keeps of the results so far. -/
theorem mapM {γ : Type} {f : γ → StateT σ Option α} {I : List α → σ → Prop} (xs : List γ)
    (h : ∀ done, ∀ x ∈ xs, Achieves (I done) (f x) fun a => I (done ++ [a])) :
    Achieves (I []) (xs.mapM f) fun as s => as.length = xs.length ∧ I as s := by
  have hrest : ∀ ys : List γ, (∀ x ∈ ys, x ∈ xs) → ∀ done, Achieves (I done) (ys.mapM f) fun as s =>
      as.length = ys.length ∧ I (done ++ as) s := by
    intro ys
    induction ys with
    | nil =>
      intro _ done
      rw [List.mapM_nil]
      exact pure fun s hs => ⟨rfl, by rwa [List.append_nil]⟩
    | cons y ys ih =>
      intro hys done
      rw [List.mapM_cons]
      refine (h done y (hys y List.mem_cons_self)).bind fun a => ?_
      refine (ih (fun x hx => hys x (List.mem_cons_of_mem y hx)) (done ++ [a])).bind fun as => ?_
      refine pure fun s ⟨hlength, hI⟩ => ⟨by simp [hlength], ?_⟩
      rwa [List.append_assoc, List.singleton_append] at hI
  exact hrest xs (fun _ h => h) []

end Achieves

end RandomArt
