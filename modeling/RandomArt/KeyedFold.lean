import Mathlib.Data.List.Basic
import Mathlib.Data.Option.Basic

/-!
# Folds over items with keys

Where steps of different keys may change places, a fold only depends on the items of each key and
their order. Items that leave every state as it is do not count.
-/

namespace RandomArt.KeyedFold

variable {α σ κ : Type} {key : α → κ} {step : σ → α → Option σ}

/-- Steps for items of different keys may change places. -/
def Commutes (key : α → κ) (step : σ → α → Option σ) : Prop :=
  ∀ a b, key a ≠ key b → ∀ s, (step s a).bind (step · b) = (step s b).bind (step · a)

theorem foldlM_move (h : Commutes key step) {a : α} {before : List α}
    (hkey : ∀ b ∈ before, key b ≠ key a) (after : List α) (s : σ) :
    (before ++ a :: after).foldlM step s = (a :: (before ++ after)).foldlM step s := by
  induction before generalizing s with
  | nil => rfl
  | cons b before ih =>
    have hrest := ih fun c hc => hkey c (List.mem_cons_of_mem _ hc)
    have hswap := h b a (hkey b List.mem_cons_self) s
    calc (b :: before ++ a :: after).foldlM step s
        = (step s b).bind fun s' => (before ++ a :: after).foldlM step s' := rfl
      _ = (step s b).bind fun s' => (a :: (before ++ after)).foldlM step s' := by
        simp only [hrest]
      _ = ((step s b).bind (step · a)).bind fun s' => (before ++ after).foldlM step s' := by
        rw [Option.bind_assoc]
        rfl
      _ = ((step s a).bind (step · b)).bind fun s' => (before ++ after).foldlM step s' := by
        rw [hswap]
      _ = (a :: (b :: before ++ after)).foldlM step s := by
        rw [Option.bind_assoc]
        rfl

variable [DecidableEq κ]

theorem foldlM_congr (h : Commutes key step) {l l' : List α}
    (hsame : ∀ k, l.filter (key · = k) = l'.filter (key · = k)) (s : σ) :
    l.foldlM step s = l'.foldlM step s := by
  induction l generalizing l' s with
  | nil =>
    cases l' with
    | nil => rfl
    | cons a l' =>
      have ha := hsame (key a)
      rw [List.filter_nil, List.filter_cons_of_pos (by simp)] at ha
      cases ha
  | cons a l ih =>
    have ha := hsame (key a)
    rw [List.filter_cons_of_pos (by simp)] at ha
    obtain ⟨before, after, rfl, hbefore, -, hafter⟩ := List.filter_eq_cons_iff.mp ha.symm
    have hkey : ∀ b ∈ before, key b ≠ key a := fun b hb => by simpa using hbefore b hb
    rw [foldlM_move h hkey, List.foldlM_cons, List.foldlM_cons]
    congr 1
    funext s'
    refine ih (fun k => ?_) s'
    by_cases hk : key a = k
    · have hnone : before.filter (key · = k) = [] := by
        rw [List.filter_eq_nil_iff]
        exact fun b hb => by simpa [← hk] using hkey b hb
      rw [List.filter_append, hnone, List.nil_append, ← hk, hafter]
    · have hk' := hsame k
      rwa [List.filter_cons_of_neg (by simpa using hk), List.filter_append,
        List.filter_cons_of_neg (by simpa using hk), ← List.filter_append] at hk'

variable {known : κ → Bool}

omit [DecidableEq κ] in
theorem foldlM_filter (hskip : ∀ a, known (key a) = false → ∀ s, step s a = some s) (l : List α)
    (s : σ) : l.foldlM step s = (l.filter fun a => known (key a)).foldlM step s := by
  induction l generalizing s with
  | nil => rfl
  | cons a l ih =>
    by_cases hknown : known (key a) = true
    · rw [List.filter_cons_of_pos (by simpa using hknown), List.foldlM_cons, List.foldlM_cons]
      exact congrArg _ (funext ih)
    · rw [List.filter_cons_of_neg (by simpa using hknown), ← ih, List.foldlM_cons,
        hskip a (Bool.not_eq_true _ ▸ hknown)]
      rfl

/-- The items of each key that counts, in their order, are all that a fold depends on. -/
theorem foldlM_congr_known (h : Commutes key step)
    (hskip : ∀ a, known (key a) = false → ∀ s, step s a = some s) {l l' : List α}
    (hsame : ∀ k, known k = true → l.filter (key · = k) = l'.filter (key · = k)) (s : σ) :
    l.foldlM step s = l'.foldlM step s := by
  rw [foldlM_filter hskip l, foldlM_filter hskip l']
  refine foldlM_congr h (fun k => ?_) s
  rw [List.filter_filter, List.filter_filter]
  by_cases hk : known k = true
  · have hboth : (fun a => decide (key a = k) && known (key a)) = (key · = k) := by
      funext a
      by_cases ha : key a = k <;> simp [ha, hk]
    simpa only [hboth] using hsame k hk
  · have hnone : (fun a => decide (key a = k) && known (key a)) = fun _ => false := by
      funext a
      by_cases ha : key a = k
      · simp [ha, hk]
      · simp [ha]
    simp only [hnone, List.filter_false]

end RandomArt.KeyedFold
