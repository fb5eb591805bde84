import RandomArt.FallibleFold

/-!
# Comparing fallible computations up to their errors

Two computations have one outcome when both fail, or both return and what they return is
related. Runs over lists inherit it from their steps, also when one element of the list
is moved past others whose steps commute with its own. Computations are alike when, besides,
they fail with the same error.
-/

namespace RandomArt.FallibleFold

variable {ε ε' ε'' σ τ υ α β : Type}

/-- Both fail, or both return related values. -/
def Outcome (R : σ → τ → Prop) : Except ε σ → Except ε' τ → Prop
  | .ok s, .ok t => R s t
  | .error _, .error _ => True
  | _, _ => False

namespace Outcome

theorem bind {R : σ → τ → Prop} {S : α → β → Prop} {x : Except ε σ} {y : Except ε' τ}
    {f : σ → Except ε α} {g : τ → Except ε' β} (h : Outcome R x y)
    (hnext : ∀ s t, R s t → Outcome S (f s) (g t)) : Outcome S (x.bind f) (y.bind g) := by
  cases x <;> cases y
  · trivial
  · exact h.elim
  · exact h.elim
  · exact hnext _ _ h

theorem map {R : σ → τ → Prop} {S : α → β → Prop} {x : Except ε σ} {y : Except ε' τ}
    {f : σ → α} {g : τ → β} (h : Outcome R x y) (hnext : ∀ s t, R s t → S (f s) (g t)) :
    Outcome S (x.map f) (y.map g) := by
  cases x <;> cases y
  · trivial
  · exact h.elim
  · exact h.elim
  · exact hnext _ _ h

theorem refl {R : σ → σ → Prop} (hrefl : ∀ s, R s s) (x : Except ε σ) : Outcome R x x := by
  cases x
  · trivial
  · exact hrefl _

theorem of_eq {R : σ → σ → Prop} (hrefl : ∀ s, R s s) {x y : Except ε σ} (h : x = y) :
    Outcome R x y := h ▸ refl hrefl x

theorem trans {R : σ → τ → Prop} {S : τ → υ → Prop} {T : σ → υ → Prop}
    (htrans : ∀ s t u, R s t → S t u → T s u) {x : Except ε σ} {y : Except ε' τ}
    {z : Except ε'' υ} (h : Outcome R x y) (h' : Outcome S y z) : Outcome T x z := by
  cases x <;> cases y <;> cases z
  · trivial
  · exact h'.elim
  · exact h.elim
  · exact h.elim
  · exact h.elim
  · exact h.elim
  · exact h'.elim
  · exact htrans _ _ _ h h'

theorem symm {R : σ → τ → Prop} {S : τ → σ → Prop} (hsymm : ∀ s t, R s t → S t s)
    {x : Except ε σ} {y : Except ε' τ} (h : Outcome R x y) : Outcome S y x := by
  cases x <;> cases y
  · trivial
  · exact h.elim
  · exact h.elim
  · exact hsymm _ _ h

/-- Two steps that compute something and then record it commute when neither computes
anything else after the other, and their records commute. -/
theorem swap {R : σ → σ → Prop} {A : α → α → Prop} {B : β → β → Prop}
    (computeA : σ → Except ε α) (recordA : σ → α → σ) (computeB : σ → Except ε β)
    (recordB : σ → β → σ) {s : σ} (hA : ∀ b, Outcome A (computeA s) (computeA (recordB s b)))
    (hB : ∀ a, Outcome B (computeB (recordA s a)) (computeB s))
    (hrecord : ∀ a a' b b', A a a' → B b b' →
      R (recordB (recordA s a) b) (recordA (recordB s b') a')) :
    Outcome R
      (((computeA s).map (recordA s)).bind fun s' => (computeB s').map (recordB s'))
      (((computeB s).map (recordB s)).bind fun s' => (computeA s').map (recordA s')) := by
  rcases hs : computeA s with error | a <;> rcases ht : computeB s with error' | b
  · trivial
  · have ha := hA b
    rw [hs] at ha
    simp only [Except.map, Except.bind]
    rcases hafter : computeA (recordB s b) with error'' | a'
    · trivial
    · rw [hafter] at ha
      exact ha.elim
  · have hb := hB a
    rw [ht] at hb
    simp only [Except.map, Except.bind]
    rcases hafter : computeB (recordA s a) with error'' | b
    · trivial
    · rw [hafter] at hb
      exact hb.elim
  · have ha := hA b
    have hb := hB a
    rw [hs] at ha
    rw [ht] at hb
    simp only [Except.map, Except.bind]
    rcases hafter : computeA (recordB s b) with error | a'
    · rw [hafter] at ha
      exact ha.elim
    · rcases hafter' : computeB (recordA s a) with error | b'
      · rw [hafter'] at hb
        exact hb.elim
      · rw [hafter] at ha
        rw [hafter'] at hb
        exact hrecord a a' b' b ha hb

end Outcome

section Runs

variable {R : σ → σ → Prop} {step : σ → α → Except ε σ}

theorem runAll_outcome {step' : σ → α → Except ε' σ} {l : List α}
    (hstep : ∀ a ∈ l, ∀ s t, R s t → Outcome R (step s a) (step' t a)) {s t : σ} (h : R s t) :
    Outcome R (runAll step l s) (runAll step' l t) := by
  induction l generalizing s t with
  | nil => exact h
  | cons a rest ih =>
    exact (hstep a List.mem_cons_self s t h).bind fun s' t' h' =>
      ih (fun b hb => hstep b (List.mem_cons_of_mem _ hb)) h'

/-- An element may be moved past others when its step commutes with theirs. -/
theorem runAll_move (hrefl : ∀ s, R s s) (htrans : ∀ s t u, R s t → R t u → R s u) {a : α}
    {l : List α} (hstep : ∀ b ∈ l, ∀ s t, R s t → Outcome R (step s b) (step t b))
    (hswap : ∀ b ∈ l, ∀ s, Outcome R ((step s a).bind (step · b)) ((step s b).bind (step · a)))
    (s : σ) : Outcome R (runAll step (a :: l) s) (runAll step (l ++ [a]) s) := by
  induction l generalizing s with
  | nil => exact Outcome.refl hrefl _
  | cons b rest ih =>
    have hrest : ∀ c ∈ rest, ∀ s t, R s t → Outcome R (step s c) (step t c) := fun c hc =>
      hstep c (List.mem_cons_of_mem _ hc)
    have hfirst : Outcome R (runAll step (a :: b :: rest) s) (runAll step (b :: a :: rest) s) := by
      have hbind := (hswap b List.mem_cons_self s).bind fun s' t' h' => runAll_outcome hrest h'
      rcases hsa : step s a with error | s' <;> rcases hsb : step s b with error' | t' <;>
        simpa [runAll, hsa, hsb, Except.bind] using hbind
    refine hfirst.trans htrans ?_
    rw [List.cons_append, runAll, runAll]
    rcases step s b with error | s'
    · trivial
    · exact ih hrest (fun c hc => hswap c (List.mem_cons_of_mem _ hc)) s'

/-- Two stretches that run alike do so within the same list. -/
theorem runAll_within {l l' pre post : List α}
    (hpost : ∀ b ∈ post, ∀ s t, R s t → Outcome R (step s b) (step t b))
    (h : ∀ s, Outcome R (runAll step l s) (runAll step l' s)) (s : σ) :
    Outcome R (runAll step (pre ++ (l ++ post)) s) (runAll step (pre ++ (l' ++ post)) s) := by
  rw [runAll_append, runAll_append]
  refine (Outcome.refl (fun _ => rfl) _).bind ?_
  rintro s' _ rfl
  rw [runAll_append, runAll_append]
  exact (h s').bind fun t t' ht => runAll_outcome hpost ht

/-- An element need not be taken a second time after others that its step commutes with. -/
theorem runAll_again (hrefl : ∀ s, R s s) (hsymm : ∀ s t, R s t → R t s)
    (htrans : ∀ s t u, R s t → R t u → R s u) {a : α} {l : List α}
    (hstep : ∀ b ∈ l, ∀ s t, R s t → Outcome R (step s b) (step t b))
    (hswap : ∀ b ∈ l, ∀ s, Outcome R ((step s a).bind (step · b)) ((step s b).bind (step · a)))
    (hidem : ∀ s, Outcome R ((step s a).bind (step · a)) (step s a)) (s : σ) :
    Outcome R (runAll step (a :: (l ++ [a])) s) (runAll step (a :: l) s) := by
  have hmoved : Outcome R (runAll step (a :: (l ++ [a])) s) (runAll step (a :: a :: l) s) := by
    rw [runAll, runAll]
    refine (Outcome.refl (fun _ => rfl) _).bind ?_
    rintro s' _ rfl
    exact (runAll_move hrefl htrans hstep hswap s').symm hsymm
  refine hmoved.trans htrans ?_
  have hbind := (hidem s).bind fun s' t' h' => runAll_outcome hstep h'
  rcases hs : step s a with error | s'
  · simp only [runAll, hs, Except.bind]
    trivial
  · simpa only [runAll, hs, Except.bind] using hbind

end Runs

/-- Both fail with the same error, or both return related values. -/
def Alike (R : σ → τ → Prop) : Except ε σ → Except ε τ → Prop
  | .ok s, .ok t => R s t
  | .error e, .error e' => e = e'
  | _, _ => False

namespace Alike

theorem bind {R : σ → τ → Prop} {S : α → β → Prop} {x : Except ε σ} {y : Except ε τ}
    {f : σ → Except ε α} {g : τ → Except ε β} (h : Alike R x y)
    (hnext : ∀ s t, R s t → Alike S (f s) (g t)) : Alike S (x.bind f) (y.bind g) := by
  cases x <;> cases y
  · exact h
  · exact h.elim
  · exact h.elim
  · exact hnext _ _ h

theorem map {R : σ → τ → Prop} {S : α → β → Prop} {x : Except ε σ} {y : Except ε τ}
    {f : σ → α} {g : τ → β} (h : Alike R x y) (hnext : ∀ s t, R s t → S (f s) (g t)) :
    Alike S (x.map f) (y.map g) := by
  cases x <;> cases y
  · exact h
  · exact h.elim
  · exact h.elim
  · exact hnext _ _ h

theorem refl {R : σ → σ → Prop} (hrefl : ∀ s, R s s) (x : Except ε σ) : Alike R x x := by
  cases x
  · rfl
  · exact hrefl _

end Alike

theorem runAll_alike {R : σ → σ → Prop} {step step' : σ → α → Except ε σ} {l : List α}
    (hstep : ∀ a ∈ l, ∀ s t, R s t → Alike R (step s a) (step' t a)) {s t : σ} (h : R s t) :
    Alike R (runAll step l s) (runAll step' l t) := by
  induction l generalizing s t with
  | nil => exact h
  | cons a rest ih =>
    exact (hstep a List.mem_cons_self s t h).bind fun s' t' h' =>
      ih (fun b hb => hstep b (List.mem_cons_of_mem _ hb)) h'

end RandomArt.FallibleFold
