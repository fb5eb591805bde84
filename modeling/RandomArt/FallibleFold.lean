import Mathlib.Data.List.Basic

/-!
# Folding a list through steps that may fail

Sequences in `Except` that return have returned from both of their parts. `runAll` takes a
state through one step for each element of a list and stops at the first failure. Its rules
carry an invariant from each step to the whole run: one for runs that are to complete, one
for runs that have completed, and one that compares two runs over the same list.
-/

namespace RandomArt.FallibleFold

variable {ε σ τ α β : Type}

/-- A sequence that returns has returned from both of its parts. -/
theorem exists_of_bind_eq_ok {x : Except ε α} {f : α → Except ε β} {b : β}
    (h : x >>= f = .ok b) : ∃ a, x = .ok a ∧ f a = .ok b := by
  cases x with
  | error e => cases h
  | ok a => exact ⟨a, rfl, h⟩

theorem exists_of_map_eq_ok {x : Except ε α} {f : α → β} {b : β} (h : x.map f = .ok b) :
    ∃ a, x = .ok a ∧ f a = b := by
  cases x with
  | error e => cases h
  | ok a => exact ⟨a, rfl, Except.ok.inj h⟩

theorem ok_of_mapError_eq_ok {ε' : Type} {x : Except ε α} {f : ε → ε'} {a : α}
    (h : x.mapError f = .ok a) : x = .ok a := by
  cases x with
  | error e => cases h
  | ok b => rw [Except.ok.inj h]

theorem bind_of_ok {x : Except ε α} {f : α → Except ε β} {a : α} (h : x = .ok a) :
    x >>= f = f a := by
  rw [h]
  rfl

theorem mapM_cons_eq_ok {f : α → Except ε β} {x : α} {xs : List α} {zs : List β} :
    (x :: xs).mapM f = .ok zs ↔ ∃ y ys, f x = .ok y ∧ xs.mapM f = .ok ys ∧ zs = y :: ys := by
  rw [List.mapM_cons]
  constructor
  · intro h
    obtain ⟨y, hy, h⟩ := exists_of_bind_eq_ok h
    obtain ⟨ys, hys, h⟩ := exists_of_bind_eq_ok h
    cases h
    exact ⟨y, ys, hy, hys, rfl⟩
  · rintro ⟨y, ys, hy, hys, rfl⟩
    rw [bind_of_ok hy, bind_of_ok hys]
    rfl

/-- There and back over a list, seen through `h`, is there and back over each element. -/
theorem mapM_roundTrip_iff {f : α → Except ε β} {g : β → Except ε τ} {h : τ → σ} {h' : α → σ}
    (xs : List α) :
    (∃ ys zs, xs.mapM f = .ok ys ∧ ys.mapM g = .ok zs ∧ zs.map h = xs.map h') ↔
      ∀ x ∈ xs, ∃ y z, f x = .ok y ∧ g y = .ok z ∧ h z = h' x := by
  induction xs with
  | nil => exact iff_of_true ⟨[], [], rfl, rfl, rfl⟩ (by simp)
  | cons x xs ih =>
    rw [List.forall_mem_cons, ← ih]
    constructor
    · rintro ⟨ys, zs, hys, hzs, heq⟩
      obtain ⟨y, ys', hy, hys', rfl⟩ := mapM_cons_eq_ok.mp hys
      obtain ⟨z, zs', hz, hzs', rfl⟩ := mapM_cons_eq_ok.mp hzs
      obtain ⟨hhead, htail⟩ := List.cons.inj heq
      exact ⟨⟨y, z, hy, hz, hhead⟩, ys', zs', hys', hzs', htail⟩
    · rintro ⟨⟨y, z, hy, hz, hhead⟩, ys, zs, hys, hzs, htail⟩
      refine ⟨y :: ys, z :: zs, mapM_cons_eq_ok.mpr ⟨y, ys, hy, hys, rfl⟩,
        mapM_cons_eq_ok.mpr ⟨z, zs, hz, hzs, rfl⟩, ?_⟩
      rw [List.map_cons, List.map_cons, hhead, htail]

/-- What is first computed for all elements and then folded may be folded as it comes. -/
theorem foldlM_of_mapM {f : α → Except ε β} {g : σ → β → Except ε σ} {xs : List α} {ys : List β}
    (h : xs.mapM f = .ok ys) (s : σ) :
    xs.foldlM (fun s x => f x >>= g s) s = ys.foldlM g s := by
  induction xs generalizing ys s with
  | nil =>
    cases h
    rfl
  | cons x xs ih =>
    rw [List.mapM_cons] at h
    obtain ⟨y, hx, h⟩ := exists_of_bind_eq_ok h
    obtain ⟨rest, hxs, h⟩ := exists_of_bind_eq_ok h
    cases h
    rw [List.foldlM_cons, List.foldlM_cons, bind_of_ok hx]
    congr 1
    funext t
    exact ih hxs t

/-- One step for each element, up to the first failure. -/
def runAll (step : σ → α → Except ε σ) : List α → σ → Except ε σ
  | [], s => .ok s
  | a :: rest, s => (step s a).bind (runAll step rest)

@[simp] theorem runAll_nil (step : σ → α → Except ε σ) (s : σ) : runAll step [] s = .ok s := rfl

theorem runAll_cons_ok {step : σ → α → Except ε σ} {a : α} {rest : List α} {s s' : σ}
    (h : step s a = .ok s') : runAll step (a :: rest) s = runAll step rest s' :=
  bind_of_ok h

theorem runAll_cons_eq_ok {step : σ → α → Except ε σ} {a : α} {rest : List α} {s final : σ}
    (h : runAll step (a :: rest) s = .ok final) :
    ∃ s', step s a = .ok s' ∧ runAll step rest s' = .ok final := by
  exact exists_of_bind_eq_ok h

theorem runAll_append (step : σ → α → Except ε σ) (before after : List α) (s : σ) :
    runAll step (before ++ after) s = (runAll step before s).bind (runAll step after) := by
  induction before generalizing s with
  | nil => rfl
  | cons a before ih =>
    rw [List.cons_append, runAll, runAll]
    rcases step s a with error | t
    · rfl
    · exact ih t

theorem runAll_append_ok {step : σ → α → Except ε σ} {before after : List α} {s s' : σ}
    (h : runAll step before s = .ok s') :
    runAll step (before ++ after) s = runAll step after s' := by
  rw [runAll_append, h]
  rfl

section Splits

variable {P : List α → α → List α → Prop}

theorem forall_split_nil :
    (∀ before a after, [] = before ++ a :: after → P before a after) ↔ True := by
  simp

/-- The first split of a list, and those of its tail. -/
theorem forall_split_cons {a : α} {l : List α} :
    (∀ before b after, a :: l = before ++ b :: after → P before b after) ↔
      P [] a l ∧ ∀ before b after, l = before ++ b :: after → P (a :: before) b after := by
  constructor
  · exact fun h => ⟨h [] a l rfl, fun before b after hl =>
      h (a :: before) b after (by rw [hl]; rfl)⟩
  · rintro ⟨hfirst, hrest⟩ before b after hl
    cases before with
    | nil =>
      cases hl
      exact hfirst
    | cons c before =>
      cases hl
      exact hrest before b after rfl

end Splits

/-- A run completes when every step from a state that it reaches and that satisfies the
invariant does and keeps it. The invariant may speak of the elements already taken. -/
theorem runAll_completes {step : σ → α → Except ε σ} {Inv : List α → σ → Prop} {l : List α}
    {start : σ} (hstep : ∀ before a after s, l = before ++ a :: after →
      runAll step before start = .ok s → Inv before s →
      ∃ s', step s a = .ok s' ∧ Inv (before ++ [a]) s') (hstart : Inv [] start) :
    ∃ final, runAll step l start = .ok final ∧ Inv l final := by
  suffices all : ∀ before rest s, l = before ++ rest → runAll step before start = .ok s →
      Inv before s → ∃ final, runAll step rest s = .ok final ∧ Inv l final from
    all [] l start rfl rfl hstart
  intro before rest
  induction rest generalizing before with
  | nil =>
    intro s hl _ hinv
    rw [List.append_nil] at hl
    exact ⟨s, rfl, hl ▸ hinv⟩
  | cons a rest ih =>
    intro s hl hrun hinv
    obtain ⟨s', hs', hinv'⟩ := hstep before a rest s hl hrun hinv
    rw [runAll_cons_ok hs']
    refine ih (before ++ [a]) s' (by simpa using hl) ?_ hinv'
    rw [runAll_append_ok hrun, runAll_cons_ok hs', runAll_nil]

/-- What each step keeps, a completed run keeps. -/
theorem runAll_keeps {step : σ → α → Except ε σ} {Inv : σ → Prop} {l : List α}
    (hstep : ∀ a ∈ l, ∀ s s', step s a = .ok s' → Inv s → Inv s') {s final : σ}
    (h : runAll step l s = .ok final) (hstart : Inv s) : Inv final := by
  induction l generalizing s with
  | nil =>
    cases h
    exact hstart
  | cons a rest ih =>
    obtain ⟨s', hs', hrest⟩ := runAll_cons_eq_ok h
    exact ih (fun b hb => hstep b (List.mem_cons_of_mem _ hb)) hrest
      (hstep a List.mem_cons_self s s' hs' hstart)

section Related

variable {step step' : σ → α → Except ε σ} {Agree : σ → σ → Prop}

/-- Two runs whose final states agree have agreed from the start. -/
theorem runAll_agree_start (hback : ∀ a s t s' t', step s a = .ok s' → step' t a = .ok t' →
    Agree s' t' → Agree s t) {l : List α} {s t s' t' : σ} (hs : runAll step l s = .ok s')
    (ht : runAll step' l t = .ok t') (h : Agree s' t') : Agree s t := by
  induction l generalizing s t with
  | nil =>
    cases hs
    cases ht
    exact h
  | cons a rest ih =>
    obtain ⟨s₁, hs₁, hs'⟩ := runAll_cons_eq_ok hs
    obtain ⟨t₁, ht₁, ht'⟩ := runAll_cons_eq_ok ht
    exact hback a s t s₁ t₁ hs₁ ht₁ (ih hs' ht')

/-- What two steps keep when the states after them agree, two runs keep when their final
states agree. -/
theorem runAll_related {Rel : σ → σ → Prop}
    (hback : ∀ a s t s' t', step s a = .ok s' → step' t a = .ok t' → Agree s' t' → Agree s t)
    {l : List α} (hstep : ∀ a ∈ l, ∀ s t s' t', step s a = .ok s' → step' t a = .ok t' →
      Agree s' t' → Rel s t → Rel s' t')
    {s t s' t' : σ} (hs : runAll step l s = .ok s') (ht : runAll step' l t = .ok t')
    (h : Agree s' t') (hstart : Rel s t) : Rel s' t' := by
  induction l generalizing s t with
  | nil =>
    cases hs
    cases ht
    exact hstart
  | cons a rest ih =>
    obtain ⟨s₁, hs₁, hs'⟩ := runAll_cons_eq_ok hs
    obtain ⟨t₁, ht₁, ht'⟩ := runAll_cons_eq_ok ht
    have hagree := runAll_agree_start hback hs' ht' h
    exact ih (fun b hb => hstep b (List.mem_cons_of_mem _ hb)) hs' ht'
      (hstep a List.mem_cons_self s t s₁ t₁ hs₁ ht₁ hagree hstart)

end Related

/-- Steps that agree on the elements of a list run alike. -/
theorem runAll_congr {step step' : σ → α → Except ε σ} {l : List α}
    (h : ∀ s, ∀ a ∈ l, step s a = step' s a) (s : σ) : runAll step l s = runAll step' l s := by
  induction l generalizing s with
  | nil => rfl
  | cons a rest ih =>
    rw [runAll, runAll, h s a List.mem_cons_self]
    rcases step' s a with error | s'
    · rfl
    · exact ih (fun s b hb => h s b (List.mem_cons_of_mem _ hb)) s'

end RandomArt.FallibleFold
