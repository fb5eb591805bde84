import Mathlib.Logic.Relation

/-!
# Failing computations that keep their state

A method that throws midway leaves behind whatever it had already changed. Such a
computation is a state transformer whose failure does not undo the state. `exec`
runs one; the rules below say what a computation maintains when each of its parts
maintains it, failing or not.
-/

namespace RandomArt

universe u

/-- A computation over the state `σ` that may throw `ε` and then keeps the state reached. -/
abbrev Failing (ε σ : Type) (α : Type) := ExceptT ε (StateM σ) α

namespace Failing

variable {ε σ α β : Type}

/-- The result of a computation together with the state it leaves. -/
def exec (m : Failing ε σ α) (s : σ) : Except ε α × σ := Id.run (m.run.run s)

@[simp] theorem exec_pure (a : α) (s : σ) : exec (pure a : Failing ε σ α) s = (.ok a, s) := rfl

@[simp] theorem exec_throw (e : ε) (s : σ) :
    exec (throw e : Failing ε σ α) s = (.error e, s) := rfl

@[simp] theorem exec_get (s : σ) : exec (get : Failing ε σ σ) s = (.ok s, s) := rfl

@[simp] theorem exec_modify (f : σ → σ) (s : σ) :
    exec (modify f : Failing ε σ PUnit) s = (.ok ⟨⟩, f s) := rfl

theorem exec_bind (m : Failing ε σ α) (f : α → Failing ε σ β) (s : σ) :
    exec (m >>= f) s =
      match exec m s with
      | (.ok a, s') => exec (f a) s'
      | (.error e, s') => (.error e, s') := by
  change (match m s with | (r, s') => ExceptT.bindCont f r s') = _
  unfold exec
  rcases h : (Id.run (m.run.run s)) with ⟨r, s'⟩
  have h' : m s = (r, s') := h
  rw [h']
  cases r <;> rfl

theorem exec_tryCatch (m : Failing ε σ α) (handler : ε → Failing ε σ α) (s : σ) :
    exec (tryCatch m handler) s =
      match exec m s with
      | (.ok a, s') => (.ok a, s')
      | (.error e, s') => exec (handler e) s' := by
  change (match m s with
    | (r, s') => (match r with
      | .ok a => (pure (.ok a) : StateM σ (Except ε α))
      | .error e => handler e) s') = _
  rw [exec]
  rcases h : (Id.run (m.run.run s)) with ⟨r, s'⟩
  have h' : m s = (r, s') := h
  rw [h']
  cases r <;> rfl

/-- A sequence that returns has returned from both of its parts. -/
theorem exec_bind_ok {m : Failing ε σ α} {f : α → Failing ε σ β} {s s' : σ} {b : β}
    (h : exec (m >>= f) s = (.ok b, s')) :
    ∃ a s₁, exec m s = (.ok a, s₁) ∧ exec (f a) s₁ = (.ok b, s') := by
  rw [exec_bind] at h
  rcases hm : exec m s with ⟨r, s₁⟩
  rw [hm] at h
  cases r with
  | error e => cases h
  | ok a => exact ⟨a, s₁, rfl, h⟩

theorem exec_ofExcept (call : Except ε α) (s : σ) :
    exec (ofExcept call : Failing ε σ α) s = (call, s) := by
  cases call <;> rfl

/-- Started where `I` holds, the computation ends where `I` holds, and at a state that
is related to its start by `R`. -/
def Maintains (I : σ → Prop) (R : σ → σ → Prop) (m : Failing ε σ α) : Prop :=
  ∀ s, I s → I (exec m s).2 ∧ R s (exec m s).2

namespace Maintains

variable {I : σ → Prop} {R : σ → σ → Prop}

theorem pure (hrefl : ∀ s, R s s) (a : α) : Maintains I R (Pure.pure a : Failing ε σ α) :=
  fun s hs => ⟨hs, hrefl s⟩

theorem throw (hrefl : ∀ s, R s s) (e : ε) :
    Maintains I R (MonadExcept.throw e : Failing ε σ α) :=
  fun s hs => ⟨hs, hrefl s⟩

theorem bind (htrans : ∀ a b c, R a b → R b c → R a c) {m : Failing ε σ α}
    {f : α → Failing ε σ β} (hm : Maintains I R m) (hf : ∀ a, Maintains I R (f a)) :
    Maintains I R (m >>= f) := by
  intro s hs
  rw [exec_bind]
  obtain ⟨hI, hR⟩ := hm s hs
  rcases h : exec m s with ⟨r, s'⟩
  rw [h] at hI hR
  cases r with
  | error e => exact ⟨hI, hR⟩
  | ok a =>
    obtain ⟨hI', hR'⟩ := hf a s' hI
    exact ⟨hI', htrans _ _ _ hR hR'⟩

theorem tryCatch (htrans : ∀ a b c, R a b → R b c → R a c) {m : Failing ε σ α}
    {handler : ε → Failing ε σ α} (hm : Maintains I R m)
    (hh : ∀ e, Maintains I R (handler e)) :
    Maintains I R (MonadExcept.tryCatch m handler) := by
  intro s hs
  have hexec := exec_tryCatch m handler s
  obtain ⟨hI, hR⟩ := hm s hs
  rcases h : exec m s with ⟨r, s'⟩
  rw [h] at hI hR hexec
  cases r with
  | ok a => exact hexec ▸ ⟨hI, hR⟩
  | error e =>
    obtain ⟨hI', hR'⟩ := hh e s' hI
    exact hexec ▸ ⟨hI', htrans _ _ _ hR hR'⟩

theorem forM (hrefl : ∀ s, R s s) (htrans : ∀ a b c, R a b → R b c → R a c)
    {f : α → Failing ε σ PUnit} (xs : List α) (hf : ∀ x ∈ xs, Maintains I R (f x)) :
    Maintains I R (xs.forM f) := by
  induction xs with
  | nil => exact pure hrefl _
  | cons x xs ih =>
    exact bind htrans (hf x List.mem_cons_self)
      fun _ => ih fun y hy => hf y (List.mem_cons_of_mem x hy)

theorem get (hrefl : ∀ s, R s s) : Maintains I R (MonadState.get : Failing ε σ σ) :=
  fun s hs => ⟨hs, hrefl s⟩

theorem ofExcept (hrefl : ∀ s, R s s) (call : Except ε α) :
    Maintains I R (MonadExcept.ofExcept call : Failing ε σ α) := by
  cases call with
  | ok a => exact pure hrefl a
  | error e => exact throw hrefl e

theorem mapM (hrefl : ∀ s, R s s) (htrans : ∀ a b c, R a b → R b c → R a c)
    {f : α → Failing ε σ β} (xs : List α) (hf : ∀ x ∈ xs, Maintains I R (f x)) :
    Maintains I R (xs.mapM f) := by
  induction xs with
  | nil => exact pure hrefl _
  | cons x xs ih =>
    rw [List.mapM_cons]
    exact bind htrans (hf x List.mem_cons_self) fun _ =>
      bind htrans (ih fun y hy => hf y (List.mem_cons_of_mem x hy)) fun _ => pure hrefl _

end Maintains

/-- When the computation throws, the state it leaves is related to its start by `R`. -/
def AbortsWithin (R : σ → σ → Prop) (m : Failing ε σ α) : Prop :=
  ∀ s e s', exec m s = (.error e, s') → R s s'

theorem AbortsWithin.bind {R : σ → σ → Prop} (htrans : ∀ a b c, R a b → R b c → R a c)
    {m : Failing ε σ α} {f : α → Failing ε σ β} (hm : Maintains (fun _ => True) R m)
    (hf : ∀ a, AbortsWithin R (f a)) : AbortsWithin R (m >>= f) := by
  intro s e s' h
  rw [exec_bind] at h
  obtain ⟨-, hR⟩ := hm s trivial
  rcases hx : exec m s with ⟨r, s₁⟩
  rw [hx] at hR h
  cases r with
  | error e' =>
    cases h
    exact hR
  | ok a => exact htrans _ _ _ hR (hf a s₁ e s' h)

section Agreement

variable {ε' τ : Type} {f : ε → τ} {g : ε' → τ}

/-- The computations do the same, and their failures read the same. -/
def Agree (f : ε → τ) (g : ε' → τ) (m : Failing ε σ α) (m' : Failing ε' σ α) : Prop :=
  ∀ s, (exec m s).2 = (exec m' s).2 ∧ (exec m s).1.mapError f = (exec m' s).1.mapError g

theorem agree_pure (a : α) : Agree f g (pure a : Failing ε σ α) (pure a) := fun _ => ⟨rfl, rfl⟩

theorem agree_throw {e : ε} {e' : ε'} (h : f e = g e') :
    Agree f g (throw e : Failing ε σ α) (throw e') := fun _ => ⟨rfl, congrArg Except.error h⟩

theorem Agree.cases {m : Failing ε σ α} {m' : Failing ε' σ α} (h : Agree f g m m') (s : σ) :
    (∃ a s', exec m s = (.ok a, s') ∧ exec m' s = (.ok a, s')) ∨
      ∃ e e' s', f e = g e' ∧ exec m s = (.error e, s') ∧ exec m' s = (.error e', s') := by
  obtain ⟨hstate, hresult⟩ := h s
  rcases hm : exec m s with ⟨e | a, s'⟩ <;> rcases hm' : exec m' s with ⟨e' | a', t'⟩ <;>
    rw [hm, hm'] at hstate hresult <;> dsimp only at hstate <;> subst hstate
  · exact Or.inr ⟨e, e', s', Except.error.inj hresult, rfl, rfl⟩
  · cases hresult
  · cases hresult
  · obtain rfl := Except.ok.inj hresult
    exact Or.inl ⟨a, s', rfl, rfl⟩

theorem Agree.bind {m : Failing ε σ α} {m' : Failing ε' σ α} {k : α → Failing ε σ β}
    {k' : α → Failing ε' σ β} (h : Agree f g m m') (hk : ∀ a, Agree f g (k a) (k' a)) :
    Agree f g (m >>= k) (m' >>= k') := by
  intro s
  rw [exec_bind, exec_bind]
  rcases h.cases s with ⟨a, s', hm, hm'⟩ | ⟨e, e', s', hread, hm, hm'⟩
  · rw [hm, hm']
    exact hk a s'
  · rw [hm, hm']
    exact ⟨rfl, congrArg Except.error hread⟩

theorem Agree.tryCatch {m : Failing ε σ α} {m' : Failing ε' σ α} {handler : ε → Failing ε σ α}
    {handler' : ε' → Failing ε' σ α} (h : Agree f g m m')
    (hh : ∀ e e', f e = g e' → Agree f g (handler e) (handler' e')) :
    Agree f g (MonadExcept.tryCatch m handler) (MonadExcept.tryCatch m' handler') := by
  intro s
  have hexec := exec_tryCatch m handler s
  have hexec' := exec_tryCatch m' handler' s
  rcases h.cases s with ⟨a, s', hm, hm'⟩ | ⟨e, e', s', hread, hm, hm'⟩
  · rw [hm] at hexec
    rw [hm'] at hexec'
    rw [hexec, hexec']
    exact ⟨rfl, rfl⟩
  · rw [hm] at hexec
    rw [hm'] at hexec'
    rw [hexec, hexec']
    exact hh e e' hread s'

end Agreement

end Failing
end RandomArt
