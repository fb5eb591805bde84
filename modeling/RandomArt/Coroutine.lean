import Mathlib.Data.List.Basic
import Mathlib.Tactic.Common

/-!
# Coroutines over a shared state

A coroutine runs without interruption from one await to the next; between, others may run. It
settles to a result under an invariant when, from every shared state of the invariant, each
access keeps the invariant and the coroutine comes to that result: then what it returns does not
depend on what others do, as long as they keep the invariant too. The number of awaits is
bounded along the way.
-/

namespace RandomArt

/-- A computation that accesses a shared state and awaits. An access goes on from the state
that it finds. -/
inductive Coroutine (σ ε α : Type) where
  | done (result : Except ε α)
  | access (update : σ → σ) (next : σ → Coroutine σ ε α)
  | await (next : Coroutine σ ε α)

namespace Coroutine

variable {σ ε α β ι : Type}

def bind : Coroutine σ ε α → (α → Coroutine σ ε β) → Coroutine σ ε β
  | done (.ok a), f => f a
  | done (.error e), _ => done (.error e)
  | access update next, f => access update fun s => (next s).bind f
  | await next, f => await (next.bind f)

instance : Monad (Coroutine σ ε) where
  pure a := done (.ok a)
  bind := bind

/-- A part that neither accesses the state nor awaits. -/
def lift (x : Except ε α) : Coroutine σ ε α := done x

def read (f : σ → α) : Coroutine σ ε α := access id fun s => done (.ok (f s))

def modify (f : σ → σ) : Coroutine σ ε Unit := access f fun _ => done (.ok ())

/-- Await a promise that settles to a result. -/
def awaiting (x : Except ε α) : Coroutine σ ε α := await (done x)

inductive Status (σ ε α : Type) where
  | waiting (rest : Coroutine σ ε α)
  | returned (result : Except ε α)

/-- Run to the next await. -/
def resume : Coroutine σ ε α → σ → Status σ ε α × σ
  | done result, s => (.returned result, s)
  | access update next, s => (next s).resume (update s)
  | await next, s => (.waiting next, s)

/-- Run to the end, with nothing between. -/
def complete : Coroutine σ ε α → σ → Except ε α × σ
  | done result, s => (result, s)
  | access update next, s => (next s).complete (update s)
  | await next, s => next.complete s

section Settling

variable {Inv : σ → Prop}

variable (Inv) in
/-- From every state of the invariant, also after each await, the coroutine comes to the result,
with at most so many awaits, and keeps the invariant. -/
def Settles (result : Except ε α) : Coroutine σ ε α → ℕ → Prop
  | done r, _ => r = result
  | access update next, n => ∀ s, Inv s → Inv (update s) ∧ (next s).Settles result n
  | await _, 0 => False
  | await next, n + 1 => next.Settles result n

theorem Settles.mono {result : Except ε α} {co : Coroutine σ ε α} {n m : ℕ}
    (h : co.Settles Inv result n) (hle : n ≤ m) : co.Settles Inv result m := by
  induction co generalizing n m with
  | done r => exact h
  | access update next ih => exact fun s hs => ⟨(h s hs).1, ih s (h s hs).2 hle⟩
  | await next ih =>
    cases n with
    | zero => exact h.elim
    | succ n =>
      cases m with
      | zero => exact absurd hle (Nat.not_succ_le_zero n)
      | succ m => exact ih h (Nat.le_of_succ_le_succ hle)

theorem Settles.bind {x : Except ε α} {g : α → Except ε β} {co : Coroutine σ ε α}
    {f : α → Coroutine σ ε β} {n m : ℕ} (h : co.Settles Inv x n)
    (hnext : ∀ a, x = .ok a → (f a).Settles Inv (g a) m) :
    (co.bind f).Settles Inv (x.bind g) (n + m) := by
  induction co generalizing n with
  | done r =>
    obtain rfl : r = x := h
    cases r with
    | error e => exact rfl
    | ok a => exact (hnext a rfl).mono (Nat.le_add_left m n)
  | access update next ih => exact fun s hs => ⟨(h s hs).1, ih s (h s hs).2⟩
  | await next ih =>
    cases n with
    | zero => exact h.elim
    | succ n =>
      rw [Nat.succ_add]
      exact ih h

theorem settles_pure (a : α) (n : ℕ) : (pure a : Coroutine σ ε α).Settles Inv (.ok a) n := rfl

theorem settles_lift (x : Except ε α) : (lift x : Coroutine σ ε α).Settles Inv x 0 := rfl

theorem settles_awaiting (x : Except ε α) : (awaiting x : Coroutine σ ε α).Settles Inv x 1 := rfl

theorem settles_lift_bind {x : Except ε α} {g : α → Except ε β} {f : α → Coroutine σ ε β} {n : ℕ}
    (hnext : ∀ a, x = .ok a → (f a).Settles Inv (g a) n) :
    ((lift x).bind f).Settles Inv (x.bind g) n := by
  simpa only [Nat.zero_add] using (settles_lift x).bind hnext

/-- What is read may be anything that a state of the invariant has. -/
theorem settles_read_bind {get : σ → α} {f : α → Coroutine σ ε β} {result : Except ε β} {n : ℕ}
    (hnext : ∀ s, Inv s → (f (get s)).Settles Inv result n) :
    ((read get).bind f).Settles Inv result n :=
  fun s hs => ⟨hs, hnext s hs⟩

theorem settles_modify_bind {update : σ → σ} {f : Unit → Coroutine σ ε β} {result : Except ε β}
    {n : ℕ} (hinv : ∀ s, Inv s → Inv (update s)) (hnext : (f ()).Settles Inv result n) :
    ((modify update).bind f).Settles Inv result n :=
  fun s hs => ⟨hinv s hs, hnext⟩

/-- Up to its next await a coroutine keeps the invariant; then it has returned its result, or
has one await less before it. -/
theorem Settles.resume {result : Except ε α} {co : Coroutine σ ε α} {n : ℕ}
    (h : co.Settles Inv result n) {s : σ} (hs : Inv s) :
    Inv (co.resume s).2 ∧ ((co.resume s).1 = .returned result ∨
      ∃ rest m, (co.resume s).1 = .waiting rest ∧ rest.Settles Inv result m ∧ m < n) := by
  induction co generalizing s with
  | done r =>
    obtain rfl : r = result := h
    exact ⟨hs, Or.inl rfl⟩
  | access update next ih => exact ih s (h s hs).2 (h s hs).1
  | await next ih =>
    cases n with
    | zero => exact h.elim
    | succ n => exact ⟨hs, Or.inr ⟨next, n, rfl, h, Nat.lt_succ_self n⟩⟩

theorem Settles.complete {result : Except ε α} {co : Coroutine σ ε α} {n : ℕ}
    (h : co.Settles Inv result n) {s : σ} (hs : Inv s) : (co.complete s).1 = result := by
  induction co generalizing n s with
  | done r => exact h
  | access update next ih => exact ih s (h s hs).2 (h s hs).1
  | await next ih =>
    cases n with
    | zero => exact h.elim
    | succ n => exact ih h hs

end Settling

section Interleaving

/-- A call of a program: its input, how often it was resumed after an await, and where it is. -/
structure Task (ι σ ε α : Type) where
  input : ι
  resumed : ℕ
  status : Status σ ε α

structure System (ι σ ε α : Type) where
  shared : σ
  tasks : List (Task ι σ ε α)

/-- What the scheduler does next: call the program, or go on with a task whose promise has
settled. -/
inductive Action (ι : Type) where
  | call (input : ι)
  | resume (task : ℕ)

variable (program : ι → Coroutine σ ε α)

def System.step (system : System ι σ ε α) : Action ι → System ι σ ε α
  | .call input =>
    let (status, shared) := (program input).resume system.shared
    ⟨shared, system.tasks ++ [⟨input, 0, status⟩]⟩
  | .resume task =>
    match system.tasks[task]? with
    | some ⟨input, resumed, .waiting rest⟩ =>
      let (status, shared) := rest.resume system.shared
      ⟨shared, system.tasks.set task ⟨input, resumed + 1, status⟩⟩
    | _ => system

/-- The system after the calls and resumptions of a schedule, with the given state to start. -/
def interleave (shared : σ) (schedule : List (Action ι)) : System ι σ ε α :=
  schedule.foldl (System.step program) ⟨shared, []⟩

variable {program} {Inv : σ → Prop} {result : ι → Except ε α} {awaits : ι → ℕ}

variable (Inv result awaits) in
/-- A task that has returned its result, or will with the awaits that are left to it. -/
def Task.OnCourse (task : Task ι σ ε α) : Prop :=
  match task.status with
  | .returned r => r = result task.input
  | .waiting rest => ∃ n, rest.Settles Inv (result task.input) n ∧
      task.resumed + n < awaits task.input

theorem System.onCourse_step
    (hprogram : ∀ input, (program input).Settles Inv (result input) (awaits input))
    {system : System ι σ ε α}
    (h : Inv system.shared ∧ ∀ task ∈ system.tasks, task.OnCourse Inv result awaits)
    (action : Action ι) :
    Inv (system.step program action).shared ∧
      ∀ task ∈ (system.step program action).tasks, task.OnCourse Inv result awaits := by
  obtain ⟨hinv, htasks⟩ := h
  cases action with
  | call input =>
    obtain ⟨hshared, hstatus⟩ := (hprogram input).resume hinv
    refine ⟨hshared, ?_⟩
    simp only [System.step, List.mem_append, List.mem_singleton]
    rintro task (htask | rfl)
    · exact htasks task htask
    · rcases hstatus with hreturned | ⟨rest, m, hwaiting, hrest, hm⟩
      · simp only [Task.OnCourse, hreturned]
      · simp only [Task.OnCourse, hwaiting]
        exact ⟨m, hrest, by omega⟩
  | resume index =>
    rw [System.step]
    split
    · rename_i input resumed rest hget
      obtain ⟨n, hrest, hn⟩ := htasks _ (List.mem_of_getElem? hget)
      obtain ⟨hshared, hstatus⟩ := hrest.resume hinv
      refine ⟨hshared, fun task htask => ?_⟩
      rcases List.mem_or_eq_of_mem_set htask with hold | rfl
      · exact htasks task hold
      · rcases hstatus with hreturned | ⟨rest', m, hwaiting, hrest', hm⟩
        · simp only [Task.OnCourse, hreturned]
        · simp only [Task.OnCourse, hwaiting]
          exact ⟨m, hrest', by simp only at hn; omega⟩
    · exact ⟨hinv, htasks⟩

/-- In any interleaving each call returns its own result, after at most its number of awaits. -/
theorem interleave_settles
    (hprogram : ∀ input, (program input).Settles Inv (result input) (awaits input)) {shared : σ}
    (hshared : Inv shared) (schedule : List (Action ι)) :
    Inv (interleave program shared schedule).shared ∧
      ∀ task ∈ (interleave program shared schedule).tasks, task.OnCourse Inv result awaits := by
  suffices all : ∀ system : System ι σ ε α,
      (Inv system.shared ∧ ∀ task ∈ system.tasks, task.OnCourse Inv result awaits) →
      Inv (schedule.foldl (System.step program) system).shared ∧
        ∀ task ∈ (schedule.foldl (System.step program) system).tasks,
          task.OnCourse Inv result awaits from
    all ⟨shared, []⟩ ⟨hshared, fun _ h => absurd h List.not_mem_nil⟩
  induction schedule with
  | nil => exact fun _ h => h
  | cons action rest ih => exact fun system h => ih _ (System.onCourse_step hprogram h action)

end Interleaving

end Coroutine

end RandomArt
