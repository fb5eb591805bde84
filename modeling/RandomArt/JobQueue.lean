import Mathlib.Logic.Function.Basic
import Mathlib.Logic.Relation
import Mathlib.Data.List.Basic

/-!
# Jobs that wait for other jobs

A job runs once all the jobs it waits for have a result. Which of the jobs that may run does run
next is left open, and so is the result of a job, as far as the queue allows it.
-/

namespace RandomArt

/-- Jobs, the jobs that each of them waits for, and the results that it may have. -/
structure JobQueue (Job Result : Type) where
  children : Job → List Job
  height : Job → ℕ
  height_lt : ∀ job, ∀ child ∈ children job, height child < height job
  gives : Job → (Job → Option Result) → Result → Prop

namespace JobQueue

variable {Job Result : Type} [DecidableEq Job] (queue : JobQueue Job Result)

def Ready (done : Job → Option Result) (job : Job) : Prop :=
  ∀ child ∈ queue.children job, (done child).isSome

/-- One more job has run. -/
inductive Step (done : Job → Option Result) : (Job → Option Result) → Prop where
  | run {job : Job} {result : Result} (hnew : done job = none) (hready : queue.Ready done job)
      (hgives : queue.gives job done result) : Step done (Function.update done job (some result))

/-- Some jobs have run, one after the other. -/
def Leads : (Job → Option Result) → (Job → Option Result) → Prop :=
  Relation.ReflTransGen queue.Step

def Reaches (done : Job → Option Result) : Prop := queue.Leads (fun _ => none) done

variable {queue} {done done' : Job → Option Result}

theorem Leads.keeps (h : queue.Leads done done') {job : Job} {result : Result}
    (hdone : done job = some result) : done' job = some result := by
  induction h with
  | refl => exact hdone
  | tail _ hstep ih =>
    cases hstep with
    | @run other result' hnew hready hgives =>
      have hne : job ≠ other := by
        rintro rfl
        rw [ih] at hnew
        cases hnew
      rw [Function.update_of_ne hne, ih]

theorem Leads.isSome (h : queue.Leads done done') {job : Job} (hdone : (done job).isSome) :
    (done' job).isSome := by
  obtain ⟨result, hresult⟩ := Option.isSome_iff_exists.mp hdone
  rw [h.keeps hresult]
  rfl

theorem Reaches.leads (h : queue.Reaches done) (hleads : queue.Leads done done') :
    queue.Reaches done' := Relation.ReflTransGen.trans h hleads

theorem Reaches.waited (h : queue.Reaches done) {job : Job} (hdone : (done job).isSome) :
    ∀ child ∈ queue.children job, (done child).isSome := by
  induction h generalizing job with
  | refl => cases hdone
  | @tail before after hbefore hone ih =>
    have hleads : queue.Leads before after := .single hone
    cases hone with
    | @run other result hnew hready hgives =>
      intro child hchild
      by_cases hjob : job = other
      · subst hjob
        exact hleads.isSome (hready child hchild)
      · rw [Function.update_of_ne hjob] at hdone
        exact hleads.isSome (ih hdone child hchild)

section Rules

variable {P : Job → Result → Prop}

/-- What holds of the result of each job when it holds of the results it waited for, holds of all
results. -/
theorem Reaches.holds (hstep : ∀ job done result,
      (∀ child ∈ queue.children job, ∃ r, done child = some r ∧ P child r) →
      queue.gives job done result → P job result)
    (h : queue.Reaches done) {job : Job} {result : Result} (hdone : done job = some result) :
    P job result := by
  induction h generalizing job result with
  | refl => cases hdone
  | @tail before after _ hone ih =>
    cases hone with
    | @run other result' hnew hready hgives =>
      by_cases hjob : job = other
      · subst hjob
        rw [Function.update_self] at hdone
        cases hdone
        refine hstep job before result (fun child hchild => ?_) hgives
        obtain ⟨r, hr⟩ := Option.isSome_iff_exists.mp (hready child hchild)
        exact ⟨r, hr, ih hr⟩
      · rw [Function.update_of_ne hjob] at hdone
        exact ih hdone

variable {J : Job → Prop} (hchildren : ∀ job, J job → ∀ child ∈ queue.children job, J child)
  (hgives : ∀ job done, J job → queue.Reaches done → queue.Ready done job →
    ∃ result, queue.gives job done result)
include hchildren hgives

/-- Where each job that may run has a result, there is no state from which a job cannot be run
any more. -/
theorem Reaches.exists_leads (h : queue.Reaches done) {job : Job} (hjob : J job) :
    ∃ done', queue.Leads done done' ∧ (done' job).isSome := by
  induction hheight : queue.height job using Nat.strongRecOn generalizing job done with
  | ind height ih =>
    have hall : ∀ children : List Job, (∀ child ∈ children, child ∈ queue.children job) →
        ∃ done', queue.Leads done done' ∧ ∀ child ∈ children, (done' child).isSome := by
      intro children
      induction children with
      | nil => exact fun _ => ⟨done, .refl, fun _ hchild => absurd hchild List.not_mem_nil⟩
      | cons child children ihchildren =>
        intro hmem
        obtain ⟨done₁, hleads₁, hsome₁⟩ :=
          ihchildren fun other hother => hmem other (List.mem_cons_of_mem _ hother)
        have hlt : queue.height child < height :=
          hheight ▸ queue.height_lt job child (hmem child List.mem_cons_self)
        obtain ⟨done₂, hleads₂, hsome₂⟩ := ih _ hlt (h.leads hleads₁)
          (hchildren job hjob child (hmem child List.mem_cons_self)) rfl
        refine ⟨done₂, Relation.ReflTransGen.trans hleads₁ hleads₂, fun other hother => ?_⟩
        rcases List.mem_cons.mp hother with rfl | hother
        · exact hsome₂
        · exact hleads₂.isSome (hsome₁ other hother)
    obtain ⟨done₁, hleads, hready⟩ := hall (queue.children job) fun _ hchild => hchild
    cases hresult : done₁ job with
    | some result => exact ⟨done₁, hleads, by rw [hresult]; rfl⟩
    | none =>
      obtain ⟨result, hrun⟩ := hgives job done₁ hjob (h.leads hleads) hready
      refine ⟨_, Relation.ReflTransGen.tail hleads (.run hresult hready hrun), ?_⟩
      rw [Function.update_self]
      rfl

end Rules

end JobQueue

end RandomArt
