import Ferry.Proofs.Orchestrator.CycleRules
import Ferry.Proofs.Service.Basic
import Ferry.Proofs.Store.Copies

/-!
# Tasks at one store

The service has one worker and one writer. Here that is not assumed: any number of
cycles are under way at once, each with the batches it once read, any number of
outcomes of provisioning are being recorded, whoever they may come from, and flows
end that nobody started. Collaborators reply what they like, and any statement of the
store may fail for the database's sake.

What is left of the discipline is little. Nobody owns anything and nobody spares
anybody; all that everyone may count on is that jobs do not go away and that what is
stored of a job are the fields of one job (`Store.Table.Coherent`).
-/

namespace Ferry

namespace TaskSystem

open Store

/-! ## Programs side by side -/

inductive Duty where
  | cycle (config : Config.Orchestrator)
  | respond (response : ProvisionResponse)
  | errand (e : Service.Errand)

namespace Duty

abbrev Answer : Duty → Type
  | cycle _ => Except OrchestratorError CycleReport
  | respond _ => Except OrchestratorError Unit
  | errand e => e.Answer

def program : (d : Duty) → Activity d.Answer
  | cycle config => (Ferry.cycle config).run
  | respond response => (applyResponse response).run
  | errand e => e.program

end Duty

/-- A program of the system and what is left of it. -/
structure Task where
  duty : Duty
  rest : Activity duty.Answer

def Duty.task (d : Duty) : Task :=
  ⟨d, d.program⟩

/-- The replies a call may get. A statement is carried out, or the database fails. -/
def Admits (t : Table) : (c : Request) → c.Reply → Prop
  | .store s, r => r = (s.perform t).1 ∨ ∃ cause, r = .error (.database cause)
  | _, _ => True

/-- The table after a call. A statement that failed has changed nothing. -/
def after (t : Table) : (c : Request) → c.Reply → Table
  | .store s, .ok _ => (s.perform t).2
  | _, _ => t

end TaskSystem

/-- A store and the tasks at work on it. Any number of them may be under way at once. -/
structure TaskSystem where
  table : Store.Table := {}
  tasks : List TaskSystem.Task := []

namespace TaskSystem

open Operation Store Store.Table

inductive Step (s : TaskSystem) : TaskSystem → Prop where
  | arrive (duty : Duty) : Step s { s with tasks := s.tasks ++ [duty.task] }
  | call {before later duty c next} (turn : s.tasks = before ++ ⟨duty, .call c next⟩ :: later)
      (r : c.Reply) (admits : Admits s.table c r) :
      Step s ⟨after s.table c r, before ++ ⟨duty, next r⟩ :: later⟩
  /-- All programs are gone, and the store is not. -/
  | restart : Step s { s with tasks := [] }

/-- Some program has come to a sum that does not fit. A build that checks its arithmetic has
panicked there, and one that does not will go on. -/
def Panics (s : TaskSystem) : Prop :=
  ∃ duty next, (⟨duty, .call .overflow next⟩ : Task) ∈ s.tasks

/-- A run from an empty store on: the states after the first, each of which comes
from the one before by a step. -/
structure Run where
  later : List TaskSystem
  steps : (({} : TaskSystem) :: later).IsChain Step

namespace Run

def states (run : Run) : List TaskSystem :=
  {} :: run.later

/-- The state a run has come to. -/
def last (run : Run) : TaskSystem :=
  run.states.getLast (List.cons_ne_nil _ _)

/-- Some cycle of the run has ended so. -/
def Ends (run : Run) (result : Except OrchestratorError CycleReport) : Prop :=
  ∃ s ∈ run.states, ∃ config, (⟨.cycle config, .done result⟩ : Task) ∈ s.tasks

end Run

/-! ## What everyone may count on -/

variable {t t' : Table} {c : Request} {job : Job}

theorem continues_after (t : Table) (c : Request) (r : c.Reply) : t.Continues (after t c r) := by
  cases c with
  | store s =>
      cases r with
      | ok a => exact continues_perform t s
      | error e => exact .refl t
  | provision _ | send _ _ | acknowledge _ _ | startFlow _ | isComplete _ | now | freshId
  | count _ _ | isRunning | overflow => exact .refl t

/-- Jobs stay, and that is all. -/
def terms : Discipline operationSignature Table where
  inv := Coherent
  answers c t r t' := Admits t c r ∧ t' = after t c r
  rely := Continues
  guarantee := Continues
  rely_refl := .refl
  rely_trans := .trans

/-- What the call hands to the store is a job whose fields agree and, unless it is new, the copy
of one that was read. -/
def Careful (t : Table) : Request → Prop
  | .store s => s.Careful t
  | _ => True

theorem Careful.continues (h : Careful t c) (hc : t.Continues t') : Careful t' c := by
  cases c with
  | store s =>
      cases s with
      | update job | updateIfState job _ => exact Copied.continues h hc
      | create job => exact h
      | get _ | findId _ | next _ _ | count _ => trivial
  | provision _ | send _ _ | acknowledge _ _ | startFlow _ | isComplete _ | now | freshId
  | count _ _ | isRunning | overflow => trivial

theorem coherent_after (h : t.Coherent) (hc : Careful t c) (r : c.Reply) :
    (after t c r).Coherent := by
  cases c with
  | store s =>
      cases r with
      | ok a => exact h.perform hc
      | error e => exact h
  | provision _ | send _ _ | acknowledge _ _ | startFlow _ | isComplete _ | now | freshId
  | count _ _ | isRunning | overflow => exact h

/-! ## Rules for calls -/

section Rules

variable {α : Type} {Q : α → Table → Prop} {E : OrchestratorError → Table → Prop}

/-- The table a call finds is one the others may have left, and so is the one it leaves. -/
theorem wp_ask {next : c.Reply → Activity α} (hcareful : Careful t c)
    (h : ∀ r t', t.Continues t' → t'.Coherent → Admits t' c r → terms.wp (next r) Q t') :
    terms.wp (.call c next) Q t := by
  rintro t₁ hrely hcoherent r t₂ ⟨hadmits, rfl⟩
  have hcontinues := continues_after t₁ c r
  refine ⟨coherent_after hcoherent (hcareful.continues hrely) r, hcontinues, ?_⟩
  exact Discipline.wp_rely hcontinues (h r t₁ hrely hcoherent hadmits)

theorem wpOr_ask {g : c.Reply → Operation α} (hcareful : Careful t c)
    (h : ∀ r t', t.Continues t' → t'.Coherent → Admits t' c r → terms.wpOr E (g r) Q t') :
    terms.wpOr E (ask c >>= g) Q t :=
  wp_ask hcareful h

theorem wpOr_checkCount {outcome : FlowOutcome} {g : Unit → Operation α}
    (h : ∀ t', t.Continues t' → terms.wpOr E (g ()) Q t') :
    terms.wpOr E (Cycle.checkCount job outcome >>= g) Q t :=
  Discipline.wpOr_checkCount
    (fun _ => wpOr_ask trivial fun _ t' hrely _ _ => h t' hrely) (h t (.refl t))

theorem wpOr_ask_last {Q : c.Reply → Table → Prop} (hcareful : Careful t c)
    (h : ∀ r t', t.Continues t' → Q r t') : terms.wpOr E (ask c) Q t :=
  wp_ask hcareful fun r _ hrely _ _ t₂ hrely' _ => h r t₂ (hrely.trans hrely')

theorem preserves_ask {P : Table → Prop} (hP : terms.Stable P) (hcareful : ∀ t, Careful t c) :
    terms.Preserves E P (ask c) :=
  fun t h => wpOr_ask_last (hcareful t) fun _ t' hrely => hP t t' hrely h

/-- What the store refuses it does not refuse as a move. -/
theorem wpOr_store {s : Store.Call} {g : s.Answer → Operation α}
    (hE : ∀ e t', Answerable e → E (.store e) t') (hcareful : s.Careful t)
    (h : ∀ a t', t.Continues t' → t'.Coherent → (s.perform t').1 = .ok a →
      terms.wpOr E (g a) Q t') : terms.wpOr E (store s >>= g) Q t := by
  refine wp_ask (c := .store s) hcareful fun r t' hrely hcoherent hadmits => ?_
  cases r with
  | ok a =>
      rcases hadmits with hr | ⟨cause, hr⟩
      · exact h a t' hrely hcoherent hr.symm
      · cases hr
  | error e =>
      refine Discipline.wpOr_throw fun t'' _ _ => hE e t'' ?_
      rcases hadmits with hr | ⟨cause, hr⟩
      · exact Call.answerable_of_perform hr.symm
      · cases hr
        rintro id role origin target ⟨⟩

/-- A loop over jobs, each of which stays what it is while the others are at work. -/
theorem wpOr_forEach {f : Job → Operation Unit} {P : Table → Job → Prop}
    (hstable : ∀ t t' job, t.Continues t' → P t job → P t' job)
    (hturn : ∀ t job, P t job → terms.wpOr E (f job) (fun _ _ => True) t)
    {jobs : List Job} (h : ∀ job ∈ jobs, P t job) :
    terms.wpOr E (forEach f jobs) (fun _ _ => True) t := by
  refine Discipline.wpOr_mono (fun _ _ _ _ => trivial)
    (Discipline.wpOr_forEach (I := fun rest t' => ∀ job ∈ rest, P t' job) ?_ ?_ jobs h)
  · exact fun rest t₁ t₂ hrely hrest job hjob => hstable t₁ t₂ job hrely (hrest job hjob)
  · intro job rest t₁ _ hjobs
    refine Discipline.wp_mono (fun result t₂ _ hresult => ?_)
      (Discipline.wp_and_rely (fun _ _ hmoved => hmoved)
        (hturn t₁ job (hjobs job List.mem_cons_self)))
    cases result with
    | ok _ =>
        exact fun k hk => hstable t₁ t₂ k hresult.2 (hjobs k (List.mem_cons_of_mem _ hk))
    | error e => exact hresult.1

end Rules

end TaskSystem

end Ferry
