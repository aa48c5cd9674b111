import Ferry.Orchestrator.Cycle
import Ferry.Proofs.Interference

/-!
# Rules for the parts of a cycle

Disciplines differ in what a state is and in what a call does to it. How a cycle puts its
calls together is the same under all of them, and it is gone through here: the write that is
counted if it hits, the retry that may not be counted, the jobs that are asked one after the
other, the end of a phase, and the three phases with the flag between them. Each rule asks for
what it takes of the calls, and a discipline proves that of its own calls only.
-/

namespace Ferry.Discipline

open Operation

variable {σ α : Type} {D : Discipline operationSignature σ} {E : OrchestratorError → σ → Prop}
  {P : σ → Prop} {s : σ} {job : Job} {config : Config.Orchestrator}

/-- The move was stored if the write hit, and then it is counted. -/
theorem preserves_countIf (hP : D.Stable P) (hcount : D.Preserves E P (countMove job))
    (hit : Bool) : D.Preserves E P (if hit then countMove job else pure ()) := by
  cases hit with
  | true => exact hcount
  | false => exact preserves_pure hP ()

/-- Either there is a panic, after which the operation may yet go on, or nothing was done. -/
theorem wpOr_checkCount {outcome : FlowOutcome} {g : Unit → Operation α} {Q : α → σ → Prop}
    (hpanic : Cycle.overflows job outcome = true → D.wpOr E (ask .overflow >>= g) Q s)
    (hfits : D.wpOr E (g ()) Q s) : D.wpOr E (Cycle.checkCount job outcome >>= g) Q s := by
  rw [Cycle.checkCount_bind]
  split
  · next hover => exact hpanic hover
  · exact hfits

/-- Of the jobs that are asked some have their data, in the order in which they were asked. -/
theorem wpOr_arrived (hP : D.Stable P) (hask : ∀ job, D.Preserves E P (ask (.isComplete job)))
    (jobs : List Job) (hs : P s) :
    D.wpOr E (Cycle.arrived jobs) (fun done s' => done.Sublist jobs ∧ P s') s := by
  induction jobs generalizing s with
  | nil => exact wpOr_pure fun s' hrely _ => ⟨List.Sublist.refl _, hP s s' hrely hs⟩
  | cons job rest ih =>
      refine wpOr_then (hask job s hs) fun complete s₁ _ h₁ => ?_
      refine wpOr_then (ih h₁) fun more s₂ _ ⟨hsub, h₂⟩ => ?_
      refine wpOr_pure fun s' hrely _ => ⟨?_, hP s₂ s' hrely h₂⟩
      split
      · exact hsub.cons_cons job
      · exact hsub.cons job

/-- What a phase does after the turns of its jobs. -/
theorem preserves_processed (hP : D.Stable P) {phase : Phase} {n : Nat}
    (hcount : D.Preserves E P (count (.jobsProcessed phase) n)) : D.Preserves E P (do
      count (.jobsProcessed phase) n
      pure n : Operation Nat) :=
  preserves_bind hcount fun _ => preserves_pure hP n

/-- A cycle from phase to phase. What holds when the flag is found lowered is enough for the
end of the cycle. -/
theorem wpOr_cycle {P₁ P₂ Q : σ → Prop}
    (hflag₁ : ∀ s, P₁ s →
      D.wpOr E (ask .isRunning) (fun goOn s' => P₁ s' ∧ (goOn = false → Q s')) s)
    (hflag₂ : ∀ s, P₂ s →
      D.wpOr E (ask .isRunning) (fun goOn s' => P₂ s' ∧ (goOn = false → Q s')) s)
    (hprovision : D.wpOr E (Cycle.provisionPhase config) (fun _ => P₁) s)
    (hdispatch : ∀ s, P₁ s → D.wpOr E (Cycle.dispatchPhase config) (fun _ => P₂) s)
    (hcompletion : ∀ s, P₂ s → D.wpOr E (Cycle.completionPhase config) (fun _ => Q) s) :
    D.wpOr E (cycle config) (fun _ => Q) s := by
  refine wpOr_then hprovision fun _ s₁ _ h₁ => ?_
  refine wpOr_then (wpOr_stable (hflag₁ s₁ h₁)) fun goOn s₂ hinv₂ h₂ => ?_
  cases goOn with
  | false => exact wpOr_pure fun s' hrely hinv => (h₂ s' hrely hinv).2 rfl
  | true =>
      have h₂ := (h₂ s₂ (D.rely_refl s₂) hinv₂).1
      refine wpOr_then (hdispatch s₂ h₂) fun _ s₃ _ h₃ => ?_
      refine wpOr_then (wpOr_stable (hflag₂ s₃ h₃)) fun goOn s₄ hinv₄ h₄ => ?_
      cases goOn with
      | false => exact wpOr_pure fun s' hrely hinv => (h₄ s' hrely hinv).2 rfl
      | true =>
          have h₄ := (h₄ s₄ (D.rely_refl s₄) hinv₄).1
          refine wpOr_then (wpOr_stable (hcompletion s₄ h₄)) fun _ s₅ _ h₅ => ?_
          exact wpOr_pure h₅

/-- What each phase preserves the cycle does, wherever it ends. -/
theorem preserves_cycle (hflag : D.Preserves E P (ask .isRunning))
    (hprovision : D.Preserves E P (Cycle.provisionPhase config))
    (hdispatch : D.Preserves E P (Cycle.dispatchPhase config))
    (hcompletion : D.Preserves E P (Cycle.completionPhase config)) :
    D.Preserves E P (cycle config) := by
  have hasked : ∀ s, P s →
      D.wpOr E (ask .isRunning) (fun goOn s' => P s' ∧ (goOn = false → P s')) s :=
    fun s hs => wpOr_mono (fun _ _ _ h => ⟨h, fun _ => h⟩) (hflag s hs)
  exact fun s hs => wpOr_cycle hasked hasked (hprovision s hs) hdispatch hcompletion

end Ferry.Discipline
