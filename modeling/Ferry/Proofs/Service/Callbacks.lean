import Ferry.Proofs.Service.Calls

/-!
# Who acknowledges to peers, and when

The only program of the service that tells a peer that its request was taken is
the one that takes it, and there it is the last call that is made. This is read off
the programs: no reply, and nothing anybody else does, plays a part in it.
-/

namespace Ferry.Service

/-- An acknowledgment is the last call of the program. Whatever its reply, the program ends with
an answer that is in relation `P` to the address and the id it acknowledged. -/
def AcknowledgesLast {α : Type} (P : String → String → α → Prop) : Activity α → Prop
  | .done _ => True
  | .call q next =>
    (∀ a p, q = .acknowledge a p → ∃ result, (∀ r, next r = .done result) ∧ P a p result) ∧
      ∀ r, AcknowledgesLast P (next r)

/-- The program makes no acknowledgment at all. -/
def NeverAcknowledges {α : Type} : Activity α → Prop :=
  AcknowledgesLast fun _ _ _ => False

section Rules

variable {α β : Type} {P : String → String → β → Prop}

theorem NeverAcknowledges.ne_acknowledge {q : Request} {next : q.Reply → Activity α}
    (h : NeverAcknowledges (.call q next)) (a p : String) : q ≠ .acknowledge a p := by
  intro hq
  obtain ⟨_, _, hfalse⟩ := h.1 a p hq
  exact hfalse

theorem AcknowledgesLast.bind {f : Activity α} {g : α → Activity β} (hf : NeverAcknowledges f)
    (hg : ∀ a, AcknowledgesLast P (g a)) : AcknowledgesLast P (f.bind g) := by
  induction f with
  | done a => exact hg a
  | call q next ih =>
      exact ⟨fun a p hq => absurd hq (hf.ne_acknowledge a p), fun r => ih r (hf.2 r)⟩

theorem neverAcknowledges_of_makes {f : Activity α}
    (h : Makes (fun q => ∀ a p, q ≠ .acknowledge a p) f) : NeverAcknowledges f := by
  induction f with
  | done a => trivial
  | call q next ih => exact ⟨fun a p hq => absurd hq (h.1 a p), fun r => ih r (h.2 r)⟩

end Rules

/-! ## The programs of the service -/

theorem ne_acknowledge_of_clerical (q : Request) (hq : q.Clerical) (a p : String) :
    q ≠ .acknowledge a p := by
  rintro rfl
  exact hq.1

theorem neverAcknowledges_cycle (config : Config.Orchestrator) :
    NeverAcknowledges (cycle config).run :=
  neverAcknowledges_of_makes (makes_cycle (fun _ hq => hq) config)

theorem neverAcknowledges_applyResponse (response : ProvisionResponse) :
    NeverAcknowledges (applyResponse response).run :=
  neverAcknowledges_of_makes (makes_applyResponse ne_acknowledge_of_clerical response)

theorem neverAcknowledges_finish (c : String) (failure : Option String) (rounds : Nat) :
    NeverAcknowledges (Flow.finish c failure rounds).run :=
  neverAcknowledges_of_makes (makes_finish ne_acknowledge_of_clerical c failure rounds)

theorem neverAcknowledges_acknowledge (id : String) :
    NeverAcknowledges (Api.acknowledgeTransfer id) :=
  neverAcknowledges_of_makes (makes_acknowledge ne_acknowledge_of_clerical id)

theorem neverAcknowledges_initiate (role : Role) (request : TransferRequest) :
    NeverAcknowledges (initiate role request).run :=
  neverAcknowledges_of_makes (makes_initiate ne_acknowledge_of_clerical role request)

end Ferry.Service
