import Ferry.Job.Basic
import Ferry.Proofs.Job.Codec

/-!
# The request for the peer

Maps are known by what they answer for each name. An insertion changes the answer for
one name, and of two maps put over each other the upper one answers first. So the
request that goes to the peer is known in full: it is the request of the job, but for
the properties of its destination, where the first destination among the resources
answers first.
-/

namespace Ferry

/-! ## Maps -/

theorem find?_entry_cons (e : String × String) (k : String) (rest : List (String × String)) :
    (e :: rest).find? (fun d => d.1 == k) =
      if e.1 = k then some e else rest.find? (fun d => d.1 == k) := by
  rw [List.find?_cons]
  by_cases hk : e.1 = k
  · rw [if_pos hk, beq_iff_eq.2 hk]
  · rw [if_neg hk, beq_false_of_ne hk]

theorem find?_insertEntry (name value k : String) (entries : List (String × String)) :
    (insertEntry name value entries).find? (fun e => e.1 == k) =
      if name = k then some (name, value) else entries.find? (fun e => e.1 == k) := by
  induction entries with
  | nil => exact find?_entry_cons (name, value) k []
  | cons hd rest ih =>
      obtain ⟨first, held⟩ := hd
      rw [insertEntry]
      by_cases hlt : name < first
      · rw [if_pos hlt, find?_entry_cons]
      · by_cases heq : name = first
        · subst heq
          rw [if_neg hlt, if_pos rfl, find?_entry_cons, find?_entry_cons]
          by_cases hk : name = k <;> simp [hk]
        · rw [if_neg hlt, if_neg heq, find?_entry_cons, find?_entry_cons, ih]
          by_cases hk : first = k
          · have hne : name ≠ k := fun h => heq (h.trans hk.symm)
            simp [hk, hne]
          · simp [hk]

namespace Properties

theorem get?_insert (p : Properties) (name value k : String) :
    (p.insert name value).get? k = if name = k then some value else p.get? k := by
  rw [get?, insert, find?_insertEntry]
  split <;> rfl

theorem get?_foldl_insert {entries : List (String × String)} (h : Ascending entries)
    (p : Properties) (k : String) :
    (entries.foldl (fun q e => q.insert e.1 e.2) p).get? k =
      ((entries.find? fun e => e.1 == k).map (·.2)).or (p.get? k) := by
  induction entries generalizing p with
  | nil => rfl
  | cons e rest ih =>
      obtain ⟨hfirst, hrest⟩ := List.pairwise_cons.1 h
      rw [List.foldl_cons, ih hrest, get?_insert, find?_entry_cons]
      by_cases hk : e.1 = k
      · -- no later entry has the name
        have hnone : rest.find? (fun d => d.1 == k) = none := by
          rw [List.find?_eq_none]
          intro d hd hdk
          have hlt := hfirst d hd
          rw [hk, beq_iff_eq.1 hdk] at hlt
          exact String.lt_irrefl _ hlt
        simp [hnone, hk]
      · simp [hk]

/-- Of two maps put over each other the upper one answers first. -/
theorem get?_overriddenBy (p more : Properties) (k : String) :
    (p.overriddenBy more).get? k = (more.get? k).or (p.get? k) :=
  get?_foldl_insert more.ascending p k

end Properties

namespace Job

/-- The first destination among the resources of the job. -/
def destination? (job : Job) : Option ProvisionedResource :=
  job.resources.find? (·.isDestination)

theorem head?_destinations (job : Job) : job.destinations.head? = job.destination? := by
  rw [destinations, List.head?_filter, destination?]

/-- What goes to the peer in the place of a request: all of it is the same, and the
destination of the resources, if there is one, answers first for its properties. -/
structure Merged (request : TransferRequest) (destination? : Option ProvisionedResource)
    (sent : TransferRequest) : Prop where
  sent_eq : ∃ properties, sent =
    { request with destination := { request.destination with properties := properties } }
  get? : ∀ k, sent.destination.properties.get? k =
    (destination?.bind fun r => r.properties.get? k).or (request.destination.properties.get? k)
  unchanged : destination? = none → sent = request

theorem merged_dispatchRequest (job : Job) :
    Merged job.request job.destination? job.dispatchRequest := by
  rw [dispatchRequest, head?_destinations]
  cases hdestination : job.destination? with
  | none => exact ⟨⟨_, rfl⟩, fun k => rfl, fun _ => rfl⟩
  | some r =>
      refine ⟨⟨_, rfl⟩, fun k => ?_, fun hnone => by cases hnone⟩
      exact Properties.get?_overriddenBy job.request.destination.properties r.properties k

theorem dispatchRequest_id (job : Job) : job.dispatchRequest.id = job.request.id := by
  obtain ⟨properties, hsent⟩ := job.merged_dispatchRequest.sent_eq
  rw [hsent]

theorem dispatchRequest_connectorAddress (job : Job) :
    job.dispatchRequest.connectorAddress = job.request.connectorAddress := by
  obtain ⟨properties, hsent⟩ := job.merged_dispatchRequest.sent_eq
  rw [hsent]

end Job

end Ferry
