import Ferry.Proofs.Flow.FileCopy

/-!
# A copy step by step

While a copy runs others may look at the tree. What they can see are the trees between
the steps: the directory is made, the target is opened and thereby emptied, the text is
written in chunks, the marker is put. How long the chunks are is not up to the copy.

Each point that is reached lies on the way of the one run (`run_of_steps`), so what was
proved of whole runs is true of copies that go step by step.
-/

namespace Ferry.File.Tree

variable {t : Tree} {m : Location}

theorem putEntry_putEntry (l : Location) (e e' : Entry) (entries : List (Location × Entry)) :
    putEntry l e' (putEntry l e entries) = putEntry l e' entries := by
  induction entries with
  | nil => simp [putEntry]
  | cons d rest ih =>
      obtain ⟨k, d⟩ := d
      by_cases hk : k = l
      · simp [putEntry, hk]
      · simp [putEntry, hk, ih]

theorem put_put (t : Tree) (l : Location) (e e' : Entry) : (t.put l e).put l e' = t.put l e' :=
  congrArg (fun entries => { t with entries }) (putEntry_putEntry l e e' t.entries)

theorem append_put (hm : m ≠ []) (t : Tree) (s s' : String) :
    (t.put m (.file s)).append m s' = t.put m (.file (s ++ s')) := by
  rw [append, content_of_file (entry?_put_self hm), put_put]

end Ferry.File.Tree

namespace Ferry.FileFlow.Copy

open File File.Tree

/-- How far a copy has come. -/
inductive Point where
  | begun
  | made
  /-- The target is open at this place, and this is still to be written. -/
  | writing (name : String) (place : Location) (rest : List Char)
  | marked
  | failed (opened : Bool) (e : FileError)
deriving DecidableEq, Repr

def Point.opened : Point → Bool
  | .begun | .made => false
  | .writing .. | .marked => true
  | .failed opened _ => opened

def Point.result? : Point → Option (Except FileError Unit)
  | .begun | .made | .writing .. => none
  | .marked => some (.ok ())
  | .failed _ e => some (.error e)

def openBoth (c : Copy) (t : Tree) : Point × Tree :=
  match fileName? c.source with
  | none => (.failed false .noFileName, t)
  | some name =>
    match t.openSource c.source with
    | .error e => (.failed false e, t)
    | .ok l =>
      match t.truncate (c.target name) with
      | .error e => (.failed false e, t)
      | .ok (m, t) => (.writing name m (t.content l).toList, t)

def putMarker (c : Copy) (name : String) (t : Tree) : Point × Tree :=
  match t.writeEmpty (c.marker name) with
  | .error e => (.failed true e, t)
  | .ok t => (.marked, t)

/-- The next step. At most so many characters are written at once. -/
def step (c : Copy) (size : Nat) : Point × Tree → Point × Tree
  | (.begun, t) =>
    match t.createAll c.directory with
    | (.error e, t) => (.failed false e, t)
    | (.ok (), t) => (.made, t)
  | (.made, t) => c.openBoth t
  | (.writing name m rest, t) =>
    if rest = [] then c.putMarker name t
    else (.writing name m (rest.drop size), t.append m (.ofList (rest.take size)))
  | s => s

/-- One step for each of the sizes. -/
def steps (c : Copy) : List Nat → Point × Tree → Point × Tree
  | [], s => s
  | size :: sizes, s => c.steps sizes (c.step size s)

/-- Where a copy is after so many steps. -/
def after (c : Copy) (sizes : List Nat) (t : Tree) : Point × Tree :=
  c.steps sizes (.begun, t)

theorem steps_append (c : Copy) (sizes more : List Nat) (s : Point × Tree) :
    c.steps (sizes ++ more) s = c.steps more (c.steps sizes s) := by
  induction sizes generalizing s with
  | nil => rfl
  | cons size sizes ih => exact ih _

/-! ## On the way -/

/-- The source was read and its target is open in this tree. -/
structure Opens (c : Copy) (t : Tree) (name : String) (m : Location) (text : List Char) :
    Prop where
  named : fileName? c.source = some name
  read : ∃ l, t.openSource c.source = .ok l ∧
    text = ((t.put m (.file "")).content l).toList
  opened : t.truncate (c.target name) = .ok (m, t.put m (.file ""))

variable {c : Copy} {t t₁ t' : Tree} {p : Point} {name : String} {m : Location}
  {text : List Char} {e : FileError}

theorem Opens.place (h : c.Opens t name m text) :
    t.place? (c.target name) = some m ∧ t.Vacant m := by
  obtain ⟨hplace, hvacant, -⟩ := truncate_eq_ok h.opened
  exact ⟨hplace, hvacant⟩

theorem Opens.writes (h : c.Opens t name m text) (s : String) :
    Writes m s t (t.put m (.file s)) :=
  .of_put h.place.2 s

theorem openBoth_cases (c : Copy) (t : Tree) :
    (∃ e, c.openBoth t = (.failed false e, t) ∧
      ((fileName? c.source = none ∧ e = .noFileName) ∨
        ∃ name, fileName? c.source = some name ∧ t.copy c.source (c.target name) = .error e)) ∨
    ∃ name m text, c.Opens t name m text ∧
      c.openBoth t = (.writing name m text, t.put m (.file "")) := by
  rw [openBoth]
  cases hname : fileName? c.source with
  | none => exact .inl ⟨_, rfl, .inl ⟨rfl, rfl⟩⟩
  | some name =>
      dsimp only
      cases hsource : t.openSource c.source with
      | error e =>
          refine .inl ⟨e, rfl, .inr ⟨name, rfl, ?_⟩⟩
          rw [Tree.copy, hsource]
          rfl
      | ok l =>
          dsimp only
          cases htarget : t.truncate (c.target name) with
          | error e =>
              refine .inl ⟨e, rfl, .inr ⟨name, rfl, ?_⟩⟩
              simp [Tree.copy, hsource, htarget, bind, Except.bind]
          | ok opened =>
              obtain ⟨m, t'⟩ := opened
              obtain ⟨-, -, rfl⟩ := truncate_eq_ok htarget
              exact .inr ⟨name, m, _, ⟨hname, ⟨l, hsource, rfl⟩, htarget⟩, rfl⟩

/-- The points on the way, and the trees there. -/
inductive At (c : Copy) (t : Tree) : Point → Tree → Prop where
  | begun : At c t .begun t
  | unmade {e : FileError} {t₁ : Tree} (hmake : t.createAll c.directory = (.error e, t₁)) :
      At c t (.failed false e) t₁
  | made {t₁ : Tree} (hmake : t.createAll c.directory = (.ok (), t₁)) : At c t .made t₁
  | unopened {e : FileError} {t₁ : Tree} (hmake : t.createAll c.directory = (.ok (), t₁))
      (hopen : c.openBoth t₁ = (.failed false e, t₁)) : At c t (.failed false e) t₁
  | writing {t₁ : Tree} {name : String} {m : Location} {written rest : List Char}
      (hmake : t.createAll c.directory = (.ok (), t₁))
      (hopen : c.Opens t₁ name m (written ++ rest)) :
      At c t (.writing name m rest) (t₁.put m (.file (.ofList written)))
  | unmarked {t₁ : Tree} {name : String} {m : Location} {text : List Char} {e : FileError}
      (hmake : t.createAll c.directory = (.ok (), t₁)) (hopen : c.Opens t₁ name m text)
      (hmark : (t₁.put m (.file (.ofList text))).writeEmpty (c.marker name) = .error e) :
      At c t (.failed true e) (t₁.put m (.file (.ofList text)))
  | marked {t₁ t₃ : Tree} {name : String} {m : Location} {text : List Char}
      (hmake : t.createAll c.directory = (.ok (), t₁)) (hopen : c.Opens t₁ name m text)
      (hmark : (t₁.put m (.file (.ofList text))).writeEmpty (c.marker name) = .ok t₃) :
      At c t .marked t₃

theorem At.step (h : c.At t p t') (size : Nat) :
    c.At t (c.step size (p, t')).1 (c.step size (p, t')).2 := by
  cases h with
  | begun =>
      rw [Copy.step]
      rcases hmake : t.createAll c.directory with ⟨result, t₁⟩
      cases result with
      | error e => exact .unmade hmake
      | ok _ => exact .made hmake
  | made hmake =>
      rw [Copy.step]
      rcases openBoth_cases c t' with ⟨e, hopen, -⟩ | ⟨name, m, text, hopens, hopen⟩
      · rw [hopen]
        exact .unopened hmake hopen
      · rw [hopen]
        exact At.writing hmake (List.nil_append text ▸ hopens)
  | @writing t₁ name m written rest hmake hopen =>
      rw [Copy.step]
      split
      · next hrest =>
        subst hrest
        rw [List.append_nil] at hopen
        unfold putMarker
        split
        · next hmark => exact .unmarked hmake hopen hmark
        · next hmark => exact .marked hmake hopen hmark
      · rw [append_put hopen.place.2.ne_nil, ← String.ofList_append]
        refine .writing hmake ?_
        rwa [List.append_assoc, List.take_append_drop]
  | unmade hmake => exact .unmade hmake
  | unopened hmake hopen => exact .unopened hmake hopen
  | unmarked hmake hopen hmark => exact .unmarked hmake hopen hmark
  | marked hmake hopen hmark => exact .marked hmake hopen hmark

theorem at_after (c : Copy) (sizes : List Nat) (t : Tree) :
    c.At t (c.after sizes t).1 (c.after sizes t).2 := by
  induction sizes using List.reverseRecOn with
  | nil => exact .begun
  | append_singleton sizes size ih =>
      rw [after, steps_append]
      exact ih.step size

/-! ## The run -/

/-- What was opened and written is what a copy of the file makes. -/
theorem Opens.copy (h : c.Opens t name m text) :
    t.copy c.source (c.target name) = .ok (t.put m (.file (.ofList text))) := by
  obtain ⟨l, hsource, rfl⟩ := h.read
  have hcopy : t.copy c.source (c.target name) =
      .ok ((t.put m (.file "")).append m ((t.put m (.file "")).content l)) := by
    simp [Tree.copy, hsource, h.opened, bind, Except.bind]
  rw [hcopy, append_put h.place.2.ne_nil, String.empty_append, String.ofList_toList]

theorem At.run (h : c.At t p t') {result : Except FileError Unit} (hp : p.result? = some result) :
    c.run t = (result, t') := by
  cases h with
  | begun | made _ | writing _ _ => cases hp
  | unmade hmake =>
      obtain rfl := Option.some.inj hp
      rw [Copy.run, hmake]
  | unopened hmake hopen =>
      obtain rfl := Option.some.inj hp
      rw [Copy.run, hmake]
      dsimp only
      rcases openBoth_cases c t' with ⟨e, hopen', hwhy⟩ | ⟨name, m, text, -, hopen'⟩
      · rw [hopen'] at hopen
        cases hopen
        rcases hwhy with ⟨hname, rfl⟩ | ⟨name, hname, hcopy⟩
        · rw [hname]
        · rw [Copy.target] at hcopy
          simp only [hname, hcopy]
      · rw [hopen'] at hopen
        cases hopen
  | unmarked hmake hopen hmark =>
      obtain rfl := Option.some.inj hp
      have hcopy := hopen.copy
      rw [Copy.target] at hcopy
      rw [Copy.marker] at hmark
      simp only [Copy.run, hmake, hopen.named, hcopy, hmark]
  | marked hmake hopen hmark =>
      obtain rfl := Option.some.inj hp
      have hcopy := hopen.copy
      rw [Copy.target] at hcopy
      rw [Copy.marker] at hmark
      simp only [Copy.run, hmake, hopen.named, hcopy, hmark]

theorem putMarker_result? (c : Copy) (name : String) (t : Tree) :
    ∃ result, (c.putMarker name t).1.result? = some result := by
  unfold putMarker
  split <;> exact ⟨_, rfl⟩

/-- From anywhere on the way some steps lead to the end. -/
theorem steps_result? (c : Copy) (s : Point × Tree) :
    ∃ sizes result, (c.steps sizes s).1.result? = some result := by
  have hwriting : ∀ name m rest t, ∃ sizes result,
      (c.steps sizes (.writing name m rest, t)).1.result? = some result := by
    intro name m rest t
    by_cases hrest : rest = []
    · subst hrest
      exact ⟨[0], c.putMarker_result? name t⟩
    · refine ⟨[rest.length, 0], ?_⟩
      simp only [steps, step, if_neg hrest, List.drop_length, if_true]
      exact c.putMarker_result? name _
  have hmade : ∀ t, ∃ sizes result, (c.steps sizes (.made, t)).1.result? = some result := by
    intro t
    rcases openBoth_cases c t with ⟨e, hopen, -⟩ | ⟨name, m, text, -, hopen⟩
    · exact ⟨[0], .error e, by simp only [steps, step, hopen, Point.result?]⟩
    · obtain ⟨sizes, result, hresult⟩ := hwriting name m text (t.put m (.file ""))
      exact ⟨0 :: sizes, result, by simpa only [steps, step, hopen] using hresult⟩
  match s with
  | (.begun, t) =>
      rcases hmake : t.createAll c.directory with ⟨made, t₁⟩
      cases made with
      | error e => exact ⟨[0], .error e, by simp only [steps, step, hmake, Point.result?]⟩
      | ok _ =>
          obtain ⟨sizes, result, hresult⟩ := hmade t₁
          exact ⟨0 :: sizes, result, by simpa only [steps, step, hmake] using hresult⟩
  | (.made, t) => exact hmade t
  | (.writing name m rest, t) => exact hwriting name m rest t
  | (.marked, t) => exact ⟨[], .ok (), rfl⟩
  | (.failed opened e, t) => exact ⟨[], .error e, rfl⟩

/-- However the text is cut in chunks, the steps can be continued, and they lead to what the
run leads to. -/
theorem run_of_steps (c : Copy) (sizes : List Nat) (t : Tree) :
    ∃ more, (c.after (sizes ++ more) t).1.result? = some (c.run t).1 ∧
      (c.after (sizes ++ more) t).2 = (c.run t).2 := by
  obtain ⟨more, result, hresult⟩ := steps_result? c (c.after sizes t)
  rw [after, ← steps_append] at hresult
  have hrun := (at_after c (sizes ++ more) t).run hresult
  exact ⟨more, by rw [after, hresult, hrun], by rw [hrun]⟩

end Ferry.FileFlow.Copy
