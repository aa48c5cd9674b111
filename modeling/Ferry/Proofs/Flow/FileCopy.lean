import Ferry.Flow.FileCopy
import Ferry.Proofs.File.Making
import Ferry.Proofs.File.Writing

/-!
# One copy

What was found out about a copy before it was started (`Planned`), and the ways it can
end (`Ran`). Between the two lies the making of the directory, which changes no file and
finds the directory where it was, or leaves a new one with nothing in it. In both cases
the places of the two names in it are known: they are in the directory unless there was
a link in it before.
-/

namespace Ferry.FileFlow

open File File.Tree

variable {f : FileFlow} {t t' t₁ t₂ : Tree} {r : TransferRequest} {c : Copy}
  {l D : Location} {name : String}

/-! ## Names of files -/

theorem isName_of_fileName? {path : String} (h : fileName? path = some name) : IsName name := by
  rw [fileName?, components_eq] at h
  rcases List.eq_nil_or_concat' (names (pieces path)) with hnil | ⟨ns, n, hns⟩
  · rw [hnil, List.map_nil, List.append_nil] at h
    rcases front_cases path with ⟨hf, _⟩ | ⟨hf, _⟩ | ⟨hf, _⟩ <;> rw [hf] at h <;> cases h
  · have hmem : n ∈ names (pieces path) := by simp [hns]
    obtain ⟨hpiece, hblank⟩ := mem_names.1 hmem
    rw [hns, List.map_append, List.map_singleton, ← List.append_assoc,
      List.getLast?_concat] at h
    have hn : component n = .normal name := by
      cases hc : component n with
      | normal m => rw [hc] at h; exact congrArg _ (Option.some.inj h)
      | root | here | up => rw [hc] at h; cases h
    obtain rfl : n = name := by rw [← component_text n, hn]; rfl
    obtain ⟨hempty, hdot⟩ := not_or.1 hblank
    refine ⟨⟨hempty, hdot, fun hup => ?_⟩, not_mem_of_mem_pieces hpiece⟩
    rw [component_eq_up.2 hup] at hn
    cases hn

theorem isName_marker (h : IsName name) : IsName (name ++ markerSuffix) := by
  have hlong : 2 < (name ++ markerSuffix).toList.length := by
    rw [String.toList_append, List.length_append]
    have hsuffix : markerSuffix.toList.length = 9 := by decide
    omega
  refine ⟨⟨?_, ?_, ?_⟩, ?_⟩
  · intro heq
    rw [heq] at hlong
    exact absurd hlong (by decide)
  · intro heq
    rw [heq] at hlong
    exact absurd hlong (by decide)
  · intro heq
    rw [heq] at hlong
    exact absurd hlong (by decide)
  · rw [String.toList_append, List.mem_append]
    rintro (hslash | hslash)
    · exact h.no_slash hslash
    · exact absurd hslash (by decide)

theorem marker_ne (name : String) : name ++ markerSuffix ≠ name := by
  intro heq
  have hlength := congrArg (fun s : String => s.toList.length) heq
  have hsuffix : markerSuffix.toList.length = 9 := by decide
  simp only [String.toList_append, List.length_append] at hlength
  omega

/-! ## Before the copy -/

theorem resolvesWithin_eq_ok {root path : String} (h : t.resolvesWithin root path = .ok true) :
    ∃ top, t.canonicalize root = .ok top ∧
      t.existsBelow top ((components path).length + 1) path = .ok true := by
  rw [resolvesWithin] at h
  cases hc : t.canonicalize root with
  | error e => rw [hc] at h; cases h
  | ok top =>
      rw [hc] at h
      exact ⟨top, rfl, h⟩

theorem checkWithin_eq_ok {root path what : String} (h : checkWithin t root path what = .ok ()) :
    t.resolvesWithin root path = .ok true := by
  rw [checkWithin] at h
  split at h
  · assumption
  · cases h
  · cases h

theorem checkFile_eq_ok {path : String} (h : checkFile t path = .ok ()) :
    ∃ s, t.stat path = .ok (.file s) := by
  rw [checkFile] at h
  split at h
  · next s hs => exact ⟨s, hs⟩
  · cases h
  · cases h
  · cases h

/-- What is known of a copy that is started: the source is a file below its root, and the
directory will be made below its root. -/
structure Planned (f : FileFlow) (t : Tree) (c : Copy) : Prop where
  source : ∃ top l s, t.canonicalize f.sourceRoot = .ok top ∧ t.canonicalize c.source = .ok l ∧
    t.entry? l = some (.file s) ∧ top <+: l
  directory : ∃ top, t.canonicalize f.destinationRoot = .ok top ∧
    Made top t c.directory (t.createAll c.directory)
  check : checkPath c.directory = .ok ()

theorem plan_eq_ok (h : f.plan t r = .ok c) :
    (∃ goal, confine f.destinationRoot goal = some c.directory) ∧
      (∃ s, t.stat c.source = .ok (.file s)) ∧
      t.resolvesWithin f.sourceRoot c.source = .ok true ∧
      t.resolvesWithin f.destinationRoot c.directory = .ok true ∧ c.correlationId = r.id := by
  rw [plan] at h
  cases hwanted : sourceOf? r with
  | none => rw [hwanted] at h; cases h
  | some wanted =>
  cases hgoal : r.destination.properties.get? "path" with
  | none => rw [hwanted, hgoal] at h; cases h
  | some goal =>
  cases hsource : confine f.sourceRoot wanted with
  | none => simp only [hwanted, hgoal, hsource] at h; cases h
  | some source =>
  cases hdirectory : confine f.destinationRoot goal with
  | none => simp only [hwanted, hgoal, hsource, hdirectory] at h; cases h
  | some directory =>
  simp only [hwanted, hgoal, hsource, hdirectory] at h
  cases hfile : checkFile t source with
  | error e => rw [hfile] at h; cases h
  | ok _ =>
  rw [hfile] at h
  cases hwithin : checkWithin t f.sourceRoot source "source" with
  | error e => simp [bind, Except.bind, hwithin] at h
  | ok _ =>
  cases hwithin' : checkWithin t f.destinationRoot directory "destination" with
  | error e => simp [bind, Except.bind, hwithin, hwithin'] at h
  | ok _ =>
      obtain rfl : (⟨source, directory, r.id⟩ : Copy) = c := by
        simpa [bind, Except.bind, hwithin, hwithin'] using h
      exact ⟨⟨goal, hdirectory⟩, checkFile_eq_ok hfile, checkWithin_eq_ok hwithin,
        checkWithin_eq_ok hwithin', rfl⟩

theorem planned (hwf : t.WellFormed) (h : f.plan t r = .ok c) : Planned f t c := by
  obtain ⟨⟨goal, hgoal⟩, ⟨s, hstat⟩, hsource, hdirectory, -⟩ := plan_eq_ok h
  obtain ⟨l, hl, hfile⟩ := stat_eq_ok hstat
  obtain ⟨top, htop, hbelow⟩ := resolvesWithin_eq_ok hsource
  obtain ⟨top', htop', hbelow'⟩ := resolvesWithin_eq_ok hdirectory
  have hne : f.destinationRoot ≠ "" := ne_empty_of_checkPath (canonicalize_eq_ok.1 htop').1
  obtain ⟨rest, hnames, hup, habs⟩ := names_confine hne hgoal
  exact ⟨⟨top, l, s, htop, hl, hfile, prefix_of_existsBelow hbelow hl⟩,
    ⟨top', htop', made_of_existsBelow hwf htop' hup hnames habs hbelow'⟩,
    checkPath_of_existsBelow hbelow'⟩

/-! ## The copy -/

/-- Where the file is to go. -/
def Copy.target (c : Copy) (name : String) : String :=
  join c.directory name

/-- Where the marker is to go. -/
def Copy.marker (c : Copy) (name : String) : String :=
  join c.directory (name ++ markerSuffix)

/-- The ways a copy can end. -/
inductive Ran (c : Copy) (t : Tree) : Except FileError Unit × Tree → Prop where
  | unmade {e : FileError} {t₁ : Tree} (hmake : t.createAll c.directory = (.error e, t₁)) :
      Ran c t (.error e, t₁)
  | nameless {t₁ : Tree} (hmake : t.createAll c.directory = (.ok (), t₁))
      (hname : fileName? c.source = none) : Ran c t (.error .noFileName, t₁)
  | uncopied {t₁ : Tree} {name : String} {e : FileError}
      (hmake : t.createAll c.directory = (.ok (), t₁))
      (hname : fileName? c.source = some name)
      (hcopy : t₁.copy c.source (c.target name) = .error e) : Ran c t (.error e, t₁)
  | unmarked {t₁ t₂ : Tree} {name : String} {e : FileError}
      (hmake : t.createAll c.directory = (.ok (), t₁))
      (hname : fileName? c.source = some name)
      (hcopy : t₁.copy c.source (c.target name) = .ok t₂)
      (hmark : t₂.writeEmpty (c.marker name) = .error e) : Ran c t (.error e, t₂)
  | done {t₁ t₂ t₃ : Tree} {name : String} (hmake : t.createAll c.directory = (.ok (), t₁))
      (hname : fileName? c.source = some name)
      (hcopy : t₁.copy c.source (c.target name) = .ok t₂)
      (hmark : t₂.writeEmpty (c.marker name) = .ok t₃) : Ran c t (.ok (), t₃)

theorem ran (c : Copy) (t : Tree) : Ran c t (c.run t) := by
  rw [Copy.run]
  rcases hmake : t.createAll c.directory with ⟨result, t₁⟩
  cases result with
  | error e => exact .unmade hmake
  | ok _ =>
      cases hname : fileName? c.source with
      | none => exact .nameless hmake hname
      | some name =>
          dsimp only
          cases hcopy : t₁.copy c.source (c.target name) with
          | error e =>
              rw [Copy.target] at hcopy
              simp only [hcopy]
              exact .uncopied hmake hname hcopy
          | ok t₂ =>
              rw [Copy.target] at hcopy
              simp only [hcopy]
              cases hmark : t₂.writeEmpty (c.marker name) with
              | error e =>
                  rw [Copy.marker] at hmark
                  simp only [hmark]
                  exact .unmarked hmake hname hcopy hmark
              | ok t₃ =>
                  rw [Copy.marker] at hmark
                  simp only [hmark]
                  exact .done hmake hname hcopy hmark

/-! ## In the directory -/

/-- The directory is made, and is where it was before or new. -/
structure Ready (t t₁ : Tree) (c : Copy) (D : Location) : Prop where
  found : t₁.canonicalize c.directory = .ok D
  directory : t₁.entry? D = some .directory
  before : t₁ = t ∨
    t.canonicalize c.directory = .error .notFound ∧ ∀ n, t₁.entry? (D ++ [n]) = none

theorem Planned.ready (h : Planned f t c) (hmake : t.createAll c.directory = (.ok (), t₁)) :
    ∃ top D, t.canonicalize f.destinationRoot = .ok top ∧ Grows top t t₁ ∧ top <+: D ∧
      Ready t t₁ c D := by
  obtain ⟨top, htop, hmade⟩ := h.directory
  rw [hmake] at hmade
  obtain ⟨D, hD, hdir, hprefix, hbefore⟩ := hmade.directory rfl
  exact ⟨top, D, htop, hmade.grows, hprefix, hD, hdir, hbefore⟩

/-- The place of a name is in the directory, unless a link was there before. -/
theorem Ready.place (h : Ready t t₁ c D) {n : String} (hn : IsName n)
    (hplace : t₁.place? (join c.directory n) = some l) :
    l = D ++ [n] ∨ t₁ = t ∧ ∃ target, t.entry? (D ++ [n]) = some (.link target) := by
  rcases place?_join h.found h.directory hn hplace with hl | ⟨target, hlink⟩
  · exact .inl hl
  · rcases h.before with rfl | ⟨-, hempty⟩
    · exact .inr ⟨rfl, target, hlink⟩
    · rw [hempty n] at hlink
      cases hlink

end Ferry.FileFlow
