import Ferry.Proofs.Flow.FileCopy

/-!
# What a copy touches

A request that is refused leaves the tree as it is. One that is taken reads its source
below the source root and writes to two places in a directory below the destination root,
the file's and the marker's. Both names are put at the end of a path that was checked
without them, and when they are opened links are followed. A link that stands in one of
the two places before the copy therefore decides where the copy writes, and nothing else
does.
-/

namespace Ferry.FileFlow

open File File.Tree

variable {f : FileFlow} {t t₁ t₂ : Tree} {r : TransferRequest} {c : Copy} {l m : Location}
  {s : String}

/-- The answer to a request, and the tree when the copy it started has ended. -/
def perform (f : FileFlow) (t : Tree) (r : TransferRequest) : FlowOutcome × Tree :=
  match f.initiate t r with
  | (outcome, some copy) => (outcome, (copy.run t).2)
  | (outcome, none) => (outcome, t)

/-- The location is at the destination root or below. -/
def Inside (f : FileFlow) (t : Tree) (l : Location) : Prop :=
  ∃ top, t.canonicalize f.destinationRoot = .ok top ∧ top <+: l

/-- Something has been made there, or what was there is no longer the same. -/
def Changed (f : FileFlow) (t : Tree) (r : TransferRequest) (l : Location) : Prop :=
  Tree.entry? (f.perform t r).2 l ≠ t.entry? l

/-- Nothing but what is below the roots is read or written, and nothing is written for a
request that is refused. -/
structure Confined (f : FileFlow) (t : Tree) (r : TransferRequest) : Prop where
  refused : (f.perform t r).1 ≠ .ok → (f.perform t r).2 = t
  read : ∀ c l, f.plan t r = .ok c → (t.createAll c.directory).2.openSource c.source = .ok l →
    ∃ top, t.canonicalize f.sourceRoot = .ok top ∧ top <+: l
  written : ∀ l, f.Changed t r l → f.Inside t l

/-- In the directory a link stands where the file or its marker is to go, and it leads
there. -/
def Copy.LinkedTo (c : Copy) (t : Tree) (l : Location) : Prop :=
  ∃ D name n target, fileName? c.source = some name ∧ (n = name ∨ n = name ++ markerSuffix) ∧
    t.canonicalize c.directory = .ok D ∧ t.entry? (D ++ [n]) = some (.link target) ∧
    t.place? (join c.directory n) = some l

theorem perform_of_plan (h : f.plan t r = .ok c) : f.perform t r = (.ok, (c.run t).2) := by
  rw [perform, initiate, h]

theorem perform_of_refusal {outcome : FlowOutcome} (h : f.plan t r = .error outcome) :
    f.perform t r = (outcome, t) := by
  rw [perform, initiate, h]

theorem perform_refused (h : (f.perform t r).1 ≠ .ok) : (f.perform t r).2 = t := by
  cases hplan : f.plan t r with
  | ok c =>
      rw [perform_of_plan hplan] at h
      exact absurd rfl h
  | error outcome => rw [perform_of_refusal hplan]

theorem Planned.read (h : Planned f t c)
    (hopen : (t.createAll c.directory).2.openSource c.source = .ok l) :
    ∃ top, t.canonicalize f.sourceRoot = .ok top ∧ top <+: l := by
  obtain ⟨top, l', s, htop, hl', -, hprefix⟩ := h.source
  obtain ⟨_, -, hmade⟩ := h.directory
  obtain ⟨hl, -⟩ := openSource_eq_ok hopen
  obtain rfl : l' = l := Except.ok.inj ((canonicalize_grows hl' hmade.grows).symm.trans hl)
  exact ⟨top, htop, hprefix⟩

/-- One of the two names leads into the directory or is a link. -/
theorem Planned.place (h : Planned f t c) {name n : String}
    (hmake : t.createAll c.directory = (.ok (), t₁)) (hname : fileName? c.source = some name)
    (hn : n = name ∨ n = name ++ markerSuffix)
    (hplace : t₁.place? (join c.directory n) = some l) :
    f.Inside t l ∨ c.LinkedTo t l := by
  obtain ⟨top, D, htop, -, hprefix, hready⟩ := h.ready hmake
  have hisName : IsName n := by
    rcases hn with rfl | rfl
    · exact isName_of_fileName? hname
    · exact isName_marker (isName_of_fileName? hname)
  rcases hready.place hisName hplace with rfl | ⟨rfl, target, hlink⟩
  · exact .inl ⟨top, htop, hprefix.trans (List.prefix_append D [n])⟩
  · exact .inr ⟨D, name, n, target, hname, hn, hready.found, hlink, hplace⟩

theorem Planned.inside_of_grows (h : Planned f t c)
    (hl : Tree.entry? (t.createAll c.directory).2 l ≠ t.entry? l) : f.Inside t l := by
  obtain ⟨top, htop, hmade⟩ := h.directory
  exact ⟨top, htop, hmade.grows.prefix_of_ne hl⟩

/-- What a copy changes is inside, or a link leads there. -/
theorem Planned.changed (h : Planned f t c) (hl : Tree.entry? (c.run t).2 l ≠ t.entry? l) :
    f.Inside t l ∨ c.LinkedTo t l := by
  have hran := ran c t
  generalize c.run t = result at hran hl
  cases hran with
  | unmade hmake | nameless hmake _ | uncopied hmake _ _ =>
      exact .inl (h.inside_of_grows (by rw [hmake]; exact hl))
  | @unmarked t₁ t₂ name e hmake hname hcopy hmark =>
      obtain ⟨_, m, _, -, -, hm, -, hwrites⟩ := copy_eq_ok hcopy
      by_cases hlm : l = m
      · subst hlm
        exact h.place hmake hname (.inl rfl) hm
      · rw [hwrites.others hlm] at hl
        exact .inl (h.inside_of_grows (by rw [hmake]; exact hl))
  | @done t₁ t₂ t₃ name hmake hname hcopy hmark =>
      obtain ⟨_, m, _, -, -, hm, -, hwrites⟩ := copy_eq_ok hcopy
      obtain ⟨k, hk, -, hwrites'⟩ := writeEmpty_eq_ok hmark
      by_cases hlk : l = k
      · subst hlk
        rw [hwrites.places] at hk
        exact h.place hmake hname (.inr rfl) hk
      by_cases hlm : l = m
      · subst hlm
        exact h.place hmake hname (.inl rfl) hm
      · rw [hwrites'.others hlk, hwrites.others hlm] at hl
        exact .inl (h.inside_of_grows (by rw [hmake]; exact hl))

/-- In every tree, a request changes nothing outside the destination root but where a link
leads that stands where the file or its marker is to go; all else that confines it always
holds. -/
theorem confined_unless_linked (hwf : t.WellFormed) :
    (∀ l, f.Changed t r l → f.Inside t l ∨ ∃ c, f.plan t r = .ok c ∧ c.LinkedTo t l) ∧
    (f.Confined t r ↔
      ∀ c l, f.plan t r = .ok c → c.LinkedTo t l → f.Changed t r l → f.Inside t l) := by
  have hchanged : ∀ l, f.Changed t r l →
      f.Inside t l ∨ ∃ c, f.plan t r = .ok c ∧ c.LinkedTo t l := by
    intro l hl
    rw [Changed] at hl
    cases hplan : f.plan t r with
    | ok c =>
        rw [perform_of_plan hplan] at hl
        exact ((planned hwf hplan).changed hl).imp_right fun hlinked => ⟨c, rfl, hlinked⟩
    | error outcome =>
        rw [perform_of_refusal hplan] at hl
        exact absurd rfl hl
  refine ⟨hchanged, fun h c l _ _ hl => h.written l hl, fun h => ⟨perform_refused, ?_, ?_⟩⟩
  · intro c l hplan hopen
    exact (planned hwf hplan).read hopen
  · intro l hl
    rcases hchanged l hl with hinside | ⟨c, hplan, hlinked⟩
    · exact hinside
    · exact h c l hplan hlinked hl

/-! ## A link that leads out -/

def boxes : FileFlow := ⟨"outbox", "inbox"⟩

/-- The file `a.txt` is to be copied into the directory `d`. -/
def wish : TransferRequest where
  id := "t"
  destination := { kind := localDirectory, properties := .ofList [("path", "d")] }
  properties := .ofList [("source_path", "a.txt")]

/-- Where the copy is to go there is a link to a file outside. -/
def leaky : Tree where
  entries := [(["outbox"], .directory), (["outbox", "a.txt"], .file "new"),
    (["inbox"], .directory), (["inbox", "d"], .directory),
    (["inbox", "d", "a.txt"], .link "../../victim.txt"), (["victim.txt"], .file "old")]

theorem wellFormed_leaky : leaky.WellFormed :=
  wellFormed_of_entries (by decide) rfl

theorem changed_leaky : boxes.Changed leaky wish ["victim.txt"] := by
  have hnew : Tree.entry? (boxes.perform leaky wish).2 ["victim.txt"] = some (.file "new") := by
    decide +kernel
  rw [Changed, hnew]
  decide

theorem not_inside_leaky : ¬ boxes.Inside leaky ["victim.txt"] := by
  rintro ⟨top, htop, hprefix⟩
  obtain rfl : top = ["inbox"] := Except.ok.inj (htop.symm.trans rfl)
  exact absurd hprefix (by decide)

theorem linked_leaky : leaky.WellFormed ∧
    ∃ c, boxes.plan leaky wish = .ok c ∧ c.LinkedTo leaky ["victim.txt"] :=
  ⟨wellFormed_leaky, ((confined_unless_linked wellFormed_leaky).1 ["victim.txt"]
    changed_leaky).resolve_left not_inside_leaky⟩

/-- A copy can change a file outside the destination root. -/
theorem not_confined_leaky : ¬ ∀ (f : FileFlow) (t : Tree) (r : TransferRequest),
    t.WellFormed → f.Confined t r :=
  fun h => not_inside_leaky
    ((h boxes leaky wish wellFormed_leaky).written ["victim.txt"] changed_leaky)

end Ferry.FileFlow
