import Ferry.Proofs.Flow.CopySteps

/-!
# When a marker is seen

Whoever waits for a copy looks for a name in the directory that ends as the name of a
marker does. The marker itself is put last, but other names may end the same way: that of
the file which is copied, that of a place a link under the file's name leads to, and that of
a directory which had to be made on the way. Apart from these a marker is seen just when
there is one (`hasMarker_after_iff`).
-/

namespace Ferry

open File File.Tree

variable {t t₁ t' : Tree} {r : ProvisionedResource} {path name n s : String} {D l m k : Location}

/-! ## Names in a directory -/

theorem mem_children : n ∈ t.children D ↔ t.entry? (D ++ [n]) ≠ none := by
  rw [entry?_eq_find? (by simp), children, List.mem_filterMap, ne_eq, Option.map_eq_none_iff,
    List.find?_eq_none]
  constructor
  · rintro ⟨e, he, hname⟩ hnone
    refine hnone e he ?_
    split at hname
    · next hD =>
      rw [← hD, beq_iff_eq]
      exact (List.dropLast_append_getLast? n hname).symm
    · cases hname
  · intro hsome
    push Not at hsome
    obtain ⟨e, he, heq⟩ := hsome
    rw [beq_iff_eq] at heq
    exact ⟨e, he, by simp [heq]⟩

/-- The path leads to a directory with a name in it that ends as a marker does. -/
def Marked (t : Tree) (path : String) : Prop :=
  ∃ D n, t.canonicalize path = .ok D ∧ t.entry? D = some .directory ∧ isMarker n = true ∧
    t.entry? (D ++ [n]) ≠ none

theorem hasMarker_iff (hpath : r.properties.get? "path" = some path) :
    hasMarker t r = true ↔ Marked t path := by
  simp only [hasMarker, hpath, readDirectory]
  constructor
  · intro h
    cases hD : t.canonicalize path with
    | error e =>
        rw [hD] at h
        cases h
    | ok D =>
        rw [hD] at h
        cases hdir : t.entry? D with
        | none => simp [bind, Except.bind, hdir] at h
        | some e =>
            cases e with
            | directory =>
                obtain ⟨n, hn, hmarker⟩ : ∃ n ∈ t.children D, isMarker n = true := by
                  simpa [bind, Except.bind, hdir, -List.any_eq_true, List.any_eq_true] using h
                exact ⟨D, n, hD, hdir, hmarker, mem_children.1 hn⟩
            | file _ | link _ => simp [bind, Except.bind, hdir] at h
  · rintro ⟨D, n, hD, hdir, hmarker, hn⟩
    simp only [hD, bind, Except.bind, hdir]
    exact List.any_eq_true.2 ⟨n, mem_children.2 hn, hmarker⟩

theorem not_marked_of_not_isDirectory (h : t.isDirectory path = false) : ¬ Marked t path := by
  rintro ⟨D, _, hD, hdir, -, -⟩
  rw [isDirectory_iff.2 ⟨D, hD, hdir⟩] at h
  cases h

theorem isMarker_append (name : String) : isMarker (name ++ markerSuffix) = true := by
  rw [isMarker, String.toList_append, List.isSuffixOf_iff_suffix]
  exact List.suffix_append _ _

/-! ## Files that are written -/

/-- A file is written to no directory, and no path leads elsewhere after it. -/
theorem canonicalize_directory_writes (hm : t.Vacant m) (h : Writes m s t t') :
    t'.canonicalize path = .ok D ∧ t'.entry? D = some .directory ↔
      t.canonicalize path = .ok D ∧ t.entry? D = some .directory := by
  have hentry : t'.entry? D = some .directory ↔ t.entry? D = some .directory := by
    by_cases hD : D = m
    · subst hD
      rw [h.written]
      rcases hm with hm | ⟨s', hm⟩ <;> simp [hm]
    · rw [h.others hD]
  constructor
  · rintro ⟨hD, hdir⟩
    rw [hentry] at hdir
    have hplace := (h.places path).symm.trans (place?_of_canonicalize hD)
    exact ⟨canonicalize_of_place? hplace (by rw [hdir]; simp), hdir⟩
  · rintro ⟨hD, hdir⟩
    rw [← hentry] at hdir
    have hplace := (h.places path).trans (place?_of_canonicalize hD)
    exact ⟨canonicalize_of_place? hplace (by rw [hdir]; simp), hdir⟩

/-- A file that is written is seen as a marker if its place in the directory has such a
name. -/
theorem marked_writes (hm : t.Vacant m) (h : Writes m s t t') :
    Marked t' path ↔ Marked t path ∨ ∃ D n, t.canonicalize path = .ok D ∧
      t.entry? D = some .directory ∧ isMarker n = true ∧ m = D ++ [n] := by
  constructor
  · rintro ⟨D, n, hD, hdir, hmarker, hn⟩
    obtain ⟨hD, hdir⟩ := (canonicalize_directory_writes hm h).1 ⟨hD, hdir⟩
    by_cases hplace : D ++ [n] = m
    · exact .inr ⟨D, n, hD, hdir, hmarker, hplace.symm⟩
    · rw [h.others hplace] at hn
      exact .inl ⟨D, n, hD, hdir, hmarker, hn⟩
  · rintro (⟨D, n, hD, hdir, hmarker, hn⟩ | ⟨D, n, hD, hdir, hmarker, rfl⟩)
    · obtain ⟨hD, hdir⟩ := (canonicalize_directory_writes hm h).2 ⟨hD, hdir⟩
      refine ⟨D, n, hD, hdir, hmarker, ?_⟩
      by_cases hplace : D ++ [n] = m
      · rw [hplace, h.written]
        simp
      · rwa [h.others hplace]
    · obtain ⟨hD, hdir⟩ := (canonicalize_directory_writes hm h).2 ⟨hD, hdir⟩
      exact ⟨D, n, hD, hdir, hmarker, by rw [h.written]; simp⟩

namespace FileFlow

variable {f : FileFlow} {c : Copy} {p : Copy.Point} {text : List Char}

namespace Copy

/-- No name in the directory ends as a marker does. The directory may still have to be
made. -/
def Unmarked (c : Copy) (t : Tree) : Prop :=
  ∀ D n, (t.createAll c.directory).2.canonicalize c.directory = .ok D → isMarker n = true →
    t.entry? (D ++ [n]) = none

/-- On the way to the directory another one is made in it, with a name that ends as a marker
does. -/
def MakesMarker (c : Copy) (t : Tree) : Prop :=
  ∃ t₁ D n, t.createAll c.directory = (.ok (), t₁) ∧ t₁.canonicalize c.directory = .ok D ∧
    isMarker n = true ∧ t₁.entry? (D ++ [n]) ≠ none

/-- The file goes to a place in the directory with a name that ends as a marker does. -/
def OpensMarker (c : Copy) (t : Tree) : Prop :=
  ∃ t₁ name D n, t.createAll c.directory = (.ok (), t₁) ∧ fileName? c.source = some name ∧
    t₁.canonicalize c.directory = .ok D ∧ isMarker n = true ∧
    t₁.place? (c.target name) = some (D ++ [n])

/-- At this point of the copy its directory has an entry that counts as a marker. -/
def MarkerSeen (c : Copy) (t : Tree) (p : Point) : Prop :=
  p ≠ .begun ∧ c.MakesMarker t ∨ p.opened = true ∧ c.OpensMarker t ∨
    p = .marked ∧ c.directory ≠ ""

/-! ## Before the file is opened -/

theorem directory_of_made (hwf : t.WellFormed) (hmake : t.createAll c.directory = (.ok (), t₁))
    (hD : t₁.canonicalize c.directory = .ok D) : t₁.entry? D = some .directory := by
  have hne := ne_empty_of_checkPath (canonicalize_eq_ok.1 hD).1
  obtain ⟨l, hl, hdir⟩ := isDirectory_iff.1 (isDirectory_of_createAll hwf hne hmake)
  rwa [Except.ok.inj (hD.symm.trans hl)]

theorem not_marked_begun (hwf : t.WellFormed) (hclear : c.Unmarked t) :
    ¬ Marked t c.directory := by
  rintro ⟨D, n, hD, -, hmarker, hn⟩
  exact hn (hclear D n (canonicalize_grows hD (createAll_grows hwf c.directory).1) hmarker)

theorem marked_made_iff (hwf : t.WellFormed) (hmake : t.createAll c.directory = (.ok (), t₁)) :
    Marked t₁ c.directory ↔ c.MakesMarker t := by
  constructor
  · rintro ⟨D, n, hD, -, hmarker, hn⟩
    exact ⟨t₁, D, n, hmake, hD, hmarker, hn⟩
  · rintro ⟨t₂, D, n, hmake', hD, hmarker, hn⟩
    obtain rfl : t₁ = t₂ := (Prod.mk.inj (hmake.symm.trans hmake')).2
    exact ⟨D, n, hD, directory_of_made hwf hmake hD, hmarker, hn⟩

/-! ## The open file -/

theorem opensMarker_iff (hwf : t.WellFormed) (hmake : t.createAll c.directory = (.ok (), t₁))
    (hopen : c.Opens t₁ name m text) : c.OpensMarker t ↔
      ∃ D n, t₁.canonicalize c.directory = .ok D ∧ t₁.entry? D = some .directory ∧
        isMarker n = true ∧ m = D ++ [n] := by
  constructor
  · rintro ⟨t₂, name', D, n, hmake', hname, hD, hmarker, hplace⟩
    obtain rfl : t₁ = t₂ := (Prod.mk.inj (hmake.symm.trans hmake')).2
    obtain rfl : name = name' := Option.some.inj (hopen.named.symm.trans hname)
    exact ⟨D, n, hD, directory_of_made hwf hmake hD, hmarker,
      Option.some.inj (hopen.place.1.symm.trans hplace)⟩
  · rintro ⟨D, n, hD, -, hmarker, rfl⟩
    exact ⟨t₁, name, D, n, hmake, hopen.named, hD, hmarker, hopen.place.1⟩

theorem marked_opened_iff (hwf : t.WellFormed)
    (hmake : t.createAll c.directory = (.ok (), t₁)) (hopen : c.Opens t₁ name m text)
    (s : String) : Marked (t₁.put m (.file s)) c.directory ↔ c.MakesMarker t ∨ c.OpensMarker t := by
  rw [marked_writes hopen.place.2 (hopen.writes s), marked_made_iff hwf hmake,
    opensMarker_iff hwf hmake hopen]

/-! ## The marker -/

/-- The marker's place is in the directory: there was no link under its name. -/
theorem marker_place (hwf : t.WellFormed) (hclear : c.Unmarked t)
    (hmake : t.createAll c.directory = (.ok (), t₁)) (hopen : c.Opens t₁ name m text)
    (hD : t₁.canonicalize c.directory = .ok D)
    (hk : (t₁.put m (.file s)).place? (c.marker name) = some k) :
    k = D ++ [name ++ markerSuffix] := by
  have hdir := directory_of_made hwf hmake hD
  have hwrites := hopen.writes s
  obtain ⟨hD', hdir'⟩ := (canonicalize_directory_writes hopen.place.2 hwrites).2 ⟨hD, hdir⟩
  have hisName := isName_marker (isName_of_fileName? hopen.named)
  rcases place?_join hD' hdir' hisName hk with heq | ⟨target, hlink⟩
  · exact heq
  · exfalso
    by_cases hm : D ++ [name ++ markerSuffix] = m
    · rw [hm, hwrites.written] at hlink
      cases hlink
    · rw [hwrites.others hm] at hlink
      have hgrows := (createAll_grows hwf c.directory).1
      have hnone := hclear D (name ++ markerSuffix)
      rw [hmake] at hgrows hnone
      rcases hgrows.made hlink with hlink | ⟨-, hlink, -⟩
      · rw [hnone hD (isMarker_append name)] at hlink
        cases hlink
      · cases hlink

theorem not_shown_of_unmade (hmake : t.createAll c.directory = (.error e, t₁)) :
    ¬ c.MakesMarker t ∧ ¬ c.OpensMarker t := by
  constructor
  · rintro ⟨_, _, _, hmake', -⟩
    rw [hmake] at hmake'
    cases hmake'
  · rintro ⟨_, _, _, _, hmake', -⟩
    rw [hmake] at hmake'
    cases hmake'

/-- In a directory where nothing is taken for a marker beforehand, something is taken for one
just if the marker is there or another name ends as it does. -/
theorem At.marked_iff (hwf : t.WellFormed) (hclear : c.Unmarked t) (h : c.At t p t') :
    Marked t' c.directory ↔ c.MarkerSeen t p := by
  cases h with
  | begun => simp [MarkerSeen, Point.opened, not_marked_begun hwf hclear]
  | unmade hmake =>
      have hnot := not_marked_of_not_isDirectory (not_isDirectory_of_createAll hwf hmake)
      simp [MarkerSeen, Point.opened, hnot, not_shown_of_unmade hmake]
  | made hmake => simp [MarkerSeen, Point.opened, marked_made_iff hwf hmake]
  | unopened hmake hopen => simp [MarkerSeen, Point.opened, marked_made_iff hwf hmake]
  | writing hmake hopen => simp [MarkerSeen, Point.opened, marked_opened_iff hwf hmake hopen]
  | unmarked hmake hopen hmark =>
      simp [MarkerSeen, Point.opened, marked_opened_iff hwf hmake hopen]
  | @marked t₁ _ name m text hmake hopen hmark =>
      obtain ⟨k, hk, hvacant, hwrites⟩ := writeEmpty_eq_ok hmark
      rw [marked_writes hvacant hwrites, marked_opened_iff hwf hmake hopen]
      have hwritten := hopen.writes (.ofList text)
      constructor
      · rintro ((h | h) | ⟨D, _, hD, -, -, -⟩)
        · exact .inl ⟨by simp, h⟩
        · exact .inr (.inl ⟨rfl, h⟩)
        · exact .inr (.inr ⟨rfl, ne_empty_of_checkPath (canonicalize_eq_ok.1 hD).1⟩)
      · rintro (⟨-, h⟩ | ⟨-, h⟩ | ⟨-, hne⟩)
        · exact .inl (.inl h)
        · exact .inl (.inr h)
        · obtain ⟨D, hD, hdir⟩ := isDirectory_iff.1 (isDirectory_of_createAll hwf hne hmake)
          obtain ⟨hD', hdir'⟩ :=
            (canonicalize_directory_writes hopen.place.2 hwritten).2 ⟨hD, hdir⟩
          exact .inr ⟨D, name ++ markerSuffix, hD', hdir', isMarker_append name,
            marker_place hwf hclear hmake hopen hD hk⟩

theorem hasMarker_after_iff (hwf : t.WellFormed) (hclear : c.Unmarked t)
    (hpath : r.properties.get? "path" = some c.directory) (sizes : List Nat) :
    hasMarker (c.after sizes t).2 r = true ↔ c.MarkerSeen t (c.after sizes t).1 := by
  rw [hasMarker_iff hpath, (at_after c sizes t).marked_iff hwf hclear]

theorem opened_step (size : Nat) (t' : Tree) (hp : p.opened = true) :
    (c.step size (p, t')).1.opened = true := by
  cases p with
  | begun | made => cases hp
  | writing name m rest =>
      rw [Copy.step]
      split
      · unfold putMarker
        split <;> rfl
      · rfl
  | marked | failed _ _ => exact hp

theorem step_ne_begun (size : Nat) (t' : Tree) (hp : p ≠ .begun) :
    (c.step size (p, t')).1 ≠ .begun := by
  cases p with
  | begun => exact absurd rfl hp
  | made =>
      rw [Copy.step]
      rcases openBoth_cases c t' with ⟨e, hopen, -⟩ | ⟨name, m, text, -, hopen⟩ <;>
        rw [hopen] <;> simp
  | writing name m rest =>
      rw [Copy.step]
      split
      · unfold putMarker
        split <;> simp
      · simp
  | marked | failed _ _ => exact hp

/-- What is seen once is seen at every later point. -/
theorem MarkerSeen.step (h : c.MarkerSeen t p) (size : Nat) (t' : Tree) :
    c.MarkerSeen t (c.step size (p, t')).1 := by
  rcases h with ⟨hp, h⟩ | ⟨hp, h⟩ | ⟨rfl, hne⟩
  · exact .inl ⟨step_ne_begun size t' hp, h⟩
  · exact .inr (.inl ⟨opened_step size t' hp, h⟩)
  · exact .inr (.inr ⟨rfl, hne⟩)

/-! ## When something else is seen -/

/-- A copy that was looked at before it was started makes no other directory in its own. -/
theorem not_makesMarker (h : Planned f t c) (hclear : c.Unmarked t) : ¬ c.MakesMarker t := by
  rintro ⟨t₁, D, n, hmake, hD, hmarker, hn⟩
  obtain ⟨top, D', -, hgrows, -, hready⟩ := h.ready hmake
  obtain rfl : D = D' := Except.ok.inj (hD.symm.trans hready.found)
  rcases hready.before with rfl | ⟨-, hempty⟩
  · refine hn (hclear D n ?_ hmarker)
    rwa [hmake]
  · exact hn (hempty n)

/-- The file's name ends as a marker's does, or it is a link. -/
theorem OpensMarker.named (hwf : t.WellFormed) (h : c.OpensMarker t) :
    ∃ name, fileName? c.source = some name ∧ (isMarker name = true ∨
      ∃ D n target, t.entry? (D ++ [name]) = some (.link target) ∧ isMarker n = true ∧
        (t.createAll c.directory).2.canonicalize c.directory = .ok D ∧
        (t.createAll c.directory).2.place? (c.target name) = some (D ++ [n])) := by
  obtain ⟨t₁, name, D, n, hmake, hname, hD, hmarker, hplace⟩ := h
  refine ⟨name, hname, ?_⟩
  rcases place?_join hD (directory_of_made hwf hmake hD) (isName_of_fileName? hname) hplace with
    heq | ⟨target, hlink⟩
  · obtain ⟨-, hnames⟩ := List.append_inj' heq rfl
    exact .inl (List.singleton_inj.1 hnames ▸ hmarker)
  · have hgrows := (createAll_grows hwf c.directory).1
    rw [hmake] at hgrows ⊢
    rcases hgrows.made hlink with hlink | ⟨-, hdirectory, -⟩
    · exact .inr ⟨D, n, target, hlink, hmarker, hD, hplace⟩
    · cases hdirectory

/-! ## The whole file -/

/-- The target holds what the source held, unless it is the source. -/
def Whole (c : Copy) (t t' : Tree) : Prop :=
  ∃ name l s, fileName? c.source = some name ∧ t.canonicalize c.source = .ok l ∧
    t.entry? l = some (.file s) ∧
    (t'.place? (c.target name) = some l ∨ t'.stat (c.target name) = .ok (.file s))

/-- The marker is put when the whole file has been written, unless the file went to the
marker's own place. -/
theorem At.whole (hwf : t.WellFormed) (hclear : c.Unmarked t)
    (hsource : t.stat c.source = .ok (.file s)) (h : c.At t .marked t')
    (hnot : ¬ c.OpensMarker t) (hne : c.directory ≠ "") : c.Whole t t' := by
  cases h with
  | @marked t₁ _ name m text hmake hopen hmark =>
      obtain ⟨k, hk, hvacant, hwrites⟩ := writeEmpty_eq_ok hmark
      have hwritten := hopen.writes (.ofList text)
      obtain ⟨l, hl, hfile⟩ := stat_eq_ok hsource
      have hgrows := (createAll_grows hwf c.directory).1
      rw [hmake] at hgrows
      have hplace : t'.place? (c.target name) = some m := by
        rw [hwrites.places, hwritten.places, hopen.place.1]
      refine ⟨name, l, s, hopen.named, hl, hfile, ?_⟩
      by_cases hlm : l = m
      · exact .inl (hlm ▸ hplace)
      right
      obtain ⟨D, hD, hdir⟩ := isDirectory_iff.1 (isDirectory_of_createAll hwf hne hmake)
      have hmk : m ≠ k := by
        rintro rfl
        refine hnot ((opensMarker_iff hwf hmake hopen).2 ?_)
        exact ⟨D, _, hD, hdir, isMarker_append name, marker_place hwf hclear hmake hopen hD hk⟩
      obtain ⟨l', hopened, rfl⟩ := hopen.read
      obtain rfl : l = l' :=
        Except.ok.inj ((canonicalize_grows hl hgrows).symm.trans (openSource_eq_ok hopened).1)
      have hcontent : (t₁.put m (.file "")).content l = s :=
        content_of_file (((hopen.writes "").others hlm).trans (hgrows.kept hfile))
      refine stat_of_place? hplace ?_
      rw [hwrites.others hmk, hwritten.written, hcontent, String.ofList_toList]

end Copy

end FileFlow

end Ferry
