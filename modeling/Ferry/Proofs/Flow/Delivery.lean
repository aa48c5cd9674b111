import Ferry.Proofs.Flow.FileCopy
import Ferry.Proofs.Flow.Finishing

/-!
# What a copy delivers

A copy reads one place and writes two. If these are three different places, the data
arrives, the source stays as it is and the marker is put beside the data. Nobody looks
whether they are: the roots may overlap, a link may lead from one of the names to another,
and a file may be called as the marker of another. Opening a file to write it empties it,
so where two of the places are the same the job completes just so, but the data is gone.

A copy that fails makes no marker, unless the link it wrote the data through led to the
place of the marker.
-/

namespace Ferry.FileFlow

open File File.Tree
open Store (Table Row Cell)

variable {f : FileFlow} {t t' t₁ t₂ t₃ : Tree} {r : TransferRequest} {c : Copy}
  {l m k D : Location} {name s : String} {e : FileError}

/-- The two paths lead to the same place. -/
def SameFile (t : Tree) (path path' : String) : Prop :=
  ∃ l, t.place? path = some l ∧ t.place? path' = some l

namespace Copy

/-- The file, the copy and the marker are in three different places. -/
structure Apart (c : Copy) (t : Tree) (name : String) : Prop where
  source_target : ¬ SameFile t c.source (c.target name)
  source_marker : ¬ SameFile t c.source (c.marker name)
  target_marker : ¬ SameFile t (c.target name) (c.marker name)

/-- What the file held before is what it holds and what its copy holds afterwards, and there
is a marker. -/
def Delivered (c : Copy) (t t' : Tree) : Prop :=
  ∃ name bytes, fileName? c.source = some name ∧ t.stat c.source = .ok (.file bytes) ∧
    t'.stat (c.target name) = .ok (.file bytes) ∧ t'.stat c.source = .ok (.file bytes) ∧
    ∃ s, t'.stat (c.marker name) = .ok (.file s)

/-- There is a marker that was not there before. -/
def MarkerMade (c : Copy) (t t' : Tree) : Prop :=
  ∃ name D s, fileName? c.source = some name ∧ t'.canonicalize c.directory = .ok D ∧
    t.entry? (D ++ [name ++ markerSuffix]) = none ∧
    t'.entry? (D ++ [name ++ markerSuffix]) = some (.file s)

/-- The name of the copy is a link that leads to the place of the marker. -/
def LeadsToMarker (c : Copy) (t : Tree) : Prop :=
  ∃ name D, fileName? c.source = some name ∧ t.canonicalize c.directory = .ok D ∧
    t.place? (c.target name) = some (D ++ [name ++ markerSuffix])

/-- What is reported of the copy. -/
def report (c : Copy) (t : Tree) : Option String :=
  match (c.run t).1 with
  | .ok () => none
  | .error e => some (c.failure e)

end Copy

/-! ## Three places -/

theorem sameFile_iff {path path' : String} (hl : t.place? path = some l)
    (hm : t.place? path' = some m) : SameFile t path path' ↔ l = m := by
  constructor
  · rintro ⟨k, hk, hk'⟩
    rw [hl] at hk
    rw [hm] at hk'
    exact (Option.some.inj hk).trans (Option.some.inj hk').symm
  · rintro rfl
    exact ⟨l, hl, hm⟩

/-- The places the copy will see are three just if they were three before the directory
was made. -/
theorem Ready.apart_iff (h : Ready t t₁ c D) (hwf : t.WellFormed)
    (hcheck : checkPath c.directory = .ok ()) (hname : fileName? c.source = some name)
    (hl : t.place? c.source = some l) (hfile : t₁.entry? l = some (.file s))
    (hm : t₁.place? (c.target name) = some m) (hk : t₁.place? (c.marker name) = some k) :
    c.Apart t name ↔ l ≠ m ∧ l ≠ k ∧ m ≠ k := by
  have htarget := isName_of_fileName? hname
  have hmarker := isName_marker htarget
  rcases h.before with rfl | ⟨hmissing, hempty⟩
  · constructor
    · intro h
      exact ⟨(sameFile_iff hl hm).not.1 h.source_target, (sameFile_iff hl hk).not.1 h.source_marker,
        (sameFile_iff hm hk).not.1 h.target_marker⟩
    · rintro ⟨hlm, hlk, hmk⟩
      exact ⟨(sameFile_iff hl hm).not.2 hlm, (sameFile_iff hl hk).not.2 hlk,
        (sameFile_iff hm hk).not.2 hmk⟩
  · -- there was no directory, so neither name had a place, and now both are new
    have hplace : ∀ {n p}, IsName n → t₁.place? (join c.directory n) = some p → p = D ++ [n] := by
      intro n p hn hp
      rcases place?_join h.found h.directory hn hp with hp | ⟨target, hlink⟩
      · exact hp
      · rw [hempty n] at hlink
        cases hlink
    have hnone : ∀ {n p}, IsName n → t.place? (join c.directory n) ≠ some p := by
      intro n p hn hp
      obtain ⟨D', hD'⟩ := canonicalize_of_join hwf hcheck hn hp
      rw [hmissing] at hD'
      cases hD'
    obtain rfl := hplace htarget hm
    obtain rfl := hplace hmarker hk
    refine ⟨fun _ => ⟨?_, ?_, ?_⟩, fun _ => ⟨?_, ?_, ?_⟩⟩
    · rintro rfl
      rw [hempty name] at hfile
      cases hfile
    · rintro rfl
      rw [hempty (name ++ markerSuffix)] at hfile
      cases hfile
    · intro heq
      obtain ⟨-, hnames⟩ := List.append_inj' heq rfl
      exact marker_ne name (List.singleton_inj.1 hnames).symm
    · rintro ⟨p, -, hp⟩
      exact hnone htarget hp
    · rintro ⟨p, -, hp⟩
      exact hnone hmarker hp
    · rintro ⟨p, hp, -⟩
      exact hnone htarget hp

/-! ## A copy that is done -/

/-- The three places of a copy that is done, and what is there. The marker was written
last, so it is empty whatever else its place is. -/
structure Copy.Landed (c : Copy) (t t' : Tree) (name : String) (l m k : Location) (s : String) :
    Prop where
  named : fileName? c.source = some name
  held : t.stat c.source = .ok (.file s)
  source : t'.place? c.source = some l
  target : t'.place? (c.target name) = some m
  marker : t'.place? (c.marker name) = some k
  apart : c.Apart t name ↔ l ≠ m ∧ l ≠ k ∧ m ≠ k
  marked : t'.entry? k = some (.file "")
  copied : m ≠ k → t'.entry? m = some (.file (if l = m then "" else s))
  kept : l ≠ k → l ≠ m → t'.entry? l = some (.file s)

theorem landed (hwf : t.WellFormed) (h : Planned f t c) (hrun : c.run t = (.ok (), t')) :
    ∃ name l m k s, c.Landed t t' name l m k s := by
  have hran := ran c t
  rw [hrun] at hran
  cases hran with
  | @done t₁ t₂ _ name hmake hname hcopy hmark =>
  obtain ⟨top, D, -, hgrows, -, hready⟩ := h.ready hmake
  obtain ⟨-, l, s, -, hl, hfile, -⟩ := h.source
  obtain ⟨l', m, s', hl', hfile', hm, -, hwrites⟩ := copy_eq_ok hcopy
  obtain ⟨k, hk, -, hwrites'⟩ := writeEmpty_eq_ok hmark
  rw [hwrites.places] at hk
  obtain rfl : l = l' := Except.ok.inj ((canonicalize_grows hl hgrows).symm.trans hl')
  obtain rfl : s = s' :=
    Entry.file.inj (Option.some.inj ((hgrows.kept hfile).symm.trans hfile'))
  have hplace : ∀ path, t'.place? path = t₁.place? path := fun path =>
    (hwrites'.places path).trans (hwrites.places path)
  refine ⟨name, l, m, k, s, hname, stat_of_place? (place?_of_canonicalize hl) hfile,
    (hplace _).trans (place?_of_canonicalize hl'), (hplace _).trans hm, (hplace _).trans hk,
    hready.apart_iff hwf h.check hname (place?_of_canonicalize hl) hfile' hm hk,
    hwrites'.written, fun hmk => ?_, fun hlk hlm => ?_⟩
  · rw [hwrites'.others hmk, hwrites.written]
  · rw [hwrites'.others hlk, hwrites.others hlm, hfile']

theorem Copy.Landed.delivered_iff_held (h : c.Landed t t' name l m k s) :
    c.Delivered t t' ↔ t'.entry? m = some (.file s) ∧ t'.entry? l = some (.file s) := by
  constructor
  · rintro ⟨name', bytes, hname, hheld, hcopied, hkept, -⟩
    obtain rfl : name = name' := Option.some.inj (h.named.symm.trans hname)
    obtain rfl : s = bytes := Entry.file.inj (Except.ok.inj (h.held.symm.trans hheld))
    exact ⟨(stat_eq_ok_iff h.target).1 hcopied, (stat_eq_ok_iff h.source).1 hkept⟩
  · rintro ⟨hcopied, hkept⟩
    exact ⟨name, s, h.named, h.held, stat_of_place? h.target hcopied,
      stat_of_place? h.source hkept, "", stat_of_place? h.marker h.marked⟩

theorem Copy.Landed.held_iff (h : c.Landed t t' name l m k s) :
    t'.entry? m = some (.file s) ∧ t'.entry? l = some (.file s) ↔
      s = "" ∨ l ≠ m ∧ l ≠ k ∧ m ≠ k := by
  constructor
  · rintro ⟨hcopied, hkept⟩
    -- where two places are the same, one of the files that should hold the data is empty
    have hlost : ∀ {p}, t'.entry? p = some (.file s) → t'.entry? p = some (.file "") → s = "" :=
      fun hp hempty => Entry.file.inj (Option.some.inj (hp.symm.trans hempty))
    by_cases hmk : m = k
    · subst hmk
      exact .inl (hlost hcopied h.marked)
    by_cases hlk : l = k
    · subst hlk
      exact .inl (hlost hkept h.marked)
    by_cases hlm : l = m
    · subst hlm
      have hempty := h.copied hmk
      rw [if_pos rfl] at hempty
      exact .inl (hlost hcopied hempty)
    · exact .inr ⟨hlm, hlk, hmk⟩
  · rintro (rfl | ⟨hlm, hlk, hmk⟩)
    · -- an empty file is copied wherever it goes
      have hcopied : t'.entry? m = some (.file "") := by
        by_cases hmk : m = k
        · rw [hmk, h.marked]
        · rw [h.copied hmk, ite_self]
      refine ⟨hcopied, ?_⟩
      by_cases hlk : l = k
      · rw [hlk, h.marked]
      by_cases hlm : l = m
      · rw [hlm, hcopied]
      · exact h.kept hlk hlm
    · have hcopied := h.copied hmk
      rw [if_neg hlm] at hcopied
      exact ⟨hcopied, h.kept hlk hlm⟩

theorem delivered_iff (hwf : t.WellFormed) (h : Planned f t c) (hrun : c.run t = (.ok (), t')) :
    c.Delivered t t' ↔ t.stat c.source = .ok (.file "") ∨
      ∃ name, fileName? c.source = some name ∧ c.Apart t name := by
  obtain ⟨name, l, m, k, s, hlanded⟩ := landed hwf h hrun
  rw [hlanded.delivered_iff_held, hlanded.held_iff, ← hlanded.apart]
  constructor
  · rintro (rfl | hapart)
    · exact .inl hlanded.held
    · exact .inr ⟨name, hlanded.named, hapart⟩
  · rintro (hempty | ⟨name', hname, hapart⟩)
    · exact .inl (Entry.file.inj (Except.ok.inj (hlanded.held.symm.trans hempty)))
    · obtain rfl : name = name' := Option.some.inj (hlanded.named.symm.trans hname)
      exact .inr hapart

/-! ## A copy that has failed -/

theorem leadsToMarker_of_made (h : Planned f t c) (hrun : c.run t = (.error e, t'))
    (hmade : c.MarkerMade t t') : c.LeadsToMarker t := by
  obtain ⟨name, D, s, hname, hD, hnone, hfile⟩ := hmade
  obtain ⟨top, -, hmake⟩ := h.directory
  have hnofile : Tree.entry? (t.createAll c.directory).2 (D ++ [name ++ markerSuffix]) ≠
      some (.file s) := by
    intro hfile
    rw [hmake.grows.file hfile] at hnone
    cases hnone
  have hran := ran c t
  rw [hrun] at hran
  cases hran with
  | unmade hmake | nameless hmake _ | uncopied hmake _ _ =>
      rw [hmake] at hnofile
      exact absurd hfile hnofile
  | @unmarked t₁ _ name' _ hmake hname' hcopy hmark =>
      obtain rfl : name = name' := Option.some.inj (hname.symm.trans hname')
      obtain ⟨top', D', -, -, -, hready⟩ := h.ready hmake
      obtain ⟨l, m, _, -, -, hm, -, hwrites⟩ := copy_eq_ok hcopy
      obtain rfl : D' = D := by
        have hplace := (hwrites.places c.directory).symm.trans (place?_of_canonicalize hD)
        exact Option.some.inj ((place?_of_canonicalize hready.found).symm.trans hplace)
      have hmarker : D' ++ [name ++ markerSuffix] = m := by
        by_contra hne
        rw [hmake] at hnofile
        exact hnofile ((hwrites.others hne).symm.trans hfile)
      subst hmarker
      rcases hready.place (isName_of_fileName? hname) hm with heq | ⟨rfl, -⟩
      · obtain ⟨-, hnames⟩ := List.append_inj' heq rfl
        exact absurd (List.singleton_inj.1 hnames) (marker_ne name)
      · exact ⟨name, D', hname, hready.found, hm⟩

/-! ## The job -/

theorem plan_of_initiate (h : f.initiate t r = (.ok, some c)) : f.plan t r = .ok c := by
  rw [initiate] at h
  split at h
  · next hplan =>
    rw [hplan, Option.some.inj (Prod.mk.inj h).2]
  · cases h

/-- An executor's job whose copy was started ends with the copy. If it completes, the data
was delivered just if the file, the copy and the marker are in three different places, or
there was no data. If it fails, the failure is that of the copy, and there is no new marker
unless the copy was written through a link to its place. -/
theorem delivered_unless_same {table : Table} {id : String} {job : Job} (hwf : t.WellFormed)
    (hinit : f.initiate t r = (.ok, some c)) (hfind : table.findId r.id = .ok (some id))
    (hget : table.get id = .ok (some job)) (hrole : job.role = .executor)
    (hstate : job.state = .provisioned ∨ job.state = .executing) (now : Time.Instant)
    (rounds : Nat) :
    ∃ row, (Handoff.alone now (Flow.finish c.correlationId (c.report t) (rounds + 1)) table).2.row?
        id = some row ∧
      ((row.state = .text JobState.completed.name ∧
          (c.Delivered t (c.run t).2 ↔ t.stat c.source = .ok (.file "") ∨
            ∃ name, fileName? c.source = some name ∧ c.Apart t name)) ∨
        ∃ e, (c.run t).1 = .error e ∧ row.state = .text JobState.error.name ∧
          row.errorDetail =
            .text ("copy of " ++ c.source ++ " failed: " ++ FileError.message e) ∧
          (c.MarkerMade t (c.run t).2 → c.LeadsToMarker t)) := by
  have hplan := plan_of_initiate hinit
  obtain ⟨-, -, -, -, hcorrelation⟩ := plan_eq_ok hplan
  have hplanned := planned hwf hplan
  rw [hcorrelation]
  obtain ⟨row, -, hrow⟩ := Handoff.row?_finish hfind hget hrole hstate now (c.report t) rounds
  refine ⟨_, hrow, ?_⟩
  rcases hrun : c.run t with ⟨result, t'⟩
  cases result with
  | ok _ =>
      have hreport : c.report t = none := by rw [Copy.report, hrun]
      rw [hreport]
      exact .inl ⟨rfl, delivered_iff hwf hplanned hrun⟩
  | error e =>
      have hreport : c.report t = some (c.failure e) := by rw [Copy.report, hrun]
      rw [hreport]
      exact .inr ⟨e, rfl, rfl, rfl, leadsToMarker_of_made hplanned hrun⟩

/-! ## A file that is copied onto itself -/

/-- Both roots are the same. -/
def oneBox : FileFlow := ⟨"box", "box"⟩

def intoPlace : TransferRequest where
  id := "t"
  destination := { kind := localDirectory, properties := .ofList [("path", ".")] }
  properties := .ofList [("source_path", "a.txt")]

def boxed : Tree where
  entries := [(["box"], .directory), (["box", "a.txt"], .file "data")]

def intoPlaceCopy : Copy := ⟨"box/a.txt", "box/.", "t"⟩

def movingJob : Job where
  id := "job"
  correlationId := "t"
  role := .executor
  state := .provisioned
  request := intoPlace
  createdAt := .epoch
  stateTimestamp := .epoch

def movingTable : Table :=
  ⟨[Row.ofJob movingJob]⟩

theorem wellFormed_boxed : boxed.WellFormed :=
  wellFormed_of_entries (by decide) rfl

theorem initiate_intoPlace : oneBox.initiate boxed intoPlace = (.ok, some intoPlaceCopy) := by
  decide +kernel

theorem keeps_moving : movingTable.Keeps movingJob :=
  Table.keeps_ofJob (Row.reads_ofJob_epoch rfl rfl)

theorem findId_moving : movingTable.findId intoPlace.id = .ok (some "job") :=
  keeps_moving.findId

theorem get_moving : movingTable.get "job" = .ok (some movingJob) :=
  keeps_moving.get

theorem report_intoPlace : intoPlaceCopy.report boxed = none := by
  decide +kernel

theorem delivered_unless_same_into_place :
    ∃ row, (Handoff.alone .epoch (Flow.finish "t" (intoPlaceCopy.report boxed) 1)
        movingTable).2.row? "job" = some row ∧
      ((row.state = .text JobState.completed.name ∧
          (intoPlaceCopy.Delivered boxed (intoPlaceCopy.run boxed).2 ↔
            boxed.stat intoPlaceCopy.source = .ok (.file "") ∨
            ∃ name, fileName? intoPlaceCopy.source = some name ∧ intoPlaceCopy.Apart boxed name)) ∨
        ∃ e, (intoPlaceCopy.run boxed).1 = .error e ∧ row.state = .text JobState.error.name ∧
          row.errorDetail =
            .text ("copy of " ++ intoPlaceCopy.source ++ " failed: " ++ FileError.message e) ∧
          (intoPlaceCopy.MarkerMade boxed (intoPlaceCopy.run boxed).2 →
            intoPlaceCopy.LeadsToMarker boxed)) :=
  delivered_unless_same wellFormed_boxed initiate_intoPlace findId_moving get_moving rfl
    (.inl rfl) .epoch 0

/-- The data is gone, and the job completes. -/
theorem completed_without_data :
    ¬ ∀ (f : FileFlow) (t : Tree) (r : TransferRequest) (c : Copy) (table : Table) (id : String)
      (job : Job) (now : Time.Instant) (rounds : Nat),
      t.WellFormed → f.initiate t r = (.ok, some c) → table.findId r.id = .ok (some id) →
      table.get id = .ok (some job) → job.role = .executor →
      job.state = .provisioned ∨ job.state = .executing →
      ∀ row, (Handoff.alone now (Flow.finish c.correlationId (c.report t) (rounds + 1))
          table).2.row? id = some row →
        row.state = .text JobState.completed.name → c.Delivered t (c.run t).2 := by
  intro h
  obtain ⟨row, -, hrow⟩ := Handoff.row?_finish findId_moving get_moving rfl (.inl rfl) .epoch
    (intoPlaceCopy.report boxed) 0
  obtain ⟨_, bytes, -, hbefore, -, hafter, -⟩ := h oneBox boxed intoPlace intoPlaceCopy
    movingTable "job" movingJob .epoch 0 wellFormed_boxed initiate_intoPlace findId_moving
    get_moving rfl (.inl rfl) _ hrow (by rw [report_intoPlace]; rfl)
  have hheld : boxed.stat intoPlaceCopy.source = .ok (.file "data") := rfl
  have hempty : (intoPlaceCopy.run boxed).2.stat intoPlaceCopy.source = .ok (.file "") := by
    decide +kernel
  have hdata : "data" = bytes := Entry.file.inj (Except.ok.inj (hheld.symm.trans hbefore))
  have hnothing : "" = bytes := Entry.file.inj (Except.ok.inj (hempty.symm.trans hafter))
  exact absurd (hdata.trans hnothing.symm) (by decide)

end Ferry.FileFlow
