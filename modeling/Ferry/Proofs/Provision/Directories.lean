import Ferry.Proofs.File.Unlinked
import Ferry.Rehearsal.Stage
import Mathlib.Data.List.Forall2

/-!
# Directories for a job

The names of the directories come from peers, so all of them are looked at before the
first directory is made. A manifest is refused just if one of its definitions is no
directory or has a name that is more, or less, than one step down; then nothing is made and
nobody is told anything. Any other manifest is answered once, whatever the file system
makes of it (`provision_directories`).

What is made then is the root with what is missing above it, the directory of the job, and
directories right below that. This needs the root to be reached without a link, and the
directory of the job to be new, for what is there already might be a link that leads
elsewhere.
-/

namespace Ferry.Provision

open File File.Tree

/-- The name is one step down, and has no slash of either kind. -/
structure Plain (name : String) : Prop extends IsName name where
  no_backslash : '\\' ∉ name.toList

/-- The name of the directory of a definition: its property `name`, if it has one that is not
empty, and else its id. -/
def effectiveName (d : ResourceDefinition) : String :=
  ((d.properties.get? "name").filter (· ≠ "")).getD d.id

/-- The definition asks for a directory that can be made below that of its job. -/
structure Acceptable (d : ResourceDefinition) : Prop where
  kind : d.kind = "local_directory"
  name : Plain (effectiveName d)

/-- The directory of a definition. -/
def directoryOf (root jobId : String) (d : ResourceDefinition) : String :=
  join (join root jobId) (effectiveName d)

/-! ## Names -/

theorem isPlainName_iff {name : String} : isPlainName name = true ↔ Plain name := by
  constructor
  · intro h
    rw [isPlainName] at h
    split at h
    · next n hcomponents =>
        obtain ⟨hslash, hback⟩ : '/' ∉ name.toList ∧ '\\' ∉ name.toList := by
          simp only [Bool.not_eq_true', List.any_eq_false, Bool.or_eq_true, decide_eq_true_eq,
            not_or] at h
          exact ⟨fun hmem => (h _ hmem).1 rfl, fun hmem => (h _ hmem).2 rfl⟩
        refine ⟨⟨⟨?_, ?_, ?_⟩, hslash⟩, hback⟩
        -- the texts that are no names have other components
        · rintro rfl
          cases (show components "" = [] by decide).symm.trans hcomponents
        · rintro rfl
          cases (show components "." = [.here] by decide).symm.trans hcomponents
        · rintro rfl
          cases (show components ".." = [.up] by decide).symm.trans hcomponents
    · cases h
  · intro h
    have hname := h.toIsName
    have hcomponents : components name = [.normal name] := by
      have hfront : front name = [] := by
        rw [front, if_neg (by simp [hname.not_absolute]),
          if_neg (by simp [hname.pieces, hname.ne_dot])]
      rw [components_eq, hfront, hname.pieces, names_cons hname.not_blank, names_nil,
        List.map_singleton, component, if_neg hname.ne_up, List.nil_append]
    rw [isPlainName, hcomponents]
    simp only [Bool.not_eq_true', List.any_eq_false, Bool.or_eq_true, decide_eq_true_eq, not_or]
    intro c hc
    exact ⟨fun heq => hname.no_slash (heq ▸ hc), fun heq => h.no_backslash (heq ▸ hc)⟩

theorem directoryName_eq (d : ResourceDefinition) : directoryName d = effectiveName d := by
  rw [directoryName, effectiveName]
  cases d.properties.get? "name" with
  | none => rfl
  | some name => by_cases hname : name = "" <;> simp [hname, Option.filter_some]

/-! ## The directories of a manifest -/

variable {root jobId : String} {manifest : ResourceManifest}

theorem target_eq (root jobId : String) (d : ResourceDefinition) :
    target root jobId d =
      if isPlainName (effectiveName d) then .ok ⟨d, directoryOf root jobId d⟩
      else .error (.invalidName (effectiveName d)) := by
  rw [← directoryName_eq, directoryOf, ← directoryName_eq]
  rfl

theorem mapM_target {ds : List ResourceDefinition} (h : ∀ d ∈ ds, Plain (effectiveName d)) :
    ds.mapM (target root jobId) = .ok (ds.map fun d => ⟨d, directoryOf root jobId d⟩) := by
  induction ds with
  | nil => rfl
  | cons d rest ih =>
      rw [List.forall_mem_cons] at h
      rw [List.mapM_cons, target_eq, if_pos (isPlainName_iff.2 h.1), ih h.2]
      rfl

theorem mapM_target_error {ds : List ResourceDefinition}
    (h : ∃ d ∈ ds, ¬ Plain (effectiveName d)) : ∃ e, ds.mapM (target root jobId) = .error e := by
  induction ds with
  | nil => simp at h
  | cons d rest ih =>
      rw [List.mapM_cons, target_eq]
      by_cases hd : Plain (effectiveName d)
      · obtain ⟨e, he⟩ := ih (by simpa [hd] using h)
        exact ⟨e, by rw [if_pos (isPlainName_iff.2 hd), he]; rfl⟩
      · exact ⟨_, by rw [if_neg fun hplain => hd (isPlainName_iff.1 hplain)]; rfl⟩

theorem targets_of_acceptable (h : ∀ d ∈ manifest.definitions, Acceptable d) :
    targets root jobId manifest =
      .ok (manifest.definitions.map fun d => ⟨d, directoryOf root jobId d⟩) := by
  have hkind : manifest.definitions.find? (fun d => d.kind != localDirectory) = none := by
    simpa [List.find?_eq_none, localDirectory] using fun d hd => (h d hd).kind
  rw [targets, hkind]
  exact mapM_target fun d hd => (h d hd).name

theorem targets_of_not_acceptable (h : ∃ d ∈ manifest.definitions, ¬ Acceptable d) :
    ∃ e, targets root jobId manifest = .error e := by
  rw [targets]
  cases hkind : manifest.definitions.find? fun d => d.kind != localDirectory with
  | some d => exact ⟨_, rfl⟩
  | none =>
      obtain ⟨d, hd, hnot⟩ := h
      have hd' : d.kind = localDirectory := by simpa using List.find?_eq_none.1 hkind d hd
      exact mapM_target_error ⟨d, hd, fun hname => hnot ⟨hd', hname⟩⟩

/-! ## Making them -/

/-- The outcome is true of the tree. Resources are those of the targets, in their order, and each
directory is there; a failure names a target whose directory is not there, while those of all
targets before it are. -/
def OutcomeAccurate (t : Tree) (ts : List Target) : ProvisionOutcome → Prop
  | .provisioned resources => List.Forall₂
      (fun target r => (∃ id, r = target.resource id) ∧ t.isDirectory target.directory = true)
      ts resources
  | .failed detail => ∃ made target rest e, ts = made ++ target :: rest ∧
      detail = "failed to create " ++ target.directory ++ ": " ++ FileError.message e ∧
      (∀ m ∈ made, t.isDirectory (Target.directory m) = true) ∧
      t.isDirectory target.directory = false

/-- The tree gains only directories, all of them at the paths of the targets or above, and the
outcome is true of it. -/
structure MakesDirectories (t : Tree) (ts : List Target) (outcome : ProvisionOutcome) (t' : Tree) :
    Prop where
  grows : Grows [] t t'
  wellFormed : t'.WellFormed
  changed : ∀ {l}, t'.entry? l ≠ t.entry? l → ∃ target ∈ ts,
    ∃ ns, ns <+: names (pieces (Target.directory target)) ∧ l = land (t.start target.directory) ns
  accurate : OutcomeAccurate t' ts outcome

theorem isDirectory_grows {t t' : Tree} {path : String} (h : t.isDirectory path = true)
    (hgrows : Grows [] t t') : t'.isDirectory path = true := by
  obtain ⟨l, hl, hdir⟩ := isDirectory_iff.1 h
  exact isDirectory_iff.2 ⟨l, canonicalize_grows hl hgrows, hgrows.kept hdir⟩

/-- The outcome with one more resource in front. A failure stays as it is. -/
def withResource (r : ProvisionedResource) : ProvisionOutcome → ProvisionOutcome
  | .provisioned rs => .provisioned (r :: rs)
  | .failed detail => .failed detail

variable {t t' t'' : Tree} {target : Target} {ts : List Target} {outcome : ProvisionOutcome}

theorem makeAll_cons (h : t.createAll target.directory = (.ok (), t')) (ids : IdSource) :
    makeAll t ids (target :: ts) =
      (withResource (target.resource ids.fresh.1) (makeAll t' ids.fresh.2 ts).1,
        (makeAll t' ids.fresh.2 ts).2) := by
  rw [makeAll, h]
  dsimp only
  cases makeAll t' ids.fresh.2 ts with
  | mk outcome more => cases outcome <;> rfl

theorem OutcomeAccurate.cons (h : OutcomeAccurate t ts outcome)
    (hdir : t.isDirectory target.directory = true) (id : String) :
    OutcomeAccurate t (target :: ts) (withResource (target.resource id) outcome) := by
  cases outcome with
  | provisioned rs => exact .cons ⟨⟨id, rfl⟩, hdir⟩ h
  | failed detail =>
      obtain ⟨made, failing, rest, e, rfl, hdetail, hmade, hnot⟩ := h
      exact ⟨target :: made, failing, rest, e, rfl, hdetail,
        List.forall_mem_cons.2 ⟨hdir, hmade⟩, hnot⟩

theorem makeAll_makesDirectories (hwf : t.WellFormed)
    (hun : ∀ target ∈ ts, t.Unlinked (Target.directory target) ∧ target.directory ≠ "")
    (ids : IdSource) : MakesDirectories t ts (makeAll t ids ts).1 (makeAll t ids ts).2.1 := by
  induction ts generalizing t ids with
  | nil => exact ⟨.refl [] t, hwf, fun hl => absurd rfl hl, .nil⟩
  | cons target rest ih =>
      rw [List.forall_mem_cons] at hun
      obtain ⟨⟨hlinks, hpath⟩, hrest⟩ := hun
      obtain ⟨hgrows, hwf'⟩ := createAll_grows hwf target.directory
      have hchanged := fun {l} => changed_createAll (l := l) hwf hlinks
      cases hcreate : t.createAll target.directory with
      | mk result t' =>
          rw [hcreate] at hgrows hwf' hchanged
          cases result with
          | error e =>
              have hstop : makeAll t ids (target :: rest) = (.failed ("failed to create " ++
                  target.directory ++ ": " ++ e.message), t', ids) := by
                rw [makeAll, hcreate]
              rw [hstop]
              refine ⟨hgrows, hwf', fun hl => ?_, [], target, rest, e, rfl, rfl, ?_, ?_⟩
              · obtain ⟨ns, hns, hland⟩ := hchanged hl
                exact ⟨target, List.mem_cons_self, ns, hns, hland⟩
              · intro m hm
                cases hm
              · exact not_isDirectory_of_createAll hwf hcreate
          | ok _ =>
              have hmakes := ih hwf' (fun other hother =>
                ⟨(hrest other hother).1.grows hgrows, (hrest other hother).2⟩) ids.fresh.2
              have hdir := isDirectory_of_createAll hwf hpath hcreate
              rw [makeAll_cons hcreate]
              refine ⟨hgrows.trans hmakes.grows, hmakes.wellFormed, fun {l} hl => ?_,
                hmakes.accurate.cons (isDirectory_grows hdir hmakes.grows) _⟩
              by_cases hsame : t'.entry? l = t.entry? l
              · obtain ⟨other, hother, ns, hns, hland⟩ := hmakes.changed (hsame ▸ hl)
                rw [start_grows hgrows] at hland
                exact ⟨other, List.mem_cons_of_mem _ hother, ns, hns, hland⟩
              · obtain ⟨ns, hns, hland⟩ := hchanged hsame
                exact ⟨target, List.mem_cons_self, ns, hns, hland⟩

/-! ## The directories of a job -/

variable {root jobId : String} {ds : List ResourceDefinition}

/-- Where directories may be made for a job: on the way to the root, below it by the id of the
job, and below that by the effective names of the definitions. -/
inductive Place (t : Tree) (root jobId : String) (ds : List ResourceDefinition) : Location → Prop
  | above (ns : List String) (hns : ns <+: names (pieces root)) :
      Place t root jobId ds (land (t.start root) ns)
  | job : Place t root jobId ds (t.landing root ++ [jobId])
  | below (d : ResourceDefinition) (hd : d ∈ ds) :
      Place t root jobId ds (t.landing root ++ [jobId, effectiveName d])

/-- The resource carries the id and the kind of the definition and the path of its directory,
which is there, right below that of the job. -/
structure ResourceFor (t : Tree) (root jobId : String) (d : ResourceDefinition)
    (r : ProvisionedResource) : Prop where
  definitionId : r.definitionId = d.id
  kind : r.kind = d.kind
  isDestination : r.isDestination = true
  path : r.properties.get? "path" = some (directoryOf root jobId d)
  location : t.canonicalize (directoryOf root jobId d) =
    .ok (t.landing root ++ [jobId, effectiveName d])
  directory : t.entry? (t.landing root ++ [jobId, effectiveName d]) = some .directory

/-- The outcome that is reported for a job. It is one resource for each definition, in their
order, or the first definition whose directory could not be made. -/
def ReportsDirectories (t : Tree) (root jobId : String) (ds : List ResourceDefinition) :
    ProvisionOutcome → Prop
  | .provisioned resources => List.Forall₂ (ResourceFor t root jobId) ds resources
  | .failed detail => ∃ made d rest e, ds = made ++ d :: rest ∧
      detail = "failed to create " ++ directoryOf root jobId d ++ ": " ++ FileError.message e ∧
      (∀ m ∈ made, t.isDirectory (directoryOf root jobId m) = true) ∧
      t.isDirectory (directoryOf root jobId d) = false

theorem landing_directoryOf (t : Tree) (hid : Plain jobId) {d : ResourceDefinition}
    (hd : Plain (effectiveName d)) :
    t.landing (directoryOf root jobId d) = t.landing root ++ [jobId, effectiveName d] := by
  rw [directoryOf, landing_join t _ hd.toIsName, landing_join t _ hid.toIsName,
    List.append_assoc]
  rfl

theorem way_directoryOf (t : Tree) (root : String) (hid : Plain jobId) {d : ResourceDefinition}
    (hd : Plain (effectiveName d)) :
    t.start (directoryOf root jobId d) = t.start root ∧
      names (pieces (directoryOf root jobId d)) =
        names (pieces root) ++ [jobId] ++ [effectiveName d] := by
  obtain ⟨hstart, hnames⟩ := way_join t (join root jobId) hd.toIsName
  obtain ⟨hstart', hnames'⟩ := way_join t root hid.toIsName
  exact ⟨hstart.trans hstart', by rw [directoryOf, hnames, hnames']⟩

theorem directoryOf_ne_empty (hid : Plain jobId) {d : ResourceDefinition}
    (hd : Plain (effectiveName d)) : directoryOf root jobId d ≠ "" := by
  intro hempty
  have hnames := (way_directoryOf {} root hid hd).2
  rw [hempty] at hnames
  simp [show names (pieces "") = [] by decide] at hnames

/-- The directory of a job that is new can be made without meeting a link. -/
theorem unlinked_directoryOf (hwf : t.WellFormed) (hun : t.Unlinked root) (hid : Plain jobId)
    (hnew : t.entry? (t.landing root ++ [jobId]) = none) {d : ResourceDefinition}
    (hd : Plain (effectiveName d)) : t.Unlinked (directoryOf root jobId d) := by
  refine (hun.join hid.toIsName hnew).join hd.toIsName ?_
  rw [landing_join t root hid.toIsName]
  exact hwf.none_below hnew _

/-- Each location that the names of a directory go through is one where it may be made. -/
theorem place_of_way (hid : Plain jobId) {d : ResourceDefinition} (hd : d ∈ ds)
    (hname : Plain (effectiveName d)) {ns : List String}
    (hns : ns <+: names (pieces (directoryOf root jobId d))) :
    Place t root jobId ds (land (t.start (directoryOf root jobId d)) ns) := by
  obtain ⟨hstart, hnames⟩ := way_directoryOf t root hid hname
  rw [hnames, List.prefix_concat_iff, List.prefix_concat_iff] at hns
  rw [hstart]
  rcases hns with rfl | rfl | hns
  · rw [← hnames, ← hstart, ← landing, landing_directoryOf t hid hname]
    exact .below d hd
  · rw [land_append, land_cons hid.ne_up]
    exact .job
  · exact .above ns hns

theorem resourceFor_of_target {d : ResourceDefinition}
    (hun : t.Unlinked (directoryOf root jobId d)) (hid : Plain jobId)
    (hd : Plain (effectiveName d)) (hdir : t.isDirectory (directoryOf root jobId d) = true)
    (id : String) :
    ResourceFor t root jobId d (Target.resource ⟨d, directoryOf root jobId d⟩ id) := by
  obtain ⟨l, hl, hentry⟩ := isDirectory_iff.1 hdir
  have hland := canonicalize_unlinked hun hl
  rw [landing_directoryOf t hid hd] at hland
  subst hland
  refine ⟨rfl, rfl, rfl, ?_, hl, hentry⟩
  simp [Target.resource, ProvisionedResource.withProperty, ProvisionedResource.destinationFor,
    Properties.insert, Properties.get?, Properties.empty, insertEntry]

theorem reportsDirectories_of_accurate {ts : List Target}
    (hts : ts = ds.map fun d => ⟨d, directoryOf root jobId d⟩) (hid : Plain jobId)
    (hds : ∀ d ∈ ds, Plain (effectiveName d) ∧ t.Unlinked (directoryOf root jobId d))
    (h : OutcomeAccurate t ts outcome) : ReportsDirectories t root jobId ds outcome := by
  subst hts
  cases outcome with
  | provisioned resources =>
      rw [OutcomeAccurate, List.forall₂_map_left_iff] at h
      refine ((List.forall₂_and_left ds resources).2 ⟨hds, h⟩).imp fun d r hr => ?_
      obtain ⟨⟨hd, hun⟩, ⟨id, rfl⟩, hdir⟩ := hr
      exact resourceFor_of_target hun hid hd hdir id
  | failed detail =>
      obtain ⟨made, failing, rest, e, hsplit, hdetail, hmade, hnot⟩ := h
      obtain ⟨made', later, hds', hmade', hlater⟩ := List.map_eq_append_iff.1 hsplit
      obtain ⟨d, rest', hlater', hd, -⟩ := List.map_eq_cons_iff.1 hlater
      subst hd
      refine ⟨made', d, rest', e, ?_, hdetail, fun m hm => ?_, hnot⟩
      · rw [hds', hlater']
      · exact hmade ⟨m, directoryOf root jobId m⟩ (hmade' ▸ List.mem_map_of_mem hm)

end Ferry.Provision

namespace Ferry.Rehearsal.Stage

open File File.Tree Provision

/-- The errand of a job makes directories only where they are meant to be and nothing was
before, and records exactly one outcome, which is true of the tree it leaves. -/
structure ProvisionsJob (root : String) (job : Job) (before after : Stage) : Prop where
  confined : ∀ l, after.backdrop.tree.entry? l ≠ before.backdrop.tree.entry? l →
    before.backdrop.tree.entry? l = none ∧ after.backdrop.tree.entry? l = some .directory ∧
      Place before.backdrop.tree root job.id (job.manifest.getD {}).definitions l
  answered : ∃ outcome, after.peer = (before.leave (.record ⟨job.id, outcome⟩)).peer ∧
    ReportsDirectories after.backdrop.tree root job.id (job.manifest.getD {}).definitions outcome

theorem provisionsJob_of_doErrand {root : String} {job : Job} {later : Stage} (hid : Plain job.id)
    (hds : ∀ d ∈ (job.manifest.getD {}).definitions, Acceptable d)
    (hwf : later.backdrop.tree.WellFormed) (hun : later.backdrop.tree.Unlinked root)
    (hnew : later.backdrop.tree.entry? (later.backdrop.tree.landing root ++ [job.id]) = none) :
    ProvisionsJob root job later (later.doErrand (.makeDirectories job.id
      ((job.manifest.getD {}).definitions.map fun d => ⟨d, directoryOf root job.id d⟩))) := by
  have hplain : ∀ d ∈ (job.manifest.getD {}).definitions, Plain (effectiveName d) ∧
      later.backdrop.tree.Unlinked (directoryOf root job.id d) := fun d hd =>
    ⟨(hds d hd).name, unlinked_directoryOf hwf hun hid hnew (hds d hd).name⟩
  have hts : ∀ target ∈ (job.manifest.getD {}).definitions.map fun d =>
      (⟨d, directoryOf root job.id d⟩ : Target),
      later.backdrop.tree.Unlinked target.directory ∧ target.directory ≠ "" := by
    intro target htarget
    obtain ⟨d, hd, rfl⟩ := List.mem_map.1 htarget
    exact ⟨(hplain d hd).2, directoryOf_ne_empty hid (hds d hd).name⟩
  have hmakes := makeAll_makesDirectories hwf hts later.backdrop.ids
  refine ⟨fun l hl => ?_, _, rfl,
    reportsDirectories_of_accurate rfl hid (fun d hd => ?_) hmakes.accurate⟩
  · obtain ⟨target, htarget, ns, hns, rfl⟩ := hmakes.changed hl
    obtain ⟨d, hd, rfl⟩ := List.mem_map.1 htarget
    obtain ⟨hnone, hdir⟩ := hmakes.grows.new_of_ne hl
    exact ⟨hnone, hdir, place_of_way hid hd (hds d hd).name hns⟩
  · exact ⟨(hplain d hd).1, (hplain d hd).2.grows hmakes.grows⟩

/-- A job with a plain id is refused just if one of its definitions cannot be accepted, and
then the stage stays as it was. Else it is taken on, and when its directories are made it
is answered. -/
theorem provision_directories (s : Stage) (root : String) (job : Job)
    (hkind : s.peer.provisioner = .directories root) (hid : Plain job.id) :
    ((∃ e, (s.provision job).1 = .error e) ↔
      ∃ d ∈ (job.manifest.getD {}).definitions,
        d.kind ≠ "local_directory" ∨ ¬ Plain (effectiveName d)) ∧
    (∀ e, (s.provision job).1 = .error e → (s.provision job).2 = s) ∧
    ((s.provision job).1 = .ok () → ∃ errand, (s.provision job).2 = s.leave errand ∧
      ∀ later : Stage, later.backdrop.tree.WellFormed → later.backdrop.tree.Unlinked root →
        later.backdrop.tree.entry? (later.backdrop.tree.landing root ++ [job.id]) = none →
        ProvisionsJob root job later (later.doErrand errand)) := by
  rw [provision, hkind]
  dsimp only
  by_cases hds : ∀ d ∈ (job.manifest.getD {}).definitions, Acceptable d
  · have hnone : ¬ ∃ d ∈ (job.manifest.getD {}).definitions,
        d.kind ≠ "local_directory" ∨ ¬ Plain (effectiveName d) := by
      rintro ⟨d, hd, hkind | hname⟩
      · exact hkind (hds d hd).kind
      · exact hname (hds d hd).name
    rw [targets_of_acceptable hds]
    refine ⟨⟨?_, fun h => absurd h hnone⟩, ?_, ?_⟩
    · rintro ⟨e, ⟨⟩⟩
    · rintro e ⟨⟩
    · intro _
      exact ⟨_, rfl, fun later hwf hun hnew => provisionsJob_of_doErrand hid hds hwf hun hnew⟩
  · have hsome : ∃ d ∈ (job.manifest.getD {}).definitions, ¬ Acceptable d := by
      simpa using hds
    obtain ⟨e, he⟩ : ∃ e, targets root job.id (job.manifest.getD {}) = .error e :=
      targets_of_not_acceptable hsome
    rw [he]
    refine ⟨⟨fun _ => ?_, fun _ => ⟨e, rfl⟩⟩, fun _ _ => rfl, fun h => by cases h⟩
    obtain ⟨d, hd, hnot⟩ := hsome
    refine ⟨d, hd, ?_⟩
    by_contra hboth
    rw [not_or, not_not, not_not] at hboth
    exact hnot ⟨hboth.1, hboth.2⟩

/-- A stage with an empty tree. -/
def bare : Stage where
  peer :=
    { name := "p", config := {}, provisioner := .directories "srv/jobs", flow := .scripted [],
      checkers := .empty }
  backdrop := {}

/-- A job that needs two directories, one of them named. -/
def needy : Job :=
  { Job.new "job" .initiator ⟨"a", "", "", "", ⟨localDirectory, .empty⟩, true, .empty⟩ .epoch with
    manifest := some ⟨[⟨"d1", localDirectory, .empty⟩,
      ⟨"d2", localDirectory, Properties.empty.insert "name" "inbox"⟩]⟩ }

theorem entry?_bare (l : Location) (target : String) :
    bare.backdrop.tree.entry? l ≠ some (.link target) := by
  rw [ entry?]
  split <;> simp [bare]

theorem needy_answered : Plain needy.id ∧ (bare.provision needy).1 = .ok () ∧
    ∃ errand, (bare.provision needy).2 = bare.leave errand ∧
      ProvisionsJob "srv/jobs" needy bare (bare.doErrand errand) := by
  have hid : Plain needy.id := isPlainName_iff.1 (by decide +kernel)
  have hok : (bare.provision needy).1 = .ok () := by decide +kernel
  obtain ⟨-, -, htaken⟩ := provision_directories bare "srv/jobs" needy rfl hid
  obtain ⟨errand, herrand, hprovisions⟩ := htaken hok
  refine ⟨hid, hok, errand, herrand, hprovisions bare ?_ ?_ ?_⟩
  · exact wellFormed_of_entries (fun e he => by cases he) rfl
  · exact fun ms _ target => entry?_bare _ target
  · decide +kernel

end Ferry.Rehearsal.Stage
