import Ferry.Proofs.File.Making

/-!
# Paths without links

Where no link is met, neither on the way nor at the end, a path leads to where its names
say (`Walks.lands`). If the directories of such a path are made, all that is new is one of
the directories that its names go through (`changed_createAll`).
-/

namespace Ferry.File.Tree

/-- Where names lead from a location while no link is met. -/
def land (l : Location) (ns : List String) : Location :=
  ns.foldl (fun l n => if n = ".." then l.dropLast else l ++ [n]) l

/-- There is no link at any location that the names go through. -/
def Straight (t : Tree) (l : Location) (ns : List String) : Prop :=
  ∀ ms, ms <+: ns → ∀ target, t.entry? (land l ms) ≠ some (.link target)

/-- Where a path leads while no link is met. -/
def landing (t : Tree) (path : String) : Location :=
  land (t.start path) (names (pieces path))

/-- No link is met on a path, nor is one at its end. -/
def Unlinked (t : Tree) (path : String) : Prop :=
  Straight t (t.start path) (names (pieces path))

variable {t t' : Tree} {top l m : Location} {ns ms : List String} {n path : String}

/-! ## Where names lead -/

theorem land_cons_up (l : Location) (ns : List String) :
    land l (".." :: ns) = land l.dropLast ns := by
  rw [land, List.foldl_cons, if_pos rfl, ← land]

theorem land_cons (hn : n ≠ "..") (l : Location) (ns : List String) :
    land l (n :: ns) = land (l ++ [n]) ns := by
  rw [land, List.foldl_cons, if_neg hn, ← land]

theorem land_append (l : Location) (ns ms : List String) :
    land l (ns ++ ms) = land (land l ns) ms :=
  List.foldl_append

theorem Straight.cons_up (h : Straight t l (".." :: ns)) : Straight t l.dropLast ns := by
  intro ms hms target
  rw [← land_cons_up]
  exact h _ (List.cons_prefix_cons.2 ⟨rfl, hms⟩) target

theorem Straight.cons (h : Straight t l (n :: ns)) (hn : n ≠ "..") :
    Straight t (l ++ [n]) ns := by
  intro ms hms target
  rw [← land_cons hn]
  exact h _ (List.cons_prefix_cons.2 ⟨rfl, hms⟩) target

theorem Straight.not_link (h : Straight t l (n :: ns)) (hn : n ≠ "..") (target : String) :
    t.entry? (l ++ [n]) ≠ some (.link target) :=
  h.cons hn [] List.nil_prefix target

theorem Straight.grows (h : Straight t l ns) (hgrows : Grows top t t') : Straight t' l ns := by
  intro ms hms target hlink
  rcases hgrows.made hlink with hlink | ⟨-, hdir, -⟩
  · exact h ms hms target hlink
  · cases hdir

theorem start_grows (hgrows : Grows top t t') (path : String) : t'.start path = t.start path := by
  rw [start, start, hgrows.workingDirectory]

theorem Unlinked.grows (h : t.Unlinked path) (hgrows : Grows top t t') : t'.Unlinked path := by
  rw [Unlinked, start_grows hgrows]
  exact Straight.grows h hgrows

/-! ## Walks that meet no link -/

theorem names_cons_end {xs : List String} (hn : Down n) (hend : ∀ y ∈ xs, y = "") :
    names (n :: xs) = [n] := by
  rw [names_cons hn.not_blank, names_eq_nil.2 fun y hy => .inl (hend y hy)]

/-- Where something is, or is missing. -/
def Destination.location : Destination → Location
  | .present l _ => l
  | .absent parent name _ => parent ++ [name]

/-- The walk gets to where the names say, or finds that just this is missing. -/
theorem Walks.lands {follow : Bool} {k : Nat} {xs : List String} {d : Destination}
    (h : Walks t follow k l xs (.ok d)) (hs : Straight t l (names xs)) :
    d.location = land l (names xs) := by
  generalize hr : (.ok d : Except FileError Destination) = r at h
  induction h with
  | here =>
      cases hr
      rfl
  | blank hx rest ih =>
      rw [names_cons_blank hx] at hs ⊢
      exact ih hs hr
  | up rest ih =>
      rw [names_cons (by decide)] at hs ⊢
      rw [land_cons_up]
      exact ih hs.cons_up hr
  | directory hx hshort hdir rest ih =>
      rw [names_cons hx.not_blank] at hs ⊢
      rw [land_cons hx.ne_up]
      exact ih (hs.cons hx.ne_up) hr
  | missing hx hshort hnone hend =>
      cases hr
      rw [names_cons_end hx hend, land_cons hx.ne_up]
      rfl
  | file hx hshort hfile hend =>
      cases hr
      rw [names_cons_end hx hend, land_cons hx.ne_up]
      rfl
  | lastLink hx hshort hlink hend hnot =>
      rw [names_cons hx.not_blank] at hs
      exact absurd hlink (hs.not_link hx.ne_up _)
  | link hx hshort hlink hfollow rest ih =>
      rw [names_cons hx.not_blank] at hs
      exact absurd hlink (hs.not_link hx.ne_up _)
  | long _ _ | missingAbove _ _ _ _ | fileAbove _ _ _ _ | tooMany _ _ _ _ => cases hr

theorem canonicalize_unlinked (h : t.Unlinked path) (hm : t.canonicalize path = .ok m) :
    m = t.landing path :=
  (canonicalize_eq_ok.1 hm).2.lands h

/-! ## Making directories without meeting a link -/

theorem changed_makeDirectory (h : t.Unlinked path) (hmake : t.makeDirectory path = .ok t')
    (hl : t'.entry? l ≠ t.entry? l) : l = t.landing path := by
  obtain ⟨P, n, d, -, hwalk, rfl⟩ := makeDirectory_eq_ok hmake
  rw [landing, ← hwalk.lands h]
  by_contra hne
  exact hl (entry?_put_of_ne hne)

/-- The path above goes the same way, but for the last name. -/
theorem way_above {above : String} (habove : parent? path = some above)
    (hcheck : checkPath above = .ok ()) :
    t.start above = t.start path ∧ names (pieces above) <+: names (pieces path) := by
  refine ⟨start_parent? habove hcheck, ?_⟩
  rw [(names_parent? habove).1]
  exact List.dropLast_prefix _

theorem Unlinked.above {above : String} (h : t.Unlinked path)
    (habove : parent? path = some above) (hcheck : checkPath above = .ok ()) :
    t.Unlinked above := by
  obtain ⟨hstart, hnames⟩ := way_above (t := t) habove hcheck
  intro ms hms
  rw [hstart]
  exact h ms (hms.trans hnames)

/-- Each of the new directories is one that the names go through. -/
theorem Makes.changed {depth : Nat} {result : Except FileError Unit × Tree}
    (h : Makes t depth path result) (hwf : t.WellFormed) (hun : t.Unlinked path)
    (hl : Tree.entry? result.2 l ≠ t.entry? l) :
    ∃ ns, ns <+: names (pieces path) ∧ l = land (t.start path) ns := by
  induction h with
  | unable _ | empty _ | topmost _ _ => exact absurd rfl hl
  | made _ hmake => exact ⟨_, List.prefix_refl _, changed_makeDirectory hun hmake hl⟩
  | settled _ _ =>
      rw [settle_snd] at hl
      exact absurd rfl hl
  | @underneath depth path above result hmake habove rest ih =>
      have hbelow : Tree.entry? result.2 l ≠ t.entry? l →
          ∃ ns, ns <+: names (pieces path) ∧ l = land (t.start path) ns := by
        intro hl
        cases hcheck : checkPath above with
        | error e =>
            rw [rest.of_checkPath hcheck] at hl
            exact absurd rfl hl
        | ok _ =>
            obtain ⟨hstart, hnames⟩ := way_above (t := t) habove hcheck
            obtain ⟨ns, hns, hland⟩ := ih (hun.above habove hcheck) hl
            exact ⟨ns, hns.trans hnames, hstart ▸ hland⟩
      rcases makeLast_cases path result with ⟨e, -, hlast⟩ | ⟨t', hmake', hlast⟩ | ⟨e, hlast⟩
      · rw [hlast] at hl
        exact hbelow hl
      · rw [hlast] at hl
        by_cases hsame : Tree.entry? result.2 l = t.entry? l
        · have hgrows := (rest.grows hwf).1
          have hland := changed_makeDirectory (hun.grows hgrows) hmake' (hsame ▸ hl)
          rw [landing, start_grows hgrows] at hland
          exact ⟨_, List.prefix_refl _, hland⟩
        · exact hbelow hsame
      · rw [hlast, settle_snd] at hl
        exact hbelow hl

theorem changed_createAll (hwf : t.WellFormed) (hun : t.Unlinked path)
    (hl : Tree.entry? (t.createAll path).2 l ≠ t.entry? l) :
    ∃ ns, ns <+: names (pieces path) ∧ l = land (t.start path) ns :=
  (makes t _ path).changed hwf hun hl

/-! ## Paths that are joined -/

variable {base next : String}

/-- A name at the end of a path is one step more. -/
theorem way_join (t : Tree) (base : String) (hnext : IsName next) :
    t.start (join base next) = t.start base ∧
      names (pieces (join base next)) = names (pieces base) ++ [next] := by
  refine ⟨?_, ?_⟩
  · rw [start, start, startOf, startOf, isAbsolute_join base hnext.not_absolute]
  · rw [names_join base hnext.not_absolute, hnext.pieces, names_cons hnext.not_blank, names_nil]

theorem landing_join (t : Tree) (base : String) (hnext : IsName next) :
    t.landing (join base next) = t.landing base ++ [next] := by
  obtain ⟨hstart, hnames⟩ := way_join t base hnext
  rw [landing, hstart, hnames, land_append, land_cons hnext.ne_up]
  rfl

/-- A path on which no link is met goes on without one to where there is nothing. -/
theorem Unlinked.join (h : t.Unlinked base) (hnext : IsName next)
    (hnone : t.entry? (t.landing base ++ [next]) = none) : t.Unlinked (join base next) := by
  obtain ⟨hstart, hnames⟩ := way_join t base hnext
  intro ms hms target
  rw [hnames, List.prefix_concat_iff] at hms
  rcases hms with rfl | hms
  · rw [← hnames, ← landing, landing_join t base hnext, hnone]
    simp
  · rw [hstart]
    exact h ms hms target

end Ferry.File.Tree
