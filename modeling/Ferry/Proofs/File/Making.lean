import Ferry.Proofs.File.Walking

/-!
# Making directories

Whether a path leads below a location is asked of the first of the paths above it that
leads anywhere at all, and what is made later is made from there on, one name after the
other. A path that was found to lead below a location and has, after the names of one
that leads somewhere, only names that lead down can therefore be made without touching
anything outside (`made_of_existsBelow`): each directory that is made is the child of
one that is below the location already, since a last link is never followed when a
directory is made.

Where the last directory did not exist before there is nothing in it yet.

Of a path of which nothing was asked less can be said (`Makes`): the tree grows, and the
path leads to a directory in the end just when no error came of it and it is not empty.
-/

namespace Ferry.File.Tree

variable {t t' : Tree} {top l m P D : Location} {path above root : String} {n : String}
  {depth : Nat}

/-! ## Paths that exist as far as asked -/

theorem checkPath_error_notFound (h : checkPath path = .error .notFound) : path = "" := by
  rw [checkPath] at h
  split at h
  · cases h
  · split at h
    · next hempty => exact String.isEmpty_iff.1 hempty
    · split at h
      · cases h
      · cases h

theorem ne_empty_of_checkPath (h : checkPath path = .ok ()) : path ≠ "" := by
  rintro rfl
  cases h

theorem canonicalize_eq_error {e : FileError} (h : checkPath path = .error e) :
    t.canonicalize path = .error e := by
  rw [canonicalize, resolve_eq, h]
  rfl

/-- The first path that exists was found, so this one could be asked for. -/
theorem checkPath_of_existsBelow (h : t.existsBelow top depth path = .ok true) :
    checkPath path = .ok () := by
  cases hcheck : checkPath path with
  | ok _ => rfl
  | error e =>
      cases depth with
      | zero => cases h
      | succ depth =>
          rw [existsBelow, canonicalize_eq_error hcheck] at h
          cases e with
          | notFound =>
              obtain rfl := checkPath_error_notFound hcheck
              cases h
          | alreadyExists | notDirectory | isDirectory | nameTooLong | tooManyLinks | nulInPath
          | notRegular | noFileName | noAncestor => cases h

theorem prefix_of_existsBelow (h : t.existsBelow top depth path = .ok true)
    (hl : t.canonicalize path = .ok l) : top <+: l := by
  cases depth with
  | zero => cases h
  | succ depth =>
      rw [existsBelow, hl] at h
      exact List.isPrefixOf_iff_prefix.1 (Except.ok.inj h)

/-- A path that was not found is asked for above. -/
theorem existsBelow_above (h : t.existsBelow top (depth + 1) path = .ok true)
    (hl : ∀ l, t.canonicalize path ≠ .ok l) :
    t.canonicalize path = .error .notFound ∧
      ∃ above, parent? path = some above ∧ t.existsBelow top depth above = .ok true := by
  rw [existsBelow] at h
  cases hc : t.canonicalize path with
  | ok l => exact absurd hc (hl l)
  | error e =>
      rw [hc] at h
      cases e with
      | notFound =>
          refine ⟨rfl, ?_⟩
          cases habove : parent? path with
          | none => rw [habove] at h; cases h
          | some above =>
              rw [habove] at h
              exact ⟨above, rfl, h⟩
      | alreadyExists | notDirectory | isDirectory | nameTooLong | tooManyLinks | nulInPath
      | notRegular | noFileName | noAncestor => cases h

/-- A path with the names of one that exists is found, or it leads to a file and asks for
a directory. -/
theorem canonicalize_ne_notFound (hroot : t.canonicalize root = .ok l)
    (hcheck : checkPath path = .ok ()) (hnames : names (pieces path) = names (pieces root))
    (habs : isAbsolute path = isAbsolute root) : t.canonicalize path ≠ .error .notFound := by
  have hstart : t.start path = t.start root := by rw [start, start, startOf, startOf, habs]
  rw [canonicalize, resolve_eq, hcheck, hstart]
  rcases (canonicalize_eq_ok.1 hroot).2.of_names hnames with ⟨d, h⟩ | ⟨h, -⟩
  · cases d <;> simp [bind, Except.bind, h.eq]
  · simp [bind, Except.bind, h.eq]

theorem start_parent? (h : parent? path = some above) (hcheck : checkPath above = .ok ()) :
    t.start above = t.start path := by
  rw [start, start, startOf, startOf,
    (names_parent? h).2.resolve_left (ne_empty_of_checkPath hcheck)]

/-! ## Making one directory -/

theorem makeDirectory_eq_ok (h : t.makeDirectory path = .ok t') :
    ∃ P n d, checkPath path = .ok () ∧
      Walks t false maxLinks (t.start path) (pieces path) (.ok (.absent P n d)) ∧
      t' = t.put (P ++ [n]) .directory := by
  rw [makeDirectory] at h
  cases hr : t.resolve false path with
  | error e => rw [hr] at h; cases h
  | ok dest =>
      rw [hr] at h
      cases dest with
      | present l d => cases h
      | absent P n d =>
          obtain ⟨hcheck, hwalk⟩ := resolve_eq_ok.1 hr
          exact ⟨P, n, d, hcheck, hwalk, (Except.ok.inj h).symm⟩

/-- What exists cannot be made. -/
theorem makeDirectory_of_canonicalize (h : t.canonicalize path = .ok l) :
    t.makeDirectory path = .error .alreadyExists := by
  obtain ⟨hcheck, hwalk⟩ := canonicalize_eq_ok.1 h
  have hpresent : ∃ m d, t.resolve false path = .ok (.present m d) := by
    rw [resolve_eq, hcheck]
    by_contra hnot
    have hsame := (walks t false maxLinks (t.start path) (pieces path)).following
      fun m d hr => hnot ⟨m, d, hr⟩
    exact hnot ⟨l, false, hsame.eq.symm.trans hwalk.eq⟩
  obtain ⟨m, d, hresolve⟩ := hpresent
  rw [makeDirectory, hresolve]
  rfl

/-- Where a name is missing, the path above leads to the directory it is missing in. -/
theorem canonicalize_above {d : Bool} (hwf : t.WellFormed)
    (h : Walks t false maxLinks (t.start path) (pieces path) (.ok (.absent P n d)))
    (habove : parent? path = some above) (hcheck : checkPath above = .ok ()) :
    t.canonicalize above = .ok P ∧ t.entry? P = some .directory := by
  obtain ⟨as, bs, hsplit, hbs, hn, -, hwalk, hP⟩ :=
    h.before_absent (entry?_startOf hwf.working path) hwf
  have hnames : names (pieces above) = names as := by
    have hblank : names bs = [] := names_eq_nil.2 fun b hb => .inl (hbs b hb)
    rw [(names_parent? habove).1, hsplit, names_append, names_cons hn.not_blank, hblank,
      List.dropLast_concat]
  refine ⟨canonicalize_eq_ok.2 ⟨hcheck, ?_⟩, hP⟩
  rw [start_parent? habove hcheck]
  exact hwalk.directory_of_names hP hnames

theorem canonicalize_made {d : Bool} (hwf : t.WellFormed) (hcheck : checkPath path = .ok ())
    (h : Walks t false maxLinks (t.start path) (pieces path) (.ok (.absent P n d))) :
    (t.put (P ++ [n]) .directory).canonicalize path = .ok (P ++ [n]) := by
  have hnone := h.absent_eq_none
  obtain ⟨as, bs, hsplit, hbs, hn, hshort, hwalk, hP⟩ :=
    h.before_absent (entry?_startOf hwf.working path) hwf
  have hgrows : Grows [] t (t.put (P ++ [n]) .directory) := .of_put hnone (List.nil_prefix)
  obtain ⟨j, hj⟩ := (hwalk.grows hgrows).append (hgrows.kept hP) (n :: bs)
  refine canonicalize_eq_ok.2 ⟨hcheck, ?_⟩
  rw [start_put, hsplit]
  refine hj _ (.directory hn hshort (entry?_put_self (by simp)) ?_)
  exact .here_of_names (names_eq_nil.2 fun b hb => .inl (hbs b hb))

theorem names_eq_concat {xs ns : List String} (h : names xs = ns ++ [n]) :
    ∃ as bs, xs = as ++ n :: bs ∧ names as = ns ∧ names bs = [] := by
  obtain ⟨as, ys, rfl, has, hys⟩ := List.filter_eq_append_iff.1 h
  obtain ⟨cs, bs, rfl, hcs, hbs⟩ := names_eq_cons hys
  refine ⟨as ++ cs, bs, (List.append_assoc ..).symm, ?_, hbs⟩
  rw [names_append, names_eq_nil.2 hcs, List.append_nil]
  exact has

/-- Nothing is found in an empty directory. -/
theorem not_canonicalize_below {ns : List String} (hD : t.canonicalize above = .ok D)
    (hdir : t.entry? D = some .directory) (hempty : ∀ n, t.entry? (D ++ [n]) = none)
    (habove : parent? path = some above) (hnames : names (pieces path) = ns ++ [n])
    (hn : Down n) : t.canonicalize path ≠ .ok l := by
  intro hl
  obtain ⟨hcheck, hwalkD⟩ := canonicalize_eq_ok.1 hD
  obtain ⟨as, bs, hsplit, has, hbs⟩ := names_eq_concat hnames
  have hnames' : names as = names (pieces above) := by
    rw [(names_parent? habove).1, hnames, List.dropLast_concat, has]
  obtain ⟨j, hj⟩ := (hwalkD.directory_of_names hdir hnames').append hdir (n :: bs)
  have hfound := (canonicalize_eq_ok.1 hl).2.eq
  rw [← start_parent? habove hcheck, hsplit] at hfound
  by_cases hshort : Short n
  · by_cases hend : ∀ b ∈ bs, b = ""
    · rw [(hj _ (.missing hn hshort (hempty n) hend)).eq] at hfound
      cases hfound
    · rw [(hj _ (.missingAbove hn hshort (hempty n) (by simpa using hend))).eq] at hfound
      cases hfound
  · rw [(hj _ (.long hn hshort)).eq] at hfound
    cases hfound

/-! ## Making a directory and those above it -/

/-- A directory that could not be made may be there already. -/
def settle (t : Tree) (path : String) (e : FileError) : Except FileError Unit × Tree :=
  if t.isDirectory path then (.ok (), t) else (.error e, t)

/-- The directories above are there, or could not be made; now for the last one. -/
def makeLast (path : String) : Except FileError Unit × Tree → Except FileError Unit × Tree
  | (.error e, t) => (.error e, t)
  | (.ok (), t) =>
    match t.makeDirectory path with
    | .ok t => (.ok (), t)
    | .error e => t.settle path e

theorem makeDirectories_succ (depth : Nat) (t : Tree) (path : String) (hpath : path ≠ "") :
    makeDirectories (depth + 1) t path =
      match t.makeDirectory path with
      | .ok t => (.ok (), t)
      | .error .notFound =>
        match parent? path with
        | none => (.error .noAncestor, t)
        | some above => makeLast path (makeDirectories depth t above)
      | .error e => t.settle path e := by
  rw [makeDirectories, if_neg (by simpa using hpath)]
  rfl

theorem isDirectory_iff :
    t.isDirectory path = true ↔ ∃ l, t.canonicalize path = .ok l ∧
      t.entry? l = some .directory := by
  rw [isDirectory]
  constructor
  · intro h
    split at h
    · next hstat => exact stat_eq_ok hstat
    · cases h
  · rintro ⟨l, hl, hdir⟩
    rw [stat_of_place? (place?_of_canonicalize hl) hdir]

/-- What comes of making the directories of a path below a location: the tree grows there
only, and if all went well the path leads to a directory there, which was there before or
is new and empty. -/
structure Made (top : Location) (t : Tree) (path : String)
    (result : Except FileError Unit × Tree) : Prop where
  grows : Grows top t result.2
  wellFormed : result.2.WellFormed
  directory : result.1 = .ok () → ∃ D, result.2.canonicalize path = .ok D ∧
    Tree.entry? result.2 D = some .directory ∧ top <+: D ∧
    (result.2 = t ∨ t.canonicalize path = .error .notFound ∧
      ∀ n, Tree.entry? result.2 (D ++ [n]) = none)

theorem Made.of_error (hgrows : Grows top t t') (hwf : t'.WellFormed) (e : FileError) :
    Made top t path (.error e, t') :=
  ⟨hgrows, hwf, fun h => by cases h⟩

theorem made_settle (hwf : t.WellFormed) (htop : ∀ l, t.canonicalize path = .ok l → top <+: l)
    (e : FileError) : Made top t path (t.settle path e) := by
  rw [settle]
  split
  · next hdir =>
    obtain ⟨l, hl, hentry⟩ := isDirectory_iff.1 hdir
    exact ⟨.refl top t, hwf, fun _ => ⟨l, hl, hentry, htop l hl, .inl rfl⟩⟩
  · exact .of_error (.refl top t) hwf e

theorem made_put {d : Bool} (hgrows : Grows top t t') (hwf : t'.WellFormed)
    (hcheck : checkPath path = .ok ()) (hmissing : t.canonicalize path = .error .notFound)
    (h : Walks t' false maxLinks (t'.start path) (pieces path) (.ok (.absent P n d)))
    (hP : t'.entry? P = some .directory) (htop : top <+: P) :
    Made top t path (.ok (), t'.put (P ++ [n]) .directory) := by
  have hnone := h.absent_eq_none
  have htop' : top <+: P ++ [n] := htop.trans (List.prefix_append P [n])
  refine ⟨hgrows.trans (.of_put hnone htop'), hwf.put_directory hP hnone, fun _ => ?_⟩
  refine ⟨P ++ [n], canonicalize_made hwf hcheck h, entry?_put_self (by simp), htop',
    .inr ⟨hmissing, fun m => ?_⟩⟩
  rw [entry?_put_of_ne (by simp)]
  exact hwf.none_below hnone m

theorem made_last {result : Except FileError Unit × Tree} {ns : List String}
    (h : Made top t above result) (hcheck : checkPath path = .ok ())
    (hcheck' : checkPath above = .ok ()) (hmissing : t.canonicalize path = .error .notFound)
    (habove : parent? path = some above) (hnames : names (pieces path) = ns ++ [n])
    (hn : Down n) : Made top t path (makeLast path result) := by
  match result with
  | (.error e, t') => exact .of_error h.grows h.wellFormed e
  | (.ok (), t') =>
      obtain ⟨D, hD, hdir, htop, hnew⟩ := h.directory rfl
      rw [makeLast]
      cases hmake : t'.makeDirectory path with
      | ok t'' =>
          obtain ⟨P, n', d, -, hwalk, rfl⟩ := makeDirectory_eq_ok hmake
          obtain ⟨hP, hPdir⟩ := canonicalize_above h.wellFormed hwalk habove hcheck'
          obtain rfl : D = P := Except.ok.inj (hD.symm.trans hP)
          exact made_put h.grows h.wellFormed hcheck hmissing hwalk hPdir htop
      | error e =>
          -- the path is not in the tree from before, nor in a directory that is empty
          have hnot : t'.isDirectory path = false := by
            rw [Bool.eq_false_iff]
            intro hfound
            obtain ⟨l, hl, -⟩ := isDirectory_iff.1 hfound
            rcases hnew with rfl | ⟨-, hempty⟩
            · rw [hmissing] at hl
              cases hl
            · exact not_canonicalize_below hD hdir hempty habove hnames hn hl
          change Made top t path (t'.settle path e)
          rw [settle, hnot]
          exact .of_error h.grows h.wellFormed e

theorem made_of_existsBelow {rest : List String} (hwf : t.WellFormed)
    (hroot : t.canonicalize root = .ok l) (hup : ".." ∉ rest)
    (hnames : names (pieces path) = names (pieces root) ++ rest)
    (habs : isAbsolute path = isAbsolute root)
    (h : t.existsBelow top depth path = .ok true) :
    Made top t path (makeDirectories depth t path) := by
  -- on the way up from the path, the names left over after those of the root get fewer
  induction depth generalizing path rest with
  | zero => cases h
  | succ depth ih =>
      have hcheck := checkPath_of_existsBelow h
      rw [makeDirectories_succ depth t path (ne_empty_of_checkPath hcheck)]
      by_cases hfound : ∃ m, t.canonicalize path = .ok m
      · obtain ⟨m, hm⟩ := hfound
        rw [makeDirectory_of_canonicalize hm]
        exact made_settle hwf (fun l hl => prefix_of_existsBelow h hl) _
      obtain ⟨hmissing, above, habove, hbelow⟩ :=
        existsBelow_above h fun m hm => hfound ⟨m, hm⟩
      have hcheck' := checkPath_of_existsBelow hbelow
      rcases List.eq_nil_or_concat' rest with rfl | ⟨rest, n, rfl⟩
      · rw [List.append_nil] at hnames
        exact absurd hmissing (canonicalize_ne_notFound hroot hcheck hnames habs)
      rw [← List.append_assoc] at hnames
      have hn : Down n := by
        have hmem : n ∈ names (pieces path) := by simp [hnames]
        obtain ⟨hempty, hdot⟩ := not_or.1 (mem_names.1 hmem).2
        exact ⟨hempty, hdot, fun hn => hup (by simp [hn])⟩
      have hnamesAbove : names (pieces above) = names (pieces root) ++ rest := by
        rw [(names_parent? habove).1, hnames, List.dropLast_concat]
      have habsAbove : isAbsolute above = isAbsolute root :=
        ((names_parent? habove).2.resolve_left (ne_empty_of_checkPath hcheck')).trans habs
      have hmade := ih (fun hr => hup (List.mem_append_left _ hr)) hnamesAbove habsAbove hbelow
      cases hmake : t.makeDirectory path with
      | ok t' =>
          obtain ⟨P, n', d, -, hwalk, rfl⟩ := makeDirectory_eq_ok hmake
          obtain ⟨hP, hPdir⟩ := canonicalize_above hwf hwalk habove hcheck'
          exact made_put (.refl top t) hwf hcheck hmissing hwalk hPdir
            (prefix_of_existsBelow hbelow hP)
      | error e =>
          have hsettle : Made top t path (t.settle path e) :=
            made_settle hwf (fun l hl => by rw [hmissing] at hl; cases hl) e
          cases e with
          | notFound =>
              simp only [habove]
              exact made_last hmade hcheck hcheck' hmissing habove hnames hn
          | alreadyExists | notDirectory | isDirectory | nameTooLong | tooManyLinks | nulInPath
          | notRegular | noFileName | noAncestor => exact hsettle

/-! ## Any path at all -/

theorem isDirectory_above (hwf : t.WellFormed) (h : t.isDirectory path = true)
    (habove : parent? path = some above) (hcheck : checkPath above = .ok ()) :
    t.isDirectory above = true := by
  obtain ⟨D, hD, hdir⟩ := isDirectory_iff.1 h
  have hnames := (names_parent? habove).1
  have hwalk := (canonicalize_eq_ok.1 hD).2
  rw [← start_parent? habove hcheck] at hwalk
  rcases List.eq_nil_or_concat' (names (pieces path)) with hnil | ⟨ns, n, hsplit⟩
  · rw [hnil] at hnames
    have habove := hwalk.directory_of_names hdir (hnames.trans hnil.symm)
    exact isDirectory_iff.2 ⟨D, canonicalize_eq_ok.2 ⟨hcheck, habove⟩, hdir⟩
  · have hall : ∀ m ∈ ns ++ [n], ¬ (m = "" ∨ m = ".") := by
      intro m hm
      rw [← hsplit] at hm
      exact (mem_names.1 hm).2
    have hself : ∀ ms : List String, (∀ m ∈ ms, ¬ (m = "" ∨ m = ".")) → names ms = ms := by
      intro ms hms
      exact List.filter_eq_self.2 fun m hm => by simpa [names] using hms m hm
    have hlast := hwalk.directory_of_names hdir ((hself _ hall).trans hsplit.symm)
    obtain ⟨P, hP, hPdir⟩ := hlast.upto (hall n (by simp)) (entry?_startOf hwf.working above) hwf
    rw [hsplit, List.dropLast_concat] at hnames
    have hns := hself ns fun m hm => hall m (List.mem_append_left _ hm)
    have habove := hP.directory_of_names hPdir (hnames.trans hns.symm)
    exact isDirectory_iff.2 ⟨P, canonicalize_eq_ok.2 ⟨hcheck, habove⟩, hPdir⟩

theorem makeDirectory_grows (hwf : t.WellFormed) (h : t.makeDirectory path = .ok t') :
    Grows [] t t' ∧ t'.WellFormed ∧ t'.isDirectory path = true := by
  obtain ⟨P, n, d, hcheck, hwalk, rfl⟩ := makeDirectory_eq_ok h
  obtain ⟨_, _, -, -, -, -, -, hP⟩ := hwalk.before_absent (entry?_startOf hwf.working path) hwf
  have hnone := hwalk.absent_eq_none
  refine ⟨.of_put hnone List.nil_prefix, hwf.put_directory hP hnone, isDirectory_iff.2 ?_⟩
  exact ⟨P ++ [n], canonicalize_made hwf hcheck hwalk, entry?_put_self (by simp)⟩

theorem settle_snd (t : Tree) (path : String) (e : FileError) : (t.settle path e).2 = t := by
  rw [settle]
  split <;> rfl

theorem isDirectory_of_settle {e : FileError} (h : t.settle path e = (.ok (), t')) :
    t'.isDirectory path = true := by
  rw [settle] at h
  split at h
  · next hdir =>
    cases h
    exact hdir
  · cases h

theorem not_isDirectory_of_settle {e e' : FileError} (h : t.settle path e = (.error e', t')) :
    t'.isDirectory path = false := by
  rw [settle] at h
  split at h
  · cases h
  · next hdir =>
    cases h
    exact Bool.eq_false_iff.2 hdir

/-- The ways the making of a directory and those above it can go. -/
inductive Makes (t : Tree) : Nat → String → Except FileError Unit × Tree → Prop where
  | unable (path : String) : Makes t 0 path (.error .noAncestor, t)
  | empty (depth : Nat) : Makes t (depth + 1) "" (.ok (), t)
  | made {path : String} {t' : Tree} (depth : Nat) (hmake : t.makeDirectory path = .ok t') :
      Makes t (depth + 1) path (.ok (), t')
  | settled {path : String} {e : FileError} (depth : Nat)
      (hmake : t.makeDirectory path = .error e) : Makes t (depth + 1) path (t.settle path e)
  | topmost {path : String} (depth : Nat) (hmake : t.makeDirectory path = .error .notFound) :
      Makes t (depth + 1) path (.error .noAncestor, t)
  | underneath {depth : Nat} {path above : String} {result : Except FileError Unit × Tree}
      (hmake : t.makeDirectory path = .error .notFound) (habove : parent? path = some above)
      (rest : Makes t depth above result) : Makes t (depth + 1) path (makeLast path result)

theorem makes (t : Tree) (depth : Nat) (path : String) :
    Makes t depth path (makeDirectories depth t path) := by
  induction depth generalizing path with
  | zero => exact .unable path
  | succ depth ih =>
      by_cases hpath : path = ""
      · subst hpath
        exact .empty depth
      rw [makeDirectories_succ depth t path hpath]
      cases hmake : t.makeDirectory path with
      | ok t' => exact .made depth hmake
      | error e =>
          cases e with
          | notFound =>
              cases habove : parent? path with
              | none => exact .topmost depth hmake
              | some above => exact .underneath hmake habove (ih above)
          | alreadyExists | notDirectory | isDirectory | nameTooLong | tooManyLinks | nulInPath
          | notRegular | noFileName | noAncestor => exact .settled depth hmake

theorem makeLast_cases (path : String) (result : Except FileError Unit × Tree) :
    (∃ e, result.1 = .error e ∧ makeLast path result = result) ∨
    (∃ t', Tree.makeDirectory result.2 path = .ok t' ∧ makeLast path result = (.ok (), t')) ∨
    ∃ e, makeLast path result = Tree.settle result.2 path e := by
  match result with
  | (.error e, t) => exact .inl ⟨e, rfl, rfl⟩
  | (.ok (), t) =>
      cases hmake : t.makeDirectory path with
      | ok t' => exact .inr (.inl ⟨t', rfl, by simp only [makeLast, hmake]⟩)
      | error e => exact .inr (.inr ⟨e, by simp only [makeLast, hmake]⟩)

variable {result : Except FileError Unit × Tree} {e : FileError}

theorem Makes.grows (h : Makes t depth path result) (hwf : t.WellFormed) :
    Grows [] t result.2 ∧ result.2.WellFormed := by
  induction h with
  | unable _ | empty _ | topmost _ _ => exact ⟨.refl [] t, hwf⟩
  | made _ hmake =>
      obtain ⟨hgrows, hwf', -⟩ := makeDirectory_grows hwf hmake
      exact ⟨hgrows, hwf'⟩
  | settled _ _ =>
      rw [settle_snd]
      exact ⟨.refl [] t, hwf⟩
  | @underneath depth path above result hmake habove rest ih =>
      obtain ⟨hgrows, hwf'⟩ := ih
      rcases makeLast_cases path result with ⟨e, -, hlast⟩ | ⟨t', hmake', hlast⟩ | ⟨e, hlast⟩
      · rw [hlast]
        exact ⟨hgrows, hwf'⟩
      · obtain ⟨hgrows', hwf'', -⟩ := makeDirectory_grows hwf' hmake'
        rw [hlast]
        exact ⟨hgrows.trans hgrows', hwf''⟩
      · rw [hlast, settle_snd]
        exact ⟨hgrows, hwf'⟩

/-- What was made is there. Nothing is made for the empty path. -/
theorem Makes.isDirectory (h : Makes t depth path result) (hwf : t.WellFormed)
    (hpath : path ≠ "") (hok : result.1 = .ok ()) : result.2.isDirectory path = true := by
  cases h with
  | unable _ | topmost _ _ => cases hok
  | empty _ => exact absurd rfl hpath
  | made _ hmake => exact (makeDirectory_grows hwf hmake).2.2
  | settled _ _ => exact isDirectory_of_settle (Prod.ext hok rfl)
  | @underneath depth _ above result hmake habove rest =>
      rcases makeLast_cases path result with ⟨e, he, hlast⟩ | ⟨t', hmake', hlast⟩ | ⟨e, hlast⟩
      · rw [hlast, he] at hok
        cases hok
      · rw [hlast]
        exact (makeDirectory_grows (rest.grows hwf).2 hmake').2.2
      · rw [hlast] at hok ⊢
        exact isDirectory_of_settle (Prod.ext hok rfl)

theorem not_isDirectory_of_notFound (h : t.makeDirectory path = .error .notFound) :
    t.isDirectory path = false := by
  rw [Bool.eq_false_iff]
  intro hdir
  obtain ⟨l, hl, -⟩ := isDirectory_iff.1 hdir
  rw [makeDirectory_of_canonicalize hl] at h
  cases h

/-- Nothing is made for what is no path. -/
theorem Makes.of_checkPath (h : Makes t depth path result) (hcheck : checkPath path = .error e) :
    result.2 = t := by
  have hmake : t.makeDirectory path = .error e := by
    rw [makeDirectory, resolve_eq, hcheck]
    rfl
  cases h with
  | unable _ | empty _ | topmost _ _ => rfl
  | made _ hmake' =>
      rw [hmake] at hmake'
      cases hmake'
  | settled _ _ => exact settle_snd t path _
  | underneath hmake' habove _ =>
      rw [hmake] at hmake'
      obtain rfl := Except.error.inj hmake'
      obtain rfl := checkPath_error_notFound hcheck
      cases habove

/-- What could not be made is not there. -/
theorem Makes.not_isDirectory (h : Makes t depth path result) (hwf : t.WellFormed)
    (herror : result.1 = .error e) :
    depth = 0 ∧ result.2 = t ∨ result.2.isDirectory path = false := by
  induction h generalizing e with
  | unable _ => exact .inl ⟨rfl, rfl⟩
  | empty _ | made _ _ => cases herror
  | settled _ _ => exact .inr (not_isDirectory_of_settle (Prod.ext herror rfl))
  | topmost _ hmake => exact .inr (not_isDirectory_of_notFound hmake)
  | @underneath depth path above result hmake habove rest ih =>
      right
      rcases makeLast_cases path result with ⟨e', he', hlast⟩ | ⟨t', hmake', hlast⟩ | ⟨e', hlast⟩
      · rw [hlast]
        -- either nothing was made, or what is above is still no directory
        cases hcheck : checkPath above with
        | error e =>
            rw [rest.of_checkPath hcheck]
            exact not_isDirectory_of_notFound hmake
        | ok _ =>
            rcases ih he' with ⟨-, hsame⟩ | hnot
            · rw [hsame]
              exact not_isDirectory_of_notFound hmake
            · rw [Bool.eq_false_iff]
              intro hdir
              rw [isDirectory_above (rest.grows hwf).2 hdir habove hcheck] at hnot
              cases hnot
      · rw [hlast] at herror
        cases herror
      · rw [hlast] at herror ⊢
        exact not_isDirectory_of_settle (Prod.ext herror rfl)

theorem createAll_grows (hwf : t.WellFormed) (path : String) :
    Grows [] t (t.createAll path).2 ∧ (t.createAll path).2.WellFormed :=
  (makes t _ path).grows hwf

theorem isDirectory_of_createAll (hwf : t.WellFormed) (hpath : path ≠ "")
    (h : t.createAll path = (.ok (), t')) : t'.isDirectory path = true := by
  have hmakes := makes t ((components path).length + 1) path
  rw [← createAll, h] at hmakes
  exact hmakes.isDirectory hwf hpath rfl

theorem not_isDirectory_of_createAll (hwf : t.WellFormed)
    (h : t.createAll path = (.error e, t')) : t'.isDirectory path = false := by
  have hmakes := makes t ((components path).length + 1) path
  rw [← createAll, h] at hmakes
  exact (hmakes.not_isDirectory hwf rfl).resolve_left fun hzero => by cases hzero.1

end Ferry.File.Tree
