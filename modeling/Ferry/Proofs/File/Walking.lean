import Ferry.Proofs.File.Paths
import Ferry.Proofs.File.Trees

/-!
# Walks

`Walks` has one rule for each thing that can happen to a walk, so that what holds of
every walk is shown by going through the rules. It is a function, the one that
`Tree.walk` computes (`walks`, `Walks.eq`).

What a walk gets to depends on the names it is given and on the entries it comes
through. It can be cut in two at any directory (`Walks.append`, `Walks.upto`), it does
not matter where empty pieces and dots stand as long as it leads to a directory
(`Walks.of_names`), and it goes on to lead to the same place in a tree where
directories have been made or a file has been written.
-/

namespace Ferry.File.Tree

/-- The piece is not too long to be a name. -/
def Short (x : String) : Prop :=
  x.utf8ByteSize ≤ maxNameBytes

/-- A walk from a directory through the pieces, while at most so many links are met. -/
inductive Walks (t : Tree) (follow : Bool) :
    Nat → Location → List String → Except FileError Destination → Prop where
  | here {k l} : Walks t follow k l [] (.ok (.present l false))
  | blank {k l x xs r} (hx : x = "" ∨ x = ".") (rest : Walks t follow k l xs r) :
      Walks t follow k l (x :: xs) r
  | up {k l xs r} (rest : Walks t follow k l.dropLast xs r) : Walks t follow k l (".." :: xs) r
  | long {k l x xs} (hx : Down x) (hlong : ¬ Short x) :
      Walks t follow k l (x :: xs) (.error .nameTooLong)
  | missing {k l x xs} (hx : Down x) (hshort : Short x) (hnone : t.entry? (l ++ [x]) = none)
      (hend : ∀ y ∈ xs, y = "") : Walks t follow k l (x :: xs) (.ok (.absent l x (!xs.isEmpty)))
  | missingAbove {k l x xs} (hx : Down x) (hshort : Short x)
      (hnone : t.entry? (l ++ [x]) = none) (hmore : ∃ y ∈ xs, y ≠ "") :
      Walks t follow k l (x :: xs) (.error .notFound)
  | directory {k l x xs r} (hx : Down x) (hshort : Short x)
      (hdir : t.entry? (l ++ [x]) = some .directory)
      (rest : Walks t follow k (l ++ [x]) xs r) : Walks t follow k l (x :: xs) r
  | file {k l x xs s} (hx : Down x) (hshort : Short x)
      (hfile : t.entry? (l ++ [x]) = some (.file s)) (hend : ∀ y ∈ xs, y = "") :
      Walks t follow k l (x :: xs) (.ok (.present (l ++ [x]) (!xs.isEmpty)))
  | fileAbove {k l x xs s} (hx : Down x) (hshort : Short x)
      (hfile : t.entry? (l ++ [x]) = some (.file s)) (hmore : ∃ y ∈ xs, y ≠ "") :
      Walks t follow k l (x :: xs) (.error .notDirectory)
  | lastLink {k l x xs target} (hx : Down x) (hshort : Short x)
      (hlink : t.entry? (l ++ [x]) = some (.link target)) (hend : ∀ y ∈ xs, y = "")
      (hnot : follow = false) :
      Walks t follow k l (x :: xs) (.ok (.present (l ++ [x]) (!xs.isEmpty)))
  | link {k l x xs r target} (hx : Down x) (hshort : Short x)
      (hlink : t.entry? (l ++ [x]) = some (.link target))
      (hfollow : follow = true ∨ ∃ y ∈ xs, y ≠ "")
      (rest : Walks t follow k (startOf l target) (pieces target ++ xs) r) :
      Walks t follow (k + 1) l (x :: xs) r
  | tooMany {l x xs target} (hx : Down x) (hshort : Short x)
      (hlink : t.entry? (l ++ [x]) = some (.link target))
      (hfollow : follow = true ∨ ∃ y ∈ xs, y ≠ "") :
      Walks t follow 0 l (x :: xs) (.error .tooManyLinks)

variable {t t' : Tree} {follow : Bool} {k j : Nat} {l m P : Location}
  {x n : String} {xs ys zs : List String} {r : Except FileError Destination}

/-! ## The walk that is computed -/

/-- What happens to a walk that meets a link it has to follow. -/
def onLink (t : Tree) (follow : Bool) : Nat → Location → List String →
    Except FileError Destination
  | 0 => fun _ _ => .error .tooManyLinks
  | k + 1 => t.walk follow k

theorem walk_eq (t : Tree) (follow : Bool) (k : Nat) :
    t.walk follow k = walkPieces t follow (t.onLink follow k) := by
  cases k <;> rfl

theorem walkPieces_blank {f : Location → List String → Except FileError Destination}
    (hx : x = "" ∨ x = ".") : walkPieces t follow f l (x :: xs) = walkPieces t follow f l xs := by
  rw [walkPieces, if_pos (by simpa using hx)]

theorem walkPieces_up {f : Location → List String → Except FileError Destination} :
    walkPieces t follow f l (".." :: xs) = walkPieces t follow f l.dropLast xs := by
  rw [walkPieces, if_neg (by decide), if_pos rfl]

theorem walkPieces_down {f : Location → List String → Except FileError Destination}
    (hx : Down x) : walkPieces t follow f l (x :: xs) =
      if maxNameBytes < x.utf8ByteSize then .error .nameTooLong
      else match t.entry? (l ++ [x]) with
        | none =>
          if xs.all (· == "") then .ok (.absent l x (!xs.isEmpty)) else .error .notFound
        | some .directory => walkPieces t follow f (l ++ [x]) xs
        | some (.file _) =>
          if xs.all (· == "") then .ok (.present (l ++ [x]) (!xs.isEmpty))
          else .error .notDirectory
        | some (.link target) =>
          if xs.all (· == "") && !follow then .ok (.present (l ++ [x]) (!xs.isEmpty))
          else f (startOf l target) (pieces target ++ xs) := by
  rw [walkPieces, if_neg (by simpa using hx.not_blank)]
  exact if_neg hx.ne_up

theorem all_empty_iff : (xs.all (· == "")) = true ↔ ∀ y ∈ xs, y = "" := by
  simp

theorem not_all_empty : (xs.all (· == "")) = false ↔ ∃ y ∈ xs, y ≠ "" := by
  rw [← Bool.not_eq_true, all_empty_iff]
  simp

theorem Walks.eq (h : Walks t follow k l xs r) : t.walk follow k l xs = r := by
  induction h with
  | here => rw [walk_eq, walkPieces]
  | blank hx rest ih => rw [walk_eq, walkPieces_blank hx, ← walk_eq, ih]
  | up rest ih => rw [walk_eq, walkPieces_up, ← walk_eq, ih]
  | long hx hlong => rw [walk_eq, walkPieces_down hx, if_pos (Nat.lt_of_not_le hlong)]
  | missing hx hshort hnone hend =>
      rw [walk_eq, walkPieces_down hx, if_neg (Nat.not_lt.2 hshort), hnone]
      exact if_pos (all_empty_iff.2 hend)
  | missingAbove hx hshort hnone hmore =>
      rw [walk_eq, walkPieces_down hx, if_neg (Nat.not_lt.2 hshort), hnone]
      exact if_neg (by simp [not_all_empty.2 hmore])
  | directory hx hshort hdir rest ih =>
      rw [walk_eq, walkPieces_down hx, if_neg (Nat.not_lt.2 hshort), hdir, ← ih, walk_eq]
  | file hx hshort hfile hend =>
      rw [walk_eq, walkPieces_down hx, if_neg (Nat.not_lt.2 hshort), hfile]
      exact if_pos (all_empty_iff.2 hend)
  | fileAbove hx hshort hfile hmore =>
      rw [walk_eq, walkPieces_down hx, if_neg (Nat.not_lt.2 hshort), hfile]
      exact if_neg (by simp [not_all_empty.2 hmore])
  | lastLink hx hshort hlink hend hnot =>
      rw [walk_eq, walkPieces_down hx, if_neg (Nat.not_lt.2 hshort), hlink]
      exact if_pos (by rw [all_empty_iff.2 hend, hnot]; rfl)
  | link hx hshort hlink hfollow rest ih =>
      rw [walk_eq, walkPieces_down hx, if_neg (Nat.not_lt.2 hshort), hlink, ← ih]
      refine if_neg ?_
      rcases hfollow with rfl | hmore
      · simp
      · simp [not_all_empty.2 hmore]
  | tooMany hx hshort hlink hfollow =>
      rw [walk_eq, walkPieces_down hx, if_neg (Nat.not_lt.2 hshort), hlink]
      refine if_neg ?_
      rcases hfollow with rfl | hmore
      · simp
      · simp [not_all_empty.2 hmore]

/-- One piece after the other, where following links is left to `ih`. -/
theorem walks_of_onLink (ih : ∀ {l xs j}, k = j + 1 → Walks t follow j l xs (t.walk follow j l xs))
    (l : Location) (xs : List String) : Walks t follow k l xs (t.walk follow k l xs) := by
  induction xs generalizing l with
  | nil =>
      rw [walk_eq, walkPieces]
      exact .here
  | cons x xs hrest =>
      by_cases hblank : x = "" ∨ x = "."
      · rw [walk_eq, walkPieces_blank hblank, ← walk_eq]
        exact .blank hblank (hrest l)
      by_cases hup : x = ".."
      · subst hup
        rw [walk_eq, walkPieces_up, ← walk_eq]
        exact .up (hrest l.dropLast)
      obtain ⟨hempty, hdot⟩ := not_or.1 hblank
      have hx : Down x := ⟨hempty, hdot, hup⟩
      rw [walk_eq, walkPieces_down hx]
      by_cases hshort : Short x
      case neg =>
        rw [if_pos (Nat.lt_of_not_le hshort)]
        exact .long hx hshort
      rw [if_neg (Nat.not_lt.2 hshort)]
      cases hend : xs.all (· == "") with
      | true =>
          have hend' := all_empty_iff.1 hend
          cases hentry : t.entry? (l ++ [x]) with
          | none => exact .missing hx hshort hentry hend'
          | some e =>
              cases e with
              | directory => exact walk_eq t follow k ▸ .directory hx hshort hentry (hrest _)
              | file s => exact .file hx hshort hentry hend'
              | link target =>
                  cases follow with
                  | false => exact .lastLink hx hshort hentry hend' rfl
                  | true =>
                      cases k with
                      | zero => exact .tooMany hx hshort hentry (.inl rfl)
                      | succ k => exact .link hx hshort hentry (.inl rfl) (ih rfl)
      | false =>
          have hmore := not_all_empty.1 hend
          cases hentry : t.entry? (l ++ [x]) with
          | none => exact .missingAbove hx hshort hentry hmore
          | some e =>
              cases e with
              | directory => exact walk_eq t follow k ▸ .directory hx hshort hentry (hrest _)
              | file s => exact .fileAbove hx hshort hentry hmore
              | link target =>
                  cases k with
                  | zero => exact .tooMany hx hshort hentry (.inr hmore)
                  | succ k => exact .link hx hshort hentry (.inr hmore) (ih rfl)

theorem walks (t : Tree) (follow : Bool) (k : Nat) (l : Location) (xs : List String) :
    Walks t follow k l xs (t.walk follow k l xs) := by
  induction k generalizing l xs with
  | zero => exact walks_of_onLink (fun h => by cases h) l xs
  | succ k ih =>
      refine walks_of_onLink (fun {l xs j} h => ?_) l xs
      obtain rfl := Nat.succ.inj h
      exact ih l xs

theorem walk_eq_iff : t.walk follow k l xs = r ↔ Walks t follow k l xs r :=
  ⟨fun h => h ▸ walks t follow k l xs, Walks.eq⟩

/-! ## Cutting a walk in two -/

/-- A walk to a directory goes on from there. -/
theorem Walks.append {d : Bool} (h : Walks t true k l xs (.ok (.present m d)))
    (hm : t.entry? m = some .directory) (ys : List String) :
    ∃ j, ∀ r, Walks t true j m ys r → Walks t true k l (xs ++ ys) r := by
  generalize hr : (.ok (.present m d) : Except FileError Destination) = r at h
  induction h with
  | @here k l =>
      cases hr
      exact ⟨k, fun r h => h⟩
  | blank hx rest ih =>
      obtain ⟨j, hj⟩ := ih hr
      exact ⟨j, fun r h => .blank hx (hj r h)⟩
  | up rest ih =>
      obtain ⟨j, hj⟩ := ih hr
      exact ⟨j, fun r h => .up (hj r h)⟩
  | directory hx hshort hdir rest ih =>
      obtain ⟨j, hj⟩ := ih hr
      exact ⟨j, fun r h => .directory hx hshort hdir (hj r h)⟩
  | link hx hshort hlink hfollow rest ih =>
      obtain ⟨j, hj⟩ := ih hr
      refine ⟨j, fun r h => .link hx hshort hlink (.inl rfl) ?_⟩
      exact List.append_assoc .. ▸ hj r h
  | file hx hshort hfile hend =>
      cases hr
      rw [hfile] at hm
      cases hm
  | lastLink hx hshort hlink hend hnot => cases hnot
  | long _ _ | missing _ _ _ _ | missingAbove _ _ _ _ | fileAbove _ _ _ _ | tooMany _ _ _ _ =>
      cases hr

/-- No path to a directory asks for more than it gets. -/
theorem Walks.at_directory {d : Bool} (h : Walks t true k l xs (.ok (.present m d)))
    (hm : t.entry? m = some .directory) : d = false := by
  obtain ⟨j, hj⟩ := h.append hm []
  have hsame := (hj _ .here).eq
  rw [List.append_nil, h.eq] at hsame
  cases hsame
  rfl

/-- Before the last name a walk that leads anywhere was at a directory. -/
theorem Walks.upto {d : Destination} (h : Walks t true k l (xs ++ [n]) (.ok d))
    (hn : ¬ (n = "" ∨ n = ".")) (hl : t.entry? l = some .directory) (hwf : t.WellFormed) :
    ∃ P, Walks t true k l xs (.ok (.present P false)) ∧ t.entry? P = some .directory := by
  generalize hzs : xs ++ [n] = zs at h
  generalize hr : (.ok d : Except FileError Destination) = r at h
  induction h generalizing xs with
  | here => simp at hzs
  | @blank k l x zs r hx rest ih =>
      rcases List.append_eq_cons_iff.1 hzs with ⟨rfl, hnx⟩ | ⟨xs', rfl, hxs'⟩
      · obtain ⟨rfl, -⟩ := List.cons.inj hnx
        exact absurd hx hn
      · obtain ⟨P, hP, hdir⟩ := ih hl hxs'.symm hr
        exact ⟨P, .blank hx hP, hdir⟩
  | @up k l zs r rest ih =>
      rcases List.append_eq_cons_iff.1 hzs with ⟨rfl, -⟩ | ⟨xs', rfl, hxs'⟩
      · exact ⟨l, .here, hl⟩
      · obtain ⟨P, hP, hdir⟩ := ih (hwf.dropLast hl) hxs'.symm hr
        exact ⟨P, .up hP, hdir⟩
  | @directory k l x zs r hx hshort hdir rest ih =>
      rcases List.append_eq_cons_iff.1 hzs with ⟨rfl, -⟩ | ⟨xs', rfl, hxs'⟩
      · exact ⟨l, .here, hl⟩
      · obtain ⟨P, hP, hdir'⟩ := ih hdir hxs'.symm hr
        exact ⟨P, .directory hx hshort hdir hP, hdir'⟩
  | @link k l x zs r target hx hshort hlink hfollow rest ih =>
      rcases List.append_eq_cons_iff.1 hzs with ⟨rfl, -⟩ | ⟨xs', rfl, hxs'⟩
      · exact ⟨l, .here, hl⟩
      · obtain ⟨P, hP, hdir⟩ := ih (entry?_startOf hl target) (by rw [hxs', List.append_assoc]) hr
        exact ⟨P, .link hx hshort hlink (.inl rfl) hP, hdir⟩
  | @missing k l x zs hx hshort hnone hend =>
      rcases List.append_eq_cons_iff.1 hzs with ⟨rfl, -⟩ | ⟨xs', rfl, rfl⟩
      · exact ⟨l, .here, hl⟩
      · exact absurd (.inl (hend n (by simp))) hn
  | @file k l x zs _ hx hshort hfile hend =>
      rcases List.append_eq_cons_iff.1 hzs with ⟨rfl, -⟩ | ⟨xs', rfl, rfl⟩
      · exact ⟨l, .here, hl⟩
      · exact absurd (.inl (hend n (by simp))) hn
  | lastLink hx hshort hlink hend hnot => cases hnot
  | long _ _ | missingAbove _ _ _ _ | fileAbove _ _ _ _ | tooMany _ _ _ _ => cases hr

theorem Walks.absent_eq_none {d : Bool} (h : Walks t follow k l xs (.ok (.absent P n d))) :
    t.entry? (P ++ [n]) = none := by
  generalize hr : (.ok (.absent P n d) : Except FileError Destination) = r at h
  induction h with
  | blank hx rest ih => exact ih hr
  | up rest ih => exact ih hr
  | directory hx hshort hdir rest ih => exact ih hr
  | link hx hshort hlink hfollow rest ih => exact ih hr
  | missing hx hshort hnone hend =>
      cases hr
      exact hnone
  | here | long _ _ | missingAbove _ _ _ _ | file _ _ _ _ | fileAbove _ _ _ _
  | lastLink _ _ _ _ _ | tooMany _ _ _ _ => cases hr

/-! ## Following the last link or not -/

/-- It only makes a difference for a walk that ends at something. -/
theorem Walks.following (h : Walks t false k l xs r) (hr : ∀ m d, r ≠ .ok (.present m d)) :
    Walks t true k l xs r := by
  induction h with
  | here => exact absurd rfl (hr _ _)
  | blank hx rest ih => exact .blank hx (ih hr)
  | up rest ih => exact .up (ih hr)
  | long hx hlong => exact .long hx hlong
  | missing hx hshort hnone hend => exact .missing hx hshort hnone hend
  | missingAbove hx hshort hnone hmore => exact .missingAbove hx hshort hnone hmore
  | directory hx hshort hdir rest ih => exact .directory hx hshort hdir (ih hr)
  | file hx hshort hfile hend => exact absurd rfl (hr _ _)
  | fileAbove hx hshort hfile hmore => exact .fileAbove hx hshort hfile hmore
  | lastLink hx hshort hlink hend hnot => exact absurd rfl (hr _ _)
  | link hx hshort hlink hfollow rest ih => exact .link hx hshort hlink (.inl rfl) (ih hr)
  | tooMany hx hshort hlink hfollow => exact .tooMany hx hshort hlink (.inl rfl)

/-- What is after the last name of two lists put together, if that is in the second one. -/
theorem split_append {as bs : List String} (h : ys ++ zs = as ++ n :: bs)
    (hbs : ∀ b ∈ bs, b = "") (hzs : ∃ z ∈ zs, z ≠ "") :
    ∃ cs, zs = cs ++ n :: bs ∧ as = ys ++ cs := by
  rcases List.append_eq_append_iff.1 h with ⟨cs, rfl, hcs⟩ | ⟨cs, rfl, hcs⟩
  · exact ⟨cs, hcs, rfl⟩
  · cases cs with
    | nil => exact ⟨[], by simpa using hcs.symm, by simp⟩
    | cons c cs =>
        obtain ⟨z, hz, hne⟩ := hzs
        have hmem : z ∈ bs := by
          rw [(List.cons.inj hcs).2]
          exact List.mem_append_right _ hz
        exact absurd (hbs z hmem) hne

/-- A walk that does not follow a last link and ends where there is nothing has the missing
name from the path itself, and before it was at a directory. -/
theorem Walks.before_absent {d : Bool} (h : Walks t false k l xs (.ok (.absent P n d)))
    (hl : t.entry? l = some .directory) (hwf : t.WellFormed) :
    ∃ as bs, xs = as ++ n :: bs ∧ (∀ b ∈ bs, b = "") ∧ Down n ∧ Short n ∧
      Walks t true k l as (.ok (.present P false)) ∧ t.entry? P = some .directory := by
  generalize hr : (.ok (.absent P n d) : Except FileError Destination) = r at h
  induction h with
  | @blank k l x xs r hx rest ih =>
      obtain ⟨as, bs, rfl, hbs, hn, hshort, has, hP⟩ := ih hl hr
      exact ⟨x :: as, bs, rfl, hbs, hn, hshort, .blank hx has, hP⟩
  | up rest ih =>
      obtain ⟨as, bs, rfl, hbs, hn, hshort, has, hP⟩ := ih (hwf.dropLast hl) hr
      exact ⟨".." :: as, bs, rfl, hbs, hn, hshort, .up has, hP⟩
  | @directory k l x xs r hx hshort hdir rest ih =>
      obtain ⟨as, bs, rfl, hbs, hn, hshort', has, hP⟩ := ih hdir hr
      exact ⟨x :: as, bs, rfl, hbs, hn, hshort', .directory hx hshort hdir has, hP⟩
  | @missing k l x xs hx hshort hnone hend =>
      cases hr
      exact ⟨[], xs, rfl, hend, hx, hshort, .here, hl⟩
  | @link k l x xs r target hx hshort hlink hfollow rest ih =>
      obtain ⟨as, bs, hsplit, hbs, hn, hshort', has, hP⟩ := ih (entry?_startOf hl target) hr
      -- the link was not the last of the path, or it would not have been followed
      have hmore := hfollow.resolve_left (by decide)
      obtain ⟨cs, rfl, rfl⟩ := split_append hsplit hbs hmore
      exact ⟨x :: cs, bs, rfl, hbs, hn, hshort', .link hx hshort hlink (.inl rfl) has, hP⟩
  | here | long _ _ | missingAbove _ _ _ _ | file _ _ _ _ | fileAbove _ _ _ _
  | lastLink _ _ _ _ _ | tooMany _ _ _ _ => cases hr

/-! ## Names are all that counts -/

theorem Walks.blanks (hxs : ∀ x ∈ xs, x = "" ∨ x = ".") (h : Walks t follow k l ys r) :
    Walks t follow k l (xs ++ ys) r := by
  induction xs with
  | nil => exact h
  | cons x xs ih =>
      exact .blank (hxs x List.mem_cons_self) (ih fun y hy => hxs y (List.mem_cons_of_mem _ hy))

theorem Walks.here_of_names (hxs : names xs = []) :
    Walks t follow k l xs (.ok (.present l false)) := by
  rw [← List.append_nil xs]
  exact .blanks (names_eq_nil.1 hxs) .here

/-- A list of pieces has the names `x :: zs` if after some blanks comes `x`, and then `zs`. -/
theorem names_eq_cons {zs : List String} (h : names ys = x :: zs) :
    ∃ bs ys', ys = bs ++ x :: ys' ∧ (∀ b ∈ bs, b = "" ∨ b = ".") ∧ names ys' = zs := by
  obtain ⟨bs, ys', hsplit, hbs, -, hys'⟩ := List.filter_eq_cons_iff.1 h
  exact ⟨bs, ys', hsplit, fun b hb => by simpa [or_iff_not_imp_left] using hbs b hb, hys'⟩

/-- Where a walk ends at something, one with the same names does so too; only if that is a
file, it may ask for a directory there. -/
theorem Walks.of_names {d : Bool} (h : Walks t true k l xs (.ok (.present m d)))
    (hnames : names ys = names xs) :
    (∃ d, Walks t true k l ys (.ok (.present m d))) ∨
      Walks t true k l ys (.error .notDirectory) ∧ ∃ s, t.entry? m = some (.file s) := by
  generalize hr : (.ok (.present m d) : Except FileError Destination) = r at h
  induction h generalizing ys with
  | here =>
      cases hr
      exact .inl ⟨false, .here_of_names hnames⟩
  | blank hx rest ih =>
      rw [names_cons_blank hx] at hnames
      exact ih hnames hr
  | up rest ih =>
      rw [names_cons (by decide)] at hnames
      obtain ⟨bs, ys', rfl, hbs, hys'⟩ := names_eq_cons hnames
      rcases ih hys' hr with ⟨d, h⟩ | ⟨h, hm⟩
      · exact .inl ⟨d, .blanks hbs (.up h)⟩
      · exact .inr ⟨.blanks hbs (.up h), hm⟩
  | directory hx hshort hdir rest ih =>
      rw [names_cons hx.not_blank] at hnames
      obtain ⟨bs, ys', rfl, hbs, hys'⟩ := names_eq_cons hnames
      rcases ih hys' hr with ⟨d, h⟩ | ⟨h, hm⟩
      · exact .inl ⟨d, .blanks hbs (.directory hx hshort hdir h)⟩
      · exact .inr ⟨.blanks hbs (.directory hx hshort hdir h), hm⟩
  | @link k l x xs r target hx hshort hlink hfollow rest ih =>
      rw [names_cons hx.not_blank] at hnames
      obtain ⟨bs, ys', rfl, hbs, hys'⟩ := names_eq_cons hnames
      have hfollowed : names (pieces target ++ ys') = names (pieces target ++ xs) := by
        rw [names_append, names_append, hys']
      rcases ih hfollowed hr with ⟨d, h⟩ | ⟨h, hm⟩
      · exact .inl ⟨d, .blanks hbs (.link hx hshort hlink (.inl rfl) h)⟩
      · exact .inr ⟨.blanks hbs (.link hx hshort hlink (.inl rfl) h), hm⟩
  | @file k l x xs s hx hshort hfile hend =>
      cases hr
      have hxs : names xs = [] := names_eq_nil.2 fun y hy => .inl (hend y hy)
      rw [names_cons hx.not_blank, hxs] at hnames
      obtain ⟨bs, ys', rfl, hbs, hys'⟩ := names_eq_cons hnames
      by_cases hys : ∀ y ∈ ys', y = ""
      · exact .inl ⟨_, .blanks hbs (.file hx hshort hfile hys)⟩
      · exact .inr ⟨.blanks hbs (.fileAbove hx hshort hfile (by simpa using hys)), s, hfile⟩
  | lastLink hx hshort hlink hend hnot => cases hnot
  | long _ _ | missing _ _ _ _ | missingAbove _ _ _ _ | fileAbove _ _ _ _ | tooMany _ _ _ _ =>
      cases hr

theorem Walks.directory_of_names {d : Bool} (h : Walks t true k l xs (.ok (.present m d)))
    (hm : t.entry? m = some .directory) (hnames : names ys = names xs) :
    Walks t true k l ys (.ok (.present m false)) := by
  rcases h.of_names hnames with ⟨d, h⟩ | ⟨_, s, hs⟩
  · rwa [h.at_directory hm] at h
  · rw [hm] at hs
    cases hs

/-! ## Other trees -/

/-- What was there is found where directories have been made elsewhere. -/
theorem Walks.grows {top : Location} {d : Bool} (h : Walks t follow k l xs (.ok (.present m d)))
    (hgrows : Grows top t t') : Walks t' follow k l xs (.ok (.present m d)) := by
  generalize hr : (.ok (.present m d) : Except FileError Destination) = r at h ⊢
  induction h with
  | here => exact .here
  | blank hx rest ih => exact .blank hx (ih hr)
  | up rest ih => exact .up (ih hr)
  | directory hx hshort hdir rest ih => exact .directory hx hshort (hgrows.kept hdir) (ih hr)
  | file hx hshort hfile hend => exact .file hx hshort (hgrows.kept hfile) hend
  | lastLink hx hshort hlink hend hnot => exact .lastLink hx hshort (hgrows.kept hlink) hend hnot
  | link hx hshort hlink hfollow rest ih =>
      exact .link hx hshort (hgrows.kept hlink) hfollow (ih hr)
  | long _ _ | missing _ _ _ _ | missingAbove _ _ _ _ | fileAbove _ _ _ _ | tooMany _ _ _ _ =>
      cases hr

/-- Where something is, or would be if it were made. -/
def Destination.place? : Destination → Option Location
  | .present l false => some l
  | .absent parent name false => some (parent ++ [name])
  | .present _ true | .absent _ _ true => none

/-- The place a walk leads to. -/
def placeOf : Except FileError Destination → Option Location
  | .ok d => d.place?
  | .error _ => none

/-- The writing of a file changes no place. -/
theorem Walks.put_file {s : String} (h : Walks t true k l xs r) (hm : m ≠ [])
    (hfile : t.entry? m = none ∨ ∃ s, t.entry? m = some (.file s)) :
    ∃ r', Walks (t.put m (.file s)) true k l xs r' ∧ placeOf r' = placeOf r := by
  have hkept : ∀ {l e}, t.entry? l = some e → (∀ s, e ≠ .file s) →
      Tree.entry? (t.put m (.file s)) l = some e := by
    intro l e hl he
    rw [entry?_put_of_ne, hl]
    rintro rfl
    rcases hfile with hnone | ⟨s, hs⟩
    · rw [hl] at hnone
      cases hnone
    · rw [hl] at hs
      exact he s (Option.some.inj hs)
  have hwritten : Tree.entry? (t.put m (.file s)) m = some (.file s) := entry?_put_self hm
  induction h with
  | here => exact ⟨_, .here, rfl⟩
  | blank hx rest ih =>
      obtain ⟨r', h, hr'⟩ := ih
      exact ⟨r', .blank hx h, hr'⟩
  | up rest ih =>
      obtain ⟨r', h, hr'⟩ := ih
      exact ⟨r', .up h, hr'⟩
  | long hx hlong => exact ⟨_, .long hx hlong, rfl⟩
  | @missing k l x xs hx hshort hnone hend =>
      by_cases hlm : l ++ [x] = m
      · refine ⟨_, .file hx hshort (by rw [hlm, hwritten]) hend, ?_⟩
        cases xs <;> rfl
      · exact ⟨_, .missing hx hshort (by rw [entry?_put_of_ne hlm, hnone]) hend, rfl⟩
  | @missingAbove k l x xs hx hshort hnone hmore =>
      by_cases hlm : l ++ [x] = m
      · exact ⟨_, .fileAbove hx hshort (by rw [hlm, hwritten]) hmore, rfl⟩
      · exact ⟨_, .missingAbove hx hshort (by rw [entry?_put_of_ne hlm, hnone]) hmore, rfl⟩
  | directory hx hshort hdir rest ih =>
      obtain ⟨r', h, hr'⟩ := ih
      exact ⟨r', .directory hx hshort (hkept hdir (by simp)) h, hr'⟩
  | @file k l x xs s' hx hshort hentry hend =>
      by_cases hlm : l ++ [x] = m
      · exact ⟨_, .file hx hshort (by rw [hlm, hwritten]) hend, rfl⟩
      · exact ⟨_, .file hx hshort (by rw [entry?_put_of_ne hlm, hentry]) hend, rfl⟩
  | @fileAbove k l x xs s' hx hshort hentry hmore =>
      by_cases hlm : l ++ [x] = m
      · exact ⟨_, .fileAbove hx hshort (by rw [hlm, hwritten]) hmore, rfl⟩
      · exact ⟨_, .fileAbove hx hshort (by rw [entry?_put_of_ne hlm, hentry]) hmore, rfl⟩
  | lastLink hx hshort hlink hend hnot => cases hnot
  | link hx hshort hlink hfollow rest ih =>
      obtain ⟨r', h, hr'⟩ := ih
      exact ⟨r', .link hx hshort (hkept hlink (by simp)) hfollow h, hr'⟩
  | tooMany hx hshort hlink hfollow =>
      exact ⟨_, .tooMany hx hshort (hkept hlink (by simp)) hfollow, rfl⟩

/-! ## Where paths lead -/

/-- Where a path starts. -/
def start (t : Tree) (path : String) : Location :=
  startOf t.workingDirectory path

theorem start_put (path : String) (l : Location) (e : Entry) :
    (t.put l e).start path = t.start path := rfl

theorem resolve_eq (t : Tree) (follow : Bool) (path : String) :
    t.resolve follow path =
      (checkPath path >>= fun _ => t.walk follow maxLinks (t.start path) (pieces path)) := rfl

theorem resolve_eq_ok {path : String} {d : Destination} :
    t.resolve follow path = .ok d ↔
      checkPath path = .ok () ∧ Walks t follow maxLinks (t.start path) (pieces path) (.ok d) := by
  rw [← walk_eq_iff, resolve_eq]
  cases checkPath path with
  | ok _ => simp [bind, Except.bind]
  | error e => simp [bind, Except.bind]

theorem canonicalize_eq_ok {path : String} :
    t.canonicalize path = .ok l ↔ checkPath path = .ok () ∧
      Walks t true maxLinks (t.start path) (pieces path) (.ok (.present l false)) := by
  rw [← resolve_eq_ok, canonicalize]
  cases h : t.resolve true path with
  | error e => simp [bind, Except.bind]
  | ok d =>
      match d with
      | .present _ false => simp [bind, Except.bind]
      | .present _ true => simp [bind, Except.bind]
      | .absent .. => simp [bind, Except.bind]

/-- Where a path leads with all links followed, whether anything is there or not. -/
def place? (t : Tree) (path : String) : Option Location :=
  placeOf (t.resolve true path)

theorem place?_of_canonicalize {path : String} (h : t.canonicalize path = .ok l) :
    t.place? path = some l := by
  rw [place?, resolve_eq_ok.2 (canonicalize_eq_ok.1 h)]
  rfl

theorem canonicalize_of_place? {path : String} (h : t.place? path = some l)
    (hl : t.entry? l ≠ none) : t.canonicalize path = .ok l := by
  rw [canonicalize_eq_ok, ← resolve_eq_ok]
  rw [place?] at h
  cases hr : t.resolve true path with
  | error e => rw [hr] at h; cases h
  | ok d =>
      rw [hr] at h
      match d with
      | .present m false =>
          obtain rfl := Option.some.inj h
          rfl
      | .absent P n false =>
          obtain rfl := Option.some.inj h
          exact absurd (resolve_eq_ok.1 hr).2.absent_eq_none hl
      | .present m true => cases h
      | .absent P n true => cases h

theorem stat_of_place? {path : String} {e : Entry} (h : t.place? path = some l)
    (hl : t.entry? l = some e) : t.stat path = .ok e := by
  rw [stat, canonicalize_of_place? h (by rw [hl]; simp)]
  simp [bind, Except.bind, hl]

theorem stat_eq_ok {path : String} {e : Entry} (h : t.stat path = .ok e) :
    ∃ l, t.canonicalize path = .ok l ∧ t.entry? l = some e := by
  rw [stat] at h
  cases hc : t.canonicalize path with
  | error e => rw [hc] at h; cases h
  | ok l =>
      rw [hc] at h
      refine ⟨l, rfl, ?_⟩
      cases hl : t.entry? l with
      | none => simp [bind, Except.bind, hl] at h
      | some e' => simpa [bind, Except.bind, hl] using h

theorem stat_eq_ok_iff {path : String} {e : Entry} (h : t.place? path = some l) :
    t.stat path = .ok e ↔ t.entry? l = some e := by
  refine ⟨fun hstat => ?_, stat_of_place? h⟩
  obtain ⟨m, hm, hentry⟩ := stat_eq_ok hstat
  obtain rfl : l = m := Option.some.inj (h.symm.trans (place?_of_canonicalize hm))
  exact hentry

theorem canonicalize_grows {top : Location} {path : String} (h : t.canonicalize path = .ok l)
    (hgrows : Grows top t t') : t'.canonicalize path = .ok l := by
  obtain ⟨hcheck, hwalk⟩ := canonicalize_eq_ok.1 h
  refine canonicalize_eq_ok.2 ⟨hcheck, ?_⟩
  rw [start, hgrows.workingDirectory]
  exact hwalk.grows hgrows

theorem place?_put_file {s : String} (hm : m ≠ [])
    (hfile : t.entry? m = none ∨ ∃ s, t.entry? m = some (.file s)) (path : String) :
    (t.put m (.file s)).place? path = t.place? path := by
  obtain ⟨r, h, hr⟩ := (walks t true maxLinks (t.start path) (pieces path)).put_file
    (s := s) hm hfile
  rw [place?, place?, resolve_eq, resolve_eq, start_put, h.eq]
  cases checkPath path with
  | error e => rfl
  | ok _ => exact hr

end Ferry.File.Tree
