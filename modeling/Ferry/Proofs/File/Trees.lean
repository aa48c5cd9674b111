import Ferry.File.Tree
import Mathlib.Data.List.Basic

/-!
# What is where in a tree

In a tree that is well formed everything is in a directory. Trees are changed by
putting one entry after the other; what is made on the way to a directory only adds
to a tree, and only below some location (`Grows`).
-/

namespace Ferry.File.Tree

variable {t t' t'' : Tree} {top l k : Location} {e : Entry} {n : String}

/-! ## Entries -/

theorem entry?_eq_find? (hl : l ≠ []) :
    t.entry? l = (t.entries.find? fun e => e.1 == l).map (·.2) := by
  unfold entry?
  rw [if_neg (by simpa using hl)]

theorem find?_putEntry (l : Location) (e : Entry) (entries : List (Location × Entry)) :
    ((putEntry l e entries).find? fun d => d.1 == l).map (·.2) = some e := by
  induction entries with
  | nil => simp [putEntry]
  | cons d rest ih =>
      obtain ⟨k, d⟩ := d
      rw [putEntry]
      split
      · next hk => simp [hk]
      · next hk => rw [List.find?_cons_of_neg (by simpa using hk), ih]

theorem find?_putEntry_of_ne (hk : k ≠ l) (e : Entry) (entries : List (Location × Entry)) :
    ((putEntry l e entries).find? fun d => d.1 == k) = entries.find? fun d => d.1 == k := by
  induction entries with
  | nil => simp [putEntry, Ne.symm hk]
  | cons d rest ih =>
      obtain ⟨m, d⟩ := d
      rw [putEntry]
      split
      · next hm =>
        subst hm
        rw [List.find?_cons_of_neg (by simpa using Ne.symm hk),
          List.find?_cons_of_neg (by simpa using Ne.symm hk)]
      · rw [List.find?_cons, List.find?_cons, ih]

theorem entry?_put_self (hl : l ≠ []) : Tree.entry? (t.put l e) l = some e := by
  rw [entry?_eq_find? hl]
  exact find?_putEntry l e t.entries

theorem entry?_put_of_ne (hk : k ≠ l) : Tree.entry? (t.put l e) k = t.entry? k := by
  by_cases hnil : k = []
  · subst hnil
    rfl
  · rw [entry?_eq_find? hnil, entry?_eq_find? hnil]
    exact congrArg _ (find?_putEntry_of_ne hk e t.entries)

/-- A walk starts at a directory, whatever the path. -/
theorem entry?_startOf (hl : t.entry? l = some .directory) (path : String) :
    t.entry? (startOf l path) = some .directory := by
  unfold startOf
  split
  · rfl
  · exact hl

theorem ne_nil_of_entry? (h : t.entry? l ≠ some .directory) : l ≠ [] := by
  rintro rfl
  exact h rfl

@[simp] theorem workingDirectory_put (t : Tree) (l : Location) (e : Entry) :
    (t.put l e).workingDirectory = t.workingDirectory := rfl

/-! ## Well-formed trees -/

/-- Whatever there is, is in a directory. -/
structure WellFormed (t : Tree) : Prop where
  rooted : ∀ {l n e}, t.entry? (l ++ [n]) = some e → t.entry? l = some .directory
  working : t.entry? t.workingDirectory = some .directory

/-- It is enough to look at the entries that are listed. -/
theorem wellFormed_of_entries
    (hentries : ∀ e ∈ t.entries, t.entry? e.1.dropLast = some .directory)
    (hworking : t.entry? t.workingDirectory = some .directory) : t.WellFormed where
  rooted {l n e} hl := by
    rw [entry?_eq_find? (by simp)] at hl
    cases hfind : t.entries.find? fun e => e.1 == l ++ [n] with
    | none => rw [hfind] at hl; cases hl
    | some d =>
        have hloc : d.1 = l ++ [n] := by simpa using List.find?_some hfind
        have hd := hentries d (List.mem_of_find?_eq_some hfind)
        rwa [hloc, List.dropLast_concat] at hd
  working := hworking

theorem WellFormed.dropLast (h : t.WellFormed) (hl : t.entry? l = some e) :
    t.entry? l.dropLast = some .directory := by
  rcases List.eq_nil_or_concat' l with rfl | ⟨k, n, rfl⟩
  · rfl
  · rw [List.dropLast_concat]
    exact h.rooted hl

/-- There is nothing below what is not there. -/
theorem WellFormed.none_below (h : t.WellFormed) (hl : t.entry? l = none) (n : String) :
    t.entry? (l ++ [n]) = none := by
  cases hn : t.entry? (l ++ [n]) with
  | none => rfl
  | some e =>
      rw [h.rooted hn] at hl
      cases hl

theorem WellFormed.put_directory (h : t.WellFormed) (hl : t.entry? l = some .directory)
    (hn : t.entry? (l ++ [n]) = none) : (t.put (l ++ [n]) .directory).WellFormed where
  rooted {k m e} hk := by
    by_cases hkl : k = l ++ [n]
    · subst hkl
      exact entry?_put_self (by simp)
    · rw [entry?_put_of_ne hkl]
      by_cases hkm : k ++ [m] = l ++ [n]
      · obtain ⟨rfl, -⟩ := List.append_inj' hkm rfl
        exact hl
      · rw [entry?_put_of_ne hkm] at hk
        exact h.rooted hk
  working := by
    rw [workingDirectory_put, entry?_put_of_ne, h.working]
    intro heq
    rw [← heq, h.working] at hn
    cases hn

/-! ## Directories that are made -/

/-- Nothing is lost, and all that is new are directories at the location or below. -/
structure Grows (top : Location) (t t' : Tree) : Prop where
  kept : ∀ {l e}, t.entry? l = some e → t'.entry? l = some e
  made : ∀ {l e}, t'.entry? l = some e →
    t.entry? l = some e ∨ t.entry? l = none ∧ e = .directory ∧ top <+: l
  workingDirectory : t'.workingDirectory = t.workingDirectory

theorem Grows.refl (top : Location) (t : Tree) : Grows top t t :=
  ⟨id, .inl, rfl⟩

theorem Grows.trans (h : Grows top t t') (h' : Grows top t' t'') : Grows top t t'' := by
  refine ⟨fun hl => h'.kept (h.kept hl), fun {l e} hl => ?_,
    h'.workingDirectory.trans h.workingDirectory⟩
  rcases h'.made hl with hl | ⟨hnone, rfl, htop⟩
  · exact h.made hl
  · refine .inr ⟨?_, rfl, htop⟩
    cases hl : t.entry? l with
    | none => rfl
    | some e =>
        rw [h.kept hl] at hnone
        cases hnone

theorem Grows.of_put (hl : t.entry? l = none) (htop : top <+: l) :
    Grows top t (t.put l .directory) := by
  have hne : l ≠ [] := ne_nil_of_entry? (by rw [hl]; simp)
  refine ⟨fun {k e} hk => ?_, fun {k e} hk => ?_, rfl⟩
  · rw [entry?_put_of_ne, hk]
    rintro rfl
    rw [hl] at hk
    cases hk
  · by_cases hkl : k = l
    · subst hkl
      rw [entry?_put_self hne] at hk
      exact .inr ⟨hl, (Option.some.inj hk).symm, htop⟩
    · rw [entry?_put_of_ne hkl] at hk
      exact .inl hk

/-- Files are neither made nor changed. -/
theorem Grows.file {s : String} (h : Grows top t t') (hl : t'.entry? l = some (.file s)) :
    t.entry? l = some (.file s) := by
  rcases h.made hl with hl | ⟨_, he, _⟩
  · exact hl
  · cases he

/-- Whatever is different is a directory that is new. -/
theorem Grows.new_of_ne (h : Grows top t t') (hl : t'.entry? l ≠ t.entry? l) :
    t.entry? l = none ∧ t'.entry? l = some .directory := by
  cases hl' : t'.entry? l with
  | none =>
      cases ht : t.entry? l with
      | none => exact absurd (hl'.trans ht.symm) hl
      | some e =>
          rw [h.kept ht] at hl'
          cases hl'
  | some e =>
      rcases h.made hl' with ht | ⟨hnone, rfl, -⟩
      · exact absurd (hl'.trans ht.symm) hl
      · exact ⟨hnone, rfl⟩

theorem Grows.prefix_of_ne (h : Grows top t t') (hl : t'.entry? l ≠ t.entry? l) : top <+: l := by
  obtain ⟨hnone, hdir⟩ := h.new_of_ne hl
  rcases h.made hdir with ht | ⟨-, -, htop⟩
  · rw [hnone] at ht
    cases ht
  · exact htop

end Ferry.File.Tree
