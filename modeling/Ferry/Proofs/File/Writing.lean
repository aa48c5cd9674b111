import Ferry.Proofs.File.Walking

/-!
# Writing files

A file is written where its path leads, which for a name in a directory is that name
there unless it is a link. Writing changes this one entry and no place of any path
(`Writes`), so what was found out about other paths before stays true.
-/

namespace Ferry.File.Tree

variable {t t' t'' : Tree} {l m D : Location} {path source target s s' : String} {n : String}

/-! ## Names in a directory -/

theorem place?_eq_some (h : t.place? path = some l) :
    ∃ d, d.place? = some l ∧ checkPath path = .ok () ∧
      Walks t true maxLinks (t.start path) (pieces path) (.ok d) := by
  rw [place?] at h
  cases hr : t.resolve true path with
  | error e => rw [hr] at h; cases h
  | ok d =>
      rw [hr] at h
      exact ⟨d, h, resolve_eq_ok.1 hr⟩

theorem start_join (dir : String) (hn : IsName n) : t.start (join dir n) = t.start dir := by
  rw [start, start, startOf, startOf, isAbsolute_join dir hn.not_absolute]

/-- The place of a name in a directory is there, unless the name is a link. -/
theorem place?_join (hD : t.canonicalize path = .ok D) (hdir : t.entry? D = some .directory)
    (hn : IsName n) (h : t.place? (join path n) = some l) :
    l = D ++ [n] ∨ ∃ target, t.entry? (D ++ [n]) = some (.link target) := by
  obtain ⟨ps, hps, hjoin⟩ := pieces_join path hn.not_absolute
  obtain ⟨d, hd, -, hwalk⟩ := place?_eq_some h
  rw [start_join path hn, hjoin, hn.pieces] at hwalk
  have hwalkD := (canonicalize_eq_ok.1 hD).2.directory_of_names hdir (names_of_pieces hps).symm
  obtain ⟨j, hj⟩ := hwalkD.append hdir [n]
  have hlast := walks t true j D [n]
  have hsame := (hj _ hlast).eq.symm.trans hwalk.eq
  rw [hsame] at hlast
  cases hlast with
  | blank hx _ => exact absurd hx hn.not_blank
  | up _ => exact absurd rfl hn.ne_up
  | missing _ _ _ _ => exact .inl (Option.some.inj hd).symm
  | directory _ _ _ rest =>
      cases rest
      exact .inl (Option.some.inj hd).symm
  | file _ _ _ _ => exact .inl (Option.some.inj hd).symm
  | lastLink _ _ _ _ hnot => cases hnot
  | link _ _ hlink _ _ => exact .inr ⟨_, hlink⟩

/-- If a name has a place, there is a directory it is a name in. -/
theorem canonicalize_of_join (hwf : t.WellFormed) (hcheck : checkPath path = .ok ())
    (hn : IsName n) (h : t.place? (join path n) = some l) : ∃ D, t.canonicalize path = .ok D := by
  obtain ⟨ps, hps, hjoin⟩ := pieces_join path hn.not_absolute
  obtain ⟨d, -, -, hwalk⟩ := place?_eq_some h
  rw [start_join path hn, hjoin, hn.pieces] at hwalk
  obtain ⟨P, hP, hdir⟩ := hwalk.upto hn.not_blank (entry?_startOf hwf.working path) hwf
  exact ⟨P, canonicalize_eq_ok.2 ⟨hcheck, hP.directory_of_names hdir (names_of_pieces hps)⟩⟩

/-! ## One file -/

/-- The only thing that is different is the file there. -/
structure Writes (m : Location) (s : String) (t t' : Tree) : Prop where
  written : t'.entry? m = some (.file s)
  others : ∀ {k}, k ≠ m → t'.entry? k = t.entry? k
  places : ∀ path, t'.place? path = t.place? path

/-- There is a file, or there could be one. -/
def Vacant (t : Tree) (m : Location) : Prop :=
  t.entry? m = none ∨ ∃ s, t.entry? m = some (.file s)

theorem Vacant.ne_nil (h : t.Vacant m) : m ≠ [] := by
  rintro rfl
  rcases h with h | ⟨s, h⟩ <;> cases h

theorem Writes.of_put (h : t.Vacant m) (s : String) : Writes m s t (t.put m (.file s)) where
  written := entry?_put_self h.ne_nil
  others := entry?_put_of_ne
  places path := place?_put_file h.ne_nil h path

/-- Written twice, it holds what was written last. -/
theorem Writes.again (h : Writes m s t t') (h' : Writes m s' t' t'') : Writes m s' t t'' where
  written := h'.written
  others hk := (h'.others hk).trans (h.others hk)
  places path := (h'.places path).trans (h.places path)

theorem Writes.vacant (h : Writes m s t t') : t'.Vacant m :=
  .inr ⟨s, h.written⟩

theorem truncate_eq_ok (h : t.truncate path = .ok (m, t')) :
    t.place? path = some m ∧ t.Vacant m ∧ t' = t.put m (.file "") := by
  rw [truncate] at h
  rw [place?]
  cases hr : t.resolve true path with
  | error e => rw [hr] at h; cases h
  | ok d =>
      rw [hr] at h
      cases d with
      | present l d =>
          cases d with
          | true => cases h
          | false =>
              dsimp only [bind, Except.bind] at h
              split at h
              · next s hfile =>
                cases h
                exact ⟨rfl, .inr ⟨s, hfile⟩, rfl⟩
              · cases h
      | absent P n d =>
          cases d with
          | true => cases h
          | false =>
              cases h
              exact ⟨rfl, .inl (resolve_eq_ok.1 hr).2.absent_eq_none, rfl⟩

theorem writeEmpty_eq_ok (h : t.writeEmpty path = .ok t') :
    ∃ m, t.place? path = some m ∧ t.Vacant m ∧ Writes m "" t t' := by
  rw [writeEmpty] at h
  cases hr : t.truncate path with
  | error e => rw [hr] at h; cases h
  | ok result =>
      obtain ⟨m, t₁⟩ := result
      rw [hr] at h
      obtain ⟨hplace, hvacant, rfl⟩ := truncate_eq_ok hr
      obtain rfl : t.put m (.file "") = t' := Except.ok.inj h
      exact ⟨m, hplace, hvacant, .of_put hvacant ""⟩

theorem openSource_eq_ok (h : t.openSource path = .ok l) :
    t.canonicalize path = .ok l ∧ ∃ s, t.entry? l = some (.file s) := by
  rw [openSource] at h
  cases hc : t.canonicalize path with
  | error e => rw [hc] at h; cases h
  | ok l' =>
      rw [hc] at h
      dsimp only [bind, Except.bind] at h
      split at h
      · next s hfile =>
        cases h
        exact ⟨rfl, s, hfile⟩
      · cases h

theorem content_of_file (h : t.entry? l = some (.file s)) : t.content l = s := by
  rw [content, h]

/-- A file that is copied onto itself is empty afterwards. -/
theorem copy_eq_ok (h : t.copy source target = .ok t') :
    ∃ l m s, t.canonicalize source = .ok l ∧ t.entry? l = some (.file s) ∧
      t.place? target = some m ∧ t.Vacant m ∧ Writes m (if l = m then "" else s) t t' := by
  rw [copy] at h
  cases hsource : t.openSource source with
  | error e => rw [hsource] at h; cases h
  | ok l =>
      rw [hsource] at h
      cases hr : t.truncate target with
      | error e => simp [bind, Except.bind, hr] at h
      | ok result =>
          obtain ⟨m, t₁⟩ := result
          obtain ⟨hl, s, hfile⟩ := openSource_eq_ok hsource
          obtain ⟨hplace, hvacant, rfl⟩ := truncate_eq_ok hr
          have htruncated : Writes m "" t (t.put m (.file "")) := .of_put hvacant ""
          have ht' : t' = (t.put m (.file "")).put m
              (.file ((t.put m (.file "")).content m ++ (t.put m (.file "")).content l)) := by
            simp only [bind, Except.bind, hr, Except.ok.injEq] at h
            exact h.symm
          have hread : (t.put m (.file "")).content l = if l = m then "" else s := by
            split
            · next hlm =>
              subst hlm
              exact content_of_file htruncated.written
            · next hlm => exact content_of_file ((htruncated.others hlm).trans hfile)
          rw [content_of_file htruncated.written, hread, String.empty_append] at ht'
          subst ht'
          exact ⟨l, m, s, hl, hfile, hplace, hvacant,
            htruncated.again (.of_put htruncated.vacant _)⟩

end Ferry.File.Tree
