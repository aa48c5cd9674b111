import Ferry.File.Path
import Mathlib.Data.List.Induction
import Mathlib.Data.List.Basic

/-!
# Names in paths

Of the pieces of a path only some take a walk anywhere: the empty ones and the dots
stay where they are. What is left are its names. Two paths that start at the same
place and have the same names lead to the same directory, so this is all that has to
be known of the operations on paths: a joined path has the names of both, the path
above lacks the last name, and a confined path has the names of the root first and
none of the names after those leads up.
-/

namespace Ferry.File

/-! ## Pieces -/

theorem splitSlashes_ne_nil (cs : List Char) : splitSlashes cs ≠ [] := by
  cases cs with
  | nil => simp [splitSlashes]
  | cons c cs =>
      rw [splitSlashes]
      split
      · simp
      · split <;> simp

theorem splitSlashes_cons {c : Char} {cs p : List Char} {ps : List (List Char)} (hc : c ≠ '/')
    (h : splitSlashes cs = p :: ps) : splitSlashes (c :: cs) = (c :: p) :: ps := by
  rw [splitSlashes, if_neg hc, h]

theorem splitSlashes_append (cs ds : List Char) :
    splitSlashes (cs ++ '/' :: ds) = splitSlashes cs ++ splitSlashes ds := by
  induction cs with
  | nil => simp [splitSlashes]
  | cons c cs ih =>
      by_cases hc : c = '/'
      · subst hc
        simp only [List.cons_append, splitSlashes, if_pos, ih]
      · obtain ⟨p, ps, hp⟩ := List.exists_cons_of_ne_nil (splitSlashes_ne_nil cs)
        rw [hp] at ih
        rw [splitSlashes_cons hc hp, List.cons_append, splitSlashes_cons hc ih]
        rfl

theorem splitSlashes_of_not_mem {cs : List Char} (h : '/' ∉ cs) : splitSlashes cs = [cs] := by
  induction cs with
  | nil => rfl
  | cons c cs ih =>
      obtain ⟨hc, hcs⟩ := List.ne_and_not_mem_of_not_mem_cons h
      exact splitSlashes_cons (Ne.symm hc) (ih hcs)

theorem not_mem_of_mem_splitSlashes {cs p : List Char} (h : p ∈ splitSlashes cs) : '/' ∉ p := by
  induction cs generalizing p with
  | nil =>
      obtain rfl : p = [] := by simpa [splitSlashes] using h
      exact List.not_mem_nil
  | cons c cs ih =>
      by_cases hc : c = '/'
      · rw [splitSlashes, if_pos hc] at h
        rcases List.mem_cons.1 h with rfl | h
        · exact List.not_mem_nil
        · exact ih h
      · obtain ⟨q, qs, hq⟩ := List.exists_cons_of_ne_nil (splitSlashes_ne_nil cs)
        rw [splitSlashes_cons hc hq] at h
        rw [hq] at ih
        rcases List.mem_cons.1 h with rfl | h
        · exact List.not_mem_cons_of_ne_of_not_mem (Ne.symm hc) (ih List.mem_cons_self)
        · exact ih (List.mem_cons_of_mem _ h)

theorem pieces_of_not_mem {path : String} (h : '/' ∉ path.toList) : pieces path = [path] := by
  rw [pieces, splitSlashes_of_not_mem h, List.map_singleton, String.ofList_toList]

theorem not_mem_of_mem_pieces {path n : String} (h : n ∈ pieces path) : '/' ∉ n.toList := by
  obtain ⟨p, hp, rfl⟩ := List.mem_map.1 h
  rw [String.toList_ofList]
  exact not_mem_of_mem_splitSlashes hp

theorem pieces_append_slash (base next : String) :
    pieces (base ++ "/" ++ next) = pieces base ++ pieces next := by
  have hlist : (base ++ "/" ++ next).toList = base.toList ++ '/' :: next.toList := by
    simp [String.toList_append]
  rw [pieces, hlist, splitSlashes_append, List.map_append]
  rfl

/-- A slash or nothing at the end of `base` is a last piece that is empty, and `next` comes
in its place. -/
theorem pieces_join {next : String} (base : String) (h : isAbsolute next = false) :
    ∃ ps, (pieces base = ps ∨ pieces base = ps ++ [""]) ∧
      pieces (join base next) = ps ++ pieces next := by
  rw [join, if_neg (by simp [h])]
  dsimp only
  split
  · next hend =>
    rcases Bool.or_eq_true .. ▸ hend with hempty | hslash
    · have hbase : base = "" := by
        rw [← String.toList_eq_nil_iff]
        exact List.isEmpty_iff.1 hempty
      subst hbase
      exact ⟨[], .inr rfl, by simp⟩
    · have hlast : base.toList.getLast? = some '/' := by simpa using hslash
      obtain ⟨cs, hcs⟩ := List.getLast?_eq_some_iff.1 hlast
      have hbase : base = String.ofList cs ++ "/" ++ "" := by
        rw [← String.toList_inj]
        simp [String.toList_append, hcs]
      refine ⟨pieces (String.ofList cs), .inr ?_, ?_⟩
      · rw [hbase, pieces_append_slash]
        rfl
      · rw [hbase, String.append_empty, pieces_append_slash]
  · exact ⟨pieces base, .inl rfl, pieces_append_slash base next⟩

/-! ## Names -/

/-- The pieces without those that lead nowhere. -/
def names (xs : List String) : List String :=
  xs.filter fun x => !(x == "" || x == ".")

/-- The component a name stands for. -/
def component (n : String) : Component :=
  if n = ".." then .up else .normal n

/-- The piece leads down. -/
structure Down (n : String) : Prop where
  ne_empty : n ≠ ""
  ne_dot : n ≠ "."
  ne_up : n ≠ ".."

/-- A text that can be the name of something in a directory. -/
structure IsName (n : String) : Prop extends Down n where
  no_slash : '/' ∉ n.toList

@[simp] theorem names_nil : names [] = [] := rfl

@[simp] theorem names_append (xs ys : List String) : names (xs ++ ys) = names xs ++ names ys :=
  List.filter_append ..

theorem names_cons_blank {x : String} (h : x = "" ∨ x = ".") (xs : List String) :
    names (x :: xs) = names xs :=
  List.filter_cons_of_neg (by rcases h with rfl | rfl <;> decide)

theorem names_cons {x : String} (h : ¬ (x = "" ∨ x = ".")) (xs : List String) :
    names (x :: xs) = x :: names xs :=
  List.filter_cons_of_pos (by simpa using h)

theorem names_eq_nil {xs : List String} : names xs = [] ↔ ∀ x ∈ xs, x = "" ∨ x = "." := by
  simp [names, or_iff_not_imp_left]

theorem mem_names {x : String} {xs : List String} :
    x ∈ names xs ↔ x ∈ xs ∧ ¬ (x = "" ∨ x = ".") := by
  simp [names]

theorem Down.not_blank {n : String} (h : Down n) : ¬ (n = "" ∨ n = ".") :=
  not_or.2 ⟨h.ne_empty, h.ne_dot⟩

theorem IsName.pieces {n : String} (h : IsName n) : pieces n = [n] :=
  pieces_of_not_mem h.no_slash

theorem isAbsolute_of_not_mem {path : String} (h : '/' ∉ path.toList) :
    isAbsolute path = false := by
  rw [isAbsolute, beq_eq_false_iff_ne]
  intro hhead
  exact h (List.mem_of_mem_head? (by rw [hhead]; rfl))

theorem IsName.not_absolute {n : String} (h : IsName n) : isAbsolute n = false :=
  isAbsolute_of_not_mem h.no_slash

theorem names_of_pieces {path : String} {ps : List String}
    (h : pieces path = ps ∨ pieces path = ps ++ [""]) : names (pieces path) = names ps := by
  rcases h with h | h
  · rw [h]
  · rw [h, names_append, names_cons_blank (.inl rfl), names_nil, List.append_nil]

theorem names_join (base : String) {next : String} (h : isAbsolute next = false) :
    names (pieces (join base next)) = names (pieces base) ++ names (pieces next) := by
  obtain ⟨ps, hps, hjoin⟩ := pieces_join base h
  rw [hjoin, names_append, names_of_pieces hps]

theorem isAbsolute_join (base : String) {next : String} (h : isAbsolute next = false) :
    isAbsolute (join base next) = isAbsolute base := by
  rw [join, if_neg (by simp [h])]
  cases hbase : base.toList with
  | nil =>
      obtain rfl : base = "" := String.toList_eq_nil_iff.1 hbase
      simpa [isAbsolute] using h
  | cons c cs =>
      dsimp only
      split <;> simp [isAbsolute, String.toList_append, hbase]

/-! ## Components -/

/-- What comes before the names. -/
def front (path : String) : List Component :=
  if isAbsolute path then [.root]
  else if (pieces path).head? == some "." then [.here]
  else []

theorem filterMap_component? (xs : List String) :
    xs.filterMap component? = (names xs).map component := by
  induction xs with
  | nil => rfl
  | cons x xs ih =>
      by_cases hx : x = "" ∨ x = "."
      · have hnone : component? x = none := by rw [component?, if_pos (by simpa using hx)]
        rw [names_cons_blank hx, ← ih, List.filterMap_cons_none hnone]
      · rw [names_cons hx, List.map_cons, ← ih, List.filterMap_cons_some]
        rw [component?, if_neg (by simpa using hx), component]
        split <;> rfl

theorem components_eq (path : String) :
    components path = front path ++ (names (pieces path)).map component := by
  rw [components, filterMap_component?]
  rfl

theorem front_cases (path : String) :
    (front path = [.root] ∧ isAbsolute path = true) ∨
    (front path = [.here] ∧ isAbsolute path = false) ∨
    (front path = [] ∧ isAbsolute path = false) := by
  unfold front
  split
  · next h => exact .inl ⟨rfl, h⟩
  · next h =>
    split
    · exact .inr (.inl ⟨rfl, by simpa using h⟩)
    · exact .inr (.inr ⟨rfl, by simpa using h⟩)

theorem component_text (n : String) : (component n).text = n := by
  rw [component]
  split
  · next h => exact h.symm
  · rfl

theorem component_injective {n n' : String} (h : component n = component n') : n = n' := by
  rw [← component_text n, h, component_text]

theorem component_eq_up {n : String} : component n = .up ↔ n = ".." := by
  rw [component]
  split
  · next h => simp [h]
  · next h => simp [h]

theorem component_ne_root (n : String) : component n ≠ .root := by
  rw [component]
  split <;> exact Component.noConfusion

theorem ofComponents_append {cs : List Component} (h : cs ≠ []) (c : Component) :
    ofComponents (cs ++ [c]) = join (ofComponents cs) c.text := by
  obtain ⟨d, ds, rfl⟩ := List.exists_cons_of_ne_nil h
  simp [ofComponents, List.foldl_append]

/-- A path that is put together from names has these names. -/
theorem names_ofComponents {fs : List Component} {ns : List String}
    (hfs : fs = [.root] ∨ fs = [.here] ∨ fs = [])
    (hns : ∀ n ∈ ns, ¬ (n = "" ∨ n = ".") ∧ '/' ∉ n.toList) :
    names (pieces (ofComponents (fs ++ ns.map component))) = ns ∧
      (fs = [] ∧ ns = [] ∨
        isAbsolute (ofComponents (fs ++ ns.map component)) = (fs == [.root])) := by
  induction ns using List.reverseRecOn with
  | nil =>
      rw [List.map_nil, List.append_nil]
      rcases hfs with rfl | rfl | rfl <;> decide
  | append_singleton ns n ih =>
      obtain ⟨hnames, habs⟩ := ih fun m hm => hns m (List.mem_append_left _ hm)
      obtain ⟨hblank, hslash⟩ := hns n (by simp)
      have hrel := isAbsolute_of_not_mem hslash
      have hn : names (pieces n) = [n] := by
        rw [pieces_of_not_mem hslash, names_cons hblank, names_nil]
      rw [List.map_append, List.map_singleton, ← List.append_assoc]
      by_cases hnil : fs = [] ∧ ns = []
      · obtain ⟨rfl, rfl⟩ := hnil
        refine ⟨?_, .inr ?_⟩
        · simpa [ofComponents, component_text] using hn
        · simpa [ofComponents, component_text] using hrel
      · have hne : fs ++ ns.map component ≠ [] := by
          simpa [List.append_eq_nil_iff] using hnil
        rw [ofComponents_append hne, component_text, names_join _ hrel, hnames, hn,
          isAbsolute_join _ hrel]
        exact ⟨rfl, .inr (habs.resolve_left hnil)⟩

/-- The path above lacks the last name. -/
theorem names_parent? {path above : String} (h : parent? path = some above) :
    names (pieces above) = (names (pieces path)).dropLast ∧
      (above = "" ∨ isAbsolute above = isAbsolute path) := by
  have hns : ∀ n ∈ names (pieces path), ¬ (n = "" ∨ n = ".") ∧ '/' ∉ n.toList := fun n hn =>
    ⟨(mem_names.1 hn).2, not_mem_of_mem_pieces (mem_names.1 hn).1⟩
  have hfront := front_cases path
  rw [parent?, components_eq] at h
  rcases List.eq_nil_or_concat' (names (pieces path)) with hnil | ⟨ns, n, hsplit⟩
  · rw [hnil, List.map_nil, List.append_nil] at h
    rw [hnil]
    rcases hfront with ⟨hf, _⟩ | ⟨hf, _⟩ | ⟨hf, _⟩
    · rw [hf] at h
      cases h
    · rw [hf] at h
      cases h
      exact ⟨by decide, .inl rfl⟩
    · rw [hf] at h
      cases h
  · rw [hsplit] at hns
    rw [hsplit, List.map_append, List.map_singleton, ← List.append_assoc,
      List.getLast?_concat, List.dropLast_concat] at h
    have habove : above = ofComponents (front path ++ ns.map component) := by
      split at h
      · cases h
      · next heq => exact absurd (Option.some.inj heq) (component_ne_root n)
      · exact (Option.some.inj h).symm
    subst habove
    have hfs : front path = [.root] ∨ front path = [.here] ∨ front path = [] := by
      rcases hfront with ⟨hf, _⟩ | ⟨hf, _⟩ | ⟨hf, _⟩ <;> simp [hf]
    obtain ⟨hnames, habs⟩ :=
      names_ofComponents hfs fun m hm => hns m (List.mem_append_left _ hm)
    refine ⟨by rw [hnames, hsplit, List.dropLast_concat], ?_⟩
    rcases habs with ⟨hf, rfl⟩ | habs
    · rw [hf]
      exact .inl rfl
    · rw [habs]
      rcases hfront with ⟨hf, ha⟩ | ⟨hf, ha⟩ | ⟨hf, ha⟩ <;> rw [hf, ha] <;> exact .inr rfl

theorem names_of_not_up {path : String} (h : ¬ (components path).contains .up) :
    ".." ∉ names (pieces path) := by
  intro hup
  refine h (List.contains_iff_mem.2 ?_)
  rw [components_eq]
  exact List.mem_append_right _ (List.mem_map.2 ⟨"..", hup, rfl⟩)

/-- Only the empty path has no component at all. -/
theorem eq_empty_of_components {path : String} (h : components path = []) : path = "" := by
  rw [components_eq, List.append_eq_nil_iff, List.map_eq_nil_iff] at h
  obtain ⟨hfront, hnames⟩ := h
  have habs : isAbsolute path = false := by
    rcases front_cases path with ⟨hf, _⟩ | ⟨hf, ha⟩ | ⟨hf, ha⟩
    · rw [hfront] at hf
      cases hf
    · exact ha
    · exact ha
  have hhead : (pieces path).head? ≠ some "." := by
    intro hdot
    rw [front, if_neg (by simp [habs]), if_pos (by simp [hdot])] at hfront
    cases hfront
  cases hpath : path.toList with
  | nil => exact String.toList_eq_nil_iff.1 hpath
  | cons c cs =>
      -- the first piece is neither empty nor a dot
      have hc : c ≠ '/' := by
        rintro rfl
        simp [isAbsolute, hpath] at habs
      obtain ⟨p, ps, hp⟩ := List.exists_cons_of_ne_nil (splitSlashes_ne_nil cs)
      have hpieces : pieces path = String.ofList (c :: p) :: ps.map String.ofList := by
        rw [pieces, hpath, splitSlashes_cons hc hp, List.map_cons]
      have hfirst := names_eq_nil.1 hnames (String.ofList (c :: p)) (by rw [hpieces]; simp)
      rcases hfirst with hempty | hdot
      · simp [← String.toList_inj] at hempty
      · rw [hpieces, hdot] at hhead
        exact absurd rfl hhead

/-- A confined path has the names of the root first, and none of those after leads up. -/
theorem names_confine {root path dir : String} (hroot : root ≠ "")
    (h : confine root path = some dir) :
    ∃ rest, names (pieces dir) = names (pieces root) ++ rest ∧ ".." ∉ rest ∧
      isAbsolute dir = isAbsolute root := by
  rw [confine] at h
  split at h
  · cases h
  · next hup =>
    have hnot := names_of_not_up hup
    dsimp only at h
    split at h
    · next hstarts =>
      obtain rfl := Option.some.inj h
      cases habs : isAbsolute path with
      | false => exact ⟨_, names_join root habs, hnot, isAbsolute_join root habs⟩
      | true =>
          have hjoin : join root path = path := by rw [join, if_pos habs]
          rw [hjoin] at hstarts ⊢
          obtain ⟨cs, hcs⟩ := List.isPrefixOf_iff_prefix.1 hstarts
          have hfront : front path = [.root] := by rw [front, if_pos habs]
          rw [components_eq path, hfront, components_eq root] at hcs
          rcases front_cases root with ⟨hf, ha⟩ | ⟨hf, _⟩ | ⟨hf, _⟩
          · rw [hf] at hcs
            have hprefix : (names (pieces root)).map component ++ cs =
                (names (pieces path)).map component := by simpa using hcs
            obtain ⟨as, bs, hsplit, has, -⟩ := List.map_eq_append_iff.1 hprefix.symm
            have hroots : as = names (pieces root) :=
              List.map_injective_iff.2 (fun _ _ => component_injective) has
            refine ⟨bs, by rw [hsplit, hroots], fun hbs => hnot ?_, habs.trans ha.symm⟩
            rw [hsplit]
            exact List.mem_append_right _ hbs
          · rw [hf] at hcs
            cases hcs
          · -- a relative path comes first in an absolute one only if it is empty
            refine absurd (eq_empty_of_components ?_) hroot
            rw [components_eq, hf]
            cases hns : names (pieces root) with
            | nil => rfl
            | cons n ns =>
                rw [hf, hns] at hcs
                exact absurd (List.cons.inj hcs).1 (component_ne_root n)
    · cases h

end Ferry.File
