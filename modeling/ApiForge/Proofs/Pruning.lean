import ApiForge.Emission.Stale
import ApiForge.Proofs.Emitters

/-! Which files are pruned. A file goes only if an emitter could have written it, which is seen from its name, and if
no path on record means the same as its own; and one that is found stale is not there afterwards, by whatever path it
is looked for. -/

namespace ApiForge

open Files (Content Entry Place Report Tree)
open PathTemplate (Part accepts parse)

/-! ### Paths with the same components -/

namespace Path

theorem ofSegment?_cases {segment : String} {component : Component}
    (h : Component.ofSegment? segment = some component) : component = .parent ∨ component = .name segment := by
  rw [Component.ofSegment?] at h
  split_ifs at h
  · exact Or.inl (Option.some.inj h).symm
  · exact Or.inr (Option.some.inj h).symm

/-- The component in front of those that segments stand for, if there is one, is of another kind than they are. -/
theorem components_eq (path : String) : ∃ first, components path = first ++
    (segments path).filterMap Component.ofSegment? ∧ (∀ component ∈ first, component = .root ∨ component = .here) ∧
      (.root ∈ first ↔ isAbsolute path = true) := by
  rw [components]
  refine ⟨_, rfl, ?_⟩
  split_ifs with habsolute hhere <;> simp [habsolute]

theorem ne_of_mem_segments {path : String} {component : Component}
    (h : component ∈ (segments path).filterMap Component.ofSegment?) : component ≠ .root ∧ component ≠ .here := by
  obtain ⟨s, -, hs⟩ := List.mem_filterMap.mp h
  rcases ofSegment?_cases hs with rfl | rfl <;> exact ⟨nofun, nofun⟩

theorem root_mem_components {path : String} : .root ∈ components path ↔ isAbsolute path = true := by
  obtain ⟨first, hcomponents, -, habsolute⟩ := components_eq path
  rw [hcomponents, List.mem_append, habsolute]
  exact or_iff_left fun hmem => (ne_of_mem_segments hmem).1 rfl

theorem filter_components (path : String) :
    (components path).filter (fun component => component != .root && component != .here) =
      (segments path).filterMap Component.ofSegment? := by
  obtain ⟨first, hcomponents, hfirst, -⟩ := components_eq path
  rw [hcomponents, List.filter_append, List.filter_eq_nil_iff.mpr, List.nil_append, List.filter_eq_self]
  · intro component hmem
    have hne := ne_of_mem_segments hmem
    simp [hne]
  · intro component hmem
    rcases hfirst component hmem with rfl | rfl <;> decide

theorem components_congr {a b : String} (h : components a = components b) :
    isAbsolute a = isAbsolute b ∧
      (segments a).filterMap Component.ofSegment? = (segments b).filterMap Component.ofSegment? := by
  refine ⟨?_, ?_⟩
  · rw [Bool.eq_iff_iff, ← root_mem_components, ← root_mem_components, h]
  · rw [← filter_components, ← filter_components, h]

/-- Relative paths with the same components lead from everywhere to the same places. -/
theorem placeFrom_join_congr {a b : String} (h : components a = components b) (ha : isAbsolute a = false)
    (start : Place) (base : String) : placeFrom start (join base a) = placeFrom start (join base b) := by
  obtain ⟨habsolute, hsame⟩ := components_congr h
  rw [placeFrom_join start base ha, placeFrom_join start base (habsolute.symm.trans ha), walk_eq_foldl, hsame,
    ← walk_eq_foldl]

/-- They find the same files if both end in names. -/
theorem locate_join_congr {a b : String} (h : components a = components b) (ha : isAbsolute a = false)
    {t : Tree} {base : String} {q : Place} {content : Content} (hlocate : t.locate (join base b) = .ok (q, .file content))
    (hlast : ∃ front name, segments a = front ++ [name] ∧ IsName name) :
    t.locate (join base a) = .ok (q, .file content) := by
  obtain ⟨habsolute, hsame⟩ := components_congr h
  have hb := habsolute.symm.trans ha
  obtain ⟨front, name, hsegments, hname⟩ := hlast
  apply Tree.locate_file_congr hlocate
  · rw [isAbsolute_join base ha, isAbsolute_join base hb]
  · rw [segments_join base ha, segments_join base hb, List.filterMap_append, List.filterMap_append, hsame]
  · refine ⟨joint base ++ front, name, ?_, hname⟩
    rw [segments_join base ha, hsegments, List.append_assoc]

theorem eq_of_compare {a b : String} (h : compare a b = .eq) : components a = components b := by
  have hlawful : Std.LawfulEqCmp Component.compare := {
    compare_self := fun {c} => by
      rw [Component.compare]
      simp
    eq_of_compare := fun {c d} hcd => by
      rw [Component.compare, Ordering.then_eq_eq, Std.compare_eq_iff_eq, Std.compare_eq_iff_eq] at hcd
      cases c <;> cases d <;> simp_all [Component.key] }
  exact Std.LawfulEqCmp.eq_of_compare h

theorem getLast?_names {path name : String} {front : List String} (h : segments path = front ++ [name])
    (hname : IsName name) : (names path).getLast? = some name := by
  obtain ⟨first, hcomponents, -⟩ := components_eq path
  rw [h, List.filterMap_append, List.filterMap_cons_some hname, List.filterMap_nil, ← List.append_assoc] at hcomponents
  rw [names, hcomponents, List.filterMap_append, List.getLast?_append]
  rfl

/-- In a path of which all segments are names, these are its names. -/
theorem names_eq {path : String} (h : ∀ s ∈ segments path, IsName s) : names path = segments path := by
  obtain ⟨first, hcomponents, hfirst, -⟩ := components_eq path
  rw [names, hcomponents, List.filterMap_append, List.filterMap_eq_nil_iff.mpr, List.nil_append,
    List.filterMap_filterMap]
  · generalize segments path = ss at h ⊢
    induction ss with
    | nil => rfl
    | cons s ss ih =>
        rw [List.forall_mem_cons] at h
        have hs : Component.ofSegment? s = some (.name s) := h.1
        rw [List.filterMap_cons_some (b := s) (by rw [hs]; rfl), ih h.2]
  · intro component hmem
    rcases hfirst component hmem with rfl | rfl <;> rfl

/-- The names of a path are segments of it. -/
theorem segment_of_mem_names {path n : String} (h : n ∈ names path) : n ∈ segments path ∧ IsName n := by
  obtain ⟨component, hcomponent, hn⟩ := List.mem_filterMap.mp h
  obtain ⟨first, hcomponents, hfirst, -⟩ := components_eq path
  rw [hcomponents] at hcomponent
  rcases List.mem_append.mp hcomponent with hmem | hmem
  · rcases hfirst component hmem with rfl | rfl <;> cases hn
  · obtain ⟨s, hs, hsegment⟩ := List.mem_filterMap.mp hmem
    rcases ofSegment?_cases hsegment with rfl | rfl
    · cases hn
    · rw [← Option.some.inj hn]
      exact ⟨hs, hsegment⟩

theorem slash_not_mem_names {path n : String} (h : n ∈ names path) : '/' ∉ n.toList :=
  slash_not_mem_segments (segment_of_mem_names h).1

theorem isName_of_mem_names {path n : String} (h : n ∈ names path) : IsName n :=
  (segment_of_mem_names h).2

end Path

/-! ### Deletion -/

namespace Files.Tree

theorem get?_unlink (t : Tree) (place q : Place) :
    (t.unlink place).get? q = if q = place ∧ q ≠ [] then none else t.get? q := by
  rw [get?, get?, unlink, List.find?_filter]
  by_cases hroot : q = []
  · rw [if_pos hroot, if_neg fun h => h.2 hroot]
    exact (if_pos hroot).symm
  · rw [if_neg hroot, if_neg hroot]
    by_cases hq : q = place
    · rw [if_pos ⟨hq, hroot⟩, List.find?_eq_none.mpr, Option.map_none]
      intro e _
      simp [hq]
    · rw [if_neg fun h => hq h.1]
      congr 2
      funext e
      by_cases he : e.1 = q
      · simp [he, hq]
      · simp [he]

/-- What stands at a place is as it was or is gone. -/
def Lost (t t' : Tree) : Prop :=
  ∀ q, t'.get? q = t.get? q ∨ t'.get? q = none

theorem Lost.refl (t : Tree) : t.Lost t :=
  fun _ => Or.inl rfl

theorem Lost.trans {t t' t'' : Tree} (h : t.Lost t') (h' : t'.Lost t'') : t.Lost t'' := by
  intro q
  rcases h' q with hq | hq
  · rw [hq]
    exact h q
  · exact Or.inr hq

end Files.Tree

/-- Deletes files one after the other. -/
def deleteFiles (t : Tree) (root : String) (paths : List String) : Tree :=
  paths.foldl (fun t path => deleteFile t (Path.join root path)) t

section Deletion

variable (t : Tree)

theorem deleteFile_lost (path : String) : t.Lost (deleteFile t path) := by
  intro q
  rw [deleteFile]
  split
  · rename_i place content _
    rw [Tree.get?_unlink]
    split
    · exact Or.inr rfl
    · exact Or.inl rfl
  · exact Or.inl rfl

theorem deleteFile_keeps (path : String) : t.Keeps (· = t.placeOf path) (deleteFile t path) := by
  rw [deleteFile]
  split
  · rename_i place content hlocate
    obtain ⟨hplace, hfile⟩ := Tree.locate_file hlocate
    refine ⟨rfl, fun q hq => ?_, fun q content' hq hnot => ?_⟩
    · rw [Tree.get?_unlink, if_neg, hq]
      rintro ⟨rfl, -⟩
      rw [hq] at hfile
      cases hfile
    · rw [Tree.get?_unlink, if_neg, hq]
      rintro ⟨rfl, -⟩
      exact hnot hplace
  · exact (Tree.KeepsAll.refl t).mono fun _ => False.elim

variable {t}

theorem get?_deleteFile {path : String} {q : Place} {content : Content} (h : t.locate path = .ok (q, .file content)) :
    (deleteFile t path).get? q = none := by
  rw [deleteFile, h]
  dsimp only
  rw [Tree.get?_unlink, if_pos]
  refine ⟨rfl, ?_⟩
  rintro rfl
  cases (Tree.locate_file h).2

theorem deleteFiles_lost (root : String) (paths : List String) : t.Lost (deleteFiles t root paths) := by
  induction paths generalizing t with
  | nil => exact Tree.Lost.refl t
  | cons path paths ih => exact (deleteFile_lost t (Path.join root path)).trans ih

/-- Files that none of the paths leads to are kept. -/
theorem deleteFiles_keeps (root : String) (paths : List String) :
    t.Keeps (fun q => ∃ path ∈ paths, t.placeOf (Path.join root path) = q) (deleteFiles t root paths) := by
  induction paths generalizing t with
  | nil => exact (Tree.KeepsAll.refl t).mono fun _ => False.elim
  | cons path paths ih =>
      have hfirst := deleteFile_keeps t (Path.join root path)
      refine (hfirst.mono ?_).trans ((ih (t := deleteFile t (Path.join root path))).mono ?_)
      · rintro q rfl
        exact ⟨path, List.mem_cons_self, rfl⟩
      · rintro q ⟨path', hpath', rfl⟩
        exact ⟨path', List.mem_cons_of_mem path hpath', (hfirst.placeOf_eq _).symm⟩

/-- A file that one of the paths finds is not there afterwards. -/
theorem get?_deleteFiles {root : String} {paths : List String} {path : String} (hpath : path ∈ paths) {q : Place}
    {content : Content} (h : t.locate (Path.join root path) = .ok (q, .file content)) :
    (deleteFiles t root paths).get? q = none := by
  induction paths generalizing t with
  | nil => cases hpath
  | cons first paths ih =>
      have hgone {t' : Tree} (hnone : t'.get? q = none) : (deleteFiles t' root paths).get? q = none := by
        rcases deleteFiles_lost (t := t') root paths q with hq | hq
        · rw [hq, hnone]
        · exact hq
      rcases List.mem_cons.mp hpath with rfl | hpath
      · exact hgone (get?_deleteFile h)
      · rcases deleteFile_lost t (Path.join root first) q with hq | hq
        · have hlocate := (deleteFile_keeps t (Path.join root first)).locate_file h
            (hq.trans (Tree.locate_file h).2)
          exact ih hpath hlocate
        · exact hgone hq

end Deletion

/-! ### Sorted paths -/

theorem mem_of_mem_insertPath {path x : String} {paths : List String} (h : x ∈ insertPath path paths) :
    x = path ∨ x ∈ paths := by
  induction paths with
  | nil => exact Or.inl (List.mem_singleton.mp h)
  | cons p paths ih =>
      rw [insertPath] at h
      split at h
      · exact List.mem_cons.mp h
      · exact Or.inr h
      · rcases List.mem_cons.mp h with rfl | h
        · exact Or.inr List.mem_cons_self
        · exact (ih h).imp_right (List.mem_cons_of_mem p)

theorem mem_insertPath_of_mem {path x : String} {paths : List String} (h : x ∈ paths) :
    x ∈ insertPath path paths := by
  induction paths with
  | nil => cases h
  | cons p paths ih =>
      rw [insertPath]
      split
      · exact List.mem_cons_of_mem path h
      · exact h
      · rcases List.mem_cons.mp h with rfl | h
        · exact List.mem_cons_self
        · exact List.mem_cons_of_mem p (ih h)

/-- A path that is not put in has the components of one that is there. -/
theorem exists_insertPath (path : String) (paths : List String) :
    ∃ x ∈ insertPath path paths, Path.components x = Path.components path := by
  induction paths with
  | nil => exact ⟨path, List.mem_singleton.mpr rfl, rfl⟩
  | cons p paths ih =>
      rw [insertPath]
      split
      · exact ⟨path, List.mem_cons_self, rfl⟩
      · rename_i heq
        exact ⟨p, List.mem_cons_self, (Path.eq_of_compare heq).symm⟩
      · obtain ⟨x, hx, hcomponents⟩ := ih
        exact ⟨x, List.mem_cons_of_mem p hx, hcomponents⟩

theorem mem_of_mem_sorted {paths sorted : List String} {x : String}
    (h : x ∈ paths.foldl (fun sorted path => insertPath path sorted) sorted) : x ∈ paths ∨ x ∈ sorted := by
  induction paths generalizing sorted with
  | nil => exact Or.inr h
  | cons path paths ih =>
      rcases ih h with h | h
      · exact Or.inl (List.mem_cons_of_mem path h)
      · rcases mem_of_mem_insertPath h with rfl | h
        · exact Or.inl List.mem_cons_self
        · exact Or.inr h

theorem mem_sorted_of_mem (paths : List String) {sorted : List String} {x : String} (h : x ∈ sorted) :
    x ∈ paths.foldl (fun sorted path => insertPath path sorted) sorted := by
  induction paths generalizing sorted with
  | nil => exact h
  | cons path paths ih => exact ih (mem_insertPath_of_mem h)

theorem exists_sorted {paths sorted : List String} {path : String} (h : path ∈ paths) :
    ∃ x ∈ paths.foldl (fun sorted path => insertPath path sorted) sorted,
      Path.components x = Path.components path := by
  induction paths generalizing sorted with
  | nil => cases h
  | cons first paths ih =>
      rcases List.mem_cons.mp h with rfl | h
      · obtain ⟨x, hx, hcomponents⟩ := exists_insertPath path sorted
        exact ⟨x, mem_sorted_of_mem paths hx, hcomponents⟩
      · exact ih h

/-! ### Generated files -/

theorem Files.Tree.mem_filesBelow {t : Tree} {place names : Place} {content : Content}
    (h : t.get? (place ++ names) = some (.file content)) : (names, content) ∈ t.filesBelow place := by
  rw [get?] at h
  split at h
  · cases h
  · obtain ⟨e, hfound, he⟩ := Option.map_eq_some_iff.mp h
    have hplace : e.1 = place ++ names := by simpa using List.find?_some hfound
    rw [filesBelow, List.mem_filterMap]
    refine ⟨e, List.mem_of_find?_eq_some hfound, ?_⟩
    rw [he, hplace]
    dsimp only
    rw [if_pos (List.isPrefixOf_iff_prefix.mpr (List.prefix_append place names)), List.drop_left]

theorem mem_generatedBelow_iff {t : Tree} {root directory path : String} :
    path ∈ generatedBelow t root directory ↔ ∃ place, t.locate (Path.join root directory) = .ok (place, .directory) ∧
      ∃ f ∈ t.filesBelow place, f.1.getLast?.any isGeneratedName = true ∧ path = "/".intercalate (directory :: f.1) := by
  rw [generatedBelow]
  split
  · rename_i place hlocate
    rw [List.mem_map]
    constructor
    · rintro ⟨f, hf, rfl⟩
      obtain ⟨hf, hlast⟩ := List.mem_filter.mp hf
      exact ⟨place, hlocate, f, hf, hlast, rfl⟩
    · rintro ⟨place', hlocate', f, hf, hlast, rfl⟩
      rw [hlocate, Except.ok.injEq, Prod.mk.injEq] at hlocate'
      rw [← hlocate'.1] at hf
      exact ⟨f, List.mem_filter.mpr ⟨hf, hlast⟩, rfl⟩
  · rename_i hnot
    refine iff_of_false List.not_mem_nil ?_
    rintro ⟨place, hlocate, -⟩
    exact hnot place hlocate

theorem isGeneratedName_iff {name : String} : isGeneratedName name = true ↔ ∃ stem, name = stem ++ "_gen.go" := by
  rw [isGeneratedName, List.isSuffixOf_iff_suffix]
  constructor
  · rintro ⟨cs, hcs⟩
    refine ⟨String.ofList cs, ?_⟩
    rw [← String.toList_inj, String.toList_append, String.toList_ofList]
    exact hcs.symm
  · rintro ⟨stem, rfl⟩
    rw [String.toList_append]
    exact List.suffix_append _ _

/-- The path of a generated file is relative and ends in a name. -/
theorem last_generatedBelow {t : Tree} {root directory path : String} (hdirectory : directory ∈ generatedDirectories)
    (h : path ∈ generatedBelow t root directory) :
    Path.isAbsolute path = false ∧ ∃ front stem, Path.segments path = front ++ [stem ++ "_gen.go"] := by
  obtain ⟨place, -, ⟨names, content⟩, -, hlast, rfl⟩ := mem_generatedBelow_iff.mp h
  obtain ⟨name, hname, hgenerated⟩ := (Option.any_eq_true _ _).mp hlast
  obtain ⟨stem, rfl⟩ := isGeneratedName_iff.mp hgenerated
  obtain ⟨others, rfl⟩ := List.getLast?_eq_some_iff.mp hname
  refine ⟨?_, ?_⟩
  · have hall : ∀ d ∈ generatedDirectories, d ≠ "" ∧ Path.isAbsolute d = false := by decide
    rw [String.intercalate_cons_of_ne_nil (by simp), String.append_assoc,
      Path.isAbsolute_append (hall directory hdirectory).1]
    exact (hall directory hdirectory).2
  · obtain ⟨pieces, last, -, hpieces⟩ :=
      Path.pieces_append_of_slashless (by decide : '/' ∉ "_gen.go".toList) stem.toList
    have hsegments : Path.segments (stem ++ "_gen.go") =
        pieces.map String.ofList ++ [String.ofList last ++ "_gen.go"] := by
      rw [Path.segments_eq, String.toList_append, hpieces, List.map_append, List.map_singleton, String.ofList_append]
      rfl
    rw [Path.segments_intercalate, ← List.cons_append, List.flatMap_append, List.flatMap_singleton, hsegments]
    exact ⟨_, _, (List.append_assoc _ _ _).symm⟩

/-! ### Ownership -/

theorem PathTemplate.matcher_ok {template : String} {matches? : String → Bool}
    (h : PathTemplate.matcher template = .ok matches?) (path : String) :
    matches? path = accepts (parse template.toList).1 path.toList := by
  unfold matcher at h
  dsimp only at h
  split at h
  · rw [← Except.ok.inj h]
  · cases h

/-- A path is owned if it matches the template of generated files that an emitter overwrites. -/
theorem ownedPaths_ok {emitters : List Emitter} {owned : String → Bool} (h : ownedPaths emitters = .ok owned)
    {path : String} : owned path = true ↔ ∃ e ∈ emitters, (e.mode = .overwrite ∧ isGeneratedName e.path = true) ∧
      accepts (parse e.path.toList).1 path.toList = true := by
  rw [ownedPaths] at h
  cases hmatchers : (emitters.filter fun e => e.mode = .overwrite && isGeneratedName e.path).mapM
      fun e => PathTemplate.matcher e.path with
  | error fault => rw [hmatchers] at h; cases h
  | ok matchers =>
      rw [hmatchers] at h
      cases h
      have hmatch := forall₂_of_mapM hmatchers
      have hfilter {e : Emitter} : e ∈ (emitters.filter fun e => e.mode = .overwrite && isGeneratedName e.path) ↔
          e ∈ emitters ∧ e.mode = .overwrite ∧ isGeneratedName e.path = true := by
        rw [List.mem_filter, Bool.and_eq_true, decide_eq_true_eq]
      rw [List.any_eq_true]
      constructor
      · rintro ⟨f, hf, haccepts⟩
        obtain ⟨e, he, hef⟩ := exists_of_forall₂ hmatch hf
        rw [PathTemplate.matcher_ok hef] at haccepts
        exact ⟨e, (hfilter.mp he).1, (hfilter.mp he).2, haccepts⟩
      · rintro ⟨e, he, hkind, haccepts⟩
        obtain ⟨f, hf, hef⟩ := exists_of_forall₂_left hmatch (hfilter.mpr ⟨he, hkind⟩)
        exact ⟨f, hf, (PathTemplate.matcher_ok hef path).trans haccepts⟩

theorem exists_objectsEmitter :
    ∃ e ∈ defaultEmitters, (e.mode = .overwrite ∧ isGeneratedName e.path = true) ∧ e.path = objectsTemplate := by
  have hname : isGeneratedName objectsTemplate = true := by decide +kernel
  exact ⟨_, List.mem_cons_self, ⟨rfl, hname⟩, rfl⟩

/-- Every file that is named like one generated for a group is owned. -/
theorem accepts_objectsTemplate {version stem : String} (hversion : version ≠ "" ∧ '/' ∉ version.toList)
    (hstem : stem ≠ "" ∧ '/' ∉ stem.toList) : accepts (parse objectsTemplate.toList).1
      ("pkg/api" ++ "/" ++ version ++ "/" ++ (stem ++ "_gen.go")).toList = true := by
  have hparts : (parse objectsTemplate.toList).1 = "pkg/api/".toList.map .literal ++ ([.hole "version"] ++
      ("/".toList.map .literal ++ ([.hole "group"] ++ "_gen.go".toList.map .literal))) := by
    decide +kernel
  have hhole {key value : String} (hvalue : value ≠ "" ∧ '/' ∉ value.toList) :
      accepts [.hole key] value.toList = true :=
    PathTemplate.accepts_hole (fun hnil => hvalue.1 (String.toList_eq_nil_iff.mp hnil)) hvalue.2
  have hliterals (text : String) : accepts (text.toList.map .literal) text.toList = true :=
    PathTemplate.accepts_literals.mpr rfl
  have htext : ("pkg/api" ++ "/" ++ version ++ "/" ++ (stem ++ "_gen.go")).toList = "pkg/api/".toList ++
      (version.toList ++ ("/".toList ++ (stem.toList ++ "_gen.go".toList))) := by
    simp only [String.toList_append, List.append_assoc]
    rfl
  rw [hparts, htext]
  refine PathTemplate.accepts_append.mpr ⟨_, _, rfl, hliterals _, ?_⟩
  refine PathTemplate.accepts_append.mpr ⟨_, _, rfl, hhole hversion, ?_⟩
  refine PathTemplate.accepts_append.mpr ⟨_, _, rfl, hliterals _, ?_⟩
  exact PathTemplate.accepts_append.mpr ⟨_, _, rfl, hhole hstem, hliterals _⟩

/-- In front of what all generated names end in, the last segment of the template has something else. -/
def hasStem (parts : List Part) : Bool :=
  match parts.drop (parts.length - 8) with
  | [] => false
  | part :: rest => part != .literal '/' && rest == "_gen.go".toList.map .literal

theorem hasStem_defaultEmitters {e : Emitter} (he : e ∈ defaultEmitters) (hmode : e.mode = .overwrite)
    (hname : isGeneratedName e.path = true) : hasStem (parse e.path.toList).1 = true := by
  have hall : ∀ e ∈ defaultEmitters.map fun e => (e.mode, e.path),
      ¬(e.1 = .overwrite ∧ isGeneratedName e.2 = true) ∨ hasStem (parse e.2.toList).1 = true := by
    decide +kernel
  exact (hall _ (List.mem_map_of_mem he)).resolve_left fun hnot => hnot ⟨hmode, hname⟩

theorem last_of_hasStem {parts : List Part} (hstem : hasStem parts = true) {path name : String} {front : List String}
    (haccepts : accepts parts path.toList = true) (hlast : Path.segments path = front ++ [name]) :
    ∃ stem, stem ≠ "" ∧ name = stem ++ "_gen.go" := by
  rw [hasStem] at hstem
  split at hstem
  · cases hstem
  · rename_i part rest hparts
    rw [Bool.and_eq_true, bne_iff_ne, beq_iff_eq] at hstem
    rw [← List.take_append_drop (parts.length - 8) parts, hparts, hstem.2, ← List.singleton_append,
      PathTemplate.accepts_append] at haccepts
    obtain ⟨cs, rest, hpath, -, hrest⟩ := haccepts
    obtain ⟨ds, es, rfl, hpart, hsuffix⟩ := PathTemplate.accepts_append.mp hrest
    rw [PathTemplate.accepts_literals] at hsuffix
    obtain ⟨ds, d, rfl, hd⟩ := PathTemplate.exists_of_accepts hstem.1 hpart
    -- From that character on there is no slash, so it is all in the last segment.
    have hslash : '/' ∉ d :: "_gen.go".toList := by
      rw [List.mem_cons, not_or]
      exact ⟨Ne.symm hd, by decide⟩
    obtain ⟨others, last, -, hpieces⟩ := Path.pieces_append_of_slashless hslash (cs ++ ds)
    have htext : path.toList = (cs ++ ds) ++ d :: "_gen.go".toList := by
      rw [hpath, hsuffix]
      simp
    rw [Path.segments_eq, htext, hpieces, List.map_append, List.map_singleton] at hlast
    refine ⟨String.ofList (last ++ [d]), ?_, ?_⟩
    · rw [ne_eq, ← String.toList_inj, String.toList_ofList]
      simp
    · rw [← (List.append_singleton_inj.mp hlast).2, List.append_cons, String.ofList_append,
        String.ofList_toList]

/-! ### Stale files -/

section Stale

variable {t : Tree} {root : String} {report : Report} {owned : String → Bool} {path : String}

theorem mem_staleFiles (h : path ∈ staleFiles t root report owned) :
    (∃ directory ∈ generatedDirectories, path ∈ generatedBelow t root directory) ∧
      owned ("/".intercalate (Path.names path)) = true := by
  rcases mem_of_mem_sorted h with h | h
  · obtain ⟨hbelow, hstale⟩ := List.mem_filter.mp h
    rw [Bool.and_eq_true] at hstale
    exact ⟨List.mem_flatMap.mp hbelow, hstale.2⟩
  · cases h

/-- A path is stale unless it is on record, at least as another path with the same components. -/
theorem exists_staleFiles {directory : String} (hdirectory : directory ∈ generatedDirectories)
    (hbelow : path ∈ generatedBelow t root directory)
    (hreport : ∀ p ∈ report.produced, Path.components p ≠ Path.components path)
    (howned : owned ("/".intercalate (Path.names path)) = true) :
    ∃ x ∈ staleFiles t root report owned, Path.components x = Path.components path := by
  refine exists_sorted (List.mem_filter.mpr ⟨List.mem_flatMap.mpr ⟨directory, hdirectory, hbelow⟩, ?_⟩)
  rw [howned, Bool.and_true, Bool.not_eq_true', List.any_eq_false]
  intro p hp hsame
  exact hreport p hp (beq_iff_eq.mp hsame).symm

theorem last_staleFiles (howned : ownedPaths defaultEmitters = .ok owned) (h : path ∈ staleFiles t root report owned) :
    Path.isAbsolute path = false ∧ ∃ front stem, stem ≠ "" ∧ Path.segments path = front ++ [stem ++ "_gen.go"] := by
  obtain ⟨⟨directory, hdirectory, hbelow⟩, hmatch⟩ := mem_staleFiles h
  obtain ⟨hrelative, front, stem, hsegments⟩ := last_generatedBelow hdirectory hbelow
  refine ⟨hrelative, front, stem, ?_, hsegments⟩
  obtain ⟨e, he, ⟨hmode, hname⟩, haccepts⟩ := (ownedPaths_ok howned).mp hmatch
  -- The template is matched against the names alone, the last of which is that of the file.
  obtain ⟨others, hnames⟩ := List.getLast?_eq_some_iff.mp (Path.getLast?_names hsegments (isName_generated stem))
  have hmatched : Path.segments ("/".intercalate (Path.names path)) = others ++ [stem ++ "_gen.go"] := by
    have hslashless : ∀ n ∈ Path.names path, '/' ∉ n.toList := fun n hn => Path.slash_not_mem_names hn
    rw [← hnames]
    cases hcons : Path.names path with
    | nil =>
        rw [hcons] at hnames
        exact absurd hnames.symm (by simp)
    | cons first rest =>
        rw [Path.segments_intercalate, Path.flatMap_segments_of_slashless (hcons ▸ hslashless)]
  obtain ⟨stem', hstem, heq⟩ := last_of_hasStem (hasStem_defaultEmitters he hmode hname) haccepts hmatched
  rw [← String.toList_inj, String.toList_append, String.toList_append, List.append_cancel_right_eq,
    String.toList_inj] at heq
  rw [heq]
  exact hstem

theorem pruneStale_ok {emitters : List Emitter} {dryRun : Bool} {paths : List String}
    (h : (pruneStale t root report emitters dryRun).2 = .ok paths) :
    (pruneStale t root report emitters dryRun).1 = (if dryRun then t else deleteFiles t root paths) ∧
      ∃ owned, ownedPaths emitters = .ok owned ∧ paths = staleFiles t root report owned := by
  rw [pruneStale] at h ⊢
  split at h
  · cases h
  · rename_i owned howned
    cases h
    exact ⟨rfl, owned, howned, rfl⟩

end Stale

end ApiForge
