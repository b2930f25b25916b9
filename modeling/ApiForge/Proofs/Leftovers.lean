import ApiForge.Proofs.Synchronization

/-! Pruning is exact. What is deleted are the generated files left over from earlier runs: those below the directories
of generated files that an emitter could have written under their names and that are not on record. Each of them is
found once, whatever the root is called, nothing else is touched, and nothing is left to prune. -/

namespace ApiForge

open Files (Content Entry Place Report Tree)
open PathTemplate (Part accepts parse)

/-! ### Templates -/

/-- The path comes about when each placeholder gets a value of one or more characters that are no slashes. -/
inductive PathTemplate.Matches : List Part → List Char → Prop where
  | nil : Matches [] []
  | literal {parts : List Part} {cs : List Char} (c : Char) (rest : Matches parts cs) :
      Matches (.literal c :: parts) (c :: cs)
  | hole {parts : List Part} {value cs : List Char} (key : String) (hvalue : value ≠ []) (hslash : '/' ∉ value)
      (rest : Matches parts cs) : Matches (.hole key :: parts) (value ++ cs)

theorem PathTemplate.accepts_iff_matches {parts : List Part} {cs : List Char} :
    accepts parts cs = true ↔ Matches parts cs := by
  constructor
  · intro h
    induction parts generalizing cs with
    | nil =>
        rw [accepts_nil_iff.mp h]
        exact .nil
    | cons part parts ih =>
        cases part with
        | literal c =>
            obtain ⟨rest, rfl, hrest⟩ := accepts_literal_iff.mp h
            exact .literal c (ih hrest)
        | hole key =>
            obtain ⟨value, rest, hvalue, hslash, rfl, hrest⟩ := accepts_hole_iff.mp h
            exact .hole key hvalue hslash (ih hrest)
  · intro h
    induction h with
    | nil => rfl
    | literal c _ ih => exact accepts_literal_iff.mpr ⟨_, rfl, ih⟩
    | hole key hvalue hslash _ ih => exact accepts_hole_iff.mpr ⟨_, _, hvalue, hslash, rfl, ih⟩

/-- The templates of emitters by which files are pruned have no brace that is not closed. -/
theorem exists_ownedPaths {emitters : List Emitter} (h : ∀ e ∈ emitters, e.mode = .overwrite →
    isGeneratedName e.path = true → (parse e.path.toList).2 = true) : ∃ owned, ownedPaths emitters = .ok owned := by
  have hmatcher : ∀ e ∈ emitters.filter (fun e => e.mode = .overwrite && isGeneratedName e.path),
      ∃ matches?, PathTemplate.matcher e.path = .ok matches? ∧ True := by
    intro e he
    obtain ⟨he, hkind⟩ := List.mem_filter.mp he
    rw [Bool.and_eq_true, decide_eq_true_eq] at hkind
    refine ⟨fun path => accepts (parse e.path.toList).1 path.toList, ?_, trivial⟩
    rw [PathTemplate.matcher]
    exact if_pos (h e he hkind.1 hkind.2)
  obtain ⟨matchers, hmatchers, -⟩ := exists_mapM hmatcher
  rw [ownedPaths, hmatchers]
  exact ⟨_, rfl⟩

/-! ### Paths in order -/

namespace Path

instance : Std.TransCmp Component.compare :=
  inferInstanceAs (Std.TransCmp (compareLex (compareOn fun c : Component => c.key.1)
    (compareOn fun c : Component => c.key.2)))

instance : Std.TransCmp Path.compare where
  eq_swap {a b} := (Std.OrientedCmp.eq_swap : List.compareLex Component.compare (components a) (components b) =
    (List.compareLex Component.compare (components b) (components a)).swap)
  isLE_trans {a _ c} hab hbc :=
    (Std.TransCmp.isLE_trans hab hbc : (List.compareLex Component.compare (components a) (components c)).isLE)

theorem intercalate_pieces (cs : List Char) : ['/'].intercalate (pieces cs) = cs := by
  induction cs with
  | nil => rfl
  | cons c cs ih =>
      rw [PathTemplate.pieces_cons]
      split
      · rename_i hc
        rw [pieces, List.intercalate_cons_cons, ← pieces, ih, hc]
        rfl
      · rw [pieces] at ih
        cases hothers : (cut cs).2 with
        | nil =>
            rw [hothers, List.intercalate_singleton] at ih
            rw [List.intercalate_singleton, ih]
        | cons second others =>
            rw [hothers, List.intercalate_cons_cons] at ih
            rw [List.intercalate_cons_cons, List.cons_append, List.cons_append, ih]

theorem intercalate_segments (path : String) : "/".intercalate (segments path) = path := by
  rw [← String.toList_inj, String.toList_intercalate, segments_eq, List.map_map]
  simp only [Function.comp_def, String.toList_ofList, List.map_id']
  exact intercalate_pieces path.toList

/-- The path is the text that its names make. -/
def Spelled (path : String) : Prop :=
  path = "/".intercalate (names path)

theorem Spelled.segments_eq {path : String} (h : Spelled path) (hne : names path ≠ []) : segments path = names path :=
  (congrArg segments h).trans (segments_intercalate_names hne)

theorem Spelled.descends {path : String} (h : Spelled path) (hne : names path ≠ []) : Descends path := by
  refine (descends_of_names fun s hs => ?_).1
  rw [h.segments_eq hne] at hs
  exact isName_of_mem_names hs

/-- A path below one of the directories of generated files is spelled by its names, as the directories are. -/
theorem spelled_below {directory : String} (hdirectory : directory ∈ generatedDirectories) {rest : List String}
    (hslash : ∀ n ∈ rest, '/' ∉ n.toList) :
    "/".intercalate (directory :: rest) = "/".intercalate (names directory ++ rest) := by
  have hall : ∀ d ∈ generatedDirectories, segments d = names d := by decide
  rw [← hall directory hdirectory, ← intercalate_segments ("/".intercalate (directory :: rest)), segments_intercalate,
    List.flatMap_cons, flatMap_segments_of_slashless hslash]

end Path

/-- The paths are in ascending order, and no two of them have the same components. -/
def Ascending (paths : List String) : Prop :=
  paths.Pairwise fun a b => Path.compare a b = .lt

theorem Ascending.insertPath {paths : List String} (h : Ascending paths) (path : String) :
    Ascending (insertPath path paths) := by
  induction paths with
  | nil => exact List.pairwise_singleton _ path
  | cons p paths ih =>
      obtain ⟨hp, hpaths⟩ := List.pairwise_cons.mp h
      rw [ApiForge.insertPath]
      split
      · rename_i hlt
        refine List.pairwise_cons.mpr ⟨?_, h⟩
        rw [List.forall_mem_cons]
        exact ⟨hlt, fun x hx => Std.TransCmp.lt_trans hlt (hp x hx)⟩
      · exact h
      · rename_i hgt
        refine List.pairwise_cons.mpr ⟨fun x hx => ?_, ih hpaths⟩
        rcases mem_of_mem_insertPath hx with rfl | hx
        · exact Std.OrientedCmp.gt_iff_lt.mp hgt
        · exact hp x hx

theorem ascending_staleFiles (t : Tree) (root : String) (report : Report) (owned : String → Bool) :
    Ascending (staleFiles t root report owned) := by
  have hsorted (paths sorted : List String) (h : Ascending sorted) :
      Ascending (paths.foldl (fun sorted path => insertPath path sorted) sorted) := by
    induction paths generalizing sorted with
    | nil => exact h
    | cons path paths ih => exact ih _ (h.insertPath path)
  exact hsorted _ [] List.Pairwise.nil

/-! ### Generated files -/

/-- Everything stands at one place and in a directory, and has a name. -/
structure Files.Tree.Orderly (t : Tree) : Prop where
  connected : t.Connected
  named : t.Named
  nodup : (t.entries.map Prod.fst).Nodup

/-- A file below one of the directories of generated files that is named like one. -/
structure GeneratedFile (t : Tree) (root path : String) : Prop where
  spelled : Path.Spelled path
  below : ∃ directory ∈ generatedDirectories, Path.names directory <+: Path.names path
  named : (Path.names path).getLast?.any isGeneratedName = true
  file : ∃ content, t.read (Path.join root path) = .ok content

/-- A generated file that an emitter could have written and that is not on record, by its path as seen from the root. -/
structure Leftover (t : Tree) (root : String) (report : Report) (emitters : List Emitter) (path : String) : Prop
    extends GeneratedFile t root path where
  owned : ∃ e ∈ emitters, (e.mode = .overwrite ∧ isGeneratedName e.path = true) ∧
    PathTemplate.Matches (parse e.path.toList).1 path.toList
  unproduced : ∀ x ∈ report.produced, Path.same path x = false

theorem Files.Tree.Orderly.get?_of_mem {t : Tree} (h : t.Orderly) {q : Place} {entry : Entry}
    (hentry : (q, entry) ∈ t.entries) (hne : q ≠ []) : t.get? q = some entry := by
  obtain ⟨e, he⟩ := Option.isSome_iff_exists.mp
    (List.find?_isSome.mpr ⟨(q, entry), hentry, decide_eq_true rfl⟩ : (t.entries.find? (·.1 = q)).isSome = true)
  have hplace : e.1 = q := by simpa using List.find?_some he
  have hsame : e = (q, entry) := List.inj_on_of_nodup_map h.nodup (List.mem_of_find?_eq_some he) hentry hplace
  rw [Tree.get?, if_neg hne, he, hsame]
  rfl

/-- A way that leads to an entry below a root leads through it. -/
theorem Files.Tree.reaches_of_locate {t : Tree} {root path : String} (hpath : Path.Descends path) {q : Place}
    {entry : Entry} (h : t.locate (Path.join root path) = .ok (q, entry)) : t.Reaches root := by
  obtain ⟨front, name, hsegments, hname⟩ := hpath.last
  have hjoin : Path.segments (Path.join root path) = (Path.joint root ++ front) ++ [name] := by
    rw [Path.segments_join root hpath.relative, hsegments, List.append_assoc]
  obtain ⟨place, hplace, -⟩ := (locate_name_iff hjoin hname).mp h
  exact reaches_of_follow hpath.relative hplace

namespace GeneratedFile

variable {t : Tree} {root path : String}

theorem names_ne_nil (h : GeneratedFile t root path) : Path.names path ≠ [] := by
  intro hnil
  have hnamed := h.named
  rw [hnil] at hnamed
  cases hnamed

theorem descends (h : GeneratedFile t root path) : Path.Descends path :=
  h.spelled.descends h.names_ne_nil

theorem eq_of_components (h : GeneratedFile t root path) {path' : String} (h' : GeneratedFile t root path')
    (hcomponents : Path.components path = Path.components path') : path = path' := by
  rw [h.spelled, h'.spelled, Path.names, hcomponents, ← Path.names]

/-- The walk through the directories finds the generated files. -/
theorem iff_mem_generatedBelow (ht : t.Orderly) :
    GeneratedFile t root path ↔ ∃ directory ∈ generatedDirectories, path ∈ generatedBelow t root directory := by
  constructor
  · intro h
    obtain ⟨directory, hdirectory, rest, hrest⟩ := h.below
    obtain ⟨content, hread⟩ := h.file
    have hroot := Tree.reaches_of_read h.descends.relative hread
    have hlast : rest.getLast?.any isGeneratedName = true := last_below hdirectory (hrest ▸ h.named)
    have hslash : ∀ n ∈ rest, '/' ∉ n.toList := fun n hn =>
      Path.slash_not_mem_names (hrest ▸ List.mem_append_right _ hn)
    have hspelled : "/".intercalate (directory :: rest) = path := by
      rw [Path.spelled_below hdirectory hslash, hrest]
      exact h.spelled.symm
    have hbelow := mem_generatedBelow_of_read ht.connected hroot h.descends hdirectory hrest.symm hlast hread
    exact ⟨directory, hdirectory, hspelled ▸ hbelow⟩
  · rintro ⟨directory, hdirectory, hbelow⟩
    obtain ⟨place, hlocate, -⟩ := mem_generatedBelow_iff.mp hbelow
    have hroot := Tree.reaches_of_locate (descends_generatedDirectories hdirectory) hlocate
    obtain ⟨hdescends, rest, content, hpath, hnames, hlast, hentry⟩ :=
      exists_below_of_mem_generatedBelow ht.named hroot hdirectory hbelow
    have hget := ht.get?_of_mem hentry (List.append_ne_nil_of_right_ne_nil _ hdescends.names_ne_nil)
    have hslash : ∀ n ∈ rest, '/' ∉ n.toList := fun n hn =>
      Path.slash_not_mem_names (hnames ▸ List.mem_append_right _ hn)
    refine ⟨?_, ⟨directory, hdirectory, hnames ▸ List.prefix_append _ rest⟩, ?_, content, ?_⟩
    · rw [Path.Spelled, hnames, ← Path.spelled_below hdirectory hslash]
      exact hpath
    · rw [hnames, List.getLast?_append_of_ne_nil]
      · exact hlast
      · rintro rfl
        cases hlast
    · exact (Tree.read_descends hroot hdescends).mpr ⟨ht.connected.through (by rw [hget]; rintro ⟨⟩), hget⟩

end GeneratedFile

theorem mem_staleFiles_iff {t : Tree} (ht : t.Orderly) {emitters : List Emitter} {owned : String → Bool}
    (howned : ownedPaths emitters = .ok owned) {root path : String} {report : Report} :
    path ∈ staleFiles t root report owned ↔ Leftover t root report emitters path := by
  have howner {path : String} (h : GeneratedFile t root path) : owned ("/".intercalate (Path.names path)) = true ↔
      ∃ e ∈ emitters, (e.mode = .overwrite ∧ isGeneratedName e.path = true) ∧
        PathTemplate.Matches (parse e.path.toList).1 path.toList := by
    rw [← h.spelled, ownedPaths_ok howned]
    simp only [PathTemplate.accepts_iff_matches]
  constructor
  · intro h
    obtain ⟨hbelow, hmatches⟩ := mem_staleFiles h
    have hfile := (GeneratedFile.iff_mem_generatedBelow ht).mpr hbelow
    exact ⟨hfile, (howner hfile).mp hmatches, unproduced_of_mem_staleFiles h⟩
  · intro h
    have hfile := h.toGeneratedFile
    obtain ⟨directory, hdirectory, hbelow⟩ := (GeneratedFile.iff_mem_generatedBelow ht).mp hfile
    have hreport : ∀ x ∈ report.produced, Path.components x ≠ Path.components path := by
      intro x hx hcomponents
      have hsame := Path.same_iff_components.mpr hcomponents.symm
      exact Bool.false_ne_true ((h.unproduced x hx).symm.trans hsame)
    obtain ⟨x, hx, hcomponents⟩ := exists_staleFiles hdirectory hbelow hreport ((howner hfile).mpr h.owned)
    have hxfile := (GeneratedFile.iff_mem_generatedBelow ht).mpr (mem_staleFiles hx).1
    rwa [← hxfile.eq_of_components hfile hcomponents]

/-! ### Deletion -/

section Deletion

variable {t : Tree} {root : String} {paths : List String}

/-- The files that the paths find are gone, and everything else is as it was. -/
theorem get?_deleteFiles_eq (hfiles : ∀ path ∈ paths, ∃ content, t.read (Path.join root path) = .ok content)
    (q : Place) : (deleteFiles t root paths).get? q =
      if ∃ path ∈ paths, t.placeOf (Path.join root path) = q then none else t.get? q := by
  split
  · rename_i hmem
    obtain ⟨path, hpath, rfl⟩ := hmem
    obtain ⟨content, hread⟩ := hfiles path hpath
    obtain ⟨q, hlocate⟩ := Tree.read_ok_iff.mp hread
    rw [← (Tree.locate_file hlocate).1]
    exact get?_deleteFiles hpath hlocate
  · rename_i hnot
    have hkeeps := deleteFiles_keeps (t := t) root paths
    rcases deleteFiles_lost (t := t) root paths q with hsame | hnone
    · exact hsame
    · cases hget : t.get? q with
      | none => exact hnone
      | some entry =>
          cases entry with
          | directory => exact hkeeps.directories q hget
          | file content => exact hkeeps.files q content hget hnot

theorem entries_deleteFiles (t : Tree) (root : String) (paths : List String) :
    (deleteFiles t root paths).entries.Sublist t.entries := by
  induction paths generalizing t with
  | nil => exact List.Sublist.refl _
  | cons path paths ih =>
      refine (ih (deleteFile t (Path.join root path))).trans ?_
      rw [deleteFile]
      split
      · exact List.filter_sublist
      · exact List.Sublist.refl _

theorem Files.Tree.Orderly.deleteFiles (h : t.Orderly) (root : String) (paths : List String) :
    (deleteFiles t root paths).Orderly := by
  have hkeeps := deleteFiles_keeps (t := t) root paths
  have hthere {q : Place} (hq : (ApiForge.deleteFiles t root paths).get? q ≠ none) : t.get? q ≠ none := by
    rcases deleteFiles_lost (t := t) root paths q with hsame | hnone
    · rwa [hsame] at hq
    · exact absurd hnone hq
  refine ⟨⟨fun q hq => ?_, ?_⟩, fun q hq => h.named q (hthere hq), ?_⟩
  · exact hkeeps.directories _ (h.connected.parents q (hthere hq))
  · rw [hkeeps.workingDirectory]
    exact hkeeps.directories _ h.connected.workingDirectory
  · exact h.nodup.sublist ((entries_deleteFiles t root paths).map Prod.fst)

/-- Once the stale files are deleted, there are none. -/
theorem staleFiles_deleteFiles (ht : t.Orderly) {emitters : List Emitter} {owned : String → Bool}
    (howned : ownedPaths emitters = .ok owned) (report : Report) :
    staleFiles (deleteFiles t root (staleFiles t root report owned)) root report owned = [] := by
  rw [List.eq_nil_iff_forall_not_mem]
  intro path hpath
  have hleftover := (mem_staleFiles_iff (ht.deleteFiles root _) howned).mp hpath
  obtain ⟨content, hread⟩ := hleftover.file
  obtain ⟨q, hlocate⟩ := Tree.read_ok_iff.mp hread
  have hfile := (Tree.locate_file hlocate).2
  -- The file was there before, so it was stale then.
  have hback := (deleteFiles_lost (t := t) root (staleFiles t root report owned)).keepsAll
    (deleteFiles_keeps root (staleFiles t root report owned)).workingDirectory
  have hbefore := hback.locate_file hlocate (hback.files q content hfile not_false)
  have hstale : path ∈ staleFiles t root report owned := (mem_staleFiles_iff ht howned).mpr
    { hleftover with file := ⟨content, Tree.read_ok_iff.mpr ⟨q, hbefore⟩⟩ }
  rw [get?_deleteFiles hstale hbefore] at hfile
  cases hfile

end Deletion

/-- Pruning finds exactly the files that are left over, each once and in order. It deletes these and nothing else, or
nothing at all in a dry run, and if it is done again it finds none. -/
theorem pruning_exact {t : Tree} (ht : t.Orderly) {emitters : List Emitter}
    (htemplates : ∀ e ∈ emitters, e.mode = .overwrite → isGeneratedName e.path = true →
      (parse e.path.toList).2 = true) (root : String) (report : Report) :
    ∃ paths t', (∀ path, path ∈ paths ↔ Leftover t root report emitters path) ∧ Ascending paths ∧
      pruneStale t root report emitters true = (t, .ok paths) ∧
      pruneStale t root report emitters false = (t', .ok paths) ∧
      t'.workingDirectory = t.workingDirectory ∧
      (∀ q, t'.get? q = if ∃ path ∈ paths, t.placeOf (Path.join root path) = q then none else t.get? q) ∧
      ∀ dryRun, pruneStale t' root report emitters dryRun = (t', .ok []) := by
  obtain ⟨owned, howned⟩ := exists_ownedPaths htemplates
  have hmem (path : String) : path ∈ staleFiles t root report owned ↔ Leftover t root report emitters path :=
    mem_staleFiles_iff ht howned
  have hprune (tree : Tree) (dryRun : Bool) : pruneStale tree root report emitters dryRun =
      (if dryRun then tree else deleteFiles tree root (staleFiles tree root report owned),
        .ok (staleFiles tree root report owned)) := by
    rw [pruneStale, howned]
    rfl
  refine ⟨staleFiles t root report owned, deleteFiles t root (staleFiles t root report owned), hmem,
    ascending_staleFiles t root report owned, hprune t true, hprune t false,
    (deleteFiles_keeps root _).workingDirectory, get?_deleteFiles_eq fun path hpath => ((hmem path).mp hpath).file,
    fun dryRun => ?_⟩
  rw [hprune, staleFiles_deleteFiles ht howned]
  cases dryRun <;> rfl

/-- The file of a group of old is left over in the project, which may be called by a dot, and goes. -/
theorem charts_pruned : ∃ t', Leftover Workspace.chartsTree "." {} defaultEmitters "pkg/api/v0/old_gen.go" ∧
    pruneStale Workspace.chartsTree "." {} defaultEmitters false = (t', .ok ["pkg/api/v0/old_gen.go"]) ∧
      t'.get? ["pkg", "api", "v0", "old_gen.go"] = none ∧
        pruneStale t' "." {} defaultEmitters false = (t', .ok []) := by
  have horderly : Workspace.chartsTree.Orderly := ⟨by decide +kernel, by decide +kernel, by decide +kernel⟩
  have htemplates : ∀ e ∈ defaultEmitters, e.mode = .overwrite → isGeneratedName e.path = true →
      (parse e.path.toList).2 = true := fun e he _ _ => (defaultEmitters_keys he).1
  obtain ⟨paths, t', hpaths, -, hdry, hpruned, -, hget, hagain⟩ := pruning_exact horderly htemplates "." {}
  have hfound : (pruneStale Workspace.chartsTree "." {} defaultEmitters true).2.toOption =
      some ["pkg/api/v0/old_gen.go"] := by
    decide +kernel
  obtain rfl : paths = ["pkg/api/v0/old_gen.go"] := by
    rw [hdry] at hfound
    exact Option.some.inj hfound
  have hold := List.mem_singleton_self "pkg/api/v0/old_gen.go"
  refine ⟨t', (hpaths _).mp hold, hpruned, ?_, hagain false⟩
  rw [hget]
  exact if_pos ⟨_, hold, by decide +kernel⟩

end ApiForge
