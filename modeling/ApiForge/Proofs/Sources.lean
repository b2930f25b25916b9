import ApiForge.Proofs.Pruning
import ApiForge.Workspace

/-! What becomes of the sources. They stand in directories where generated files are written and pruned, and only their
names keep them apart from those; a group whose name ends in the word `gen` has a source with the name of a generated
file, and such a source can be lost. -/

namespace ApiForge

open Files (Content Entry Place Report Session Tree Writer)

/-! ### Paths of sources -/

theorem mem_selected {stages : List Stage} {e : Emitter} :
    e ∈ (Pipeline.builtIn.only stages).emitters ↔ e ∈ defaultEmitters ∧ (stages = [] ∨ e.stage ∈ stages) := by
  rw [Pipeline.only]
  split
  · rename_i hall
    rw [Pipeline.builtIn, Pipeline.ofEmitters, mem_sortBy]
    simp [hall]
  · rename_i hsome
    rw [List.mem_filter, Pipeline.builtIn, Pipeline.ofEmitters, mem_sortBy, List.contains_iff_mem]
    simp [hsome]

/-- The path of a source, as seen from the root of the project. -/
def sourceBelow (version file : String) : String :=
  "/".intercalate ["pkg", "api", version, file]

theorem sourceBelow_eq (version file : String) :
    sourceBelow version file = "pkg" ++ "/" ++ "api" ++ "/" ++ version ++ "/" ++ file := by
  rw [sourceBelow]
  simp only [String.intercalate_cons_cons, String.intercalate_singleton, String.append_assoc]

section Paths

variable {version file : String}

theorem segments_sourceBelow (hversion : '/' ∉ version.toList) (hfile : '/' ∉ file.toList) :
    Path.segments (sourceBelow version file) = ["pkg", "api", version, file] := by
  rw [sourceBelow, Path.segments_intercalate, Path.flatMap_segments_of_slashless]
  simp only [List.forall_mem_cons]
  exact ⟨by decide, by decide, hversion, hfile, fun _ hmem => absurd hmem List.not_mem_nil⟩

theorem relative_sourceBelow (version file : String) : Path.isAbsolute (sourceBelow version file) = false := by
  rw [sourceBelow_eq, String.append_assoc, String.append_assoc, String.append_assoc, String.append_assoc,
    String.append_assoc, Path.isAbsolute_append (by decide)]
  decide

theorem isAbsolute_of_slashless {path : String} (h : '/' ∉ path.toList) : Path.isAbsolute path = false := by
  rw [Path.isAbsolute, beq_eq_false_iff_ne]
  exact fun hhead => h (List.mem_of_head? hhead)

theorem slashless_sourceFile {group : String} (h : '/' ∉ group.toList) :
    '/' ∉ (Text.snakeCase group ++ ".go").toList := by
  rw [String.toList_append, List.mem_append, not_or]
  exact ⟨Text.slashless_snakeCase h, by decide⟩

theorem sourcePath_of_relative {group : String} (hversion : Version.isValid version = true)
    (hfile : Path.isAbsolute (Text.snakeCase group ++ ".go") = false) (root : String) :
    sourcePath root version group = Path.join root (sourceBelow version (Text.snakeCase group ++ ".go")) := by
  obtain ⟨hslash, hchar⟩ := Version.segment_of_isValid hversion
  have hne : version ≠ "" := by
    rintro rfl
    cases hchar
  have hlast : version.toList.getLast? ≠ some '/' := fun hlast => hslash (List.mem_of_getLast? hlast)
  have happend (front : String) : front ++ "/" ++ version ≠ "" ∧
      (front ++ "/" ++ version).toList.getLast? ≠ some '/' := by
    constructor
    · intro hempty
      exact hne (String.append_eq_empty_iff.mp hempty).2
    · rw [String.toList_append, List.getLast?_append]
      cases hlast? : version.toList.getLast? with
      | none => exact absurd (String.toList_eq_nil_iff.mp (List.getLast?_eq_none_iff.mp hlast?)) hne
      | some c =>
          rw [hlast?] at hlast
          exact hlast
  have hrelative := isAbsolute_of_slashless hslash
  calc sourcePath root version group
      = Path.join (Path.join (Path.join root ("pkg" ++ "/" ++ "api")) version) (Text.snakeCase group ++ ".go") := by
        rw [sourcePath, Path.join_join root (by decide) (by decide) (by decide)]
    _ = Path.join (Path.join root ("pkg" ++ "/" ++ "api" ++ "/" ++ version)) (Text.snakeCase group ++ ".go") := by
        rw [Path.join_join root (by decide) (by decide) hrelative]
    _ = Path.join root (sourceBelow version (Text.snakeCase group ++ ".go")) := by
        rw [Path.join_join root (happend _).1 (happend _).2 hfile, sourceBelow_eq]

theorem sourcePath_eq {group : String} (hversion : Version.isValid version = true) (hgroup : '/' ∉ group.toList)
    (root : String) : sourcePath root version group =
      Path.join root (sourceBelow version (Text.snakeCase group ++ ".go")) :=
  sourcePath_of_relative hversion (isAbsolute_of_slashless (slashless_sourceFile hgroup)) root

/-- The root can be put in front of the path of a source afterwards. -/
theorem join_sourcePath (hversion : Version.isValid version = true) (root group : String) :
    Path.join root (sourcePath "" version group) = sourcePath root version group := by
  cases hfile : Path.isAbsolute (Text.snakeCase group ++ ".go") with
  | false =>
      have hempty (path : String) : Path.join "" path = path := if_pos (by simp)
      rw [sourcePath_of_relative hversion hfile, sourcePath_of_relative hversion hfile, hempty]
  | true =>
      -- The path of the source is the same from everywhere.
      have habsolute (base : String) : Path.join base (Text.snakeCase group ++ ".go") = Text.snakeCase group ++ ".go" :=
        if_pos (by rw [hfile, Bool.true_or])
      rw [sourcePath, sourcePath, habsolute, habsolute, habsolute]

theorem isName_sourceFile (stem : String) : Path.IsName (stem ++ ".go") := by
  rw [← String.ofList_toList (s := stem ++ ".go"), String.toList_append]
  exact PathTemplate.isName_of_mem (List.mem_append_right _ (by decide : 'g' ∈ ".go".toList)) (by decide)

/-- A source is this far below the root of the project. -/
theorem placeOf_sourcePath {group : String} (hversion : Version.isValid version = true) (hgroup : '/' ∉ group.toList)
    (t : Tree) (root : String) : t.placeOf (sourcePath root version group) =
      t.placeOf root ++ ["pkg", "api", version, Text.snakeCase group ++ ".go"] := by
  have hsegments := segments_sourceBelow (Version.segment_of_isValid hversion).1 (slashless_sourceFile hgroup)
  calc t.placeOf (sourcePath root version group)
      = Path.walk (t.placeOf root) (Path.segments (sourceBelow version (Text.snakeCase group ++ ".go"))) := by
        rw [sourcePath_eq hversion hgroup]
        exact Path.placeFrom_join _ root (relative_sourceBelow _ _)
    _ = t.placeOf root ++ ["pkg", "api", version, Text.snakeCase group ++ ".go"] := by
        rw [hsegments]
        exact Path.walk_names (isName_beside hversion (isName_sourceFile _)) _

/-- A source that can be read is among the files below the directory of the sources, and is a candidate for deletion
if its name ends as generated names do. -/
theorem source_generatedBelow {t : Tree} {root group stem : String} {content : Content}
    (hversion : Version.isValid version = true) (hgroup : '/' ∉ group.toList)
    (hname : Text.snakeCase group ++ ".go" = stem ++ "_gen.go")
    (hread : t.read (sourcePath root version group) = .ok content) :
    sourceBelow version (stem ++ "_gen.go") ∈ generatedBelow t root "pkg/api" := by
  have hpath := sourcePath_eq hversion hgroup root
  have hslash := slashless_sourceFile hgroup
  rw [hname] at hpath hslash
  rw [hpath] at hread
  have hbelow := relative_sourceBelow version (stem ++ "_gen.go")
  obtain ⟨q, hlocate⟩ := Tree.read_ok_iff.mp hread
  obtain ⟨front, file, place, hsegments, -, hfollow, rfl, hfile⟩ := Tree.locate_file_iff.mp hlocate
  have hfront : Path.joint root ++ ["pkg", "api", version] ++ [stem ++ "_gen.go"] = front ++ [file] := by
    rw [← hsegments, Path.segments_join root hbelow,
      segments_sourceBelow (Version.segment_of_isValid hversion).1 hslash, List.append_assoc]
    rfl
  obtain ⟨hfront, hlast⟩ := List.append_singleton_inj.mp hfront
  have horigin : t.origin (Path.join root (sourceBelow version (stem ++ "_gen.go"))) =
      t.origin (Path.join root "pkg/api") := by
    rw [Tree.origin, Tree.origin, Path.isAbsolute_join root hbelow, Path.isAbsolute_join root (by decide)]
  -- The directory of the version is one below that of all sources.
  rw [← hfront, horigin, List.append_cons _ "pkg", List.append_cons _ "api", Tree.follow_append_iff] at hfollow
  obtain ⟨sources, hsources, hfollow⟩ := hfollow
  obtain ⟨rfl, -⟩ := (Tree.follow_name_iff (isName_version hversion)).mp hfollow
  rw [mem_generatedBelow_iff]
  have hroot : Path.segments (Path.join root "pkg/api") = Path.joint root ++ ["pkg"] ++ ["api"] := by
    rw [Path.segments_join root (by decide), List.append_assoc]
    rfl
  have hne : Path.join root "pkg/api" ≠ "" :=
    (Tree.splitPath_of_name hroot (Path.isName_iff.mpr (by decide))).1
  refine ⟨sources, Tree.locate_directory_iff.mpr ⟨hne, hroot ▸ hsources⟩,
    ([version, stem ++ "_gen.go"], content), ?_, ?_, ?_⟩
  · apply Tree.mem_filesBelow
    rw [hlast, List.append_cons]
    exact hfile
  · exact isGeneratedName_iff.mpr ⟨stem, rfl⟩
  · rw [sourceBelow]
    simp only [String.intercalate_cons_cons, String.intercalate_singleton]
    rw [← String.append_assoc, ← String.append_assoc]
    rfl

/-- A file that is named like one generated for a group is owned. -/
theorem owned_sourceBelow {owned : String → Bool} {stem : String} (howned : ownedPaths defaultEmitters = .ok owned)
    (hversion : Version.isValid version = true) (hstem : stem ≠ "") (hslash : '/' ∉ stem.toList) :
    owned ("/".intercalate (Path.names (sourceBelow version (stem ++ "_gen.go")))) = true := by
  obtain ⟨hversionSlash, hchar⟩ := Version.segment_of_isValid hversion
  have hfile : '/' ∉ (stem ++ "_gen.go").toList := by
    rw [String.toList_append, List.mem_append, not_or]
    exact ⟨hslash, by decide⟩
  have hsegments := segments_sourceBelow hversionSlash hfile
  have hne : version ≠ "" := by
    rintro rfl
    cases hchar
  rw [Path.names_eq, hsegments]
  · obtain ⟨e, he, hkind, htemplate⟩ := exists_objectsEmitter
    refine (ownedPaths_ok howned).mpr ⟨e, he, hkind, ?_⟩
    rw [← sourceBelow, sourceBelow_eq, htemplate]
    exact accepts_objectsTemplate ⟨hne, hversionSlash⟩ ⟨hstem, hslash⟩
  · rw [hsegments]
    exact isName_beside hversion (isName_generated stem)

end Paths

theorem GroupConfig.version_mem {c : Config} {g : GroupConfig} (hg : g ∈ c.groups) {v : String} (hv : v ∈ g.versions) :
    v ∈ c.versions := by
  obtain ⟨o, ho, hv⟩ := GroupConfig.mem_versions.mp hv
  rw [Config.versions, Version.sort, mem_sortBy, NameSet.mem_ofList]
  exact List.mem_flatMap.mpr ⟨o, List.mem_flatMap.mpr ⟨g, hg, ho⟩, hv⟩

/-- The source of a group at a version. -/
abbrev Project.source (p : Project) (g : GroupConfig) (version : String) : String :=
  sourcePath p.root version g.name

/-- A generated file has the path of the source. -/
def Config.Shadows (c : Config) (version : String) (g : GroupConfig) : Prop :=
  ∃ stem, Text.snakeCase g.name = stem ++ "_gen" ∧ c.Generates version stem

/-- The source has a name that a generated file could have. -/
def GroupConfig.LooksGenerated (g : GroupConfig) : Prop :=
  ∃ stem, stem ≠ "" ∧ Text.snakeCase g.name = stem ++ "_gen"

/-- A file that ends in what both kinds of names end in. -/
theorem sourceFile_eq_iff {name stem : String} : name ++ ".go" = stem ++ "_gen.go" ↔ name = stem ++ "_gen" := by
  have hsplit : stem ++ "_gen.go" = stem ++ "_gen" ++ ".go" := by
    rw [String.append_assoc]
    rfl
  rw [hsplit, ← String.toList_inj, String.toList_append, String.toList_append (s := stem ++ "_gen"),
    List.append_cancel_right_eq, String.toList_inj]

/-! ### Generation -/

namespace Workspace

/-- One of the paths, as seen from the root of the project, leads to the place of the file. -/
def LedTo (t : Tree) (p : Project) (paths : List String) (file : String) : Prop :=
  ∃ path ∈ paths, t.placeOf (Path.join p.root path) = t.placeOf file

/-- The file holds what one of the built-in emitters makes of the model. -/
def Overwritten (t : Tree) (p : Project) (m : Model) (file : String) : Prop :=
  ∃ e ∈ defaultEmitters, ∃ a ∈ e.made p m, t.read file = .ok a.content

def Gone (t : Tree) (file : String) : Prop :=
  ∀ content, t.read file ≠ .ok content

theorem gone_of_get? {t t' : Tree} {touched : Place → Prop} (hkeeps : t.Keeps touched t') {file : String} {q : Place}
    {content : Content} (hlocate : t.locate file = .ok (q, .file content)) (hnone : t'.get? q = none) :
    Gone t' file := by
  intro content' hread
  obtain ⟨q', hlocate'⟩ := Tree.read_ok_iff.mp hread
  obtain ⟨hplace, hfile⟩ := Tree.locate_file hlocate'
  rw [hkeeps.placeOf_eq, ← (Tree.locate_file hlocate).1] at hplace
  rw [hplace, hnone] at hfile
  cases hfile

/-- What a run of the selected emitters that succeeds has gone through. -/
structure Generated (t t' : Tree) (c : Config) (p : Project) (o : GenerateOptions) (m : Model) (report : Report) :
    Prop where
  modelled : model t c p = .ok m
  ran : Ran ⟨p.root, o.dryRun⟩ ((Pipeline.builtIn.only o.only).emitters.flatMap (·.made p m)) { tree := t } ⟨t', report⟩
  recorded : ∀ e ∈ (Pipeline.builtIn.only o.only).emitters,
    e.artifacts p m = .ok (e.made p m) ∧ Recorded ⟨p.root, o.dryRun⟩ (e.made p m) ⟨t', report⟩

theorem generate_ok {t t' : Tree} {c : Config} {p : Project} {o : GenerateOptions} {report : Report}
    (h : generate t c p o = (t', .ok report)) : ∃ m, Generated t t' c p o m report := by
  unfold generate at h
  split at h
  · cases h
  · rename_i m hmodel
    dsimp only at h
    have hran := Pipeline.run_ran (p := p) (m := m) (w := ⟨p.root, o.dryRun⟩)
      { Pipeline.builtIn.only o.only with keepGoing := o.keepGoing } { tree := t }
    cases hrun : Pipeline.run { Pipeline.builtIn.only o.only with keepGoing := o.keepGoing } p m
        ⟨p.root, o.dryRun⟩ { tree := t } with
    | mk s counted =>
        rw [hrun] at h hran
        cases counted with
        | error f => cases h
        | ok n =>
            have hrecorded := Pipeline.run_ok hrun
            cases h
            exact ⟨m, hmodel, hran, hrecorded⟩

namespace Generated

variable {t t' : Tree} {c : Config} {p : Project} {o : GenerateOptions} {m : Model} {report : Report}

theorem built (h : Generated t t' c p o m report) : c.Built p (inspector t) m :=
  buildModel_ok h.modelled

theorem placeOf_eq (h : Generated t t' c p o m report) (path : String) : t'.placeOf path = t.placeOf path :=
  h.ran.keeps.placeOf_eq path

/-- A file that was there before is kept or overwritten, and it is overwritten if a path on record leads to it. -/
theorem kept_or_overwritten (h : Generated t t' c p o m report) {file : String} {content : Content}
    (hread : t.read file = .ok content) :
    LedTo t p report.written file ∧ Overwritten t' p m file ∨
      ¬LedTo t p report.written file ∧ t'.read file = .ok content := by
  obtain ⟨q, hlocate⟩ := Tree.read_ok_iff.mp hread
  obtain ⟨hplace, hfile⟩ := Tree.locate_file hlocate
  have hafter {content' : Content} (hq : t'.get? q = some (.file content')) : t'.read file = .ok content' :=
    Tree.read_ok_iff.mpr ⟨q, h.ran.keeps.locate_file hlocate hq⟩
  by_cases hled : LedTo t p report.written file
  · obtain ⟨path, hpath, hleads⟩ := hled
    refine Or.inl ⟨⟨path, hpath, hleads⟩, ?_⟩
    rcases h.ran.written path hpath with hold | ⟨-, -, hsettled⟩
    · cases hold
    · obtain ⟨a, ha, -, -, hq⟩ := hsettled
      obtain ⟨e, he, ha⟩ := List.mem_flatMap.mp ha
      refine ⟨e, (mem_selected.mp he).1, a, ha, hafter ?_⟩
      rw [hplace, ← hleads, ← hq]
      exact congrArg _ (h.ran.placeOf_eq path).symm
  · refine Or.inr ⟨hled, hafter (h.ran.keeps.files q content hfile ?_)⟩
    rintro ⟨path, hpath, hleads⟩
    exact hled ⟨path, hpath, hleads.trans hplace⟩

theorem read_of_unled (h : Generated t t' c p o m report) {file : String} {content : Content}
    (hread : t.read file = .ok content) (hnot : ¬LedTo t p report.written file) : t'.read file = .ok content :=
  ((h.kept_or_overwritten hread).resolve_left fun hled => hnot hled.1).2

/-- The sources have been read. -/
theorem source_read (h : Generated t t' c p o m report) {g : GroupConfig} (hg : g ∈ c.groups) {v : String}
    (hv : v ∈ g.versions) : ∃ content, t.read (p.source g v) = .ok content := by
  obtain ⟨group, -, hbuilt⟩ := exists_of_forall₂_left h.built.groups hg
  obtain ⟨sources, hsources, -⟩ := hbuilt.inspected
  obtain ⟨file, hfile⟩ := inspectSources_ok hsources v hv
  show ∃ content, t.read (sourcePath p.root v g.name) = .ok content
  rw [inspector] at hfile
  cases htext : t.readText (sourcePath p.root v g.name) with
  | error fault => rw [htext] at hfile; cases hfile
  | ok text =>
      rw [Tree.readText] at htext
      cases hread : t.read (sourcePath p.root v g.name) with
      | error fault => rw [hread] at htext; cases htext
      | ok content => exact ⟨content, rfl⟩

/-- What a run has made leads where its segments lead from the root of the project. -/
theorem place_artifact {e : Emitter} (he : e ∈ defaultEmitters) {a : Artifact} (ha : a ∈ e.made p m) :
    t.placeOf (Path.join p.root a.path) = Path.walk (t.placeOf p.root) (Path.segments a.path) :=
  Path.placeFrom_join _ _ (Config.Built.relative_artifact he ha)

section Plain

variable {g : GroupConfig} {v : String}

/-- An artifact that leads to a source is generated in the first stage, for a group or for the notifications of the
version. -/
theorem artifact_at_source (h : Generated t t' c p o m report) (hplain : c.Plain) (hg : g ∈ c.groups)
    (hv : v ∈ g.versions) {a : Artifact} (ha : a ∈ (Pipeline.builtIn.only o.only).emitters.flatMap (·.made p m))
    (hplace : t.placeOf (Path.join p.root a.path) = t.placeOf (p.source g v)) :
    (o.only = [] ∨ .apiModel ∈ o.only) ∧ a.mode = .overwrite ∧ c.Shadows v g := by
  obtain ⟨e, he, ha⟩ := List.mem_flatMap.mp ha
  obtain ⟨he, hselected⟩ := mem_selected.mp he
  have hvalid := h.built.isValid_of_mem (GroupConfig.version_mem hg hv)
  rw [place_artifact he ha, placeOf_sourcePath hvalid (hplain.groups g hg)] at hplace
  obtain ⟨hstage, hmode, stem, hfile, hgenerates⟩ := h.built.artifact_place hplain he ha hplace
  exact ⟨hstage ▸ hselected, hmode, stem, sourceFile_eq_iff.mp hfile, hgenerates⟩

/-- A path on record leads to a source exactly when a generated file has its path and is generated. -/
theorem ledTo_iff (h : Generated t t' c p o m report) (hplain : c.Plain) (hg : g ∈ c.groups) (hv : v ∈ g.versions) :
    LedTo t p report.written (p.source g v) ↔
      o.dryRun = false ∧ (o.only = [] ∨ .apiModel ∈ o.only) ∧ c.Shadows v g := by
  have hversion := GroupConfig.version_mem hg hv
  constructor
  · rintro ⟨path, hpath, hleads⟩
    rcases h.ran.written path hpath with hold | ⟨hdry, ⟨a, ha, rfl⟩, -⟩
    · cases hold
    · obtain ⟨hselected, -, hshadows⟩ := h.artifact_at_source hplain hg hv ha hleads
      exact ⟨hdry, hselected, hshadows⟩
  · rintro ⟨hdry, hselected, stem, hstem, hgenerates⟩
    obtain ⟨e, he, hstage, hmade⟩ := h.built.exists_artifact hplain hversion hgenerates
    obtain ⟨hartifacts, hrecorded⟩ := h.recorded e (mem_selected.mpr ⟨he, hstage ▸ hselected⟩)
    obtain ⟨a, ha, hmode, hsegments⟩ := hmade hartifacts
    refine ⟨a.path, hrecorded hdry a ha hmode, ?_⟩
    rw [place_artifact he ha, hsegments, h.built.walk_beside hversion,
      placeOf_sourcePath (h.built.isValid_of_mem hversion) (hplain.groups g hg), sourceFile_eq_iff.mpr hstem]

end Plain

end Generated

/-! ### Synchronization -/

/-- What a run that succeeds and the deletion of stale files after it have gone through. -/
structure Synced (t t₁ t' : Tree) (c : Config) (p : Project) (dryRun : Bool) (m : Model) (report : Report)
    (paths : List String) : Prop where
  generated : Generated t t₁ c p { dryRun := dryRun } m report
  stale : ∃ owned, ownedPaths defaultEmitters = .ok owned ∧ paths = staleFiles t₁ p.root report owned
  pruned : t' = if dryRun then t₁ else deleteFiles t₁ p.root paths

theorem sync_ok {t t' : Tree} {c : Config} {p : Project} {dryRun : Bool} {report : Report} {paths : List String}
    (h : sync t c p dryRun = (t', .ok (report, paths))) : ∃ m t₁, Synced t t₁ t' c p dryRun m report paths := by
  rw [sync] at h
  rcases hgenerate : generate t c p { dryRun := dryRun } with ⟨t₁, result⟩
  rw [hgenerate] at h
  cases result with
  | error f => cases h
  | ok report₁ =>
      obtain ⟨m, hgenerated⟩ := generate_ok hgenerate
      dsimp only at h
      obtain ⟨htree, hresult⟩ := Prod.mk.inj h
      cases hprune : (pruneStale t₁ p.root report₁ defaultEmitters dryRun).2 with
      | error f => rw [hprune] at hresult; cases hresult
      | ok stale =>
          rw [hprune] at hresult
          cases hresult
          obtain ⟨hpruned, hstale⟩ := pruneStale_ok hprune
          exact ⟨m, t₁, hgenerated, hstale, htree.symm.trans hpruned⟩

namespace Synced

variable {t t₁ t' : Tree} {c : Config} {p : Project} {dryRun : Bool} {m : Model} {report : Report}
  {paths : List String}

/-- What the run leaves at a path is kept unless a stale path leads there. -/
theorem kept (h : Synced t t₁ t' c p dryRun m report paths) {file : String} {content : Content}
    (hread : t₁.read file = .ok content) (hnot : dryRun = true ∨ ¬LedTo t p paths file) :
    t'.read file = .ok content := by
  rw [h.pruned]
  split
  · exact hread
  · rename_i hdry
    obtain ⟨q, hlocate⟩ := Tree.read_ok_iff.mp hread
    obtain ⟨hplace, hfile⟩ := Tree.locate_file hlocate
    have hkeeps := deleteFiles_keeps (t := t₁) p.root paths
    refine Tree.read_ok_iff.mpr ⟨q, hkeeps.locate_file hlocate (hkeeps.files q content hfile ?_)⟩
    rintro ⟨path, hpath, hleads⟩
    rw [hplace, h.generated.placeOf_eq, h.generated.placeOf_eq] at hleads
    exact hnot.resolve_left hdry ⟨path, hpath, hleads⟩

theorem kept_of_unled (h : Synced t t₁ t' c p dryRun m report paths) {file : String} {content : Content}
    (hread : t.read file = .ok content) (hunwritten : ¬LedTo t p report.written file)
    (hnot : dryRun = true ∨ ¬LedTo t p paths file) : t'.read file = .ok content :=
  h.kept (h.generated.read_of_unled hread hunwritten) hnot

/-- What the run leaves at a path is there or gone. -/
theorem kept_or_gone (h : Synced t t₁ t' c p dryRun m report paths) {file : String} {content : Content}
    (hread : t₁.read file = .ok content) : t'.read file = .ok content ∨ Gone t' file := by
  rw [h.pruned]
  split
  · exact Or.inl hread
  · obtain ⟨q, hlocate⟩ := Tree.read_ok_iff.mp hread
    have hkeeps := deleteFiles_keeps (t := t₁) p.root paths
    rcases deleteFiles_lost (t := t₁) p.root paths q with hq | hq
    · have hfile := hq.trans (Tree.locate_file hlocate).2
      exact Or.inl (Tree.read_ok_iff.mpr ⟨q, hkeeps.locate_file hlocate hfile⟩)
    · exact Or.inr (gone_of_get? hkeeps hlocate hq)

section Plain

variable {g : GroupConfig} {v : String}

/-- A stale path that leads to a source ends in its name, which is one that a generated file could have. -/
theorem looksGenerated (h : Synced t t₁ t' c p dryRun m report paths) (hplain : c.Plain) (hg : g ∈ c.groups)
    (hv : v ∈ g.versions) (hled : LedTo t p paths (p.source g v)) : g.LooksGenerated := by
  have hvalid := h.generated.built.isValid_of_mem (GroupConfig.version_mem hg hv)
  obtain ⟨owned, howned, rfl⟩ := h.stale
  obtain ⟨path, hpath, hleads⟩ := hled
  obtain ⟨hrelative, front, stem, hstem, hsegments⟩ := last_staleFiles howned hpath
  rw [placeOf_sourcePath hvalid (hplain.groups g hg), Tree.placeOf, Path.placeFrom_join _ _ hrelative, hsegments,
    Path.walk_append, Tree.walk_name (isName_generated stem), List.append_cons _ "pkg", List.append_cons _ "api",
    List.append_cons _ v] at hleads
  obtain ⟨-, hlast⟩ := List.append_singleton_inj.mp hleads
  exact ⟨stem, hstem, sourceFile_eq_iff.mp hlast.symm⟩

/-- What the run stands for at a source is on record as written. -/
theorem ledTo_of_produced (h : Synced t t₁ t' c p dryRun m report paths) (hplain : c.Plain) (hg : g ∈ c.groups)
    (hv : v ∈ g.versions) (hdry : dryRun = false) {path : String} (hpath : path ∈ report.produced)
    (hplace : t.placeOf (Path.join p.root path) = t.placeOf (p.source g v)) :
    LedTo t p report.written (p.source g v) := by
  have hran := h.generated.ran
  rw [Report.produced, List.mem_append, List.mem_append] at hpath
  rcases hpath with (hwritten | hwould) | hskipped
  · exact ⟨path, hwritten, hplace⟩
  · have hnil : report.wouldWrite = [] := hran.wouldWrite hdry
    rw [hnil] at hwould
    cases hwould
  · rcases hran.skipped path hskipped with hold | ⟨a, ha, rfl, hscaffold⟩
    · cases hold
    · obtain ⟨-, hoverwrite, -⟩ := h.generated.artifact_at_source hplain hg hv ha hplace
      rw [hscaffold] at hoverwrite
      cases hoverwrite

/-- A source with the name of a generated file that is not written is found stale. -/
theorem gone (h : Synced t t₁ t' c p dryRun m report paths) (hplain : c.Plain) (hg : g ∈ c.groups)
    (hv : v ∈ g.versions) (hdry : dryRun = false) (hnot : ¬LedTo t p report.written (p.source g v))
    (hlooks : g.LooksGenerated) {content : Content} (hread : t₁.read (p.source g v) = .ok content) :
    Gone t' (p.source g v) := by
  have hvalid := h.generated.built.isValid_of_mem (GroupConfig.version_mem hg hv)
  have hslash := hplain.groups g hg
  obtain ⟨stem, hstem, hname⟩ := hlooks
  have hstemSlash : '/' ∉ stem.toList := by
    have hsnake := Text.slashless_snakeCase hslash
    rw [hname, String.toList_append, List.mem_append, not_or] at hsnake
    exact hsnake.1
  have hfile := sourceFile_eq_iff.mpr hname
  have hpath : p.source g v = Path.join p.root (sourceBelow v (stem ++ "_gen.go")) := by
    rw [Project.source, sourcePath_eq hvalid hslash, hfile]
  have hbelow := source_generatedBelow hvalid hslash hfile hread
  have hrelative := relative_sourceBelow v (stem ++ "_gen.go")
  obtain ⟨owned, howned, rfl⟩ := h.stale
  -- No path on record means the same as that of the source, so it is found stale.
  have hfree : ∀ x ∈ report.produced, Path.components x ≠ Path.components (sourceBelow v (stem ++ "_gen.go")) := by
    intro x hx hcomponents
    apply hnot (h.ledTo_of_produced hplain hg hv hdry hx _)
    rw [hpath]
    exact (Path.placeFrom_join_congr hcomponents.symm hrelative t.workingDirectory p.root).symm
  obtain ⟨x, hx, hcomponents⟩ :=
    exists_staleFiles (by decide) hbelow hfree (owned_sourceBelow howned hvalid hstem hstemSlash)
  obtain ⟨hxrelative, front, stem', -, hlast⟩ := last_staleFiles howned hx
  obtain ⟨q, hlocate⟩ := Tree.read_ok_iff.mp hread
  have hbelow' := hlocate
  rw [hpath] at hbelow'
  have hfound := Path.locate_join_congr hcomponents hxrelative hbelow'
    ⟨front, _, hlast, isName_generated stem'⟩
  rw [h.pruned, hdry]
  exact gone_of_get? (deleteFiles_keeps _ _) hlocate (get?_deleteFiles hx hfound)

section Read

variable {content : Content} (hread : t.read (p.source g v) = .ok content)

include hread

/-- Unless a generated file has its path or it could be one by its name, a source is kept. -/
theorem source_kept (h : Synced t t₁ t' c p dryRun m report paths) (hplain : c.Plain) (hg : g ∈ c.groups)
    (hv : v ∈ g.versions) (hnot : dryRun = true ∨ ¬c.Shadows v g ∧ ¬g.LooksGenerated) :
    t'.read (p.source g v) = .ok content := by
  have hled := h.generated.ledTo_iff hplain hg hv
  apply h.kept_of_unled hread
  · intro hwritten
    obtain ⟨hdry, -, hshadows⟩ := hled.mp hwritten
    rcases hnot with hwet | ⟨hunshadowed, -⟩
    · exact absurd (hwet.symm.trans hdry) (by decide)
    · exact hunshadowed hshadows
  · exact hnot.imp_right fun hunnamed hstale => hunnamed.2 (h.looksGenerated hplain hg hv hstale)

theorem source_lost (h : Synced t t₁ t' c p dryRun m report paths) (hplain : c.Plain) (hg : g ∈ c.groups)
    (hv : v ∈ g.versions) (hdry : dryRun = false) (hshadows : c.Shadows v g) :
    Overwritten t' p m (p.source g v) ∨ Gone t' (p.source g v) := by
  have hled := (h.generated.ledTo_iff hplain hg hv).mpr ⟨hdry, Or.inl rfl, hshadows⟩
  rcases h.generated.kept_or_overwritten hread with ⟨-, e, he, a, ha, hoverwritten⟩ | ⟨hunled, -⟩
  · exact (h.kept_or_gone hoverwritten).imp_left fun hkept => ⟨e, he, a, ha, hkept⟩
  · exact absurd hled hunled

theorem source_gone (h : Synced t t₁ t' c p dryRun m report paths) (hplain : c.Plain) (hg : g ∈ c.groups)
    (hv : v ∈ g.versions) (hdry : dryRun = false) (hunshadowed : ¬c.Shadows v g) (hlooks : g.LooksGenerated) :
    Gone t' (p.source g v) := by
  have hnot : ¬LedTo t p report.written (p.source g v) :=
    fun hwritten => hunshadowed ((h.generated.ledTo_iff hplain hg hv).mp hwritten).2.2
  exact h.gone hplain hg hv hdry hnot hlooks (h.generated.read_of_unled hread hnot)

end Read

end Plain

end Synced

/-! ### What becomes of a source -/

/-- Every source of a configuration has been read. Generating overwrites it exactly when a path on record leads to it,
and otherwise keeps it; with names that have no slashes this is when a generated file that is among those to be written
has its path. Synchronization also deletes a source that could be a generated file by its name. -/
theorem sources_kept_unless_named_as_generated (t : Tree) (c : Config) (p : Project) {g : GroupConfig}
    (hg : g ∈ c.groups) {v : String} (hv : v ∈ g.versions) :
    (∀ o t' report, generate t c p o = (t', .ok report) →
      ∃ m content, model t c p = .ok m ∧ t.read (p.source g v) = .ok content ∧
        (LedTo t p report.written (p.source g v) ∧ Overwritten t' p m (p.source g v) ∨
          ¬LedTo t p report.written (p.source g v) ∧ t'.read (p.source g v) = .ok content) ∧
        (c.Plain → (LedTo t p report.written (p.source g v) ↔
          o.dryRun = false ∧ (o.only = [] ∨ .apiModel ∈ o.only) ∧ c.Shadows v g))) ∧
    ∀ dryRun t' report paths, sync t c p dryRun = (t', .ok (report, paths)) →
      ∃ m content, model t c p = .ok m ∧ t.read (p.source g v) = .ok content ∧
        (¬LedTo t p report.written (p.source g v) → dryRun = true ∨ ¬LedTo t p paths (p.source g v) →
          t'.read (p.source g v) = .ok content) ∧
        (c.Plain →
          (dryRun = true ∨ ¬c.Shadows v g ∧ ¬g.LooksGenerated → t'.read (p.source g v) = .ok content) ∧
          (dryRun = false → c.Shadows v g → Overwritten t' p m (p.source g v) ∨ Gone t' (p.source g v)) ∧
          (dryRun = false → ¬c.Shadows v g → g.LooksGenerated → Gone t' (p.source g v))) := by
  constructor
  · intro o t' report hgenerate
    obtain ⟨m, h⟩ := generate_ok hgenerate
    obtain ⟨content, hread⟩ := h.source_read hg hv
    exact ⟨m, content, h.modelled, hread, h.kept_or_overwritten hread, fun hplain => h.ledTo_iff hplain hg hv⟩
  · intro dryRun t' report paths hsync
    obtain ⟨m, t₁, h⟩ := sync_ok hsync
    obtain ⟨content, hread⟩ := h.generated.source_read hg hv
    refine ⟨m, content, h.generated.modelled, hread, h.kept_of_unled hread, fun hplain => ⟨?_, ?_, ?_⟩⟩
    · exact h.source_kept hread hplain hg hv
    · exact h.source_lost hread hplain hg hv
    · exact h.source_gone hread hplain hg hv

/-- A group whose name ends in the word `gen`, in a project with its source. -/
def genConfig : Config where
  apiNamespace := "helm"
  migrationOrder := some []
  groups := [{
    name := "HelmGen"
    objects := [{ name := "Release", versions := ["v0"], excludeRoute := true, excludeFromDb := true }] }]

def genTree : Tree where
  workingDirectory := []
  entries := [
    (["pkg"], .directory),
    (["pkg", "api"], .directory),
    (["pkg", "api", "v0"], .directory),
    (["pkg", "api", "v0", "helm_gen.go"], .file (Text.utf8Bytes "package v0\n".toList))]

def genSync : Tree × Except Failure (Report × List String) :=
  sync genTree genConfig ⟨"", .base⟩ false

theorem genSync_run : (genSync.2.isOk, (genSync.1.read "pkg/api/v0/helm_gen.go").isOk) = (true, false) := by
  decide +kernel

/-- The source was there, synchronization succeeds, and then it is not there any more. -/
theorem source_pruned : genSync.2.isOk = true ∧
    genTree.read (sourcePath "" "v0" "HelmGen") = .ok (Text.utf8Bytes "package v0\n".toList) ∧
      (genSync.1.read (sourcePath "" "v0" "HelmGen")).isOk = false := by
  have hpath : sourcePath "" "v0" "HelmGen" = "pkg/api/v0/helm_gen.go" := by decide +kernel
  obtain ⟨hok, hgone⟩ := Prod.mk.inj genSync_run
  rw [hpath]
  exact ⟨hok, by decide +kernel, hgone⟩

theorem genSync_source_gone : ∃ g ∈ genConfig.groups, "v0" ∈ g.versions ∧ ¬genConfig.Shadows "v0" g ∧
    g.LooksGenerated ∧ Gone genSync.1 (sourcePath "" "v0" g.name) := by
  have hsnake : Text.snakeCase "HelmGen" = "helm" ++ "_gen" := by decide +kernel
  have hplain : genConfig.Plain := ⟨by decide, by decide⟩
  have hversion : "v0" ∈ (genConfig.groups.head (by decide)).versions := by decide
  have hshadows : ¬genConfig.Shadows "v0" (genConfig.groups.head (by decide)) := by
    rintro ⟨stem, hstem, hgenerates⟩
    have hhelm : "helm" = stem := by
      rw [← String.toList_inj]
      have hchars := congrArg String.toList (hsnake.symm.trans hstem)
      rw [String.toList_append, String.toList_append, List.append_cancel_right_eq] at hchars
      exact hchars
    rcases hgenerates with hnotifications | ⟨g, hg, -, hname⟩
    · exact absurd (hhelm.trans hnotifications) (by decide)
    · rw [List.mem_singleton.mp hg, ← hhelm] at hname
      exact absurd (hsnake.symm.trans hname) (by decide)
  have hlooks : (genConfig.groups.head (by decide)).LooksGenerated := ⟨"helm", by decide, hsnake⟩
  obtain ⟨hok, -⟩ := Prod.mk.inj genSync_run
  cases hrun : genSync with
  | mk t' result =>
      rw [hrun] at hok
      cases result with
      | error f => cases hok
      | ok done =>
          obtain ⟨m, content, -, -, -, hfate⟩ := (sources_kept_unless_named_as_generated genTree genConfig ⟨"", .base⟩
            (List.head_mem (by decide)) hversion).2 false t' done.1 done.2 hrun
          exact ⟨_, List.head_mem (by decide), hversion, hshadows, hlooks, (hfate hplain).2.2 rfl hshadows hlooks⟩

end Workspace

end ApiForge
