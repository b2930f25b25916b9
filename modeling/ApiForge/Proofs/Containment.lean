import ApiForge.Proofs.Edits
import ApiForge.Proofs.Synchronization

/-! Containment: files are made, changed and deleted below the root of the project only. Slashes in the names of groups
and objects are what it takes to get out, since a name without a slash can lead up from one directory at most, and no
template has that directory at the top. -/

namespace ApiForge

open Files (Content Entry Place Report Session Tree Writer)
open PathTemplate (Part solid steady Filled Grounded Slashless)

/-! ### Trees whose places have names -/

/-- Names that stand for themselves in a path. -/
def Path.Names (names : List String) : Prop :=
  ∀ n ∈ names, IsName n ∧ '/' ∉ n.toList

/-- Where segments lead, every name is one of the start or of the segments. -/
theorem Path.Names.walk {place : Place} (hplace : Names place) {segments : List String}
    (hsegments : ∀ s ∈ segments, '/' ∉ s.toList) : Names (walk place segments) := by
  induction segments generalizing place with
  | nil => exact hplace
  | cons s segments ih =>
      obtain ⟨hs, hrest⟩ := List.forall_mem_cons.mp hsegments
      rw [Path.walk]
      split
      · rename_i name hname
        obtain rfl := Tree.eq_of_ofSegment? hname
        refine ih (fun n hn => ?_) hrest
        rcases List.mem_append.mp hn with hn | hn
        · exact hplace n hn
        · rw [List.mem_singleton.mp hn]
          exact ⟨hname, hs⟩
      · exact ih (fun n hn => hplace n (List.dropLast_subset place hn)) hrest
      · exact ih hplace hrest

namespace Files

/-- Everything has a name, and so has where relative paths start. -/
structure Tree.Sound (t : Tree) : Prop where
  named : t.Named
  workingDirectory : Path.Names t.workingDirectory

namespace Tree

variable {t t' : Tree}

theorem Sound.of_connected (hnamed : t.Named) (hconnected : t.Connected) : t.Sound := by
  refine ⟨hnamed, hnamed _ ?_⟩
  rw [hconnected.workingDirectory]
  rintro ⟨⟩

theorem Sound.origin (h : t.Sound) (path : String) : Path.Names (t.origin path) := by
  rw [Tree.origin]
  split
  · exact List.forall_mem_nil _
  · exact h.workingDirectory

theorem Named.put (h : t.Named) {place : Place} (hplace : Path.Names place) (hne : place ≠ []) (entry : Entry) :
    (t.put place entry).Named := by
  intro q hq
  rw [get?_put t place q entry hne] at hq
  split at hq
  · rename_i heq
    exact heq ▸ hplace
  · exact h q hq

theorem Named.makeFrom (h : t.Named) {place : Place} (hplace : Path.Names place) {segments : List String}
    (hsegments : ∀ s ∈ segments, '/' ∉ s.toList) (made : Bool) : (t.makeFrom made place segments).1.Named := by
  induction segments generalizing t made place with
  | nil => exact h
  | cons s segments ih =>
      obtain ⟨hs, hrest⟩ := List.forall_mem_cons.mp hsegments
      rw [Tree.makeFrom]
      split
      · rename_i name hname
        have hnext : Path.Names (place ++ [name]) := by
          obtain rfl := eq_of_ofSegment? hname
          rw [← walk_name hname]
          exact hplace.walk fun n hn => List.mem_singleton.mp hn ▸ hs
        split
        · exact ih h hnext hrest made
        · exact h
        · exact ih (h.put hnext (List.append_ne_nil_of_right_ne_nil _ (List.cons_ne_nil _ _)) _) hnext hrest true
      · exact ih h (fun n hn => hplace n (List.dropLast_subset place hn)) hrest made
      · exact ih h hplace hrest made

theorem makeDirectories_sound (h : t.Sound) (path : String) : (t.makeDirectories path).1.Sound := by
  rw [makeDirectories]
  have hsegments : ∀ s ∈ Path.segments path, '/' ∉ s.toList := fun s => Path.slash_not_mem_segments
  have hnamed := h.named.makeFrom (h.origin path) hsegments false
  refine ⟨hnamed, ?_⟩
  rw [(t.makeFrom_edits false _ _).workingDirectory]
  exact h.workingDirectory

theorem write_sound (h : t.Sound) {path : String} {content : Content} (hwrite : t.write path content = .ok t') :
    t'.Sound := by
  refine ⟨?_, (write_edits hwrite).workingDirectory ▸ h.workingDirectory⟩
  obtain ⟨rfl, hne, -⟩ := put_of_write hwrite
  exact h.named.put ((h.origin path).walk fun s => Path.slash_not_mem_segments) hne _

end Tree

/-- Writing a file makes no places without names. -/
theorem writeFile_sound {t : Tree} (h : t.Sound) (path : String) (content : Content) :
    (writeFile t path content).1.Sound := by
  have hmade := Tree.makeDirectories_sound h ((Path.parent? path).getD "")
  unfold writeFile
  dsimp only
  split
  · rename_i t₁ fault hdirectories
    rw [hdirectories] at hmade
    exact hmade
  · rename_i t₁ hdirectories
    rw [hdirectories] at hmade
    split
    · exact hmade
    · rename_i t₂ hwrite
      exact Tree.write_sound hmade hwrite

theorem Writer.write_sound (w : Writer) {s : Session} (h : s.tree.Sound) (path text : String) (mode : WriteMode) :
    (w.write s path text mode).1.tree.Sound := by
  have hwrote := w.wrote_write s path text mode
  have hsound := writeFile_sound h (Path.join w.root path) (Text.utf8Bytes text.toList)
  generalize w.write s path text mode = result at hwrote ⊢
  cases hwrote with
  | skipped _ _ => exact h
  | wouldWrite _ => exact h
  | failed _ tree f hfile =>
      rw [hfile] at hsound
      exact hsound
  | written _ tree hfile =>
      rw [hfile] at hsound
      exact hsound

end Files

theorem Workspace.generate_sound {t : Tree} (h : t.Sound) (c : Config) (p : Project) (o : GenerateOptions) :
    (generate t c p o).1.Sound := by
  unfold generate
  cases model t c p with
  | error f => exact h
  | ok m =>
      exact Pipeline.run_steps (R := fun s s' => s.tree.Sound → s'.tree.Sound) (fun _ => id)
        (fun _ _ _ hfirst hsecond hs => hsecond (hfirst hs)) _
        (fun a _ s hs => Writer.write_sound _ hs a.path a.document.text a.mode) { tree := t } h

/-! ### Below the root -/

/-- The place is in the directory of the root or further down. -/
def Files.Tree.Below (t : Tree) (root : String) (q : Place) : Prop :=
  ∃ names, names ≠ [] ∧ q = t.placeOf root ++ names

theorem Files.Tree.below_of_walk {t : Tree} {root path : String} (hrelative : Path.isAbsolute path = false)
    {names : List String} (hne : names ≠ [])
    (hwalk : Path.walk (t.placeOf root) (Path.segments path) = t.placeOf root ++ names) :
    t.Below root (t.placeOf (Path.join root path)) :=
  ⟨names, hne, (Path.placeFrom_join _ root hrelative).trans hwalk⟩

/-- Segments of which at most one has no name lead up by one directory at most. -/
theorem walk_of_steady {value? : String → Option String} (hgrounded : Grounded value?) {segments : List (List Part)}
    {texts : List String} (hsteady : steady segments = true) (hfill : Filled value? segments texts) (place : Place)
    {front : List String} (hfront : front ≠ []) : ∃ names, Path.walk (place ++ front) texts = place ++ names := by
  induction hfill generalizing front with
  | nil => exact ⟨front, rfl⟩
  | @cons ps text segments texts hp hrest ih =>
      rw [steady] at hsteady
      split at hsteady
      · rename_i hsolid
        have hname := PathTemplate.ofSegment?_of_solid hgrounded hsolid hp
        rw [Path.walk, hname]
        dsimp only
        rw [List.append_assoc]
        exact ih hsteady (List.append_ne_nil_of_left_ne_nil hfront _)
      · -- Behind the one segment all others are names.
        have hnames : ∀ n ∈ texts, Path.IsName n := by
          intro n hn
          obtain ⟨qs, hqs, hq⟩ := exists_of_forall₂ hrest hn
          exact PathTemplate.ofSegment?_of_solid hgrounded (List.all_eq_true.mp hsteady qs hqs) hq
        rw [Path.walk]
        split
        · rename_i name _
          exact ⟨front ++ [name] ++ texts, by rw [Path.walk_names hnames]; simp only [List.append_assoc]⟩
        · exact ⟨front.dropLast ++ texts, by
            rw [Path.walk_names hnames, List.dropLast_append_of_ne_nil hfront, List.append_assoc]⟩
        · exact ⟨front ++ texts, by rw [Path.walk_names hnames, List.append_assoc]⟩

namespace Config.Built

variable {project : Project} {inspect : Inspector} {c : Config} {m : Model}

/-- What is generated for names without slashes goes below the root, even for a package whose name leads up. -/
theorem artifact_below (h : c.Built project inspect m) (hplain : c.Plain) {e : Emitter} (he : e ∈ defaultEmitters)
    {a : Artifact} (ha : a ∈ e.made project m) (t : Tree) (root : String) :
    t.Below root (t.placeOf (Path.join root a.path)) := by
  have hregular := defaultEmitters_regular he
  obtain ⟨target, htarget, hartifact⟩ := Emitter.mem_made ha
  have hgrounded := h.placeholder_grounded htarget
  obtain ⟨-, cs, hfill, hpath⟩ := Emitter.artifact_ok hartifact
  have hslash : Slashless target.placeholder? (PathTemplate.parse e.path.toList).1 :=
    fun key value _ hvalue => h.placeholder_slashless hplain htarget hvalue
  have hsegments := PathTemplate.fill_segments_path hslash hfill
  rw [e.directory_append_file] at hsegments
  obtain ⟨above, text, htexts, habove, hfile⟩ := PathTemplate.exists_concat_of_filled hsegments
  have hname := PathTemplate.ofSegment?_of_solid hgrounded hregular.file hfile
  have habove' : ∃ names, Path.walk (t.placeOf root) above = t.placeOf root ++ names := by
    have htop := hregular.top
    have hsteady := hregular.steady
    generalize e.directory = segments at habove htop hsteady
    cases habove with
    | nil => cases htop
    | @cons ps top segments texts hp hrest =>
        have hsolid : solid ps = true := htop
        rw [steady, if_pos hsolid] at hsteady
        rw [Path.walk, PathTemplate.ofSegment?_of_solid hgrounded hsolid hp]
        exact walk_of_steady hgrounded hsteady hrest _ (List.cons_ne_nil _ _)
  obtain ⟨names, hnames⟩ := habove'
  refine Tree.below_of_walk (relative_artifact he ha) (List.append_ne_nil_of_right_ne_nil names (List.cons_ne_nil text []))
    ?_
  rw [hpath, htexts, Path.walk_append, hnames, ← List.append_assoc]
  exact Tree.walk_name hname

end Config.Built

/-- What is found stale in a tree whose places have names is below the root. -/
theorem staleFile_below {t : Tree} (hnamed : t.Named) {root path : String} {report : Report} {owned : String → Bool}
    (h : path ∈ staleFiles t root report owned) : t.Below root (t.placeOf (Path.join root path)) := by
  obtain ⟨⟨directory, hdirectory, hbelow⟩, -⟩ := mem_staleFiles h
  obtain ⟨hrelative, -⟩ := last_generatedBelow hdirectory hbelow
  obtain ⟨place, -, ⟨names, content⟩, hfile, -, rfl⟩ := mem_generatedBelow_iff.mp hbelow
  have hnames : ∀ n ∈ names, Path.IsName n ∧ '/' ∉ n.toList := by
    obtain ⟨entry, hentry, hfile⟩ := List.mem_filterMap.mp hfile
    split at hfile
    · split at hfile
      · cases hfile
        exact fun n hn => Tree.named_iff.mp hnamed entry hentry n (List.mem_of_mem_drop hn)
      · cases hfile
    · cases hfile
  have hdirectories : ∀ d ∈ generatedDirectories, Path.segments d ≠ [] ∧ ∀ s ∈ Path.segments d,
      Path.Component.ofSegment? s = some (.name s) := by
    decide
  obtain ⟨hne, hdirectory⟩ := hdirectories directory hdirectory
  have hsegments : Path.segments ("/".intercalate (directory :: names)) = Path.segments directory ++ names := by
    rw [Path.segments_intercalate, List.flatMap_cons,
      Path.flatMap_segments_of_slashless fun n hn => (hnames n hn).2]
  refine Tree.below_of_walk hrelative (List.append_ne_nil_of_left_ne_nil hne names) ?_
  rw [hsegments]
  refine Path.walk_names (fun n hn => ?_) _
  rcases List.mem_append.mp hn with hn | hn
  · exact hdirectory n hn
  · exact (hnames n hn).1

/-! ### The commands -/

namespace Workspace

variable {t : Tree} {c : Config} {p : Project}

theorem stub_below (hcheck : c.check = .ok ()) (hplain : ∀ g ∈ c.groups, '/' ∉ g.name.toList) {q : Place}
    (hq : t.Targets p.root ((sourceStubs c).map Prod.fst) q) : t.Below p.root q := by
  obtain ⟨path, hpath, rfl⟩ := hq
  obtain ⟨stub, hstub, rfl⟩ := List.mem_map.mp hpath
  obtain ⟨v, file, hpath, hdescends, hnames⟩ := path_of_mem_stubDrafts hcheck hplain (List.mem_map_of_mem hstub)
  exact Tree.below_of_walk hdescends.relative hdescends.names_ne_nil (hdescends.walk _)

theorem selected_below (hplain : c.Plain) {o : GenerateOptions} {q : Place}
    (hq : t.Targets p.root (selectedPaths t c p o) q) : t.Below p.root q := by
  obtain ⟨path, hpath, rfl⟩ := hq
  rw [selectedPaths] at hpath
  cases hmodel : model t c p with
  | error f =>
      rw [hmodel] at hpath
      cases hpath
  | ok m =>
      rw [hmodel] at hpath
      obtain ⟨a, ha, rfl⟩ := List.mem_map.mp hpath
      obtain ⟨e, he, -, ha⟩ := Model.mem_selection.mp ha
      exact (buildModel_ok hmodel).artifact_below hplain he ha t p.root

theorem stale_below (hsound : t.Sound) {dryRun : Bool} {q : Place}
    (hq : t.Targets p.root (stalePaths t c p dryRun) q) : t.Below p.root q := by
  obtain ⟨path, hpath, rfl⟩ := hq
  have hsound₁ := generate_sound hsound c p { dryRun := dryRun }
  have hedits := generate_edits t c p { dryRun := dryRun }
  rw [stalePaths] at hpath
  generalize generate t c p { dryRun := dryRun } = generated at hpath hsound₁ hedits
  obtain ⟨t₁, result⟩ := generated
  cases result with
  | error f => cases hpath
  | ok report =>
      dsimp only at hpath
      split at hpath
      · obtain ⟨names, hne, hplace⟩ := staleFile_below hsound₁.named hpath
        rw [hedits.placeOf_eq, hedits.placeOf_eq] at hplace
        exact ⟨names, hne, hplace⟩
      · cases hpath

/-- Whatever becomes of a command, it makes, changes and deletes files below the root only, as long as no name of a
group, or of an object where files are named for objects, has a slash. -/
theorem edits_below_root (t : Tree) (c : Config) (p : Project) :
    ((∀ g ∈ c.groups, '/' ∉ g.name.toList) →
      ∀ dryRun, t.Edits (t.Below p.root) (createSources t c p dryRun).1) ∧
    (c.Plain → ∀ o, t.Edits (t.Below p.root) (generate t c p o).1) ∧
    (c.Plain → t.Named → t.Connected → ∀ dryRun, t.Edits (t.Below p.root) (sync t c p dryRun).1) := by
  refine ⟨fun hplain dryRun => ?_, fun hplain o => ?_, fun hplain hnamed hconnected dryRun => ?_⟩
  · cases hcheck : c.check with
    | error fault =>
        rw [createSources, hcheck]
        exact Tree.Edits.refl t _
    | ok u => exact (createSources_edits t c p dryRun).mono fun q => stub_below hcheck hplain
  · exact (generate_edits t c p o).mono fun q => selected_below hplain
  · refine (sync_edits t c p dryRun).mono fun q hq => ?_
    obtain ⟨path, hpath, hplace⟩ := hq
    rcases List.mem_append.mp hpath with hpath | hpath
    · exact selected_below hplain ⟨path, hpath, hplace⟩
    · exact stale_below (.of_connected hnamed hconnected) ⟨path, hpath, hplace⟩

/-- The project of `chartsConfig` in a directory of its own, with a file beside it. -/
def nestedTree : Tree where
  workingDirectory := []
  entries := [
    (["other_gen.go"], .file []),
    (["project"], .directory),
    (["project", "pkg"], .directory),
    (["project", "pkg", "api"], .directory),
    (["project", "pkg", "api", "v0"], .directory),
    (["project", "pkg", "api", "v0", "helm.go"], .file (Text.utf8Bytes "package v0\n".toList)),
    (["project", "pkg", "api", "v0", "old_gen.go"], .file [])]

/-- Three files are made and one is deleted, all below the root. -/
theorem nested_edits_below_root :
    nestedTree.Edits (nestedTree.Below "project") (createSources nestedTree chartsConfig ⟨"project", .base⟩ false).1 ∧
    nestedTree.Edits (nestedTree.Below "project") (generate nestedTree chartsConfig ⟨"project", .base⟩ {}).1 ∧
    nestedTree.Edits (nestedTree.Below "project") (sync nestedTree chartsConfig ⟨"project", .base⟩ false).1 ∧
    (sync nestedTree chartsConfig ⟨"project", .base⟩ false).2.toOption =
      some (⟨["pkg/api/v0/helm_gen.go", "pkg/api/v0/notifications_gen.go", "pkg/api-server/v0/versions/helm_gen.go"],
        [], []⟩, ["pkg/api/v0/old_gen.go"]) := by
  have hplain : chartsConfig.Plain := ⟨by decide, by decide⟩
  obtain ⟨hcreate, hgenerate, hsync⟩ := edits_below_root nestedTree chartsConfig ⟨"project", .base⟩
  exact ⟨hcreate hplain.groups false, hgenerate hplain {}, hsync hplain (by decide +kernel) (by decide +kernel) false,
    by decide +kernel⟩

/-- A group whose name leads up from the directory of its sources. -/
def climbingConfig : Config where
  apiNamespace := "helm"
  migrationOrder := some []
  groups := [{ name := "../../../../escape", objects := [{ name := "Chart", versions := ["v0"] }] }]

/-- The stub is written beside the root of the project. -/
theorem stub_beside_root : ∃ t' report,
    createSources ⟨[], []⟩ climbingConfig ⟨"project", .base⟩ false = (t', .ok report) ∧
      Tree.fileAt? ⟨[], []⟩ ["escape.go"] = none ∧ t'.fileAt? ["escape.go"] ≠ none ∧
      ¬Tree.Below ⟨[], []⟩ "project" ["escape.go"] := by
  have hcreated : (createSources ⟨[], []⟩ climbingConfig ⟨"project", .base⟩ false).2.toOption =
      some ⟨["pkg/api/v0/../../../../escape.go"], [], []⟩ := by
    decide +kernel
  have hfile : ((createSources ⟨[], []⟩ climbingConfig ⟨"project", .base⟩ false).1.fileAt? ["escape.go"]).isSome =
      true := by
    decide +kernel
  refine ⟨_, _, eq_of_toOption hcreated, by decide, Option.isSome_iff_ne_none.mp hfile, ?_⟩
  rintro ⟨names, -, hbelow⟩
  have hroot : Tree.placeOf ⟨[], []⟩ "project" = ["project"] := by decide
  rw [hroot] at hbelow
  simp at hbelow

end Workspace

end ApiForge
