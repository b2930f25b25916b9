import ApiForge.Proofs.Overlap
import ApiForge.Proofs.Pruning
import ApiForge.Proofs.Sites
import ApiForge.Proofs.Slices

/-! Where the artifacts of a built model are. As long as no name has a slash, the directory of an artifact and the name of
its file are what the template of its emitter makes of its target. Directories of different templates are never the
same, so what can come to be in one directory is known from the table of the templates. -/

namespace ApiForge

open PathTemplate (Part parse fill segmentParts solid separate steady keys componentsOf Filled Slashless)

/-! ### Templates -/

/-- The components of the path above the file. -/
def Artifact.directory (a : Artifact) : List Path.Component :=
  (Path.components a.path).dropLast

namespace Emitter

/-- The template of the directories, by segments. -/
def directory (e : Emitter) : List (List Part) :=
  (segmentParts (parse e.path.toList).1).dropLast

/-- The template of the names of the files. -/
def file (e : Emitter) : List Part :=
  (segmentParts (parse e.path.toList).1).getLastD []

theorem directory_append_file (e : Emitter) :
    segmentParts (parse e.path.toList).1 = e.directory ++ [e.file] := by
  have hne : segmentParts (parse e.path.toList).1 ≠ [] := List.cons_ne_nil _ _
  rw [directory, file, List.getLastD_eq_getLast?, List.getLast?_eq_some_getLast hne, Option.getD_some,
    List.dropLast_append_getLast hne]

end Emitter

/-- A text without placeholders. -/
def word (text : String) : List Part :=
  text.toList.map .literal

/-- A placeholder with a text behind it. -/
def ended (key text : String) : List Part :=
  .hole key :: word text

def apiDirectory : List (List Part) :=
  [word "pkg", word "api", [.hole "version"]]

/-- The directory of one of the server's packages. -/
def serverDirectory (package : String) : List (List Part) :=
  [word "pkg", word "api-server", [.hole "version"], word package]

def clientDirectory : List (List Part) :=
  [word "pkg", word "client", [.hole "version"]]

def commandDirectory : List (List Part) :=
  [word "cmd", word "tptctl", word "cmd"]

def controllerDirectory : List (List Part) :=
  [word "cmd", [.hole "controller"]]

def reconcilerDirectory : List (List Part) :=
  [word "internal", [.hole "package"]]

/-- Where the emitters put their files. -/
def layout : List (String × List (List Part) × List Part) := [
  ("api-object", apiDirectory, ended "group" "_gen.go"),
  ("notifications", apiDirectory, word "notifications_gen.go"),
  ("tagged-fields", serverDirectory "versions", ended "group" "_gen.go"),
  ("routes", serverDirectory "routes", ended "group" "_gen.go"),
  ("route-registry", serverDirectory "routes", word "routes_gen.go"),
  ("handlers", serverDirectory "handlers", ended "group" "_gen.go"),
  ("database-init", serverDirectory "database", word "database_gen.go"),
  ("client", clientDirectory, ended "group" "_gen.go"),
  ("tptctl-commands", commandDirectory, ended "group" "_gen.go"),
  ("tptctl-output", commandDirectory, ended "group" "_output.go"),
  ("controller-main", controllerDirectory, word "main_gen.go"),
  ("reconcilers", reconcilerDirectory, word "reconcilers_gen.go"),
  ("reconciler-stub", reconcilerDirectory, ended "object" ".go"),
  ("dockerfile", controllerDirectory ++ [word "image"], word "Dockerfile")]

theorem defaultEmitters_layout : defaultEmitters.map (fun e => (e.name, e.directory, e.file)) = layout := by
  decide +kernel

theorem Emitter.mem_layout {e : Emitter} (he : e ∈ defaultEmitters) : (e.name, e.directory, e.file) ∈ layout := by
  rw [← defaultEmitters_layout]
  exact List.mem_map_of_mem (f := fun e : Emitter => (e.name, e.directory, e.file)) he

/-- What holds of the templates of all emitters: the first directory and the file have names whatever the target is, at
most one directory may have none, and a directory has one placeholder at most, which stands by itself. -/
structure Emitter.Regular (e : Emitter) : Prop where
  file : solid e.file = true
  top : e.directory.head?.any solid = true
  steady : steady e.directory = true
  whole : ∀ ps ∈ e.directory, keys ps = [] ∨ ∃ key ∈ keys ps, ps = [.hole key]

theorem defaultEmitters_regular {e : Emitter} (he : e ∈ defaultEmitters) : e.Regular := by
  have hall : ∀ row ∈ layout, solid row.2.2 = true ∧ row.2.1.head?.any solid = true ∧ steady row.2.1 = true ∧
      ∀ ps ∈ row.2.1, keys ps = [] ∨ ∃ key ∈ keys ps, ps = [.hole key] := by
    decide +kernel
  obtain ⟨hfile, htop, hsteady, hwhole⟩ := hall _ (Emitter.mem_layout he)
  exact ⟨hfile, htop, hsteady, hwhole⟩

/-- Two emitters have one template for their directories, or none of their directories is the same. -/
theorem defaultEmitters_separate {e e' : Emitter} (he : e ∈ defaultEmitters) (he' : e' ∈ defaultEmitters) :
    e.directory = e'.directory ∨ separate e.directory e'.directory = true := by
  have hall : ∀ row ∈ layout, ∀ row' ∈ layout, row.2.1 = row'.2.1 ∨ separate row.2.1 row'.2.1 = true := by
    decide +kernel
  exact hall _ (Emitter.mem_layout he) _ (Emitter.mem_layout he')

/-! ### Where artifacts are -/

/-- The segments of an artifact's path: those of its directory and the name of its file. -/
structure Artifact.Located (a : Artifact) (e : Emitter) (t : Target) (texts : List String) (text : String) : Prop where
  above : Filled t.placeholder? e.directory texts
  file : fill t.placeholder? e.file = .ok text.toList
  components : Path.components a.path = componentsOf texts ++ [.name text]

theorem Artifact.Located.directory {a : Artifact} {e : Emitter} {t : Target} {texts : List String} {text : String}
    (h : a.Located e t texts text) : a.directory = componentsOf texts := by
  rw [Artifact.directory, h.components, List.dropLast_concat]

namespace Config.Built

variable {project : Project} {inspect : Inspector} {c : Config} {m : Model}

theorem exists_located (h : c.Built project inspect m) (hplain : c.Plain) {e : Emitter} (he : e ∈ defaultEmitters)
    {t : Target} {a : Artifact} (hmakes : e.Makes project m t a) : ∃ texts text, a.Located e t texts text := by
  have hregular := defaultEmitters_regular he
  have hgrounded := h.placeholder_grounded hmakes.target
  obtain ⟨-, cs, hfill, hpath⟩ := Emitter.artifact_ok hmakes.artifact
  have hslash : Slashless t.placeholder? (parse e.path.toList).1 :=
    fun key value _ hvalue => h.placeholder_slashless hplain hmakes.target hvalue
  have hsegments := PathTemplate.fill_segments_path hslash hfill
  rw [e.directory_append_file] at hsegments
  obtain ⟨above, text, htexts, habove, hfile⟩ := PathTemplate.exists_concat_of_filled hsegments
  refine ⟨above, text, habove, hfile, ?_⟩
  have hname := PathTemplate.ofSegment?_of_solid hgrounded hregular.file hfile
  -- The path is relative, and it does not start with a dot, as its first segment is a name.
  have hrelative := isAbsolute_of_relative (defaultEmitters_cases he).1 hfill
  have hhere : (Path.segments (String.ofList cs)).head? ≠ some "." := by
    have htop := hregular.top
    rw [htexts]
    generalize e.directory = segments at habove htop
    cases habove with
    | nil => cases htop
    | cons hp _ =>
        intro hdot
        have hfirst := PathTemplate.ofSegment?_of_solid hgrounded htop hp
        rw [Option.some.inj hdot] at hfirst
        cases hfirst
  rw [hpath, Path.components, if_neg (by rw [hrelative]; exact Bool.false_ne_true), if_neg hhere, htexts,
    List.nil_append, List.filterMap_append, List.filterMap_cons_some hname]
  rfl

/-- Artifacts of one template for their directories are in one directory when what the placeholders in it stand for
agrees. -/
theorem directory_eq_iff (h : c.Built project inspect m) (hplain : c.Plain) {e e' : Emitter}
    (he : e ∈ defaultEmitters) (he' : e' ∈ defaultEmitters) {t t' : Target} {a b : Artifact}
    (ha : e.Makes project m t a) (hb : e'.Makes project m t' b) :
    a.directory = b.directory ↔ e.directory = e'.directory ∧ ∀ key ∈ keys e.directory.flatten,
      (t.placeholder? key).bind Path.Component.ofSegment? = (t'.placeholder? key).bind Path.Component.ofSegment? := by
  obtain ⟨texts, text, hlocated⟩ := h.exists_located hplain he ha
  obtain ⟨texts', text', hlocated'⟩ := h.exists_located hplain he' hb
  have hgrounded := h.placeholder_grounded ha.target
  have hgrounded' := h.placeholder_grounded hb.target
  rw [hlocated.directory, hlocated'.directory]
  rcases defaultEmitters_separate he he' with heq | hseparate
  · have hregular := defaultEmitters_regular he
    rw [and_iff_right heq]
    have habove' := hlocated'.above
    rw [← heq] at habove'
    exact PathTemplate.componentsOf_eq_iff hgrounded hgrounded' hregular.steady hregular.whole hlocated.above habove'
  · have hne := PathTemplate.ne_of_separate hgrounded hgrounded' hseparate hlocated.above hlocated'.above
    refine iff_of_false hne fun hsame => ?_
    rw [← hsame.1] at hseparate
    exact PathTemplate.ne_of_separate hgrounded hgrounded hseparate hlocated.above hlocated.above rfl

end Config.Built

/-! ### Neighbours -/

namespace Emitter

theorem lookup_layout {e : Emitter} (he : e ∈ defaultEmitters) :
    layout.lookup e.name = some (e.directory, e.file) := by
  have hall : ∀ row ∈ layout, layout.lookup row.1 = some row.2 := by
    decide
  exact hall _ (mem_layout he)

theorem eq_of_name {e e' : Emitter} (he : e ∈ defaultEmitters) (he' : e' ∈ defaultEmitters) (h : e.name = e'.name) :
    e = e' :=
  List.inj_on_of_nodup_map defaultEmitters_names he he' h

/-- Different emitters whose files are in one directory. -/
inductive Neighbours : Emitter → Emitter → Prop
  | api : Neighbours .objects .notifications
  | routes : Neighbours .routes .registry
  | commands : Neighbours .commands .output
  | reconcilers : Neighbours .reconcilers .stub

theorem Neighbours.directory {e e' : Emitter} (h : e.Neighbours e') : e.directory = e'.directory := by
  have hrow {e e' : Emitter} (he : e ∈ defaultEmitters) (he' : e' ∈ defaultEmitters)
      (h : (layout.lookup e.name).map Prod.fst = (layout.lookup e'.name).map Prod.fst) :
      e.directory = e'.directory := by
    rw [lookup_layout he, lookup_layout he'] at h
    exact Option.some.inj h
  cases h <;> exact hrow (by simp [defaultEmitters]) (by simp [defaultEmitters]) rfl

/-- Their names. -/
def neighbours : List (String × String) :=
  [("api-object", "notifications"), ("routes", "route-registry"), ("tptctl-commands", "tptctl-output"),
    ("reconcilers", "reconciler-stub")]

theorem neighbours_of_name {e e' : Emitter} (he : e ∈ defaultEmitters) (he' : e' ∈ defaultEmitters)
    (h : (e.name, e'.name) ∈ neighbours) : Neighbours e e' := by
  have hnamed {a b : Emitter} (ha : a ∈ defaultEmitters) (hb : b ∈ defaultEmitters)
      (hnames : (e.name, e'.name) = (a.name, b.name)) (hab : Neighbours a b) : Neighbours e e' := by
    obtain ⟨hfirst, hsecond⟩ := Prod.mk.inj hnames
    rw [eq_of_name he ha hfirst, eq_of_name he' hb hsecond]
    exact hab
  simp only [neighbours, List.mem_cons, List.not_mem_nil, or_false] at h
  rcases h with h | h | h | h
  · exact hnamed (by simp [defaultEmitters]) (by simp [defaultEmitters]) h .api
  · exact hnamed (by simp [defaultEmitters]) (by simp [defaultEmitters]) h .routes
  · exact hnamed (by simp [defaultEmitters]) (by simp [defaultEmitters]) h .commands
  · exact hnamed (by simp [defaultEmitters]) (by simp [defaultEmitters]) h .reconcilers

theorem neighbours_of_directory {e e' : Emitter} (he : e ∈ defaultEmitters) (he' : e' ∈ defaultEmitters)
    (h : e.directory = e'.directory) : e = e' ∨ Neighbours e e' ∨ Neighbours e' e := by
  have hall : ∀ row ∈ layout, ∀ row' ∈ layout, row.2.1 = row'.2.1 →
      row.1 = row'.1 ∨ (row.1, row'.1) ∈ neighbours ∨ (row'.1, row.1) ∈ neighbours := by
    decide +kernel
  rcases hall _ (mem_layout he) _ (mem_layout he') h with hsame | hpair | hpair
  · exact Or.inl (eq_of_name he he' hsame)
  · exact Or.inr (Or.inl (neighbours_of_name he he' hpair))
  · exact Or.inr (Or.inr (neighbours_of_name he' he hpair))

end Emitter

/-! ### Names of files -/

namespace Emitter

/-- The name of the file for a target. -/
def fileName (e : Emitter) (t : Target) : Except String (List Char) :=
  fill t.placeholder? e.file

variable {e : Emitter} (he : e ∈ defaultEmitters)
include he

theorem fileName_of_word {text : String} (h : (layout.lookup e.name).map Prod.snd = some (word text)) (t : Target) :
    e.fileName t = .ok text.toList := by
  rw [lookup_layout he] at h
  have hfile : e.file = word text := Option.some.inj h
  rw [fileName, hfile]
  exact PathTemplate.fill_literals _

theorem fileName_of_ended {key text : String} (h : (layout.lookup e.name).map Prod.snd = some (ended key text))
    {t : Target} {value : String} (hvalue : t.placeholder? key = some value) :
    e.fileName t = .ok (value ++ text).toList := by
  rw [lookup_layout he] at h
  have hfile : e.file = ended key text := Option.some.inj h
  rw [fileName, hfile]
  exact PathTemplate.fill_hole.mpr ⟨value, _, hvalue, PathTemplate.fill_literals _, String.toList_append ..⟩

end Emitter

/-! ### Kinds of emitters -/

/-- The emitters with a file for each version. -/
def versionEmitters : List Emitter :=
  [.notifications, .registry, .database]

/-- The emitters with a file for each group of a version. -/
def partEmitters : List Emitter :=
  [.objects, .taggedFields, .routes, .handlers, .client]

/-- The emitters with a file for each group that has commands. -/
def commandEmitters : List Emitter :=
  [.commands, .output]

/-- The emitters with a file for each program of a controller. -/
def programEmitters : List Emitter :=
  [.controller, .image]

/-- What an emitter has targets for, and the placeholders of its directory. -/
structure Emitter.Kind (e : Emitter) (granularity : Granularity) (above : List String) : Prop where
  mem : e ∈ defaultEmitters
  granularity : e.granularity = granularity
  keys : keys e.directory.flatten = above

theorem Emitter.kind_of_layout {e : Emitter} (he : e ∈ defaultEmitters) {above : List String}
    (h : (layout.lookup e.name).map (fun row => keys row.1.flatten) = some above) : e.Kind e.granularity above where
  mem := he
  granularity := rfl
  keys := by
    rw [lookup_layout he] at h
    exact Option.some.inj h

theorem kind_of_version {e : Emitter} (he : e ∈ versionEmitters) : e.Kind .version ["version"] := by
  simp only [versionEmitters, List.mem_cons, List.not_mem_nil, or_false] at he
  rcases he with rfl | rfl | rfl <;> exact Emitter.kind_of_layout (by simp [defaultEmitters]) rfl

theorem kind_of_part {e : Emitter} (he : e ∈ partEmitters) : e.Kind .versionGroup ["version"] := by
  simp only [partEmitters, List.mem_cons, List.not_mem_nil, or_false] at he
  rcases he with rfl | rfl | rfl | rfl | rfl <;> exact Emitter.kind_of_layout (by simp [defaultEmitters]) rfl

theorem kind_of_command {e : Emitter} (he : e ∈ commandEmitters) : e.Kind .group [] := by
  simp only [commandEmitters, List.mem_cons, List.not_mem_nil, or_false] at he
  rcases he with rfl | rfl <;> exact Emitter.kind_of_layout (by simp [defaultEmitters]) rfl

theorem kind_of_program {e : Emitter} (he : e ∈ programEmitters) : e.Kind .group ["controller"] := by
  simp only [programEmitters, List.mem_cons, List.not_mem_nil, or_false] at he
  rcases he with rfl | rfl <;> exact Emitter.kind_of_layout (by simp [defaultEmitters]) rfl

theorem kind_of_reconcilers : Emitter.reconcilers.Kind .group ["package"] :=
  Emitter.kind_of_layout (by simp [defaultEmitters]) rfl

theorem kind_of_stub : Emitter.stub.Kind .reconciledObject ["package"] :=
  Emitter.kind_of_layout (by simp [defaultEmitters]) rfl

theorem defaultEmitters_kinds {e : Emitter} (he : e ∈ defaultEmitters) :
    e ∈ versionEmitters ∨ e ∈ partEmitters ∨ e ∈ commandEmitters ∨ e ∈ programEmitters ∨ e = .reconcilers ∨
      e = .stub := by
  simp only [defaultEmitters, versionEmitters, partEmitters, commandEmitters, programEmitters, List.mem_cons,
    List.not_mem_nil, or_false] at he ⊢
  tauto

/-! ### Artifacts side by side -/

/-- Different sites that have their files in one directory. -/
inductive Beside : Emitter × Target → Emitter × Target → Prop
  | parts {e : Emitter} {s : VersionSlice} {g g' : GroupSlice} (he : e ∈ partEmitters) :
    Beside (e, .versionGroup s g) (e, .versionGroup s g')
  | notifications {s : VersionSlice} {g : GroupSlice} {i : VersionIndex} :
    Beside (.objects, .versionGroup s g) (.notifications, .version s i)
  | registry {s : VersionSlice} {g : GroupSlice} {i : VersionIndex} :
    Beside (.routes, .versionGroup s g) (.registry, .version s i)
  | commands {e e' : Emitter} {g g' : Group} (he : e ∈ commandEmitters) (he' : e' ∈ commandEmitters) :
    Beside (e, .group g) (e', .group g')
  | programs {e : Emitter} {g g' : Group} (he : e ∈ programEmitters)
    (hsame : g.names.controller = g'.names.controller) : Beside (e, .group g) (e, .group g')
  | reconcilers {g g' : Group}
    (hsame : Path.Component.ofSegment? g.names.package = Path.Component.ofSegment? g'.names.package) :
    Beside (.reconcilers, .group g) (.reconcilers, .group g')
  | stub {g g' : Group} {r : ReconciledObject}
    (hsame : Path.Component.ofSegment? g.names.package = Path.Component.ofSegment? g'.names.package) :
    Beside (.reconcilers, .group g) (.stub, .reconciledObject g' r)
  | stubs {g g' : Group} {r r' : ReconciledObject}
    (hsame : Path.Component.ofSegment? g.names.package = Path.Component.ofSegment? g'.names.package) :
    Beside (.stub, .reconciledObject g r) (.stub, .reconciledObject g' r')

theorem Beside.mem {x y : Emitter × Target} (h : Beside x y) : x.1 ∈ defaultEmitters ∧ y.1 ∈ defaultEmitters := by
  cases h with
  | parts he => exact ⟨(kind_of_part he).mem, (kind_of_part he).mem⟩
  | notifications => exact ⟨by simp [defaultEmitters], by simp [defaultEmitters]⟩
  | registry => exact ⟨by simp [defaultEmitters], by simp [defaultEmitters]⟩
  | commands he he' => exact ⟨(kind_of_command he).mem, (kind_of_command he').mem⟩
  | programs he hsame => exact ⟨(kind_of_program he).mem, (kind_of_program he).mem⟩
  | reconcilers hsame => exact ⟨kind_of_reconcilers.mem, kind_of_reconcilers.mem⟩
  | stub hsame => exact ⟨kind_of_reconcilers.mem, kind_of_stub.mem⟩
  | stubs hsame => exact ⟨kind_of_stub.mem, kind_of_stub.mem⟩

namespace Config.Built

variable {project : Project} {inspect : Inspector} {c : Config} {m : Model}

theorem slice_eq (h : c.Built project inspect m) {s s' : VersionSlice} (hs : s ∈ m.slices) (hs' : s' ∈ m.slices)
    (hsame : Path.Component.ofSegment? s.version = Path.Component.ofSegment? s'.version) : s = s' := by
  have hname {s : VersionSlice} (hs : s ∈ m.slices) : Path.IsName s.version :=
    isName_version (h.isValid_of_mem (h.partitioned.mem_versions hs))
  have hversion := (hname hs).symm.trans (hsame.trans (hname hs'))
  rw [Option.some.injEq, Path.Component.name.injEq] at hversion
  exact h.slice_eq_of_version hs hs' hversion

theorem controller_eq (h : c.Built project inspect m) {g g' : Group} (hg : g ∈ m.groups) (hg' : g' ∈ m.groups)
    (hsame : Path.Component.ofSegment? g.names.controller = Path.Component.ofSegment? g'.names.controller) :
    g.names.controller = g'.names.controller := by
  have hname {g : Group} (hg : g ∈ m.groups) : Path.IsName g.names.controller := by
    have htarget : Target.group g ∈ Target.all m .group := List.mem_map_of_mem hg
    obtain ⟨c, hc, hdot⟩ := h.placeholder_grounded htarget "controller" g.names.controller (Or.inr rfl) rfl
    rw [← String.ofList_toList (s := g.names.controller)]
    exact PathTemplate.isName_of_mem hc hdot
  have hsame := (hname hg).symm.trans (hsame.trans (hname hg'))
  rw [Option.some.injEq, Path.Component.name.injEq] at hsame
  exact hsame

/-- What the placeholders of the directory of an emitter stand for is the same for both targets. -/
def Agree (e : Emitter) (t t' : Target) : Prop :=
  ∀ key ∈ keys e.directory.flatten,
    (t.placeholder? key).bind Path.Component.ofSegment? = (t'.placeholder? key).bind Path.Component.ofSegment?

theorem beside_of_agree (h : c.Built project inspect m) {e : Emitter} {t t' : Target} (hx : (e, t) ∈ m.sites)
    (hy : (e, t') ∈ m.sites) (hagree : Agree e t t') : (e, t) = (e, t') ∨ Beside (e, t) (e, t') := by
  obtain ⟨he, ht, -⟩ := Model.mem_sites.mp hx
  obtain ⟨-, ht', -⟩ := Model.mem_sites.mp hy
  have hmem {granularity : Granularity} {above : List String} (hkind : e.Kind granularity above) :
      t ∈ Target.all m granularity ∧ t' ∈ Target.all m granularity ∧
        ∀ key ∈ above, (t.placeholder? key).bind Path.Component.ofSegment? =
          (t'.placeholder? key).bind Path.Component.ofSegment? :=
    ⟨hkind.granularity ▸ ht, hkind.granularity ▸ ht', hkind.keys ▸ hagree⟩
  rcases defaultEmitters_kinds he with hversion | hpart | hcommand | hprogram | rfl | rfl
  · obtain ⟨ht, ht', hagree⟩ := hmem (kind_of_version hversion)
    obtain ⟨s, hs, i, hi, rfl⟩ := Target.exists_version ht
    obtain ⟨s', hs', i', hi', rfl⟩ := Target.exists_version ht'
    cases h.slice_eq hs hs' (hagree "version" List.mem_cons_self)
    rw [hi] at hi'
    cases hi'
    exact Or.inl rfl
  · obtain ⟨ht, ht', hagree⟩ := hmem (kind_of_part hpart)
    obtain ⟨s, hs, g, hg, rfl⟩ := Target.exists_versionGroup ht
    obtain ⟨s', hs', g', hg', rfl⟩ := Target.exists_versionGroup ht'
    cases h.slice_eq hs hs' (hagree "version" List.mem_cons_self)
    exact Or.inr (.parts hpart)
  · obtain ⟨ht, ht', -⟩ := hmem (kind_of_command hcommand)
    obtain ⟨g, -, rfl⟩ := Target.exists_group ht
    obtain ⟨g', -, rfl⟩ := Target.exists_group ht'
    exact Or.inr (.commands hcommand hcommand)
  · obtain ⟨ht, ht', hagree⟩ := hmem (kind_of_program hprogram)
    obtain ⟨g, hg, rfl⟩ := Target.exists_group ht
    obtain ⟨g', hg', rfl⟩ := Target.exists_group ht'
    exact Or.inr (.programs hprogram (h.controller_eq hg hg' (hagree "controller" List.mem_cons_self)))
  · obtain ⟨ht, ht', hagree⟩ := hmem kind_of_reconcilers
    obtain ⟨g, -, rfl⟩ := Target.exists_group ht
    obtain ⟨g', -, rfl⟩ := Target.exists_group ht'
    exact Or.inr (.reconcilers (hagree "package" List.mem_cons_self))
  · obtain ⟨ht, ht', hagree⟩ := hmem kind_of_stub
    obtain ⟨g, -, r, -, rfl⟩ := Target.exists_reconciledObject ht
    obtain ⟨g', -, r', -, rfl⟩ := Target.exists_reconciledObject ht'
    exact Or.inr (.stubs (hagree "package" List.mem_cons_self))

theorem beside_of_neighbours (h : c.Built project inspect m) {e e' : Emitter} (hneighbours : e.Neighbours e')
    {t t' : Target} (hx : (e, t) ∈ m.sites) (hy : (e', t') ∈ m.sites) (hagree : Agree e t t') :
    Beside (e, t) (e', t') := by
  obtain ⟨-, ht, -⟩ := Model.mem_sites.mp hx
  obtain ⟨-, ht', -⟩ := Model.mem_sites.mp hy
  cases hneighbours with
  | api =>
      obtain ⟨s, hs, g, hg, rfl⟩ := Target.exists_versionGroup ht
      obtain ⟨s', hs', i, hi, rfl⟩ := Target.exists_version ht'
      have hkeys := (kind_of_part (e := .objects) (by simp [partEmitters])).keys
      cases h.slice_eq hs hs' (hagree "version" (hkeys ▸ List.mem_cons_self))
      exact .notifications
  | routes =>
      obtain ⟨s, hs, g, hg, rfl⟩ := Target.exists_versionGroup ht
      obtain ⟨s', hs', i, hi, rfl⟩ := Target.exists_version ht'
      have hkeys := (kind_of_part (e := .routes) (by simp [partEmitters])).keys
      cases h.slice_eq hs hs' (hagree "version" (hkeys ▸ List.mem_cons_self))
      exact .registry
  | commands =>
      obtain ⟨g, -, rfl⟩ := Target.exists_group ht
      obtain ⟨g', -, rfl⟩ := Target.exists_group ht'
      exact .commands (by simp [commandEmitters]) (by simp [commandEmitters])
  | reconcilers =>
      obtain ⟨g, -, rfl⟩ := Target.exists_group ht
      obtain ⟨g', -, r, -, rfl⟩ := Target.exists_reconciledObject ht'
      exact .stub (hagree "package" (kind_of_reconcilers.keys ▸ List.mem_cons_self))

theorem agree_of_beside {x y : Emitter × Target} (h : Beside x y) :
    x.1.directory = y.1.directory ∧ Agree x.1 x.2 y.2 := by
  have hagree {e : Emitter} {granularity : Granularity} {above : List String} (hkind : e.Kind granularity above)
      {t t' : Target} (hsame : ∀ key ∈ above, (t.placeholder? key).bind Path.Component.ofSegment? =
        (t'.placeholder? key).bind Path.Component.ofSegment?) : Agree e t t' :=
    fun key hkey => hsame key (hkind.keys ▸ hkey)
  cases h with
  | parts he => exact ⟨rfl, hagree (kind_of_part he) (List.forall_mem_singleton.mpr rfl)⟩
  | notifications =>
      exact ⟨Emitter.Neighbours.api.directory,
        hagree (kind_of_part (by simp [partEmitters])) (List.forall_mem_singleton.mpr rfl)⟩
  | registry =>
      exact ⟨Emitter.Neighbours.routes.directory,
        hagree (kind_of_part (by simp [partEmitters])) (List.forall_mem_singleton.mpr rfl)⟩
  | commands he he' =>
      refine ⟨?_, hagree (kind_of_command he) fun key hkey => absurd hkey List.not_mem_nil⟩
      simp only [commandEmitters, List.mem_cons, List.not_mem_nil, or_false] at he he'
      rcases he with rfl | rfl <;> rcases he' with rfl | rfl
      · rfl
      · exact Emitter.Neighbours.commands.directory
      · exact Emitter.Neighbours.commands.directory.symm
      · rfl
  | programs he hsame =>
      exact ⟨rfl, hagree (kind_of_program he)
        (List.forall_mem_singleton.mpr (congrArg (fun name => Path.Component.ofSegment? name) hsame))⟩
  | reconcilers hsame => exact ⟨rfl, hagree kind_of_reconcilers (List.forall_mem_singleton.mpr hsame)⟩
  | stub hsame =>
      exact ⟨Emitter.Neighbours.reconcilers.directory,
        hagree kind_of_reconcilers (List.forall_mem_singleton.mpr hsame)⟩
  | stubs hsame => exact ⟨rfl, hagree kind_of_stub (List.forall_mem_singleton.mpr hsame)⟩

/-- Artifacts are in one directory exactly when they are the same or side by side. -/
theorem directory_eq_iff_beside (h : c.Built project inspect m) (hplain : c.Plain) {x y : Emitter × Target}
    (hx : x ∈ m.sites) (hy : y ∈ m.sites) {a b : Artifact} (ha : x.1.Makes project m x.2 a)
    (hb : y.1.Makes project m y.2 b) : a.directory = b.directory ↔ x = y ∨ Beside x y ∨ Beside y x := by
  obtain ⟨e, t⟩ := x
  obtain ⟨e', t'⟩ := y
  have he := (Model.mem_sites.mp hx).1
  have he' := (Model.mem_sites.mp hy).1
  rw [h.directory_eq_iff hplain he he' ha hb]
  constructor
  · rintro ⟨htemplate, hagree⟩
    rcases Emitter.neighbours_of_directory he he' htemplate with rfl | hneighbours | hneighbours
    · exact (h.beside_of_agree hx hy hagree).imp id Or.inl
    · exact Or.inr (Or.inl (h.beside_of_neighbours hneighbours hx hy hagree))
    · refine Or.inr (Or.inr (h.beside_of_neighbours hneighbours hy hx fun key hkey => ?_))
      rw [← htemplate] at hkey
      exact (hagree key hkey).symm
  · rintro (heq | hbeside | hbeside)
    · cases heq
      exact ⟨rfl, fun _ _ => rfl⟩
    · exact agree_of_beside hbeside
    · obtain ⟨htemplate, hagree⟩ := agree_of_beside hbeside
      exact ⟨htemplate.symm, fun key hkey => (hagree key (htemplate ▸ hkey)).symm⟩

/-- Artifacts have one path exactly when they are in one directory and their files have one name. -/
theorem same_iff (h : c.Built project inspect m) (hplain : c.Plain) {e e' : Emitter} (he : e ∈ defaultEmitters)
    (he' : e' ∈ defaultEmitters) {t t' : Target} {a b : Artifact} (ha : e.Makes project m t a)
    (hb : e'.Makes project m t' b) : Path.same a.path b.path = true ↔
      a.directory = b.directory ∧ e.fileName t = e'.fileName t' := by
  obtain ⟨texts, text, hlocated⟩ := h.exists_located hplain he ha
  obtain ⟨texts', text', hlocated'⟩ := h.exists_located hplain he' hb
  rw [Path.same_iff_components, hlocated.components, hlocated'.components, hlocated.directory, hlocated'.directory,
    Emitter.fileName, hlocated.file, Emitter.fileName, hlocated'.file, List.append_singleton_inj, Path.Component.name.injEq, Except.ok.injEq,
    String.toList_inj]

/-- No two artifacts have one path exactly when files side by side have different names. -/
theorem pathsApart_iff (h : c.Built project inspect m) (hplain : c.Plain) :
    PathsApart (m.artifacts project) ↔ ∀ x ∈ m.sites, ∀ y ∈ m.sites, Beside x y →
      x.1.fileName x.2 = y.1.fileName y.2 → x = y := by
  have hsymm (a b : Artifact) (hab : Path.same a.path b.path = false) : Path.same b.path a.path = false := by
    rw [Path.same_comm]
    exact hab
  rw [PathsApart, h.pairwise_artifacts_iff hsymm]
  constructor
  · intro hapart x hx y hy hbeside hfile
    obtain ⟨a, -, ha⟩ := h.exists_makes hx
    obtain ⟨b, -, hb⟩ := h.exists_makes hy
    have hdirectory := (h.directory_eq_iff_beside hplain hx hy ha hb).mpr (Or.inr (Or.inl hbeside))
    have hsame := (h.same_iff hplain (Model.mem_sites.mp hx).1 (Model.mem_sites.mp hy).1 ha hb).mpr ⟨hdirectory, hfile⟩
    by_contra hne
    rw [hapart x hx y hy hne a b ha hb] at hsame
    cases hsame
  · intro hfiles x hx y hy hne a b ha hb
    rw [← Bool.not_eq_true, h.same_iff hplain (Model.mem_sites.mp hx).1 (Model.mem_sites.mp hy).1 ha hb,
      h.directory_eq_iff_beside hplain hx hy ha hb]
    rintro ⟨heq | hbeside | hbeside, hfile⟩
    · exact hne heq
    · exact hne (hfiles x hx y hy hbeside hfile)
    · exact hne (hfiles y hy x hx hbeside hfile.symm).symm

end Config.Built

end ApiForge
