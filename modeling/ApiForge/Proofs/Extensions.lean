import ApiForge.Proofs.Contents
import ApiForge.Proofs.Rebasing
import Mathlib

/-! What is generated for an extension against what is generated for the base project. From one configuration with a
migration order of its own, and from the same sources, both get the same model; the files are then compared emitter by
emitter, and what is not an import does not depend on the project at all. -/

namespace ApiForge

open Code (File Import Lines)
open Generated

/-! ### Models -/

section Models

variable {p q : Project} {inspect : Inspector}

theorem inspectSources_root (hroot : p.root = q.root) (g : GroupConfig) (versions : List String) :
    inspectSources p inspect g versions = inspectSources q inspect g versions := by
  induction versions with
  | nil => rfl
  | cons v versions ih => rw [inspectSources, inspectSources, hroot, ih]

/-- Of the project, only its root counts for what a group is built into. -/
theorem GroupConfig.Built.unique (hroot : p.root = q.root) {c : GroupConfig} {g g' : Group} (h : c.Built p inspect g)
    (h' : c.Built q inspect g') : g = g' := by
  have hobjects : g.objects = g'.objects := by
    obtain ⟨sources, hsources, hobjects⟩ := h.inspected
    obtain ⟨sources', hsources', hobjects'⟩ := h'.inspected
    rw [inspectSources_root hroot, hsources'] at hsources
    cases hsources
    exact hobjects.trans hobjects'.symm
  have hreconciled : g.reconciled = g'.reconciled := by rw [h.reconciled, h'.reconciled, hobjects]
  have hmarked : g.marked = g'.marked := by rw [h.marked, h'.marked, hobjects]
  have htags : g.tags = g'.tags := by rw [h.tags, h'.tags, hobjects]
  have hname : g.name = g'.name := h.name.trans h'.name.symm
  have hnames : g.names = g'.names := h.names.trans h'.names.symm
  cases g
  cases g'
  cases hname
  cases hnames
  cases hobjects
  cases hreconciled
  cases hmarked
  cases htags
  rfl

theorem built_groups_unique (hroot : p.root = q.root) {cs : List GroupConfig} {gs gs' : List Group}
    (h : List.Forall₂ (GroupConfig.Built p inspect) cs gs) (h' : List.Forall₂ (GroupConfig.Built q inspect) cs gs') :
    gs = gs' := by
  induction h generalizing gs' with
  | nil =>
      cases h'
      rfl
  | cons hg hgs ih =>
      cases h' with
      | cons hg' hgs' => rw [hg.unique hroot hg', ih hgs']

theorem buildModel_settings {c : Config} {m : Model} (h : buildModel p inspect c = .ok m) :
    m.apiNamespace = c.apiNamespace ∧ m.imageRepo = c.imageRepo ∧ m.docs = c.docs := by
  rw [buildModel] at h
  split at h
  · cases h
  · cases hgroups : buildGroups p inspect c.groups with
    | error f =>
        rw [hgroups] at h
        cases h
    | ok groups =>
        rw [hgroups] at h
        simp only [bind, Except.bind] at h
        split at h
        · cases h
        · split at h
          · cases h
          · cases h
            exact ⟨rfl, rfl, rfl⟩

/-- What kind of project it is only decides on the built-in migration order and on what a build refuses. -/
theorem buildModel_unique (hroot : p.root = q.root) {c : Config} {orders : List MigrationOrder}
    (horders : c.migrationOrder = some orders) {m m' : Model} (h : buildModel p inspect c = .ok m)
    (h' : buildModel q inspect c = .ok m') : m = m' := by
  have hbuilt := buildModel_ok h
  have hbuilt' := buildModel_ok h'
  obtain ⟨hnamespace, hrepo, hdocs⟩ := buildModel_settings h
  obtain ⟨hnamespace', hrepo', hdocs'⟩ := buildModel_settings h'
  have hgroups : m.groups = m'.groups := built_groups_unique hroot hbuilt.groups hbuilt'.groups
  have hindex : m.index = m'.index := by
    have hordered := hbuilt.ordered
    have hordered' := hbuilt'.ordered
    simp only [migrationOrderOf, horders] at hordered hordered'
    rw [hgroups, hordered'] at hordered
    exact (Prod.mk.inj hordered).1.symm
  have hslices : m.slices = m'.slices := by rw [hbuilt.sliced, hbuilt'.sliced, hgroups]
  rw [← hnamespace'] at hnamespace
  rw [← hrepo'] at hrepo
  rw [← hdocs'] at hdocs
  cases m
  cases m'
  cases hnamespace
  cases hrepo
  cases hdocs
  cases hgroups
  cases hindex
  cases hslices
  rfl

end Models

/-! ### Artifacts -/

def Document.imports : Document → List (List Import)
  | .code file => file.imports
  | .plain _ => []

/-- The texts differ in the lines of their imports only, and those of the second are those of the first with the module
`M` for the base module. -/
structure Document.Rebased (M : String) (d d' : Document) : Prop where
  imports : ImportsRebased M d.imports d'.imports
  text : ∃ front back : Lines, d.text = Code.text (front ++ File.importLines d.imports ++ back) ∧
    d'.text = Code.text (front ++ File.importLines d'.imports ++ back)

structure Artifact.Rebased (M : String) (a a' : Artifact) : Prop where
  emitter : a'.emitter = a.emitter
  path : a'.path = a.path
  mode : a'.mode = a.mode
  document : a.document.Rebased M a'.document

theorem Code.File.Rebased.document {M : String} {f f' : File} (h : f.Rebased M f') :
    (Document.code f).Rebased M (.code f') :=
  ⟨h.imports, h.text⟩

theorem plain_rebased (M text : String) : (Document.plain text).Rebased M (.plain text) := by
  have htext : text = Code.text ([⟨[.plain text]⟩] ++ File.importLines [] ++ []) := by
    simp [Code.text, Code.Line.text, Code.Piece.text, File.importLines, String.join]
  exact ⟨.nil, [⟨[.plain text]⟩], [], htext, htext⟩

namespace Config.Built

variable {root M : String} {inspect : Inspector} {c : Config} {m : Model}

theorem isValid_of_object {project : Project} (h : c.Built project inspect m) {g : Group} (hg : g ∈ m.groups)
    {o : ApiObject} (ho : o ∈ g.objects) : Version.isValid o.version = true :=
  h.isValid_of_mem (h.version_mem hg (List.mem_map_of_mem ho))

theorem isValid_of_commandObjects {project : Project} (h : c.Built project inspect m) {g : Group} (hg : g ∈ m.groups) :
    ∀ o ∈ g.commandObjects, Version.isValid o.version = true := fun o ho =>
  h.isValid_of_object hg ((Group.latest_latestObjects g).mem o (Group.mem_commandObjects.mp ho).1)

theorem isValid_of_reconcilers {project : Project} (h : c.Built project inspect m) {g : Group} (hg : g ∈ m.groups)
    {rs : List Reconciler} (hrs : reconcilersOf g = .ok rs) : ∀ r ∈ rs, Version.isValid r.object.version = true := by
  intro r hr
  obtain ⟨_, -, hentry⟩ := exists_of_forall₂ (h.lastEntries hg hrs) hr
  exact h.isValid_of_object hg hentry.mem

theorem render_rebased (h : c.Built ⟨root, .base⟩ inspect m) {e : Emitter} (he : e ∈ defaultEmitters) {t : Target}
    (ht : t ∈ Target.all m e.granularity) (happlies : e.applies t = true) :
    ∃ d d', e.render ⟨root, .base⟩ m t = .ok d ∧ e.render ⟨root, .extension M⟩ m t = .ok d' ∧ d.Rebased M d' := by
  have hversion {v : String} (hv : t.version? = some v) : Version.isValid v = true :=
    h.isValid_of_mem (h.version_of_target ht hv)
  simp only [defaultEmitters, List.mem_cons, List.not_mem_nil, or_false] at he
  rcases he with rfl | rfl | rfl | rfl | rfl | rfl | rfl | rfl | rfl | rfl | rfl | rfl | rfl | rfl
  · obtain ⟨s, -, g, -, rfl⟩ := Target.exists_versionGroup ht
    exact ⟨_, _, rfl, rfl, (objectsFile_rebased M s.version g).document⟩
  · obtain ⟨s, -, i, -, rfl⟩ := Target.exists_version ht
    exact ⟨_, _, rfl, rfl, (notificationsFile_rebased M s).document⟩
  · obtain ⟨s, -, g, -, rfl⟩ := Target.exists_versionGroup ht
    exact ⟨_, _, rfl, rfl, (taggedFieldsFile_rebased (hversion rfl) g).document⟩
  · obtain ⟨s, -, g, -, rfl⟩ := Target.exists_versionGroup ht
    exact ⟨_, _, rfl, rfl, (routesFile_rebased (hversion rfl) g).document⟩
  · obtain ⟨s, -, i, -, rfl⟩ := Target.exists_version ht
    exact ⟨_, _, rfl, rfl, (registryFile_rebased (hversion rfl) i).document⟩
  · obtain ⟨s, -, g, -, rfl⟩ := Target.exists_versionGroup ht
    exact ⟨_, _, rfl, rfl, (handlersFile_rebased (hversion rfl) g).document⟩
  · obtain ⟨s, -, i, hi, rfl⟩ := Target.exists_version ht
    have hindex : (i.version == s.version) = true :=
      List.find?_some (p := fun i : VersionIndex => i.version == s.version) hi
    have hvalid : Version.isValid i.version = true := by
      rw [beq_iff_eq.mp hindex]
      exact hversion rfl
    exact ⟨_, _, rfl, rfl, (databaseFile_rebased hvalid).document⟩
  · obtain ⟨s, -, g, -, rfl⟩ := Target.exists_versionGroup ht
    exact ⟨_, _, rfl, rfl, (clientFile_rebased (hversion rfl) g).document⟩
  · obtain ⟨g, hg, rfl⟩ := Target.exists_group ht
    exact ⟨_, _, rfl, rfl, (commandsFile_rebased (h.isValid_of_commandObjects hg)).document⟩
  · obtain ⟨g, hg, rfl⟩ := Target.exists_group ht
    exact ⟨_, _, rfl, rfl, (outputFile_rebased (h.isValid_of_commandObjects hg)).document⟩
  · obtain ⟨g, hg, rfl⟩ := Target.exists_group ht
    obtain ⟨rs, version, hrs, hlatest⟩ := (h.controlled hg).stream (reconciled_ne_nil happlies)
    obtain ⟨f, f', hf, hf', hrebased⟩ := controllerFile_rebased hrs hlatest (h.isValid_of_reconcilers hg hrs)
    exact ⟨_, _, congrArg (·.map Document.code) hf, congrArg (·.map Document.code) hf', hrebased.document⟩
  · obtain ⟨g, hg, rfl⟩ := Target.exists_group ht
    obtain ⟨rs, version, hrs, -⟩ := (h.controlled hg).stream (reconciled_ne_nil happlies)
    obtain ⟨f, f', hf, hf', hrebased⟩ := reconcilersFile_rebased hrs (h.isValid_of_reconcilers hg hrs)
    exact ⟨_, _, congrArg (·.map Document.code) hf, congrArg (·.map Document.code) hf', hrebased.document⟩
  · obtain ⟨g, hg, r, hr, rfl⟩ := Target.exists_reconciledObject ht
    obtain ⟨o, ho⟩ := (h.controlled hg).entries r hr
    have hreconciler : reconcilerOf g r = .ok ⟨o, !r.disableNotificationPersistence⟩ := by
      rw [reconcilerOf, ho.found]
      rfl
    obtain ⟨f, f', hf, hf', hrebased⟩ := stubFile_rebased hreconciler (h.isValid_of_object hg ho.mem)
    exact ⟨_, _, congrArg (·.map Document.code) hf, congrArg (·.map Document.code) hf', hrebased.document⟩
  · obtain ⟨g, hg, rfl⟩ := Target.exists_group ht
    exact ⟨_, _, rfl, rfl, plain_rebased M _⟩

/-- An emitter has the same artifacts, each with the same path, in the base project and in an extension. -/
theorem artifact_rebased (h : c.Built ⟨root, .base⟩ inspect m) {e : Emitter} (he : e ∈ defaultEmitters) {t : Target}
    (ht : t ∈ Target.all m e.granularity) (happlies : e.applies t = true) :
    ∃ a a', e.artifact ⟨root, .base⟩ m t = .ok a ∧ e.artifact ⟨root, .extension M⟩ m t = .ok a' ∧ a.Rebased M a' := by
  obtain ⟨d, d', hd, hd', hrebased⟩ := h.render_rebased (M := M) he ht happlies
  obtain ⟨cs, hcs⟩ := PathTemplate.exists_fill (h.serves he ht ⟨root, .base⟩).defined
  have hpath : PathTemplate.expand e.path t.describe t.placeholder? = .ok (String.ofList cs) :=
    PathTemplate.expand_eq_ok_iff.mpr ⟨(defaultEmitters_keys he).1, cs, hcs, rfl⟩
  refine ⟨⟨e.name, String.ofList cs, e.mode, d⟩, ⟨e.name, String.ofList cs, e.mode, d'⟩, ?_, ?_,
    rfl, rfl, rfl, hrebased⟩
  · rw [Emitter.artifact, hpath, hd]
  · rw [Emitter.artifact, hpath, hd']

end Config.Built

/-- When a configuration says in which order to migrate, an extension gets the files that the base project gets: from
the same emitters, at the same paths and in the same modes. Their texts differ in the lines of the imports only, and up
to their order the imports are the same but for the packages of the project, which come from the module of the
extension; the libraries are those of the base project in both. -/
theorem extension_artifacts_rebased {root M : String} {inspect : Inspector} {c : Config} {orders : List MigrationOrder}
    (horders : c.migrationOrder = some orders) {m m' : Model} (hbase : buildModel ⟨root, .base⟩ inspect c = .ok m)
    (hextension : buildModel ⟨root, .extension M⟩ inspect c = .ok m') :
    (∃ as as', defaultEmitters.mapM (·.artifacts ⟨root, .base⟩ m) = .ok as ∧
      defaultEmitters.mapM (·.artifacts ⟨root, .extension M⟩ m') = .ok as' ∧
      List.Forall₂ (Artifact.Rebased M) as.flatten as'.flatten) ∧
    ∀ i ∈ [notifications, serverLibrary, clientLibrary, commandLibrary, controllerLibrary], i.rebase M = i := by
  have hroot : (⟨root, .base⟩ : Project).root = (⟨root, .extension M⟩ : Project).root := rfl
  obtain rfl : m = m' := buildModel_unique hroot horders hbase hextension
  have hbuilt := buildModel_ok hbase
  constructor
  · have hpairs : ∀ e ∈ defaultEmitters, ∃ as as', e.artifacts ⟨root, .base⟩ m = .ok as ∧
        e.artifacts ⟨root, .extension M⟩ m = .ok as' ∧ List.Forall₂ (Artifact.Rebased M) as as' := by
      intro e he
      refine exists_mapM_pair fun t ht => ?_
      obtain ⟨ht, happlies⟩ := List.mem_filter.mp ht
      exact hbuilt.artifact_rebased he ht happlies
    obtain ⟨as, as', has, has', hrebased⟩ := exists_mapM_pair hpairs
    exact ⟨as, as', has, has', List.rel_flatten hrebased⟩
  · intro i hi
    have hforeign : [notifications, serverLibrary, clientLibrary, commandLibrary, controllerLibrary].all
        (fun i => isForeign i.path) = true := by decide
    exact rebase_foreign M (List.all_eq_true.mp hforeign i hi)

/-- A group with a reconciled object and commands. -/
def helmConfig : Config where
  apiNamespace := "charts"
  groups := [{ name := "Helm", objects := [
    { name := "Release", versions := ["v0", "v1"], reconcilable := true,
      commands := { enabled := true, configPath := true } }] }]
  migrationOrder := some []

/-- Every source of the group declares the object, with the field that records reconciliation. -/
def helmSources : Inspector :=
  fun path => .ok ⟨path, "v0",
    [⟨"Release", 1, [], [⟨"Name", false, "string", []⟩, ⟨"Reconciled", false, "*bool", []⟩]⟩]⟩

theorem helm_artifacts_rebased : helmConfig.migrationOrder = some [] ∧
    ∃ m m', buildModel ⟨"", .base⟩ helmSources helmConfig = .ok m ∧
      buildModel ⟨"", .extension "example.com/charts"⟩ helmSources helmConfig = .ok m' ∧
      (∃ as as', defaultEmitters.mapM (·.artifacts ⟨"", .base⟩ m) = .ok as ∧
        defaultEmitters.mapM (·.artifacts ⟨"", .extension "example.com/charts"⟩ m') = .ok as' ∧
        List.Forall₂ (Artifact.Rebased "example.com/charts") as.flatten as'.flatten) ∧
      ∀ i ∈ [notifications, serverLibrary, clientLibrary, commandLibrary, controllerLibrary],
        i.rebase "example.com/charts" = i := by
  obtain ⟨m, hm, -⟩ : ∃ m, buildModel ⟨"", .base⟩ helmSources helmConfig = .ok m ∧ m.groups.length = 1 :=
    exists_ok_of_map (by decide +kernel)
  obtain ⟨m', hm', -⟩ : ∃ m', buildModel ⟨"", .extension "example.com/charts"⟩ helmSources helmConfig = .ok m' ∧
      m'.groups.length = 1 :=
    exists_ok_of_map (by decide +kernel)
  exact ⟨rfl, m, m', hm, hm', extension_artifacts_rebased rfl hm hm'⟩

end ApiForge
