import ApiForge.Proofs.Declared
import ApiForge.Proofs.Emitters
import ApiForge.Proofs.Endings

/-! What the built-in emitters make of a built model. Every template has its values and every file can be rendered: the
only files that ask for more than their target is are those of the controllers, and a reconciled object always has an
entry at its last version. So a run can end early only where two paths meet or a file cannot be written. -/

namespace ApiForge

open Files (Session Writer)
open PathTemplate (Part parse fill)

/-! ### Placeholders -/

/-- The placeholders that have values for every target of the kind. -/
def Granularity.keys : Granularity → List String
  | version => ["version"]
  | versionGroup => ["version", "group", "controller", "package"]
  | group => ["group", "controller", "package"]
  | reconciledObject => ["group", "object", "controller", "package"]

theorem Target.exists_placeholder {m : Model} {granularity : Granularity} {t : Target}
    (ht : t ∈ Target.all m granularity) {key : String} (hkey : key ∈ granularity.keys) :
    ∃ value, t.placeholder? key = some value := by
  have hwithin := Target.mem_all_iff.mp ht
  cases t with
  | version s i =>
      rw [hwithin.1] at hkey
      rw [List.mem_singleton.mp hkey]
      exact ⟨s.version, rfl⟩
  | versionGroup s g =>
      rw [hwithin.1] at hkey
      simp only [Granularity.keys, List.mem_cons, List.not_mem_nil, or_false] at hkey
      rcases hkey with rfl | rfl | rfl | rfl <;> exact ⟨_, rfl⟩
  | group g =>
      rw [hwithin.1] at hkey
      simp only [Granularity.keys, List.mem_cons, List.not_mem_nil, or_false] at hkey
      rcases hkey with rfl | rfl | rfl <;> exact ⟨_, rfl⟩
  | reconciledObject g r =>
      rw [hwithin.1] at hkey
      simp only [Granularity.keys, List.mem_cons, List.not_mem_nil, or_false] at hkey
      rcases hkey with rfl | rfl | rfl | rfl <;> exact ⟨_, rfl⟩

/-- No template asks for more than its targets have, and none ends within a placeholder. -/
theorem defaultEmitters_keys {e : Emitter} (he : e ∈ defaultEmitters) :
    (parse e.path.toList).2 = true ∧ ∀ key ∈ PathTemplate.keys (parse e.path.toList).1, key ∈ e.granularity.keys := by
  have hall : ∀ e ∈ defaultEmitters.map fun e => (e.granularity, e.path),
      (parse e.2.toList).2 = true ∧ ∀ key ∈ PathTemplate.keys (parse e.2.toList).1, key ∈ e.1.keys := by
    decide +kernel
  exact hall _ (List.mem_map_of_mem he)

/-! ### Reconciled objects at their last versions -/

/-- `o` is what a group has of a reconciled object at the last of its versions. -/
structure Group.LastEntry (g : Group) (r : ReconciledObject) (o : ApiObject) : Prop where
  found : g.latestOf r = .ok o
  mem : o ∈ g.objects
  typeName : o.typeName = r.name
  last : r.latestVersion? = some o.version
  greatest : ∀ v ∈ r.versions, Version.le v o.version = true

namespace GroupConfig.Built

variable {project : Project} {inspect : Inspector} {c : GroupConfig} {g : Group}

theorem exists_lastEntry (h : c.Built project inspect g) (hdistinct : (c.objects.map ObjectConfig.name).Nodup)
    {r : ReconciledObject} (hr : r ∈ g.reconciled) : ∃ o, g.LastEntry r o := by
  have hderived := h.derived hdistinct
  obtain ⟨hversions, hsorted⟩ := hderived.versions r hr
  -- The object is reconciled on account of an entry, so it has at least the version of that.
  have hname : r.name ∈ g.reconciled.map ReconciledObject.name := List.mem_map_of_mem hr
  rw [hderived.reconciled, mem_distinct] at hname
  obtain ⟨a, ha, htype⟩ := List.mem_map.mp hname
  have hthere : a.version ∈ r.versions := by
    rw [hversions]
    exact List.mem_map_of_mem (List.mem_filter.mpr ⟨List.mem_of_mem_filter ha, decide_eq_true htype⟩)
  obtain ⟨front, v, hlast⟩ := (List.eq_nil_or_concat' r.versions).resolve_left (List.ne_nil_of_mem hthere)
  have hv : v ∈ r.versions := hlast ▸ List.mem_append_right front List.mem_cons_self
  have hlatest : r.latestVersion? = some v := by
    rw [ReconciledObject.latestVersion?, hlast, List.getLast?_concat]
  rw [hversions] at hv
  obtain ⟨b, hb, hbv⟩ := List.mem_map.mp hv
  obtain ⟨hb, hbtype⟩ := List.mem_filter.mp hb
  cases hfind : (g.objectsIn v).find? (·.typeName == r.name) with
  | none =>
      have hother := List.find?_eq_none.mp hfind b (Group.mem_objectsIn.mpr ⟨hb, hbv⟩)
      rw [of_decide_eq_true hbtype, beq_self_eq_true] at hother
      exact absurd rfl hother
  | some o =>
      obtain ⟨ho, hov⟩ := Group.mem_objectsIn.mp (List.mem_of_find?_eq_some hfind)
      have hotype : (o.typeName == r.name) = true := List.find?_some (p := fun o : ApiObject => o.typeName == r.name) hfind
      refine ⟨o, ?_, ho, beq_iff_eq.mp hotype, hov ▸ hlatest, fun w hw => ?_⟩
      · rw [Group.latestOf, hlatest]
        simp only [hfind]
      · rw [hlast] at hsorted hw
        rw [hov]
        rcases List.mem_append.mp hw with hw | hw
        · exact (List.pairwise_append.mp hsorted).2.2 w hw v List.mem_cons_self
        · rw [List.mem_singleton.mp hw]
          exact Version.le_refl v

/-- The reconcilers of a group are its reconciled objects, each at its last version. -/
theorem exists_reconcilers (h : c.Built project inspect g) (hdistinct : (c.objects.map ObjectConfig.name).Nodup) :
    ∃ rs, Generated.reconcilersOf g = .ok rs ∧
      List.Forall₂ (fun r reconciler => g.LastEntry r reconciler.object) g.reconciled rs := by
  refine exists_mapM fun r hr => ?_
  obtain ⟨o, ho⟩ := h.exists_lastEntry hdistinct hr
  refine ⟨⟨o, !r.disableNotificationPersistence⟩, ?_, ho⟩
  rw [Generated.reconcilerOf, ho.found]
  rfl

end GroupConfig.Built

namespace Generated

/-- The latest of some versions is one of them. -/
theorem exists_latestVersion {versions : List String} (h : versions ≠ []) :
    ∃ v ∈ versions, latestVersion? versions = some v := by
  cases versions with
  | nil => exact absurd rfl h
  | cons v vs =>
      refine ⟨_, ?_, rfl⟩
      clear h
      induction vs generalizing v with
      | nil => exact List.mem_singleton_self v
      | cons w vs ih =>
          rw [List.foldl_cons]
          split
          · exact (List.mem_cons.mp (ih v)).elim (fun hv => by rw [hv]; exact List.mem_cons_self)
              fun hv => List.mem_cons_of_mem _ (List.mem_cons_of_mem _ hv)
          · exact List.mem_cons_of_mem _ (ih w)

end Generated

/-- Each reconciled object of the group has an entry at its last version, and among these versions is one whose stream
the controller listens to. -/
structure Group.Controlled (g : Group) : Prop where
  entries : ∀ r ∈ g.reconciled, ∃ o, g.LastEntry r o
  stream : g.reconciled ≠ [] → ∃ rs version, Generated.reconcilersOf g = .ok rs ∧
    Generated.latestVersion? (rs.map (·.object.version)) = some version

theorem GroupConfig.Built.controlled {project : Project} {inspect : Inspector} {c : GroupConfig} {g : Group}
    (h : c.Built project inspect g) (hdistinct : (c.objects.map ObjectConfig.name).Nodup) : g.Controlled where
  entries _ hr := h.exists_lastEntry hdistinct hr
  stream hne := by
    obtain ⟨rs, hrs, hentries⟩ := h.exists_reconcilers hdistinct
    have hsome : rs.map (·.object.version) ≠ [] := by
      rw [Ne, List.map_eq_nil_iff, ← List.length_eq_zero_iff, ← hentries.length_eq, List.length_eq_zero_iff]
      exact hne
    obtain ⟨version, -, hversion⟩ := Generated.exists_latestVersion hsome
    exact ⟨rs, version, hrs, hversion⟩

theorem Config.Built.controlled {project : Project} {inspect : Inspector} {c : Config} {m : Model}
    (h : c.Built project inspect m) {g : Group} (hg : g ∈ m.groups) : g.Controlled := by
  obtain ⟨d, -, hbuilt, hdistinct⟩ := h.configured hg
  exact hbuilt.controlled hdistinct

/-! ### Targets by kind -/

namespace Target

variable {m : Model} {t : Target}

theorem exists_version (ht : t ∈ all m .version) :
    ∃ s ∈ m.slices, ∃ i, m.index? s.version = some i ∧ t = .version s i := by
  have hwithin := mem_all_iff.mp ht
  cases t with
  | version s i => exact ⟨s, hwithin.2.1, i, hwithin.2.2, rfl⟩
  | versionGroup s g => cases hwithin.1
  | group g => cases hwithin.1
  | reconciledObject g r => cases hwithin.1

theorem exists_versionGroup (ht : t ∈ all m .versionGroup) : ∃ s ∈ m.slices, ∃ g ∈ s.groups, t = .versionGroup s g := by
  have hwithin := mem_all_iff.mp ht
  cases t with
  | version s i => cases hwithin.1
  | versionGroup s g => exact ⟨s, hwithin.2.1, g, hwithin.2.2, rfl⟩
  | group g => cases hwithin.1
  | reconciledObject g r => cases hwithin.1

theorem exists_group (ht : t ∈ all m .group) : ∃ g ∈ m.groups, t = .group g := by
  have hwithin := mem_all_iff.mp ht
  cases t with
  | version s i => cases hwithin.1
  | versionGroup s g => cases hwithin.1
  | group g => exact ⟨g, hwithin.2, rfl⟩
  | reconciledObject g r => cases hwithin.1

theorem exists_reconciledObject (ht : t ∈ all m .reconciledObject) :
    ∃ g ∈ m.groups, ∃ r ∈ g.reconciled, t = .reconciledObject g r := by
  have hwithin := mem_all_iff.mp ht
  cases t with
  | version s i => cases hwithin.1
  | versionGroup s g => cases hwithin.1
  | group g => cases hwithin.1
  | reconciledObject g r => exact ⟨g, hwithin.2.1, r, hwithin.2.2, rfl⟩

end Target

/-! ### Emitters -/

namespace Generated

variable {g : Group}

theorem reconciled_ne_nil (h : hasReconcilers (.group g) = true) : g.reconciled ≠ [] := by
  simpa [hasReconcilers, Group.hasReconcilers] using h

theorem exists_controllerFile (h : g.Controlled) (hne : g.reconciled ≠ []) (p : Project) :
    ∃ file, controllerFile p g = .ok file := by
  obtain ⟨rs, version, hrs, hversion⟩ := h.stream hne
  rw [controllerFile, hrs]
  simp only [bind, Except.bind, hversion]
  exact ⟨_, rfl⟩

theorem exists_reconcilersFile (h : g.Controlled) (hne : g.reconciled ≠ []) (p : Project) :
    ∃ file, reconcilersFile p g = .ok file := by
  obtain ⟨rs, -, hrs, -⟩ := h.stream hne
  rw [reconcilersFile, hrs]
  exact ⟨_, rfl⟩

theorem exists_stubFile (h : g.Controlled) {r : ReconciledObject} (hr : r ∈ g.reconciled) (p : Project) :
    ∃ file, stubFile p g r = .ok file := by
  obtain ⟨o, ho⟩ := h.entries r hr
  rw [stubFile, reconcilerOf, ho.found]
  exact ⟨_, rfl⟩

end Generated

namespace Emitter

/-- `a` is the artifact of the emitter for a target of the model. -/
structure Makes (e : Emitter) (p : Project) (m : Model) (t : Target) (a : Artifact) : Prop where
  target : t ∈ Target.all m e.granularity
  applies : e.applies t = true
  artifact : e.artifact p m t = .ok a

/-- The values for the path and the file are there for every target that the emitter may have. -/
structure Serves (e : Emitter) (p : Project) (m : Model) (t : Target) : Prop where
  defined : ∀ key ∈ PathTemplate.keys (parse e.path.toList).1, ∃ value, t.placeholder? key = some value
  rendered : e.applies t = true → ∃ document, e.render p m t = .ok document

section Render

variable {e : Emitter} {p : Project} {m : Model} {t : Target}

theorem exists_render_version {file : Project → VersionSlice → VersionIndex → Code.File}
    (hrender : e.render = forVersion file) (ht : t ∈ Target.all m .version) : ∃ d, e.render p m t = .ok d := by
  obtain ⟨s, -, i, -, rfl⟩ := Target.exists_version ht
  rw [hrender]
  exact ⟨_, rfl⟩

theorem exists_render_versionGroup {file : Project → String → GroupSlice → Code.File}
    (hrender : e.render = forVersionGroup file) (ht : t ∈ Target.all m .versionGroup) :
    ∃ d, e.render p m t = .ok d := by
  obtain ⟨s, -, g, -, rfl⟩ := Target.exists_versionGroup ht
  rw [hrender]
  exact ⟨_, rfl⟩

theorem exists_render_group {document : Project → Model → Group → Except RenderFault Document}
    (hrender : e.render = forGroup document) (ht : t ∈ Target.all m .group)
    (h : ∀ g ∈ m.groups, t = .group g → ∃ d, document p m g = .ok d) : ∃ d, e.render p m t = .ok d := by
  obtain ⟨g, hg, rfl⟩ := Target.exists_group ht
  rw [hrender]
  exact h g hg rfl

theorem exists_render_reconciledObject {file : Project → Group → ReconciledObject → Except RenderFault Code.File}
    (hrender : e.render = forReconciledObject file) (ht : t ∈ Target.all m .reconciledObject)
    (h : ∀ g ∈ m.groups, ∀ r ∈ g.reconciled, ∃ f, file p g r = .ok f) : ∃ d, e.render p m t = .ok d := by
  obtain ⟨g, hg, r, hr, rfl⟩ := Target.exists_reconciledObject ht
  obtain ⟨f, hf⟩ := h g hg r hr
  rw [hrender, forReconciledObject, hf]
  exact ⟨.code f, rfl⟩

theorem exists_render (he : e ∈ defaultEmitters) (hcontrolled : ∀ g ∈ m.groups, g.Controlled)
    (ht : t ∈ Target.all m e.granularity) (happlies : e.applies t = true) : ∃ d, e.render p m t = .ok d := by
  simp only [defaultEmitters, List.mem_cons, List.not_mem_nil, or_false] at he
  rcases he with rfl | rfl | rfl | rfl | rfl | rfl | rfl | rfl | rfl | rfl | rfl | rfl | rfl | rfl
  · exact exists_render_versionGroup rfl ht
  · exact exists_render_version rfl ht
  · exact exists_render_versionGroup rfl ht
  · exact exists_render_versionGroup rfl ht
  · exact exists_render_version rfl ht
  · exact exists_render_versionGroup rfl ht
  · exact exists_render_version rfl ht
  · exact exists_render_versionGroup rfl ht
  · exact exists_render_group rfl ht fun g _ _ => ⟨_, rfl⟩
  · exact exists_render_group rfl ht fun g _ _ => ⟨_, rfl⟩
  · -- The program of a controller, which there is for groups with reconcilers only.
    refine exists_render_group rfl ht fun g hg htarget => ?_
    rw [htarget] at happlies
    obtain ⟨f, hf⟩ := Generated.exists_controllerFile (hcontrolled g hg) (Generated.reconciled_ne_nil happlies) p
    rw [hf]
    exact ⟨.code f, rfl⟩
  · refine exists_render_group rfl ht fun g hg htarget => ?_
    rw [htarget] at happlies
    obtain ⟨f, hf⟩ := Generated.exists_reconcilersFile (hcontrolled g hg) (Generated.reconciled_ne_nil happlies) p
    rw [hf]
    exact ⟨.code f, rfl⟩
  · exact exists_render_reconciledObject rfl ht fun g hg r hr => Generated.exists_stubFile (hcontrolled g hg) hr p
  · exact exists_render_group rfl ht fun g _ _ => ⟨_, rfl⟩

end Render

/-- An emitter that has the values for a target and can render its file makes an artifact. -/
theorem exists_artifact {e : Emitter} {p : Project} {m : Model} {t : Target} (h : e.Serves p m t)
    (hclosed : (parse e.path.toList).2 = true) (happlies : e.applies t = true) : ∃ a, e.artifact p m t = .ok a := by
  obtain ⟨cs, hcs⟩ := PathTemplate.exists_fill h.defined
  obtain ⟨document, hdocument⟩ := h.rendered happlies
  rw [artifact, PathTemplate.expand_eq_ok_iff.mpr ⟨hclosed, cs, hcs, rfl⟩, hdocument]
  exact ⟨_, rfl⟩

end Emitter

theorem builtIn_emitters : Pipeline.builtIn.emitters = defaultEmitters :=
  rfl

namespace Config.Built

variable {project : Project} {inspect : Inspector} {c : Config} {m : Model}

theorem serves (h : c.Built project inspect m) {e : Emitter} (he : e ∈ defaultEmitters) {t : Target}
    (ht : t ∈ Target.all m e.granularity) (p : Project) : e.Serves p m t where
  defined key hkey := Target.exists_placeholder ht ((defaultEmitters_keys he).2 key hkey)
  rendered happlies := Emitter.exists_render he (fun _ hg => h.controlled hg) ht happlies

theorem artifacts_eq_made (h : c.Built project inspect m) {e : Emitter} (he : e ∈ defaultEmitters) (p : Project) :
    e.artifacts p m = .ok (e.made p m) := by
  have hok : ∀ t ∈ (Target.all m e.granularity).filter e.applies, ∃ a, e.artifact p m t = .ok a ∧ True := by
    intro t ht
    obtain ⟨ht, happlies⟩ := List.mem_filter.mp ht
    obtain ⟨a, ha⟩ := Emitter.exists_artifact (h.serves he ht p) (defaultEmitters_keys he).1 happlies
    exact ⟨a, ha, trivial⟩
  obtain ⟨artifacts, hartifacts, -⟩ := exists_mapM hok
  have hall : e.artifacts p m = .ok artifacts := hartifacts
  rw [Emitter.made, hall]
  rfl

end Config.Built

/-- Every built-in emitter has its artifacts of whatever is built, so a run of all of them comes to the end unless two
paths are one or a file cannot be written. -/
theorem built_emitters_succeed {project : Project} {inspect : Inspector} {c : Config} {m : Model}
    (h : buildModel project inspect c = .ok m) :
    (∀ g ∈ m.groups, g.Controlled) ∧
      (∀ e ∈ defaultEmitters, (∀ t ∈ Target.all m e.granularity, e.Serves project m t) ∧
        ∃ artifacts, e.artifacts project m = .ok artifacts) ∧
      ∀ w s s' f, Pipeline.builtIn.run project m w s = (s', .error f) →
        Stopped w (defaultEmitters.flatMap (·.made project m)) f := by
  have hbuilt := buildModel_ok h
  refine ⟨fun g hg => hbuilt.controlled hg, fun e he => ⟨fun t ht => hbuilt.serves he ht project, _,
    hbuilt.artifacts_eq_made he project⟩, fun w s s' f hrun => ?_⟩
  rw [← builtIn_emitters]
  exact Pipeline.run_stopped rfl (fun e he => hbuilt.artifacts_eq_made he project) hrun

/-- A reconciled object at two versions, which is served at neither, beside one that is served but not reconciled. -/
theorem release_emitters_succeed :
    let project := Project.ofModule "" "example.com/charts"
    let config : Config := {
      apiNamespace := "charts"
      groups := [{ name := "Helm", objects := [
        { name := "Release", versions := ["v1", "v0"], reconcilable := true, excludeRoute := true },
        { name := "Chart", versions := ["v0"], commands := { enabled := true } }] }] }
    ∃ m, buildModel project (fun path => .ok ⟨path, "", []⟩) config = .ok m ∧
      m.groups.map (fun g => g.reconciled.map fun r => (r.name, r.latestVersion?)) = [[("Release", some "v1")]] ∧
      (∀ g ∈ m.groups, g.Controlled) ∧ ∀ e ∈ defaultEmitters, ∃ artifacts, e.artifacts project m = .ok artifacts := by
  intro project config
  obtain ⟨m, hm, hreconciled⟩ : ∃ m, buildModel project (fun path => .ok ⟨path, "", []⟩) config = .ok m ∧
      m.groups.map (fun g => g.reconciled.map fun r => (r.name, r.latestVersion?)) = [[("Release", some "v1")]] :=
    exists_ok_of_map (by decide +kernel)
  obtain ⟨hcontrolled, hemitters, -⟩ := built_emitters_succeed hm
  exact ⟨m, hm, hreconciled, hcontrolled, fun e he => (hemitters e he).2⟩

end ApiForge
