import ApiForge.Proofs.Declarations
import ApiForge.Proofs.Sites

/-! The code files of a built model: which of them there are, and what is in each. -/

namespace ApiForge

open Code (File)
open Generated

/-- `f` is the file of the emitter for a target. -/
def Emitter.Writes (e : Emitter) (p : Project) (m : Model) (t : Target) (f : File) : Prop :=
  ∃ a ∈ m.artifacts p, e.Makes p m t a ∧ a.document = .code f

namespace Config.Built

variable {project : Project} {inspect : Inspector} {c : Config} {m : Model}

theorem writes_iff (h : c.Built project inspect m) {e : Emitter} (he : e ∈ defaultEmitters) {t : Target} {f : File} :
    e.Writes project m t f ↔ t.Within m e.granularity ∧ e.applies t = true ∧ e.render project m t = .ok (.code f) := by
  constructor
  · rintro ⟨a, -, hmakes, hdocument⟩
    exact ⟨Target.mem_all_iff.mp hmakes.target, hmakes.applies, hdocument ▸ hmakes.rendered⟩
  · rintro ⟨hwithin, happlies, hrender⟩
    obtain ⟨a, ha, hmakes⟩ := h.exists_makes (x := (e, t))
      (Model.mem_sites.mpr ⟨he, Target.mem_all_iff.mpr hwithin, happlies⟩)
    exact ⟨a, ha, hmakes, Except.ok.inj (hmakes.rendered.symm.trans hrender)⟩

theorem writes_part_iff (h : c.Built project inspect m) {e : Emitter} (he : e ∈ defaultEmitters)
    (hgranularity : e.granularity = .versionGroup) {file : Project → String → GroupSlice → File}
    (hrender : e.render = forVersionGroup file) {s : VersionSlice} {g : GroupSlice} {f : File} :
    e.Writes project m (.versionGroup s g) f ↔
      s ∈ m.slices ∧ g ∈ s.groups ∧ e.applies (.versionGroup s g) = true ∧ f = file project s.version g := by
  rw [h.writes_iff he, hrender, hgranularity]
  constructor
  · rintro ⟨⟨-, hs, hg⟩, happlies, hfile⟩
    exact ⟨hs, hg, happlies, (Document.code.inj (Except.ok.inj hfile)).symm⟩
  · rintro ⟨hs, hg, happlies, rfl⟩
    exact ⟨⟨rfl, hs, hg⟩, happlies, rfl⟩

theorem writes_objects (h : c.Built project inspect m) {s : VersionSlice} (hs : s ∈ m.slices) {g : GroupSlice}
    (hg : g ∈ s.groups) : Emitter.objects.Writes project m (.versionGroup s g) (objectsFile s.version g) :=
  (h.writes_part_iff (by simp [defaultEmitters]) rfl rfl).mpr ⟨hs, hg, rfl, rfl⟩

theorem writes_version_iff (h : c.Built project inspect m) {e : Emitter} (he : e ∈ defaultEmitters)
    (hgranularity : e.granularity = .version) {file : Project → VersionSlice → VersionIndex → File}
    (hrender : e.render = forVersion file) {s : VersionSlice} {i : VersionIndex} {f : File} :
    e.Writes project m (.version s i) f ↔
      s ∈ m.slices ∧ m.index? s.version = some i ∧ e.applies (.version s i) = true ∧ f = file project s i := by
  rw [h.writes_iff he, hrender, hgranularity]
  constructor
  · rintro ⟨⟨-, hs, hi⟩, happlies, hfile⟩
    exact ⟨hs, hi, happlies, (Document.code.inj (Except.ok.inj hfile)).symm⟩
  · rintro ⟨hs, hi, happlies, rfl⟩
    exact ⟨⟨rfl, hs, hi⟩, happlies, rfl⟩

theorem map_code_eq_ok {x : Except RenderFault File} {f : File} : x.map Document.code = .ok (.code f) ↔ x = .ok f := by
  cases x with
  | error e => exact iff_of_false nofun nofun
  | ok f' =>
      rw [Except.ok.injEq]
      constructor
      · intro heq
        exact Document.code.inj (Except.ok.inj heq)
      · rintro rfl
        rfl

/-- Files of groups that there is nothing to look for. -/
theorem writes_command_iff (h : c.Built project inspect m) {e : Emitter} (he : e ∈ defaultEmitters)
    (hgranularity : e.granularity = .group) {file : Project → Group → File}
    (hrender : e.render = forGroup fun p _ g => .ok (.code (file p g))) {g : Group} {f : File} :
    e.Writes project m (.group g) f ↔ g ∈ m.groups ∧ e.applies (.group g) = true ∧ f = file project g := by
  rw [h.writes_iff he, hrender, hgranularity]
  constructor
  · rintro ⟨⟨-, hg⟩, happlies, hfile⟩
    exact ⟨hg, happlies, (Document.code.inj (Except.ok.inj hfile)).symm⟩
  · rintro ⟨hg, happlies, rfl⟩
    exact ⟨⟨rfl, hg⟩, happlies, rfl⟩

theorem writes_group_iff (h : c.Built project inspect m) {e : Emitter} (he : e ∈ defaultEmitters)
    (hgranularity : e.granularity = .group) {file : Project → Group → Except RenderFault File}
    (hrender : e.render = forGroup fun p _ g => (file p g).map .code) {g : Group} {f : File} :
    e.Writes project m (.group g) f ↔
      g ∈ m.groups ∧ e.applies (.group g) = true ∧ file project g = .ok f := by
  rw [h.writes_iff he, hrender, hgranularity, forGroup, map_code_eq_ok]
  exact and_congr_left' (and_iff_right rfl)

theorem writes_stub_iff (h : c.Built project inspect m) {g : Group} {o : ReconciledObject} {f : File} :
    Emitter.stub.Writes project m (.reconciledObject g o) f ↔
      g ∈ m.groups ∧ o ∈ g.reconciled ∧ stubFile project g o = .ok f := by
  rw [h.writes_iff (by simp [defaultEmitters])]
  have hrender : Emitter.stub.render project m (.reconciledObject g o) = (stubFile project g o).map .code := rfl
  rw [hrender, map_code_eq_ok]
  constructor
  · rintro ⟨⟨-, hg, ho⟩, -, hfile⟩
    exact ⟨hg, ho, hfile⟩
  · rintro ⟨hg, ho, hfile⟩
    exact ⟨⟨rfl, hg, ho⟩, rfl, hfile⟩

/-- The reconcilers of a group are its reconciled objects, each at its last version. -/
theorem lastEntries (h : c.Built project inspect m) {g : Group} (hg : g ∈ m.groups) {rs : List Reconciler}
    (hrs : reconcilersOf g = .ok rs) :
    List.Forall₂ (fun r reconciler => g.LastEntry r reconciler.object) g.reconciled rs := by
  obtain ⟨d, -, hbuilt, hdistinct⟩ := h.configured hg
  obtain ⟨rs', hrs', hentries⟩ := hbuilt.exists_reconcilers hdistinct
  cases hrs.symm.trans hrs'
  exact hentries

end Config.Built

/-- The code files of a model, and what each is made of. -/
inductive Model.HasFile (m : Model) (p : Project) : Emitter → Target → File → Prop
  | objects {s : VersionSlice} {g : GroupSlice} (hs : s ∈ m.slices) (hg : g ∈ s.groups) :
    HasFile m p .objects (.versionGroup s g) (objectsFile s.version g)
  | notifications {s : VersionSlice} {i : VersionIndex} (hs : s ∈ m.slices) :
    HasFile m p .notifications (.version s i) (notificationsFile s)
  | taggedFields {s : VersionSlice} {g : GroupSlice} (hs : s ∈ m.slices) (hg : g ∈ s.groups) :
    HasFile m p .taggedFields (.versionGroup s g) (taggedFieldsFile p s.version g)
  | routes {s : VersionSlice} {g : GroupSlice} (hs : s ∈ m.slices) (hg : g ∈ s.groups) :
    HasFile m p .routes (.versionGroup s g) (routesFile p s.version g)
  | registry {s : VersionSlice} {i : VersionIndex} (hs : s ∈ m.slices) :
    HasFile m p .registry (.version s i) (registryFile p s i)
  | handlers {s : VersionSlice} {g : GroupSlice} (hs : s ∈ m.slices) (hg : g ∈ s.groups) :
    HasFile m p .handlers (.versionGroup s g) (handlersFile p s.version g)
  | database {s : VersionSlice} {i : VersionIndex} (hs : s ∈ m.slices) :
    HasFile m p .database (.version s i) (databaseFile p i)
  | client {s : VersionSlice} {g : GroupSlice} (hs : s ∈ m.slices) (hg : g ∈ s.groups) :
    HasFile m p .client (.versionGroup s g) (clientFile p s.version g)
  | commands {g : Group} (hg : g ∈ m.groups) (hcommands : hasCommands (.group g) = true) :
    HasFile m p .commands (.group g) (commandsFile p g)
  | output {g : Group} (hg : g ∈ m.groups) (hcommands : hasCommands (.group g) = true) :
    HasFile m p .output (.group g) (outputFile p g)
  | controller {g : Group} {rs : List Reconciler} {version : String} {f : File} (hg : g ∈ m.groups)
    (hreconcilers : g.hasReconcilers = true) (hfile : ControllerFile p g rs version f) :
    HasFile m p .controller (.group g) f
  | reconcilers {g : Group} {rs : List Reconciler} {f : File} (hg : g ∈ m.groups) (hfile : ReconcilersFile p g rs f) :
    HasFile m p .reconcilers (.group g) f
  | stub {g : Group} {o : ReconciledObject} {r : Reconciler} {f : File} (hg : g ∈ m.groups) (ho : o ∈ g.reconciled)
    (hfile : StubFile p g o r f) : HasFile m p .stub (.reconciledObject g o) f

theorem Config.Built.hasFile {project : Project} {inspect : Inspector} {c : Config} {m : Model}
    (h : c.Built project inspect m) {e : Emitter} (he : e ∈ defaultEmitters) {t : Target} {f : File}
    (hf : e.Writes project m t f) : m.HasFile project e t f := by
  obtain ⟨a, -, hmakes, -⟩ := id hf
  have ht := hmakes.target
  simp only [defaultEmitters, List.mem_cons, List.not_mem_nil, or_false] at he
  rcases he with rfl | rfl | rfl | rfl | rfl | rfl | rfl | rfl | rfl | rfl | rfl | rfl | rfl | rfl
  · obtain ⟨s, -, g, -, rfl⟩ := Target.exists_versionGroup ht
    obtain ⟨hs, hg, -, rfl⟩ := (h.writes_part_iff (by simp [defaultEmitters]) rfl rfl).mp hf
    exact .objects hs hg
  · obtain ⟨s, -, i, -, rfl⟩ := Target.exists_version ht
    obtain ⟨hs, -, -, rfl⟩ := (h.writes_version_iff (by simp [defaultEmitters]) rfl rfl).mp hf
    exact .notifications hs
  · obtain ⟨s, -, g, -, rfl⟩ := Target.exists_versionGroup ht
    obtain ⟨hs, hg, -, rfl⟩ := (h.writes_part_iff (by simp [defaultEmitters]) rfl rfl).mp hf
    exact .taggedFields hs hg
  · obtain ⟨s, -, g, -, rfl⟩ := Target.exists_versionGroup ht
    obtain ⟨hs, hg, -, rfl⟩ := (h.writes_part_iff (by simp [defaultEmitters]) rfl rfl).mp hf
    exact .routes hs hg
  · obtain ⟨s, -, i, -, rfl⟩ := Target.exists_version ht
    obtain ⟨hs, -, -, rfl⟩ := (h.writes_version_iff (by simp [defaultEmitters]) rfl rfl).mp hf
    exact .registry hs
  · obtain ⟨s, -, g, -, rfl⟩ := Target.exists_versionGroup ht
    obtain ⟨hs, hg, -, rfl⟩ := (h.writes_part_iff (by simp [defaultEmitters]) rfl rfl).mp hf
    exact .handlers hs hg
  · obtain ⟨s, -, i, -, rfl⟩ := Target.exists_version ht
    obtain ⟨hs, -, -, rfl⟩ := (h.writes_version_iff (by simp [defaultEmitters]) rfl rfl).mp hf
    exact .database hs
  · obtain ⟨s, -, g, -, rfl⟩ := Target.exists_versionGroup ht
    obtain ⟨hs, hg, -, rfl⟩ := (h.writes_part_iff (by simp [defaultEmitters]) rfl rfl).mp hf
    exact .client hs hg
  · obtain ⟨g, -, rfl⟩ := Target.exists_group ht
    obtain ⟨hg, hcommands, rfl⟩ := (h.writes_command_iff (by simp [defaultEmitters]) rfl rfl).mp hf
    exact .commands hg hcommands
  · obtain ⟨g, -, rfl⟩ := Target.exists_group ht
    obtain ⟨hg, hcommands, rfl⟩ := (h.writes_command_iff (by simp [defaultEmitters]) rfl rfl).mp hf
    exact .output hg hcommands
  · obtain ⟨g, -, rfl⟩ := Target.exists_group ht
    obtain ⟨hg, hreconcilers, hfile⟩ := (h.writes_group_iff (by simp [defaultEmitters]) rfl rfl).mp hf
    obtain ⟨rs, version, hfile⟩ := controllerFile_ok hfile
    exact .controller hg hreconcilers hfile
  · obtain ⟨g, -, rfl⟩ := Target.exists_group ht
    obtain ⟨hg, -, hfile⟩ := (h.writes_group_iff (by simp [defaultEmitters]) rfl rfl).mp hf
    obtain ⟨rs, hfile⟩ := reconcilersFile_ok hfile
    exact .reconcilers hg hfile
  · obtain ⟨g, -, o, -, rfl⟩ := Target.exists_reconciledObject ht
    obtain ⟨hg, ho, hfile⟩ := h.writes_stub_iff.mp hf
    obtain ⟨r, hfile⟩ := stubFile_ok hfile
    exact .stub hg ho hfile
  · -- An image is no code.
    obtain ⟨g, -, rfl⟩ := Target.exists_group ht
    obtain ⟨-, -, hrender⟩ := (h.writes_iff (by simp [defaultEmitters])).mp hf
    cases hrender

end ApiForge
