import ApiForge.Model.Build
import ApiForge.Proofs.ConfigRules
import ApiForge.Proofs.Order
import ApiForge.Proofs.Outcomes

/-! What a build that succeeds has gone through. Everything that later results say of a model is read off these
facts, and none of them looks into the build again. -/

namespace ApiForge

open Source (Marker SourceFile)

/-- What an object that is configured is built into, at each of its versions. -/
structure ObjectConfig.Describes (c : ObjectConfig) (o : ApiObject) : Prop where
  typeName : o.typeName = c.name
  version : o.version ∈ GroupConfig.objectVersions c
  excludeRoute : o.excludeRoute = c.excludeRoute
  excludeFromDb : o.excludeFromDb = c.excludeFromDb
  names : o.names = .ofObject o.typeName o.version

/-- The type and the version of an object, by which it is known within its group. -/
def ApiObject.key (o : ApiObject) : String × String :=
  (o.typeName, o.version)

/-! ### Groups -/

namespace GroupConfig

/-- An object at a version, merged with its source if there is one. -/
def entry (sources : NameMap SourceFile) (o : ObjectConfig) (version : String) : ApiObject :=
  match (sources.get? version).bind (·.find? o.name) with
  | some s => (ApiObject.ofConfig o version).merge s
  | none => ApiObject.ofConfig o version

theorem objectEntries_eq (g : GroupConfig) (sources : NameMap SourceFile) :
    g.objectEntries sources = g.objects.flatMap fun o => (objectVersions o).map (entry sources o) :=
  rfl

theorem entry_key (sources : NameMap SourceFile) (o : ObjectConfig) (version : String) :
    (entry sources o version).key = (o.name, version) := by
  rw [entry]
  split <;> rfl

theorem entry_describes {sources : NameMap SourceFile} {o : ObjectConfig} {version : String}
    (hversion : version ∈ objectVersions o) : o.Describes (entry sources o version) := by
  rw [entry]
  split <;> exact ⟨rfl, hversion, rfl, rfl, rfl⟩

end GroupConfig

/-- What the group of a configuration is built into. -/
structure GroupConfig.Built (project : Project) (inspect : Inspector) (c : GroupConfig) (g : Group) : Prop where
  name : g.name = c.name
  names : g.names = .ofGroup c.name
  inspected : ∃ sources, inspectSources project inspect c c.versions = .ok sources ∧
    g.objects = pairInstances (shareMarkers (c.objectEntries sources))
  consistent : groupFault? project.isExtension c.name g.names g.objects = none
  reconciled : g.reconciled = reconciledOf g.objects
  marked : g.marked = markedNames g.objects
  tags : g.tags = tagsOf g.objects

theorem buildGroup_ok {project : Project} {inspect : Inspector} {c : GroupConfig} {g : Group}
    (h : buildGroup project inspect c = .ok g) : c.Built project inspect g := by
  obtain ⟨sources, hsources, h⟩ := of_bind h
  dsimp only at h
  split at h
  · cases h
  · rename_i hfault
    cases h
    exact ⟨rfl, rfl, ⟨sources, hsources, rfl⟩, hfault, rfl, rfl, rfl⟩

theorem buildGroups_ok {project : Project} {inspect : Inspector} {cs : List GroupConfig} {gs : List Group}
    (h : buildGroups project inspect cs = .ok gs) : List.Forall₂ (GroupConfig.Built project inspect) cs gs := by
  induction cs generalizing gs with
  | nil =>
      cases h
      exact List.Forall₂.nil
  | cons c cs ih =>
      obtain ⟨g, hgroup, h⟩ := of_bind h
      obtain ⟨rest, hrest, h⟩ := of_bind h
      cases h
      exact List.Forall₂.cons (buildGroup_ok hgroup) (ih hrest)

theorem inspectSources_ok {project : Project} {inspect : Inspector} {c : GroupConfig} {versions : List String}
    {sources : NameMap SourceFile} (h : inspectSources project inspect c versions = .ok sources) :
    ∀ v ∈ versions, ∃ file, inspect (sourcePath project.root v c.name) = .ok file := by
  induction versions generalizing sources with
  | nil => simp
  | cons v versions ih =>
      rw [inspectSources] at h
      cases hfile : inspect (sourcePath project.root v c.name) with
      | error f => rw [hfile] at h; cases h
      | ok file =>
          cases hrest : inspectSources project inspect c versions with
          | error f => rw [hfile, hrest] at h; cases h
          | ok rest => exact List.forall_mem_cons.mpr ⟨⟨file, hfile⟩, ih hrest⟩

/-! ### Models -/

/-- What a configuration is built into. -/
structure Config.Built (project : Project) (inspect : Inspector) (c : Config) (m : Model) : Prop where
  wellFormed : c.WellFormed
  groups : List.Forall₂ (GroupConfig.Built project inspect) c.groups m.groups
  free : collision? [] (identifierUses m.groups) = none
  ordered : applyOrders (migrationOrderOf project c) (indexOf m.groups) = (m.index, none)
  sliced : m.slices = slicesOf m.groups

namespace Config.Built

variable {project : Project} {inspect : Inspector} {c : Config} {m : Model}

theorem names (h : c.Built project inspect m) : m.groups.map Group.name = c.groups.map GroupConfig.name := by
  have hname : List.Forall₂ (fun n n' => n = n') (c.groups.map GroupConfig.name) (m.groups.map Group.name) := by
    rw [List.forall₂_map_left_iff, List.forall₂_map_right_iff]
    exact h.groups.imp fun _ _ hg => hg.name.symm
  rw [List.forall₂_eq_eq_eq] at hname
  exact hname.symm

theorem nodup_names (h : c.Built project inspect m) : (m.groups.map Group.name).Nodup :=
  h.names ▸ h.wellFormed.distinct

/-- Every group of a model is built of a group of the configuration, whose objects have different names. -/
theorem configured (h : c.Built project inspect m) {g : Group} (hg : g ∈ m.groups) :
    ∃ d ∈ c.groups, d.Built project inspect g ∧ (d.objects.map ObjectConfig.name).Nodup := by
  obtain ⟨d, hd, hbuilt⟩ := exists_of_forall₂ h.groups hg
  exact ⟨d, hd, hbuilt, (h.wellFormed.groups d hd).distinct⟩

end Config.Built

theorem buildModel_ok {project : Project} {inspect : Inspector} {c : Config} {m : Model}
    (h : buildModel project inspect c = .ok m) : c.Built project inspect m := by
  rw [buildModel] at h
  split at h
  · cases h
  · rename_i hcheck
    obtain ⟨groups, hgroups, h⟩ := of_bind h
    split at h
    · cases h
    · rename_i hfree
      split at h
      · cases h
      · rename_i index happly
        cases h
        exact ⟨Config.check_eq_ok_iff.mp hcheck, buildGroups_ok hgroups, hfree, happly, rfl⟩

/-! ### The sources that count -/

section Congruence

variable {project : Project} {inspect inspect' : Inspector}

theorem inspectSources_congr (g : GroupConfig) {versions : List String}
    (h : ∀ v ∈ versions, inspect (sourcePath project.root v g.name) = inspect' (sourcePath project.root v g.name)) :
    inspectSources project inspect g versions = inspectSources project inspect' g versions := by
  induction versions with
  | nil => rfl
  | cons v versions ih =>
      rw [List.forall_mem_cons] at h
      rw [inspectSources, inspectSources, h.1, ih h.2]

theorem buildGroups_congr {groups : List GroupConfig} (h : ∀ g ∈ groups, ∀ v ∈ g.versions,
    inspect (sourcePath project.root v g.name) = inspect' (sourcePath project.root v g.name)) :
    buildGroups project inspect groups = buildGroups project inspect' groups := by
  induction groups with
  | nil => rfl
  | cons g groups ih =>
      rw [List.forall_mem_cons] at h
      rw [buildGroups, buildGroups, buildGroup, buildGroup, inspectSources_congr g h.1, ih h.2]

/-- A build looks at the sources of its groups and at nothing else. -/
theorem buildModel_congr {c : Config} (h : ∀ g ∈ c.groups, ∀ v ∈ g.versions,
    inspect (sourcePath project.root v g.name) = inspect' (sourcePath project.root v g.name)) :
    buildModel project inspect c = buildModel project inspect' c := by
  rw [buildModel, buildModel, buildGroups_congr h]

end Congruence

end ApiForge
