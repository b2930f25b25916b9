import ApiForge.Proofs.Contents
import ApiForge.Proofs.Success

/-! Configurations that list the same groups and objects in another order. The checks of a build ask about members, and
names and versions are sorted before anything is made of them, so such configurations are built alike: both or neither,
with the same objects by version. -/

namespace ApiForge

open Code (Declaration File)
open Source (Marker)

/-! ### Listings in another order -/

/-- The same group with its objects in another order. -/
structure GroupConfig.Reordered (c c' : GroupConfig) : Prop where
  name : c'.name = c.name
  objects : c'.objects.Perm c.objects

/-- The same configuration with its groups, and the objects of each, in another order. -/
structure Config.Reordered (c c' : Config) : Prop where
  apiNamespace : c'.apiNamespace = c.apiNamespace
  imageRepo : c'.imageRepo = c.imageRepo
  docs : c'.docs = c.docs
  migrationOrder : c'.migrationOrder = c.migrationOrder
  groups : ∃ groups, c.groups.Perm groups ∧ List.Forall₂ GroupConfig.Reordered groups c'.groups

theorem GroupConfig.Reordered.symm {c c' : GroupConfig} (h : c.Reordered c') : c'.Reordered c :=
  ⟨h.name.symm, h.objects.symm⟩

namespace Config.Reordered

variable {c c' : Config}

theorem symm (h : c.Reordered c') : c'.Reordered c := by
  obtain ⟨groups, hperm, hgroups⟩ := h.groups
  obtain ⟨groups', hgroups', hperm'⟩ := List.perm_comp_forall₂ hperm hgroups
  exact {
    apiNamespace := h.apiNamespace.symm
    imageRepo := h.imageRepo.symm
    docs := h.docs.symm
    migrationOrder := h.migrationOrder.symm
    groups := ⟨groups', hperm'.symm, hgroups'.flip.imp fun _ _ => GroupConfig.Reordered.symm⟩ }

theorem exists_group (h : c.Reordered c') {g' : GroupConfig} (hg' : g' ∈ c'.groups) :
    ∃ g ∈ c.groups, g.Reordered g' := by
  obtain ⟨groups, hperm, hgroups⟩ := h.groups
  obtain ⟨g, hg, hreordered⟩ := exists_of_forall₂ hgroups hg'
  exact ⟨g, hperm.mem_iff.mpr hg, hreordered⟩

theorem names (h : c.Reordered c') : (c'.groups.map GroupConfig.name).Perm (c.groups.map GroupConfig.name) := by
  obtain ⟨groups, hperm, hgroups⟩ := h.groups
  have hnames : groups.map GroupConfig.name = c'.groups.map GroupConfig.name := by
    rw [← List.forall₂_eq_eq_eq, List.forall₂_map_left_iff, List.forall₂_map_right_iff]
    exact hgroups.imp fun _ _ hg => hg.name.symm
  rw [← hnames]
  exact hperm.symm.map _

end Config.Reordered

/-! ### What is asked of a configuration -/

section Asked

variable {project : Project} {inspect : Inspector}

namespace GroupConfig.Reordered

variable {c c' : GroupConfig}

theorem wellFormed (h : c.Reordered c') (hc : c.WellFormed) : c'.WellFormed where
  named := h.name ▸ hc.named
  objects o ho := hc.objects o (h.objects.mem_iff.mp ho)
  distinct := (h.objects.map _).nodup_iff.mpr hc.distinct

theorem mem_versions_iff (h : c.Reordered c') {version : String} : version ∈ c'.versions ↔ version ∈ c.versions := by
  simp only [mem_versions, h.objects.mem_iff]

theorem declared?_eq (h : c.Reordered c') (name version : String) :
    c'.declared? project inspect name version = c.declared? project inspect name version := by
  rw [declared?, declared?, h.name]

theorem switchedOn_iff (h : c.Reordered c') {o : ObjectConfig} {m : Marker} :
    c'.SwitchedOn project inspect o m ↔ c.SwitchedOn project inspect o m := by
  simp only [SwitchedOn, h.declared?_eq]

theorem buildable (h : c.Reordered c') (hc : c.Buildable project inspect) : c'.Buildable project inspect where
  inspected v hv := h.name ▸ hc.inspected v (h.mem_versions_iff.mp hv)
  unlike o ho := h.name ▸ hc.unlike o (h.objects.mem_iff.mp ho)
  recorded hbase o ho hon v hv := by
    rw [h.declared?_eq]
    exact hc.recorded hbase o (h.objects.mem_iff.mp ho) (h.switchedOn_iff.mp hon) v hv

end GroupConfig.Reordered

namespace Config.Reordered

variable {c c' : Config}

theorem wellFormed (h : c.Reordered c') (hc : c.WellFormed) : c'.WellFormed where
  named := h.apiNamespace ▸ hc.named
  groups g' hg' := by
    obtain ⟨g, hg, hreordered⟩ := h.exists_group hg'
    exact hreordered.wellFormed (hc.groups g hg)
  distinct := h.names.nodup_iff.mpr hc.distinct
  orders := h.migrationOrder ▸ hc.orders

/-- An object of one configuration is an object of the other, in the group of the same name. -/
theorem exists_object (h : c.Reordered c') {g' : GroupConfig} (hg' : g' ∈ c'.groups) {o : ObjectConfig}
    (ho : o ∈ g'.objects) : ∃ g ∈ c.groups, o ∈ g.objects ∧ g.name = g'.name := by
  obtain ⟨g, hg, hreordered⟩ := h.exists_group hg'
  exact ⟨g, hg, hreordered.objects.mem_iff.mp ho, hreordered.name.symm⟩

theorem hasMigrated (h : c.Reordered c') {version name : String} (hc : c.HasMigrated version name) :
    c'.HasMigrated version name := by
  obtain ⟨g, hg, o, ho, hmigrated⟩ := hc
  obtain ⟨g', hg', ho', -⟩ := h.symm.exists_object hg ho
  exact ⟨g', hg', o, ho', hmigrated⟩

theorem mem_versions (h : c.Reordered c') {version : String} (hc : version ∈ c.versions) : version ∈ c'.versions := by
  simp only [versions, Version.sort, mem_sortBy, NameSet.mem_ofList, List.mem_flatMap] at hc ⊢
  obtain ⟨o, ⟨g, hg, ho⟩, hversion⟩ := hc
  obtain ⟨g', hg', ho', -⟩ := h.symm.exists_object hg ho
  exact ⟨o, ⟨g', hg', ho'⟩, hversion⟩

theorem buildable (h : c.Reordered c') (hc : c.Buildable project inspect) : c'.Buildable project inspect where
  checked := check_eq_ok_iff.mpr (h.wellFormed (check_eq_ok_iff.mp hc.checked))
  groups g' hg' := by
    obtain ⟨g, hg, hreordered⟩ := h.exists_group hg'
    exact hreordered.buildable (hc.groups g hg)
  disjoint g₁' hg₁' o₁ ho₁' g₂' hg₂' o₂ ho₂' hne := by
    obtain ⟨g₁, hg₁, ho₁, hname₁⟩ := h.exists_object hg₁' ho₁'
    obtain ⟨g₂, hg₂, ho₂, hname₂⟩ := h.exists_object hg₂' ho₂'
    rw [← hname₁, ← hname₂] at hne
    exact hc.disjoint g₁ hg₁ o₁ ho₁ g₂ hg₂ o₂ ho₂ hne
  migrated o ho := by
    rw [h.migrationOrder] at ho
    obtain ⟨hversion, hbefore, hafter⟩ := hc.migrated o ho
    exact ⟨h.mem_versions hversion, h.hasMigrated hbefore, h.hasMigrated hafter⟩

end Config.Reordered

end Asked

/-! ### What groups are built of -/

/-- An entry is finished alike among the same entries in another order. -/
theorem finish_perm {entries entries' : List ApiObject} (h : entries'.Perm entries) :
    finish entries' = finish entries := by
  funext o
  have hany (p : ApiObject → Bool) : entries'.any p = entries.any p := by
    rw [Bool.eq_iff_iff, List.any_eq_true, List.any_eq_true]
    simp only [h.mem_iff]
  have hcontains : (entries'.map ApiObject.typeName).contains = (entries.map ApiObject.typeName).contains := by
    funext name
    rw [Bool.eq_iff_iff, List.contains_iff_mem, List.contains_iff_mem, (h.map _).mem_iff]
  rw [finish, finish, hcontains]
  simp only [hany]

section Entries

variable {project : Project} {inspect : Inspector}

namespace GroupConfig

/-- An object at a version, merged with what the source of the version declares. -/
def entryAt (project : Project) (inspect : Inspector) (c : GroupConfig) (o : ObjectConfig) (version : String) :
    ApiObject :=
  match c.declared? project inspect o.name version with
  | some s => (ApiObject.ofConfig o version).merge s
  | none => ApiObject.ofConfig o version

/-- The entries of a group before anything is shared between them. -/
def entries (project : Project) (inspect : Inspector) (c : GroupConfig) : List ApiObject :=
  c.objects.flatMap fun o => (objectVersions o).map (c.entryAt project inspect o)

def finished (project : Project) (inspect : Inspector) (c : GroupConfig) : List ApiObject :=
  (c.entries project inspect).map (finish (c.entries project inspect))

theorem Built.objects_eq {c : GroupConfig} {g : Group} (h : c.Built project inspect g) :
    g.objects = c.finished project inspect := by
  obtain ⟨sources, hsources, hobjects⟩ := h.inspected
  have hentries : c.objectEntries sources = c.entries project inspect := by
    rw [objectEntries_eq, entries]
    refine List.flatMap_congr fun o ho => List.map_congr_left fun v hv => ?_
    have hsource := get?_inspectSources hsources (GroupConfig.mem_versions.mpr ⟨o, ho, mem_objectVersions.mp hv⟩)
    rw [entry, hsource]
    rfl
  rw [hobjects, pairInstances_shareMarkers, hentries, finished]

theorem Reordered.finished {c c' : GroupConfig} (h : c.Reordered c') :
    (c'.finished project inspect).Perm (c.finished project inspect) := by
  have hentry : c'.entryAt project inspect = c.entryAt project inspect := by
    funext o version
    rw [entryAt, entryAt, h.declared?_eq]
  have hentries : (c'.entries project inspect).Perm (c.entries project inspect) := by
    rw [entries, entries, hentry]
    exact h.objects.flatMap_right _
  rw [GroupConfig.finished, GroupConfig.finished, finish_perm hentries]
  exact hentries.map _

end GroupConfig

theorem Config.Built.objects_eq {c : Config} {m : Model} (h : c.Built project inspect m) :
    m.groups.flatMap Group.objects = c.groups.flatMap (GroupConfig.finished project inspect) := by
  have hobjects : m.groups.map Group.objects = c.groups.map (GroupConfig.finished project inspect) := by
    rw [← List.forall₂_eq_eq_eq, List.forall₂_map_left_iff, List.forall₂_map_right_iff]
    exact h.groups.flip.imp fun _ _ hg => hg.objects_eq
  rw [List.flatMap_def, List.flatMap_def, hobjects]

/-- The models have the same objects in another order. -/
theorem Config.Reordered.objects {c c' : Config} {m m' : Model} (h : c.Reordered c') (hm : c.Built project inspect m)
    (hm' : c'.Built project inspect m') :
    (m'.groups.flatMap Group.objects).Perm (m.groups.flatMap Group.objects) := by
  obtain ⟨groups, hperm, hgroups⟩ := h.groups
  rw [hm.objects_eq, hm'.objects_eq]
  refine List.Perm.trans ?_ (hperm.symm.flatMap_right _)
  rw [List.flatMap_def, List.flatMap_def]
  refine List.Perm.flatten_congr ?_
  rw [List.forall₂_map_left_iff, List.forall₂_map_right_iff]
  exact hgroups.flip.imp fun _ _ hg => hg.finished

end Entries

/-! ### The objects by version -/

theorem VersionIndex.ofObjects_perm {objects objects' : List ApiObject} (h : objects.Perm objects')
    (version : String) : ofObjects objects version = ofObjects objects' version := by
  have hnames (l : Listing) : l.names (ofObjects objects version) = l.names (ofObjects objects' version) := by
    rw [Listing.names_ofObjects, Listing.names_ofObjects]
    exact sortNames_congr (((h.filter _).filter _).map _)
  have hversion : (ofObjects objects version).version = (ofObjects objects' version).version := by
    rw [version_ofObjects, version_ofObjects]
  have hroute := hnames .route
  have hdatabase := hnames .database
  have hreconciled := hnames .reconciled
  revert hversion hroute hdatabase hreconciled
  cases ofObjects objects version
  cases ofObjects objects' version
  rintro rfl rfl rfl rfl
  rfl

theorem versionsOf_perm {groups groups' : List Group}
    (h : (groups.flatMap Group.objects).Perm (groups'.flatMap Group.objects)) :
    versionsOf groups = versionsOf groups' := by
  rw [versionsOf, versionsOf, NameSet.ofList_congr fun _ => (h.map _).mem_iff]

theorem indexOf_perm {groups groups' : List Group}
    (h : (groups.flatMap Group.objects).Perm (groups'.flatMap Group.objects)) : indexOf groups = indexOf groups' := by
  rw [indexOf_eq, indexOf_eq, versionsOf_perm h]
  exact List.map_congr_left fun v _ => VersionIndex.ofObjects_perm h v

/-! ### Models -/

/-- The version's file of the emitter has the declaration. -/
def Model.Declares (m : Model) (p : Project) (e : Emitter) (version : String) (d : Declaration) : Prop :=
  ∃ s i f, s.version = version ∧ e.Writes p m (.version s i) f ∧ d ∈ f.declarations

section Models

variable {project : Project} {inspect : Inspector} {c c' : Config} {m m' : Model}

theorem Config.Reordered.index_eq (h : c.Reordered c') (hm : c.Built project inspect m)
    (hm' : c'.Built project inspect m') : m'.index = m.index := by
  have horders : migrationOrderOf project c' = migrationOrderOf project c := by
    rw [migrationOrderOf, migrationOrderOf, h.migrationOrder]
  have hordered := hm'.ordered
  rw [horders, indexOf_perm (h.objects hm hm'), hm.ordered] at hordered
  exact (congrArg Prod.fst hordered).symm

/-- Each model has the other's versions. -/
theorem Config.Reordered.exists_slice (h : c.Reordered c') (hm : c.Built project inspect m)
    (hm' : c'.Built project inspect m') {s : VersionSlice} (hs : s ∈ m.slices) :
    ∃ s' ∈ m'.slices, s'.version = s.version := by
  rw [hm.sliced, slicesOf_eq hm.nodup_names, ← versionsOf_perm (h.objects hm hm')] at hs
  rw [hm'.sliced, slicesOf_eq hm'.nodup_names]
  obtain ⟨v, hv, rfl⟩ := List.mem_map.mp hs
  exact ⟨_, List.mem_map_of_mem hv, rfl⟩

/-- What an emitter declares for a version without regard to its groups is declared for both models. -/
theorem Config.Reordered.declares (h : c.Reordered c') (hm : c.Built project inspect m)
    (hm' : c'.Built project inspect m') {e : Emitter} (he : e ∈ defaultEmitters)
    (hgranularity : e.granularity = .version) {file : Project → VersionSlice → VersionIndex → File}
    (hrender : e.render = forVersion file) {version : String} {d : Declaration}
    (hgroups : ∀ s s' : VersionSlice, s'.version = s.version → ∀ i, e.applies (.version s i) = true →
      d ∈ (file project s i).declarations →
        e.applies (.version s' i) = true ∧ d ∈ (file project s' i).declarations)
    (hd : m.Declares project e version d) : m'.Declares project e version d := by
  obtain ⟨s, i, f, hversion, hwrites, hmem⟩ := hd
  obtain ⟨hs, hi, happlies, rfl⟩ := (hm.writes_version_iff he hgranularity hrender).mp hwrites
  obtain ⟨s', hs', hsame⟩ := h.exists_slice hm hm' hs
  obtain ⟨happlies', hmem'⟩ := hgroups s s' hsame i happlies hmem
  refine ⟨s', i, _, hsame.trans hversion, (hm'.writes_version_iff he hgranularity hrender).mpr ?_, hmem'⟩
  refine ⟨hs', ?_, happlies', rfl⟩
  rw [hsame, Model.index?, h.index_eq hm hm']
  exact hi

theorem Config.Reordered.declares_database (h : c.Reordered c') (hm : c.Built project inspect m)
    (hm' : c'.Built project inspect m') {version : String} {d : Declaration}
    (hd : m.Declares project .database version d) : m'.Declares project .database version d := by
  refine h.declares hm hm' (by simp [defaultEmitters]) rfl rfl (fun s s' _ i happlies hmem => ?_) hd
  exact ⟨happlies, hmem⟩

/-- What is served at a version is declared once, as the index of the version has it. -/
theorem value_mem_registryFile_iff {p : Project} {s : VersionSlice} {i : VersionIndex} {doc : List String}
    {name : String} {lines : Code.Lines} : .value doc name lines ∈ (Generated.registryFile p s i).declarations ↔
      doc = [s!"RoutedObjects lists the objects served by the {s.version} REST API."] ∧ name = "RoutedObjects" ∧
        lines = Code.composite "[]string" (i.routeNames.map fun n => Text.quote n ++ ",") := by
  simp [Generated.registryFile]

theorem Config.Reordered.declares_registry (h : c.Reordered c') (hm : c.Built project inspect m)
    (hm' : c'.Built project inspect m') {version name : String} {doc : List String} {lines : Code.Lines}
    (hd : m.Declares project .registry version (.value doc name lines)) :
    m'.Declares project .registry version (.value doc name lines) := by
  refine h.declares hm hm' (by simp [defaultEmitters]) rfl rfl (fun s s' hsame i happlies hmem => ?_) hd
  rw [value_mem_registryFile_iff] at hmem ⊢
  rw [hsame]
  exact ⟨happlies, hmem⟩

/-- Configurations that list the same in another order are built or rejected alike, and the models agree on what is
served, migrated and reconciled at each version. So they declare the same for the database, and the same lists of what
is served. -/
theorem listing_order_irrelevant (project : Project) (inspect : Inspector) {c c' : Config} (h : c.Reordered c') :
    ((∃ m, buildModel project inspect c = .ok m) ↔ ∃ m', buildModel project inspect c' = .ok m') ∧
      ∀ m m', buildModel project inspect c = .ok m → buildModel project inspect c' = .ok m' →
        m'.index = m.index ∧
        (∀ version d, m'.Declares project .database version d ↔ m.Declares project .database version d) ∧
        ∀ version doc name lines, m'.Declares project .registry version (.value doc name lines) ↔
          m.Declares project .registry version (.value doc name lines) := by
  refine ⟨?_, fun m m' hm hm' => ?_⟩
  · rw [build_succeeds_iff, build_succeeds_iff]
    exact ⟨h.buildable, h.symm.buildable⟩
  · replace hm := buildModel_ok hm
    replace hm' := buildModel_ok hm'
    exact ⟨h.index_eq hm hm', fun _ _ => ⟨h.symm.declares_database hm' hm, h.declares_database hm hm'⟩,
      fun _ _ _ _ => ⟨h.symm.declares_registry hm' hm, h.declares_registry hm hm'⟩⟩

end Models

/-- Two groups, and an order of migration between objects of both. -/
def chartsFirst : Config where
  apiNamespace := "charts"
  migrationOrder := some [⟨"Site", "Chart", "v0"⟩]
  groups := [
    { name := "Helm", objects := [
      { name := "Chart", versions := ["v0", "v1"] }, { name := "Release", versions := ["v0"] }] },
    { name := "Web", objects := [{ name := "Site", versions := ["v0"] }] }]

def sitesFirst : Config where
  apiNamespace := "charts"
  migrationOrder := some [⟨"Site", "Chart", "v0"⟩]
  groups := [
    { name := "Web", objects := [{ name := "Site", versions := ["v0"] }] },
    { name := "Helm", objects := [
      { name := "Release", versions := ["v0"] }, { name := "Chart", versions := ["v0", "v1"] }] }]

theorem rearranged_charts_agree :
    let project := Project.ofModule "" "example.com/charts"
    let inspect : Inspector := fun path => .ok ⟨path, "", []⟩
    chartsFirst.Reordered sitesFirst ∧ ∃ m m', buildModel project inspect chartsFirst = .ok m ∧
      buildModel project inspect sitesFirst = .ok m' ∧ m'.index = m.index ∧
      m.index.map VersionIndex.databaseNames = [["Site", "Release", "Chart"], ["Chart"]] := by
  intro project inspect
  have hreordered : chartsFirst.Reordered sitesFirst := {
    apiNamespace := rfl
    imageRepo := rfl
    docs := rfl
    migrationOrder := rfl
    groups := ⟨chartsFirst.groups.reverse, (List.reverse_perm _).symm,
      .cons ⟨rfl, by decide⟩ (.cons ⟨rfl, by decide⟩ .nil)⟩ }
  obtain ⟨hbuilds, hagree⟩ := listing_order_irrelevant project inspect hreordered
  obtain ⟨m, hm, hnames⟩ : ∃ m, buildModel project inspect chartsFirst = .ok m ∧
      m.index.map VersionIndex.databaseNames = [["Site", "Release", "Chart"], ["Chart"]] :=
    exists_ok_of_map (by decide +kernel)
  obtain ⟨m', hm'⟩ := hbuilds.mp ⟨m, hm⟩
  exact ⟨hreordered, m, m', hm, hm', (hagree m m' hm hm').1, hnames⟩

end ApiForge
