import ApiForge.Proofs.Declared
import ApiForge.Proofs.Repetition

/-! When a configuration and its sources make a model. The checks are made at different times, some of a group alone and
some of all groups, one on flags that sources have switched on elsewhere and one on lists that are rearranged under
it. Taken together they ask what can be said of the configuration and its sources at once, without a build. -/

namespace ApiForge

open Source (Marker SourceFile Struct)

/-- What a build asks of one group. -/
structure GroupConfig.Buildable (project : Project) (inspect : Inspector) (c : GroupConfig) : Prop where
  inspected : ∀ v ∈ c.versions, ∃ file, inspect (sourcePath project.root v c.name) = .ok file
  unlike : ∀ o ∈ c.objects, o.name ≠ (GroupNames.ofGroup c.name).domain
  recorded : project.isExtension = false → ∀ o ∈ c.objects, c.SwitchedOn project inspect o .reconciler →
    ∀ v ∈ o.versions, ∃ s, c.declared? project inspect o.name v = some s ∧ s.hasReconciledField = true

/-- An object of this name is in the database of the version. -/
def Config.HasMigrated (c : Config) (version name : String) : Prop :=
  ∃ g ∈ c.groups, ∃ o ∈ g.objects, o.name = name ∧ version ∈ o.versions ∧ o.excludeFromDb = false

/-- What a build asks of a configuration and its sources. -/
structure Config.Buildable (project : Project) (inspect : Inspector) (c : Config) : Prop where
  checked : c.check = .ok ()
  groups : ∀ g ∈ c.groups, g.Buildable project inspect
  disjoint : ∀ g ∈ c.groups, ∀ o ∈ g.objects, ∀ g' ∈ c.groups, ∀ o' ∈ g'.objects,
    (g.name, o.name) ≠ (g'.name, o'.name) → ∀ v ∈ o.versions, v ∈ o'.versions →
      (ObjectNames.ofObject o.name v).identifiers.Disjoint (ObjectNames.ofObject o'.name v).identifiers
  migrated : ∀ o ∈ c.migrationOrder.getD (if project.isExtension then [] else defaultMigrationOrder),
    o.version ∈ c.versions ∧ c.HasMigrated o.version o.before ∧ c.HasMigrated o.version o.after

/-! ### One group -/

theorem groupFault?_eq_none_iff {extension : Bool} {group : String} {names : GroupNames} {objects : List ApiObject} :
    groupFault? extension group names objects = none ↔
      (∀ a ∈ objects, a.typeName ≠ names.domain) ∧
        (extension = false → ∀ a ∈ objects, a.has .reconciler = true → a.reconciledField = true) := by
  rw [groupFault?]
  split
  · rename_i a hfind
    have hdomain := List.find?_some hfind
    simp only [beq_iff_eq] at hdomain
    simp only [reduceCtorEq, false_iff]
    exact fun h => h.1 a (List.mem_of_find?_eq_some hfind) hdomain
  · rename_i hnone
    have hunlike : ∀ a ∈ objects, a.typeName ≠ names.domain := by simpa using hnone
    rw [and_iff_right hunlike]
    split
    · rename_i a hfind
      have hfault := List.find?_some hfind
      simp only [Bool.and_eq_true, Bool.not_eq_true'] at hfault
      simp only [reduceCtorEq, false_iff]
      intro h
      rw [h hfault.2 a (List.mem_of_find?_eq_some hfind) hfault.1.1] at hfault
      exact Bool.false_ne_true hfault.1.2.symm
    · rename_i hnone
      simp only [true_iff]
      rintro rfl a ha hhas
      simpa [hhas] using List.find?_eq_none.mp hnone a ha

section Groups

variable {project : Project} {inspect : Inspector}

theorem exists_inspectSources_iff {c : GroupConfig} {versions : List String} :
    (∃ sources, inspectSources project inspect c versions = .ok sources) ↔
      ∀ v ∈ versions, ∃ file, inspect (sourcePath project.root v c.name) = .ok file := by
  refine ⟨fun ⟨_, h⟩ => inspectSources_ok h, fun h => ?_⟩
  induction versions with
  | nil => exact ⟨[], rfl⟩
  | cons v versions ih =>
      rw [List.forall_mem_cons] at h
      obtain ⟨file, hfile⟩ := h.1
      obtain ⟨sources, hsources⟩ := ih h.2
      refine ⟨sources.insert v file, ?_⟩
      rw [inspectSources, hfile, hsources]
      rfl

theorem exists_buildGroup_iff {c : GroupConfig} :
    (∃ g, buildGroup project inspect c = .ok g) ↔
      ∃ sources, inspectSources project inspect c c.versions = .ok sources ∧
        groupFault? project.isExtension c.name (.ofGroup c.name)
          (pairInstances (shareMarkers (c.objectEntries sources))) = none := by
  constructor
  · rintro ⟨g, h⟩
    have hbuilt := buildGroup_ok h
    obtain ⟨sources, hsources, hobjects⟩ := hbuilt.inspected
    have hconsistent := hbuilt.consistent
    rw [hbuilt.names, hobjects] at hconsistent
    exact ⟨sources, hsources, hconsistent⟩
  · rintro ⟨sources, hsources, hfault⟩
    rw [buildGroup, hsources]
    simp only [bind, Except.bind, hfault]
    exact ⟨_, rfl⟩

/-- A group of a configuration that has been checked is built if it meets what is asked of it. -/
theorem GroupConfig.WellFormed.exists_buildGroup_iff {c : GroupConfig} (h : c.WellFormed) :
    (∃ g, buildGroup project inspect c = .ok g) ↔ c.Buildable project inspect := by
  rw [ApiForge.exists_buildGroup_iff]
  constructor
  · rintro ⟨sources, hsources, hfault⟩
    obtain ⟨hunlike, hrecorded⟩ := groupFault?_eq_none_iff.mp hfault
    have hentries := (derives_entries hsources h.distinct).2
    refine ⟨inspectSources_ok hsources, fun o ho hname => ?_, fun hbase o ho hon v hv => ?_⟩
    · obtain ⟨v, hv⟩ := List.exists_mem_of_ne_nil _ (h.objects o ho).versioned
      obtain ⟨a, ha, -, hderives⟩ := hentries o ho v hv
      exact hunlike a ha (hderives.typeName.trans hname)
    · obtain ⟨a, ha, hversion, hderives⟩ := hentries o ho v hv
      have hfield := hrecorded hbase a ha ((hderives.flags .reconciler).mpr hon)
      rw [hderives.reconciledField, hversion, Option.any_eq_true] at hfield
      exact hfield
  · intro hc
    obtain ⟨sources, hsources⟩ := exists_inspectSources_iff.mpr hc.inspected
    refine ⟨sources, hsources, groupFault?_eq_none_iff.mpr ⟨fun a ha hname => ?_, fun hbase a ha hhas => ?_⟩⟩
    · obtain ⟨o, ho, hderives⟩ := (derives_entries hsources h.distinct).1 a ha
      exact hc.unlike o ho (hderives.typeName.symm.trans hname)
    · obtain ⟨o, ho, hderives⟩ := (derives_entries hsources h.distinct).1 a ha
      rw [hderives.reconciledField, Option.any_eq_true]
      exact hc.recorded hbase o ho ((hderives.flags .reconciler).mp hhas) a.version hderives.version

theorem exists_buildGroups_iff {cs : List GroupConfig} :
    (∃ gs, buildGroups project inspect cs = .ok gs) ↔ ∀ c ∈ cs, ∃ g, buildGroup project inspect c = .ok g := by
  induction cs with
  | nil => simp [buildGroups]
  | cons c cs ih =>
      rw [buildGroups, List.forall_mem_cons, ← ih]
      cases hgroup : buildGroup project inspect c with
      | error f => simp [bind, Except.bind]
      | ok g =>
          cases hrest : buildGroups project inspect cs with
          | error f => simp [bind, Except.bind]
          | ok gs => simp [bind, Except.bind, pure, Except.pure]

end Groups

/-! ### All groups -/

section Built

variable {project : Project} {inspect : Inspector} {cs : List GroupConfig} {gs : List Group}

/-- Each configured object has an entry at each of its versions, in the group that is built of its own. -/
theorem GroupConfig.Built.exists_entry {c : GroupConfig} {g : Group} (h : c.Built project inspect g) {o : ObjectConfig}
    (ho : o ∈ c.objects) {v : String} (hv : v ∈ o.versions) : ∃ a ∈ g.objects, a.version = v ∧ o.Describes a := by
  obtain ⟨sources, -, hobjects⟩ := h.inspected
  rw [hobjects, pairInstances_shareMarkers]
  refine ⟨_, List.mem_map_of_mem (mem_objectEntries.mpr ⟨o, ho, v, hv, rfl⟩), ?_, ?_⟩
  · exact congrArg Prod.snd (entry_key sources o v)
  · exact (entry_describes (mem_objectVersions.mpr hv)).finish _

theorem betweenObjects_built_iff (h : List.Forall₂ (GroupConfig.Built project inspect) cs gs) :
    (BetweenObjects gs fun a b => a.names.identifiers.Disjoint b.names.identifiers) ↔
      ∀ g ∈ cs, ∀ o ∈ g.objects, ∀ g' ∈ cs, ∀ o' ∈ g'.objects, (g.name, o.name) ≠ (g'.name, o'.name) →
        ∀ v ∈ o.versions, v ∈ o'.versions →
          (ObjectNames.ofObject o.name v).identifiers.Disjoint (ObjectNames.ofObject o'.name v).identifiers := by
  constructor
  · intro hall c hc o ho c' hc' o' ho' hne v hv hv'
    obtain ⟨g, hg, hbuilt⟩ := exists_of_forall₂_left h hc
    obtain ⟨g', hg', hbuilt'⟩ := exists_of_forall₂_left h hc'
    obtain ⟨a, ha, hversion, hdescribes⟩ := hbuilt.exists_entry ho hv
    obtain ⟨b, hb, hversion', hdescribes'⟩ := hbuilt'.exists_entry ho' hv'
    have hdisjoint := hall g hg a ha g' hg' b hb (hversion.trans hversion'.symm)
      (by rwa [hbuilt.name, hbuilt'.name, hdescribes.typeName, hdescribes'.typeName])
    simp only [hdescribes.names, hdescribes'.names, hdescribes.typeName, hdescribes'.typeName, hversion, hversion']
      at hdisjoint
    exact hdisjoint
  · intro hall g hg a ha g' hg' b hb hversion hne
    obtain ⟨c, hc, hbuilt⟩ := exists_of_forall₂ h hg
    obtain ⟨c', hc', hbuilt'⟩ := exists_of_forall₂ h hg'
    obtain ⟨o, ho, hdescribes⟩ := hbuilt.described ha
    obtain ⟨o', ho', hdescribes'⟩ := hbuilt'.described hb
    rw [hbuilt.name, hbuilt'.name, hdescribes.typeName, hdescribes'.typeName] at hne
    rw [hdescribes.names, hdescribes'.names, hdescribes.typeName, hdescribes'.typeName, ← hversion]
    exact hall c hc o ho c' hc' o' ho' hne a.version (GroupConfig.mem_objectVersions.mp hdescribes.version)
      (hversion ▸ GroupConfig.mem_objectVersions.mp hdescribes'.version)

theorem mem_databaseNames_iff {c : Config} (h : List.Forall₂ (GroupConfig.Built project inspect) c.groups gs)
    {version name : String} :
    name ∈ (VersionIndex.ofObjects (gs.flatMap Group.objects) version).databaseNames ↔ c.HasMigrated version name := by
  have hnames := Listing.names_ofObjects .database (gs.flatMap Group.objects) version
  rw [Listing.names] at hnames
  rw [hnames, sortNames, mem_sortBy]
  simp only [List.mem_map, List.mem_filter, List.mem_flatMap, decide_eq_true_eq, Listing.wants, Bool.not_eq_true']
  constructor
  · rintro ⟨a, ⟨⟨⟨g, hg, ha⟩, rfl⟩, hincluded⟩, rfl⟩
    obtain ⟨d, hd, hbuilt⟩ := exists_of_forall₂ h hg
    obtain ⟨o, ho, hdescribes⟩ := hbuilt.described ha
    exact ⟨d, hd, o, ho, hdescribes.typeName.symm, GroupConfig.mem_objectVersions.mp hdescribes.version,
      hdescribes.excludeFromDb.symm.trans hincluded⟩
  · rintro ⟨d, hd, o, ho, rfl, hv, hincluded⟩
    obtain ⟨g, hg, hbuilt⟩ := exists_of_forall₂_left h hd
    obtain ⟨a, ha, hversion, hdescribes⟩ := hbuilt.exists_entry ho hv
    exact ⟨a, ⟨⟨⟨g, hg, ha⟩, hversion⟩, hdescribes.excludeFromDb.trans hincluded⟩, hdescribes.typeName⟩

theorem find?_eq_some_iff {xs : List String} {x y : String} : xs.find? (· == x) = some y ↔ x ∈ xs ∧ x = y := by
  constructor
  · intro h
    have hxy := List.find?_some h
    simp only [beq_iff_eq] at hxy
    exact ⟨hxy ▸ List.mem_of_find?_eq_some h, hxy.symm⟩
  · rintro ⟨hx, rfl⟩
    cases h : xs.find? (· == x) with
    | none => exact absurd (beq_self_eq_true x) (List.find?_eq_none.mp h x hx)
    | some y =>
        have hxy := List.find?_some h
        simp only [beq_iff_eq] at hxy
        rw [hxy]

theorem migrates_indexOf_iff {groups : List Group} {version : String} {names : List String} :
    Migrates (indexOf groups) version names ↔ version ∈ versionsOf groups ∧
      (VersionIndex.ofObjects (groups.flatMap Group.objects) version).databaseNames = names := by
  rw [Migrates, indexOf_eq, List.find?_map, Option.map_map]
  have hsame : ((fun v : VersionIndex => v.version == version) ∘
      VersionIndex.ofObjects (groups.flatMap Group.objects)) = (· == version) := by
    funext v
    rw [Function.comp_apply, VersionIndex.version_ofObjects]
  rw [hsame]
  simp only [Option.map_eq_some_iff, find?_eq_some_iff, Function.comp_apply]
  constructor
  · rintro ⟨_, ⟨hversion, rfl⟩, hnames⟩
    exact ⟨hversion, hnames⟩
  · rintro ⟨hversion, hnames⟩
    exact ⟨version, ⟨hversion, rfl⟩, hnames⟩

theorem applies_indexOf_iff {c : Config} (h : List.Forall₂ (GroupConfig.Built project inspect) c.groups gs)
    {o : MigrationOrder} : o.Applies (indexOf gs) ↔
      o.version ∈ c.versions ∧ c.HasMigrated o.version o.before ∧ c.HasMigrated o.version o.after := by
  simp only [MigrationOrder.Applies, migrates_indexOf_iff, versionsOf_built h, ← mem_databaseNames_iff h]
  constructor
  · rintro ⟨names, ⟨hversion, rfl⟩, hnames⟩
    exact ⟨hversion, hnames⟩
  · rintro ⟨hversion, hnames⟩
    exact ⟨_, ⟨hversion, rfl⟩, hnames⟩

end Built

/-! ### Models -/

theorem exists_buildModel_iff {project : Project} {inspect : Inspector} {c : Config} :
    (∃ m, buildModel project inspect c = .ok m) ↔
      c.check = .ok () ∧ ∃ groups, buildGroups project inspect c.groups = .ok groups ∧
        collision? [] (identifierUses groups) = none ∧
          (applyOrders (migrationOrderOf project c) (indexOf groups)).2 = none := by
  rw [buildModel]
  cases hcheck : c.check with
  | error f => simp [failWith]
  | ok _ =>
      cases hgroups : buildGroups project inspect c.groups with
      | error f => simp [bind, Except.bind]
      | ok groups =>
          cases hfree : collision? [] (identifierUses groups) with
          | some fault => simp [bind, Except.bind, hfree, failWith]
          | none =>
              cases happly : applyOrders (migrationOrderOf project c) (indexOf groups) with
              | mk index fault => cases fault <;> simp [bind, Except.bind, pure, Except.pure, hfree, happly, failWith]

theorem migrationOrderOf_eq (project : Project) (c : Config) : migrationOrderOf project c =
    c.migrationOrder.getD (if project.isExtension then [] else defaultMigrationOrder) := by
  rw [migrationOrderOf]
  cases c.migrationOrder <;> rfl

/-- A build gives a model exactly for the configurations and sources that meet all that is asked of them. -/
theorem build_succeeds_iff (project : Project) (inspect : Inspector) (c : Config) :
    (∃ m, buildModel project inspect c = .ok m) ↔ c.Buildable project inspect := by
  have hgroups (hc : c.WellFormed) : (∃ gs, buildGroups project inspect c.groups = .ok gs) ↔
      ∀ g ∈ c.groups, g.Buildable project inspect := by
    rw [exists_buildGroups_iff]
    exact forall₂_congr fun g hg => (hc.groups g hg).exists_buildGroup_iff
  rw [exists_buildModel_iff]
  constructor
  · rintro ⟨hcheck, gs, hgs, hfree, horders⟩
    have hbuilt := buildGroups_ok hgs
    have hnames : DerivedNames gs := derivedNames_built hbuilt
    refine ⟨hcheck, (hgroups (Config.check_eq_ok_iff.mp hcheck)).mp ⟨gs, hgs⟩, ?_, fun o ho => ?_⟩
    · exact (betweenObjects_built_iff hbuilt).mp ((collision?_uses_eq_none_iff hnames).mp hfree)
    · rw [← migrationOrderOf_eq] at ho
      exact (applies_indexOf_iff hbuilt).mp (applyOrders_eq_none_iff.mp horders o ho)
  · intro h
    obtain ⟨gs, hgs⟩ := (hgroups (Config.check_eq_ok_iff.mp h.checked)).mpr h.groups
    have hbuilt := buildGroups_ok hgs
    have hnames : DerivedNames gs := derivedNames_built hbuilt
    refine ⟨h.checked, gs, hgs, ?_, applyOrders_eq_none_iff.mpr fun o ho => (applies_indexOf_iff hbuilt).mpr ?_⟩
    · exact (collision?_uses_eq_none_iff hnames).mpr ((betweenObjects_built_iff hbuilt).mpr h.disjoint)
    · exact h.migrated o (migrationOrderOf_eq project c ▸ ho)

end ApiForge
