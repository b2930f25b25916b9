import ApiForge.Proofs.Index

/-! The two views of a model by version against its groups. Both have every version once, every object in the part of
its group, and every name in its lists, so a target of each kind is met exactly once. -/

namespace ApiForge

open Source (Marker)

/-- `s` is what a group has at a version. -/
structure GroupSlice.PartOf (s : GroupSlice) (g : Group) (version : String) : Prop where
  name : s.name = g.name
  names : s.names = g.names
  objects : s.objects = g.objectsIn version
  tagged : s.tags.map Prod.fst = NameSet.ofList (s.objects.map ApiObject.typeName)
  tags : ∀ o ∈ s.objects, s.tags.get? o.typeName = some o.fieldTags

namespace Model

/-- The groups again, by version. -/
structure Partitioned (m : Model) (versions : List String) : Prop where
  distinct : versions.Nodup
  indexed : m.index.map VersionIndex.version = versions
  sliced : m.slices.map VersionSlice.version = versions
  parts : ∀ s ∈ m.slices, List.Forall₂ (fun g p => p.PartOf g s.version)
    (m.groups.filter fun g => g.objectsIn s.version ≠ []) s.groups
  listed : ∀ v ∈ m.index, ∀ l : Listing, (l.names v).Perm
    (((m.objects.filter (·.version = v.version)).filter l.wants).map ApiObject.typeName)
  sorted : ∀ v ∈ m.index, v.routeNames.Pairwise (· ≤ ·) ∧ v.reconciledNames.Pairwise (· ≤ ·)

/-- What the targets of a model have to be about. -/
def subjects (m : Model) (versions : List String) : Granularity → List (List String)
  | .version => versions.map ([·])
  | .versionGroup => versions.flatMap fun v =>
      ((m.groups.filter fun g => g.objectsIn v ≠ []).map Group.name).map ([v, ·])
  | .group => m.groups.map ([·.name])
  | .reconciledObject => m.groups.flatMap fun g =>
      (ApiForge.distinct ((g.objects.filter (·.has .reconciler)).map ApiObject.typeName)).map ([g.name, ·])

end Model

/-- What a target is about. -/
def Target.subject : Target → List String
  | .version s _ => [s.version]
  | .versionGroup s p => [s.version, p.name]
  | .group g => [g.name]
  | .reconciledObject g r => [g.name, r.name]

/-- There is one target for each subject, and a version's target has the index of that version. -/
structure Model.Targeted (m : Model) (versions : List String) : Prop where
  complete : ∀ granularity, (Target.all m granularity).map Target.subject = m.subjects versions granularity
  once : ∀ granularity, (m.subjects versions granularity).Nodup
  consistent : ∀ s v, Target.version s v ∈ Target.all m .version → v ∈ m.index ∧ v.version = s.version

/-! ### Versions -/

theorem GroupConfig.Built.mem_versions {project : Project} {inspect : Inspector} {c : GroupConfig} {g : Group}
    (h : c.Built project inspect g) {v : String} :
    v ∈ g.objects.map ApiObject.version ↔ v ∈ c.versions := by
  have hversions : g.objects.map ApiObject.version = (g.objects.map ApiObject.key).map Prod.snd := by
    rw [List.map_map]
    rfl
  rw [hversions, h.keys, List.map_flatMap, List.mem_flatMap, GroupConfig.mem_versions]
  refine exists_congr fun o => and_congr_right fun _ => ?_
  rw [List.map_map, ← mem_objectVersions]
  exact iff_of_eq (congrArg (v ∈ ·) (List.map_id _))

theorem versionsOf_built {project : Project} {inspect : Inspector} {c : Config} {groups : List Group}
    (h : List.Forall₂ (GroupConfig.Built project inspect) c.groups groups) : versionsOf groups = c.versions := by
  have hmem (v : String) (cs : List GroupConfig) (gs : List Group)
      (hgroups : List.Forall₂ (GroupConfig.Built project inspect) cs gs) :
      v ∈ gs.flatMap (fun g => g.objects.map ApiObject.version) ↔
        v ∈ cs.flatMap fun c => c.objects.flatMap ObjectConfig.versions := by
    induction hgroups with
    | nil => exact Iff.rfl
    | cons hg _ ih =>
        rw [List.flatMap_cons, List.flatMap_cons, List.mem_append, List.mem_append, hg.mem_versions, ih,
          GroupConfig.mem_versions, ← List.mem_flatMap]
  rw [versionsOf, Config.versions]
  congr 1
  apply NameSet.ofList_congr
  intro v
  rw [List.map_flatMap, List.flatMap_assoc]
  exact hmem v _ _ h

theorem nodup_versions (c : Config) : c.versions.Nodup :=
  (Version.sort_perm _).nodup_iff.mpr (NameSet.nodup_ofList _)

/-! ### Both views -/

theorem Group.sliceAt_partOf {g : Group} (htags : g.tags = tagsOf g.objects)
    (hsame : ∀ a ∈ g.objects, ∀ b ∈ g.objects, a.key = b.key → a = b) (version : String) :
    (g.sliceAt version).PartOf g version where
  name := rfl
  names := rfl
  objects := rfl
  tagged := by
    have hhere : g.objects.filter (·.version = version) = g.objectsIn version := rfl
    rw [sliceAt, htags, tagsOf_at, hhere, NameMap.overSet, List.map_map]
    exact List.map_id _
  tags o ho := by
    obtain ⟨ho, hversion⟩ := mem_objectsIn.mp ho
    rw [sliceAt, htags, ← hversion]
    exact get?_tagsOf hsame ho

namespace Config.Built

variable {project : Project} {inspect : Inspector} {c : Config} {m : Model}

theorem rearranged (h : c.Built project inspect m) :
    List.Forall₂ VersionIndex.Rearranged
      (c.versions.map (.ofObjects m.objects)) m.index := by
  have hindex := applyOrders_rearranged (migrationOrderOf project c) (indexOf m.groups)
  rw [h.ordered, indexOf_eq, versionsOf_built h.groups] at hindex
  exact hindex

theorem slices (h : c.Built project inspect m) :
    m.slices = c.versions.map fun v => ⟨v, (m.groups.filter fun g => g.objectsIn v ≠ []).map (·.sliceAt v)⟩ := by
  rw [h.sliced, slicesOf_eq h.nodup_names, versionsOf_built h.groups]

theorem partitioned (h : c.Built project inspect m) : m.Partitioned c.versions where
  distinct := nodup_versions c
  indexed := by
    have hversion : List.Forall₂ (fun v v' => v = v') c.versions (m.index.map VersionIndex.version) := by
      rw [List.forall₂_map_right_iff]
      refine (List.forall₂_map_left_iff.mp h.rearranged).imp fun v i hi => ?_
      rw [hi.version, VersionIndex.version_ofObjects]
    rw [List.forall₂_eq_eq_eq] at hversion
    exact hversion.symm
  sliced := by
    rw [h.slices, List.map_map]
    exact List.map_id _
  parts s hs := by
    rw [h.slices] at hs
    obtain ⟨v, -, rfl⟩ := List.mem_map.mp hs
    rw [List.forall₂_map_right_iff, List.forall₂_same]
    intro g hg
    obtain ⟨d, -, hbuilt, hdistinct⟩ := h.configured (List.mem_of_mem_filter hg)
    exact Group.sliceAt_partOf hbuilt.tags (fun a ha b hb => hbuilt.eq_of_key_eq hdistinct ha hb) v
  listed i hi l := by
    obtain ⟨_, hv, hrearranged⟩ := exists_of_forall₂ h.rearranged hi
    obtain ⟨v, -, rfl⟩ := List.mem_map.mp hv
    have hversion := hrearranged.version
    rw [VersionIndex.version_ofObjects] at hversion
    have hnames : (l.names i).Perm (l.names (.ofObjects m.objects v)) := by
      cases l with
      | route => exact List.Perm.of_eq hrearranged.routeNames
      | database => exact hrearranged.databaseNames
      | reconciled => exact List.Perm.of_eq hrearranged.reconciledNames
    rw [hversion]
    exact hnames.trans (l.names_ofObjects m.objects v ▸ sortNames_perm _)
  sorted i hi := by
    obtain ⟨_, hv, hrearranged⟩ := exists_of_forall₂ h.rearranged hi
    obtain ⟨v, -, rfl⟩ := List.mem_map.mp hv
    have hsorted (l : Listing) : (l.names (.ofObjects m.objects v)).Pairwise (· ≤ ·) :=
      l.names_ofObjects m.objects v ▸ sortNames_pairwise _
    rw [hrearranged.routeNames, hrearranged.reconciledNames]
    exact ⟨hsorted .route, hsorted .reconciled⟩

end Config.Built

/-! ### Targets -/

/-- Pairs of distinct names with what is distinct under each name. -/
private theorem nodup_pairs {α : Type} {name : α → String} {xs : List α} (hnames : (xs.map name).Nodup)
    {ys : α → List String} (hys : ∀ x ∈ xs, (ys x).Nodup) :
    (xs.flatMap fun x => (ys x).map ([name x, ·])).Nodup := by
  rw [List.nodup_flatMap]
  constructor
  · intro x hx
    apply (hys x hx).map
    intro y y' heq
    simpa using heq
  · refine (List.pairwise_map.mp hnames).imp fun {x x'} hne pair hpair hpair' => ?_
    obtain ⟨y, -, rfl⟩ := List.mem_map.mp hpair
    obtain ⟨y', -, heq⟩ := List.mem_map.mp hpair'
    exact hne (List.cons.inj heq).1.symm

namespace Model

variable {m : Model} {versions : List String}

/-- The index of a version is found under it. -/
theorem Partitioned.index?_eq (h : m.Partitioned versions) {v : String} (hv : v ∈ versions) :
    ∃ i ∈ m.index, m.index? v = some i ∧ i.version = v := by
  rw [← h.indexed] at hv
  obtain ⟨i, hi, hversion⟩ := List.mem_map.mp hv
  cases hfind : m.index? v with
  | none =>
      have hother := List.find?_eq_none.mp hfind i hi
      rw [hversion, beq_self_eq_true] at hother
      exact absurd rfl hother
  | some j =>
      have hversion : (j.version == v) = true := List.find?_some (p := fun i : VersionIndex => i.version == v) hfind
      exact ⟨j, List.mem_of_find?_eq_some hfind, rfl, beq_iff_eq.mp hversion⟩

theorem Partitioned.mem_versions (h : m.Partitioned versions) {s : VersionSlice} (hs : s ∈ m.slices) :
    s.version ∈ versions :=
  h.sliced ▸ List.mem_map_of_mem hs

/-- The parts of a version have the names of their groups. -/
theorem Partitioned.part_names (h : m.Partitioned versions) {s : VersionSlice} (hs : s ∈ m.slices) :
    s.groups.map GroupSlice.name = (m.groups.filter fun g => g.objectsIn s.version ≠ []).map Group.name := by
  have hname : List.Forall₂ (fun n n' => n = n')
      ((m.groups.filter fun g => g.objectsIn s.version ≠ []).map Group.name) (s.groups.map GroupSlice.name) := by
    rw [List.forall₂_map_left_iff, List.forall₂_map_right_iff]
    exact (h.parts s hs).imp fun _ _ hp => hp.name.symm
  rw [List.forall₂_eq_eq_eq] at hname
  exact hname.symm

theorem Partitioned.subjects_complete (h : m.Partitioned versions)
    (hreconciled : ∀ g ∈ m.groups, g.reconciled = reconciledOf g.objects) (granularity : Granularity) :
    (Target.all m granularity).map Target.subject = m.subjects versions granularity := by
  cases granularity with
  | version =>
      have hfound : ∀ s ∈ m.slices, ((m.index? s.version).map (Target.version s)).map Target.subject =
          (some ∘ fun s : VersionSlice => [s.version]) s := by
        intro s hs
        obtain ⟨i, -, hi, -⟩ := h.index?_eq (h.mem_versions hs)
        rw [hi]
        rfl
      rw [Target.all, List.map_filterMap, List.filterMap_congr hfound, List.filterMap_eq_map, subjects, ← h.sliced,
        List.map_map]
      rfl
  | versionGroup =>
      rw [Target.all, subjects, ← h.sliced, List.flatMap_map, List.map_flatMap]
      refine List.flatMap_congr fun s hs => ?_
      rw [← h.part_names hs, List.map_map, List.map_map]
      rfl
  | group =>
      rw [Target.all, List.map_map]
      rfl
  | reconciledObject =>
      rw [Target.all, List.map_flatMap]
      refine List.flatMap_congr fun g hg => ?_
      rw [← reconciledOf_names, ← hreconciled g hg, List.map_map, List.map_map]
      rfl

theorem nodup_subjects (hversions : versions.Nodup) (hnames : (m.groups.map Group.name).Nodup)
    (granularity : Granularity) : (m.subjects versions granularity).Nodup := by
  cases granularity with
  | version => exact hversions.map fun v v' heq => (List.cons.inj heq).1
  | versionGroup =>
      refine nodup_pairs ((List.map_id versions).symm ▸ hversions) fun v _ => ?_
      exact hnames.sublist (List.filter_sublist.map _)
  | group =>
      have hsubjects : m.subjects versions .group = (m.groups.map Group.name).map ([·]) := by
        rw [List.map_map]
        rfl
      rw [hsubjects]
      exact hnames.map fun n n' heq => (List.cons.inj heq).1
  | reconciledObject => exact nodup_pairs hnames fun g _ => nodup_distinct _

theorem Partitioned.targeted (h : m.Partitioned versions) (hnames : (m.groups.map Group.name).Nodup)
    (hreconciled : ∀ g ∈ m.groups, g.reconciled = reconciledOf g.objects) : m.Targeted versions where
  complete := h.subjects_complete hreconciled
  once := nodup_subjects h.distinct hnames
  consistent s v hv := by
    obtain ⟨s', hs', hv⟩ := List.mem_filterMap.mp hv
    obtain ⟨i, hmem, hi, hversion⟩ := h.index?_eq (h.mem_versions hs')
    rw [hi] at hv
    cases hv
    exact ⟨hmem, hversion⟩

end Model

/-- Whatever is built, its views by version are the groups again, and each of its targets is there once. -/
theorem built_model_partitioned {project : Project} {inspect : Inspector} {c : Config} {m : Model}
    (h : buildModel project inspect c = .ok m) : m.Partitioned c.versions ∧ m.Targeted c.versions := by
  have hbuilt := buildModel_ok h
  refine ⟨hbuilt.partitioned, hbuilt.partitioned.targeted hbuilt.nodup_names fun g hg => ?_⟩
  obtain ⟨d, -, hg, -⟩ := hbuilt.configured hg
  exact hg.reconciled

/-- A workload at two versions and a release at the later one, with sources that declare nothing. -/
theorem workloads_partitioned :
    let project := Project.ofModule "" "example.com/workloads"
    let config : Config := {
      apiNamespace := "workloads"
      groups := [
        { name := "Workload", objects := [
          { name := "WorkloadDefinition", versions := ["v1", "v0"] },
          { name := "WorkloadInstance", versions := ["v0"] }] },
        { name := "Helm", objects := [{ name := "HelmRelease", versions := ["v1"] }] }] }
    ∃ m, buildModel project (fun path => .ok ⟨path, "", []⟩) config = .ok m ∧
      m.index.map VersionIndex.routeNames =
        [["WorkloadDefinition", "WorkloadInstance"], ["HelmRelease", "WorkloadDefinition"]] ∧
      m.Partitioned config.versions ∧ m.Targeted config.versions := by
  intro project config
  obtain ⟨m, hm, hnames⟩ : ∃ m, buildModel project (fun path => .ok ⟨path, "", []⟩) config = .ok m ∧
      m.index.map VersionIndex.routeNames =
        [["WorkloadDefinition", "WorkloadInstance"], ["HelmRelease", "WorkloadDefinition"]] :=
    exists_ok_of_map (by decide +kernel)
  exact ⟨m, hm, hnames, built_model_partitioned hm⟩

end ApiForge
