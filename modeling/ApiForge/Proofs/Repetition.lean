import ApiForge.Proofs.Collisions
import ApiForge.Proofs.Partition

/-! When a model has an entry twice. Names that collide belong to one object, so entries of one key are in one group
and come from one configured object, whose list of versions survived sorting with a repetition in it. The lists of
names repeat exactly what the entries repeat. -/

namespace ApiForge

/-! ### Groups -/

theorem derivedNames_built {project : Project} {inspect : Inspector} {cs : List GroupConfig} {gs : List Group}
    (h : List.Forall₂ (GroupConfig.Built project inspect) cs gs) : DerivedNames gs := by
  intro g hg a ha
  obtain ⟨c, -, hbuilt⟩ := exists_of_forall₂ h hg
  obtain ⟨o, -, hdescribes⟩ := hbuilt.described ha
  exact hdescribes.names

namespace Config.Built

variable {project : Project} {inspect : Inspector} {c : Config} {m : Model}

theorem derivedNames (h : c.Built project inspect m) : DerivedNames m.groups :=
  derivedNames_built h.groups

theorem disjoint (h : c.Built project inspect m) :
    BetweenObjects m.groups fun a b => a.names.identifiers.Disjoint b.names.identifiers :=
  (collision?_uses_eq_none_iff h.derivedNames).mp h.free

/-- Different objects of one version have different type names, and their plurals differ. -/
theorem types_ne (h : c.Built project inspect m) :
    BetweenObjects m.groups fun a b => a.typeName ≠ b.typeName ∧ Text.plural a.typeName ≠ Text.plural b.typeName := by
  intro g hg a ha g' hg' b hb hversion hne
  have hdisjoint := h.disjoint g hg a ha g' hg' b hb hversion hne
  simp only [h.derivedNames g hg a ha, h.derivedNames g' hg' b hb] at hdisjoint
  -- The constants for the type and for the path of an object are among the identifiers that it contributes.
  refine ⟨fun htype => ?_, fun hplural => ?_⟩
  · exact hdisjoint (ObjectNames.type_mem_identifiers _ _) (htype ▸ ObjectNames.type_mem_identifiers _ _)
  · exact hdisjoint (ObjectNames.path_mem_identifiers _ _) (hplural ▸ ObjectNames.path_mem_identifiers _ _)

/-- A type at a version is in one group only. -/
theorem group_of_key (h : c.Built project inspect m) {g g' : Group} (hg : g ∈ m.groups) (hg' : g' ∈ m.groups)
    {o o' : ApiObject} (ho : o ∈ g.objects) (ho' : o' ∈ g'.objects) (hkey : o.key = o'.key) : g.name = g'.name := by
  by_contra hne
  obtain ⟨htype, hversion⟩ := Prod.mk.inj hkey
  exact (h.types_ne g hg o ho g' hg' o' ho' hversion fun heq => hne (Prod.mk.inj heq).1).1 htype

end Config.Built

/-! ### Entries -/

/-- What a group lists: its objects in the order of the configuration, each at its versions in ascending order, and
none of them twice as long as no version is listed again after a different one of its rank. -/
structure GroupConfig.Lists (c : GroupConfig) (g : Group) : Prop where
  keys : g.objects.map ApiObject.key = c.objects.flatMap fun o => (objectVersions o).map (o.name, ·)
  versions : ∀ o ∈ c.objects, ∀ v, v ∈ objectVersions o ↔ v ∈ o.versions
  ascending : ∀ o ∈ c.objects, (objectVersions o).Pairwise fun v w => Version.le v w = true
  once : ∀ o ∈ c.objects, ((objectVersions o).Nodup ↔ ¬Version.Interleaved o.versions)
  distinct : (g.objects.map ApiObject.key).Nodup ↔ ∀ o ∈ c.objects, ¬Version.Interleaved o.versions

namespace GroupConfig.Built

variable {project : Project} {inspect : Inspector} {c : GroupConfig} {g : Group}

/-- Of the objects that are picked by their type, some entry is there twice if one of them lists a version twice. -/
theorem nodup_keys_iff (h : c.Built project inspect g) (hdistinct : (c.objects.map ObjectConfig.name).Nodup)
    {wants : ApiObject → Bool}
    (hwants : ∀ a ∈ g.objects, ∀ b ∈ g.objects, a.typeName = b.typeName → wants a = wants b) :
    ((g.objects.filter wants).map ApiObject.key).Nodup ↔
      ∀ o ∈ c.objects, (∃ a ∈ g.objects, a.typeName = o.name ∧ wants a = true) →
        ¬Version.Interleaved o.versions := by
  let wanted (name : String) : Bool := g.objects.any fun a => a.typeName == name && wants a
  have hwanted {name : String} : wanted name = true ↔ ∃ a ∈ g.objects, a.typeName = name ∧ wants a = true := by
    simp [wanted]
  have hfilter : g.objects.filter wants = g.objects.filter ((fun k => wanted k.1) ∘ ApiObject.key) := by
    refine List.filter_congr fun a ha => ?_
    rw [Bool.eq_iff_iff, Function.comp_apply, hwanted]
    constructor
    · exact fun hw => ⟨a, ha, rfl, hw⟩
    · rintro ⟨b, hb, htype, hw⟩
      exact hwants b hb a ha htype ▸ hw
  have hkeys : (g.objects.filter wants).map ApiObject.key =
      (c.objects.filter fun o => wanted o.name).flatMap fun o => (objectVersions o).map (o.name, ·) := by
    rw [hfilter, ← List.filter_map, h.keys, List.filter_flatMap]
    induction c.objects with
    | nil => rfl
    | cons o os ih =>
        rw [List.flatMap_cons, ih, List.filter_map, List.filter_cons]
        have hconst : ((fun k : String × String => wanted k.1) ∘ fun v => (o.name, v)) = fun _ => wanted o.name := rfl
        rw [hconst]
        cases wanted o.name <;> simp
  rw [hkeys, List.nodup_flatMap]
  constructor
  · rintro ⟨hnodup, -⟩ o ho hw
    rw [← nodup_objectVersions_iff]
    exact List.Nodup.of_map _ (hnodup o (List.mem_filter.mpr ⟨ho, hwanted.mpr hw⟩))
  · intro hall
    constructor
    · intro o ho
      obtain ⟨ho, hw⟩ := List.mem_filter.mp ho
      exact (nodup_objectVersions_iff.mpr (hall o ho (hwanted.mp hw))).map fun v w heq => (Prod.mk.inj heq).2
    · refine ((List.pairwise_map.mp hdistinct).sublist List.filter_sublist).imp fun {o p} hne k ho hp => ?_
      obtain ⟨v, -, rfl⟩ := List.mem_map.mp ho
      obtain ⟨w, -, heq⟩ := List.mem_map.mp hp
      exact hne (Prod.mk.inj heq).1.symm

theorem lists (h : c.Built project inspect g) (hdistinct : (c.objects.map ObjectConfig.name).Nodup)
    (hversions : ∀ o ∈ c.objects, o.versions ≠ []) : c.Lists g where
  keys := h.keys
  versions _ _ _ := mem_objectVersions
  ascending o _ := objectVersions_pairwise o
  once _ _ := nodup_objectVersions_iff
  distinct := by
    have hall := @nodup_keys_iff _ _ _ _ h hdistinct (fun _ => true) fun _ _ _ _ _ => rfl
    rw [List.filter_true] at hall
    rw [hall]
    refine forall₂_congr fun o ho => ⟨fun hnot => hnot ?_, fun hnot _ => hnot⟩
    obtain ⟨v, hv⟩ := List.exists_mem_of_ne_nil _ (hversions o ho)
    have hkey : (o.name, v) ∈ g.objects.map ApiObject.key := by
      rw [h.keys]
      exact List.mem_flatMap.mpr ⟨o, ho, List.mem_map_of_mem (mem_objectVersions.mpr hv)⟩
    obtain ⟨a, ha, heq⟩ := List.mem_map.mp hkey
    exact ⟨a, ha, (Prod.mk.inj heq).1, rfl⟩

end GroupConfig.Built

/-! ### Lists of names -/

/-- Entries have different keys if those of one version have different types. -/
theorem nodup_keys_iff_types (objects : List ApiObject) :
    (objects.map ApiObject.key).Nodup ↔
      ∀ v, ((objects.filter (·.version = v)).map ApiObject.typeName).Nodup := by
  simp only [List.Nodup, List.pairwise_map, List.pairwise_filter, decide_eq_true_eq]
  simp only [List.pairwise_iff_forall_sublist]
  constructor
  · intro h v a b hsub ha hb htype
    exact h hsub (Prod.ext htype (ha.trans hb.symm))
  · intro h a b hsub hkey
    obtain ⟨htype, hversion⟩ := Prod.mk.inj hkey
    exact h b.version hsub hversion rfl htype

theorem Listing.wants_congr (l : Listing) {project : Project} {inspect : Inspector} {c : GroupConfig} {g : Group}
    (h : c.Built project inspect g) (hdistinct : (c.objects.map ObjectConfig.name).Nodup) {a b : ApiObject}
    (ha : a ∈ g.objects) (hb : b ∈ g.objects) (htype : a.typeName = b.typeName) : l.wants a = l.wants b := by
  obtain ⟨o, -, hoa, hob⟩ := h.described_both hdistinct ha hb htype
  cases l with
  | route => rw [wants, wants, hoa.excludeRoute, hob.excludeRoute]
  | database => rw [wants, wants, hoa.excludeFromDb, hob.excludeFromDb]
  | reconciled => exact h.has_congr ha hb htype _

/-- No object of a group that is in the list has a version listed again after a tie. -/
def Listing.Steady (l : Listing) (c : GroupConfig) (g : Group) : Prop :=
  ∀ o ∈ c.objects, (∃ a ∈ g.objects, a.typeName = o.name ∧ l.wants a = true) → ¬Version.Interleaved o.versions

namespace Config.Built

variable {project : Project} {inspect : Inspector} {c : Config} {m : Model}

theorem nodup_names_iff_keys (h : c.Built project inspect m) (l : Listing) :
    (∀ v ∈ m.index, (l.names v).Nodup) ↔ ((m.objects.filter l.wants).map ApiObject.key).Nodup := by
  have hlisted := h.partitioned.listed
  rw [nodup_keys_iff_types]
  constructor
  · intro hnames v
    by_cases hv : v ∈ m.index.map VersionIndex.version
    · obtain ⟨i, hi, rfl⟩ := List.mem_map.mp hv
      rw [List.filter_comm]
      exact (hlisted i hi l).nodup_iff.mp (hnames i hi)
    · -- The index has the versions of all objects, so no object is at any other.
      have hnone : (m.objects.filter l.wants).filter (·.version = v) = [] := by
        rw [List.filter_eq_nil_iff]
        intro o ho heq
        apply hv
        rw [h.partitioned.indexed, ← versionsOf_built h.groups, versionsOf, Version.sort, mem_sortBy,
          NameSet.mem_ofList]
        exact List.mem_map.mpr ⟨o, List.mem_of_mem_filter ho, of_decide_eq_true heq⟩
      rw [hnone]
      exact List.nodup_nil
  · intro hkeys i hi
    rw [(hlisted i hi l).nodup_iff, List.filter_comm]
    exact hkeys i.version

theorem nodup_keys_iff_groups (h : c.Built project inspect m) (wants : ApiObject → Bool) :
    ((m.objects.filter wants).map ApiObject.key).Nodup ↔
      ∀ g ∈ m.groups, ((g.objects.filter wants).map ApiObject.key).Nodup := by
  rw [Model.objects, List.filter_flatMap, List.map_flatMap, List.nodup_flatMap]
  refine and_iff_left ?_
  refine (List.pairwise_map.mp h.nodup_names).imp_of_mem fun {g g'} hg hg' hne k hk hk' => ?_
  obtain ⟨o, ho, rfl⟩ := List.mem_map.mp hk
  obtain ⟨o', ho', heq⟩ := List.mem_map.mp hk'
  exact hne (h.group_of_key hg hg' (List.mem_of_mem_filter ho) (List.mem_of_mem_filter ho') heq.symm)

theorem nodup_names_iff (h : c.Built project inspect m) (l : Listing) :
    (∀ v ∈ m.index, (l.names v).Nodup) ↔ List.Forall₂ l.Steady c.groups m.groups := by
  have hall (cs : List GroupConfig) (gs : List Group) (hgroups : List.Forall₂ (GroupConfig.Built project inspect) cs gs)
      (hdistinct : ∀ d ∈ cs, (d.objects.map ObjectConfig.name).Nodup) :
      (∀ g ∈ gs, ((g.objects.filter l.wants).map ApiObject.key).Nodup) ↔ List.Forall₂ l.Steady cs gs := by
    induction hgroups with
    | nil => simp
    | cons hg _ ih =>
        rw [List.forall_mem_cons] at hdistinct
        rw [List.forall_mem_cons, List.forall₂_cons, ih hdistinct.2,
          hg.nodup_keys_iff hdistinct.1 fun a ha b hb => l.wants_congr hg hdistinct.1 ha hb]
        exact Iff.rfl
  rw [h.nodup_names_iff_keys, h.nodup_keys_iff_groups]
  exact hall _ _ h.groups fun d hd => (h.wellFormed.groups d hd).distinct

end Config.Built

/-- A built model lists every object at every one of its versions. An entry, or a name in a list of names, is there
twice exactly when some object that it may be of has a version listed again after a different one of its rank. -/
theorem built_entries_distinct_iff {project : Project} {inspect : Inspector} {c : Config} {m : Model}
    (h : buildModel project inspect c = .ok m) :
    List.Forall₂ GroupConfig.Lists c.groups m.groups ∧
      ∀ l : Listing, (∀ v ∈ m.index, (l.names v).Nodup) ↔ List.Forall₂ l.Steady c.groups m.groups := by
  have hbuilt := buildModel_ok h
  refine ⟨?_, hbuilt.nodup_names_iff⟩
  refine List.forall₂_iff_zip.mpr ⟨hbuilt.groups.length_eq, fun {d g} hdg => ?_⟩
  have hd := hbuilt.wellFormed.groups d (List.of_mem_zip hdg).1
  exact (List.forall₂_zip hbuilt.groups hdg).lists hd.distinct fun o ho => (hd.objects o ho).versioned

/-- The versions `v1` and `v01` have one rank, so the second `v1` is not next to the first. -/
theorem tied_version_listed_twice :
    let config : Config := {
      apiNamespace := "charts"
      migrationOrder := some []
      groups := [{ name := "Helm", objects := [{ name := "Chart", versions := ["v1", "v01", "v1"] }] }] }
    ∃ m, buildModel (Project.ofModule "" baseModule) (fun path => .ok ⟨path, "", []⟩) config = .ok m ∧
      m.objects.map ApiObject.key = [("Chart", "v1"), ("Chart", "v01"), ("Chart", "v1")] ∧
      ∀ l : Listing, l ≠ .reconciled → m.index.map l.names = [["Chart"], ["Chart", "Chart"]] := by
  intro config
  obtain ⟨m, hm, hlists⟩ : ∃ m, buildModel (Project.ofModule "" baseModule) (fun path => .ok ⟨path, "", []⟩) config =
      .ok m ∧ (m.objects.map ApiObject.key, m.index.map VersionIndex.routeNames,
        m.index.map VersionIndex.databaseNames) =
          ([("Chart", "v1"), ("Chart", "v01"), ("Chart", "v1")], [["Chart"], ["Chart", "Chart"]],
            [["Chart"], ["Chart", "Chart"]]) :=
    exists_ok_of_map (by decide +kernel)
  obtain ⟨hkeys, hnames⟩ := Prod.mk.inj hlists
  obtain ⟨hroute, hdatabase⟩ := Prod.mk.inj hnames
  refine ⟨m, hm, hkeys, fun l hl => ?_⟩
  cases l with
  | route => exact hroute
  | database => exact hdatabase
  | reconciled => exact absurd rfl hl

/-- A version that is repeated with only versions of other ranks in between is listed once. -/
theorem repeated_version_listed_once :
    let config : Config := {
      apiNamespace := "charts"
      migrationOrder := some []
      groups := [{ name := "Helm", objects := [{ name := "Chart", versions := ["v1", "v0", "v1"] }] }] }
    ∃ m, buildModel (Project.ofModule "" baseModule) (fun path => .ok ⟨path, "", []⟩) config = .ok m ∧
      m.objects.map ApiObject.key = [("Chart", "v0"), ("Chart", "v1")] ∧
      ∀ l : Listing, ∀ v ∈ m.index, (l.names v).Nodup := by
  intro config
  obtain ⟨m, hm, hkeys⟩ : ∃ m, buildModel (Project.ofModule "" baseModule) (fun path => .ok ⟨path, "", []⟩) config =
      .ok m ∧ m.objects.map ApiObject.key = [("Chart", "v0"), ("Chart", "v1")] :=
    exists_ok_of_map (by decide +kernel)
  obtain ⟨hlists, hnames⟩ := built_entries_distinct_iff hm
  refine ⟨m, hm, hkeys, fun l => (hnames l).mpr ?_⟩
  obtain ⟨g, rest, -, hrest, hgroups⟩ := List.forall₂_cons_left_iff.mp hlists
  rw [hgroups, List.forall₂_nil_left_iff.mp hrest]
  refine List.Forall₂.cons (fun o ho _ => ?_) List.Forall₂.nil
  rw [List.mem_singleton.mp ho]
  exact GroupConfig.nodup_objectVersions_iff.mp (by decide +kernel)

end ApiForge
