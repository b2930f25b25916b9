import ApiForge.Proofs.Failures
import ApiForge.Proofs.StubSources

/-! Models built from sources that say no more than the configuration. Markers of the sources switch on what the
configuration switches on anyway, and each object has the field that records reconciliation if it is reconciled, so
the objects of the model are as the configuration says. -/

namespace ApiForge

open Generated (Mirrors)
open Source (Marker SourceFile Struct)

/-- The object is as the configuration says, and unique by name. -/
structure ObjectConfig.Realized (o : ObjectConfig) (a : ApiObject) : Prop where
  typeName : a.typeName = o.name
  version : a.version ∈ o.versions
  flags : ∀ m, a.has m = o.flagged m
  nameField : a.nameField = true
  reconciledField : a.reconciledField = o.reconcilable
  excludeRoute : a.excludeRoute = o.excludeRoute
  excludeFromDb : a.excludeFromDb = o.excludeFromDb
  disableNotificationPersistence : a.disableNotificationPersistence = o.disableNotificationPersistence

namespace GroupConfig

/-- Each source that can be had declares the group's objects that have its version, in their order. -/
def Mirrored (project : Project) (inspect : Inspector) (c : GroupConfig) : Prop :=
  ∀ v ∈ c.versions, ∀ file, inspect (sourcePath project.root v c.name) = .ok file →
    List.Forall₂ Mirrors (c.objects.filter (·.versions.contains v)) file.structs

theorem find?_of_mirrors {objects : List ObjectConfig} {structs : List Struct}
    (h : List.Forall₂ Mirrors objects structs) (hdistinct : (objects.map ObjectConfig.name).Nodup) {o : ObjectConfig}
    (ho : o ∈ objects) : ∃ s, structs.find? (·.name == o.name) = some s ∧ Mirrors o s := by
  induction h with
  | nil => cases ho
  | @cons p s objects structs hmirrors hrest ih =>
      rw [List.map_cons, List.nodup_cons] at hdistinct
      rw [List.find?_cons, hmirrors.name]
      by_cases hname : p.name = o.name
      · obtain rfl : o = p := by
          rcases List.mem_cons.mp ho with heq | ho
          · exact heq
          · exact absurd (hname ▸ List.mem_map_of_mem ho) hdistinct.1
        exact ⟨s, by simp, hmirrors⟩
      · have hne : o ≠ p := fun heq => hname (by rw [heq])
        have hbeq : (p.name == o.name) = false := beq_eq_false_iff_ne.mpr hname
        rw [hbeq]
        exact ih hdistinct.2 ((List.mem_cons.mp ho).resolve_left hne)

section Mirrored

variable {project : Project} {inspect : Inspector} {c : GroupConfig} {sources : NameMap SourceFile}

/-- Each object is declared at each of its versions, by a struct that says what the configuration says. -/
theorem Mirrored.declared (h : c.Mirrored project inspect) (hdistinct : (c.objects.map ObjectConfig.name).Nodup)
    (hsources : inspectSources project inspect c c.versions = .ok sources) {o : ObjectConfig} (ho : o ∈ c.objects)
    {v : String} (hv : v ∈ o.versions) :
    ∃ s, c.declared? project inspect o.name v = some s ∧ Mirrors o s := by
  have hversion := mem_versions.mpr ⟨o, ho, hv⟩
  obtain ⟨file, hfile⟩ := inspectSources_ok hsources v hversion
  have hmirrors := h v hversion file hfile
  have hnames : ((c.objects.filter (·.versions.contains v)).map ObjectConfig.name).Nodup :=
    hdistinct.sublist (List.filter_sublist.map _)
  obtain ⟨s, hs, hmirror⟩ := find?_of_mirrors hmirrors hnames
    (List.mem_filter.mpr ⟨ho, List.contains_iff_mem.mpr hv⟩)
  refine ⟨s, ?_, hmirror⟩
  rw [declared?, hfile]
  exact hs

theorem Mirrored.switchedOn_iff (h : c.Mirrored project inspect) (hdistinct : (c.objects.map ObjectConfig.name).Nodup)
    (hsources : inspectSources project inspect c c.versions = .ok sources) {o : ObjectConfig} (ho : o ∈ c.objects)
    (m : Marker) :
    c.SwitchedOn project inspect o m ↔ o.flagged m = true := by
  constructor
  · rintro (hflag | ⟨v, hv, s, hs, hm⟩)
    · exact hflag
    · obtain ⟨s', hs', hmirror⟩ := h.declared hdistinct hsources ho hv
      rw [hs'] at hs
      cases hs
      rw [hmirror.markers] at hm
      exact (List.mem_filter.mp hm).2
  · exact Or.inl

/-- What an entry does not take from its source it takes from the configuration. -/
theorem entry_excludes (sources : NameMap SourceFile) (o : ObjectConfig) (version : String) :
    (entry sources o version).excludeRoute = o.excludeRoute ∧
      (entry sources o version).excludeFromDb = o.excludeFromDb ∧
      (entry sources o version).disableNotificationPersistence = o.disableNotificationPersistence := by
  rw [entry]
  split <;> exact ⟨rfl, rfl, rfl⟩

theorem Mirrored.realized (h : c.Mirrored project inspect) (hdistinct : (c.objects.map ObjectConfig.name).Nodup)
    (hsources : inspectSources project inspect c c.versions = .ok sources) {a : ApiObject}
    (ha : a ∈ pairInstances (shareMarkers (c.objectEntries sources))) : ∃ o ∈ c.objects, o.Realized a := by
  rw [pairInstances_shareMarkers] at ha
  obtain ⟨e, he, rfl⟩ := List.mem_map.mp ha
  obtain ⟨o, ho, v, hv, rfl⟩ := mem_objectEntries.mp he
  have hderives := derives_finish hsources hdistinct ho hv
  obtain ⟨s, hs, hmirror⟩ := h.declared hdistinct hsources ho hderives.version
  obtain ⟨hroute, hdatabase, hpersistence⟩ := entry_excludes sources o v
  refine ⟨o, ho, {
    typeName := hderives.typeName
    version := hderives.version
    flags := fun m => ?_
    nameField := ?_
    reconciledField := ?_
    excludeRoute := hroute
    excludeFromDb := hdatabase
    disableNotificationPersistence := hpersistence }⟩
  · rw [Bool.eq_iff_iff, hderives.flags, h.switchedOn_iff hdistinct hsources ho]
  · rw [hderives.nameField, hs, Option.any_some, hmirror.nameField, Bool.or_true]
  · rw [hderives.reconciledField, hs, Option.any_some, hmirror.reconciledField]

end Mirrored

end GroupConfig

namespace Config

variable {project : Project} {inspect : Inspector} {c : Config}

/-- Where sources say what the configuration says, a build fails for one that cannot be had or for a fault of the model,
but not for a field that is missing in one. -/
theorem fault_of_mirrored (hcheck : c.check = .ok ()) (h : ∀ g ∈ c.groups, g.Mirrored project inspect) {f : Failure}
    (hfailed : buildModel project inspect c = .error f) :
    (∃ g ∈ c.groups, ∃ v ∈ g.versions, ∃ f', inspect (sourcePath project.root v g.name) = .error f' ∧
        f.cause = f'.cause) ∨
      ∃ fault, f.cause = .model fault ∧
        ∀ group object version, fault ≠ .missingReconciledField group object version := by
  rcases buildModel_error hcheck hfailed with ⟨g, hg, hgroup⟩ | ⟨fault, hcause, hfault⟩
  · have hdistinct := ((check_eq_ok_iff.mp hcheck).groups g hg).distinct
    rcases buildGroup_error hgroup with hsource | ⟨sources, fault, hsources, hcause, hfault⟩
    · exact Or.inl ⟨g, hg, hsource⟩
    · refine Or.inr ⟨fault, hcause, fun group object version => ?_⟩
      rcases groupFault?_cases hfault with ⟨object', rfl⟩ | ⟨a, ha, hon, hmissing, -⟩
      · rintro ⟨⟩
      · -- What is reconciled has the field, in the source as in the configuration.
        obtain ⟨o, -, hrealized⟩ := (h g hg).realized hdistinct hsources ha
        rw [hrealized.flags] at hon
        rw [hrealized.reconciledField] at hmissing
        exact absurd (hon.symm.trans hmissing) (by decide)
  · refine Or.inr ⟨fault, hcause, fun group object version => ?_⟩
    rcases hfault with ⟨_, _, _, _, rfl⟩ | ⟨_, _, rfl⟩ <;> rintro ⟨⟩

/-- The objects of the model are as the configuration says, group by group. -/
theorem realized_of_mirrored {m : Model} (h : ∀ g ∈ c.groups, g.Mirrored project inspect)
    (hbuilt : buildModel project inspect c = .ok m) :
    List.Forall₂ (fun g group => group.name = g.name ∧ ∀ a ∈ group.objects, ∃ o ∈ g.objects, o.Realized a)
      c.groups m.groups := by
  have hmodel := buildModel_ok hbuilt
  refine List.forall₂_iff_get.mpr ⟨hmodel.groups.length_eq, fun i hi hi' => ?_⟩
  have hgroup := hmodel.groups.get hi hi'
  have hg := List.get_mem c.groups ⟨i, hi⟩
  obtain ⟨sources, hsources, hobjects⟩ := hgroup.inspected
  refine ⟨hgroup.name, fun a ha => ?_⟩
  exact (h _ hg).realized (hmodel.wellFormed.groups _ hg).distinct hsources (hobjects ▸ ha)

end Config

end ApiForge
