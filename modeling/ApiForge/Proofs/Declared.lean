import ApiForge.Proofs.Groups

/-! What an object has from its configuration and what from its sources. A marker at one version counts for all
versions of the type, and nothing but markers does: all else that a source declares stays with its own version. -/

namespace ApiForge

open Source (Marker SourceFile Struct)

namespace GroupConfig

/-- The struct of a type in the source of a version, if the source declares it. -/
def declared? (project : Project) (inspect : Inspector) (c : GroupConfig) (name version : String) : Option Struct :=
  (inspect (sourcePath project.root version c.name)).toOption.bind (·.find? name)

/-- The configuration of an object sets the flag of a marker, or the marker stands on its struct at one of its
versions. -/
def SwitchedOn (project : Project) (inspect : Inspector) (c : GroupConfig) (o : ObjectConfig) (m : Marker) : Prop :=
  o.flagged m = true ∨
    ∃ v ∈ o.versions, ∃ s, c.declared? project inspect o.name v = some s ∧ m ∈ s.markers

/-- An entry of a configured object, by what is said of the object and by the source of the entry's own version. -/
structure Derives (project : Project) (inspect : Inspector) (c : GroupConfig) (o : ObjectConfig) (a : ApiObject) :
    Prop where
  typeName : a.typeName = o.name
  version : a.version ∈ o.versions
  flags : ∀ m, a.has m = true ↔ c.SwitchedOn project inspect o m
  nameField : a.nameField = (o.nameField || (c.declared? project inspect o.name a.version).any Struct.hasNameField)
  reconciledField : a.reconciledField = (c.declared? project inspect o.name a.version).any Struct.hasReconciledField
  fieldTags : a.fieldTags = ((c.declared? project inspect o.name a.version).map Struct.fieldTags).getD []

/-- A group by its configuration and its sources. -/
structure Derived (project : Project) (inspect : Inspector) (c : GroupConfig) (g : Group) : Prop where
  objects : ∀ a ∈ g.objects, ∃ o ∈ c.objects, c.Derives project inspect o a
  marked : ∀ m, (g.withMarker m).Pairwise (· < ·) ∧
    ∀ name, name ∈ g.withMarker m ↔ ∃ a ∈ g.objects, a.typeName = name ∧ a.has m = true
  reconciled : g.reconciled.map ReconciledObject.name =
    distinct ((g.objects.filter (·.has .reconciler)).map ApiObject.typeName)
  versions : ∀ r ∈ g.reconciled, r.versions = (g.objects.filter (·.typeName = r.name)).map ApiObject.version ∧
    r.versions.Pairwise fun v w => Version.le v w = true

/-! ### Entries -/

variable {project : Project} {inspect : Inspector} {c : GroupConfig} {sources : NameMap SourceFile}

theorem get?_inspectSources {versions : List String} (h : inspectSources project inspect c versions = .ok sources)
    {v : String} (hv : v ∈ versions) :
    sources.get? v = (inspect (sourcePath project.root v c.name)).toOption := by
  induction versions generalizing sources with
  | nil => cases hv
  | cons w versions ih =>
      rw [inspectSources] at h
      cases hfile : inspect (sourcePath project.root w c.name) with
      | error f => rw [hfile] at h; cases h
      | ok file =>
          cases hrest : inspectSources project inspect c versions with
          | error f => rw [hfile, hrest] at h; cases h
          | ok rest =>
              rw [hfile, hrest] at h
              cases h
              rw [NameMap.get?_insert]
              by_cases heq : v = w
              · rw [if_pos heq, heq, hfile]
                rfl
              · rw [if_neg heq, ih hrest ((List.mem_cons.mp hv).resolve_left heq)]

theorem has_ofConfig (o : ObjectConfig) (version : String) (m : Marker) :
    (ApiObject.ofConfig o version).has m = o.flagged m := by
  rw [ApiObject.has, Bool.eq_iff_iff, ApiObject.ofConfig, ObjectConfig.markers]
  simp [mem_markers]

/-- An entry before anything is shared has the markers of its own version only. -/
theorem has_entry (h : inspectSources project inspect c c.versions = .ok sources) {o : ObjectConfig}
    (ho : o ∈ c.objects) {v : String} (hv : v ∈ o.versions) (m : Marker) : (entry sources o v).has m =
      (o.flagged m || (c.declared? project inspect o.name v).any (·.markers.contains m)) := by
  have hsource := get?_inspectSources h (mem_versions.mpr ⟨o, ho, hv⟩)
  rw [entry, hsource, ← declared?]
  cases c.declared? project inspect o.name v with
  | none => rw [has_ofConfig, Option.any_none, Bool.or_false]
  | some s =>
      have hmerge : ((ApiObject.ofConfig o v).merge s).has m =
          ((ApiObject.ofConfig o v).mark s.markers.contains).has m :=
        rfl
      rw [hmerge, ApiObject.has_mark, has_ofConfig, Option.any_some]

theorem fields_entry (h : inspectSources project inspect c c.versions = .ok sources) {o : ObjectConfig}
    (ho : o ∈ c.objects) {v : String} (hv : v ∈ o.versions) :
    (entry sources o v).nameField =
        (o.nameField || (c.declared? project inspect o.name v).any Struct.hasNameField) ∧
      (entry sources o v).reconciledField = (c.declared? project inspect o.name v).any Struct.hasReconciledField ∧
      (entry sources o v).fieldTags = ((c.declared? project inspect o.name v).map Struct.fieldTags).getD [] := by
  have hsource := get?_inspectSources h (mem_versions.mpr ⟨o, ho, hv⟩)
  rw [entry, hsource, ← declared?]
  cases c.declared? project inspect o.name v with
  | none => exact ⟨(Bool.or_false _).symm, rfl, rfl⟩
  | some s => exact ⟨rfl, rfl, rfl⟩

theorem mem_objectEntries {a : ApiObject} :
    a ∈ c.objectEntries sources ↔ ∃ o ∈ c.objects, ∃ v ∈ o.versions, a = entry sources o v := by
  rw [objectEntries_eq]
  simp only [List.mem_flatMap, List.mem_map, mem_objectVersions, eq_comm]

/-- What is shared between the entries of a type is what the configuration and any of its sources switch on. -/
theorem has_finish_iff (h : inspectSources project inspect c c.versions = .ok sources)
    (hdistinct : (c.objects.map ObjectConfig.name).Nodup) {o : ObjectConfig} (ho : o ∈ c.objects) {v : String}
    (hv : v ∈ o.versions) (m : Marker) :
    (finish (c.objectEntries sources) (entry sources o v)).has m = true ↔ c.SwitchedOn project inspect o m := by
  have htype (p : ObjectConfig) (w : String) : (entry sources p w).typeName = p.name :=
    congrArg Prod.fst (entry_key sources p w)
  rw [finish_has (mem_objectEntries.mpr ⟨o, ho, v, hv, rfl⟩), List.any_eq_true, htype]
  simp only [Bool.and_eq_true, beq_iff_eq]
  constructor
  · rintro ⟨a, ha, hname, hhas⟩
    obtain ⟨p, hp, w, hw, rfl⟩ := mem_objectEntries.mp ha
    rw [htype] at hname
    obtain rfl : p = o := List.inj_on_of_nodup_map hdistinct hp ho hname
    rw [has_entry h hp hw, Bool.or_eq_true, Option.any_eq_true] at hhas
    refine hhas.imp_right ?_
    rintro ⟨s, hs, hm⟩
    exact ⟨w, hw, s, hs, List.contains_iff_mem.mp hm⟩
  · rintro (hflag | ⟨w, hw, s, hs, hm⟩)
    · refine ⟨_, mem_objectEntries.mpr ⟨o, ho, v, hv, rfl⟩, htype o v, ?_⟩
      rw [has_entry h ho hv, hflag, Bool.true_or]
    · refine ⟨_, mem_objectEntries.mpr ⟨o, ho, w, hw, rfl⟩, htype o w, ?_⟩
      rw [has_entry h ho hw, hs, Option.any_some, List.contains_iff_mem.mpr hm, Bool.or_true]

theorem derives_finish (h : inspectSources project inspect c c.versions = .ok sources)
    (hdistinct : (c.objects.map ObjectConfig.name).Nodup) {o : ObjectConfig} (ho : o ∈ c.objects) {v : String}
    (hv : v ∈ o.versions) : c.Derives project inspect o (finish (c.objectEntries sources) (entry sources o v)) := by
  obtain ⟨htype, hversion⟩ := Prod.mk.inj (entry_key sources o v)
  obtain ⟨hname, hreconciled, htags⟩ := fields_entry h ho hv
  have hat : (finish (c.objectEntries sources) (entry sources o v)).version = v := hversion
  exact {
    typeName := htype
    version := hat.symm ▸ hv
    flags := has_finish_iff h hdistinct ho hv
    nameField := hat.symm ▸ hname
    reconciledField := hat.symm ▸ hreconciled
    fieldTags := hat.symm ▸ htags }

/-- Every entry of a group is derived from an object of its configuration, and every object has one at each version. -/
theorem derives_entries (h : inspectSources project inspect c c.versions = .ok sources)
    (hdistinct : (c.objects.map ObjectConfig.name).Nodup) :
    (∀ a ∈ pairInstances (shareMarkers (c.objectEntries sources)), ∃ o ∈ c.objects, c.Derives project inspect o a) ∧
      ∀ o ∈ c.objects, ∀ v ∈ o.versions, ∃ a ∈ pairInstances (shareMarkers (c.objectEntries sources)),
        a.version = v ∧ c.Derives project inspect o a := by
  rw [pairInstances_shareMarkers]
  constructor
  · intro a ha
    obtain ⟨e, he, rfl⟩ := List.mem_map.mp ha
    obtain ⟨o, ho, v, hv, rfl⟩ := mem_objectEntries.mp he
    exact ⟨o, ho, derives_finish h hdistinct ho hv⟩
  · intro o ho v hv
    refine ⟨_, List.mem_map_of_mem (mem_objectEntries.mpr ⟨o, ho, v, hv, rfl⟩), ?_, derives_finish h hdistinct ho hv⟩
    exact congrArg Prod.snd (entry_key sources o v)

end GroupConfig

/-! ### Groups -/

theorem lookup_markedNames (objects : List ApiObject) (m : Marker) :
    (markedNames objects).lookup m = some (NameSet.ofList ((objects.filter (·.has m)).map ApiObject.typeName)) := by
  cases m <;> rfl

namespace GroupConfig.Built

variable {project : Project} {inspect : Inspector} {c : GroupConfig} {g : Group}

/-- The entries of a configured object, in their order. -/
theorem versions_of_type (h : c.Built project inspect g) (hdistinct : (c.objects.map ObjectConfig.name).Nodup)
    {o : ObjectConfig} (ho : o ∈ c.objects) :
    (g.objects.filter (·.typeName = o.name)).map ApiObject.version = objectVersions o := by
  have hkeys : (g.objects.filter (·.typeName = o.name)).map ApiObject.version =
      ((g.objects.map ApiObject.key).filter (·.1 = o.name)).map Prod.snd := by
    rw [List.filter_map, List.map_map]
    rfl
  have hown (p : ObjectConfig) : ((objectVersions p).map (p.name, ·)).filter (·.1 = o.name) =
      if p.name = o.name then (objectVersions p).map (p.name, ·) else [] := by
    rw [List.filter_map]
    by_cases hname : p.name = o.name
    · rw [if_pos hname]
      simp [Function.comp_def, hname]
    · rw [if_neg hname]
      simp [Function.comp_def, hname]
  rw [hkeys, h.keys, List.filter_flatMap]
  simp only [hown]
  obtain ⟨front, back, hobjects⟩ := List.append_of_mem ho
  have hnone (ps : List ObjectConfig) (hps : ∀ p ∈ ps, p.name ≠ o.name) :
      (ps.flatMap fun p => if p.name = o.name then (objectVersions p).map (p.name, ·) else []) = [] :=
    List.flatMap_eq_nil_iff.mpr fun p hp => if_neg (hps p hp)
  rw [hobjects, List.map_append, List.map_cons, List.nodup_append, List.nodup_cons] at hdistinct
  obtain ⟨-, ⟨hback, -⟩, hfront⟩ := hdistinct
  rw [hobjects, List.flatMap_append, List.flatMap_cons, if_pos rfl, hnone front, hnone back]
  · simp [Function.comp_def]
  · exact fun p hp heq => hback (heq ▸ List.mem_map_of_mem hp)
  · exact fun p hp => hfront p.name (List.mem_map_of_mem hp) o.name List.mem_cons_self

theorem derived (h : c.Built project inspect g) (hdistinct : (c.objects.map ObjectConfig.name).Nodup) :
    c.Derived project inspect g where
  objects := by
    obtain ⟨sources, hsources, hobjects⟩ := h.inspected
    rw [hobjects]
    exact (derives_entries hsources hdistinct).1
  marked m := by
    rw [Group.withMarker, h.marked, lookup_markedNames, Option.getD_some]
    refine ⟨NameSet.pairwise_ofList _, fun name => ?_⟩
    simp only [NameSet.mem_ofList, List.mem_map, List.mem_filter]
    refine exists_congr fun a => ?_
    rw [and_assoc]
    exact and_congr_right fun _ => and_comm
  reconciled := by rw [h.reconciled, reconciledOf_names]
  versions r hr := by
    have hname : r.name ∈ g.reconciled.map ReconciledObject.name := List.mem_map_of_mem hr
    rw [h.reconciled] at hr
    rw [h.reconciled, reconciledOf_names, mem_distinct] at hname
    obtain ⟨a, ha, htype⟩ := List.mem_map.mp hname
    obtain ⟨ha, hhas⟩ := List.mem_filter.mp ha
    -- With one entry of a type all of them have a reconciler.
    have hall : (g.objects.filter (·.has .reconciler)).filter (·.typeName = r.name) =
        g.objects.filter (·.typeName = r.name) := by
      rw [List.filter_filter]
      refine List.filter_congr fun b hb => ?_
      by_cases hb' : b.typeName = r.name
      · rw [h.has_congr hb ha (hb'.trans htype.symm), hhas, Bool.and_true]
      · simp [hb']
    obtain ⟨o, ho, hdescribes⟩ := h.described ha
    have hversions : (g.objects.filter (·.typeName = r.name)).map ApiObject.version = objectVersions o := by
      rw [← htype, hdescribes.typeName]
      exact h.versions_of_type hdistinct ho
    rw [versions_reconciledOf hr, hall, hversions, Version.sort_eq_self (objectVersions_pairwise o)]
    exact ⟨rfl, objectVersions_pairwise o⟩

end GroupConfig.Built

/-- Of whatever is built, each group has the flags, the lists of names and the reconciled objects that its configuration
and its sources make, and no others. -/
theorem built_groups_derived {project : Project} {inspect : Inspector} {c : Config} {m : Model}
    (h : buildModel project inspect c = .ok m) :
    List.Forall₂ (GroupConfig.Derived project inspect) c.groups m.groups := by
  have hbuilt := buildModel_ok h
  refine List.forall₂_iff_zip.mpr ⟨hbuilt.groups.length_eq, fun {d g} hdg => ?_⟩
  exact (List.forall₂_zip hbuilt.groups hdg).derived (hbuilt.wellFormed.groups d (List.of_mem_zip hdg).1).distinct

/-- A release that its source declares at its first version only: the markers there count for both versions, the fields
for the first alone. -/
theorem release_derived :
    let project := Project.ofModule "" "example.com/charts"
    let inspect : Inspector := fun path => .ok ⟨path, "", if path = "pkg/api/v0/helm.go" then
      [⟨"Release", 1, [.reconciler, .tptctlEnabled],
        [⟨"Name", false, "*string", []⟩, ⟨"Reconciled", false, "*bool", []⟩]⟩] else []⟩
    let config : Config := {
      apiNamespace := "charts"
      groups := [{ name := "Helm", objects := [
        { name := "Release", versions := ["v1", "v0"] },
        { name := "Chart", versions := ["v0"], commands := { enabled := true } }] }] }
    ∃ m, buildModel project inspect config = .ok m ∧
      m.objects.map (fun a => (a.label, a.markers, a.nameField, a.reconciledField)) = [
        ("Release@v0", [.reconciler, .tptctlEnabled], true, true),
        ("Release@v1", [.reconciler, .tptctlEnabled], false, false),
        ("Chart@v0", [.tptctlEnabled], false, false)] ∧
      List.Forall₂ (GroupConfig.Derived project inspect) config.groups m.groups := by
  intro project inspect config
  obtain ⟨m, hm, hobjects⟩ : ∃ m, buildModel project inspect config = .ok m ∧
      m.objects.map (fun a => (a.label, a.markers, a.nameField, a.reconciledField)) = [
        ("Release@v0", [.reconciler, .tptctlEnabled], true, true),
        ("Release@v1", [.reconciler, .tptctlEnabled], false, false),
        ("Chart@v0", [.tptctlEnabled], false, false)] :=
    exists_ok_of_map (by decide +kernel)
  exact ⟨m, hm, hobjects, built_groups_derived hm⟩

end ApiForge
