import ApiForge.Proofs.Groups
import ApiForge.Proofs.Success

/-! Definitions and their instances. A definition has an instance exactly when the group has a type with the definition's
root and the other ending, at whatever version, so the pairing is a matter of the names in one group. -/

namespace ApiForge

open Source (SourceFile)

/-! ### Endings of names -/

theorem append_eq_iff_toList {name root ending : String} :
    name = root ++ ending ↔ name.toList = root.toList ++ ending.toList := by
  rw [← String.toList_inj, String.toList_append]

namespace ApiObject

theorem strip?_eq_some_iff {name ending root : String} : strip? name ending = some root ↔ name = root ++ ending := by
  rw [strip?, append_eq_iff_toList]
  split_ifs with h
  · obtain ⟨front, hfront⟩ := List.isSuffixOf_iff_suffix.mp h
    rw [← hfront, List.length_append, Nat.add_sub_cancel, List.take_left, Option.some.injEq, List.append_left_inj]
    constructor
    · rintro rfl
      exact String.toList_ofList.symm
    · rintro rfl
      exact String.ofList_toList
  · rw [false_iff]
    exact fun heq => h (List.isSuffixOf_iff_suffix.mpr ⟨_, heq.symm⟩)

theorem strip?_append (root ending : String) : strip? (root ++ ending) ending = some root :=
  strip?_eq_some_iff.mpr rfl

theorem isDefinition_iff {name : String} :
    isDefinition name = true ↔ ∃ root, root ≠ "" ∧ name = root ++ "Definition" := by
  simp only [isDefinition, Option.any_eq_true, strip?_eq_some_iff, bne_iff_ne]
  exact exists_congr fun _ => and_comm

/-- Whatever else the root ends in, the instance of a definition has the definition's root. -/
theorem instanceName?_definition {root : String} (h : root ≠ "") :
    instanceName? (root ++ "Definition") = some (root ++ "Instance") := by
  simp [instanceName?, root?, strip?_append, h]

end ApiObject

/-! ### Pairs in a group -/

namespace Group

/-- The object is the definition with this root, and its instance is among the types of the group. -/
structure HasInstance (g : Group) (o : ApiObject) (root : String) : Prop where
  named : root ≠ ""
  definition : o.typeName = root ++ "Definition"
  inst : ∃ p ∈ g.objects, p.typeName = root ++ "Instance"

theorem HasInstance.unique {g : Group} {o : ApiObject} {root root' : String} (h : g.HasInstance o root)
    (h' : g.HasInstance o root') : root = root' := by
  have hstrip := congrArg (ApiObject.strip? · "Definition") (h.definition.symm.trans h'.definition)
  simpa only [ApiObject.strip?_append, Option.some.injEq] using hstrip

end Group

namespace GroupConfig.Built

variable {project : Project} {inspect : Inspector} {c : GroupConfig} {g : Group}

theorem definedInstance_eq (h : c.Built project inspect g) {o : ApiObject} (ho : o ∈ g.objects) :
    o.definedInstance = (ApiObject.isDefinition o.typeName &&
      (ApiObject.instanceName? o.typeName).any (g.objects.map ApiObject.typeName).contains) := by
  obtain ⟨sources, -, hobjects⟩ := h.inspected
  rw [hobjects, pairInstances_shareMarkers] at ho ⊢
  obtain ⟨e, he, rfl⟩ := List.mem_map.mp ho
  rw [List.map_map]
  rfl

theorem definedInstance_iff (h : c.Built project inspect g) {o : ApiObject} (ho : o ∈ g.objects) :
    o.definedInstance = true ↔ ∃ root, g.HasInstance o root := by
  rw [h.definedInstance_eq ho, Bool.and_eq_true, ApiObject.isDefinition_iff]
  constructor
  · rintro ⟨⟨root, hroot, hname⟩, hthere⟩
    rw [hname, ApiObject.instanceName?_definition hroot] at hthere
    exact ⟨root, hroot, hname, by simpa using hthere⟩
  · rintro ⟨root, hroot, hname, hthere⟩
    refine ⟨⟨root, hroot, hname⟩, ?_⟩
    rw [hname, ApiObject.instanceName?_definition hroot]
    simpa using hthere

theorem instanceType?_eq_some_iff (h : c.Built project inspect g) {o : ApiObject} (ho : o ∈ g.objects) {name : String} :
    o.instanceType? = some name ↔ ∃ root, g.HasInstance o root ∧ name = root ++ "Instance" := by
  constructor
  · intro hname
    rw [ApiObject.instanceType?] at hname
    split_ifs at hname with hdefined
    obtain ⟨root, hroot⟩ := (h.definedInstance_iff ho).mp hdefined
    rw [hroot.definition, ApiObject.instanceName?_definition hroot.named, Option.some.injEq] at hname
    exact ⟨root, hroot, hname.symm⟩
  · rintro ⟨root, hroot, rfl⟩
    rw [ApiObject.instanceType?, if_pos ((h.definedInstance_iff ho).mpr ⟨root, hroot⟩), hroot.definition,
      ApiObject.instanceName?_definition hroot.named]

/-- Every configured object is built at some version, and nothing else is. -/
theorem mem_typeNames_iff (h : c.Built project inspect g) (hc : c.WellFormed) {name : String} :
    name ∈ g.objects.map ApiObject.typeName ↔ name ∈ c.objects.map ObjectConfig.name := by
  have htypes : g.objects.map ApiObject.typeName = (g.objects.map ApiObject.key).map Prod.fst := by
    rw [List.map_map]
    rfl
  rw [htypes, h.keys, List.map_flatMap, List.mem_flatMap, List.mem_map]
  refine exists_congr fun o => and_congr_right fun ho => ?_
  obtain ⟨v, hv⟩ := List.exists_mem_of_ne_nil o.versions (hc.objects o ho).versioned
  rw [List.map_map, List.mem_map]
  exact ⟨fun ⟨_, _, hname⟩ => hname, fun hname => ⟨v, mem_objectVersions.mpr hv, hname⟩⟩

end GroupConfig.Built

/-- The root decides, so a pair is the same for entries of one type in groups with the same types. -/
theorem Group.HasInstance.congr {g g' : Group} {o o' : ApiObject} {root : String} (h : g.HasInstance o root)
    (htype : o.typeName = o'.typeName)
    (hnames : ∀ name, name ∈ g.objects.map ApiObject.typeName → name ∈ g'.objects.map ApiObject.typeName) :
    g'.HasInstance o' root where
  named := h.named
  definition := htype.symm.trans h.definition
  inst := List.mem_map.mp (hnames _ (List.mem_map.mpr h.inst))

theorem pairs_agree {project project' : Project} {inspect inspect' : Inspector} {c c' : GroupConfig} {g g' : Group}
    (h : c.Built project inspect g) (h' : c'.Built project' inspect' g')
    (hnames : ∀ name, name ∈ g.objects.map ApiObject.typeName ↔ name ∈ g'.objects.map ApiObject.typeName)
    {o o' : ApiObject} (ho : o ∈ g.objects) (ho' : o' ∈ g'.objects) (htype : o.typeName = o'.typeName) :
    o.definedInstance = o'.definedInstance ∧ o.instanceType? = o'.instanceType? := by
  have hpairs (root : String) : g.HasInstance o root ↔ g'.HasInstance o' root :=
    ⟨fun hroot => hroot.congr htype fun name => (hnames name).mp,
      fun hroot => hroot.congr htype.symm fun name => (hnames name).mpr⟩
  constructor
  · rw [Bool.eq_iff_iff, h.definedInstance_iff ho, h'.definedInstance_iff ho']
    exact exists_congr hpairs
  · refine Option.ext fun name => ?_
    rw [h.instanceType?_eq_some_iff ho, h'.instanceType?_eq_some_iff ho']
    exact exists_congr fun root => and_congr_left fun _ => hpairs root

/-- An object has an instance exactly when it is the definition of some root and its group has the instance of that root,
which is then the instance's type; so it is at every version of a type, and in every build of a group with the same
object names, whatever the other groups, the sources and the flags are. -/
theorem pairing_exact {project : Project} {inspect : Inspector} {c : Config} {m : Model}
    (h : buildModel project inspect c = .ok m) :
    (∀ g ∈ m.groups, ∀ o ∈ g.objects,
      (o.definedInstance = true ↔ ∃ root, g.HasInstance o root) ∧
      (∀ name, o.instanceType? = some name ↔ ∃ root, g.HasInstance o root ∧ name = root ++ "Instance") ∧
      ∀ p ∈ g.objects, p.typeName = o.typeName →
        p.definedInstance = o.definedInstance ∧ p.instanceType? = o.instanceType?) ∧
    ∀ (project' : Project) (inspect' : Inspector) (c' : Config) (m' : Model),
      buildModel project' inspect' c' = .ok m' →
      ∀ d g, (d, g) ∈ c.groups.zip m.groups → ∀ d' g', (d', g') ∈ c'.groups.zip m'.groups →
        (∀ name, name ∈ d.objects.map ObjectConfig.name ↔ name ∈ d'.objects.map ObjectConfig.name) →
        ∀ o ∈ g.objects, ∀ o' ∈ g'.objects, o.typeName = o'.typeName →
          o.definedInstance = o'.definedInstance ∧ o.instanceType? = o'.instanceType? := by
  have hbuilt := buildModel_ok h
  constructor
  · intro g hg o ho
    obtain ⟨d, -, hgroup⟩ := exists_of_forall₂ hbuilt.groups hg
    exact ⟨hgroup.definedInstance_iff ho, fun name => hgroup.instanceType?_eq_some_iff ho,
      fun p hp htype => pairs_agree hgroup hgroup (fun _ => Iff.rfl) hp ho htype⟩
  · intro project' inspect' c' m' h' d g hdg d' g' hdg' hnames o ho o' ho' htype
    have hbuilt' := buildModel_ok h'
    have hgroup := List.forall₂_zip hbuilt.groups hdg
    have hgroup' := List.forall₂_zip hbuilt'.groups hdg'
    refine pairs_agree hgroup hgroup' (fun name => ?_) ho ho' htype
    rw [hgroup.mem_typeNames_iff (hbuilt.wellFormed.groups d (List.of_mem_zip hdg).1),
      hgroup'.mem_typeNames_iff (hbuilt'.wellFormed.groups d' (List.of_mem_zip hdg').1)]
    exact hnames name

/-- Endings may repeat: what an instance is looked up by is the definition's name without its last ending. -/
theorem repeated_endings_paired :
    let config : Config := {
      apiNamespace := "charts"
      migrationOrder := some []
      groups := [{ name := "Helm", objects := [
        { name := "InstanceDefinition", versions := ["v0", "v1"] }, { name := "InstanceInstance", versions := ["v1"] },
        { name := "Definition", versions := ["v0"] }, { name := "Instance", versions := ["v0"] }] }] }
    ∃ m, buildModel (Project.ofModule "" "example.com/charts") (fun path => .ok ⟨path, "", []⟩) config = .ok m ∧
      m.groups.map (fun g => g.objects.map fun o => (o.label, o.instanceType?)) =
        [[("InstanceDefinition@v0", some "InstanceInstance"), ("InstanceDefinition@v1", some "InstanceInstance"),
          ("InstanceInstance@v1", none), ("Definition@v0", none), ("Instance@v0", none)]] ∧
      ∀ g ∈ m.groups, ∀ o ∈ g.objects, (o.definedInstance = true ↔ ∃ root, g.HasInstance o root) := by
  intro config
  obtain ⟨m, hm, hpairs⟩ : ∃ m, buildModel (Project.ofModule "" "example.com/charts")
      (fun path => .ok ⟨path, "", []⟩) config = .ok m ∧
        m.groups.map (fun g => g.objects.map fun o => (o.label, o.instanceType?)) =
          [[("InstanceDefinition@v0", some "InstanceInstance"), ("InstanceDefinition@v1", some "InstanceInstance"),
            ("InstanceInstance@v1", none), ("Definition@v0", none), ("Instance@v0", none)]] :=
    exists_ok_of_map (by decide +kernel)
  exact ⟨m, hm, hpairs, fun g hg o ho => ((pairing_exact hm).1 g hg o ho).1⟩

end ApiForge
