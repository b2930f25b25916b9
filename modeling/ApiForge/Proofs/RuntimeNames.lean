import ApiForge.Proofs.Casing
import ApiForge.Proofs.Repetition

/-! The names that objects go by at run time: the path that an object is served at, and the subjects of its
notifications. They are the type name in another style, and the check of the identifiers, which have the type name as
it is, does not keep them apart. It does for types whose names are in Pascal case. -/

namespace ApiForge

open Text

namespace ObjectNames

/-- The subjects of the notifications of an object. -/
def subjectValues (n : ObjectNames) : List String :=
  [n.subject.value, n.createSubject.value, n.updateSubject.value, n.deleteSubject.value]

/-- Neither the path nor any subject is common to both. -/
structure Apart (n n' : ObjectNames) : Prop where
  path : n.path ≠ n'.path
  subjects : n.subjectValues.Disjoint n'.subjectValues

theorem path_eq_iff {typeName typeName' version : String} :
    (ofObject typeName version).path = (ofObject typeName' version).path ↔
      kebabCase (Text.plural typeName) = kebabCase (Text.plural typeName') := by
  refine ⟨fun h => ?_, fun h => ?_⟩
  · have hlist := congrArg String.toList h
    simp only [ofObject, String.toList_append, List.append_cancel_left_eq] at hlist
    exact String.toList_inj.mp hlist
  · rw [ofObject, ofObject, h]

theorem mem_subjectValues {typeName version value : String} :
    value ∈ (ofObject typeName version).subjectValues ↔
      ∃ operation ∈ ["*", "create", "update", "delete"], value = camelCase typeName ++ "." ++ operation := by
  simp [subjectValues, ofObject, Subject.ofObject]

/-- The operation stands behind the last dot of a subject, so subjects of different names differ in front of it. -/
theorem disjoint_subjectValues_iff {typeName typeName' version version' : String} :
    (ofObject typeName version).subjectValues.Disjoint (ofObject typeName' version').subjectValues ↔
      camelCase typeName ≠ camelCase typeName' := by
  constructor
  · intro h hcamel
    exact h (mem_subjectValues.mpr ⟨"*", List.mem_cons_self, rfl⟩)
      (mem_subjectValues.mpr ⟨"*", List.mem_cons_self, by rw [hcamel]⟩)
  · intro hne value hvalue hvalue'
    have hdots : ∀ operation ∈ ["*", "create", "update", "delete"], operation.toList.count '.' = 0 := by decide
    obtain ⟨operation, hoperation, rfl⟩ := mem_subjectValues.mp hvalue
    obtain ⟨operation', hoperation', heq⟩ := mem_subjectValues.mp hvalue'
    have hboth := eq_of_owner_eq heq ((hdots _ hoperation).trans (hdots _ hoperation').symm)
    exact hne (Prod.mk.inj hboth).1

end ObjectNames

/-- Two objects of one version of a model have different paths exactly when the plurals of their types differ in kebab
case, and different subjects exactly when their types differ in camel case. Both are the case for type names in Pascal
case. -/
theorem built_runtime_names_apart {project : Project} {inspect : Inspector} {c : Config} {m : Model}
    (h : buildModel project inspect c = .ok m) :
    BetweenObjects m.groups fun a b =>
      (a.names.path ≠ b.names.path ↔ kebabCase (plural a.typeName) ≠ kebabCase (plural b.typeName)) ∧
        (a.names.subjectValues.Disjoint b.names.subjectValues ↔ camelCase a.typeName ≠ camelCase b.typeName) ∧
          (IsPascal a.typeName → IsPascal b.typeName → a.names.Apart b.names) := by
  have hbuilt := buildModel_ok h
  intro g hg a ha g' hg' b hb hversion hne
  obtain ⟨htypes, hplurals⟩ := hbuilt.types_ne g hg a ha g' hg' b hb hversion hne
  have hpath : a.names.path ≠ b.names.path ↔ kebabCase (plural a.typeName) ≠ kebabCase (plural b.typeName) := by
    rw [hbuilt.derivedNames g hg a ha, hbuilt.derivedNames g' hg' b hb, hversion]
    exact not_congr ObjectNames.path_eq_iff
  have hsubjects : a.names.subjectValues.Disjoint b.names.subjectValues ↔
      camelCase a.typeName ≠ camelCase b.typeName := by
    rw [hbuilt.derivedNames g hg a ha, hbuilt.derivedNames g' hg' b hb]
    exact ObjectNames.disjoint_subjectValues_iff
  refine ⟨hpath, hsubjects, fun hpascal hpascal' => ⟨hpath.mpr fun heq => ?_, hsubjects.mpr fun heq => ?_⟩⟩
  · exact hplurals (hpascal.plural_eq_of_kebabCase_eq hpascal' heq)
  · exact htypes (hpascal.eq_of_camelCase_eq hpascal' heq)

/-- An acronym is one word however it is spelled, so `HTTPServer` and `HttpServer` are served at one path. -/
theorem acronym_served_twice :
    let config : Config := {
      apiNamespace := "web"
      migrationOrder := some []
      groups := [{ name := "Web", objects := [
        { name := "HTTPServer", versions := ["v0"] }, { name := "HttpServer", versions := ["v0"] }] }] }
    ∃ m, buildModel (Project.ofModule "" baseModule) (fun path => .ok ⟨path, "", []⟩) config = .ok m ∧
      m.objects.map (fun a => (a.key, a.names.path, a.names.subject.value)) = [
        (("HTTPServer", "v0"), "/v0/http-servers", "httpServer.*"),
        (("HttpServer", "v0"), "/v0/http-servers", "httpServer.*")] ∧
      ¬BetweenObjects m.groups fun a b => a.names.Apart b.names := by
  intro config
  obtain ⟨m, hm, hobjects⟩ : ∃ m, buildModel (Project.ofModule "" baseModule) (fun path => .ok ⟨path, "", []⟩) config =
      .ok m ∧ m.objects.map (fun a => (a.key, a.names.path, a.names.subject.value)) = [
        (("HTTPServer", "v0"), "/v0/http-servers", "httpServer.*"),
        (("HttpServer", "v0"), "/v0/http-servers", "httpServer.*")] :=
    exists_ok_of_map (by decide +kernel)
  refine ⟨m, hm, hobjects, fun hall => ?_⟩
  obtain ⟨a, b, hlist⟩ : ∃ a b, m.objects = [a, b] :=
    List.length_eq_two.mp (by simpa using congrArg List.length hobjects)
  rw [hlist] at hobjects
  simp only [List.map_cons, List.map_nil, List.cons.injEq, Prod.mk.injEq, ApiObject.key, and_true] at hobjects
  obtain ⟨⟨⟨htype, hversion⟩, hpath, -⟩, ⟨htype', hversion'⟩, hpath', -⟩ := hobjects
  have hmem {o : ApiObject} (ho : o ∈ [a, b]) : ∃ g ∈ m.groups, o ∈ g.objects :=
    List.mem_flatMap.mp (hlist ▸ ho : o ∈ m.objects)
  obtain ⟨g, hg, ha⟩ := hmem (o := a) (by simp)
  obtain ⟨g', hg', hb⟩ := hmem (o := b) (by simp)
  have hapart := hall g hg a ha g' hg' b hb (hversion.trans hversion'.symm) (by simp [htype, htype'])
  exact hapart.path (hpath.trans hpath'.symm)

/-- Names in Pascal case are served apart, also where the plural is not in Pascal case. -/
theorem buckets_served_apart :
    let config : Config := {
      apiNamespace := "storage"
      migrationOrder := some []
      groups := [
        { name := "Aws", objects := [
          { name := "S3Bucket", versions := ["v0"] }, { name := "S3", versions := ["v0"] }] },
        { name := "Cloud", objects := [{ name := "BucketPolicy", versions := ["v0", "v1"] }] }] }
    ∃ m, buildModel (Project.ofModule "" baseModule) (fun path => .ok ⟨path, "", []⟩) config = .ok m ∧
      m.objects.map (fun a => (a.typeName, a.names.path)) = [
        ("S3Bucket", "/v0/s-3-buckets"), ("S3", "/v0/s-3-s"), ("BucketPolicy", "/v0/bucket-policies"),
        ("BucketPolicy", "/v1/bucket-policies")] ∧
      BetweenObjects m.groups fun a b => a.names.Apart b.names := by
  intro config
  obtain ⟨m, hm, hobjects⟩ : ∃ m, buildModel (Project.ofModule "" baseModule) (fun path => .ok ⟨path, "", []⟩) config =
      .ok m ∧ m.objects.map (fun a => (a.typeName, a.names.path)) = [
        ("S3Bucket", "/v0/s-3-buckets"), ("S3", "/v0/s-3-s"), ("BucketPolicy", "/v0/bucket-policies"),
        ("BucketPolicy", "/v1/bucket-policies")] :=
    exists_ok_of_map (by decide +kernel)
  refine ⟨m, hm, hobjects, fun g hg a ha g' hg' b hb hversion hne => ?_⟩
  have hpascal {g : Group} (hg : g ∈ m.groups) {o : ApiObject} (ho : o ∈ g.objects) : IsPascal o.typeName := by
    have hmem : (o.typeName, o.names.path) ∈ m.objects.map fun a => (a.typeName, a.names.path) :=
      List.mem_map_of_mem (List.mem_flatMap.mpr ⟨g, hg, ho⟩)
    have hall : ∀ e ∈ m.objects.map fun a => (a.typeName, a.names.path), IsPascal e.1 := by
      rw [hobjects]
      decide +kernel
    exact hall _ hmem
  exact (built_runtime_names_apart hm g hg a ha g' hg' b hb hversion hne).2.2 (hpascal hg ha) (hpascal hg' hb)

end ApiForge
