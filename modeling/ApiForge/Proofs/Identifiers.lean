import ApiForge.Naming
import Mathlib.Data.List.Nodup
import Mathlib.Data.String.Basic

/-! The identifiers that one object generates. Each is the type name or its plural in a frame of fixed words, so it has
as many dots as the type name; and no two of one package are the same text, as they differ in length or, where the
lengths agree, in a letter that belongs to the frame. -/

namespace ApiForge

namespace Text

/-- A plural is the name with an ending, or the name with its final `y` replaced. -/
theorem plural_cases (name : String) :
    takesEs name.toList = true ∧ plural name = name ++ "es" ∨ plural name = name ++ "s" ∨
      ∃ stem, stem ≠ [] ∧ name.toList = stem ++ ['y'] ∧ plural name = String.ofList stem ++ "ies" := by
  rw [plural]
  split
  · rename_i hes
    exact Or.inl ⟨hes, rfl⟩
  · split
    · rename_i stem hstem
      refine Or.inr (Or.inr ⟨stem, ?_⟩)
      unfold stemOfY? at hstem
      split at hstem
      · rename_i before rest hreverse
        split at hstem
        · cases hstem
        · cases hstem
          have hname := congrArg List.reverse hreverse
          rw [List.reverse_reverse, List.reverse_cons] at hname
          exact ⟨by simp, hname, rfl⟩
      · cases hstem
    · exact Or.inr (Or.inl rfl)

theorem count_dot_plural (name : String) : (plural name).toList.count '.' = name.toList.count '.' := by
  rcases plural_cases name with ⟨-, h⟩ | h | ⟨stem, -, hname, h⟩
  · simp [h]
  · simp [h]
  · simp [h, hname]

theorem length_plural (name : String) :
    (plural name).toList.length = name.toList.length + 1 ∨ (plural name).toList.length = name.toList.length + 2 := by
  rcases plural_cases name with ⟨-, h⟩ | h | ⟨stem, -, hname, h⟩
  · exact Or.inr (by simp [h])
  · exact Or.inl (by simp [h])
  · exact Or.inr (by simp [h, hname])

end Text

theorem HandlerNames.nodup_all (typeName : String) :
    ((ofType typeName "").all ++ (ofType typeName "Middleware").all).Nodup := by
  apply List.Nodup.of_map fun name => (name.toList.length, name.toList.head?)
  have hplural := Text.length_plural typeName
  simp [all, ofType]
  omega

theorem HandlerNames.count_dot_all {typeName ending name : String} (h : name ∈ (ofType typeName ending).all) :
    name.toList.count '.' = (typeName ++ ending).toList.count '.' := by
  revert name
  simp [all, ofType, Text.count_dot_plural]

theorem ClientNames.nodup_all (typeName : String) : (ofType typeName).all.Nodup := by
  apply List.Nodup.of_map fun name => (name.toList.length, name.toList.head?)
  have hplural := Text.length_plural typeName
  simp [all, ofType]
  omega

theorem ClientNames.count_dot_all {typeName name : String} (h : name ∈ (ofType typeName).all) :
    name.toList.count '.' = typeName.toList.count '.' := by
  revert name
  simp [all, ofType, Text.count_dot_plural]

namespace ObjectNames

/-- The constants of an object: its type, its paths and its subjects. -/
def constants (n : ObjectNames) : List String :=
  [n.objectType, n.pathConst, n.versionsPathConst, n.subject.constant, n.createSubject.constant,
    n.updateSubject.constant, n.deleteSubject.constant]

theorem identifiers_eq (n : ObjectNames) :
    n.identifiers = n.constants.map (Scope.api, ·) ++ (n.handlers.all ++ n.middleware.all).map (Scope.handlers, ·) ++
      n.client.all.map (Scope.client, ·) :=
  rfl

theorem nodup_constants (typeName version : String) : (ofObject typeName version).constants.Nodup := by
  -- The subjects for the operations are equally long, but the operation stands behind the type name.
  apply List.Nodup.of_map fun name => (name.toList.length, (name.toList.drop typeName.toList.length).head?)
  have hplural := Text.length_plural typeName
  simp [constants, ofObject, Subject.ofObject]
  omega

theorem count_dot_constants {typeName version name : String} (h : name ∈ (ofObject typeName version).constants) :
    name.toList.count '.' = typeName.toList.count '.' := by
  revert name
  simp [constants, ofObject, Subject.ofObject, Text.count_dot_plural]

theorem nodup_identifiers (typeName version : String) : (ofObject typeName version).identifiers.Nodup := by
  have hscope (scope : Scope) {names : List String} (h : names.Nodup) : (names.map (scope, ·)).Nodup :=
    h.map fun _ _ heq => (Prod.mk.inj heq).2
  have hapart {scope scope' : Scope} (hne : scope ≠ scope') (names names' : List String) :
      (names.map (scope, ·)).Disjoint (names'.map (scope', ·)) := by
    intro id hid hid'
    obtain ⟨name, -, rfl⟩ := List.mem_map.mp hid
    obtain ⟨name', -, heq⟩ := List.mem_map.mp hid'
    exact hne (Prod.mk.inj heq).1.symm
  rw [identifiers_eq, List.append_assoc, List.nodup_append', List.nodup_append', List.disjoint_append_right]
  exact ⟨hscope _ (nodup_constants typeName version),
    ⟨hscope _ (HandlerNames.nodup_all typeName), hscope _ (ClientNames.nodup_all typeName), hapart (by decide) _ _⟩,
    hapart (by decide) _ _, hapart (by decide) _ _⟩

theorem count_dot_identifiers {typeName version : String} {id : Scope × String}
    (h : id ∈ (ofObject typeName version).identifiers) : id.2.toList.count '.' = typeName.toList.count '.' := by
  rw [identifiers_eq, List.mem_append, List.mem_append] at h
  rcases h with (h | h) | h
  · obtain ⟨name, hname, rfl⟩ := List.mem_map.mp h
    exact count_dot_constants hname
  · obtain ⟨name, hname, rfl⟩ := List.mem_map.mp h
    rcases List.mem_append.mp hname with hname | hname
    · exact (HandlerNames.count_dot_all hname).trans (by simp)
    · exact (HandlerNames.count_dot_all hname).trans (by simp)
  · obtain ⟨name, hname, rfl⟩ := List.mem_map.mp h
    exact ClientNames.count_dot_all hname

theorem type_mem_identifiers (typeName version : String) :
    (Scope.api, "ObjectType" ++ typeName) ∈ (ofObject typeName version).identifiers := by
  simp [identifiers, ofObject]

theorem path_mem_identifiers (typeName version : String) :
    (Scope.api, "Path" ++ Text.plural typeName) ∈ (ofObject typeName version).identifiers := by
  simp [identifiers, ofObject]

end ObjectNames

end ApiForge
