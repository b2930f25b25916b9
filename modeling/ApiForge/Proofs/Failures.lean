import ApiForge.Proofs.Success

/-! What a build can fail for: a source that cannot be had, contradictions within a group, identifiers that are
generated twice, and a migration order that asks for objects that are not there. -/

namespace ApiForge

open Source (Marker)

/-- A fault of a group is a name that clashes with the group's, or a reconciled object without the field for it. -/
theorem groupFault?_cases {extension : Bool} {group : String} {names : GroupNames} {objects : List ApiObject}
    {fault : ModelFault} (h : groupFault? extension group names objects = some fault) :
    (∃ object, fault = .namingConflict group object) ∨
      ∃ a ∈ objects, a.has .reconciler = true ∧ a.reconciledField = false ∧
        fault = .missingReconciledField group a.typeName a.version := by
  rw [groupFault?] at h
  split at h
  · cases h
    exact Or.inl ⟨_, rfl⟩
  · split at h
    · rename_i a hfind
      have hfault := List.find?_some hfind
      simp only [Bool.and_eq_true, Bool.not_eq_true'] at hfault
      cases h
      exact Or.inr ⟨a, List.mem_of_find?_eq_some hfind, hfault.1.1, hfault.1.2, rfl⟩
    · cases h

theorem collision?_cases {earlier uses : List IdentifierUse} {fault : ModelFault}
    (h : collision? earlier uses = some fault) :
    ∃ version identifier first second, fault = .collision version identifier first second := by
  induction uses generalizing earlier with
  | nil => cases h
  | cons use rest ih =>
      rw [collision?] at h
      split at h
      · split at h
        · exact ih h
        · cases h
          exact ⟨_, _, _, _, rfl⟩
      · exact ih h

theorem applyOrders_cases {orders : List MigrationOrder} {index index' : List VersionIndex} {fault : ModelFault}
    (h : applyOrders orders index = (index', some fault)) :
    ∃ version missing, fault = .missingMigrationTargets version missing := by
  induction orders generalizing index with
  | nil => cases h
  | cons o rest ih =>
      rw [applyOrders] at h
      split at h
      · rename_i fault' hfault
        cases h
        rw [MigrationOrder.apply] at hfault
        split at hfault
        · cases hfault
          exact ⟨_, _, rfl⟩
        · split at hfault
          · cases hfault
          · cases hfault
            exact ⟨_, _, rfl⟩
      · exact ih h

section Groups

variable {project : Project} {inspect : Inspector} {f : Failure}

theorem inspectSources_error {c : GroupConfig} {versions : List String}
    (h : inspectSources project inspect c versions = .error f) :
    ∃ v ∈ versions, ∃ f', inspect (sourcePath project.root v c.name) = .error f' ∧ f.cause = f'.cause := by
  induction versions generalizing f with
  | nil => cases h
  | cons v versions ih =>
      rw [inspectSources] at h
      cases hfile : inspect (sourcePath project.root v c.name) with
      | error f' =>
          rw [hfile] at h
          cases h
          exact ⟨v, List.mem_cons_self, f', hfile, rfl⟩
      | ok file =>
          rw [hfile] at h
          simp only [during, bind, Except.bind] at h
          cases hrest : inspectSources project inspect c versions with
          | ok sources => rw [hrest] at h; cases h
          | error f' =>
              rw [hrest] at h
              cases h
              obtain ⟨v', hv', hfailed⟩ := ih hrest
              exact ⟨v', List.mem_cons_of_mem v hv', hfailed⟩

/-- A group fails for a source that cannot be had, or else for a fault of its own. -/
theorem buildGroup_error {c : GroupConfig} (h : buildGroup project inspect c = .error f) :
    (∃ v ∈ c.versions, ∃ f', inspect (sourcePath project.root v c.name) = .error f' ∧ f.cause = f'.cause) ∨
      ∃ sources fault, inspectSources project inspect c c.versions = .ok sources ∧ f.cause = .model fault ∧
        groupFault? project.isExtension c.name (.ofGroup c.name)
          (pairInstances (shareMarkers (c.objectEntries sources))) = some fault := by
  rw [buildGroup] at h
  cases hsources : inspectSources project inspect c c.versions with
  | error f' =>
      rw [hsources] at h
      cases h
      exact Or.inl (inspectSources_error hsources)
  | ok sources =>
      rw [hsources] at h
      simp only [bind, Except.bind] at h
      split at h
      · rename_i fault hfault
        cases h
        exact Or.inr ⟨sources, fault, rfl, rfl, hfault⟩
      · cases h

theorem buildGroups_error {cs : List GroupConfig} (h : buildGroups project inspect cs = .error f) :
    ∃ c ∈ cs, buildGroup project inspect c = .error f := by
  induction cs with
  | nil => cases h
  | cons c cs ih =>
      rw [buildGroups] at h
      cases hgroup : buildGroup project inspect c with
      | error f' =>
          rw [hgroup] at h
          cases h
          exact ⟨c, List.mem_cons_self, hgroup⟩
      | ok g =>
          cases hrest : buildGroups project inspect cs with
          | ok gs =>
              rw [hgroup, hrest] at h
              cases h
          | error f' =>
              rw [hgroup, hrest] at h
              cases h
              obtain ⟨d, hd, hfailed⟩ := ih hrest
              exact ⟨d, List.mem_cons_of_mem c hd, hfailed⟩

/-- A build of a configuration that has been checked fails in a group or for a fault between groups. -/
theorem buildModel_error {c : Config} (hcheck : c.check = .ok ()) (h : buildModel project inspect c = .error f) :
    (∃ g ∈ c.groups, buildGroup project inspect g = .error f) ∨
      ∃ fault, f.cause = .model fault ∧
        ((∃ version identifier first second, fault = .collision version identifier first second) ∨
          ∃ version missing, fault = .missingMigrationTargets version missing) := by
  rw [buildModel, hcheck] at h
  dsimp only at h
  cases hgroups : buildGroups project inspect c.groups with
  | error f' =>
      rw [hgroups] at h
      cases h
      exact Or.inl (buildGroups_error hgroups)
  | ok groups =>
      rw [hgroups] at h
      simp only [bind, Except.bind] at h
      split at h
      · rename_i fault hfault
        cases h
        exact Or.inr ⟨fault, rfl, Or.inl (collision?_cases hfault)⟩
      · split at h
        · rename_i index fault hfault
          cases h
          exact Or.inr ⟨fault, rfl, Or.inr (applyOrders_cases hfault)⟩
        · cases h

end Groups

end ApiForge
