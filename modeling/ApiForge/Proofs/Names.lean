import ApiForge.Proofs.Casing
import ApiForge.Proofs.Declarations
import ApiForge.Proofs.Slices

/-! When generated files declare one name. The identifiers of different objects of a version are different, so what is left
are the names that come from groups, those of commands, which are in one package for all versions, and those of the
functions that do the reconciling. -/

namespace ApiForge

/-! ### Objects of one version -/

/-- Objects that have no identifier in common, nor their type. -/
structure ApiObject.Apart (o o' : ApiObject) : Prop where
  identifiers : o.names.identifiers.Disjoint o'.names.identifiers
  typeName : o.typeName ≠ o'.typeName

namespace ApiObject.Apart

variable {o o' : ApiObject} (h : o.Apart o')
include h

private theorem disjoint_scope (scope : Scope) {names names' : List String}
    (hsub : names.map (scope, ·) ⊆ o.names.identifiers) (hsub' : names'.map (scope, ·) ⊆ o'.names.identifiers) :
    names.Disjoint names' :=
  fun _ hname hname' => h.identifiers (hsub (List.mem_map_of_mem hname)) (hsub' (List.mem_map_of_mem hname'))

theorem constants : o.names.constants.Disjoint o'.names.constants := by
  refine h.disjoint_scope .api ?_ ?_ <;>
  · rw [ObjectNames.identifiers_eq, List.append_assoc]
    exact List.subset_append_left _ _

theorem handlers : o.names.handlers.all.Disjoint o'.names.handlers.all := by
  refine h.disjoint_scope .handlers ?_ ?_ <;>
  · rw [ObjectNames.identifiers_eq, List.append_assoc, List.map_append, List.append_assoc]
    exact List.subset_append_of_subset_right _ (List.subset_append_left _ _)

theorem client : o.names.client.all.Disjoint o'.names.client.all := by
  refine h.disjoint_scope .client ?_ ?_ <;>
  · rw [ObjectNames.identifiers_eq]
    exact List.subset_append_right _ _

end ApiObject.Apart

/-! ### Streams -/

/-- A name ends as its last part does. -/
theorem getLast?_toList_append (front : String) {back : String} {c : Char} (h : back.toList.getLast? = some c) :
    (front ++ back).toList.getLast? = some c := by
  rw [String.toList_append, List.getLast?_append, h]
  rfl

/-- Of the constants of an object only that of its type can be the name of a stream. -/
theorem stream_mem_constants_iff {group typeName version : String} :
    (GroupNames.ofGroup group).stream ∈ (ObjectNames.ofObject typeName version).constants ↔
      (ObjectNames.ofObject typeName version).objectType = (GroupNames.ofGroup group).stream := by
  have hstream : (GroupNames.ofGroup group).stream.toList.getLast? = some 'e' :=
    getLast?_toList_append _ (by decide)
  rw [ObjectNames.constants, List.mem_cons, eq_comm, or_iff_left]
  -- All others end in other letters.
  intro hmem
  simp only [List.mem_cons, List.not_mem_nil, or_false] at hmem
  have hother : ∃ c ∈ ['s', 't'], (GroupNames.ofGroup group).stream.toList.getLast? = some c := by
    rcases hmem with h | h | h | h | h | h
    · exact ⟨'s', by decide, h ▸ getLast?_toList_append _ (Text.getLast?_plural typeName)⟩
    · exact ⟨'s', by decide, h ▸ getLast?_toList_append _ (by decide)⟩
    all_goals exact ⟨'t', by decide, h ▸ getLast?_toList_append _ (by decide)⟩
  obtain ⟨c, hc, hlast⟩ := hother
  rw [← Option.some.inj (hstream.symm.trans hlast)] at hc
  revert hc
  decide

theorem stream_inj {group group' : String} :
    (GroupNames.ofGroup group).stream = (GroupNames.ofGroup group').stream ↔
      (GroupNames.ofGroup group).domain = (GroupNames.ofGroup group').domain :=
  String.append_left_inj _

namespace Generated

open Code (Declaration File)

/-! ### Lists of names -/

theorem nodup_flatMap_of_apart {α β : Type} {xs : List α} {f : α → List β} (hxs : xs.Nodup)
    (hwithin : ∀ x ∈ xs, (f x).Nodup) (hbetween : ∀ x ∈ xs, ∀ y ∈ xs, x ≠ y → (f x).Disjoint (f y)) :
    (xs.flatMap f).Nodup :=
  List.nodup_flatMap.mpr ⟨hwithin, hxs.pairwise_of_forall_ne hbetween⟩

theorem nodup_of_nodup_flatMap {α β : Type} {xs : List α} {f : α → List β} (h : (xs.flatMap f).Nodup)
    (hsome : ∀ x ∈ xs, f x ≠ []) : xs.Nodup := by
  refine (List.nodup_flatMap.mp h).2.imp_of_mem fun {x y} hx _ hdisjoint heq => ?_
  obtain ⟨name, hname⟩ := List.exists_mem_of_ne_nil _ (hsome x hx)
  exact hdisjoint hname (heq ▸ hname)

theorem disjoint_flatMap {α β : Type} {xs ys : List α} {f : α → List β}
    (h : ∀ x ∈ xs, ∀ y ∈ ys, (f x).Disjoint (f y)) : (xs.flatMap f).Disjoint (ys.flatMap f) := by
  intro name hname hname'
  obtain ⟨x, hx, hname⟩ := List.mem_flatMap.mp hname
  obtain ⟨y, hy, hname'⟩ := List.mem_flatMap.mp hname'
  exact h x hx y hy hname hname'

/-! ### Files of a version -/

section Version

/-- The objects are those of a built model: they have the names derived from their type, and different ones have
nothing in common. -/
structure Derived (objects : List ApiObject) : Prop where
  names : ∀ o ∈ objects, o.names = .ofObject o.typeName o.version
  apart : ∀ o ∈ objects, ∀ o' ∈ objects, o ≠ o' → o.Apart o'

variable {version : String} {g g' : GroupSlice}

theorem nodup_names_objectsFile_iff (h : Derived g.objects) : (objectsFile version g).names.Nodup ↔
    g.objects.Nodup ∧ ∀ o ∈ g.objects, g.names.stream ∉ o.names.constants := by
  have hflat : (g.objects.flatMap (·.names.constants)).Nodup ↔ g.objects.Nodup := by
    refine ⟨fun hnodup => nodup_of_nodup_flatMap hnodup fun o _ => List.cons_ne_nil _ _, fun hnodup => ?_⟩
    refine nodup_flatMap_of_apart hnodup (fun o ho => ?_) fun o ho o' ho' hne => (h.apart o ho o' ho' hne).constants
    rw [h.names o ho]
    exact ObjectNames.nodup_constants _ _
  rw [(names_objectsFile version g).nodup_iff, List.nodup_cons, hflat, List.mem_flatMap, and_comm]
  simp

theorem disjoint_objectMethods {o o' : ApiObject} (h : o.Apart o') :
    (objectMethodNames.map (("*" ++ o.typeName, ·))).Disjoint (objectMethodNames.map ("*" ++ o'.typeName, ·)) := by
  intro x hx hx'
  obtain ⟨name, -, rfl⟩ := List.mem_map.mp hx
  obtain ⟨name', -, heq⟩ := List.mem_map.mp hx'
  exact h.typeName ((String.append_right_inj _).mp (Prod.mk.inj heq).1).symm

theorem nodup_methods_objectsFile (h : Derived g.objects) (hnodup : g.objects.Nodup) :
    (objectsFile version g).methods.Nodup := by
  rw [methods_objectsFile]
  refine nodup_flatMap_of_apart hnodup (fun o _ => ?_) fun o ho o' ho' hne =>
    disjoint_objectMethods (h.apart o ho o' ho' hne)
  exact List.Nodup.map (fun _ _ heq => (Prod.mk.inj heq).2) (by decide)

theorem disjoint_methods_objectsFile (h : ∀ o ∈ g.objects, ∀ o' ∈ g'.objects, o.Apart o') :
    (objectsFile version g).methods.Disjoint (objectsFile version g').methods := by
  rw [methods_objectsFile, methods_objectsFile]
  exact disjoint_flatMap fun o ho o' ho' => disjoint_objectMethods (h o ho o' ho')

theorem disjoint_names_objectsFile_iff (h : ∀ o ∈ g.objects, ∀ o' ∈ g'.objects, o.Apart o') :
    (objectsFile version g).names.Disjoint (objectsFile version g').names ↔ g.names.stream ≠ g'.names.stream ∧
      (∀ o ∈ g.objects, g'.names.stream ∉ o.names.constants) ∧ ∀ o ∈ g'.objects, g.names.stream ∉ o.names.constants := by
  have hflat : (g.objects.flatMap (·.names.constants)).Disjoint (g'.objects.flatMap (·.names.constants)) :=
    disjoint_flatMap fun o ho o' ho' => (h o ho o' ho').constants
  have hiff : (objectsFile version g).names.Disjoint (objectsFile version g').names ↔
      (g.names.stream :: g.objects.flatMap (·.names.constants)).Disjoint
        (g'.names.stream :: g'.objects.flatMap (·.names.constants)) := by
    simp only [List.Disjoint, (names_objectsFile version g).mem_iff, (names_objectsFile version g').mem_iff]
  rw [hiff, List.disjoint_cons_left, List.disjoint_cons_right, and_iff_left hflat, List.mem_cons, not_or, and_assoc,
    and_comm (a := _ ∉ _)]
  simp

/-- Constants and streams start or end otherwise than the functions of the notifications do. -/
theorem letters_objectsFile (h : Derived g.objects) {group : String} (hgroup : g.names = .ofGroup group) {name : String}
    (hname : name ∈ (objectsFile version g).names) :
    name.toList.head? ∈ [some 'O', some 'P'] ∨ name.toList.getLast? ∈ [some 'e', some 't'] := by
  rw [(names_objectsFile version g).mem_iff, List.mem_cons, List.mem_flatMap] at hname
  rcases hname with rfl | ⟨o, ho, hname⟩
  · refine Or.inr (List.mem_of_mem_head? ?_)
    rw [hgroup]
    exact congrArg some (getLast?_toList_append _ (by decide)).symm
  · have hlast (front : String) : (front ++ "Subject").toList.getLast? ∈ [some 'e', some 't'] := by
      rw [getLast?_toList_append front (by decide : "Subject".toList.getLast? = some 't')]
      decide
    rw [h.names o ho] at hname
    simp only [ObjectNames.constants, List.mem_cons, List.not_mem_nil, or_false] at hname
    rcases hname with rfl | rfl | rfl | rfl | rfl | rfl | rfl
    · exact Or.inl (by simp [ObjectNames.ofObject])
    · exact Or.inl (by simp [ObjectNames.ofObject])
    · exact Or.inl (by simp [ObjectNames.ofObject])
    all_goals exact Or.inr (hlast _)

theorem disjoint_names_notificationsFile (s : VersionSlice) (h : Derived g.objects) {group : String}
    (hgroup : g.names = .ofGroup group) : (objectsFile version g).names.Disjoint (notificationsFile s).names := by
  intro name hname hname'
  rw [names_notificationsFile] at hname'
  have hletters := letters_objectsFile h hgroup hname
  revert hletters
  simp only [List.mem_cons, List.not_mem_nil, or_false] at hname'
  rcases hname' with rfl | rfl <;> decide

/-- Fields and versions differ in their last letters. -/
theorem taggedFields_ne_versions (domain domain' : String) :
    domain ++ "TaggedFields" ≠ "Add" ++ domain' ++ "Versions" := by
  intro heq
  simpa using congrArg (fun name : String => name.toList.reverse.take 2) heq

theorem nodup_names_taggedFieldsFile (p : Project) (version : String) (g : GroupSlice) :
    (taggedFieldsFile p version g).names.Nodup := by
  rw [names_taggedFieldsFile, List.nodup_cons, List.mem_singleton]
  exact ⟨taggedFields_ne_versions _ _, List.nodup_singleton _⟩

theorem disjoint_names_taggedFieldsFile {p : Project} (h : g.names.domain ≠ g'.names.domain) :
    (taggedFieldsFile p version g).names.Disjoint (taggedFieldsFile p version g').names := by
  rw [names_taggedFieldsFile, names_taggedFieldsFile, List.disjoint_cons_left, List.singleton_disjoint]
  simp only [List.mem_cons, List.not_mem_nil, or_false, not_or]
  refine ⟨⟨fun heq => h ((String.append_left_inj _).mp heq), taggedFields_ne_versions _ _⟩,
    (taggedFields_ne_versions _ _).symm, fun heq => h ?_⟩
  exact (String.append_right_inj _).mp ((String.append_left_inj _).mp heq)

theorem disjoint_names_routesFile_iff {p : Project} :
    (routesFile p version g).names.Disjoint (routesFile p version g').names ↔ g.names.domain ≠ g'.names.domain := by
  rw [names_routesFile, names_routesFile, List.disjoint_singleton, List.mem_singleton, eq_comm]
  exact not_congr (String.append_left_inj _)

/-- The routes of a group are called as those of all groups if the group is called `Add`. -/
theorem disjoint_names_registryFile_iff {p : Project} {s : VersionSlice} {i : VersionIndex} :
    (routesFile p version g).names.Disjoint (registryFile p s i).names ↔ g.names.domain ≠ "Add" := by
  have hobjects : g.names.domain ++ "Routes" ≠ "RoutedObjects" := by
    intro heq
    simpa using congrArg (fun name : String => name.toList.reverse.take 2) heq
  have hroutes : g.names.domain ++ "Routes" = "Add" ++ "Routes" ↔ g.names.domain = "Add" :=
    String.append_left_inj "Routes"
  have hadd : "Add" ++ "Routes" = "AddRoutes" := by decide
  rw [names_routesFile, names_registryFile, List.singleton_disjoint, List.mem_cons, List.mem_singleton, not_or,
    routesFunctionName, ← hadd, hroutes, and_iff_right hobjects]

theorem disjoint_handlers {o o' : ApiObject} (h : o.Apart o') :
    (o.names.handlers.all.map ("Handler", ·)).Disjoint (o'.names.handlers.all.map ("Handler", ·)) := by
  intro x hx hx'
  obtain ⟨name, hname, rfl⟩ := List.mem_map.mp hx
  obtain ⟨name', hname', heq⟩ := List.mem_map.mp hx'
  exact h.handlers hname ((Prod.mk.inj heq).2 ▸ hname')

theorem nodup_methods_handlersFile (p : Project) (version : String) (h : Derived g.objects)
    (hnodup : g.objects.Nodup) : (handlersFile p version g).methods.Nodup := by
  rw [methods_handlersFile]
  refine nodup_flatMap_of_apart (hnodup.filter _) (fun o ho => ?_) fun o ho o' ho' hne =>
    disjoint_handlers (h.apart o (mem_routable.mp ho).1 o' (mem_routable.mp ho').1 hne)
  rw [h.names o (mem_routable.mp ho).1]
  have hall := (List.nodup_append.mp (HandlerNames.nodup_all o.typeName)).1
  exact hall.map fun _ _ heq => (Prod.mk.inj heq).2

theorem disjoint_methods_handlersFile (p : Project) (version : String)
    (h : ∀ o ∈ g.objects, ∀ o' ∈ g'.objects, o.Apart o') :
    (handlersFile p version g).methods.Disjoint (handlersFile p version g').methods := by
  rw [methods_handlersFile, methods_handlersFile]
  exact disjoint_flatMap fun o ho o' ho' =>
    disjoint_handlers (h o (mem_routable.mp ho).1 o' (mem_routable.mp ho').1)

theorem clientNames_sublist (o : ApiObject) : (clientNames o).Sublist o.names.client.all := by
  unfold clientNames ClientNames.all
  split
  · exact List.Sublist.refl _
  · exact (((List.Sublist.refl _).cons _).cons_cons _).cons_cons _

theorem disjoint_clientNames {o o' : ApiObject} (h : o.Apart o') : (clientNames o).Disjoint (clientNames o') :=
  List.disjoint_of_subset_left (clientNames_sublist o).subset
    (List.disjoint_of_subset_right (clientNames_sublist o').subset h.client)

theorem nodup_names_clientFile (p : Project) (version : String) (h : Derived g.objects) (hnodup : g.objects.Nodup) :
    (clientFile p version g).names.Nodup := by
  rw [names_clientFile]
  refine nodup_flatMap_of_apart (hnodup.filter _) (fun o ho => ?_) fun o ho o' ho' hne =>
    disjoint_clientNames (h.apart o (mem_routable.mp ho).1 o' (mem_routable.mp ho').1 hne)
  refine List.Nodup.sublist (clientNames_sublist o) ?_
  rw [h.names o (mem_routable.mp ho).1]
  exact ClientNames.nodup_all o.typeName

theorem disjoint_names_clientFile (p : Project) (version : String)
    (h : ∀ o ∈ g.objects, ∀ o' ∈ g'.objects, o.Apart o') :
    (clientFile p version g).names.Disjoint (clientFile p version g').names := by
  rw [names_clientFile, names_clientFile]
  exact disjoint_flatMap fun o ho o' ho' =>
    disjoint_clientNames (h o (mem_routable.mp ho).1 o' (mem_routable.mp ho').1)

end Version

/-! ### Commands

What belongs to commands is called after the type or its plural; what it is for stands in front. -/

theorem commandNames_eq (o : ApiObject) : commandNames o =
    ["Get" ++ o.names.plural ++ "Cmd"] ++
      (if o.has .tptctlConfigPath then ["create" ++ o.typeName ++ "ConfigPath", "Create" ++ o.typeName ++ "Cmd"]
        else []) ++
      (if o.nameField then ["Delete" ++ o.typeName ++ "Cmd"] else []) :=
  rfl

theorem nodup_commandNames (o : ApiObject) : (commandNames o).Nodup := by
  apply List.Nodup.of_map fun name => name.toList.head?
  rw [commandNames_eq]
  split <;> split <;> simp

theorem framed_inj {front back a b : String} : front ++ a ++ back = front ++ b ++ back ↔ a = b :=
  (String.append_left_inj back).trans (String.append_right_inj front)

/-- Objects whose types and plurals differ have different commands. -/
theorem disjoint_commandNames {o o' : ApiObject} (htype : o.typeName ≠ o'.typeName)
    (hplural : o.names.plural ≠ o'.names.plural) : (commandNames o).Disjoint (commandNames o') := by
  have hmem {o : ApiObject} {name : String} (h : name ∈ commandNames o) :
      name = "Get" ++ o.names.plural ++ "Cmd" ∨ name = "create" ++ o.typeName ++ "ConfigPath" ∨
        name = "Create" ++ o.typeName ++ "Cmd" ∨ name = "Delete" ++ o.typeName ++ "Cmd" := by
    rw [commandNames_eq] at h
    simp only [List.mem_append, List.mem_ite_nil_right, List.mem_cons, List.not_mem_nil, or_false] at h
    tauto
  intro name hname hname'
  rcases hmem hname with h | h | h | h <;> rcases hmem hname' with h' | h' | h' | h' <;> rw [h] at h'
  case inl.inl => exact hplural (framed_inj.mp h')
  case inr.inl.inr.inl => exact htype (framed_inj.mp h')
  case inr.inr.inl.inr.inr.inl => exact htype (framed_inj.mp h')
  case inr.inr.inr.inr.inr.inr => exact htype (framed_inj.mp h')
  -- What is in front tells names of different kinds apart.
  all_goals exact absurd (congrArg (fun name : String => name.toList.head?) h') (by simp)

/-- No command is called as what prints its output. -/
theorem disjoint_commandNames_output (o o' : ApiObject) : outputFunctionName o' ∉ commandNames o := by
  intro hmem
  have hhead : (outputFunctionName o').toList.head? ∈ (commandNames o).map fun name => name.toList.head? :=
    List.mem_map_of_mem hmem
  rw [commandNames_eq, show outputFunctionName o' = "output" ++ o'.names.plural ++ "Cmd" from rfl] at hhead
  revert hhead
  split <;> split <;> simp

theorem outputFunctionName_inj {o o' : ApiObject} :
    outputFunctionName o = outputFunctionName o' ↔ o.names.plural = o'.names.plural :=
  framed_inj

/-! ### Reconcilers -/

theorem nodup_reconcileNames (o : ApiObject) : (reconcileNames o).Nodup := by
  have hinj : ∀ a b, reconcileFunctionName o a = reconcileFunctionName o b → a = b :=
    fun a b heq => (String.append_right_inj _).mp heq
  exact List.Nodup.map hinj (by decide)

theorem disjoint_reconcileNames_iff {o o' : ApiObject} :
    (reconcileNames o).Disjoint (reconcileNames o') ↔ o.names.variableName ≠ o'.names.variableName := by
  constructor
  · intro hdisjoint heq
    have hmem {o : ApiObject} : o.names.variableName ++ "Created" ∈ reconcileNames o := List.mem_cons_self
    exact hdisjoint hmem (heq ▸ hmem)
  · intro hne name hname hname'
    obtain ⟨operation, hoperation, rfl⟩ := List.mem_map.mp hname
    obtain ⟨operation', hoperation', heq⟩ := List.mem_map.mp hname'
    -- All operations are written in as many letters.
    have hlength {operation : String} (h : operation ∈ ["Created", "Updated", "Deleted"]) :
        operation.toList.length = 7 := by
      revert operation
      decide
    have hlist := congrArg String.toList heq
    rw [reconcileFunctionName, reconcileFunctionName, String.toList_append, String.toList_append] at hlist
    have hfront := (List.append_inj' hlist ((hlength hoperation').trans (hlength hoperation).symm)).1
    exact hne (String.toList_inj.mp hfront).symm

/-- No reconciler is called as a function that it calls. -/
theorem reconciler_notMem_reconcileNames (typeName : String) (o : ApiObject) :
    typeName ++ "Reconciler" ∉ reconcileNames o := by
  intro hmem
  obtain ⟨operation, hoperation, heq⟩ := List.mem_map.mp hmem
  have hlast {operation : String} (h : operation ∈ ["Created", "Updated", "Deleted"]) :
      operation.toList.getLast? = some 'd' := by
    revert operation
    decide
  have hd : (reconcileFunctionName o operation).toList.getLast? = some 'd' :=
    getLast?_toList_append _ (hlast hoperation)
  rw [heq, getLast?_toList_append typeName (by decide : "Reconciler".toList.getLast? = some 'r')] at hd
  revert hd
  decide

end Generated

end ApiForge
