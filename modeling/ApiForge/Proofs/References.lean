import ApiForge.Proofs.Declarations

/-! What generated files take from each other. Layout moves lines and adds text to them and leaves references alone, so
the references of a file are those of the lines that its declarations are made of. -/

namespace ApiForge

open Code (Declaration File Line Lines Piece Reference Signature references)

/-! ### Layout -/

namespace Code

@[simp]
theorem Line.references_plain (text : String) : (⟨[.plain text]⟩ : Line).references = [] :=
  rfl

@[simp]
theorem Line.references_append (front back : Line) : (front ++ back).references = front.references ++ back.references :=
  List.filterMap_append

@[simp]
theorem Line.references_line (r : Reference) : r.line.references = [r] :=
  rfl

@[simp]
theorem references_nil : references [] = [] :=
  rfl

@[simp]
theorem references_cons (line : Line) (lines : Lines) :
    references (line :: lines) = line.references ++ references lines :=
  rfl

@[simp]
theorem references_append (front back : Lines) : references (front ++ back) = references front ++ references back :=
  List.flatMap_append

@[simp]
theorem references_plainLines (texts : List String) : references (plainLines texts) = [] := by
  induction texts with
  | nil => rfl
  | cons text texts ih => exact ih

@[simp]
theorem references_comment (lines : List String) : references (comment lines) = [] :=
  references_plainLines _

@[simp]
theorem references_texts_append (texts : List String) (lines : Lines) : references (texts ++ lines) = references lines := by
  have happend : texts ++ lines = plainLines texts ++ lines := rfl
  rw [happend, references_append, references_plainLines, List.nil_append]

@[simp]
theorem references_append_texts (lines : Lines) (texts : List String) : references (lines ++ texts) = references lines := by
  have happend : lines ++ texts = lines ++ plainLines texts := rfl
  rw [happend, references_append, references_plainLines, List.append_nil]

@[simp]
theorem references_flatMap {α : Type} (xs : List α) (f : α → Lines) :
    references (xs.flatMap f) = xs.flatMap fun x => references (f x) :=
  List.flatMap_assoc

@[simp]
theorem references_map {α : Type} (xs : List α) (f : α → Line) :
    references (xs.map f) = xs.flatMap fun x => (f x).references :=
  List.flatMap_map ..

@[simp]
theorem references_nest (lines : Lines) : references (nest lines) = references lines := by
  rw [nest, references_map, references]
  refine List.flatMap_congr fun line _ => ?_
  split
  · rfl
  · exact Line.references_append _ line

@[simp]
theorem references_enclose (opening : Line) (body : Lines) (closing : Line) :
    references (enclose opening body closing) = opening.references ++ references body ++ closing.references := by
  simp [enclose]

@[simp]
theorem references_block (head : Line) (body : Lines) : references (block head body) = head.references ++ references body := by
  simp [block]

@[simp]
theorem references_when (condition : Line) (body : Lines) :
    references (when condition body) = condition.references ++ references body := by
  simp [when]

@[simp]
theorem references_composite (type : Line) (elements : Lines) :
    references (composite type elements) = type.references ++ references elements := by
  simp [composite]

@[simp]
theorem references_call (function : Line) (arguments : Lines) :
    references (call function arguments) = function.references ++ references arguments := by
  simp [call]

@[simp]
theorem references_onto (front : Line) (lines : Lines) :
    references (onto front lines) = front.references ++ references lines := by
  cases lines with
  | nil => simp [onto]
  | cons line lines => simp [onto]

@[simp]
theorem references_given (condition : Bool) (lines : Lines) :
    references (given condition lines) = if condition then references lines else [] := by
  cases condition <;> rfl

@[simp]
theorem references_spaced (groups : List Lines) : references (spaced groups) = groups.flatMap references := by
  induction groups using spaced.induct with
  | case1 => rfl
  | case2 group => simp [spaced]
  | case3 group next groups ih => simp [spaced, ih]

/-! ### Declarations -/

@[simp]
theorem references_signature (s : Signature) (head : String) (body : Lines) :
    references (s.lines head body) = references body := by
  unfold Signature.lines
  dsimp only
  split <;> simp

namespace Declaration

@[simp]
theorem references_remark (lines : List String) : (remark lines).references = [] := by
  simp [Declaration.references, Declaration.lines]

@[simp]
theorem references_constants (groups : List (List Constant)) : (constants groups).references = [] := by
  have hline (c : Constant) : c.line.references = [] := by
    unfold Constant.line
    split <;> simp
  simp [Declaration.references, Declaration.lines, hline]

@[simp]
theorem references_value (doc : List String) (name : String) (body : Lines) :
    (value doc name body).references = Code.references body := by
  simp [Declaration.references, Declaration.lines]

@[simp]
theorem references_storage (name type : String) : (storage name type).references = [] :=
  rfl

@[simp]
theorem references_function (doc : List String) (name : String) (s : Signature) (body : Lines) :
    (function doc name s body).references = Code.references body := by
  simp [Declaration.references, Declaration.lines]

@[simp]
theorem references_method (doc : List String) (self type name : String) (s : Signature) (body : Lines) :
    (method doc self type name s body).references = Code.references body := by
  simp [Declaration.references, Declaration.lines]

@[simp]
theorem references_initialization (body : Lines) : (initialization body).references = Code.references body := by
  simp [Declaration.references, Declaration.lines]

end Declaration

end Code

namespace Generated

/-! ### Names -/

/-- `r` names a constant or a method of an object, in the package that is called `package?`. -/
inductive NamesObject (package? : Option String) (o : ApiObject) : Reference → Prop
  | constant {name : String} (mem : name ∈ o.names.constants) : NamesObject package? o { package? := package?, name := name }
  | method {value name : String} (mem : name ∈ objectMethodNames) :
    NamesObject package? o { package? := package?, receiver? := some ⟨value, "*" ++ o.typeName⟩, name := name }

@[simp]
theorem references_ownName (name : String) : (ownName name).references = [{ name := name }] :=
  rfl

@[simp]
theorem references_importedName (package name : String) :
    (importedName package name).references = [{ package? := some package, name := name }] :=
  rfl

@[simp]
theorem references_apiName (name : String) : (apiName name).references = [{ package? := some "api", name := name }] :=
  rfl

@[simp]
theorem references_objectMethod (package? : Option String) (typeName value name : String) :
    (objectMethod package? typeName value name).references =
      [{ package? := package?, receiver? := some ⟨value, "*" ++ typeName⟩, name := name }] :=
  rfl

/-! ### Objects, notifications and tags -/

theorem references_objectsFile (version : String) (g : GroupSlice) : (objectsFile version g).references = [] := by
  simp [File.references, objectsFile, List.flatMap_assoc, objectMethods, subjectsMethod, payloadMethod, decodeMethod]

theorem mem_references_notificationsFile {s : VersionSlice} {r : Reference}
    (h : r ∈ (notificationsFile s).references) :
    (∃ g ∈ s.groups, r = { name := g.names.stream }) ∨ ∃ o ∈ s.objects, NamesObject none o r := by
  simp [File.references, notificationsFile, streamsFunction, subjectsFunction] at h
  rcases h with ⟨g, hg, rfl⟩ | ⟨o, ⟨ho, -⟩, rfl | rfl⟩
  · exact Or.inl ⟨g, hg, rfl⟩
  · exact Or.inr ⟨o, ho, .constant List.mem_cons_self⟩
  · exact Or.inr ⟨o, ho, .method List.mem_cons_self⟩

theorem mem_references_taggedFieldsFile {p : Project} {version : String} {g : GroupSlice} {r : Reference}
    (h : r ∈ (taggedFieldsFile p version g).references) : ∃ o ∈ g.objects, NamesObject (some "api") o r := by
  simp [File.references, taggedFieldsFile, taggedFieldsValue, addVersionsFunction, taggedObjectLines, tagLines] at h
  obtain ⟨o, ho, rfl⟩ := h
  exact ⟨o, ho, .constant List.mem_cons_self⟩

/-! ### Routes -/

/-- A handler, as the routes call it. -/
def handlerReference (name : String) : Reference where
  package? := some "handlers"
  receiver? := some ⟨"h", "Handler"⟩
  name := name

@[simp]
theorem references_route (r : Route) :
    r.line.references = [{ package? := some "api", name := r.pathConst }, handlerReference r.handler] := by
  rcases r with ⟨verb, pathConst, single, handler, middleware⟩
  cases single <;> cases middleware <;> rfl

/-- The routes of an object name its paths and all of its handlers, and nothing else. -/
theorem mem_references_routesFile {p : Project} {version : String} {g : GroupSlice} {r : Reference} :
    r ∈ (routesFile p version g).references ↔ ∃ o ∈ routable g.objects,
      (∃ name ∈ [o.names.pathConst, o.names.versionsPathConst], r = { package? := some "api", name := name }) ∨
        ∃ name ∈ o.names.handlers.all, r = handlerReference name := by
  simp [File.references, routesFile, routesFunction, List.flatMap_assoc, versionsRoute, recordRoutes, objectRoute,
    HandlerNames.all]
  refine exists_congr fun o => and_congr_right fun _ => ?_
  tauto

theorem references_registryFile (p : Project) (s : VersionSlice) (i : VersionIndex) :
    (registryFile p s i).references = (routedGroups s).map fun g => { name := routesFunctionName g.names.domain } := by
  simp [File.references, registryFile, List.map_eq_flatMap]

/-! ### Handlers -/

@[simp]
theorem references_objectTypeLine (o : ApiObject) :
    (objectTypeLine o).references = [{ package? := some "api", name := o.names.objectType }] := by
  simp [objectTypeLine]

@[simp]
theorem references_failWhen (condition : Line) (error : String) :
    references (failWhen condition error) = condition.references := by
  simp [failWhen]

@[simp]
theorem references_checkPayload (isUpdate object : String) : references (checkPayload isUpdate object) = [] := by
  simp [checkPayload]

@[simp]
theorem references_checkRequired (object : String) : references (checkRequired object) = [] := by
  simp [checkRequired]

@[simp]
theorem references_bindRequest (object : String) : references (bindRequest object) = [] := by
  simp [bindRequest]

@[simp]
theorem references_run (operation : String) : references (run operation) = [] := by
  simp [run]

@[simp]
theorem references_find (query : String) : references (find query) = [] := by
  simp [find]

@[simp]
theorem references_respondWith (object status : String) : references (respondWith object status) = [] := by
  simp [respondWith]

@[simp]
theorem references_checkDuplicates (o : ApiObject) : references (checkDuplicates o) = [] := by
  simp [checkDuplicates]

@[simp]
theorem references_notify (typeName object operation subject : String) :
    references (notify typeName object operation subject) = [
      { package? := some "api", receiver? := some ⟨object, "*" ++ typeName⟩, name := "NotificationPayload" },
      { package? := some "api", name := subject }] := by
  simp [notify]

@[simp]
theorem references_readChange (o : ApiObject) :
    references (readChange o) = [{ package? := some "api", name := o.names.objectType }] := by
  simp [readChange]

@[simp]
theorem references_notifyUpdate (o : ApiObject) :
    references (notifyUpdate o) =
      references (notify o.typeName "existing" "Updated" o.names.updateSubject.constant) := by
  simp [notifyUpdate]

@[simp]
theorem references_scheduleDeletion (o : ApiObject) :
    references (scheduleDeletion o) =
      references (notify o.typeName o.names.variableName "Deleted" o.names.deleteSubject.constant) := by
  simp [scheduleDeletion]

theorem mem_references_handlersFile {p : Project} {version : String} {g : GroupSlice} {r : Reference}
    (h : r ∈ (handlersFile p version g).references) : ∃ o ∈ routable g.objects, NamesObject (some "api") o r := by
  rw [File.references, handlersFile, List.flatMap_assoc] at h
  obtain ⟨o, ho, hr⟩ := List.mem_flatMap.mp h
  refine ⟨o, ho, ?_⟩
  have hconstant {name : String} (hname : name ∈ o.names.constants) :
      NamesObject (some "api") o { package? := some "api", name := name } :=
    .constant hname
  have hpayload (value : String) : NamesObject (some "api") o
      { package? := some "api", receiver? := some ⟨value, "*" ++ o.typeName⟩, name := "NotificationPayload" } :=
    .method (by decide)
  simp [objectHandlers, banner, versionsHandler, addHandler, listHandler, getHandler, updateHandler, replaceHandler,
    deleteHandler, handler, apply_ite references] at hr
  -- The type, and what a notification is made with.
  rcases hr with rfl | ⟨-, rfl | rfl⟩ | rfl | ⟨-, rfl | rfl⟩ | rfl | ⟨-, rfl | rfl⟩
  all_goals first
    | exact hpayload _
    | exact hconstant (by simp [ObjectNames.constants])

/-! ### Clients and commands -/

@[simp]
theorem references_send (r : Request) (result : String) : references (send r result) = r.address.references := by
  simp [send]

@[simp]
theorem references_decodeInto (target data result : String) : references (decodeInto target data result) = [] := by
  simp [decodeInto]

@[simp]
theorem references_encodeObject (object : String) : references (encodeObject object) = [] := by
  simp [encodeObject]

theorem mem_references_clientFile {p : Project} {version : String} {g : GroupSlice} {r : Reference}
    (h : r ∈ (clientFile p version g).references) : ∃ o ∈ routable g.objects, NamesObject (some "api") o r := by
  rw [File.references, clientFile, List.flatMap_assoc] at h
  obtain ⟨o, ho, hr⟩ := List.mem_flatMap.mp h
  refine ⟨o, ho, ?_⟩
  have hpath : NamesObject (some "api") o { package? := some "api", name := o.names.pathConst } :=
    .constant (by simp [ObjectNames.constants])
  simp [clientFunctions, clientFunction, listFunction, getByIdFunction, getByNameFunction, createFunction,
    updateFunction, deleteFunction, listAddress, recordAddress, apply_ite (List.flatMap Declaration.references)] at hr
  rcases hr with rfl | ⟨-, rfl⟩ | rfl <;> exact hpath

/-- The client functions that the commands of an object call. -/
def calledNames (o : ApiObject) : List String :=
  [o.names.client.getAll] ++ (if o.has .tptctlConfigPath then [o.names.client.create] else []) ++
    (if o.nameField then [o.names.client.getByName, o.names.client.delete] else [])

theorem mem_references_objectCommands {o : ApiObject} {r : Reference} :
    r ∈ (objectCommands o).flatMap Declaration.references ↔ r = { name := outputFunctionName o } ∨
      ∃ name ∈ calledNames o, r = { package? := some (clientAlias o.version), name := name } := by
  cases hconfig : o.has .tptctlConfigPath <;> cases hname : o.nameField <;>
    simp [objectCommands, banner, getCommand, createCommand, deleteCommand, Command.lines, exitWhen, clientCall,
      calledNames, hconfig, hname]
  all_goals tauto
 
theorem references_commandsFile (p : Project) (g : Group) : (commandsFile p g).references =
    g.commandObjects.flatMap fun o => (objectCommands o).flatMap Declaration.references :=
  List.flatMap_assoc

theorem references_outputFile (p : Project) (g : Group) : (outputFile p g).references = [] := by
  simp [File.references, outputFile, outputFunction]

theorem references_databaseFile (p : Project) (i : VersionIndex) : (databaseFile p i).references = [] := by
  simp [File.references, databaseFile]

/-! ### Controllers -/

theorem mem_references_mainFunction {names : GroupNames} {version : String} {rs : List Reconciler} {r : Reference}
    (h : r ∈ (mainFunction names (importedName (apiAlias version) names.stream) rs).references) :
    r = { package? := some (apiAlias version), name := names.stream } ∨
      ∃ reconciler ∈ rs, r = { package? := some names.package, name := reconciler.object.names.reconciler } ∨
        NamesObject (some (apiAlias reconciler.object.version)) reconciler.object r := by
  simp [mainFunction, concurrencyFlag, connectLines, reconcilerConfig] at h
  rcases h with rfl | ⟨reconciler, hmem, rfl | rfl | rfl⟩ | rfl
  · exact Or.inl rfl
  · exact Or.inr ⟨reconciler, hmem, Or.inr (.constant (by simp [ObjectNames.constants]))⟩
  · exact Or.inr ⟨reconciler, hmem, Or.inl rfl⟩
  · exact Or.inr ⟨reconciler, hmem, Or.inr (.constant (by simp [ObjectNames.constants]))⟩
  · exact Or.inl rfl

theorem references_helpFunction (controller : String) : (helpFunction controller).references = [] := by
  simp [helpFunction]

theorem mem_references_reconcilerFunction {reconciler : Reconciler} {r : Reference}
    (h : r ∈ (reconcilerFunction reconciler).references) :
    (∃ name ∈ reconcileNames reconciler.object, r = { name := name }) ∨
      NamesObject (some (apiAlias reconciler.object.version)) reconciler.object r := by
  simp [reconcilerFunction, handleMessage, requeueRaw] at h
  rcases h with rfl | rfl | rfl | rfl | rfl
  · exact Or.inr (.method (by decide))
  · exact Or.inr (.method (by decide))
  · exact Or.inl ⟨_, by simp [reconcileNames], rfl⟩
  · exact Or.inl ⟨_, by simp [reconcileNames], rfl⟩
  · exact Or.inl ⟨_, by simp [reconcileNames], rfl⟩

theorem references_reconcileFunction (r : Reconciler) (operation past : String) :
    (reconcileFunction r operation past).references = [] := by
  simp [reconcileFunction]

end Generated

end ApiForge
