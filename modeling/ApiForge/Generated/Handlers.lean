import ApiForge.Generated.Routes

/-! The request handlers of a group at one version. -/

namespace ApiForge.Generated

open Code

/-! ### Statements that the handlers share -/

/-- Answers with an error; `page` is what is said about the page of a list. -/
def respondError (status page error : String) : String :=
  s!"return iapi.ResponseStatus{status}(c, {page}, {error}, objectType)"

def failWhen (condition : Line) (error : String) : Lines :=
  when condition [respondError "500" "nil" error]

def objectTypeLine (o : ApiObject) : Line :=
  "objectType := " ++ apiName o.names.objectType

/-- Refuses a payload that is empty or has fields that the operation does not take. -/
def checkPayload (isUpdate object : String) : Lines :=
  when s!"id, err := iapi.PayloadCheck(c, {isUpdate}, objectType, {object}); err != nil" [
    "return iapi.ResponseStatusErr(id, c, nil, err, objectType)"]

def checkRequired (object : String) : Lines :=
  ["", "// check for missing required fields"] ++
  when s!"id, err := iapi.ValidateBoundData(c, {object}, objectType); err != nil" [
    "return iapi.ResponseStatusErr(id, c, nil, err, objectType)"]

def bindRequest (object : String) : Lines :=
  failWhen s!"err := c.Bind(&{object}); err != nil" "err"

/-- Runs a database operation and fails with it. -/
def run (operation : String) : Lines :=
  failWhen s!"result := h.DB.{operation}; result.Error != nil" "result.Error"

/-- Runs a query for one record, which may not be there. -/
def find (query : String) : Lines :=
  when s!"result := h.DB.{query}; result.Error != nil" (
    when "errors.Is(result.Error, gorm.ErrRecordNotFound)" [respondError "404" "nil" "result.Error"] ++
    [respondError "500" "nil" "result.Error"])

def respondWith (object status : String) : Lines :=
  ["", s!"response, err := iapi.CreateResponse(nil, {object}, objectType)"] ++ failWhen "err != nil" "err" ++
  ["", s!"return iapi.ResponseStatus{status}(c, *response)"]

/-- Tells the controller about an operation on `object`. -/
def notify (typeName object operation subject : String) : Lines :=
  call ("notifPayload, err := " ++ objectMethod (some "api") typeName object "NotificationPayload") [
    s!"notifications.NotificationOperation{operation},", "false,", "time.Now().Unix(),"] ++
  failWhen "err != nil" "err" ++
  failWhen ("_, err := h.JS.Publish(" ++ apiName subject ++ ", *notifPayload); err != nil") "err"

/-- What a query starts with when associated objects are to be loaded. -/
def preload (o : ApiObject) : String :=
  if o.has .dbLoadAssociations then "Preload(gorm_clause.Associations)." else ""

def handler (doc : List String) (name : String) (body : Lines) : Declaration :=
  .method doc "h" "Handler" name { parameters := ["c echo.Context"], result := "error" } body

/-! ### The handlers of an object -/

def versionsHandler (o : ApiObject) : Declaration :=
  handler [
      s!"{o.names.handlers.getVersions} returns the supported versions of the",
      s!"{o.names.command} API."]
    o.names.handlers.getVersions
    ["return c.JSON(http.StatusOK, iapi.RestApiVersions[string(" ++ apiName o.names.objectType ++ ")])"]

/-- Refuses a name that another object has. -/
def checkDuplicates (o : ApiObject) : Lines :=
  ["", "// check for duplicate names", s!"var existing api.{o.typeName}", "nameUsed := true",
    s!"result := h.DB.Where(\"name = ?\", {o.names.variableName}.Name).First(&existing)"] ++
  when "result.Error != nil" (
    enclose "if errors.Is(result.Error, gorm.ErrRecordNotFound) \x7b" ["nameUsed = false"] "\x7d else \x7b" ++
    nest [respondError "500" "nil" "result.Error"] ++ ["\x7d"]) ++
  when "nameUsed" [respondError "409" "nil" "errors.New(\"object with provided name already exists\")"]

def addHandler (o : ApiObject) : Declaration :=
  let object := o.names.variableName
  handler [s!"{o.names.handlers.add} adds a new {o.names.command}."] o.names.handlers.add (
    [objectTypeLine o, s!"var {object} api.{o.typeName}", "",
      "// check for empty payload, unsupported fields, GORM Model fields, etc."] ++
    checkPayload "false" object ++ [""] ++ bindRequest object ++ checkRequired object ++
    given o.checksDuplicates (checkDuplicates o) ++
    given (o.has .reconciler) [
      "", "// mark unreconciled so the controller picks it up", "reconciled := false",
      s!"{object}.Reconciled = &reconciled"] ++
    ["", "// persist to DB"] ++ run s!"Create(&{object})" ++
    given (o.has .reconciler)
      (["", "// notify controller"] ++ notify o.typeName object "Created" o.names.createSubject.constant) ++
    respondWith object "201")

def listHandler (o : ApiObject) : Declaration :=
  let page (condition : Line) (error : String) : Lines := when condition [respondError "500" "&params" error]
  handler [s!"{o.names.handlers.getAll} gets a list of {o.names.commandPlural}."] o.names.handlers.getAll (
    [objectTypeLine o, "params, err := c.(*iapi.CustomContext).GetPaginationParams()"] ++
    when "err != nil" [respondError "400" "&params" "err"] ++ ["", s!"var filter api.{o.typeName}"] ++
    bindRequest "filter" ++ ["", "var totalCount int64"] ++
    page (s!"result := h.DB.Model(&api.{o.typeName}\x7b\x7d).Where(&filter).Count(&totalCount); " ++
      "result.Error != nil") "result.Error" ++
    ["", s!"records := &[]api.{o.typeName}\x7b\x7d"] ++
    page (s!"result := h.DB.{preload o}Order(\"ID asc\").Where(&filter).Limit(params.Size)" ++
      ".Offset((params.Page - 1) * params.Size).Find(records); result.Error != nil") "result.Error" ++
    ["", "response, err := iapi.CreateResponse(iapi.CreateMeta(params, totalCount), *records, objectType)"] ++
    page "err != nil" "err" ++ ["", "return iapi.ResponseStatus200(c, *response)"])

/-- The line that reads the identifier out of the path. -/
def idLine (o : ApiObject) : String :=
  s!"{o.names.variableName}ID := c.Param(\"id\")"

def getHandler (o : ApiObject) : Declaration :=
  let object := o.names.variableName
  handler [s!"{o.names.handlers.getOne} gets a {o.names.command} by ID."] o.names.handlers.getOne (
    [objectTypeLine o, idLine o, s!"var {object} api.{o.typeName}"] ++
    find s!"{preload o}First(&{object}, {object}ID)" ++ respondWith object "200")

/-- Reads the record to change and what is to become of it. -/
def readChange (o : ApiObject) : Lines :=
  [objectTypeLine o, idLine o, s!"var existing api.{o.typeName}"] ++
  find s!"First(&existing, {o.names.variableName}ID)" ++
  ["", "// check for empty payload, invalid or unsupported fields"] ++ checkPayload "true" "existing" ++
  ["", s!"var updated api.{o.typeName}"] ++ bindRequest "updated"

/-- Tells the controller about an update. Unless a field of the record is never persisted, the record is read again
before. -/
def notifyUpdate (o : ApiObject) : Lines :=
  given o.dataPersisted
    (["", "// fetch the latest object so the notification carries persisted state"] ++
    run s!"{preload o}First(&existing, {o.names.variableName}ID)") ++
  ["", "// notify controller if reconciliation is required"] ++
  when "!*existing.Reconciled" (notify o.typeName "existing" "Updated" o.names.updateSubject.constant)

def updateHandler (o : ApiObject) : Declaration :=
  handler [s!"{o.names.handlers.update} updates fields on a {o.names.command}."] o.names.handlers.update (
    readChange o ++
    given (o.has .reconciler)
      (["", "// update Reconciled to false unless the caller set it"] ++
      when "updated.Reconciled == nil" ["reconciled := false", "updated.Reconciled = &reconciled"]) ++
    ["", "// persist update"] ++ run "Model(&existing).Updates(updated)" ++
    given (o.has .reconciler) (notifyUpdate o) ++ respondWith "existing" "200")

def replaceHandler (o : ApiObject) : Declaration :=
  handler [s!"{o.names.handlers.replace} replaces a {o.names.command}."] o.names.handlers.replace (
    readChange o ++ checkRequired "updated" ++
    ["", "// persist provided data", "updated.ID = existing.ID"] ++
    run ("Session(&gorm.Session\x7bFullSaveAssociations: false\x7d)" ++
      ".Omit(\"CreatedAt\", \"DeletedAt\").Save(&updated)") ++
    ["", "// reload updated data from DB"] ++ run s!"First(&existing, {o.names.variableName}ID)" ++
    respondWith "existing" "200")

/-- Leaves the deletion to the controller. -/
def scheduleDeletion (o : ApiObject) : Lines :=
  let object := o.names.variableName
  ["", "// check to make sure the controller has not already begun deletion"] ++
  when s!"{object}.DeletionScheduled != nil" [
    respondError "409" "nil" "errors.New(\"object is already being deleted\")"] ++
  ["", "// schedule for deletion; the controller removes the record once the", "// deletion has been reconciled",
    "now := time.Now().UTC()", "reconciled := false", s!"{object}.DeletionScheduled = &now",
    s!"{object}.Reconciled = &reconciled"] ++
  run s!"Save(&{object})" ++
  ["", "// notify controller"] ++ notify o.typeName object "Deleted" o.names.deleteSubject.constant

def deleteHandler (o : ApiObject) : Declaration :=
  let object := o.names.variableName
  handler [s!"{o.names.handlers.delete} deletes a {o.names.command} by ID."] o.names.handlers.delete (
    [objectTypeLine o, idLine o, s!"var {object} api.{o.typeName}"] ++
    find s!"{preload o}First(&{object}, {object}ID)" ++
    (if o.has .reconciler then scheduleDeletion o else "" :: "// delete object" :: run s!"Delete(&{object})") ++
    respondWith object "200")

/-- A heading for what follows. -/
def banner (title : String) : Declaration :=
  let bar := String.ofList (List.replicate 79 '/')
  .remark [bar, "// " ++ title, bar]

def objectHandlers (o : ApiObject) : List Declaration := [
  banner o.typeName, versionsHandler o, addHandler o, listHandler o, getHandler o, updateHandler o,
  replaceHandler o, deleteHandler o]

/-! ### The file -/

def handlerImports (p : Project) (version : String) (objects : List ApiObject) : List Import :=
  Import.sorted (
    [.plain "errors", .plain "net/http", echoImport, ⟨"gorm", "gorm.io/gorm"⟩, serverLibrary,
      ⟨"api", apiPackage p version⟩] ++
    (if objects.any (·.has .reconciler) then [.plain "time", notifications] else []) ++
    (if objects.any (·.has .dbLoadAssociations) then [⟨"gorm_clause", "gorm.io/gorm/clause"⟩] else []))

def handlersFile (p : Project) (version : String) (g : GroupSlice) : File where
  header := regenerated
  package := "handlers"
  imports := [handlerImports p version (routable g.objects)]
  declarations := (routable g.objects).flatMap objectHandlers

end ApiForge.Generated
