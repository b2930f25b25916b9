import ApiForge.Generated.Package

/-! The client functions of a group at one version. -/

namespace ApiForge.Generated

open Code

/-! ### Statements that the functions share -/

/-- A request: its method and its body, where it goes and the status that means success. -/
structure Request where
  method : String
  /-- The format and the arguments of the address. -/
  address : Line
  body : String := "new(bytes.Buffer)"
  success : String := "StatusOK"
  deriving DecidableEq, Repr

/-- Sends a request; `result` is returned with the error if it fails. -/
def send (r : Request) (result : String) : Lines :=
  call "response, err := client.GetResponse" [
    "apiClient,", "fmt.Sprintf(" ++ r.address ++ "),", s!"http.{r.method},", r.body ++ ",", "map[string]string\x7b\x7d,",
    s!"http.{r.success},"] ++
  when "err != nil" [s!"return {result}, fmt.Errorf(\"call to threeport API returned unexpected response: %w\", err)"]

def decodeInto (target data result : String) : Lines :=
  when s!"err := client.DecodeResponseData({data}, &{target}); err != nil" [s!"return {result}, err"]

def encodeObject (object : String) : Lines :=
  [s!"jsonObject, err := json.Marshal({object})"] ++
  when "err != nil" ["return nil, fmt.Errorf(\"failed to marshal provided object to JSON: %w\", err)"]

/-- The address of all objects of a type. -/
def listAddress (o : ApiObject) : Line :=
  "\"%s%s\", apiAddr, " ++ apiName o.names.pathConst

/-- The address of the object with the identifier `id`. -/
def recordAddress (o : ApiObject) (id : String) : Line :=
  "\"%s%s/%d\", apiAddr, " ++ apiName o.names.pathConst ++ ", " ++ id

def objectResult (o : ApiObject) : String :=
  s!"(*api.{o.typeName}, error)"

def clientFunction (doc name : String) (parameters : List String) (result : String) (body : Lines) : Declaration :=
  .function [doc] name { parameters := "apiClient *resty.Client" :: parameters, result := result } body

/-! ### The functions of an object -/

def listFunction (o : ApiObject) : Declaration :=
  clientFunction s!"{o.names.client.getAll} fetches all {o.names.commandPlural}." o.names.client.getAll
    ["apiAddr string"] s!"(*[]api.{o.typeName}, error)" (
    [s!"var records []api.{o.typeName}", ""] ++
    send { method := "MethodGet", address := listAddress o } "&records" ++
    [""] ++ decodeInto "records" "response.Data" "&records" ++ ["", "return &records, nil"])

def getByIdFunction (o : ApiObject) : Declaration :=
  clientFunction s!"{o.names.client.getById} fetches a {o.names.command} by ID." o.names.client.getById
    ["apiAddr string", "id uint"] (objectResult o) (
    [s!"var record api.{o.typeName}", ""] ++
    send { method := "MethodGet", address := recordAddress o "id" } "&record" ++
    [""] ++ decodeInto "record" "response.Data[0]" "&record" ++ ["", "return &record, nil"])

def getByNameFunction (o : ApiObject) : Declaration :=
  clientFunction s!"{o.names.client.getByName} fetches a {o.names.command} by name." o.names.client.getByName
    ["apiAddr, name string"] (objectResult o) (
    [s!"var records []api.{o.typeName}", ""] ++
    send {
      method := "MethodGet"
      address := "\"%s%s?name=%s\", apiAddr, " ++ apiName o.names.pathConst ++ ", name" } "nil" ++
    [""] ++ decodeInto "records" "response.Data" "nil" ++
    ["", "switch \x7b", "case len(records) < 1:"] ++
    nest [s!"return nil, fmt.Errorf(\"no {o.names.command} with name %s: %w\", name, client.ErrObjectNotFound)"] ++
    ["case len(records) > 1:"] ++
    nest [s!"return nil, fmt.Errorf(\"more than one {o.names.command} with name %s returned\", name)"] ++
    ["\x7d", "", "return &records[0], nil"])

/-- The parameters of a function that is given an object. -/
def withObject (o : ApiObject) : List String :=
  ["apiAddr string", s!"{o.names.variableName} *api.{o.typeName}"]

def createFunction (o : ApiObject) : Declaration :=
  clientFunction s!"{o.names.client.create} creates a new {o.names.command}." o.names.client.create
    (withObject o) (objectResult o) (
    [s!"client.ReplaceAssociatedObjectsWithNil({o.names.variableName})"] ++ encodeObject o.names.variableName ++
    [""] ++
    send {
      method := "MethodPost", address := listAddress o, body := "bytes.NewBuffer(jsonObject)"
      success := "StatusCreated" } "nil" ++
    ["", s!"var created api.{o.typeName}"] ++ decodeInto "created" "response.Data[0]" "nil" ++
    ["", "return &created, nil"])

def updateFunction (o : ApiObject) : Declaration :=
  clientFunction s!"{o.names.client.update} updates a {o.names.command}." o.names.client.update
    (withObject o) (objectResult o) (
    [s!"client.ReplaceAssociatedObjectsWithNil({o.names.variableName})",
      "// capture the object ID, make a copy of the object, then remove fields",
      "// that cannot be updated in the API",
      s!"objectID := *{o.names.variableName}.ID", s!"payload := *{o.names.variableName}", "payload.ID = nil",
      "payload.CreatedAt = nil", "payload.UpdatedAt = nil", ""] ++
    encodeObject "payload" ++ [""] ++
    send {
      method := "MethodPatch", address := recordAddress o "objectID", body := "bytes.NewBuffer(jsonObject)" } "nil" ++
    ["", s!"var updated api.{o.typeName}"] ++ decodeInto "updated" "response.Data[0]" "nil" ++
    ["", "return &updated, nil"])

def deleteFunction (o : ApiObject) : Declaration :=
  clientFunction s!"{o.names.client.delete} deletes a {o.names.command} by ID." o.names.client.delete
    ["apiAddr string", "id uint"] (objectResult o) (
    send { method := "MethodDelete", address := recordAddress o "id" } "nil" ++
    ["", s!"var deleted api.{o.typeName}"] ++ decodeInto "deleted" "response.Data[0]" "nil" ++
    ["", "return &deleted, nil"])

/-- An object can be asked for by name only if it is unique by name. -/
def clientFunctions (o : ApiObject) : List Declaration :=
  [listFunction o, getByIdFunction o] ++ (if o.nameField then [getByNameFunction o] else []) ++
  [createFunction o, updateFunction o, deleteFunction o]

def clientFile (p : Project) (version : String) (g : GroupSlice) : File where
  header := regenerated
  package := version
  imports := [
    [.plain "bytes", .plain "encoding/json", .plain "fmt", .plain "net/http"],
    [⟨"resty", "github.com/go-resty/resty/v2"⟩],
    [⟨"api", apiPackage p version⟩, clientLibrary]]
  declarations := (routable g.objects).flatMap clientFunctions
  finalBreak := true

end ApiForge.Generated
