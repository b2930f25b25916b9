import ApiForge.Generated.Package

/-! The constants and methods of the objects of a group at one version. -/

namespace ApiForge.Generated

open Code

/-- The constants of a group: the types of its objects, its stream, and the subjects and paths of each object. -/
def objectConstants (g : GroupSlice) : List (List Constant) :=
  [g.objects.map fun o => ⟨o.names.objectType, "ObjectType", Text.quote o.typeName⟩,
    [⟨g.names.stream, "", Text.quote (g.names.domain ++ "Stream")⟩]] ++
  g.objects.flatMap fun o => [
    [o.names.subject, o.names.createSubject, o.names.updateSubject, o.names.deleteSubject].map fun s =>
      ⟨s.constant, "", Text.quote s.value⟩,
    [⟨o.names.pathConst, "", Text.quote o.names.path⟩,
      ⟨o.names.versionsPathConst, "", Text.quote o.names.versionsPath⟩]]

def subjectsMethod (o : ApiObject) : Declaration :=
  .method [s!"GetSubjects returns the NATS subjects for {o.names.plural}."] "t" s!"*{o.typeName}" "GetSubjects"
    { result := "[]string" }
    (composite "return []string" [
      o.names.createSubject.constant ++ ",", o.names.updateSubject.constant ++ ",",
      o.names.deleteSubject.constant ++ ","])

def payloadMethod (o : ApiObject) : Declaration :=
  .method [
      "NotificationPayload returns the notification payload delivered to the",
      "controller when a change is made. It includes the object as presented by",
      "the client when the change was made."]
    "t" s!"*{o.typeName}" "NotificationPayload"
    { parameters := ["operation notifications.NotificationOperation", "requeue bool", "creationTime int64"]
      spread := true
      result := "(*[]byte, error)" }
    (composite "notif := notifications.Notification" [
      "CreationTime: &creationTime,", "Object:       t,", "Operation:    operation,"] ++
    ["", "payload, err := json.Marshal(notif)"] ++
    when "err != nil" [
      "return &payload, fmt.Errorf(\"failed to marshal notification payload %+v: %w\", t, err)"] ++
    ["", "return &payload, nil"])

def decodeMethod (o : ApiObject) : Declaration :=
  .method [
      "DecodeNotifObject takes the object in the form of a map[string]interface",
      "and returns the typed object by marshalling into JSON and then",
      "unmarshalling into the typed object."]
    "t" s!"*{o.typeName}" "DecodeNotifObject"
    { parameters := ["object interface\x7b\x7d"], result := "error" }
    (["jsonObject, err := json.Marshal(object)"] ++
    when "err != nil" [
      "return fmt.Errorf(\"failed to marshal object map from consumed notification message: %w\", err)"] ++
    when "err := json.Unmarshal(jsonObject, &t); err != nil" [
      "return fmt.Errorf(\"failed to unmarshal json object to typed object: %w\", err)"] ++
    ["return nil"])

def objectMethods (version : String) (o : ApiObject) : List Declaration := [
  subjectsMethod o, payloadMethod o, decodeMethod o,
  .method ["GetId returns the unique ID for the object."] "t" s!"*{o.typeName}" "GetId" { result := "uint" }
    ["return *t.ID"],
  .method ["Type returns the object type."] "t" s!"*{o.typeName}" "Type" { result := "ObjectType" }
    [s!"return {o.names.objectType}"],
  .method ["Version returns the version of the API object."] "t" s!"*{o.typeName}" "Version" { result := "string" }
    [s!"return {inQuotes version}"]]

def objectsFile (version : String) (g : GroupSlice) : File where
  header := regenerated
  package := version
  imports := [[.plain "encoding/json", .plain "fmt"], [notifications]]
  declarations := .constants (objectConstants g) :: g.objects.flatMap (objectMethods version)

end ApiForge.Generated
