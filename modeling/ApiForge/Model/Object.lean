import ApiForge.Config.Basic
import ApiForge.Naming
import ApiForge.Source.Struct

/-! One type of object at one version: what the configuration says about it, merged with what its source declares. -/

namespace ApiForge

open Source (Marker Struct TagMap)

/-- The flag that a marker stands for, as the configuration sets it. -/
def ObjectConfig.flagged (o : ObjectConfig) : Marker → Bool
  | .reconciler => o.reconcilable
  | .allowDuplicateNames => o.allowDuplicateModelNames
  | .addCustomMiddleware => o.allowCustomMiddleware
  | .dbLoadAssociations => o.loadAssociationsFromDb
  | .tptctlEnabled => o.commands.enabled
  | .tptctlConfigPath => o.commands.configPath

/-- The markers that say the same as the configuration. -/
def ObjectConfig.markers (o : ObjectConfig) : List Marker :=
  Marker.all.filter o.flagged

instance : DecidableEq (NameMap TagMap) :=
  inferInstanceAs (DecidableEq (List (String × TagMap)))

structure ApiObject where
  typeName : String
  version : String
  /-- The object is unique by name. -/
  nameField : Bool
  /-- The source declares a field that records reconciliation. -/
  reconciledField : Bool
  /-- A definition whose instance is in the same group. -/
  definedInstance : Bool
  /-- What is switched on for the object, by configuration or by marker. -/
  markers : List Marker
  excludeRoute : Bool
  excludeFromDb : Bool
  disableNotificationPersistence : Bool
  /-- The tags of the fields of the source. -/
  fieldTags : NameMap TagMap
  names : ObjectNames
  deriving DecidableEq, Repr

namespace ApiObject

def ofConfig (o : ObjectConfig) (version : String) : ApiObject where
  typeName := o.name
  version := version
  nameField := o.nameField
  reconciledField := false
  definedInstance := false
  markers := o.markers
  excludeRoute := o.excludeRoute
  excludeFromDb := o.excludeFromDb
  disableNotificationPersistence := o.disableNotificationPersistence
  fieldTags := []
  names := .ofObject o.name version

def has (o : ApiObject) (m : Marker) : Bool :=
  o.markers.contains m

/-- Switches on what `on` says, in addition to what is on already. -/
def mark (o : ApiObject) (on : Marker → Bool) : ApiObject :=
  { o with markers := Marker.all.filter fun m => o.has m || on m }

/-- Adds what the source of the object declares. -/
def merge (o : ApiObject) (s : Struct) : ApiObject :=
  { o.mark s.markers.contains with
    nameField := o.nameField || s.hasNameField
    reconciledField := s.hasReconciledField
    fieldTags := s.fieldTags }

/-- What is left of a name without the ending, if it has it. -/
def strip? (name ending : String) : Option String :=
  if ending.toList.isSuffixOf name.toList then
    some (String.ofList (name.toList.take (name.toList.length - ending.toList.length)))
  else none

/-- What a definition and its instance have in common: `Workload` of `WorkloadDefinition` and `WorkloadInstance`. -/
def root? (typeName : String) : Option String :=
  ((strip? typeName "Definition").or (strip? typeName "Instance")).filter (· != "")

def isDefinition (typeName : String) : Bool :=
  (strip? typeName "Definition").any (· != "")

def isInstance (typeName : String) : Bool :=
  (strip? typeName "Instance").any (· != "")

/-- The type name of the instance that belongs to a type name's root. -/
def instanceName? (typeName : String) : Option String :=
  (root? typeName).map (· ++ "Instance")

/-- The type of the instance that this definition has in its group. -/
def instanceType? (o : ApiObject) : Option String :=
  if o.definedInstance then instanceName? o.typeName else none

/-- False when the tags of the field `Data` say that it is not persisted. -/
def dataPersisted (o : ApiObject) : Bool :=
  ((o.fieldTags.get? "Data").bind (NameMap.get? · "persist")) != some "false"

def hasField (o : ApiObject) (field : String) : Bool :=
  o.fieldTags.contains field

/-- Requests to add an object are refused when its name is taken. -/
def checksDuplicates (o : ApiObject) : Bool :=
  o.nameField && !o.has .allowDuplicateNames

/-- The object and its version in short. -/
def label (o : ApiObject) : String :=
  o.typeName ++ "@" ++ o.version

end ApiObject

/-- The objects of a list that are served over the network. -/
def routable (objects : List ApiObject) : List ApiObject :=
  objects.filter (!·.excludeRoute)

end ApiForge
