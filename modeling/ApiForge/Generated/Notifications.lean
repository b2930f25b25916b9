import ApiForge.Generated.Package

/-! The streams of one version, and the subjects that its controllers listen to. -/

namespace ApiForge.Generated

open Code

def streamsFunction (s : VersionSlice) : Declaration :=
  .function [
      "AllStreams returns the JetStream stream name of every controller domain",
      "with objects in this API version."]
    "AllStreams" { result := "[]string" }
    (composite "return []string" (s.groups.map fun g => ownName g.names.stream ++ ","))

def subjectsFunction (s : VersionSlice) : Declaration :=
  .function [
      "ReconciledSubjects maps each reconciled object type in this API version to",
      "the subjects its controller consumes."]
    "ReconciledSubjects" { result := "map[ObjectType][]string" }
    (["subjects := make(map[ObjectType][]string)"] ++
    (s.objects.filter (·.has .reconciler)).map (fun o =>
      "subjects[" ++ ownName o.names.objectType ++ "] = " ++
        objectMethod none o.typeName s!"(&{o.typeName}\x7b\x7d)" "GetSubjects" ++ "()") ++
    ["return subjects"])

def notificationsFile (s : VersionSlice) : File where
  header := regenerated
  package := s.version
  declarations := [streamsFunction s, subjectsFunction s]

end ApiForge.Generated
