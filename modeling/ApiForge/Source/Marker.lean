/-! Markers: sentinels in the comment above a struct that switch on a part of the generated code. -/

namespace ApiForge.Source

inductive Marker where
  | reconciler
  | allowDuplicateNames
  | addCustomMiddleware
  | dbLoadAssociations
  | tptctlEnabled
  | tptctlConfigPath
  deriving DecidableEq, Repr

/-- `part` stands somewhere in the text. -/
def occursIn (part : List Char) : List Char → Bool
  | [] => part.isEmpty
  | c :: cs => part.isPrefixOf (c :: cs) || occursIn part cs

namespace Marker

def all : List Marker :=
  [.reconciler, .allowDuplicateNames, .addCustomMiddleware, .dbLoadAssociations, .tptctlEnabled, .tptctlConfigPath]

def text : Marker → String
  | .reconciler => "reconciler"
  | .allowDuplicateNames => "allow-duplicate-names"
  | .addCustomMiddleware => "add-custom-middleware"
  | .dbLoadAssociations => "db-load-associations"
  | .tptctlEnabled => "tptctl-enabled"
  | .tptctlConfigPath => "tptctl-config-path"

/-- What is looked for in a comment. -/
def sentinel (marker : Marker) : String :=
  "threeport-sdk:" ++ marker.text

/-- The markers whose sentinel occurs in `doc`. -/
def scan (doc : String) : List Marker :=
  all.filter fun marker => occursIn marker.sentinel.toList doc.toList

end Marker

end ApiForge.Source
