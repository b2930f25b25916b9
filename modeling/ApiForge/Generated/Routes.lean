import ApiForge.Generated.Package

/-! The routes of a group at one version, and the list of all routes of a version. -/

namespace ApiForge.Generated

open Code

/-- A route: for requests of one kind on one path, the handler and where there is one the middleware. -/
structure Route where
  verb : String
  pathConst : String
  /-- The path goes on with the identifier of an object. -/
  single : Bool
  handler : String
  middleware : Option String
  deriving DecidableEq, Repr

/-- The handlers of a version, all methods of one type. -/
def handlerName (name : String) : Line :=
  Reference.line { package? := some "handlers", receiver? := some ⟨"h", "Handler"⟩, name := name }

/-- Unlike the handlers middleware is written by hand. -/
def Route.line (r : Route) : Line :=
  s!"e.{r.verb}(" ++ apiName r.pathConst ++ (if r.single then "+\"/:id\", " else ", ") ++ handlerName r.handler ++
    (match r.middleware with
      | some m => s!", h.{m}()...)"
      | none => ")")

def objectRoute (o : ApiObject) (verb pathConst : String) (single : Bool) (name : HandlerNames → String) : Route where
  verb := verb
  pathConst := pathConst
  single := single
  handler := name o.names.handlers
  middleware := if o.has .addCustomMiddleware then some (name o.names.middleware) else none

def versionsRoute (o : ApiObject) : Route :=
  objectRoute o "GET" o.names.versionsPathConst false (·.getVersions)

def recordRoutes (o : ApiObject) : List Route := [
  objectRoute o "POST" o.names.pathConst false (·.add),
  objectRoute o "GET" o.names.pathConst false (·.getAll),
  objectRoute o "GET" o.names.pathConst true (·.getOne),
  objectRoute o "PATCH" o.names.pathConst true (·.update),
  objectRoute o "PUT" o.names.pathConst true (·.replace),
  objectRoute o "DELETE" o.names.pathConst true (·.delete)]

def routesFunctionName (domain : String) : String :=
  domain ++ "Routes"

def routesFunction (g : GroupSlice) : Declaration :=
  .function [s!"{routesFunctionName g.names.domain} sets up all routes for the {g.name} handlers."]
    (routesFunctionName g.names.domain) { parameters := ["e *echo.Echo", "h *handlers.Handler"] }
    (spaced ((routable g.objects).flatMap fun o => [[(versionsRoute o).line], (recordRoutes o).map Route.line]))

def echoImport : Import :=
  ⟨"echo", "github.com/labstack/echo/v4"⟩

def routesFile (p : Project) (version : String) (g : GroupSlice) : File where
  header := regenerated
  package := "routes"
  imports := [[echoImport], [⟨"api", apiPackage p version⟩, ⟨"handlers", handlersPackage p version⟩]]
  declarations := [routesFunction g]

/-- The groups of a version that have routes. -/
def routedGroups (s : VersionSlice) : List GroupSlice :=
  s.groups.filter fun g => !(routable g.objects).isEmpty

def registryFile (p : Project) (s : VersionSlice) (index : VersionIndex) : File where
  header := regenerated
  package := "routes"
  imports := [[echoImport], [⟨"handlers", handlersPackage p s.version⟩]]
  declarations := [
    .value [s!"RoutedObjects lists the objects served by the {s.version} REST API."] "RoutedObjects"
      (composite "[]string" (index.routeNames.map fun n => Text.quote n ++ ",")),
    .function [s!"AddRoutes adds the routes of every {s.version} API object."] "AddRoutes"
      { parameters := ["e *echo.Echo", "h *handlers.Handler"] }
      ((routedGroups s).map fun g => ownName (routesFunctionName g.names.domain) ++ "(e, h)")]

end ApiForge.Generated
