import ApiForge.Emission.Emitter
import ApiForge.Generated.Client
import ApiForge.Generated.Commands
import ApiForge.Generated.Database
import ApiForge.Generated.Handlers
import ApiForge.Generated.Image
import ApiForge.Generated.Notifications
import ApiForge.Generated.Objects
import ApiForge.Generated.Reconcilers
import ApiForge.Generated.Routes
import ApiForge.Generated.TaggedFields

/-! The built-in emitters: every kind of file that is generated, in the order of the stages. -/

namespace ApiForge

open Generated

/-! ### When there is something to generate -/

def hasRoutes : Target → Bool
  | .version _ index => !index.routeNames.isEmpty
  | .versionGroup _ g => !(routable g.objects).isEmpty
  | _ => false

def hasDatabaseObjects : Target → Bool
  | .version _ index => !index.databaseNames.isEmpty
  | _ => false

def hasCommands : Target → Bool
  | .group g => g.hasCommands && !g.commandObjects.isEmpty
  | _ => false

def hasReconcilers : Target → Bool
  | .group g => g.hasReconcilers
  | _ => false

/-! ### Files for one kind of target -/

/-- What an emitter renders, with the project and the model at hand. -/
abbrev Render := Project → Model → Target → Except RenderFault Document

def forVersion (file : Project → VersionSlice → VersionIndex → Code.File) : Render :=
  fun p _ t =>
    match t with
    | .version s index => .ok (.code (file p s index))
    | _ => .error (.unsupportedTarget t.describe)

def forVersionGroup (file : Project → String → GroupSlice → Code.File) : Render :=
  fun p _ t =>
    match t with
    | .versionGroup s g => .ok (.code (file p s.version g))
    | _ => .error (.unsupportedTarget t.describe)

def forGroup (document : Project → Model → Group → Except RenderFault Document) : Render :=
  fun p m t =>
    match t with
    | .group g => document p m g
    | _ => .error (.unsupportedTarget t.describe)

def forReconciledObject (file : Project → Group → ReconciledObject → Except RenderFault Code.File) : Render :=
  fun p _ t =>
    match t with
    | .reconciledObject g o => (file p g o).map .code
    | _ => .error (.unsupportedTarget t.describe)

/-! ### The emitters -/

namespace Emitter

def objects : Emitter where
  name := "api-object"
  stage := .apiModel
  granularity := .versionGroup
  mode := .overwrite
  path := "pkg/api/\x7bversion\x7d/\x7bgroup\x7d_gen.go"
  applies := fun _ => true
  render := forVersionGroup fun _ => objectsFile

def notifications : Emitter where
  name := "notifications"
  stage := .apiModel
  granularity := .version
  mode := .overwrite
  path := "pkg/api/\x7bversion\x7d/notifications_gen.go"
  applies := fun _ => true
  render := forVersion fun _ s _ => notificationsFile s

def taggedFields : Emitter where
  name := "tagged-fields"
  stage := .apiModel
  granularity := .versionGroup
  mode := .overwrite
  path := "pkg/api-server/\x7bversion\x7d/versions/\x7bgroup\x7d_gen.go"
  applies := fun _ => true
  render := forVersionGroup taggedFieldsFile

def routes : Emitter where
  name := "routes"
  stage := .routes
  granularity := .versionGroup
  mode := .overwrite
  path := "pkg/api-server/\x7bversion\x7d/routes/\x7bgroup\x7d_gen.go"
  applies := hasRoutes
  render := forVersionGroup routesFile

def registry : Emitter where
  name := "route-registry"
  stage := .routes
  granularity := .version
  mode := .overwrite
  path := "pkg/api-server/\x7bversion\x7d/routes/routes_gen.go"
  applies := hasRoutes
  render := forVersion registryFile

def handlers : Emitter where
  name := "handlers"
  stage := .handlers
  granularity := .versionGroup
  mode := .overwrite
  path := "pkg/api-server/\x7bversion\x7d/handlers/\x7bgroup\x7d_gen.go"
  applies := hasRoutes
  render := forVersionGroup handlersFile

def database : Emitter where
  name := "database-init"
  stage := .database
  granularity := .version
  mode := .overwrite
  path := "pkg/api-server/\x7bversion\x7d/database/database_gen.go"
  applies := hasDatabaseObjects
  render := forVersion fun p _ index => databaseFile p index

def client : Emitter where
  name := "client"
  stage := .client
  granularity := .versionGroup
  mode := .overwrite
  path := "pkg/client/\x7bversion\x7d/\x7bgroup\x7d_gen.go"
  applies := hasRoutes
  render := forVersionGroup clientFile

def commands : Emitter where
  name := "tptctl-commands"
  stage := .tptctl
  granularity := .group
  mode := .overwrite
  path := "cmd/tptctl/cmd/\x7bgroup\x7d_gen.go"
  applies := hasCommands
  render := forGroup fun p _ g => .ok (.code (commandsFile p g))

def output : Emitter where
  name := "tptctl-output"
  stage := .tptctl
  granularity := .group
  mode := .scaffold
  path := "cmd/tptctl/cmd/\x7bgroup\x7d_output.go"
  applies := hasCommands
  render := forGroup fun p _ g => .ok (.code (outputFile p g))

def controller : Emitter where
  name := "controller-main"
  stage := .controller
  granularity := .group
  mode := .overwrite
  path := "cmd/\x7bcontroller\x7d/main_gen.go"
  applies := hasReconcilers
  render := forGroup fun p _ g => (controllerFile p g).map .code

def reconcilers : Emitter where
  name := "reconcilers"
  stage := .controller
  granularity := .group
  mode := .overwrite
  path := "internal/\x7bpackage\x7d/reconcilers_gen.go"
  applies := hasReconcilers
  render := forGroup fun p _ g => (reconcilersFile p g).map .code

def stub : Emitter where
  name := "reconciler-stub"
  stage := .controller
  granularity := .reconciledObject
  mode := .scaffold
  path := "internal/\x7bpackage\x7d/\x7bobject\x7d.go"
  applies := fun _ => true
  render := forReconciledObject stubFile

def image : Emitter where
  name := "dockerfile"
  stage := .controller
  granularity := .group
  mode := .overwrite
  path := "cmd/\x7bcontroller\x7d/image/Dockerfile"
  applies := hasReconcilers
  render := forGroup fun _ m g => .ok (.plain (Code.text (imageLines g.names.controller m.imageRepo)))

end Emitter

def defaultEmitters : List Emitter :=
  [.objects, .notifications, .taggedFields, .routes, .registry, .handlers, .database, .client, .commands, .output,
    .controller, .reconcilers, .stub, .image]

end ApiForge
