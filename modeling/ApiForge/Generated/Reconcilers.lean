import ApiForge.Generated.Package

/-! The controller of a group: its program, its reconcilers, and for each reconciled object the functions that do the
reconciling, which are generated once. -/

namespace ApiForge.Generated

open Code

/-- A reconciled object at its latest version. -/
structure Reconciler where
  object : ApiObject
  /-- Notifications are kept until they have been dealt with. -/
  durable : Bool
  deriving DecidableEq, Repr

namespace Reconciler

/-- The type of the object as files of the controller write it. -/
def objectType (r : Reconciler) : String :=
  s!"{apiAlias r.object.version}.{r.object.typeName}"

/-- The option of the controller that sets how many reconcilers run at a time. -/
def concurrencyOption (r : Reconciler) : String :=
  r.object.names.command ++ "-concurrent-reconciles"

def concurrencyVariable (r : Reconciler) : String :=
  r.object.names.variableName ++ "ConcurrentReconciles"

end Reconciler

def reconcilerOf (g : Group) (r : ReconciledObject) : Except RenderFault Reconciler :=
  (g.latestOf r).map fun o => ⟨o, !r.disableNotificationPersistence⟩

def reconcilersOf (g : Group) : Except RenderFault (List Reconciler) :=
  g.reconciled.mapM (reconcilerOf g)

/-- The latest version among those of the reconcilers; of versions that tie the last. -/
def latestVersion? : List String → Option String
  | [] => none
  | v :: vs => some (vs.foldl (fun latest v => if Version.compare latest v = .gt then latest else v) v)

def apiImports (p : Project) (rs : List Reconciler) : List Import :=
  rs.map fun r => apiImport p r.object.version

/-! ### The program -/

def concurrencyFlag (r : Reconciler) : Lines :=
  call s!"{r.concurrencyVariable} := flag.Int" [
    inQuotes r.concurrencyOption ++ ",", "1,",
    s!"\"Number of concurrent reconcilers to run for {r.object.names.commandPlural}\","]

def connectLines (domain : String) (stream : Line) : Lines :=
  ["natsHost := flag.String(\"nats-host\", \"nats-js\", \"Hostname of the NATS server\")",
    "natsPort := flag.Int(\"nats-port\", 4222, \"Port of the NATS server\")",
    "verbose := flag.Bool(\"verbose\", false, \"Write logs with v(1).InfoLevel and above\")",
    "help := flag.Bool(\"help\", false, \"Show help info\")", "flag.Parse()", ""] ++
  when "*help" ["showHelpAndExit(0)"] ++
  ["", "log, err := controller.NewLogger(*verbose)"] ++
  when "err != nil" ["fmt.Fprintf(os.Stderr, \"failed to set up logger: %v\\n\", err)", "os.Exit(1)"] ++
  ["", "// connect to NATS server",
    "natsConn, err := nats.Connect(fmt.Sprintf(\"nats://%s:%d\", *natsHost, *natsPort))"] ++
  when "err != nil" [
    "log.Error(err, \"failed to connect to NATS\", \"natsHost\", *natsHost, \"natsPort\", *natsPort)", "os.Exit(1)"] ++
  ["", s!"// create JetStream context and the {domain} stream",
    "js, err := natsConn.JetStream(nats.PublishAsyncMaxPending(256))"] ++
  when "err != nil" ["log.Error(err, \"failed to create JetStream context\")", "os.Exit(1)"] ++
  when ("err := controller.EnsureStream(js, " ++ stream ++ "); err != nil") [
    "log.Error(err, \"failed to create stream\", \"streamName\", " ++ stream ++ ")", "os.Exit(1)"]

def reconcilerConfig (package : String) (r : Reconciler) : Lines :=
  enclose "reconcilerConfigs = append(reconcilerConfigs, controller.ReconcilerConfig\x7b" [
    s!"Name:                 {inQuotes r.object.names.reconciler},",
    "ObjectType:           " ++ importedName (apiAlias r.object.version) r.object.names.objectType ++ ",",
    "ReconcileFunc:        " ++ importedName package r.object.names.reconciler ++ ",",
    s!"ConcurrentReconciles: *{r.concurrencyVariable},",
    "NotifSubject:         " ++ importedName (apiAlias r.object.version) r.object.names.subject.constant ++ ",",
    s!"ObjectVersion:        {inQuotes r.object.version},",
    "Durable:              " ++ (if r.durable then "true" else "false") ++ ","] "\x7d)"

def mainFunction (names : GroupNames) (stream : Line) (rs : List Reconciler) : Declaration :=
  .function [] "main" {} (
    ["// flags"] ++ rs.flatMap concurrencyFlag ++ connectLines names.domain stream ++
    ["", "// configure and start reconcilers", "var reconcilerConfigs []controller.ReconcilerConfig"] ++
    rs.flatMap (reconcilerConfig names.package) ++ [""] ++
    composite "controllerConfig := controller.ControllerConfig" [
      s!"Name:         {inQuotes names.controller},", "StreamName:   " ++ stream ++ ",",
      "Reconcilers:  reconcilerConfigs,", "JetStream:    js,", "Log:          &log,"] ++
    [""] ++
    when "err := controller.Run(controllerConfig); err != nil" [
      "log.Error(err, \"controller exited with error\")", "os.Exit(1)"])

def helpFunction (controller : String) : Declaration :=
  .function [] "showHelpAndExit" { parameters := ["exitCode int"] } [
    s!"fmt.Println(\"Usage: {controller} [options]\")", "fmt.Println(\"options:\")", "flag.PrintDefaults()",
    "os.Exit(exitCode)"]

def controllerFile (p : Project) (g : Group) : Except RenderFault File := do
  let rs ← reconcilersOf g
  match latestVersion? (rs.map (·.object.version)) with
  | none => .error (.withoutReconcilers g.name)
  | some version => return {
      header := regenerated
      package := "main"
      imports := [Import.sorted (
        [.plain "flag", .plain "fmt", .plain "os", ⟨"nats", "github.com/nats-io/nats.go"⟩, controllerLibrary,
          ⟨g.names.package, controllerPackage p g.names.package⟩] ++ apiImports p rs)]
      declarations := [
        mainFunction g.names (importedName (apiAlias version) g.names.stream) rs, helpFunction g.names.controller] }

/-! ### The reconcilers -/

/-- The names of the functions that do the reconciling. -/
def reconcileFunctionName (o : ApiObject) (operation : String) : String :=
  o.names.variableName ++ operation

def requeueRaw (message : String) : Lines :=
  [s!"reconcilerLog.Error(err, {message})", "r.RequeueRaw(msg)", "continue"]

/-- What is done with one notification. -/
def handleMessage (r : Reconciler) : Lines :=
  let object := r.object.names.variableName
  let method (name : String) : Line := objectMethod (apiAlias r.object.version) r.object.typeName object name
  let operation (name : String) : Lines :=
    s!"case notifications.NotificationOperation{name}:" ::
      nest ["operationErr = " ++ ownName (reconcileFunctionName r.object name) ++ s!"(r, &{object}, &log)"]
  ["notif, err := notifications.ConsumeMessage(msg.Data)"] ++
  when "err != nil" (
    requeueRaw "\"failed to consume message data from NATS\", \"msgData\", string(msg.Data)") ++
  ["", s!"var {object} {r.objectType}"] ++
  when ("err := " ++ method "DecodeNotifObject" ++ "(notif.Object); err != nil") (
    requeueRaw "\"failed to decode notification object\"") ++
  [""] ++
  call "log := reconcilerLog.WithValues" [
    s!"\"{object}ID\", {object}.ID,", s!"\"{object}Version\", " ++ method "Version" ++ "(),"] ++
  ["", "var operationErr error", "switch notif.Operation \x7b"] ++
  operation "Created" ++ operation "Updated" ++ operation "Deleted" ++ ["default:"] ++
  nest ["operationErr = fmt.Errorf(\"notification included an invalid operation: %s\", notif.Operation)"] ++
  ["\x7d"] ++
  when "operationErr != nil" [
    s!"log.Error(operationErr, \"failed to reconcile {r.object.names.command}\")", s!"r.Requeue(&{object}, msg)",
    "continue"] ++
  ["", s!"r.ReleaseLock(&{object})", "msg.Ack()",
    s!"log.Info(\"{r.object.names.command} successfully reconciled\")"]

def reconcilerFunction (r : Reconciler) : Declaration :=
  .function [
      s!"{r.object.names.reconciler} reconciles system state when a {r.object.typeName}",
      "is created, updated or deleted."]
    r.object.names.reconciler { parameters := ["r *controller.Reconciler"] } (
    ["r.ShutdownWait.Add(1)", "reconcilerLog := r.Log.WithValues(\"reconcilerName\", r.Name)",
      "reconcilerLog.Info(\"reconciler started\")", "shutdown := false", ""] ++
    block "for" (
      ["select \x7b", "case <-r.Shutdown:"] ++ nest ["shutdown = true"] ++ ["case msg := <-r.MsgChan:"] ++
      nest (handleMessage r) ++ ["\x7d", ""] ++ when "shutdown" ["break"]) ++
    ["", "r.ShutdownWait.Done()", "reconcilerLog.Info(\"reconciler shutting down\")"])

def reconcilersFile (p : Project) (g : Group) : Except RenderFault File := do
  let rs ← reconcilersOf g
  return {
    header := regenerated
    package := g.names.package
    imports := [Import.sorted ([.plain "fmt", controllerLibrary, notifications] ++ apiImports p rs)]
    declarations := rs.map reconcilerFunction }

/-! ### What does the reconciling -/

def reconcileFunction (r : Reconciler) (operation past : String) : Declaration :=
  .function [
      s!"{reconcileFunctionName r.object operation} performs reconciliation when a",
      s!"{r.object.typeName} has been {past}."]
    (reconcileFunctionName r.object operation)
    { parameters := ["r *controller.Reconciler", s!"{r.object.names.variableName} *{r.objectType}", "log *logr.Logger"]
      spread := true
      result := "error" }
    ["return nil"]

def stubFile (p : Project) (g : Group) (object : ReconciledObject) : Except RenderFault File := do
  let r ← reconcilerOf g object
  return {
    header := generatedOnce
    package := g.names.package
    imports := [Import.sorted
      [⟨"logr", "github.com/go-logr/logr"⟩, controllerLibrary, apiImport p r.object.version]]
    declarations := [
      reconcileFunction r "Created" "created", reconcileFunction r "Updated" "updated",
      reconcileFunction r "Deleted" "deleted"] }

end ApiForge.Generated
