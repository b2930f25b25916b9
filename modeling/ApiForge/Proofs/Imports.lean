import ApiForge.Proofs.Declarations
import Mathlib.Data.String.Basic

/-! What generated files call the packages that they import. Files that belong to no version call the packages of a version
by names with an underscore, which fixed names are without, so the only name that can be there twice is that of the
package of a group's reconcilers. -/

namespace ApiForge

open Code (File Import)
open Generated

/-! ### Imports in order -/

namespace Code.Import

theorem mem_insert {i j : Import} {is : List Import} : i ∈ insert j is ↔ i = j ∨ i ∈ is := by
  induction is with
  | nil => simp [insert]
  | cons k is ih =>
      rw [insert]
      split
      · rename_i heq
        simp [heq]
      · split
        · simp
        · rw [List.mem_cons, ih, List.mem_cons]
          tauto

theorem mem_sorted {i : Import} {is : List Import} : i ∈ sorted is ↔ i ∈ is := by
  have hfold (done : List Import) : i ∈ is.foldl (fun done i => insert i done) done ↔ i ∈ is ∨ i ∈ done := by
    induction is generalizing done with
    | nil => simp
    | cons j is ih =>
        rw [List.foldl_cons, ih, mem_insert, List.mem_cons]
        tauto
  rw [sorted, hfold, or_iff_left List.not_mem_nil]

theorem before_iff {i j : Import} : i.before j = true ↔ i.name < j.name ∨ i.name = j.name ∧ i.path < j.path := by
  simp [before]

theorem before_trans {i j k : Import} (hij : i.before j = true) (hjk : j.before k = true) : i.before k = true := by
  rw [before_iff] at *
  rcases hij with hij | ⟨hij, hpath⟩
  · rcases hjk with hjk | ⟨hjk, -⟩
    · exact Or.inl (hij.trans hjk)
    · exact Or.inl (hjk ▸ hij)
  · rcases hjk with hjk | ⟨hjk, hpath'⟩
    · exact Or.inl (hij ▸ hjk)
    · exact Or.inr ⟨hij.trans hjk, hpath.trans hpath'⟩

theorem before_of_not {i j : Import} (hne : i ≠ j) (h : ¬i.before j = true) : j.before i = true := by
  rw [before_iff] at *
  rcases lt_trichotomy i.name j.name with hname | hname | hname
  · exact absurd (Or.inl hname) h
  · rcases lt_trichotomy i.path j.path with hpath | hpath | hpath
    · exact absurd (Or.inr ⟨hname, hpath⟩) h
    · exact absurd (Import.mk.injEq .. |>.mpr ⟨hname, hpath⟩) hne
    · exact Or.inr ⟨hname.symm, hpath⟩
  · exact Or.inl hname

theorem pairwise_insert (i : Import) {is : List Import} (h : is.Pairwise fun a b => a.before b = true) :
    (insert i is).Pairwise fun a b => a.before b = true := by
  induction is with
  | nil => exact List.pairwise_singleton _ i
  | cons j is ih =>
      rw [insert]
      split
      · exact h
      · rename_i hne
        split
        · rename_i hbefore
          refine List.pairwise_cons.mpr ⟨fun k hk => ?_, h⟩
          rcases List.mem_cons.mp hk with rfl | hk
          · exact hbefore
          · exact before_trans hbefore (List.rel_of_pairwise_cons h hk)
        · rename_i hbefore
          refine List.pairwise_cons.mpr ⟨fun k hk => ?_, ih h.of_cons⟩
          rcases mem_insert.mp hk with rfl | hk
          · exact before_of_not hne hbefore
          · exact List.rel_of_pairwise_cons h hk

theorem nodup_sorted (is : List Import) : (sorted is).Nodup := by
  have hfold (done : List Import) (h : done.Pairwise fun a b => a.before b = true) :
      (is.foldl (fun done i => insert i done) done).Pairwise fun a b => a.before b = true := by
    induction is generalizing done with
    | nil => exact h
    | cons i is ih => exact ih _ (pairwise_insert i h)
  refine (hfold [] List.Pairwise.nil).imp fun {a b} hab heq => ?_
  rw [heq, before_iff] at hab
  rcases hab with hname | ⟨-, hpath⟩
  · exact lt_irrefl _ hname
  · exact lt_irrefl _ hpath

/-- Local names are there once exactly when they tell the imports apart. -/
theorem nodup_localNames_sorted {is : List Import} : ((sorted is).map localName).Nodup ↔
    ∀ i ∈ is, ∀ j ∈ is, i.localName = j.localName → i = j := by
  rw [List.nodup_map_iff_inj_on (nodup_sorted is)]
  simp only [mem_sorted]

theorem localName_of_ne {i : Import} (h : i.name ≠ "") : i.localName = i.name :=
  if_neg h

end Code.Import

/-- What the packages are called that the file imports. -/
def Code.File.importNames (f : File) : List String :=
  f.imports.flatten.map Import.localName

/-! ### Files with imports of fixed names -/

namespace Generated

theorem importNames_objectsFile (version : String) (g : GroupSlice) :
    (objectsFile version g).importNames = ["json", "fmt", "notifications"] :=
  rfl

theorem importNames_taggedFieldsFile (p : Project) (version : String) (g : GroupSlice) :
    (taggedFieldsFile p version g).importNames = ["api"] :=
  rfl

theorem importNames_routesFile (p : Project) (version : String) (g : GroupSlice) :
    (routesFile p version g).importNames = ["echo", "api", "handlers"] :=
  rfl

theorem importNames_registryFile (p : Project) (s : VersionSlice) (i : VersionIndex) :
    (registryFile p s i).importNames = ["echo", "handlers"] :=
  rfl

theorem importNames_databaseFile (p : Project) (i : VersionIndex) : (databaseFile p i).importNames = ["api"] :=
  rfl

theorem importNames_clientFile (p : Project) (version : String) (g : GroupSlice) :
    (clientFile p version g).importNames = ["bytes", "json", "fmt", "http", "resty", "api", "client"] :=
  rfl

end Generated

/-! ### Files that imports are put in order for -/

namespace Generated

/-- The import of a package of a version under a name that carries the version. -/
inductive VersionImport (p : Project) : Import → Prop
  | api (version : String) : VersionImport p (apiImport p version)
  | client (version : String) : VersionImport p (clientImport p version)

theorem localName_apiImport (p : Project) (version : String) : (apiImport p version).localName = "api_" ++ version :=
  Import.localName_of_ne (by simp [apiImport, apiAlias])

theorem localName_clientImport (p : Project) (version : String) :
    (clientImport p version).localName = "client_" ++ version :=
  Import.localName_of_ne (by simp [clientImport, clientAlias])

theorem VersionImport.underscore {p : Project} {i : Import} (h : VersionImport p i) : '_' ∈ i.localName.toList := by
  cases h with
  | api version => simp [localName_apiImport]
  | client version => simp [localName_clientImport]

theorem VersionImport.eq_of_localName_eq {p : Project} {i j : Import} (hi : VersionImport p i) (hj : VersionImport p j)
    (h : i.localName = j.localName) : i = j := by
  have hapart (version version' : String) : "api_" ++ version ≠ "client_" ++ version' := by
    intro heq
    simpa using congrArg (fun name : String => name.toList.head?) heq
  cases hi with
  | api version =>
      cases hj with
      | api version' =>
          rw [localName_apiImport, localName_apiImport] at h
          rw [(String.append_right_inj _).mp h]
      | client version' =>
          rw [localName_apiImport, localName_clientImport] at h
          exact absurd h (hapart version version')
  | client version =>
      cases hj with
      | api version' =>
          rw [localName_clientImport, localName_apiImport] at h
          exact absurd h.symm (hapart version' version)
      | client version' =>
          rw [localName_clientImport, localName_clientImport] at h
          rw [(String.append_right_inj _).mp h]

/-- Fixed names without underscores and names that carry versions tell imports apart. -/
theorem nodup_importNames_sorted {p : Project} (fixed : List Import) {is : List Import}
    (hfixed : (fixed.map Import.localName).Nodup) (hplain : ∀ name ∈ fixed.map Import.localName, '_' ∉ name.toList)
    (his : ∀ i ∈ is, i ∈ fixed ∨ VersionImport p i) : ((Import.sorted is).map Import.localName).Nodup := by
  rw [Import.nodup_localNames_sorted]
  have hapart {i j : Import} (hi : i ∈ fixed) (hj : VersionImport p j) : i.localName ≠ j.localName :=
    fun heq => hplain _ (List.mem_map_of_mem hi) (heq ▸ hj.underscore)
  intro i hi j hj heq
  rcases his i hi with hi | hi
  · rcases his j hj with hj | hj
    · exact List.inj_on_of_nodup_map hfixed hi hj heq
    · exact absurd heq (hapart hi hj)
  · rcases his j hj with hj | hj
    · exact absurd heq.symm (hapart hj hi)
    · exact hi.eq_of_localName_eq hj heq

theorem importNames_handlersFile (p : Project) (version : String) (g : GroupSlice) :
    (handlersFile p version g).importNames.Nodup := by
  let all : List Import := [
    .plain "errors", .plain "net/http", echoImport, ⟨"gorm", "gorm.io/gorm"⟩, serverLibrary,
    ⟨"api", apiPackage p version⟩, .plain "time", notifications, ⟨"gorm_clause", "gorm.io/gorm/clause"⟩]
  have hall : all.map Import.localName =
      ["errors", "http", "echo", "gorm", "iapi", "api", "time", "notifications", "gorm_clause"] :=
    rfl
  have hnodup : (all.map Import.localName).Nodup := by
    rw [hall]
    decide
  have hmem {i : Import} (hi : i ∈ (handlersFile p version g).imports.flatten) : i ∈ all := by
    rw [handlersFile, List.flatten_singleton, handlerImports, Import.mem_sorted] at hi
    simp only [List.mem_append, List.mem_ite_nil_right, List.mem_cons, List.not_mem_nil, or_false] at hi
    simp only [all, List.mem_cons, List.not_mem_nil, or_false]
    tauto
  have honce : (handlersFile p version g).imports.flatten.Nodup := by
    rw [handlersFile, List.flatten_singleton]
    exact Import.nodup_sorted _
  exact (List.nodup_map_iff_inj_on honce).mpr fun i hi j hj =>
    List.inj_on_of_nodup_map hnodup (hmem hi) (hmem hj)

theorem importNames_commandsFile (p : Project) (g : Group) : (commandsFile p g).importNames.Nodup := by
  rw [File.importNames, commandsFile, List.flatten_singleton, commandImports]
  refine nodup_importNames_sorted (p := p) [.plain "os", ⟨"cobra", "github.com/spf13/cobra"⟩, commandLibrary,
    ⟨"yaml", "gopkg.in/yaml.v2"⟩, .plain "fmt"] (by decide) (by decide) ?_
  intro i hi
  simp only [List.mem_append, List.mem_flatMap, List.mem_ite_nil_right, List.mem_cons, List.not_mem_nil, or_false] at hi
  rcases hi with (rfl | rfl | rfl) | ⟨o, -, (rfl | ⟨-, rfl | rfl⟩) | ⟨-, rfl⟩⟩
  · exact Or.inl (by simp)
  · exact Or.inl (by simp)
  · exact Or.inl (by simp)
  · exact Or.inr (.client o.version)
  · exact Or.inr (.api o.version)
  · exact Or.inl (by simp)
  · exact Or.inl (by simp)

theorem importNames_outputFile (p : Project) (g : Group) : (outputFile p g).importNames.Nodup := by
  rw [File.importNames, outputFile, List.flatten_singleton]
  refine nodup_importNames_sorted (p := p) [.plain "fmt", .plain "os", .plain "text/tabwriter"] (by decide) (by decide) ?_
  intro i hi
  rcases List.mem_append.mp hi with hi | hi
  · exact Or.inl hi
  · obtain ⟨o, -, rfl⟩ := List.mem_map.mp hi
    exact Or.inr (.api o.version)

theorem versionImport_of_apiImports {p : Project} {rs : List Reconciler} {i : Import} (hi : i ∈ apiImports p rs) :
    VersionImport p i := by
  obtain ⟨r, -, rfl⟩ := List.mem_map.mp hi
  exact .api r.object.version

theorem ReconcilersFile.importNames {p : Project} {g : Group} {rs : List Reconciler} {f : File}
    (h : ReconcilersFile p g rs f) : f.importNames.Nodup := by
  rw [File.importNames, h.imports, List.flatten_singleton]
  refine nodup_importNames_sorted (p := p) [.plain "fmt", controllerLibrary, notifications] (by decide) (by decide) ?_
  intro i hi
  exact (List.mem_append.mp hi).imp id versionImport_of_apiImports

theorem StubFile.importNames {p : Project} {g : Group} {object : ReconciledObject} {r : Reconciler} {f : File}
    (h : StubFile p g object r f) : f.importNames.Nodup := by
  rw [File.importNames, h.imports, List.flatten_singleton]
  refine nodup_importNames_sorted (p := p) [⟨"logr", "github.com/go-logr/logr"⟩, controllerLibrary] (by decide)
    (by decide) ?_
  intro i hi
  simp only [List.mem_cons, List.not_mem_nil, or_false] at hi
  rcases hi with rfl | rfl | rfl
  · exact Or.inl (by simp)
  · exact Or.inl (by simp)
  · exact Or.inr (.api r.object.version)

/-! ### The program of a controller -/

/-- What the program of a controller imports besides the group's own packages. -/
def programImports : List Import :=
  [.plain "flag", .plain "fmt", .plain "os", ⟨"nats", "github.com/nats-io/nats.go"⟩, controllerLibrary]

/-- The import of the reconcilers of a group. -/
def reconcilersImport (p : Project) (package : String) : Import :=
  ⟨package, controllerPackage p package⟩

theorem localName_reconcilersImport (p : Project) (package : String) :
    (reconcilersImport p package).localName = if package = "" then "internal" else package := by
  rw [reconcilersImport, Import.localName]
  split
  · rename_i hempty
    obtain rfl : package = "" := hempty
    have htrim : Project.trimSlashes ("internal/" ++ "") = "internal" := by
      decide
    rw [controllerPackage, Project.importPath, htrim]
    simp [List.takeWhile]
  · rfl

theorem localNames_programImports :
    programImports.map Import.localName = ["flag", "fmt", "os", "nats", "controller"] :=
  rfl

/-- The reconcilers come from elsewhere, even if their package is called as another one is. -/
theorem reconcilersImport_notMem (p : Project) {package : String} (h : package ∈ programImports.map Import.localName) :
    reconcilersImport p package ∉ programImports := by
  have hpath {package : String} (htrim : Project.trimSlashes ("internal/" ++ package) = "internal/" ++ package) :
      controllerPackage p package = p.modulePath ++ "/" ++ ("internal/" ++ package) := by
    rw [controllerPackage, Project.importPath, htrim]
  intro hmem
  rw [localNames_programImports] at h
  simp only [programImports, List.mem_cons, List.not_mem_nil, or_false] at h hmem
  rcases h with rfl | rfl | rfl | rfl | rfl
  · simp [reconcilersImport, Import.plain, controllerLibrary] at hmem
  · simp [reconcilersImport, Import.plain, controllerLibrary] at hmem
  · simp [reconcilersImport, Import.plain, controllerLibrary] at hmem
  · -- The last letters of the paths tell them apart.
    have heq : controllerPackage p "nats" = "github.com/nats-io/nats.go" := by
      simpa [reconcilersImport, Import.plain, controllerLibrary] using hmem
    rw [hpath (by decide)] at heq
    simpa using congrArg (fun path : String => path.toList.getLast?) heq
  · have heq : controllerPackage p "controller" = baseImportPath "pkg/controller/v0" := by
      simpa [reconcilersImport, Import.plain, controllerLibrary] using hmem
    rw [hpath (by decide), show baseImportPath "pkg/controller/v0" = baseModule ++ "/" ++ "pkg/controller/v0" by decide] at heq
    simpa using congrArg (fun path : String => path.toList.getLast?) heq

/-- The imports of a controller's program have different names unless the group's package is called as one of the
others. -/
theorem ControllerFile.importNames_iff {p : Project} {g : Group} {rs : List Reconciler} {version : String} {f : File}
    (h : ControllerFile p g rs version f) (hplain : '_' ∉ g.names.package.toList) :
    f.importNames.Nodup ↔ g.names.package ∉ programImports.map Import.localName := by
  rw [File.importNames, h.imports, List.flatten_singleton]
  have hname := localName_reconcilersImport p g.names.package
  constructor
  · intro hnodup hmem
    have hne : g.names.package ≠ "" := by
      rintro hempty
      rw [hempty] at hmem
      revert hmem
      decide
    rw [if_neg hne] at hname
    obtain ⟨i, hi, hlocal⟩ := List.mem_map.mp hmem
    have heq := Import.nodup_localNames_sorted.mp hnodup i
      (List.mem_append_left _ (List.mem_append_left [reconcilersImport p g.names.package] hi))
      (reconcilersImport p g.names.package) (List.mem_append_left _ (List.mem_append_right programImports List.mem_cons_self))
      (hlocal.trans hname.symm)
    exact reconcilersImport_notMem p hmem (heq ▸ hi)
  · intro hnotMem
    refine nodup_importNames_sorted (p := p) (programImports ++ [reconcilersImport p g.names.package]) ?_ ?_ fun i hi =>
      (List.mem_append.mp hi).imp id versionImport_of_apiImports
    · rw [List.map_append, List.map_singleton, List.nodup_append', List.disjoint_singleton]
      refine ⟨by decide, List.nodup_singleton _, ?_⟩
      rw [hname]
      split
      · decide
      · exact hnotMem
    · intro name hmem
      rw [List.map_append, List.map_singleton, List.mem_append, List.mem_singleton] at hmem
      rcases hmem with hmem | rfl
      · revert name
        decide
      · rw [hname]
        split
        · decide
        · exact hplain

end Generated

end ApiForge
