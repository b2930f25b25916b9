import ApiForge.Proofs.Emitters
import ApiForge.Proofs.Imports
import ApiForge.Proofs.LatestObjects
import ApiForge.Proofs.Marks
import Mathlib

/-! Files of a project with a module of its own against those of the base project. Where a file of the base project
imports a package that is generated for it, the other file imports the same package of its own module; all other
imports, and all the rest of the files, are the same. -/

namespace ApiForge

open Code (File Import Lines)
open Generated

/-! ### Packages that are generated for a project -/

/-- A package that is generated for a project, given by its path in the module: the objects of a version, their
handlers, their client functions, or the reconcilers of a group. -/
def isProjectPackage : List String → Bool
  | ["pkg", "api", _] => true
  | ["pkg", "api-server", _, "handlers"] => true
  | ["pkg", "client", _] => true
  | "internal" :: _ => true
  | _ => false

/-- The path leads to a package that is generated for the base project. -/
def isBasePackage (path : String) : Bool :=
  (Path.segments baseModule).isPrefixOf (Path.segments path) &&
    isProjectPackage ((Path.segments path).drop (Path.segments baseModule).length)

/-- No module has this path for a package that is generated. -/
def isForeign (path : String) : Bool :=
  !(Path.segments path).tails.any isProjectPackage

/-- The import with the module `M` in the place of the base module, if it is of a package of the base project. -/
def Code.Import.rebase (M : String) (i : Import) : Import :=
  if isBasePackage i.path then ⟨i.name, M ++ String.ofList (i.path.toList.drop baseModule.toList.length)⟩ else i

theorem isBasePackage_own {package : String} (h : isProjectPackage (Path.segments package) = true) :
    isBasePackage (baseModule ++ "/" ++ package) = true := by
  rw [isBasePackage, Path.segments_append_slash, List.drop_left, h, Bool.and_true, List.isPrefixOf_iff_prefix]
  exact List.prefix_append _ _

theorem rebase_own (M name : String) {package : String} (h : isProjectPackage (Path.segments package) = true) :
    (⟨name, baseModule ++ "/" ++ package⟩ : Import).rebase M = ⟨name, M ++ "/" ++ package⟩ := by
  rw [Import.rebase, if_pos (isBasePackage_own h)]
  simp [String.append_assoc]

theorem isBasePackage_of_isForeign {path : String} (h : isForeign path = true) : isBasePackage path = false := by
  rw [isForeign, Bool.not_eq_true', List.any_eq_false] at h
  rw [isBasePackage, Bool.and_eq_false_iff]
  refine .inr (Bool.eq_false_iff.mpr (h _ ?_))
  exact (List.mem_tails _ _).mpr (List.drop_suffix _ _)

theorem rebase_foreign (M : String) {i : Import} (h : isForeign i.path = true) : i.rebase M = i := by
  rw [Import.rebase, isBasePackage_of_isForeign h, if_neg Bool.false_ne_true]

theorem not_isForeign_own (M : String) {package : String} (h : isProjectPackage (Path.segments package) = true) :
    isForeign (M ++ "/" ++ package) = false := by
  rw [isForeign, Path.segments_append_slash, Bool.not_eq_false', List.any_eq_true]
  exact ⟨_, (List.mem_tails _ _).mpr (List.suffix_append _ _), h⟩

/-! ### Imports -/

/-- An import in a file of the base project and what stands in its place for the module `M`. -/
inductive Rebases (M : String) : Import → Import → Prop where
  | own (name : String) {package : String} (h : isProjectPackage (Path.segments package) = true) :
      Rebases M ⟨name, baseModule ++ "/" ++ package⟩ ⟨name, M ++ "/" ++ package⟩
  | foreign {i : Import} (h : isForeign i.path = true) : Rebases M i i

section Imports

variable {M : String} {i i' j j' : Import} {is is' : List Import}

theorem Rebases.eq (h : Rebases M i i') : i' = i.rebase M := by
  cases h with
  | own name h => exact (rebase_own M name h).symm
  | foreign h => exact (rebase_foreign M h).symm

/-- No two imports become one. -/
theorem Rebases.inj (hi : Rebases M i i') (hj : Rebases M j j') (heq : i' = j') : i = j := by
  cases hi with
  | own name h =>
      cases hj with
      | own name' h' =>
          obtain ⟨rfl, hpath⟩ := Import.mk.injEq .. ▸ heq
          rw [(String.append_right_inj _).mp hpath]
      | foreign h' =>
          rw [← heq, not_isForeign_own M h] at h'
          cases h'
  | foreign h =>
      cases hj with
      | own name' h' =>
          rw [heq, not_isForeign_own M h'] at h
          cases h
      | foreign h' => exact heq

theorem eq_map_of_rebases (h : List.Forall₂ (Rebases M) is is') : is' = is.map (Import.rebase M) := by
  induction h with
  | nil => rfl
  | cons hi his ih => rw [List.map_cons, ← hi.eq, ih]

theorem perm_of_rebases (h : List.Forall₂ (Rebases M) is is') : is'.Perm (is.map (Import.rebase M)) :=
  .of_eq (eq_map_of_rebases h)

/-- Putting imports in order drops the same ones in both files. -/
theorem perm_sorted (h : List.Forall₂ (Rebases M) is is') :
    (Import.sorted is').Perm ((Import.sorted is).map (Import.rebase M)) := by
  have hinj : ∀ i ∈ Import.sorted is, ∀ j ∈ Import.sorted is, i.rebase M = j.rebase M → i = j := by
    intro i hi j hj heq
    obtain ⟨i', -, hi⟩ := exists_of_forall₂_left h (Import.mem_sorted.mp hi)
    obtain ⟨j', -, hj⟩ := exists_of_forall₂_left h (Import.mem_sorted.mp hj)
    rw [← hi.eq, ← hj.eq] at heq
    exact hi.inj hj heq
  rw [List.perm_ext_iff_of_nodup (Import.nodup_sorted is')
    ((List.nodup_map_iff_inj_on (Import.nodup_sorted is)).mpr hinj)]
  intro i
  rw [Import.mem_sorted, eq_map_of_rebases h, List.mem_map, List.mem_map]
  simp only [Import.mem_sorted]

end Imports

/-! ### The imports of packages that are generated -/

section Packages

variable {version : String}

theorem dropWhile_slash {cs : List Char} (h : cs.head? ≠ some '/') : cs.dropWhile (· == '/') = cs := by
  cases cs with
  | nil => rfl
  | cons c cs =>
      rw [List.dropWhile_cons_of_neg]
      simpa using h

theorem trimSlashes_eq {s : String} (hfront : s.toList.head? ≠ some '/') (hback : s.toList.getLast? ≠ some '/') :
    Project.trimSlashes s = s := by
  rw [Project.trimSlashes, dropWhile_slash hfront, dropWhile_slash, List.reverse_reverse, String.ofList_toList]
  rwa [List.head?_reverse]

/-- A version in a path. -/
theorem version_last (hversion : Version.isValid version = true) (front : String) :
    (front ++ version).toList.getLast? ≠ some '/' := by
  obtain ⟨hslash, hv⟩ := Version.segment_of_isValid hversion
  rw [String.toList_append, List.getLast?_append_of_ne_nil _ (List.ne_nil_of_mem hv)]
  exact fun hlast => hslash (List.mem_of_getLast? hlast)

theorem segments_version (hversion : Version.isValid version = true) (front : String) :
    Path.segments (front ++ "/" ++ version) = Path.segments front ++ [version] := by
  rw [Path.segments_append_slash, Path.segments_of_slashless (Version.segment_of_isValid hversion).1]

variable {M root : String}

theorem rebases_package (name : String) {package trimmed : String} (htrim : Project.trimSlashes package = trimmed)
    (h : isProjectPackage (Path.segments trimmed) = true) :
    Rebases M ⟨name, Project.importPath ⟨root, .base⟩ package⟩
      ⟨name, Project.importPath ⟨root, .extension M⟩ package⟩ := by
  rw [Project.importPath, Project.importPath, htrim]
  exact .own name h

theorem rebases_api (name : String) (hversion : Version.isValid version = true) :
    Rebases M ⟨name, apiPackage ⟨root, .base⟩ version⟩ ⟨name, apiPackage ⟨root, .extension M⟩ version⟩ := by
  refine rebases_package name (trimSlashes_eq (by simp) (version_last hversion _)) ?_
  have hsegments : Path.segments ("pkg/api/" ++ version) = ["pkg", "api", version] :=
    segments_version hversion "pkg/api"
  rw [hsegments]
  rfl

theorem rebases_client (name : String) (hversion : Version.isValid version = true) :
    Rebases M ⟨name, clientPackage ⟨root, .base⟩ version⟩ ⟨name, clientPackage ⟨root, .extension M⟩ version⟩ := by
  refine rebases_package name (trimSlashes_eq (by simp) (version_last hversion _)) ?_
  have hsegments : Path.segments ("pkg/client/" ++ version) = ["pkg", "client", version] :=
    segments_version hversion "pkg/client"
  rw [hsegments]
  rfl

theorem rebases_handlers (name : String) (hversion : Version.isValid version = true) :
    Rebases M ⟨name, handlersPackage ⟨root, .base⟩ version⟩ ⟨name, handlersPackage ⟨root, .extension M⟩ version⟩ := by
  have hlast : ("pkg/api-server/" ++ version ++ "/handlers").toList.getLast? ≠ some '/' := by
    rw [String.toList_append, List.getLast?_append_of_ne_nil _ (by decide)]
    decide
  refine rebases_package name (trimSlashes_eq (by simp) hlast) ?_
  have hsegments : Path.segments ("pkg/api-server/" ++ version ++ "/handlers") =
      ["pkg", "api-server", version, "handlers"] := by
    have hhandlers : "/handlers" = "/" ++ "handlers" := rfl
    rw [hhandlers, ← String.append_assoc, Path.segments_append_slash]
    exact congrArg (· ++ ["handlers"]) (segments_version hversion "pkg/api-server")
  rw [hsegments]
  rfl

/-- The name of a group may have slashes, and those at its end are left out. -/
theorem trimSlashes_internal (package : String) : Project.trimSlashes ("internal/" ++ package) = "internal" ∨
    ∃ rest, Project.trimSlashes ("internal/" ++ package) = "internal" ++ "/" ++ rest := by
  have hfront : ("internal/" ++ package).toList.dropWhile (· == '/') = "internal/".toList ++ package.toList := by
    rw [dropWhile_slash (by simp), String.toList_append]
  rw [Project.trimSlashes, hfront, List.reverse_append, List.dropWhile_append]
  split_ifs
  · exact .inl (by decide)
  · right
    refine ⟨String.ofList (package.toList.reverse.dropWhile (· == '/')).reverse, ?_⟩
    rw [List.reverse_append, List.reverse_reverse, String.ofList_append, String.ofList_toList]
    rfl

theorem rebases_controller (name package : String) :
    Rebases M ⟨name, controllerPackage ⟨root, .base⟩ package⟩
      ⟨name, controllerPackage ⟨root, .extension M⟩ package⟩ := by
  refine rebases_package name rfl ?_
  rcases trimSlashes_internal package with htrim | ⟨rest, htrim⟩
  · rw [htrim]
    decide
  · rw [htrim, Path.segments_append_slash]
    rfl

end Packages

/-! ### Files -/

/-- The imports of two files, group by group: in some order, those of the second are those of the first with the module
`M` for the base module. -/
def ImportsRebased (M : String) (groups groups' : List (List Import)) : Prop :=
  List.Forall₂ (fun is is' => is'.Perm (is.map (Import.rebase M))) groups groups'

/-- The second file is the first one but for its imports. -/
structure Code.File.Rebased (M : String) (f f' : File) : Prop where
  rest : f' = { f with imports := f'.imports }
  imports : ImportsRebased M f.imports f'.imports

/-- Text differs in the lines of the imports only. -/
theorem Code.File.Rebased.text {M : String} {f f' : File} (h : f.Rebased M f') : ∃ front back : Lines,
    f.text = Code.text (front ++ File.importLines f.imports ++ back) ∧
      f'.text = Code.text (front ++ File.importLines f'.imports ++ back) := by
  refine ⟨Code.comment f.header ++ ["", "package " ++ f.package],
    f.declarations.flatMap (fun d => ("" : Code.Line) :: d.lines) ++ Code.given f.finalBreak [""], ?_, ?_⟩
  · rw [File.text, File.lines, ← List.append_assoc]
  · rw [h.rest, File.text, File.lines, ← List.append_assoc]

section Files

variable {M root : String}

theorem rebases_foreign (is : List Import) (h : is.all (fun i => isForeign i.path) = true) :
    List.Forall₂ (Rebases M) is is :=
  List.forall₂_same.mpr fun i hi => .foreign (List.all_eq_true.mp h i hi)

theorem rebases_if {condition : Prop} [Decidable condition] {is is' : List Import}
    (h : List.Forall₂ (Rebases M) is is') :
    List.Forall₂ (Rebases M) (if condition then is else []) (if condition then is' else []) := by
  split_ifs
  · exact h
  · exact .nil

theorem rebases_map {α : Type} {xs : List α} {f f' : α → Import} (h : ∀ x ∈ xs, Rebases M (f x) (f' x)) :
    List.Forall₂ (Rebases M) (xs.map f) (xs.map f') := by
  rw [List.forall₂_map_left_iff, List.forall₂_map_right_iff]
  exact List.forall₂_same.mpr h

theorem rebases_flatMap {α : Type} {xs : List α} {f f' : α → List Import}
    (h : ∀ x ∈ xs, List.Forall₂ (Rebases M) (f x) (f' x)) :
    List.Forall₂ (Rebases M) (xs.flatMap f) (xs.flatMap f') := by
  induction xs with
  | nil => exact .nil
  | cons x xs ih =>
      rw [List.forall_mem_cons] at h
      exact List.rel_append h.1 (ih h.2)

/-- A file whose imports are kept in one group and in order. -/
theorem importsRebased_sorted {is is' : List Import} (h : List.Forall₂ (Rebases M) is is') :
    ImportsRebased M [Import.sorted is] [Import.sorted is'] :=
  .cons (perm_sorted h) .nil

theorem importsRebased_of_rebases {groups groups' : List (List Import)}
    (h : List.Forall₂ (List.Forall₂ (Rebases M)) groups groups') : ImportsRebased M groups groups' :=
  h.imp fun _ _ => perm_of_rebases

/-- A file that imports nothing of the project. -/
theorem rebased_self {f : File} (h : f.imports.all (·.all fun i => isForeign i.path) = true) : f.Rebased M f where
  rest := rfl
  imports := importsRebased_of_rebases
    (List.forall₂_same.mpr fun is his => rebases_foreign is (List.all_eq_true.mp h is his))

section Slices

variable {version : String}

theorem objectsFile_rebased (M version : String) (g : GroupSlice) :
    (objectsFile version g).Rebased M (objectsFile version g) := by
  refine rebased_self ?_
  have himports : (objectsFile version g).imports = [[.plain "encoding/json", .plain "fmt"], [notifications]] := rfl
  rw [himports]
  decide

theorem notificationsFile_rebased (M : String) (s : VersionSlice) :
    (notificationsFile s).Rebased M (notificationsFile s) :=
  rebased_self rfl

theorem taggedFieldsFile_rebased (hversion : Version.isValid version = true) (g : GroupSlice) :
    (taggedFieldsFile ⟨root, .base⟩ version g).Rebased M (taggedFieldsFile ⟨root, .extension M⟩ version g) where
  rest := rfl
  imports := importsRebased_of_rebases (.cons (.cons (rebases_api _ hversion) .nil) .nil)

theorem routesFile_rebased (hversion : Version.isValid version = true) (g : GroupSlice) :
    (routesFile ⟨root, .base⟩ version g).Rebased M (routesFile ⟨root, .extension M⟩ version g) where
  rest := rfl
  imports := importsRebased_of_rebases (.cons (rebases_foreign _ (by decide))
    (.cons (.cons (rebases_api _ hversion) (.cons (rebases_handlers _ hversion) .nil)) .nil))

theorem registryFile_rebased {s : VersionSlice} (hversion : Version.isValid s.version = true) (index : VersionIndex) :
    (registryFile ⟨root, .base⟩ s index).Rebased M (registryFile ⟨root, .extension M⟩ s index) where
  rest := rfl
  imports := importsRebased_of_rebases (.cons (rebases_foreign _ (by decide))
    (.cons (.cons (rebases_handlers _ hversion) .nil) .nil))

theorem handlersFile_rebased (hversion : Version.isValid version = true) (g : GroupSlice) :
    (handlersFile ⟨root, .base⟩ version g).Rebased M (handlersFile ⟨root, .extension M⟩ version g) where
  rest := rfl
  imports := by
    refine importsRebased_sorted (List.rel_append (List.rel_append ?_ ?_) ?_)
    · exact List.rel_append (rebases_foreign [.plain "errors", .plain "net/http", echoImport,
        ⟨"gorm", "gorm.io/gorm"⟩, serverLibrary] (by decide)) (.cons (rebases_api _ hversion) .nil)
    · exact rebases_if (rebases_foreign _ (by decide))
    · exact rebases_if (rebases_foreign _ (by decide))

theorem databaseFile_rebased {index : VersionIndex} (hversion : Version.isValid index.version = true) :
    (databaseFile ⟨root, .base⟩ index).Rebased M (databaseFile ⟨root, .extension M⟩ index) where
  rest := rfl
  imports := importsRebased_of_rebases (.cons (.cons (rebases_api _ hversion) .nil) .nil)

theorem clientFile_rebased (hversion : Version.isValid version = true) (g : GroupSlice) :
    (clientFile ⟨root, .base⟩ version g).Rebased M (clientFile ⟨root, .extension M⟩ version g) where
  rest := rfl
  imports := importsRebased_of_rebases (.cons (rebases_foreign _ (by decide)) (.cons (rebases_foreign _ (by decide))
    (.cons (.cons (rebases_api _ hversion) (rebases_foreign _ (by decide))) .nil)))

end Slices

section Groups

variable {g : Group}

theorem commandsFile_rebased (hversions : ∀ o ∈ g.commandObjects, Version.isValid o.version = true) :
    (commandsFile ⟨root, .base⟩ g).Rebased M (commandsFile ⟨root, .extension M⟩ g) where
  rest := rfl
  imports := by
    refine importsRebased_sorted (List.rel_append (rebases_foreign _ (by decide)) (rebases_flatMap fun o ho => ?_))
    refine List.rel_append (List.rel_append ?_ ?_) (rebases_if (rebases_foreign _ (by decide)))
    · exact .cons (rebases_client _ (hversions o ho)) .nil
    · exact rebases_if (.cons (rebases_api _ (hversions o ho)) (rebases_foreign _ (by decide)))

theorem outputFile_rebased (hversions : ∀ o ∈ g.commandObjects, Version.isValid o.version = true) :
    (outputFile ⟨root, .base⟩ g).Rebased M (outputFile ⟨root, .extension M⟩ g) where
  rest := rfl
  imports := importsRebased_sorted (List.rel_append (rebases_foreign _ (by decide))
    (rebases_map fun o ho => rebases_api _ (hversions o ho)))

theorem rebases_apiImports {rs : List Reconciler} (hversions : ∀ r ∈ rs, Version.isValid r.object.version = true) :
    List.Forall₂ (Rebases M) (apiImports ⟨root, .base⟩ rs) (apiImports ⟨root, .extension M⟩ rs) :=
  rebases_map fun r hr => rebases_api _ (hversions r hr)

theorem controllerFile_rebased {rs : List Reconciler} {version : String} (hrs : reconcilersOf g = .ok rs)
    (hlatest : latestVersion? (rs.map (·.object.version)) = some version)
    (hversions : ∀ r ∈ rs, Version.isValid r.object.version = true) :
    ∃ f f', controllerFile ⟨root, .base⟩ g = .ok f ∧ controllerFile ⟨root, .extension M⟩ g = .ok f' ∧
      f.Rebased M f' := by
  unfold controllerFile
  rw [hrs]
  simp only [bind, Except.bind, hlatest]
  refine ⟨_, _, rfl, rfl, rfl, importsRebased_sorted (List.rel_append ?_ (rebases_apiImports hversions))⟩
  exact List.rel_append (rebases_foreign programImports (by decide)) (.cons (rebases_controller _ _) .nil)

theorem reconcilersFile_rebased {rs : List Reconciler} (hrs : reconcilersOf g = .ok rs)
    (hversions : ∀ r ∈ rs, Version.isValid r.object.version = true) :
    ∃ f f', reconcilersFile ⟨root, .base⟩ g = .ok f ∧ reconcilersFile ⟨root, .extension M⟩ g = .ok f' ∧
      f.Rebased M f' := by
  unfold reconcilersFile
  rw [hrs]
  refine ⟨_, _, rfl, rfl, rfl, importsRebased_sorted (List.rel_append ?_ (rebases_apiImports hversions))⟩
  exact rebases_foreign _ (by decide)

theorem stubFile_rebased {object : ReconciledObject} {r : Reconciler} (hr : reconcilerOf g object = .ok r)
    (hversion : Version.isValid r.object.version = true) :
    ∃ f f', stubFile ⟨root, .base⟩ g object = .ok f ∧ stubFile ⟨root, .extension M⟩ g object = .ok f' ∧
      f.Rebased M f' := by
  unfold stubFile
  rw [hr]
  refine ⟨_, _, rfl, rfl, rfl, importsRebased_sorted (List.rel_append
    (rebases_foreign [⟨"logr", "github.com/go-logr/logr"⟩, controllerLibrary] (by decide)) ?_)⟩
  exact .cons (rebases_api _ hversion) .nil

end Groups

end Files

end ApiForge
