import ApiForge.Proofs.PackageUse
import Mathlib

/-! What the handlers of an object take from packages, by the markers of the object. -/

namespace ApiForge.Generated

open Code Source

/-- What handlers take fields and methods from without importing it: the receiver, the parameter, and local variables. -/
def handlerBound : List (List Char) := [
  ['h'], ['c'], ['r', 'e', 's', 'u', 'l', 't'], ['p', 'a', 'r', 'a', 'm', 's'],
  ['e', 'x', 'i', 's', 't', 'i', 'n', 'g'], ['u', 'p', 'd', 'a', 't', 'e', 'd']]

/-! ### The lines around a body -/

section Uses

variable {bound : List (List Char)} {vars : List String}

theorem uses_closing : Uses bound vars ["\x7d"] [] := by
  refine ⟨[[.sign "\x7d"]], .cons ?_ .nil, fun x _ => Iff.rfl⟩
  change ReadsAs (⟨[.plain "\x7d"]⟩ : Line).text.toList _
  rw [Line.text_plain]
  exact ⟨⟨[(.token .operator, "\x7d")], rfl, ⟨⟨'\x7d', [], rfl, rfl⟩, trivial⟩, rfl⟩, by decide⟩

/-- A handler takes from packages what its body and the lines in front of it do. -/
theorem uses_handler {doc : List String} {name : String} {body : Lines} {names names' : List String}
    (hhead : Uses bound vars (comment doc ++ ([("func (h Handler) " ++ name ++ "(c echo.Context) error \x7b" : String)] : Lines)) names)
    (hbody : Uses bound vars body names') : Uses bound vars (handler doc name body).lines (names ++ names') := by
  have huses := (hhead.append hbody.nest).append uses_closing
  rw [List.append_nil] at huses
  refine huses.of_texts ?_
  simp [handler, Declaration.lines, Signature.lines, block, enclose, Line.text_append, String.append_assoc]

end Uses

/-! ### Handlers -/

/-- The packages that a handler takes something from to tell the controller of a reconciled object. -/
def noticePackages (o : ApiObject) : List String :=
  if o.has .reconciler then ["time", "notifications"] else []

/-- The package that a query takes something from to load associated objects. -/
def preloadPackages (o : ApiObject) : List String :=
  if o.has .dbLoadAssociations then ["gorm_clause"] else []

theorem preload_cases (o : ApiObject) :
    preload o = "Preload(gorm_clause.Associations)." ∧ preloadPackages o = ["gorm_clause"] ∨
      preload o = "" ∧ preloadPackages o = [] := by
  rw [preload, preloadPackages]
  cases o.has .dbLoadAssociations with
  | true => exact .inl ⟨rfl, rfl⟩
  | false => exact .inr ⟨rfl, rfl⟩

section Handlers

set_option maxRecDepth 2048
set_option synthInstance.maxSize 4000
set_option synthInstance.maxHeartbeats 400000

variable {o : ApiObject} {bound : List (List Char)} {vars : List String}

theorem uses_versionsHandler (ho : Named o) :
    Uses handlerBound vars (versionsHandler o).lines (["echo"] ++ ["http", "iapi", "api"]) := by
  refine uses_handler ?_ ?_
  · exact uses_of_sketched ho (.inl (by decide)) (.inl (by decide)) (by decide)
  · exact uses_of_sketched ho (.inl (by decide)) (.inl (by decide)) (by decide)

theorem uses_addHandler (ho : Named o) (hvariable : Admitted vars o.names.variableName) :
    Uses handlerBound vars (addHandler o).lines
      (["echo", "api", "iapi"] ++ (if o.checksDuplicates then ["errors", "gorm"] else []) ++ noticePackages o) := by
  have huses : Uses handlerBound vars (addHandler o).lines (["echo"] ++ (["api", "iapi"] ++
      (if o.checksDuplicates then ["api", "errors", "gorm", "iapi"] else []) ++
      (if o.has .reconciler then [] else []) ++ [] ++ ["iapi"] ++
      (if o.has .reconciler then ["api", "iapi", "notifications", "time"] else []) ++ ["iapi"])) := by
    refine uses_handler ?_ ((((((Uses.append ?_ (Uses.given ?_ _)).append (Uses.given ?_ _)).append ?_).append
      ?_).append (Uses.given ?_ _)).append ?_)
    · exact uses_of_sketched ho (.inl (by decide)) (.inl (by decide)) (by decide)
    · delta objectTypeLine checkPayload bindRequest checkRequired failWhen respondError when block
      exact uses_of_sketched ho (.inr hvariable) (.inl (by decide)) (by decide)
    · delta checkDuplicates respondError when block
      exact uses_of_sketched ho (.inr hvariable) (.inl (by decide)) (by decide)
    · exact uses_of_sketched ho (.inr hvariable) (.inl (by decide)) (by decide)
    · exact uses_of_sketched ho (.inl (by decide)) (.inl (by decide)) (by decide)
    · delta run failWhen respondError when block
      exact uses_of_sketched ho (.inr hvariable) (.inl (by decide)) (by decide)
    · delta notify failWhen respondError when block call
      exact uses_of_sketched ho (.inr hvariable) (.inl (by decide)) (by decide)
    · delta respondWith failWhen respondError when block
      exact uses_of_sketched ho (.inr hvariable) (.inl (by decide)) (by decide)
  refine huses.congr ?_ ?_ <;> unfold noticePackages <;> cases o.checksDuplicates <;> cases o.has .reconciler <;> decide

theorem uses_listHandler (ho : Named o) :
    Uses handlerBound vars (listHandler o).lines (["echo"] ++ (["api", "iapi"] ++ preloadPackages o)) := by
  refine uses_handler ?_ ?_
  · exact uses_of_sketched ho (.inl (by decide)) (.inl (by decide)) (by decide)
  · delta objectTypeLine bindRequest failWhen respondError when block
    obtain ⟨hpreload, hpackages⟩ | ⟨hpreload, hpackages⟩ := preload_cases o
    · rw [hpreload, hpackages]
      exact uses_of_sketched ho (.inl (by decide)) (.inl (by decide)) (by decide)
    · rw [hpreload, hpackages]
      exact uses_of_sketched ho (.inl (by decide)) (.inl (by decide)) (by decide)

theorem uses_getHandler (ho : Named o) (hvariable : Admitted vars o.names.variableName) :
    Uses handlerBound vars (getHandler o).lines
      (["echo"] ++ (["api", "errors", "gorm", "iapi"] ++ preloadPackages o)) := by
  refine uses_handler ?_ ?_
  · exact uses_of_sketched ho (.inl (by decide)) (.inl (by decide)) (by decide)
  · delta objectTypeLine idLine find respondWith failWhen respondError when block
    obtain ⟨hpreload, hpackages⟩ | ⟨hpreload, hpackages⟩ := preload_cases o
    · rw [hpreload, hpackages]
      exact uses_of_sketched ho (.inr hvariable) (.inl (by decide)) (by decide)
    · rw [hpreload, hpackages]
      exact uses_of_sketched ho (.inr hvariable) (.inl (by decide)) (by decide)

theorem uses_readChange (ho : Named o) (hvariable : Admitted vars o.names.variableName) :
    Uses handlerBound vars (readChange o) ["api", "errors", "gorm", "iapi"] := by
  delta readChange objectTypeLine idLine find checkPayload bindRequest failWhen respondError when block
  exact uses_of_sketched ho (.inr hvariable) (.inl (by decide)) (by decide)

theorem uses_notifyUpdate (ho : Named o) (hvariable : Admitted vars o.names.variableName) :
    Uses handlerBound vars (notifyUpdate o) ((if o.dataPersisted then ["iapi"] ++ preloadPackages o else []) ++ [] ++
      ["api", "iapi", "notifications", "time"]) := by
  refine ((Uses.given ?_ _).append ?_).append ?_
  · delta run failWhen respondError when block
    obtain ⟨hpreload, hpackages⟩ | ⟨hpreload, hpackages⟩ := preload_cases o
    · rw [hpreload, hpackages]
      exact uses_of_sketched ho (.inr hvariable) (.inl (by decide)) (by decide)
    · rw [hpreload, hpackages]
      exact uses_of_sketched ho (.inr hvariable) (.inl (by decide)) (by decide)
  · exact uses_of_sketched ho (.inl (by decide)) (.inl (by decide)) (by decide)
  · delta notify failWhen respondError when block call
    exact uses_of_sketched ho (.inl (by decide)) (.inl (by decide)) (by decide)

theorem uses_updateHandler (ho : Named o) (hvariable : Admitted vars o.names.variableName) :
    Uses handlerBound vars (updateHandler o).lines (["echo", "api", "errors", "gorm", "iapi"] ++ noticePackages o ++
      (if o.has .reconciler && o.dataPersisted then preloadPackages o else [])) := by
  have huses : Uses handlerBound vars (updateHandler o).lines (["echo"] ++ (["api", "errors", "gorm", "iapi"] ++
      (if o.has .reconciler then [] else []) ++ [] ++ ["iapi"] ++ (if o.has .reconciler then
        (if o.dataPersisted then ["iapi"] ++ preloadPackages o else []) ++ [] ++ ["api", "iapi", "notifications", "time"]
        else []) ++ ["iapi"])) := by
    refine uses_handler ?_ ((((((uses_readChange ho hvariable).append (Uses.given ?_ _)).append ?_).append
      ?_).append ((uses_notifyUpdate ho hvariable).given _)).append ?_)
    · exact uses_of_sketched ho (.inl (by decide)) (.inl (by decide)) (by decide)
    · delta when block
      exact uses_of_sketched ho (.inl (by decide)) (.inl (by decide)) (by decide)
    · exact uses_of_sketched ho (.inl (by decide)) (.inl (by decide)) (by decide)
    · delta run failWhen respondError when block
      exact uses_of_sketched ho (.inl (by decide)) (.inl (by decide)) (by decide)
    · delta respondWith failWhen respondError when block
      exact uses_of_sketched ho (.inl (by decide)) (.inl (by decide)) (by decide)
  refine huses.congr ?_ ?_ <;> unfold noticePackages preloadPackages <;> cases o.has .reconciler <;>
    cases o.dataPersisted <;> cases o.has .dbLoadAssociations <;> decide

theorem uses_replaceHandler (ho : Named o) (hvariable : Admitted vars o.names.variableName) :
    Uses handlerBound vars (replaceHandler o).lines (["echo"] ++ ["api", "errors", "gorm", "iapi"]) := by
  refine uses_handler ?_ ?_
  · exact uses_of_sketched ho (.inl (by decide)) (.inl (by decide)) (by decide)
  · delta readChange objectTypeLine idLine find checkPayload bindRequest checkRequired run respondWith failWhen
      respondError when block
    exact uses_of_sketched ho (.inr hvariable) (.inl (by decide)) (by decide)

/-- A record is deleted by the handler, or else by the controller, which is told to. -/
theorem uses_deleteHandler (ho : Named o) (hvariable : Admitted vars o.names.variableName) :
    Uses handlerBound vars (deleteHandler o).lines
      (["echo", "api", "errors", "gorm", "iapi"] ++ noticePackages o ++ preloadPackages o) := by
  have huses : Uses handlerBound vars (deleteHandler o).lines (["echo"] ++ (["api"] ++
      (["errors", "gorm", "iapi"] ++ preloadPackages o) ++ (if o.has .reconciler then
        ["api", "errors", "iapi", "notifications", "time"] else ["iapi"]) ++ ["iapi"])) := by
    refine uses_handler ?_ (((Uses.append ?_ ?_).append ?_).append ?_)
    · exact uses_of_sketched ho (.inl (by decide)) (.inl (by decide)) (by decide)
    · delta objectTypeLine idLine
      exact uses_of_sketched ho (.inr hvariable) (.inl (by decide)) (by decide)
    · delta find respondError when block
      obtain ⟨hpreload, hpackages⟩ | ⟨hpreload, hpackages⟩ := preload_cases o
      · rw [hpreload, hpackages]
        exact uses_of_sketched ho (.inr hvariable) (.inl (by decide)) (by decide)
      · rw [hpreload, hpackages]
        exact uses_of_sketched ho (.inr hvariable) (.inl (by decide)) (by decide)
    · split_ifs
      · delta scheduleDeletion notify run failWhen respondError when block call
        exact uses_of_sketched ho (.inr hvariable) (.inl (by decide)) (by decide)
      · delta run failWhen respondError when block
        exact uses_of_sketched ho (.inr hvariable) (.inl (by decide)) (by decide)
    · delta respondWith failWhen respondError when block
      exact uses_of_sketched ho (.inr hvariable) (.inl (by decide)) (by decide)
  refine huses.congr ?_ ?_ <;> unfold noticePackages preloadPackages <;> cases o.has .reconciler <;>
    cases o.has .dbLoadAssociations <;> decide

theorem uses_banner (ho : Named o) : Uses bound vars (banner o.typeName).lines [] := by
  delta banner
  change Uses bound vars (plainLines [_, _, _]) []
  exact uses_of_sketched ho (.inl (by decide)) (.inl (by decide)) rfl

/-- What the handlers of an object need. -/
def handlerPackages (o : ApiObject) : List String :=
  ["errors", "http", "echo", "gorm", "iapi", "api"] ++ noticePackages o ++ preloadPackages o

theorem uses_objectHandlers (ho : Named o) (hvariable : Admitted vars o.names.variableName) :
    Uses handlerBound vars (declarationLines (objectHandlers o)) (handlerPackages o) := by
  have huses := (uses_banner ho).cons ((uses_versionsHandler ho).cons ((uses_addHandler ho hvariable).cons
    ((uses_listHandler ho).cons ((uses_getHandler ho hvariable).cons ((uses_updateHandler ho hvariable).cons
    ((uses_replaceHandler ho hvariable).cons ((uses_deleteHandler ho hvariable).cons uses_noDeclarations)))))))
  refine huses.congr ?_ ?_ <;> unfold handlerPackages noticePackages preloadPackages <;>
    cases o.checksDuplicates <;> cases o.has .reconciler <;> cases o.dataPersisted <;>
    cases o.has .dbLoadAssociations <;> decide

end Handlers

end ApiForge.Generated
