import ApiForge.Proofs.Extensions
import ApiForge.Proofs.NeededNames
import ApiForge.Proofs.Repetition
import ApiForge.Proofs.Slices
import Mathlib

/-! The imports of handlers and commands are the ones that they need. Whether such a file can be read at all is a matter of
the variables that its lines have for the objects; where it can be, its imports and the names that something is taken from
behind them are the same. -/

namespace ApiForge

open Code Generated Source

/-! ### Variables -/

namespace Generated

/-- The variables that the commands of an object have for it. -/
def commandVariables (o : ApiObject) : List String :=
  pluralVariable o :: if o.has .tptctlConfigPath || o.nameField then [o.names.variableName] else []

section Variables

variable {o : ApiObject}

theorem isNameChar_variableName (ho : Named o) : ∀ c ∈ o.names.variableName.toList, isNameChar c = true := by
  rw [ho.names]
  exact isNameChar_camelCase ho.isWord

theorem isNameChar_pluralVariable (ho : Named o) : ∀ c ∈ (pluralVariable o).toList, isNameChar c = true := by
  rw [pluralVariable, ho.names]
  exact isNameChar_camelCase (isWord_plural ho.isWord)

end Variables

/-! ### Lines that take something from packages -/

section Uses

variable {bound : List (List Char)} {vars : List String} {lines : Lines} {names : List String} {p q : Prop}

theorem Uses.reads (h : Uses bound vars lines names) :
    ∃ ws, ReadsLines lines ws ∧ ∀ x, IsPackageName bound vars x → (x ∈ selectors ws ↔ x ∈ names) := by
  obtain ⟨words, hwords, hnames⟩ := h
  refine ⟨words.flatMap Source.ended, ⟨words, hwords, rfl⟩, fun x hx => ?_⟩
  rw [selectors_flatMap_ended, hnames x hx]

theorem needs_cons {d : Declaration} {ds : List Declaration} (h : Uses bound vars d.lines names)
    (hs : Needs (declarationLines ds) p) : Needs (declarationLines (d :: ds)) p := by
  obtain ⟨ws, hws, -⟩ := (uses_blank.append h).reads
  exact hs.behind hws

theorem needs_head {d : Declaration} (h : Needs d.lines p) (ds : List Declaration) :
    Needs (declarationLines (d :: ds)) p := by
  have hblank : Uses [] [] [("" : Line)] [] := uses_blank
  obtain ⟨ws, hws, -⟩ := hblank.reads
  have hhead : Needs ([("" : Line)] ++ (d.lines ++ declarationLines ds)) p := (h.front _).behind hws
  exact hhead

/-- What comes behind is only found out where the declarations in front can be read. -/
theorem needs_append {ds ds' : List Declaration} (h : Needs (declarationLines ds) p)
    (hread : p → Uses bound vars (declarationLines ds) names) (h' : Needs (declarationLines ds') q) :
    Needs (declarationLines (ds ++ ds')) (p ∧ q) := by
  intro more hmore hlexes
  rw [declarationLines, List.flatMap_append] at hlexes
  have hp : p := (h.front (declarationLines ds')) more hmore hlexes
  obtain ⟨ws, hws, -⟩ := (hread hp).reads
  exact ⟨hp, (h'.behind hws) more hmore hlexes⟩

theorem needs_flatMap {os : List ApiObject} {f : ApiObject → List Declaration} {namesOf : ApiObject → List String}
    {p : ApiObject → Prop} (h : ∀ o ∈ os, Needs (declarationLines (f o)) (p o))
    (hread : ∀ o ∈ os, p o → Uses bound vars (declarationLines (f o)) (namesOf o)) :
    Needs (declarationLines (os.flatMap f)) (∀ o ∈ os, p o) := by
  induction os with
  | nil => exact fun _ _ _ => List.forall_mem_nil p
  | cons o os ih =>
      rw [List.forall_mem_cons] at h hread
      simp only [List.forall_mem_cons]
      exact needs_append h.1 hread.1 (ih h.2 hread.2)

end Uses

/-! ### What the lines for an object need -/

section Objects

set_option maxRecDepth 2048
set_option synthInstance.maxSize 4000
set_option synthInstance.maxHeartbeats 400000

variable {o : ApiObject} {p : Prop}

/-- A handler needs what the front of its body does. -/
theorem needs_handler {doc : List String} {name : String} (front : Lines) {body : Lines} (hfront : front <+: body)
    (h : Needs (comment doc ++ ([("func (h Handler) " ++ name ++ "(c echo.Context) error \x7b" : String)] : Lines) ++
      nest front) p) : Needs (handler doc name body).lines p := by
  obtain ⟨back, rfl⟩ := hfront
  refine (h.front (nest back ++ ["\x7d"])).of_texts ?_
  simp [handler, Declaration.lines, Signature.lines, block, enclose, nest, Line.text_append, String.append_assoc]

theorem needs_addHandler (ho : Named o) : Needs (addHandler o).lines (isReadable o.names.variableName = true) := by
  refine needs_handler [objectTypeLine o, s!"var {o.names.variableName} api.{o.typeName}"] ⟨_, rfl⟩ ?_
  delta objectTypeLine
  exact needs_of_sketched .single ho (fun _ h => h) (isNameChar_variableName ho) (by decide)

theorem needs_getCommand (ho : Named o) :
    Needs (declarationLines (getCommand o)) (isReadable (pluralVariable o) = true) := by
  delta getCommand
  dsimp only
  delta exitWhen outputFunctionName getCommandName
  exact needs_of_sketched .plural ho (fun _ h => h) (isNameChar_pluralVariable ho) (by decide)

theorem needs_createCommand (ho : Named o) :
    Needs (declarationLines (createCommand o)) (isReadable o.names.variableName = true) := by
  delta createCommand
  dsimp only
  delta exitWhen configPathName createCommandName
  exact needs_of_sketched .single ho (fun _ h => h) (isNameChar_variableName ho) (by decide)

theorem needs_deleteCommand (ho : Named o) :
    Needs (declarationLines (deleteCommand o)) (isReadable o.names.variableName = true) := by
  delta deleteCommand
  dsimp only
  delta exitWhen deleteCommandName
  exact needs_of_sketched .single ho (fun _ h => h) (isNameChar_variableName ho) (by decide)

/-- The handlers of an object can only be read where its variable can. -/
theorem needs_objectHandlers (ho : Named o) :
    Needs (declarationLines (objectHandlers o)) (isReadable o.names.variableName = true) := by
  have hbanner : Uses handlerBound [] (banner o.typeName).lines [] := uses_banner ho
  have hversions : Uses handlerBound [] (versionsHandler o).lines _ := uses_versionsHandler ho
  exact needs_cons hbanner (needs_cons hversions (needs_head (needs_addHandler ho) _))

/-- The commands of an object can only be read where its variables can. -/
theorem needs_objectCommands (ho : Named o) :
    Needs (declarationLines (objectCommands o)) (∀ v ∈ commandVariables o, isReadable v = true) := by
  have hread {v : String} (hreadable : isReadable v = true) : Admitted [v] v := ⟨hreadable, List.mem_cons_self⟩
  have hbanner : Uses commandBound [] (banner o.typeName).lines [] := uses_banner ho
  have hget := needs_cons hbanner (needs_getCommand ho)
  have hcreate : Needs (declarationLines (if o.has .tptctlConfigPath then createCommand o else []))
      (o.has .tptctlConfigPath = true → isReadable o.names.variableName = true) := by
    split_ifs with hconfig
    · exact (needs_createCommand ho).imp fun hreadable _ => hreadable
    · exact fun _ _ _ h => absurd h hconfig
  have hdelete : Needs (declarationLines (if o.nameField then deleteCommand o else []))
      (o.nameField = true → isReadable o.names.variableName = true) := by
    split_ifs with hname
    · exact (needs_deleteCommand ho).imp fun hreadable _ => hreadable
    · exact fun _ _ _ h => absurd h hname
  have hfront := needs_append hget (fun hplural => uses_bannerAndGet ho (hread hplural)) hcreate
  have hvars {v : String} (hv : v ∈ [pluralVariable o, o.names.variableName]) (hreadable : isReadable v = true) :
      Admitted [pluralVariable o, o.names.variableName] v :=
    ⟨hreadable, hv⟩
  have hall := needs_append hfront (fun hreadable => uses_append
    (uses_bannerAndGet ho (hvars (by simp) hreadable.1))
    (uses_offeredCreate ho fun hconfig => hvars (by simp) (hreadable.2 hconfig))) hdelete
  refine hall.imp ?_
  rintro ⟨⟨hplural, hcreate⟩, hdelete⟩
  rw [commandVariables, List.forall_mem_cons]
  refine ⟨hplural, fun v hv => ?_⟩
  rw [List.mem_ite_nil_right, Bool.or_eq_true, List.mem_singleton] at hv
  obtain ⟨hconfig | hname, rfl⟩ := hv
  · exact hcreate hconfig
  · exact hdelete hname

end Objects

/-! ### Names of packages -/

section Names

variable {o : ApiObject} {vars : List String}

theorem isPackageName_handlerPackages {x : String} (hx : x ∈ handlerPackages o) (hconstant : x ∉ vars) :
    IsPackageName handlerBound vars x := by
  have hall : ∀ x ∈ ["errors", "http", "echo", "gorm", "iapi", "api", "time", "notifications", "gorm_clause"],
      (isIdentifier x && (x.toList.head?.all Char.isLower) && !handlerBound.contains x.toList) = true := by
    decide
  refine isPackageName_of_fixed (hall x ?_) hconstant
  simp only [handlerPackages, noticePackages, preloadPackages, List.mem_append, List.mem_ite_nil_right, List.mem_cons,
    List.not_mem_nil, or_false] at hx ⊢
  tauto

theorem isPackageName_commandPackages (hversion : Version.isValid o.version = true) {x : String}
    (hx : x ∈ commandPackages o) (hconstant : x ∉ vars) : IsPackageName commandBound vars x := by
  have hall : ∀ x ∈ ["os", "cobra", "cli", "yaml", "fmt"],
      (isIdentifier x && (x.toList.head?.all Char.isLower) && !commandBound.contains x.toList) = true := by
    decide
  simp only [commandPackages, List.mem_append, List.mem_ite_nil_right, List.mem_cons, List.not_mem_nil, or_false] at hx
  rcases hx with ((rfl | rfl | rfl | rfl) | ⟨-, rfl | rfl⟩) | ⟨-, rfl⟩
  · exact isPackageName_of_fixed (hall _ (by simp)) hconstant
  · exact isPackageName_of_fixed (hall _ (by simp)) hconstant
  · exact isPackageName_of_fixed (hall _ (by simp)) hconstant
  · exact isPackageName_versioned (by decide) hversion hconstant
  · exact isPackageName_versioned (by decide) hversion hconstant
  · exact isPackageName_of_fixed (hall _ (by simp)) hconstant
  · exact isPackageName_of_fixed (hall _ (by simp)) hconstant

end Names

end Generated

/-! ### Files -/

/-- The file can be read just if its variables can, and then it imports what it takes something from and nothing else,
unless a variable is called as one of its packages. Any name is meant that a package may have in the file, where the names
in `bound` and `vars` are taken. -/
structure Code.File.ImportsExact (f : File) (bound : List (List Char)) (vars : List String) : Prop where
  readable : (∃ lexed, tokenize f.text = .ok lexed) ↔ ∀ v ∈ vars, isReadable v = true
  used : (∀ v ∈ vars, isReadable v = true) → (∀ v ∈ vars, v ∉ f.importNames) →
    ∃ lexed behind, tokenize f.text = .ok lexed ∧ lexed.tokens.map Token.word = f.preamble ++ behind ∧
      (∀ x ∈ f.importNames, IsPackageName bound vars x) ∧
      ∀ x, IsPackageName bound vars x → (x ∈ f.importNames ↔ ∃ front back, behind = front ++ .identifier x :: .sign "." :: back)

section Files

variable {f : File} {bound : List (List Char)} {vars names : List String}

theorem Code.File.Opens.importsExact (h : f.Opens)
    (hneeds : Needs (declarationLines f.declarations) (∀ v ∈ vars, isReadable v = true))
    (huses : (∀ v ∈ vars, isReadable v = true) → Uses bound vars (declarationLines f.declarations) names)
    (hnames : ∀ x, x ∈ f.importNames ↔ x ∈ names)
    (hpackages : ∀ x ∈ names, x ∉ vars → IsPackageName bound vars x) : f.ImportsExact bound vars := by
  have hne : f.lines ≠ [] := by
    obtain ⟨is, himports⟩ := h.group
    rw [h.lines, File.front, himports]
    simp [File.importLines]
  have hread (hvars : ∀ v ∈ vars, isReadable v = true) : ∃ lexed behind, tokenize f.text = .ok lexed ∧
      lexed.tokens.map Token.word = f.preamble ++ behind ∧
      ∀ x, IsPackageName bound vars x → (x ∈ selectors behind ↔ x ∈ names) := by
    obtain ⟨behind, hbehind, hselectors⟩ := (huses hvars).reads
    have hlines : ReadsLines f.lines (f.preamble ++ behind) := by
      rw [h.lines]
      exact h.readsLines.append hbehind
    obtain ⟨lexed, hlexed, hwords⟩ := tokenize_text hne hlines
    exact ⟨lexed, behind, hlexed, hwords, hselectors⟩
  refine ⟨⟨?_, ?_⟩, ?_⟩
  · rintro ⟨lexed, hlexed⟩
    have hall : Needs f.lines (∀ v ∈ vars, isReadable v = true) := by
      rw [h.lines]
      exact hneeds.behind h.readsLines
    exact hall.of_tokenize hne hlexed
  · intro hvars
    obtain ⟨lexed, -, hlexed, -⟩ := hread hvars
    exact ⟨lexed, hlexed⟩
  · intro hvars hapart
    obtain ⟨lexed, behind, hlexed, hwords, hselectors⟩ := hread hvars
    refine ⟨lexed, behind, hlexed, hwords, fun x hx => ?_, fun x hx => ?_⟩
    · exact hpackages x ((hnames x).mp hx) fun hmem => hapart x hmem hx
    · rw [hnames, ← hselectors x hx, mem_selectors_iff]

end Files

namespace Generated

section Files

variable {p : Project}

theorem regenerated_lineless : ∀ text ∈ regenerated, '\n' ∉ text.toList := by
  decide

theorem opens_handlersFile (hpath : ∀ c ∈ p.modulePath.toList, c ∉ reservedChars) {version : String}
    (hversion : Version.isValid version = true) (g : GroupSlice) : (handlersFile p version g).Opens where
  header := regenerated_lineless
  package := show isIdentifier "handlers" = true by decide
  group := ⟨_, rfl⟩
  imports := by
    rw [handlersFile, List.flatten_singleton]
    exact readable_handlerImports hpath hversion _
  unbroken := rfl

theorem opens_commandsFile (hpath : ∀ c ∈ p.modulePath.toList, c ∉ reservedChars) {g : Group}
    (hversions : ∀ o ∈ g.commandObjects, Version.isValid o.version = true) : (commandsFile p g).Opens where
  header := regenerated_lineless
  package := show isIdentifier "cmd" = true by decide
  group := ⟨_, rfl⟩
  imports := by
    rw [commandsFile, List.flatten_singleton]
    exact readable_commandImports hpath hversions
  unbroken := rfl

theorem importsExact_handlersFile (hpath : ∀ c ∈ p.modulePath.toList, c ∉ reservedChars) {version : String}
    (hversion : Version.isValid version = true) {g : GroupSlice} (hroutes : routable g.objects ≠ [])
    (hnamed : ∀ o ∈ routable g.objects, Named o) :
    (handlersFile p version g).ImportsExact handlerBound ((routable g.objects).map (·.names.variableName)) := by
  have huses (o : ApiObject) (ho : o ∈ routable g.objects) (hreadable : isReadable o.names.variableName = true) :
      Uses handlerBound ((routable g.objects).map (·.names.variableName)) (declarationLines (objectHandlers o))
        (handlerPackages o) :=
    uses_objectHandlers (hnamed o ho) ⟨hreadable, List.mem_map_of_mem ho⟩
  refine (opens_handlersFile hpath hversion g).importsExact ?_ ?_ (fun x => mem_importNames_handlersFile hroutes) ?_
  · have hneeds := needs_flatMap (fun o ho => needs_objectHandlers (hnamed o ho)) huses
    refine hneeds.imp fun hreadable v hv => ?_
    obtain ⟨o, ho, rfl⟩ := List.mem_map.mp hv
    exact hreadable o ho
  · intro hvars
    exact uses_flatMap fun o ho => huses o ho (hvars _ (List.mem_map_of_mem ho))
  · intro x hx hconstant
    obtain ⟨o, -, hmem⟩ := List.mem_flatMap.mp hx
    exact isPackageName_handlerPackages hmem hconstant

theorem importsExact_commandsFile (hpath : ∀ c ∈ p.modulePath.toList, c ∉ reservedChars) {g : Group}
    (hcommands : g.commandObjects ≠ []) (hnamed : ∀ o ∈ g.commandObjects, Named o) :
    (commandsFile p g).ImportsExact commandBound (g.commandObjects.flatMap commandVariables) := by
  have hadmitted {o : ApiObject} (ho : o ∈ g.commandObjects) (hreadable : ∀ v ∈ commandVariables o, isReadable v = true)
      {v : String} (hv : v ∈ commandVariables o) : Admitted (g.commandObjects.flatMap commandVariables) v :=
    ⟨hreadable v hv, List.mem_flatMap.mpr ⟨o, ho, hv⟩⟩
  have hvariable {o : ApiObject} (hoffered : o.has .tptctlConfigPath = true ∨ o.nameField = true) :
      o.names.variableName ∈ commandVariables o := by
    rw [commandVariables, if_pos ((Bool.or_eq_true _ _).mpr hoffered)]
    exact List.mem_cons_of_mem _ List.mem_cons_self
  have huses (o : ApiObject) (ho : o ∈ g.commandObjects) (hreadable : ∀ v ∈ commandVariables o, isReadable v = true) :
      Uses commandBound (g.commandObjects.flatMap commandVariables) (declarationLines (objectCommands o))
        (commandPackages o) :=
    uses_objectCommands (hnamed o ho) (hadmitted ho hreadable List.mem_cons_self)
      fun hoffered => hadmitted ho hreadable (hvariable hoffered)
  refine (opens_commandsFile hpath fun o ho => (hnamed o ho).version).importsExact ?_ ?_
    (fun x => mem_importNames_commandsFile hcommands) ?_
  · have hneeds := needs_flatMap (fun o ho => needs_objectCommands (hnamed o ho)) huses
    exact hneeds.imp List.forall_mem_flatMap.mpr
  · intro hvars
    exact uses_flatMap fun o ho => huses o ho (List.forall_mem_flatMap.mp hvars o ho)
  · intro x hx hconstant
    obtain ⟨o, ho, hmem⟩ := List.mem_flatMap.mp hx
    exact isPackageName_commandPackages (hnamed o ho).version hmem hconstant

end Files

/-! ### Plain names -/

theorem isReadable_of_plain {name : String} (h : Text.Plain name.toList) : isReadable name = true := by
  unfold isReadable
  split
  · rfl
  · rename_i c cs hchars
    rw [hchars] at h
    obtain ⟨hc, hcs⟩ := Text.plain_cons.mp h
    split_ifs with hdigit
    · have hplain : ∀ d ∈ cs, isPlainPart d = true := fun d hd => by rw [isPlainPart, hcs d hd, Bool.true_or]
      dsimp only
      rw [List.dropWhile_eq_nil_iff.mpr hplain]
      rfl
    · have hstart : isIdentifierStart c = true := by
        rw [isIdentifierStart_of_ascii (Text.toNat_lt_of_isAlphanum hc), Bool.or_eq_true]
        rw [Char.isAlphanum, Bool.or_eq_true] at hc
        exact .inr (hc.resolve_right hdigit)
      rw [isWord, hchars]
      dsimp only
      rw [hstart, Bool.true_and, List.all_eq_true]
      exact fun d hd => isIdentifierPart_of_ascii (by rw [hcs d hd, Bool.true_or])

/-- Variables for a type whose name has letters and digits of ASCII only can be read. -/
theorem isReadable_of_plainType {o : ApiObject} (ho : Named o) (hplain : Text.Plain o.typeName.toList) :
    ∀ v ∈ [o.names.variableName, pluralVariable o], isReadable v = true := by
  have hcamel {s : String} (h : Text.Plain s.toList) : isReadable (Text.camelCase s) = true :=
    isReadable_of_plain (Text.plain_camelCase h)
  rw [pluralVariable, ho.names]
  simp only [List.forall_mem_cons]
  exact ⟨hcamel hplain, hcamel (Text.plain_plural hplain), List.forall_mem_nil _⟩

end Generated

/-! ### Models -/

/-- The imports of all handlers and commands of the model are exact. -/
structure Model.ImportsExact (m : Model) (p : Project) : Prop where
  handlers : ∀ s g f, Emitter.handlers.Writes p m (.versionGroup s g) f →
    f.ImportsExact handlerBound ((routable g.objects).map (·.names.variableName))
  commands : ∀ g f, Emitter.commands.Writes p m (.group g) f →
    f.ImportsExact commandBound (g.commandObjects.flatMap commandVariables)
  plain : ∀ g ∈ m.groups, ∀ o ∈ g.objects, Text.Plain o.typeName.toList →
    ∀ v ∈ [o.names.variableName, pluralVariable o], isReadable v = true

namespace Config.Built

variable {project : Project} {inspect : Inspector} {c : Config} {m : Model}

theorem named (h : c.Built project inspect m) {g : Group} (hg : g ∈ m.groups) {o : ApiObject} (ho : o ∈ g.objects)
    (htype : isIdentifier o.typeName = true) : Named o :=
  ⟨htype, h.derivedNames g hg o ho, h.isValid_of_object hg ho⟩

end Config.Built

/-- Handlers and commands import what they take something from and nothing else, whatever project they are rendered for,
as long as their variables can be read. -/
theorem conditional_imports_exact {project p : Project} {inspect : Inspector} {c : Config} {m : Model}
    (h : buildModel project inspect c = .ok m)
    (htypes : ∀ g ∈ m.groups, ∀ o ∈ g.objects, isIdentifier o.typeName = true)
    (hpath : ∀ c ∈ p.modulePath.toList, c ∉ reservedChars) : m.ImportsExact p := by
  have hbuilt := buildModel_ok h
  have hnamed (g : Group) (hg : g ∈ m.groups) (o : ApiObject) (ho : o ∈ g.objects) : Named o :=
    hbuilt.named hg ho (htypes g hg o ho)
  refine ⟨fun s g f hf => ?_, fun g f hf => ?_, fun g hg o ho => isReadable_of_plainType (hnamed g hg o ho)⟩
  · obtain ⟨a, -, hmakes, hdocument⟩ := hf
    obtain ⟨-, hs, hg⟩ := Target.mem_all_iff.mp hmakes.target
    obtain rfl : handlersFile p s.version g = f :=
      Document.code.inj (Except.ok.inj (hdocument ▸ hmakes.rendered))
    have hroutes : routable g.objects ≠ [] := by
      have happlies : hasRoutes (.versionGroup s g) = true := hmakes.applies
      rwa [hasRoutes, Bool.not_eq_true', List.isEmpty_eq_false_iff] at happlies
    have hparts : ∀ o ∈ routable g.objects, Named o ∧ o.version = s.version := by
      intro o ho
      obtain ⟨group, hgroup, -, hmem, hversion⟩ := hbuilt.mem_part hs hg (mem_routable.mp ho).1
      exact ⟨hnamed group hgroup o hmem, hversion⟩
    obtain ⟨o, ho⟩ := List.exists_mem_of_ne_nil _ hroutes
    have hversion : Version.isValid s.version = true := by
      rw [← (hparts o ho).2]
      exact (hparts o ho).1.version
    exact importsExact_handlersFile hpath hversion hroutes fun o ho => (hparts o ho).1
  · obtain ⟨a, -, hmakes, hdocument⟩ := hf
    obtain ⟨-, hg⟩ := Target.mem_all_iff.mp hmakes.target
    obtain rfl : commandsFile p g = f := Document.code.inj (Except.ok.inj (hdocument ▸ hmakes.rendered))
    have hcommands : g.commandObjects ≠ [] := by
      have happlies : hasCommands (.group g) = true := hmakes.applies
      rw [hasCommands, Bool.and_eq_true, Bool.not_eq_true', List.isEmpty_eq_false_iff] at happlies
      exact happlies.2
    exact importsExact_commandsFile hpath hcommands fun o ho =>
      hnamed g hg o (g.latest_latestObjects.mem o (Group.mem_commandObjects.mp ho).1)

/-- Charts with all flags at two versions beside releases that have other ones, so that the files mix both. -/
theorem mixed_imports_exact :
    let project := Project.ofModule "" "example.com/charts"
    let config : Config := {
      apiNamespace := "charts"
      groups := [{ name := "Helm", objects := [
        { name := "Release", versions := ["v0"], loadAssociationsFromDb := true, commands := { enabled := true } },
        { name := "Chart", versions := ["v1", "v0"], reconcilable := true, nameField := true,
          commands := { enabled := true, configPath := true } }] }] }
    ∃ m, buildModel project (fun path => .ok ⟨path, "", []⟩) config = .ok m ∧
      (∀ g ∈ m.groups, ∀ o ∈ g.objects, isIdentifier o.typeName = true) ∧
      (∀ c ∈ project.modulePath.toList, c ∉ reservedChars) ∧
      m.slices.map (fun s => s.groups.map fun g => (handlersFile project s.version g).importNames) = [
        [["errors", "http", "time", "api", "echo", "gorm", "gorm_clause", "iapi", "notifications"]],
        [["errors", "http", "time", "api", "echo", "gorm", "iapi", "notifications"]]] ∧
      m.groups.map (fun g => (commandsFile project g).importNames) = [
        ["fmt", "os", "api_v1", "cli", "client_v0", "client_v1", "cobra", "yaml"]] ∧ m.ImportsExact project := by
  intro project config
  obtain ⟨m, hm, hfacts⟩ : ∃ m, buildModel project (fun path => .ok ⟨path, "", []⟩) config = .ok m ∧
      (decide (∀ g ∈ m.groups, ∀ o ∈ g.objects, isIdentifier o.typeName = true),
        m.slices.map (fun s => s.groups.map fun g => (handlersFile project s.version g).importNames),
        m.groups.map (fun g => (commandsFile project g).importNames)) = (true, [
        [["errors", "http", "time", "api", "echo", "gorm", "gorm_clause", "iapi", "notifications"]],
        [["errors", "http", "time", "api", "echo", "gorm", "iapi", "notifications"]]], [
        ["fmt", "os", "api_v1", "cli", "client_v0", "client_v1", "cobra", "yaml"]]) :=
    exists_ok_of_map (by decide +kernel)
  obtain ⟨htypes, himports⟩ := Prod.mk.inj hfacts
  obtain ⟨hhandlers, hcommands⟩ := Prod.mk.inj himports
  have hidentifiers := of_decide_eq_true htypes
  have hpath : ∀ c ∈ project.modulePath.toList, c ∉ reservedChars := unreserved_of_all (by decide)
  exact ⟨m, hm, hidentifiers, hpath, hhandlers, hcommands, conditional_imports_exact hm hidentifiers hpath⟩

/-- The variable for stations under their Turkish name is no word, so their handlers cannot be read. -/
theorem station_handlers_unreadable :
    let project := Project.ofModule "" "example.com/net"
    let config : Config := {
      apiNamespace := "net"
      groups := [{ name := "Net", objects := [{ name := "\u0130stasyon", versions := ["v0"] }] }] }
    ∃ m, buildModel project (fun path => .ok ⟨path, "", []⟩) config = .ok m ∧
      (∀ g ∈ m.groups, ∀ o ∈ g.objects, isIdentifier o.typeName = true) ∧
      (∀ c ∈ project.modulePath.toList, c ∉ reservedChars) ∧
      ∃ s g f, Emitter.handlers.Writes project m (.versionGroup s g) f ∧
        (∀ o ∈ routable g.objects, o.names.variableName ∉ f.importNames ∧ pluralVariable o ∉ f.importNames) ∧
        ¬∃ lexed, tokenize f.text = .ok lexed := by
  intro project config
  obtain ⟨m, hm, hfacts⟩ : ∃ m, buildModel project (fun path => .ok ⟨path, "", []⟩) config = .ok m ∧
      (decide (∀ g ∈ m.groups, ∀ o ∈ g.objects, isIdentifier o.typeName = true),
        m.slices.map fun s => s.groups.map fun g => (routable g.objects).map fun o =>
          [o.names.variableName, pluralVariable o]) =
      (true, [[[["i\u0307stasyon", "i\u0307stasyons"]]]]) :=
    exists_ok_of_map (by decide +kernel)
  obtain ⟨htypes, hvariables⟩ := Prod.mk.inj hfacts
  have hidentifiers := of_decide_eq_true htypes
  have hpath : ∀ c ∈ project.modulePath.toList, c ∉ reservedChars := unreserved_of_all (by decide)
  obtain ⟨s, hslices, hgroups⟩ := List.map_eq_singleton_iff.mp hvariables
  obtain ⟨g, hparts, hobjects⟩ := List.map_eq_singleton_iff.mp hgroups
  obtain ⟨o, hroutable, hnames⟩ := List.map_eq_singleton_iff.mp hobjects
  obtain ⟨hsingle, hplurals⟩ := List.cons.inj hnames
  obtain ⟨hplural, -⟩ := List.cons.inj hplurals
  have hbuilt := buildModel_ok hm
  have hs : s ∈ m.slices := hslices ▸ List.mem_cons_self
  have hg : g ∈ s.groups := hparts ▸ List.mem_cons_self
  have ho : o ∈ routable g.objects := hroutable ▸ List.mem_cons_self
  have hne : routable g.objects ≠ [] := List.ne_nil_of_mem ho
  have happlies : Emitter.handlers.applies (.versionGroup s g) = true := by
    change (!(routable g.objects).isEmpty) = true
    rw [hroutable]
    rfl
  obtain ⟨group, hgroup, -, hmem, hversion⟩ := hbuilt.mem_part hs hg (mem_routable.mp ho).1
  have hnamed : Named o := hbuilt.named hgroup hmem (hidentifiers group hgroup o hmem)
  have hexact := importsExact_handlersFile hpath (hversion ▸ hnamed.version) hne fun o' ho' => by
    rw [hroutable, List.mem_singleton] at ho'
    exact ho' ▸ hnamed
  have hforeign {x : String} (hx : isIdentifier x = false) : x ∉ (handlersFile project s.version g).importNames := by
    intro himport
    obtain ⟨o', -, hpackage⟩ := List.mem_flatMap.mp ((mem_importNames_handlersFile hne).mp himport)
    have hname : IsPackageName handlerBound [] x := isPackageName_handlerPackages hpackage List.not_mem_nil
    exact Bool.noConfusion (hx.symm.trans hname.identifier)
  refine ⟨m, hm, hidentifiers, hpath, s, g, _, (hbuilt.writes_part_iff (by simp [defaultEmitters]) rfl rfl).mpr
    ⟨hs, hg, happlies, rfl⟩, ?_, ?_⟩
  · rw [hroutable, List.forall_mem_singleton, hsingle, hplural]
    exact ⟨hforeign (by decide +kernel), hforeign (by decide +kernel)⟩
  · rw [hexact.readable, hroutable, List.map_singleton, List.forall_mem_singleton, hsingle]
    decide +kernel

end ApiForge
