import ApiForge.Proofs.CommandPackages
import ApiForge.Proofs.Contents
import ApiForge.Proofs.Imports
import ApiForge.Proofs.LatestVersions
import Mathlib

/-! The handlers and the commands import the packages that they take something from, and no others. -/

namespace ApiForge

open Code Generated Source

/-! ### Lines of a file -/

namespace Source

/-- The lines are read as the words, one line after the other. -/
def ReadsLines (lines : Lines) (ws : List Word) : Prop :=
  ∃ words, List.Forall₂ ReadsAs (lines.map (·.text.toList)) words ∧ words.flatMap ended = ws

section Lines

variable {line : Line} {lines lines' : Lines} {ws ws' : List Word}

theorem ReadsLines.append (h : ReadsLines lines ws) (h' : ReadsLines lines' ws') :
    ReadsLines (lines ++ lines') (ws ++ ws') := by
  obtain ⟨words, hwords, rfl⟩ := h
  obtain ⟨words', hwords', rfl⟩ := h'
  refine ⟨words ++ words', ?_, List.flatMap_append⟩
  rw [List.map_append]
  exact List.rel_append hwords hwords'

theorem readsLines_nil : ReadsLines [] [] :=
  ⟨[], .nil, rfl⟩

theorem ReadsLines.cons (h : ReadsAs line.text.toList ws) (hs : ReadsLines lines ws') :
    ReadsLines (line :: lines) (ended ws ++ ws') := by
  obtain ⟨words, hwords, rfl⟩ := hs
  exact ⟨ws :: words, .cons h hwords, rfl⟩

theorem ReadsLines.nest (h : ReadsLines lines ws) : ReadsLines (nest lines) ws := by
  obtain ⟨words, hwords, rfl⟩ := h
  exact ⟨words, readsAs_nest hwords, rfl⟩

/-- Only the texts of the lines matter. -/
theorem ReadsLines.of_texts (h : ReadsLines lines ws) (hlines : lines'.map Line.text = lines.map Line.text) :
    ReadsLines lines' ws := by
  obtain ⟨words, hwords, hws⟩ := h
  refine ⟨words, ?_, hws⟩
  rwa [map_toList_text, hlines, ← map_toList_text]

theorem tokenize_text (hne : lines ≠ []) (h : ReadsLines lines ws) :
    ∃ lexed, tokenize (Code.text lines) = .ok lexed ∧ lexed.tokens.map Token.word = ws := by
  obtain ⟨words, hwords, rfl⟩ := h
  obtain ⟨line, lines, rfl⟩ := List.exists_cons_of_ne_nil hne
  refine tokenize_lines ?_ hwords
  rw [Code.text, String.toList_intercalate, List.map_map]
  rfl

theorem readsAs_blank : ReadsAs [] [] :=
  ⟨⟨[], rfl, trivial, rfl⟩, List.not_mem_nil⟩

theorem readsAs_comment {text : String} (h : '\n' ∉ text.toList) : ReadsAs ("// " ++ text).toList [] := by
  have hbody : '\n' ∉ ' ' :: text.toList := by simpa using h
  refine ⟨⟨[(.comment .line, "// " ++ text)], by simp, ⟨⟨'/', '/' :: ' ' :: text.toList, by simp, ?_⟩, trivial⟩, rfl⟩, ?_⟩
  · have hlexeme := lexeme_lineComment hbody endsLine_nil
    rw [List.append_nil] at hlexeme
    rwa [charsOf_nil, List.append_nil, List.append_nil]
  · simpa using h

theorem readsAs_package {name : String} (h : isIdentifier name = true) :
    ReadsAs ("package " ++ name).toList [.keyword "package", .identifier name] := by
  refine ⟨⟨[(.token .keyword, "package"), (.blank, " "), (.token .identifier, name)], by simp, ?_, rfl⟩, ?_⟩
  · apply Reads.keyword (by decide) (endsWord_cons (by decide) _)
    apply Reads.blank rfl (by decide)
    exact Reads.identifier h endsLine_nil.endsWord trivial
  · simp [lineless_of_isIdentifier h]

theorem readsAs_importOpening : ReadsAs "import (".toList [.keyword "import", .sign "("] := by
  refine ⟨⟨[(.token .keyword, "import"), (.blank, " "), (.token .operator, "(")], by decide, ?_, rfl⟩, by decide⟩
  apply Reads.keyword (by decide) (endsWord_cons (by decide) _)
  apply Reads.blank rfl (by decide)
  exact ⟨⟨'(', [], rfl, rfl⟩, trivial⟩

theorem readsAs_importClosing : ReadsAs ")".toList [.sign ")"] :=
  ⟨⟨[(.token .operator, ")")], by decide, ⟨⟨')', [], rfl, rfl⟩, trivial⟩, rfl⟩, by decide⟩

end Lines

end Source

/-! ### Imports -/

/-- The semicolon that the end of a line stands for. -/
def Source.lineEnd : Word :=
  ⟨.newline, ""⟩

/-- An import as it is read. -/
def Code.Import.words (i : Import) : List Word :=
  (if i.name = "" then [] else [.identifier i.name]) ++ [⟨.string i.path, inQuotes i.path⟩]

/-- The package and the imports of a file as they are read. -/
def Code.File.preamble (f : File) : List Word :=
  [.keyword "package", .identifier f.package, lineEnd, .keyword "import", .sign "("] ++
    f.imports.flatten.flatMap (fun i => i.words ++ [lineEnd]) ++ [.sign ")", lineEnd]

/-- The import can be read. -/
structure Code.Import.Readable (i : Import) : Prop where
  name : i.name = "" ∨ isIdentifier i.name = true
  path : ∀ c ∈ i.path.toList, c ∉ reservedChars

section Files

theorem Reads.quoted {text : String} (h : ∀ c ∈ text.toList, c ∉ reservedChars) :
    Reads [(.token (.string text), inQuotes text)] [] := by
  have hlexeme := lexeme_spelled (spelled_self h) []
  rw [String.ofList_toList] at hlexeme
  refine ⟨⟨'"', text.toList ++ ['"'], ?_, ?_⟩, trivial⟩
  · rw [inQuotes, String.toList_append, String.toList_append]
    rfl
  · rw [charsOf_nil, List.append_nil, List.append_nil]
    exact hlexeme

theorem Code.Import.Readable.readsAs {i : Import} (h : i.Readable) : ReadsAs i.line.text.toList i.words := by
  have hpath : '\n' ∉ i.path.toList := fun hmem => h.path _ hmem (by decide)
  have hquotes : '\n' ∉ (inQuotes i.path).toList := by simp [inQuotes, hpath]
  rw [Import.line, Import.words]
  split_ifs with hname
  · rw [Line.text_plain]
    exact ⟨⟨[(.token (.string i.path), inQuotes i.path)], by simp, Reads.quoted h.path, rfl⟩, hquotes⟩
  · have hidentifier := h.name.resolve_left hname
    rw [Line.text_append, Line.text_append, Line.text_plain, Line.text_plain, Line.text_plain]
    refine ⟨⟨[(.token .identifier, i.name), (.blank, " "), (.token (.string i.path), inQuotes i.path)], by simp, ?_, rfl⟩, ?_⟩
    · apply Reads.identifier hidentifier (endsWord_cons (by decide) _)
      exact Reads.blank rfl (by decide) (Reads.quoted h.path)
    · simp [lineless_of_isIdentifier hidentifier, hquotes]

theorem Code.Import.ended_words (i : Import) : ended i.words = i.words ++ [lineEnd] := by
  rw [ended, words, List.getLast?_append]
  rfl

theorem readsLines_imports {is : List Import} (h : ∀ i ∈ is, i.Readable) :
    ReadsLines (is.map Import.line) (is.flatMap fun i => i.words ++ [lineEnd]) := by
  induction is with
  | nil => exact readsLines_nil
  | cons i is ih =>
      rw [List.forall_mem_cons] at h
      rw [List.flatMap_cons, ← i.ended_words]
      exact ReadsLines.cons h.1.readsAs (ih h.2)

theorem readsLines_comment {texts : List String} (h : ∀ text ∈ texts, '\n' ∉ text.toList) :
    ReadsLines (comment texts) [] := by
  induction texts with
  | nil => exact readsLines_nil
  | cons text texts ih =>
      rw [List.forall_mem_cons] at h
      have hline : ReadsAs (⟨[.plain ("// " ++ text)]⟩ : Line).text.toList [] := by
        rw [Line.text_plain]
        exact readsAs_comment h.1
      exact ReadsLines.cons hline (ih h.2)

/-- What is in front of the declarations of the file can be read, and nothing comes behind them. -/
structure Code.File.Opens (f : File) : Prop where
  header : ∀ text ∈ f.header, '\n' ∉ text.toList
  package : isIdentifier f.package = true
  group : ∃ is, f.imports = [is]
  imports : ∀ i ∈ f.imports.flatten, i.Readable
  unbroken : f.finalBreak = false

/-- What is in front of the declarations. -/
def Code.File.front (f : File) : Lines :=
  comment f.header ++ ["", "package " ++ f.package] ++ File.importLines f.imports

theorem Code.File.Opens.readsLines {f : File} (h : f.Opens) : ReadsLines f.front f.preamble := by
  obtain ⟨is, himports⟩ := h.group
  have his : ∀ i ∈ is, i.Readable := fun i hi => h.imports i (by rwa [himports, List.flatten_singleton])
  have hplain {text : String} {ws : List Word} (h : ReadsAs text.toList ws) :
      ReadsLines [(text : Line)] (ended ws) := by
    rw [← List.append_nil (ended ws)]
    refine ReadsLines.cons ?_ readsLines_nil
    rwa [Line.text_plain]
  have hblank : ReadsLines [("" : Line)] (ended []) := hplain readsAs_blank
  have hclause := hblank.append (hplain (readsAs_package h.package))
  have hblock := ((hplain readsAs_importOpening).append (readsLines_imports his).nest).append
    (hplain readsAs_importClosing)
  have hlines := ((readsLines_comment h.header).append hclause).append (hblank.append hblock)
  have hpreamble : ([] ++ (ended [] ++ ended [Word.keyword "package", Word.identifier f.package])) ++ (ended [] ++
      (ended [Word.keyword "import", Word.sign "("] ++ (is.flatMap fun i => i.words ++ [lineEnd]) ++
        ended [Word.sign ")"])) = f.preamble := by
    rw [File.preamble, himports, List.flatten_singleton]
    rfl
  rw [hpreamble] at hlines
  refine hlines.of_texts ?_
  simp [File.front, himports, File.importLines, enclose, Code.spaced]

theorem Code.File.Opens.lines {f : File} (h : f.Opens) : f.lines = f.front ++ declarationLines f.declarations := by
  rw [File.lines, h.unbroken]
  exact List.append_nil _

end Files

/-! ### What files import -/

namespace Generated

section Paths

variable {p : Project}

theorem unreserved_of_all {text : String} (h : (text.toList.all fun c => !reservedChars.contains c) = true) :
    ∀ c ∈ text.toList, c ∉ reservedChars := by
  intro c hc hreserved
  have hplain := List.all_eq_true.mp h c hc
  rw [List.contains_iff_mem.mpr hreserved] at hplain
  cases hplain

theorem unreserved_append {s t : String} (hs : ∀ c ∈ s.toList, c ∉ reservedChars) (ht : ∀ c ∈ t.toList, c ∉ reservedChars) :
    ∀ c ∈ (s ++ t).toList, c ∉ reservedChars := by
  rw [String.toList_append, List.forall_mem_append]
  exact ⟨hs, ht⟩

theorem unreserved_of_isIdentifier {name : String} (h : isIdentifier name = true) : ∀ c ∈ name.toList, c ∉ reservedChars := by
  obtain ⟨d, ds, hchars, hd, hds⟩ := chars_of_isWord (isWord_of_isIdentifier h)
  have hparts : ∀ c ∈ name.toList, isIdentifierPart c = true :=
    hchars ▸ List.forall_mem_cons.mpr ⟨isIdentifierPart_of_isIdentifierStart hd, hds⟩
  exact fun c hc hreserved => absurd ((hparts c hc).symm.trans (isIdentifierPart_of_reserved hreserved)) (by decide)

theorem mem_trimSlashes {package : String} {c : Char} (h : c ∈ (Project.trimSlashes package).toList) :
    c ∈ package.toList := by
  rw [Project.trimSlashes, String.toList_ofList, List.mem_reverse] at h
  have hfront := List.mem_reverse.mp ((List.dropWhile_suffix _).subset h)
  exact (List.dropWhile_suffix _).subset hfront

theorem unreserved_importPath (hpath : ∀ c ∈ p.modulePath.toList, c ∉ reservedChars) {package : String}
    (hpackage : ∀ c ∈ package.toList, c ∉ reservedChars) : ∀ c ∈ (p.importPath package).toList, c ∉ reservedChars :=
  unreserved_append (unreserved_append hpath (unreserved_of_all (by decide))) fun _ hc => hpackage _ (mem_trimSlashes hc)

theorem unreserved_version {version : String} (h : Version.isValid version = true) {front : String}
    (hfront : ∀ c ∈ front.toList, c ∉ reservedChars) : ∀ c ∈ (front ++ version).toList, c ∉ reservedChars :=
  unreserved_append hfront (unreserved_of_isIdentifier (isIdentifier_of_isValid h))

end Paths

theorem mem_importNames {f : File} {is : List Import} (h : f.imports = [Import.sorted is]) {x : String} :
    x ∈ f.importNames ↔ x ∈ is.map Import.localName := by
  rw [File.importNames, h, List.flatten_singleton, List.mem_map, List.mem_map]
  simp only [Import.mem_sorted]

theorem mem_importNames_handlersFile {p : Project} {version : String} {g : GroupSlice} (hroutes : routable g.objects ≠ [])
    {x : String} : x ∈ (handlersFile p version g).importNames ↔ x ∈ (routable g.objects).flatMap handlerPackages := by
  have hfixed : List.map Import.localName [.plain "errors", .plain "net/http", echoImport, ⟨"gorm", "gorm.io/gorm"⟩,
      serverLibrary, ⟨"api", apiPackage p version⟩] = ["errors", "http", "echo", "gorm", "iapi", "api"] := rfl
  have hmarked (condition : Bool) (is : List Import) :
      (if condition then is else []).map Import.localName = if condition then is.map Import.localName else [] := by
    cases condition <;> rfl
  have hnotices : List.map Import.localName [.plain "time", notifications] = ["time", "notifications"] := rfl
  have hpreloads : List.map Import.localName [⟨"gorm_clause", "gorm.io/gorm/clause"⟩] = ["gorm_clause"] := rfl
  have hany (m : Marker) (names : List String) : x ∈ (if (routable g.objects).any (·.has m) then names else []) ↔
      ∃ o ∈ routable g.objects, x ∈ if o.has m then names else [] := by
    simp only [List.mem_ite_nil_right, List.any_eq_true]
    exact ⟨fun ⟨⟨o, ho, hm⟩, hx⟩ => ⟨o, ho, hm, hx⟩, fun ⟨o, ho, hm, hx⟩ => ⟨⟨o, ho, hm⟩, hx⟩⟩
  have hall (names : List String) : x ∈ names ↔ ∃ o ∈ routable g.objects, x ∈ names := by
    obtain ⟨o, ho⟩ := List.exists_mem_of_ne_nil _ hroutes
    exact ⟨fun hx => ⟨o, ho, hx⟩, fun ⟨_, _, hx⟩ => hx⟩
  rw [mem_importNames rfl, List.map_append, List.map_append, hfixed, hmarked, hmarked, hnotices, hpreloads,
    List.mem_append, List.mem_append, hany, hany, hall, List.mem_flatMap]
  simp only [handlerPackages, noticePackages, preloadPackages, List.mem_append, and_or_left, exists_or]

theorem mem_importNames_commandsFile {p : Project} {g : Group} (hcommands : g.commandObjects ≠ []) {x : String} :
    x ∈ (commandsFile p g).importNames ↔ x ∈ g.commandObjects.flatMap commandPackages := by
  have hfixed : List.map Import.localName [.plain "os", ⟨"cobra", "github.com/spf13/cobra"⟩, commandLibrary] =
      ["os", "cobra", "cli"] := rfl
  have hobject (o : ApiObject) : ([clientImport p o.version] ++
      (if o.has .tptctlConfigPath then [apiImport p o.version, ⟨"yaml", "gopkg.in/yaml.v2"⟩] else []) ++
      (if o.has .tptctlConfigPath || o.nameField then [Import.plain "fmt"] else [])).map Import.localName =
      [clientAlias o.version] ++ (if o.has .tptctlConfigPath then [apiAlias o.version, "yaml"] else []) ++
      if o.has .tptctlConfigPath || o.nameField then ["fmt"] else [] := by
    have hyaml : Import.localName ⟨"yaml", "gopkg.in/yaml.v2"⟩ = "yaml" := rfl
    have hfmt : (Import.plain "fmt").localName = "fmt" := rfl
    cases o.has .tptctlConfigPath <;> cases o.nameField <;>
      simp [localName_clientImport, localName_apiImport, hyaml, hfmt, clientAlias, apiAlias]
  obtain ⟨o, ho⟩ := List.exists_mem_of_ne_nil _ hcommands
  rw [mem_importNames rfl, List.map_append, hfixed, List.map_flatMap, List.mem_append, List.mem_flatMap, List.mem_flatMap]
  simp only [hobject, commandPackages, List.mem_append, List.mem_cons, List.not_mem_nil, or_false]
  constructor
  · rintro (hx | ⟨o, ho, hx⟩)
    · exact ⟨o, ho, by tauto⟩
    · exact ⟨o, ho, by tauto⟩
  · rintro ⟨o, ho, hx⟩
    by_cases hfound : x = "os" ∨ x = "cobra" ∨ x = "cli"
    · exact .inl hfound
    · exact .inr ⟨o, ho, by tauto⟩

/-! ### Imports that can be read -/

section Readable

variable {p : Project} {version : String}

theorem readable_of_fixed {i : Import} (hname : i.name = "" ∨ isIdentifier i.name = true)
    (hpath : (i.path.toList.all fun c => !reservedChars.contains c) = true) : i.Readable :=
  ⟨hname, unreserved_of_all hpath⟩

theorem readable_apiPackage (hpath : ∀ c ∈ p.modulePath.toList, c ∉ reservedChars)
    (hversion : Version.isValid version = true) {name : String} (hname : isIdentifier name = true) :
    Import.Readable ⟨name, apiPackage p version⟩ :=
  ⟨.inr hname, unreserved_importPath hpath (unreserved_version hversion (unreserved_of_all (by decide)))⟩

theorem readable_clientPackage (hpath : ∀ c ∈ p.modulePath.toList, c ∉ reservedChars)
    (hversion : Version.isValid version = true) {name : String} (hname : isIdentifier name = true) :
    Import.Readable ⟨name, clientPackage p version⟩ :=
  ⟨.inr hname, unreserved_importPath hpath (unreserved_version hversion (unreserved_of_all (by decide)))⟩

theorem readable_handlerImports (hpath : ∀ c ∈ p.modulePath.toList, c ∉ reservedChars)
    (hversion : Version.isValid version = true) (objects : List ApiObject) :
    ∀ i ∈ handlerImports p version objects, i.Readable := by
  have hplain (path : String) (h : (path.toList.all fun c => !reservedChars.contains c) = true) :
      (Import.plain path).Readable :=
    readable_of_fixed (.inl rfl) h
  intro i hi
  rw [handlerImports, Import.mem_sorted] at hi
  simp only [List.mem_append, List.mem_ite_nil_right, List.mem_cons, List.not_mem_nil, or_false] at hi
  rcases hi with ((rfl | rfl | rfl | rfl | rfl | rfl) | ⟨-, rfl | rfl⟩) | ⟨-, rfl⟩
  · exact hplain _ (by decide)
  · exact hplain _ (by decide)
  · exact readable_of_fixed (.inr (by decide)) (by decide)
  · exact readable_of_fixed (.inr (by decide)) (by decide)
  · exact readable_of_fixed (.inr (by decide)) (by decide)
  · exact readable_apiPackage hpath hversion (by decide)
  · exact hplain _ (by decide)
  · exact readable_of_fixed (.inr (by decide)) (by decide)
  · exact readable_of_fixed (.inr (by decide)) (by decide)

theorem readable_commandImports (hpath : ∀ c ∈ p.modulePath.toList, c ∉ reservedChars) {objects : List ApiObject}
    (hversions : ∀ o ∈ objects, Version.isValid o.version = true) : ∀ i ∈ commandImports p objects, i.Readable := by
  intro i hi
  rw [commandImports, Import.mem_sorted] at hi
  simp only [List.mem_append, List.mem_flatMap, List.mem_ite_nil_right, List.mem_cons, List.not_mem_nil, or_false] at hi
  rcases hi with (rfl | rfl | rfl) | ⟨o, ho, (rfl | ⟨-, rfl | rfl⟩) | ⟨-, rfl⟩⟩
  · exact readable_of_fixed (.inl rfl) (by decide)
  · exact readable_of_fixed (.inr (by decide)) (by decide)
  · exact readable_of_fixed (.inr (by decide)) (by decide)
  · exact readable_clientPackage hpath (hversions o ho) (isIdentifier_versioned "client_" (by decide) (by decide) (hversions o ho))
  · exact readable_apiPackage hpath (hversions o ho) (isIdentifier_versioned "api_" (by decide) (by decide) (hversions o ho))
  · exact readable_of_fixed (.inr (by decide)) (by decide)
  · exact readable_of_fixed (.inl rfl) (by decide)

end Readable

/-! ### Names that packages go by -/

theorem isPackageName_of_fixed {bound : List (List Char)} {vars : List String} {name : String}
    (h : (isIdentifier name && (name.toList.head?.all Char.isLower) && !bound.contains name.toList) = true)
    (hconstant : name ∉ vars) : IsPackageName bound vars name := by
  rw [Bool.and_eq_true, Bool.and_eq_true, Bool.not_eq_true', List.contains_eq_mem, decide_eq_false_iff_not] at h
  exact ⟨h.1.1, fun c hc => (Option.all_eq_true _ _).mp h.1.2 c hc, h.2, hconstant⟩

theorem isPackageName_versioned {bound : List (List Char)} {vars : List String} {front version : String}
    (hfront : (isWord front && front.toList.contains '_' && (front.toList.head?.any Char.isLower) &&
      bound.all fun text => !text.contains '_') = true)
    (hversion : Version.isValid version = true) (hconstant : front ++ version ∉ vars) :
    IsPackageName bound vars (front ++ version) := by
  simp only [Bool.and_eq_true, List.all_eq_true, Bool.not_eq_true', List.contains_eq_mem, decide_eq_false_iff_not,
    decide_eq_true_eq] at hfront
  obtain ⟨⟨⟨hword, hunderscore⟩, hhead⟩, hbound⟩ := hfront
  obtain ⟨c, hc, hlower⟩ := (Option.any_eq_true _ _).mp hhead
  refine ⟨isIdentifier_versioned front hword hunderscore hversion, ?_, fun hmem => ?_, hconstant⟩
  · rw [String.toList_append, List.head?_append, hc, Option.some_or]
    rintro d ⟨⟩
    exact hlower
  · refine hbound _ hmem ?_
    rw [String.toList_append]
    exact List.mem_append_left _ hunderscore

end Generated

end ApiForge
