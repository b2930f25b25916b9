import ApiForge.Proofs.Sketches
import Mathlib

/-! Which packages the lines for an object take something from. It is computed from the outlines of the lines, whatever
the names of the object are, as long as its variables can be read. -/

namespace ApiForge.Generated

open Code Source

/-! ### Readings -/

/-- A letter, digit or underscore of ASCII. -/
def isPlainPart (c : Char) : Bool :=
  c.isAlphanum || c == '_'

/-- The text can stand where a name is to stand: there is nothing, a word, or a number with or without a word behind. -/
def isReadable (name : String) : Bool :=
  match name.toList with
  | [] => true
  | c :: cs =>
    if c.isDigit then
      let behind := cs.dropWhile isPlainPart
      behind.isEmpty || isWord (String.ofList behind)
    else isWord name

/-- What a variable may be read as. -/
def variableReadings : List (List Glyph) :=
  [[.free], [], [.numeral], [.numeral, .foreign]]

/-- A word that does not start with a plain character starts beyond ASCII. -/
theorem foreign_fits {p : Packages} {text : List Char} (h : isWord (String.ofList text) = true)
    (hhead : ∀ c ∈ text.head?, isPlainPart c = false) : Glyph.foreign.Fits p text := by
  refine ⟨h, fun c hc => Nat.not_lt.mp fun hascii => ?_⟩
  obtain ⟨d, ds, hchars, hstart, -⟩ := chars_of_isWord h
  have hplain := hhead c hc
  rw [String.toList_ofList] at hchars
  rw [hchars] at hc
  cases hc
  rw [isIdentifierStart_of_ascii hascii, Bool.or_eq_true] at hstart
  rw [isPlainPart, Bool.or_eq_false_iff] at hplain
  rcases hstart with hunderscore | hletter
  · exact Bool.noConfusion (hunderscore.symm.trans hplain.2)
  · rw [Char.isAlphanum, hletter] at hplain
    cases hplain.1

/-- A variable that is no package is read in one of four ways. -/
theorem exists_variableReading {p : Packages} {name : String} (h : isReadable name = true) (hname : ¬p.IsPackage name) :
    ∃ gs ∈ variableReadings, Filled p gs name.toList := by
  unfold isReadable at h
  split at h
  · rename_i hchars
    exact ⟨[], by decide, hchars ▸ .nil⟩
  · rename_i c cs hchars
    split_ifs at h with hdigit
    · have hsplit : name.toList = (c :: cs.takeWhile isPlainPart) ++ cs.dropWhile isPlainPart := by
        rw [hchars, List.cons_append, List.takeWhile_append_dropWhile]
      have hnumeral : Glyph.numeral.Fits p (c :: cs.takeWhile isPlainPart) :=
        ⟨c, _, rfl, hdigit, fun d hd => show isPlainPart d = true from List.mem_takeWhile_imp hd⟩
      have hhead : ∀ d ∈ (cs.dropWhile isPlainPart).head?, isPlainPart d = false := head?_dropWhile _ _
      dsimp only at h
      rw [hsplit]
      generalize cs.dropWhile isPlainPart = behind at h hhead
      rw [Bool.or_eq_true, List.isEmpty_iff] at h
      rcases h with rfl | hword
      · exact ⟨[.numeral], by decide, .cons hnumeral .nil⟩
      · refine ⟨[.numeral, .foreign], by decide, ?_⟩
        rw [← List.append_nil behind]
        exact .cons hnumeral (.cons (foreign_fits hword hhead) .nil)
    · refine ⟨[.free], by decide, ?_⟩
      rw [← List.append_nil name.toList]
      exact .cons (by rw [Glyph.Fits, String.ofList_toList]; exact ⟨h, hname⟩) .nil

/-- What the part is read as, given what the variables are read as. -/
def Part.glyphs (single plural : List Glyph) : Part → List Glyph
  | known text => text.map .char
  | word => [.word]
  | .single => single
  | .plural => plural
  | prose => [.prose]
  | aliased a => [.aliased a]

/-- All that a line may be read as. -/
def Outline.readings (outline : Outline) : List (List Glyph) :=
  (if outline.contains .single then variableReadings else [[]]).flatMap fun single =>
    (if outline.contains .plural then variableReadings else [[]]).map fun plural =>
      outline.flatMap (Part.glyphs single plural)

/-- The packages under the names that they have for the object. -/
def packagesOf (IsPackage : String → Prop) (o : ApiObject) : Packages :=
  ⟨IsPackage, aliasName o⟩

section Readings

variable {IsPackage : String → Prop} {o : ApiObject} {outline : Outline} {text : List Char}

theorem Outline.Fits.filled {single plural : List Glyph} (h : outline.Fits o text)
    (hsingle : .single ∈ outline → Filled (packagesOf IsPackage o) single o.names.variableName.toList)
    (hplural : .plural ∈ outline → Filled (packagesOf IsPackage o) plural (pluralVariable o).toList) :
    Filled (packagesOf IsPackage o) (outline.flatMap (Part.glyphs single plural)) text := by
  induction h with
  | nil => exact .nil
  | @cons part outline front back hpart houtline ih =>
      rw [List.flatMap_cons]
      refine Filled.append ?_ (ih (fun hmem => hsingle (List.mem_cons_of_mem _ hmem))
        (fun hmem => hplural (List.mem_cons_of_mem _ hmem)))
      have hone {g : Glyph} (hg : g.Fits (packagesOf IsPackage o) front) : Filled (packagesOf IsPackage o) [g] front := by
        rw [← List.append_nil front]
        exact .cons hg .nil
      cases part with
      | known text =>
          obtain rfl : front = text := hpart
          exact filled_map_char front
      | word => exact hone hpart
      | single =>
          obtain rfl : front = _ := hpart
          exact hsingle List.mem_cons_self
      | plural =>
          obtain rfl : front = _ := hpart
          exact hplural List.mem_cons_self
      | prose => exact hone hpart
      | aliased a =>
          obtain rfl : front = _ := hpart
          exact hone String.ofList_toList

/-- A variable that occurs in the outline can be read, and no package is called the same. -/
structure Outline.Legible (IsPackage : String → Prop) (o : ApiObject) (outline : Outline) : Prop where
  single : .single ∈ outline → isReadable o.names.variableName = true ∧ ¬IsPackage o.names.variableName
  plural : .plural ∈ outline → isReadable (pluralVariable o) = true ∧ ¬IsPackage (pluralVariable o)

/-- A line is read in one of the ways that its outline may be read. -/
theorem Outline.Fits.exists_reading (h : outline.Fits o text) (hlegible : outline.Legible IsPackage o) :
    ∃ gs ∈ outline.readings, Filled (packagesOf IsPackage o) gs text := by
  have hvariable {part : Part} {name : String}
      (hname : part ∈ outline → isReadable name = true ∧ ¬IsPackage name) :
      ∃ gs ∈ (if outline.contains part then variableReadings else [[]]),
        part ∈ outline → Filled (packagesOf IsPackage o) gs name.toList := by
    split_ifs with hmem
    · obtain ⟨hreadable, hpackage⟩ := hname (List.contains_iff_mem.mp hmem)
      obtain ⟨gs, hgs, hfilled⟩ := exists_variableReading (p := packagesOf IsPackage o) hreadable hpackage
      exact ⟨gs, hgs, fun _ => hfilled⟩
    · exact ⟨[], List.mem_cons_self, fun h => absurd (List.contains_iff_mem.mpr h) hmem⟩
  obtain ⟨single, hsingle, hsingle'⟩ := hvariable hlegible.single
  obtain ⟨plural, hplural, hplural'⟩ := hvariable hlegible.plural
  exact ⟨_, List.mem_flatMap.mpr ⟨single, hsingle, List.mem_map.mpr ⟨plural, hplural, rfl⟩⟩, h.filled hsingle' hplural'⟩

end Readings

/-! ### What lines take from packages -/

/-- What a package may be called: an identifier that starts with a small letter and is not bound in the lines. The names
that they bind are the ones in `bound` and the variables. -/
structure IsPackageName (bound : List (List Char)) (vars : List String) (name : String) : Prop where
  identifier : isIdentifier name = true
  small : ∀ c ∈ name.toList.head?, c.isLower = true
  unbound : name.toList ∉ bound
  constant : name ∉ vars

/-- No package is called so. -/
def excludes (bound : List (List Char)) : PackageName → Bool
  | .known text => bound.contains text || !isIdentifier (String.ofList text)
  | .aliased _ => false

/-- However the lines are read, those names of what they take something from that may be packages are the ones listed. -/
def accounts (bound : List (List Char)) (names : List PackageName) (outlines : List Outline) : Bool :=
  (outlines.all fun outline => outline.readings.all fun gs => (takenNames? gs).any fun found =>
    found.all fun name => names.contains name || excludes bound name) &&
  names.all fun name => outlines.any fun outline => outline.readings.all fun gs =>
    (takenNames? gs).any (·.contains name)

def mentions (part : Part) (outlines : List Outline) : Bool :=
  outlines.any (·.contains part)

/-- The names as they stand in outlines. -/
class Listed (o : ApiObject) (names : List String) (listed : outParam (List PackageName)) : Prop where
  eq : names = listed.map (PackageName.text ⟨fun _ => False, aliasName o⟩)

instance {o : ApiObject} : Listed o [] [] :=
  ⟨rfl⟩

instance (priority := low) {o : ApiObject} {name : String} {names : List String} {text : List Char}
    {listed : List PackageName} [h : Same name (String.ofList text)] [hs : Listed o names listed] :
    Listed o (name :: names) (.known text :: listed) :=
  ⟨by rw [List.map_cons, ← hs.eq, h.eq]; rfl⟩

instance {o : ApiObject} {names names' : List String} {listed listed' : List PackageName} [h : Listed o names listed]
    [h' : Listed o names' listed'] : Listed o (names ++ names') (listed ++ listed') :=
  ⟨by rw [List.map_append, ← h.eq, ← h'.eq]⟩

instance {o : ApiObject} {names : List String} {listed : List PackageName} [hs : Listed o names listed] :
    Listed o (apiAlias o.version :: names) (.aliased .api :: listed) :=
  ⟨by rw [List.map_cons, ← hs.eq]; rfl⟩

instance {o : ApiObject} {names : List String} {listed : List PackageName} [hs : Listed o names listed] :
    Listed o (clientAlias o.version :: names) (.aliased .client :: listed) :=
  ⟨by rw [List.map_cons, ← hs.eq]; rfl⟩

/-- The lines can be read, and the packages that they take something from are the ones called `names`. -/
def Uses (bound : List (List Char)) (vars : List String) (lines : Lines) (names : List String) : Prop :=
  ∃ words, List.Forall₂ ReadsAs (lines.map (·.text.toList)) words ∧
    ∀ x, IsPackageName bound vars x → (x ∈ words.flatMap selectors ↔ x ∈ names)

section Uses

variable {bound : List (List Char)} {vars : List String} {o : ApiObject} {lines lines' : Lines}
  {names names' : List String}

/-- One level deeper, lines are read as before. -/
theorem readsAs_nest {words : List (List Word)} (h : List.Forall₂ ReadsAs (lines.map (·.text.toList)) words) :
    List.Forall₂ ReadsAs ((nest lines).map (·.text.toList)) words := by
  rw [nest, List.map_map, List.forall₂_map_left_iff]
  rw [List.forall₂_map_left_iff] at h
  refine h.imp fun line ws hline => ?_
  rw [Function.comp_apply]
  split
  · exact hline
  · rw [Line.text_append, Line.text_plain, String.toList_append]
    exact hline.tab

theorem Uses.append (h : Uses bound vars lines names) (h' : Uses bound vars lines' names') : Uses bound vars (lines ++ lines') (names ++ names') := by
  obtain ⟨words, hwords, hnames⟩ := h
  obtain ⟨words', hwords', hnames'⟩ := h'
  refine ⟨words ++ words', ?_, fun x hx => ?_⟩
  · rw [List.map_append]
    exact List.rel_append hwords hwords'
  · rw [List.flatMap_append, List.mem_append, List.mem_append, hnames x hx, hnames' x hx]

theorem uses_nil : Uses bound vars [] [] :=
  ⟨[], .nil, fun _ _ => Iff.rfl⟩

theorem Uses.given (h : Uses bound vars lines names) (condition : Bool) :
    Uses bound vars (given condition lines) (if condition then names else []) := by
  cases condition with
  | true => exact h
  | false => exact uses_nil

theorem Uses.congr (h : Uses bound vars lines names) (hnames : names ⊆ names') (hnames' : names' ⊆ names) :
    Uses bound vars lines names' := by
  obtain ⟨words, hwords, hused⟩ := h
  refine ⟨words, hwords, fun x hx => ?_⟩
  rw [hused x hx]
  exact ⟨fun hmem => hnames hmem, fun hmem => hnames' hmem⟩

theorem map_toList_text (lines : Lines) : lines.map (·.text.toList) = (lines.map Line.text).map String.toList := by
  rw [List.map_map]
  rfl

/-- Only the texts of the lines matter. -/
theorem Uses.of_texts (h : Uses bound vars lines names) (hlines : lines'.map Line.text = lines.map Line.text) :
    Uses bound vars lines' names := by
  obtain ⟨words, hwords, hnames⟩ := h
  refine ⟨words, ?_, hnames⟩
  rwa [map_toList_text, hlines, ← map_toList_text]

theorem Uses.nest (h : Uses bound vars lines names) : Uses bound vars (nest lines) names := by
  obtain ⟨words, hwords, hnames⟩ := h
  exact ⟨words, readsAs_nest hwords, hnames⟩

theorem isIdentifier_versioned (front : String) {version : String} (hfront : isWord front = true) (hunderscore : '_' ∈ front.toList)
    (hversion : Version.isValid version = true) : isIdentifier (front ++ version) = true := by
  obtain ⟨c, cs, hchars, hc, hcs⟩ := chars_of_isWord hfront
  obtain ⟨d, ds, hchars', hd, hds⟩ := chars_of_isWord (isWord_of_isIdentifier (isIdentifier_of_isValid hversion))
  have hword : isWord (front ++ version) = true := by
    rw [isWord, String.toList_append, hchars, hchars', List.cons_append]
    dsimp only
    rw [hc, Bool.true_and, List.all_eq_true, List.forall_mem_append, List.forall_mem_cons]
    exact ⟨hcs, isIdentifierPart_of_isIdentifierStart hd, hds⟩
  have hkeyword : front ++ version ∉ keywords := by
    have hplain : ∀ keyword ∈ keywords, '_' ∉ keyword.toList := by decide
    exact fun hmem => hplain _ hmem (by rw [String.toList_append]; exact List.mem_append_left _ hunderscore)
  rw [isIdentifier, hword, List.contains_eq_mem, decide_eq_false hkeyword]
  rfl

theorem isIdentifier_aliasName (ho : Named o) (a : Alias) : isIdentifier (aliasName o a) = true := by
  cases a with
  | api => exact isIdentifier_versioned "api_" (by decide) (by decide) ho.version
  | client => exact isIdentifier_versioned "client_" (by decide) (by decide) ho.version

theorem packagesOf_regular (ho : Named o) : (packagesOf (IsPackageName bound vars) o).Regular where
  identifiers _ hname := hname.identifier
  small _ hname := hname.small
  aliases := isIdentifier_aliasName ho

theorem exists_words {R : Outline → Line → Prop} {S : Outline → List Word → Prop} {outlines : List Outline}
    (h : List.Forall₂ R outlines lines)
    (hline : ∀ outline ∈ outlines, ∀ line, R outline line → ∃ ws, ReadsAs line.text.toList ws ∧ S outline ws) :
    ∃ words, List.Forall₂ ReadsAs (lines.map (·.text.toList)) words ∧ List.Forall₂ S outlines words := by
  induction h with
  | nil => exact ⟨[], .nil, .nil⟩
  | cons hfirst hrest ih =>
      rw [List.forall_mem_cons] at hline
      obtain ⟨ws, hws, hS⟩ := hline.1 _ hfirst
      obtain ⟨words, hwords, hothers⟩ := ih hline.2
      exact ⟨ws :: words, .cons hws hwords, .cons hS hothers⟩

theorem not_isPackageName_of_excludes {name : PackageName} {p : Packages} (h : excludes bound name = true) :
    ¬IsPackageName bound vars (name.text p) := by
  intro hname
  cases name with
  | aliased a => cases h
  | known text =>
      have hunbound := hname.unbound
      have hidentifier : isIdentifier (String.ofList text) = true := hname.identifier
      rw [PackageName.text, String.toList_ofList] at hunbound
      rw [excludes, hidentifier, Bool.not_true, Bool.or_false, List.contains_iff_mem] at h
      exact hunbound h

/-- A variable of this name can be read. -/
structure Admitted (vars : List String) (name : String) : Prop where
  readable : isReadable name = true
  mem : name ∈ vars

/-- What lines take from packages is computed from their outlines. -/
theorem uses_of_sketched (ho : Named o) {outlines : List Outline} {listed : List PackageName}
    [hlines : Sketched o lines outlines] (hsingle : mentions .single outlines = false ∨ Admitted vars o.names.variableName)
    (hplural : mentions .plural outlines = false ∨ Admitted vars (pluralVariable o))
    [hnames : Listed o names listed] (h : accounts bound listed outlines = true) : Uses bound vars lines names := by
  have hp : (packagesOf (IsPackageName bound vars) o).Regular := packagesOf_regular ho
  rw [accounts, Bool.and_eq_true, List.all_eq_true, List.all_eq_true] at h
  obtain ⟨hall, hlisted⟩ := h
  -- A line is read in one of its ways, and what is found for this one tells what the line takes from packages.
  have hline : ∀ outline ∈ outlines, ∀ line, Indented o outline line → ∃ ws, ReadsAs line.text.toList ws ∧
      ∃ gs ∈ outline.readings, ∃ found, takenNames? gs = some found ∧ ∀ x, IsPackageName bound vars x →
        (x ∈ selectors ws ↔ ∃ name ∈ found, name.text (packagesOf (IsPackageName bound vars) o) = x) := by
    rintro outline houtline line ⟨n, text, htext, hfits⟩
    have hmentions {part : Part} {name : String} (hname : mentions part outlines = false ∨ Admitted vars name)
        (hpart : part ∈ outline) : isReadable name = true ∧ ¬IsPackageName bound vars name := by
      have hmem : mentions part outlines = true :=
        List.any_eq_true.mpr ⟨outline, houtline, List.contains_iff_mem.mpr hpart⟩
      have hadmitted := hname.resolve_left (ne_false_of_eq_true hmem)
      exact ⟨hadmitted.readable, fun hpackage => hpackage.constant hadmitted.mem⟩
    obtain ⟨gs, hgs, hfilled⟩ := hfits.exists_reading ⟨hmentions hsingle, hmentions hplural⟩
    obtain ⟨found, hfound, -⟩ := (Option.any_eq_true _ _).mp (List.all_eq_true.mp (hall outline houtline) gs hgs)
    obtain ⟨ws, hreads, hselectors⟩ := takenNames?_reads hp hfound hfilled
    exact ⟨ws, htext ▸ hreads.tabs n, gs, hgs, found, hfound, hselectors⟩
  obtain ⟨words, hwords, hfound⟩ := exists_words (hlines.indented ho) hline
  refine ⟨words, hwords, fun x hx => ?_⟩
  rw [hnames.eq, List.mem_flatMap, List.mem_map]
  constructor
  · rintro ⟨ws, hws, hmem⟩
    obtain ⟨outline, houtline, gs, hgs, found, hgs', hselectors⟩ := exists_of_forall₂ hfound hws
    obtain ⟨name, hname, rfl⟩ := (hselectors x hx).mp hmem
    have hcheck := List.all_eq_true.mp (hall outline houtline) gs hgs
    rw [hgs', Option.any_some, List.all_eq_true] at hcheck
    have hknown := hcheck name hname
    rw [Bool.or_eq_true, List.contains_iff_mem] at hknown
    refine ⟨name, hknown.resolve_right fun hexcluded => not_isPackageName_of_excludes hexcluded hx, ?_⟩
    cases name <;> rfl
  · rintro ⟨name, hname, rfl⟩
    obtain ⟨outline, houtline, hcheck⟩ := List.any_eq_true.mp (hlisted name hname)
    obtain ⟨ws, hws, gs, hgs, found, hgs', hselectors⟩ := exists_of_forall₂_left hfound houtline
    have hcontains := List.all_eq_true.mp hcheck gs hgs
    rw [hgs', Option.any_some, List.contains_iff_mem] at hcontains
    refine ⟨ws, hws, (hselectors _ hx).mpr ⟨name, hcontains, ?_⟩⟩
    cases name <;> rfl

end Uses

/-! ### Declarations -/

/-- The declarations as they stand in a file, with blank lines in front of them. -/
def declarationLines (ds : List Declaration) : Lines :=
  ds.flatMap fun d => ("" : Line) :: d.lines

section Declarations

variable {bound : List (List Char)} {vars : List String} {o : ApiObject} {names names' : List String}

instance : Sketched o (declarationLines []) [] :=
  ⟨fun _ => .nil⟩

instance {d : Declaration} {ds : List Declaration} {xs ys : List Outline} [h : Sketched o (("" : Line) :: d.lines) xs]
    [hs : Sketched o (declarationLines ds) ys] : Sketched o (declarationLines (d :: ds)) (xs ++ ys) :=
  ⟨fun ho => List.rel_append (h.indented ho) (hs.indented ho)⟩

theorem uses_blank : Uses bound vars [""] [] := by
  refine ⟨[[]], .cons ?_ .nil, fun _ _ => Iff.rfl⟩
  change ReadsAs (⟨[.plain ""]⟩ : Line).text.toList []
  rw [Line.text_plain]
  exact ⟨⟨[], rfl, trivial, rfl⟩, List.not_mem_nil⟩

theorem uses_noDeclarations : Uses bound vars (declarationLines []) [] :=
  uses_nil

theorem Uses.cons {d : Declaration} {ds : List Declaration} (h : Uses bound vars d.lines names)
    (hs : Uses bound vars (declarationLines ds) names') :
    Uses bound vars (declarationLines (d :: ds)) (names ++ names') :=
  (uses_blank.append h).append hs

theorem uses_append {ds ds' : List Declaration} (h : Uses bound vars (declarationLines ds) names)
    (h' : Uses bound vars (declarationLines ds') names') :
    Uses bound vars (declarationLines (ds ++ ds')) (names ++ names') := by
  rw [declarationLines, List.flatMap_append]
  exact h.append h'

theorem uses_flatMap {os : List ApiObject} {f : ApiObject → List Declaration} {namesOf : ApiObject → List String}
    (h : ∀ o ∈ os, Uses bound vars (declarationLines (f o)) (namesOf o)) :
    Uses bound vars (declarationLines (os.flatMap f)) (os.flatMap namesOf) := by
  induction os with
  | nil => exact uses_noDeclarations
  | cons o os ih =>
      rw [List.forall_mem_cons] at h
      rw [List.flatMap_cons, List.flatMap_cons]
      exact uses_append h.1 (ih h.2)

end Declarations

end ApiForge.Generated
