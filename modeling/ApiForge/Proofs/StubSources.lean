import ApiForge.Generated.ModelSource
import ApiForge.Proofs.Casing
import ApiForge.Proofs.StructLines

/-! Stubs of sources say what the configuration says. -/

namespace ApiForge

namespace Code

@[simp] theorem Line.text_plain (text : String) : (⟨[.plain text]⟩ : Line).text = text := by
  simp [Line.text, Piece.text, String.join]

theorem Line.text_reference (r : Reference) : r.line.text = r.text := by
  simp [Line.text, Reference.line, Piece.text]

@[simp] theorem Line.text_append (front back : Line) : (front ++ back).text = front.text ++ back.text := by
  have hpieces : (front ++ back).pieces = front.pieces ++ back.pieces := rfl
  rw [Line.text, hpieces, List.map_append, String.join_append]
  rfl

@[simp] theorem map_text_plainLines (texts : List String) : (plainLines texts).map Line.text = texts := by
  simp [plainLines, Function.comp_def]

@[simp] theorem map_text_append_lines (texts : List String) (lines : Lines) :
    (texts ++ lines : Lines).map Line.text = texts ++ lines.map Line.text := by
  have happend : (texts ++ lines : Lines) = plainLines texts ++ lines := rfl
  rw [happend, List.map_append, map_text_plainLines]

@[simp] theorem map_text_append_texts (lines : Lines) (texts : List String) :
    (lines ++ texts : Lines).map Line.text = lines.map Line.text ++ texts := by
  have happend : (lines ++ texts : Lines) = lines ++ plainLines texts := rfl
  rw [happend, List.map_append, map_text_plainLines]

/-- A line one level deeper, unless it is blank. -/
def indent (text : String) : String :=
  if text = "" then "" else "\t" ++ text

theorem map_text_nest (lines : Lines) : (nest lines).map Line.text = (lines.map Line.text).map indent := by
  rw [nest, List.map_map, List.map_map]
  apply List.map_congr_left
  intro line _
  by_cases hblank : line.text = "" <;> simp [indent, hblank]

end Code

namespace Generated

open Code
open Source (Marker)

/-- The lines of the comment above a stub. -/
def stubDoc (o : ObjectConfig) : List String :=
  s!"{o.name} is a {Text.kebabCase o.name} managed by threeport." :: o.markers.map fun m => "+" ++ m.sentinel

/-- The embedded types of a stub with their tags. -/
def stubEmbeds (o : ObjectConfig) : List (String × String) :=
  ("Common", "swaggerignore:\"true\" " ++ squashTag) :: (embeddedTypes o).map (·, squashTag)

/-- The line of an embedded type. -/
def embedLine (e : String × String) : String :=
  e.1 ++ " " ++ rawTag e.2

/-- The tag of the field for the name. -/
def stubNameTag : String :=
  "json:\"Name,omitempty\" query:\"name\" gorm:\"not null\" validate:\"required\""

/-- The lines for the name, with the comment above it. -/
def stubNameLines (o : ObjectConfig) : List String :=
  if needsName o then
    ["", s!"// The unique name of the {Text.kebabCase o.name}.", "Name *string " ++ rawTag stubNameTag]
  else []

theorem map_text_stubFields (o : ObjectConfig) :
    (stubFields o).map Line.text = (stubEmbeds o).map embedLine ++ stubNameLines o := by
  cases hneeds : needsName o <;>
    simp [stubFields, stubEmbeds, embedLine, stubNameLines, hneeds, given, rawTag, stubNameTag, Function.comp_def]

/-- The lines of a stub. -/
def stubLines (o : ObjectConfig) : List String :=
  (stubDoc o).map ("// " ++ ·) ++ ("type " ++ o.name ++ " struct" ++ " \x7b") ::
    ((stubEmbeds o).map embedLine ++ stubNameLines o).map indent ++ ["\x7d"]

theorem map_text_objectStub (o : ObjectConfig) : (objectStub o).lines.map Line.text = stubLines o := by
  rw [objectStub, Declaration.lines]
  simp only [block, enclose, List.map_append, List.map_cons, map_text_nest, map_text_stubFields]
  simp [comment, stubDoc, stubLines, Function.comp_def]

/-- The comment at the top of a stub. -/
def stubHeader (g : GroupConfig) : List String :=
  [s!"originally generated by 'threeport-sdk create' for the {g.name} API",
    "object group but will not be regenerated - intended for modification"]

theorem map_text_modelSourceFile (g : GroupConfig) (version : String) :
    (modelSourceFile g version).lines.map Line.text =
      (stubHeader g).map ("// " ++ ·) ++ ["", "package " ++ version] ++
        (g.objects.filter (·.versions.contains version)).flatMap ("" :: stubLines ·) := by
  have hdeclarations (objects : List ObjectConfig) :
      ((objects.map objectStub).flatMap fun d => ("" : Line) :: d.lines).map Line.text =
        objects.flatMap ("" :: stubLines ·) := by
    rw [List.flatMap_map, List.map_flatMap]
    simp only [List.map_cons, Line.text_plain, map_text_objectStub]
  rw [File.lines, List.map_append, List.map_append, List.map_append, modelSourceFile, hdeclarations]
  simp [File.importLines, given, comment, stubHeader]

/-! ### Reading the lines of a stub -/

section Reading

open Source

variable {stop : Position} {n : Nat} {lines : List (List Char)} {ts body : List Token} {comments : List Comment}
  {fields : List Field}

theorem follows_comments {texts : List String} (h : Follows stop (n + texts.length) lines ts comments)
    (htexts : ∀ text ∈ texts, '\n' ∉ text.toList) :
    Follows stop n (texts.map (fun text => ("// " ++ text).toList) ++ lines) ts
      (lineComments (n + 1) (texts.map (" " ++ ·)) ++ comments) := by
  induction texts generalizing n with
  | nil => exact h
  | cons text texts ih =>
      rw [List.forall_mem_cons] at htexts
      rw [List.length_cons, Nat.add_comm _ 1, ← Nat.add_assoc] at h
      have hbody : '\n' ∉ (" " ++ text).toList := by
        simp [htexts.1]
      have htext : ("// " ++ text).toList = [] ++ '/' :: '/' :: (" " ++ text).toList := by
        simp
      rw [List.map_cons, List.map_cons, htext]
      exact (ih h htexts.2).comment false hbody

/-- The names of the fields, and which of them are embedded types. -/
def fieldKeys (fields : List Field) : List (String × Bool) :=
  fields.map fun f => (f.name, f.embedded)

theorem follows_embeds {embeds : List (String × String)} (h : Follows stop (n + embeds.length) lines body comments)
    (hembeds : ∀ e ∈ embeds, isIdentifier e.1 = true ∧ '\x60' ∉ e.2.toList ∧ '\n' ∉ e.2.toList)
    (hbody : ReadsFields stop body fields ts) :
    ∃ body' fields', Follows stop n (embeds.map (fun e => (indent (embedLine e)).toList) ++ lines) body' comments ∧
      ReadsFields stop body' fields' ts ∧
      fieldKeys fields' = embeds.map (fun e => (e.1, true)) ++ fieldKeys fields := by
  induction embeds generalizing n with
  | nil => exact ⟨body, fields, h, hbody, rfl⟩
  | cons e embeds ih =>
      rw [List.forall_mem_cons] at hembeds
      rw [List.length_cons, Nat.add_comm _ 1, ← Nat.add_assoc] at h
      obtain ⟨⟨hname, htag, hline⟩, hembeds⟩ := hembeds
      obtain ⟨body', fields', hfollows, hreads, hkeys⟩ := ih h hembeds
      obtain ⟨value, p₁, p₂, p₃, hfollows'⟩ := follows_embedded hfollows hname htag hline
      have htext : (indent (embedLine e)).toList = ("\t" ++ e.1 ++ " " ++ ("\x60" ++ e.2 ++ "\x60")).toList := by
        simp [indent, embedLine, rawTag]
      refine ⟨_, _, ?_, hreads.embedded e.1 value ("\x60" ++ e.2 ++ "\x60") p₁ p₂ p₃, ?_⟩
      · rw [List.map_cons, htext]
        exact hfollows'
      · rw [fieldKeys, List.map_cons]
        exact congrArg (_ :: ·) hkeys

/-- A name in small letters is no longer than a line. -/
theorem lineless_kebabCase {name : String} (h : isIdentifier name = true) :
    '\n' ∉ (Text.kebabCase name).toList :=
  Text.markless_kebabCase (by decide) (by decide) (lineless_of_isIdentifier h)

theorem follows_stubName {o : ObjectConfig} (hname : isIdentifier o.name = true)
    (h : Follows stop (n + (stubNameLines o).length) lines body comments) (hbody : ReadsFields stop body fields ts) :
    ∃ body' fields' inner,
      Follows stop n ((stubNameLines o).map (fun text => (indent text).toList) ++ lines) body' (inner ++ comments) ∧
      (∀ c ∈ inner, n < c.endLine ∧ c.endLine ≤ n + (stubNameLines o).length) ∧
      ReadsFields stop body' fields' ts ∧
      fieldKeys fields' = (if needsName o then [("Name", false)] else []) ++ fieldKeys fields := by
  rw [stubNameLines] at h ⊢
  cases hneeds : needsName o with
  | false =>
      rw [hneeds] at h
      exact ⟨body, fields, [], h, List.forall_mem_nil _, hbody, rfl⟩
  | true =>
      rw [hneeds] at h
      have hlines : Follows stop (n + 2 + 1) lines body comments := h
      have hname' : isIdentifier "Name" = true := by decide
      have htag : '\x60' ∉ stubNameTag.toList := by decide
      obtain ⟨value, p₁, p₂, p₃, p₄, p₅, hfield⟩ := follows_pointer hlines hname' htag (by decide)
      let comment := s!" The unique name of the {Text.kebabCase o.name}."
      have hcomment : '\n' ∉ comment.toList := by
        simp [comment, toString, lineless_kebabCase hname]
      have hfollows := Follows.blank (Follows.comment (n := n + 1) hfield true hcomment)
      refine ⟨_, _, [⟨.line, comment, n + 2, n + 2, true⟩], ?_, ?_,
        hbody.pointer "Name" value ("\x60" ++ stubNameTag ++ "\x60") p₁ p₂ p₃ p₄ p₅, rfl⟩
      · have htexts : ["", s!"// The unique name of the {Text.kebabCase o.name}.",
            "Name *string " ++ rawTag stubNameTag].map (fun text => (indent text).toList) =
            [[], ['\t'] ++ '/' :: '/' :: comment.toList,
              ("\tName *string " ++ ("\x60" ++ stubNameTag ++ "\x60")).toList] := by
          simp [indent, rawTag, comment, toString]
        rw [if_pos rfl, htexts]
        exact hfollows
      · intro c hc
        rw [List.mem_singleton.mp hc, if_pos rfl]
        simp

/-- The names of the fields of a stub, and which of them are embedded types. -/
def stubFieldKeys (o : ObjectConfig) : List (String × Bool) :=
  ("Common", true) :: (embeddedTypes o).map (·, true) ++ if needsName o then [("Name", false)] else []

theorem mem_embeddedTypes {o : ObjectConfig} {type : String} (h : type ∈ embeddedTypes o) :
    type ∈ ["Reconciliation", "Definition", "Instance"] := by
  unfold embeddedTypes at h
  rcases List.mem_append.mp h with h | h
  · split at h
    · exact List.mem_cons.mpr (Or.inl (List.mem_singleton.mp h))
    · cases h
  · split at h
    · rw [List.mem_singleton.mp h]
      decide
    · split at h
      · rw [List.mem_singleton.mp h]
        decide
      · cases h

theorem stubEmbeds_readable (o : ObjectConfig) : ∀ e ∈ stubEmbeds o,
    isIdentifier e.1 = true ∧ '\x60' ∉ e.2.toList ∧ '\n' ∉ e.2.toList := by
  have htypes : ∀ type ∈ ["Reconciliation", "Definition", "Instance"], isIdentifier type = true := by decide
  intro e he
  rcases List.mem_cons.mp he with rfl | he
  · exact ⟨by decide, by decide, by decide⟩
  · obtain ⟨type, htype, rfl⟩ := List.mem_map.mp he
    have htag : '\x60' ∉ squashTag.toList ∧ '\n' ∉ squashTag.toList := by decide
    exact ⟨htypes type (mem_embeddedTypes htype), htag⟩

/-- A stub in front of other lines is read as a struct with the fields of the stub. The comments inside of it start
below the line that opens it and end above the one that closes it. -/
theorem follows_stub {o : ObjectConfig} (hname : isIdentifier o.name = true)
    (h : Follows stop (n + (stubLines o).length) lines ts comments) :
    ∃ toks inner fields line,
      Follows stop n ((stubLines o).map String.toList ++ lines) toks
        (lineComments (n + 1) ((stubDoc o).map (" " ++ ·)) ++ (inner ++ comments)) ∧
      (∀ c ∈ inner, n + 1 + (stubDoc o).length ≤ c.endLine ∧ c.endLine < n + (stubLines o).length) ∧
      fieldKeys fields = stubFieldKeys o ∧
      ∀ all, declarations all stop toks = (declarations all stop ts).map
        (⟨o.name, line, Marker.scan (docAbove all (n + 1 + (stubDoc o).length)), fields⟩ :: ·) := by
  have hdoc : ∀ text ∈ stubDoc o, '\n' ∉ text.toList := by
    intro text htext
    rcases List.mem_cons.mp htext with rfl | htext
    · simp [toString, lineless_of_isIdentifier hname, lineless_kebabCase hname]
    · obtain ⟨m, -, rfl⟩ := List.mem_map.mp htext
      cases m <;> decide
  have hlength : n + (stubLines o).length =
      n + (stubDoc o).length + 1 + (stubEmbeds o).length + (stubNameLines o).length + 1 := by
    simp only [stubLines, List.length_append, List.length_map, List.length_cons, List.length_nil]
    omega
  have hlines : (stubLines o).map String.toList ++ lines = (stubDoc o).map (fun text => ("// " ++ text).toList) ++
      ("type " ++ o.name ++ " struct \x7b").toList :: ((stubEmbeds o).map (fun e => (indent (embedLine e)).toList) ++
        ((stubNameLines o).map (fun text => (indent text).toList) ++ "\x7d".toList :: lines)) := by
    simp [stubLines, Function.comp_def]
  rw [hlength] at h ⊢
  obtain ⟨p₁, p₂, hclosing⟩ := follows_closing h
  obtain ⟨body, fields, inner, hname', hinner, hbody, hkeys⟩ :=
    follows_stubName hname hclosing (readsFields_closing p₁ p₂ ts)
  obtain ⟨body', fields', hembeds, hbody', hkeys'⟩ := follows_embeds hname' (stubEmbeds_readable o) hbody
  obtain ⟨p₃, p₄, p₅, p₆, hline, hopening⟩ := follows_opening hembeds hname
  have hcomments := follows_comments hopening hdoc
  refine ⟨_, inner, fields', p₄.line, hlines ▸ hcomments, ?_, ?_, ?_⟩
  · intro c hc
    have hbounds := hinner c hc
    omega
  · rw [hkeys', hkeys, stubFieldKeys, stubEmbeds]
    simp [fieldKeys]
  · intro all
    rw [declarations_struct hbody' all o.name, hline, Nat.add_right_comm]

end Reading

/-! ### What a stub is read as -/

open Source (Struct)

/-- The struct says what the configuration of the object says, and that the object is unique by name. -/
structure Mirrors (o : ObjectConfig) (s : Struct) : Prop where
  name : s.name = o.name
  markers : s.markers = o.markers
  reconciledField : s.hasReconciledField = o.reconcilable
  nameField : s.hasNameField = true

/-- Only the sentinels of the markers of an object occur in the comment above its stub: the other line has no colon. -/
theorem scan_stubDoc {o : ObjectConfig} (hname : Source.isIdentifier o.name = true) :
    Marker.scan ("\n".intercalate ((stubDoc o).map (" " ++ ·))) = o.markers := by
  have hsentinel : ∀ m m' : Marker,
      Source.occursIn m.sentinel.toList (" " ++ ("+" ++ m'.sentinel)).toList = decide (m = m') := by
    intro m m'
    cases m <;> cases m' <;> decide
  have hcolon : ':' ∉ o.name.toList := Source.not_mem_of_isIdentifier (by decide) (by decide) hname
  have hfirst : ∀ m : Marker, ¬Source.occursIn m.sentinel.toList
      (" " ++ s!"{o.name} is a {Text.kebabCase o.name} managed by threeport.").toList = true := by
    intro m hoccurs
    have hmem : ':' ∈ m.sentinel.toList := by cases m <;> decide
    have hline := (Source.occursIn_iff.mp hoccurs).mem hmem
    have hkebab := Text.markless_kebabCase (by decide) (by decide) hcolon
    simp [toString, hcolon, hkebab] at hline
  rw [Marker.scan, ObjectConfig.markers]
  apply List.filter_congr
  intro m hm
  rw [Bool.eq_iff_iff, Marker.occursIn_doc_iff, stubDoc, List.map_cons, List.exists_mem_cons_iff, or_iff_right (hfirst m), List.map_map]
  constructor
  · rintro ⟨text, htext, hoccurs⟩
    obtain ⟨m', hm', rfl⟩ := List.mem_map.mp htext
    rw [Function.comp_apply, hsentinel, decide_eq_true_eq] at hoccurs
    rw [hoccurs]
    exact (List.mem_filter.mp hm').2
  · intro hflagged
    refine ⟨_, List.mem_map.mpr ⟨m, List.mem_filter.mpr ⟨hm, hflagged⟩, rfl⟩, ?_⟩
    rw [Function.comp_apply, hsentinel]
    exact decide_eq_true rfl

theorem mirrors_of_fieldKeys {o : ObjectConfig} {s : Struct} (hname : s.name = o.name) (hmarkers : s.markers = o.markers)
    (hkeys : fieldKeys s.fields = stubFieldKeys o) : Mirrors o s := by
  have hreconciled : s.hasReconciledField = (fieldKeys s.fields).any fun key =>
      key.1 == Source.reconciledFieldName || key.2 && key.1 == Source.reconciliationType := by
    rw [Struct.hasReconciledField, fieldKeys, List.any_map]
    rfl
  have hnaming : s.namingFields = ((fieldKeys s.fields).map Prod.fst).filter Source.nameFields.contains := by
    rw [Struct.namingFields, fieldKeys, List.map_map]
    rfl
  refine ⟨hname, hmarkers, ?_, ?_⟩
  · rw [hreconciled, hkeys, stubFieldKeys, embeddedTypes, needsName]
    cases o.reconcilable <;> cases ApiObject.isDefinition o.name <;> cases ApiObject.isInstance o.name <;> decide
  · rw [Struct.hasNameField, hnaming, hkeys, stubFieldKeys, embeddedTypes, needsName]
    cases o.reconcilable <;> cases ApiObject.isDefinition o.name <;> cases ApiObject.isInstance o.name <;> decide

section Files

open Source

/-- The stubs behind line `n` are read as structs that mirror their objects, whatever comments end above line `n`. -/
theorem follows_stubs (stop : Position) {objects : List ObjectConfig}
    (hnames : ∀ o ∈ objects, isIdentifier o.name = true) (n : Nat) :
    ∃ toks comments, Follows stop n ((objects.flatMap ("" :: stubLines ·)).map String.toList) toks comments ∧
      (∀ c ∈ comments, n < c.endLine) ∧
      ∀ before : List Comment, (∀ c ∈ before, c.endLine ≤ n) →
        ∃ structs, declarations (before ++ comments) stop toks = .ok structs ∧ List.Forall₂ Mirrors objects structs := by
  induction objects generalizing n with
  | nil =>
      exact ⟨[], [], follows_nil, List.forall_mem_nil _, fun before _ => ⟨[], declarations_nil rfl, List.Forall₂.nil⟩⟩
  | cons o objects ih =>
      rw [List.forall_mem_cons] at hnames
      obtain ⟨toks, comments, hfollows, hcomments, hdeclarations⟩ := ih hnames.2 (n + 1 + (stubLines o).length)
      obtain ⟨toks', inner, fields, line, hstub, hinner, hkeys, hstruct⟩ := follows_stub hnames.1 hfollows
      have hlength : (stubDoc o).length < (stubLines o).length := by
        simp only [stubLines, List.length_append, List.length_map, List.length_cons]
        omega
      let doc := (stubDoc o).map (" " ++ ·)
      have hdoc : doc.length = (stubDoc o).length := List.length_map _
      have hdocs : ∀ c ∈ lineComments (n + 1 + 1) doc, n < c.endLine ∧ c.endLine ≤ n + 1 + (stubLines o).length := by
        intro c hc
        have hbounds := line_of_mem_lineComments hc
        omega
      refine ⟨toks', lineComments (n + 1 + 1) doc ++ (inner ++ comments), ?_, ?_, fun before hbefore => ?_⟩
      · rw [List.flatMap_cons, List.map_append, List.map_cons]
        exact hstub.blank
      · rw [List.forall_mem_append, List.forall_mem_append]
        exact ⟨fun c hc => (hdocs c hc).1, fun c hc => by have := hinner c hc; omega,
          fun c hc => by have := hcomments c hc; omega⟩
      · obtain ⟨structs, hstructs, hmirrors⟩ := hdeclarations (before ++ (lineComments (n + 1 + 1) doc ++ inner)) (by
          rw [List.forall_mem_append, List.forall_mem_append]
          exact ⟨fun c hc => by have := hbefore c hc; omega, fun c hc => (hdocs c hc).2,
            fun c hc => by have := hinner c hc; omega⟩)
        have habove : docAbove (before ++ (lineComments (n + 1 + 1) doc ++ (inner ++ comments)))
            (n + 1 + 1 + (stubDoc o).length) = "\n".intercalate doc := by
          rw [← hdoc, ← List.append_assoc]
          apply docAbove_append
          · exact fun c hc => Nat.lt_succ_of_le (hbefore c hc)
          · rw [List.forall_mem_append]
            exact ⟨fun c hc => by have := hinner c hc; omega, fun c hc => by have := hcomments c hc; omega⟩
        rw [List.append_assoc, List.append_assoc] at hstructs
        refine ⟨_, by rw [hstruct, hstructs]; rfl, List.Forall₂.cons (mirrors_of_fieldKeys rfl ?_ hkeys) hmirrors⟩
        rw [habove]
        exact scan_stubDoc hnames.1

/-- A version is a word, and no keyword has a digit for its second letter. -/
theorem isIdentifier_of_isValid {version : String} (h : Version.isValid version = true) :
    isIdentifier version = true := by
  have halphanum {c : Char} (hc : Version.isSuffixPart c = true) : c.isAlphanum = true := by
    simp only [Version.isSuffixPart, Version.isSuffixStart, Bool.or_eq_true, Bool.and_eq_true, decide_eq_true_eq] at hc
    simp only [Char.isAlphanum, Char.isAlpha, Char.isLower, Bool.or_eq_true, Bool.and_eq_true, decide_eq_true_eq]
    exact hc.imp (fun hletter => Or.inr hletter) id
  have hpart {c : Char} (hc : c.isAlphanum = true) : isIdentifierPart c = true := by
    rw [isIdentifierPart, Text.isLetterOrNumber, if_pos (Text.toNat_lt_of_isAlphanum hc), hc, Bool.or_true]
  obtain ⟨d, rest, hchars, hd, hrest⟩ := Version.chars_of_isValid h
  have hword : isWord version = true := by
    rw [isWord, hchars]
    dsimp only
    rw [Bool.and_eq_true, List.all_eq_true, List.forall_mem_cons]
    refine ⟨by decide, hpart (by rw [Char.isAlphanum, hd, Bool.or_true]), fun c hc => hpart (halphanum (hrest c hc))⟩
  have hkeyword : version ∉ keywords := by
    intro hmem
    have hsecond : ∀ keyword ∈ keywords, (keyword.toList[1]?).all (!·.isDigit) = true := by decide
    have hdigit := hsecond version hmem
    rw [hchars] at hdigit
    simp [hd] at hdigit
  rw [isIdentifier, hword, List.contains_eq_mem, decide_eq_false hkeyword]
  rfl

theorem parseSource_stub {g : GroupConfig} {version : String} (hversion : Version.isValid version = true)
    (hgroup : '\n' ∉ g.name.toList) (hnames : ∀ o ∈ g.objects, isIdentifier o.name = true) (path : String) :
    ∃ file, parseSource path (modelSourceFile g version).text = .ok file ∧ file.package = version ∧
      List.Forall₂ Mirrors (g.objects.filter (·.versions.contains version)) file.structs := by
  have hheader : ∀ text ∈ stubHeader g, '\n' ∉ text.toList := by
    simp [stubHeader, toString, hgroup]
  obtain ⟨toks, comments, hstubs, -, hdeclarations⟩ := follows_stubs
    (Position.start.advance (modelSourceFile g version).text.toList)
    (fun o ho => hnames o (List.mem_of_mem_filter ho)) 4
  obtain ⟨p₁, p₂, p₃, hpackage⟩ := follows_package hstubs (isIdentifier_of_isValid hversion)
  have hblank : Follows _ (0 + (stubHeader g).length) _ _ _ := hpackage.blank
  have hfollows := follows_comments hblank hheader
  have htext : (modelSourceFile g version).text.toList = ['\n'].intercalate
      ((stubHeader g).map (fun text => ("// " ++ text).toList) ++ [] :: ("package " ++ version).toList ::
        ((g.objects.filter (·.versions.contains version)).flatMap ("" :: stubLines ·)).map String.toList) := by
    rw [File.text, Code.text, String.toList_intercalate, map_text_modelSourceFile]
    simp [Function.comp_def]
  have htokens := tokenize_of_follows htext hfollows
  have hbefore : ∀ c ∈ lineComments (0 + 1) ((stubHeader g).map (" " ++ ·)), c.endLine ≤ 4 := by
    intro c hc
    have hbounds := line_of_mem_lineComments hc
    have hlength : ((stubHeader g).map (" " ++ ·)).length = 2 := rfl
    omega
  obtain ⟨structs, hstructs, hmirrors⟩ := hdeclarations _ hbefore
  refine ⟨⟨path, version, structs⟩, ?_, rfl, hmirrors⟩
  rw [parseSource, htokens]
  show (declarations _ _ toks >>= fun structs => _) = _
  rw [hstructs]
  rfl

end Files

end Generated

end ApiForge
