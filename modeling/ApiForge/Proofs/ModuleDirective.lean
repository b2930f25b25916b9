import ApiForge.Proofs.Encoding
import ApiForge.Proofs.Lexemes
import ApiForge.Workspace
import Mathlib

/-! The module that a module file declares. In a text with one line that starts with the word `module`, that line is
found whatever the others are, and its path is what is found, unless a comment follows it: then the path is never found. -/

namespace ApiForge

open Source (EndsLine endsLine_nil endsLine_cons takeWhile_append_of_head)

/-! ### Lines -/

/-- The lines of a text, without the line ends between them. -/
def textLines (text : String) : List (List Char) :=
  text.toList.splitOn '\n'

section Lines

variable {line : List Char}

theorem lineless_of_mem_splitOn {cs : List Char} (h : line ∈ cs.splitOn '\n') : '\n' ∉ line := by
  induction cs generalizing line with
  | nil =>
      rw [List.splitOn, List.splitOnP_nil, List.mem_singleton] at h
      rw [h]
      exact List.not_mem_nil
  | cons c cs ih =>
      rw [List.splitOn, List.splitOnP_cons_eq_if_modifyHead] at h
      rw [List.splitOn] at ih
      split_ifs at h with hc
      · rcases List.mem_cons.mp h with rfl | h
        · exact List.not_mem_nil
        · exact ih h
      · cases hlines : cs.splitOnP (· == '\n') with
        | nil =>
            rw [hlines] at h
            cases h
        | cons first lines =>
            rw [hlines] at h ih
            rcases List.mem_cons.mp h with rfl | h
            · rw [beq_iff_eq] at hc
              exact fun hmem => (List.mem_cons.mp hmem).elim (fun heq => hc heq.symm) (ih List.mem_cons_self)
            · exact ih (List.mem_cons_of_mem _ h)

theorem lineStarts_lineless (h : '\n' ∉ line) : lineStarts line = [] := by
  induction line with
  | nil => rfl
  | cons c cs ih =>
      rw [List.mem_cons, not_or] at h
      rw [lineStarts, if_neg (Ne.symm h.1), ih h.2]

theorem lineStarts_append (h : '\n' ∉ line) (rest : List Char) :
    lineStarts (line ++ '\n' :: rest) = rest :: lineStarts rest := by
  induction line with
  | nil => rw [List.nil_append, lineStarts, if_pos rfl]
  | cons c cs ih =>
      rw [List.mem_cons, not_or] at h
      rw [List.cons_append, lineStarts, if_neg (Ne.symm h.1), ih h.2]

end Lines

/-! ### Lines that are no directive -/

def moduleWord : List Char :=
  ['m', 'o', 'd', 'u', 'l', 'e']

/-- Behind blanks, the line starts with the word `module`. -/
def startsModule (line : List Char) : Bool :=
  (afterModuleWord? (line.dropWhile Text.isBlank)).any fun rest => rest.head?.all Text.isBlank

section Others

variable {line rest : List Char}

theorem afterModuleWord?_eq_some_iff {cs : List Char} : afterModuleWord? cs = some rest ↔ cs = moduleWord ++ rest := by
  unfold afterModuleWord?
  split
  · simp [moduleWord]
  · rename_i hother
    constructor
    · intro h
      cases h
    · exact fun h => absurd h (hother rest)

/-- The word is not spread over two lines. -/
theorem afterModuleWord?_append (hrest : EndsLine rest) :
    afterModuleWord? (line ++ rest) = (afterModuleWord? line).map (· ++ rest) := by
  apply Option.ext
  intro behind
  rw [afterModuleWord?_eq_some_iff, Option.map_eq_some_iff]
  constructor
  · intro h
    rcases List.append_eq_append_iff.mp h with ⟨front, hword, hbehind⟩ | ⟨tail, hline, htail⟩
    · cases front with
      | nil =>
          rw [List.append_nil] at hword
          exact ⟨[], by rw [afterModuleWord?_eq_some_iff, hword, List.append_nil], hbehind⟩
      | cons c front =>
          have hbreak : c = '\n' := hrest c (by rw [hbehind]; rfl)
          have hmem : '\n' ∈ moduleWord := by
            rw [hword, hbreak]
            exact List.mem_append_right _ List.mem_cons_self
          exact absurd hmem (by decide)
    · exact ⟨tail, afterModuleWord?_eq_some_iff.mpr hline, htail.symm⟩
  · rintro ⟨tail, htail, rfl⟩
    rw [afterModuleWord?_eq_some_iff.mp htail, List.append_assoc]

theorem directiveAt?_other (h : startsModule line = false) (hline : line.dropWhile Text.isBlank ≠ [])
    (hrest : EndsLine rest) : directiveAt? (line ++ rest) = none := by
  have hdrop : (line ++ rest).dropWhile Text.isBlank = line.dropWhile Text.isBlank ++ rest := by
    rw [List.dropWhile_append, if_neg (by rwa [List.isEmpty_iff])]
  rw [directiveAt?, hdrop, afterModuleWord?_append hrest]
  rw [startsModule] at h
  cases hword : afterModuleWord? (line.dropWhile Text.isBlank) with
  | none => rfl
  | some behind =>
      rw [hword, Option.any_some] at h
      cases behind with
      | nil => cases h
      | cons c behind =>
          have hc : Text.isBlank c = false := h
          simp [hc]

theorem directiveAt?_congr {cs cs' : List Char} (h : cs.dropWhile Text.isBlank = cs'.dropWhile Text.isBlank) :
    directiveAt? cs = directiveAt? cs' := by
  rw [directiveAt?, directiveAt?, h]

end Others

/-! ### The first directive -/

/-- The path of the first directive among the lines of `cs`. -/
def firstDirective? (cs : List Char) : Option String :=
  (cs :: lineStarts cs).findSome? directiveAt?

section First

variable {line rest : List Char} {lines before : List (List Char)}

theorem firstDirective?_line (h : '\n' ∉ line) : firstDirective? line = directiveAt? line := by
  rw [firstDirective?, lineStarts_lineless h, List.findSome?_singleton]

theorem firstDirective?_append (h : '\n' ∉ line) (rest : List Char) :
    firstDirective? (line ++ '\n' :: rest) = (directiveAt? (line ++ '\n' :: rest)).or (firstDirective? rest) := by
  rw [firstDirective?, lineStarts_append h, List.findSome?_cons, firstDirective?]
  cases directiveAt? (line ++ '\n' :: rest) <;> rfl

/-- A line of blanks only is passed over on the way to the next line, and any other line gives nothing. -/
theorem firstDirective?_other (h : '\n' ∉ line) (hother : startsModule line = false) (rest : List Char) :
    firstDirective? (line ++ '\n' :: rest) = firstDirective? rest := by
  rw [firstDirective?_append h]
  by_cases hblank : line.dropWhile Text.isBlank = []
  · have hdrop : (line ++ '\n' :: rest).dropWhile Text.isBlank = rest.dropWhile Text.isBlank := by
      rw [List.dropWhile_append, hblank, if_pos List.isEmpty_nil, List.dropWhile_cons_of_pos (by decide)]
    rw [directiveAt?_congr hdrop, firstDirective?, List.findSome?_cons]
    cases directiveAt? rest <;> rfl
  · rw [directiveAt?_other hother hblank (endsLine_cons rest), Option.none_or]

theorem directiveAt?_line (hother : startsModule line = false) : directiveAt? line = none := by
  by_cases hblank : line.dropWhile Text.isBlank = []
  · have hdrop : line.dropWhile Text.isBlank = [].dropWhile Text.isBlank := by rw [hblank, List.dropWhile_nil]
    exact directiveAt?_congr hdrop
  · have hnone := directiveAt?_other hother hblank endsLine_nil
    rwa [List.append_nil] at hnone

/-- Lines in front that are no directive make no difference. -/
theorem firstDirective?_behind (hbefore : ∀ line ∈ before, '\n' ∉ line ∧ startsModule line = false)
    (hlines : lines ≠ []) :
    firstDirective? (['\n'].intercalate (before ++ lines)) = firstDirective? (['\n'].intercalate lines) := by
  induction before with
  | nil => rw [List.nil_append]
  | cons line before ih =>
      rw [List.forall_mem_cons] at hbefore
      obtain ⟨next, more, hmore⟩ := List.exists_cons_of_ne_nil (List.append_ne_nil_of_right_ne_nil before hlines)
      rw [List.cons_append, hmore, List.intercalate_cons_cons, List.append_assoc, List.singleton_append,
        firstDirective?_other hbefore.1.1 hbefore.1.2, ← hmore, ih hbefore.2]

theorem firstDirective?_none (hlines : ∀ line ∈ lines, '\n' ∉ line ∧ startsModule line = false) :
    firstDirective? (['\n'].intercalate lines) = none := by
  induction lines with
  | nil => rfl
  | cons line lines ih =>
      rw [List.forall_mem_cons] at hlines
      cases lines with
      | nil => rw [List.intercalate_singleton, firstDirective?_line hlines.1.1, directiveAt?_line hlines.1.2]
      | cons next lines =>
          rw [List.intercalate_cons_cons, List.append_assoc, List.singleton_append,
            firstDirective?_other hlines.1.1 hlines.1.2, ih hlines.2]

/-- What is found of a line among others that are no directives is what is found at its place. -/
theorem firstDirective?_among (hline : '\n' ∉ line) (hbefore : ∀ line ∈ before, '\n' ∉ line ∧ startsModule line = false)
    (hafter : ∀ line ∈ lines, '\n' ∉ line ∧ startsModule line = false) :
    ∃ rest, EndsLine rest ∧ firstDirective? (['\n'].intercalate (before ++ line :: lines)) = directiveAt? (line ++ rest) := by
  rw [firstDirective?_behind hbefore (List.cons_ne_nil _ _)]
  cases lines with
  | nil =>
      refine ⟨[], endsLine_nil, ?_⟩
      rw [List.intercalate_singleton, firstDirective?_line hline, List.append_nil]
  | cons next lines =>
      refine ⟨'\n' :: ['\n'].intercalate (next :: lines), endsLine_cons _, ?_⟩
      rw [List.intercalate_cons_cons, List.append_assoc, List.singleton_append, firstDirective?_append hline,
        firstDirective?_none hafter, Option.or_none]

end First

/-! ### Directives -/

/-- A blank in a line. -/
def isLineBlank (c : Char) : Bool :=
  Text.isBlank c && c != '\n'

/-- A line with a directive: the word, blanks, the path as it is or in quotation marks, and perhaps a comment, with blanks
wherever there may be some. -/
structure DirectiveLine where
  indent : List Char
  gap : List Char
  path : String
  quoted : Bool
  behind : List Char
  /-- What stands behind the slashes of the comment. -/
  comment : Option String
  indent_blank : ∀ c ∈ indent, isLineBlank c = true
  gap_blank : ∀ c ∈ gap, isLineBlank c = true
  gap_ne_nil : gap ≠ []
  path_plain : ∀ c ∈ path.toList, isModulePathChar c = true
  path_ne_empty : path ≠ ""
  behind_blank : ∀ c ∈ behind, isLineBlank c = true

namespace DirectiveLine

def commentChars (d : DirectiveLine) : List Char :=
  d.comment.elim [] fun text => '/' :: '/' :: text.toList

/-- What stands behind the path, a quotation mark first if the path is in them. -/
def closing (d : DirectiveLine) : List Char :=
  (if d.quoted then ['"'] else []) ++ (d.behind ++ d.commentChars)

def chars (d : DirectiveLine) : List Char :=
  d.indent ++ (moduleWord ++ (d.gap ++ ((if d.quoted then ['"'] else []) ++ (d.path.toList ++ d.closing))))

/-- The comment starts right behind a path that no quotation mark ends. -/
def Glued (d : DirectiveLine) : Prop :=
  d.quoted = false ∧ d.behind = []

end DirectiveLine

/-- What is found out from a path and what follows it. -/
def pathAt? (cs : List Char) : Option String :=
  if cs.takeWhile isModulePathChar != [] && endsLine (dropQuote (cs.dropWhile isModulePathChar)) then
    some (String.ofList (cs.takeWhile isModulePathChar))
  else none

section Directives

variable {rest : List Char}

theorem isBlank_of_isLineBlank {c : Char} (h : isLineBlank c = true) : Text.isBlank c = true :=
  (Bool.and_eq_true _ _ ▸ h).1

theorem dropWhile_append_of_head {p : Char → Bool} {front : List Char} (hfront : ∀ c ∈ front, p c = true)
    (hrest : ∀ c ∈ rest.head?, p c = false) : (front ++ rest).dropWhile p = rest := by
  rw [List.dropWhile_append_of_pos hfront]
  cases rest with
  | nil => rfl
  | cons c rest => exact List.dropWhile_cons_of_neg (Bool.not_eq_true _ ▸ hrest c rfl)

theorem directiveAt?_module {indent gap : List Char} (hindent : ∀ c ∈ indent, Text.isBlank c = true)
    (hgap : ∀ c ∈ gap, Text.isBlank c = true) (hne : gap ≠ []) (hrest : ∀ c ∈ rest.head?, Text.isBlank c = false) :
    directiveAt? (indent ++ (moduleWord ++ (gap ++ rest))) = pathAt? (dropQuote rest) := by
  have hword : (indent ++ (moduleWord ++ (gap ++ rest))).dropWhile Text.isBlank = moduleWord ++ (gap ++ rest) := by
    rw [List.dropWhile_append_of_pos hindent]
    exact List.dropWhile_cons_of_neg (by decide)
  have hdrop : (gap ++ rest).dropWhile Text.isBlank = rest := dropWhile_append_of_head hgap hrest
  obtain ⟨c, gap, rfl⟩ := List.exists_cons_of_ne_nil hne
  have hhead : (c :: gap ++ rest).head?.any Text.isBlank = true := hgap c List.mem_cons_self
  rw [directiveAt?, hword, afterModuleWord?_eq_some_iff.mpr rfl, pathAt?]
  simp only [Option.bind_eq_bind, Option.bind_some, hdrop, hhead, Bool.true_and]

theorem pathAt?_append {path : List Char} (hpath : ∀ c ∈ path, isModulePathChar c = true) (hne : path ≠ [])
    (hrest : ∀ c ∈ rest.head?, isModulePathChar c = false) :
    pathAt? (path ++ rest) = if endsLine (dropQuote rest) then some (String.ofList path) else none := by
  rw [pathAt?, takeWhile_append_of_head hpath hrest, dropWhile_append_of_head hpath hrest, bne_iff_ne.mpr hne,
    Bool.true_and]

theorem pathAt?_eq_some {cs : List Char} {path : String} (h : pathAt? cs = some path) :
    path = String.ofList (cs.takeWhile isModulePathChar) := by
  unfold pathAt? at h
  split_ifs at h
  exact (Option.some.inj h).symm

theorem endsLine_append {behind : List Char} (hbehind : ∀ c ∈ behind, isLineBlank c = true) (hrest : EndsLine rest) :
    endsLine (behind ++ rest) = true := by
  have hblank : ∀ c ∈ behind, Text.isBlank c = true := fun c hc => isBlank_of_isLineBlank (hbehind c hc)
  rw [endsLine, List.takeWhile_append_of_pos hblank]
  cases rest with
  | nil => simp
  | cons c rest =>
      obtain rfl : c = '\n' := hrest c rfl
      simp [List.takeWhile_cons_of_pos (show Text.isBlank '\n' = true by decide)]

theorem endsLine_comment {behind : List Char} (hbehind : ∀ c ∈ behind, isLineBlank c = true) (text : List Char) :
    endsLine (behind ++ '/' :: text) = false := by
  have hblank : ∀ c ∈ behind, Text.isBlank c = true := fun c hc => isBlank_of_isLineBlank (hbehind c hc)
  have hbreak : '\n' ∉ behind := fun hmem => absurd (hbehind _ hmem) (by decide)
  rw [endsLine, List.takeWhile_append_of_pos hblank, List.takeWhile_cons_of_neg (by decide), List.append_nil]
  simp [hbreak]

theorem isModulePathChar_of_isBlank {c : Char} (h : Text.isBlank c = true) : isModulePathChar c = false := by
  rw [isModulePathChar, h, Bool.not_true, Bool.and_false]

theorem dropQuote_of_head {cs : List Char} (h : '"' ∉ cs.head?) : dropQuote cs = cs := by
  unfold dropQuote
  split
  · exact absurd rfl h
  · rfl

end Directives

namespace DirectiveLine

variable {d : DirectiveLine} {rest : List Char}

theorem path_chars_ne_nil (d : DirectiveLine) : d.path.toList ≠ [] :=
  fun h => d.path_ne_empty (String.toList_eq_nil_iff.mp h)

/-- The directive is read up to its path, without the quotation mark in front of it. -/
theorem directiveAt?_chars (d : DirectiveLine) (rest : List Char) :
    directiveAt? (d.chars ++ rest) = pathAt? (d.path.toList ++ (d.closing ++ rest)) := by
  obtain ⟨c, cs, hpath⟩ := List.exists_cons_of_ne_nil d.path_chars_ne_nil
  have hc : isModulePathChar c = true := d.path_plain c (hpath ▸ List.mem_cons_self)
  rw [isModulePathChar, Bool.and_eq_true, bne_iff_ne, Bool.not_eq_true'] at hc
  have hindent : ∀ c ∈ d.indent, Text.isBlank c = true := fun c hc => isBlank_of_isLineBlank (d.indent_blank c hc)
  have hgap : ∀ c ∈ d.gap, Text.isBlank c = true := fun c hc => isBlank_of_isLineBlank (d.gap_blank c hc)
  simp only [chars, List.append_assoc]
  cases d.quoted with
  | true =>
      rw [directiveAt?_module hindent hgap d.gap_ne_nil]
      · rfl
      · rintro _ ⟨⟩
        decide
  | false =>
      rw [directiveAt?_module hindent hgap d.gap_ne_nil]
      · rw [hpath]
        exact congrArg pathAt? (dropQuote_of_head fun h => hc.1 (Option.some.inj h))
      · rw [hpath]
        rintro _ ⟨⟩
        exact hc.2

/-- Behind the quotation mark that ends the path there is no other one. -/
theorem dropQuote_closing (d : DirectiveLine) (hrest : EndsLine rest) :
    dropQuote (d.closing ++ rest) = d.behind ++ (d.commentChars ++ rest) := by
  have hhead : '"' ∉ (d.behind ++ (d.commentChars ++ rest)).head? := by
    cases hbehind : d.behind with
    | cons c cs =>
        rintro ⟨⟩
        exact absurd (d.behind_blank '"' (hbehind ▸ List.mem_cons_self)) (by decide)
    | nil =>
        rw [List.nil_append, commentChars]
        cases d.comment with
        | some text => exact fun h => absurd (Option.some.inj h) (by decide)
        | none => exact fun h => absurd (hrest '"' h) (by decide)
  rw [closing, List.append_assoc, List.append_assoc]
  cases d.quoted with
  | true => rfl
  | false => exact dropQuote_of_head hhead

/-- The path ends where the directive says, unless a comment is glued to it. -/
theorem head_closing (h : d.comment = none ∨ ¬d.Glued) (hrest : EndsLine rest) :
    ∀ c ∈ (d.closing ++ rest).head?, isModulePathChar c = false := by
  rw [closing, List.append_assoc, List.append_assoc]
  cases hquoted : d.quoted with
  | true =>
      rintro _ ⟨⟩
      decide
  | false =>
      cases hbehind : d.behind with
      | cons c cs =>
          rintro _ ⟨⟩
          exact isModulePathChar_of_isBlank (isBlank_of_isLineBlank (d.behind_blank c (hbehind ▸ List.mem_cons_self)))
      | nil =>
          rw [commentChars, h.resolve_right fun hapart => hapart ⟨hquoted, hbehind⟩]
          intro c hc
          rw [hrest c hc]
          decide

theorem directiveAt?_apart (h : d.comment = none ∨ ¬d.Glued) (hrest : EndsLine rest) :
    directiveAt? (d.chars ++ rest) = if d.comment = none then some d.path else none := by
  rw [directiveAt?_chars, pathAt?_append d.path_plain d.path_chars_ne_nil (head_closing h hrest),
    dropQuote_closing d hrest, String.ofList_toList, commentChars]
  cases d.comment with
  | none =>
      rw [Option.elim_none, List.nil_append, endsLine_append d.behind_blank hrest]
      rfl
  | some text =>
      rw [Option.elim_some, List.cons_append, endsLine_comment d.behind_blank]
      rfl

/-- A comment that is glued to the path is taken for a part of it. -/
theorem directiveAt?_glued {text : String} (hcomment : d.comment = some text) (hglued : d.Glued) {path : String}
    (h : directiveAt? (d.chars ++ rest) = some path) : ∃ more, path = d.path ++ "//" ++ more := by
  rw [directiveAt?_chars, closing, commentChars, hcomment, hglued.1, hglued.2] at h
  have hpath := pathAt?_eq_some h
  rw [List.takeWhile_append_of_pos d.path_plain] at hpath
  refine ⟨String.ofList ((text.toList ++ rest).takeWhile isModulePathChar), ?_⟩
  rw [hpath, ← String.toList_inj]
  simp [show isModulePathChar '/' = true by decide]

end DirectiveLine

/-! ### Texts -/

/-- Of the lines of the text, this one is a directive, and no other one starts with the word. -/
def Declares (text : String) (d : DirectiveLine) : Prop :=
  ∃ before after, textLines text = before ++ d.chars :: after ∧ ∀ line ∈ before ++ after, startsModule line = false

section Texts

variable {text : String} {d : DirectiveLine}

theorem moduleDirective?_eq (text : String) :
    moduleDirective? text = firstDirective? (['\n'].intercalate (textLines text)) := by
  rw [textLines, List.intercalate_splitOn]
  rfl

theorem moduleDirective?_of_others (h : ∀ line ∈ textLines text, startsModule line = false) :
    moduleDirective? text = none := by
  rw [moduleDirective?_eq]
  exact firstDirective?_none fun line hline => ⟨lineless_of_mem_splitOn hline, h line hline⟩

/-- The other lines do not count. -/
theorem Declares.found (h : Declares text d) :
    ∃ rest, EndsLine rest ∧ moduleDirective? text = directiveAt? (d.chars ++ rest) := by
  obtain ⟨before, after, hlines, hothers⟩ := h
  have hlineless : ∀ line ∈ before ++ d.chars :: after, '\n' ∉ line :=
    fun line hline => lineless_of_mem_splitOn (hlines ▸ hline)
  rw [List.forall_mem_append, List.forall_mem_cons] at hlineless
  rw [List.forall_mem_append] at hothers
  rw [moduleDirective?_eq, hlines]
  exact firstDirective?_among hlineless.2.1 (fun line hline => ⟨hlineless.1 line hline, hothers.1 line hline⟩)
    fun line hline => ⟨hlineless.2.2 line hline, hothers.2 line hline⟩

end Texts

/-! ### Projects -/

/-- The module file at the root of the project says this. -/
def Files.Tree.Says (t : Files.Tree) (root text : String) : Prop :=
  t.readText (Path.join root "go.mod") = .ok text

section Projects

variable {t : Files.Tree} {root text : String}

theorem detectProject_some (h : t.Says root text) {path : String} (hpath : moduleDirective? text = some path) :
    Workspace.detectProject t root none = .ok (.ofModule root path) := by
  rw [Workspace.detectProject, h]
  dsimp only
  rw [hpath]

theorem detectProject_none (h : t.Says root text) (hnone : moduleDirective? text = none) :
    Workspace.detectProject t root none = failWith (.noModuleDirective (Path.join root "go.mod")) := by
  rw [Workspace.detectProject, h]
  dsimp only
  rw [hnone]

theorem ofModule_eq_base_iff {path : String} : Project.ofModule root path = ⟨root, .base⟩ ↔ path = baseModule := by
  rw [Project.ofModule, Project.mk.injEq, eq_self_iff_true, true_and]
  split_ifs with hpath
  · simp [hpath]
  · simp [hpath]

theorem detectProject_base_iff (h : t.Says root text) :
    Workspace.detectProject t root none = .ok ⟨root, .base⟩ ↔ moduleDirective? text = some baseModule := by
  cases hfound : moduleDirective? text with
  | none =>
      rw [detectProject_none h hfound]
      constructor
      · intro hok
        cases hok
      · intro hsome
        cases hsome
  | some path =>
      rw [detectProject_some h hfound, Except.ok.injEq, ofModule_eq_base_iff, Option.some.injEq]

/-- The base module has no two slashes in a row. -/
theorem baseModule_ne_glued (path more : String) : baseModule ≠ path ++ "//" ++ more := by
  intro heq
  have hinfix : ['/', '/'] <:+: baseModule.toList :=
    ⟨path.toList, more.toList, by rw [heq, String.toList_append, String.toList_append]; rfl⟩
  exact absurd hinfix (by decide)

end Projects

/-- What is made of the directive in the text: its path if nothing follows it, and never its path if a comment does. The
project is the base project just if the directive names the base module without a comment. -/
structure DirectiveLine.Found (d : DirectiveLine) (text : String) : Prop where
  plain : d.comment = none → moduleDirective? text = some d.path
  apart : d.comment ≠ none → ¬d.Glued → moduleDirective? text = none
  glued : d.comment ≠ none → ∀ path ∈ moduleDirective? text, ∃ more, path = d.path ++ "//" ++ more
  detected : ∀ t root, Files.Tree.Says t root text → d.comment = none →
    Workspace.detectProject t root none = .ok (.ofModule root d.path)
  refused : ∀ t root, Files.Tree.Says t root text → d.comment ≠ none → ¬d.Glued →
    Workspace.detectProject t root none = failWith (.noModuleDirective (Path.join root "go.mod"))
  base : ∀ t root, Files.Tree.Says t root text →
    (Workspace.detectProject t root none = .ok ⟨root, .base⟩ ↔ d.comment = none ∧ d.path = baseModule)

/-- Whatever stands in the other lines, a directive without a comment gives its path, and one with a comment does not; and
without a line that starts with the word there is nothing to be found. -/
theorem module_directive_exact (text : String) :
    (∀ d, Declares text d → d.Found text) ∧
      ((∀ line ∈ textLines text, startsModule line = false) → moduleDirective? text = none ∧
        ∀ t root, Files.Tree.Says t root text →
          Workspace.detectProject t root none = failWith (.noModuleDirective (Path.join root "go.mod"))) := by
  refine ⟨fun d hd => ?_, fun hothers => ?_⟩
  · obtain ⟨rest, hrest, hfound⟩ := hd.found
    have hplain (hcomment : d.comment = none) : moduleDirective? text = some d.path := by
      rw [hfound, DirectiveLine.directiveAt?_apart (.inl hcomment) hrest, if_pos hcomment]
    have hapart (hcomment : d.comment ≠ none) (hapart : ¬d.Glued) : moduleDirective? text = none := by
      rw [hfound, DirectiveLine.directiveAt?_apart (.inr hapart) hrest, if_neg hcomment]
    have hglued (hcomment : d.comment ≠ none) (path : String) (hpath : path ∈ moduleDirective? text) :
        ∃ more, path = d.path ++ "//" ++ more := by
      obtain ⟨comment, hsome⟩ := Option.ne_none_iff_exists'.mp hcomment
      by_cases hglued : d.Glued
      · exact DirectiveLine.directiveAt?_glued hsome hglued (hfound ▸ Option.mem_def.mp hpath)
      · rw [hapart hcomment hglued] at hpath
        cases hpath
    refine ⟨hplain, hapart, hglued, fun t root hsays hcomment => detectProject_some hsays (hplain hcomment),
      fun t root hsays hcomment hglued => detectProject_none hsays (hapart hcomment hglued), fun t root hsays => ?_⟩
    rw [detectProject_base_iff hsays]
    by_cases hcomment : d.comment = none
    · rw [hplain hcomment, Option.some.injEq, eq_true hcomment, true_and]
    · refine iff_of_false (fun hbase => ?_) fun hnone => hcomment hnone.1
      obtain ⟨more, hmore⟩ := hglued hcomment baseModule hbase
      exact baseModule_ne_glued d.path more hmore
  · have hnone := moduleDirective?_of_others hothers
    exact ⟨hnone, fun t root hsays => detectProject_none hsays hnone⟩

/-- A directive in quotation marks between a comment and a requirement, with line ends of two characters. -/
def widgetsDirective : DirectiveLine where
  indent := []
  gap := ['\t']
  path := "github.com/acme/widgets"
  quoted := true
  behind := ['\r']
  comment := none
  indent_blank := List.forall_mem_nil _
  gap_blank := List.forall_mem_singleton.mpr (by decide)
  gap_ne_nil := by decide
  path_plain := List.all_eq_true.mp (by decide)
  path_ne_empty := by decide
  behind_blank := List.forall_mem_singleton.mpr (by decide)

theorem widgets_found :
    let text := "// modules\r\nmodule\t\"github.com/acme/widgets\"\r\nrequire modules.org v1.0.0\r\n"
    let tree : Files.Tree := ⟨[(["go.mod"], .file (Text.utf8Bytes text.toList))], []⟩
    Declares text widgetsDirective ∧ widgetsDirective.Found text ∧ tree.Says "" text ∧
      Workspace.detectProject tree "" none = .ok ⟨"", .extension "github.com/acme/widgets"⟩ ∧
      moduleDirective? "go 1.21\n" = none := by
  intro text tree
  have hdeclares : Declares text widgetsDirective :=
    ⟨["// modules\r".toList], ["require modules.org v1.0.0\r".toList, []], by decide, by decide⟩
  have hfound := (module_directive_exact text).1 widgetsDirective hdeclares
  have hsays : tree.Says "" text := Files.Tree.readText_utf8Bytes rfl
  have hnone := (module_directive_exact "go 1.21\n").2 (by decide)
  exact ⟨hdeclares, hfound, hsays, hfound.detected tree "" hsays rfl, hnone.1⟩

/-- A directive with a note that the module has another name now. -/
def deprecatedDirective : DirectiveLine where
  indent := []
  gap := [' ']
  path := "example.com/acme"
  quoted := false
  behind := [' ']
  comment := some " Deprecated: use example.com/new"
  indent_blank := List.forall_mem_nil _
  gap_blank := List.forall_mem_singleton.mpr (by decide)
  gap_ne_nil := by decide
  path_plain := List.all_eq_true.mp (by decide)
  path_ne_empty := by decide
  behind_blank := List.forall_mem_singleton.mpr (by decide)

/-- The path of a directive with a comment is not found. -/
theorem deprecated_not_found :
    Declares "module example.com/acme // Deprecated: use example.com/new\n" deprecatedDirective ∧
      deprecatedDirective.path = "example.com/acme" ∧
      moduleDirective? "module example.com/acme // Deprecated: use example.com/new\n" = none := by
  refine ⟨⟨[], [[]], by decide, by decide⟩, rfl, by decide⟩

end ApiForge
