import ApiForge.Proofs.StructReading
import Mathlib

/-! Structs are read back as they are written. A source is given by what it declares and by the blanks between its
words; reading it yields the structs that it declares, in order, with their names and fields. -/

namespace ApiForge.Source

/-! ### Declarations -/

/-- Type parameters that share a constraint. -/
structure TypeParameter where
  first : String
  more : List String
  constraint : TermList

def TypeParameter.words (parameter : TypeParameter) : List Word :=
  .identifier parameter.first :: (moreNameWords parameter.more ++ parameter.constraint.words)

/-- Type parameters in their brackets, if there are any. -/
def parameterWords : List TypeParameter → List Word
  | [] => []
  | parameter :: more =>
    .sign "[" :: ((parameter.words ++ more.flatMap fun parameter => .sign "," :: parameter.words) ++ [.sign "]"])

structure StructDecl where
  name : String
  parameters : List TypeParameter
  fields : FieldList

def StructDecl.words (decl : StructDecl) : List Word :=
  .identifier decl.name :: (parameterWords decl.parameters ++
    .keyword "struct" :: .sign "\x7b" :: (decl.fields.words ++ [.sign "\x7d"]))

/-- Things in a row, with a separator behind each of them, or behind each but the last. -/
inductive Separated (α : Type) where
  | none
  | last (a : α)
  | cons (a : α) (separator : Separator) (rest : Separated α)

namespace Separated

variable {α : Type}

def toList : Separated α → List α
  | .none => []
  | .last a => [a]
  | .cons a _ rest => a :: rest.toList

def words (wordsOf : α → List Word) : Separated α → List Word
  | .none => []
  | .last a => wordsOf a
  | .cons a separator rest => wordsOf a ++ separator.word :: rest.words wordsOf

end Separated

inductive SourceDecl where
  | single (decl : StructDecl)
  | group (decls : Separated StructDecl)
  /-- An import, variable, constant or function: anything with fitting brackets that ends with a semicolon. -/
  | other (keyword : String) (hkeyword : keyword ∈ skippedKeywords) (words : List Word)
      (hwords : ∀ ts : List Token, ts.map Token.word = words → Closed Token.isTerminator ts)

namespace SourceDecl

def structs : SourceDecl → List StructDecl
  | .single decl => [decl]
  | .group decls => decls.toList
  | .other .. => []

def keyword : SourceDecl → String
  | .single _ | .group _ => "type"
  | .other keyword .. => keyword

/-- The words behind the keyword. -/
def body : SourceDecl → List Word
  | .single decl => decl.words
  | .group decls => .sign "(" :: (decls.words StructDecl.words ++ [.sign ")"])
  | .other _ _ words _ => words

def words (decl : SourceDecl) : List Word :=
  .keyword decl.keyword :: decl.body

end SourceDecl

/-- What a source says: its package and its declarations. -/
structure SourceDecls where
  package : String
  separator : Separator
  decls : Separated SourceDecl

namespace SourceDecls

def words (source : SourceDecls) : List Word :=
  .keyword "package" :: .identifier source.package :: source.separator.word :: source.decls.words SourceDecl.words

def structs (source : SourceDecls) : List StructDecl :=
  source.decls.toList.flatMap SourceDecl.structs

end SourceDecls

/-- A struct without its place and its markers. -/
def Struct.content (s : Struct) : String × List Field :=
  (s.name, s.fields)

def StructDecl.content (decl : StructDecl) : String × List Field :=
  (decl.name, decl.fields.fields)

/-! ### Reading them -/

section Specs

variable (stop : Position) (rest : List Token) {ts : List Token} {t : Token}

/-- A constraint does not begin as the end of a list does. -/
theorem TermList.words_cons (terms : TermList) : ∃ w ws, terms.words = w :: ws ∧ w ≠ .sign "]" := by
  have hterm (term : Term) : ∃ w ws, term.words = w :: ws ∧ w ≠ .sign "]" := by
    obtain ⟨approximate, type⟩ := term
    rw [Term.words]
    cases approximate with
    | true => exact ⟨_, _, rfl, by decide⟩
    | false =>
        obtain ⟨w, ws, hwords, hfirst⟩ := type.words_cons
        refine ⟨w, ws, hwords, ?_⟩
        rintro rfl
        rcases hfirst with hfirst | hfirst | hfirst | hfirst | ⟨hfirst, -⟩ <;> exact absurd hfirst (by decide)
  cases terms with
  | single term => exact hterm term
  | cons term more =>
      obtain ⟨w, ws, hwords, hw⟩ := hterm term
      rw [words, hwords]
      exact ⟨w, _, rfl, hw⟩

theorem TypeParameter.closed (parameter : TypeParameter) : ClosedWords parameter.words :=
  ((closedWords_moreNameWords parameter.more).append parameter.constraint.closed).identifier parameter.first

theorem closedWords_parameters (parameters : List TypeParameter) :
    ClosedWords (parameters.flatMap fun parameter => .sign "," :: parameter.words) := by
  induction parameters with
  | nil => exact closedWords_nil
  | cons parameter parameters ih => exact (parameter.closed.append ih).cons rfl rfl

/-- Type parameters are not taken for the length of an array. -/
theorem opensTypeParameters_read {parameter : TypeParameter} {more : List Word} {pos : Position}
    (hts : ts.map Token.word = parameter.words ++ more) :
    opensTypeParameters (⟨.operator, "[", pos⟩ :: (ts ++ rest)) = true := by
  rw [TypeParameter.words, List.cons_append] at hts
  obtain ⟨⟨kind, text, pos'⟩, behind, rfl, hname, hbehind⟩ := List.map_eq_cons_iff.mp hts
  cases hname
  have hnext : nextIsOperator (behind ++ rest) "]" = false := by
    obtain ⟨w, ws, hwords, hw⟩ : ∃ w ws, behind.map Token.word = w :: ws ∧ w ≠ .sign "]" := by
      rw [hbehind, List.append_assoc]
      cases parameter.more with
      | nil =>
          obtain ⟨w, ws, hwords, hw⟩ := parameter.constraint.words_cons
          exact ⟨w, ws ++ more, by rw [hwords]; rfl, hw⟩
      | cons name names => exact ⟨_, _, rfl, by decide⟩
    obtain ⟨⟨kind, text, pos⟩, behind, rfl, rfl, -⟩ := List.map_eq_cons_iff.mp hwords
    rw [List.cons_append, nextIsOperator, List.head?_cons, Option.any_some, Bool.eq_false_iff]
    intro hclosing
    obtain ⟨hkind, htext⟩ := eq_of_isOperator hclosing
    cases hkind
    cases htext
    exact hw rfl
  rw [List.cons_append, opensTypeParameters, hnext]
  rfl

theorem typeParameters_read {parameters : List TypeParameter} (hts : ts.map Token.word = parameterWords parameters)
    (ht : t.word = .keyword "struct") : typeParameters stop (ts ++ t :: rest) = .ok (t :: rest) := by
  cases parameters with
  | nil =>
      obtain rfl := List.map_eq_nil_iff.mp hts
      obtain ⟨kind, text, pos⟩ := t
      cases ht
      have hopens : opensTypeParameters (⟨.keyword, "struct", pos⟩ :: rest) = false := by
        cases rest <;> rfl
      rw [List.nil_append, typeParameters, hopens]
      rfl
  | cons parameter parameters =>
      obtain ⟨⟨kind, text, pos⟩, behind, rfl, hopening, hbehind⟩ := List.map_eq_cons_iff.mp hts
      obtain ⟨inner, last, rfl, hinner, hlast⟩ := List.map_eq_append_iff.mp hbehind
      obtain ⟨⟨kind', text', pos'⟩, rfl, hclosing⟩ := List.map_eq_singleton_iff.mp hlast
      cases hopening
      cases hclosing
      have hbalanced := (parameter.closed.append (closedWords_parameters parameters)).balanced inner hinner
      rw [List.cons_append, List.append_assoc, List.singleton_append, typeParameters,
        if_pos (opensTypeParameters_read _ hinner), bracketed_enclosed _ _ rfl rfl rfl hbalanced]
      rfl

/-- A struct is read up to the brace that closes it. -/
theorem typeSpec_read (doc : String) (grouped : Bool) {decl : StructDecl} (hts : ts.map Token.word = decl.words) :
    ∃ s, typeSpec stop doc grouped (ts ++ rest) = .ok (some s, rest) ∧ s.content = decl.content := by
  obtain ⟨⟨kind, text, pos⟩, ts₁, rfl, hname, hts₁⟩ := List.map_eq_cons_iff.mp hts
  obtain ⟨parameters, ts₂, rfl, hparameters, hts₂⟩ := List.map_eq_append_iff.mp hts₁
  obtain ⟨kw, ts₃, rfl, hkw, hts₃⟩ := List.map_eq_cons_iff.mp hts₂
  obtain ⟨⟨kind', text', pos'⟩, ts₄, rfl, hopening, hts₄⟩ := List.map_eq_cons_iff.mp hts₃
  obtain ⟨fields, ts₅, rfl, hfields, hts₅⟩ := List.map_eq_append_iff.mp hts₄
  obtain ⟨⟨kind'', text'', pos''⟩, rfl, hclosing⟩ := List.map_eq_singleton_iff.mp hts₅
  cases hname
  cases hopening
  cases hclosing
  have hexpect (ts : List Token) : expectIdentifier stop .typeName (⟨.identifier, decl.name, pos⟩ :: ts) =
      .ok (⟨.identifier, decl.name, pos⟩, ts) := rfl
  have hbody : structFields stop pos' (fields ++ ⟨.operator, "\x7d", pos''⟩ :: rest) = .ok (decl.fields.fields, rest) :=
    structFields_eq_ok_iff.mpr (fieldList_read stop rest rfl decl.fields hfields)
  refine ⟨⟨decl.name, pos.line, Marker.scan doc, decl.fields.fields⟩, ?_, rfl⟩
  simp only [List.cons_append, List.append_assoc, List.nil_append]
  rw [typeSpec_eq, hexpect]
  simp only [bind, Except.bind]
  rw [typeParameters_read stop _ hparameters hkw]
  obtain ⟨kind, text, pos⟩ := kw
  cases hkw
  have hequals (ts : List Token) : nextIsOperator (⟨.keyword, "struct", pos⟩ :: ts) "=" = false := rfl
  dsimp only
  rw [hequals, if_neg Bool.false_ne_true, declaredType, if_pos ⟨rfl, rfl⟩, hbody]
  rfl

end Specs

section Declarations

variable (stop : Position) (comments : List Comment) (rest : List Token) {ts : List Token} {t : Token}

/-- A struct of a group is read up to the token behind it. -/
theorem specItem_read (ctx : GroupContext) {decl : StructDecl} (hts : ts.map Token.word = decl.words) :
    ∃ (s : Struct) (head : Token) (behind : List Token), s.content = decl.content ∧
      skipTerminators (ts ++ rest) = head :: behind ∧ head.isOperator ")" = false ∧
      specItem ctx head behind = .ok ([s], rest) := by
  obtain ⟨⟨kind, text, pos⟩, behind, rfl, hname, -⟩ := List.map_eq_cons_iff.mp hts
  cases hname
  obtain ⟨s, hspec, hs⟩ := typeSpec_read ctx.stop rest (ctx.doc ++ "\n" ++ docAbove ctx.comments pos.line) true hts
  rw [List.cons_append] at hspec
  refine ⟨s, _, behind ++ rest, hs, skipTerminators_cons rfl, rfl, ?_⟩
  rw [specItem, hspec]
  rfl

/-- A group is read up to the parenthesis that closes it. -/
theorem specs_read (ctx : GroupContext) (closing : Token) (hclosing : closing.isOperator ")" = true)
    {decls : Separated StructDecl} (hts : ts.map Token.word = decls.words StructDecl.words) :
    ∃ structs, ItemsRead (specItem ctx) ")" (ts ++ closing :: rest) structs rest ∧
      structs.map Struct.content = decls.toList.map StructDecl.content := by
  induction decls generalizing ts with
  | none =>
      obtain rfl := List.map_eq_nil_iff.mp hts
      exact ⟨[], .none (skipTerminators_cons (not_terminator_of_operator hclosing)) hclosing, rfl⟩
  | last decl =>
      obtain ⟨s, head, behind, hs, hfirst, hgoesOn, hread⟩ := specItem_read (closing :: rest) ctx hts
      exact ⟨[s], .last hfirst hgoesOn hread hclosing, congrArg (· :: []) hs⟩
  | cons decl separator decls ih =>
      obtain ⟨front, back, rfl, hfront, hback⟩ := List.map_eq_append_iff.mp hts
      obtain ⟨t, ts', rfl, ht, hts'⟩ := List.map_eq_cons_iff.mp hback
      obtain ⟨structs, hstructs, hcontents⟩ := ih hts'
      obtain ⟨s, head, behind, hs, hfirst, hgoesOn, hread⟩ := specItem_read (t :: (ts' ++ closing :: rest)) ctx hfront
      refine ⟨[s] ++ structs, ?_, ?_⟩
      · rw [List.append_assoc, List.cons_append]
        exact .next hfirst hgoesOn hread (other_of_separator ht).2.2 hstructs
      · rw [List.singleton_append, List.map_cons, Separated.toList, List.map_cons, hs, hcontents]

/-- Inside brackets a declaration goes on, whatever comes. -/
theorem skipDeclaration_append {stack stack' : List Token} (h : ts.foldlM track stack = .ok stack') (opener : Token)
    (outer : List Token) : skipDeclaration stop (stack ++ opener :: outer) (ts ++ rest) =
      skipDeclaration stop (stack' ++ opener :: outer) rest := by
  induction ts generalizing stack with
  | nil =>
      cases h
      rfl
  | cons t ts ih =>
      rw [List.foldlM_cons] at h
      obtain ⟨next, ht, h⟩ := of_bind h
      rw [List.cons_append, skipDeclaration, if_neg (by simp), track_append ht]
      exact ih h

/-- Anything else is passed over up to its end. -/
theorem Closed.skipDeclaration_eq (h : Closed Token.isTerminator ts) {ending left : List Token}
    (hending : endDeclaration stop ending = .ok left) : skipDeclaration stop [] (ts ++ ending) = .ok left := by
  induction h with
  | nil =>
      cases ending with
      | nil =>
          cases hending
          rfl
      | cons t ending =>
          rw [endDeclaration] at hending
          split_ifs at hending with ht
          rw [List.nil_append, skipDeclaration, if_pos ⟨ht, rfl⟩]
          exact hending
  | plain hplain hends hts ih =>
      rw [List.cons_append, skipDeclaration, if_neg (by simp [hends]), track_plain hplain]
      exact ih
  | @enclosed opening closing inner ts hopens hcloses hfits hinner hts ih =>
      have hinside := skipDeclaration_append stop (closing :: (ts ++ ending)) hinner opening []
      have hopening : opening.isTerminator = false := by
        rw [Token.opens, Bool.and_eq_true, beq_iff_eq] at hopens
        rw [Token.isTerminator, hopens.1]
        rfl
      rw [List.nil_append] at hinside
      rw [List.cons_append, List.append_assoc, List.cons_append, skipDeclaration, if_neg (by simp [hopening]),
        track_opening hopens]
      dsimp only
      rw [hinside, skipDeclaration, if_neg (by simp), track_closing hcloses hfits]
      exact ih

theorem declaration_type {pos : Position} :
    declaration comments stop ⟨.keyword, "type", pos⟩ ts = typeDeclaration comments stop ⟨.keyword, "type", pos⟩ ts :=
  rfl

/-- A declaration is read up to the semicolon behind it or up to the end of the source. -/
theorem declaration_read {decl : SourceDecl} {kw : Token} (hkw : kw.word = .keyword decl.keyword)
    (hts : ts.map Token.word = decl.body) {ending left : List Token}
    (hending : endDeclaration stop ending = .ok left) :
    ∃ structs, declaration comments stop kw (ts ++ ending) = .ok (structs, left) ∧
      structs.map Struct.content = decl.structs.map StructDecl.content := by
  obtain ⟨kind, text, pos⟩ := kw
  cases decl with
  | single decl =>
      have hkw : (⟨kind, text⟩ : Word) = .keyword "type" := hkw
      cases hkw
      obtain ⟨s, hspec, hs⟩ := typeSpec_read stop ending (docAbove comments pos.line) false hts
      refine ⟨[s], ?_, congrArg (· :: []) hs⟩
      have hopening : nextIsOperator (ts ++ ending) "(" = false := by
        obtain ⟨⟨kind, text, pos⟩, behind, rfl, hname, -⟩ := List.map_eq_cons_iff.mp hts
        cases hname
        rfl
      rw [declaration_type, typeDeclaration]
      dsimp only
      rw [hopening, if_neg Bool.false_ne_true, hspec]
      simp only [bind, Except.bind, hending]
      rfl
  | group decls =>
      have hkw : (⟨kind, text⟩ : Word) = .keyword "type" := hkw
      cases hkw
      obtain ⟨⟨kind, text, pos'⟩, behind, rfl, hopening, hbehind⟩ := List.map_eq_cons_iff.mp hts
      obtain ⟨specs, last, rfl, hspecs, hlast⟩ := List.map_eq_append_iff.mp hbehind
      obtain ⟨⟨kind', text', pos''⟩, rfl, hclosing⟩ := List.map_eq_singleton_iff.mp hlast
      cases hopening
      cases hclosing
      obtain ⟨structs, hread, hcontents⟩ := specs_read ending ⟨comments, stop, pos, docAbove comments pos.line⟩
        ⟨.operator, ")", pos''⟩ rfl hspecs
      have hgroup := typeGroup_eq_ok_iff.mpr hread
      refine ⟨structs, ?_, hcontents⟩
      have hopening (ts : List Token) : nextIsOperator (⟨.operator, "(", pos'⟩ :: ts) "(" = true := rfl
      rw [declaration_type, List.cons_append, List.append_assoc, List.singleton_append, typeDeclaration]
      dsimp only
      rw [if_pos (hopening _), List.tail_cons, hgroup]
      simp only [bind, Except.bind, hending]
      rfl
  | other keyword hkeyword words hwords =>
      cases hkw
      refine ⟨[], ?_, rfl⟩
      rw [declaration, if_pos ⟨rfl, List.contains_iff_mem.mpr hkeyword⟩, (hwords ts hts).skipDeclaration_eq stop hending]
      rfl

theorem skipTerminators_all (h : ∀ t ∈ ts, t.isTerminator = true) : skipTerminators ts = [] :=
  List.dropWhile_eq_nil_iff.mpr h

/-- The first declaration is read up to its end. -/
theorem exists_declaration_read {decl : SourceDecl} (hts : ts.map Token.word = decl.words) {ending left : List Token}
    (hending : endDeclaration stop ending = .ok left) :
    ∃ kw behind structs, skipTerminators (ts ++ ending) = kw :: behind ∧
      declaration comments stop kw behind = .ok (structs, left) ∧
      structs.map Struct.content = decl.structs.map StructDecl.content := by
  obtain ⟨⟨kind, text, pos⟩, body, rfl, hkw, hbody⟩ := List.map_eq_cons_iff.mp hts
  obtain ⟨structs, hdeclaration, hcontents⟩ := declaration_read stop comments hkw hbody hending
  cases hkw
  exact ⟨_, body ++ ending, structs, skipTerminators_cons rfl, hdeclaration, hcontents⟩

/-- The declarations of a source are read up to its end. -/
theorem declarations_read {decls : Separated SourceDecl} (hts : ts.map Token.word = decls.words SourceDecl.words)
    {ending : List Token} (hending : ∀ t ∈ ending, t.isTerminator = true) :
    ∃ structs, DeclarationsRead comments stop (ts ++ ending) structs ∧
      structs.map Struct.content = (decls.toList.flatMap SourceDecl.structs).map StructDecl.content := by
  induction decls generalizing ts with
  | none =>
      obtain rfl := List.map_eq_nil_iff.mp hts
      exact ⟨[], .none (skipTerminators_all hending), rfl⟩
  | last decl =>
      obtain ⟨left, hleft, hterminators⟩ : ∃ left, endDeclaration stop ending = .ok left ∧
          ∀ t ∈ left, t.isTerminator = true := by
        cases ending with
        | nil => exact ⟨[], rfl, List.forall_mem_nil _⟩
        | cons t ending =>
            rw [List.forall_mem_cons] at hending
            exact ⟨ending, if_pos hending.1, hending.2⟩
      obtain ⟨kw, behind, structs, hfirst, hdeclaration, hcontents⟩ := exists_declaration_read stop comments hts hleft
      refine ⟨structs ++ [], .next hfirst hdeclaration (.none (skipTerminators_all hterminators)), ?_⟩
      rw [List.append_nil, hcontents, Separated.toList, List.flatMap_singleton]
  | cons decl separator decls ih =>
      obtain ⟨front, back, rfl, hfront, hback⟩ := List.map_eq_append_iff.mp hts
      obtain ⟨t, ts', rfl, ht, hts'⟩ := List.map_eq_cons_iff.mp hback
      obtain ⟨structs', hstructs', hcontents'⟩ := ih hts'
      have hend : endDeclaration stop (t :: (ts' ++ ending)) = .ok (ts' ++ ending) :=
        if_pos (other_of_separator ht).2.2
      obtain ⟨kw, behind, structs, hfirst, hdeclaration, hcontents⟩ := exists_declaration_read stop comments hfront hend
      refine ⟨structs ++ structs', ?_, ?_⟩
      · rw [List.append_assoc, List.cons_append]
        exact .next hfirst hdeclaration hstructs'
      · rw [Separated.toList, List.flatMap_cons, List.map_append, List.map_append, hcontents, hcontents']

end Declarations

/-- The tokens of a source are read as what it declares. -/
theorem parseLexed_read (path : String) {source : SourceDecls} {lexed : Lexed} {ts ending : List Token}
    (hlexed : lexed.tokens = ts ++ ending) (hts : ts.map Token.word = source.words)
    (hending : ∀ t ∈ ending, t.isTerminator = true) : ∃ file, parseLexed path lexed = .ok file ∧
      file.package = source.package ∧
      file.structs.map Struct.content = source.structs.map StructDecl.content := by
  obtain ⟨⟨kind, text, pos⟩, ts₁, rfl, hkw, hts₁⟩ := List.map_eq_cons_iff.mp hts
  obtain ⟨⟨kind', text', pos'⟩, ts₂, rfl, hname, hts₂⟩ := List.map_eq_cons_iff.mp hts₁
  obtain ⟨t, ts₃, rfl, ht, hts₃⟩ := List.map_eq_cons_iff.mp hts₂
  cases hkw
  cases hname
  obtain ⟨structs, hread, hcontents⟩ := declarations_read lexed.stop lexed.comments hts₃ hending
  have hfirst : skipTerminators lexed.tokens = ⟨.keyword, "package", pos⟩ ::
      ⟨.identifier, source.package, pos'⟩ :: t :: (ts₃ ++ ending) := by
    rw [hlexed]
    exact skipTerminators_cons rfl
  have hend : endDeclaration lexed.stop (t :: (ts₃ ++ ending)) = .ok (ts₃ ++ ending) :=
    if_pos (other_of_separator ht).2.2
  have hclause : HasClause lexed source.package (ts₃ ++ ending) := .intro hfirst rfl rfl hend
  refine ⟨⟨path, source.package, structs⟩, ?_, rfl, hcontents⟩
  rw [hclause.parseLexed_eq, declarations_eq_ok_iff.mpr hread]
  rfl

/-- Whatever structs a source declares, and however it is laid out, reading it yields these structs, in their order. Each
has a field for each name that is written, exported or not as the name says, with the text of its type and the tags, and
a field for each embedded type, under the last part of its name. -/
theorem structs_read_back (path : String) {source : SourceDecls} {layout : Layout}
    (hwords : layout.map Prod.fst = source.words) (hlegible : Legible false layout) :
    ∃ file, parseSource path (String.ofList (written layout)) = .ok file ∧ file.package = source.package ∧
      file.structs.map Struct.content = source.structs.map StructDecl.content := by
  obtain ⟨lexed, htokenize, htokens⟩ := tokenize_written hlegible
  rw [hwords] at htokens
  obtain ⟨ts, ending, hlexed, hts, hending⟩ := List.map_eq_append_iff.mp htokens
  have hterminators : ∀ t ∈ ending, t.isTerminator = true := by
    intro t ht
    have hword : t.word ∈ ending.map Token.word := List.mem_map_of_mem ht
    rw [hending] at hword
    split_ifs at hword
    · obtain ⟨kind, text, pos⟩ := t
      cases List.mem_singleton.mp hword
      rfl
    · cases hword
  obtain ⟨file, hfile, hpackage, hcontents⟩ := parseLexed_read path hlexed hts hterminators
  refine ⟨file, ?_, hpackage, hcontents⟩
  rw [parseSource, htokenize]
  exact hfile

/-- A struct whose fields look alike: an embedded type with a tag, a list of names, an array, an embedded generic type
and a function. -/
def widget : StructDecl where
  name := "Widget"
  parameters := [⟨"T", [], .single (.mk false (.named none "any" .none))⟩]
  fields :=
    .cons (.embedded false (some "v0") "Common" .none (some ⟨"json:\",inline\"", "\x60json:\",inline\"\x60"⟩)) .lineEnd <|
    .cons (.named "Name" ["alias"] (.pointer (.named none "string" .none)) none) .lineEnd <|
    .cons (.named "Grid" [] (.array [⟨.number, "4"⟩] (balancedWords_plain rfl)
      (.map (.named none "string" .none) (.slice (.named none "T" .none)))) none) .semicolon <|
    .cons (.embedded true none "Base" (.cons (.named none "T" .none) .none) none) .lineEnd <|
    .last (.named "Hook" [] (.function (.mk (.cons (.mk (some "n") true (.named none "int" .none)) .none)
      (.single (.named none "error" .none)))) none)

def widgetSource : SourceDecls where
  package := "v1"
  separator := .lineEnd
  decls := .cons (.group (.cons widget .lineEnd .none)) .lineEnd .none

/-- The blanks between the words. -/
def widgetGaps : List String :=
  [" ", "", "\n",
   " ", "\n\t", "", "", " ", "", " ", " ", "\n\t\t",
   "", "", " ", "", "\t\t",
   "", " ", " ", "", "", "\t\t",
   " ", "", "", "", "", "", "", "", "", "", "", " ",
   "", "", "", "", "", "\t\t",
   " ", "", "", " ", "", "", " ", " ", "",
   "", "", ""]

def widgetText : String :=
  "package v1\n\ntype (\n\tWidget[T any] struct \x7b\n\t\tv0.Common \x60json:\",inline\"\x60\n\t\tName, alias *string\n" ++
    "\t\tGrid [4]map[string][]T; *Base[T]\n\t\tHook func(n ...int) error \x7d\n)\n"

theorem widget_read_back :
    ∃ file, parseSource "widget.go" widgetText = .ok file ∧ file.package = "v1" ∧ file.structs.map Struct.content =
      [("Widget", [⟨"Common", true, "v0.Common", [("json", ",inline")]⟩, ⟨"Name", false, "*string", []⟩,
        ⟨"alias", false, "*string", []⟩, ⟨"Grid", false, "[4]map[string][]T", []⟩, ⟨"Base", true, "*Base[T]", []⟩,
        ⟨"Hook", false, "func(n...int) error", []⟩])] := by
  have hwords : (widgetSource.words.zip widgetGaps).map Prod.fst = widgetSource.words := by decide +kernel
  have hlegible : Legible false (widgetSource.words.zip widgetGaps) := by decide +kernel
  obtain ⟨file, hfile, hpackage, hcontents⟩ := structs_read_back "widget.go" hwords hlegible
  have htext : String.ofList (written (widgetSource.words.zip widgetGaps)) = widgetText := by decide +kernel
  have hcontent : widgetSource.structs.map StructDecl.content =
      [("Widget", [⟨"Common", true, "v0.Common", [("json", ",inline")]⟩, ⟨"Name", false, "*string", []⟩,
        ⟨"alias", false, "*string", []⟩, ⟨"Grid", false, "[4]map[string][]T", []⟩, ⟨"Base", true, "*Base[T]", []⟩,
        ⟨"Hook", false, "func(n...int) error", []⟩])] := by
    decide +kernel
  rw [htext] at hfile
  exact ⟨file, hfile, hpackage, hcontents.trans hcontent⟩

end ApiForge.Source
