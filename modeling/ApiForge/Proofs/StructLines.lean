import ApiForge.Proofs.DocComments
import ApiForge.Proofs.Lexemes
import ApiForge.Proofs.Provenance
import Mathlib

/-! What the lines of a struct declaration are read as, whatever the lines around them are: the line that opens the
struct, embedded types, pointer fields and the closing brace. -/

namespace ApiForge.Source

/-! ### The tokens of the lines -/

theorem Reads.word {text : String} (hword : isWord text = true) {ls : List Lexeme} {rest : List Char}
    (hends : EndsWord (charsOf ls ++ rest)) (h : Reads ls rest) :
    Reads ((.token (if keywords.contains text then .keyword else .identifier), text) :: ls) rest := by
  obtain ⟨c, cs, htext, hc, hcs⟩ := chars_of_isWord hword
  refine ⟨⟨c, cs, htext, ?_⟩, h⟩
  rw [lexeme_word hc hcs hends, ← htext, String.ofList_toList]

theorem Reads.identifier {name : String} (hname : isIdentifier name = true) {ls : List Lexeme} {rest : List Char}
    (hends : EndsWord (charsOf ls ++ rest)) (h : Reads ls rest) : Reads ((.token .identifier, name) :: ls) rest := by
  rw [isIdentifier, Bool.and_eq_true, Bool.not_eq_true'] at hname
  have hreads := Reads.word hname.1 hends h
  rwa [hname.2] at hreads

theorem Reads.keyword {text : String} (htext : text ∈ keywords) {ls : List Lexeme} {rest : List Char}
    (hends : EndsWord (charsOf ls ++ rest)) (h : Reads ls rest) : Reads ((.token .keyword, text) :: ls) rest := by
  have hreads := Reads.word (isWord_of_mem_keywords htext) hends h
  rwa [List.contains_iff_mem.mpr htext] at hreads

theorem Reads.blank {text : String} {c : Char} (htext : text.toList = [c]) (hc : isBlankChar c = true)
    {ls : List Lexeme} {rest : List Char} (h : Reads ls rest) : Reads ((.blank, text) :: ls) rest :=
  ⟨⟨c, [], htext, lexeme_blank hc _⟩, h⟩

theorem endsWord_cons {c : Char} (hc : isIdentifierPart c = false) (cs : List Char) : EndsWord (c :: cs) := by
  intro d hd
  rw [← Option.mem_some.mp hd]
  exact hc

/-- A tag without backquotes, in backquotes. -/
def tagLexeme (tag : String) : Lexeme :=
  (.token (.string (String.ofList (tag.toList.filter (· != '\r')))), "\x60" ++ tag ++ "\x60")

theorem Reads.tag {tag : String} (htag : '\x60' ∉ tag.toList) (rest : List Char) : Reads [tagLexeme tag] rest := by
  refine ⟨⟨'\x60', tag.toList ++ ['\x60'], ?_, ?_⟩, trivial⟩
  · rw [String.toList_append, String.toList_append]
    rfl
  · rw [charsOf_nil, List.nil_append, List.append_assoc]
    exact lexeme_rawString htag rest

theorem Reads.brace {text : String} {c : Char} (htext : text.toList = [c]) (hc : c = '\x7b' ∨ c = '\x7d')
    (rest : List Char) : Reads [(.token .operator, text)] rest :=
  ⟨⟨c, [], htext, lexeme_brace hc _⟩, trivial⟩

section Lines

variable {stop : Position} {n : Nat} {lines : List (List Char)} {ts : List Token} {comments : List Comment}
  {name tag : String}

/-- A name has no characters but those of words. -/
theorem not_mem_of_isIdentifier {d : Char} (hstart : isIdentifierStart d = false) (hpart : isIdentifierPart d = false)
    (h : isIdentifier name = true) : d ∉ name.toList := by
  obtain ⟨c, cs, hchars, hc, hcs⟩ := chars_of_isWord (isWord_of_isIdentifier h)
  rw [hchars, List.mem_cons, not_or]
  constructor
  · rintro rfl
    exact absurd (hc.symm.trans hstart) (by decide)
  · intro hmem
    exact absurd ((hcs d hmem).symm.trans hpart) (by decide)

theorem lineless_of_isIdentifier (h : isIdentifier name = true) : '\n' ∉ name.toList :=
  not_mem_of_isIdentifier (by decide) (by decide) h

theorem follows_package (h : Follows stop (n + 1) lines ts comments) (hname : isIdentifier name = true) :
    ∃ p₁ p₂ p₃, Follows stop n (("package " ++ name).toList :: lines)
      (⟨.keyword, "package", p₁⟩ :: ⟨.identifier, name, p₂⟩ :: newlineAt p₃ :: ts) comments := by
  have hreads : ∀ rest, EndsLine rest →
      Reads [(.token .keyword, "package"), (.blank, " "), (.token .identifier, name)] rest := by
    intro rest hrest
    apply Reads.keyword (by decide) (endsWord_cons (by decide) _)
    apply Reads.blank rfl (by decide)
    exact Reads.identifier hname hrest.endsWord trivial
  obtain ⟨pos, hfollows⟩ := h.cons _ hreads (by simp [lineless_of_isIdentifier hname])
  have htext : charsOf [(.token .keyword, "package"), (.blank, " "), (.token .identifier, name)] =
      ("package " ++ name).toList := by
    simp
  rw [htext] at hfollows
  exact ⟨_, _, _, hfollows⟩

theorem follows_opening (h : Follows stop (n + 1) lines ts comments) (hname : isIdentifier name = true) :
    ∃ p₁ p₂ p₃ p₄, p₁.line = n + 1 ∧ Follows stop n (("type " ++ name ++ " struct \x7b").toList :: lines)
      (⟨.keyword, "type", p₁⟩ :: ⟨.identifier, name, p₂⟩ :: ⟨.keyword, "struct", p₃⟩ ::
        ⟨.operator, "\x7b", p₄⟩ :: ts) comments := by
  have hreads : ∀ rest, EndsLine rest → Reads [(.token .keyword, "type"), (.blank, " "), (.token .identifier, name),
      (.blank, " "), (.token .keyword, "struct"), (.blank, " "), (.token .operator, "\x7b")] rest := by
    intro rest hrest
    apply Reads.keyword (by decide) (endsWord_cons (by decide) _)
    apply Reads.blank rfl (by decide)
    apply Reads.identifier hname (endsWord_cons (by decide) _)
    apply Reads.blank rfl (by decide)
    apply Reads.keyword (by decide) (endsWord_cons (by decide) _)
    apply Reads.blank rfl (by decide)
    exact Reads.brace rfl (Or.inl rfl) rest
  obtain ⟨pos, hfollows⟩ := h.cons _ hreads (by simp [lineless_of_isIdentifier hname])
  have htext : charsOf [(.token .keyword, "type"), (.blank, " "), (.token .identifier, name), (.blank, " "),
      (.token .keyword, "struct"), (.blank, " "), (.token .operator, "\x7b")] =
      ("type " ++ name ++ " struct \x7b").toList := by
    simp
  rw [htext] at hfollows
  exact ⟨_, _, _, _, rfl, hfollows⟩

theorem follows_embedded (h : Follows stop (n + 1) lines ts comments) (hname : isIdentifier name = true)
    (htag : '\x60' ∉ tag.toList) (hline : '\n' ∉ tag.toList) :
    ∃ value p₁ p₂ p₃, Follows stop n (("\t" ++ name ++ " " ++ ("\x60" ++ tag ++ "\x60")).toList :: lines)
      (⟨.identifier, name, p₁⟩ :: ⟨.string value, "\x60" ++ tag ++ "\x60", p₂⟩ :: newlineAt p₃ :: ts) comments := by
  have hreads : ∀ rest, EndsLine rest →
      Reads [(.blank, "\t"), (.token .identifier, name), (.blank, " "), tagLexeme tag] rest := by
    intro rest hrest
    apply Reads.blank rfl (by decide)
    apply Reads.identifier hname (endsWord_cons (by decide) _)
    apply Reads.blank rfl (by decide)
    exact Reads.tag htag rest
  obtain ⟨pos, hfollows⟩ := h.cons _ hreads (by simp [tagLexeme, lineless_of_isIdentifier hname, hline])
  have htext : charsOf [(.blank, "\t"), (.token .identifier, name), (.blank, " "), tagLexeme tag] =
      ("\t" ++ name ++ " " ++ ("\x60" ++ tag ++ "\x60")).toList := by
    simp [tagLexeme]
  rw [htext] at hfollows
  exact ⟨_, _, _, _, hfollows⟩

/-- The star of a pointer to a text is not read together with what comes behind it. -/
theorem Reads.star {ls : List Lexeme} {rest : List Char} (h : Reads ((.token .identifier, "string") :: ls) rest) :
    Reads ((.token .operator, "*") :: (.token .identifier, "string") :: ls) rest :=
  ⟨⟨'*', [], rfl, rfl⟩, h⟩

theorem follows_pointer (h : Follows stop (n + 1) lines ts comments) (hname : isIdentifier name = true)
    (htag : '\x60' ∉ tag.toList) (hline : '\n' ∉ tag.toList) :
    ∃ value p₁ p₂ p₃ p₄ p₅, Follows stop n
      (("\t" ++ name ++ " *string " ++ ("\x60" ++ tag ++ "\x60")).toList :: lines)
      (⟨.identifier, name, p₁⟩ :: ⟨.operator, "*", p₂⟩ :: ⟨.identifier, "string", p₃⟩ ::
        ⟨.string value, "\x60" ++ tag ++ "\x60", p₄⟩ :: newlineAt p₅ :: ts) comments := by
  have hreads : ∀ rest, EndsLine rest → Reads [(.blank, "\t"), (.token .identifier, name), (.blank, " "),
      (.token .operator, "*"), (.token .identifier, "string"), (.blank, " "), tagLexeme tag] rest := by
    intro rest hrest
    apply Reads.blank rfl (by decide)
    apply Reads.identifier hname (endsWord_cons (by decide) _)
    apply Reads.blank rfl (by decide)
    apply Reads.star
    apply Reads.identifier (by decide) (endsWord_cons (by decide) _)
    apply Reads.blank rfl (by decide)
    exact Reads.tag htag rest
  obtain ⟨pos, hfollows⟩ := h.cons _ hreads (by simp [tagLexeme, lineless_of_isIdentifier hname, hline])
  have htext : charsOf [(.blank, "\t"), (.token .identifier, name), (.blank, " "), (.token .operator, "*"),
      (.token .identifier, "string"), (.blank, " "), tagLexeme tag] =
      ("\t" ++ name ++ " *string " ++ ("\x60" ++ tag ++ "\x60")).toList := by
    simp [tagLexeme]
  rw [htext] at hfollows
  exact ⟨_, _, _, _, _, _, hfollows⟩

theorem follows_closing (h : Follows stop (n + 1) lines ts comments) :
    ∃ p₁ p₂, Follows stop n ("\x7d".toList :: lines) (⟨.operator, "\x7d", p₁⟩ :: newlineAt p₂ :: ts) comments := by
  obtain ⟨pos, hfollows⟩ := h.cons [(.token .operator, "\x7d")]
    (fun rest _ => Reads.brace rfl (Or.inr rfl) rest) (by decide)
  exact ⟨_, _, hfollows⟩

end Lines

/-! ### The declarations that the tokens make up -/

section Parsing

variable {stop : Position} {ts body : List Token} {fields : List Field}

/-- The tokens are those of the fields of a struct, its closing brace and a line end, with `ts` behind them. -/
def ReadsFields (stop : Position) (body : List Token) (fields : List Field) (ts : List Token) : Prop :=
  ts.length < body.length ∧
    ∀ opening, ∃ pos, structFields stop opening body = .ok (fields, newlineAt pos :: ts)

/-- A field in front of other fields. -/
theorem ReadsFields.cons (h : ReadsFields stop body fields ts) {t : Token} {rest : List Token} {field : Field}
    {pos : Position} (hterminator : t.isTerminator = false) (hclosing : t.isOperator "\x7d" = false)
    (hlength : body.length < rest.length)
    (hfield : fieldDeclaration stop (t :: rest) = .ok ([field], newlineAt pos :: body)) :
    ReadsFields stop (t :: rest) (field :: fields) ts := by
  refine ⟨Nat.lt_succ_of_lt (h.1.trans hlength), fun opening => ?_⟩
  obtain ⟨pos', hbody⟩ := h.2 opening
  rw [structFields_eq_ok_iff] at hbody
  exact ⟨pos', structFields_eq_ok_iff.mpr (.next (skipTerminators_cons hterminator) hclosing hfield rfl hbody)⟩

theorem readsFields_closing (p₁ p₂ : Position) (ts : List Token) :
    ReadsFields stop (⟨.operator, "\x7d", p₁⟩ :: newlineAt p₂ :: ts) [] ts := by
  exact ⟨by simp, fun opening => ⟨p₂, structFields_eq_ok_iff.mpr (.none (skipTerminators_cons rfl) rfl)⟩⟩

theorem ReadsFields.embedded (h : ReadsFields stop body fields ts) (name value raw : String) (p₁ p₂ p₃ : Position) :
    ReadsFields stop (⟨.identifier, name, p₁⟩ :: ⟨.string value, raw, p₂⟩ :: newlineAt p₃ :: body)
      (⟨name, true, name, parseTag value⟩ :: fields) ts := by
  have hfield : fieldDeclaration stop (⟨.identifier, name, p₁⟩ :: ⟨.string value, raw, p₂⟩ :: newlineAt p₃ :: body) =
      .ok ([⟨name, true, "" ++ (name ++ ""), parseTag value⟩], newlineAt p₃ :: body) := rfl
  rw [String.append_empty, String.empty_append] at hfield
  exact h.cons rfl rfl (by simp) hfield

theorem ReadsFields.pointer (h : ReadsFields stop body fields ts) (name value raw : String)
    (p₁ p₂ p₃ p₄ p₅ : Position) :
    ReadsFields stop (⟨.identifier, name, p₁⟩ :: ⟨.operator, "*", p₂⟩ :: ⟨.identifier, "string", p₃⟩ ::
      ⟨.string value, raw, p₄⟩ :: newlineAt p₅ :: body)
      (⟨name, false, "*string", parseTag value⟩ :: fields) ts := by
  have hfield : fieldDeclaration stop (⟨.identifier, name, p₁⟩ :: ⟨.operator, "*", p₂⟩ ::
      ⟨.identifier, "string", p₃⟩ :: ⟨.string value, raw, p₄⟩ :: newlineAt p₅ :: body) =
      .ok ([⟨name, false, "*string", parseTag value⟩], newlineAt p₅ :: body) := rfl
  apply h.cons rfl rfl _ hfield
  simp only [List.length_cons]
  omega

/-- A struct in front of other declarations, with the comment above its first line. -/
theorem declarations_struct (h : ReadsFields stop body fields ts) (comments : List Comment) (name : String)
    (p₁ p₂ p₃ p₄ : Position) :
    declarations comments stop (⟨.keyword, "type", p₁⟩ :: ⟨.identifier, name, p₂⟩ :: ⟨.keyword, "struct", p₃⟩ ::
        ⟨.operator, "\x7b", p₄⟩ :: body) =
      (declarations comments stop ts).map
        (⟨name, p₂.line, Marker.scan (docAbove comments p₁.line), fields⟩ :: ·) := by
  obtain ⟨pos, hbody⟩ := h.2 p₄
  have hspec (doc : String) : typeSpec stop doc false (⟨.identifier, name, p₂⟩ :: ⟨.keyword, "struct", p₃⟩ ::
      ⟨.operator, "\x7b", p₄⟩ :: body) =
      .ok (some ⟨name, p₂.line, Marker.scan doc, fields⟩, newlineAt pos :: ts) := by
    simp [typeSpec, expectIdentifier, opensTypeParameters, nextIsOperator, Token.isOperator, Token.isKeyword, hbody,
      bind, Except.bind, pure, Except.pure]
  have hdeclaration : declaration comments stop ⟨.keyword, "type", p₁⟩ (⟨.identifier, name, p₂⟩ ::
      ⟨.keyword, "struct", p₃⟩ :: ⟨.operator, "\x7b", p₄⟩ :: body) =
      .ok ([⟨name, p₂.line, Marker.scan (docAbove comments p₁.line), fields⟩], ts) := by
    have hskipped : "type" ∉ skippedKeywords := by decide
    simp [declaration, hskipped, Token.isKeyword, typeDeclaration, nextIsOperator, Token.isOperator, hspec,
      endDeclaration, Token.isTerminator, newlineAt, bind, Except.bind, pure, Except.pure]
  rw [declarations_cons (skipTerminators_cons rfl), hdeclaration]
  rfl

end Parsing

end ApiForge.Source
