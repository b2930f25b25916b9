import ApiForge.Source.Lexer
import Mathlib

/-! How a lexeme is read. There are a few ways, told by its first characters, and each takes the characters of the lexeme
from the front of what is left of the source. -/

namespace ApiForge.Source

/-- The ways to read a lexeme that begins with `c`, with `cs` behind it: its kind and its other characters. -/
inductive Scanned (c : Char) (cs : List Char) : LexemeKind → List Char → Prop where
  | blank (hc : isBlankChar c = true) : Scanned c cs .blank []
  | lineComment {rest : List Char} (hc : c = '/') (hcs : cs = '/' :: rest) :
      Scanned c cs (.comment .line) ('/' :: rest.takeWhile (· != '\n'))
  | blockComment {rest body : List Char} (hc : c = '/') (hcs : cs = '*' :: rest) (hbody : blockBody? rest = some body) :
      Scanned c cs (.comment .block) ('*' :: body ++ ['*', '/'])
  | literal {body : List Char} {value : String} (hc : c = '"') (hbody : stringBody? cs = some body) :
      Scanned c cs (.token (.string value)) (body ++ ['"'])
  | rawLiteral {body : List Char} {value : String} (hc : c = '\x60') (hbody : rawBody? cs = some body) :
      Scanned c cs (.token (.string value)) (body ++ ['\x60'])
  | rune {body : List Char} (hc : c = '\'') (hbody : runeBody? cs = some body) :
      Scanned c cs (.token .rune) (body ++ ['\''])
  | semicolon (hc : c = ';') : Scanned c cs (.token .semicolon) []
  | word {kind : TokenKind} (hkind : kind = .identifier ∨ kind = .keyword) :
      Scanned c cs (.token kind) (cs.takeWhile isIdentifierPart)
  | number : Scanned c cs (.token .number) (numberTail c cs)
  | operator {tail : List Char} (hoperator : operatorLexeme c cs = .ok ⟨.token .operator, tail⟩) :
      Scanned c cs (.token .operator) tail

theorem kind_of_operatorLexeme {c : Char} {cs tail : List Char} {kind : LexemeKind}
    (h : operatorLexeme c cs = .ok ⟨kind, tail⟩) : kind = .token .operator := by
  unfold operatorLexeme at h
  split_ifs at h <;> cases h <;> rfl

theorem scanned_of_lexeme {c : Char} {cs tail : List Char} {kind : LexemeKind} (h : lexeme c cs = .ok ⟨kind, tail⟩) :
    Scanned c cs kind tail := by
  unfold lexeme at h
  split_ifs at h with hblank hline hblock hquote hraw hrune hsemicolon hword hnumber
  · cases h
    exact .blank hblank
  · obtain ⟨rest, rfl⟩ : ∃ rest, cs = '/' :: rest := List.head?_eq_some_iff.mp hline.2
    cases h
    exact .lineComment hline.1 rfl
  · obtain ⟨rest, rfl⟩ : ∃ rest, cs = '*' :: rest := List.head?_eq_some_iff.mp hblock.2
    rw [List.tail_cons, blockCommentLexeme] at h
    split at h
    · cases h
    · rename_i body hbody
      cases h
      exact .blockComment hblock.1 rfl hbody
  · unfold stringLexeme at h
    split at h
    · cases h
    · rename_i body hbody
      split at h
      · cases h
      · cases h
        exact .literal hquote hbody
  · unfold rawStringLexeme at h
    split at h
    · cases h
    · rename_i body hbody
      cases h
      exact .rawLiteral hraw hbody
  · unfold runeLexeme at h
    split at h
    · cases h
    · cases h
    · rename_i body hne hbody
      cases h
      exact .rune hrune hbody
  · cases h
    exact .semicolon hsemicolon
  · rw [wordLexeme] at h
    cases h
    refine .word ?_
    split
    · exact .inr rfl
    · exact .inl rfl
  · cases h
    exact .number
  · obtain rfl := kind_of_operatorLexeme h
    exact .operator h

/-! ### The characters that are read -/

theorem blockBody?_isPrefix {cs body : List Char} (h : blockBody? cs = some body) : body ++ ['*', '/'] <+: cs := by
  induction cs using blockBody?.induct generalizing body with
  | case1 => cases h
  | case2 cs =>
      cases h
      exact List.prefix_append ['*', '/'] cs
  | case3 c cs hc ih =>
      rw [blockBody?.eq_3 c cs hc] at h
      obtain ⟨body', hbody, rfl⟩ := Option.map_eq_some_iff.mp h
      exact List.cons_prefix_cons.mpr ⟨rfl, ih hbody⟩

theorem stringBody?_isPrefix {cs body : List Char} (h : stringBody? cs = some body) : body ++ ['"'] <+: cs := by
  induction cs using stringBody?.induct generalizing body with
  | case1 => cases h
  | case2 cs =>
      cases h
      exact List.prefix_append ['"'] cs
  | case3 cs => cases h
  | case4 => cases h
  | case5 cs => cases h
  | case6 c cs hc ih =>
      rw [stringBody?.eq_6 _ _ hc] at h
      obtain ⟨body', hbody, rfl⟩ := Option.map_eq_some_iff.mp h
      exact List.cons_prefix_cons.mpr ⟨rfl, List.cons_prefix_cons.mpr ⟨rfl, ih hbody⟩⟩
  | case7 c cs hquote hline hend hescaped hescape ih =>
      rw [stringBody?.eq_7 c cs hquote hline hend hescaped hescape] at h
      obtain ⟨body', hbody, rfl⟩ := Option.map_eq_some_iff.mp h
      exact List.cons_prefix_cons.mpr ⟨rfl, ih hbody⟩

theorem rawBody?_isPrefix {cs body : List Char} (h : rawBody? cs = some body) : body ++ ['\x60'] <+: cs := by
  induction cs using rawBody?.induct generalizing body with
  | case1 => cases h
  | case2 cs =>
      cases h
      exact List.prefix_append ['\x60'] cs
  | case3 c cs hc ih =>
      rw [rawBody?.eq_3 c cs hc] at h
      obtain ⟨body', hbody, rfl⟩ := Option.map_eq_some_iff.mp h
      exact List.cons_prefix_cons.mpr ⟨rfl, ih hbody⟩

theorem runeBody?_isPrefix {cs body : List Char} (h : runeBody? cs = some body) : body ++ ['\''] <+: cs := by
  induction cs using runeBody?.induct generalizing body with
  | case1 => cases h
  | case2 cs =>
      cases h
      exact List.prefix_append ['\''] cs
  | case3 cs => cases h
  | case4 => cases h
  | case5 c cs ih =>
      rw [runeBody?] at h
      obtain ⟨body', hbody, rfl⟩ := Option.map_eq_some_iff.mp h
      exact List.cons_prefix_cons.mpr ⟨rfl, List.cons_prefix_cons.mpr ⟨rfl, ih hbody⟩⟩
  | case6 c cs hquote hline hend hescape ih =>
      rw [runeBody?.eq_6 c cs hquote hline hend hescape] at h
      obtain ⟨body', hbody, rfl⟩ := Option.map_eq_some_iff.mp h
      exact List.cons_prefix_cons.mpr ⟨rfl, ih hbody⟩

theorem numberTail_isPrefix (previous : Char) (cs : List Char) : numberTail previous cs <+: cs := by
  induction cs generalizing previous with
  | nil => exact List.prefix_rfl
  | cons c cs ih =>
      rw [numberTail]
      split_ifs
      · exact List.cons_prefix_cons.mpr ⟨rfl, ih c⟩
      · exact List.cons_prefix_cons.mpr ⟨rfl, ih c⟩
      · exact List.nil_prefix

theorem operatorLexeme_isPrefix {c : Char} {cs tail : List Char} {kind : LexemeKind}
    (h : operatorLexeme c cs = .ok ⟨kind, tail⟩) : tail <+: cs := by
  unfold operatorLexeme at h
  split_ifs at h
  · cases h
    exact List.take_prefix 2 cs
  · cases h
    exact List.take_prefix 1 cs
  · cases h
    exact List.nil_prefix

/-- A lexeme is what stands at the front. -/
theorem Scanned.tail_isPrefix {c : Char} {cs tail : List Char} {kind : LexemeKind} (h : Scanned c cs kind tail) :
    tail <+: cs := by
  cases h with
  | blank => exact List.nil_prefix
  | lineComment hc hcs =>
      rw [hcs]
      exact List.cons_prefix_cons.mpr ⟨rfl, List.takeWhile_prefix _⟩
  | blockComment hc hcs hbody =>
      rw [hcs]
      exact List.cons_prefix_cons.mpr ⟨rfl, blockBody?_isPrefix hbody⟩
  | literal hc hbody => exact stringBody?_isPrefix hbody
  | rawLiteral hc hbody => exact rawBody?_isPrefix hbody
  | rune hc hbody => exact runeBody?_isPrefix hbody
  | semicolon => exact List.nil_prefix
  | word hkind => exact List.takeWhile_prefix _
  | number => exact numberTail_isPrefix c cs
  | operator hoperator => exact operatorLexeme_isPrefix hoperator

theorem tail_append_drop {c : Char} {cs tail : List Char} {kind : LexemeKind} (h : lexeme c cs = .ok ⟨kind, tail⟩) :
    tail ++ cs.drop tail.length = cs :=
  List.prefix_append_drop (scanned_of_lexeme h).tail_isPrefix |>.symm

end ApiForge.Source
