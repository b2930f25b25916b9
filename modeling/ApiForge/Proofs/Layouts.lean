import ApiForge.Proofs.Lexemes
import ApiForge.Proofs.TypeSyntax
import Mathlib

/-! Sources as they are written: words with blanks between them. Where a line ends behind a word that ends a statement
there is a word of its own, the end of the line; anywhere else lines may end as they like. When no word runs on into
what comes behind it, the tokens of the source are its words. -/

namespace ApiForge.Source

namespace Word

/-- What stands in the source. -/
def source (w : Word) : String :=
  match w.kind with
  | .newline => "\n"
  | _ => w.text

def endsStatement (w : Word) : Bool :=
  w.token.endsStatement

end Word

/-- A digit with letters, digits, underscores and points behind it. -/
def isNumeral (text : String) : Bool :=
  match text.toList with
  | [] => false
  | c :: cs => c.isDigit && cs.all isNumberPart

/-- The text that a literal in quotation marks or backquotes denotes. -/
def denoted? (literal : String) : Option String :=
  match literal.toList with
  | '"' :: cs =>
    match stringBody? cs with
    | none => none
    | some body => if cs = body ++ ['"'] then (unescape body).toOption.map String.ofList else none
  | '\x60' :: cs =>
    match rawBody? cs with
    | none => none
    | some body => if cs = body ++ ['\x60'] then some (String.ofList (body.filter (· != '\r'))) else none
  | _ => none

/-- A single character between apostrophes, or an escape. -/
def isRune (literal : String) : Bool :=
  match literal.toList with
  | '\'' :: cs => (runeBody? cs).any fun body => body != [] && cs == body ++ ['\'']
  | _ => false

def operators : List String :=
  tripleOperators ++ doubleOperators ++ singleOperators.map String.singleton

namespace Word

/-- The word is one of its kind. -/
def Valid (w : Word) : Prop :=
  match w.kind with
  | .identifier => isIdentifier w.text = true
  | .keyword => w.text ∈ keywords
  | .number => isNumeral w.text = true
  | .rune => isRune w.text = true
  | .string value => denoted? w.text = some value
  | .operator => w.text ∈ operators
  | .semicolon => w.text = ";"
  | .newline => w.text = ""

instance : DecidablePred Valid
  | ⟨.identifier, text⟩ => inferInstanceAs (Decidable (isIdentifier text = true))
  | ⟨.keyword, text⟩ => inferInstanceAs (Decidable (text ∈ keywords))
  | ⟨.number, text⟩ => inferInstanceAs (Decidable (isNumeral text = true))
  | ⟨.rune, text⟩ => inferInstanceAs (Decidable (isRune text = true))
  | ⟨.string value, text⟩ => inferInstanceAs (Decidable (denoted? text = some value))
  | ⟨.operator, text⟩ => inferInstanceAs (Decidable (text ∈ operators))
  | ⟨.semicolon, text⟩ => inferInstanceAs (Decidable (text = ";"))
  | ⟨.newline, text⟩ => inferInstanceAs (Decidable (text = ""))

/-- The character would be read as a part of the word, or together with it as the beginning of a comment. -/
def runsOn (w : Word) (c : Char) : Bool :=
  match w.kind with
  | .identifier | .keyword => isIdentifierPart c
  | .number => isNumberPart c || c == '+' || c == '-'
  | .operator =>
    ("//" :: "/*" :: operators).any (fun op => (w.text.toList ++ [c]).isPrefixOf op.toList) ||
      w.text == "." && c.isDigit
  | .rune | .string _ | .semicolon | .newline => false

end Word

/-- Words, each with the blanks behind it. -/
abbrev Layout := List (Word × String)

def written (layout : Layout) : List Char :=
  layout.flatMap fun p => p.1.source.toList ++ p.2.toList

/-- The words can be told apart. When `ended`, the word in front ends a statement. -/
def Legible (ended : Bool) : Layout → Prop
  | [] => True
  | (w, gap) :: rest =>
    w.Valid ∧ (w.kind = .newline → ended = true) ∧ gap.toList.all isBlankChar = true ∧
      ('\n' ∈ gap.toList → w.endsStatement = false) ∧ (gap.toList ++ written rest).head?.any w.runsOn = false ∧
      Legible w.endsStatement rest

instance : ∀ (ended : Bool) (layout : Layout), Decidable (Legible ended layout)
  | _, [] => inferInstanceAs (Decidable True)
  | ended, (w, gap) :: rest =>
    haveI : Decidable (Legible w.endsStatement rest) := instDecidableLegible w.endsStatement rest
    inferInstanceAs (Decidable (w.Valid ∧ (w.kind = .newline → ended = true) ∧ gap.toList.all isBlankChar = true ∧
      ('\n' ∈ gap.toList → w.endsStatement = false) ∧ (gap.toList ++ written rest).head?.any w.runsOn = false ∧
      Legible w.endsStatement rest))

/-! ### Single words -/

theorem stringBody?_append {cs body : List Char} (h : stringBody? cs = some body) (rest : List Char) :
    stringBody? (body ++ '"' :: rest) = some body := by
  induction cs using stringBody?.induct generalizing body with
  | case1 => cases h
  | case2 cs =>
      cases h
      rfl
  | case3 cs => cases h
  | case4 => cases h
  | case5 cs => cases h
  | case6 c cs hc ih =>
      rw [stringBody?.eq_6 _ _ hc] at h
      obtain ⟨body', hbody, rfl⟩ := Option.map_eq_some_iff.mp h
      rw [List.cons_append, List.cons_append, stringBody?.eq_6 _ _ hc, ih hbody]
      rfl
  | case7 c cs hquote hline hend _ hescape ih =>
      have hc : c ≠ '\\' := by
        intro hc
        cases cs with
        | nil => exact hend hc rfl
        | cons d cs => exact hescape d cs hc rfl
      have hstep (cs : List Char) : stringBody? (c :: cs) = (stringBody? cs).map (c :: ·) :=
        stringBody?.eq_7 c cs hquote hline (fun h => absurd h hc) (fun _ h => absurd h hc) fun _ _ h => absurd h hc
      rw [hstep] at h
      obtain ⟨body', hbody, rfl⟩ := Option.map_eq_some_iff.mp h
      rw [List.cons_append, hstep, ih hbody]
      rfl

theorem runeBody?_append {cs body : List Char} (h : runeBody? cs = some body) (rest : List Char) :
    runeBody? (body ++ '\'' :: rest) = some body := by
  induction cs using runeBody?.induct generalizing body with
  | case1 => cases h
  | case2 cs =>
      cases h
      rfl
  | case3 cs => cases h
  | case4 => cases h
  | case5 c cs ih =>
      rw [runeBody?] at h
      obtain ⟨body', hbody, rfl⟩ := Option.map_eq_some_iff.mp h
      rw [List.cons_append, List.cons_append, runeBody?, ih hbody]
      rfl
  | case6 c cs hquote hline hend hescape ih =>
      have hc : c ≠ '\\' := by
        intro hc
        cases cs with
        | nil => exact hend hc rfl
        | cons d cs => exact hescape d cs hc rfl
      have hstep (cs : List Char) : runeBody? (c :: cs) = (runeBody? cs).map (c :: ·) :=
        runeBody?.eq_6 c cs hquote hline (fun h => absurd h hc) fun _ _ h => absurd h hc
      rw [hstep] at h
      obtain ⟨body', hbody, rfl⟩ := Option.map_eq_some_iff.mp h
      rw [List.cons_append, hstep, ih hbody]
      rfl

theorem rawBody?_append_of_some {cs body : List Char} (h : rawBody? cs = some body) (rest : List Char) :
    rawBody? (body ++ '\x60' :: rest) = some body := by
  apply rawBody?_append
  induction cs using rawBody?.induct generalizing body with
  | case1 => cases h
  | case2 cs =>
      cases h
      exact List.not_mem_nil
  | case3 c cs hc ih =>
      rw [rawBody?.eq_3 c cs hc] at h
      obtain ⟨body', hbody, rfl⟩ := Option.map_eq_some_iff.mp h
      rw [List.mem_cons, not_or]
      exact ⟨fun heq => hc heq.symm, ih hbody⟩

/-- A literal is read up to the sign that closes it. -/
theorem lexeme_literal {literal value : String} (h : denoted? literal = some value) (rest : List Char) :
    ∃ c tail, literal.toList = c :: tail ∧ lexeme c (tail ++ rest) = .ok ⟨.token (.string value), tail⟩ := by
  unfold denoted? at h
  split at h
  · rename_i cs hchars
    split at h
    · cases h
    · rename_i body hbody
      split_ifs at h with hcs
      subst hcs
      obtain ⟨value', hvalue, rfl⟩ := Option.map_eq_some_iff.mp h
      refine ⟨'"', body ++ ['"'], hchars, ?_⟩
      have hlexeme (cs : List Char) : lexeme '"' cs = stringLexeme cs := rfl
      rw [List.append_assoc, List.singleton_append, hlexeme, stringLexeme, stringBody?_append hbody]
      cases hunescape : unescape body with
      | error fault =>
          rw [hunescape] at hvalue
          cases hvalue
      | ok value =>
          rw [hunescape] at hvalue
          cases hvalue
          simp only [hunescape]
  · rename_i cs hchars
    split at h
    · cases h
    · rename_i body hbody
      split_ifs at h with hcs
      subst hcs
      cases h
      refine ⟨'\x60', body ++ ['\x60'], hchars, ?_⟩
      have hlexeme (cs : List Char) : lexeme '\x60' cs = rawStringLexeme cs := rfl
      rw [List.append_assoc, List.singleton_append, hlexeme, rawStringLexeme, rawBody?_append_of_some hbody]
  · cases h

theorem lexeme_rune {literal : String} (h : isRune literal = true) (rest : List Char) :
    ∃ c tail, literal.toList = c :: tail ∧ lexeme c (tail ++ rest) = .ok ⟨.token .rune, tail⟩ := by
  unfold isRune at h
  split at h
  · rename_i cs hchars
    obtain ⟨body, hbody, h⟩ := (Option.any_eq_true _ _).mp h
    rw [Bool.and_eq_true, bne_iff_ne, beq_iff_eq] at h
    obtain ⟨hne, rfl⟩ := h
    refine ⟨'\'', body ++ ['\''], hchars, ?_⟩
    have hlexeme (cs : List Char) : lexeme '\'' cs = runeLexeme cs := rfl
    rw [List.append_assoc, List.singleton_append, hlexeme, runeLexeme, runeBody?_append hbody]
    cases body with
    | nil => exact absurd rfl hne
    | cons c body => rfl
  · cases h

theorem numberTail_append {previous : Char} {cs rest : List Char} (hcs : ∀ c ∈ cs, isNumberPart c = true)
    (hrest : ∀ c ∈ rest.head?, (isNumberPart c || c == '+' || c == '-') = false) :
    numberTail previous (cs ++ rest) = cs := by
  induction cs generalizing previous with
  | nil =>
      cases rest with
      | nil => rfl
      | cons c rest =>
          have hc := hrest c rfl
          simp only [Bool.or_eq_false_iff, beq_eq_false_iff_ne] at hc
          rw [List.nil_append, numberTail, if_neg (Bool.not_eq_true _ ▸ hc.1.1), if_neg]
          rintro ⟨hsign, -⟩
          exact hsign.elim hc.1.2 hc.2
  | cons c cs ih =>
      rw [List.forall_mem_cons] at hcs
      rw [List.cons_append, numberTail, if_pos hcs.1, ih hcs.2]

theorem isIdentifierStart_of_ascii {c : Char} (h : c.toNat < 0x80) : isIdentifierStart c = (c == '_' || c.isAlpha) := by
  rw [isIdentifierStart, Text.isLetter, if_pos h]

theorem toNat_of_isDigit {c : Char} (h : c.isDigit = true) : 48 ≤ c.toNat ∧ c.toNat ≤ 57 := by
  simpa [Char.isDigit, UInt32.le_iff_toNat_le] using h

theorem isIdentifierStart_of_isDigit {c : Char} (h : c.isDigit = true) : isIdentifierStart c = false := by
  have hrange := toNat_of_isDigit h
  have hunderscore : c ≠ '_' := by
    rintro rfl
    cases h
  have halpha : c.isAlpha = false := by
    simp [Char.isAlpha, Char.isUpper, Char.isLower, UInt32.le_iff_toNat_le, Char.toNat_val]
    omega
  rw [isIdentifierStart_of_ascii (by omega), halpha, beq_eq_false_iff_ne.mpr hunderscore]
  rfl

theorem lexeme_numeral {text : String} (h : isNumeral text = true) {rest : List Char}
    (hrest : ∀ c ∈ rest.head?, (isNumberPart c || c == '+' || c == '-') = false) :
    ∃ c tail, text.toList = c :: tail ∧ lexeme c (tail ++ rest) = .ok ⟨.token .number, tail⟩ := by
  unfold isNumeral at h
  split at h
  · cases h
  · rename_i c tail hchars
    rw [Bool.and_eq_true, List.all_eq_true] at h
    refine ⟨c, tail, hchars, ?_⟩
    have hother {d : Char} (hd : d.isDigit = false) : c ≠ d := by
      rintro rfl
      rw [hd] at h
      cases h.1
    have hblank : isBlankChar c = false := by
      simp only [isBlankChar, Bool.or_eq_false_iff, beq_eq_false_iff_ne]
      exact ⟨⟨⟨⟨hother rfl, hother rfl⟩, hother rfl⟩, hother rfl⟩, hother rfl⟩
    have hslash : c ≠ '/' := hother rfl
    have hquote : c ≠ '"' := hother rfl
    have hraw : c ≠ '\x60' := hother rfl
    have hrune : c ≠ '\'' := hother rfl
    have hsemicolon : c ≠ ';' := hother rfl
    have hnumber : startsNumber c (tail ++ rest) = true := by
      rw [startsNumber, h.1]
      rfl
    simp only [lexeme, hblank, isIdentifierStart_of_isDigit h.1, hslash, hquote, hraw, hrune, hsemicolon, hnumber,
      false_and, Bool.false_eq_true, if_false, if_true, numberTail_append h.2 hrest]

/-- An operator has up to three characters, and those behind the first begin no comment and no number with it. -/
theorem operator_chars {text : String} (h : text ∈ operators) :
    (text.toList.head?.any singleOperators.contains = true) ∧
      (text.toList.length = 1 ∨ text.toList.length = 2 ∧ text ∈ doubleOperators ∨
        text.toList.length = 3 ∧ text ∈ tripleOperators) ∧
      ∀ d ∈ text.toList.tail.head?, d.isDigit = false ∧ (text.toList.head? = some '/' → d ≠ '/' ∧ d ≠ '*') := by
  have hall : ∀ text ∈ operators, (text.toList.head?.any singleOperators.contains = true) ∧
      (text.toList.length = 1 ∨ text.toList.length = 2 ∧ text ∈ doubleOperators ∨
        text.toList.length = 3 ∧ text ∈ tripleOperators) ∧
      (text.toList.tail.head?.all fun d =>
        decide (d.isDigit = false ∧ (text.toList.head? = some '/' → d ≠ '/' ∧ d ≠ '*'))) = true := by
    decide +kernel
  obtain ⟨hfirst, hlength, hsecond⟩ := hall text h
  refine ⟨hfirst, hlength, fun d hd => ?_⟩
  rw [Option.mem_def.mp hd] at hsecond
  exact of_decide_eq_true hsecond

/-- No operator begins as another kind of lexeme does. -/
theorem other_of_mem_singleOperators {c : Char} (h : c ∈ singleOperators) :
    isBlankChar c = false ∧ isIdentifierStart c = false ∧ c.isDigit = false ∧ c ≠ '"' ∧ c ≠ '\x60' ∧ c ≠ '\'' ∧
      c ≠ ';' := by
  have hall : (singleOperators.all fun c => decide (c.toNat < 0x80) && !isBlankChar c && !(c == '_' || c.isAlpha) &&
      !c.isDigit && c != '"' && c != '\x60' && c != '\'' && c != ';') = true := by
    decide +kernel
  have hc := List.all_eq_true.mp hall c h
  simp only [Bool.and_eq_true, Bool.not_eq_true', bne_iff_ne, decide_eq_true_eq] at hc
  obtain ⟨⟨⟨⟨⟨⟨⟨hascii, hblank⟩, hstart⟩, hdigit⟩, hquote⟩, hraw⟩, hrune⟩, hsemicolon⟩ := hc
  exact ⟨hblank, (isIdentifierStart_of_ascii hascii).trans hstart, hdigit, hquote, hraw, hrune, hsemicolon⟩

section Operators

variable {text : String} {c : Char} {tail rest : List Char} (hchars : text.toList = c :: tail)
  (hrest : ∀ d ∈ rest.head?, (⟨.operator, text⟩ : Word).runsOn d = false)

include hchars hrest

theorem not_longer_operator {op : String} (hop : op ∈ "//" :: "/*" :: operators) {d : Char} (hd : d ∈ rest.head?) :
    ¬c :: (tail ++ [d]) <+: op.toList := by
  intro hprefix
  have hends := hrest d hd
  simp only [Word.runsOn, hchars, Bool.or_eq_false_iff, List.any_eq_false] at hends
  exact hends.1 op hop (List.isPrefixOf_iff_prefix.mpr hprefix)

theorem operator_opens_no_comment (h : text ∈ operators) {d : Char} (hd : d = '/' ∨ d = '*') :
    ¬(c = '/' ∧ (tail ++ rest).head? = some d) := by
  rintro ⟨rfl, hhead⟩
  cases tail with
  | nil =>
      have hop : String.ofList ['/', d] ∈ "//" :: "/*" :: operators := by
        rcases hd with rfl | rfl <;> decide
      exact not_longer_operator hchars hrest hop hhead (by rw [String.toList_ofList]; exact List.prefix_rfl)
  | cons e tail =>
      have hsecond := (operator_chars h).2.2
      rw [hchars] at hsecond
      cases hhead
      obtain ⟨hslash, hstar⟩ := (hsecond d rfl).2 rfl
      exact hd.elim hslash hstar

theorem operator_starts_no_number (h : text ∈ operators) (hdigit : c.isDigit = false) :
    startsNumber c (tail ++ rest) = false := by
  rw [startsNumber, hdigit, Bool.false_or, Bool.and_eq_false_iff, Option.any_eq_false]
  by_cases hpoint : c = '.'
  · right
    intro d hd
    cases tail with
    | nil =>
        have htext : text = "." := by rw [← String.ofList_toList (s := text), hchars, hpoint]
        have hends := hrest d hd
        rw [htext] at hends
        exact (Bool.or_eq_false_iff.mp hends).2
    | cons e tail =>
        have hsecond := (operator_chars h).2.2
        rw [hchars] at hsecond
        cases hd
        exact (hsecond d rfl).1
  · exact .inl (beq_eq_false_iff_ne.mpr hpoint)

/-- No operator has one more character. -/
theorem no_longer_operator {ops : List String} {n : Nat} (hops : ∀ op ∈ ops, op ∈ operators ∧ op.toList.length = n + 1)
    (hn : tail.length < n) : ops.contains (String.ofList (c :: (tail ++ rest).take n)) = false := by
  rw [List.contains_eq_mem, decide_eq_false_iff_not]
  intro hmem
  obtain ⟨hop, hlength⟩ := hops _ hmem
  rw [String.toList_ofList, List.length_cons, List.length_take, List.length_append] at hlength
  cases rest with
  | nil =>
      rw [List.length_nil] at hlength
      omega
  | cons d rest =>
      apply not_longer_operator hchars hrest (List.mem_cons_of_mem _ (List.mem_cons_of_mem _ hop)) (d := d) rfl
      rw [String.toList_ofList, List.cons_prefix_cons]
      refine ⟨rfl, List.prefix_take_iff.mpr ⟨?_, ?_⟩⟩
      · simp
      · simpa using hn

end Operators

/-- An operator is read when no longer one begins with it and what comes behind it. -/
theorem lexeme_operator {text : String} (h : text ∈ operators) {rest : List Char}
    (hrest : ∀ c ∈ rest.head?, (⟨.operator, text⟩ : Word).runsOn c = false) :
    ∃ c tail, text.toList = c :: tail ∧ lexeme c (tail ++ rest) = .ok ⟨.token .operator, tail⟩ := by
  obtain ⟨hfirst, hlength, -⟩ := operator_chars h
  cases hchars : text.toList with
  | nil =>
      rw [hchars] at hfirst
      cases hfirst
  | cons c tail =>
      refine ⟨c, tail, rfl, ?_⟩
      have htext : String.ofList (c :: tail) = text := by rw [← hchars, String.ofList_toList]
      rw [hchars] at hfirst hlength
      have hsingle : c ∈ singleOperators := List.contains_iff_mem.mp hfirst
      obtain ⟨hblank, hstart, hdigit, hquote, hraw, hrune, hsemicolon⟩ := other_of_mem_singleOperators hsingle
      have hline := operator_opens_no_comment hchars hrest h (d := '/') (.inl rfl)
      have hblock := operator_opens_no_comment hchars hrest h (d := '*') (.inr rfl)
      have hnumber := operator_starts_no_number hchars hrest h hdigit
      have hlexeme : lexeme c (tail ++ rest) = operatorLexeme c (tail ++ rest) := by
        simp only [lexeme, hblank, hstart, hquote, hraw, hrune, hsemicolon, hnumber, hline, hblock, Bool.false_eq_true,
          if_false]
      have hdouble : ∀ op ∈ doubleOperators, op ∈ operators ∧ op.toList.length = 1 + 1 := by decide
      have htriple : ∀ op ∈ tripleOperators, op ∈ operators ∧ op.toList.length = 2 + 1 := by decide
      rw [hlexeme, operatorLexeme]
      rcases hlength with hlength | ⟨hlength, hmem⟩ | ⟨hlength, hmem⟩
      · obtain rfl : tail = [] := List.length_eq_zero_iff.mp (by simpa using hlength)
        rw [no_longer_operator hchars hrest htriple (by decide), no_longer_operator hchars hrest hdouble (by decide)]
        simp [hsingle]
      · obtain ⟨d, rfl⟩ : ∃ d, tail = [d] := List.length_eq_one_iff.mp (by simpa using hlength)
        have htake : ([d] ++ rest).take 1 = [d] := rfl
        rw [no_longer_operator hchars hrest htriple Nat.one_lt_two, htake, htext]
        simp [hmem]
      · obtain ⟨d, e, rfl⟩ : ∃ d e, tail = [d, e] := List.length_eq_two.mp (by simpa using hlength)
        have htake : ([d, e] ++ rest).take 2 = [d, e] := rfl
        rw [htake, htext]
        simp [hmem]

/-- A word is read up to its end. -/
theorem lexeme_of_valid {w : Word} (h : w.Valid) (hkind : w.kind ≠ .newline) {rest : List Char}
    (hrest : ∀ c ∈ rest.head?, w.runsOn c = false) :
    ∃ c tail, w.source.toList = c :: tail ∧ lexeme c (tail ++ rest) = .ok ⟨.token w.kind, tail⟩ := by
  obtain ⟨kind, text⟩ := w
  cases kind with
  | identifier =>
      obtain ⟨c, tail, hchars, hc, htail⟩ := chars_of_isWord (isWord_of_isIdentifier h)
      have hkeyword := (Bool.and_eq_true_iff.mp h).2
      rw [Bool.not_eq_true'] at hkeyword
      refine ⟨c, tail, hchars, ?_⟩
      rw [lexeme_word hc htail hrest, ← hchars, String.ofList_toList, hkeyword]
      rfl
  | keyword =>
      obtain ⟨c, tail, hchars, hc, htail⟩ := chars_of_isWord (isWord_of_mem_keywords h)
      refine ⟨c, tail, hchars, ?_⟩
      rw [lexeme_word hc htail hrest, ← hchars, String.ofList_toList, List.contains_iff_mem.mpr h]
      rfl
  | number => exact lexeme_numeral h hrest
  | rune => exact lexeme_rune h rest
  | string value => exact lexeme_literal h rest
  | operator => exact lexeme_operator h hrest
  | semicolon =>
      obtain rfl : text = ";" := h
      exact ⟨';', [], rfl, rfl⟩
  | newline => exact absurd rfl hkind

/-! ### Words in a row -/

/-- Blanks are pieces of their own. -/
theorem pieces_blanks {gap : List Char} (hgap : ∀ c ∈ gap, isBlankChar c = true) (rest : List Char) (pos : Position)
    (used : Bool) : ∃ blanks used', (∀ p ∈ blanks, ∃ c ∈ gap, ∃ pos, p = .blank c pos) ∧
      pieces pos used (gap ++ rest) = (pieces (pos.advance gap) used' rest).map (blanks ++ ·) := by
  induction gap generalizing pos used with
  | nil =>
      refine ⟨[], used, List.forall_mem_nil _, ?_⟩
      have hpos : pos.advance [] = pos := rfl
      rw [List.nil_append, hpos]
      cases pieces pos used rest <;> rfl
  | cons c gap ih =>
      rw [List.forall_mem_cons] at hgap
      obtain ⟨blanks, used', hblanks, hpieces⟩ := ih hgap.2 (pos.step c) (lineUsedAfter .blank [c] used)
      refine ⟨.blank c pos :: blanks, used', List.forall_mem_cons.mpr ⟨⟨c, List.mem_cons_self, pos, rfl⟩, ?_⟩, ?_⟩
      · intro p hp
        obtain ⟨d, hd, hblank⟩ := hblanks p hp
        exact ⟨d, List.mem_cons_of_mem _ hd, hblank⟩
      · have hstep : pos.advance [c] = pos.step c := rfl
        have hadvance : pos.advance (c :: gap) = (pos.step c).advance gap := rfl
        rw [List.cons_append, pieces, lexeme_blank hgap.1]
        simp only [List.length_nil, List.drop_zero, hstep, hadvance, hpieces]
        cases pieces ((pos.step c).advance gap) used' rest <;> rfl

/-- A line end among blanks asks for a semicolon only behind the end of a statement. -/
theorem insertSemicolons_blanks {blanks : List Piece} {gap : List Char} {last : Option Token}
    (hblanks : ∀ p ∈ blanks, ∃ c ∈ gap, ∃ pos, p = .blank c pos)
    (hlast : '\n' ∈ gap → last.any Token.endsStatement = false) (stop : Position) (rest : List Piece) :
    insertSemicolons stop last (blanks ++ rest) = insertSemicolons stop last rest := by
  induction blanks with
  | nil => rfl
  | cons p blanks ih =>
      rw [List.forall_mem_cons] at hblanks
      obtain ⟨⟨c, hc, pos, rfl⟩, hblanks⟩ := hblanks
      rw [List.cons_append, insertSemicolons, Piece.endsLine]
      · by_cases hline : c = '\n'
        · rw [if_pos hline]
          dsimp only
          rw [hlast (hline ▸ hc), ih hblanks]
          rfl
        · rw [if_neg hline]
          exact ih hblanks
      · rintro token ⟨⟩

/-- The last word ends a statement. -/
def endedBehind (ended : Bool) (layout : Layout) : Bool :=
  (layout.getLast?.map fun p => p.1.endsStatement).getD ended

theorem endedBehind_cons (ended : Bool) (p : Word × String) (layout : Layout) :
    endedBehind ended (p :: layout) = endedBehind p.1.endsStatement layout := by
  rw [endedBehind, endedBehind, List.getLast?_cons]
  cases layout.getLast? <;> rfl

theorem source_of_kind {w : Word} (hkind : w.kind ≠ .newline) : w.source = w.text := by
  unfold Word.source
  split
  · rename_i hnewline
    exact absurd hnewline hkind
  · rfl

/-- The tokens of a source are its words, with a semicolon at its end if the last word ends a statement. -/
theorem pieces_written {ended : Bool} {layout : Layout} (h : Legible ended layout) (pos : Position) (used : Bool) :
    ∃ ps, pieces pos used (written layout) = .ok ps ∧ ∀ stop last, last.any Token.endsStatement = ended →
      (insertSemicolons stop last ps).map Token.word =
        layout.map Prod.fst ++ if endedBehind ended layout then [⟨.newline, ""⟩] else [] := by
  induction layout generalizing ended pos used with
  | nil =>
      refine ⟨[], by rw [written, List.flatMap_nil, pieces], fun stop last hlast => ?_⟩
      have hended : endedBehind ended [] = ended := rfl
      rw [insertSemicolons, hlast, hended]
      cases ended <;> rfl
  | cons p layout ih =>
      obtain ⟨w, gap⟩ := p
      obtain ⟨hvalid, hnewline, hgap, hline, hruns, hrest⟩ := h
      rw [List.all_eq_true] at hgap
      rw [Option.any_eq_false] at hruns
      have hwritten : written ((w, gap) :: layout) = w.source.toList ++ (gap.toList ++ written layout) := by
        rw [written, List.flatMap_cons, List.append_assoc]
        rfl
      rw [hwritten, endedBehind_cons, List.map_cons]
      by_cases hkind : w.kind = .newline
      · obtain ⟨kind, text⟩ := w
        obtain rfl : kind = .newline := hkind
        obtain rfl : text = "" := hvalid
        obtain ⟨blanks, used', hblanks, hpieces⟩ :=
          pieces_blanks hgap (written layout) (pos.step '\n') (lineUsedAfter .blank ['\n'] used)
        obtain ⟨ps, hps, htokens⟩ := ih hrest ((pos.step '\n').advance gap.toList) used'
        refine ⟨.blank '\n' pos :: (blanks ++ ps), ?_, fun stop last hlast => ?_⟩
        · have hsource : (⟨.newline, ""⟩ : Word).source.toList = ['\n'] := rfl
          rw [hsource, List.singleton_append, pieces, lexeme_blank (by decide)]
          have hstep : pos.advance ['\n'] = pos.step '\n' := rfl
          simp only [List.length_nil, List.drop_zero, hstep, hpieces, hps]
          rfl
        · rw [hnewline rfl] at hlast
          rw [insertSemicolons, Piece.endsLine, if_pos rfl]
          · dsimp only
            rw [hlast, if_pos rfl, List.map_cons, insertSemicolons_blanks hblanks (fun _ => rfl), htokens stop none rfl]
            rfl
          · rintro token ⟨⟩
      · obtain ⟨c, tail, hchars, hlexeme⟩ := lexeme_of_valid hvalid hkind hruns
        obtain ⟨blanks, used', hblanks, hpieces⟩ :=
          pieces_blanks hgap (written layout) (pos.advance (c :: tail)) true
        obtain ⟨ps, hps, htokens⟩ := ih hrest ((pos.advance (c :: tail)).advance gap.toList) used'
        have htext : String.ofList (c :: tail) = w.text := by
          rw [← hchars, String.ofList_toList, source_of_kind hkind]
        refine ⟨.token ⟨w.kind, w.text, pos⟩ :: (blanks ++ ps), ?_, fun stop last hlast => ?_⟩
        · have hused : lineUsedAfter (.token w.kind) (c :: tail) used = true := rfl
          rw [hchars, List.cons_append, pieces, hlexeme]
          simp only [List.drop_left, hused, hpieces, hps, pieceOf, htext]
          rfl
        · have hends : (some (⟨w.kind, w.text, pos⟩ : Token)).any Token.endsStatement = w.endsStatement := rfl
          rw [insertSemicolons, List.map_cons,
            insertSemicolons_blanks hblanks fun hmem => hends.trans (hline hmem), htokens stop _ hends]
          rfl

theorem tokenize_written {layout : Layout} (h : Legible false layout) :
    ∃ lexed, tokenize (String.ofList (written layout)) = .ok lexed ∧ lexed.tokens.map Token.word =
      layout.map Prod.fst ++ if endedBehind false layout then [⟨.newline, ""⟩] else [] := by
  obtain ⟨ps, hps, htokens⟩ := pieces_written h .start false
  refine ⟨⟨insertSemicolons (Position.start.advance (written layout)) none ps, ps.filterMap Piece.comment?,
    Position.start.advance (written layout)⟩, ?_, htokens _ none rfl⟩
  rw [tokenize, String.toList_ofList, hps]
  rfl

end ApiForge.Source
