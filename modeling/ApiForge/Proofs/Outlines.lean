import ApiForge.Proofs.Casing
import ApiForge.Proofs.LineWords
import ApiForge.Proofs.Quotation
import ApiForge.Proofs.StructLines
import Mathlib

/-! Lines of which not everything is known. A generated line is fixed text with names in it, and whatever the names are,
the line is read as words in the same places. So which packages a line takes something from can be computed from its
outline: the characters that are known, and for the rest what kind of text it is. -/

namespace ApiForge.Code

open Source

/-! ### Outlines -/

/-- The packages of a version that files of no version use. -/
inductive Alias where
  | api
  | client
  deriving DecidableEq, Repr

/-- What is known of a piece of a line. -/
inductive Glyph where
  | char (c : Char)
  | word
  /-- A word that no package goes by. -/
  | free
  /-- A word that starts with a character beyond ASCII. -/
  | foreign
  /-- A digit with letters, digits and underscores of ASCII behind it. -/
  | numeral
  /-- Anything that quotation marks can enclose as it is. -/
  | prose
  | aliased (a : Alias)
  deriving DecidableEq, Repr

/-- What the packages are called. -/
structure Packages where
  IsPackage : String → Prop
  aliasName : Alias → String

/-- Packages go by names that start with a small letter of ASCII. -/
structure Packages.Regular (p : Packages) : Prop where
  identifiers : ∀ name, p.IsPackage name → isIdentifier name = true
  small : ∀ name, p.IsPackage name → ∀ c ∈ name.toList.head?, c.isLower = true
  aliases : ∀ a, isIdentifier (p.aliasName a) = true

/-- The characters that have to be escaped between quotation marks. -/
def reservedChars : List Char :=
  ['\\', '"', '\n']

namespace Glyph

def Fits (p : Packages) : Glyph → List Char → Prop
  | char c, text => text = [c]
  | word, text => isWord (String.ofList text) = true
  | free, text => isWord (String.ofList text) = true ∧ ¬p.IsPackage (String.ofList text)
  | foreign, text => isWord (String.ofList text) = true ∧ ∀ c ∈ text.head?, 0x80 ≤ c.toNat
  | numeral, text => ∃ c cs, text = c :: cs ∧ c.isDigit = true ∧ ∀ d ∈ cs, (d.isAlphanum || d == '_') = true
  | prose, text => ∀ c ∈ text, c ∉ reservedChars
  | aliased a, text => String.ofList text = p.aliasName a

/-- The glyph may go on with a word. -/
def inWord : Glyph → Bool
  | char c => isIdentifierPart c
  | prose => false
  | _ => true

/-- The glyph may go on with a number. -/
def inNumber : Glyph → Bool
  | char c => isNumberPart c
  | numeral => true
  | _ => false

def inString : Glyph → Bool
  | char c => !reservedChars.contains c
  | _ => true

def isLineEnd : Glyph → Bool
  | char c => c == '\n'
  | _ => false

end Glyph

/-- The text is what the glyphs stand for, one after the other. -/
inductive Filled (p : Packages) : List Glyph → List Char → Prop
  | nil : Filled p [] []
  | cons {g : Glyph} {gs : List Glyph} {front back : List Char} (hg : g.Fits p front) (hgs : Filled p gs back) :
      Filled p (g :: gs) (front ++ back)

section Filled

variable {p : Packages} {g : Glyph} {gs gs' : List Glyph} {text : List Char}

theorem Filled.append {text' : List Char} (h : Filled p gs text) (h' : Filled p gs' text') :
    Filled p (gs ++ gs') (text ++ text') := by
  induction h with
  | nil => exact h'
  | cons hg hgs ih =>
      rw [List.cons_append, List.append_assoc]
      exact .cons hg ih

theorem Filled.split (h : Filled p (gs ++ gs') text) :
    ∃ front back, text = front ++ back ∧ Filled p gs front ∧ Filled p gs' back := by
  induction gs generalizing text with
  | nil => exact ⟨[], text, rfl, .nil, h⟩
  | cons g gs ih =>
      obtain _ | @⟨_, _, first, rest, hg, hgs⟩ := h
      obtain ⟨front, back, rfl, hfront, hback⟩ := ih hgs
      exact ⟨first ++ front, back, (List.append_assoc ..).symm, .cons hg hfront, hback⟩

/-- A known character is the first one of its text. -/
theorem Filled.char {c : Char} (h : Filled p (.char c :: gs) text) : ∃ rest, text = c :: rest ∧ Filled p gs rest := by
  obtain _ | @⟨_, _, front, back, hg, hgs⟩ := h
  obtain rfl : front = [c] := hg
  exact ⟨back, rfl, hgs⟩

theorem filled_map_char (cs : List Char) : Filled p (cs.map .char) cs := by
  induction cs with
  | nil => exact .nil
  | cons c cs ih => exact @Filled.cons p (.char c) _ [c] cs rfl ih

/-- What holds of the characters of each glyph holds of all of them. -/
theorem Filled.forall_mem {q : Char → Prop} (h : Filled p gs text)
    (hgs : ∀ g ∈ gs, ∀ front, g.Fits p front → ∀ c ∈ front, q c) : ∀ c ∈ text, q c := by
  induction h with
  | nil => exact List.forall_mem_nil _
  | cons hg hgs' ih =>
      rw [List.forall_mem_cons] at hgs
      rw [List.forall_mem_append]
      exact ⟨hgs.1 _ hg, ih hgs.2⟩

end Filled

/-! ### The characters of a glyph -/

section Characters

variable {p : Packages} {g : Glyph} {text : List Char}

theorem isIdentifierPart_of_isIdentifierStart {c : Char} (h : isIdentifierStart c = true) : isIdentifierPart c = true := by
  unfold isIdentifierStart Text.isLetter at h
  unfold isIdentifierPart Text.isLetterOrNumber
  rw [Bool.or_eq_true] at h ⊢
  refine h.imp id fun hletter => ?_
  split_ifs at hletter ⊢
  · rw [Char.isAlphanum, hletter, Bool.true_or]
  · rw [hletter, Bool.true_or]

theorem isIdentifierPart_of_ascii {c : Char} (h : (c.isAlphanum || c == '_') = true) : isIdentifierPart c = true := by
  rw [isIdentifierPart, Bool.or_eq_true]
  rw [Bool.or_eq_true] at h
  refine h.symm.imp id fun halphanum => ?_
  rw [Text.isLetterOrNumber, if_pos (Text.toNat_lt_of_isAlphanum halphanum), halphanum]

/-- The glyphs that a word starts with. -/
def Glyph.startsWord : Glyph → Bool
  | char c => isIdentifierStart c
  | word | free | foreign | aliased _ => true
  | numeral | prose => false

theorem Glyph.Fits.isWord (hp : p.Regular) (h : g.Fits p text) (hg : g.startsWord = true) (hchar : ∀ c, g ≠ .char c) :
    Source.isWord (String.ofList text) = true := by
  cases g with
  | char c => exact absurd rfl (hchar c)
  | word => exact h
  | free => exact h.1
  | foreign => exact h.1
  | numeral => cases hg
  | prose => cases hg
  | aliased a =>
      have hname : String.ofList text = p.aliasName a := h
      rw [hname]
      exact isWord_of_isIdentifier (hp.aliases a)

theorem Glyph.Fits.startsWord (hp : p.Regular) (h : g.Fits p text) (hg : g.startsWord = true) :
    ∃ c cs, text = c :: cs ∧ isIdentifierStart c = true ∧ ∀ d ∈ cs, isIdentifierPart d = true := by
  by_cases hchar : ∃ c, g = .char c
  · obtain ⟨c, rfl⟩ := hchar
    obtain rfl : text = [c] := h
    exact ⟨c, [], rfl, hg, List.forall_mem_nil _⟩
  · obtain ⟨c, cs, hchars, hword⟩ := chars_of_isWord (h.isWord hp hg (fun c hc => hchar ⟨c, hc⟩))
    rw [String.toList_ofList] at hchars
    exact ⟨c, cs, hchars, hword⟩

theorem Glyph.Fits.inWord (hp : p.Regular) (h : g.Fits p text) (hg : g.inWord = true) :
    ∀ c ∈ text, isIdentifierPart c = true := by
  by_cases hstarts : g.startsWord = true
  · obtain ⟨c, cs, rfl, hc, hcs⟩ := h.startsWord hp hstarts
    exact List.forall_mem_cons.mpr ⟨isIdentifierPart_of_isIdentifierStart hc, hcs⟩
  · cases g with
    | char c =>
        obtain rfl : text = [c] := h
        exact List.forall_mem_singleton.mpr hg
    | numeral =>
        obtain ⟨c, cs, rfl, hc, hcs⟩ := h
        refine List.forall_mem_cons.mpr ⟨?_, fun d hd => isIdentifierPart_of_ascii (hcs d hd)⟩
        exact isIdentifierPart_of_ascii (by rw [Char.isAlphanum, hc, Bool.or_true, Bool.true_or])
    | prose => cases hg
    | _ => exact absurd (by rfl) hstarts

theorem Glyph.Fits.inNumber (h : g.Fits p text) (hg : g.inNumber = true) : ∀ c ∈ text, isNumberPart c = true := by
  cases g with
  | char c =>
      obtain rfl : text = [c] := h
      exact List.forall_mem_singleton.mpr hg
  | numeral =>
      obtain ⟨c, cs, rfl, hc, hcs⟩ := h
      have hpart {d : Char} (hd : (d.isAlphanum || d == '_') = true) : isNumberPart d = true := by
        rw [isNumberPart, hd, Bool.true_or]
      exact List.forall_mem_cons.mpr ⟨hpart (by rw [Char.isAlphanum, hc, Bool.or_true, Bool.true_or]),
        fun d hd => hpart (hcs d hd)⟩
  | _ => cases hg

/-- No word has a character that has to be escaped. -/
theorem isIdentifierPart_of_reserved {c : Char} (h : c ∈ reservedChars) : isIdentifierPart c = false := by
  have hall : ∀ c ∈ reservedChars, isIdentifierPart c = false := by
    simp only [reservedChars, List.forall_mem_cons]
    refine ⟨?_, ?_, ?_, List.forall_mem_nil _⟩ <;> decide +kernel
  exact hall c h

theorem Glyph.Fits.inString (hp : p.Regular) (h : g.Fits p text) (hg : g.inString = true) :
    ∀ c ∈ text, c ∉ reservedChars := by
  by_cases hword : g.inWord = true
  · intro c hc hreserved
    exact absurd ((h.inWord hp hword c hc).symm.trans (isIdentifierPart_of_reserved hreserved)) (by decide)
  · cases g with
    | char c =>
        obtain rfl : text = [c] := h
        rw [Glyph.inString, Bool.not_eq_true', List.contains_eq_mem, decide_eq_false_iff_not] at hg
        exact List.forall_mem_singleton.mpr hg
    | prose => exact h
    | _ => exact absurd (by rfl) hword

end Characters

/-- No text of a glyph has a line end, unless it is the glyph. -/
theorem Filled.lineless {p : Packages} {gs : List Glyph} {text : List Char} (h : Filled p gs text) (hp : p.Regular)
    (hgs : ∀ g ∈ gs, g.isLineEnd = false) : '\n' ∉ text := by
  have hmem : ∀ c ∈ text, c ≠ '\n' := by
    refine h.forall_mem fun g hg front hfits c hc => ?_
    by_cases hchar : ∃ d, g = .char d
    · obtain ⟨d, rfl⟩ := hchar
      obtain rfl : front = [d] := hfits
      obtain rfl := List.mem_singleton.mp hc
      exact beq_eq_false_iff_ne.mp (hgs _ hg)
    · rintro rfl
      refine hfits.inString hp ?_ _ hc (by decide)
      cases g with
      | char d => exact absurd ⟨d, rfl⟩ hchar
      | _ => rfl
  exact fun hline => hmem _ hline rfl

theorem forall_isLineEnd {gs : List Glyph} (h : gs.all (!·.isLineEnd) = true) : ∀ g ∈ gs, g.isLineEnd = false := by
  intro g hg
  exact (Bool.not_eq_true' _).mp (List.all_eq_true.mp h g hg)

/-- Characters that need not be escaped spell themselves. -/
theorem spelled_self {text : List Char} (h : ∀ c ∈ text, c ∉ reservedChars) : Spelled reservedChars text text := by
  refine ⟨text.map ([·]), ?_, (List.flatMap_singleton' text).symm⟩
  rw [List.forall₂_map_right_iff, List.forall₂_same]
  exact fun c hc => .raw (h c hc)

/-! ### Shapes of words -/

/-- What a word is, as far as it matters for what is taken from a package. -/
inductive Shape where
  | word (glyphs : List Glyph)
  | point
  | other
  deriving DecidableEq, Repr

/-- The word has the shape. -/
def Shape.Fits (p : Packages) : Shape → Word → Prop
  | word gs, w => Filled p gs w.text.toList ∧ w.kind = if keywords.contains w.text then .keyword else .identifier
  | point, w => w = .sign "."
  | other, w => w.kind ≠ .identifier ∧ w ≠ .sign "."

/-- The operators and the beginnings of comments, which no operator is read in front of. -/
def operatorChars : List (List Char) := [
  ['<', '<', '='], ['>', '>', '='], ['&', '^', '='], ['.', '.', '.'], ['&', '&'], ['|', '|'], ['<', '-'], ['+', '+'],
  ['-', '-'], ['=', '='], ['!', '='], ['<', '='], ['>', '='], [':', '='], ['+', '='], ['-', '='], ['*', '='],
  ['/', '='], ['%', '='], ['&', '='], ['|', '='], ['^', '='], ['<', '<'], ['>', '>'], ['&', '^']] ++
  singleOperators.map ([·])

/-- The text that the glyphs stand for, when they are all characters. -/
def known? : List Glyph → Option (List Char)
  | [] => some []
  | .char c :: gs => (known? gs).map (c :: ·)
  | _ => none

/-- No operator goes on with what the glyphs stand for. -/
def endsOperator (operator : List Char) : List Glyph → Bool
  | [] => true
  | .char c :: _ =>
    if c = ' ' ∨ isIdentifierPart c then !(operator == ['.'] && c.isDigit)
    else !(['/', '/'] :: ['/', '*'] :: operatorChars).any ((operator ++ [c]).isPrefixOf ·)
  | .numeral :: _ => operator != ['.']
  | .prose :: _ => false
  | _ => true

/-- How many of the glyphs belong to the operator that starts with the character. -/
def operatorRest? (c : Char) (gs : List Glyph) : Option Nat :=
  [0, 1, 2].find? fun n =>
    (known? (gs.take n)).any fun cs => endsOperator (c :: cs) (gs.drop n) && operatorChars.contains (c :: cs)

/-- The first lexeme of a line: its shape, if it is a word, and the glyphs behind it. -/
def front? : Glyph → List Glyph → Option (Option Shape × List Glyph)
  | .prose, _ => none
  | .char c, gs =>
    if c = ' ' ∨ c = '\t' then some (none, gs)
    else if c = '/' then if gs.head? = some (.char '/') ∧ gs.all (!·.isLineEnd) then some (none, []) else none
    else if c = '"' then
      match gs.dropWhile Glyph.inString with
      | .char '"' :: rest => some (some .other, rest)
      | _ => none
    else if c = ';' then some (some .other, gs)
    else if isIdentifierStart c then wordFront (.char c) gs
    else if c.isDigit then numberFront gs
    else (operatorRest? c gs).map fun n =>
      (some (if c = '.' ∧ gs.take n = [] then .point else .other), gs.drop n)
  | .numeral, gs => numberFront gs
  | g, gs => wordFront g gs
where
  wordFront (g : Glyph) (gs : List Glyph) : Option (Option Shape × List Glyph) :=
    let rest := gs.dropWhile Glyph.inWord
    if rest.head? = some .prose then none else some (some (.word (g :: gs.takeWhile Glyph.inWord)), rest)
  numberFront (gs : List Glyph) : Option (Option Shape × List Glyph) :=
    let rest := gs.dropWhile Glyph.inNumber
    if endsNumber rest then some (some .other, rest) else none
  endsNumber : List Glyph → Bool
    | [] => true
    | .char c :: _ => !(c == '+' || c == '-')
    | .foreign :: _ => true
    | _ => false

/-- The shapes of the words of a line, which has no more than `n` lexemes. -/
def shapes? : Nat → List Glyph → Option (List Shape)
  | _, [] => some []
  | 0, _ :: _ => none
  | n + 1, g :: gs =>
    match front? g gs with
    | none => none
    | some (shape, rest) => (shapes? n rest).map (shape.toList ++ ·)

section Shapes

variable {p : Packages} {g : Glyph} {gs rest : List Glyph} {text : List Char} {shape : Option Shape}

/-- The first lexeme of the text has the shape, and what comes behind it is what the other glyphs stand for. -/
def Leads (p : Packages) (shape : Option Shape) (gs : List Glyph) (text : List Char) : Prop :=
  ∃ kind c tail rest, text = c :: (tail ++ rest) ∧ lexeme c (tail ++ rest) = .ok ⟨kind, tail⟩ ∧ Filled p gs rest ∧
    match shape with
    | none => ∀ token, kind ≠ .token token
    | some shape => ∃ token, kind = .token token ∧ shape.Fits p ⟨token, String.ofList (c :: tail)⟩

theorem head?_dropWhile {α : Type} (q : α → Bool) (xs : List α) : ∀ x ∈ (xs.dropWhile q).head?, q x = false := by
  intro x hx
  have hhead := List.head?_dropWhile_not q xs
  rw [Option.mem_def.mp hx] at hhead
  simpa using hhead

theorem endsWord_of_filled (h : Filled p gs text) (hhead : ∀ g ∈ gs.head?, g.inWord = false)
    (hprose : gs.head? ≠ some .prose) : EndsWord text := by
  obtain _ | @⟨g, gs, front, back, hg, hgs⟩ := h
  · exact fun c hc => by cases hc
  · have hchar := hhead g rfl
    cases g with
    | char c =>
        obtain rfl : front = [c] := hg
        exact endsWord_cons hchar back
    | prose => exact absurd rfl hprose
    | _ => cases hchar

theorem wordFront_leads (hp : p.Regular) (h : front?.wordFront g gs = some (shape, rest)) (hg : g.startsWord = true)
    (htext : Filled p (g :: gs) text) : Leads p shape rest text := by
  unfold front?.wordFront at h
  dsimp only at h
  split_ifs at h with hprose
  cases h
  rw [← List.takeWhile_append_dropWhile (p := Glyph.inWord) (l := gs), ← List.cons_append] at htext
  obtain ⟨front, back, rfl, hfront, hback⟩ := htext.split
  have hends := endsWord_of_filled hback (head?_dropWhile _ _) hprose
  obtain _ | @⟨_, _, first, others, hfirst, hothers⟩ := id hfront
  obtain ⟨c, cs, rfl, hc, hcs⟩ := hfirst.startsWord hp hg
  have htail : ∀ d ∈ cs ++ others, isIdentifierPart d = true := by
    rw [List.forall_mem_append]
    exact ⟨hcs, hothers.forall_mem fun g hg front hfits => hfits.inWord hp (List.mem_takeWhile_imp hg)⟩
  refine ⟨_, c, cs ++ others, back, by simp, lexeme_word hc htail hends, hback, _, rfl, ?_, rfl⟩
  rw [String.toList_ofList]
  exact hfront

/-- A numeral goes on with characters of ASCII only. -/
theorem endsNumber_of_large {d : Char} (hlarge : 0x80 ≤ d.toNat) : (isNumberPart d || d == '+' || d == '-') = false := by
  have hsmall {e : Char} (he : e.toNat < 0x80) : (d == e) = false :=
    beq_eq_false_iff_ne.mpr (by rintro rfl; omega)
  have halphanum : d.isAlphanum = false := by
    rw [Bool.eq_false_iff]
    intro halphanum
    have := Text.toNat_lt_of_isAlphanum halphanum
    omega
  rw [isNumberPart, halphanum, hsmall (by decide), hsmall (by decide), hsmall (by decide), hsmall (by decide)]
  rfl

/-- A numeral ends where the other glyphs begin. -/
theorem endsNumber_of_filled (hp : p.Regular) (h : Filled p gs text) (hhead : ∀ g ∈ gs.head?, g.inNumber = false)
    (hends : front?.endsNumber gs = true) : ∀ d ∈ text.head?, (isNumberPart d || d == '+' || d == '-') = false := by
  obtain _ | @⟨g, gs, front, back, hg, hgs⟩ := h
  · exact fun d hd => by cases hd
  · have hnumber := hhead g rfl
    cases g with
    | char d =>
        obtain rfl : front = [d] := hg
        rintro _ ⟨⟩
        have hsign : (!(d == '+' || d == '-')) = true := hends
        rw [Bool.not_eq_true'] at hsign
        rw [Bool.or_assoc, hsign, Bool.or_false]
        exact hnumber
    | foreign =>
        obtain ⟨d, ds, rfl, -⟩ := Glyph.Fits.startsWord (g := .foreign) hp hg rfl
        rintro _ ⟨⟩
        exact endsNumber_of_large (hg.2 d rfl)
    | _ => cases hends

theorem numberFront_leads (h : front?.numberFront gs = some (shape, rest)) {c : Char} {cs : List Char}
    (hc : c.isDigit = true) (hcs : ∀ d ∈ cs, isNumberPart d = true) (hp : p.Regular) (htext : Filled p gs text) :
    Leads p shape rest (c :: (cs ++ text)) := by
  unfold front?.numberFront at h
  dsimp only at h
  split_ifs at h with hends
  cases h
  rw [← List.takeWhile_append_dropWhile (p := Glyph.inNumber) (l := gs)] at htext
  obtain ⟨front, back, rfl, hfront, hback⟩ := htext.split
  have htail : ∀ d ∈ cs ++ front, isNumberPart d = true := by
    rw [List.forall_mem_append]
    exact ⟨hcs, hfront.forall_mem fun g hg front hfits => hfits.inNumber (List.mem_takeWhile_imp hg)⟩
  have htext : (String.ofList (c :: (cs ++ front))).toList = c :: (cs ++ front) := String.toList_ofList
  have hnumeral : isNumeral (String.ofList (c :: (cs ++ front))) = true := by
    rw [isNumeral, htext]
    dsimp only
    rw [hc, Bool.true_and, List.all_eq_true]
    exact htail
  obtain ⟨d, tail, hchars, hlexeme⟩ :=
    lexeme_numeral hnumeral (endsNumber_of_filled hp hback (head?_dropWhile _ _) hends)
  rw [htext] at hchars
  cases hchars
  refine ⟨_, c, cs ++ front, back, by simp, hlexeme, hback, _, rfl, ?_⟩
  exact ⟨by rintro ⟨⟩, by rintro ⟨⟩⟩

theorem eq_of_known? {cs text : List Char} (h : known? gs = some cs) (htext : Filled p gs text) :
    text = cs := by
  induction gs generalizing cs text with
  | nil =>
      obtain _ | _ := htext
      exact Option.some.inj h
  | cons g gs ih =>
      cases g with
      | char c =>
          obtain ⟨cs', hcs, rfl⟩ := Option.map_eq_some_iff.mp h
          obtain ⟨rest, rfl, hrest⟩ := htext.char
          rw [ih hcs hrest]
      | _ => cases h

theorem length_of_known? {cs : List Char} (h : known? gs = some cs) : cs.length = gs.length := by
  induction gs generalizing cs with
  | nil =>
      cases h
      rfl
  | cons g gs ih =>
      cases g with
      | char c =>
          obtain ⟨cs', hcs, rfl⟩ := Option.map_eq_some_iff.mp h
          rw [List.length_cons, List.length_cons, ih hcs]
      | _ => cases h

/-- The operators by their characters. -/
theorem operatorChars_eq : operators = operatorChars.map String.ofList :=
  rfl

theorem runsOn_operator (cs : List Char) (d : Char) : (⟨.operator, String.ofList cs⟩ : Word).runsOn d =
    ((['/', '/'] :: ['/', '*'] :: operatorChars).any ((cs ++ [d]).isPrefixOf ·) || (cs == ['.'] && d.isDigit)) := by
  have htable : "//" :: "/*" :: operators = (['/', '/'] :: ['/', '*'] :: operatorChars).map String.ofList := by
    rw [operatorChars_eq, List.map_cons, List.map_cons]
  have hpoint : (String.ofList cs == ".") = (cs == ['.']) := by
    rw [Bool.eq_iff_iff, beq_iff_eq, beq_iff_eq, ← String.toList_inj, String.toList_ofList]
    exact Iff.rfl
  rw [Word.runsOn, htable, List.any_map, hpoint]
  simp only [Function.comp_def, String.toList_ofList]

/-- What is no sign of an operator does not go on with one. -/
theorem isPrefixOf_operatorChars {cs : List Char} {d : Char} (hd : d ∉ singleOperators) :
    (['/', '/'] :: ['/', '*'] :: operatorChars).any ((cs ++ [d]).isPrefixOf ·) = false := by
  have hsigns : ((['/', '/'] :: ['/', '*'] :: operatorChars).all (·.all singleOperators.contains)) = true := by
    decide +kernel
  rw [List.any_eq_false]
  intro operator hmem hprefix
  have hall := List.all_eq_true.mp hsigns operator hmem
  refine hd (List.contains_iff_mem.mp (List.all_eq_true.mp hall d ?_))
  exact (List.isPrefixOf_iff_prefix.mp hprefix).subset (List.mem_append_right _ List.mem_cons_self)

/-- Of a character that is known it is known whether an operator goes on with it. -/
theorem endsOperator_char (cs : List Char) (c : Char) (gs : List Glyph) :
    endsOperator cs (.char c :: gs) = !(⟨.operator, String.ofList cs⟩ : Word).runsOn c := by
  rw [endsOperator, runsOn_operator]
  split_ifs with hplain
  · have hsign : c ∉ singleOperators := by
      have hall : (singleOperators.all fun c => c != ' ' && !isIdentifierPart c) = true := by decide +kernel
      intro hmem
      have hc := List.all_eq_true.mp hall c hmem
      rw [Bool.and_eq_true, bne_iff_ne, Bool.not_eq_true'] at hc
      exact hplain.elim hc.1 fun hpart => absurd (hpart.symm.trans hc.2) (by decide)
    rw [isPrefixOf_operatorChars hsign, Bool.false_or]
  · have hdigit : c.isDigit = false := by
      rw [Bool.eq_false_iff]
      refine fun hdigit => hplain (Or.inr (isIdentifierPart_of_ascii ?_))
      rw [Char.isAlphanum, hdigit, Bool.or_true, Bool.true_or]
    rw [hdigit, Bool.and_false, Bool.or_false]

theorem runsOn_of_endsOperator {cs : List Char} (h : endsOperator cs gs = true) (hp : p.Regular)
    (htext : Filled p gs text) : ∀ d ∈ text.head?, (⟨.operator, String.ofList cs⟩ : Word).runsOn d = false := by
  obtain _ | @⟨g, gs, front, back, hg, hgs⟩ := htext
  · exact fun d hd => by cases hd
  · cases g with
    | char c =>
        obtain rfl : front = [c] := hg
        rintro _ ⟨⟩
        rw [endsOperator_char] at h
        exact (Bool.not_eq_true' _).mp h
    | numeral =>
        obtain ⟨c, cs', rfl, hc, -⟩ := hg
        rintro _ ⟨⟩
        have hsign : c ∉ singleOperators :=
          fun hmem => absurd (hc.symm.trans (other_of_mem_singleOperators hmem).2.2.1) (by decide)
        have hpoint : (cs == ['.']) = false := by
          rw [beq_eq_false_iff_ne]
          exact bne_iff_ne.mp h
        rw [runsOn_operator, isPrefixOf_operatorChars hsign, hpoint, Bool.false_and, Bool.false_or]
    | prose => cases h
    | _ =>
        obtain ⟨c, cs', rfl, hc, -⟩ := hg.startsWord hp rfl
        rintro _ ⟨⟩
        have hdigit : c.isDigit = false := by
          rw [Bool.eq_false_iff]
          exact fun hdigit => absurd (hc.symm.trans (isIdentifierStart_of_isDigit hdigit)) (by decide)
        have hsign : c ∉ singleOperators :=
          fun hmem => absurd (hc.symm.trans (other_of_mem_singleOperators hmem).2.1) (by decide)
        rw [runsOn_operator, isPrefixOf_operatorChars hsign, hdigit, Bool.and_false, Bool.false_or]

theorem operator_leads {c : Char} {n : Nat} (h : operatorRest? c gs = some n) (hp : p.Regular)
    (htext : Filled p gs text) :
    Leads p (some (if c = '.' ∧ gs.take n = [] then .point else .other)) (gs.drop n) (c :: text) := by
  have hfound := List.find?_some h
  obtain ⟨cs, hknown, hoperator⟩ := (Option.any_eq_true _ _).mp hfound
  rw [Bool.and_eq_true] at hoperator
  obtain ⟨hends, hmem⟩ := hoperator
  have hlength : cs.length = (gs.take n).length := length_of_known? hknown
  rw [← List.take_append_drop n gs] at htext
  obtain ⟨tail, back, rfl, htail, hback⟩ := htext.split
  obtain rfl : tail = cs := eq_of_known? hknown htail
  have hoperators : String.ofList (c :: tail) ∈ operators := operatorChars_eq ▸ List.mem_map_of_mem (List.contains_iff_mem.mp hmem)
  obtain ⟨d, tail', hlist, hlexeme⟩ := lexeme_operator hoperators (runsOn_of_endsOperator hends hp hback)
  rw [String.toList_ofList] at hlist
  cases hlist
  refine ⟨_, c, tail, back, rfl, hlexeme, hback, _, rfl, ?_⟩
  split_ifs with hpoint
  · obtain ⟨rfl, htake⟩ := hpoint
    rw [htake] at htail
    obtain _ | _ := htail
    rfl
  · refine ⟨by rintro ⟨⟩, fun heq => hpoint ?_⟩
    obtain ⟨rfl, rfl⟩ : c = '.' ∧ tail = [] := by
      have htext := congrArg (fun w : Word => w.text.toList) heq
      simp only [String.toList_ofList] at htext
      exact List.cons_eq_cons.mp htext
    exact ⟨rfl, List.length_eq_zero_iff.mp hlength.symm⟩

theorem lineComment_leads (hp : p.Regular) (hhead : gs.head? = some (.char '/')) (hgs : gs.all (!·.isLineEnd) = true)
    (htext : Filled p gs text) : Leads p none [] ('/' :: text) := by
  obtain ⟨gs', rfl⟩ := List.head?_eq_some_iff.mp hhead
  obtain ⟨body, rfl, hbody⟩ := htext.char
  have hline : '\n' ∉ body := hbody.lineless hp (List.forall_mem_cons.mp (forall_isLineEnd hgs)).2
  have hlexeme := lexeme_lineComment hline endsLine_nil
  rw [List.append_nil] at hlexeme
  refine ⟨.comment .line, '/', '/' :: body, [], by simp, ?_, .nil, by rintro token ⟨⟩⟩
  rw [List.append_nil]
  exact hlexeme

theorem string_leads (hp : p.Regular) (hgs : gs.dropWhile Glyph.inString = .char '"' :: rest)
    (htext : Filled p gs text) : Leads p (some .other) rest ('"' :: text) := by
  rw [← List.takeWhile_append_dropWhile (p := Glyph.inString) (l := gs), hgs] at htext
  obtain ⟨body, back, rfl, hbody, hback⟩ := htext.split
  obtain ⟨more, rfl, hmore⟩ := hback.char
  have hplain := hbody.forall_mem fun g hg front hfits => hfits.inString hp (List.mem_takeWhile_imp hg)
  refine ⟨.token (.string (String.ofList body)), '"', body ++ ['"'], more, by simp, ?_, hmore, _, rfl,
    by rintro ⟨⟩, by rintro ⟨⟩⟩
  rw [List.append_assoc, List.singleton_append]
  exact lexeme_spelled (spelled_self hplain) more

/-- A line starts with the lexeme that its outline starts with. -/
theorem front?_leads (hp : p.Regular) (h : front? g gs = some (shape, rest)) (htext : Filled p (g :: gs) text) :
    Leads p shape rest text := by
  have hword (hstarts : g.startsWord = true) (hfront : front?.wordFront g gs = some (shape, rest)) :=
    wordFront_leads hp hfront hstarts htext
  unfold front? at h
  cases g with
  | prose => cases h
  | word => exact hword rfl h
  | free => exact hword rfl h
  | foreign => exact hword rfl h
  | aliased a => exact hword rfl h
  | numeral =>
      obtain _ | @⟨_, _, front, back, hg, hgs⟩ := htext
      obtain ⟨c, cs, rfl, hc, hcs⟩ := hg
      refine numberFront_leads h hc (fun d hd => ?_) hp hgs
      rw [isNumberPart, hcs d hd, Bool.true_or]
  | char c =>
      obtain ⟨others, rfl, hothers⟩ := htext.char
      dsimp only at h
      split_ifs at h with hblank hslash hcomment hquote hsemicolon hstarts hdigit
      · cases h
        refine ⟨.blank, c, [], others, rfl, lexeme_blank ?_ _, hothers, by rintro token ⟨⟩⟩
        rcases hblank with rfl | rfl <;> decide
      · cases h
        subst hslash
        exact lineComment_leads hp hcomment.1 hcomment.2 hothers
      · subst hquote
        split at h
        · rename_i behind hbehind
          cases h
          exact string_leads hp hbehind hothers
        · cases h
      · cases h
        subst hsemicolon
        exact ⟨_, ';', [], others, rfl, rfl, hothers, _, rfl, by rintro ⟨⟩, by rintro ⟨⟩⟩
      · exact hword hstarts h
      · exact numberFront_leads h hdigit (List.forall_mem_nil _) hp hothers
      · obtain ⟨n, hn, hshape⟩ := Option.map_eq_some_iff.mp h
        cases hshape
        exact operator_leads hn hp hothers

/-- A line is read as words of the shapes that its outline has. -/
theorem shapes?_reads (hp : p.Regular) {n : Nat} {shapes : List Shape} (h : shapes? n gs = some shapes)
    (htext : Filled p gs text) :
    ∃ ls, charsOf ls = text ∧ Reads ls [] ∧ List.Forall₂ (Shape.Fits p) shapes (wordsOf ls) := by
  induction n generalizing gs text shapes with
  | zero =>
      obtain _ | _ := htext
      · cases h
        exact ⟨[], rfl, trivial, .nil⟩
      · cases h
  | succ n ih =>
      cases gs with
      | nil =>
          obtain _ | _ := htext
          cases h
          exact ⟨[], rfl, trivial, .nil⟩
      | cons g gs =>
          rw [shapes?] at h
          split at h
          · cases h
          · rename_i shape rest hfront
            obtain ⟨shapes, hshapes, rfl⟩ := Option.map_eq_some_iff.mp h
            obtain ⟨kind, c, tail, behind, rfl, hlexeme, hbehind, hshape⟩ := front?_leads hp hfront htext
            obtain ⟨ls, rfl, hreads, hwords⟩ := ih hshapes hbehind
            have htail : (String.ofList (c :: tail)).toList = c :: tail := String.toList_ofList
            refine ⟨(kind, String.ofList (c :: tail)) :: ls, by rw [charsOf_cons, htail, List.cons_append],
              ⟨⟨c, tail, htail, by rwa [List.append_nil]⟩, hreads⟩, ?_⟩
            cases shape with
            | none =>
                cases kind with
                | token token => exact absurd rfl (hshape token)
                | blank => exact hwords
                | comment style => exact hwords
            | some shape =>
                obtain ⟨token, rfl, hfits⟩ := hshape
                exact .cons hfits hwords

end Shapes

/-! ### What is taken from packages -/

/-- What a package is called in an outline. -/
inductive PackageName where
  | known (text : List Char)
  | aliased (a : Alias)
  deriving DecidableEq, Repr

def PackageName.text (p : Packages) : PackageName → String
  | known text => String.ofList text
  | aliased a => p.aliasName a

/-- The package that may go by the word; the inner option is `none` when none does. -/
def packageName? : List Glyph → Option (Option PackageName)
  | [.aliased a] => some (some (.aliased a))
  | [.free] => some none
  | .foreign :: _ => some none
  | .char c :: gs =>
    if c.isLower then (known? gs).map fun cs => some (.known (c :: cs)) else some none
  | _ => none

/-- The names in front of points. -/
def packageNames? : List Shape → Option (List PackageName)
  | .word gs :: .point :: shapes =>
    match packageName? gs with
    | none => none
    | some name? => (packageNames? (.point :: shapes)).map (name?.toList ++ ·)
  | _ :: shapes => packageNames? shapes
  | [] => some []

section Names

variable {p : Packages} {gs : List Glyph} {x : String}

theorem filled_singleton {g : Glyph} {text : List Char} (h : Filled p [g] text) : g.Fits p text := by
  obtain _ | @⟨_, _, front, back, hg, hnil⟩ := h
  obtain _ | _ := hnil
  rwa [List.append_nil]

theorem text_packageName? {name : PackageName} {text : String} (h : packageName? gs = some (some name))
    (htext : Filled p gs text.toList) : name.text p = text := by
  unfold packageName? at h
  split at h
  · rename_i a
    cases h
    have hname : String.ofList text.toList = p.aliasName a := filled_singleton htext
    rw [PackageName.text, ← hname, String.ofList_toList]
  · cases h
  · cases h
  · rename_i c gs
    split_ifs at h
    · obtain ⟨cs, hcs, hname⟩ := Option.map_eq_some_iff.mp h
      cases hname
      obtain ⟨rest, hchars, hrest⟩ := htext.char
      rw [PackageName.text, ← eq_of_known? hcs hrest, ← hchars, String.ofList_toList]
    · cases h
  · cases h

/-- A package goes by no word of which the outline says that none does. -/
theorem not_isPackage_of_packageName? (hp : p.Regular) (h : packageName? gs = some none)
    (htext : Filled p gs x.toList) : ¬p.IsPackage x := by
  intro hx
  have hsmall := hp.small x hx
  unfold packageName? at h
  split at h
  · cases h
  · refine (filled_singleton htext).2 ?_
    rwa [String.ofList_toList]
  · generalize x.toList = text at hsmall htext
    obtain _ | @⟨_, _, front, back, hg, hgs⟩ := htext
    obtain ⟨c, cs, rfl, -⟩ := Glyph.Fits.startsWord (g := .foreign) hp hg rfl
    have hlarge : 0x80 ≤ c.toNat := hg.2 c rfl
    have halphanum : c.isAlphanum = true := by
      rw [Char.isAlphanum, Char.isAlpha, hsmall c rfl, Bool.or_true, Bool.true_or]
    exact absurd (Text.toNat_lt_of_isAlphanum halphanum) (Nat.not_lt.mpr hlarge)
  · rename_i c gs
    split_ifs at h with hlower
    · cases hknown : known? gs <;> rw [hknown] at h <;> cases h
    · obtain ⟨rest, hchars, -⟩ := htext.char
      exact hlower (hsmall c (by rw [hchars]; rfl))
  · cases h

/-- A word names the package that its outline says. -/
theorem namesPackage_iff (hp : p.Regular) {name? : Option PackageName} (h : packageName? gs = some name?) {w : Word}
    (hw : Shape.Fits p (.word gs) w) (hx : p.IsPackage x) :
    (w.kind = .identifier ∧ w.text = x) ↔ ∃ name ∈ name?, name.text p = x := by
  obtain ⟨htext, hkind⟩ := hw
  constructor
  · rintro ⟨-, rfl⟩
    cases name? with
    | none => exact absurd hx (not_isPackage_of_packageName? hp h htext)
    | some name => exact ⟨name, rfl, text_packageName? h htext⟩
  · rintro ⟨name, hmem, rfl⟩
    rw [Option.mem_def.mp hmem] at h
    have hw := text_packageName? h htext
    have hidentifier := hp.identifiers _ hx
    rw [hw, isIdentifier, Bool.and_eq_true, Bool.not_eq_true'] at hidentifier
    exact ⟨by rw [hkind, hidentifier.2]; rfl, hw.symm⟩

theorem Shape.Fits.exists_word {shape : Shape} {w : Word} (h : shape.Fits p w) (hkind : w.kind = .identifier) :
    ∃ gs, shape = .word gs := by
  cases shape with
  | word gs => exact ⟨gs, rfl⟩
  | point =>
      obtain rfl : w = .sign "." := h
      cases hkind
  | other => exact absurd hkind h.1

theorem Shape.Fits.eq_point {shape : Shape} (h : shape.Fits p (.sign ".")) : shape = .point := by
  cases shape with
  | word gs =>
      have hkind := h.2
      split_ifs at hkind <;> cases hkind
  | point => rfl
  | other => exact absurd rfl h.2

/-- The names in front of points are the ones that something is taken from, as far as packages go by them. -/
theorem packageNames?_selectors (hp : p.Regular) {shapes : List Shape} {names : List PackageName}
    (h : packageNames? shapes = some names) {ws : List Word} (hws : List.Forall₂ (Shape.Fits p) shapes ws)
    (hx : p.IsPackage x) : x ∈ selectors ws ↔ ∃ name ∈ names, name.text p = x := by
  induction shapes using packageNames?.induct generalizing names ws with
  | case1 gs shapes hnone =>
      rw [packageNames?, hnone] at h
      cases h
  | case2 gs shapes name? hname ih =>
      rw [packageNames?, hname] at h
      obtain ⟨names, hnames, rfl⟩ := Option.map_eq_some_iff.mp h
      obtain _ | @⟨_, w, _, _, hw, hrest⟩ := hws
      obtain _ | @⟨_, v, _, ws, hpoint, hothers⟩ := id hrest
      have hmem : (∃ name ∈ name?.toList ++ names, name.text p = x) ↔
          (∃ name ∈ name?, name.text p = x) ∨ ∃ name ∈ names, name.text p = x := by
        simp only [List.mem_append, Option.mem_toList, Option.mem_def, or_and_right, exists_or]
      have hv : v = .sign "." := hpoint
      rw [hmem, ← namesPackage_iff hp hname hw hx, ← ih hnames hrest, selectors]
      split_ifs with htaken
      · rw [List.mem_cons, eq_comm, and_iff_right htaken.1]
      · rw [or_iff_right fun h => htaken ⟨h.1, hv⟩]
  | case3 shape shapes hother ih =>
      rw [packageNames?.eq_2 _ _ hother] at h
      obtain _ | @⟨_, w, _, ws, hw, hrest⟩ := hws
      rw [← ih h hrest]
      cases ws with
      | nil => rfl
      | cons v ws =>
          rw [selectors, if_neg]
          rintro ⟨hkind, rfl⟩
          obtain ⟨gs, rfl⟩ := hw.exists_word hkind
          obtain _ | @⟨next, _, shapes, _, hnext, -⟩ := hrest
          exact hother gs shapes rfl (by rw [hnext.eq_point])
  | case4 =>
      obtain _ | _ := hws
      cases h
      simp [selectors]

end Names

/-- The packages that a line takes something from, if the outline says how the line is read. -/
def takenNames? (gs : List Glyph) : Option (List PackageName) :=
  if gs.all (!·.isLineEnd) then (shapes? gs.length gs).bind packageNames? else none

theorem takenNames?_reads {p : Packages} (hp : p.Regular) {gs : List Glyph} {names : List PackageName}
    (h : takenNames? gs = some names) {text : List Char} (htext : Filled p gs text) :
    ∃ ws, ReadsAs text ws ∧ ∀ x, p.IsPackage x → (x ∈ selectors ws ↔ ∃ name ∈ names, name.text p = x) := by
  unfold takenNames? at h
  split_ifs at h with hline
  obtain ⟨shapes, hshapes, hnames⟩ := Option.bind_eq_some_iff.mp h
  obtain ⟨ls, hchars, hreads, hwords⟩ := shapes?_reads hp hshapes htext
  exact ⟨wordsOf ls, ⟨⟨ls, hchars, hreads, rfl⟩, htext.lineless hp (forall_isLineEnd hline)⟩,
    fun x hx => packageNames?_selectors hp hnames hwords hx⟩

end ApiForge.Code
