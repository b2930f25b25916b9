import ApiForge.Proofs.Nesting
import Mathlib

/-! Types as they are declared: names, pointers, slices, arrays, maps, channels, functions, interfaces and structs, and
the words that spell them. Whatever a type is, its brackets fit each other, and outside its brackets there is nothing
that could end a field. -/

namespace ApiForge.Source

/-- A token without its place. -/
structure Word where
  kind : TokenKind
  text : String
  deriving DecidableEq, Repr

def Token.word (t : Token) : Word :=
  ⟨t.kind, t.text⟩

namespace Word

/-- The word as a token, wherever it stands. -/
def token (w : Word) : Token :=
  ⟨w.kind, w.text, .start⟩

def identifier (name : String) : Word :=
  ⟨.identifier, name⟩

def keyword (text : String) : Word :=
  ⟨.keyword, text⟩

def sign (text : String) : Word :=
  ⟨.operator, text⟩

end Word

/-! ### Words with fitting brackets -/

/-- The brackets among the words fit each other. -/
def BalancedWords (ws : List Word) : Prop :=
  ∀ ts : List Token, ts.map Token.word = ws → Balanced ts

/-- A field's type ends in front of the token. -/
def Token.endsField (t : Token) : Bool :=
  t.isTerminator || t.isString || t.isOperator "\x7d"

/-- Outside all brackets nothing is an end. -/
inductive Closed (ends : Token → Bool) : List Token → Prop where
  | nil : Closed ends []
  | plain {t : Token} {ts : List Token} (hplain : t.plain = true) (hends : ends t = false) (hts : Closed ends ts) :
      Closed ends (t :: ts)
  | enclosed {opening closing : Token} {inner ts : List Token} (hopens : opening.opens = true)
      (hcloses : closing.closes = true) (hfits : closerOf opening.text = closing.text) (hinner : Balanced inner)
      (hts : Closed ends ts) : Closed ends (opening :: (inner ++ closing :: ts))

/-- Outside all brackets nothing among the words ends a field. -/
def ClosedWords (ws : List Word) : Prop :=
  ∀ ts : List Token, ts.map Token.word = ws → Closed Token.endsField ts

theorem Closed.balanced {ends : Token → Bool} {ts : List Token} (h : Closed ends ts) : Balanced ts := by
  induction h with
  | nil => exact balanced_nil
  | plain hplain hends hts ih => exact (balanced_plain hplain).append ih
  | @enclosed opening closing inner ts hopens hcloses hfits hinner hts ih =>
      have happend := (hinner.enclosed hopens hcloses hfits).append ih
      rwa [List.cons_append, List.append_assoc, List.singleton_append] at happend

theorem Closed.append {ends : Token → Bool} {front back : List Token} (hfront : Closed ends front)
    (hback : Closed ends back) : Closed ends (front ++ back) := by
  induction hfront with
  | nil => exact hback
  | plain hplain hends hts ih => exact .plain hplain hends ih
  | enclosed hopens hcloses hfits hinner hts ih =>
      rw [List.cons_append, List.append_assoc, List.cons_append]
      exact .enclosed hopens hcloses hfits hinner ih

section Words

variable {ws inner front back : List Word}

theorem ClosedWords.balanced (h : ClosedWords ws) : BalancedWords ws :=
  fun ts hts => (h ts hts).balanced

theorem closedWords_nil : ClosedWords [] := by
  intro ts hts
  rw [List.map_eq_nil_iff.mp hts]
  exact .nil

theorem ClosedWords.append (hfront : ClosedWords front) (hback : ClosedWords back) : ClosedWords (front ++ back) := by
  intro ts hts
  obtain ⟨ts₁, ts₂, rfl, h₁, h₂⟩ := List.map_eq_append_iff.mp hts
  exact (hfront ts₁ h₁).append (hback ts₂ h₂)

theorem BalancedWords.append (hfront : BalancedWords front) (hback : BalancedWords back) :
    BalancedWords (front ++ back) := by
  intro ts hts
  obtain ⟨ts₁, ts₂, rfl, h₁, h₂⟩ := List.map_eq_append_iff.mp hts
  exact (hfront ts₁ h₁).append (hback ts₂ h₂)

theorem closedWords_plain {w : Word} (hplain : w.token.plain = true) (hends : w.token.endsField = false) :
    ClosedWords [w] := by
  intro ts hts
  obtain ⟨t, rfl, rfl⟩ := List.map_eq_singleton_iff.mp hts
  exact .plain hplain hends .nil

theorem balancedWords_plain {w : Word} (hplain : w.token.plain = true) : BalancedWords [w] := by
  intro ts hts
  obtain ⟨t, rfl, rfl⟩ := List.map_eq_singleton_iff.mp hts
  exact balanced_plain hplain

theorem ClosedWords.cons {w : Word} (hplain : w.token.plain = true) (hends : w.token.endsField = false)
    (hws : ClosedWords ws) : ClosedWords (w :: ws) :=
  (closedWords_plain hplain hends).append hws

theorem ClosedWords.identifier (name : String) (hws : ClosedWords ws) : ClosedWords (.identifier name :: ws) :=
  hws.cons rfl rfl

theorem ClosedWords.keyword (text : String) (hws : ClosedWords ws) : ClosedWords (.keyword text :: ws) :=
  hws.cons rfl rfl

theorem ClosedWords.enclosed {opener closer : String} (hopener : opener ∈ openers) (hfits : closerOf opener = closer)
    (hinner : BalancedWords inner) (hws : ClosedWords ws) :
    ClosedWords (.sign opener :: (inner ++ .sign closer :: ws)) := by
  intro ts hts
  obtain ⟨opening, behind, rfl, hopening, hbehind⟩ := List.map_eq_cons_iff.mp hts
  obtain ⟨tokens, behind', rfl, htokens, hbehind'⟩ := List.map_eq_append_iff.mp hbehind
  obtain ⟨closing, rest, rfl, hclosing, hrest⟩ := List.map_eq_cons_iff.mp hbehind'
  obtain ⟨kind, text, pos⟩ := opening
  obtain ⟨kind', text', pos'⟩ := closing
  cases hopening
  cases hclosing
  have hcloser : ∀ opener ∈ openers, closerOf opener ∈ closers := by decide
  refine .enclosed ?_ ?_ hfits (hinner tokens htokens) (hws rest hrest)
  · exact List.contains_iff_mem.mpr hopener
  · exact List.contains_iff_mem.mpr (hfits ▸ hcloser _ hopener)

end Words

/-! ### Types -/

inductive Separator where
  | semicolon
  | lineEnd
  deriving DecidableEq, Repr

def Separator.word : Separator → Word
  | .semicolon => ⟨.semicolon, ";"⟩
  | .lineEnd => ⟨.newline, ""⟩

inductive Direction where
  | both
  | send
  | receive
  deriving DecidableEq, Repr

/-- The words of a channel type in front of the type of what is sent. -/
def Direction.words : Direction → List Word
  | .both => [.keyword "chan"]
  | .send => [.keyword "chan", .sign "<-"]
  | .receive => [.sign "<-", .keyword "chan"]

/-- The literal of a tag and the text that it denotes. -/
structure TagLiteral where
  value : String
  literal : String
  deriving DecidableEq, Repr

def TagLiteral.word (tag : TagLiteral) : Word :=
  ⟨.string tag.value, tag.literal⟩

mutual

inductive TypeExpr where
  /-- A name, maybe from another package, with its type arguments if it is generic. -/
  | named (qualifier : Option String) (name : String) (arguments : TypeList)
  | pointer (target : TypeExpr)
  | slice (element : TypeExpr)
  /-- The length is an expression. -/
  | array (length : List Word) (hlength : BalancedWords length) (element : TypeExpr)
  | map (key value : TypeExpr)
  | channel (direction : Direction) (element : TypeExpr)
  | function (signature : Signature)
  | interface (elements : ElementList)
  | struct (fields : FieldList)

inductive TypeList where
  | none
  | cons (type : TypeExpr) (rest : TypeList)

inductive Signature where
  | mk (parameters : ParameterList) (results : Results)

inductive Results where
  | none
  | single (type : TypeExpr)
  | listed (results : ParameterList)

inductive Parameter where
  | mk (name : Option String) (variadic : Bool) (type : TypeExpr)

inductive ParameterList where
  | none
  | cons (parameter : Parameter) (rest : ParameterList)

/-- A type, maybe with all types of the same structure. -/
inductive Term where
  | mk (approximate : Bool) (type : TypeExpr)

inductive TermList where
  | single (term : Term)
  | cons (term : Term) (rest : TermList)

inductive Element where
  | method (name : String) (signature : Signature)
  | union (terms : TermList)

inductive ElementList where
  | none
  | last (element : Element)
  | cons (element : Element) (separator : Separator) (rest : ElementList)

inductive FieldDecl where
  | named (first : String) (more : List String) (type : TypeExpr) (tag : Option TagLiteral)
  | embedded (pointer : Bool) (qualifier : Option String) (name : String) (arguments : TypeList)
      (tag : Option TagLiteral)

/-- A separator may stand behind the last field, or not. -/
inductive FieldList where
  | none
  | last (field : FieldDecl)
  | cons (field : FieldDecl) (separator : Separator) (rest : FieldList)

end

/-- The words of a name, maybe with the package it is from. -/
def nameWords (qualifier : Option String) (name : String) : List Word :=
  match qualifier with
  | none => [.identifier name]
  | some package => [.identifier package, .sign ".", .identifier name]

/-- The names behind the first one. -/
def moreNameWords (names : List String) : List Word :=
  names.flatMap fun name => [.sign ",", .identifier name]

mutual

def TypeExpr.words : TypeExpr → List Word
  | .named qualifier name arguments => nameWords qualifier name ++ arguments.bracketed
  | .pointer target => .sign "*" :: target.words
  | .slice element => .sign "[" :: .sign "]" :: element.words
  | .array length _ element => .sign "[" :: (length ++ .sign "]" :: element.words)
  | .map key value => .keyword "map" :: .sign "[" :: (key.words ++ .sign "]" :: value.words)
  | .channel direction element => direction.words ++ element.words
  | .function signature => .keyword "func" :: signature.words
  | .interface elements => .keyword "interface" :: .sign "\x7b" :: (elements.words ++ [.sign "\x7d"])
  | .struct fields => .keyword "struct" :: .sign "\x7b" :: (fields.words ++ [.sign "\x7d"])

/-- Type arguments, if there are any. -/
def TypeList.bracketed : TypeList → List Word
  | .none => []
  | .cons type rest => .sign "[" :: ((type.words ++ rest.more) ++ [.sign "]"])

/-- The types behind the first one. -/
def TypeList.more : TypeList → List Word
  | .none => []
  | .cons type rest => .sign "," :: (type.words ++ rest.more)

def Signature.words : Signature → List Word
  | .mk parameters results => .sign "(" :: (parameters.words ++ .sign ")" :: results.words)

def Results.words : Results → List Word
  | .none => []
  | .single type => type.words
  | .listed results => .sign "(" :: (results.words ++ [.sign ")"])

def Parameter.words : Parameter → List Word
  | .mk name variadic type =>
    (name.map Word.identifier).toList ++ ((if variadic then [.sign "..."] else []) ++ type.words)

def ParameterList.words : ParameterList → List Word
  | .none => []
  | .cons parameter rest => parameter.words ++ rest.more

/-- The parameters behind the first one. -/
def ParameterList.more : ParameterList → List Word
  | .none => []
  | .cons parameter rest => .sign "," :: (parameter.words ++ rest.more)

def Term.words : Term → List Word
  | .mk approximate type => (if approximate then [.sign "~"] else []) ++ type.words

def TermList.words : TermList → List Word
  | .single term => term.words
  | .cons term rest => term.words ++ .sign "|" :: rest.words

def Element.words : Element → List Word
  | .method name signature => .identifier name :: signature.words
  | .union terms => terms.words

def ElementList.words : ElementList → List Word
  | .none => []
  | .last element => element.words
  | .cons element separator rest => element.words ++ separator.word :: rest.words

def FieldDecl.words : FieldDecl → List Word
  | .named first more type tag =>
    .identifier first :: (moreNameWords more ++ (type.words ++ (tag.map TagLiteral.word).toList))
  | .embedded pointer qualifier name arguments tag =>
    (if pointer then [.sign "*"] else []) ++
      (nameWords qualifier name ++ (arguments.bracketed ++ (tag.map TagLiteral.word).toList))

def FieldList.words : FieldList → List Word
  | .none => []
  | .last field => field.words
  | .cons field separator rest => field.words ++ separator.word :: rest.words

end

/-! ### What the words are like -/

theorem closedWords_nameWords (qualifier : Option String) (name : String) : ClosedWords (nameWords qualifier name) := by
  cases qualifier with
  | none => exact closedWords_nil.identifier name
  | some package => exact ((closedWords_nil.identifier name).cons rfl rfl).identifier package

theorem closedWords_moreNameWords (names : List String) : ClosedWords (moreNameWords names) := by
  induction names with
  | nil => exact closedWords_nil
  | cons name names ih => exact (ih.identifier name).cons rfl rfl

theorem closedWords_direction (direction : Direction) : ClosedWords direction.words := by
  cases direction with
  | both => exact closedWords_nil.keyword _
  | send => exact (closedWords_plain rfl rfl).keyword _
  | receive => exact (closedWords_nil.keyword _).cons rfl rfl

theorem balancedWords_separator (separator : Separator) : BalancedWords [separator.word] := by
  cases separator <;> exact balancedWords_plain rfl

theorem balancedWords_tag (tag : Option TagLiteral) : BalancedWords (tag.map TagLiteral.word).toList := by
  cases tag with
  | none => exact closedWords_nil.balanced
  | some tag => exact balancedWords_plain rfl

mutual

theorem TypeExpr.closed : ∀ type : TypeExpr, ClosedWords type.words
  | .named qualifier name arguments => by
      rw [TypeExpr.words]
      exact (closedWords_nameWords qualifier name).append arguments.closed
  | .pointer target => by
      rw [TypeExpr.words]
      exact target.closed.cons rfl rfl
  | .slice element => by
      rw [TypeExpr.words]
      exact .enclosed (by decide) rfl closedWords_nil.balanced element.closed
  | .array length hlength element => by
      rw [TypeExpr.words]
      exact .enclosed (by decide) rfl hlength element.closed
  | .map key value => by
      rw [TypeExpr.words]
      exact .keyword _ (.enclosed (by decide) rfl key.closed.balanced value.closed)
  | .channel direction element => by
      rw [TypeExpr.words]
      exact (closedWords_direction direction).append element.closed
  | .function signature => by
      rw [TypeExpr.words]
      exact .keyword _ signature.closed
  | .interface elements => by
      rw [TypeExpr.words]
      exact .keyword _ (.enclosed (by decide) rfl elements.balanced closedWords_nil)
  | .struct fields => by
      rw [TypeExpr.words]
      exact .keyword _ (.enclosed (by decide) rfl fields.balanced closedWords_nil)

theorem TypeList.closed : ∀ arguments : TypeList, ClosedWords arguments.bracketed
  | .none => closedWords_nil
  | .cons type rest => by
      rw [TypeList.bracketed]
      exact .enclosed (by decide) rfl (type.closed.append rest.closed_more).balanced closedWords_nil

theorem TypeList.closed_more : ∀ types : TypeList, ClosedWords types.more
  | .none => closedWords_nil
  | .cons type rest => by
      rw [TypeList.more]
      exact (type.closed.append rest.closed_more).cons rfl rfl

theorem Signature.closed : ∀ signature : Signature, ClosedWords signature.words
  | .mk parameters results => by
      rw [Signature.words]
      exact .enclosed (by decide) rfl parameters.closed.balanced results.closed

theorem Results.closed : ∀ results : Results, ClosedWords results.words
  | .none => closedWords_nil
  | .single type => type.closed
  | .listed results => by
      rw [Results.words]
      exact .enclosed (by decide) rfl results.closed.balanced closedWords_nil

theorem Parameter.closed : ∀ parameter : Parameter, ClosedWords parameter.words
  | .mk name variadic type => by
      rw [Parameter.words]
      refine .append ?_ (.append ?_ type.closed)
      · cases name with
        | none => exact closedWords_nil
        | some name => exact closedWords_nil.identifier name
      · split
        · exact closedWords_plain rfl rfl
        · exact closedWords_nil

theorem ParameterList.closed : ∀ parameters : ParameterList, ClosedWords parameters.words
  | .none => closedWords_nil
  | .cons parameter rest => by
      rw [ParameterList.words]
      exact parameter.closed.append rest.closed_more

theorem ParameterList.closed_more : ∀ parameters : ParameterList, ClosedWords parameters.more
  | .none => closedWords_nil
  | .cons parameter rest => by
      rw [ParameterList.more]
      exact (parameter.closed.append rest.closed_more).cons rfl rfl

theorem Term.closed : ∀ term : Term, ClosedWords term.words
  | .mk approximate type => by
      rw [Term.words]
      refine .append ?_ type.closed
      split
      · exact closedWords_plain rfl rfl
      · exact closedWords_nil

theorem TermList.closed : ∀ terms : TermList, ClosedWords terms.words
  | .single term => term.closed
  | .cons term rest => by
      rw [TermList.words]
      exact term.closed.append (rest.closed.cons rfl rfl)

theorem Element.closed : ∀ element : Element, ClosedWords element.words
  | .method name signature => by
      rw [Element.words]
      exact .identifier name signature.closed
  | .union terms => terms.closed

theorem ElementList.balanced : ∀ elements : ElementList, BalancedWords elements.words
  | .none => closedWords_nil.balanced
  | .last element => element.closed.balanced
  | .cons element separator rest => by
      rw [ElementList.words]
      exact element.closed.balanced.append ((balancedWords_separator separator).append rest.balanced)

theorem FieldDecl.balanced : ∀ field : FieldDecl, BalancedWords field.words
  | .named first more type tag => by
      rw [FieldDecl.words]
      have htype := type.closed.balanced.append (balancedWords_tag tag)
      exact (balancedWords_plain rfl).append ((closedWords_moreNameWords more).balanced.append htype)
  | .embedded pointer qualifier name arguments tag => by
      rw [FieldDecl.words]
      have hpointer : ClosedWords (if pointer then [.sign "*"] else []) := by
        split
        · exact closedWords_plain rfl rfl
        · exact closedWords_nil
      exact hpointer.balanced.append ((closedWords_nameWords qualifier name).balanced.append
        (arguments.closed.balanced.append (balancedWords_tag tag)))

theorem FieldList.balanced : ∀ fields : FieldList, BalancedWords fields.words
  | .none => closedWords_nil.balanced
  | .last field => field.balanced
  | .cons field separator rest => by
      rw [FieldList.words]
      exact field.balanced.append ((balancedWords_separator separator).append rest.balanced)

end

end ApiForge.Source
