import ApiForge.Proofs.Brackets
import ApiForge.Proofs.SourceReading
import Mathlib

/-! Which type declarations are reported. Of a type only its outermost parts matter, and what stands in its brackets can be
anything with fitting brackets. A declaration is reported when its type is a struct; this goes wrong where a struct stands
in parentheses, and where the length of an array looks like type parameters and the element type of the array is a
struct. -/

namespace ApiForge.Source

/-! ### Type declarations -/

inductive TypeForm where
  | named (qualifier : Option String) (name : String)
  | instantiated (qualifier : Option String) (name : String) (arguments : List Word)
      (harguments : BalancedWords arguments)
  | struct (body : List Word) (hbody : BalancedWords body)
  | array (length : List Word) (hlength : BalancedWords length) (element : TypeForm)
  | slice (element : TypeForm)
  | pointer (target : TypeForm)
  | map (key : List Word) (hkey : BalancedWords key) (value : TypeForm)
  | channel (direction : Direction) (element : TypeForm)
  /-- A function without results. -/
  | procedure (parameters : List Word) (hparameters : BalancedWords parameters)
  | function (parameters : List Word) (hparameters : BalancedWords parameters) (result : TypeForm)
  /-- A function with results in parentheses. -/
  | tupleFunction (parameters : List Word) (hparameters : BalancedWords parameters) (results : List Word)
      (hresults : BalancedWords results)
  | interface (elements : List Word) (helements : BalancedWords elements)
  | parenthesized (type : TypeForm)

namespace TypeForm

def words : TypeForm → List Word
  | .named qualifier name => nameWords qualifier name
  | .instantiated qualifier name arguments _ => nameWords qualifier name ++ .sign "[" :: (arguments ++ [.sign "]"])
  | .struct body _ => .keyword "struct" :: .sign "\x7b" :: (body ++ [.sign "\x7d"])
  | .array length _ element => .sign "[" :: (length ++ .sign "]" :: element.words)
  | .slice element => .sign "[" :: .sign "]" :: element.words
  | .pointer target => .sign "*" :: target.words
  | .map key _ value => .keyword "map" :: .sign "[" :: (key ++ .sign "]" :: value.words)
  | .channel direction element => direction.words ++ element.words
  | .procedure parameters _ => .keyword "func" :: .sign "(" :: (parameters ++ [.sign ")"])
  | .function parameters _ result => .keyword "func" :: .sign "(" :: (parameters ++ .sign ")" :: result.words)
  | .tupleFunction parameters _ results _ =>
    .keyword "func" :: .sign "(" :: (parameters ++ .sign ")" :: .sign "(" :: (results ++ [.sign ")"]))
  | .interface elements _ => .keyword "interface" :: .sign "\x7b" :: (elements ++ [.sign "\x7d"])
  | .parenthesized type => .sign "(" :: (type.words ++ [.sign ")"])

/-- The type is a struct, maybe in parentheses. -/
def isStruct : TypeForm → Bool
  | .struct .. => true
  | .parenthesized type => type.isStruct
  | _ => false

/-- The type is a struct without parentheses around it. -/
def isBareStruct : TypeForm → Bool
  | .struct .. => true
  | _ => false

end TypeForm

/-- The length of an array begins with a name and goes on behind it, as type parameters do. -/
def resemblesParameters : List Word → Bool
  | first :: _ :: _ => first.token.isName
  | _ => false

/-- Type parameters begin with a name, and something is said about it. -/
structure ParametersForm where
  first : String
  behind : List Word
  hbehind : BalancedWords behind
  hne : behind ≠ []

def ParametersForm.words (parameters : ParametersForm) : List Word :=
  .sign "[" :: (.identifier parameters.first :: parameters.behind ++ [.sign "]"])

structure SpecForm where
  name : String
  parameters : Option ParametersForm
  isAlias : Bool
  type : TypeForm

namespace SpecForm

/-- The words behind the name. -/
def behindName (spec : SpecForm) : List Word :=
  (spec.parameters.map ParametersForm.words).getD [] ++ ((if spec.isAlias then [.sign "="] else []) ++ spec.type.words)

def words (spec : SpecForm) : List Word :=
  .identifier spec.name :: spec.behindName

/-- A struct in parentheses, or structs in an array whose length looks like type parameters behind the name. -/
def misread (spec : SpecForm) : Bool :=
  match spec.type with
  | .parenthesized type => type.isStruct
  | .array length _ element =>
    spec.parameters.isNone && !spec.isAlias && resemblesParameters length && element.isBareStruct
  | _ => false

end SpecForm

inductive DeclForm where
  | single (spec : SpecForm)
  | group (specs : Separated SpecForm)
  /-- An import, variable, constant or function: anything with fitting brackets that ends with a semicolon. -/
  | other (keyword : String) (hkeyword : keyword ∈ skippedKeywords) (words : List Word)
      (hwords : ∀ ts : List Token, ts.map Token.word = words → Closed Token.isTerminator ts)

namespace DeclForm

def specs : DeclForm → List SpecForm
  | .single spec => [spec]
  | .group specs => specs.toList
  | .other .. => []

def words : DeclForm → List Word
  | .single spec => .keyword "type" :: spec.words
  | .group specs => .keyword "type" :: .sign "(" :: (specs.words SpecForm.words ++ [.sign ")"])
  | .other keyword _ words _ => .keyword keyword :: words

end DeclForm

/-- A source by its type declarations. -/
structure SourceForm where
  package : String
  separator : Separator
  decls : Separated DeclForm

namespace SourceForm

def words (form : SourceForm) : List Word :=
  .keyword "package" :: .identifier form.package :: form.separator.word :: form.decls.words DeclForm.words

def specs (form : SourceForm) : List SpecForm :=
  form.decls.toList.flatMap DeclForm.specs

end SourceForm

/-! ### Where a type ends -/

theorem Closed.mono {ends ends' : Token → Bool} (hends : ∀ t, ends t = false → ends' t = false) {ts : List Token}
    (h : Closed ends ts) : Closed ends' ts := by
  induction h with
  | nil => exact .nil
  | plain hplain hend hts ih => exact .plain hplain (hends _ hend) ih
  | enclosed hopens hcloses hfits hinner hts ih => exact .enclosed hopens hcloses hfits hinner ih

theorem TypeForm.closed (type : TypeForm) : ClosedWords type.words := by
  induction type with
  | named qualifier name => exact closedWords_nameWords qualifier name
  | instantiated qualifier name arguments harguments =>
      exact (closedWords_nameWords qualifier name).append (.enclosed (by decide) rfl harguments closedWords_nil)
  | struct body hbody => exact .keyword _ (.enclosed (by decide) rfl hbody closedWords_nil)
  | array length hlength element ih => exact .enclosed (by decide) rfl hlength ih
  | slice element ih => exact .enclosed (by decide) rfl closedWords_nil.balanced ih
  | pointer target ih => exact ih.cons rfl rfl
  | map key hkey value ih => exact .keyword _ (.enclosed (by decide) rfl hkey ih)
  | channel direction element ih => exact (closedWords_direction direction).append ih
  | procedure parameters hparameters => exact .keyword _ (.enclosed (by decide) rfl hparameters closedWords_nil)
  | function parameters hparameters result ih => exact .keyword _ (.enclosed (by decide) rfl hparameters ih)
  | tupleFunction parameters hparameters results hresults =>
      exact .keyword _ (.enclosed (by decide) rfl hparameters (.enclosed (by decide) rfl hresults closedWords_nil))
  | interface elements helements => exact .keyword _ (.enclosed (by decide) rfl helements closedWords_nil)
  | parenthesized type ih => exact .enclosed (by decide) rfl ih.balanced closedWords_nil

/-- A type begins with no sign of equality, and with the keyword of a struct only if it is one. -/
theorem TypeForm.words_cons (type : TypeForm) : ∃ w ws, type.words = w :: ws ∧ w ≠ .sign "=" ∧
    (w = .keyword "struct" → type.isBareStruct = true) := by
  cases type with
  | named qualifier name => cases qualifier <;> exact ⟨_, _, rfl, by rintro ⟨⟩, by rintro ⟨⟩⟩
  | instantiated qualifier name arguments harguments =>
      cases qualifier <;> exact ⟨_, _, rfl, by rintro ⟨⟩, by rintro ⟨⟩⟩
  | channel direction element =>
      cases direction <;> exact ⟨_, _, rfl, by decide, fun hkeyword => absurd hkeyword (by decide)⟩
  | struct body hbody => exact ⟨_, _, rfl, by decide, fun _ => rfl⟩
  | _ => exact ⟨_, _, rfl, by decide, fun hkeyword => absurd hkeyword (by decide)⟩

/-- Where nothing ends a field nothing ends a declaration. -/
theorem ClosedWords.terminators {ws : List Word} (h : ClosedWords ws) {ts : List Token}
    (hts : ts.map Token.word = ws) : Closed Token.isTerminator ts := by
  refine (h ts hts).mono fun t ht => ?_
  rw [Token.endsField, Bool.or_eq_false_iff, Bool.or_eq_false_iff] at ht
  exact ht.1.1

/-- A type declaration ends in front of the tokens. -/
def AtSpecEnd (grouped : Bool) (ts : List Token) : Prop :=
  ∀ t ∈ ts.head?, t.isTerminator = true ∨ grouped = true ∧ t.isOperator ")" = true

section Reading

variable {stop : Position} {grouped : Bool} {ts rest left : List Token}

/-- Inside brackets a type goes on, whatever comes. -/
theorem skipType_append {stack stack' : List Token} (h : ts.foldlM track stack = .ok stack') (opener : Token)
    (outer : List Token) : skipType stop grouped (stack ++ opener :: outer) (ts ++ rest) =
      skipType stop grouped (stack' ++ opener :: outer) rest := by
  induction ts generalizing stack with
  | nil =>
      cases h
      rfl
  | cons t ts ih =>
      rw [List.foldlM_cons] at h
      obtain ⟨next, ht, h⟩ := of_bind h
      rw [List.cons_append, skipType, if_neg (by simp), track_append ht]
      exact ih h

/-- A type is passed over up to its end. -/
theorem Closed.skipType_eq (h : Closed Token.isTerminator ts) (hrest : AtSpecEnd grouped rest) :
    skipType stop grouped [] (ts ++ rest) = .ok rest := by
  have hsign {t : Token} (ht : t.isOperator ")" = true) : t.plain = false ∧ t.opens = false := by
    obtain ⟨kind, text, pos⟩ := t
    obtain ⟨rfl, rfl⟩ := eq_of_isOperator ht
    exact ⟨rfl, rfl⟩
  induction h with
  | nil =>
      cases rest with
      | nil => rfl
      | cons t rest => exact if_pos ⟨rfl, hrest t rfl⟩
  | @plain t ts hplain hends hts ih =>
      have hnotEnd : ¬(t.isTerminator = true ∨ grouped = true ∧ t.isOperator ")" = true) := by
        rintro (hend | ⟨-, hend⟩)
        · exact Bool.false_ne_true (hends.symm.trans hend)
        · exact Bool.false_ne_true ((hsign hend).1.symm.trans hplain)
      rw [List.cons_append, skipType, if_neg (fun hend => hnotEnd hend.2), track_plain hplain]
      exact ih
  | @enclosed opening closing inner ts hopens hcloses hfits hinner hts ih =>
      have hinside : skipType stop grouped [opening] (inner ++ closing :: (ts ++ rest)) =
          skipType stop grouped [opening] (closing :: (ts ++ rest)) := skipType_append hinner opening []
      have hnotEnd : ¬(opening.isTerminator = true ∨ grouped = true ∧ opening.isOperator ")" = true) := by
        rintro (hend | ⟨-, hend⟩)
        · have hplain := plain_of_isTerminator hend
          rw [Token.plain, hopens] at hplain
          cases hplain
        · exact Bool.false_ne_true ((hsign hend).2.symm.trans hopens)
      rw [List.cons_append, List.append_assoc, List.cons_append, skipType, if_neg (fun hend => hnotEnd hend.2),
        track_opening hopens]
      dsimp only
      rw [hinside, skipType, if_neg (by simp), track_closing hcloses hfits]
      exact ih

theorem not_balanced_of_closes {front back : List Token} {closing : Token} (hfront : Balanced front)
    (hcloses : closing.closes = true) : ¬Balanced (front ++ closing :: back) := by
  have htrack : track [] closing = .error ⟨closing.pos, .unexpectedCloser closing.text⟩ := by
    rw [track, not_opens_of_closes hcloses, if_neg Bool.false_ne_true, if_pos hcloses]
  intro h
  rw [Balanced, List.foldlM_append, hfront] at h
  change List.foldlM track [] (closing :: back) = _ at h
  rw [List.foldlM_cons, htrack] at h
  cases h

/-- An open bracket is closed in one place only. -/
theorem closing_unique {front front' : List Token} {closing closing' : Token} (hfront : Balanced front)
    (hfront' : Balanced front') (hcloses : closing.closes = true) (hcloses' : closing'.closes = true)
    (h : front ++ closing :: rest = front' ++ closing' :: left) : rest = left := by
  rcases List.append_eq_append_iff.mp h with ⟨more, rfl, hmore⟩ | ⟨more, rfl, hmore⟩
  · cases more with
    | nil => exact (List.cons_eq_cons.mp hmore).2
    | cons t more =>
        obtain ⟨rfl, rfl⟩ := List.cons_eq_cons.mp hmore
        exact absurd hfront' (not_balanced_of_closes hfront hcloses)
  · cases more with
    | nil => exact (List.cons_eq_cons.mp hmore).2.symm
    | cons t more =>
        obtain ⟨rfl, rfl⟩ := List.cons_eq_cons.mp hmore
        exact absurd hfront (not_balanced_of_closes hfront' hcloses')

/-! ### What is reported -/

/-- What comes behind the name is taken for the type itself. -/
theorem declaredType_form {doc : String} {name : Token} {struct? : Option Struct} {type : TypeForm}
    (hts : ts.map Token.word = type.words) (hrest : AtSpecEnd grouped rest)
    (h : declaredType stop doc grouped name (ts ++ rest) = .ok (struct?, left)) :
    left = rest ∧ struct?.toList.map Struct.name = if type.isBareStruct then [name.text] else [] := by
  by_cases hstruct : type.isBareStruct = true
  · cases type with
    | struct body hbody =>
        obtain ⟨⟨kind, text, pos⟩, ts₁, rfl, hkw, hts₁⟩ := List.map_eq_cons_iff.mp hts
        obtain ⟨⟨kind', text', pos'⟩, ts₂, rfl, hopening, hts₂⟩ := List.map_eq_cons_iff.mp hts₁
        obtain ⟨inner, ts₃, rfl, hinner, hts₃⟩ := List.map_eq_append_iff.mp hts₂
        obtain ⟨⟨kind'', text'', pos''⟩, rfl, hclosing⟩ := List.map_eq_singleton_iff.mp hts₃
        cases hkw
        cases hopening
        cases hclosing
        rw [List.cons_append, List.cons_append, List.append_assoc, List.singleton_append] at h
        cases declaredType_eq_ok_iff.mp h with
        | struct _ _ hfields =>
            obtain ⟨⟨kind, text, pos⟩, hclosing, used, hused, htokens⟩ := structFields_leaves hfields
            obtain ⟨rfl, rfl⟩ := eq_of_isOperator hclosing
            exact ⟨(closing_unique (hbody inner hinner) hused rfl rfl htokens).symm, rfl⟩
        | other hother _ => exact absurd ⟨_, _, _, rfl, rfl, rfl⟩ hother
    | _ => cases hstruct
  · have hskip : skipType stop grouped [] (ts ++ rest) = .ok rest := (type.closed.terminators hts).skipType_eq hrest
    have hother : ¬OpensStruct (ts ++ rest) := by
      rintro ⟨⟨kind, text, pos⟩, opening, body, htokens, hkw, -⟩
      obtain ⟨w, ws, hwords, -, hkeyword⟩ := type.words_cons
      rw [hwords] at hts
      obtain ⟨t, ts', rfl, hword, -⟩ := List.map_eq_cons_iff.mp hts
      obtain ⟨rfl, -⟩ := List.cons_eq_cons.mp htokens
      rw [Token.isKeyword, Bool.and_eq_true, beq_iff_eq, beq_iff_eq] at hkw
      obtain ⟨rfl, rfl⟩ := hkw
      exact hstruct (hkeyword hword.symm)
    rw [declaredType_eq_ok_iff.mpr (.other hother hskip)] at h
    cases h
    exact ⟨rfl, by rw [if_neg hstruct]; rfl⟩

/-- The type that is seen, if the length of an array is taken for type parameters wherever it looks like them. -/
def TypeForm.behindLength : TypeForm → TypeForm
  | .array length hlength element => if resemblesParameters length then element else .array length hlength element
  | type => type

/-- The type that is seen behind the name. -/
def SpecForm.seen (spec : SpecForm) : TypeForm :=
  if spec.parameters.isNone && !spec.isAlias then spec.type.behindLength else spec.type

/-- Seen as a struct is what is a struct, except for what is misread. -/
theorem SpecForm.isBareStruct_seen (spec : SpecForm) :
    spec.seen.isBareStruct = (spec.type.isStruct != spec.misread) := by
  obtain ⟨name, parameters, isAlias, type⟩ := spec
  cases type with
  | array length hlength element =>
      cases parameters <;> cases isAlias <;> cases hlength : resemblesParameters length <;>
        simp [seen, misread, TypeForm.behindLength, TypeForm.isBareStruct, TypeForm.isStruct, hlength]
  | parenthesized type =>
      cases htype : type.isStruct <;>
        simp [seen, misread, TypeForm.behindLength, TypeForm.isBareStruct, TypeForm.isStruct, htype]
  | _ => simp [seen, misread, TypeForm.behindLength, TypeForm.isBareStruct, TypeForm.isStruct]

/-- Brackets behind the name are judged by the first two tokens in them. -/
theorem opensTypeParameters_enclosed {opening closing : Token} {inner : List Token} (hopening : opening.word = .sign "[")
    (hclosing : closing.word = .sign "]") (hinner : Balanced inner) :
    opensTypeParameters (opening :: (inner ++ closing :: rest)) = resemblesParameters (inner.map Token.word) := by
  obtain ⟨kind, text, pos⟩ := opening
  obtain ⟨kind', text', pos'⟩ := closing
  cases hopening
  cases hclosing
  cases inner with
  | nil => cases rest <;> rfl
  | cons first inner =>
      cases inner with
      | nil =>
          have hnext : nextIsOperator (⟨.operator, "]", pos'⟩ :: rest) "]" = true := rfl
          rw [List.singleton_append, opensTypeParameters, hnext, Bool.not_true, Bool.and_false]
          rfl
      | cons second inner =>
          have hname : resemblesParameters ((first :: second :: inner).map Token.word) = first.isName := rfl
          have hopening : (⟨.operator, "[", pos⟩ : Token).isOperator "[" = true := rfl
          rw [hname, List.cons_append, List.cons_append, opensTypeParameters, hopening, Bool.true_and]
          by_cases hfirst : first.isName = true
          · have hplain : first.plain = true := by
              apply plain_of_kind
              intro hkind
              rw [Token.isName, hkind] at hfirst
              cases hfirst
            have hsecond : nextIsOperator (second :: (inner ++ ⟨.operator, "]", pos'⟩ :: rest)) "]" = false := by
              rw [Bool.eq_false_iff]
              intro hsecond
              obtain ⟨kind, text, pos⟩ := second
              obtain ⟨rfl, rfl⟩ := eq_of_isOperator hsecond
              exact not_balanced_of_closes (balanced_plain hplain) rfl hinner
            rw [hfirst, hsecond]
            rfl
          · rw [Bool.not_eq_true] at hfirst
            rw [hfirst, Bool.false_and]

/-- Brackets behind the name are passed over if they look like type parameters. -/
theorem typeParameters_enclosed {opening closing : Token} {inner : List Token} (hopening : opening.word = .sign "[")
    (hclosing : closing.word = .sign "]") (hinner : Balanced inner) :
    typeParameters stop (opening :: (inner ++ closing :: rest)) =
      .ok (if resemblesParameters (inner.map Token.word) then rest else opening :: (inner ++ closing :: rest)) := by
  rw [typeParameters, opensTypeParameters_enclosed hopening hclosing hinner]
  obtain ⟨kind, text, pos⟩ := opening
  obtain ⟨kind', text', pos'⟩ := closing
  cases hopening
  cases hclosing
  rw [bracketed_enclosed _ _ rfl rfl rfl hinner]
  split_ifs <;> rfl

theorem ParametersForm.typeParameters_eq {parameters : ParametersForm} (hts : ts.map Token.word = parameters.words) :
    typeParameters stop (ts ++ rest) = .ok rest := by
  obtain ⟨first, behind, hbehind, hne⟩ := parameters
  obtain ⟨opening, ts₁, rfl, hopening, hts₁⟩ := List.map_eq_cons_iff.mp hts
  obtain ⟨inner, ts₂, rfl, hinner, hts₂⟩ := List.map_eq_append_iff.mp hts₁
  obtain ⟨closing, rfl, hclosing⟩ := List.map_eq_singleton_iff.mp hts₂
  have hbalanced : BalancedWords (.identifier first :: behind) := (balancedWords_plain rfl).append hbehind
  have hresembles : resemblesParameters (.identifier first :: behind) = true := by
    obtain ⟨second, more, rfl⟩ := List.exists_cons_of_ne_nil hne
    rfl
  rw [List.cons_append, List.append_assoc, List.singleton_append,
    typeParameters_enclosed hopening hclosing (hbalanced inner hinner), hinner, if_pos hresembles]

/-- Only a bracket opens type parameters. -/
theorem opensTypeParameters_other {t : Token} (ht : t.isOperator "[" = false) : opensTypeParameters (t :: ts) = false := by
  cases ts with
  | nil => rfl
  | cons name ts => rw [opensTypeParameters, ht, Bool.false_and, Bool.false_and]

theorem typeParameters_other {t : Token} (ht : t.isOperator "[" = false) :
    typeParameters stop (t :: ts) = .ok (t :: ts) := by
  rw [typeParameters, opensTypeParameters_other ht]
  rfl

/-- Without type parameters, the length of an array may be taken for them. -/
theorem TypeForm.typeParameters_eq (stop : Position) (rest : List Token) {type : TypeForm} (hts : ts.map Token.word = type.words) :
    ∃ ts', typeParameters stop (ts ++ rest) = .ok (ts' ++ rest) ∧ ts'.map Token.word = type.behindLength.words := by
  have hother {w : Word} {ws : List Word} (hw : w ≠ .sign "[") (hts : ts.map Token.word = w :: ws) :
      typeParameters stop (ts ++ rest) = .ok (ts ++ rest) := by
    obtain ⟨t, ts', rfl, hword, -⟩ := List.map_eq_cons_iff.mp hts
    have hopening : t.isOperator "[" = false := by
      rw [Bool.eq_false_iff]
      intro hopening
      obtain ⟨kind, text, pos⟩ := t
      obtain ⟨rfl, rfl⟩ := eq_of_isOperator hopening
      exact hw hword.symm
    exact typeParameters_other hopening
  cases type with
  | array length hlength element =>
      obtain ⟨opening, ts₁, rfl, hopening, hts₁⟩ := List.map_eq_cons_iff.mp hts
      obtain ⟨inner, ts₂, rfl, hinner, hts₂⟩ := List.map_eq_append_iff.mp hts₁
      obtain ⟨closing, ts₃, rfl, hclosing, hts₃⟩ := List.map_eq_cons_iff.mp hts₂
      rw [List.cons_append, List.append_assoc, List.cons_append,
        typeParameters_enclosed hopening hclosing (hlength inner hinner), hinner, behindLength]
      split_ifs
      · exact ⟨ts₃, rfl, hts₃⟩
      · refine ⟨opening :: (inner ++ closing :: ts₃), ?_, hts⟩
        rw [List.cons_append, List.append_assoc, List.cons_append]
  | slice element =>
      obtain ⟨opening, ts₁, rfl, hopening, hts₁⟩ := List.map_eq_cons_iff.mp hts
      obtain ⟨closing, ts₂, rfl, hclosing, -⟩ := List.map_eq_cons_iff.mp hts₁
      have hparameters : typeParameters stop (opening :: ([] ++ closing :: (ts₂ ++ rest))) =
          .ok (opening :: ([] ++ closing :: (ts₂ ++ rest))) := typeParameters_enclosed hopening hclosing balanced_nil
      exact ⟨opening :: closing :: ts₂, hparameters, hts⟩
  | named qualifier name => cases qualifier <;> exact ⟨ts, hother (by rintro ⟨⟩) hts, hts⟩
  | instantiated qualifier name arguments harguments =>
      cases qualifier <;> exact ⟨ts, hother (by rintro ⟨⟩) hts, hts⟩
  | channel direction element => cases direction <;> exact ⟨ts, hother (by decide) hts, hts⟩
  | _ => exact ⟨ts, hother (by decide) hts, hts⟩

/-- The sign of an alias is passed over. -/
theorem equals_tail (isAlias : Bool) (rest : List Token) {type : TypeForm} (hts : ts.map Token.word =
    (if isAlias then [.sign "="] else []) ++ type.words) : ∃ ts',
      (if nextIsOperator (ts ++ rest) "=" then (ts ++ rest).tail else ts ++ rest) = ts' ++ rest ∧
      ts'.map Token.word = type.words := by
  cases isAlias with
  | true =>
      obtain ⟨⟨kind, text, pos⟩, ts', rfl, hequals, hts'⟩ := List.map_eq_cons_iff.mp hts
      cases hequals
      exact ⟨ts', if_pos rfl, hts'⟩
  | false =>
      obtain ⟨w, ws, hwords, hw, -⟩ := type.words_cons
      have hnext : nextIsOperator (ts ++ rest) "=" = false := by
        obtain ⟨⟨kind, text, pos⟩, ts', rfl, hword, -⟩ := List.map_eq_cons_iff.mp (hts.trans hwords)
        rw [Bool.eq_false_iff]
        intro hnext
        obtain ⟨rfl, rfl⟩ := eq_of_isOperator (t := ⟨kind, text, pos⟩) hnext
        exact hw hword.symm
      exact ⟨ts, if_neg (Bool.eq_false_iff.mp hnext), hts⟩

theorem SpecForm.behindName_read (stop : Position) (rest : List Token) {spec : SpecForm} (hts : ts.map Token.word = spec.behindName) :
    ∃ behind ts', typeParameters stop (ts ++ rest) = .ok behind ∧
      (if nextIsOperator behind "=" then behind.tail else behind) = ts' ++ rest ∧
      ts'.map Token.word = spec.seen.words := by
  obtain ⟨name, parameters, isAlias, type⟩ := spec
  cases parameters with
  | some parameters =>
      obtain ⟨front, back, rfl, hfront, hback⟩ := List.map_eq_append_iff.mp hts
      obtain ⟨ts', hequals, hts'⟩ := equals_tail isAlias rest hback
      rw [List.append_assoc]
      exact ⟨_, ts', parameters.typeParameters_eq hfront, hequals, hts'⟩
  | none =>
      cases isAlias with
      | true =>
          obtain ⟨ts', hequals, hts'⟩ := equals_tail true rest hts
          obtain ⟨⟨kind, text, pos⟩, back, rfl, hsign, -⟩ := List.map_eq_cons_iff.mp hts
          cases hsign
          exact ⟨_, ts', typeParameters_other rfl, hequals, hts'⟩
      | false =>
          obtain ⟨ts', hparameters, hts'⟩ := TypeForm.typeParameters_eq stop rest hts
          obtain ⟨ts'', hequals, hts''⟩ := equals_tail false rest hts'
          exact ⟨_, ts'', hparameters, hequals, hts''⟩

/-- The names under which type declarations are reported. -/
def reportedNames (specs : List SpecForm) : List String :=
  (specs.filter fun spec => spec.seen.isBareStruct).map SpecForm.name

theorem typeSpec_form {doc : String} {struct? : Option Struct} {spec : SpecForm}
    (hts : ts.map Token.word = spec.words) (hrest : AtSpecEnd grouped rest)
    (h : typeSpec stop doc grouped (ts ++ rest) = .ok (struct?, left)) :
    left = rest ∧ struct?.toList.map Struct.name = reportedNames [spec] := by
  obtain ⟨⟨kind, text, pos⟩, behind, rfl, hname, hbehind⟩ := List.map_eq_cons_iff.mp hts
  cases hname
  obtain ⟨behind', type, hparameters, hequals, htype⟩ := SpecForm.behindName_read stop rest hbehind
  have hexpect : expectIdentifier stop .typeName (⟨.identifier, spec.name, pos⟩ :: behind ++ rest) =
      .ok (⟨.identifier, spec.name, pos⟩, behind ++ rest) := rfl
  rw [typeSpec_eq, hexpect] at h
  simp only [bind, Except.bind] at h
  rw [hparameters] at h
  dsimp only at h
  rw [hequals] at h
  obtain ⟨hleft, hnames⟩ := declaredType_form htype hrest h
  refine ⟨hleft, ?_⟩
  rw [hnames, reportedNames, List.filter_singleton]
  cases spec.seen.isBareStruct <;> rfl

theorem reportedNames_cons (spec : SpecForm) (specs : List SpecForm) :
    reportedNames (spec :: specs) = reportedNames [spec] ++ reportedNames specs := by
  rw [reportedNames, reportedNames, reportedNames, ← List.map_append, ← List.filter_append, List.singleton_append]

/-- A type begins with its name, so a group goes on there. -/
theorem SpecForm.first {spec : SpecForm} {t : Token} {behind : List Token} (hts : ts.map Token.word = spec.words)
    (hfirst : skipTerminators (ts ++ rest) = t :: behind) : ts ++ rest = t :: behind ∧ t.isOperator ")" = false := by
  obtain ⟨⟨kind, text, pos⟩, ts', rfl, hname, -⟩ := List.map_eq_cons_iff.mp hts
  cases hname
  cases (skipTerminators_cons rfl).symm.trans hfirst
  exact ⟨rfl, rfl⟩

theorem specItem_form {ctx : GroupContext} {t : Token} {behind : List Token} {structs : List Struct} {spec : SpecForm}
    (hts : ts.map Token.word = spec.words) (hrest : AtSpecEnd true rest)
    (hfirst : skipTerminators (ts ++ rest) = t :: behind) (h : specItem ctx t behind = .ok (structs, left)) :
    left = rest ∧ structs.map Struct.name = reportedNames [spec] := by
  obtain ⟨⟨struct?, left'⟩, hspec, heq⟩ := of_map h
  cases heq
  rw [← (SpecForm.first hts hfirst).1] at hspec
  exact typeSpec_form hts hrest hspec

/-- The types of a group are read up to the parenthesis that closes it. -/
theorem specs_form {ctx : GroupContext} {structs : List Struct} {specs : Separated SpecForm} {closing : Token}
    (hclosing : closing.word = .sign ")") (hts : ts.map Token.word = specs.words SpecForm.words)
    (h : ItemsRead (specItem ctx) ")" (ts ++ closing :: rest) structs left) :
    left = rest ∧ structs.map Struct.name = reportedNames specs.toList := by
  obtain ⟨kind, text, pos⟩ := closing
  cases hclosing
  induction specs generalizing ts structs with
  | none =>
      obtain rfl := List.map_eq_nil_iff.mp hts
      cases h with
      | none hfirst _ =>
          cases (skipTerminators_cons rfl).symm.trans hfirst
          exact ⟨rfl, rfl⟩
      | last hfirst hgoesOn | next hfirst hgoesOn =>
          cases (skipTerminators_cons rfl).symm.trans hfirst
          cases hgoesOn
  | last spec =>
      have hend : AtSpecEnd true (⟨.operator, ")", pos⟩ :: rest) := by
        rintro t ⟨⟩
        exact .inr ⟨rfl, rfl⟩
      cases h with
      | none hfirst hcloses => cases (SpecForm.first hts hfirst).2.symm.trans hcloses
      | last hfirst _ hread _ =>
          obtain ⟨heq, hnames⟩ := specItem_form hts hend hfirst hread
          cases heq
          exact ⟨rfl, hnames⟩
      | next hfirst _ hread hseparates _ =>
          cases (specItem_form hts hend hfirst hread).1
          cases hseparates
  | cons spec separator specs ih =>
      obtain ⟨front, back, rfl, hfront, hback⟩ := List.map_eq_append_iff.mp hts
      obtain ⟨t, ts', rfl, ht, hts'⟩ := List.map_eq_cons_iff.mp hback
      have hterminator : t.isTerminator = true := (other_of_separator ht).2.2
      have hend : AtSpecEnd true (t :: (ts' ++ ⟨.operator, ")", pos⟩ :: rest)) := by
        rintro t ⟨⟩
        exact .inl hterminator
      rw [List.append_assoc, List.cons_append] at h
      cases h with
      | none hfirst hcloses => cases (SpecForm.first hfront hfirst).2.symm.trans hcloses
      | last hfirst _ hread hcloses =>
          cases (specItem_form hfront hend hfirst hread).1
          cases (not_terminator_of_operator hcloses).symm.trans hterminator
      | next hfirst _ hread _ hothers =>
          obtain ⟨heq, hnames⟩ := specItem_form hfront hend hfirst hread
          cases heq
          obtain ⟨hleft, hlater⟩ := ih hts' hothers
          refine ⟨hleft, ?_⟩
          rw [List.map_append, hnames, hlater, Separated.toList, ← reportedNames_cons]

/-- Behind a declaration comes nothing, or a semicolon that is passed over. -/
theorem endDeclaration_eq (hrest : AtSpecEnd false rest) : endDeclaration stop rest = .ok rest.tail := by
  cases rest with
  | nil => rfl
  | cons t rest =>
      rcases hrest t rfl with hterminator | ⟨hgrouped, -⟩
      · exact if_pos hterminator
      · cases hgrouped

theorem declaration_form {comments : List Comment} {kw : Token} {structs : List Struct} {decl : DeclForm}
    (hts : (kw :: ts).map Token.word = decl.words) (hrest : AtSpecEnd false rest)
    (h : declaration comments stop kw (ts ++ rest) = .ok (structs, left)) :
    left = rest.tail ∧ structs.map Struct.name = reportedNames decl.specs := by
  have hending : endDeclaration stop rest = .ok rest.tail := endDeclaration_eq hrest
  obtain ⟨kind, text, pos⟩ := kw
  rw [List.map_cons] at hts
  cases decl with
  | single spec =>
      obtain ⟨hkw, hspec⟩ := List.cons_eq_cons.mp hts
      cases hkw
      have hopening : nextIsOperator (ts ++ rest) "(" = false := by
        obtain ⟨⟨kind, text, pos⟩, behind, rfl, hname, -⟩ := List.map_eq_cons_iff.mp hspec
        cases hname
        rfl
      rw [declaration_type, typeDeclaration] at h
      dsimp only at h
      rw [hopening, if_neg Bool.false_ne_true] at h
      obtain ⟨⟨struct?, behind⟩, hstruct, hbehind⟩ := of_bind h
      obtain ⟨rfl, hnames⟩ := typeSpec_form hspec hrest hstruct
      obtain ⟨left', hleft, heq⟩ := of_bind hbehind
      cases heq
      exact ⟨(Except.ok.inj (hending.symm.trans hleft)).symm, hnames⟩
  | group specs =>
      obtain ⟨hkw, hbody⟩ := List.cons_eq_cons.mp hts
      cases hkw
      obtain ⟨⟨kind, text, pos'⟩, ts₁, rfl, hopening, hts₁⟩ := List.map_eq_cons_iff.mp hbody
      obtain ⟨inner, ts₂, rfl, hinner, hts₂⟩ := List.map_eq_append_iff.mp hts₁
      obtain ⟨closing, rfl, hclosing⟩ := List.map_eq_singleton_iff.mp hts₂
      cases hopening
      have hopening (ts : List Token) : nextIsOperator (⟨.operator, "(", pos'⟩ :: ts) "(" = true := rfl
      rw [declaration_type, typeDeclaration] at h
      dsimp only at h
      rw [List.cons_append, if_pos (hopening _), List.tail_cons, List.append_assoc, List.singleton_append] at h
      obtain ⟨⟨structs', behind⟩, hgroup, hbehind⟩ := of_bind h
      obtain ⟨rfl, hnames⟩ := specs_form hclosing hinner (typeGroup_eq_ok_iff.mp hgroup)
      obtain ⟨left', hleft, heq⟩ := of_bind hbehind
      cases heq
      exact ⟨(Except.ok.inj (hending.symm.trans hleft)).symm, hnames⟩
  | other keyword hkeyword words hwords =>
      obtain ⟨hkw, hbody⟩ := List.cons_eq_cons.mp hts
      cases hkw
      rw [declaration, if_pos ⟨rfl, List.contains_iff_mem.mpr hkeyword⟩,
        (hwords ts hbody).skipDeclaration_eq stop hending] at h
      cases h
      exact ⟨rfl, rfl⟩

/-- One declaration and those behind it. -/
theorem declarations_form_step {comments : List Comment} {structs : List Struct} {decl : DeclForm}
    (hts : ts.map Token.word = decl.words) (hrest : AtSpecEnd false rest)
    (h : declarations comments stop (ts ++ rest) = .ok structs) :
    ∃ first later, structs = first ++ later ∧ first.map Struct.name = reportedNames decl.specs ∧
      declarations comments stop rest.tail = .ok later := by
  obtain ⟨kw, behind, rfl, hkeyword⟩ : ∃ kw behind, ts = kw :: behind ∧ kw.isTerminator = false := by
    cases decl <;>
    · obtain ⟨⟨kind, text, pos⟩, behind, rfl, hkw, -⟩ := List.map_eq_cons_iff.mp hts
      cases hkw
      exact ⟨_, _, rfl, rfl⟩
  rw [List.cons_append, declarations_cons (skipTerminators_cons hkeyword)] at h
  obtain ⟨⟨first, left⟩, hdeclaration, hmap⟩ := of_bind h
  obtain ⟨rfl, hnames⟩ := declaration_form hts hrest hdeclaration
  obtain ⟨later, hlater, rfl⟩ := of_map hmap
  exact ⟨first, later, rfl, hnames, hlater⟩

theorem declarations_form {comments : List Comment} {structs : List Struct} {decls : Separated DeclForm}
    (hts : ts.map Token.word = decls.words DeclForm.words) (h : declarations comments stop ts = .ok structs) :
    structs.map Struct.name = reportedNames (decls.toList.flatMap DeclForm.specs) := by
  have hnone : declarations comments stop [] = .ok [] := declarations_nil rfl
  induction decls generalizing ts structs with
  | none =>
      obtain rfl := List.map_eq_nil_iff.mp hts
      cases hnone.symm.trans h
      rfl
  | last decl =>
      rw [← List.append_nil ts] at h
      obtain ⟨first, later, rfl, hfirst, hlater⟩ := declarations_form_step hts (by rintro t ⟨⟩) h
      cases hnone.symm.trans hlater
      rw [List.append_nil, hfirst, Separated.toList, List.flatMap_singleton]
  | cons decl separator decls ih =>
      obtain ⟨front, behind, rfl, hfront, hbehind⟩ := List.map_eq_append_iff.mp hts
      obtain ⟨t, ts', rfl, ht, hts'⟩ := List.map_eq_cons_iff.mp hbehind
      have hend : AtSpecEnd false (t :: ts') := by
        rintro t ⟨⟩
        exact .inl (other_of_separator ht).2.2
      obtain ⟨first, later, rfl, hfirst, hlater⟩ := declarations_form_step hfront hend h
      rw [List.map_append, hfirst, ih hts' hlater, Separated.toList, List.flatMap_cons, reportedNames, reportedNames,
        ← List.map_append, ← List.filter_append]
      rfl

end Reading

/-- A source that is read is reported to declare the structs among its types, in order and each once, except for the types
that are misread, about which the report says the opposite: a struct in parentheses is left out, and behind an array
length that looks like type parameters a struct is taken for the declared type. -/
theorem types_reported_unless_misread {path source : String} {lexed : Lexed} {form : SourceForm} {file : SourceFile}
    (hlexed : tokenize source = .ok lexed) (hwords : lexed.tokens.map Token.word = form.words)
    (hfile : parseSource path source = .ok file) :
    file.structs.map Struct.name =
        (form.specs.filter fun spec => spec.type.isStruct != spec.misread).map SpecForm.name ∧
      ((∀ spec ∈ form.specs, spec.misread = false) →
        file.structs.map Struct.name = (form.specs.filter fun spec => spec.type.isStruct).map SpecForm.name) := by
  have hnames : file.structs.map Struct.name =
      (form.specs.filter fun spec => spec.type.isStruct != spec.misread).map SpecForm.name := by
    rw [parseSource_eq_parseLexed hlexed] at hfile
    obtain ⟨⟨kind, text, pos⟩, ts₁, htokens, hkw, hts₁⟩ := List.map_eq_cons_iff.mp hwords
    obtain ⟨⟨kind', text', pos'⟩, ts₂, rfl, hname, hts₂⟩ := List.map_eq_cons_iff.mp hts₁
    obtain ⟨t, ts₃, rfl, ht, hts₃⟩ := List.map_eq_cons_iff.mp hts₂
    cases hkw
    cases hname
    have hfirst : skipTerminators lexed.tokens =
        ⟨.keyword, "package", pos⟩ :: ⟨.identifier, form.package, pos'⟩ :: t :: ts₃ := by
      rw [htokens]
      exact skipTerminators_cons rfl
    have hclause : HasClause lexed form.package ts₃ := .intro hfirst rfl rfl (if_pos (other_of_separator ht).2.2)
    rw [hclause.parseLexed_eq] at hfile
    obtain ⟨structs, hstructs, rfl⟩ := of_map hfile
    refine (declarations_form hts₃ hstructs).trans ?_
    rw [reportedNames, funext SpecForm.isBareStruct_seen, SourceForm.specs]
  refine ⟨hnames, fun hmisread => ?_⟩
  rw [hnames, List.filter_congr]
  intro spec hspec
  rw [hmisread spec hspec, Bool.bne_false]

theorem closedWords_brackets : ClosedWords [.sign "(", .sign ")"] :=
  ClosedWords.enclosed (by decide) rfl closedWords_nil.balanced closedWords_nil

/-- A generic struct, an alias of one, an array and a channel of structs, and a function. -/
def shelfForm : SourceForm where
  package := "v0"
  separator := .lineEnd
  decls := .cons (.group (
    .cons ⟨"A", some ⟨"T", [.identifier "any"], balancedWords_plain rfl, by decide⟩, false,
      .struct [.identifier "X", .identifier "T"] ((balancedWords_plain rfl).append (balancedWords_plain rfl))⟩ .lineEnd <|
    .cons ⟨"B", none, true, .struct [] closedWords_nil.balanced⟩ .semicolon <|
    .cons ⟨"C", none, false, .array [.identifier "N"] (balancedWords_plain rfl) (.struct [] closedWords_nil.balanced)⟩
      .lineEnd <|
    .last ⟨"D", none, false, .channel .send (.struct [] closedWords_nil.balanced)⟩)) .lineEnd <|
    .cons (.other "func" (by decide) [.identifier "f", .sign "(", .sign ")"] fun _ =>
      (closedWords_brackets.identifier "f").terminators) .lineEnd .none

def shelfSource : String :=
  "package v0\n\ntype (\n\tA[T any] struct \x7b X T \x7d // generic\n\tB = struct\x7b\x7d; C [N]struct\x7b\x7d\n" ++
    "\tD chan<- struct\x7b\x7d)\n\nfunc f()\n"

theorem shelfSource_reported : ∃ lexed file, tokenize shelfSource = .ok lexed ∧
    lexed.tokens.map Token.word = shelfForm.words ∧ parseSource "shelf.go" shelfSource = .ok file ∧
    file.structs.map Struct.name = ["A", "B"] := by
  obtain ⟨lexed, hlexed, hwords⟩ : ∃ lexed, tokenize shelfSource = .ok lexed ∧
      lexed.tokens.map Token.word = shelfForm.words := exists_ok_of_map (by decide +kernel)
  obtain ⟨file, hfile, -⟩ : ∃ file, parseSource "shelf.go" shelfSource = .ok file ∧ file.package = "v0" :=
    exists_ok_of_map (by decide +kernel)
  have hmisread : ∀ spec ∈ shelfForm.specs, spec.misread = false := by decide +kernel
  have hnames := (types_reported_unless_misread hlexed hwords hfile).2 hmisread
  exact ⟨lexed, file, hlexed, hwords, hfile, hnames.trans (by decide +kernel)⟩

/-- An array whose length is the sum of a name and a number. -/
def gridForm : SourceForm where
  package := "v0"
  separator := .lineEnd
  decls := .cons (.other "const" (by decide) [.identifier "N", .sign "=", ⟨.number, "3"⟩] fun _ =>
      (((closedWords_plain rfl rfl).cons rfl rfl).identifier "N" : ClosedWords _).terminators) .lineEnd <|
    .cons (.single ⟨"A", none, false, .array [.identifier "N", .sign "+", ⟨.number, "1"⟩]
      ((balancedWords_plain rfl).append ((balancedWords_plain rfl).append (balancedWords_plain rfl)))
      (.struct [.identifier "X", .identifier "int"] ((balancedWords_plain rfl).append (balancedWords_plain rfl)))⟩)
      .lineEnd .none

def gridSource : String :=
  "package v0\n\nconst N = 3\n\ntype A [N + 1]struct \x7b X int \x7d\n"

/-- The array is reported as a struct. -/
theorem gridSource_misread : ∃ lexed file, tokenize gridSource = .ok lexed ∧
    lexed.tokens.map Token.word = gridForm.words ∧ parseSource "grid.go" gridSource = .ok file ∧
    gridForm.specs.map (fun spec => (spec.name, spec.type.isStruct)) = [("A", false)] ∧
    file.structs.map Struct.name = ["A"] := by
  obtain ⟨lexed, hlexed, hwords⟩ : ∃ lexed, tokenize gridSource = .ok lexed ∧
      lexed.tokens.map Token.word = gridForm.words := exists_ok_of_map (by decide +kernel)
  obtain ⟨file, hfile, hnames⟩ : ∃ file, parseSource "grid.go" gridSource = .ok file ∧
      file.structs.map Struct.name = ["A"] := exists_ok_of_map (by decide +kernel)
  exact ⟨lexed, file, hlexed, hwords, hfile, by decide +kernel, hnames⟩

end ApiForge.Source
