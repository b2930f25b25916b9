import ApiForge.Proofs.Layouts
import ApiForge.Proofs.Provenance
import ApiForge.Proofs.TypeSyntax
import Mathlib

/-! Fields as they are read. Where the type of a field ends, and whether a field is an embedded type, is judged by the
tokens that come next; of every field that can be written the judgement is right. -/

namespace ApiForge.Source

section Brackets

variable (stop : Position) (rest : List Token) {inner stack stack' : List Token}

/-- Inside brackets a field's type goes on, whatever comes. -/
theorem fieldType_append (h : inner.foldlM track stack = .ok stack') (opener : Token) (outer : List Token) :
    fieldType stop (stack ++ opener :: outer) (inner ++ rest) =
      (fieldType stop (stack' ++ opener :: outer) rest).map fun r => (inner ++ r.1, r.2) := by
  induction inner generalizing stack with
  | nil =>
      cases h
      rw [List.nil_append]
      cases fieldType stop (stack' ++ opener :: outer) rest <;> rfl
  | cons t inner ih =>
      rw [List.foldlM_cons] at h
      obtain ⟨next, ht, h⟩ := of_bind h
      rw [List.cons_append, fieldType, if_neg, track_append ht]
      · dsimp only
        rw [ih h]
        cases fieldType stop (stack' ++ opener :: outer) rest <;> rfl
      · exact fun hend => List.append_ne_nil_of_right_ne_nil _ (List.cons_ne_nil _ _) hend.1

theorem bracketed_append (h : inner.foldlM track stack = .ok stack') (opener : Token) (outer : List Token) :
    bracketed stop (stack ++ opener :: outer) (inner ++ rest) =
      (bracketed stop (stack' ++ opener :: outer) rest).map fun r => (inner ++ r.1, r.2) := by
  induction inner generalizing stack with
  | nil =>
      cases h
      rw [List.nil_append]
      cases bracketed stop (stack' ++ opener :: outer) rest <;> rfl
  | cons t inner ih =>
      rw [List.foldlM_cons] at h
      obtain ⟨next, ht, h⟩ := of_bind h
      obtain ⟨o, os, hstack⟩ : ∃ o os, next ++ opener :: outer = o :: os :=
        List.exists_cons_of_ne_nil (List.append_ne_nil_of_right_ne_nil _ (List.cons_ne_nil _ _))
      rw [List.cons_append, bracketed, track_append ht, hstack]
      dsimp only
      rw [← hstack, ih h]
      cases bracketed stop (stack' ++ opener :: outer) rest <;> rfl

/-- The number of open brackets is enough to find the end of the outermost. -/
theorem closesAsEmbedded_append (h : inner.foldlM track stack = .ok stack') (depth seen : Nat) :
    closesAsEmbedded (stack.length + (depth + 1)) seen (inner ++ rest) =
      closesAsEmbedded (stack'.length + (depth + 1)) (seen + inner.length) rest := by
  induction inner generalizing stack seen with
  | nil =>
      cases h
      rfl
  | cons t inner ih =>
      rw [List.foldlM_cons] at h
      obtain ⟨next, ht, h⟩ := of_bind h
      have hseen : seen + (t :: inner).length = seen + 1 + inner.length := by
        rw [List.length_cons]
        omega
      rw [List.cons_append, closesAsEmbedded, hseen, ← ih h]
      unfold track at ht
      split_ifs at ht with hopens hcloses
      · cases ht
        rw [if_pos hopens, List.length_cons]
        congr 1
        omega
      · cases stack with
        | nil => cases ht
        | cons opener outer =>
            dsimp only at ht
            split_ifs at ht
            cases ht
            rw [if_neg hopens, if_pos hcloses, if_neg (by rw [List.length_cons]; omega), List.length_cons]
            congr 1
            omega
      · cases ht
        rw [if_neg hopens, if_neg hcloses]

variable {opening closing : Token}

/-- Brackets are read up to the one that closes the first. -/
theorem bracketed_enclosed (hopens : opening.opens = true) (hcloses : closing.closes = true)
    (hfits : closerOf opening.text = closing.text) (hinner : Balanced inner) :
    bracketed stop [] (opening :: (inner ++ closing :: rest)) = .ok (opening :: (inner ++ [closing]), rest) := by
  have hbehind := bracketed_append stop (closing :: rest) hinner opening []
  rw [List.nil_append] at hbehind
  rw [bracketed, track_opening hopens]
  dsimp only
  rw [hbehind, bracketed, track_closing hcloses hfits]
  rfl

theorem not_endsField_of_opens (hopens : opening.opens = true) : opening.endsField = false := by
  rw [Token.opens, Bool.and_eq_true, beq_iff_eq] at hopens
  have hbrace : "\x7d" ∉ openers := by decide
  have htext : opening.text ≠ "\x7d" := fun heq => hbrace (heq ▸ List.contains_iff_mem.mp hopens.2)
  simp [Token.endsField, Token.isTerminator, Token.isString, Token.isOperator, hopens.1, htext]

theorem endsField_iff {t : Token} :
    t.endsField = true ↔ t.isTerminator = true ∨ t.isString = true ∨ t.isOperator "\x7d" = true := by
  rw [Token.endsField, Bool.or_eq_true, Bool.or_eq_true, or_assoc]

/-- A type is read up to the end of its field. -/
theorem Closed.fieldType_eq {ts : List Token} (h : Closed Token.endsField ts) {t : Token} (ht : t.endsField = true) :
    fieldType stop [] (ts ++ t :: rest) = .ok (ts, t :: rest) := by
  induction h with
  | nil => rw [List.nil_append, fieldType, if_pos ⟨rfl, endsField_iff.mp ht⟩]
  | @plain t' ts hplain hends hts ih =>
      rw [List.cons_append, fieldType, if_neg, track_plain hplain]
      · dsimp only
        rw [ih]
        rfl
      · rintro ⟨-, hend⟩
        rw [endsField_iff.mpr hend] at hends
        cases hends
  | @enclosed opening closing inner ts hopens hcloses hfits hinner hts ih =>
      have hinside := fieldType_append stop (closing :: (ts ++ t :: rest)) hinner opening []
      rw [List.nil_append] at hinside
      rw [List.cons_append, List.append_assoc, List.cons_append, fieldType, if_neg, track_opening hopens]
      · dsimp only
        rw [hinside, fieldType, if_neg (fun hend => List.cons_ne_nil _ _ hend.1), track_closing hcloses hfits]
        dsimp only
        rw [ih]
        simp [Except.map]
      · rintro ⟨-, hend⟩
        have hends := not_endsField_of_opens hopens
        rw [endsField_iff.mpr hend] at hends
        cases hends

theorem closesAsEmbedded_enclosed (hopens : opening.opens = true) (hcloses : closing.closes = true)
    (hinner : Balanced inner) :
    closesAsEmbedded 0 0 (opening :: (inner ++ closing :: rest)) = (inner.length + 1 != 1 && atFieldEnd rest) := by
  have hinside := closesAsEmbedded_append (closing :: rest) hinner 0 1
  rw [List.length_nil] at hinside
  rw [closesAsEmbedded, if_pos hopens, hinside, closesAsEmbedded, if_neg (by rw [not_opens_of_closes hcloses]; rintro ⟨⟩),
    if_pos hcloses, if_pos le_rfl, Nat.add_comm]

end Brackets

/-! ### What is read -/

/-- The words of a type as one text. -/
def wordsText (ws : List Word) : String :=
  typeText (ws.map Word.token)

theorem typeText_eq (ts : List Token) : typeText ts = wordsText (ts.map Token.word) := by
  induction ts with
  | nil => rfl
  | cons a ts ih =>
      cases ts with
      | nil => rfl
      | cons b ts =>
          have htoken : typeToken a = typeToken a.word.token := rfl
          have hspaced : spaced a b = spaced a.word.token b.word.token := rfl
          rw [typeText, ih, htoken, hspaced]
          rfl

def tagsOf (tag : Option TagLiteral) : TagMap :=
  (tag.map fun tag => parseTag tag.value).getD []

namespace FieldDecl

/-- One field for each name. -/
def fields : FieldDecl → List Field
  | .named first more type tag => (first :: more).map fun name => ⟨name, false, wordsText type.words, tagsOf tag⟩
  | .embedded pointer qualifier name arguments tag =>
    [⟨name, true, wordsText ((if pointer then [.sign "*"] else []) ++ (nameWords qualifier name ++ arguments.bracketed)),
      tagsOf tag⟩]

end FieldDecl

def FieldList.fields : FieldList → List Field
  | .none => []
  | .last field => field.fields
  | .cons field _ rest => field.fields ++ rest.fields

/-! ### Fields -/

section Fields

variable (stop : Position) (rest : List Token) {ts : List Token} {t : Token}

theorem fieldTag_read {tag : Option TagLiteral} (hts : ts.map Token.word = (tag.map TagLiteral.word).toList)
    (ht : t.isString = false) : fieldTag (ts ++ t :: rest) = (tagsOf tag, t :: rest) := by
  cases tag with
  | none =>
      obtain rfl := List.map_eq_nil_iff.mp hts
      rw [List.nil_append, fieldTag]
      split
      · rename_i value hkind
        rw [Token.isString, hkind] at ht
        cases ht
      · rfl
  | some tag =>
      obtain ⟨⟨kind, text, pos⟩, rfl, ht⟩ := List.map_eq_singleton_iff.mp hts
      cases ht
      rfl

theorem moreNames_read {more : List String}
    (hts : ts.map Token.word = moreNameWords more)
    (ht : t.isOperator "," = false) : moreNames stop (ts ++ t :: rest) = .ok (more, t :: rest) := by
  induction more generalizing ts with
  | nil =>
      obtain rfl := List.map_eq_nil_iff.mp hts
      cases rest with
      | nil => rw [List.nil_append, moreNames, ht]; rfl
      | cons t' rest => rw [List.nil_append, moreNames, ht]; rfl
  | cons name more ih =>
      rw [moreNameWords, List.flatMap_cons] at hts
      obtain ⟨⟨kind, text, pos⟩, behind, rfl, hcomma, hbehind⟩ := List.map_eq_cons_iff.mp hts
      obtain ⟨⟨kind', text', pos'⟩, ts', rfl, hname, hts'⟩ := List.map_eq_cons_iff.mp hbehind
      cases hcomma
      cases hname
      have hcomma : (⟨.operator, ",", pos⟩ : Token).isOperator "," = true := rfl
      rw [List.cons_append, List.cons_append, moreNames, if_pos hcomma, if_pos rfl, ih hts']
      rfl

/-- How the words of a type begin. -/
theorem TypeExpr.words_cons (type : TypeExpr) : ∃ w ws, type.words = w :: ws ∧
    (w.kind = .identifier ∨ w.kind = .keyword ∨ w = .sign "*" ∨ w = .sign "<-" ∨ w = .sign "[" ∧
      ((∃ element, type = .slice element) ∨ ∃ length hlength element, type = .array length hlength element)) := by
  cases type with
  | named qualifier name arguments =>
      rw [words]
      cases qualifier with
      | none => exact ⟨_, _, rfl, .inl rfl⟩
      | some package => exact ⟨_, _, rfl, .inl rfl⟩
  | channel direction element =>
      rw [words]
      cases direction with
      | both => exact ⟨_, _, rfl, .inr (.inl rfl)⟩
      | send => exact ⟨_, _, rfl, .inr (.inl rfl)⟩
      | receive => exact ⟨_, _, rfl, .inr (.inr (.inr (.inl rfl)))⟩
  | pointer target => exact ⟨_, _, by rw [words], .inr (.inr (.inl rfl))⟩
  | slice element => exact ⟨_, _, by rw [words], .inr (.inr (.inr (.inr ⟨rfl, .inl ⟨element, rfl⟩⟩)))⟩
  | array length hlength element =>
      exact ⟨_, _, by rw [words], .inr (.inr (.inr (.inr ⟨rfl, .inr ⟨length, hlength, element, rfl⟩⟩)))⟩
  | map key value => exact ⟨_, _, by rw [words], .inr (.inl rfl)⟩
  | function signature => exact ⟨_, _, by rw [words], .inr (.inl rfl)⟩
  | interface elements => exact ⟨_, _, by rw [words], .inr (.inl rfl)⟩
  | struct fields => exact ⟨_, _, by rw [words], .inr (.inl rfl)⟩

/-- A type begins with a token that ends no field and goes on with no list. -/
theorem TypeExpr.tokens_cons {type : TypeExpr} (hts : ts.map Token.word = type.words) :
    ∃ t ts', ts = t :: ts' ∧ t.endsField = false ∧ t.isOperator "," = false ∧ t.isOperator "]" = false := by
  obtain ⟨w, ws, hwords, hfirst⟩ := type.words_cons
  rw [hwords] at hts
  obtain ⟨⟨kind, text, pos⟩, ts', rfl, rfl, -⟩ := List.map_eq_cons_iff.mp hts
  refine ⟨_, ts', rfl, ?_⟩
  rcases hfirst with hkind | hkind | hsign | hsign | ⟨hsign, -⟩
  · obtain rfl : kind = .identifier := hkind
    exact ⟨rfl, rfl, rfl⟩
  · obtain rfl : kind = .keyword := hkind
    exact ⟨rfl, rfl, rfl⟩
  · cases hsign
    exact ⟨rfl, rfl, rfl⟩
  · cases hsign
    exact ⟨rfl, rfl, rfl⟩
  · cases hsign
    exact ⟨rfl, rfl, rfl⟩

/-- The type of a field is not taken for the type arguments of an embedded type, nor for its end. -/
theorem TypeExpr.embeddedFollows_eq {type : TypeExpr} (hts : ts.map Token.word = type.words) :
    embeddedFollows (ts ++ rest) = false := by
  obtain ⟨w, ws, hwords, hfirst⟩ := type.words_cons
  have hcons := hts
  rw [hwords] at hcons
  obtain ⟨⟨kind, text, pos⟩, behind, rfl, rfl, -⟩ := List.map_eq_cons_iff.mp hcons
  rcases hfirst with hkind | hkind | hsign | hsign | ⟨hopening, ⟨element, rfl⟩ | ⟨length, hlength, element, rfl⟩⟩
  · obtain rfl : kind = .identifier := hkind
    rfl
  · obtain rfl : kind = .keyword := hkind
    rfl
  · cases hsign
    rfl
  · cases hsign
    rfl
  · -- Empty brackets open no type arguments.
    rw [words, List.map_cons] at hts
    obtain ⟨⟨kind', text', pos'⟩, ts', rfl, hclosing, -⟩ := List.map_eq_cons_iff.mp (List.cons.inj hts).2
    cases hopening
    cases hclosing
    rfl
  · -- Behind the length comes a type, and not the end of the field.
    rw [words, List.map_cons] at hts
    obtain ⟨inner, behind', rfl, hinner, hbehind'⟩ := List.map_eq_append_iff.mp (List.cons.inj hts).2
    obtain ⟨⟨kind', text', pos'⟩, ts', rfl, hclosing, hts'⟩ := List.map_eq_cons_iff.mp hbehind'
    cases hopening
    cases hclosing
    obtain ⟨t, ts'', rfl, hends, -⟩ := TypeExpr.tokens_cons hts'
    rw [List.cons_append, List.append_assoc, List.cons_append]
    have hcloses : closesAsEmbedded 0 0 (⟨.operator, "[", pos⟩ :: (inner ++ ⟨.operator, "]", pos'⟩ ::
        (t :: ts'' ++ rest))) = _ := closesAsEmbedded_enclosed _ rfl rfl (hlength inner hinner)
    have hend : atFieldEnd (t :: ts'' ++ rest) = false := hends
    rw [hend, Bool.and_false] at hcloses
    exact hcloses

/-- The end of a field begins nothing that an embedded type could go on with. -/
theorem other_of_endsField (ht : t.endsField = true) : t.isOperator "." = false ∧ t.isOperator "[" = false := by
  obtain ⟨kind, text, pos⟩ := t
  cases kind with
  | operator =>
      have hbrace : (⟨.operator, text, pos⟩ : Token).isOperator "\x7d" = true := by
        rcases endsField_iff.mp ht with h | h | h
        · cases h
        · cases h
        · exact h
      obtain ⟨-, rfl⟩ := eq_of_isOperator hbrace
      exact ⟨rfl, rfl⟩
  | _ => exact ⟨rfl, rfl⟩

theorem TypeList.bracketed_cons {type : TypeExpr} {more : TypeList}
    (hts : ts.map Token.word = (TypeList.cons type more).bracketed) :
    ∃ opening inner closing, ts = opening :: (inner ++ [closing]) ∧ opening.word = .sign "[" ∧
      closing.word = .sign "]" ∧ Balanced inner ∧ inner ≠ [] := by
  rw [TypeList.bracketed] at hts
  obtain ⟨opening, behind, rfl, hopening, hbehind⟩ := List.map_eq_cons_iff.mp hts
  obtain ⟨inner, behind', rfl, hinner, hbehind'⟩ := List.map_eq_append_iff.mp hbehind
  obtain ⟨closing, rfl, hclosing⟩ := List.map_eq_singleton_iff.mp hbehind'
  refine ⟨opening, inner, closing, rfl, hopening, hclosing,
    (type.closed.append more.closed_more).balanced inner hinner, ?_⟩
  rintro rfl
  obtain ⟨w, ws, hwords, -⟩ := type.words_cons
  rw [hwords] at hinner
  cases hinner

theorem typeArguments_read {arguments : TypeList} (hts : ts.map Token.word = arguments.bracketed)
    (ht : t.endsField = true) : typeArguments stop (ts ++ t :: rest) = .ok (ts, t :: rest) := by
  cases arguments with
  | none =>
      obtain rfl := List.map_eq_nil_iff.mp hts
      have hnext : nextIsOperator (t :: rest) "[" = false := (other_of_endsField ht).2
      rw [List.nil_append, typeArguments, hnext]
      rfl
  | cons type more =>
      obtain ⟨⟨kind, text, pos⟩, inner, ⟨kind', text', pos'⟩, rfl, hopening, hclosing, hinner, -⟩ :=
        TypeList.bracketed_cons hts
      cases hopening
      cases hclosing
      have hnext : nextIsOperator (⟨.operator, "[", pos⟩ :: (inner ++ ⟨.operator, "]", pos'⟩ :: t :: rest)) "[" = true :=
        rfl
      rw [List.cons_append, List.append_assoc, List.singleton_append, typeArguments, if_pos hnext,
        bracketed_enclosed _ _ rfl rfl rfl hinner]

/-- Between a word and a sign there is no space. -/
theorem typeText_word {text : String} {pos : Position} {ts : List Token} (hts : ∀ b ∈ ts.head?, b.kind = .operator) :
    typeText (⟨.identifier, text, pos⟩ :: ts) = text ++ typeText ts := by
  cases ts with
  | nil => exact (String.append_empty).symm
  | cons b ts =>
      obtain ⟨kind, text', pos'⟩ := b
      obtain rfl : kind = .operator := hts _ rfl
      have hspaced : spaced ⟨.identifier, text, pos⟩ ⟨.operator, text', pos'⟩ = false := rfl
      have htoken : typeToken ⟨.identifier, text, pos⟩ = text := rfl
      rw [typeText, hspaced, htoken, if_neg Bool.false_ne_true, String.append_empty]

/-- Behind a sign there is none, unless it is a comma or closes a list. -/
theorem typeText_sign {text : String} {pos : Position} {ts : List Token} (htext : text ∉ [",", ")"]) :
    typeText (⟨.operator, text, pos⟩ :: ts) = text ++ typeText ts := by
  cases ts with
  | nil => exact (String.append_empty).symm
  | cons b ts =>
      have hspaced : spaced ⟨.operator, text, pos⟩ b = false := by
        simp only [List.mem_cons, List.not_mem_nil, or_false, not_or] at htext
        simp [spaced, Token.isWord, Token.isOperator, Token.isTerminator, htext]
      have htoken : typeToken ⟨.operator, text, pos⟩ = text := rfl
      rw [typeText, hspaced, htoken, if_neg Bool.false_ne_true, String.append_empty]

theorem embeddedType_plain {name : String} {pos : Position} (hnext : nextIsOperator ts "." = false) :
    embeddedType stop (⟨.identifier, name, pos⟩ :: ts) =
      (typeArguments stop ts).map fun r => ((name, name ++ typeText r.1), r.2) := by
  have hname : expectIdentifier stop .embeddedName (⟨.identifier, name, pos⟩ :: ts) =
      .ok (⟨.identifier, name, pos⟩, ts) := rfl
  rw [embeddedType, hname]
  simp only [bind, Except.bind, hnext]
  cases typeArguments stop ts <;> rfl

theorem embeddedType_qualified {package name : String} {p₁ p₂ p₃ : Position} :
    embeddedType stop (⟨.identifier, package, p₁⟩ :: ⟨.operator, ".", p₂⟩ :: ⟨.identifier, name, p₃⟩ :: ts) =
      (typeArguments stop ts).map fun r => ((name, package ++ "." ++ name ++ typeText r.1), r.2) := by
  have hpackage (behind : List Token) : expectIdentifier stop .embeddedName (⟨.identifier, package, p₁⟩ :: behind) =
      .ok (⟨.identifier, package, p₁⟩, behind) := rfl
  have hname : expectIdentifier stop .qualifiedName (⟨.identifier, name, p₃⟩ :: ts) =
      .ok (⟨.identifier, name, p₃⟩, ts) := rfl
  have hnext (behind : List Token) : nextIsOperator (⟨.operator, ".", p₂⟩ :: behind) "." = true := rfl
  rw [embeddedType, hpackage]
  simp only [bind, Except.bind, hnext, List.tail_cons, hname]
  cases typeArguments stop ts <;> rfl

theorem bracketed_head {arguments : TypeList} (hts : ts.map Token.word = arguments.bracketed) :
    ∀ b ∈ ts.head?, b.word = .sign "[" := by
  cases arguments with
  | none =>
      obtain rfl := List.map_eq_nil_iff.mp hts
      rintro b ⟨⟩
  | cons type more =>
      obtain ⟨opening, inner, closing, rfl, hopening, -⟩ := TypeList.bracketed_cons hts
      intro b hb
      cases hb
      exact hopening

/-- An embedded type, without the star in front of it. -/
theorem embeddedType_read {qualifier : Option String} {name : String} {arguments : TypeList}
    (hts : ts.map Token.word = nameWords qualifier name ++ arguments.bracketed) (ht : t.endsField = true) :
    embeddedType stop (ts ++ t :: rest) = .ok ((name, typeText ts), t :: rest) := by
  obtain ⟨names, types, rfl, hnames, htypes⟩ := List.map_eq_append_iff.mp hts
  have harguments := typeArguments_read stop rest htypes ht
  have hhead := bracketed_head htypes
  have hoperator : ∀ b ∈ types.head?, b.kind = .operator := fun b hb => congrArg Word.kind (hhead b hb)
  cases qualifier with
  | none =>
      obtain ⟨⟨kind, text, pos⟩, rfl, hname⟩ := List.map_eq_singleton_iff.mp hnames
      cases hname
      have hnext : nextIsOperator (types ++ t :: rest) "." = false := by
        cases types with
        | nil => exact (other_of_endsField ht).1
        | cons b types =>
            obtain ⟨kind, text, pos⟩ := b
            cases hhead _ rfl
            rfl
      rw [List.singleton_append, List.cons_append, embeddedType_plain _ hnext, harguments, typeText_word hoperator]
      rfl
  | some package =>
      obtain ⟨⟨kind, text, pos⟩, behind, rfl, hpackage, hbehind⟩ := List.map_eq_cons_iff.mp hnames
      obtain ⟨⟨kind', text', pos'⟩, behind', rfl, hpoint, hbehind'⟩ := List.map_eq_cons_iff.mp hbehind
      obtain ⟨⟨kind'', text'', pos''⟩, rfl, hname⟩ := List.map_eq_singleton_iff.mp hbehind'
      cases hpackage
      cases hpoint
      cases hname
      have htext : typeText (⟨.identifier, text, pos⟩ :: ⟨.operator, ".", pos'⟩ :: ⟨.identifier, text'', pos''⟩ :: types) =
          text ++ "." ++ text'' ++ typeText types := by
        rw [typeText_word (by rintro b ⟨⟩; rfl), typeText_sign (by decide), typeText_word hoperator, String.append_assoc,
          String.append_assoc]
      simp only [List.cons_append, List.nil_append]
      rw [embeddedType_qualified, harguments, htext]
      rfl

/-- The tokens from a tag on, or from the end of the field on if it has no tag. -/
theorem tag_cons {tag : Option TagLiteral} (hts : ts.map Token.word = (tag.map TagLiteral.word).toList)
    (ht : t.endsField = true) : ∃ t' rest', ts ++ t :: rest = t' :: rest' ∧ t'.endsField = true := by
  cases tag with
  | none =>
      obtain rfl := List.map_eq_nil_iff.mp hts
      exact ⟨t, rest, rfl, ht⟩
  | some tag =>
      obtain ⟨⟨kind, text, pos⟩, rfl, hword⟩ := List.map_eq_singleton_iff.mp hts
      cases hword
      exact ⟨_, _, rfl, rfl⟩

theorem embeddedFollows_of_endsField (ht : t.endsField = true) : embeddedFollows (t :: rest) = true := by
  rw [embeddedFollows]
  rcases endsField_iff.mp ht with h | h | h <;> simp [h]

/-- Type arguments are told from the length of an array by what comes behind them. -/
theorem TypeList.embeddedFollows_eq {arguments : TypeList} (hts : ts.map Token.word = arguments.bracketed)
    (ht : t.endsField = true) : embeddedFollows (ts ++ t :: rest) = true := by
  cases arguments with
  | none =>
      obtain rfl := List.map_eq_nil_iff.mp hts
      exact embeddedFollows_of_endsField _ ht
  | cons type more =>
      obtain ⟨⟨kind, text, pos⟩, inner, ⟨kind', text', pos'⟩, rfl, hopening, hclosing, hinner, hne⟩ :=
        TypeList.bracketed_cons hts
      cases hopening
      cases hclosing
      have hcloses : closesAsEmbedded 0 0 (⟨.operator, "[", pos⟩ :: (inner ++ ⟨.operator, "]", pos'⟩ :: t :: rest)) =
          _ := closesAsEmbedded_enclosed _ rfl rfl hinner
      have hend : atFieldEnd (t :: rest) = true := ht
      have hlength : (inner.length + 1 != 1) = true := by
        rw [bne_iff_ne]
        have := List.length_pos_iff.mpr hne
        omega
      rw [hlength, hend, Bool.and_self] at hcloses
      rw [List.cons_append, List.append_assoc, List.singleton_append]
      exact hcloses

theorem embeddedField_read (mark : String) {name : String} {qualifier : Option String} {arguments : TypeList}
    {tag : Option TagLiteral} {type tags : List Token}
    (htype : type.map Token.word = nameWords qualifier name ++ arguments.bracketed)
    (htags : tags.map Token.word = (tag.map TagLiteral.word).toList) (ht : t.endsField = true)
    (hstring : t.isString = false) : embeddedField stop mark (type ++ (tags ++ t :: rest)) =
      .ok ([⟨name, true, mark ++ typeText type, tagsOf tag⟩], t :: rest) := by
  obtain ⟨t', rest', hbehind, ht'⟩ := tag_cons rest htags ht
  have htag := fieldTag_read rest htags hstring
  rw [hbehind] at htag ⊢
  rw [embeddedField, embeddedType_read _ _ htype ht']
  simp only [bind, Except.bind, htag]
  rfl

theorem namedFields_read {first : String} {more : List String} {type : TypeExpr} {tag : Option TagLiteral}
    {names types tags : List Token}
    (hnames : names.map Token.word = moreNameWords more)
    (htypes : types.map Token.word = type.words) (htags : tags.map Token.word = (tag.map TagLiteral.word).toList)
    (ht : t.endsField = true) (hstring : t.isString = false) :
    namedFields stop first (names ++ (types ++ (tags ++ t :: rest))) =
      .ok ((first :: more).map fun name => ⟨name, false, typeText types, tagsOf tag⟩, t :: rest) := by
  obtain ⟨t', rest', hbehind, ht'⟩ := tag_cons rest htags ht
  have htag := fieldTag_read rest htags hstring
  have htype := (type.closed types htypes).fieldType_eq stop rest' ht'
  obtain ⟨head, tail, rfl, -, hcomma, -⟩ := TypeExpr.tokens_cons htypes
  have hmore := moreNames_read stop (tail ++ t' :: rest') hnames hcomma
  rw [hbehind] at htag ⊢
  rw [namedFields, List.cons_append, hmore]
  rw [List.cons_append] at htype
  simp only [bind, Except.bind, htype, htag]
  rfl

theorem fieldDeclaration_named {name : String} {pos : Position} (h : embeddedFollows ts = false) :
    fieldDeclaration stop (⟨.identifier, name, pos⟩ :: ts) = namedFields stop name ts := by
  have hstar : (⟨.identifier, name, pos⟩ : Token).isOperator "*" = false := rfl
  rw [fieldDeclaration, hstar, if_neg Bool.false_ne_true, if_neg (not_not.mpr rfl), h, if_neg Bool.false_ne_true]

theorem fieldDeclaration_embedded {name : String} {pos : Position} (h : embeddedFollows ts = true) :
    fieldDeclaration stop (⟨.identifier, name, pos⟩ :: ts) =
      embeddedField stop "" (⟨.identifier, name, pos⟩ :: ts) := by
  have hstar : (⟨.identifier, name, pos⟩ : Token).isOperator "*" = false := rfl
  rw [fieldDeclaration, hstar, if_neg Bool.false_ne_true, if_neg (not_not.mpr rfl), if_pos h]

theorem fieldDeclaration_pointer {pos : Position} :
    fieldDeclaration stop (⟨.operator, "*", pos⟩ :: ts) = embeddedField stop "*" ts :=
  rfl

theorem fieldDeclaration_read_named {first : String} {more : List String} {type : TypeExpr} {tag : Option TagLiteral}
    (hts : ts.map Token.word = (FieldDecl.named first more type tag).words) (ht : t.endsField = true)
    (hstring : t.isString = false) :
    fieldDeclaration stop (ts ++ t :: rest) = .ok ((FieldDecl.named first more type tag).fields, t :: rest) := by
  rw [FieldDecl.words] at hts
  obtain ⟨⟨kind, text, pos⟩, behind, rfl, hfirst, hbehind⟩ := List.map_eq_cons_iff.mp hts
  obtain ⟨names, behind', rfl, hnames, hbehind'⟩ := List.map_eq_append_iff.mp hbehind
  obtain ⟨types, tags, rfl, htypes, htags⟩ := List.map_eq_append_iff.mp hbehind'
  cases hfirst
  have hfollows : embeddedFollows (names ++ (types ++ (tags ++ t :: rest))) = false := by
    cases more with
    | nil =>
        obtain rfl := List.map_eq_nil_iff.mp hnames
        rw [List.nil_append]
        exact TypeExpr.embeddedFollows_eq _ htypes
    | cons name more =>
        rw [moreNameWords, List.flatMap_cons] at hnames
        obtain ⟨⟨kind', text', pos'⟩, names', rfl, hcomma, -⟩ := List.map_eq_cons_iff.mp hnames
        cases hcomma
        rfl
  rw [List.cons_append, List.append_assoc, List.append_assoc, fieldDeclaration_named _ hfollows,
    namedFields_read _ _ hnames htypes htags ht hstring, typeText_eq, htypes]
  rfl

theorem fieldDeclaration_read_embedded {pointer : Bool} {qualifier : Option String} {name : String}
    {arguments : TypeList} {tag : Option TagLiteral}
    (hts : ts.map Token.word = (FieldDecl.embedded pointer qualifier name arguments tag).words)
    (ht : t.endsField = true) (hstring : t.isString = false) : fieldDeclaration stop (ts ++ t :: rest) =
      .ok ((FieldDecl.embedded pointer qualifier name arguments tag).fields, t :: rest) := by
  rw [FieldDecl.words] at hts
  obtain ⟨stars, behind, rfl, hstars, hbehind⟩ := List.map_eq_append_iff.mp hts
  rw [← List.append_assoc] at hbehind
  obtain ⟨type, tags, rfl, htype, htags⟩ := List.map_eq_append_iff.mp hbehind
  have hread (mark : String) := embeddedField_read stop rest mark htype htags ht hstring
  cases pointer with
  | true =>
      obtain ⟨⟨kind, text, pos⟩, rfl, hstar⟩ := List.map_eq_singleton_iff.mp hstars
      cases hstar
      have htext : wordsText (.sign "*" :: (nameWords qualifier name ++ arguments.bracketed)) =
          "*" ++ typeText type := by
        rw [← htype]
        exact (typeText_eq (⟨.operator, "*", pos⟩ :: type)).symm.trans (typeText_sign (by decide))
      rw [List.singleton_append, List.cons_append, List.append_assoc, fieldDeclaration_pointer, hread, ← htext]
      rfl
  | false =>
      obtain rfl := List.map_eq_nil_iff.mp hstars
      obtain ⟨names, types, rfl, hnames, htypes⟩ := List.map_eq_append_iff.mp htype
      obtain ⟨t', rest', htail, ht'⟩ := tag_cons rest htags ht
      have hfields : FieldDecl.fields (.embedded false qualifier name arguments tag) =
          [⟨name, true, "" ++ typeText (names ++ types), tagsOf tag⟩] := by
        rw [String.empty_append, typeText_eq, htype]
        rfl
      have hread := hread ""
      cases qualifier with
      | none =>
          obtain ⟨⟨kind, text, pos⟩, rfl, hname⟩ := List.map_eq_singleton_iff.mp hnames
          cases hname
          have hfollows : embeddedFollows (types ++ (tags ++ t :: rest)) = true := by
            rw [htail]
            exact TypeList.embeddedFollows_eq _ htypes ht'
          rw [hfields, List.nil_append, List.append_assoc, ← hread]
          exact fieldDeclaration_embedded _ hfollows
      | some package =>
          obtain ⟨⟨kind, text, pos⟩, behind, rfl, hpackage, hbehind⟩ := List.map_eq_cons_iff.mp hnames
          obtain ⟨⟨kind', text', pos'⟩, behind', rfl, hpoint, -⟩ := List.map_eq_cons_iff.mp hbehind
          cases hpackage
          cases hpoint
          rw [hfields, List.nil_append, List.append_assoc, ← hread]
          exact fieldDeclaration_embedded _ rfl

/-- A field is read up to the semicolon or the brace behind it. -/
theorem fieldDeclaration_read {field : FieldDecl} (hts : ts.map Token.word = field.words) (ht : t.endsField = true)
    (hstring : t.isString = false) : fieldDeclaration stop (ts ++ t :: rest) = .ok (field.fields, t :: rest) := by
  cases field with
  | named first more type tag => exact fieldDeclaration_read_named stop rest hts ht hstring
  | embedded pointer qualifier name arguments tag => exact fieldDeclaration_read_embedded stop rest hts ht hstring

/-- A field begins with a token that is no end of anything. -/
theorem FieldDecl.tokens_cons {field : FieldDecl} (hts : ts.map Token.word = field.words) :
    ∃ t ts', ts = t :: ts' ∧ t.isTerminator = false ∧ t.isOperator "\x7d" = false := by
  have hname (name : String) {ws} (hts : ts.map Token.word = .identifier name :: ws) :
      ∃ t ts', ts = t :: ts' ∧ t.isTerminator = false ∧ t.isOperator "\x7d" = false := by
    obtain ⟨⟨kind, text, pos⟩, ts', rfl, hword, -⟩ := List.map_eq_cons_iff.mp hts
    cases hword
    exact ⟨_, ts', rfl, rfl, rfl⟩
  cases field with
  | named first more type tag =>
      rw [words] at hts
      exact hname _ hts
  | embedded pointer qualifier name arguments tag =>
      rw [words] at hts
      cases pointer with
      | true =>
          obtain ⟨⟨kind, text, pos⟩, ts', rfl, hword, -⟩ := List.map_eq_cons_iff.mp hts
          cases hword
          exact ⟨_, ts', rfl, rfl, rfl⟩
      | false =>
          cases qualifier with
          | none => exact hname _ hts
          | some package => exact hname _ hts

end Fields

/-! ### Structs -/

section Structs

variable (stop : Position) (rest : List Token) {ts : List Token} {t closing : Token}

/-- A field of a struct is read up to the token behind it. -/
theorem fieldItem_read {field : FieldDecl} (hts : ts.map Token.word = field.words) (ht : t.endsField = true)
    (hstring : t.isString = false) : ∃ head behind, skipTerminators (ts ++ t :: rest) = head :: behind ∧
      head.isOperator "\x7d" = false ∧ fieldItem stop head behind = .ok (field.fields, t :: rest) := by
  have hfield := fieldDeclaration_read stop rest hts ht hstring
  obtain ⟨head, tail, rfl, hterminator, hbrace⟩ := FieldDecl.tokens_cons hts
  exact ⟨head, tail ++ t :: rest, skipTerminators_cons hterminator, hbrace, hfield⟩

theorem other_of_brace (h : closing.isOperator "\x7d" = true) :
    closing.endsField = true ∧ closing.isString = false ∧ closing.isTerminator = false := by
  obtain ⟨kind, text, pos⟩ := closing
  obtain ⟨rfl, rfl⟩ := eq_of_isOperator h
  exact ⟨rfl, rfl, rfl⟩

theorem other_of_separator {separator : Separator} (h : t.word = separator.word) :
    t.endsField = true ∧ t.isString = false ∧ t.isTerminator = true := by
  obtain ⟨kind, text, pos⟩ := t
  cases separator <;> cases h <;> exact ⟨rfl, rfl, rfl⟩

/-- The fields of a struct are read up to the brace that closes it. -/
theorem fieldList_read (hclosing : closing.isOperator "\x7d" = true) : ∀ (fields : FieldList) {ts : List Token},
    ts.map Token.word = fields.words → ItemsRead (fieldItem stop) "\x7d" (ts ++ closing :: rest) fields.fields rest
  | .none, ts, hts => by
      obtain ⟨-, -, hterminator⟩ := other_of_brace hclosing
      obtain rfl := List.map_eq_nil_iff.mp hts
      exact .none (skipTerminators_cons hterminator) hclosing
  | .last field, ts, hts => by
      obtain ⟨hends, hstring, -⟩ := other_of_brace hclosing
      obtain ⟨head, behind, hfirst, hgoesOn, hread⟩ := fieldItem_read stop rest hts hends hstring
      exact .last hfirst hgoesOn hread hclosing
  | .cons field separator more, ts, hts => by
      rw [FieldList.words] at hts
      obtain ⟨front, back, rfl, hfront, hback⟩ := List.map_eq_append_iff.mp hts
      obtain ⟨t, ts', rfl, ht, hts'⟩ := List.map_eq_cons_iff.mp hback
      obtain ⟨hends, hstring, hterminator⟩ := other_of_separator ht
      obtain ⟨head, behind, hfirst, hgoesOn, hread⟩ :=
        fieldItem_read stop (ts' ++ closing :: rest) hfront hends hstring
      rw [List.append_assoc, List.cons_append]
      exact .next hfirst hgoesOn hread hterminator (fieldList_read hclosing more hts')

end Structs

end ApiForge.Source
