import ApiForge.Proofs.Brackets
import ApiForge.Proofs.DeclaredTypes
import ApiForge.Proofs.Downwards
import Mathlib

/-! Reading from the front. What is read from the front of some tokens is read in the same way when the tokens stand some
lines further down and when more tokens come behind them. Where a part ends is judged by the tokens that come next, so
there has to be one left, or nothing may come behind; a declaration that is passed over has to end with a semicolon. -/

namespace ApiForge.Source

def Struct.down (k : Nat) (s : Struct) : Struct :=
  { s with line := s.line + k }

/-- The tokens `k` lines further down, with `more` behind them. -/
def moved (k : Nat) (more ts : List Token) : List Token :=
  ts.map (Token.down k) ++ more

section Moved

variable {stop stop' : Position} {k : Nat} {more ts rest : List Token}

@[simp] theorem moved_nil : moved k more [] = more :=
  rfl

@[simp] theorem moved_cons (t : Token) : moved k more (t :: ts) = t.down k :: moved k more ts :=
  rfl

theorem moved_append (front : List Token) : moved k more (front ++ ts) = front.map (Token.down k) ++ moved k more ts := by
  rw [moved, List.map_append, List.append_assoc, moved]

theorem nextIsOperator_moved (hts : ts = [] → more = []) (text : String) :
    nextIsOperator (moved k more ts) text = nextIsOperator ts text := by
  cases ts with
  | nil => rw [moved_nil, hts rfl]
  | cons t ts => rfl

theorem skipTerminators_moved {t : Token} (h : skipTerminators ts = t :: rest) :
    skipTerminators (moved k more ts) = t.down k :: moved k more rest := by
  induction ts with
  | nil => cases h
  | cons t' ts ih =>
      by_cases ht : t'.isTerminator = true
      · rw [skipTerminators, List.dropWhile_cons_of_pos ht] at h
        rw [moved_cons, skipTerminators, List.dropWhile_cons_of_pos (by exact ht)]
        exact ih h
      · rw [skipTerminators, List.dropWhile_cons_of_neg ht] at h
        cases h
        rw [moved_cons, skipTerminators, List.dropWhile_cons_of_neg (by exact ht)]

theorem skipTerminators_moved_nil (h : skipTerminators ts = []) :
    skipTerminators (moved k more ts) = skipTerminators more := by
  rw [skipTerminators, List.dropWhile_eq_nil_iff] at h
  rw [moved, skipTerminators, List.dropWhile_append_of_pos]
  · rfl
  · intro t ht
    obtain ⟨t', ht', rfl⟩ := List.mem_map.mp ht
    exact h t' ht'

theorem typeText_down (ts : List Token) : typeText (ts.map (Token.down k)) = typeText ts := by
  rw [typeText_eq, typeText_eq, List.map_map]
  rfl

/-! ### Brackets -/

theorem track_down {stack stack' : List Token} {t : Token} (h : track stack t = .ok stack') :
    track (stack.map (Token.down k)) (t.down k) = .ok (stack'.map (Token.down k)) := by
  have hopens : (t.down k).opens = t.opens := rfl
  have hcloses : (t.down k).closes = t.closes := rfl
  unfold track at h ⊢
  rw [hopens, hcloses]
  split_ifs at h ⊢
  · cases h
    rfl
  · cases stack with
    | nil => cases h
    | cons opener outer =>
        dsimp only [List.map_cons] at h ⊢
        split_ifs at h with hfits
        cases h
        exact if_pos hfits
  · cases h
    rfl

theorem bracketed_moved {stack used : List Token} (h : bracketed stop stack ts = .ok (used, rest)) :
    bracketed stop' (stack.map (Token.down k)) (moved k more ts) =
      .ok (used.map (Token.down k), moved k more rest) := by
  induction ts generalizing stack used with
  | nil => cases h
  | cons t ts ih =>
      rw [bracketed] at h
      rw [moved_cons, bracketed]
      split at h
      · cases h
      · rename_i htrack
        cases h
        rw [track_down htrack]
        rfl
      · rename_i opener outer htrack
        obtain ⟨⟨used', rest'⟩, hrest, heq⟩ := of_map h
        cases heq
        have hrest' := ih hrest
        rw [List.map_cons] at hrest'
        rw [track_down htrack, List.map_cons]
        dsimp only
        rw [hrest']
        rfl

theorem fieldType_moved {stack type : List Token} (h : fieldType stop stack ts = .ok (type, rest)) :
    fieldType stop' (stack.map (Token.down k)) (moved k more ts) =
      .ok (type.map (Token.down k), moved k more rest) := by
  induction ts generalizing stack type with
  | nil => cases h
  | cons t ts ih =>
      have hend : (stack.map (Token.down k) = [] ∧ ((t.down k).isTerminator = true ∨ (t.down k).isString = true ∨
          (t.down k).isOperator "\x7d" = true)) ↔
          (stack = [] ∧ (t.isTerminator = true ∨ t.isString = true ∨ t.isOperator "\x7d" = true)) :=
        and_congr List.map_eq_nil_iff Iff.rfl
      rw [fieldType] at h
      rw [moved_cons, fieldType]
      split_ifs at h with hends
      · cases h
        rw [if_pos (hend.mpr hends)]
        rfl
      · rw [if_neg (fun h => hends (hend.mp h))]
        split at h
        · cases h
        · rename_i next htrack
          obtain ⟨⟨type', rest'⟩, hrest, heq⟩ := of_map h
          cases heq
          rw [track_down htrack]
          dsimp only
          rw [ih hrest]
          rfl

theorem skipType_moved {grouped : Bool} {stack : List Token} (h : skipType stop grouped stack ts = .ok rest)
    (hmore : rest = [] → more = []) :
    skipType stop' grouped (stack.map (Token.down k)) (moved k more ts) = .ok (moved k more rest) := by
  induction ts generalizing stack with
  | nil =>
      rw [skipType] at h
      split_ifs at h with hstack
      cases h
      rw [hstack, moved_nil, hmore rfl]
      rfl
  | cons t ts ih =>
      have hend : (stack.map (Token.down k) = [] ∧ ((t.down k).isTerminator = true ∨
          grouped = true ∧ (t.down k).isOperator ")" = true)) ↔
          (stack = [] ∧ (t.isTerminator = true ∨ grouped = true ∧ t.isOperator ")" = true)) :=
        and_congr List.map_eq_nil_iff Iff.rfl
      rw [skipType] at h
      rw [moved_cons, skipType]
      split_ifs at h with hends
      · cases h
        rw [if_pos (hend.mpr hends)]
        rfl
      · rw [if_neg (fun h => hends (hend.mp h))]
        split at h
        · cases h
        · rename_i next htrack
          rw [track_down htrack]
          exact ih h

theorem foldlM_track_down {stack stack' : List Token} (h : ts.foldlM track stack = .ok stack') :
    (ts.map (Token.down k)).foldlM track (stack.map (Token.down k)) = .ok (stack'.map (Token.down k)) := by
  induction ts generalizing stack with
  | nil =>
      cases h
      rfl
  | cons t ts ih =>
      rw [List.foldlM_cons] at h
      obtain ⟨next, ht, h⟩ := of_bind h
      rw [List.map_cons, foldlM_track_cons (track_down ht)]
      exact ih h

theorem Balanced.down (h : Balanced ts) (k : Nat) : Balanced (ts.map (Token.down k)) := by
  have htracks : (ts.map (Token.down k)).foldlM track (([] : List Token).map (Token.down k)) = .ok ([].map (Token.down k)) :=
    foldlM_track_down h
  exact htracks

theorem opens_of_isOperator {t : Token} {text : String} (h : t.isOperator text = true) (htext : text ∈ openers) :
    t.opens = true := by
  obtain ⟨hkind, rfl⟩ := eq_of_isOperator h
  rw [Token.opens, hkind]
  exact List.contains_iff_mem.mpr htext

/-- An open bracket is closed by the tokens with which all brackets are closed. -/
theorem exists_closing {opening : Token} {used : List Token} (hopens : opening.opens = true)
    (h : used.foldlM track [opening] = .ok []) :
    ∃ inner closing behind, used = inner ++ closing :: behind ∧ Balanced inner ∧ closing.closes = true ∧
      closing.text = closerOf opening.text := by
  have hopener : opening.text ∈ openers := by
    rw [Token.opens, Bool.and_eq_true] at hopens
    exact List.contains_iff_mem.mp hopens.2
  have hcloser : ∀ text ∈ openers, closerOf text ∈ closers := by decide
  obtain ⟨inner, rest, hbrackets, hinner, -⟩ := closesAll_of_tracks h
  obtain ⟨front, back, rfl, hfront, hback⟩ := exists_of_bracketsOf_append hbrackets
  obtain ⟨between, closing, behind, rfl, hbetween, hclosing, htext, -⟩ := exists_of_bracketsOf_cons hback
  refine ⟨front ++ between, closing, behind, (List.append_assoc _ _ _).symm, ?_, ?_, htext⟩
  · rw [← hfront] at hinner
    exact (balanced_iff_wellNested.mpr hinner).append (balanced_of_no_brackets hbetween)
  · exact closes_of_isBracket hclosing (htext ▸ hcloser _ hopener)

/-! ### Fields -/

theorem fieldTag_moved (hts : ts = [] → more = []) :
    fieldTag (moved k more ts) = ((fieldTag ts).1, moved k more (fieldTag ts).2) := by
  cases ts with
  | nil =>
      rw [moved_nil, hts rfl]
      rfl
  | cons t ts =>
      have hkind : (t.down k).kind = t.kind := rfl
      rw [moved_cons, fieldTag, fieldTag, hkind]
      cases t.kind <;> rfl

theorem expectIdentifier_moved {what : Expectation} {t : Token} (h : expectIdentifier stop what ts = .ok (t, rest)) :
    expectIdentifier stop' what (moved k more ts) = .ok (t.down k, moved k more rest) := by
  obtain ⟨rfl, hkind⟩ := eq_of_expectIdentifier h
  exact if_pos hkind

theorem typeArguments_moved {used : List Token} (h : typeArguments stop ts = .ok (used, rest))
    (hmore : rest = [] → more = []) :
    typeArguments stop' (moved k more ts) = .ok (used.map (Token.down k), moved k more rest) := by
  cases ts with
  | nil =>
      cases h
      rw [moved_nil, hmore rfl]
      rfl
  | cons t ts =>
      have hnext : nextIsOperator (moved k more (t :: ts)) "[" = nextIsOperator (t :: ts) "[" := rfl
      rw [typeArguments] at h
      rw [typeArguments, hnext]
      split_ifs at h ⊢
      · exact bracketed_moved h
      · cases h
        rfl

theorem nonempty_of_leaves (h : Leaves ts rest) (hmore : rest = [] → more = []) : ts = [] → more = [] := by
  rintro rfl
  obtain ⟨used, -, hused⟩ := h
  exact hmore (List.append_eq_nil_iff.mp hused.symm).2

theorem embeddedType_moved {type : String × String} (h : embeddedType stop ts = .ok (type, rest))
    (hmore : rest = [] → more = []) : embeddedType stop' (moved k more ts) = .ok (type, moved k more rest) := by
  obtain ⟨⟨first, behind⟩, hfirst, h⟩ := of_bind h
  rw [embeddedType, expectIdentifier_moved hfirst]
  simp only [bind, Except.bind]
  dsimp only at h
  split_ifs at h with hdot
  · obtain ⟨⟨second, behind'⟩, hsecond, h⟩ := of_bind h
    obtain ⟨⟨arguments, rest'⟩, harguments, h⟩ := of_bind h
    cases h
    cases behind with
    | nil => cases hdot
    | cons point behind =>
        have hdot' : nextIsOperator (moved k more (point :: behind)) "." = true := hdot
        rw [List.tail_cons] at hsecond
        rw [if_pos hdot', moved_cons, List.tail_cons, expectIdentifier_moved hsecond]
        dsimp only
        rw [typeArguments_moved harguments hmore]
        dsimp only
        rw [typeText_down]
        rfl
  · obtain ⟨⟨arguments, rest'⟩, harguments, h⟩ := of_bind h
    cases h
    have hnext := nextIsOperator_moved (k := k) (nonempty_of_leaves (typeArguments_leaves harguments) hmore) "."
    rw [hnext, if_neg hdot, typeArguments_moved harguments hmore]
    dsimp only
    rw [typeText_down]
    rfl

theorem moreNames_moved {names : List String} (h : moreNames stop ts = .ok (names, rest)) (hmore : rest = [] → more = []) :
    moreNames stop' (moved k more ts) = .ok (names, moved k more rest) := by
  induction ts using moreNames.induct generalizing names with
  | case1 =>
      cases h
      rw [moved_nil, hmore rfl]
      rfl
  | case2 t ht =>
      rw [moreNames, if_pos ht] at h
      cases h
  | case3 t ht =>
      have ht' : ¬(t.down k).isOperator "," = true := ht
      rw [moreNames, if_neg ht] at h
      cases h
      cases more with
      | nil => exact if_neg ht'
      | cons name more => exact if_neg ht'
  | case4 t name ts ht hname ih =>
      have ht' : (t.down k).isOperator "," = true := ht
      have hname' : (name.down k).kind = .identifier := hname
      rw [moreNames, if_pos ht, if_pos hname] at h
      obtain ⟨⟨names', rest'⟩, hrest, heq⟩ := of_map h
      cases heq
      rw [moved_cons, moved_cons, moreNames, if_pos ht', if_pos hname', ih hrest]
      rfl
  | case5 t name ts ht hname =>
      rw [moreNames, if_pos ht, if_neg hname] at h
      cases h
  | case6 t name ts ht =>
      have ht' : ¬(t.down k).isOperator "," = true := ht
      rw [moreNames, if_neg ht] at h
      cases h
      exact if_neg ht'

theorem namedFields_moved {first : String} {fields : List Field} (h : namedFields stop first ts = .ok (fields, rest))
    (hmore : rest = [] → more = []) : namedFields stop' first (moved k more ts) = .ok (fields, moved k more rest) := by
  obtain ⟨⟨names, behind⟩, hnames, h⟩ := of_bind h
  obtain ⟨⟨type, behind'⟩, htype, h⟩ := of_bind h
  dsimp only at h
  split_ifs at h with hempty
  · cases h
  · cases h
    obtain ⟨hbehind, htracks⟩ := fieldType_tracks htype
    have htag := nonempty_of_leaves (fieldTag_leaves behind') hmore
    have hnonempty := nonempty_of_leaves ⟨type, htracks, hbehind⟩ htag
    have htype' : fieldType stop' [] (moved k more behind) = .ok (type.map (Token.down k), moved k more behind') :=
      fieldType_moved htype
    have hempty' : ¬type.map (Token.down k) = [] := fun h => hempty (List.map_eq_nil_iff.mp h)
    rw [namedFields, moreNames_moved hnames hnonempty]
    simp only [bind, Except.bind]
    rw [htype']
    dsimp only
    rw [if_neg hempty', fieldTag_moved htag, typeText_down]
    rfl

theorem embeddedField_moved {mark : String} {fields : List Field} (h : embeddedField stop mark ts = .ok (fields, rest))
    (hmore : rest = [] → more = []) : embeddedField stop' mark (moved k more ts) = .ok (fields, moved k more rest) := by
  obtain ⟨⟨type, behind⟩, htype, h⟩ := of_bind h
  cases h
  have htag := nonempty_of_leaves (fieldTag_leaves behind) hmore
  rw [embeddedField, embeddedType_moved htype htag]
  simp only [bind, Except.bind]
  rw [fieldTag_moved htag]
  rfl

theorem atFieldEnd_moved (hts : ts = [] → more = []) : atFieldEnd (moved k more ts) = atFieldEnd ts := by
  cases ts with
  | nil => rw [moved_nil, hts rfl]
  | cons t ts => rfl

/-- Brackets that open at the front are closed by tokens that are used. -/
theorem embeddedFollows_enclosed {used : List Token} {opening : Token} (hopening : opening.isOperator "[" = true)
    (hused : used.foldlM track [opening] = .ok []) (hmore : rest = [] → more = []) :
    embeddedFollows (moved k more (opening :: (used ++ rest))) = embeddedFollows (opening :: (used ++ rest)) := by
  obtain ⟨kind, text, pos⟩ := opening
  obtain ⟨rfl, rfl⟩ := eq_of_isOperator hopening
  obtain ⟨inner, closing, behind, rfl, hinner, hcloses, -⟩ := exists_closing rfl hused
  have hend : atFieldEnd (moved k more (behind ++ rest)) = atFieldEnd (behind ++ rest) :=
    atFieldEnd_moved fun hnil => hmore (List.append_eq_nil_iff.mp hnil).2
  have hbefore : closesAsEmbedded 0 0 (⟨.operator, "[", pos⟩ :: (inner ++ closing :: (behind ++ rest))) = _ :=
    closesAsEmbedded_enclosed _ rfl hcloses hinner
  have hbehind : closesAsEmbedded 0 0 (Token.down k ⟨.operator, "[", pos⟩ ::
      (inner.map (Token.down k) ++ closing.down k :: moved k more (behind ++ rest))) = _ :=
    closesAsEmbedded_enclosed _ rfl hcloses (hinner.down k)
  rw [List.length_map, hend, ← hbefore] at hbehind
  rw [List.append_assoc, List.cons_append, moved_cons, moved_append, moved_cons]
  exact hbehind

/-- What is used of the tokens from an opening bracket on closes it. -/
theorem used_opening {opening : Token} {used : List Token} (hopens : opening.opens = true)
    (hts : opening :: ts = used ++ rest) (hused : used.foldlM track [] = .ok []) (hne : used ≠ []) :
    ∃ used', ts = used' ++ rest ∧ used'.foldlM track [opening] = .ok [] := by
  obtain ⟨t, used', rfl⟩ := List.exists_cons_of_ne_nil hne
  obtain ⟨rfl, rfl⟩ := List.cons_eq_cons.mp hts
  rw [foldlM_track_cons (track_opening hopens [])] at hused
  exact ⟨used', rfl, hused⟩

theorem bracketed_ne_nil {stack used : List Token} (h : bracketed stop stack ts = .ok (used, rest)) : used ≠ [] := by
  cases ts with
  | nil => cases h
  | cons t ts =>
      rw [bracketed] at h
      split at h
      · cases h
      · cases h
        exact List.cons_ne_nil _ _
      · obtain ⟨r, -, heq⟩ := of_map h
        cases heq
        exact List.cons_ne_nil _ _

theorem moreNames_opening {opening : Token} (hopening : opening.isOperator "[" = true) :
    moreNames stop (opening :: ts) = .ok ([], opening :: ts) := by
  obtain ⟨kind, text, pos⟩ := opening
  obtain ⟨rfl, rfl⟩ := eq_of_isOperator hopening
  cases ts <;> rfl

/-- A bracket behind the name of an embedded type opens its type arguments. -/
theorem embeddedField_opening {mark : String} {t opening : Token} {fields : List Field} (ht : t.kind = .identifier)
    (hopening : opening.isOperator "[" = true)
    (h : embeddedField stop mark (t :: opening :: ts) = .ok (fields, rest)) :
    ∃ used left, ts = used ++ left ∧ used.foldlM track [opening] = .ok [] ∧ Leaves left rest := by
  obtain ⟨⟨type, left⟩, htype, h⟩ := of_bind h
  cases h
  obtain ⟨kind, text, pos⟩ := t
  obtain rfl : kind = .identifier := ht
  have hdot : nextIsOperator (opening :: ts) "." = false := by
    obtain ⟨hkind, htext⟩ := eq_of_isOperator hopening
    simp [nextIsOperator, Token.isOperator, htext]
  rw [embeddedType_plain _ hdot] at htype
  obtain ⟨⟨arguments, left'⟩, harguments, heq⟩ := of_map htype
  cases heq
  rw [typeArguments, if_pos (by exact hopening)] at harguments
  obtain ⟨hbehind, htracks⟩ := bracketed_tracks harguments
  obtain ⟨used, hused, hused'⟩ :=
    used_opening (opens_of_isOperator hopening (by decide)) hbehind htracks (bracketed_ne_nil harguments)
  exact ⟨used, left', hused, hused', fieldTag_leaves left'⟩

/-- A bracket behind the name of a field is part of its type. -/
theorem namedFields_opening {first : String} {opening : Token} {fields : List Field}
    (hopening : opening.isOperator "[" = true) (h : namedFields stop first (opening :: ts) = .ok (fields, rest)) :
    ∃ used left, ts = used ++ left ∧ used.foldlM track [opening] = .ok [] ∧ Leaves left rest := by
  obtain ⟨⟨names, left⟩, hnames, h⟩ := of_bind h
  rw [moreNames_opening hopening] at hnames
  cases hnames
  obtain ⟨⟨type, left⟩, htype, h⟩ := of_bind h
  dsimp only at h
  split_ifs at h with hempty
  · cases h
  · cases h
    obtain ⟨hbehind, htracks⟩ := fieldType_tracks htype
    obtain ⟨used, hused, hused'⟩ := used_opening (opens_of_isOperator hopening (by decide)) hbehind htracks hempty
    exact ⟨used, left, hused, hused', fieldTag_leaves left⟩

/-- Whether an embedded type follows is judged by tokens that are used when the field is read. -/
theorem embeddedFollows_moved {t : Token} {fields : List Field} (ht : t.kind = .identifier)
    (h : (if embeddedFollows ts then embeddedField stop "" (t :: ts) else namedFields stop t.text ts) =
      .ok (fields, rest)) (hmore : rest = [] → more = []) :
    embeddedFollows (moved k more ts) = embeddedFollows ts := by
  cases ts with
  | nil =>
      -- A field without a type is not read.
      cases h
  | cons opening behind =>
      by_cases hopening : opening.isOperator "[" = true
      · obtain ⟨used, left, rfl, hused, hleaves⟩ : ∃ used left, behind = used ++ left ∧
            used.foldlM track [opening] = .ok [] ∧ Leaves left rest := by
          split_ifs at h
          · exact embeddedField_opening ht hopening h
          · exact namedFields_opening hopening h
        exact embeddedFollows_enclosed hopening hused (nonempty_of_leaves hleaves hmore)
      · rw [Bool.not_eq_true] at hopening
        have hopening' : (opening.down k).isOperator "[" = false := hopening
        rw [moved_cons, embeddedFollows, embeddedFollows, hopening, hopening', Bool.false_and, Bool.false_and]
        rfl

theorem fieldDeclaration_moved {fields : List Field} (h : fieldDeclaration stop ts = .ok (fields, rest))
    (hmore : rest = [] → more = []) : fieldDeclaration stop' (moved k more ts) = .ok (fields, moved k more rest) := by
  cases ts with
  | nil => cases h
  | cons t ts =>
      have hstar : (t.down k).isOperator "*" = t.isOperator "*" := rfl
      have hkind : (t.down k).kind = t.kind := rfl
      rw [fieldDeclaration] at h
      rw [moved_cons, fieldDeclaration, hstar, hkind]
      by_cases hpointer : t.isOperator "*" = true
      · rw [if_pos hpointer] at h ⊢
        exact embeddedField_moved h hmore
      · rw [if_neg hpointer] at h ⊢
        by_cases hidentifier : t.kind ≠ .identifier
        · rw [if_pos hidentifier] at h
          cases h
        · rw [if_neg hidentifier] at h ⊢
          rw [embeddedFollows_moved (not_not.mp hidentifier) h hmore]
          split_ifs at h ⊢
          · exact embeddedField_moved h hmore
          · exact namedFields_moved h hmore

/-- Items end with the sign that closes them, so anything may come behind. -/
theorem ItemsRead.moved {α β : Type} {item : Token → List Token → Reading (List α × List Token)}
    {item' : Token → List Token → Reading (List β × List Token)} {sign : String} {items : List α} (f : α → β)
    (htakes : TakesFirst item) (h : ItemsRead item sign ts items rest)
    (hitem : ∀ t behind items t' rest, Leaves ts (t :: behind) → item t behind = .ok (items, t' :: rest) →
      item' (t.down k) (moved k more behind) = .ok (items.map f, moved k more (t' :: rest))) :
    ItemsRead item' sign (moved k more ts) (items.map f) (moved k more rest) := by
  induction h with
  | none hfirst hcloses => exact .none (skipTerminators_moved hfirst) hcloses
  | last hfirst hgoesOn hread hcloses =>
      have hread' := hitem _ _ _ _ _ (leaves_of_skipTerminators hfirst) hread
      exact .last (skipTerminators_moved hfirst) hgoesOn hread' hcloses
  | next hfirst hgoesOn hread hseparates _ ih =>
      have hread' := hitem _ _ _ _ _ (leaves_of_skipTerminators hfirst) hread
      have hbetween := (htakes.leaves hfirst hread).trans ((leaves_refl _).plain (plain_of_isTerminator hseparates))
      rw [List.map_append]
      exact .next (skipTerminators_moved hfirst) hgoesOn hread' hseparates
        (ih fun t behind items t' rest hleaves => hitem t behind items t' rest (hbetween.trans hleaves))

theorem structFields_moved {opening opening' : Position} {fields : List Field}
    (h : structFields stop opening ts = .ok (fields, rest)) :
    structFields stop' opening' (moved k more ts) = .ok (fields, moved k more rest) := by
  rw [structFields_eq_ok_iff] at h ⊢
  rw [← List.map_id fields]
  refine h.moved id (fieldItem_takesFirst stop) fun t behind fields t' rest _ hfield => ?_
  rw [List.map_id]
  exact fieldDeclaration_moved hfield (by rintro ⟨⟩)

/-! ### Types -/

/-- Brackets that open at the front of a type are closed by tokens that are passed over. -/
theorem skipType_opening {grouped : Bool} {opening : Token} (hopening : opening.isOperator "[" = true)
    (h : skipType stop grouped [] (opening :: ts) = .ok rest) :
    ∃ used, ts = used ++ rest ∧ used.foldlM track [opening] = .ok [] := by
  obtain ⟨kind, text, pos⟩ := opening
  obtain ⟨rfl, rfl⟩ := eq_of_isOperator hopening
  have hend : ¬(([] : List Token) = [] ∧ ((⟨.operator, "[", pos⟩ : Token).isTerminator = true ∨
      grouped = true ∧ (⟨.operator, "[", pos⟩ : Token).isOperator ")" = true)) := by
    rintro ⟨-, hend | ⟨-, hend⟩⟩
    · cases hend
    · cases hend
  rw [skipType, if_neg hend, track_opening rfl] at h
  exact skipType_tracks h

theorem opensTypeParameters_moved {used : List Token} {opening : Token} (hopening : opening.isOperator "[" = true)
    (hused : used.foldlM track [opening] = .ok []) :
    opensTypeParameters (moved k more (opening :: (used ++ rest))) =
      opensTypeParameters (opening :: (used ++ rest)) := by
  obtain ⟨kind, text, pos⟩ := opening
  obtain ⟨rfl, rfl⟩ := eq_of_isOperator hopening
  obtain ⟨inner, ⟨kind', text', pos'⟩, behind, rfl, hinner, hcloses, htext⟩ := exists_closing rfl hused
  rw [Token.closes, Bool.and_eq_true, beq_iff_eq] at hcloses
  obtain ⟨rfl, -⟩ := hcloses
  obtain rfl : text' = "]" := htext
  have hwords : (inner.map (Token.down k)).map Token.word = inner.map Token.word := by
    rw [List.map_map]
    rfl
  rw [List.append_assoc, List.cons_append, moved_cons, moved_append, moved_cons,
    opensTypeParameters_enclosed rfl rfl (hinner.down k), opensTypeParameters_enclosed rfl rfl hinner, hwords]

theorem declaredType_moved {doc : String} {grouped : Bool} {name : Token} {struct? : Option Struct}
    (h : declaredType stop doc grouped name ts = .ok (struct?, rest)) (hmore : rest = [] → more = []) :
    declaredType stop' doc grouped (name.down k) (moved k more ts) =
      .ok (struct?.map (Struct.down k), moved k more rest) := by
  rw [declaredType_eq_ok_iff] at h ⊢
  cases h with
  | struct hkw hopening hfields => exact .struct hkw hopening (structFields_moved hfields)
  | other hother hskip =>
      refine .other ?_ (skipType_moved hskip hmore)
      rintro ⟨kw, opening, body, heq, hkw, hopening⟩
      rcases ts with _ | ⟨t, _ | ⟨t', ts⟩⟩
      · cases hskip
        rw [moved_nil, hmore rfl] at heq
        cases heq
      · -- A single keyword is passed over, and nothing is left.
        obtain ⟨rfl, rfl⟩ := List.cons_eq_cons.mp heq
        have hkw : t.isKeyword "struct" = true := hkw
        have hkind := kind_of_isKeyword hkw
        have hend : ¬(([] : List Token) = [] ∧ (t.isTerminator = true ∨ grouped = true ∧ t.isOperator ")" = true)) := by
          rintro ⟨-, hend | ⟨-, hend⟩⟩
          · exact Bool.false_ne_true ((not_terminator_of_kind (.inr (.inr hkind))).symm.trans hend)
          · cases hkind.symm.trans (eq_of_isOperator hend).1
        rw [skipType, if_neg hend, track_plain (plain_of_isKeyword hkw)] at hskip
        cases hskip
        cases hmore rfl
      · obtain ⟨rfl, hmoved⟩ := List.cons_eq_cons.mp heq
        obtain ⟨rfl, rfl⟩ := List.cons_eq_cons.mp hmoved
        exact hother ⟨t, t', ts, rfl, hkw, hopening⟩

/-- What stands behind the sign of an alias. -/
theorem equals_moved (hts : ts = [] → more = []) :
    (if nextIsOperator (moved k more ts) "=" then (moved k more ts).tail else moved k more ts) =
      moved k more (if nextIsOperator ts "=" then ts.tail else ts) := by
  rw [nextIsOperator_moved hts]
  split_ifs with hnext
  · cases ts with
    | nil => cases hnext
    | cons t ts => rfl
  · rfl

theorem leaves_behind_equals (ts : List Token) : Leaves ts (if nextIsOperator ts "=" then ts.tail else ts) := by
  split_ifs with hnext
  · exact leaves_tail hnext (by decide)
  · exact leaves_refl ts

/-- A bracket behind the name of a type is closed, by the end of the type parameters or as part of the type. -/
theorem typeSpec_opening {doc : String} {grouped : Bool} {name opening : Token} {struct? : Option Struct}
    {behind : List Token} (hopening : opening.isOperator "[" = true)
    (hparameters : typeParameters stop (opening :: ts) = .ok behind)
    (htype : declaredType stop doc grouped name (if nextIsOperator behind "=" then behind.tail else behind) =
      .ok (struct?, rest)) :
    ∃ used left, ts = used ++ left ∧ used.foldlM track [opening] = .ok [] := by
  rw [typeParameters] at hparameters
  split_ifs at hparameters
  · obtain ⟨⟨brackets, left⟩, hbracketed, -⟩ := of_map hparameters
    obtain ⟨hbrackets, htracks⟩ := bracketed_tracks hbracketed
    obtain ⟨used, hused⟩ := used_opening (opens_of_isOperator hopening (by decide)) hbrackets htracks
      (bracketed_ne_nil hbracketed)
    exact ⟨used, left, hused⟩
  · cases hparameters
    obtain ⟨kind, text, pos⟩ := opening
    obtain ⟨rfl, rfl⟩ := eq_of_isOperator hopening
    have hequals : nextIsOperator ((⟨.operator, "[", pos⟩ : Token) :: ts) "=" = false := rfl
    rw [hequals, if_neg Bool.false_ne_true] at htype
    cases declaredType_eq_ok_iff.mp htype with
    | struct hkw _ _ => cases hkw
    | other _ hskip =>
        obtain ⟨used, hused⟩ := skipType_opening rfl hskip
        exact ⟨used, rest, hused⟩

theorem typeParameters_moved (hopens : opensTypeParameters (moved k more ts) = opensTypeParameters ts)
    (h : typeParameters stop ts = .ok rest) : typeParameters stop' (moved k more ts) = .ok (moved k more rest) := by
  rw [typeParameters] at h
  rw [typeParameters, hopens]
  split_ifs at h ⊢
  · obtain ⟨⟨used, left⟩, hbracketed, rfl⟩ := of_map h
    have hmoved : bracketed stop' [] (moved k more ts) = .ok (used.map (Token.down k), moved k more left) :=
      bracketed_moved hbracketed
    rw [hmoved]
    rfl
  · cases h
    rfl

theorem typeSpec_moved {doc : String} {grouped : Bool} {struct? : Option Struct}
    (h : typeSpec stop doc grouped ts = .ok (struct?, rest)) (hmore : rest = [] → more = []) :
    typeSpec stop' doc grouped (moved k more ts) = .ok (struct?.map (Struct.down k), moved k more rest) := by
  rw [typeSpec_eq] at h
  obtain ⟨⟨name, behind⟩, hname, h⟩ := of_bind h
  obtain ⟨behind', hparameters, htype⟩ := of_bind h
  dsimp only at hparameters htype
  have hequals := nonempty_of_leaves (declaredType_leaves htype) hmore
  have hbehind' := nonempty_of_leaves (leaves_behind_equals behind') hequals
  have hbehind := nonempty_of_leaves (typeParameters_leaves hparameters) hbehind'
  have hopens : opensTypeParameters (moved k more behind) = opensTypeParameters behind := by
    cases behind with
    | nil => rw [moved_nil, hbehind rfl]
    | cons t ts =>
        by_cases ht : t.isOperator "[" = true
        · obtain ⟨used, left, rfl, hused⟩ := typeSpec_opening ht hparameters htype
          exact opensTypeParameters_moved ht hused
        · rw [Bool.not_eq_true] at ht
          rw [moved_cons, opensTypeParameters_other ht, opensTypeParameters_other (by exact ht)]
  rw [typeSpec_eq, expectIdentifier_moved hname]
  simp only [bind, Except.bind]
  rw [typeParameters_moved hopens hparameters]
  dsimp only
  rw [equals_moved hbehind']
  exact declaredType_moved htype hmore

/-! ### Where the tokens end -/

/-- Unless nothing comes behind them, the tokens end with a semicolon. -/
def Ended (more ts : List Token) : Prop :=
  more ≠ [] → ∀ e ∈ ts.getLast?, e.isTerminator = true

theorem Ended.of_append {front : List Token} (h : Ended more (front ++ ts)) : Ended more ts := by
  intro hmore e he
  apply h hmore e
  rw [List.getLast?_append, Option.mem_def.mp he]
  rfl

theorem Ended.tail {t : Token} (h : Ended more (t :: ts)) : Ended more ts :=
  Ended.of_append (List.singleton_append ▸ h)

theorem Ended.of_leaves (h : Ended more ts) (hleaves : Leaves ts rest) : Ended more rest := by
  obtain ⟨used, -, rfl⟩ := hleaves
  exact h.of_append

/-- Behind a token that is no semicolon there is another one, or nothing comes behind it. -/
theorem Ended.cons {t : Token} (h : Ended more (t :: ts)) (ht : t.isTerminator = false) : ts = [] → more = [] := by
  rintro rfl
  by_contra hmore
  exact Bool.false_ne_true (ht.symm.trans (h hmore t rfl))

/-- A type does not take the semicolon at the end. -/
theorem skipType_ended {grouped : Bool} {stack : List Token} (hends : Ended more ts) (hts : ts = [] → more = [])
    (h : skipType stop grouped stack ts = .ok rest) : rest = [] → more = [] := by
  induction ts generalizing stack with
  | nil => exact fun _ => hts rfl
  | cons t ts ih =>
      rw [skipType] at h
      split_ifs at h with hend
      · cases h
        rintro ⟨⟩
      · split at h
        · cases h
        · rename_i next htrack
          refine ih hends.tail ?_ h
          rintro rfl
          by_contra hmore
          have ht := hends hmore t rfl
          -- Inside brackets there is no end.
          rw [track_plain (plain_of_isTerminator ht)] at htrack
          cases htrack
          rw [skipType] at h
          split_ifs at h with hstack
          exact hend ⟨hstack, .inl ht⟩

theorem bracketed_ended {stack used : List Token} (hends : Ended more ts) (hstack : stack = [] → ts.length = 1 → more = [])
    (h : bracketed stop stack ts = .ok (used, rest)) : rest = [] → more = [] := by
  induction ts generalizing stack used with
  | nil => cases h
  | cons t ts ih =>
      rw [bracketed] at h
      split at h
      · cases h
      · rename_i htrack
        cases h
        rintro rfl
        by_contra hmore
        have ht := hends hmore t rfl
        rw [track_plain (plain_of_isTerminator ht)] at htrack
        cases htrack
        exact hmore (hstack rfl rfl)
      · rename_i opener outer htrack
        obtain ⟨⟨used', rest'⟩, hrest, heq⟩ := of_map h
        cases heq
        exact ih hends.tail (by rintro ⟨⟩) hrest

theorem typeParameters_ended (hends : Ended more ts) (hts : ts = [] → more = [])
    (h : typeParameters stop ts = .ok rest) : rest = [] → more = [] := by
  rw [typeParameters] at h
  split_ifs at h with hopens
  · obtain ⟨⟨used, left⟩, hbracketed, rfl⟩ := of_map h
    refine bracketed_ended hends (fun _ hlength => ?_) hbracketed
    obtain ⟨t, rfl⟩ := List.length_eq_one_iff.mp hlength
    cases hopens
  · cases h
    exact hts

theorem declaredType_ended {doc : String} {grouped : Bool} {name : Token} {struct? : Option Struct}
    (hends : Ended more ts) (hts : ts = [] → more = [])
    (h : declaredType stop doc grouped name ts = .ok (struct?, rest)) : rest = [] → more = [] := by
  cases declaredType_eq_ok_iff.mp h with
  | struct _ _ hfields =>
      obtain ⟨closing, hclosing, hbody⟩ := structFields_leaves hfields
      exact (hends.tail.tail.of_leaves hbody).cons (not_terminator_of_operator hclosing)
  | other _ hskip => exact skipType_ended hends hts hskip

theorem typeSpec_ended {doc : String} {grouped : Bool} {struct? : Option Struct} (hends : Ended more ts)
    (h : typeSpec stop doc grouped ts = .ok (struct?, rest)) : rest = [] → more = [] := by
  rw [typeSpec_eq] at h
  obtain ⟨⟨name, behind⟩, hname, h⟩ := of_bind h
  obtain ⟨behind', hparameters, htype⟩ := of_bind h
  dsimp only at hparameters htype
  obtain ⟨rfl, hkind⟩ := eq_of_expectIdentifier hname
  have hname : name.isTerminator = false := not_terminator_of_kind (.inr (.inl hkind))
  have hbehind' := hends.tail.of_leaves (typeParameters_leaves hparameters)
  have hnonempty := typeParameters_ended hends.tail (hends.cons hname) hparameters
  refine declaredType_ended (hbehind'.of_leaves (leaves_behind_equals behind')) ?_ htype
  split_ifs with hequals
  · cases behind' with
    | nil => cases hequals
    | cons t ts => exact hbehind'.cons (not_terminator_of_operator hequals)
  · exact hnonempty

/-! ### Declarations -/

/-- The comments above the tokens are the same when the tokens are `k` lines further down. -/
def SameDocs (k : Nat) (comments comments' : List Comment) (ts : List Token) : Prop :=
  ∀ t ∈ ts, docAbove comments' (t.pos.line + k) = docAbove comments t.pos.line

section Docs

variable {comments comments' : List Comment}

theorem SameDocs.of_leaves (h : SameDocs k comments comments' ts) (hleaves : Leaves ts rest) :
    SameDocs k comments comments' rest :=
  fun t ht => h t (hleaves.subset ht)

theorem typeGroup_moved {ctx ctx' : GroupContext} {structs : List Struct} (h : typeGroup ctx ts = .ok (structs, rest))
    (hdoc : ctx'.doc = ctx.doc) (hdocs : SameDocs k ctx.comments ctx'.comments ts) :
    typeGroup ctx' (moved k more ts) = .ok (structs.map (Struct.down k), moved k more rest) := by
  rw [typeGroup_eq_ok_iff] at h ⊢
  refine h.moved (Struct.down k) (specItem_takesFirst ctx) fun t behind structs t' rest hleaves hitem => ?_
  obtain ⟨⟨struct?, rest'⟩, hspec, heq⟩ := of_map hitem
  cases heq
  have hdoc' : docAbove ctx'.comments (t.down k).pos.line = docAbove ctx.comments t.pos.line :=
    hdocs t (hleaves.subset List.mem_cons_self)
  have hspec' : typeSpec ctx'.stop (ctx.doc ++ "\n" ++ docAbove ctx.comments t.pos.line) true
      (t.down k :: moved k more behind) = .ok (struct?.map (Struct.down k), moved k more (t' :: rest)) :=
    typeSpec_moved hspec (by rintro ⟨⟩)
  rw [specItem, hdoc, hdoc', hspec']
  cases struct? <;> rfl

theorem endDeclaration_moved (h : endDeclaration stop ts = .ok rest) (hmore : ts = [] → more = []) :
    endDeclaration stop' (moved k more ts) = .ok (moved k more rest) := by
  cases ts with
  | nil =>
      cases h
      rw [moved_nil, hmore rfl]
      rfl
  | cons t ts =>
      rw [endDeclaration] at h
      split_ifs at h with ht
      cases h
      exact if_pos ht

/-- A declaration that is passed over ends with its semicolon, whatever comes behind. -/
theorem skipDeclaration_moved {stack : List Token} (h : skipDeclaration stop stack ts = .ok rest) (hends : Ended more ts)
    (hts : ts = [] → more = []) :
    skipDeclaration stop' (stack.map (Token.down k)) (moved k more ts) = .ok (moved k more rest) := by
  induction ts generalizing stack with
  | nil =>
      rw [skipDeclaration] at h
      split_ifs at h with hstack
      cases h
      rw [hstack, moved_nil, hts rfl]
      rfl
  | cons t ts ih =>
      have hend : ((t.down k).isTerminator = true ∧ stack.map (Token.down k) = []) ↔
          (t.isTerminator = true ∧ stack = []) :=
        and_congr Iff.rfl List.map_eq_nil_iff
      rw [skipDeclaration] at h
      rw [moved_cons, skipDeclaration]
      split_ifs at h with hends'
      · cases h
        rw [if_pos (hend.mpr hends')]
      · rw [if_neg (fun h => hends' (hend.mp h))]
        split at h
        · cases h
        · rename_i next htrack
          rw [track_down htrack]
          refine ih h hends.tail ?_
          rintro rfl
          by_contra hmore
          have ht := hends hmore t rfl
          -- Inside brackets there is no end.
          rw [track_plain (plain_of_isTerminator ht)] at htrack
          cases htrack
          rw [skipDeclaration] at h
          split_ifs at h with hstack
          exact hends' ⟨ht, hstack⟩

theorem typeDeclaration_moved {kw : Token} {structs : List Struct} (hends : Ended more ts) (hts : ts = [] → more = [])
    (hdocs : SameDocs k comments comments' (kw :: ts)) (h : typeDeclaration comments stop kw ts = .ok (structs, rest)) :
    typeDeclaration comments' stop' (kw.down k) (moved k more ts) =
      .ok (structs.map (Struct.down k), moved k more rest) := by
  have hdoc : docAbove comments' (kw.down k).pos.line = docAbove comments kw.pos.line := hdocs kw List.mem_cons_self
  have hdocs' : SameDocs k comments comments' ts := fun t ht => hdocs t (List.mem_cons_of_mem _ ht)
  unfold typeDeclaration at h ⊢
  dsimp only at h ⊢
  rw [hdoc, nextIsOperator_moved hts]
  split_ifs at h ⊢ with hopening
  · obtain ⟨⟨structs', behind⟩, hgroup, h⟩ := of_bind h
    obtain ⟨rest', hend, h⟩ := of_bind h
    cases h
    cases ts with
    | nil => cases hopening
    | cons opening specs =>
        obtain ⟨⟨closing, hclosing, hspecs⟩, -⟩ := typeGroup_declares hgroup
        have hbehind := hends.tail.of_leaves hspecs
        have hgroup' : typeGroup ⟨comments', stop', (kw.down k).pos, docAbove comments kw.pos.line⟩
            (moved k more specs) = .ok (structs'.map (Struct.down k), moved k more behind) :=
          typeGroup_moved hgroup rfl fun t ht => hdocs' t (List.mem_cons_of_mem _ ht)
        rw [moved_cons, List.tail_cons, hgroup']
        simp only [bind, Except.bind]
        rw [endDeclaration_moved hend (hbehind.cons (not_terminator_of_operator hclosing))]
        rfl
  · obtain ⟨⟨struct?, behind⟩, hspec, h⟩ := of_bind h
    obtain ⟨rest', hend, h⟩ := of_bind h
    cases h
    have hmore := typeSpec_ended hends hspec
    rw [typeSpec_moved hspec hmore]
    simp only [bind, Except.bind]
    rw [endDeclaration_moved hend hmore]
    cases struct? <;> rfl

theorem declaration_moved {kw : Token} {structs : List Struct} (hends : Ended more (kw :: ts))
    (hdocs : SameDocs k comments comments' (kw :: ts)) (h : declaration comments stop kw ts = .ok (structs, rest)) :
    declaration comments' stop' (kw.down k) (moved k more ts) =
      .ok (structs.map (Struct.down k), moved k more rest) := by
  have hts := hends.tail
  have hkind : (kw.down k).kind = kw.kind := rfl
  have htext : (kw.down k).text = kw.text := rfl
  have htype : (kw.down k).isKeyword "type" = kw.isKeyword "type" := rfl
  unfold declaration at h ⊢
  rw [hkind, htext, htype]
  split_ifs at h with hskipped hkw
  · have hkw : kw.isTerminator = false := not_terminator_of_kind (.inr (.inr hskipped.1))
    obtain ⟨rest', hskip, heq⟩ := of_map h
    cases heq
    have hskip' : skipDeclaration stop' [] (moved k more ts) = .ok (moved k more rest) :=
      skipDeclaration_moved hskip hts (hends.cons hkw)
    rw [if_pos hskipped, hskip']
    rfl
  · have hterminator : kw.isTerminator = false := not_terminator_of_kind (.inr (.inr (kind_of_isKeyword hkw)))
    rw [if_neg hskipped, if_pos hkw]
    exact typeDeclaration_moved hts (hends.cons hterminator) hdocs h

/-- Semicolons in front of a declaration do not matter. -/
theorem declarations_skip (h : skipTerminators ts = skipTerminators rest) :
    declarations comments stop ts = declarations comments stop rest := by
  cases hrest : skipTerminators rest with
  | nil => rw [declarations_nil (h.trans hrest), declarations_nil hrest]
  | cons kw behind => rw [declarations_cons (h.trans hrest), declarations_cons hrest]

theorem declarations_moved {structs : List Struct} (hends : Ended more ts) (hdocs : SameDocs k comments comments' ts)
    (h : declarations comments stop ts = .ok structs) : declarations comments' stop' (moved k more ts) =
      (declarations comments' stop' more).map (structs.map (Struct.down k) ++ ·) := by
  rw [declarations_eq_ok_iff] at h
  induction h with
  | none hnothing =>
      rw [declarations_skip (skipTerminators_moved_nil hnothing)]
      cases declarations comments' stop' more <;> rfl
  | next hfirst hdeclaration _ ih =>
      have hfront := leaves_of_skipTerminators hfirst
      have hleaves := (declaration_takesFirst comments stop).leaves hfirst hdeclaration
      rw [declarations_cons (skipTerminators_moved hfirst),
        declaration_moved (hends.of_leaves hfront) (hdocs.of_leaves hfront) hdeclaration]
      simp only [bind, Except.bind]
      rw [ih (hends.of_leaves hleaves) (hdocs.of_leaves hleaves)]
      cases declarations comments' stop' more with
      | error e => rfl
      | ok structs => simp [Except.map]

end Docs

end Moved

end ApiForge.Source
