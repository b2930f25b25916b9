import ApiForge.Proofs.Nesting
import Mathlib

/-! Items that are read one after the other up to the sign behind the last of them, as the fields of a struct or the types
of a group are. The two are read by one step that is taken again and again; the test that a step has taken a token never
fails, so what is read can be followed item by item. -/

namespace ApiForge.Source

section Terminators

variable {ts : List Token} {t : Token}

theorem skipTerminators_leaves (ts : List Token) : Leaves ts (skipTerminators ts) := by
  induction ts with
  | nil => exact leaves_refl _
  | cons t ts ih =>
      unfold skipTerminators at ih ⊢
      by_cases ht : t.isTerminator = true
      · rw [List.dropWhile_cons_of_pos ht]
        exact ih.plain (plain_of_isTerminator ht)
      · rw [List.dropWhile_cons_of_neg ht]
        exact leaves_refl _

theorem leaves_of_skipTerminators {rest : List Token} (h : skipTerminators ts = rest) : Leaves ts rest :=
  h ▸ skipTerminators_leaves ts

theorem skipTerminators_cons (h : t.isTerminator = false) : skipTerminators (t :: ts) = t :: ts := by
  rw [skipTerminators, List.dropWhile_cons_of_neg (Bool.eq_false_iff.mp h)]

theorem not_terminator_of_kind (h : t.kind = .operator ∨ t.kind = .identifier ∨ t.kind = .keyword) :
    t.isTerminator = false := by
  rw [Token.isTerminator]
  rcases h with h | h | h
  all_goals
    rw [h]
    rfl

theorem not_terminator_of_operator {text : String} (h : t.isOperator text = true) : t.isTerminator = false :=
  not_terminator_of_kind (.inl (eq_of_isOperator h).1)

theorem Leaves.length_le {rest : List Token} (h : Leaves ts rest) : rest.length ≤ ts.length := by
  obtain ⟨used, -, rfl⟩ := h
  rw [List.length_append]
  exact Nat.le_add_left _ _

end Terminators

/-! ### Items up to a sign -/

section Items

variable {α : Type} {item : Token → List Token → Reading (List α × List Token)} {sign : String}
  {ts rest : List Token} {items : List α}

/-- Items have been read from the tokens, and `rest` is left behind the sign that closes them. Behind each item stands a
semicolon, or it is the last one. -/
inductive ItemsRead (item : Token → List Token → Reading (List α × List Token)) (sign : String) :
    List Token → List α → List Token → Prop where
  | none {ts rest : List Token} {closing : Token} (first : skipTerminators ts = closing :: rest)
      (closes : closing.isOperator sign = true) : ItemsRead item sign ts [] rest
  | last {ts behind rest : List Token} {t closing : Token} {items : List α} (first : skipTerminators ts = t :: behind)
      (goesOn : t.isOperator sign = false) (read : item t behind = .ok (items, closing :: rest))
      (closes : closing.isOperator sign = true) : ItemsRead item sign ts items rest
  | next {ts behind between rest : List Token} {t separator : Token} {items later : List α}
      (first : skipTerminators ts = t :: behind) (goesOn : t.isOperator sign = false)
      (read : item t behind = .ok (items, separator :: between)) (separates : separator.isTerminator = true)
      (others : ItemsRead item sign between later rest) : ItemsRead item sign ts (items ++ later) rest

/-- One item and what comes behind it, for which `self` is asked. -/
def itemsStep (item : Token → List Token → Reading (List α × List Token)) (sign : String) (unclosed : SyntaxError)
    (misplaced : List Token → SyntaxError) (self : List Token → Reading (List α × List Token)) (ts : List Token) :
    Reading (List α × List Token) :=
  match skipTerminators ts with
  | [] => .error unclosed
  | t :: behind =>
    if t.isOperator sign then .ok ([], behind)
    else
      match item t behind with
      | .error e => .error e
      | .ok (_, []) => .error (misplaced [])
      | .ok (items, t' :: rest) =>
        if t'.isTerminator then (self rest).map fun r => (items ++ r.1, r.2)
        else if t'.isOperator sign then .ok (items, rest)
        else .error (misplaced (t' :: rest))

/-- An item takes its first token, which is no bracket, and behind it only brackets that fit each other. -/
def TakesFirst (item : Token → List Token → Reading (List α × List Token)) : Prop :=
  ∀ ⦃t ts items rest⦄, item t ts = .ok (items, rest) → t.plain = true ∧ Leaves ts rest

namespace TakesFirst

variable {t : Token} {behind : List Token}

theorem leaves (htakes : TakesFirst item) (hfirst : skipTerminators ts = t :: behind)
    (hread : item t behind = .ok (items, rest)) : Leaves ts rest := by
  obtain ⟨hplain, hleaves⟩ := htakes hread
  exact (leaves_of_skipTerminators hfirst).trans (hleaves.plain hplain)

theorem length_lt (htakes : TakesFirst item) (hfirst : skipTerminators ts = t :: behind)
    (hread : item t behind = .ok (items, rest)) : rest.length < ts.length := by
  have hbehind := (htakes hread).2.length_le
  have hts := (leaves_of_skipTerminators hfirst).length_le
  rw [List.length_cons] at hts
  omega

end TakesFirst

/-- What takes the step again and again reads items up to the sign. -/
theorem eq_ok_iff_itemsRead {read : List Token → Reading (List α × List Token)} {unclosed : SyntaxError}
    {misplaced : List Token → SyntaxError} (hread : ∀ ts, read ts = itemsStep item sign unclosed misplaced read ts)
    (htakes : TakesFirst item) : read ts = .ok (items, rest) ↔ ItemsRead item sign ts items rest := by
  constructor
  · intro h
    induction hn : ts.length using Nat.strong_induction_on generalizing ts items with
    | _ n ih =>
        rw [hread, itemsStep] at h
        split at h
        · cases h
        · rename_i t behind hfirst
          split_ifs at h with hcloses
          · cases h
            exact .none hfirst hcloses
          · rw [Bool.not_eq_true] at hcloses
            split at h
            · cases h
            · cases h
            · rename_i first t' between hitem
              split_ifs at h with hseparates hlast
              · obtain ⟨⟨later, rest'⟩, hlater, heq⟩ := of_map h
                cases heq
                have hlength := htakes.length_lt hfirst hitem
                exact .next hfirst hcloses hitem hseparates (ih between.length (by simp at hlength; omega) hlater rfl)
              · cases h
                exact .last hfirst hcloses hitem hlast
  · intro h
    induction h with
    | none hfirst hcloses =>
        rw [hread, itemsStep, hfirst]
        exact if_pos hcloses
    | last hfirst hgoesOn hitem hcloses =>
        rw [hread, itemsStep, hfirst]
        dsimp only
        rw [hgoesOn, if_neg Bool.false_ne_true, hitem]
        dsimp only
        rw [not_terminator_of_operator hcloses, if_neg Bool.false_ne_true, if_pos hcloses]
    | next hfirst hgoesOn hitem hseparates hothers ih =>
        rw [hread, itemsStep, hfirst]
        dsimp only
        rw [hgoesOn, if_neg Bool.false_ne_true, hitem]
        dsimp only
        rw [if_pos hseparates, ih]
        rfl

/-- Items end with the sign that closes them, outside all their brackets. -/
theorem ItemsRead.leaves (htakes : TakesFirst item) (h : ItemsRead item sign ts items rest) :
    ∃ closing, closing.isOperator sign = true ∧ Leaves ts (closing :: rest) := by
  induction h with
  | none hfirst hcloses => exact ⟨_, hcloses, leaves_of_skipTerminators hfirst⟩
  | last hfirst _ hread hcloses => exact ⟨_, hcloses, htakes.leaves hfirst hread⟩
  | next hfirst _ hread hseparates _ ih =>
      obtain ⟨closing, hcloses, hbetween⟩ := ih
      exact ⟨closing, hcloses, (htakes.leaves hfirst hread).trans (hbetween.plain (plain_of_isTerminator hseparates))⟩

/-- Each item is read outside all brackets among the tokens. -/
theorem ItemsRead.exists_read (htakes : TakesFirst item) (h : ItemsRead item sign ts items rest) {x : α}
    (hx : x ∈ items) :
    ∃ t behind read left, Leaves ts (t :: behind) ∧ item t behind = .ok (read, left) ∧ x ∈ read := by
  induction h with
  | none => cases hx
  | last hfirst _ hread _ => exact ⟨_, _, _, _, leaves_of_skipTerminators hfirst, hread, hx⟩
  | next hfirst _ hread hseparates _ ih =>
      rcases List.mem_append.mp hx with hx | hx
      · exact ⟨_, _, _, _, leaves_of_skipTerminators hfirst, hread, hx⟩
      · obtain ⟨t, behind, read, left, hleaves, hread', hx⟩ := ih hx
        exact ⟨t, behind, read, left,
          (htakes.leaves hfirst hread).trans (hleaves.plain (plain_of_isTerminator hseparates)), hread', hx⟩

end Items

end ApiForge.Source
