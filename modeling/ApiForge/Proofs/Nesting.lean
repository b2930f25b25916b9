import ApiForge.Proofs.Outcomes
import ApiForge.Source.Declaration
import Mathlib

/-! What reading a part of a source takes from the tokens. Every part takes tokens from the front, and their brackets fit
each other, so no part ends inside brackets that it did not open. -/

namespace ApiForge.Source

/-! ### Brackets that fit each other -/

/-- The brackets among the tokens fit each other. -/
def Balanced (ts : List Token) : Prop :=
  ts.foldlM track [] = .ok []

/-- What is open further out plays no part. -/
theorem track_append {stack stack' : List Token} {t : Token} (h : track stack t = .ok stack') (outer : List Token) :
    track (stack ++ outer) t = .ok (stack' ++ outer) := by
  unfold track at h ⊢
  split_ifs at h ⊢
  · cases h
    rfl
  · cases stack with
    | nil => cases h
    | cons opener inner =>
        dsimp only [List.cons_append] at h ⊢
        split_ifs at h ⊢
        cases h
        rfl
  · cases h
    rfl

theorem foldlM_track_cons {stack next : List Token} {t : Token} (h : track stack t = .ok next) (ts : List Token) :
    (t :: ts).foldlM track stack = ts.foldlM track next := by
  rw [List.foldlM_cons, h]
  rfl

theorem foldlM_track_append {stack stack' ts : List Token} (h : ts.foldlM track stack = .ok stack')
    (outer : List Token) : ts.foldlM track (stack ++ outer) = .ok (stack' ++ outer) := by
  induction ts generalizing stack with
  | nil =>
      cases h
      rfl
  | cons t ts ih =>
      rw [List.foldlM_cons] at h
      obtain ⟨next, ht, h⟩ := of_bind h
      rw [foldlM_track_cons (track_append ht outer)]
      exact ih h

theorem Balanced.foldlM {ts : List Token} (h : Balanced ts) (stack : List Token) : ts.foldlM track stack = .ok stack :=
  foldlM_track_append h stack

theorem balanced_nil : Balanced [] :=
  rfl

theorem Balanced.append {front back : List Token} (hfront : Balanced front) (hback : Balanced back) :
    Balanced (front ++ back) := by
  rw [Balanced, List.foldlM_append, hfront]
  exact hback

/-- The token is no bracket. -/
def Token.plain (t : Token) : Bool :=
  !t.opens && !t.closes

theorem track_plain {t : Token} (h : t.plain = true) (stack : List Token) : track stack t = .ok stack := by
  rw [Token.plain, Bool.and_eq_true, Bool.not_eq_true', Bool.not_eq_true'] at h
  simp [track, h]

theorem balanced_plain {t : Token} (h : t.plain = true) : Balanced [t] :=
  foldlM_track_cons (track_plain h []) []

theorem plain_of_kind {t : Token} (h : t.kind ≠ .operator) : t.plain = true := by
  simp [Token.plain, Token.opens, Token.closes, h]

theorem plain_of_isTerminator {t : Token} (h : t.isTerminator = true) : t.plain = true := by
  apply plain_of_kind
  rintro hkind
  rw [Token.isTerminator, hkind] at h
  cases h

theorem eq_of_isOperator {t : Token} {text : String} (h : t.isOperator text = true) :
    t.kind = .operator ∧ t.text = text := by
  rw [Token.isOperator, Bool.and_eq_true, beq_iff_eq, beq_iff_eq] at h
  exact h

theorem plain_of_isOperator {t : Token} {text : String} (h : t.isOperator text = true)
    (htext : text ∉ openers ++ closers) : t.plain = true := by
  obtain ⟨-, rfl⟩ := eq_of_isOperator h
  rw [List.mem_append, not_or] at htext
  simp [Token.plain, Token.opens, Token.closes, htext]

theorem track_opening {opening : Token} (hopens : opening.opens = true) (stack : List Token) :
    track stack opening = .ok (opening :: stack) := by
  simp [track, hopens]

theorem not_opens_of_closes {closing : Token} (hcloses : closing.closes = true) : closing.opens = false := by
  rw [Token.closes, Bool.and_eq_true] at hcloses
  have hapart : ∀ text ∈ closers, text ∉ openers := by decide
  simp [Token.opens, hapart _ (List.contains_iff_mem.mp hcloses.2)]

theorem track_closing {opening closing : Token} (hcloses : closing.closes = true)
    (hfits : closerOf opening.text = closing.text) (stack : List Token) :
    track (opening :: stack) closing = .ok stack := by
  simp [track, not_opens_of_closes hcloses, hcloses, hfits]

/-- A bracket, what it encloses and the bracket that closes it. -/
theorem Balanced.enclosed {opening closing : Token} {inner : List Token} (hopens : opening.opens = true)
    (hcloses : closing.closes = true) (hfits : closerOf opening.text = closing.text) (h : Balanced inner) :
    Balanced (opening :: (inner ++ [closing])) := by
  have hinner : (inner ++ [closing]).foldlM track [opening] = .ok [] := by
    rw [List.foldlM_append, h.foldlM]
    exact foldlM_track_cons (track_closing hcloses hfits []) []
  exact (foldlM_track_cons (track_opening hopens []) _).trans hinner

/-! ### What is left behind fitting brackets -/

/-- What is left of `ts` behind some tokens whose brackets fit each other is `rest`. -/
def Leaves (ts rest : List Token) : Prop :=
  ∃ used, Balanced used ∧ ts = used ++ rest

section Leaves

variable {ts rest : List Token}

theorem leaves_refl (ts : List Token) : Leaves ts ts :=
  ⟨[], balanced_nil, rfl⟩

theorem Leaves.trans {middle : List Token} (hfront : Leaves ts middle) (hback : Leaves middle rest) :
    Leaves ts rest := by
  obtain ⟨front, hfront, rfl⟩ := hfront
  obtain ⟨back, hback, rfl⟩ := hback
  exact ⟨front ++ back, hfront.append hback, (List.append_assoc _ _ _).symm⟩

theorem Leaves.plain {t : Token} (ht : t.plain = true) (h : Leaves ts rest) : Leaves (t :: ts) rest :=
  Leaves.trans ⟨[t], balanced_plain ht, rfl⟩ h

theorem Leaves.enclosed {opening closing : Token} {text : String} (hopening : opening.isOperator text = true)
    (hopens : text ∈ openers) (hclosing : closing.isOperator (closerOf text) = true)
    (h : Leaves ts (closing :: rest)) : Leaves (opening :: ts) rest := by
  obtain ⟨inner, hinner, rfl⟩ := h
  obtain ⟨hkind, rfl⟩ := eq_of_isOperator hopening
  obtain ⟨hkind', htext⟩ := eq_of_isOperator hclosing
  have hcloses : ∀ text ∈ openers, closerOf text ∈ closers := by decide
  refine ⟨opening :: (inner ++ [closing]), hinner.enclosed ?_ ?_ htext.symm, ?_⟩
  · simp [Token.opens, hkind, hopens]
  · simp [Token.closes, hkind', htext, hcloses _ hopens]
  · rw [List.cons_append, List.append_assoc, List.singleton_append]

end Leaves

end ApiForge.Source
