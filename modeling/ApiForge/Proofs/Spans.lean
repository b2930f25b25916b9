import ApiForge.Proofs.Lexemes
import ApiForge.Proofs.Scanning
import Mathlib

/-! The lines that the pieces of a source cover. No piece starts above the line where an earlier one ends, and a comment
is on a line of its own exactly when no token in front of it reaches down to the line where the comment starts. -/

namespace ApiForge.Source

/-- The line of the place right behind the token. -/
def Token.endLine (t : Token) : Nat :=
  (t.pos.advance t.text.toList).line

namespace Piece

/-- The line of the piece's first character. -/
def line : Piece → Nat
  | .token t => t.pos.line
  | .comment c _ => c.line
  | .blank _ pos => pos.line

/-- The line of the place right behind the piece. -/
def endLine : Piece → Nat
  | .token t => t.endLine
  | .comment c _ => c.endLine
  | .blank c pos => (pos.step c).line

def token? : Piece → Option Token
  | .token t => some t
  | _ => none

def isBlank : Piece → Bool
  | .blank _ _ => true
  | _ => false

theorem token?_eq_some {p : Piece} {t : Token} : p.token? = some t ↔ p = .token t := by
  cases p <;> simp [token?]

theorem comment?_eq_some {p : Piece} {c : Comment} : p.comment? = some c ↔ ∃ pos, p = .comment c pos := by
  cases p <;> simp [comment?]

end Piece

/-! ### One lexeme -/

theorem Position.line_le_step (pos : Position) (c : Char) : pos.line ≤ (pos.step c).line := by
  unfold step
  split
  · exact Nat.le_succ _
  · exact le_rfl

theorem Position.line_le_advance (pos : Position) (text : List Char) : pos.line ≤ (pos.advance text).line := by
  induction text generalizing pos with
  | nil => exact le_rfl
  | cons c text ih => exact (pos.line_le_step c).trans (ih (pos.step c))

/-- A text with a line end reaches down to another line. -/
theorem Position.line_lt_advance {pos : Position} {text : List Char} (h : '\n' ∈ text) :
    pos.line < (pos.advance text).line := by
  induction text generalizing pos with
  | nil => cases h
  | cons c text ih =>
      rcases List.mem_cons.mp h with rfl | h
      · have hstep : pos.step '\n' = ⟨pos.line + 1, 1⟩ := rfl
        exact lt_of_lt_of_le (by rw [hstep]; exact Nat.lt_succ_self _) ((pos.step '\n').line_le_advance text)
      · exact lt_of_le_of_lt (pos.line_le_step c) (ih h)

/-- A blank is a single character. -/
theorem tail_of_blank {c : Char} {cs tail : List Char} (h : lexeme c cs = .ok ⟨.blank, tail⟩) : tail = [] := by
  cases scanned_of_lexeme h with
  | blank => rfl

theorem line_pieceOf (kind : LexemeKind) (text : List Char) (pos : Position) (used : Bool) :
    (pieceOf kind text pos used).line = pos.line := by
  cases kind <;> rfl

theorem endLine_pieceOf {kind : LexemeKind} {c : Char} {cs tail : List Char} (h : lexeme c cs = .ok ⟨kind, tail⟩)
    (pos : Position) (used : Bool) :
    (pieceOf kind (c :: tail) pos used).endLine = (pos.advance (c :: tail)).line := by
  cases kind with
  | blank =>
      rw [tail_of_blank h]
      rfl
  | comment style => rfl
  | token kind =>
      rw [pieceOf, Piece.endLine, Token.endLine, String.toList_ofList]

/-! ### All pieces -/

/-- The pieces of the source `cs`, which starts at `pos` and has a token in front of it on its line when `used`. -/
inductive Cut : Position → Bool → List Char → List Piece → Prop where
  | nil (pos : Position) (used : Bool) : Cut pos used [] []
  | cons {pos : Position} {used : Bool} {kind : LexemeKind} {c : Char} {cs tail : List Char} {ps : List Piece}
      (hlexeme : lexeme c cs = .ok ⟨kind, tail⟩)
      (hrest : Cut (pos.advance (c :: tail)) (lineUsedAfter kind (c :: tail) used) (cs.drop tail.length) ps) :
      Cut pos used (c :: cs) (pieceOf kind (c :: tail) pos used :: ps)

section Cut

variable {pos : Position} {used : Bool} {cs : List Char} {ps : List Piece}

theorem cut_of_pieces (h : pieces pos used cs = .ok ps) : Cut pos used cs ps := by
  induction hn : cs.length using Nat.strong_induction_on generalizing pos used cs ps with
  | _ n ih =>
      cases cs with
      | nil =>
          rw [pieces] at h
          cases h
          exact .nil pos used
      | cons c cs =>
          rw [pieces] at h
          split at h
          · cases h
          · rename_i kind tail hlexeme
            dsimp only at h
            cases hrest : pieces (pos.advance (c :: tail)) (lineUsedAfter kind (c :: tail) used)
                (cs.drop tail.length) with
            | error e =>
                rw [hrest] at h
                cases h
            | ok ps' =>
                rw [hrest] at h
                cases h
                apply Cut.cons hlexeme
                apply ih _ _ hrest rfl
                rw [← hn, List.length_drop, List.length_cons]
                omega

theorem Cut.line_le (h : Cut pos used cs ps) {p : Piece} (hp : p ∈ ps) : pos.line ≤ p.line := by
  induction h with
  | nil => cases hp
  | cons hlexeme hrest ih =>
      rcases List.mem_cons.mp hp with rfl | hp
      · rw [line_pieceOf]
      · exact (Position.line_le_advance _ _).trans (ih hp)

theorem Cut.line_le_endLine (h : Cut pos used cs ps) {p : Piece} (hp : p ∈ ps) : p.line ≤ p.endLine := by
  induction h with
  | nil => cases hp
  | cons hlexeme hrest ih =>
      rcases List.mem_cons.mp hp with rfl | hp
      · rw [line_pieceOf, endLine_pieceOf hlexeme]
        exact Position.line_le_advance _ _
      · exact ih hp

/-- A piece ends no further down than the next ones start. -/
theorem Cut.endLine_le_line (h : Cut pos used cs ps) : ps.Pairwise fun p q => p.endLine ≤ q.line := by
  induction h with
  | nil => exact .nil
  | cons hlexeme hrest ih =>
      refine List.pairwise_cons.mpr ⟨fun q hq => ?_, ih⟩
      rw [endLine_pieceOf hlexeme]
      exact hrest.line_le hq

/-- A comment is on a line of its own when the tokens in front of it end above it. -/
theorem Cut.ownLine_iff (h : Cut pos used cs ps) {front back : List Piece} {c : Comment} {place : Position}
    (hps : ps = front ++ .comment c place :: back) :
    c.ownLine = true ↔ (used = true → pos.line < c.line) ∧ ∀ t, .token t ∈ front → t.endLine < c.line := by
  induction h generalizing front with
  | nil => exact absurd hps.symm (List.append_ne_nil_of_right_ne_nil _ (List.cons_ne_nil _ _))
  | @cons pos used kind d cs tail ps hlexeme hrest ih =>
      cases front with
      | nil =>
          obtain ⟨hpiece, -⟩ := List.cons_eq_cons.mp hps
          cases kind with
          | blank => cases hpiece
          | token kind => cases hpiece
          | comment style =>
              cases hpiece
              cases used <;> simp
      | cons p front =>
          obtain ⟨rfl, rfl⟩ := List.cons_eq_cons.mp hps
          rw [ih rfl]
          have hline : (pos.advance (d :: tail)).line ≤ c.line :=
            hrest.line_le (List.mem_append_right _ List.mem_cons_self)
          have hstart : pos.line ≤ (pos.advance (d :: tail)).line := pos.line_le_advance _
          have hother (hkind : lineUsedAfter kind (d :: tail) used = if (d :: tail).contains '\n' then false else used)
              (hpiece : ∀ t, .token t ≠ pieceOf kind (d :: tail) pos used) :
              ((lineUsedAfter kind (d :: tail) used = true → (pos.advance (d :: tail)).line < c.line) ∧
                ∀ t, .token t ∈ front → t.endLine < c.line) ↔ (used = true → pos.line < c.line) ∧
                  ∀ t, .token t ∈ pieceOf kind (d :: tail) pos used :: front → t.endLine < c.line := by
            have hfront : (∀ t, .token t ∈ pieceOf kind (d :: tail) pos used :: front → t.endLine < c.line) ↔
                ∀ t, .token t ∈ front → t.endLine < c.line := by
              simp only [List.mem_cons, hpiece, false_or]
            rw [hfront, hkind]
            by_cases hmem : '\n' ∈ d :: tail
            · have hlt : pos.line < c.line := lt_of_lt_of_le (Position.line_lt_advance hmem) hline
              rw [if_pos (List.contains_iff_mem.mpr hmem)]
              simp [hlt]
            · rw [if_neg (fun hcontains => hmem (List.contains_iff_mem.mp hcontains)), Position.line_advance hmem]
          cases kind with
          | blank => exact hother rfl (by rintro t ⟨⟩)
          | comment style => exact hother rfl (by rintro t ⟨⟩)
          | token kind =>
              have hend : (⟨kind, String.ofList (d :: tail), pos⟩ : Token).endLine = (pos.advance (d :: tail)).line := by
                rw [Token.endLine, String.toList_ofList]
              simp only [lineUsedAfter, pieceOf, List.mem_cons, Piece.token.injEq, true_implies, forall_eq_or_imp, hend]
              constructor
              · rintro ⟨hlt, hfront⟩
                exact ⟨fun _ => lt_of_le_of_lt hstart hlt, hlt, hfront⟩
              · rintro ⟨-, hlt, hfront⟩
                exact ⟨hlt, hfront⟩

end Cut

/-! ### The tokens among the pieces -/

/-- A token is one of the pieces, or a semicolon that is put where a piece with a line end begins or where the source
ends. -/
theorem mem_insertSemicolons {stop : Position} {last : Option Token} {ps : List Piece} {t : Token}
    (h : t ∈ insertSemicolons stop last ps) : .token t ∈ ps ∨ t.kind = .newline ∧
      (t.pos = stop ∨ ∃ front p back, ps = front ++ p :: back ∧ p.endsLine = some t.pos) := by
  induction ps generalizing last with
  | nil =>
      rw [insertSemicolons] at h
      split_ifs at h
      · rw [List.mem_singleton.mp h]
        exact .inr ⟨rfl, .inl rfl⟩
      · cases h
  | cons p ps ih =>
      have hlater {last : Option Token} (h : t ∈ insertSemicolons stop last ps) : .token t ∈ p :: ps ∨ t.kind = .newline ∧
          (t.pos = stop ∨ ∃ front p' back, p :: ps = front ++ p' :: back ∧ p'.endsLine = some t.pos) := by
        rcases ih h with hpiece | ⟨hkind, hstop | ⟨front, p', back, rfl, hp'⟩⟩
        · exact .inl (List.mem_cons_of_mem _ hpiece)
        · exact .inr ⟨hkind, .inl hstop⟩
        · exact .inr ⟨hkind, .inr ⟨p :: front, p', back, rfl, hp'⟩⟩
      by_cases hp : ∃ t', p = .token t'
      · obtain ⟨t', rfl⟩ := hp
        rcases List.mem_cons.mp h with rfl | h
        · exact .inl List.mem_cons_self
        · exact hlater h
      · rw [insertSemicolons.eq_3 _ _ _ _ (fun t' hp' => hp ⟨t', hp'⟩)] at h
        split at h
        · exact hlater h
        · rename_i pos hends
          split_ifs at h
          · rcases List.mem_cons.mp h with rfl | h
            · exact .inr ⟨rfl, .inr ⟨[], p, ps, rfl, hends⟩⟩
            · exact hlater h
          · exact hlater h

end ApiForge.Source
