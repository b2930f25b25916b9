import ApiForge.Proofs.Layouts
import ApiForge.Proofs.Spans
import Mathlib

/-! A source can be cut into its tokens at a line end. What stands in front of a line end is read alike whatever comes
behind it, as long as no literal and no comment goes over the line end, and behind it the source is read as if it started
there. -/

namespace ApiForge.Source

/-! ### Lexemes in front of a line end -/

section Lexemes

variable {c : Char} {cs tail body : List Char} {kind : LexemeKind}

theorem takeWhile_lineEnd {p : Char → Bool} (hp : p '\n' = false) (cs more : List Char) :
    (cs ++ '\n' :: more).takeWhile p = cs.takeWhile p := by
  induction cs with
  | nil => exact List.takeWhile_cons_of_neg (Bool.eq_false_iff.mp hp)
  | cons c cs ih => rw [List.cons_append, List.takeWhile_cons, List.takeWhile_cons, ih]

theorem numberTail_lineEnd (previous : Char) (cs more : List Char) :
    numberTail previous (cs ++ '\n' :: more) = numberTail previous cs := by
  induction cs generalizing previous with
  | nil => rfl
  | cons c cs ih => rw [List.cons_append, numberTail, numberTail, ih]

theorem blockBody?_append (h : blockBody? cs = some body) (more : List Char) : blockBody? (cs ++ more) = some body := by
  induction cs using blockBody?.induct generalizing body with
  | case1 => cases h
  | case2 cs =>
      cases h
      rfl
  | case3 c cs hc ih =>
      rw [blockBody?.eq_3 c cs hc] at h
      obtain ⟨body', hbody, rfl⟩ := Option.map_eq_some_iff.mp h
      obtain ⟨d, cs, rfl⟩ : ∃ d cs', cs = d :: cs' := by
        apply List.exists_cons_of_ne_nil
        rintro rfl
        cases hbody
      rw [List.cons_append, blockBody?.eq_3 c _ (fun cs' hstar hslash => ?_), ih hbody]
      · rfl
      · obtain ⟨rfl, -⟩ := List.cons_eq_cons.mp hslash
        exact hc cs hstar rfl

/-- A body that ends in front of what is added stays the same. -/
theorem literal_append {body? : List Char → Option (List Char)} {close : Char}
    (hinitial : ∀ {cs body}, body? cs = some body → body ++ [close] <+: cs)
    (hclosed : ∀ {cs body}, body? cs = some body → ∀ more, body? (body ++ close :: more) = some body)
    (h : body? cs = some body) (more : List Char) : body? (cs ++ more) = some body := by
  obtain ⟨behind, rfl⟩ := hinitial h
  rw [List.append_assoc, List.append_assoc, List.singleton_append]
  exact hclosed h _

/-- No operator goes over a line end. -/
theorem contains_operator_lineEnd {ops : List String} {n : Nat}
    (hops : ∀ op ∈ ops, op.toList.length = n + 1 ∧ '\n' ∉ op.toList) (c : Char) (cs more : List Char) :
    ops.contains (String.ofList (c :: (cs ++ '\n' :: more).take n)) = ops.contains (String.ofList (c :: cs.take n)) ∧
      (ops.contains (String.ofList (c :: cs.take n)) = true → (cs ++ '\n' :: more).take n = cs.take n) := by
  by_cases hlength : n ≤ cs.length
  · rw [List.take_append_of_le_length hlength]
    exact ⟨rfl, fun _ => rfl⟩
  · have hnone {text : List Char} (htext : text.length ≠ n + 1 ∨ '\n' ∈ text) :
        ops.contains (String.ofList text) = false := by
      rw [List.contains_eq_mem, decide_eq_false_iff_not]
      intro hmem
      obtain ⟨hcount, hline⟩ := hops _ hmem
      rw [String.toList_ofList] at hcount hline
      exact htext.elim (fun hne => hne hcount) hline
    have hshort : ops.contains (String.ofList (c :: cs.take n)) = false := by
      apply hnone
      rw [List.length_cons, List.length_take]
      omega
    have hline : ops.contains (String.ofList (c :: (cs ++ '\n' :: more).take n)) = false := by
      apply hnone
      refine .inr (List.mem_cons_of_mem _ ?_)
      rw [List.take_append, List.mem_append, show n - cs.length = (n - cs.length - 1) + 1 by omega, List.take_succ_cons]
      exact .inr List.mem_cons_self
    rw [hshort, hline]
    exact ⟨rfl, fun h => by cases h⟩

theorem operatorLexeme_lineEnd (h : operatorLexeme c cs = .ok ⟨kind, tail⟩) (more : List Char) :
    operatorLexeme c (cs ++ '\n' :: more) = .ok ⟨kind, tail⟩ := by
  have htriples : ∀ op ∈ tripleOperators, op.toList.length = 2 + 1 ∧ '\n' ∉ op.toList := by decide
  have hdoubles : ∀ op ∈ doubleOperators, op.toList.length = 1 + 1 ∧ '\n' ∉ op.toList := by decide
  obtain ⟨htriple, htripleTail⟩ := contains_operator_lineEnd htriples c cs more
  obtain ⟨hdouble, hdoubleTail⟩ := contains_operator_lineEnd hdoubles c cs more
  unfold operatorLexeme at h ⊢
  rw [htriple, hdouble]
  split_ifs at h ⊢ with hthree htwo hone
  · rw [htripleTail hthree]
    exact h
  · rw [hdoubleTail htwo]
    exact h
  · exact h

/-- What is read in front of a line end does not depend on what comes behind it. -/
theorem lexeme_lineEnd (h : lexeme c cs = .ok ⟨kind, tail⟩) (more : List Char) :
    lexeme c (cs ++ '\n' :: more) = .ok ⟨kind, tail⟩ := by
  have hhead (d : Char) (hd : d ≠ '\n') : (cs ++ '\n' :: more).head? = some d ↔ cs.head? = some d := by
    cases cs with
    | nil => simp [hd.symm]
    | cons => rfl
  have hnumber : startsNumber c (cs ++ '\n' :: more) = startsNumber c cs := by
    cases cs <;> rfl
  have htail {d : Char} (hd : cs.head? = some d) : (cs ++ '\n' :: more).tail = cs.tail ++ '\n' :: more := by
    rw [List.tail_append_of_ne_nil]
    rintro rfl
    cases hd
  unfold lexeme at h ⊢
  simp only [hhead '/' (by decide), hhead '*' (by decide), hnumber]
  split_ifs at h ⊢ with hblank hline hblock hquote hraw hrune hsemicolon hword hdigit
  · exact h
  · rw [htail hline.2, lineCommentLexeme, takeWhile_lineEnd (by decide)]
    exact h
  · rw [htail hblock.2, blockCommentLexeme]
    rw [blockCommentLexeme] at h
    split at h
    · cases h
    · rename_i body hbody
      rw [blockBody?_append hbody]
      exact h
  · unfold stringLexeme at h ⊢
    split at h
    · cases h
    · rename_i body hbody
      rw [literal_append stringBody?_isPrefix stringBody?_append hbody]
      exact h
  · unfold rawStringLexeme at h ⊢
    split at h
    · cases h
    · rename_i body hbody
      rw [literal_append rawBody?_isPrefix rawBody?_append_of_some hbody]
      exact h
  · unfold runeLexeme at h ⊢
    cases hbody : runeBody? cs with
    | none =>
        rw [hbody] at h
        cases h
    | some body =>
        rw [hbody] at h
        rw [literal_append runeBody?_isPrefix runeBody?_append hbody]
        exact h
  · exact h
  · rw [wordLexeme, takeWhile_lineEnd (by decide +kernel)]
    exact h
  · rw [numberTail_lineEnd]
    exact h
  · exact operatorLexeme_lineEnd h more

end Lexemes

/-! ### Pieces on both sides of a line end -/

section Pieces

variable {pos : Position} {used : Bool} {cs : List Char} {ps : List Piece}

theorem pieces_of_cut (h : Cut pos used cs ps) : pieces pos used cs = .ok ps := by
  induction h with
  | nil pos used => rw [pieces]
  | cons hlexeme hrest ih =>
      rw [pieces, hlexeme]
      dsimp only
      rw [ih]
      rfl

/-- The place at the start of the next line. -/
def Position.nextLine (pos : Position) : Position :=
  ⟨pos.line + 1, 1⟩

theorem pieces_lineEnd (h : Cut pos used cs ps) (more : List Char) : pieces pos used (cs ++ '\n' :: more) =
    (pieces (pos.advance cs).nextLine false more).map (ps ++ .blank '\n' (pos.advance cs) :: ·) := by
  induction h with
  | nil pos used =>
      rw [List.nil_append, pieces, lexeme_blank (by decide)]
      rfl
  | @cons pos used kind c cs tail ps hlexeme hrest ih =>
      have hsplit := tail_append_drop hlexeme
      have hdrop : (cs ++ '\n' :: more).drop tail.length = cs.drop tail.length ++ '\n' :: more := by
        apply List.drop_append_of_le_length
        rw [← hsplit, List.length_append]
        exact Nat.le_add_right _ _
      have hplace : (pos.advance (c :: tail)).advance (cs.drop tail.length) = pos.advance (c :: cs) := by
        rw [← Position.advance_append, List.cons_append, hsplit]
      rw [List.cons_append, pieces, lexeme_lineEnd hlexeme]
      dsimp only
      rw [hdrop, ih, hplace]
      cases pieces (pos.advance (c :: cs)).nextLine false more <;> rfl

/-! ### Tokens on both sides of a line end -/

/-- All that matters of the last token is whether it ends a statement. -/
theorem insertSemicolons_last (stop : Position) {last last' : Option Token}
    (h : last.any Token.endsStatement = last'.any Token.endsStatement) (ps : List Piece) :
    insertSemicolons stop last ps = insertSemicolons stop last' ps := by
  induction ps with
  | nil => rw [insertSemicolons, insertSemicolons, h]
  | cons p ps ih =>
      cases p with
      | token t => rw [insertSemicolons, insertSemicolons]
      | comment c pos =>
          rw [insertSemicolons.eq_3 _ _ _ _ (by rintro t ⟨⟩), insertSemicolons.eq_3 _ _ _ _ (by rintro t ⟨⟩), h, ih]
      | blank c pos =>
          rw [insertSemicolons.eq_3 _ _ _ _ (by rintro t ⟨⟩), insertSemicolons.eq_3 _ _ _ _ (by rintro t ⟨⟩), h, ih]

/-- A line end asks for a semicolon where the end of the source would, and nothing that comes behind it depends on what
stands in front of it. -/
theorem insertSemicolons_lineEnd (stop pos : Position) (last : Option Token) (ps more : List Piece) :
    insertSemicolons stop last (ps ++ .blank '\n' pos :: more) =
      insertSemicolons pos last ps ++ insertSemicolons stop none more := by
  induction ps generalizing last with
  | nil =>
      have hends : (Piece.blank '\n' pos).endsLine = some pos := rfl
      rw [List.nil_append, insertSemicolons.eq_3 _ _ _ _ (by rintro t ⟨⟩), hends, insertSemicolons]
      dsimp only
      split_ifs with hlast
      · rfl
      · exact insertSemicolons_last stop (Bool.eq_false_iff.mpr hlast) more
  | cons p ps ih =>
      have hother (hp : ∀ t, p ≠ .token t) : insertSemicolons stop last (p :: (ps ++ .blank '\n' pos :: more)) =
          insertSemicolons pos last (p :: ps) ++ insertSemicolons stop none more := by
        rw [insertSemicolons.eq_3 _ _ _ _ hp, insertSemicolons.eq_3 _ _ _ _ hp]
        split
        · exact ih last
        · split_ifs
          · rw [ih, List.cons_append]
          · exact ih last
      cases p with
      | token t => rw [List.cons_append, insertSemicolons, insertSemicolons, ih, List.cons_append]
      | comment c pos => exact hother (by rintro t ⟨⟩)
      | blank c pos => exact hother (by rintro t ⟨⟩)

end Pieces

end ApiForge.Source
