import ApiForge.Proofs.Pieces
import Mathlib

/-! Where semicolons are inserted. Between two tokens that stand in the source there is one when the first can end a
statement and a line ends between them, be it in a comment; behind the last token there is one when that can end a
statement; there are no others. -/

namespace ApiForge.Source

namespace Token

/-- A statement can end with the token: a name that is no keyword, a literal, a keyword that is a statement of its own, a
closing bracket, an increment or a decrement. -/
def ClosesStatement (t : Token) : Prop :=
  t.isName = true ∧ (t.text ∉ keywords ∨ t.text ∈ ["break", "continue", "fallthrough", "return"]) ∨
    (t.kind = .number ∨ t.kind = .rune ∨ t.isString = true) ∨
    t.kind = .operator ∧ t.text ∈ [")", "]", "\x7d", "++", "--"]

instance (t : Token) : Decidable t.ClosesStatement :=
  inferInstanceAs (Decidable (_ ∧ _ ∨ _ ∨ _))

/-- The text tells an identifier from a keyword. -/
def NamedByText (t : Token) : Prop :=
  t.isName = true → (t.kind = .keyword ↔ t.text ∈ keywords)

theorem endsStatement_iff {t : Token} (h : t.NamedByText) : t.endsStatement = true ↔ t.ClosesStatement := by
  obtain ⟨kind, text, pos⟩ := t
  cases kind with
  | identifier =>
      have hword : text ∉ keywords := by simpa [NamedByText, isName] using h
      simp [endsStatement, ClosesStatement, isName, isString, hword]
  | keyword =>
      have hword : text ∈ keywords := by simpa [NamedByText, isName] using h
      simp [endsStatement, ClosesStatement, isName, isString, hword, closingKeywords]
  | number => simp [endsStatement, ClosesStatement, isString]
  | rune => simp [endsStatement, ClosesStatement, isString]
  | string value => simp [endsStatement, ClosesStatement, isString]
  | operator => simp [endsStatement, ClosesStatement, isName, isString]
  | semicolon => simp [endsStatement, ClosesStatement, isName, isString]
  | newline => simp [endsStatement, ClosesStatement, isName, isString]

end Token

/-! ### What the pieces of a source are -/

/-- Of the ways to read a lexeme only that of words gives names. -/
theorem keyword_of_lexeme {c : Char} {cs tail : List Char} {kind : TokenKind}
    (h : lexeme c cs = .ok ⟨.token kind, tail⟩) (hkind : kind = .identifier ∨ kind = .keyword) :
    kind = .keyword ↔ String.ofList (c :: tail) ∈ keywords := by
  unfold lexeme at h
  split_ifs at h
  · cases h
  · cases h
  · unfold blockCommentLexeme at h
    split at h <;> cases h
  · unfold stringLexeme at h
    split at h
    · cases h
    · split at h <;> cases h
      simp at hkind
  · unfold rawStringLexeme at h
    split at h <;> cases h
    simp at hkind
  · unfold runeLexeme at h
    split at h <;> cases h
    simp at hkind
  · cases h
    simp at hkind
  · rw [wordLexeme] at h
    cases h
    simp
  · cases h
    simp at hkind
  · cases kind_of_operatorLexeme h
    simp at hkind

section Cut

variable {pos : Position} {used : Bool} {cs : List Char} {ps : List Piece}

theorem Cut.namedByText (h : Cut pos used cs ps) {t : Token} (ht : .token t ∈ ps) : t.NamedByText := by
  induction h with
  | nil => cases ht
  | @cons pos used kind c cs tail ps hlexeme hrest ih =>
      rcases List.mem_cons.mp ht with hpiece | ht
      · cases kind with
        | token kind =>
            cases hpiece
            intro hname
            apply keyword_of_lexeme hlexeme
            simpa [Token.isName] using hname
        | blank => cases hpiece
        | comment style => cases hpiece
      · exact ih ht

/-- What is no token ends a line exactly when there is a line end in it. -/
theorem Cut.endsLine_iff (h : Cut pos used cs ps) {p : Piece} (hp : p ∈ ps) (hother : p.token? = none) :
    p.endsLine.isSome = true ↔ '\n' ∈ p.text := by
  induction h with
  | nil => cases hp
  | @cons pos used kind c cs tail ps hlexeme hrest ih =>
      rcases List.mem_cons.mp hp with rfl | hp
      · have htext := text_pieceOf hlexeme pos used
        cases kind with
        | token kind => cases hother
        | blank =>
            rw [htext, tail_of_blank hlexeme, pieceOf, Piece.endsLine, List.headD_cons, List.mem_singleton]
            split_ifs with hc
            · simp [hc]
            · simp [Ne.symm hc]
        | comment style =>
            have hends : (pieceOf (.comment style) (c :: tail) pos used).endsLine =
                if (pos.advance (c :: tail)).line > pos.line then some pos else none := rfl
            rw [htext, hends]
            constructor
            · intro hsome
              by_contra hnone
              rw [Position.line_advance hnone, if_neg (Nat.lt_irrefl _)] at hsome
              cases hsome
            · intro hmem
              rw [if_pos (Position.line_lt_advance hmem)]
              rfl
      · exact ih hp

end Cut

/-! ### The semicolons behind a token -/

section Insertion

variable {stop : Position} {last : Option Token} {ps : List Piece}

/-- What is no token puts a semicolon in front of what comes behind it, or does nothing. -/
theorem insertSemicolons_step {p : Piece} (hp : p.token? = none) (stop : Position) (last : Option Token)
    (ps : List Piece) :
    (last.any Token.endsStatement && p.endsLine.isSome) = false ∧
        insertSemicolons stop last (p :: ps) = insertSemicolons stop last ps ∨
      (last.any Token.endsStatement && p.endsLine.isSome) = true ∧
        ∃ pos, insertSemicolons stop last (p :: ps) = newlineAt pos :: insertSemicolons stop none ps := by
  have hother : ∀ t, p ≠ .token t := by
    rintro t rfl
    cases hp
  rw [insertSemicolons.eq_3 _ _ _ _ hother]
  cases p.endsLine with
  | none => exact .inl ⟨Bool.and_false _, rfl⟩
  | some pos =>
      by_cases hlast : last.any Token.endsStatement = true
      · rw [hlast]
        exact .inr ⟨rfl, pos, rfl⟩
      · rw [Bool.eq_false_iff.mpr hlast]
        exact .inl ⟨rfl, rfl⟩

/-- A token that is written is one of the pieces, and what comes behind it is made of the pieces behind it. -/
theorem exists_piece_of_token (hps : ∀ t, .token t ∈ ps → t.kind ≠ .newline) {front rest : List Token} {t : Token}
    (h : insertSemicolons stop last ps = front ++ t :: rest) (ht : t.kind ≠ .newline) :
    ∃ before behind, ps = before ++ .token t :: behind ∧ rest = insertSemicolons stop (some t) behind := by
  induction ps generalizing last front with
  | nil =>
      have hmem : t ∈ insertSemicolons stop last [] := by
        rw [h]
        exact List.mem_append_right _ List.mem_cons_self
      rw [insertSemicolons] at hmem
      split_ifs at hmem
      · rw [List.mem_singleton.mp hmem] at ht
        exact absurd rfl ht
      · cases hmem
  | cons p ps ih =>
      have hrest : ∀ t, .token t ∈ ps → t.kind ≠ .newline := fun t ht => hps t (List.mem_cons_of_mem _ ht)
      have hlater {last : Option Token} {front : List Token}
          (h : insertSemicolons stop last ps = front ++ t :: rest) :
          ∃ before behind, p :: ps = before ++ .token t :: behind ∧ rest = insertSemicolons stop (some t) behind := by
        obtain ⟨before, behind, rfl, hbehind⟩ := ih hrest h
        exact ⟨p :: before, behind, rfl, hbehind⟩
      cases hp : p.token? with
      | some t' =>
          obtain rfl := Piece.token?_eq_some.mp hp
          rw [insertSemicolons] at h
          cases front with
          | nil =>
              obtain ⟨rfl, rfl⟩ := List.cons_eq_cons.mp h
              exact ⟨[], ps, rfl, rfl⟩
          | cons f front => exact hlater (List.cons_eq_cons.mp h).2
      | none =>
          rcases insertSemicolons_step hp stop last ps with ⟨-, hstep⟩ | ⟨-, pos, hstep⟩
          · exact hlater (hstep ▸ h)
          · rw [hstep] at h
            cases front with
            | nil =>
                obtain ⟨rfl, -⟩ := List.cons_eq_cons.mp h
                exact absurd rfl ht
            | cons f front => exact hlater (List.cons_eq_cons.mp h).2

/-- In front of the next token there is at most one semicolon, and there is one when a line ends behind a token that ends
a statement. -/
theorem semicolons_before_token (hps : ∀ t, .token t ∈ ps → t.kind ≠ .newline) {inserted back : List Token} {u : Token}
    (h : insertSemicolons stop last ps = inserted ++ u :: back) (hinserted : ∀ s ∈ inserted, s.kind = .newline)
    (hu : u.kind ≠ .newline) :
    ∃ gap behind, ps = gap ++ .token u :: behind ∧ (∀ p ∈ gap, p.token? = none) ∧
      inserted.length = (last.any Token.endsStatement && gap.any (·.endsLine.isSome)).toNat := by
  induction ps generalizing last inserted with
  | nil =>
      obtain ⟨before, behind, hnil, -⟩ := exists_piece_of_token hps h hu
      exact absurd hnil.symm (List.append_ne_nil_of_right_ne_nil _ (List.cons_ne_nil _ _))
  | cons p ps ih =>
      have hrest : ∀ t, .token t ∈ ps → t.kind ≠ .newline := fun t ht => hps t (List.mem_cons_of_mem _ ht)
      cases hp : p.token? with
      | some t =>
          obtain rfl := Piece.token?_eq_some.mp hp
          rw [insertSemicolons] at h
          cases inserted with
          | nil =>
              obtain ⟨rfl, -⟩ := List.cons_eq_cons.mp h
              exact ⟨[], ps, rfl, List.forall_mem_nil _, by simp⟩
          | cons s inserted =>
              obtain ⟨rfl, -⟩ := List.cons_eq_cons.mp h
              exact absurd (hinserted _ List.mem_cons_self) (hps _ List.mem_cons_self)
      | none =>
          rcases insertSemicolons_step hp stop last ps with ⟨hnone, hstep⟩ | ⟨hsome, pos, hstep⟩
          · obtain ⟨gap, behind, rfl, hgap, hlength⟩ := ih hrest (hstep ▸ h) hinserted
            refine ⟨p :: gap, behind, rfl, List.forall_mem_cons.mpr ⟨hp, hgap⟩, ?_⟩
            rw [hlength, List.any_cons, Bool.and_or_distrib_left, hnone, Bool.false_or]
          · rw [hstep] at h
            cases inserted with
            | nil =>
                obtain ⟨rfl, -⟩ := List.cons_eq_cons.mp h
                exact absurd rfl hu
            | cons s inserted =>
                obtain ⟨gap, behind, rfl, hgap, hlength⟩ :=
                  ih hrest (List.cons_eq_cons.mp h).2 (List.forall_mem_cons.mp hinserted).2
                refine ⟨p :: gap, behind, rfl, List.forall_mem_cons.mpr ⟨hp, hgap⟩, ?_⟩
                rw [List.length_cons, hlength, List.any_cons, Bool.and_or_distrib_left, hsome]
                rfl

/-- Behind the last token there is a semicolon when that ends a statement, wherever lines end. -/
theorem semicolons_behind_last (h : ∀ s ∈ insertSemicolons stop last ps, s.kind = .newline)
    (hps : ∀ t, .token t ∈ ps → t.kind ≠ .newline) :
    (insertSemicolons stop last ps).length = (last.any Token.endsStatement).toNat := by
  induction ps generalizing last with
  | nil =>
      rw [insertSemicolons]
      cases last.any Token.endsStatement <;> rfl
  | cons p ps ih =>
      have hrest : ∀ t, .token t ∈ ps → t.kind ≠ .newline := fun t ht => hps t (List.mem_cons_of_mem _ ht)
      cases hp : p.token? with
      | some t =>
          obtain rfl := Piece.token?_eq_some.mp hp
          rw [insertSemicolons, List.forall_mem_cons] at h
          exact absurd h.1 (hps t List.mem_cons_self)
      | none =>
          rcases insertSemicolons_step hp stop last ps with ⟨-, hstep⟩ | ⟨hsome, pos, hstep⟩
          · rw [hstep] at h ⊢
            exact ih h hrest
          · rw [hstep, List.forall_mem_cons] at h
            rw [hstep, List.length_cons, ih h.2 hrest, (Bool.and_eq_true_iff.mp hsome).1]
            rfl

/-- Nothing is inserted in front of the first token. -/
theorem mem_of_head?_insertSemicolons {t : Token} (h : t ∈ (insertSemicolons stop none ps).head?) : .token t ∈ ps := by
  induction ps with
  | nil => cases h
  | cons p ps ih =>
      cases hp : p.token? with
      | some t' =>
          obtain rfl := Piece.token?_eq_some.mp hp
          cases h
          exact List.mem_cons_self
      | none =>
          rcases insertSemicolons_step hp stop none ps with ⟨-, hstep⟩ | ⟨hsome, -⟩
          · exact List.mem_cons_of_mem p (ih (hstep ▸ h))
          · cases hsome

end Insertion

/-! ### Which semicolons are inserted -/

/-- The text `gap` stands between the tokens, where they say that they are. -/
def StandsBetween (source : List Char) (t u : Token) (gap : List Char) : Prop :=
  ∃ before behind, source = before ++ t.text.toList ++ gap ++ u.text.toList ++ behind ∧ t.pos = placeAt before ∧
    u.pos = placeAt (before ++ t.text.toList ++ gap)

/-- Semicolons stand for the line ends behind tokens that can end a statement, and for no others. -/
structure SemicolonsInserted (source : List Char) (tokens : List Token) : Prop where
  /-- Between a token and the next there are no semicolons, or one. -/
  between : ∀ front t inserted u back, tokens = front ++ t :: (inserted ++ u :: back) → t.kind ≠ .newline →
    (∀ s ∈ inserted, s.kind = .newline) → u.kind ≠ .newline →
    ∃ gap, StandsBetween source t u gap ∧ inserted.length = if t.ClosesStatement ∧ '\n' ∈ gap then 1 else 0
  /-- The end of the source is a line end. -/
  atEnd : ∀ front t inserted, tokens = front ++ t :: inserted → t.kind ≠ .newline →
    (∀ s ∈ inserted, s.kind = .newline) → inserted.length = if t.ClosesStatement then 1 else 0
  atStart : ∀ t ∈ tokens.head?, t.kind ≠ .newline

section Rule

variable {stop : Position} {cs : List Char} {ps : List Piece} {front inserted back : List Token} {t u : Token}

theorem toNat_eq_ite {b : Bool} {p : Prop} [Decidable p] (h : b = true ↔ p) : b.toNat = if p then 1 else 0 := by
  by_cases hp : p
  · rw [if_pos hp, h.mpr hp]
    rfl
  · rw [if_neg hp, Bool.eq_false_iff.mpr (mt h.mp hp)]
    rfl

/-- What stands between two tokens of a source is the text of the pieces between them. -/
theorem Cut.standsBetween {before gap behind : List Piece}
    (h : Cut .start false cs (before ++ .token t :: (gap ++ .token u :: behind))) :
    StandsBetween cs t u (gap.flatMap Piece.text) := by
  have hstart : Position.start = placeAt [] := rfl
  have hsplit : before ++ .token t :: (gap ++ .token u :: behind) = before ++ .token t :: gap ++ .token u :: behind :=
    (List.append_assoc before (.token t :: gap) _).symm
  refine ⟨before.flatMap Piece.text, behind.flatMap Piece.text, ?_, (h.stands hstart rfl).2, ?_⟩
  · rw [← h.text_eq]
    simp [Piece.text]
  · have hpos := (h.stands hstart hsplit).2
    rw [List.flatMap_append, List.flatMap_cons] at hpos
    rw [List.append_assoc]
    exact hpos

theorem Cut.semicolons_between (h : Cut .start false cs ps)
    (htokens : insertSemicolons stop none ps = front ++ t :: (inserted ++ u :: back)) (ht : t.kind ≠ .newline)
    (hinserted : ∀ s ∈ inserted, s.kind = .newline) (hu : u.kind ≠ .newline) :
    ∃ gap, StandsBetween cs t u gap ∧ inserted.length = if t.ClosesStatement ∧ '\n' ∈ gap then 1 else 0 := by
  obtain ⟨before, rest, rfl, hrest⟩ := exists_piece_of_token (fun _ => h.kind_ne_newline) htokens ht
  have hmem {p : Piece} (hp : p ∈ rest) : p ∈ before ++ .token t :: rest :=
    List.mem_append_right _ (List.mem_cons_of_mem _ hp)
  obtain ⟨gap, behind, rfl, hgap, hlength⟩ :=
    semicolons_before_token (fun _ hs => h.kind_ne_newline (hmem hs)) hrest.symm hinserted hu
  refine ⟨gap.flatMap Piece.text, h.standsBetween, ?_⟩
  have hlines : gap.any (·.endsLine.isSome) = true ↔ '\n' ∈ gap.flatMap Piece.text := by
    rw [List.any_eq_true, List.mem_flatMap]
    exact exists_congr fun p =>
      and_congr_right fun hp => h.endsLine_iff (hmem (List.mem_append_left _ hp)) (hgap p hp)
  rw [hlength]
  apply toNat_eq_ite
  rw [Bool.and_eq_true, hlines, Option.any_some,
    Token.endsStatement_iff (h.namedByText (List.mem_append_right _ List.mem_cons_self))]

theorem Cut.semicolons_at_end (h : Cut .start false cs ps)
    (htokens : insertSemicolons stop none ps = front ++ t :: inserted) (ht : t.kind ≠ .newline)
    (hinserted : ∀ s ∈ inserted, s.kind = .newline) : inserted.length = if t.ClosesStatement then 1 else 0 := by
  obtain ⟨before, rest, rfl, rfl⟩ := exists_piece_of_token (fun _ => h.kind_ne_newline) htokens ht
  have hmem {p : Piece} (hp : p ∈ rest) : p ∈ before ++ .token t :: rest :=
    List.mem_append_right _ (List.mem_cons_of_mem _ hp)
  rw [semicolons_behind_last hinserted fun _ hs => h.kind_ne_newline (hmem hs)]
  apply toNat_eq_ite
  rw [Option.any_some, Token.endsStatement_iff (h.namedByText (List.mem_append_right _ List.mem_cons_self))]

end Rule

/-- A source that can be cut into tokens has the semicolons that its line ends ask for. -/
theorem tokenize_semicolons {source : String} {lexed : Lexed} (h : tokenize source = .ok lexed) :
    SemicolonsInserted source.toList lexed.tokens := by
  obtain ⟨ps, hps, rfl⟩ := of_map h
  have hcut := cut_of_pieces hps
  exact {
    between := fun _ _ _ _ _ htokens ht hinserted hu => hcut.semicolons_between htokens ht hinserted hu
    atEnd := fun _ _ _ htokens ht hinserted => hcut.semicolons_at_end htokens ht hinserted
    atStart := fun _ ht => hcut.kind_ne_newline (mem_of_head?_insertSemicolons ht) }

/-- Line ends behind a name, in a comment, behind an operator, between brackets and at the end. -/
def brokenSource : String :=
  "return /* a\n */ // b\n\n) x +\r\n1 /* c */ \x60\n\x60 ++ // d"

theorem brokenSource_semicolons : ∃ lexed, tokenize brokenSource = .ok lexed ∧
    lexed.tokens.map Token.text = ["return", "", ")", "x", "+", "1", "\x60\n\x60", "++", ""] ∧
    SemicolonsInserted brokenSource.toList lexed.tokens := by
  obtain ⟨lexed, hlexed, htexts⟩ : ∃ lexed, tokenize brokenSource = .ok lexed ∧
      lexed.tokens.map Token.text = ["return", "", ")", "x", "+", "1", "\x60\n\x60", "++", ""] :=
    exists_ok_of_map (by decide +kernel)
  exact ⟨lexed, hlexed, htexts, tokenize_semicolons hlexed⟩

end ApiForge.Source
