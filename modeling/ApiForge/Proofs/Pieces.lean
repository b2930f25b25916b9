import ApiForge.Proofs.Layouts
import ApiForge.Proofs.Outcomes
import ApiForge.Proofs.Spans
import Mathlib

/-! Nothing of a source is lost when it is cut into tokens. The source is made up of the texts of its tokens, its comments
with their delimiters and single blanks; every token and every comment knows where its characters stand, and an operator
goes as far as any operator could. -/

namespace ApiForge.Source

/-! ### Places in a text -/

/-- The line of the character behind `before`; lines count from one. -/
def lineAt (before : List Char) : Nat :=
  before.count '\n' + 1

/-- The column of the character behind `before`; columns count from one. -/
def columnAt (before : List Char) : Nat :=
  (before.rtakeWhile (· != '\n')).length + 1

def placeAt (before : List Char) : Position :=
  ⟨lineAt before, columnAt before⟩

/-- Going through a text step by step leads to the place behind it. -/
theorem advance_start (before : List Char) : Position.start.advance before = placeAt before := by
  induction before using List.reverseRecOn with
  | nil => rfl
  | append_singleton before c ih =>
      have hstep : Position.start.advance (before ++ [c]) = (placeAt before).step c := by
        rw [Position.advance_append, ih]
        rfl
      rw [hstep, Position.step, placeAt, placeAt, lineAt, lineAt, columnAt, columnAt, List.count_append,
        List.rtakeWhile_concat]
      by_cases hc : c = '\n'
      · rw [if_pos hc, hc]
        rfl
      · rw [if_neg hc, if_pos (bne_iff_ne.mpr hc), List.length_append, List.count_singleton,
          if_neg (by rwa [beq_iff_eq])]
        rfl

theorem lineAt_concat {before : List Char} {c : Char} (hc : c ≠ '\n') : lineAt (before ++ [c]) = lineAt before := by
  rw [lineAt, lineAt, List.count_append, List.count_singleton, if_neg (by rwa [beq_iff_eq])]

/-! ### The text of a piece -/

namespace Piece

/-- What the piece is in the source. -/
def text : Piece → List Char
  | .token t => t.text.toList
  | .comment c _ => c.source.toList
  | .blank c _ => [c]

def pos : Piece → Position
  | .token t => t.pos
  | .comment _ pos => pos
  | .blank _ pos => pos

end Piece

theorem pos_pieceOf (kind : LexemeKind) (text : List Char) (pos : Position) (used : Bool) :
    (pieceOf kind text pos used).pos = pos := by
  cases kind <;> rfl

theorem pos_of_endsLine {p : Piece} {pos : Position} (h : p.endsLine = some pos) : p.pos = pos := by
  cases p with
  | token t => cases h
  | comment c place =>
      rw [Piece.endsLine] at h
      split_ifs at h
      exact Option.some.inj h
  | blank c place =>
      rw [Piece.endsLine] at h
      split_ifs at h
      exact Option.some.inj h

theorem text_pieceOf {c : Char} {cs tail : List Char} {kind : LexemeKind} (h : lexeme c cs = .ok ⟨kind, tail⟩)
    (pos : Position) (used : Bool) : (pieceOf kind (c :: tail) pos used).text = c :: tail := by
  cases kind with
  | token kind => exact String.toList_ofList
  | blank =>
      rw [tail_of_blank h]
      rfl
  | comment style =>
      cases scanned_of_lexeme h with
      | @lineComment rest hc hcs =>
          subst hc
          have hbody : commentBody .line ('/' :: '/' :: rest.takeWhile (· != '\n')) = rest.takeWhile (· != '\n') := rfl
          simp only [pieceOf, Piece.text, Comment.source, hbody, String.toList_append, String.toList_ofList]
          rfl
      | @blockComment rest body hc hcs hbody =>
          subst hc
          have hlength : ('/' :: ('*' :: body ++ ['*', '/'])).length - 4 = body.length := by simp
          have hbody : commentBody .block ('/' :: ('*' :: body ++ ['*', '/'])) = body := by
            rw [commentBody, hlength]
            exact List.take_left
          simp only [pieceOf, Piece.text, Comment.source, hbody, String.toList_append, String.toList_ofList]
          rfl

/-- The pieces of a source are all of it. -/
theorem Cut.text_eq {pos : Position} {used : Bool} {cs : List Char} {ps : List Piece} (h : Cut pos used cs ps) :
    ps.flatMap Piece.text = cs := by
  induction h with
  | nil => rfl
  | cons hlexeme hrest ih => rw [List.flatMap_cons, text_pieceOf hlexeme, ih, List.cons_append, tail_append_drop hlexeme]

/-! ### The longest operator -/

/-- The text is an operator, and no longer one begins where it begins when `behind` comes next. -/
def LongestOperator (text behind : List Char) : Prop :=
  String.ofList text ∈ operators ∧ ∀ op ∈ operators, op.toList <+: text ++ behind → op.toList.length ≤ text.length

theorem longestOperator_of_lexeme {c : Char} {cs tail : List Char}
    (h : operatorLexeme c cs = .ok ⟨.token .operator, tail⟩) :
    LongestOperator (c :: tail) (cs.drop tail.length) := by
  have htext : c :: tail ++ cs.drop tail.length = c :: cs := by
    rw [List.cons_append, ← List.prefix_append_drop (operatorLexeme_isPrefix h)]
  -- An operator that the source begins with is one of those that are looked for.
  have hfront {op : String} (hinitial : op.toList <+: c :: cs) {n : Nat} (hn : op.toList.length = n + 1) :
      op = String.ofList (c :: cs.take n) := by
    rw [← String.ofList_toList (s := op), List.prefix_iff_eq_take.mp hinitial, hn, List.take_succ_cons]
  have hlengths : ∀ op ∈ operators, op.toList.length = 1 ∨ op.toList.length = 2 ∧ op ∈ doubleOperators ∨
      op.toList.length = 3 ∧ op ∈ tripleOperators := fun op hop => (operator_chars hop).2.1
  have htriples : ∀ op ∈ tripleOperators, op ∈ operators ∧ op.toList.length = 3 := by decide
  have hdoubles : ∀ op ∈ doubleOperators, op ∈ operators ∧ op.toList.length = 2 := by decide
  rw [LongestOperator, htext]
  unfold operatorLexeme at h
  split_ifs at h with htriple hdouble hsingle
  · cases h
    obtain ⟨hop, hlength⟩ := htriples _ (List.contains_iff_mem.mp htriple)
    rw [String.toList_ofList] at hlength
    refine ⟨hop, fun op hop hinitial => ?_⟩
    rw [hlength]
    rcases hlengths op hop with hlength | ⟨hlength, -⟩ | ⟨hlength, -⟩ <;> omega
  · cases h
    obtain ⟨hop, hlength⟩ := hdoubles _ (List.contains_iff_mem.mp hdouble)
    rw [String.toList_ofList] at hlength
    refine ⟨hop, fun op hop hinitial => ?_⟩
    rw [hlength]
    rcases hlengths op hop with hlength | ⟨hlength, -⟩ | ⟨hlength, hmem⟩
    · omega
    · omega
    · rw [hfront hinitial hlength] at hmem
      exact absurd (List.contains_iff_mem.mpr hmem) htriple
  · cases h
    have hop : String.singleton c ∈ operators :=
      List.mem_append_right _ (List.mem_map_of_mem (List.contains_iff_mem.mp hsingle))
    rw [String.singleton_eq_ofList] at hop
    refine ⟨hop, fun op hop hinitial => ?_⟩
    rcases hlengths op hop with hlength | ⟨hlength, hmem⟩ | ⟨hlength, hmem⟩
    · exact hlength.le
    · rw [hfront hinitial hlength] at hmem
      exact absurd (List.contains_iff_mem.mpr hmem) hdouble
    · rw [hfront hinitial hlength] at hmem
      exact absurd (List.contains_iff_mem.mpr hmem) htriple

/-! ### How pieces stand in a source -/

/-- The piece is right about its place between `before` and `behind`. A comment covers the lines from its first to its
last character. -/
def Piece.Stands (before behind : List Char) : Piece → Prop
  | .token t => t.pos = placeAt before ∧ (t.kind = .operator → LongestOperator t.text.toList behind)
  | .comment c _ => c.line = lineAt before ∧ c.endLine = lineAt (before ++ c.source.toList.dropLast)
  | .blank c _ => c ∈ [' ', '\t', '\r', '\n', '\uFEFF']

/-- A comment does not end with the end of a line. -/
theorem last_of_comment {c : Char} {cs tail : List Char} {style : CommentStyle}
    (h : lexeme c cs = .ok ⟨.comment style, tail⟩) : ∃ front last, c :: tail = front ++ [last] ∧ last ≠ '\n' := by
  cases scanned_of_lexeme h with
  | @lineComment rest hc hcs =>
      refine ⟨_, _, (List.dropLast_append_getLast (List.cons_ne_nil _ _)).symm, fun hlast => ?_⟩
      have hmem := List.getLast_mem (List.cons_ne_nil c ('/' :: rest.takeWhile (· != '\n')))
      rw [hlast, hc, List.mem_cons, List.mem_cons] at hmem
      rcases hmem with h | h | h
      · cases h
      · cases h
      · cases List.mem_takeWhile_imp h
  | @blockComment rest body hc hcs hbody =>
      refine ⟨c :: '*' :: body ++ ['*'], '/', ?_, by decide⟩
      rw [List.append_assoc]
      rfl

theorem stands_pieceOf {c : Char} {cs tail before : List Char} {kind : LexemeKind} {pos : Position}
    (h : lexeme c cs = .ok ⟨kind, tail⟩) (hpos : pos = placeAt before) (used : Bool) :
    (pieceOf kind (c :: tail) pos used).Stands before (cs.drop tail.length) := by
  have htext := text_pieceOf h pos used
  cases kind with
  | token kind =>
      refine ⟨hpos, fun hkind => ?_⟩
      obtain rfl : kind = .operator := hkind
      rw [String.toList_ofList]
      cases scanned_of_lexeme h with
      | word hkind =>
          rcases hkind with hkind | hkind
          · cases hkind
          · cases hkind
      | operator hoperator => exact longestOperator_of_lexeme hoperator
  | blank =>
      cases scanned_of_lexeme h with
      | blank hc => simpa [isBlankChar, pieceOf, Piece.Stands, or_assoc] using hc
  | comment style =>
      obtain ⟨front, last, hlast, hline⟩ := last_of_comment h
      refine ⟨congrArg Position.line hpos, ?_⟩
      have hsource : (pieceOf (.comment style) (c :: tail) pos used).text.dropLast = front := by
        rw [htext, hlast, List.dropLast_concat]
      have hend : (pos.advance (c :: tail)).line = lineAt (before ++ front) := by
        rw [hpos, ← advance_start, ← Position.advance_append, advance_start, hlast, ← List.append_assoc]
        exact lineAt_concat hline
      exact hend.trans (congrArg (fun text => lineAt (before ++ text)) hsource.symm)

theorem Cut.stands {pos : Position} {used : Bool} {cs before : List Char} {ps : List Piece} (h : Cut pos used cs ps)
    (hpos : pos = placeAt before) {front back : List Piece} {p : Piece} (hps : ps = front ++ p :: back) :
    p.Stands (before ++ front.flatMap Piece.text) (back.flatMap Piece.text) ∧
      p.pos = placeAt (before ++ front.flatMap Piece.text) := by
  induction h generalizing front before with
  | nil => exact absurd hps.symm (List.append_ne_nil_of_right_ne_nil _ (List.cons_ne_nil _ _))
  | @cons pos used kind c cs tail ps hlexeme hrest ih =>
      cases front with
      | nil =>
          obtain ⟨rfl, rfl⟩ := List.cons_eq_cons.mp hps
          rw [List.flatMap_nil, List.append_nil, hrest.text_eq, pos_pieceOf]
          exact ⟨stands_pieceOf hlexeme hpos used, hpos⟩
      | cons first front =>
          obtain ⟨rfl, rfl⟩ := List.cons_eq_cons.mp hps
          have hnext : pos.advance (c :: tail) = placeAt (before ++ (c :: tail)) := by
            rw [hpos, ← advance_start, ← Position.advance_append, advance_start]
          rw [List.flatMap_cons, text_pieceOf hlexeme, ← List.append_assoc]
          exact ih hnext rfl

/-! ### The tokens among the pieces -/

/-- Semicolons apart that stand for line ends, the tokens are those among the pieces. -/
theorem filter_insertSemicolons {stop : Position} {last : Option Token} {ps : List Piece}
    (hps : ∀ t, .token t ∈ ps → t.kind ≠ .newline) :
    (insertSemicolons stop last ps).filter (fun t => t.kind != .newline) = ps.filterMap Piece.token? := by
  induction ps generalizing last with
  | nil =>
      rw [insertSemicolons]
      split_ifs <;> rfl
  | cons p ps ih =>
      have hrest : ∀ t, .token t ∈ ps → t.kind ≠ .newline := fun t ht => hps t (List.mem_cons_of_mem _ ht)
      have hother (hp : ∀ t, p ≠ .token t) :
          (insertSemicolons stop last (p :: ps)).filter (fun t => t.kind != .newline) = ps.filterMap Piece.token? := by
        rw [insertSemicolons.eq_3 _ _ _ _ hp]
        split
        · exact ih hrest
        · split_ifs
          · rw [List.filter_cons_of_neg (by simp [newlineAt])]
            exact ih hrest
          · exact ih hrest
      cases p with
      | token t =>
          have ht : (t.kind != .newline) = true := bne_iff_ne.mpr (hps t List.mem_cons_self)
          rw [insertSemicolons, List.filter_cons, if_pos ht, ih hrest]
          rfl
      | comment c pos => rw [hother (by rintro t ⟨⟩), List.filterMap_cons_none rfl]
      | blank c pos => rw [hother (by rintro t ⟨⟩), List.filterMap_cons_none rfl]

theorem kind_of_lexeme {c : Char} {cs tail : List Char} {kind : TokenKind} (h : lexeme c cs = .ok ⟨.token kind, tail⟩) :
    kind ≠ .newline := by
  cases scanned_of_lexeme h with
  | word hkind =>
      rcases hkind with rfl | rfl
      · rintro ⟨⟩
      · rintro ⟨⟩
  | _ => rintro ⟨⟩

theorem Cut.kind_ne_newline {pos : Position} {used : Bool} {cs : List Char} {ps : List Piece} (h : Cut pos used cs ps)
    {t : Token} (ht : .token t ∈ ps) : t.kind ≠ .newline := by
  induction h with
  | nil => cases ht
  | @cons pos used kind c cs tail ps hlexeme hrest ih =>
      rcases List.mem_cons.mp ht with hpiece | ht
      · cases kind with
        | token kind =>
            cases hpiece
            exact kind_of_lexeme hlexeme
        | blank => cases hpiece
        | comment style => cases hpiece
      · exact ih ht

/-! ### Nothing is lost -/

/-- The source is made up of the pieces, and the tokens and comments are those among them. -/
structure MadeOf (source : List Char) (lexed : Lexed) (ps : List Piece) : Prop where
  source_eq : ps.flatMap Piece.text = source
  tokens_eq : lexed.tokens.filter (fun t => t.kind != .newline) = ps.filterMap Piece.token?
  comments_eq : lexed.comments = ps.filterMap Piece.comment?
  stands : ∀ front p back, ps = front ++ p :: back →
    p.Stands (front.flatMap Piece.text) (back.flatMap Piece.text)
  /-- A semicolon that is not written stands in front of a line end or a comment with one, or at the end. -/
  newline : ∀ t ∈ lexed.tokens, t.kind = .newline → ∃ front back, ps = front ++ back ∧
    t.pos = placeAt (front.flatMap Piece.text) ∧ ∀ p ∈ back.head?, '\n' ∈ p.text

theorem lineEnd_of_endsLine {p : Piece} {before behind : List Char} (h : p.Stands before behind) {pos : Position}
    (hends : p.endsLine = some pos) : '\n' ∈ p.text := by
  cases p with
  | token t => cases hends
  | blank c place =>
      rw [Piece.endsLine] at hends
      split_ifs at hends with hc
      exact List.mem_singleton.mpr hc.symm
  | comment c place =>
      rw [Piece.endsLine] at hends
      split_ifs at hends with hlines
      by_contra hnone
      have hfront : '\n' ∉ c.source.toList.dropLast := fun hmem => hnone (List.dropLast_subset _ hmem)
      obtain ⟨hline, hend⟩ := h
      rw [hline, hend, lineAt, lineAt, List.count_append, List.count_eq_zero.mpr hfront] at hlines
      omega

/-- A source that can be cut into tokens is, in order, the texts of its written tokens, its comments with their delimiters
and single blanks. Tokens and comments know their places, and an operator is the longest that begins where it does. -/
theorem tokenize_lossless {source : String} {lexed : Lexed} (h : tokenize source = .ok lexed) :
    ∃ ps, MadeOf source.toList lexed ps := by
  obtain ⟨ps, hps, rfl⟩ := of_map h
  have hcut := cut_of_pieces hps
  have hkinds : ∀ t, .token t ∈ ps → t.kind ≠ .newline := fun t ht => hcut.kind_ne_newline ht
  have hstart : Position.start = placeAt [] := rfl
  have hstands := fun {front back : List Piece} {p : Piece} (hsplit : ps = front ++ p :: back) =>
    hcut.stands hstart hsplit
  refine ⟨ps, hcut.text_eq, filter_insertSemicolons hkinds, rfl, fun front p back hsplit => (hstands hsplit).1, ?_⟩
  intro t ht hkind
  obtain ⟨-, hplace⟩ := (mem_insertSemicolons ht).resolve_left fun hmem => hkinds t hmem hkind
  rcases hplace with hstop | ⟨front, p, back, rfl, hends⟩
  · refine ⟨ps, [], (List.append_nil _).symm, ?_, by rintro p ⟨⟩⟩
    rw [hstop, hcut.text_eq]
    exact advance_start _
  · obtain ⟨hstand, hpos⟩ := hstands rfl
    refine ⟨front, p :: back, rfl, pos_of_endsLine hends ▸ hpos, ?_⟩
    rintro p' ⟨⟩
    exact lineEnd_of_endsLine hstand hends

/-- A comment over two lines, a raw string with a line end in it and operators that begin alike. -/
def crowdedSource : String :=
  "package v0 /* a\n */ // b\n\nvar x, y = \x60\n\x60, 1<<2&^3 <= 'c'\n"

theorem crowdedSource_lossless : ∃ lexed, tokenize crowdedSource = .ok lexed ∧
    lexed.tokens.map Token.text =
      ["package", "v0", "", "var", "x", ",", "y", "=", "\x60\n\x60", ",", "1", "<<", "2", "&^", "3", "<=", "'c'", ""] ∧
    ∃ ps, MadeOf crowdedSource.toList lexed ps := by
  obtain ⟨lexed, hlexed, htexts⟩ : ∃ lexed, tokenize crowdedSource = .ok lexed ∧ lexed.tokens.map Token.text =
      ["package", "v0", "", "var", "x", ",", "y", "=", "\x60\n\x60", ",", "1", "<<", "2", "&^", "3", "<=", "'c'", ""] :=
    exists_ok_of_map (by decide +kernel)
  exact ⟨lexed, hlexed, htexts, tokenize_lossless hlexed⟩

end ApiForge.Source
