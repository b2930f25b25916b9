import ApiForge.Proofs.Marks
import ApiForge.Source.Declaration
import Mathlib

/-! Reading a source line by line. Where a lexeme ends can depend on what comes behind it, but what a line is read as
does not depend on the next line, so the tokens and the comments of a source are put together from those of its
lines. -/

namespace ApiForge.Source

/-! ### Single lexemes -/

/-- A letter or underscore with letters, numbers and underscores behind it. -/
def isWord (text : String) : Bool :=
  match text.toList with
  | [] => false
  | c :: cs => isIdentifierStart c && cs.all isIdentifierPart

/-- A word that a source can take for a name. -/
def isIdentifier (name : String) : Bool :=
  isWord name && !keywords.contains name

theorem chars_of_isWord {text : String} (h : isWord text = true) : ∃ c cs, text.toList = c :: cs ∧
    isIdentifierStart c = true ∧ ∀ d ∈ cs, isIdentifierPart d = true := by
  unfold isWord at h
  split at h
  · cases h
  · rename_i c cs hchars
    rw [Bool.and_eq_true, List.all_eq_true] at h
    exact ⟨c, cs, hchars, h⟩

theorem isWord_of_isIdentifier {name : String} (h : isIdentifier name = true) : isWord name = true :=
  (Bool.and_eq_true_iff.mp h).1

theorem isWord_of_mem_keywords {text : String} (h : text ∈ keywords) : isWord text = true := by
  have hall : ∀ text ∈ keywords, isWord text = true := by decide
  exact hall text h

/-- Here a word ends, however many characters it has. -/
def EndsWord (rest : List Char) : Prop :=
  ∀ c ∈ rest.head?, isIdentifierPart c = false

/-- Here a line ends, or the source. -/
def EndsLine (rest : List Char) : Prop :=
  ∀ c ∈ rest.head?, c = '\n'

theorem EndsLine.endsWord {rest : List Char} (h : EndsLine rest) : EndsWord rest := by
  intro c hc
  rw [h c hc]
  decide

theorem endsLine_nil : EndsLine [] :=
  fun _ h => by cases h

theorem endsLine_cons (cs : List Char) : EndsLine ('\n' :: cs) := by
  intro c hc
  exact (Option.mem_some.mp hc).symm

theorem takeWhile_append_of_head {p : Char → Bool} {cs rest : List Char} (hcs : ∀ c ∈ cs, p c = true)
    (hrest : ∀ c ∈ rest.head?, p c = false) : (cs ++ rest).takeWhile p = cs := by
  rw [List.takeWhile_append_of_pos hcs]
  cases rest with
  | nil => rw [List.takeWhile_nil, List.append_nil]
  | cons c rest => rw [List.takeWhile_cons_of_neg (Bool.not_eq_true _ ▸ hrest c rfl), List.append_nil]

theorem lexeme_word {c : Char} {tail rest : List Char} (hc : isIdentifierStart c = true)
    (htail : ∀ d ∈ tail, isIdentifierPart d = true) (hrest : EndsWord rest) :
    lexeme c (tail ++ rest) =
      .ok ⟨.token (if keywords.contains (String.ofList (c :: tail)) then .keyword else .identifier), tail⟩ := by
  -- No character that starts another kind of lexeme starts a word.
  have hother : ∀ d ∈ [' ', '\t', '\r', '\n', '\uFEFF', '/', '"', '\x60', '\'', ';'], c ≠ d := by
    have hnone : ∀ d ∈ [' ', '\t', '\r', '\n', '\uFEFF', '/', '"', '\x60', '\'', ';'],
        isIdentifierStart d = false := by
      simp only [List.forall_mem_cons]
      refine ⟨?_, ?_, ?_, ?_, ?_, ?_, ?_, ?_, ?_, ?_, List.forall_mem_nil _⟩ <;> decide +kernel
    rintro d hd rfl
    exact absurd (hc.symm.trans (hnone c hd)) (by decide)
  have hblank : isBlankChar c = false := by
    simp only [List.forall_mem_cons] at hother
    simp [isBlankChar, hother]
  have hword : (tail ++ rest).takeWhile isIdentifierPart = tail := takeWhile_append_of_head htail hrest
  simp only [List.forall_mem_cons] at hother
  simp only [lexeme, hblank, hother, hc, wordLexeme, hword, false_and, Bool.false_eq_true, if_false, if_true]

theorem lexeme_blank {c : Char} (h : isBlankChar c = true) (cs : List Char) : lexeme c cs = .ok ⟨.blank, []⟩ :=
  if_pos h

theorem rawBody?_append {body : List Char} (h : '\x60' ∉ body) (rest : List Char) :
    rawBody? (body ++ '\x60' :: rest) = some body := by
  induction body with
  | nil => rfl
  | cons c body ih =>
      rw [List.mem_cons, not_or] at h
      rw [List.cons_append, rawBody?, ih h.2, Option.map_some]
      exact fun heq => h.1 heq.symm

theorem lexeme_rawString {body : List Char} (h : '\x60' ∉ body) (rest : List Char) :
    lexeme '\x60' (body ++ '\x60' :: rest) =
      .ok ⟨.token (.string (String.ofList (body.filter (· != '\r')))), body ++ ['\x60']⟩ := by
  have hlexeme : ∀ cs, lexeme '\x60' cs = rawStringLexeme cs := fun cs => rfl
  rw [hlexeme, rawStringLexeme, rawBody?_append h]

theorem lexeme_lineComment {body rest : List Char} (h : '\n' ∉ body) (hrest : EndsLine rest) :
    lexeme '/' ('/' :: (body ++ rest)) = .ok ⟨.comment .line, '/' :: body⟩ := by
  have hlexeme : ∀ cs, lexeme '/' ('/' :: cs) = .ok (lineCommentLexeme cs) := fun cs => rfl
  have hbody : (body ++ rest).takeWhile (· != '\n') = body := by
    apply takeWhile_append_of_head
    · intro c hc
      exact bne_iff_ne.mpr (ne_of_mem_of_not_mem hc h)
    · intro c hc
      rw [hrest c hc]
      rfl
  rw [hlexeme, lineCommentLexeme, hbody]

/-- No longer operator starts with a brace. -/
theorem lexeme_brace {c : Char} (h : c = '\x7b' ∨ c = '\x7d') (cs : List Char) :
    lexeme c cs = .ok ⟨.token .operator, []⟩ := by
  have hnone (ops : List String) (hops : ∀ op ∈ ops, op.toList.head? ≠ some c) (n : Nat) :
      ops.contains (String.ofList (c :: cs.take n)) = false := by
    rw [List.contains_eq_mem, decide_eq_false_iff_not]
    intro hmem
    exact hops _ hmem (by rw [String.toList_ofList]; rfl)
  have hoperator : lexeme c cs = operatorLexeme c cs := by
    rcases h with rfl | rfl <;> rfl
  rw [hoperator, operatorLexeme, hnone tripleOperators (by rcases h with rfl | rfl <;> decide),
    hnone doubleOperators (by rcases h with rfl | rfl <;> decide)]
  rcases h with rfl | rfl <;> rfl

/-! ### Lexemes in a row -/

/-- A lexeme with its text. -/
abbrev Lexeme := LexemeKind × String

def charsOf (ls : List Lexeme) : List Char :=
  ls.flatMap fun l => l.2.toList

@[simp] theorem charsOf_nil : charsOf [] = [] :=
  rfl

@[simp] theorem charsOf_cons (l : Lexeme) (ls : List Lexeme) : charsOf (l :: ls) = l.2.toList ++ charsOf ls :=
  rfl

/-- The lexemes are read one after the other when `rest` comes behind them. -/
def Reads : List Lexeme → List Char → Prop
  | [], _ => True
  | (kind, text) :: ls, rest =>
    (∃ c tail, text.toList = c :: tail ∧ lexeme c (tail ++ (charsOf ls ++ rest)) = .ok ⟨kind, tail⟩) ∧ Reads ls rest

/-- The pieces that the lexemes are from `pos` on. -/
def laid (pos : Position) (lineUsed : Bool) : List Lexeme → List Piece
  | [] => []
  | (kind, text) :: ls =>
    pieceOf kind text.toList pos lineUsed ::
      laid (pos.advance text.toList) (lineUsedAfter kind text.toList lineUsed) ls

/-- The tokens among the lexemes from `pos` on. -/
def tokensAt (pos : Position) : List Lexeme → List Token
  | [] => []
  | (.token kind, text) :: ls => ⟨kind, text, pos⟩ :: tokensAt (pos.advance text.toList) ls
  | (_, text) :: ls => tokensAt (pos.advance text.toList) ls

theorem Position.advance_append (pos : Position) (front back : List Char) :
    pos.advance (front ++ back) = (pos.advance front).advance back :=
  List.foldl_append

/-- Without line ends the place stays on its line. -/
theorem Position.line_advance {pos : Position} {text : List Char} (h : '\n' ∉ text) :
    (pos.advance text).line = pos.line := by
  induction text generalizing pos with
  | nil => rfl
  | cons c text ih =>
      rw [List.mem_cons, not_or] at h
      have hstep : pos.step c = ⟨pos.line, pos.column + 1⟩ := if_neg fun heq => h.1 heq.symm
      exact (ih h.2).trans (by rw [hstep])

theorem pieces_append {ls : List Lexeme} {rest : List Char} (h : Reads ls rest) (pos : Position) (used : Bool) :
    ∃ used', pieces pos used (charsOf ls ++ rest) =
      (pieces (pos.advance (charsOf ls)) used' rest).map (laid pos used ls ++ ·) := by
  induction ls generalizing pos used with
  | nil =>
      refine ⟨used, ?_⟩
      have hpos : pos.advance [] = pos := rfl
      rw [charsOf_nil, List.nil_append, hpos]
      cases pieces pos used rest <;> rfl
  | cons l ls ih =>
      obtain ⟨kind, text⟩ := l
      obtain ⟨⟨c, tail, htext, hlexeme⟩, hrest⟩ := h
      obtain ⟨used', hpieces⟩ := ih hrest (pos.advance text.toList) (lineUsedAfter kind text.toList used)
      refine ⟨used', ?_⟩
      rw [charsOf_cons, List.append_assoc, htext, List.cons_append, pieces, hlexeme]
      dsimp only
      rw [List.drop_left, ← htext, hpieces, Position.advance_append, laid]
      cases pieces ((pos.advance text.toList).advance (charsOf ls)) used' rest <;> rfl

theorem not_mem_of_mem {ls : List Lexeme} (h : '\n' ∉ charsOf ls) {l : Lexeme} (hl : l ∈ ls) : '\n' ∉ l.2.toList :=
  fun hmem => h (List.mem_flatMap.mpr ⟨l, hl, hmem⟩)

/-- A piece without a line end that is no token asks for no semicolon. -/
theorem endsLine_pieceOf {kind : LexemeKind} {text : List Char} (hkind : ∀ token, kind ≠ .token token)
    (htext : '\n' ∉ text) (pos : Position) (used : Bool) : (pieceOf kind text pos used).endsLine = none := by
  cases kind with
  | blank =>
      rw [pieceOf, Piece.endsLine, if_neg]
      cases text with
      | nil => decide
      | cons c text => exact fun hc => htext (List.mem_cons.mpr (Or.inl hc.symm))
  | comment style =>
      rw [pieceOf, Piece.endsLine, if_neg]
      exact Nat.not_lt.mpr (Position.line_advance htext).le
  | token token => exact absurd rfl (hkind token)

/-- Within a line there are no semicolons to insert. -/
theorem insertSemicolons_laid {ls : List Lexeme} (h : '\n' ∉ charsOf ls) (stop pos : Position) (used : Bool)
    (last : Option Token) (more : List Piece) :
    insertSemicolons stop last (laid pos used ls ++ more) =
      tokensAt pos ls ++ insertSemicolons stop ((tokensAt pos ls).getLast?.or last) more := by
  induction ls generalizing pos used last with
  | nil => rfl
  | cons l ls ih =>
      obtain ⟨kind, text⟩ := l
      have htext : '\n' ∉ text.toList := not_mem_of_mem h List.mem_cons_self
      have hrest : '\n' ∉ charsOf ls := fun hmem => h (List.mem_append_right _ hmem)
      have hother (hkind : ∀ token, kind ≠ .token token) :
          insertSemicolons stop last (laid pos used ((kind, text) :: ls) ++ more) =
            insertSemicolons stop last
              (laid (pos.advance text.toList) (lineUsedAfter kind text.toList used) ls ++ more) := by
        have hends := endsLine_pieceOf hkind htext pos used
        rw [laid, List.cons_append]
        cases kind with
        | token token => exact absurd rfl (hkind token)
        | blank => rw [pieceOf] at hends ⊢; rw [insertSemicolons, hends]; rintro token ⟨⟩
        | comment style => rw [pieceOf] at hends ⊢; rw [insertSemicolons, hends]; rintro token ⟨⟩
      cases kind with
      | token token =>
          rw [laid, tokensAt, List.cons_append, pieceOf, insertSemicolons, ih hrest, String.ofList_toList,
            List.cons_append, List.getLast?_cons]
          cases (tokensAt (pos.advance text.toList) ls).getLast? <;> rfl
      | blank => exact (hother (by rintro token ⟨⟩)).trans (ih hrest _ _ _)
      | comment style => exact (hother (by rintro token ⟨⟩)).trans (ih hrest _ _ _)

/-! ### Lines in a row -/

/-- Behind line `n`, wherever it ends, come lines with the tokens `ts` and the comments `comments`, after a semicolon
if line `n` needs one. -/
def Follows (stop : Position) (n : Nat) (lines : List (List Char)) (ts : List Token) (comments : List Comment) : Prop :=
  ∀ column used, ∃ ps, pieces ⟨n, column⟩ used (lines.flatMap ('\n' :: ·)) = .ok ps ∧
    ps.filterMap Piece.comment? = comments ∧
    ∀ last, ∃ pos, insertSemicolons stop last ps =
      (if last.any Token.endsStatement then [newlineAt pos] else []) ++ ts

section Follows

variable {stop : Position} {n : Nat} {lines : List (List Char)} {ts : List Token} {comments : List Comment}

theorem follows_nil : Follows stop n [] [] [] := by
  intro column used
  refine ⟨[], by rw [List.flatMap_nil, pieces], rfl, fun last => ⟨stop, ?_⟩⟩
  rw [insertSemicolons, List.append_nil]

theorem endsLine_flatMap (lines : List (List Char)) : EndsLine (lines.flatMap ('\n' :: ·)) := by
  cases lines with
  | nil => exact endsLine_nil
  | cons line lines => exact endsLine_cons _

/-- One more line in front: its tokens, a semicolon if it needs one, and its comments. -/
theorem Follows.cons (h : Follows stop (n + 1) lines ts comments) (ls : List Lexeme)
    (hreads : ∀ rest, EndsLine rest → Reads ls rest) (hline : '\n' ∉ charsOf ls) :
    ∃ pos, Follows stop n (charsOf ls :: lines)
      (tokensAt ⟨n + 1, 1⟩ ls ++ ((if (tokensAt ⟨n + 1, 1⟩ ls).getLast?.any Token.endsStatement then [newlineAt pos]
        else []) ++ ts))
      ((laid ⟨n + 1, 1⟩ false ls).filterMap Piece.comment? ++ comments) := by
  obtain ⟨used', hpieces⟩ := pieces_append (hreads _ (endsLine_flatMap lines)) ⟨n + 1, 1⟩ false
  -- The line ends on line `n + 1`, wherever that is.
  obtain ⟨column', hend⟩ : ∃ column', Position.advance ⟨n + 1, 1⟩ (charsOf ls) = ⟨n + 1, column'⟩ := by
    have hadvance : (Position.advance ⟨n + 1, 1⟩ (charsOf ls)).line = n + 1 := Position.line_advance hline
    generalize Position.advance ⟨n + 1, 1⟩ (charsOf ls) = pos at hadvance
    exact ⟨pos.column, by rw [← hadvance]⟩
  obtain ⟨ps, hps, hcomments, hsemicolons⟩ := h column' used'
  obtain ⟨pos, hpos⟩ := hsemicolons (tokensAt ⟨n + 1, 1⟩ ls).getLast?
  refine ⟨pos, fun column used => ?_⟩
  refine ⟨.blank '\n' ⟨n, column⟩ :: (laid ⟨n + 1, 1⟩ false ls ++ ps), ?_, ?_, fun last => ⟨⟨n, column⟩, ?_⟩⟩
  · rw [List.flatMap_cons, List.cons_append, pieces, lexeme_blank (by decide)]
    have hstep : Position.advance ⟨n, column⟩ ['\n'] = ⟨n + 1, 1⟩ := rfl
    have hused : lineUsedAfter .blank ['\n'] used = false := rfl
    simp only [List.length_nil, List.drop_zero, hstep, hused, hpieces, hend, hps]
    rfl
  · rw [List.filterMap_cons_none rfl, List.filterMap_append, hcomments]
  · have hrest {last : Option Token} (hlast : last.any Token.endsStatement = false) :
        insertSemicolons stop last (laid ⟨n + 1, 1⟩ false ls ++ ps) =
          tokensAt ⟨n + 1, 1⟩ ls ++ ((if (tokensAt ⟨n + 1, 1⟩ ls).getLast?.any Token.endsStatement then [newlineAt pos]
            else []) ++ ts) := by
      rw [insertSemicolons_laid hline]
      cases htokens : (tokensAt ⟨n + 1, 1⟩ ls).getLast? with
      | none =>
          obtain ⟨pos', hpos'⟩ := hsemicolons last
          rw [Option.none_or, hpos', hlast]
          rfl
      | some t =>
          rw [Option.some_or, ← htokens, hpos]
    rw [insertSemicolons, Piece.endsLine, if_pos rfl]
    · dsimp only
      by_cases hlast : last.any Token.endsStatement = true
      · rw [if_pos hlast, if_pos hlast, hrest rfl]
        rfl
      · rw [if_neg hlast, if_neg hlast, hrest (Bool.eq_false_iff.mpr hlast)]
        rfl
    · rintro token ⟨⟩

theorem Follows.blank (h : Follows stop (n + 1) lines ts comments) : Follows stop n ([] :: lines) ts comments := by
  obtain ⟨pos, hfollows⟩ := h.cons [] (fun _ _ => trivial) List.not_mem_nil
  exact hfollows

/-- A line with nothing but a comment, which may be indented. -/
theorem Follows.comment (h : Follows stop (n + 1) lines ts comments) (indented : Bool) {body : String}
    (hbody : '\n' ∉ body.toList) :
    Follows stop n (((if indented then ['\t'] else []) ++ '/' :: '/' :: body.toList) :: lines) ts
      (⟨.line, body, n + 1, n + 1, true⟩ :: comments) := by
  have htext : ("//" ++ body).toList = '/' :: '/' :: body.toList := String.toList_append
  have hreads : ∀ rest, EndsLine rest → Reads [(.comment .line, "//" ++ body)] rest :=
    fun rest hrest => ⟨⟨'/', '/' :: body.toList, htext, lexeme_lineComment hbody hrest⟩, trivial⟩
  have hline : '\n' ∉ charsOf [(.comment .line, "//" ++ body)] := by
    simp [hbody]
  have hend (column : Nat) : (Position.advance ⟨n + 1, column⟩ ('/' :: '/' :: body.toList)).line = n + 1 :=
    Position.line_advance (by simp [hbody])
  cases indented with
  | false =>
      obtain ⟨pos, hfollows⟩ := h.cons _ hreads hline
      simpa [tokensAt, laid, pieceOf, Piece.comment?, commentBody, htext, hend] using hfollows
  | true =>
      obtain ⟨pos, hfollows⟩ := h.cons [(.blank, "\t"), (.comment .line, "//" ++ body)]
        (fun rest hrest => ⟨⟨'\t', [], rfl, lexeme_blank (by decide) _⟩, hreads rest hrest⟩) (by simpa using hline)
      have htab : Position.advance ⟨n + 1, 1⟩ ['\t'] = ⟨n + 1, 2⟩ := rfl
      simpa [tokensAt, laid, pieceOf, List.filterMap_cons, Piece.comment?, commentBody, htext, htab, hend,
        lineUsedAfter] using hfollows

/-- A source is its lines, the first of them behind a line that is not there. -/
theorem tokenize_of_follows {text : String} {line : List Char}
    (htext : text.toList = ['\n'].intercalate (line :: lines))
    (h : Follows (Position.start.advance text.toList) 0 (line :: lines) ts comments) :
    tokenize text = .ok ⟨ts, comments, Position.start.advance text.toList⟩ := by
  have hlines : ['\n'].intercalate (line :: lines) = line ++ lines.flatMap ('\n' :: ·) := by
    clear htext h
    induction lines generalizing line with
    | nil => rw [List.intercalate_singleton, List.flatMap_nil, List.append_nil]
    | cons next lines ih =>
        rw [List.intercalate_cons_cons, ih, List.flatMap_cons, List.append_assoc, List.singleton_append,
          List.cons_append]
  obtain ⟨ps, hps, hcomments, hsemicolons⟩ := h 1 false
  rw [List.flatMap_cons, List.cons_append, ← hlines, ← htext, pieces, lexeme_blank (by decide)] at hps
  have hstart : Position.advance ⟨0, 1⟩ ['\n'] = Position.start := rfl
  have hused : lineUsedAfter .blank ['\n'] false = false := rfl
  simp only [List.length_nil, List.drop_zero, hstart, hused] at hps
  cases hpieces : pieces .start false text.toList with
  | error e =>
      rw [hpieces] at hps
      cases hps
  | ok ps' =>
      rw [hpieces] at hps
      cases hps
      obtain ⟨pos, htokens⟩ := hsemicolons none
      have hskip : insertSemicolons (Position.start.advance text.toList) none
          (pieceOf .blank ['\n'] ⟨0, 1⟩ false :: ps') =
          insertSemicolons (Position.start.advance text.toList) none ps' := rfl
      rw [hskip] at htokens
      rw [tokenize, hpieces]
      simp only [Except.map, htokens]
      rw [← hcomments]
      rfl

end Follows

end ApiForge.Source
