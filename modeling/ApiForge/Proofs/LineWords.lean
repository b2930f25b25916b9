import ApiForge.Proofs.LineEnds
import ApiForge.Proofs.StructLines
import Mathlib

/-! Sources of lines that can be read one by one: the words of the source are those of its lines, each with the semicolon
that its end asks for. So what names are taken from in a source can be read off its lines too. -/

namespace ApiForge.Source

/-! ### One line -/

/-- The words among the lexemes. -/
def wordsOf (ls : List Lexeme) : List Word :=
  ls.filterMap fun l =>
    match l.1 with
    | .token kind => some ⟨kind, l.2⟩
    | _ => none

/-- The words with the semicolon that a line end behind them asks for. -/
def ended (ws : List Word) : List Word :=
  ws ++ if ws.getLast?.any Word.endsStatement then [⟨.newline, ""⟩] else []

/-- A line that is read as the words when it stands alone. -/
structure ReadsAs (line : List Char) (ws : List Word) : Prop where
  read : ∃ ls, charsOf ls = line ∧ Reads ls [] ∧ wordsOf ls = ws
  lineless : '\n' ∉ line

theorem map_word_tokensAt (pos : Position) (ls : List Lexeme) : (tokensAt pos ls).map Token.word = wordsOf ls := by
  induction ls generalizing pos with
  | nil => rfl
  | cons l ls ih =>
      obtain ⟨kind, text⟩ := l
      cases kind with
      | token kind =>
          rw [tokensAt, List.map_cons, ih]
          rfl
      | blank => exact ih _
      | comment style => exact ih _

theorem map_word_ends (last : Option Token) (stop : Position) :
    (insertSemicolons stop last []).map Token.word =
      if (last.map Token.word).any Word.endsStatement then [⟨.newline, ""⟩] else [] := by
  have hends : last.any Token.endsStatement = (last.map Token.word).any Word.endsStatement := by
    cases last <;> rfl
  rw [insertSemicolons, hends]
  split_ifs <;> rfl

/-- A tab in front of a line makes no difference. -/
theorem ReadsAs.tab {line : List Char} {ws : List Word} (h : ReadsAs line ws) : ReadsAs ('\t' :: line) ws := by
  obtain ⟨⟨ls, rfl, hreads, rfl⟩, hline⟩ := h
  exact ⟨⟨(.blank, "\t") :: ls, rfl, Reads.blank rfl (by decide) hreads, rfl⟩,
    fun hmem => hline (List.mem_of_ne_of_mem (by decide) hmem)⟩

theorem ReadsAs.tabs {line : List Char} {ws : List Word} (h : ReadsAs line ws) (n : Nat) :
    ReadsAs (List.replicate n '\t' ++ line) ws := by
  induction n with
  | zero => exact h
  | succ n ih => exact ih.tab

/-- The pieces of a line, wherever it stands. -/
theorem ReadsAs.pieces_eq {line : List Char} {ws : List Word} (h : ReadsAs line ws) (pos : Position) (used : Bool) :
    ∃ ps, pieces pos used line = .ok ps ∧
      ∀ stop, (insertSemicolons stop none ps).map Token.word = ended ws := by
  obtain ⟨⟨ls, rfl, hreads, rfl⟩, hline⟩ := h
  obtain ⟨used', hpieces⟩ := pieces_append hreads pos used
  rw [List.append_nil] at hpieces
  have hend : pieces (pos.advance (charsOf ls)) used' [] = .ok [] := by
    rw [pieces]
  rw [hend] at hpieces
  refine ⟨laid pos used ls ++ [], hpieces, fun stop => ?_⟩
  rw [insertSemicolons_laid hline, List.map_append, map_word_tokensAt, map_word_ends, Option.or_none,
    ← List.getLast?_map, map_word_tokensAt]
  rfl

/-! ### All lines -/

theorem pieces_lines {line : List Char} {lines : List (List Char)} {words : List (List Word)}
    (h : List.Forall₂ ReadsAs (line :: lines) words) (pos : Position) (used : Bool) :
    ∃ ps, pieces pos used (['\n'].intercalate (line :: lines)) = .ok ps ∧
      ∀ stop, (insertSemicolons stop none ps).map Token.word = words.flatMap ended := by
  induction lines generalizing line words pos used with
  | nil =>
      obtain _ | ⟨hline, hnil⟩ := h
      obtain _ | _ := hnil
      obtain ⟨ps, hps, htokens⟩ := hline.pieces_eq pos used
      exact ⟨ps, by rw [List.intercalate_singleton, hps], fun stop => by rw [htokens, List.flatMap_singleton]⟩
  | cons next lines ih =>
      obtain _ | @⟨_, ws, _, words, hline, hlines⟩ := h
      obtain ⟨front, hfront, hfirst⟩ := hline.pieces_eq pos used
      obtain ⟨back, hback, hrest⟩ := ih hlines (pos.advance line).nextLine false
      refine ⟨front ++ .blank '\n' (pos.advance line) :: back, ?_, fun stop => ?_⟩
      · rw [List.intercalate_cons_cons, List.append_assoc, List.singleton_append,
          pieces_lineEnd (cut_of_pieces hfront), hback]
        rfl
      · rw [insertSemicolons_lineEnd, List.map_append, hfirst, hrest, List.flatMap_cons]

/-- A source is read as its lines are. -/
theorem tokenize_lines {text : String} {line : List Char} {lines : List (List Char)} {words : List (List Word)}
    (htext : text.toList = ['\n'].intercalate (line :: lines)) (h : List.Forall₂ ReadsAs (line :: lines) words) :
    ∃ lexed, tokenize text = .ok lexed ∧ lexed.tokens.map Token.word = words.flatMap ended := by
  obtain ⟨ps, hps, htokens⟩ := pieces_lines h .start false
  rw [← htext] at hps
  refine ⟨_, by rw [tokenize, hps]; rfl, ?_⟩
  exact htokens _

/-! ### What names are taken from -/

/-- The names that something is taken from: identifiers with a point behind them. -/
def selectors : List Word → List String
  | w :: v :: ws =>
    if w.kind = .identifier ∧ v = .sign "." then w.text :: selectors (v :: ws) else selectors (v :: ws)
  | _ => []

theorem selectors_cons (w : Word) (ws : List Word) :
    selectors (w :: ws) =
      (if w.kind = .identifier ∧ ws.head? = some (.sign ".") then [w.text] else []) ++ selectors ws := by
  cases ws with
  | nil => simp [selectors]
  | cons v ws =>
      simp only [selectors, List.head?_cons, Option.some.injEq]
      split_ifs <;> rfl

theorem mem_selectors_iff {x : String} {ws : List Word} :
    x ∈ selectors ws ↔ ∃ front back, ws = front ++ .identifier x :: .sign "." :: back := by
  induction ws with
  | nil => simp [selectors]
  | cons w ws ih =>
      rw [selectors_cons, List.mem_append, ih]
      constructor
      · rintro (hx | ⟨front, back, rfl⟩)
        · split_ifs at hx with htaken
          · obtain ⟨hkind, hpoint⟩ := htaken
            obtain ⟨back, rfl⟩ := List.head?_eq_some_iff.mp hpoint
            obtain ⟨kind, text⟩ := w
            obtain rfl : kind = .identifier := hkind
            obtain rfl := List.mem_singleton.mp hx
            exact ⟨[], back, rfl⟩
          · cases hx
        · exact ⟨w :: front, back, rfl⟩
      · rintro ⟨front, back, hsplit⟩
        cases front with
        | nil =>
            obtain ⟨rfl, rfl⟩ := List.cons_eq_cons.mp hsplit
            exact Or.inl (by rw [if_pos ⟨rfl, rfl⟩]; exact List.mem_singleton_self x)
        | cons u front =>
            obtain ⟨-, rfl⟩ := List.cons_eq_cons.mp hsplit
            exact Or.inr ⟨front, back, rfl⟩

/-- Nothing is taken from a name across words that do not end in a name. -/
theorem selectors_append {front : List Word} (h : ∀ w ∈ front.getLast?, w.kind ≠ .identifier) (back : List Word) :
    selectors (front ++ back) = selectors front ++ selectors back := by
  induction front with
  | nil => rfl
  | cons w front ih =>
      rw [List.cons_append, selectors_cons, selectors_cons, List.append_assoc]
      cases front with
      | nil =>
          have hw : w.kind ≠ .identifier := h w rfl
          rw [if_neg fun htaken => hw htaken.1, if_neg fun htaken => hw htaken.1]
          rfl
      | cons v front =>
          rw [List.getLast?_cons_cons] at h
          rw [ih h]
          rfl

theorem getLast?_ended (ws : List Word) : ∀ w ∈ (ended ws).getLast?, w.kind ≠ .identifier := by
  unfold ended
  split_ifs with hends
  · rw [List.getLast?_append]
    rintro w ⟨⟩
    exact (by decide)
  · rw [List.append_nil]
    intro w hw hkind
    rw [Option.mem_def.mp hw] at hends
    refine hends ?_
    obtain ⟨kind, text⟩ := w
    obtain rfl : kind = .identifier := hkind
    rfl

theorem selectors_ended (ws : List Word) : selectors (ended ws) = selectors ws := by
  have hnewline (ws : List Word) : selectors (ws ++ [⟨.newline, ""⟩]) = selectors ws := by
    induction ws with
    | nil => rfl
    | cons w ws ih =>
        -- The semicolon is no point.
        have hhead : (ws ++ [(⟨.newline, ""⟩ : Word)]).head? = some (.sign ".") ↔ ws.head? = some (.sign ".") := by
          cases ws with
          | nil => exact iff_of_false (by decide) (by rintro ⟨⟩)
          | cons v ws => rfl
        rw [List.cons_append, selectors_cons, selectors_cons, ih]
        simp only [hhead]
  unfold ended
  split_ifs
  · exact hnewline ws
  · rw [List.append_nil]

theorem selectors_flatMap_ended (words : List (List Word)) :
    selectors (words.flatMap ended) = words.flatMap selectors := by
  induction words with
  | nil => rfl
  | cons ws words ih =>
      rw [List.flatMap_cons, List.flatMap_cons, selectors_append (getLast?_ended ws), selectors_ended, ih]

end ApiForge.Source
