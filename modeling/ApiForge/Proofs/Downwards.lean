import ApiForge.Proofs.DocAttachment
import ApiForge.Proofs.LineEnds
import ApiForge.Proofs.Pieces
import Mathlib

/-! Sources one below the other. A source that begins some lines further down is read as before, with its lines counted
from there, and a comment belongs to nothing that is more than a line further down. -/

namespace ApiForge.Source

/-! ### Some lines further down -/

def Position.down (k : Nat) (pos : Position) : Position :=
  ⟨pos.line + k, pos.column⟩

def Token.down (k : Nat) (t : Token) : Token :=
  { t with pos := t.pos.down k }

def Comment.down (k : Nat) (c : Comment) : Comment :=
  { c with line := c.line + k, endLine := c.endLine + k }

def Piece.down (k : Nat) : Piece → Piece
  | .token t => .token (t.down k)
  | .comment c pos => .comment (c.down k) (pos.down k)
  | .blank c pos => .blank c (pos.down k)

def Lexed.down (k : Nat) (lexed : Lexed) : Lexed :=
  ⟨lexed.tokens.map (Token.down k), lexed.comments.map (Comment.down k), lexed.stop.down k⟩

theorem Position.down_down (pos : Position) (j k : Nat) : (pos.down j).down k = pos.down (j + k) := by
  rw [down, down, down, Nat.add_assoc]

theorem Position.step_down (pos : Position) (k : Nat) (c : Char) : (pos.down k).step c = (pos.step c).down k := by
  unfold step down
  split_ifs
  · rw [Nat.add_right_comm]
  · rfl

theorem Position.advance_down (pos : Position) (k : Nat) (text : List Char) :
    (pos.down k).advance text = (pos.advance text).down k := by
  induction text generalizing pos with
  | nil => rfl
  | cons c text ih =>
      have hstep (pos : Position) : pos.advance (c :: text) = (pos.step c).advance text := rfl
      rw [hstep, hstep, step_down, ih]

theorem pieceOf_down (kind : LexemeKind) (text : List Char) (pos : Position) (k : Nat) (used : Bool) :
    pieceOf kind text (pos.down k) used = (pieceOf kind text pos used).down k := by
  cases kind with
  | comment style =>
      rw [pieceOf, pieceOf, Position.advance_down]
      rfl
  | _ => rfl

/-- A source is cut alike wherever it begins. -/
theorem Cut.down {pos : Position} {used : Bool} {cs : List Char} {ps : List Piece} (h : Cut pos used cs ps) (k : Nat) :
    Cut (pos.down k) used cs (ps.map (Piece.down k)) := by
  induction h with
  | nil => exact .nil _ _
  | cons hlexeme hrest ih =>
      rw [List.map_cons, ← pieceOf_down]
      refine .cons hlexeme ?_
      rwa [Position.advance_down]

theorem endsLine_down (p : Piece) (k : Nat) : (p.down k).endsLine = p.endsLine.map (Position.down k) := by
  cases p with
  | token t => rfl
  | comment c pos =>
      have hlines : (c.down k).endLine > (c.down k).line ↔ c.endLine > c.line := Nat.add_lt_add_iff_right
      rw [Piece.down, Piece.endsLine, Piece.endsLine]
      by_cases hc : c.endLine > c.line
      · rw [if_pos hc, if_pos (hlines.mpr hc)]
        rfl
      · rw [if_neg hc, if_neg (fun h => hc (hlines.mp h))]
        rfl
  | blank c pos =>
      rw [Piece.down, Piece.endsLine, Piece.endsLine]
      split_ifs <;> rfl

theorem insertSemicolons_down (stop : Position) (k : Nat) (last : Option Token) (ps : List Piece) :
    insertSemicolons (stop.down k) (last.map (Token.down k)) (ps.map (Piece.down k)) =
      (insertSemicolons stop last ps).map (Token.down k) := by
  have hlast (last : Option Token) : (last.map (Token.down k)).any Token.endsStatement = last.any Token.endsStatement := by
    cases last <;> rfl
  induction ps generalizing last with
  | nil =>
      rw [List.map_nil, insertSemicolons, insertSemicolons, hlast]
      split_ifs <;> rfl
  | cons p ps ih =>
      by_cases hp : ∃ t, p = .token t
      · obtain ⟨t, rfl⟩ := hp
        rw [List.map_cons, Piece.down, insertSemicolons, insertSemicolons, List.map_cons]
        exact congrArg (t.down k :: ·) (ih (some t))
      · have hother (t : Token) : p ≠ .token t := fun heq => hp ⟨t, heq⟩
        have hmoved (t : Token) : p.down k ≠ .token t := by
          cases p with
          | token t' => exact absurd rfl (hother t')
          | comment c pos => rintro ⟨⟩
          | blank c pos => rintro ⟨⟩
        rw [List.map_cons, insertSemicolons.eq_3 _ _ _ _ hmoved, insertSemicolons.eq_3 _ _ _ _ hother, endsLine_down, hlast]
        cases p.endsLine with
        | none => exact ih last
        | some pos =>
            dsimp only [Option.map_some]
            split_ifs
            · exact congrArg (newlineAt (pos.down k) :: ·) (ih none)
            · exact ih last

theorem comments_down (ps : List Piece) (k : Nat) :
    (ps.map (Piece.down k)).filterMap Piece.comment? = (ps.filterMap Piece.comment?).map (Comment.down k) := by
  rw [List.filterMap_map, List.map_filterMap]
  congr 1
  funext p
  cases p <;> rfl

/-! ### Sources that begin behind some lines -/

/-- A source that begins behind `n` lines. -/
def lexedFrom (n : Nat) (source : List Char) : Except LexicalError Lexed :=
  (pieces (Position.start.down n) false source).map fun ps =>
    let stop := (Position.start.down n).advance source
    ⟨insertSemicolons stop none ps, ps.filterMap Piece.comment?, stop⟩

theorem tokenize_eq_lexedFrom (source : String) : tokenize source = lexedFrom 0 source.toList :=
  rfl

/-- One source below another. -/
def Lexed.above (front back : Lexed) : Lexed :=
  ⟨front.tokens ++ back.tokens, front.comments ++ back.comments, back.stop⟩

section Sources

variable {n : Nat} {source : List Char} {lexed : Lexed}

theorem exists_cut_of_lexedFrom (h : lexedFrom n source = .ok lexed) :
    ∃ ps, Cut (Position.start.down n) false source ps ∧ lexed =
      ⟨insertSemicolons ((Position.start.down n).advance source) none ps, ps.filterMap Piece.comment?,
        (Position.start.down n).advance source⟩ := by
  obtain ⟨ps, hpieces, rfl⟩ := of_map h
  exact ⟨ps, cut_of_pieces hpieces, rfl⟩

theorem lexedFrom_down (h : lexedFrom n source = .ok lexed) (k : Nat) :
    lexedFrom (n + k) source = .ok (lexed.down k) := by
  obtain ⟨ps, hcut, rfl⟩ := exists_cut_of_lexedFrom h
  rw [lexedFrom, ← Position.down_down, pieces_of_cut (hcut.down k)]
  simp only [Except.map, Lexed.down]
  rw [Position.advance_down, comments_down]
  exact congrArg (fun tokens => Except.ok (⟨tokens, _, _⟩ : Lexed)) (insertSemicolons_down _ k none ps)

theorem advance_start_down (n : Nat) (source : List Char) :
    (Position.start.down n).advance source = (placeAt source).down n := by
  rw [Position.advance_down, advance_start]

/-- A source with a line end in it is read as two sources, the second behind the lines of the first. -/
theorem lexedFrom_lineEnd (h : lexedFrom n source = .ok lexed) (more : List Char) :
    lexedFrom n (source ++ '\n' :: more) = (lexedFrom (n + lineAt source) more).map lexed.above := by
  obtain ⟨ps, hcut, rfl⟩ := exists_cut_of_lexedFrom h
  have hnext : ((Position.start.down n).advance source).nextLine = Position.start.down (n + lineAt source) := by
    rw [advance_start_down, Position.nextLine, Position.down, Position.down, placeAt, Position.start, Position.mk.injEq]
    dsimp only
    exact ⟨by omega, rfl⟩
  have hstop : (Position.start.down n).advance (source ++ '\n' :: more) =
      (Position.start.down (n + lineAt source)).advance more := by
    rw [Position.advance_append, ← hnext]
    rfl
  rw [lexedFrom, pieces_lineEnd hcut, hnext, hstop, lexedFrom]
  cases pieces (Position.start.down (n + lineAt source)) false more with
  | error e => rfl
  | ok ps' =>
      simp only [Except.map, Lexed.above]
      rw [insertSemicolons_lineEnd, List.filterMap_append]
      rfl

end Sources

/-! ### The lines of a source -/

section Lines

variable {pos : Position} {used : Bool} {cs : List Char} {ps : List Piece}

theorem Cut.line_bounds (h : Cut pos used cs ps) {p : Piece} (hp : p ∈ ps) :
    pos.line ≤ p.pos.line ∧ p.pos.line ≤ (pos.advance cs).line ∧ p.endLine ≤ (pos.advance cs).line := by
  induction h with
  | nil => cases hp
  | @cons pos used kind c cs tail ps hlexeme hrest ih =>
      have hsplit : (pos.advance (c :: tail)).advance (cs.drop tail.length) = pos.advance (c :: cs) := by
        rw [← Position.advance_append, List.cons_append, tail_append_drop hlexeme]
      have hbehind : (pos.advance (c :: tail)).line ≤ (pos.advance (c :: cs)).line := by
        rw [← hsplit]
        exact Position.line_le_advance _ _
      rcases List.mem_cons.mp hp with rfl | hp
      · rw [pos_pieceOf, endLine_pieceOf hlexeme]
        exact ⟨le_rfl, pos.line_le_advance _, hbehind⟩
      · rw [hsplit] at ih
        obtain ⟨hfirst, hlast⟩ := ih hp
        exact ⟨(pos.line_le_advance _).trans hfirst, hlast⟩

/-- A token stands where a piece stands, or at the end. -/
theorem pos_of_mem_insertSemicolons {stop : Position} {last : Option Token} {t : Token}
    (h : t ∈ insertSemicolons stop last ps) : t.pos = stop ∨ ∃ p ∈ ps, p.pos = t.pos := by
  rcases mem_insertSemicolons h with hpiece | ⟨-, hstop | ⟨front, p, back, rfl, hends⟩⟩
  · exact .inr ⟨.token t, hpiece, rfl⟩
  · exact .inl hstop
  · exact .inr ⟨p, List.mem_append_right _ List.mem_cons_self, pos_of_endsLine hends⟩

/-- What there is of a source stands on the lines from `first` to `last`. -/
structure Lexed.Within (first last : Nat) (lexed : Lexed) : Prop where
  tokens : ∀ t ∈ lexed.tokens, first ≤ t.pos.line ∧ t.pos.line ≤ last
  comments : ∀ c ∈ lexed.comments, first ≤ c.line ∧ c.line ≤ c.endLine ∧ c.endLine ≤ last

theorem lexedFrom_within {n : Nat} {source : List Char} {lexed : Lexed} (h : lexedFrom n source = .ok lexed) :
    lexed.Within (n + 1) (n + lineAt source) := by
  obtain ⟨ps, hcut, rfl⟩ := exists_cut_of_lexedFrom h
  have hfirst : (Position.start.down n).line = n + 1 := Nat.add_comm 1 n
  have hlast : ((Position.start.down n).advance source).line = n + lineAt source := by
    rw [advance_start_down]
    exact Nat.add_comm _ n
  refine ⟨fun t ht => ?_, fun c hc => ?_⟩
  · rcases pos_of_mem_insertSemicolons ht with hstop | ⟨p, hp, hpos⟩
    · rw [hstop, hlast, lineAt]
      omega
    · obtain ⟨hlow, hhigh, -⟩ := hcut.line_bounds hp
      rw [hpos, hfirst] at hlow
      rw [hpos, hlast] at hhigh
      exact ⟨hlow, hhigh⟩
  · obtain ⟨p, hp, hcomment⟩ := List.mem_filterMap.mp hc
    obtain ⟨place, rfl⟩ := Piece.comment?_eq_some.mp hcomment
    have hlow := hcut.line_le hp
    have hhigh := (hcut.line_bounds hp).2.2
    rw [hfirst] at hlow
    rw [hlast] at hhigh
    exact ⟨hlow, hcut.line_le_endLine hp, hhigh⟩

/-- Blanks hold neither tokens nor comments. -/
theorem lexedFrom_blanks {gap : List Char} (hgap : ∀ c ∈ gap, isBlankChar c = true) (n : Nat) :
    ∃ stop, lexedFrom n gap = .ok ⟨[], [], stop⟩ := by
  obtain ⟨blanks, used, hblanks, hpieces⟩ := pieces_blanks hgap [] (Position.start.down n) false
  have hnil : pieces ((Position.start.down n).advance gap) used [] = .ok [] := by rw [pieces]
  rw [List.append_nil, hnil] at hpieces
  have hlast : '\n' ∈ gap → (none : Option Token).any Token.endsStatement = false := fun _ => rfl
  have htokens := insertSemicolons_blanks hblanks hlast ((Position.start.down n).advance gap) []
  have hcomments : blanks.filterMap Piece.comment? = [] := by
    rw [List.filterMap_eq_nil_iff]
    intro p hp
    obtain ⟨c, -, pos, rfl⟩ := hblanks p hp
    rfl
  refine ⟨(Position.start.down n).advance gap, ?_⟩
  rw [lexedFrom, hpieces]
  simp only [Except.map, List.append_nil] at htokens ⊢
  rw [htokens, hcomments]
  rfl

end Lines

/-! ### Comments above a line -/

/-- Comments that end more than a line above do not adjoin. -/
theorem adjoining_far {m expectedEnd : Nat} {near far : List Comment} (hend : m < expectedEnd)
    (hnear : ∀ c ∈ near, m + 1 < c.line) (hfar : ∀ c ∈ far, c.endLine ≤ m) :
    adjoining expectedEnd (near ++ far) = adjoining expectedEnd near := by
  induction near generalizing expectedEnd with
  | nil =>
      cases far with
      | nil => rfl
      | cons c far =>
          have hc := hfar c List.mem_cons_self
          rw [List.nil_append, adjoining.eq_2, if_neg (fun h => by omega)]
          rfl
  | cons c near ih =>
      rw [List.forall_mem_cons] at hnear
      rw [List.cons_append, adjoining, adjoining, ih (by omega) hnear.2]

theorem docAbove_far {m line : Nat} {near far : List Comment} (hline : m + 1 < line)
    (hnear : ∀ c ∈ near, m + 1 < c.line) (hfar : ∀ c ∈ far, c.endLine ≤ m) :
    docAbove (far ++ near) line = docAbove near line := by
  have hend : m < line - 1 := by omega
  have hdropped (cs : List Comment) {c : Comment} (hc : c ∈ cs.reverse.dropWhile fun c => decide (line ≤ c.endLine)) :
      c ∈ cs :=
    List.mem_reverse.mp ((List.dropWhile_sublist _).subset hc)
  have hnear' : ∀ c ∈ near.reverse.dropWhile fun c => decide (line ≤ c.endLine), m + 1 < c.line :=
    fun c hc => hnear c (hdropped near hc)
  unfold docAbove
  dsimp only
  rw [List.reverse_append, List.dropWhile_append]
  split_ifs with hempty
  · rw [List.isEmpty_iff.mp hempty]
    have hnone : adjoining (line - 1) ([] ++ far.reverse.dropWhile fun c => decide (line ≤ c.endLine)) =
        adjoining (line - 1) [] :=
      adjoining_far hend (List.forall_mem_nil _) fun c hc => hfar c (hdropped far hc)
    rw [← hnone, List.nil_append]
  · rw [adjoining_far hend hnear' fun c hc => hfar c (List.mem_reverse.mp hc)]

/-- Comments further down are not above. -/
theorem docAbove_below {line : Nat} {comments below : List Comment} (hbelow : ∀ c ∈ below, line ≤ c.endLine) :
    docAbove (comments ++ below) line = docAbove comments line := by
  unfold docAbove
  dsimp only
  rw [List.reverse_append, List.dropWhile_append_of_pos]
  intro c hc
  exact decide_eq_true (hbelow c (List.mem_reverse.mp hc))

theorem adjoining_down {expectedEnd : Nat} {cs : List Comment} (hcs : ∀ c ∈ cs, 0 < c.line) (k : Nat) :
    adjoining (expectedEnd + k) (cs.map (Comment.down k)) = (adjoining expectedEnd cs).map (Comment.down k) := by
  induction cs generalizing expectedEnd with
  | nil => rfl
  | cons c cs ih =>
      rw [List.forall_mem_cons] at hcs
      have hend : (c.down k).endLine = expectedEnd + k ↔ c.endLine = expectedEnd := Nat.add_right_cancel_iff
      have hline : (c.down k).line - 1 = c.line - 1 + k := Nat.sub_add_comm hcs.1
      have hown : (c.down k).ownLine = c.ownLine := rfl
      rw [List.map_cons, adjoining, adjoining, hline, ih hcs.2, hown]
      by_cases hc : c.endLine = expectedEnd ∧ c.ownLine = true
      · rw [if_pos hc, if_pos ⟨hend.mpr hc.1, hc.2⟩, List.map_cons]
      · rw [if_neg hc, if_neg (fun h => hc ⟨hend.mp h.1, h.2⟩), List.map_nil]

theorem docAbove_down {line : Nat} {comments : List Comment} (hline : 0 < line) (hcomments : ∀ c ∈ comments, 0 < c.line)
    (k : Nat) : docAbove (comments.map (Comment.down k)) (line + k) = docAbove comments line := by
  have hfirst : line + k - 1 = line - 1 + k := Nat.sub_add_comm hline
  have hdrop : (fun c => decide (line + k ≤ c.endLine)) ∘ Comment.down k = fun c => decide (line ≤ c.endLine) := by
    funext c
    exact decide_eq_decide.mpr Nat.add_le_add_iff_right
  unfold docAbove
  dsimp only
  rw [← List.map_reverse, List.dropWhile_map, hdrop, hfirst, adjoining_down, ← List.map_reverse, List.map_map]
  · rfl
  · intro c hc
    exact hcomments c (List.mem_reverse.mp ((List.dropWhile_sublist _).subset hc))

end ApiForge.Source
