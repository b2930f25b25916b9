import ApiForge.Proofs.DocComments
import ApiForge.Proofs.Provenance
import ApiForge.Proofs.Spans
import Mathlib

/-! To which declaration a comment belongs. The comment on a declaration is the group of comments in front of it that ends
on the line above, without an empty line or a token in between; comments that begin on the line of the last token before
belong to what that token ends. Reading a source goes by the lines of the comments alone. It finds the same comment when
the declaration starts its line and no comment that matters shares the line where it ends with what comes behind it. -/

namespace ApiForge.Source

/-! ### The comment that belongs to a token -/

def piecesBefore (ps : List Piece) (t : Token) : List Piece :=
  ps.takeWhile (· != .token t)

def Piece.isToken (p : Piece) : Bool :=
  p.token?.isSome

/-- Up to the last token. -/
def upToToken (before : List Piece) : List Piece :=
  before.rdropWhile (!·.isToken)

/-- Behind the last token. -/
def behindToken (before : List Piece) : List Piece :=
  before.rtakeWhile (!·.isToken)

/-- The line where the last token ends, and 0 without one. -/
def lastTokenLine (before : List Piece) : Nat :=
  ((upToToken before).getLast?.map Piece.endLine).getD 0

/-- Without the comments that begin on `line`, on the line where such a comment ends, and so on. -/
def afterTrailing (line : Nat) : List Comment → List Comment
  | [] => []
  | c :: cs => if c.line ≤ line then afterTrailing c.endLine cs else c :: cs

/-- The nearest comments above `line`, as long as there is no empty line in between; the nearest comes first. -/
def unbroken (line : Nat) : List Comment → List Comment
  | [] => []
  | c :: earlier => if line ≤ c.endLine + 1 then c :: unbroken c.line earlier else []

/-- The comments that belong to what the token begins. -/
def docComments (ps : List Piece) (t : Token) : List Comment :=
  let before := piecesBefore ps t
  let near := (afterTrailing (lastTokenLine before) ((behindToken before).filterMap Piece.comment?)).reverse
  if near.head?.any fun c => c.endLine + 1 == t.pos.line then (unbroken t.pos.line near).reverse else []

/-- The comment is on a line of its own or reaches over several lines, and no token before ends further down. -/
def Comment.Counts (before : List Piece) (c : Comment) : Prop :=
  (c.ownLine = true ∨ c.line < c.endLine) ∧ ∀ t ∈ before.filterMap Piece.token?, t.endLine ≤ c.endLine

instance (before : List Piece) (c : Comment) : Decidable (c.Counts before) :=
  inferInstanceAs (Decidable (_ ∧ _))

/-- The lines tell which comment belongs to the token. -/
structure Clear (ps : List Piece) (t : Token) : Prop where
  /-- The token is the first on its line. -/
  first : ∀ t' ∈ (piecesBefore ps t).filterMap Piece.token?, t'.endLine < t.pos.line
  /-- Only blanks stand behind a comment on the line where it ends. -/
  nothing_behind : (piecesBefore ps t ++ [Piece.token t]).Pairwise fun p q =>
    ∀ c ∈ p.comment?, c.Counts (piecesBefore ps t) → q.line = c.endLine → q.isBlank = true

instance (ps : List Piece) (t : Token) : Decidable (Clear ps t) :=
  decidable_of_iff ((∀ t' ∈ (piecesBefore ps t).filterMap Piece.token?, t'.endLine < t.pos.line) ∧
      (piecesBefore ps t ++ [Piece.token t]).Pairwise fun p q =>
        ∀ c ∈ p.comment?, c.Counts (piecesBefore ps t) → q.line = c.endLine → q.isBlank = true)
    ⟨fun h => ⟨h.1, h.2⟩, fun h => ⟨h.first, h.nothing_behind⟩⟩

/-! ### Comments on lines of their own -/

/-- A comment ends no further down than the next one begins, and not there if it is on a line of its own or reaches over
several lines. -/
def Comment.Above (c later : Comment) : Prop :=
  c.endLine ≤ later.line ∧ (c.ownLine = true ∨ c.line < c.endLine → c.endLine < later.line)

/-- Of the comments behind a token those that begin on its line are not on lines of their own, and they are taken away. -/
theorem afterTrailing_eq {line : Nat} {cs : List Comment} (hcs : cs.Pairwise Comment.Above)
    (hlines : ∀ c ∈ cs, line ≤ c.line ∧ c.line ≤ c.endLine) (hown : ∀ c ∈ cs, c.ownLine = true ↔ line < c.line) :
    ∃ trailing, cs = trailing ++ afterTrailing line cs ∧ (∀ c ∈ trailing, c.ownLine = false) ∧
      ∀ c ∈ afterTrailing line cs, line < c.line := by
  induction cs with
  | nil => exact ⟨[], rfl, List.forall_mem_nil _, List.forall_mem_nil _⟩
  | cons c cs ih =>
      obtain ⟨hc, hpairs⟩ := List.pairwise_cons.mp hcs
      rw [List.forall_mem_cons] at hlines hown
      by_cases hline : c.line ≤ line
      · have hother : c.ownLine = false := by
          rw [Bool.eq_false_iff, ne_eq, hown.1]
          exact Nat.not_lt.mpr hline
        rw [afterTrailing, if_pos hline]
        by_cases hlong : c.line < c.endLine
        · -- Nothing begins on the line where the comment ends.
          have hbelow : ∀ later ∈ cs, c.endLine < later.line := fun later hlater => (hc later hlater).2 (.inr hlong)
          have hself : afterTrailing c.endLine cs = cs := by
            cases cs with
            | nil => rfl
            | cons later cs => rw [afterTrailing, if_neg (Nat.not_le.mpr (hbelow later List.mem_cons_self))]
          rw [hself]
          refine ⟨[c], rfl, List.forall_mem_singleton.mpr hother, fun later hlater => ?_⟩
          have hlt := hbelow later hlater
          omega
        · have hend : c.endLine = line := by omega
          rw [hend]
          obtain ⟨trailing, heq, htrailing, hbelow⟩ := ih hpairs hlines.2 hown.2
          exact ⟨c :: trailing, congrArg (c :: ·) heq, List.forall_mem_cons.mpr ⟨hother, htrailing⟩, hbelow⟩
      · rw [afterTrailing, if_neg hline]
        refine ⟨[], rfl, List.forall_mem_nil _, List.forall_mem_cons.mpr ⟨Nat.not_le.mp hline, fun later hlater => ?_⟩⟩
        have hle := (hc later hlater).1
        omega

/-- Comments that are not on lines of their own or end above `line` adjoin nothing further down. -/
theorem adjoining_of_far {line last : Nat} {far : List Comment} (hline : line < last)
    (hfar : ∀ c ∈ far, c.ownLine = true → c.endLine < line) : adjoining (last - 1) far = [] := by
  cases far with
  | nil => rfl
  | cons c far =>
      rw [adjoining, if_neg]
      rintro ⟨hend, hown⟩
      have hlt := hfar c List.mem_cons_self hown
      omega

/-- Going up, the comments that adjoin are those without an empty line in between. -/
theorem adjoining_append {line last : Nat} {near far : List Comment} (hline : line < last)
    (hnear : near.Pairwise fun later c => c.endLine < later.line)
    (hlast : ∀ c ∈ near, c.endLine < last ∧ line < c.line ∧ c.ownLine = true)
    (hfar : ∀ c ∈ far, c.ownLine = true → c.endLine < line) :
    adjoining (last - 1) (near ++ far) = unbroken last near := by
  induction near generalizing last with
  | nil => exact adjoining_of_far hline hfar
  | cons c near ih =>
      obtain ⟨hc, hpairs⟩ := List.pairwise_cons.mp hnear
      obtain ⟨⟨hend, hbelow, hown⟩, hrest⟩ := List.forall_mem_cons.mp hlast
      rw [List.cons_append, adjoining, unbroken]
      by_cases hadjoins : last ≤ c.endLine + 1
      · rw [if_pos hadjoins, if_pos ⟨by omega, hown⟩,
          ih hbelow hpairs fun earlier hmem => ⟨hc earlier hmem, (hrest earlier hmem).2⟩]
      · rw [if_neg hadjoins, if_neg fun h => hadjoins (by omega)]

/-- The nearest of the comments above `line` ends on the line above if any of them does. -/
theorem unbroken_reverse {line : Nat} {near : List Comment} (h : ∀ c ∈ near, c.endLine < line) :
    (if near.head?.any fun c => c.endLine + 1 == line then (unbroken line near).reverse else []) =
      (unbroken line near).reverse := by
  cases near with
  | nil => rfl
  | cons c near =>
      have hlt := h c List.mem_cons_self
      rw [unbroken, List.head?_cons, Option.any_some]
      by_cases hend : c.endLine + 1 = line
      · rw [if_pos (beq_iff_eq.mpr hend)]
      · rw [if_neg fun heq => hend (beq_iff_eq.mp heq), if_neg (by omega), List.reverse_nil]

/-! ### The pieces in front of a token -/

section Before

variable {cs : List Char} {ps : List Piece} {t : Token}

theorem piecesBefore_append (ht : .token t ∈ ps) : ∃ after, ps = piecesBefore ps t ++ .token t :: after := by
  induction ps with
  | nil => cases ht
  | cons p ps ih =>
      rw [piecesBefore]
      by_cases hp : p = .token t
      · subst hp
        exact ⟨ps, by rw [List.takeWhile_cons_of_neg (by simp)]; rfl⟩
      · obtain ⟨after, hafter⟩ := ih ((List.mem_cons.mp ht).resolve_left fun h => hp h.symm)
        refine ⟨after, ?_⟩
        rw [List.takeWhile_cons, if_pos (bne_iff_ne.mpr hp), List.cons_append]
        exact congrArg (p :: ·) hafter

theorem upToToken_append (before : List Piece) : upToToken before ++ behindToken before = before :=
  List.rdropWhile_append_rtakeWhile

theorem token?_behindToken {before : List Piece} {p : Piece} (hp : p ∈ behindToken before) : p.token? = none := by
  have hnot := List.mem_rtakeWhile_imp hp
  rwa [Bool.not_eq_true', Piece.isToken, ← Bool.not_eq_true, Option.isSome_iff_ne_none, not_not] at hnot

theorem upToToken_cases (before : List Piece) : upToToken before = [] ∧ lastTokenLine before = 0 ∨
    ∃ front t, upToToken before = front ++ [.token t] ∧ lastTokenLine before = t.endLine := by
  by_cases hnil : upToToken before = []
  · exact .inl ⟨hnil, by rw [lastTokenLine, hnil]; rfl⟩
  · right
    have hnot : ¬(!((upToToken before).getLast hnil).isToken) = true := List.rdropWhile_last_not _ before hnil
    rw [Bool.not_eq_true', Bool.not_eq_false, Piece.isToken, Option.isSome_iff_exists] at hnot
    obtain ⟨t, ht⟩ := hnot
    have hlast := Piece.token?_eq_some.mp ht
    refine ⟨(upToToken before).dropLast, t, ?_, ?_⟩
    · rw [← hlast]
      exact (List.dropLast_append_getLast hnil).symm
    · rw [lastTokenLine, List.getLast?_eq_some_getLast hnil]
      exact congrArg Piece.endLine hlast

/-- The tokens in front end where the last of them ends, or further up. -/
theorem endLine_le_lastTokenLine {before : List Piece} (hpairs : before.Pairwise fun p q => p.endLine ≤ q.line)
    (hlines : ∀ p ∈ before, p.line ≤ p.endLine) {t : Token} (ht : t ∈ before.filterMap Piece.token?) :
    t.endLine ≤ lastTokenLine before := by
  obtain ⟨p, hp, htoken⟩ := List.mem_filterMap.mp ht
  rw [← upToToken_append before] at hp
  rcases List.mem_append.mp hp with hp | hp
  · rcases upToToken_cases before with ⟨hnil, -⟩ | ⟨front, last, hfront, hline⟩
    · rw [hnil] at hp
      cases hp
    · rw [← upToToken_append before, hfront, List.pairwise_append, List.pairwise_append] at hpairs
      rw [hfront] at hp
      rw [hline, ← Piece.endLine, ← Piece.endLine, ← Piece.token?_eq_some.mp htoken]
      rcases List.mem_append.mp hp with hp | hp
      · have hle := hpairs.1.2.2 p hp _ (List.mem_singleton_self _)
        refine hle.trans (hlines _ ?_)
        rw [← upToToken_append before, hfront]
        simp
      · rw [List.mem_singleton.mp hp]
  · rw [token?_behindToken hp] at htoken
    cases htoken

/-- What comes behind a token ends on its line or further down. -/
theorem line_le_of_behind {before after : List Piece} {pos : Position} {used : Bool} (hcut : Cut pos used cs ps)
    (hafter : ps = before ++ .token t :: after) {c : Comment} (hc : c ∈ after.filterMap Piece.comment?) :
    t.pos.line ≤ c.endLine := by
  obtain ⟨p, hp, hcomment⟩ := List.mem_filterMap.mp hc
  obtain ⟨pos, rfl⟩ := Piece.comment?_eq_some.mp hcomment
  have hpairs := hcut.endLine_le_line
  rw [hafter, List.pairwise_append, List.pairwise_cons] at hpairs
  have hle : t.endLine ≤ c.line := hpairs.2.1.1 _ hp
  have hlong : c.line ≤ c.endLine := hcut.line_le_endLine (p := .comment c pos) (by rw [hafter]; simp [hp])
  exact (t.pos.line_le_advance _).trans (hle.trans hlong)

variable (hcut : Cut .start false cs ps) (ht : .token t ∈ ps) (hclear : Clear ps t)
include hcut ht hclear

theorem lastTokenLine_lt : lastTokenLine (piecesBefore ps t) < t.pos.line := by
  rcases upToToken_cases (piecesBefore ps t) with ⟨-, hline⟩ | ⟨front, last, hfront, hline⟩
  · rw [hline]
    exact hcut.line_le ht
  · rw [hline]
    apply hclear.first
    rw [← upToToken_append (piecesBefore ps t), hfront]
    simp [Piece.token?]

omit hclear in
theorem tokens_le_lastTokenLine {t' : Token} (ht' : t' ∈ (piecesBefore ps t).filterMap Piece.token?) :
    t'.endLine ≤ lastTokenLine (piecesBefore ps t) := by
  obtain ⟨after, hafter⟩ := piecesBefore_append ht
  have hsublist : (piecesBefore ps t).Sublist ps := by
    conv_rhs => rw [hafter]
    exact List.sublist_append_left _ _
  exact endLine_le_lastTokenLine (hcut.endLine_le_line.sublist hsublist)
    (fun p hp => hcut.line_le_endLine (hsublist.subset hp)) ht'

/-- What stands behind a comment in front of the token begins no further up than the comment ends, and further down if
the comment counts. -/
theorem endLine_lt_line {p q : Piece} {c : Comment} (hpq : [p, q].Sublist (piecesBefore ps t ++ [Piece.token t]))
    (hc : p.comment? = some c) : c.endLine ≤ q.line ∧
      (c.ownLine = true ∨ c.line < c.endLine → lastTokenLine (piecesBefore ps t) ≤ c.endLine → q.isBlank = false →
        c.endLine < q.line) := by
  obtain ⟨pos, rfl⟩ := Piece.comment?_eq_some.mp hc
  obtain ⟨after, hafter⟩ := piecesBefore_append ht
  have hsublist : (piecesBefore ps t ++ [Piece.token t]).Sublist ps := by
    conv_rhs => rw [hafter]
    exact (List.Sublist.refl _).append (List.singleton_sublist.mpr List.mem_cons_self)
  have hle : c.endLine ≤ q.line := List.pairwise_iff_forall_sublist.mp hcut.endLine_le_line (hpq.trans hsublist)
  refine ⟨hle, fun hcounts hlast hblank => lt_of_le_of_ne hle fun heq => ?_⟩
  have hbehind := List.pairwise_iff_forall_sublist.mp hclear.nothing_behind hpq c rfl
    ⟨hcounts, fun t' ht' => (tokens_le_lastTokenLine hcut ht ht').trans hlast⟩ heq.symm
  rw [hblank] at hbehind
  cases hbehind

/-- Comments in front of the last token end no further down than the token, and further up when they are on lines of
their own. -/
theorem endLine_le_of_upToToken {c : Comment} (hc : c ∈ (upToToken (piecesBefore ps t)).filterMap Piece.comment?) :
    c.endLine ≤ lastTokenLine (piecesBefore ps t) ∧
      (c.ownLine = true → c.endLine < lastTokenLine (piecesBefore ps t)) := by
  obtain ⟨p, hp, hcomment⟩ := List.mem_filterMap.mp hc
  rcases upToToken_cases (piecesBefore ps t) with ⟨hnil, -⟩ | ⟨front, last, hfront, hline⟩
  · rw [hnil] at hp
    cases hp
  · rw [hfront] at hp
    have hpq : [p, .token last].Sublist (piecesBefore ps t ++ [.token t]) := by
      rw [← upToToken_append (piecesBefore ps t), hfront]
      rcases List.mem_append.mp hp with hp | hp
      · have hsublist : [p, .token last].Sublist (front ++ [.token last]) :=
          (List.singleton_sublist.mpr hp).append (.refl _)
        exact (hsublist.trans (List.sublist_append_left _ _)).trans (List.sublist_append_left _ _)
      · rw [List.mem_singleton.mp hp] at hcomment
        cases hcomment
    obtain ⟨hle, hlt⟩ := endLine_lt_line hcut ht hclear hpq hcomment
    have hend : last.pos.line ≤ lastTokenLine (piecesBefore ps t) := by
      rw [hline]
      exact last.pos.line_le_advance _
    refine ⟨hle.trans hend, fun hown => ?_⟩
    by_contra hge
    have hlt := hlt (.inl hown) (not_lt.mp hge) rfl
    exact hge (lt_of_lt_of_le hlt hend)

/-- What the comments behind the last token are like. -/
theorem behindToken_comments {c : Comment} (hc : c ∈ (behindToken (piecesBefore ps t)).filterMap Piece.comment?) :
    (lastTokenLine (piecesBefore ps t) ≤ c.line ∧ c.line ≤ c.endLine) ∧
      (c.ownLine = true ↔ lastTokenLine (piecesBefore ps t) < c.line) ∧ c.endLine < t.pos.line := by
  obtain ⟨p, hp, hcomment⟩ := List.mem_filterMap.mp hc
  obtain ⟨pos, rfl⟩ := Piece.comment?_eq_some.mp hcomment
  obtain ⟨front, back, hbehind⟩ := List.append_of_mem hp
  obtain ⟨after, hafter⟩ := piecesBefore_append ht
  have hbefore : piecesBefore ps t = upToToken (piecesBefore ps t) ++ front ++ .comment c pos :: back := by
    rw [List.append_assoc, ← hbehind, upToToken_append]
  have hps : ps = upToToken (piecesBefore ps t) ++ front ++ .comment c pos :: (back ++ .token t :: after) := by
    conv_lhs => rw [hafter, hbefore]
    simp
  have hmem : .comment c pos ∈ ps := hps ▸ List.mem_append_right _ List.mem_cons_self
  have hle : c.line ≤ c.endLine := hcut.line_le_endLine hmem
  have hown : c.ownLine = true ↔
      ∀ t', .token t' ∈ upToToken (piecesBefore ps t) ++ front → t'.endLine < c.line := by
    rw [hcut.ownLine_iff hps]
    simp
  have hlast : lastTokenLine (piecesBefore ps t) ≤ c.line ∧
      (c.ownLine = true → lastTokenLine (piecesBefore ps t) < c.line) := by
    rcases upToToken_cases (piecesBefore ps t) with ⟨-, hline⟩ | ⟨front', last, hfront, hline⟩
    · have hpos : 0 < c.line := hcut.line_le hmem
      rw [hline]
      exact ⟨hpos.le, fun _ => hpos⟩
    · rw [hline]
      constructor
      · have hpairs := hcut.endLine_le_line
        rw [hps, hfront] at hpairs
        exact (List.pairwise_append.mp hpairs).2.2 (.token last) (by simp) _ List.mem_cons_self
      · intro h
        exact hown.mp h last (by rw [hfront]; simp)
  have hiff : c.ownLine = true ↔ lastTokenLine (piecesBefore ps t) < c.line := by
    refine ⟨hlast.2, fun hlt => hown.mpr fun t' ht' => ?_⟩
    refine lt_of_le_of_lt (tokens_le_lastTokenLine hcut ht (List.mem_filterMap.mpr ⟨_, ?_, Piece.token?_eq_some.mpr rfl⟩)) hlt
    rw [hbefore]
    exact List.mem_append_left _ ht'
  refine ⟨⟨hlast.1, hle⟩, hiff, ?_⟩
  have hsublist : [.comment c pos, .token t].Sublist (piecesBefore ps t ++ [.token t]) := by
    refine (List.singleton_sublist.mpr ?_).append (.refl _)
    rw [hbefore]
    exact List.mem_append_right _ List.mem_cons_self
  obtain ⟨hend, hlt⟩ := endLine_lt_line hcut ht hclear hsublist rfl
  by_cases hcounts : c.ownLine = true ∨ c.line < c.endLine
  · exact hlt hcounts (hlast.1.trans hle) rfl
  · -- A comment that does not count ends where the last token ends.
    rw [not_or, hiff] at hcounts
    have hline := lastTokenLine_lt hcut ht hclear
    omega

theorem behindToken_above : ((behindToken (piecesBefore ps t)).filterMap Piece.comment?).Pairwise Comment.Above := by
  have hcomments := fun c => behindToken_comments hcut ht hclear (c := c)
  rw [List.pairwise_filterMap, List.pairwise_iff_forall_sublist]
  intro p q hpq c hc later hlater
  have hsublist : [p, q].Sublist (piecesBefore ps t ++ [.token t]) := by
    rw [← upToToken_append (piecesBefore ps t)]
    exact (hpq.trans (List.sublist_append_right _ _)).trans (List.sublist_append_left _ _)
  obtain ⟨hle, hlt⟩ := endLine_lt_line hcut ht hclear hsublist hc
  obtain ⟨pos, rfl⟩ := Piece.comment?_eq_some.mp hlater
  refine ⟨hle, fun hcounts => hlt hcounts ?_ rfl⟩
  have hc := (hcomments c (List.mem_filterMap.mpr ⟨p, hpq.subset List.mem_cons_self, hc⟩)).1
  exact hc.1.trans hc.2

/-- In front of the token every comment ends above its line. -/
theorem endLine_lt_of_before {c : Comment} (hc : c ∈ (piecesBefore ps t).filterMap Piece.comment?) :
    c.endLine < t.pos.line := by
  rw [← upToToken_append (piecesBefore ps t), List.filterMap_append, List.mem_append] at hc
  rcases hc with hc | hc
  · exact lt_of_le_of_lt (endLine_le_of_upToToken hcut ht hclear hc).1 (lastTokenLine_lt hcut ht hclear)
  · exact (behindToken_comments hcut ht hclear hc).2.2

/-- The comments in front of the token are those that end above its line. -/
theorem commentsAbove_eq :
    ((ps.filterMap Piece.comment?).reverse.dropWhile fun c => decide (t.pos.line ≤ c.endLine)) =
      ((piecesBefore ps t).filterMap Piece.comment?).reverse := by
  obtain ⟨after, hafter⟩ := piecesBefore_append ht
  have hall : ps.filterMap Piece.comment? =
      (piecesBefore ps t).filterMap Piece.comment? ++ after.filterMap Piece.comment? := by
    conv_lhs => rw [hafter]
    rw [List.filterMap_append, List.filterMap_cons_none rfl]
  rw [hall, List.reverse_append, List.dropWhile_append_of_pos]
  · apply List.dropWhile_eq_self_iff.mpr
    intro hlength
    have hlt := endLine_lt_of_before hcut ht hclear (List.mem_reverse.mp (List.getElem_mem hlength))
    exact decide_eq_true_iff.not.mpr (Nat.not_le.mpr hlt)
  · intro c hc
    exact decide_eq_true (line_le_of_behind hcut hafter (List.mem_reverse.mp hc))

/-- The comment above the line of the token is the one that belongs to it. -/
theorem docAbove_eq : docAbove (ps.filterMap Piece.comment?) t.pos.line =
    "\n".intercalate ((docComments ps t).map Comment.text) := by
  have hcomments := fun c => behindToken_comments hcut ht hclear (c := c)
  obtain ⟨trailing, hsplit, htrailing, hbelow⟩ := afterTrailing_eq (behindToken_above hcut ht hclear)
    (fun c hc => (hcomments c hc).1) (fun c hc => (hcomments c hc).2.1)
  have hline := lastTokenLine_lt hcut ht hclear
  have habove := behindToken_above hcut ht hclear
  rw [docComments]
  generalize afterTrailing _ _ = free at hsplit hbelow
  rw [hsplit] at habove hcomments
  have hbefore : ((piecesBefore ps t).filterMap Piece.comment?).reverse =
      free.reverse ++ (trailing.reverse ++ ((upToToken (piecesBefore ps t)).filterMap Piece.comment?).reverse) := by
    conv_lhs => rw [← upToToken_append (piecesBefore ps t)]
    rw [List.filterMap_append, hsplit, List.reverse_append, List.reverse_append, List.append_assoc]
  have hfree : ∀ c ∈ free, c.endLine < t.pos.line ∧ lastTokenLine (piecesBefore ps t) < c.line ∧ c.ownLine = true := by
    intro c hc
    have hcomment := hcomments c (List.mem_append_right _ hc)
    exact ⟨hcomment.2.2, hbelow c hc, hcomment.2.1.mpr (hbelow c hc)⟩
  have hnear : free.reverse.Pairwise fun later c => c.endLine < later.line := by
    rw [List.pairwise_reverse]
    refine (List.pairwise_append.mp habove).2.1.imp_of_mem fun hc _ hpair => hpair.2 (.inl (hfree _ hc).2.2)
  have hfar : ∀ c ∈ trailing.reverse ++ ((upToToken (piecesBefore ps t)).filterMap Piece.comment?).reverse,
      c.ownLine = true → c.endLine < lastTokenLine (piecesBefore ps t) := by
    intro c hc hown
    rcases List.mem_append.mp hc with hc | hc
    · rw [htrailing c (List.mem_reverse.mp hc)] at hown
      cases hown
    · exact (endLine_le_of_upToToken hcut ht hclear (List.mem_reverse.mp hc)).2 hown
  have hrun := adjoining_append hline hnear (fun c hc => hfree c (List.mem_reverse.mp hc)) hfar
  rw [docAbove, commentsAbove_eq hcut ht hclear, hbefore, hrun,
    unbroken_reverse fun c hc => (hfree c (List.mem_reverse.mp hc)).1]

end Before

/-! ### The markers of a struct -/

theorem Leaves.subset {ts rest : List Token} (h : Leaves ts rest) : rest ⊆ ts := by
  obtain ⟨used, -, rfl⟩ := h
  exact List.subset_append_right _ _

/-- The tokens that a comment on a struct stands above are keywords or the name of the struct. -/
theorem Struct.DeclaredBy.heads_mem {s : Struct} {ts heads : List Token} (h : s.DeclaredBy ts heads) {t : Token}
    (ht : t ∈ heads) :
    t ∈ ts ∧ (t.isKeyword "type" = true ∨ t.kind = .identifier ∧ t.text = s.name) := by
  cases h with
  | alone hfront hkw hbegins =>
      rw [List.mem_singleton.mp ht]
      exact ⟨hfront.subset List.mem_cons_self, .inl hkw⟩
  | grouped hfront hkw hopening hspecs hbegins =>
      rcases List.mem_cons.mp ht with rfl | ht
      · exact ⟨hfront.subset List.mem_cons_self, .inl hkw⟩
      · rw [List.mem_singleton.mp ht]
        refine ⟨hfront.subset ?_, .inr ⟨hbegins.1, hbegins.2.1⟩⟩
        exact List.mem_cons_of_mem _ (List.mem_cons_of_mem _ (hspecs.subset List.mem_cons_self))

/-- They are written in the source. -/
theorem Struct.DeclaredBy.token_mem {s : Struct} {stop : Position} {ps : List Piece} {heads : List Token}
    (h : s.DeclaredBy (insertSemicolons stop none ps) heads) {t : Token} (ht : t ∈ heads) : .token t ∈ ps := by
  obtain ⟨hmem, hhead⟩ := h.heads_mem ht
  refine (mem_insertSemicolons hmem).resolve_right fun hinserted => ?_
  rcases hhead with hkw | ⟨hname, -⟩
  · cases (kind_of_isKeyword hkw).symm.trans hinserted.1
  · cases hname.symm.trans hinserted.1

/-- The keywords of type declarations and the names `name` in a source. -/
def headsNamed (name : String) (ps : List Piece) : List Token :=
  (ps.filterMap Piece.token?).filter fun t => t.isKeyword "type" || t.text == name

theorem Struct.DeclaredBy.mem_headsNamed {s : Struct} {stop : Position} {ps : List Piece} {heads : List Token}
    (h : s.DeclaredBy (insertSemicolons stop none ps) heads) {t : Token} (ht : t ∈ heads) : t ∈ headsNamed s.name ps := by
  rw [headsNamed, List.mem_filter, List.mem_filterMap, Bool.or_eq_true, beq_iff_eq]
  refine ⟨⟨_, h.token_mem ht, Piece.token?_eq_some.mpr rfl⟩, ?_⟩
  exact (h.heads_mem ht).2.imp_right And.right

/-- Every struct of a file stands in a type declaration of its source. When the lines tell which comments belong to the
declaration, to its keyword or in a group to the name of the struct too, then the markers of the struct are those that
occur in these comments. -/
theorem markers_iff_docComments {path source : String} {file : SourceFile} (h : parseSource path source = .ok file)
    {s : Struct} (hs : s ∈ file.structs) :
    ∃ ps heads, pieces .start false source.toList = .ok ps ∧
      s.DeclaredBy (insertSemicolons (Position.start.advance source.toList) none ps) heads ∧
      ((∀ t ∈ heads, Clear ps t) → ∀ m : Marker, m ∈ s.markers ↔
        ∃ t ∈ heads, ∃ c ∈ docComments ps t, occursIn m.sentinel.toList c.text.toList = true) := by
  unfold parseSource tokenize at h
  cases hps : pieces .start false source.toList with
  | error e =>
      rw [hps] at h
      cases h
  | ok ps =>
      rw [hps] at h
      obtain ⟨heads, hdeclared, hmarked⟩ := parseLexed_declares h hs
      refine ⟨ps, heads, rfl, hdeclared, fun hclear m => ?_⟩
      have hdoc : ∀ t ∈ heads, docAbove (ps.filterMap Piece.comment?) t.pos.line =
          "\n".intercalate ((docComments ps t).map Comment.text) := by
        intro t ht
        exact docAbove_eq (cut_of_pieces hps) (hdeclared.token_mem ht) (hclear t ht)
      have hall : m ∈ Marker.all := by cases m <;> decide
      rw [hmarked, Marker.scan, List.mem_filter, Marker.occursIn_doc_iff]
      simp only [hall, true_and, List.mem_map, exists_exists_and_eq_and]
      apply exists_congr
      intro t
      apply and_congr_right
      intro ht
      rw [hdoc t ht, Marker.occursIn_doc_iff]
      simp only [List.mem_map, exists_exists_and_eq_and]

/-- Two structs of a group: a comment above the group, one above a name, and one that belongs to neither. -/
def groupedSource : String :=
  "package v0\n\n// threeport-sdk:reconciler\ntype (\n\t// threeport-sdk:tptctl-enabled\n\tA struct\x7b\x7d" ++
    " // threeport-sdk:add-custom-middleware\n\tB struct\x7b\x7d\n)\n"

theorem groupedSource_markers : ∃ file s ps heads, parseSource "models.go" groupedSource = .ok file ∧ s ∈ file.structs ∧
    s.markers = [.reconciler, .tptctlEnabled] ∧ pieces .start false groupedSource.toList = .ok ps ∧
    s.DeclaredBy (insertSemicolons (Position.start.advance groupedSource.toList) none ps) heads ∧
    (∀ t ∈ heads, Clear ps t) ∧ ∀ m : Marker, m ∈ s.markers ↔
      ∃ t ∈ heads, ∃ c ∈ docComments ps t, occursIn m.sentinel.toList c.text.toList = true := by
  have hfile : parseSource "models.go" groupedSource = .ok ⟨"models.go", "v0",
      [⟨"A", 6, [.reconciler, .tptctlEnabled], []⟩, ⟨"B", 7, [.reconciler], []⟩]⟩ := by
    decide +kernel
  obtain ⟨ps, heads, hps, hdeclared, hmarkers⟩ := markers_iff_docComments hfile List.mem_cons_self
  have hnamed : (pieces .start false groupedSource.toList).toOption.all
      (fun ps => decide (∀ t ∈ headsNamed "A" ps, Clear ps t)) = true := by
    decide +kernel
  have hclear : ∀ t ∈ heads, Clear ps t := by
    intro t ht
    rw [hps] at hnamed
    exact of_decide_eq_true hnamed t (hdeclared.mem_headsNamed ht)
  exact ⟨_, _, ps, heads, hfile, List.mem_cons_self, rfl, hps, hdeclared, hclear, hmarkers hclear⟩

/-- A variable with a comment above it, and a struct on the same line. -/
def sharedLine : String :=
  "package v0\n\n// threeport-sdk:reconciler\nvar x int; type A struct\x7b\x7d\n"

/-- The struct has a marker, but no comment belongs to it, whichever tokens are taken for its declaration. -/
theorem sharedLine_markers : ∃ file s ps, parseSource "models.go" sharedLine = .ok file ∧ s ∈ file.structs ∧
    Marker.reconciler ∈ s.markers ∧ pieces .start false sharedLine.toList = .ok ps ∧
    ∀ heads, s.DeclaredBy (insertSemicolons (Position.start.advance sharedLine.toList) none ps) heads →
      ∀ t ∈ heads, docComments ps t = [] := by
  have hfile : parseSource "models.go" sharedLine = .ok ⟨"models.go", "v0", [⟨"A", 4, [.reconciler], []⟩]⟩ := by
    decide +kernel
  have hnone : (pieces .start false sharedLine.toList).toOption.any
      (fun ps => decide (∀ t ∈ headsNamed "A" ps, docComments ps t = [])) = true := by
    decide +kernel
  cases hps : pieces .start false sharedLine.toList with
  | error e =>
      rw [hps] at hnone
      cases hnone
  | ok ps =>
      rw [hps] at hnone
      refine ⟨_, _, ps, hfile, List.mem_cons_self, List.mem_cons_self, rfl, fun heads hdeclared t ht => ?_⟩
      exact of_decide_eq_true hnone t (hdeclared.mem_headsNamed ht)

end ApiForge.Source
