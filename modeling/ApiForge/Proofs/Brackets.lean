import ApiForge.Proofs.Provenance
import Mathlib

/-! No source with brackets that do not fit is accepted. Every part of a source takes tokens with fitting brackets from
the front, so all the brackets of a source that can be read fit: each is closed by the bracket of its kind, and none that
closes is left over. -/

namespace ApiForge.Source

/-! ### Nesting, by the brackets alone -/

/-- Every opening bracket is closed by the one that fits it, and there are no other closing brackets. -/
inductive WellNested : List String → Prop where
  | nil : WellNested []
  | enclosed {opener : String} {inner rest : List String} (hopener : opener ∈ openers) (hinner : WellNested inner)
      (hrest : WellNested rest) : WellNested (opener :: (inner ++ closerOf opener :: rest))

def Token.isBracket (t : Token) : Bool :=
  t.opens || t.closes

/-- The brackets among the tokens. -/
def bracketsOf (ts : List Token) : List String :=
  (ts.filter Token.isBracket).map Token.text

theorem isBracket_eq_not_plain (t : Token) : t.isBracket = !t.plain := by
  rw [Token.isBracket, Token.plain, ← Bool.not_or, Bool.not_not]

theorem bracketsOf_plain {t : Token} (h : t.plain = true) (ts : List Token) : bracketsOf (t :: ts) = bracketsOf ts := by
  rw [bracketsOf, List.filter_cons_of_neg (by rw [isBracket_eq_not_plain, h]; decide), bracketsOf]

theorem bracketsOf_bracket {t : Token} (h : t.isBracket = true) (ts : List Token) :
    bracketsOf (t :: ts) = t.text :: bracketsOf ts := by
  rw [bracketsOf, List.filter_cons_of_pos h, List.map_cons, bracketsOf]

/-- The brackets close the open ones of `stack`, the innermost first, and are nested well apart from that. -/
def ClosesAll : List Token → List String → Prop
  | [], brackets => WellNested brackets
  | opener :: outer, brackets => ∃ inner rest, brackets = inner ++ closerOf opener.text :: rest ∧ WellNested inner ∧
      ClosesAll outer rest

/-- One more pair of brackets in front. -/
theorem ClosesAll.enclosed {stack : List Token} {opener : String} {inner rest : List String} (hopener : opener ∈ openers)
    (hinner : WellNested inner) (h : ClosesAll stack rest) :
    ClosesAll stack (opener :: (inner ++ closerOf opener :: rest)) := by
  cases stack with
  | nil => exact WellNested.enclosed hopener hinner h
  | cons outermost outer =>
      obtain ⟨inner', rest', rfl, hinner', hrest'⟩ := h
      refine ⟨opener :: (inner ++ closerOf opener :: inner'), rest', ?_, .enclosed hopener hinner hinner', hrest'⟩
      rw [List.cons_append, List.append_assoc, List.cons_append]

theorem closesAll_of_tracks {stack ts : List Token} (h : ts.foldlM track stack = .ok []) :
    ClosesAll stack (bracketsOf ts) := by
  induction ts generalizing stack with
  | nil =>
      cases h
      exact .nil
  | cons t ts ih =>
      rw [List.foldlM_cons] at h
      obtain ⟨next, ht, h⟩ := of_bind h
      have hts := ih h
      unfold track at ht
      split_ifs at ht with hopens hcloses
      · cases ht
        obtain ⟨inner, rest, hbrackets, hinner, hrest⟩ := hts
        have hopener : t.text ∈ openers := by
          rw [Token.opens, Bool.and_eq_true] at hopens
          exact List.contains_iff_mem.mp hopens.2
        rw [bracketsOf_bracket (by rw [Token.isBracket, hopens]; rfl), hbrackets]
        exact .enclosed hopener hinner hrest
      · cases stack with
        | nil => cases ht
        | cons opener outer =>
            dsimp only at ht
            split_ifs at ht with hfits
            cases ht
            rw [bracketsOf_bracket (by rw [Token.isBracket, hcloses, Bool.or_true])]
            exact ⟨[], bracketsOf ts, by rw [hfits]; rfl, .nil, hts⟩
      · cases ht
        rw [bracketsOf_plain (by rw [Token.plain, Bool.eq_false_iff.mpr hopens, Bool.eq_false_iff.mpr hcloses]; rfl)]
        exact hts

theorem balanced_of_no_brackets {ts : List Token} (h : bracketsOf ts = []) : Balanced ts := by
  induction ts with
  | nil => exact balanced_nil
  | cons t ts ih =>
      by_cases ht : t.plain = true
      · rw [bracketsOf_plain ht] at h
        exact (balanced_plain ht).append (ih h)
      · rw [bracketsOf_bracket (by rw [isBracket_eq_not_plain, Bool.eq_false_iff.mpr ht]; rfl)] at h
        cases h

/-- The first of the brackets, with the tokens in front of it and behind it. -/
theorem exists_of_bracketsOf_cons {ts : List Token} {bracket : String} {brackets : List String}
    (h : bracketsOf ts = bracket :: brackets) : ∃ front t back, ts = front ++ t :: back ∧ bracketsOf front = [] ∧
      t.isBracket = true ∧ t.text = bracket ∧ bracketsOf back = brackets := by
  induction ts with
  | nil => cases h
  | cons t ts ih =>
      by_cases ht : t.isBracket = true
      · rw [bracketsOf_bracket ht] at h
        obtain ⟨rfl, rfl⟩ := List.cons_eq_cons.mp h
        exact ⟨[], t, ts, rfl, rfl, ht, rfl, rfl⟩
      · have hplain : t.plain = true := by
          rw [isBracket_eq_not_plain, Bool.not_eq_true, Bool.not_eq_false'] at ht
          exact ht
        rw [bracketsOf_plain hplain] at h
        obtain ⟨front, t', back, rfl, hfront, hrest⟩ := ih h
        exact ⟨t :: front, t', back, rfl, by rw [bracketsOf_plain hplain, hfront], hrest⟩

theorem exists_of_bracketsOf_append {ts : List Token} {front back : List String} (h : bracketsOf ts = front ++ back) :
    ∃ front' back', ts = front' ++ back' ∧ bracketsOf front' = front ∧ bracketsOf back' = back := by
  obtain ⟨front', back', hfilter, hfront, hback⟩ := List.map_eq_append_iff.mp h
  obtain ⟨ts₁, ts₂, rfl, rfl, rfl⟩ := List.filter_eq_append_iff.mp hfilter
  exact ⟨ts₁, ts₂, rfl, hfront, hback⟩

theorem operator_of_isBracket {t : Token} (h : t.isBracket = true) : (t.kind == .operator) = true := by
  rw [Token.isBracket, Token.opens, Token.closes, ← Bool.and_or_distrib_left, Bool.and_eq_true] at h
  exact h.1

theorem opens_of_isBracket {t : Token} (h : t.isBracket = true) (htext : t.text ∈ openers) : t.opens = true :=
  Bool.and_eq_true_iff.mpr ⟨operator_of_isBracket h, List.contains_iff_mem.mpr htext⟩

theorem closes_of_isBracket {t : Token} (h : t.isBracket = true) (htext : t.text ∈ closers) : t.closes = true :=
  Bool.and_eq_true_iff.mpr ⟨operator_of_isBracket h, List.contains_iff_mem.mpr htext⟩

/-- Whether brackets fit can be told from the open ones in hand. -/
theorem balanced_iff_wellNested {ts : List Token} : Balanced ts ↔ WellNested (bracketsOf ts) := by
  refine ⟨closesAll_of_tracks, fun h => ?_⟩
  generalize hbrackets : bracketsOf ts = brackets at h
  induction h generalizing ts with
  | nil => exact balanced_of_no_brackets hbrackets
  | @enclosed opener inner rest hopener hinner hrest ihinner ihrest =>
      obtain ⟨front, opening, behind, rfl, hfront, hopening, rfl, hbehind⟩ := exists_of_bracketsOf_cons hbrackets
      obtain ⟨inside, back, rfl, hinside, hback⟩ := exists_of_bracketsOf_append hbehind
      obtain ⟨more, closing, after, rfl, hmore, hclosing, htext, hafter⟩ := exists_of_bracketsOf_cons hback
      have hcloser : ∀ text ∈ openers, closerOf text ∈ closers := by decide
      have hpair := Balanced.enclosed (opens_of_isBracket hopening hopener)
        (closes_of_isBracket hclosing (htext ▸ hcloser _ hopener)) htext.symm
        ((ihinner hinside).append (balanced_of_no_brackets hmore))
      have hall := (balanced_of_no_brackets hfront).append (hpair.append (ihrest hafter))
      simpa only [List.cons_append, List.append_assoc, List.singleton_append, List.nil_append] using hall

instance (ts : List Token) : Decidable (Balanced ts) :=
  inferInstanceAs (Decidable (_ = _))

/-! ### Sources that are read -/

section Reading

variable {stop : Position} {ts : List Token}

/-- Reading declarations goes on to the end of the source. -/
theorem declarations_leaves {comments : List Comment} {structs : List Struct}
    (h : declarations comments stop ts = .ok structs) : Leaves ts [] := by
  rw [declarations_eq_ok_iff] at h
  induction h with
  | none hnothing => exact leaves_of_skipTerminators hnothing
  | next hfirst hdeclaration _ ih => exact ((declaration_takesFirst _ _).leaves hfirst hdeclaration).trans ih

theorem parseLexed_leaves {path : String} {lexed : Lexed} {file : SourceFile} (h : parseLexed path lexed = .ok file) :
    Leaves lexed.tokens [] := by
  obtain ⟨rest, hclause, hstructs⟩ := exists_clause_of_parseLexed h
  exact hclause.leaves.trans (declarations_leaves hstructs)

theorem Leaves.balanced (h : Leaves ts []) : Balanced ts := by
  obtain ⟨used, hused, rfl⟩ := h
  rwa [List.append_nil]

end Reading

theorem parseSource_eq_parseLexed {path source : String} {lexed : Lexed} (hlexed : tokenize source = .ok lexed) :
    parseSource path source = parseLexed path lexed := by
  rw [parseSource, hlexed]

theorem exists_tokenize_of_parseSource {path source : String} {file : SourceFile}
    (h : parseSource path source = .ok file) : ∃ lexed, tokenize source = .ok lexed ∧ parseLexed path lexed = .ok file := by
  cases hlexed : tokenize source with
  | error e =>
      rw [parseSource, hlexed] at h
      cases h
  | ok lexed =>
      rw [parseSource_eq_parseLexed hlexed] at h
      exact ⟨lexed, rfl, h⟩

/-- In a source that is accepted every opening bracket outside literals and comments is closed by the bracket of its own
kind, and no closing bracket is left over; a source in which brackets do not fit is refused. -/
theorem accepted_wellNested (path source : String) :
    (∀ file, parseSource path source = .ok file →
      ∃ lexed, tokenize source = .ok lexed ∧ WellNested (bracketsOf lexed.tokens)) ∧
    ∀ lexed, tokenize source = .ok lexed → ¬WellNested (bracketsOf lexed.tokens) →
      ∃ e, parseSource path source = .error e := by
  have haccepted (file : SourceFile) (h : parseSource path source = .ok file) :
      ∃ lexed, tokenize source = .ok lexed ∧ WellNested (bracketsOf lexed.tokens) := by
    obtain ⟨lexed, hlexed, hfile⟩ := exists_tokenize_of_parseSource h
    exact ⟨lexed, hlexed, balanced_iff_wellNested.mp (parseLexed_leaves hfile).balanced⟩
  refine ⟨haccepted, fun lexed hlexed hnested => ?_⟩
  cases hparse : parseSource path source with
  | error e => exact ⟨e, rfl⟩
  | ok file =>
      obtain ⟨lexed', hlexed', hnested'⟩ := haccepted file hparse
      obtain rfl := Except.ok.inj (hlexed.symm.trans hlexed')
      exact absurd hnested' hnested

/-- A function with brackets in a literal and in a comment, which count for nothing. -/
def bracketedSource : String :=
  "package v0\n\nfunc f(xs []int) \x7b print(\"(\", xs[0]) /* ] */ \x7d\n"

/-- A bracket closed by one of another kind. -/
def crossedSource : String :=
  "package v0\n\nvar x = [(1])\n"

theorem bracketedSource_wellNested :
    (∃ lexed, tokenize bracketedSource = .ok lexed ∧ WellNested (bracketsOf lexed.tokens)) ∧
    ∃ lexed, tokenize crossedSource = .ok lexed ∧ ¬WellNested (bracketsOf lexed.tokens) ∧
      ∃ e, parseSource "f.go" crossedSource = .error e := by
  have hfile : parseSource "f.go" bracketedSource = .ok ⟨"f.go", "v0", []⟩ := by decide +kernel
  obtain ⟨lexed, hlexed, hcrossed⟩ : ∃ lexed, tokenize crossedSource = .ok lexed ∧
      decide (Balanced lexed.tokens) = false := exists_ok_of_map (by decide +kernel)
  have hnested := balanced_iff_wellNested.not.mp (of_decide_eq_false hcrossed)
  exact ⟨(accepted_wellNested "f.go" bracketedSource).1 _ hfile, lexed, hlexed, hnested,
    (accepted_wellNested "f.go" crossedSource).2 lexed hlexed hnested⟩

end ApiForge.Source
