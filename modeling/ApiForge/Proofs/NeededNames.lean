import ApiForge.Proofs.ImportUse
import Mathlib

/-! Names without which lines cannot be read. The variables that generated lines have for an object come from the name of
its type by a change of style, and the change can leave characters that stand in no word of a source. A source that such a
variable comes up in cannot be cut into tokens, whatever else it says. -/

namespace ApiForge

open Code Generated

namespace Source

/-! ### Texts that can be cut -/

/-- From its front to its end the text is cut into lexemes. -/
inductive Lexes : List Char → Prop where
  | nil : Lexes []
  | cons {kind : LexemeKind} {c : Char} {cs tail : List Char} (hlexeme : lexeme c cs = .ok ⟨kind, tail⟩)
      (hrest : Lexes (cs.drop tail.length)) : Lexes (c :: cs)

section Lexes

variable {c : Char} {cs tail rest : List Char} {kind : LexemeKind} {ls : List Lexeme}

theorem Cut.lexes {pos : Position} {used : Bool} {ps : List Piece} (h : Cut pos used cs ps) : Lexes cs := by
  induction h with
  | nil => exact .nil
  | cons hlexeme _ ih => exact .cons hlexeme ih

theorem lexes_of_tokenize {text : String} {lexed : Lexed} (h : tokenize text = .ok lexed) : Lexes text.toList := by
  rw [tokenize] at h
  cases hpieces : pieces .start false text.toList with
  | error e =>
      rw [hpieces] at h
      cases h
  | ok ps => exact (cut_of_pieces hpieces).lexes

theorem Lexes.behind (h : Lexes (c :: (tail ++ rest))) (hlexeme : lexeme c (tail ++ rest) = .ok ⟨kind, tail⟩) :
    Lexes rest := by
  cases h with
  | cons hother hrest =>
      cases hlexeme.symm.trans hother
      rwa [List.drop_left] at hrest

theorem Lexes.behind_lineEnd (h : Lexes ('\n' :: rest)) : Lexes rest := by
  have hlexeme : lexeme '\n' ([] ++ rest) = .ok ⟨.blank, []⟩ := lexeme_blank (by decide) rest
  exact h.behind hlexeme

theorem Lexes.lineEnd (h : Lexes rest) : Lexes ('\n' :: rest) := by
  have hlexeme : lexeme '\n' rest = .ok ⟨.blank, []⟩ := lexeme_blank (by decide) rest
  exact .cons hlexeme h

/-- What stands behind lexemes that are read one after the other. -/
theorem Lexes.of_reads (hreads : Reads ls rest) (h : Lexes (charsOf ls ++ rest)) : Lexes rest := by
  induction ls with
  | nil => exact h
  | cons l ls ih =>
      obtain ⟨⟨c, tail, htext, hlexeme⟩, hothers⟩ := hreads
      apply ih hothers
      rw [charsOf_cons, htext, List.cons_append, List.cons_append, List.append_assoc] at h
      exact h.behind hlexeme

/-- Lexemes at the end of a line are read alike whatever the next lines are. -/
theorem Reads.lineEnd (h : Reads ls []) (hrest : EndsLine rest) : Reads ls rest := by
  cases rest with
  | nil => exact h
  | cons d more =>
      obtain rfl : d = '\n' := hrest d rfl
      induction ls with
      | nil => trivial
      | cons l ls ih =>
          obtain ⟨⟨c, tail, htext, hlexeme⟩, hothers⟩ := h
          refine ⟨⟨c, tail, htext, ?_⟩, ih hothers⟩
          rw [← List.append_assoc]
          rw [List.append_nil] at hlexeme
          exact lexeme_lineEnd hlexeme more

end Lexes

/-! ### Characters that cannot be read -/

/-- No sign of a source is beyond ASCII. -/
theorem lexeme_foreign {c : Char} (hc : 0x80 ≤ c.toNat) (hmark : c ≠ '\uFEFF') (hstart : isIdentifierStart c = false)
    (cs : List Char) : lexeme c cs = .error (.unexpectedCharacter c) := by
  have hsign {d : Char} (hd : d.toNat < 0x80) : c ≠ d := by
    rintro rfl
    omega
  have hnone {ops : List String} (hops : (ops.all fun op => op.toList.head?.all fun d => d.toNat < 0x80) = true)
      (tail : List Char) : ops.contains (String.ofList (c :: tail)) = false := by
    rw [List.contains_eq_mem, decide_eq_false_iff_not]
    intro hmem
    have hhead := List.all_eq_true.mp hops _ hmem
    rw [String.toList_ofList, List.head?_cons, Option.all_some, decide_eq_true_eq] at hhead
    omega
  have hsingle : singleOperators.contains c = false := by
    rw [List.contains_eq_mem, decide_eq_false_iff_not]
    intro hmem
    have hall : (singleOperators.all fun d => d.toNat < 0x80) = true := by decide
    have hascii := List.all_eq_true.mp hall c hmem
    rw [decide_eq_true_eq] at hascii
    omega
  have hblank : isBlankChar c = false := by
    simp [isBlankChar, hmark, hsign (d := ' ') (by decide), hsign (d := '\t') (by decide), hsign (d := '\r') (by decide),
      hsign (d := '\n') (by decide)]
  have hnumber : startsNumber c cs = false := by
    have hdigit : c.isDigit = false := by
      rw [Bool.eq_false_iff]
      intro hdigit
      have := toNat_of_isDigit hdigit
      omega
    simp [startsNumber, hdigit, hsign (d := '.') (by decide)]
  rw [lexeme, operatorLexeme, hnone (by decide), hnone (by decide), hsingle, hblank, hnumber, hstart]
  simp [hsign (d := '/') (by decide), hsign (d := '"') (by decide), hsign (d := '\x60') (by decide),
    hsign (d := '\'') (by decide), hsign (d := ';') (by decide)]

end Source

open Source

/-! ### Names in another style -/

/-- A character of a name in any style: a letter, digit or underscore of ASCII, or a character beyond that is no blank. -/
def isNameChar (c : Char) : Bool :=
  isPlainPart c || decide (0x80 ≤ c.toNat) && c != '\uFEFF'

theorem isNameChar_iff {c : Char} : isNameChar c = true ↔ isPlainPart c = true ∨ 0x80 ≤ c.toNat ∧ c ≠ '\uFEFF' := by
  simp [isNameChar]

theorem isNameChar_of_isIdentifierPart {c : Char} (h : isIdentifierPart c = true) : isNameChar c = true := by
  rw [isNameChar_iff]
  by_cases hc : c.toNat < 0x80
  · left
    rw [isIdentifierPart, Text.isLetterOrNumber, if_pos hc] at h
    rwa [isPlainPart, Bool.or_comm]
  · right
    refine ⟨Nat.le_of_not_lt hc, ?_⟩
    rintro rfl
    exact absurd h (by decide +kernel)

theorem isNameChar_of_isTame {c : Char} (h : Text.isTame c = true) : isNameChar c = true := by
  rw [isNameChar_iff]
  rw [Text.isTame] at h
  split_ifs at h with hc
  · left
    rw [isPlainPart, h, Bool.true_or]
  · exact .inr ⟨Nat.le_of_not_lt hc, bne_iff_ne.mp h⟩

theorem isNameChar_camelCase {s : String} (h : isWord s = true) : ∀ c ∈ (Text.camelCase s).toList, isNameChar c = true := by
  intro c hc
  rcases Text.mem_camelCase hc with hmem | htame
  · obtain ⟨d, ds, hchars, hd, hds⟩ := chars_of_isWord h
    have hparts : ∀ c ∈ s.toList, isIdentifierPart c = true := by
      rw [hchars]
      exact List.forall_mem_cons.mpr ⟨isIdentifierPart_of_isIdentifierStart hd, hds⟩
    exact isNameChar_of_isIdentifierPart (hparts c hmem)
  · exact isNameChar_of_isTame htame

/-! ### Names that are read -/

section Names

variable {d : Char} {cs rest : List Char}

/-- A character of a name that starts no word and no number is beyond ASCII, so it cannot be read. -/
theorem isIdentifierStart_of_lexes {c : Char} (hc : isNameChar c = true) (hdigit : c.isDigit = false)
    (h : Lexes (c :: cs)) : isIdentifierStart c = true := by
  by_contra hstart
  rw [Bool.not_eq_true] at hstart
  rcases isNameChar_iff.mp hc with hplain | ⟨hforeign, hmark⟩
  · have hascii : c.toNat < 0x80 := by
      rw [isPlainPart, Bool.or_eq_true] at hplain
      rcases hplain with halphanum | hunderscore
      · exact Text.toNat_lt_of_isAlphanum halphanum
      · rw [beq_iff_eq.mp hunderscore]
        decide
    rw [isIdentifierStart_of_ascii hascii, Bool.or_comm] at hstart
    rw [isPlainPart, Char.isAlphanum, hdigit, Bool.or_false, hstart] at hplain
    cases hplain
  · cases h with
    | cons hlexeme hrest => cases (lexeme_foreign hforeign hmark hstart cs).symm.trans hlexeme

/-- The characters of a name are all in one word, if the first of them is in one. -/
theorem isWord_of_lexes {c : Char} (hcs : ∀ d ∈ c :: cs, isNameChar d = true) (hdigit : c.isDigit = false)
    (h : Lexes (c :: (cs ++ rest))) : isWord (String.ofList (c :: cs)) = true := by
  rw [List.forall_mem_cons] at hcs
  have hstart := isIdentifierStart_of_lexes hcs.1 hdigit h
  have htail : ∀ e ∈ cs, isIdentifierPart e = true := by
    have hsplit := List.takeWhile_append_dropWhile (p := isIdentifierPart) (l := cs)
    have hhead := head?_dropWhile isIdentifierPart cs
    have hothers : ∀ e ∈ cs.dropWhile isIdentifierPart, isNameChar e = true :=
      fun e he => hcs.2 e ((List.dropWhile_suffix _).subset he)
    generalize cs.dropWhile isIdentifierPart = others at hsplit hhead hothers
    cases others with
    | nil =>
        rw [List.append_nil] at hsplit
        rw [← hsplit]
        exact fun e he => List.mem_takeWhile_imp he
    | cons e others =>
        -- Behind the word stands a character of the name that no lexeme starts with.
        have hpart : isIdentifierPart e = false := hhead e rfl
        rw [← hsplit, List.append_assoc] at h
        have hbehind := h.behind (lexeme_word hstart (fun e he => List.mem_takeWhile_imp he) (endsWord_cons hpart _))
        have hdigit : e.isDigit = false := by
          rw [Bool.eq_false_iff]
          intro hdigit
          rw [isIdentifierPart_of_ascii (by rw [Char.isAlphanum, hdigit, Bool.or_true, Bool.true_or])] at hpart
          cases hpart
        have hword := isIdentifierStart_of_lexes (hothers e List.mem_cons_self) hdigit hbehind
        rw [isIdentifierPart_of_isIdentifierStart hword] at hpart
        cases hpart
  rw [isWord, String.toList_ofList]
  dsimp only
  rw [hstart, Bool.true_and, List.all_eq_true]
  exact htail

/-- In a name a number goes on as long as the characters are plain. -/
theorem Source.Lexes.behind_number {c : Char} (hdigit : c.isDigit = true) (hcs : ∀ e ∈ cs, isNameChar e = true)
    (hd : d = ' ' ∨ d = ',') (h : Lexes (c :: (cs ++ d :: rest))) : Lexes (cs.dropWhile isPlainPart ++ d :: rest) := by
  have hsplit := List.takeWhile_append_dropWhile (p := isPlainPart) (l := cs)
  have hnumeral : isNumeral (String.ofList (c :: cs.takeWhile isPlainPart)) = true := by
    rw [isNumeral, String.toList_ofList]
    dsimp only
    rw [hdigit, Bool.true_and, List.all_eq_true]
    intro e he
    have hplain : isPlainPart e = true := List.mem_takeWhile_imp he
    rw [isPlainPart] at hplain
    rw [isNumberPart, hplain, Bool.true_or]
  have hends : ∀ e ∈ (cs.dropWhile isPlainPart ++ d :: rest).head?, (isNumberPart e || e == '+' || e == '-') = false := by
    have hhead := head?_dropWhile isPlainPart cs
    have hothers : ∀ e ∈ cs.dropWhile isPlainPart, isNameChar e = true :=
      fun e he => hcs e ((List.dropWhile_suffix _).subset he)
    cases hbehind : cs.dropWhile isPlainPart with
    | nil =>
        rintro _ ⟨⟩
        rcases hd with rfl | rfl <;> decide
    | cons e others =>
        rintro _ ⟨⟩
        rw [hbehind] at hhead hothers
        have hplain : isPlainPart e = false := hhead e rfl
        exact endsNumber_of_large
          ((isNameChar_iff.mp (hothers e List.mem_cons_self)).resolve_left (Bool.eq_false_iff.mp hplain)).1
  obtain ⟨_, tail, htext, hlexeme⟩ := lexeme_numeral hnumeral hends
  rw [String.toList_ofList] at htext
  cases htext
  nth_rewrite 1 [← hsplit] at h
  rw [List.append_assoc] at h
  exact h.behind hlexeme

/-- A name is read as a word, or as a number that a word may follow. -/
theorem isReadable_of_lexes {name : String} (hname : ∀ c ∈ name.toList, isNameChar c = true) (hd : d = ' ' ∨ d = ',')
    (h : Lexes (name.toList ++ d :: rest)) : isReadable name = true := by
  unfold isReadable
  split
  · rfl
  · rename_i c cs hchars
    rw [hchars] at hname h
    split_ifs with hdigit
    · have hbehind := h.behind_number hdigit (List.forall_mem_cons.mp hname).2 hd
      have hhead := head?_dropWhile isPlainPart cs
      have hothers : ∀ e ∈ cs.dropWhile isPlainPart, isNameChar e = true :=
        fun e he => hname e (List.mem_cons_of_mem c ((List.dropWhile_suffix _).subset he))
      dsimp only
      cases hsplit : cs.dropWhile isPlainPart with
      | nil => rfl
      | cons e others =>
          rw [hsplit] at hbehind hhead hothers
          have hplain : isPlainPart e = false := hhead e rfl
          have hdigit : e.isDigit = false := by
            rw [Bool.eq_false_iff]
            intro hdigit
            rw [isPlainPart, Char.isAlphanum, hdigit, Bool.or_true, Bool.true_or] at hplain
            cases hplain
          rw [isWord_of_lexes hothers hdigit hbehind, Bool.or_true]
    · have hword := isWord_of_lexes hname (Bool.not_eq_true _ ▸ hdigit) h
      rwa [← hchars, String.ofList_toList] at hword

end Names

/-! ### Lines that need a name -/

/-- Whatever lines come behind them, the lines cannot be cut unless `p` holds. -/
def Needs (lines : Lines) (p : Prop) : Prop :=
  ∀ more, EndsLine more → Lexes (lines.flatMap (fun line => '\n' :: line.text.toList) ++ more) → p

section Needs

variable {line : Line} {lines lines' : Lines} {ws : List Word} {p q : Prop}

theorem endsLine_lines (lines : Lines) {more : List Char} (h : EndsLine more) :
    EndsLine (lines.flatMap (fun line => '\n' :: line.text.toList) ++ more) := by
  cases lines with
  | nil => exact h
  | cons line lines => exact endsLine_cons _

theorem Source.Lexes.behind_line {line rest : List Char} (h : Lexes ('\n' :: (line ++ rest))) (hline : ReadsAs line ws)
    (hrest : EndsLine rest) : Lexes rest := by
  obtain ⟨⟨ls, rfl, hreads, -⟩, -⟩ := hline
  exact h.behind_lineEnd.of_reads (hreads.lineEnd hrest)

theorem Needs.front (h : Needs lines p) (lines' : Lines) : Needs (lines ++ lines') p := by
  intro more hmore hlexes
  rw [List.flatMap_append, List.append_assoc] at hlexes
  exact h _ (endsLine_lines lines' hmore) hlexes

theorem Needs.behind (hlines : ReadsLines lines ws) (h : Needs lines' p) : Needs (lines ++ lines') p := by
  obtain ⟨words, hwords, -⟩ := hlines
  intro more hmore hlexes
  induction lines generalizing words with
  | nil => exact h more hmore hlexes
  | cons line lines ih =>
      obtain _ | ⟨hline, hothers⟩ := hwords
      rw [List.cons_append, List.flatMap_cons, List.cons_append, List.cons_append, List.append_assoc] at hlexes
      exact ih _ hothers (hlexes.behind_line hline (endsLine_lines _ hmore))

theorem Needs.of_texts (h : Needs lines p) (hlines : lines'.map Line.text = lines.map Line.text) : Needs lines' p := by
  have hflat (lines : Lines) : lines.flatMap (fun line => '\n' :: line.text.toList) =
      (lines.map Line.text).flatMap (fun text => '\n' :: text.toList) := by
    rw [List.flatMap_map]
  intro more hmore hlexes
  rw [hflat, hlines, ← hflat] at hlexes
  exact h more hmore hlexes

theorem Needs.imp (h : Needs lines p) (hq : p → q) : Needs lines q :=
  fun more hmore hlexes => hq (h more hmore hlexes)

/-- What lines need holds where their text is cut into tokens. -/
theorem Needs.of_tokenize (h : Needs lines p) (hne : lines ≠ []) {lexed : Lexed}
    (htokens : tokenize (Code.text lines) = .ok lexed) : p := by
  have htext {line : Line} (lines : Lines) : '\n' :: (Code.text (line :: lines)).toList =
      (line :: lines).flatMap fun line => '\n' :: line.text.toList := by
    rw [Code.text, String.toList_intercalate, List.map_map]
    induction lines generalizing line with
    | nil => simp
    | cons next lines ih =>
        rw [List.map_cons, List.map_cons, List.intercalate_cons_cons, List.flatMap_cons, ← ih]
        simp
  obtain ⟨line, lines, rfl⟩ := List.exists_cons_of_ne_nil hne
  apply h [] endsLine_nil
  rw [List.append_nil, ← htext]
  exact (lexes_of_tokenize htokens).lineEnd

end Needs

/-! ### Variables at the front of lines -/

namespace Generated

/-- The line starts with the variable, or it is the declaration of the variable. -/
def startsWith (part : Part) : Outline → Bool
  | .known ['v', 'a', 'r', ' '] :: first :: .known (c :: _) :: _ => first == part && (c == ' ' || c == ',')
  | first :: .known (c :: _) :: _ => first == part && (c == ' ' || c == ',')
  | _ => false

def isConstant (outline : Outline) : Bool :=
  !outline.contains .single && !outline.contains .plural

/-- The first line with a variable starts with this one, and the lines in front of it can be read. -/
def introduces (part : Part) (outlines : List Outline) : Bool :=
  ((outlines.takeWhile isConstant).all fun outline => outline.readings.all fun gs => (takenNames? gs).isSome) &&
    (outlines.dropWhile isConstant).head?.any (startsWith part)

section Introduced

variable {o : ApiObject} {outline : Outline} {text : List Char} {part : Part} {name : String}

theorem Outline.Fits.readsAs (h : outline.Fits o text) (ho : Named o) (hconstant : isConstant outline = true)
    (hreadings : (outline.readings.all fun gs => (takenNames? gs).isSome) = true) : ∃ ws, ReadsAs text ws := by
  rw [isConstant, Bool.and_eq_true, Bool.not_eq_true', Bool.not_eq_true', List.contains_eq_mem, List.contains_eq_mem,
    decide_eq_false_iff_not, decide_eq_false_iff_not] at hconstant
  have hlegible : outline.Legible (IsPackageName [] []) o :=
    ⟨fun hmem => absurd hmem hconstant.1, fun hmem => absurd hmem hconstant.2⟩
  obtain ⟨gs, hgs, hfilled⟩ := h.exists_reading hlegible
  obtain ⟨found, hfound⟩ := Option.isSome_iff_exists.mp (List.all_eq_true.mp hreadings gs hgs)
  obtain ⟨ws, hreads, -⟩ := takenNames?_reads (packagesOf_regular ho) hfound hfilled
  exact ⟨ws, hreads⟩

/-- In front of the variable stands at most a keyword, and behind it a blank or a comma. -/
theorem Outline.Fits.split (h : outline.Fits o text) (hstarts : startsWith part outline = true)
    (hpart : ∀ text, part.Fits o text → text = name.toList) : ∃ ls d rest, text = charsOf ls ++ (name.toList ++ d :: rest) ∧
      (d = ' ' ∨ d = ',') ∧ ∀ rest, Reads ls rest := by
  have hfirst {first : Part} {c : Char} {cs : List Char} {others : Outline} {text : List Char}
      (hfirst : (first == part && (c == ' ' || c == ',')) = true)
      (h : Outline.Fits o (first :: .known (c :: cs) :: others) text) :
      ∃ d rest, text = name.toList ++ d :: rest ∧ (d = ' ' ∨ d = ',') := by
    simp only [Bool.and_eq_true, Bool.or_eq_true, beq_iff_eq] at hfirst
    obtain ⟨rfl, hend⟩ := hfirst
    obtain _ | @⟨_, _, front, _, hname, hothers⟩ := h
    obtain _ | @⟨_, _, known, back, hknown, -⟩ := hothers
    obtain rfl : known = c :: cs := hknown
    exact ⟨c, cs ++ back, by rw [hpart front hname]; rfl, hend⟩
  unfold startsWith at hstarts
  split at hstarts
  · obtain _ | @⟨_, _, known, back, hknown, hothers⟩ := h
    obtain rfl : known = ['v', 'a', 'r', ' '] := hknown
    obtain ⟨d, rest, rfl, hd⟩ := hfirst hstarts hothers
    refine ⟨[(.token .keyword, "var"), (.blank, " ")], d, rest, by simp, hd, fun rest => ?_⟩
    apply Reads.keyword (by decide) (endsWord_cons (by decide) _)
    exact Reads.blank rfl (by decide) trivial
  · obtain ⟨d, rest, rfl, hd⟩ := hfirst hstarts h
    exact ⟨[], d, rest, rfl, hd, fun _ => trivial⟩
  · cases hstarts

theorem reads_tabs {ls : List Lexeme} {rest : List Char} (h : Reads ls rest) (n : Nat) :
    Reads (List.replicate n (.blank, "\t") ++ ls) rest := by
  induction n with
  | zero => exact h
  | succ n ih => exact Reads.blank rfl (by decide) ih

theorem charsOf_tabs (n : Nat) (ls : List Lexeme) :
    charsOf (List.replicate n (.blank, "\t") ++ ls) = List.replicate n '\t' ++ charsOf ls := by
  induction n with
  | zero => rfl
  | succ n ih =>
      rw [List.replicate_succ, List.replicate_succ, List.cons_append, charsOf_cons, ih]
      rfl

/-- Lines need the variable that they introduce. -/
theorem needs_of_sketched (part : Part) (ho : Named o) {lines : Lines} {outlines : List Outline} [hlines : Sketched o lines outlines]
    (hpart : ∀ text, part.Fits o text → text = name.toList) (hname : ∀ c ∈ name.toList, isNameChar c = true)
    (h : introduces part outlines = true) : Needs lines (isReadable name = true) := by
  have hsketch := hlines.indented ho
  rw [introduces, Bool.and_eq_true] at h
  obtain ⟨hfront, hfirst⟩ := h
  clear hlines
  induction hsketch with
  | nil => cases hfirst
  | @cons outline line outlines lines hline hothers ih =>
      obtain ⟨n, text, htext, hfits⟩ := hline
      by_cases hconstant : isConstant outline = true
      · rw [List.takeWhile_cons_of_pos hconstant, List.all_cons, Bool.and_eq_true] at hfront
        rw [List.dropWhile_cons_of_pos hconstant] at hfirst
        obtain ⟨ws, hreads⟩ := hfits.readsAs ho hconstant hfront.1
        have hlines : ReadsLines [line] (ended ws ++ []) := ReadsLines.cons (htext ▸ hreads.tabs n) readsLines_nil
        exact (ih hfront.2 hfirst).behind hlines
      · rw [List.dropWhile_cons_of_neg hconstant] at hfirst
        obtain ⟨ls, d, rest, rfl, hd, hreads⟩ := hfits.split hfirst hpart
        intro more _ hlexes
        rw [List.flatMap_cons, htext, ← List.append_assoc (List.replicate n '\t'), ← charsOf_tabs] at hlexes
        simp only [List.cons_append, List.append_assoc] at hlexes
        have hbehind := hlexes.behind_lineEnd.of_reads (reads_tabs (hreads _) n)
        exact isReadable_of_lexes hname hd hbehind

end Introduced

end Generated

end ApiForge
