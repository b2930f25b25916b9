import ApiForge.Proofs.Locality
import Mathlib

/-! Declarations that are passed over. An import, variable, constant or function between two parts of a source leaves no
trace: whatever its literals, comments and brackets hold, the package and the structs around it are read as if it were not
there, only further down. -/

namespace ApiForge.Source

/-! ### Brackets closed behind a declaration -/

/-- Outside all brackets there is no end among the tokens, and the brackets of `stack` are closed. -/
def closedFrom (ends : Token → Bool) (stack : List Token) : List Token → Bool
  | [] => stack.isEmpty
  | t :: ts =>
    !(stack.isEmpty && t.plain && ends t) &&
      match track stack t with
      | .error _ => false
      | .ok stack' => closedFrom ends stack' ts

section Closed

variable {ends : Token → Bool} {ts rest stack stack' : List Token}

/-- Inside brackets there is no end. -/
theorem closedFrom_append (h : ts.foldlM track stack = .ok stack') (opener : Token) (outer : List Token) :
    closedFrom ends (stack ++ opener :: outer) (ts ++ rest) = closedFrom ends (stack' ++ opener :: outer) rest := by
  induction ts generalizing stack with
  | nil =>
      cases h
      rfl
  | cons t ts ih =>
      rw [List.foldlM_cons] at h
      obtain ⟨next, ht, h⟩ := of_bind h
      have hopen : (stack ++ opener :: outer).isEmpty = false := by simp
      rw [List.cons_append, closedFrom, hopen, track_append ht, Bool.false_and, Bool.false_and, Bool.not_false,
        Bool.true_and]
      exact ih h

theorem foldlM_of_closedFrom (h : closedFrom ends stack ts = true) : ts.foldlM track stack = .ok [] := by
  induction ts generalizing stack with
  | nil =>
      rw [closedFrom, List.isEmpty_iff] at h
      rw [h]
      rfl
  | cons t ts ih =>
      rw [closedFrom, Bool.and_eq_true] at h
      obtain ⟨-, h⟩ := h
      split at h
      · cases h
      · rename_i next htrack
        rw [foldlM_track_cons htrack]
        exact ih h

theorem closedFrom_enclosed {opening closing : Token} {inner : List Token} (hcloses : closing.closes = true)
    (hfits : closerOf opening.text = closing.text) (hinner : Balanced inner) :
    closedFrom ends [opening] (inner ++ closing :: rest) = closedFrom ends [] rest := by
  have hinside : closedFrom ends [opening] (inner ++ closing :: rest) = closedFrom ends [opening] (closing :: rest) :=
    closedFrom_append hinner opening []
  rw [hinside, closedFrom, track_closing hcloses hfits]
  rfl

theorem closedFrom_of_closed (h : Closed ends ts) : closedFrom ends [] ts = true := by
  induction h with
  | nil => rfl
  | plain hplain hends hts ih =>
      rw [closedFrom, hends, Bool.and_false, Bool.not_false, Bool.true_and, track_plain hplain]
      exact ih
  | @enclosed opening closing inner ts hopens hcloses hfits hinner hts ih =>
      have hplain : opening.plain = false := by
        rw [Token.plain, hopens]
        rfl
      rw [closedFrom, hplain, Bool.and_false, Bool.false_and, Bool.not_false, Bool.true_and, track_opening hopens]
      exact (closedFrom_enclosed hcloses hfits hinner).trans ih

theorem closed_of_closedFrom (h : closedFrom ends [] ts = true) : Closed ends ts := by
  induction hn : ts.length using Nat.strong_induction_on generalizing ts with
  | _ n ih =>
      cases ts with
      | nil => exact .nil
      | cons t ts =>
          rw [closedFrom, Bool.and_eq_true] at h
          obtain ⟨hend, hbehind⟩ := h
          by_cases hplain : t.plain = true
          · rw [hplain, List.isEmpty_nil, Bool.true_and, Bool.true_and, Bool.not_eq_true'] at hend
            rw [track_plain hplain] at hbehind
            exact .plain hplain hend (ih _ (by rw [← hn]; exact Nat.lt_succ_self _) hbehind rfl)
          · by_cases hopens : t.opens = true
            · rw [track_opening hopens] at hbehind
              dsimp only at hbehind
              obtain ⟨inner, closing, behind, rfl, hinner, hcloses, hfits⟩ :=
                exists_closing hopens (foldlM_of_closedFrom hbehind)
              rw [closedFrom_enclosed hcloses hfits.symm hinner] at hbehind
              refine .enclosed hopens hcloses hfits.symm hinner (ih _ ?_ hbehind rfl)
              rw [← hn]
              simp
              omega
            · have hcloses : t.closes = true := by
                rw [Token.plain, Bool.eq_false_iff.mpr hopens] at hplain
                simpa using hplain
              rw [track, if_neg hopens, if_pos hcloses] at hbehind
              cases hbehind

instance : Decidable (Closed ends ts) :=
  decidable_of_iff (closedFrom ends [] ts = true) ⟨closed_of_closedFrom, closedFrom_of_closed⟩

theorem Closed.down (hdown : ∀ t k, ends (Token.down k t) = ends t) (h : Closed ends ts) (k : Nat) :
    Closed ends (ts.map (Token.down k)) := by
  induction h with
  | nil => exact .nil
  | plain hplain hends hts ih =>
      rw [List.map_cons]
      exact .plain hplain ((hdown _ k).trans hends) ih
  | enclosed hopens hcloses hfits hinner hts ih =>
      rw [List.map_cons, List.map_append, List.map_cons]
      exact .enclosed hopens hcloses hfits (hinner.down k) ih

end Closed

/-! ### Declarations without a trace -/

/-- The tokens of an import, a variable, a constant or a function: brackets fit, and the only semicolon outside of them is
the one that is inserted at the end. -/
def PassedOver : List Token → Prop
  | [] => False
  | kw :: rest => kw.kind = .keyword ∧ kw.text ∈ skippedKeywords ∧ Closed Token.isTerminator rest.dropLast ∧
    ∃ ending ∈ rest.getLast?, ending.kind = .newline

instance : ∀ ts : List Token, Decidable (PassedOver ts)
  | [] => inferInstanceAs (Decidable False)
  | kw :: rest => inferInstanceAs (Decidable (kw.kind = .keyword ∧ kw.text ∈ skippedKeywords ∧
      Closed Token.isTerminator rest.dropLast ∧ ∃ ending ∈ rest.getLast?, ending.kind = .newline))

/-- The source begins with an empty line. -/
def StartsBlank (source : String) : Prop :=
  ∃ gap rest : String, source = gap ++ "\n" ++ rest ∧ gap.toList.all isBlankChar = true

section Reading

variable {path : String} {stop : Position} {comments : List Comment} {ts : List Token}

theorem moved_zero (more ts : List Token) : moved 0 more ts = ts ++ more := by
  have hdown : Token.down 0 = id := rfl
  rw [moved, hdown, List.map_id]

/-- A declaration that is passed over declares nothing, and the next one begins behind it. -/
theorem PassedOver.declarations_eq (h : PassedOver ts) (k : Nat) (more : List Token) :
    declarations comments stop (moved k more ts) = declarations comments stop more := by
  cases ts with
  | nil => cases h
  | cons kw rest =>
      obtain ⟨hkind, hkeyword, hclosed, ending, hending, hnewline⟩ := h
      have hterminator : (kw.down k).isTerminator = false := not_terminator_of_kind (.inr (.inr hkind))
      have hend : endDeclaration stop (ending.down k :: more) = .ok more := by
        refine if_pos ?_
        change (ending.kind == .semicolon || ending.kind == .newline) = true
        rw [hnewline]
        rfl
      have hrest : moved k more rest = rest.dropLast.map (Token.down k) ++ ending.down k :: more := by
        conv_lhs => rw [← List.dropLast_append_getLast? ending hending]
        rw [moved_append, moved_cons, moved_nil]
      have hskip := (hclosed.down (fun _ _ => rfl) k).skipDeclaration_eq stop hend
      have hdeclaration : declaration comments stop (kw.down k) (moved k more rest) = .ok ([], more) := by
        rw [declaration, if_pos ⟨hkind, List.contains_iff_mem.mpr hkeyword⟩, hrest, hskip]
        rfl
      rw [moved_cons, declarations_cons (skipTerminators_cons hterminator), hdeclaration]
      simp only [bind, Except.bind]
      cases declarations comments stop more <;> rfl

/-- Declarations some lines further down declare the same structs there. -/
theorem declarations_down {stop' : Position} {comments' : List Comment} {k : Nat} {structs : List Struct}
    (hdocs : SameDocs k comments comments' ts) (h : declarations comments stop ts = .ok structs) :
    declarations comments' stop' (ts.map (Token.down k)) = .ok (structs.map (Struct.down k)) := by
  have hmoved : declarations comments' stop' (moved k [] ts) =
      (declarations comments' stop' []).map (structs.map (Struct.down k) ++ ·) :=
    declarations_moved (fun hne => absurd rfl hne) hdocs h
  have hnone : declarations comments' stop' [] = .ok [] := declarations_nil rfl
  rw [moved, List.append_nil, hnone, Except.map, List.append_nil] at hmoved
  exact hmoved

/-- The package clause of a source is that of all that comes below it. -/
theorem HasClause.above {front : Lexed} {package : String} {rest : List Token} (h : HasClause front package rest)
    {back : Lexed} (hends : Ended back.tokens front.tokens) :
    HasClause (front.above back) package (moved 0 back.tokens rest) := by
  cases h with
  | @intro kw name behind _ hfirst hkw hname hend =>
      have hleaves := leaves_of_skipTerminators hfirst
      have hbehind := (hends.of_leaves hleaves).tail.cons (not_terminator_of_kind (.inr (.inl hname)))
      have htokens : (front.above back).tokens = moved 0 back.tokens front.tokens := (moved_zero _ _).symm
      have hfirst' : skipTerminators (front.above back).tokens =
          kw.down 0 :: name.down 0 :: moved 0 back.tokens behind := by
        rw [htokens, skipTerminators_moved hfirst, moved_cons]
      exact .intro hfirst' hkw hname (endDeclaration_moved hend hbehind)

/-- Below a whole source its declarations go on. -/
theorem parseLexed_above {front back : Lexed} {file : SourceFile} (h : parseLexed path front = .ok file)
    (hends : Ended back.tokens front.tokens)
    (hdocs : SameDocs 0 front.comments (front.comments ++ back.comments) front.tokens) :
    parseLexed path (front.above back) =
      (declarations (front.comments ++ back.comments) back.stop back.tokens).map fun structs =>
        ⟨path, file.package, file.structs ++ structs⟩ := by
  obtain ⟨rest, hclause, hstructs⟩ := exists_clause_of_parseLexed h
  have hdown : file.structs.map (Struct.down 0) = file.structs := List.map_id file.structs
  have hmoved : declarations (front.above back).comments (front.above back).stop (moved 0 back.tokens rest) =
      (declarations (front.comments ++ back.comments) back.stop back.tokens).map
        (file.structs.map (Struct.down 0) ++ ·) :=
    declarations_moved (hends.of_leaves hclause.leaves) (hdocs.of_leaves hclause.leaves) hstructs
  rw [(hclause.above hends).parseLexed_eq, hmoved, hdown]
  cases declarations (front.comments ++ back.comments) back.stop back.tokens <;> rfl

end Reading

/-! ### The lines of three sources -/

theorem lexedFrom_two {n : Nat} {front back : String} {lexed : Lexed} (h : lexedFrom n front.toList = .ok lexed) :
    lexedFrom n (front ++ "\n" ++ back).toList = (lexedFrom (n + lineAt front.toList) back.toList).map lexed.above := by
  have hsplit : (front ++ "\n" ++ back).toList = front.toList ++ '\n' :: back.toList := by
    rw [String.toList_append, String.toList_append, List.append_assoc]
    rfl
  rw [hsplit, lexedFrom_lineEnd h]

theorem lexedFrom_startsBlank {n : Nat} {back : String} {lexed : Lexed} (hback : StartsBlank back)
    (h : lexedFrom n back.toList = .ok lexed) : ∃ last, lexed.Within (n + 2) last := by
  obtain ⟨gap, rest, rfl, hgap⟩ := hback
  obtain ⟨stop, hblanks⟩ := lexedFrom_blanks (List.all_eq_true.mp hgap) n
  rw [lexedFrom_two hblanks] at h
  obtain ⟨lexed', hrest, rfl⟩ := of_map h
  obtain ⟨htokens, hcomments⟩ := lexedFrom_within hrest
  have hfirst : n + 2 ≤ n + lineAt gap.toList + 1 := by
    rw [lineAt]
    omega
  exact ⟨_, fun t ht => ⟨hfirst.trans (htokens t ht).1, (htokens t ht).2⟩,
    fun c hc => ⟨hfirst.trans (hcomments c hc).1, (hcomments c hc).2⟩⟩

/-- What comes further down has no comments for the tokens in front. -/
theorem sameDocs_below {first n : Nat} {front back : Lexed} (hfront : front.Within first n)
    (hback : ∀ c ∈ back.comments, n < c.endLine) :
    SameDocs 0 front.comments (front.comments ++ back.comments) front.tokens := by
  intro t ht
  have hline := (hfront.tokens t ht).2
  exact docAbove_below fun c hc => hline.trans (hback c hc).le

/-- Behind an empty line the comments further up belong to nothing, however far down the tokens are. -/
theorem sameDocs_behind {n last : Nat} {front between back : Lexed} (hfront : ∀ c ∈ front.comments, c.endLine ≤ n)
    {k : Nat} (hbetween : ∀ c ∈ between.comments, c.endLine ≤ n + k) (hback : back.Within (n + 2) last) :
    SameDocs k (front.comments ++ back.comments) (front.comments ++ (between.above (back.down k)).comments)
      back.tokens := by
  intro t ht
  have hline := (hback.tokens t ht).1
  have hfar : ∀ c ∈ front.comments ++ between.comments, c.endLine ≤ n + k := by
    intro c hc
    rcases List.mem_append.mp hc with hc | hc
    · exact (hfront c hc).trans (Nat.le_add_right n k)
    · exact hbetween c hc
  have hnear : ∀ c ∈ back.comments.map (Comment.down k), n + k + 1 < c.line := by
    intro c hc
    obtain ⟨c', hc', rfl⟩ := List.mem_map.mp hc
    have hfirst : n + 2 ≤ c'.line := (hback.comments c' hc').1
    change n + k + 1 < c'.line + k
    omega
  calc docAbove (front.comments ++ (between.above (back.down k)).comments) (t.pos.line + k)
      = docAbove (front.comments ++ between.comments ++ back.comments.map (Comment.down k)) (t.pos.line + k) := by
        rw [List.append_assoc]
        rfl
    _ = docAbove (back.comments.map (Comment.down k)) (t.pos.line + k) := docAbove_far (by omega) hnear hfar
    _ = docAbove back.comments t.pos.line :=
        docAbove_down (by omega) (fun c hc => by have := (hback.comments c hc).1; omega) k
    _ = docAbove (front.comments ++ back.comments) t.pos.line :=
        (docAbove_far (by omega) (fun c hc => (hback.comments c hc).1) hfront).symm

/-- Between two parts of a source that are an empty line apart a declaration that is passed over changes nothing. -/
theorem parseLexed_between {path : String} {front decl back : Lexed} {before file : SourceFile} {first n m last : Nat}
    (hbefore : parseLexed path front = .ok before) (hends : ∃ t ∈ front.tokens.getLast?, t.isTerminator = true)
    (hfile : parseLexed path (front.above back) = .ok file) (hdecl : PassedOver decl.tokens)
    (hfront : front.Within first n) (hmiddle : (decl.down n).Within (n + 1) (n + m)) (hback : back.Within (n + 2) last) :
    ∃ later, file = ⟨path, before.package, before.structs ++ later⟩ ∧
      parseLexed path (front.above ((decl.down n).above (back.down m))) =
        .ok ⟨path, before.package, before.structs ++ later.map (Struct.down m)⟩ := by
  have hended (more : List Token) : Ended more front.tokens := by
    intro _ e he
    obtain ⟨t, ht, hterminator⟩ := hends
    cases Option.mem_unique he ht
    exact hterminator
  have hbackBelow : ∀ c ∈ back.comments, n < c.endLine := by
    intro c hc
    have hc := hback.comments c hc
    omega
  have hmiddleBelow : ∀ c ∈ ((decl.down n).above (back.down m)).comments, n < c.endLine := by
    intro c hc
    rcases List.mem_append.mp hc with hc | hc
    · have hc := hmiddle.comments c hc
      omega
    · obtain ⟨c', hc', rfl⟩ := List.mem_map.mp hc
      exact (hbackBelow c' hc').trans_le (Nat.le_add_right _ _)
  rw [parseLexed_above hbefore (hended _) (sameDocs_below hfront hbackBelow)] at hfile
  obtain ⟨later, hlater, rfl⟩ := of_map hfile
  have hdocs := sameDocs_behind (fun c hc => (hfront.comments c hc).2.2) (fun c hc => (hmiddle.comments c hc).2.2) hback
  have htokens : ((decl.down n).above (back.down m)).tokens =
      moved n (back.tokens.map (Token.down m)) decl.tokens := rfl
  refine ⟨later, rfl, ?_⟩
  rw [parseLexed_above hbefore (hended _) (sameDocs_below hfront hmiddleBelow), htokens, hdecl.declarations_eq,
    declarations_down hdocs hlater]
  rfl

/-- Let a source be read, and a part of it in front of a line end that ends a declaration. A declaration that is passed
over can be put there, whatever its literals and comments hold, if an empty line comes behind it: the package and the
structs are the same, and those behind it stand further down by as many lines as it has. -/
theorem passed_over_unnoticed {path front decl back : String} {before file : SourceFile} {lexedFront lexedDecl : Lexed}
    (hfront : tokenize front = .ok lexedFront) (hends : ∃ t ∈ lexedFront.tokens.getLast?, t.isTerminator = true)
    (hbefore : parseSource path front = .ok before) (hback : StartsBlank back)
    (hfile : parseSource path (front ++ "\n" ++ back) = .ok file)
    (hlexedDecl : tokenize decl = .ok lexedDecl) (hdecl : PassedOver lexedDecl.tokens) :
    ∃ later, file = ⟨path, before.package, before.structs ++ later⟩ ∧
      parseSource path (front ++ "\n" ++ (decl ++ "\n" ++ back)) =
        .ok ⟨path, before.package, before.structs ++ later.map (Struct.down (lineAt decl.toList))⟩ := by
  rw [parseSource_eq_parseLexed hfront] at hbefore
  obtain ⟨lexed, hlexed, hparse⟩ := exists_tokenize_of_parseSource hfile
  rw [tokenize_eq_lexedFrom] at hfront hlexed hlexedDecl
  have hfrontLines := lexedFrom_within hfront
  have hdeclBelow := lexedFrom_down hlexedDecl (lineAt front.toList)
  have htwo (back : String) : lexedFrom 0 (front ++ "\n" ++ back).toList =
      (lexedFrom (0 + lineAt front.toList) back.toList).map lexedFront.above := lexedFrom_two hfront
  simp only [Nat.zero_add] at hfrontLines hdeclBelow htwo
  rw [htwo] at hlexed
  obtain ⟨lexedBack, hbackLexed, rfl⟩ := of_map hlexed
  obtain ⟨last, hbackLines⟩ := lexedFrom_startsBlank hback hbackLexed
  have hall : tokenize (front ++ "\n" ++ (decl ++ "\n" ++ back)) = .ok (lexedFront.above
      ((lexedDecl.down (lineAt front.toList)).above (lexedBack.down (lineAt decl.toList)))) := by
    rw [tokenize_eq_lexedFrom, htwo, lexedFrom_two hdeclBelow, lexedFrom_down hbackLexed]
    rfl
  rw [parseSource_eq_parseLexed hall]
  exact parseLexed_between hbefore hends hparse hdecl hfrontLines (lexedFrom_within hdeclBelow) hbackLines

def frontPart : String :=
  "package v0\n\n// threeport-sdk:reconciler\ntype A struct\x7b\x7d // first"

/-- A function with brackets in a rune, a string and a comment, a struct of its own, and markers in its comments. -/
def middlePart : String :=
  "// threeport-sdk:tptctl-enabled\nfunc f(c rune) \x7b // threeport-sdk:reconciler\n\ttype L struct \x7b S string \x7d\n" ++
    "\tif c == '\x7d' \x7b print(\"\x7b/*\", \x60\n// \"\x60) \x7d\n\x7d /* threeport-sdk:tptctl-enabled */"

def backPart : String :=
  " " ++ "\n" ++ "// threeport-sdk:allow-duplicate-names\ntype B struct\x7b\x7d\n"

theorem middlePart_unnoticed :
    parseSource "f.go" (frontPart ++ "\n" ++ backPart) =
      .ok ⟨"f.go", "v0", [⟨"A", 4, [.reconciler], []⟩, ⟨"B", 7, [.allowDuplicateNames], []⟩]⟩ ∧
    parseSource "f.go" (frontPart ++ "\n" ++ (middlePart ++ "\n" ++ backPart)) =
      .ok ⟨"f.go", "v0", [⟨"A", 4, [.reconciler], []⟩, ⟨"B", 13, [.allowDuplicateNames], []⟩]⟩ := by
  have hbefore : parseSource "f.go" frontPart = .ok ⟨"f.go", "v0", [⟨"A", 4, [.reconciler], []⟩]⟩ := by decide +kernel
  have hfile : parseSource "f.go" (frontPart ++ "\n" ++ backPart) =
      .ok ⟨"f.go", "v0", [⟨"A", 4, [.reconciler], []⟩, ⟨"B", 7, [.allowDuplicateNames], []⟩]⟩ := by
    decide +kernel
  have hback : StartsBlank backPart :=
    ⟨" ", "// threeport-sdk:allow-duplicate-names\ntype B struct\x7b\x7d\n", rfl, by decide +kernel⟩
  obtain ⟨lexedFront, hfront, hends⟩ : ∃ lexed, tokenize frontPart = .ok lexed ∧
      decide (∃ t ∈ lexed.tokens.getLast?, t.isTerminator = true) = true := exists_ok_of_map (by decide +kernel)
  obtain ⟨lexedMiddle, hmiddle, hpassed⟩ : ∃ lexed, tokenize middlePart = .ok lexed ∧
      decide (PassedOver lexed.tokens) = true := exists_ok_of_map (by decide +kernel)
  have hlines : lineAt middlePart.toList = 6 := by decide +kernel
  obtain ⟨later, heq, hall⟩ := passed_over_unnoticed hfront (of_decide_eq_true hends) hbefore hback hfile hmiddle
    (of_decide_eq_true hpassed)
  have hlater : [⟨"B", 7, [.allowDuplicateNames], []⟩] = later :=
    (List.cons_eq_cons.mp (congrArg SourceFile.structs heq)).2
  rw [hlines, ← hlater] at hall
  exact ⟨hfile, hall⟩

end ApiForge.Source
