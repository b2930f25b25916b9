import ApiForge.Source.Declaration
import Mathlib

/-! What the comment above a type says. It is the lines right above the type, and no line further up; and a text without
line ends, such as the sentinel of a marker, occurs in it only if it occurs in one of these lines. -/

namespace ApiForge.Source

/-! ### Which comments stand above a type -/

/-- Comments on lines of their own, from line `first` on. -/
def lineComments (first : Nat) : List String → List Comment
  | [] => []
  | text :: texts => ⟨.line, text, first, first, true⟩ :: lineComments (first + 1) texts

theorem map_text_lineComments (first : Nat) (texts : List String) :
    (lineComments first texts).map Comment.text = texts := by
  induction texts generalizing first with
  | nil => rfl
  | cons text texts ih => rw [lineComments, List.map_cons, ih]

theorem line_of_mem_lineComments {first : Nat} {texts : List String} {c : Comment}
    (hc : c ∈ lineComments first texts) : first ≤ c.endLine ∧ c.endLine < first + texts.length := by
  induction texts generalizing first with
  | nil => cases hc
  | cons text texts ih =>
      rw [List.length_cons]
      rcases List.mem_cons.mp hc with rfl | hc
      · dsimp only
        omega
      · have hbounds := ih hc
        omega

/-- Going up from the last of the comments, all of them adjoin. -/
theorem adjoining_lineComments (first : Nat) (texts : List String) (earlier : List Comment) :
    adjoining (first + texts.length) ((lineComments (first + 1) texts).reverse ++ earlier) =
      (lineComments (first + 1) texts).reverse ++ adjoining first earlier := by
  induction texts generalizing first earlier with
  | nil => rfl
  | cons text texts ih =>
      have hlength : first + (text :: texts).length = first + 1 + texts.length := by
        rw [List.length_cons]
        omega
      rw [lineComments, List.reverse_cons, List.append_assoc, List.append_assoc, List.singleton_append, hlength, ih,
        adjoining, if_pos ⟨rfl, rfl⟩]
      rfl

/-- The comment above a line is the block of lines that ends there, when nothing adjoins the block further up. -/
theorem docAbove_append {before after : List Comment} {first : Nat} {texts : List String}
    (hbefore : ∀ c ∈ before, c.endLine < first) (hafter : ∀ c ∈ after, first + 1 + texts.length ≤ c.endLine) :
    docAbove (before ++ lineComments (first + 1) texts ++ after) (first + 1 + texts.length) =
      "\n".intercalate texts := by
  have habove : ∀ c ∈ (lineComments (first + 1) texts).reverse ++ before.reverse,
      ¬first + 1 + texts.length ≤ c.endLine := by
    intro c hc
    rw [List.mem_append, List.mem_reverse, List.mem_reverse] at hc
    rcases hc with hc | hc
    · exact Nat.not_le.mpr (line_of_mem_lineComments hc).2
    · have hlt := hbefore c hc
      omega
  have hdrop : ((before ++ lineComments (first + 1) texts ++ after).reverse.dropWhile
      fun c => decide (first + 1 + texts.length ≤ c.endLine)) =
      (lineComments (first + 1) texts).reverse ++ before.reverse := by
    rw [List.reverse_append, List.reverse_append, List.dropWhile_append_of_pos]
    · apply List.dropWhile_eq_self_iff.mpr
      intro hlength
      exact decide_eq_true_iff.not.mpr (habove _ (List.getElem_mem hlength))
    · intro c hc
      exact decide_eq_true (hafter c (List.mem_reverse.mp hc))
  have hnone : adjoining first before.reverse = [] := by
    cases hreverse : before.reverse with
    | nil => rfl
    | cons c earlier =>
        have hc : c ∈ before := List.mem_reverse.mp (hreverse ▸ List.mem_cons_self)
        rw [adjoining, if_neg]
        exact fun h => absurd h.1 (Nat.ne_of_lt (hbefore c hc))
  have hlast : first + 1 + texts.length - 1 = first + texts.length := by omega
  rw [docAbove, hdrop, hlast, adjoining_lineComments, hnone, List.append_nil, List.reverse_reverse,
    map_text_lineComments]

/-! ### What occurs in a comment -/

theorem occursIn_iff {part cs : List Char} : occursIn part cs = true ↔ part <:+: cs := by
  induction cs with
  | nil => rw [occursIn, List.isEmpty_iff, List.infix_nil]
  | cons c cs ih =>
      rw [occursIn, Bool.or_eq_true, List.isPrefixOf_iff_prefix, ih, List.infix_cons_iff]

/-- What has no line end occurs on one of two sides of a line end. -/
theorem infix_of_infix_lineEnd {part front back : List Char} (hpart : '\n' ∉ part)
    (h : part <:+: front ++ '\n' :: back) : part <:+: front ∨ part <:+: back := by
  have hfirst {cs : List Char} (hcs : '\n' ∉ cs) (h : cs <+: '\n' :: back) : cs = [] := by
    cases cs with
    | nil => rfl
    | cons c cs =>
        obtain ⟨rfl, -⟩ := List.cons_prefix_cons.mp h
        exact absurd List.mem_cons_self hcs
  rcases List.infix_append_iff.mp h with h | h | ⟨left, right, rfl, hleft, hright⟩
  · exact Or.inl h
  · rcases List.infix_cons_iff.mp h with h | h
    · rw [hfirst hpart h]
      exact Or.inl (List.nil_infix)
    · exact Or.inr h
  · have hnil := hfirst (fun hmem => hpart (List.mem_append_right left hmem)) hright
    rw [hnil, List.append_nil]
    exact Or.inl hleft.isInfix

/-- What has no line end occurs in a text only if it occurs in one of its lines. -/
theorem infix_intercalate {part : List Char} (hpart : '\n' ∉ part) (hne : part ≠ []) (lines : List (List Char)) :
    part <:+: ['\n'].intercalate lines ↔ ∃ line ∈ lines, part <:+: line := by
  induction lines with
  | nil => simp [hne]
  | cons line lines ih =>
      cases lines with
      | nil => simp
      | cons next lines =>
          rw [List.intercalate_cons_cons, List.append_assoc, List.singleton_append, List.exists_mem_cons_iff, ← ih]
          constructor
          · exact infix_of_infix_lineEnd hpart
          · rintro (h | h)
            · exact h.trans (List.prefix_append _ _).isInfix
            · exact h.trans ((List.suffix_cons _ _).trans (List.suffix_append _ _)).isInfix

theorem Marker.occursIn_doc_iff (m : Marker) (texts : List String) :
    occursIn m.sentinel.toList ("\n".intercalate texts).toList = true ↔
      ∃ text ∈ texts, occursIn m.sentinel.toList text.toList = true := by
  have hline : '\n' ∉ m.sentinel.toList := by cases m <;> decide
  have hne : m.sentinel.toList ≠ [] := by cases m <;> decide
  have htoList : ("\n".intercalate texts).toList = ['\n'].intercalate (texts.map String.toList) :=
    String.toList_intercalate
  rw [occursIn_iff, htoList, infix_intercalate hline hne]
  simp only [List.mem_map, exists_exists_and_eq_and, occursIn_iff]

end ApiForge.Source
