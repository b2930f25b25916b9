import ApiForge.Proofs.Identifiers
import ApiForge.Proofs.Marks
import Mathlib

/-! Names of plain letters and digits in different styles. The name in Pascal case can be read off the one in kebab case
and off the one in camel case, so names that are in Pascal case already are told apart by either. So are their plurals,
although a plural need not be in Pascal case itself: an `s` that follows a digit is a word of its own. -/

namespace ApiForge.Text

/-! ### Plain characters -/

/-- Letters and digits of ASCII only. -/
def Plain (cs : List Char) : Prop :=
  ∀ c ∈ cs, c.isAlphanum = true

instance (cs : List Char) : Decidable (Plain cs) :=
  decidable_of_iff (cs.all Char.isAlphanum = true) List.all_eq_true

theorem plain_nil : Plain [] :=
  List.forall_mem_nil _

theorem plain_cons {c : Char} {cs : List Char} : Plain (c :: cs) ↔ c.isAlphanum = true ∧ Plain cs :=
  List.forall_mem_cons

theorem plain_append {cs ds : List Char} : Plain (cs ++ ds) ↔ Plain cs ∧ Plain ds :=
  List.forall_mem_append

theorem toNat_lt_of_isAlphanum {c : Char} (h : c.isAlphanum = true) : c.toNat < 0x80 := by
  simp only [Char.isAlphanum, Char.isAlpha, Char.isUpper, Char.isLower, Char.isDigit, Bool.or_eq_true,
    Bool.and_eq_true, decide_eq_true_eq, UInt32.le_iff_toNat_le, ge_iff_le] at h
  have htoNat : c.toNat = c.val.toNat := rfl
  simp at h
  omega

/-- What is true of the letters and digits below `0x80` is true of all that count as such. -/
theorem forall_plain {p : Char → Prop} (h : ∀ n < 0x80, (Char.ofNat n).isAlphanum = true → p (Char.ofNat n)) {c : Char}
    (hc : c.isAlphanum = true) : p c := by
  have hp := h c.toNat (toNat_lt_of_isAlphanum hc)
  rw [Char.ofNat_toNat] at hp
  exact hp hc

theorem part_cases {c : Char} (h : c.isAlphanum = true) :
    WordPart.of [c] = .digit ∨ WordPart.of [c] = .small ∨ WordPart.of [c] = .capital ∧ c.toLower ≠ c :=
  forall_plain (p := fun c => WordPart.of [c] = .digit ∨ WordPart.of [c] = .small ∨
    WordPart.of [c] = .capital ∧ c.toLower ≠ c) (by decide +kernel) h

theorem toLower_ne_hyphen {c : Char} (h : c.isAlphanum = true) : c.toLower ≠ '-' :=
  forall_plain (p := fun c => c.toLower ≠ '-') (by decide) h

theorem upper_singleton {c : Char} (h : c.isAlphanum = true) : upper [c] = [c.toUpper] := by
  rw [upper, List.flatMap_singleton, upperChar, if_pos (toNat_lt_of_isAlphanum h)]

theorem lowerAfter_plain {before cs : List Char} (h : Plain cs) : lowerAfter before cs = cs.map Char.toLower := by
  induction cs generalizing before with
  | nil => rfl
  | cons c cs ih =>
      obtain ⟨hc, hcs⟩ := plain_cons.mp h
      have hsigma : c ≠ 'Σ' := by
        rintro rfl
        exact absurd hc (by decide)
      rw [lowerAfter, if_neg hsigma, lowerChar, if_pos (toNat_lt_of_isAlphanum hc), ih hcs, List.map_cons,
        List.singleton_append]

theorem lower_plain {cs : List Char} (h : Plain cs) : lower cs = cs.map Char.toLower :=
  lowerAfter_plain h

theorem clusters_plain {cs : List Char} (h : Plain cs) : clusters cs = cs.map ([·]) := by
  induction cs with
  | nil => rfl
  | cons c cs ih =>
      obtain ⟨hc, hcs⟩ := plain_cons.mp h
      cases cs with
      | nil => rfl
      | cons d cs =>
          have hapart : staysTogether c d = false := by
            have hc := Nat.not_le.mpr (toNat_lt_of_isAlphanum hc)
            have hd := Nat.not_le.mpr (toNat_lt_of_isAlphanum (plain_cons.mp hcs).1)
            simp [staysTogether, isAttaching, isLeading, hc, hd]
          rw [clusters, ih hcs, List.map_cons]
          simp [hapart]

/-! ### Words of plain names -/

/-- A word starts behind `c` when `cs` follows it. -/
def startsBehind (c : Char) (cs : List Char) : Bool :=
  endsWordBefore [c] (cs.map ([·]))

/-- Each character as it is written within a word, the first of a word in capitals. -/
def cased (start : Bool) : List Char → List Char
  | [] => []
  | c :: cs => (if start then c.toUpper else c.toLower) :: cased (startsBehind c cs) cs

theorem words_plain {s : String} (h : Plain s.toList) : words s = wordsOf (s.toList.map ([·])) := by
  rw [words, clusters_plain h]

theorem plain_flatten {cs : List Char} (h : Plain cs) {w : Word} (hw : w ∈ wordsOf (cs.map ([·]))) :
    Plain w.flatten := by
  intro c hc
  obtain ⟨g, hg, hcg⟩ := List.mem_flatten.mp hc
  obtain ⟨d, hd, rfl⟩ := List.mem_map.mp (mem_wordsOf hw hg)
  exact List.mem_singleton.mp hcg ▸ h d hd

theorem capitalized_singleton_cons {c : Char} (hc : c.isAlphanum = true) (w : Word) :
    Word.capitalized ([c] :: w) = c.toUpper :: w.lower := by
  rw [Word.capitalized, Word.lower, upper_singleton hc, List.singleton_append]

theorem lower_singleton_cons {c : Char} (hc : c.isAlphanum = true) {w : Word} (hw : Plain w.flatten) :
    Word.lower ([c] :: w) = c.toLower :: w.lower := by
  rw [Word.lower, Word.lower, List.flatten_cons, List.singleton_append, lower_plain hw,
    lower_plain (plain_cons.mpr ⟨hc, hw⟩), List.map_cons]

/-- All words in capitals, and all but the first, are written as the characters are one by one. -/
theorem wordsOf_cased {cs : List Char} (h : Plain cs) : ∃ w ws, wordsOf (cs.map ([·])) = w :: ws ∧
    w.capitalized ++ ws.flatMap Word.capitalized = cased true cs ∧
    w.lower ++ ws.flatMap Word.capitalized = cased false cs := by
  induction cs with
  | nil => exact ⟨[], [], rfl, rfl, rfl⟩
  | cons c cs ih =>
      obtain ⟨hc, hcs⟩ := plain_cons.mp h
      obtain ⟨w, ws, hwords, hcapitalized, hlower⟩ := ih hcs
      have hflatten : Plain w.flatten := plain_flatten hcs (hwords ▸ List.mem_cons_self)
      have hletter : WordPart.of [c] ≠ .separator := by
        rcases part_cases hc with hpart | hpart | ⟨hpart, -⟩ <;> rw [hpart] <;> decide
      rw [List.map_cons, wordsOf, if_neg hletter, hwords]
      cases hstarts : startsBehind c cs with
      | true =>
          refine ⟨[[c]], w :: ws, if_pos hstarts, ?_, ?_⟩
          · rw [capitalized_singleton_cons hc _, List.flatMap_cons, hcapitalized, cased, hstarts]
            rfl
          · rw [lower_singleton_cons hc (w := []) plain_nil, List.flatMap_cons, hcapitalized, cased, hstarts]
            rfl
      | false =>
          refine ⟨[c] :: w, ws, if_neg (ne_true_of_eq_false hstarts), ?_, ?_⟩
          · rw [capitalized_singleton_cons hc _, List.cons_append, hlower, cased, hstarts]
            rfl
          · rw [lower_singleton_cons hc hflatten, List.cons_append, hlower, cased, hstarts]
            rfl

theorem pascalCase_plain {s : String} (h : Plain s.toList) : pascalCase s = String.ofList (cased true s.toList) := by
  obtain ⟨w, ws, hwords, hcapitalized, -⟩ := wordsOf_cased h
  rw [pascalCase, words_plain h, hwords, List.flatMap_cons, hcapitalized]

theorem camelCase_plain {s : String} (h : Plain s.toList) : camelCase s = String.ofList (cased false s.toList) := by
  obtain ⟨w, ws, hwords, -, hlower⟩ := wordsOf_cased h
  rw [camelCase, words_plain h, hwords]
  exact congrArg String.ofList hlower

/-! ### Reading one style off another -/

/-- The first character in capitals, and the rest as it is. -/
def upperHead : List Char → List Char
  | [] => []
  | c :: cs => c.toUpper :: cs

theorem pascalCase_of_camelCase {s : String} (h : Plain s.toList) :
    pascalCase s = String.ofList (upperHead (camelCase s).toList) := by
  rw [pascalCase_plain h, camelCase_plain h, String.toList_ofList]
  cases hs : s.toList with
  | nil => rfl
  | cons c cs =>
      rw [cased, cased, upperHead, if_pos rfl, if_neg Bool.false_ne_true, Char.toUpper_toLower_eq_toUpper]

theorem capitalized_eq {cs : List Char} (h : Plain cs) {w : Word} (hw : w ∈ wordsOf (cs.map ([·]))) :
    w.capitalized = upperHead w.lower := by
  cases w with
  | nil => rfl
  | cons g w =>
      have hplain := plain_flatten h hw
      obtain ⟨c, hc, rfl⟩ := List.mem_map.mp (mem_wordsOf hw List.mem_cons_self)
      obtain ⟨-, hw⟩ := plain_append.mp hplain
      rw [capitalized_singleton_cons (h c hc), lower_singleton_cons (h c hc) hw, upperHead,
        Char.toUpper_toLower_eq_toUpper]

theorem pascalCase_of_kebabCase {s : String} (h : Plain s.toList) :
    pascalCase s = String.ofList (((kebabCase s).toList.splitOn '-').flatMap upperHead) := by
  have hsplit : (kebabCase s).toList.splitOn '-' = (words s).map Word.lower := by
    rw [kebabCase, joinWords, String.toList_ofList]
    apply List.splitOn_intercalate
    · intro cs hcs hhyphen
      obtain ⟨w, hw, rfl⟩ := List.mem_map.mp hcs
      have hplain := plain_flatten h (words_plain h ▸ hw)
      rw [Word.lower, lower_plain hplain] at hhyphen
      obtain ⟨c, hc, heq⟩ := List.mem_map.mp hhyphen
      exact toLower_ne_hyphen (hplain c hc) heq
    · obtain ⟨w, ws, hwords, -⟩ := wordsOf_cased h
      rw [words_plain h, hwords]
      exact List.cons_ne_nil _ _
  rw [hsplit, List.flatMap_map, pascalCase]
  exact congrArg String.ofList (List.flatMap_congr fun w hw => capitalized_eq h (words_plain h ▸ hw))

/-! ### Names in Pascal case -/

/-- A name of plain letters and digits that is written in Pascal case. -/
def IsPascal (name : String) : Prop :=
  Plain name.toList ∧ pascalCase name = name

instance (name : String) : Decidable (IsPascal name) :=
  inferInstanceAs (Decidable (_ ∧ _))

theorem IsPascal.eq_of_camelCase_eq {s t : String} (hs : IsPascal s) (ht : IsPascal t)
    (h : camelCase s = camelCase t) : s = t := by
  rw [← hs.2, ← ht.2, pascalCase_of_camelCase hs.1, pascalCase_of_camelCase ht.1, h]

theorem isPascal_iff_cased {s : String} : IsPascal s ↔ Plain s.toList ∧ cased true s.toList = s.toList := by
  refine and_congr_right fun h => ?_
  rw [pascalCase_plain h, ← String.toList_inj, String.toList_ofList]

theorem plain_cased {cs : List Char} (h : Plain cs) (start : Bool) : Plain (cased start cs) := by
  induction cs generalizing start with
  | nil => exact plain_nil
  | cons c cs ih =>
      obtain ⟨hc, hcs⟩ := plain_cons.mp h
      refine plain_cons.mpr ⟨?_, ih hcs _⟩
      have hcases : c.toUpper.isAlphanum = true ∧ c.toLower.isAlphanum = true :=
        forall_plain (p := fun c => c.toUpper.isAlphanum = true ∧ c.toLower.isAlphanum = true) (by decide) hc
      cases start with
      | true => exact hcases.1
      | false => exact hcases.2

theorem plain_camelCase {s : String} (h : Plain s.toList) : Plain (camelCase s).toList := by
  rw [camelCase_plain h, String.toList_ofList]
  exact plain_cased h false

/-! ### Plurals -/

theorem startsBehind_small {c d : Char} (hd : WordPart.of [d] = .small) (cs : List Char) :
    startsBehind c (d :: cs) = decide (WordPart.of [c] = .digit) := by
  rw [startsBehind, List.map_cons, endsWordBefore, hd]
  cases WordPart.of [c] <;> rfl

/-- Where the next word starts does not depend on what an ending goes on with behind its first small letter. -/
theorem startsBehind_congr {c d e : Char} (hd : WordPart.of [d] = .small) (he : WordPart.of [e] = .small)
    (cs ds es : List Char) : startsBehind c (cs ++ d :: ds) = startsBehind c (cs ++ e :: es) := by
  cases cs with
  | nil => rw [List.nil_append, List.nil_append, startsBehind_small hd, startsBehind_small he]
  | cons f cs =>
      cases cs with
      | nil => simp [startsBehind, endsWordBefore, hd, he]
      | cons g cs => rfl

/-- What stands in front of a small letter keeps its case when other letters follow the small one. -/
theorem cased_small {d e : Char} (hd : WordPart.of [d] = .small) (he : WordPart.of [e] = .small) (es : List Char)
    {start : Bool} {cs : List Char} (h : cased start (cs ++ [d]) = cs ++ [d]) :
    ∃ next, cased next [d] = [d] ∧ cased start (cs ++ e :: es) = cs ++ cased next (e :: es) := by
  induction cs generalizing start with
  | nil => exact ⟨start, h, rfl⟩
  | cons c cs ih =>
      rw [List.cons_append, cased] at h
      obtain ⟨hhead, htail⟩ := List.cons.inj h
      obtain ⟨next, hnext, hcased⟩ := ih htail
      refine ⟨next, hnext, ?_⟩
      rw [List.cons_append, cased, hhead, startsBehind_congr he hd cs es [], hcased, List.cons_append]

/-- Whether a word ends before a capital may hang on what comes after it, unless the word ends there anyway. -/
theorem endsWord_none {p q : WordPart} (h : q = .capital → p.endsWord q none = true) (next : Option WordPart) :
    p.endsWord q next = p.endsWord q none := by
  cases q with
  | capital =>
      revert h
      cases p <;> simp [WordPart.endsWord]
  | _ => cases p <;> rfl

/-- A last character that is in its case stands in it because of what is in front of it. -/
theorem startsBehind_last {b c : Char} (hc : c.isAlphanum = true) (h : cased (startsBehind b [c]) [c] = [c])
    (cs : List Char) : startsBehind b (c :: cs) = startsBehind b [c] := by
  refine endsWord_none (fun hcapital => ?_) _
  rcases part_cases hc with hpart | hpart | ⟨-, hlower⟩
  · rw [hpart] at hcapital
    cases hcapital
  · rw [hpart] at hcapital
    cases hcapital
  · by_contra hstarts
    -- Without a word that starts with it, the capital would be small.
    have hsmall : startsBehind b [c] = false := Bool.eq_false_iff.mpr hstarts
    rw [hsmall] at h
    exact hlower (List.cons.inj h).1

/-- What is in its case keeps it when a small letter follows, which starts a word behind a digit. -/
theorem cased_append {c d : Char} (hc : c.isAlphanum = true) (hd : WordPart.of [d] = .small) (ds : List Char)
    {start : Bool} {cs : List Char} (h : cased start (cs ++ [c]) = cs ++ [c]) :
    cased start (cs ++ c :: d :: ds) = cs ++ c :: cased (decide (WordPart.of [c] = .digit)) (d :: ds) := by
  induction cs generalizing start with
  | nil =>
      rw [List.nil_append, cased] at h ⊢
      rw [startsBehind_small hd, (List.cons.inj h).1, List.nil_append]
  | cons b cs ih =>
      rw [List.cons_append, cased] at h
      obtain ⟨hhead, htail⟩ := List.cons.inj h
      have hstarts : startsBehind b (cs ++ c :: d :: ds) = startsBehind b (cs ++ [c]) := by
        cases cs with
        | nil => exact startsBehind_last hc htail _
        | cons a cs => cases cs <;> rfl
      rw [List.cons_append, cased, hhead, hstarts, ih htail, List.cons_append]

theorem takesEs_last {cs : List Char} (h : takesEs cs = true) :
    ∃ c, cs.getLast? = some c ∧ c.toLower ∈ ['s', 'x', 'h'] := by
  have hlast {ending : List Char} {d : Char} (hd : ending.getLast? = some d)
      (hending : ending.isSuffixOf (cs.map Char.toLower) = true) : ∃ c, cs.getLast? = some c ∧ c.toLower = d := by
    obtain ⟨front, hfront⟩ := List.isSuffixOf_iff_suffix.mp hending
    have hmap := List.getLast?_map (f := Char.toLower) (l := cs)
    rw [← hfront, List.getLast?_append, hd, Option.some_or] at hmap
    exact Option.map_eq_some_iff.mp hmap.symm
  simp only [takesEs, Bool.or_eq_true] at h
  rcases h with ((h | h) | h) | h
  · obtain ⟨c, hc, hlower⟩ := hlast (d := 's') rfl h
    exact ⟨c, hc, by simp [hlower]⟩
  · obtain ⟨c, hc, hlower⟩ := hlast (d := 'x') rfl h
    exact ⟨c, hc, by simp [hlower]⟩
  · obtain ⟨c, hc, hlower⟩ := hlast (d := 'h') rfl h
    exact ⟨c, hc, by simp [hlower]⟩
  · obtain ⟨c, hc, hlower⟩ := hlast (d := 'h') rfl h
    exact ⟨c, hc, by simp [hlower]⟩

theorem part_ne_digit {c : Char} (hc : c.isAlphanum = true) (h : c.toLower ∈ ['s', 'x', 'h']) :
    WordPart.of [c] ≠ .digit :=
  forall_plain (p := fun c => c.toLower ∈ ['s', 'x', 'h'] → WordPart.of [c] ≠ .digit) (by decide +kernel) hc h

theorem plain_plural {s : String} (h : Plain s.toList) : Plain (plural s).toList := by
  rcases plural_cases s with ⟨-, hplural⟩ | hplural | ⟨stem, -, hs, hplural⟩
  · rw [hplural, String.toList_append]
    exact plain_append.mpr ⟨h, by decide⟩
  · rw [hplural, String.toList_append]
    exact plain_append.mpr ⟨h, by decide⟩
  · rw [hplural, String.toList_append, String.toList_ofList]
    exact plain_append.mpr ⟨(plain_append.mp (hs ▸ h)).1, by decide⟩

/-- A name in Pascal case is there unchanged in front of a small letter, which starts a word behind a digit. -/
theorem IsPascal.cased_followed {s : String} (h : IsPascal s) {c d : Char} (hc : s.toList.getLast? = some c)
    (hd : WordPart.of [d] = .small) (ds : List Char) :
    cased true (s.toList ++ d :: ds) = s.toList ++ cased (decide (WordPart.of [c] = .digit)) (d :: ds) := by
  obtain ⟨hs, hcased⟩ := isPascal_iff_cased.mp h
  obtain ⟨front, hfront⟩ := List.getLast?_eq_some_iff.mp hc
  rw [hfront] at hs hcased ⊢
  rw [List.append_assoc, List.append_assoc]
  exact cased_append (plain_cons.mp (plain_append.mp hs).2).1 hd ds hcased

/-- The plural of a name in Pascal case is in Pascal case too, or it is but for an `s` that follows a digit. -/
theorem isPascal_plural {s : String} (h : IsPascal s) :
    IsPascal (plural s) ∨ plural s = s ++ "s" ∧ pascalCase (plural s) = s ++ "S" := by
  have hplain := plain_plural h.1
  rcases plural_cases s with ⟨hes, hplural⟩ | hplural | ⟨stem, -, hstem, hplural⟩
  · obtain ⟨c, hlast, hc⟩ := takesEs_last hes
    have hletter : c.isAlphanum = true := h.1 c (List.mem_of_getLast? hlast)
    have hcased := h.cased_followed hlast (d := 'e') (by decide +kernel) ['s']
    have hes : cased false ['e', 's'] = ['e', 's'] := by decide +kernel
    rw [decide_eq_false (part_ne_digit hletter hc), hes] at hcased
    have hlist : (plural s).toList = s.toList ++ ['e', 's'] := by
      rw [hplural, String.toList_append]
      rfl
    exact Or.inl (isPascal_iff_cased.mpr ⟨hplain, hlist ▸ hcased⟩)
  · cases hlast : s.toList.getLast? with
    | none =>
        obtain rfl := String.toList_eq_nil_iff.mp (List.getLast?_eq_none_iff.mp hlast)
        exact Or.inr ⟨hplural, by decide +kernel⟩
    | some c =>
        have hcased := h.cased_followed hlast (d := 's') (by decide +kernel) []
        have hlist : (plural s).toList = s.toList ++ ['s'] := by
          rw [hplural, String.toList_append]
          rfl
        cases hdigit : decide (WordPart.of [c] = .digit) with
        | false =>
            rw [hdigit] at hcased
            exact Or.inl (isPascal_iff_cased.mpr ⟨hplain, hlist ▸ hcased⟩)
        | true =>
            rw [hdigit] at hcased
            refine Or.inr ⟨hplural, ?_⟩
            rw [pascalCase_plain hplain, hlist, hcased, ← String.toList_inj, String.toList_ofList, String.toList_append]
            rfl
  · have hs := (isPascal_iff_cased.mp h).2
    rw [hstem] at hs
    obtain ⟨next, hnext, hcased⟩ :=
      cased_small (d := 'y') (e := 'i') (by decide +kernel) (by decide +kernel) ['e', 's'] hs
    have hlist : (plural s).toList = stem ++ ['i', 'e', 's'] := by
      rw [hplural, String.toList_append, String.toList_ofList]
      rfl
    cases next with
    | true => exact absurd hnext (by decide)
    | false =>
        have hies : cased false ['i', 'e', 's'] = ['i', 'e', 's'] := by decide +kernel
        rw [hies] at hcased
        exact Or.inl (isPascal_iff_cased.mpr ⟨hplain, hlist ▸ hcased⟩)

example : IsPascal "S3" ∧ plural "S3" = "S3s" ∧ pascalCase "S3s" = "S3S" := by decide +kernel

theorem getLast?_plural (s : String) : (plural s).toList.getLast? = some 's' := by
  rcases plural_cases s with ⟨-, hplural⟩ | hplural | ⟨stem, -, -, hplural⟩
  · rw [hplural, String.toList_append, List.getLast?_append]
    rfl
  · rw [hplural, String.toList_append, List.getLast?_append]
    rfl
  · rw [hplural, String.toList_append, List.getLast?_append]
    rfl

/-- Plurals of names in Pascal case are told apart by kebab case. -/
theorem IsPascal.plural_eq_of_kebabCase_eq {s t : String} (hs : IsPascal s) (ht : IsPascal t)
    (h : kebabCase (plural s) = kebabCase (plural t)) : plural s = plural t := by
  have hpascal : pascalCase (plural s) = pascalCase (plural t) := by
    rw [pascalCase_of_kebabCase (plain_plural hs.1), pascalCase_of_kebabCase (plain_plural ht.1), h]
  -- A plural ends in a small letter, so it is not the Pascal case of one that ends in a word of one letter.
  have hapart (s t : String) : plural s ≠ t ++ "S" := by
    intro heq
    have hlast := getLast?_plural s
    have hending : "S".toList.getLast? = some 'S' := rfl
    rw [heq, String.toList_append, List.getLast?_append, hending, Option.some_or] at hlast
    exact absurd (Option.some.inj hlast) (by decide)
  rcases isPascal_plural hs with hs | ⟨hs, hs'⟩ <;> rcases isPascal_plural ht with ht | ⟨ht, ht'⟩
  · rw [← hs.2, hpascal, ht.2]
  · rw [hs.2, ht'] at hpascal
    exact absurd hpascal (hapart _ _)
  · rw [ht.2, hs'] at hpascal
    exact absurd hpascal.symm (hapart _ _)
  · rw [hs', ht', ← String.toList_inj, String.toList_append, String.toList_append, List.append_cancel_right_eq,
      String.toList_inj] at hpascal
    rw [hpascal]

end ApiForge.Text
