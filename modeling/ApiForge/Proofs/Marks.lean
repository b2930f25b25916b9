import ApiForge.Naming
import ApiForge.Version
import Mathlib.Data.List.TakeWhile
import Mathlib.Data.String.Basic

/-! What names are made of when they are put into another style: the characters that they had, letters and digits, and
characters beyond ASCII, none of them a blank. So no sign can come in that was not there: what is derived from a name
without slashes is a piece of one path segment, as every version is, and it has no dots if the name has none. -/

namespace ApiForge

namespace Text

/-- Marks come before the capitals; no letter or digit is among them. -/
abbrev IsMark (c : Char) : Prop :=
  0 < c.toNat ∧ c.toNat < 'A'.toNat ∧ c.isDigit = false

/-- A letter or digit, or a character beyond ASCII that is no blank in a source. -/
def isTame (c : Char) : Bool :=
  if c.toNat < 0x80 then c.isAlphanum else c != '\uFEFF'

/-- All code points from `first` to `last` are those of tame characters beyond ASCII. -/
def isTameRange (first last : Nat) : Bool :=
  decide (0x80 ≤ first) && (decide (last < 0xD800) || decide (0xE000 ≤ first) && decide (last < 0x110000)) &&
    (decide (last < 0xFEFF) || decide (0xFEFF < first))

theorem isTame_of_range {first last n : Nat} (h : isTameRange first last = true) (hfirst : first ≤ n)
    (hlast : n ≤ last) : isTame (Char.ofNat n) = true := by
  simp only [isTameRange, Bool.and_eq_true, Bool.or_eq_true, decide_eq_true_eq] at h
  have hvalid : n.isValidChar := by
    rw [Nat.isValidChar]
    omega
  have hcode : (Char.ofNat n).toNat = n := by
    rw [Char.ofNat, dif_pos hvalid]
    rfl
  rw [isTame, hcode, if_neg (by omega), bne_iff_ne]
  intro heq
  have hmark : n = 0xFEFF := by
    rw [← hcode, heq]
    rfl
  omega

/-- Every image in the tables is tame. -/
def isTameTable (runs : List CaseRun) (specials : List (Nat × List Nat)) : Bool :=
  (runs.all fun r => isTameRange (Int.toNat (r.first + r.shift)) (Int.toNat (r.last + r.shift)) ||
    r.first == r.last && isTame (r.image r.first)) &&
  specials.all fun e => e.2.all fun n => isTame (Char.ofNat n)

theorem mem_mapCase {runs : List CaseRun} {specials : List (Nat × List Nat)} (h : isTameTable runs specials = true)
    {c d : Char} (hd : d ∈ mapCase runs specials c) : d = c ∨ isTame d = true := by
  rw [isTameTable, Bool.and_eq_true, List.all_eq_true, List.all_eq_true] at h
  unfold mapCase at hd
  split at hd
  · rename_i image hlookup
    obtain ⟨front, back, hentry, -⟩ := List.lookup_eq_some_iff.mp hlookup
    obtain ⟨n, hn, rfl⟩ := List.mem_map.mp hd
    exact .inr (List.all_eq_true.mp (h.2 (c.toNat, image) (hentry ▸ List.mem_append_right _ List.mem_cons_self)) n hn)
  · split at hd
    · rename_i run hrun
      rw [List.mem_singleton.mp hd]
      have hcovers := List.find?_some hrun
      simp only [CaseRun.covers, Bool.and_eq_true, decide_eq_true_eq] at hcovers
      have htame := h.1 run (List.mem_of_find?_eq_some hrun)
      rw [Bool.or_eq_true, Bool.and_eq_true, beq_iff_eq] at htame
      rcases htame with hrange | ⟨hsingle, himage⟩
      · exact .inr (isTame_of_range hrange (by omega) (by omega))
      · obtain heq : c.toNat = run.first := by omega
        rw [heq]
        exact .inr himage
    · exact .inl (List.mem_singleton.mp hd)

/-- In ASCII only letters become something else. -/
theorem eq_or_isTame_of_ascii {f : Char → Char}
    (h : ∀ n < 0x80, f (Char.ofNat n) = Char.ofNat n ∨ isTame (f (Char.ofNat n)) = true) {c : Char}
    (hc : c.toNat < 0x80) : f c = c ∨ isTame (f c) = true := by
  have hfound := h c.toNat hc
  rwa [Char.ofNat_toNat] at hfound

theorem mem_lowerChar {c d : Char} (h : d ∈ lowerChar c) : d = c ∨ isTame d = true := by
  unfold lowerChar at h
  split at h
  · rename_i hascii
    rw [List.mem_singleton.mp h]
    exact eq_or_isTame_of_ascii (by decide +kernel) hascii
  · exact mem_mapCase (by decide +kernel) h

theorem mem_upperChar {c d : Char} (h : d ∈ upperChar c) : d = c ∨ isTame d = true := by
  unfold upperChar at h
  split at h
  · rename_i hascii
    rw [List.mem_singleton.mp h]
    exact eq_or_isTame_of_ascii (by decide +kernel) hascii
  · exact mem_mapCase (by decide +kernel) h

theorem mem_upper {cs : List Char} {d : Char} (h : d ∈ upper cs) : d ∈ cs ∨ isTame d = true := by
  obtain ⟨c, hc, hd⟩ := List.mem_flatMap.mp h
  exact (mem_upperChar hd).imp_left (by rintro rfl; exact hc)

theorem mem_lowerAfter {before cs : List Char} {d : Char} (h : d ∈ lowerAfter before cs) :
    d ∈ cs ∨ isTame d = true := by
  induction cs generalizing before with
  | nil => cases h
  | cons c cs ih =>
      unfold lowerAfter at h
      rcases List.mem_append.mp h with himage | hrest
      · split at himage
        · rw [List.mem_singleton.mp himage]
          right
          split <;> decide +kernel
        · exact (mem_lowerChar himage).imp_left (by rintro rfl; exact List.mem_cons_self)
      · exact (ih hrest).imp_left (List.mem_cons_of_mem c)

theorem isTame_of_isMark {c : Char} (h : IsMark c) : isTame c = false := by
  have hall : ∀ n < 'A'.toNat, (Char.ofNat n).isDigit = false → isTame (Char.ofNat n) = false := by decide +kernel
  have hc := hall c.toNat h.2.1
  rw [Char.ofNat_toNat] at hc
  exact hc h.2.2

theorem flatten_clusters (cs : List Char) : (clusters cs).flatten = cs := by
  induction cs using clusters.induct with
  | case1 => rfl
  | case2 c => rfl
  | case3 c d rest hnil ih =>
      rw [hnil] at ih
      cases ih
  | case4 c d rest first others heq htogether ih =>
      rw [clusters, heq]
      simp only [if_pos htogether]
      rw [heq] at ih
      rw [List.flatten_cons, List.cons_append, ← List.flatten_cons, ih]
  | case5 c d rest first others heq hapart ih =>
      rw [clusters, heq]
      simp only [if_neg hapart]
      rw [heq] at ih
      rw [List.flatten_cons, ih, List.singleton_append]

theorem mem_wordsOf {gs : List Cluster} {w : Word} {g : Cluster} (hw : w ∈ wordsOf gs) (hg : g ∈ w) : g ∈ gs := by
  induction gs generalizing w with
  | nil =>
      rw [wordsOf, List.mem_singleton] at hw
      rw [hw] at hg
      exact hg
  | cons f gs ih =>
      have hfirst {ws : List Word} (hws : ∀ v ∈ ws, g ∈ v → g ∈ gs) (hv : w ∈ consWord f ws) : g ∈ f :: gs := by
        cases ws with
        | nil =>
            rw [consWord, List.mem_singleton] at hv
            rw [hv] at hg
            exact List.mem_cons.mpr (Or.inl (List.mem_singleton.mp hg))
        | cons v ws =>
            rcases List.mem_cons.mp hv with rfl | hv
            · rcases List.mem_cons.mp hg with rfl | hg
              · exact List.mem_cons_self
              · exact List.mem_cons_of_mem f (hws v List.mem_cons_self hg)
            · exact List.mem_cons_of_mem f (hws w (List.mem_cons_of_mem v hv) hg)
      unfold wordsOf at hw
      split at hw
      · rcases List.mem_cons.mp hw with rfl | hw
        · cases hg
        · exact List.mem_cons_of_mem f (ih hw hg)
      · split at hw
        · rcases List.mem_cons.mp hw with rfl | hw
          · exact List.mem_cons.mpr (Or.inl (List.mem_singleton.mp hg))
          · exact List.mem_cons_of_mem f (ih hw hg)
        · exact hfirst (fun v hv hgv => ih hv hgv) hw

theorem mem_words {s : String} {w : Word} (hw : w ∈ words s) {c : Char} (hc : c ∈ w.flatten) : c ∈ s.toList := by
  obtain ⟨g, hg, hmem⟩ := List.mem_flatten.mp hc
  rw [← flatten_clusters s.toList]
  exact List.mem_flatten.mpr ⟨g, mem_wordsOf hw hg, hmem⟩

theorem mem_intercalate_singleton {sep d : Char} {texts : List (List Char)} (h : d ∈ [sep].intercalate texts) :
    d = sep ∨ ∃ text ∈ texts, d ∈ text := by
  induction texts with
  | nil => cases h
  | cons text texts ih =>
      cases texts with
      | nil => exact .inr ⟨text, List.mem_cons_self, by rwa [List.intercalate_singleton] at h⟩
      | cons next texts =>
          rw [List.intercalate_cons_cons, List.append_assoc, List.mem_append, List.mem_append, List.mem_singleton] at h
          rcases h with h | h | h
          · exact .inr ⟨text, List.mem_cons_self, h⟩
          · exact .inl h
          · refine (ih h).imp_right ?_
            rintro ⟨found, hfound, hd⟩
            exact ⟨found, List.mem_cons_of_mem text hfound, hd⟩

theorem Word.mem_lower {w : Word} {d : Char} (h : d ∈ w.lower) : d ∈ w.flatten ∨ isTame d = true :=
  mem_lowerAfter h

theorem Word.mem_capitalized {w : Word} {d : Char} (h : d ∈ w.capitalized) : d ∈ w.flatten ∨ isTame d = true := by
  cases w with
  | nil => cases h
  | cons g w =>
      rw [List.flatten_cons]
      rcases List.mem_append.mp h with h | h
      · exact (mem_upper h).imp_left (List.mem_append_left _)
      · exact (mem_lowerAfter h).imp_left (List.mem_append_right _)

/-- Between words in small letters stands what joins them. -/
theorem mem_joinWords {sep d : Char} {s : String} (h : d ∈ (joinWords sep s).toList) :
    d ∈ s.toList ∨ isTame d = true ∨ d = sep := by
  rw [joinWords, String.toList_ofList] at h
  rcases mem_intercalate_singleton h with h | ⟨_, hword, hd⟩
  · exact .inr (.inr h)
  · obtain ⟨w, hw, rfl⟩ := List.mem_map.mp hword
    exact (Word.mem_lower hd).imp (mem_words hw) .inl

theorem mem_camelCase {s : String} {d : Char} (h : d ∈ (camelCase s).toList) : d ∈ s.toList ∨ isTame d = true := by
  have hword {w : Word} (hw : w ∈ words s) (hd : d ∈ w.flatten ∨ isTame d = true) :=
    hd.imp_left (mem_words hw)
  unfold camelCase at h
  split at h
  · cases h
  · rename_i w ws hwords
    rw [hwords] at hword
    rw [String.toList_ofList, List.mem_append, List.mem_flatMap] at h
    rcases h with h | ⟨v, hv, h⟩
    · exact hword List.mem_cons_self (Word.mem_lower h)
    · exact hword (List.mem_cons_of_mem w hv) (Word.mem_capitalized h)

/-- Names in small letters have a mark, other than the one between their words, only if the name has it. -/
theorem mem_of_mem_joinWords {sep d : Char} (hd : IsMark d) (hsep : sep ≠ d) {s : String}
    (h : d ∈ (joinWords sep s).toList) : d ∈ s.toList := by
  rcases mem_joinWords h with hs | htame | rfl
  · exact hs
  · exact absurd (htame.symm.trans (isTame_of_isMark hd)) (by decide)
  · exact absurd rfl hsep

theorem markless_snakeCase {d : Char} (hd : IsMark d) {s : String} (h : d ∉ s.toList) : d ∉ (snakeCase s).toList := by
  intro hmark
  refine h (mem_of_mem_joinWords hd ?_ hmark)
  rintro rfl
  exact absurd hd (by decide)

theorem markless_packageCase {d : Char} (hd : IsMark d) {s : String} (h : d ∉ s.toList) :
    d ∉ (packageCase s).toList := by
  intro hmark
  rw [packageCase, String.toList_ofList] at hmark
  exact markless_snakeCase hd h (List.mem_of_mem_filter hmark)

theorem markless_kebabCase {d : Char} (hd : IsMark d) (hhyphen : d ≠ '-') {s : String} (h : d ∉ s.toList) :
    d ∉ (kebabCase s).toList :=
  fun hmark => h (mem_of_mem_joinWords hd hhyphen.symm hmark)

theorem markless_controller {d : Char} (hd : IsMark d) (hhyphen : d ≠ '-') {s : String} (h : d ∉ s.toList) :
    d ∉ (GroupNames.ofGroup s).controller.toList := by
  rw [GroupNames.ofGroup, String.toList_append, List.mem_append, not_or]
  refine ⟨markless_kebabCase hd hhyphen h, fun hmark => ?_⟩
  -- Behind the name there are letters and a hyphen.
  have hall : ("-controller".toList.all fun c => decide (IsMark c → c = '-')) = true := by decide +kernel
  exact hhyphen (of_decide_eq_true (List.all_eq_true.mp hall d hmark) hd)

theorem slashless_snakeCase {s : String} (h : '/' ∉ s.toList) : '/' ∉ (snakeCase s).toList :=
  markless_snakeCase (by decide) h

end Text

namespace Version

/-- A version is a `v`, a digit, and small letters and digits. -/
theorem chars_of_isValid {version : String} (h : isValid version = true) :
    ∃ d rest, version.toList = 'v' :: d :: rest ∧ d.isDigit = true ∧ ∀ c ∈ rest, isSuffixPart c = true := by
  have hdigit {c : Char} (hc : c.isDigit = true) : isSuffixPart c = true := by
    rw [isSuffixPart, hc, Bool.or_true]
  rw [isValid, split?] at h
  split at h
  · rename_i chars hchars
    dsimp only at h
    split at h
    · rename_i hparts
      obtain ⟨hdigits, hsuffix⟩ := hparts
      cases chars with
      | nil => exact absurd rfl hdigits
      | cons d rest =>
          have hd : d.isDigit = true := by
            by_contra hd
            exact hdigits (List.takeWhile_cons_of_neg hd)
          rw [List.dropWhile_cons_of_pos hd] at hsuffix
          refine ⟨d, rest, hchars, hd, fun c hc => ?_⟩
          rw [← List.takeWhile_append_dropWhile (p := Char.isDigit) (l := rest), List.mem_append] at hc
          rcases hc with hc | hc
          · exact hdigit (List.mem_takeWhile_imp hc)
          · cases hdrop : rest.dropWhile Char.isDigit with
            | nil =>
                rw [hdrop] at hc
                cases hc
            | cons first others =>
                rw [hdrop] at hc hsuffix
                rw [isSuffix, Bool.and_eq_true, List.all_eq_true] at hsuffix
                rcases List.mem_cons.mp hc with rfl | hc
                · rw [isSuffixPart, hsuffix.1, Bool.true_or]
                · exact hsuffix.2 c hc
    · cases h
  · cases h

/-- A version is made of small letters and digits, so it has no marks. -/
theorem not_isMark_of_isValid {version : String} (h : isValid version = true) :
    ∀ c ∈ version.toList, ¬Text.IsMark c := by
  have hdigit {c : Char} (hc : c.isDigit = true) : ¬Text.IsMark c :=
    fun hmark => absurd (hc.symm.trans hmark.2.2) (by decide)
  have hletter {c : Char} (hc : isSuffixStart c = true) : ¬Text.IsMark c := by
    rw [isSuffixStart, Bool.and_eq_true, decide_eq_true_eq] at hc
    have hle : 'a'.toNat ≤ c.toNat := UInt32.le_iff_toNat_le.mp hc.1
    exact fun hmark => absurd hmark.2.1 (Nat.not_lt.mpr (Nat.le_trans (by decide) hle))
  obtain ⟨d, rest, hchars, hd, hrest⟩ := chars_of_isValid h
  rw [hchars, List.forall_mem_cons, List.forall_mem_cons]
  refine ⟨by decide, hdigit hd, fun c hc => ?_⟩
  have hpart := hrest c hc
  rw [isSuffixPart, Bool.or_eq_true] at hpart
  exact hpart.elim hletter hdigit

/-- A version has no slash, and it is not made of dots. -/
theorem segment_of_isValid {version : String} (h : isValid version = true) :
    '/' ∉ version.toList ∧ 'v' ∈ version.toList := by
  refine ⟨fun hslash => not_isMark_of_isValid h '/' hslash (by decide), ?_⟩
  obtain ⟨d, rest, hchars, -⟩ := chars_of_isValid h
  rw [hchars]
  exact List.mem_cons_self

end Version

end ApiForge
