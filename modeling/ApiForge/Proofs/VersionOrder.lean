import ApiForge.Proofs.LatestVersions

/-! The order of versions against the order of their numbers. A version is written as a number, with any zeros in front,
and a suffix. Versions are in the order of their numbers up to the largest one that the key holds; from there on all
numbers are one, and the suffixes decide alone. -/

namespace ApiForge

namespace Version

/-- Pre-releases come before the stable version, and among themselves in the order of their characters. -/
def suffixOrder : List Char → List Char → Ordering
  | [], [] => .eq
  | [], _ :: _ => .gt
  | _ :: _, [] => .lt
  | c :: cs, d :: ds => List.compareLex Ord.compare (c :: cs) (d :: ds)

theorem suffixOrder_eq (s t : List Char) :
    suffixOrder s t = (Ord.compare s.isEmpty t.isEmpty).then (List.compareLex Ord.compare s t) := by
  cases s <;> cases t <;> rfl

theorem suffixOrder_eq_eq_iff {s t : List Char} : suffixOrder s t = .eq ↔ s = t := by
  rw [suffixOrder_eq, Ordering.then_eq_eq]
  constructor
  · exact fun h => Std.LawfulEqCmp.eq_of_compare h.2
  · rintro rfl
    exact ⟨Std.ReflCmp.compare_self, Std.ReflCmp.compare_self⟩

/-- A well-formed version in its two parts. -/
@[ext] structure Written where
  digits : List Char
  suffix : List Char
  numbered : digits ≠ []
  decimal : ∀ c ∈ digits, c.isDigit = true
  wellFormed : isSuffix suffix = true

namespace Written

def text (w : Written) : String :=
  String.ofList ('v' :: (w.digits ++ w.suffix))

def number (w : Written) : Nat :=
  numberOf w.digits

/-- Numbers decide, and suffixes where the numbers are the same. -/
def order (x y : Written) : Ordering :=
  (Ord.compare x.number y.number).then (suffixOrder x.suffix y.suffix)

theorem split?_text (w : Written) : split? w.text = some (w.digits, w.suffix) := by
  obtain ⟨htake, hdrop⟩ := takeWhile_suffix w.wellFormed
  simp only [split?, text, String.toList_ofList, List.takeWhile_append_of_pos w.decimal,
    List.dropWhile_append_of_pos w.decimal, htake, hdrop, List.append_nil]
  exact if_pos ⟨w.numbered, w.wellFormed⟩

theorem text_injective : Function.Injective text := by
  intro x y h
  have hsplit := congrArg split? h
  rw [split?_text, split?_text, Option.some.injEq, Prod.mk.injEq] at hsplit
  exact Written.ext hsplit.1 hsplit.2

theorem exists_text {version : String} (h : isValid version = true) : ∃ w : Written, w.text = version := by
  obtain ⟨⟨digits, suffix⟩, hsplit⟩ := Option.isSome_iff_exists.mp h
  rw [split?] at hsplit
  split at hsplit
  · rename_i rest hrest
    dsimp only at hsplit
    split_ifs at hsplit with hparts
    obtain ⟨rfl, rfl⟩ := Prod.mk.inj (Option.some.inj hsplit)
    refine ⟨⟨_, _, hparts.1, fun c hc => List.mem_takeWhile_imp hc, hparts.2⟩, ?_⟩
    rw [text, List.takeWhile_append_dropWhile, ← hrest, String.ofList_toList]
  · cases hsplit

theorem isValid_text (w : Written) : isValid w.text = true := by
  rw [isValid, split?_text]
  rfl

theorem key_text (w : Written) : key w.text = ⟨min w.number numberLimit, w.suffix.isEmpty, w.suffix⟩ := by
  simp only [key, split?_text, number]

/-- The order of two versions, number for number up to the limit. -/
theorem compare_text (x y : Written) : compare x.text y.text =
    (Ord.compare (min x.number numberLimit) (min y.number numberLimit)).then (suffixOrder x.suffix y.suffix) := by
  rw [compare, key_text, key_text, suffixOrder_eq]
  rfl

theorem compare_text_eq_order {x y : Written} (h : x.number < numberLimit ∨ y.number < numberLimit) :
    compare x.text y.text = x.order y := by
  have hnumbers : Ord.compare (min x.number numberLimit) (min y.number numberLimit) =
      Ord.compare x.number y.number := by
    simp only [Nat.compare_eq_ite_lt]
    split_ifs <;> first | rfl | omega
  rw [compare_text, hnumbers, order]

theorem compare_text_of_ge {x y : Written} (hx : numberLimit ≤ x.number) (hy : numberLimit ≤ y.number) :
    compare x.text y.text = suffixOrder x.suffix y.suffix := by
  rw [compare_text, Nat.min_eq_right hx, Nat.min_eq_right hy, Nat.compare_eq_eq.mpr rfl, Ordering.eq_then]

/-- From the limit on suffixes decide alone, which is right for one number and where they agree with the numbers. -/
theorem compare_text_eq_order_iff {x y : Written} : compare x.text y.text = x.order y ↔
    x.number < numberLimit ∨ y.number < numberLimit ∨ x.number = y.number ∨
      suffixOrder x.suffix y.suffix = Ord.compare x.number y.number := by
  by_cases hsmall : x.number < numberLimit ∨ y.number < numberLimit
  · exact iff_of_true (compare_text_eq_order hsmall) (by tauto)
  · obtain ⟨hx, hy⟩ := not_or.mp hsmall
    rw [compare_text_of_ge (not_lt.mp hx) (not_lt.mp hy), order, or_iff_right hx, or_iff_right hy]
    by_cases hsame : x.number = y.number
    · rw [Nat.compare_eq_eq.mpr hsame, Ordering.eq_then]
      exact iff_of_true rfl (Or.inl hsame)
    · rw [or_iff_right hsame]
      cases hnumbers : Ord.compare x.number y.number with
      | lt => rfl
      | gt => rfl
      | eq => exact absurd (Nat.compare_eq_eq.mp hnumbers) hsame

theorem compare_text_eq_eq_iff {x y : Written} : compare x.text y.text = .eq ↔
    min x.number numberLimit = min y.number numberLimit ∧ x.suffix = y.suffix := by
  rw [compare_text, Ordering.then_eq_eq, suffixOrder_eq_eq_iff, Nat.compare_eq_eq]

end Written

end Version

open Version in
/-- The valid versions are the numbers with a suffix, each in one way, and they are compared by number and then by suffix
exactly when one of the numbers is below the limit, the numbers are the same, or the suffixes happen to say what the
numbers say. The order is a total preorder that ties versions with one suffix and one number, numbers from the limit on
counting as one. -/
theorem versions_numerical_iff (version : String) (x y : Written) (a b c : String) :
    (Version.isValid version = true ↔ ∃! w : Written, w.text = version) ∧
    (Version.compare x.text y.text = x.order y ↔
      x.number < numberLimit ∨ y.number < numberLimit ∨ x.number = y.number ∨
        suffixOrder x.suffix y.suffix = Ord.compare x.number y.number) ∧
    (numberLimit ≤ x.number → numberLimit ≤ y.number →
      Version.compare x.text y.text = suffixOrder x.suffix y.suffix) ∧
    (Version.compare x.text y.text = .eq ↔
      min x.number numberLimit = min y.number numberLimit ∧ x.suffix = y.suffix) ∧
    Version.compare b a = (Version.compare a b).swap ∧
    (Version.le a b = true ∨ Version.le b a = true) ∧
    (Version.le a b = true → Version.le b c = true → Version.le a c = true) := by
  refine ⟨⟨fun h => ?_, ?_⟩, Written.compare_text_eq_order_iff, Written.compare_text_of_ge,
    Written.compare_text_eq_eq_iff, compare_swap a b, le_total a b, Version.le_trans⟩
  · obtain ⟨w, hw⟩ := Written.exists_text h
    exact ⟨w, hw, fun _ h => Written.text_injective (h.trans hw.symm)⟩
  · rintro ⟨w, rfl, -⟩
    exact w.isValid_text

open Version in
/-- From the limit on, numbers of any length are one. -/
theorem numbers_beyond_limit : ∃ x y : Written,
    x.text = "v18446744073709551616alpha" ∧ y.text = "v99999999999999999999alpha" ∧
      numberLimit ≤ x.number ∧ numberLimit ≤ y.number ∧
      Version.compare x.text y.text = suffixOrder x.suffix y.suffix := by
  have hlarge : numberLimit ≤ numberOf "18446744073709551616".toList ∧
      numberLimit ≤ numberOf "99999999999999999999".toList := by decide +kernel
  let x : Written := ⟨"18446744073709551616".toList, "alpha".toList, by decide, List.all_eq_true.mp (by decide), by decide⟩
  let y : Written := ⟨"99999999999999999999".toList, "alpha".toList, by decide, List.all_eq_true.mp (by decide), by decide⟩
  obtain ⟨-, -, hsuffix, -⟩ := versions_numerical_iff "v1" x y "v1" "v2" "v3"
  exact ⟨x, y, by decide +kernel, by decide +kernel, hlarge.1, hlarge.2, hsuffix hlarge.1 hlarge.2⟩

/-- Zeros in front of a number do not count. -/
example : Version.compare "v007" "v7" = .eq ∧ Version.compare "v007alpha" "v7" = .lt := by decide +kernel

open Version in
/-- The pre-release of a number that is too large comes before the stable version of a smaller number. -/
theorem larger_number_comes_first : ∃ x y : Written,
    x.text = "v18446744073709551616alpha" ∧ y.text = "v18446744073709551615" ∧
      y.number < x.number ∧ x.order y = .gt ∧ Version.compare x.text y.text = .lt := by
  refine ⟨⟨"18446744073709551616".toList, "alpha".toList, by decide, List.all_eq_true.mp (by decide), by decide⟩,
    ⟨"18446744073709551615".toList, [], by decide, List.all_eq_true.mp (by decide), by decide⟩, ?_⟩
  decide +kernel

end ApiForge
