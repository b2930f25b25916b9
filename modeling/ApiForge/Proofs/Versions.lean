import ApiForge.Model.Build
import ApiForge.Proofs.Order

/-! The order of versions and what it does to the list of versions of an object. Versions that are different texts can
have one rank, such as `v1` and `v01`; sorting leaves these in the order of the list, so a repeated version is found
only where no other version of its rank was listed in between. -/

namespace ApiForge

namespace Version

instance : Std.TransCmp Key.compare :=
  have : Std.TransCmp fun a b : Key => List.compareLex Ord.compare a.suffix b.suffix :=
    { eq_swap := Std.OrientedCmp.eq_swap, isLE_trans := Std.TransCmp.isLE_trans }
  inferInstanceAs (Std.TransCmp (compareLex (compareOn Key.number) (compareLex (compareOn Key.stable)
    fun a b => List.compareLex Ord.compare a.suffix b.suffix)))

instance : Std.TransCmp Version.compare where
  eq_swap {a b} := (Std.OrientedCmp.eq_swap : (key a).compare (key b) = ((key b).compare (key a)).swap)
  isLE_trans {a _ c} hab hbc :=
    (Std.TransCmp.isLE_trans hab hbc : ((key a).compare (key c)).isLE)

theorem compare_swap (a b : String) : Version.compare b a = (Version.compare a b).swap :=
  Std.OrientedCmp.eq_swap

theorem le_total (a b : String) : le a b = true ∨ le b a = true := by
  rw [le, le, compare_swap a b]
  cases Version.compare a b <;> simp [Ordering.isLE]

theorem le_trans {a b c : String} (hab : le a b = true) (hbc : le b c = true) : le a c = true :=
  Std.TransCmp.isLE_trans hab hbc

theorem le_refl (v : String) : le v v = true :=
  (le_total v v).elim id id

theorem le_iff_ne_gt {a b : String} : le a b = true ↔ Version.compare a b ≠ .gt :=
  Ordering.isLE_iff_ne_gt

/-- Versions of one rank. -/
theorem compare_eq_iff {a b : String} : Version.compare a b = .eq ↔ le a b = true ∧ le b a = true := by
  rw [le, le, compare_swap a b]
  cases Version.compare a b <;> simp [Ordering.isLE]

theorem sort_perm (versions : List String) : (sort versions).Perm versions :=
  sortBy_perm versions

theorem sort_pairwise (versions : List String) : (sort versions).Pairwise fun a b => le a b = true :=
  sortBy_pairwise le_total (fun _ _ _ => le_trans) versions

theorem sort_eq_self {versions : List String} (h : versions.Pairwise fun a b => le a b = true) :
    sort versions = versions := by
  rw [sort, sortBy_eq_insertionSort]
  exact h.insertionSort_eq

/-- Some version is listed again after a different one of the same rank. -/
def Interleaved (versions : List String) : Prop :=
  ∃ a b, a ≠ b ∧ Version.compare a b = .eq ∧ [a, b, a].Sublist versions

/-- Between two listings of a version sorting leaves the versions of its rank that stood there, and no others. -/
theorem sublist_sort_iff {versions : List String} {a b : String} :
    [a, b, a].Sublist (sort versions) ↔ Version.compare a b = .eq ∧ [a, b, a].Sublist versions := by
  let ties (c : String) : Bool := le a c && le c a
  have hstable : (sort versions).filter ties = versions.filter ties := by
    refine filter_sortBy (fun c d hc hd => ?_) versions
    simp only [ties, Bool.and_eq_true] at hc hd
    exact le_trans hc.2 hd.1
  have hkept (htie : ties b = true) : [a, b, a].filter ties = [a, b, a] := by
    simp [ties, le_refl] at htie ⊢
    exact htie
  constructor
  · intro hsub
    have hsorted := (sort_pairwise versions).sublist hsub
    simp only [List.pairwise_cons, List.mem_cons, List.not_mem_nil, or_false] at hsorted
    have hab : le a b = true := hsorted.1 b (Or.inl rfl)
    have hba : le b a = true := hsorted.2.1 a rfl
    refine ⟨compare_eq_iff.mpr ⟨hab, hba⟩, ?_⟩
    have hfiltered := hsub.filter ties
    rw [hkept (by simp [ties, hab, hba]), hstable] at hfiltered
    exact hfiltered.trans List.filter_sublist
  · rintro ⟨htie, hsub⟩
    obtain ⟨hab, hba⟩ := compare_eq_iff.mp htie
    have hfiltered := hsub.filter ties
    rw [hkept (by simp [ties, hab, hba]), ← hstable] at hfiltered
    exact hfiltered.trans List.filter_sublist

end Version

namespace GroupConfig

theorem mem_objectVersions {o : ObjectConfig} {version : String} : version ∈ objectVersions o ↔ version ∈ o.versions := by
  rw [objectVersions, mem_dropRepeats, Version.sort, mem_sortBy]

theorem mem_versions {c : GroupConfig} {version : String} :
    version ∈ c.versions ↔ ∃ o ∈ c.objects, version ∈ o.versions := by
  rw [versions, Version.sort, mem_sortBy, mem_distinct, List.mem_flatMap]

theorem objectVersions_pairwise (o : ObjectConfig) : (objectVersions o).Pairwise fun a b => Version.le a b = true :=
  (Version.sort_pairwise o.versions).sublist (dropRepeats_sublist _)

theorem nodup_objectVersions_iff {o : ObjectConfig} :
    (objectVersions o).Nodup ↔ ¬Version.Interleaved o.versions := by
  rw [objectVersions, nodup_dropRepeats_iff, Version.Interleaved]
  simp only [Version.sublist_sort_iff, not_exists, not_and]

end GroupConfig

end ApiForge
