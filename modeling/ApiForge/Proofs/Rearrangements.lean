import ApiForge.Proofs.MigrationOrder
import ApiForge.Proofs.Order

/-! What migration orders leave alone. Establishing an order takes no name away and moves none but its own two, in the
list of its own version, so whether a later order can be established is seen from the lists at the start, although it
is asked of lists that the orders before it have rearranged. -/

namespace ApiForge

/-! ### What an index lists -/

/-- The name is in the list of names to migrate in the version. -/
def Listed (index : List VersionIndex) (version name : String) : Prop :=
  ∃ v ∈ index, v.version = version ∧ name ∈ v.databaseNames

instance (index : List VersionIndex) (version name : String) : Decidable (Listed index version name) :=
  inferInstanceAs (Decidable (∃ v ∈ index, v.version = version ∧ name ∈ v.databaseNames))

/-- The names of the order that its version does not list. -/
def MigrationOrder.unlisted (o : MigrationOrder) (index : List VersionIndex) : List String :=
  [o.before, o.after].filter fun name => ¬Listed index o.version name

theorem Listed.rearranged {index index' : List VersionIndex} {version name : String} (h : Listed index version name)
    (hindex : List.Forall₂ VersionIndex.Rearranged index index') : Listed index' version name := by
  obtain ⟨v, hv, hversion, hname⟩ := h
  obtain ⟨v', hv', hkept⟩ := exists_of_forall₂_left hindex hv
  exact ⟨v', hv', hkept.version.trans hversion, hkept.databaseNames.mem_iff.mpr hname⟩

theorem unlisted_rearranged {index index' : List VersionIndex} (h : List.Forall₂ VersionIndex.Rearranged index index')
    (o : MigrationOrder) : o.unlisted index' = o.unlisted index := by
  refine List.filter_congr fun name _ => ?_
  rw [decide_eq_decide]
  exact not_congr ⟨fun hname => hname.rearranged (forall₂_rearranged_symm h), fun hname => hname.rearranged h⟩

/-- With one entry a version, what a version lists is what its entry has. -/
theorem listed_iff_of_find? {index : List VersionIndex} (hversions : (index.map VersionIndex.version).Nodup)
    {version : String} {v : VersionIndex} (hfind : index.find? (·.version == version) = some v) (name : String) :
    Listed index version name ↔ name ∈ v.databaseNames := by
  have hversion : v.version = version := by simpa using List.find?_some hfind
  have hv := List.mem_of_find?_eq_some hfind
  constructor
  · rintro ⟨w, hw, hwversion, hname⟩
    obtain rfl : w = v := List.inj_on_of_nodup_map hversions hw hv (hwversion.trans hversion.symm)
    exact hname
  · exact fun hname => ⟨v, hv, hversion, hname⟩

/-- A version that is not there lists nothing. -/
theorem MigrationOrder.unlisted_of_absent {o : MigrationOrder} {index : List VersionIndex}
    (h : ∀ v ∈ index, v.version ≠ o.version) : o.unlisted index = [o.before, o.after] := by
  rw [unlisted, List.filter_eq_self]
  intro name _
  rw [decide_eq_true_eq]
  rintro ⟨v, hv, hversion, -⟩
  exact h v hv hversion

theorem MigrationOrder.unlisted_eq_nil_iff {o : MigrationOrder} {index : List VersionIndex} :
    o.unlisted index = [] ↔ Listed index o.version o.before ∧ Listed index o.version o.after := by
  simp [unlisted]

/-- An order fails for the names that are not listed. -/
theorem MigrationOrder.apply_eq {index : List VersionIndex} (hversions : (index.map VersionIndex.version).Nodup)
    (o : MigrationOrder) : o.apply index =
      if o.unlisted index = [] then
        .ok (updateVersion o.version (fun v => { v with databaseNames := o.arrange v.databaseNames }) index)
      else .error (.missingMigrationTargets o.version (o.unlisted index)) := by
  rw [apply]
  split
  · rename_i hnone
    have habsent : ∀ v ∈ index, v.version ≠ o.version := by simpa using List.find?_eq_none.mp hnone
    rw [unlisted_of_absent habsent, if_neg (List.cons_ne_nil _ _)]
  · rename_i v hfind
    have hmissing : o.missingFrom v.databaseNames = o.unlisted index := by
      refine List.filter_congr fun name _ => ?_
      rw [Bool.eq_iff_iff]
      simp [listed_iff_of_find? hversions hfind]
    rw [hmissing]
    cases o.unlisted index with
    | nil => rfl
    | cons name names => rfl

/-! ### What stays in place -/

/-- No name but those of the order comes to stand elsewhere, however often it is in the list. -/
theorem MigrationOrder.getElem?_arrange {o : MigrationOrder} {names : List String} {name : String}
    (hbefore : name ≠ o.before) (hafter : name ≠ o.after) (i : Nat) :
    (o.arrange names)[i]? = some name ↔ names[i]? = some name := by
  rw [arrange]
  split
  · by_cases hb : o.before ∈ names
    · by_cases ha : o.after ∈ names
      · rw [swapEntries_eq hb ha]
        by_cases hj : names.idxOf o.after = i
        · subst hj
          rw [List.getElem?_set_self (by simpa using List.idxOf_lt_length_iff.mpr ha), List.getElem?_idxOf ha]
          exact iff_of_false (fun h => hbefore (Option.some.inj h).symm) fun h => hafter (Option.some.inj h).symm
        · rw [List.getElem?_set_ne hj]
          by_cases hi : names.idxOf o.before = i
          · subst hi
            rw [List.getElem?_set_self (List.idxOf_lt_length_iff.mpr hb), List.getElem?_idxOf hb]
            exact iff_of_false (fun h => hafter (Option.some.inj h).symm) fun h => hbefore (Option.some.inj h).symm
          · rw [List.getElem?_set_ne hi]
      · rename_i hlt
        have hle : names.idxOf o.before ≤ names.length := List.idxOf_le_length
        rw [List.idxOf_eq_length_iff.mpr ha] at hlt
        omega
    · have hnone : names[names.idxOf o.before]? = none := by
        rw [List.idxOf_eq_length_iff.mpr hb, List.getElem?_eq_none_iff]
      rw [swapEntries, hnone]
  · exact Iff.rfl

/-- A version after some orders. Only names that an order for this version mentions may stand elsewhere, and without
such orders nothing does. -/
structure VersionIndex.ArrangedBy (orders : List MigrationOrder) (v v' : VersionIndex) : Prop extends
    v.Rearranged v' where
  unmentioned : ∀ name, (∀ o ∈ orders, o.version = v.version → name ≠ o.before ∧ name ≠ o.after) →
    ∀ i : Nat, v'.databaseNames[i]? = some name ↔ v.databaseNames[i]? = some name
  unnamed : (∀ o ∈ orders, o.version ≠ v.version) → v' = v

namespace VersionIndex.ArrangedBy

variable {orders : List MigrationOrder} {u v w : VersionIndex}

theorem refl (orders : List MigrationOrder) (v : VersionIndex) : v.ArrangedBy orders v :=
  ⟨.refl v, fun _ _ _ => Iff.rfl, fun _ => rfl⟩

theorem trans (huv : u.ArrangedBy orders v) (hvw : v.ArrangedBy orders w) : u.ArrangedBy orders w where
  toRearranged := huv.toRearranged.trans hvw.toRearranged
  unmentioned name hname i :=
    (hvw.unmentioned name (huv.version ▸ hname) i).trans (huv.unmentioned name hname i)
  unnamed hnone := (hvw.unnamed (huv.version ▸ hnone)).trans (huv.unnamed hnone)

end VersionIndex.ArrangedBy

theorem MigrationOrder.arrangedBy_arrange {orders : List MigrationOrder} {o : MigrationOrder} (ho : o ∈ orders)
    {v : VersionIndex} (hversion : v.version = o.version) :
    v.ArrangedBy orders { v with databaseNames := o.arrange v.databaseNames } where
  toRearranged := o.rearranged_arrange v
  unmentioned name hname i := by
    obtain ⟨hbefore, hafter⟩ := hname o ho hversion.symm
    exact getElem?_arrange hbefore hafter i
  unnamed hnone := absurd hversion.symm (hnone o ho)

/-! ### Orders one after the other -/

theorem map_version_rearranged {index index' : List VersionIndex}
    (h : List.Forall₂ VersionIndex.Rearranged index index') :
    index'.map VersionIndex.version = index.map VersionIndex.version := by
  induction h with
  | nil => rfl
  | cons hkept _ ih => rw [List.map_cons, List.map_cons, hkept.version, ih]

/-- Orders move only what they mention. -/
theorem applyOrders_arrangedBy (orders : List MigrationOrder) (index : List VersionIndex) :
    List.Forall₂ (VersionIndex.ArrangedBy orders) index (applyOrders orders index).1 :=
  applyOrders_forall₂ (.refl orders) (fun _ _ _ => .trans) (fun _ ho _ => MigrationOrder.arrangedBy_arrange ho) index

/-- Orders stop at the first that mentions an unlisted name. -/
theorem applyOrders_fault {index : List VersionIndex} (hversions : (index.map VersionIndex.version).Nodup)
    (orders : List MigrationOrder) :
    (applyOrders orders index).2 = (orders.find? fun o => o.unlisted index ≠ []).map fun o =>
      .missingMigrationTargets o.version (o.unlisted index) := by
  induction orders generalizing index with
  | nil => rfl
  | cons o orders ih =>
      rw [applyOrders, o.apply_eq hversions]
      by_cases hlisted : o.unlisted index = []
      · have hkept := updateVersion_forall₂ .refl (fun v (_ : v.version = o.version) => o.rearranged_arrange v) index
        have hfault := ih ((map_version_rearranged hkept).symm ▸ hversions)
        simp only [unlisted_rearranged hkept] at hfault
        rw [if_pos hlisted, List.find?_cons_of_neg (by simpa using hlisted)]
        exact hfault
      · rw [if_neg hlisted, List.find?_cons_of_pos (by simpa using hlisted)]
        rfl

/-- Orders only ever rearrange an index, whether all are established or one of them fails: what they do not mention
keeps its place, and what is not a list of names to migrate stays as it is. The order that fails is the first that
mentions a name which its version does not list from the start, and it fails for exactly those of its names. -/
theorem orders_only_rearrange {index : List VersionIndex} (hversions : (index.map VersionIndex.version).Nodup)
    (orders : List MigrationOrder) :
    List.Forall₂ (VersionIndex.ArrangedBy orders) index (applyOrders orders index).1 ∧
      ((applyOrders orders index).2 = none ↔
        ∀ o ∈ orders, Listed index o.version o.before ∧ Listed index o.version o.after) ∧
      (∀ fault, (applyOrders orders index).2 = some fault ↔ ∃ front o back, orders = front ++ o :: back ∧
        (∀ p ∈ front, Listed index p.version p.before ∧ Listed index p.version p.after) ∧
        ¬(Listed index o.version o.before ∧ Listed index o.version o.after) ∧
        fault = .missingMigrationTargets o.version
          ([o.before, o.after].filter fun name => ¬Listed index o.version name)) ∧
      ∀ o : MigrationOrder, (∀ v ∈ index, v.version ≠ o.version) →
        ([o.before, o.after].filter fun name => ¬Listed index o.version name) = [o.before, o.after] := by
  have hfault := applyOrders_fault hversions orders
  refine ⟨applyOrders_arrangedBy orders index, ?_, fun fault => ?_, fun o habsent => MigrationOrder.unlisted_of_absent habsent⟩
  · rw [hfault, Option.map_eq_none_iff, List.find?_eq_none]
    refine forall₂_congr fun o _ => ?_
    rw [decide_eq_true_eq, not_not, MigrationOrder.unlisted_eq_nil_iff]
  · rw [hfault, Option.map_eq_some_iff]
    simp only [List.find?_eq_some_iff_append, decide_eq_true_eq, ne_eq, MigrationOrder.unlisted_eq_nil_iff,
      Bool.not_eq_eq_eq_not, Bool.not_true, decide_eq_false_iff_not, not_not]
    constructor
    · rintro ⟨o, ⟨hfails, front, back, horders, hfront⟩, rfl⟩
      exact ⟨front, o, back, horders, hfront, hfails, rfl⟩
    · rintro ⟨front, o, back, horders, hfront, hfails, rfl⟩
      exact ⟨o, ⟨hfails, front, back, horders, hfront⟩, rfl⟩

/-- The first order has been established when the second fails for the one name of its two that is not listed. The
name between the others keeps its place, and so does the list of the other version. -/
theorem halted_orders_rearrange :
    let index : List VersionIndex := [⟨"v0", ["Chart"], ["Release", "Chart", "Values"], []⟩, ⟨"v1", [], ["Chart"], []⟩]
    let orders : List MigrationOrder := [⟨"Values", "Release", "v0"⟩, ⟨"Values", "Hook", "v0"⟩, ⟨"A", "B", "v2"⟩]
    (index.map VersionIndex.version).Nodup ∧
      (applyOrders orders index).1 =
        [⟨"v0", ["Chart"], ["Values", "Chart", "Release"], []⟩, ⟨"v1", [], ["Chart"], []⟩] ∧
      List.Forall₂ (VersionIndex.ArrangedBy orders) index (applyOrders orders index).1 ∧
      (applyOrders orders index).2 = some (.missingMigrationTargets "v0" ["Hook"]) := by
  intro index orders
  have hversions : (index.map VersionIndex.version).Nodup := by decide
  obtain ⟨harranged, -, hfails, -⟩ := orders_only_rearrange hversions orders
  refine ⟨hversions, by decide, harranged, (hfails _).mpr ?_⟩
  exact ⟨[⟨"Values", "Release", "v0"⟩], ⟨"Values", "Hook", "v0"⟩, [⟨"A", "B", "v2"⟩], rfl, by decide, by decide,
    by decide⟩

end ApiForge
