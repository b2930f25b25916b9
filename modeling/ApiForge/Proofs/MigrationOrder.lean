import ApiForge.Model.Migration
import Mathlib.Data.List.Basic
import Mathlib.Data.List.Dedup
import Mathlib.Order.MinMax
import Mathlib.Order.Nat

/-! What migration orders do to the list of a version. Seen from the positions of the names, establishing an order
puts the smaller of two positions first and moves nothing else, so a list of orders is a network of comparators. A
later comparator can undo an earlier one only through a name that is early in the one and late in the other. -/

namespace ApiForge

/-- `a` is migrated ahead of `b`. -/
def Precedes (names : List String) (a b : String) : Prop :=
  b ∈ names ∧ names.idxOf a < names.idxOf b

instance (names : List String) (a b : String) : Decidable (Precedes names a b) :=
  inferInstanceAs (Decidable (_ ∧ _))

/-! ### One order -/

theorem swapEntries_eq {names : List String} {a b : String} (ha : a ∈ names) (hb : b ∈ names) :
    swapEntries names (names.idxOf a) (names.idxOf b) = (names.set (names.idxOf a) b).set (names.idxOf b) a := by
  rw [swapEntries, List.getElem?_idxOf ha, List.getElem?_idxOf hb]

theorem swapEntries_perm (names : List String) (i j : Nat) : (swapEntries names i j).Perm names := by
  rw [swapEntries]
  split
  · rename_i a b ha hb
    obtain ⟨hi, rfl⟩ := List.getElem?_eq_some_iff.mp ha
    obtain ⟨hj, rfl⟩ := List.getElem?_eq_some_iff.mp hb
    exact List.set_set_perm hi hj
  · exact List.Perm.refl _

theorem MigrationOrder.arrange_perm (o : MigrationOrder) (names : List String) : (o.arrange names).Perm names := by
  rw [arrange]
  split
  · exact swapEntries_perm _ _ _
  · exact List.Perm.refl _

/-- Two names trade their positions and all others keep theirs. -/
theorem idxOf_swapEntries {names : List String} (hnodup : names.Nodup) {a b : String} (ha : a ∈ names) (hb : b ∈ names)
    {n : String} (hn : n ∈ names) :
    (swapEntries names (names.idxOf a) (names.idxOf b)).idxOf n =
      if n = a then names.idxOf b else if n = b then names.idxOf a else names.idxOf n := by
  have hi := List.idxOf_lt_length_iff.mpr ha
  have hj := List.idxOf_lt_length_iff.mpr hb
  have hswapped : (swapEntries names (names.idxOf a) (names.idxOf b)).Nodup :=
    (swapEntries_perm _ _ _).nodup_iff.mpr hnodup
  rw [swapEntries_eq ha hb] at hswapped ⊢
  -- In a list without repetition the position of a name is wherever the name is found.
  have position {m : Nat} (hfound : ((names.set (names.idxOf a) b).set (names.idxOf b) a)[m]? = some n) :
      ((names.set (names.idxOf a) b).set (names.idxOf b) a).idxOf n = m := by
    obtain ⟨hm, hget⟩ := List.getElem?_eq_some_iff.mp hfound
    rw [← hget]
    exact hswapped.idxOf_getElem m hm
  by_cases hna : n = a
  · rw [if_pos hna]
    exact position (by rw [List.getElem?_set_self (by simpa using hj), hna])
  · rw [if_neg hna]
    by_cases hnb : n = b
    · rw [if_pos hnb]
      have hne : names.idxOf b ≠ names.idxOf a := fun h => hna (hnb.trans ((List.idxOf_inj hb).mp h))
      exact position (by rw [List.getElem?_set_ne hne, List.getElem?_set_self hi, hnb])
    · rw [if_neg hnb]
      have hnej : names.idxOf b ≠ names.idxOf n := fun h => hnb ((List.idxOf_inj hn).mp h.symm)
      have hnei : names.idxOf a ≠ names.idxOf n := fun h => hna ((List.idxOf_inj hn).mp h.symm)
      exact position (by rw [List.getElem?_set_ne hnej, List.getElem?_set_ne hnei, List.getElem?_idxOf hn])

/-- An order compares the positions of its two names and exchanges them if they are the wrong way round. -/
theorem MigrationOrder.idxOf_arrange {o : MigrationOrder} {names : List String} (hnodup : names.Nodup)
    (hbefore : o.before ∈ names) (hafter : o.after ∈ names) {n : String} (hn : n ∈ names) :
    (o.arrange names).idxOf n =
      if n = o.before then min (names.idxOf o.before) (names.idxOf o.after)
      else if n = o.after then max (names.idxOf o.before) (names.idxOf o.after)
      else names.idxOf n := by
  rw [arrange]
  split
  · rename_i hlt
    rw [idxOf_swapEntries hnodup hbefore hafter hn, min_eq_right hlt.le, max_eq_left hlt.le]
  · rename_i hle
    rw [min_eq_left (not_lt.mp hle), max_eq_right (not_lt.mp hle)]
    split
    · rename_i heq
      rw [heq]
    · split
      · rename_i heq
        rw [heq]
      · rfl

/-! ### Orders one after the other -/

/-- The list with all orders established, each in what the ones before it have left. -/
def arrangeAll (orders : List MigrationOrder) (names : List String) : List String :=
  orders.foldl (fun names o => o.arrange names) names

/-- All orders speak of names in the list. -/
def Concern (orders : List MigrationOrder) (names : List String) : Prop :=
  ∀ o ∈ orders, o.before ∈ names ∧ o.after ∈ names

theorem Concern.perm {orders : List MigrationOrder} {names names' : List String} (h : Concern orders names)
    (hperm : names'.Perm names) : Concern orders names' :=
  fun o ho => ⟨hperm.mem_iff.mpr (h o ho).1, hperm.mem_iff.mpr (h o ho).2⟩

theorem Concern.tail {o : MigrationOrder} {orders : List MigrationOrder} {names : List String}
    (h : Concern (o :: orders) names) : Concern orders (o.arrange names) :=
  Concern.perm (fun p hp => h p (List.mem_cons_of_mem _ hp)) (o.arrange_perm names)

theorem arrangeAll_append (front back : List MigrationOrder) (names : List String) :
    arrangeAll (front ++ back) names = arrangeAll back (arrangeAll front names) :=
  List.foldl_append

theorem arrangeAll_perm (orders : List MigrationOrder) (names : List String) : (arrangeAll orders names).Perm names := by
  induction orders generalizing names with
  | nil => exact List.Perm.refl _
  | cons o orders ih => exact (ih (o.arrange names)).trans (o.arrange_perm names)

/-- A name that comes late in none of the orders only moves to the front. -/
theorem idxOf_arrangeAll_le {orders : List MigrationOrder} {names : List String} (hnodup : names.Nodup)
    (h : Concern orders names) {n : String} (hn : n ∈ names) (hlate : ∀ o ∈ orders, o.after ≠ n) :
    (arrangeAll orders names).idxOf n ≤ names.idxOf n := by
  induction orders generalizing names with
  | nil => exact le_refl _
  | cons o orders ih =>
      have hrest := ih ((o.arrange_perm names).nodup_iff.mpr hnodup) h.tail ((o.arrange_perm names).mem_iff.mpr hn)
        (fun p hp => hlate p (List.mem_cons_of_mem _ hp))
      have hstep : (o.arrange names).idxOf n ≤ names.idxOf n := by
        have ho := h o List.mem_cons_self
        rw [MigrationOrder.idxOf_arrange hnodup ho.1 ho.2 hn]
        split
        · rename_i heq
          rw [heq]
          exact min_le_left _ _
        · rw [if_neg (hlate o List.mem_cons_self).symm]
      exact hrest.trans hstep

/-- A name that comes early in none of the orders only moves to the back. -/
theorem le_idxOf_arrangeAll {orders : List MigrationOrder} {names : List String} (hnodup : names.Nodup)
    (h : Concern orders names) {n : String} (hn : n ∈ names) (hearly : ∀ o ∈ orders, o.before ≠ n) :
    names.idxOf n ≤ (arrangeAll orders names).idxOf n := by
  induction orders generalizing names with
  | nil => exact le_refl _
  | cons o orders ih =>
      have hrest := ih ((o.arrange_perm names).nodup_iff.mpr hnodup) h.tail ((o.arrange_perm names).mem_iff.mpr hn)
        (fun p hp => hearly p (List.mem_cons_of_mem _ hp))
      have hstep : names.idxOf n ≤ (o.arrange names).idxOf n := by
        have ho := h o List.mem_cons_self
        rw [MigrationOrder.idxOf_arrange hnodup ho.1 ho.2 hn, if_neg (hearly o List.mem_cons_self).symm]
        split
        · rename_i heq
          rw [heq]
          exact le_max_right _ _
        · exact le_refl _
      exact hstep.trans hrest

/-! ### Orders in an index -/

/-- `names` is the list of names to migrate in a version. -/
def Migrates (index : List VersionIndex) (version : String) (names : List String) : Prop :=
  (index.find? (·.version == version)).map VersionIndex.databaseNames = some names

theorem find?_updateVersion {version : String} {change : VersionIndex → VersionIndex}
    (hkeep : ∀ v, (change v).version = v.version) (index : List VersionIndex) :
    (updateVersion version change index).find? (·.version == version) =
      (index.find? (·.version == version)).map change := by
  induction index with
  | nil => rfl
  | cons v vs ih =>
      by_cases hv : v.version = version
      · simp [updateVersion, hv, hkeep]
      · simp [updateVersion, hv, ih]

theorem MigrationOrder.missingFrom_eq_nil_iff {o : MigrationOrder} {names : List String} :
    o.missingFrom names = [] ↔ o.before ∈ names ∧ o.after ∈ names := by
  simp [missingFrom]

/-- An order of a version whose names are all there is established in the list of that version. -/
theorem MigrationOrder.apply_ok {o : MigrationOrder} {index : List VersionIndex} {names : List String}
    (hnames : Migrates index o.version names) (hbefore : o.before ∈ names) (hafter : o.after ∈ names) :
    ∃ index', o.apply index = .ok index' ∧ Migrates index' o.version (o.arrange names) := by
  obtain ⟨v, hfind, rfl⟩ := Option.map_eq_some_iff.mp hnames
  refine ⟨updateVersion o.version (fun v => { v with databaseNames := o.arrange v.databaseNames }) index, ?_, ?_⟩
  · rw [apply, hfind]
    simp only [missingFrom_eq_nil_iff.mpr ⟨hbefore, hafter⟩]
  · rw [Migrates, find?_updateVersion, hfind]
    · rfl
    · intro v
      rfl

/-- Orders of one version whose names are all there never fail, whatever they contradict. -/
theorem applyOrders_ok {version : String} {orders : List MigrationOrder} {index : List VersionIndex}
    {names : List String} (hversion : ∀ o ∈ orders, o.version = version) (hnames : Migrates index version names)
    (h : Concern orders names) :
    ∃ index', applyOrders orders index = (index', none) ∧ Migrates index' version (arrangeAll orders names) := by
  induction orders generalizing index names with
  | nil => exact ⟨index, rfl, hnames⟩
  | cons o orders ih =>
      have ho := h o List.mem_cons_self
      obtain rfl := hversion o List.mem_cons_self
      obtain ⟨index', happly, hnames'⟩ := MigrationOrder.apply_ok hnames ho.1 ho.2
      obtain ⟨index'', hrest, hnames''⟩ := ih (fun p hp => hversion p (List.mem_cons_of_mem _ hp)) hnames' h.tail
      refine ⟨index'', ?_, hnames''⟩
      rw [applyOrders, happly]
      exact hrest

/-- A version whose list may have been rearranged; nothing else about it is different. -/
structure VersionIndex.Rearranged (v v' : VersionIndex) : Prop where
  version : v'.version = v.version
  routeNames : v'.routeNames = v.routeNames
  reconciledNames : v'.reconciledNames = v.reconciledNames
  databaseNames : v'.databaseNames.Perm v.databaseNames

theorem VersionIndex.Rearranged.refl (v : VersionIndex) : v.Rearranged v :=
  ⟨rfl, rfl, rfl, List.Perm.refl _⟩

theorem VersionIndex.Rearranged.trans {u v w : VersionIndex} (huv : u.Rearranged v) (hvw : v.Rearranged w) :
    u.Rearranged w :=
  ⟨hvw.version.trans huv.version, hvw.routeNames.trans huv.routeNames,
    hvw.reconciledNames.trans huv.reconciledNames, hvw.databaseNames.trans huv.databaseNames⟩

theorem forall₂_trans {α : Type} {R : α → α → Prop} (htrans : ∀ a b c, R a b → R b c → R a c) {as bs cs : List α}
    (hab : List.Forall₂ R as bs) (hbc : List.Forall₂ R bs cs) : List.Forall₂ R as cs := by
  induction hab generalizing cs with
  | nil => exact hbc
  | cons h _ ih =>
      obtain ⟨c, rest, hc, hrest, rfl⟩ := List.forall₂_cons_left_iff.mp hbc
      exact List.Forall₂.cons (htrans _ _ _ h hc) (ih hrest)

section Steps

variable {R : VersionIndex → VersionIndex → Prop} (hrefl : ∀ v, R v v)

include hrefl

theorem updateVersion_forall₂ {version : String} {change : VersionIndex → VersionIndex}
    (hchange : ∀ v : VersionIndex, v.version = version → R v (change v)) (index : List VersionIndex) :
    List.Forall₂ R index (updateVersion version change index) := by
  induction index with
  | nil => exact List.Forall₂.nil
  | cons v vs ih =>
      rw [updateVersion]
      split
      · rename_i hversion
        exact List.Forall₂.cons (hchange v hversion) (List.forall₂_same.mpr fun w _ => hrefl w)
      · exact List.Forall₂.cons (hrefl v) ih

theorem MigrationOrder.apply_forall₂ {o : MigrationOrder}
    (hstep : ∀ v : VersionIndex, v.version = o.version → R v { v with databaseNames := o.arrange v.databaseNames })
    {index index' : List VersionIndex} (h : o.apply index = .ok index') : List.Forall₂ R index index' := by
  rw [apply] at h
  split at h
  · cases h
  · split at h
    · cases h
      exact updateVersion_forall₂ hrefl hstep index
    · cases h

/-- What each order keeps in the list of its version, all of them keep, however far they come. -/
theorem applyOrders_forall₂ (htrans : ∀ u v w, R u v → R v w → R u w) {orders : List MigrationOrder}
    (hstep : ∀ o ∈ orders, ∀ v : VersionIndex, v.version = o.version →
      R v { v with databaseNames := o.arrange v.databaseNames }) (index : List VersionIndex) :
    List.Forall₂ R index (applyOrders orders index).1 := by
  induction orders generalizing index with
  | nil => exact List.forall₂_same.mpr fun v _ => hrefl v
  | cons o orders ih =>
      rw [List.forall_mem_cons] at hstep
      rw [applyOrders]
      split
      · exact List.forall₂_same.mpr fun v _ => hrefl v
      · rename_i index' happly
        exact forall₂_trans htrans (o.apply_forall₂ hrefl hstep.1 happly) (ih hstep.2 index')

end Steps

theorem MigrationOrder.rearranged_arrange (o : MigrationOrder) (v : VersionIndex) :
    v.Rearranged { v with databaseNames := o.arrange v.databaseNames } :=
  ⟨rfl, rfl, rfl, o.arrange_perm v.databaseNames⟩

/-- Whether all orders can be established or not, the lists of names to migrate are only rearranged. -/
theorem applyOrders_rearranged (orders : List MigrationOrder) (index : List VersionIndex) :
    List.Forall₂ VersionIndex.Rearranged index (applyOrders orders index).1 :=
  applyOrders_forall₂ .refl (fun _ _ _ => .trans) (fun o _ v _ => o.rearranged_arrange v) index

/-! ### When all orders can be established -/

theorem VersionIndex.Rearranged.symm {v w : VersionIndex} (h : v.Rearranged w) : w.Rearranged v :=
  ⟨h.version.symm, h.routeNames.symm, h.reconciledNames.symm, h.databaseNames.symm⟩

theorem forall₂_rearranged_symm {index index' : List VersionIndex}
    (h : List.Forall₂ VersionIndex.Rearranged index index') : List.Forall₂ VersionIndex.Rearranged index' index :=
  h.flip.imp fun _ _ hkept => hkept.symm

theorem Migrates.rearranged {index index' : List VersionIndex} (h : List.Forall₂ VersionIndex.Rearranged index index')
    {version : String} {names : List String} (hnames : Migrates index version names) :
    ∃ names', Migrates index' version names' ∧ names'.Perm names := by
  induction h with
  | nil => cases hnames
  | @cons v w _ _ hvw _ ih =>
      by_cases hversion : v.version = version
      · have hversion' : w.version = version := hvw.version.trans hversion
        refine ⟨w.databaseNames, by simp [Migrates, hversion'], ?_⟩
        have hv : v.databaseNames = names := by simpa [Migrates, hversion] using hnames
        exact hv ▸ hvw.databaseNames
      · have hversion' : w.version ≠ version := hvw.version ▸ hversion
        obtain ⟨names', hnames', hperm⟩ := ih (by simpa [Migrates, hversion] using hnames)
        exact ⟨names', by simpa [Migrates, hversion'] using hnames', hperm⟩

/-- The order is for a version that is there, and both of its names are in the list of that version. -/
def MigrationOrder.Applies (o : MigrationOrder) (index : List VersionIndex) : Prop :=
  ∃ names, Migrates index o.version names ∧ o.before ∈ names ∧ o.after ∈ names

theorem MigrationOrder.Applies.rearranged {o : MigrationOrder} {index index' : List VersionIndex} (h : o.Applies index)
    (hindex : List.Forall₂ VersionIndex.Rearranged index index') : o.Applies index' := by
  obtain ⟨names, hnames, hbefore, hafter⟩ := h
  obtain ⟨names', hnames', hperm⟩ := hnames.rearranged hindex
  exact ⟨names', hnames', hperm.mem_iff.mpr hbefore, hperm.mem_iff.mpr hafter⟩

theorem MigrationOrder.applies_of_apply {o : MigrationOrder} {index index' : List VersionIndex}
    (h : o.apply index = .ok index') : o.Applies index := by
  rw [apply] at h
  split at h
  · cases h
  · rename_i v hfind
    split at h
    · rename_i hmissing
      exact ⟨v.databaseNames, by rw [Migrates, hfind, Option.map_some], missingFrom_eq_nil_iff.mp hmissing⟩
    · cases h

/-- No order fails exactly if each of them could be established on its own: what the orders before it do to the lists
takes no name away. -/
theorem applyOrders_eq_none_iff {orders : List MigrationOrder} {index : List VersionIndex} :
    (applyOrders orders index).2 = none ↔ ∀ o ∈ orders, o.Applies index := by
  induction orders generalizing index with
  | nil => simp [applyOrders]
  | cons o orders ih =>
      rw [applyOrders, List.forall_mem_cons]
      split
      · rename_i fault hfault
        simp only [reduceCtorEq, false_iff]
        rintro ⟨⟨names, hnames, hbefore, hafter⟩, -⟩
        obtain ⟨index', hok, -⟩ := o.apply_ok hnames hbefore hafter
        rw [hok] at hfault
        cases hfault
      · rename_i index' hok
        have hindex := o.apply_forall₂ .refl (fun v _ => o.rearranged_arrange v) hok
        have hback := forall₂_rearranged_symm hindex
        rw [ih, and_iff_right (MigrationOrder.applies_of_apply hok)]
        exact forall₂_congr fun p _ => ⟨fun hp => hp.rearranged hback, fun hp => hp.rearranged hindex⟩

/-! ### When all orders hold in the end -/

/-- No name has to be late in one order and early in another. -/
def Unchained (orders : List MigrationOrder) : Prop :=
  ∀ o ∈ orders, ∀ p ∈ orders, o.after ≠ p.before

theorem Unchained.perm {orders listing : List MigrationOrder} (h : Unchained orders) (hperm : listing.Perm orders) :
    Unchained listing :=
  fun o ho p hp => h o (hperm.mem_iff.mp ho) p (hperm.mem_iff.mp hp)

/-- Without chains an order that has been established is never undone: what is early only moves to the front from
then on, and what is late only to the back. -/
theorem precedes_of_unchained {orders : List MigrationOrder} {names : List String} (hnodup : names.Nodup)
    (h : Concern orders names) (hfree : Unchained orders) :
    ∀ o ∈ orders, Precedes (arrangeAll orders names) o.before o.after := by
  intro o ho
  obtain ⟨front, back, rfl⟩ := List.append_of_mem ho
  have hnames := arrangeAll_perm front names
  have hhere : Concern (o :: back) (arrangeAll front names) :=
    Concern.perm (fun p hp => h p (List.mem_append_right _ hp)) hnames
  have hnodup' : (arrangeAll front names).Nodup := hnames.nodup_iff.mpr hnodup
  have hmem := hhere o List.mem_cons_self
  have hhead := o.arrange_perm (arrangeAll front names)
  have hnodup'' : (o.arrange (arrangeAll front names)).Nodup := hhead.nodup_iff.mpr hnodup'
  have hback : ∀ p ∈ back, p ∈ front ++ o :: back :=
    fun p hp => List.mem_append_right _ (List.mem_cons_of_mem _ hp)
  have hne : o.before ≠ o.after := (hfree o ho o ho).symm
  have hnow : (o.arrange (arrangeAll front names)).idxOf o.before <
      (o.arrange (arrangeAll front names)).idxOf o.after := by
    rw [MigrationOrder.idxOf_arrange hnodup' hmem.1 hmem.2 hmem.1,
      MigrationOrder.idxOf_arrange hnodup' hmem.1 hmem.2 hmem.2, if_pos rfl, if_neg hne.symm, if_pos rfl]
    exact min_lt_max.mpr fun heq => hne ((List.idxOf_inj hmem.1).mp heq)
  rw [arrangeAll_append, arrangeAll, List.foldl_cons, ← arrangeAll]
  refine ⟨(arrangeAll_perm back _).mem_iff.mpr (hhead.mem_iff.mpr hmem.2), ?_⟩
  calc _ ≤ (o.arrange (arrangeAll front names)).idxOf o.before :=
        idxOf_arrangeAll_le hnodup'' hhere.tail (hhead.mem_iff.mpr hmem.1)
          fun p hp => hfree p (hback p hp) o ho
    _ < (o.arrange (arrangeAll front names)).idxOf o.after := hnow
    _ ≤ _ := le_idxOf_arrangeAll hnodup'' hhere.tail (hhead.mem_iff.mpr hmem.2)
          fun p hp heq => hfree o ho p (hback p hp) heq.symm

/-- An order whose late name is last of all changes nothing. -/
theorem MigrationOrder.arrange_of_last {o : MigrationOrder} {names : List String} (hbefore : o.before ∈ names)
    (hlast : ∀ n ∈ names, names.idxOf n ≤ names.idxOf o.after) : o.arrange names = names := by
  rw [arrange, if_neg (not_lt.mpr (hlast _ hbefore))]

theorem arrangeAll_of_last {orders : List MigrationOrder} {names : List String} (h : Concern orders names)
    (hlast : ∀ o ∈ orders, ∀ n ∈ names, names.idxOf n ≤ names.idxOf o.after) : arrangeAll orders names = names := by
  induction orders with
  | nil => rfl
  | cons o orders ih =>
      rw [arrangeAll, List.foldl_cons,
        MigrationOrder.arrange_of_last (h o List.mem_cons_self).1 (hlast o List.mem_cons_self)]
      exact ih (fun p hp => h p (List.mem_cons_of_mem _ hp)) fun p hp => hlast p (List.mem_cons_of_mem _ hp)

/-- The names of the orders with `c` in front of all others and `b` behind them. -/
def stretched (orders : List MigrationOrder) (b c : String) : List String :=
  c :: ((orders.flatMap fun o => [o.before, o.after]).dedup.filter fun n => n ≠ b ∧ n ≠ c) ++ [b]

theorem nodup_stretched (orders : List MigrationOrder) {b c : String} (hne : c ≠ b) : (stretched orders b c).Nodup := by
  have hmiddle := (List.nodup_dedup (orders.flatMap fun o => [o.before, o.after])).filter
    fun n => decide (n ≠ b ∧ n ≠ c)
  rw [stretched, List.cons_append, List.nodup_cons, List.nodup_append]
  refine ⟨by simp [hne], hmiddle, List.nodup_singleton b, ?_⟩
  intro n hn m hm
  simp only [List.mem_filter, decide_eq_true_eq] at hn
  rw [List.mem_singleton.mp hm]
  exact hn.2.1

theorem idxOf_stretched (orders : List MigrationOrder) {b c : String} (hne : c ≠ b) :
    (stretched orders b c).idxOf b = (stretched orders b c).length - 1 := by
  have hnotin : b ∉ c :: ((orders.flatMap fun o => [o.before, o.after]).dedup.filter fun n => n ≠ b ∧ n ≠ c) := by
    simp [hne.symm]
  rw [stretched, List.idxOf_append_of_notMem hnotin]
  simp

theorem concern_stretched (orders : List MigrationOrder) (b c : String) : Concern orders (stretched orders b c) := by
  have hmem : ∀ n, (∃ o ∈ orders, n = o.before ∨ n = o.after) → n ∈ stretched orders b c := by
    intro n hn
    by_cases hb : n = b
    · simp [stretched, hb]
    · by_cases hc : n = c
      · simp [stretched, hc]
      · have : n ∈ (orders.flatMap fun o => [o.before, o.after]) := by simpa using hn
        simp [stretched, hb, hc, List.mem_dedup.mpr this]
  exact fun o ho => ⟨hmem _ ⟨o, ho, Or.inl rfl⟩, hmem _ ⟨o, ho, Or.inr rfl⟩⟩

/-- The orders with those first that have `b` late, and `p` right after them. -/
def sabotaged (orders : List MigrationOrder) (b : String) (p : MigrationOrder) : List MigrationOrder :=
  orders.filter (·.after = b) ++ p :: (orders.filter (·.after ≠ b)).erase p

theorem sabotaged_perm {orders : List MigrationOrder} {b : String} {p : MigrationOrder} (hp : p ∈ orders)
    (hne : p.after ≠ b) : (sabotaged orders b p).Perm orders := by
  have hmem : p ∈ orders.filter (·.after ≠ b) := by simpa [hp] using hne
  have hsplit := List.filter_append_perm (fun o : MigrationOrder => decide (o.after = b)) orders
  simp only [← decide_not] at hsplit
  exact ((List.perm_cons_erase hmem).symm.append_left _).trans hsplit

/-- A chain can be listed so that its middle name ends up first of all, where nothing is ahead of it. -/
theorem idxOf_sabotaged {orders : List MigrationOrder} {p : MigrationOrder} (hp : p ∈ orders)
    (hne : p.after ≠ p.before) :
    (arrangeAll (sabotaged orders p.before p) (stretched orders p.before p.after)).idxOf p.before = 0 := by
  have hnodup := nodup_stretched orders hne
  have hconcern := concern_stretched orders p.before p.after
  have hmem := hconcern p hp
  have hlast : ∀ n ∈ stretched orders p.before p.after, (stretched orders p.before p.after).idxOf n ≤
      (stretched orders p.before p.after).idxOf p.before := by
    intro n hn
    have hlength := List.idxOf_lt_length_iff.mpr hn
    rw [idxOf_stretched orders hne]
    simp only [stretched, List.length_append, List.length_singleton] at hlength ⊢
    omega
  have hfirst : (stretched orders p.before p.after).idxOf p.after = 0 := by
    simp [stretched]
  have hfront : arrangeAll (orders.filter (·.after = p.before)) (stretched orders p.before p.after) =
      stretched orders p.before p.after := by
    apply arrangeAll_of_last
    · exact fun o ho => hconcern o (List.mem_of_mem_filter ho)
    · intro o ho n hn
      rw [show o.after = p.before by simpa using (List.mem_filter.mp ho).2]
      exact hlast n hn
  have hback : Concern (p :: (orders.filter (·.after ≠ p.before)).erase p) (stretched orders p.before p.after) := by
    intro o ho
    rcases List.mem_cons.mp ho with rfl | ho
    · exact hmem
    · exact hconcern o (List.mem_of_mem_filter (List.mem_of_mem_erase ho))
  have hhead := p.arrange_perm (stretched orders p.before p.after)
  rw [sabotaged, arrangeAll_append, hfront, arrangeAll, List.foldl_cons, ← arrangeAll]
  apply Nat.eq_zero_of_le_zero
  calc _ ≤ (p.arrange (stretched orders p.before p.after)).idxOf p.before := by
        apply idxOf_arrangeAll_le (hhead.nodup_iff.mpr hnodup) hback.tail (hhead.mem_iff.mpr hmem.1)
        intro o ho
        simpa using (List.mem_filter.mp (List.mem_of_mem_erase ho)).2
    _ = 0 := by
        rw [MigrationOrder.idxOf_arrange hnodup hmem.1 hmem.2 hmem.1, if_pos rfl, hfirst, Nat.min_zero]

/-- Orders of one version on names that are all there never fail, and only rearrange the names. That they all hold
in the end, for every list of names and however they are listed, is to say that none of them is chained to another. -/
theorem orders_hold_iff_unchained (version : String) (orders : List MigrationOrder)
    (hversion : ∀ o ∈ orders, o.version = version) :
    (∀ index names, Migrates index version names → Concern orders names →
      ∀ listing : List MigrationOrder, listing.Perm orders →
        ∃ index' names', applyOrders listing index = (index', none) ∧ Migrates index' version names' ∧
          names'.Perm names) ∧
    ((∀ index names, Migrates index version names → names.Nodup → Concern orders names →
      ∀ listing : List MigrationOrder, listing.Perm orders →
        ∃ index' names', applyOrders listing index = (index', none) ∧ Migrates index' version names' ∧
          ∀ o ∈ orders, Precedes names' o.before o.after) ↔
      Unchained orders) := by
  have hlisted {listing : List MigrationOrder} (hperm : listing.Perm orders) : ∀ o ∈ listing, o.version = version :=
    fun o ho => hversion o (hperm.mem_iff.mp ho)
  have hconcern {listing : List MigrationOrder} {names : List String} (hperm : listing.Perm orders)
      (h : Concern orders names) : Concern listing names := fun o ho => h o (hperm.mem_iff.mp ho)
  refine ⟨?_, ?_, ?_⟩
  · intro index names hnames h listing hperm
    obtain ⟨index', happly, hnames'⟩ := applyOrders_ok (hlisted hperm) hnames (hconcern hperm h)
    exact ⟨index', _, happly, hnames', arrangeAll_perm _ _⟩
  · intro hall o ho p hp heq
    have hnow {names : List String} (hnodup : names.Nodup) (h : Concern orders names) {listing : List MigrationOrder}
        (hperm : listing.Perm orders) : ∀ q ∈ orders, Precedes (arrangeAll listing names) q.before q.after := by
      have hnames : Migrates [⟨version, [], names, []⟩] version names := by simp [Migrates]
      obtain ⟨index', names', happly, hnames', hkept⟩ := hall _ names hnames hnodup h listing hperm
      obtain ⟨index'', happly', hnames''⟩ := applyOrders_ok (hlisted hperm) hnames (hconcern hperm h)
      rw [happly, Prod.mk.injEq] at happly'
      rw [happly'.1] at hnames'
      rw [Migrates, hnames', Option.some.injEq] at hnames''
      exact hnames'' ▸ hkept
    by_cases hloop : p.after = p.before
    · -- An order of a name with itself holds in no list.
      have hself := hnow (nodup_stretched orders (b := "") (c := "a") (by decide)) (concern_stretched orders "" "a")
        (List.Perm.refl orders) p hp
      rw [hloop] at hself
      exact lt_irrefl _ hself.2
    · have hkept := hnow (nodup_stretched orders hloop) (concern_stretched orders p.before p.after)
        (sabotaged_perm hp hloop) o ho
      rw [heq] at hkept
      exact Nat.not_lt_zero _ (idxOf_sabotaged hp hloop ▸ hkept.2)
  · intro hfree index names hnames hnodup h listing hperm
    obtain ⟨index', happly, hnames'⟩ := applyOrders_ok (hlisted hperm) hnames (hconcern hperm h)
    refine ⟨index', _, happly, hnames', fun o ho => ?_⟩
    exact precedes_of_unchained hnodup (hconcern hperm h) (hfree.perm hperm) o (hperm.mem_iff.mpr ho)

/-- `B` ahead of `A` and `C` ahead of `B` hold of `C, B, A`; from `A, B, C` they lead to a list where `A` is ahead
of `B`. -/
theorem chained_orders_undone :
    let orders : List MigrationOrder := [⟨"B", "A", "v0"⟩, ⟨"C", "B", "v0"⟩]
    (∀ o ∈ orders, Precedes ["C", "B", "A"] o.before o.after) ∧
      applyOrders orders [⟨"v0", [], ["A", "B", "C"], []⟩] = ([⟨"v0", [], ["C", "A", "B"], []⟩], none) ∧
      ¬Precedes ["C", "A", "B"] "B" "A" := by
  decide

/-- The built-in orders are not chained, so both hold at once in whatever list has their names. -/
theorem built_in_orders_hold :
    let names := [
      "ControlPlaneDefinition", "ControlPlaneInstance", "KubernetesRuntimeDefinition", "KubernetesRuntimeInstance"]
    (∀ o ∈ defaultMigrationOrder, o.version = baseVersion) ∧ Unchained defaultMigrationOrder ∧
      Migrates [⟨baseVersion, [], names, []⟩] baseVersion names ∧ names.Nodup ∧
      Concern defaultMigrationOrder names ∧
      ∃ index' names', applyOrders defaultMigrationOrder [⟨baseVersion, [], names, []⟩] = (index', none) ∧
        Migrates index' baseVersion names' ∧ ∀ o ∈ defaultMigrationOrder, Precedes names' o.before o.after := by
  intro names
  have hversion : ∀ o ∈ defaultMigrationOrder, o.version = baseVersion := by decide
  have hfree : Unchained defaultMigrationOrder := by unfold Unchained; decide
  have hnames : Migrates [⟨baseVersion, [], names, []⟩] baseVersion names := rfl
  have hnodup : names.Nodup := by decide
  have hconcern : Concern defaultMigrationOrder names := by unfold Concern; decide
  exact ⟨hversion, hfree, hnames, hnodup, hconcern,
    (orders_hold_iff_unchained baseVersion defaultMigrationOrder hversion).2.mpr hfree _ names hnames hnodup hconcern
      _ (List.Perm.refl _)⟩

end ApiForge
