import ApiForge.Config.Check
import Mathlib.Data.List.Nodup

/-! The configurations that the check accepts: what each of its parts asks for, without the order in which it asks. -/

namespace ApiForge

/-- The rules for one object apart from those that compare it with others. -/
structure ObjectConfig.WellFormed (o : ObjectConfig) : Prop where
  named : Text.isBlankText o.name = false
  versioned : o.versions ≠ []
  valid : ∀ v ∈ o.versions, Version.isValid v = true

/-- The rules for the objects of a group. -/
structure GroupConfig.WellFormed (g : GroupConfig) : Prop where
  named : Text.isBlankText g.name = false
  objects : ∀ o ∈ g.objects, o.WellFormed
  distinct : (g.objects.map ObjectConfig.name).Nodup

structure Config.WellFormed (c : Config) : Prop where
  named : Text.isBlankText c.apiNamespace = false
  groups : ∀ g ∈ c.groups, g.WellFormed
  distinct : (c.groups.map GroupConfig.name).Nodup
  orders : ∀ o ∈ c.migrationOrder.getD [], o.isWellFormed = true

/-- Names that differ from each other and from those seen before, taken one at a time. -/
private theorem fresh_cons_iff {α : Type} (name : α → String) (x : α) (xs : List α) (seen : List String) :
    ((∀ y ∈ xs, name y ∉ name x :: seen) ∧ (xs.map name).Nodup) ↔
      (∀ y ∈ xs, name y ∉ seen) ∧ name x ∉ xs.map name ∧ (xs.map name).Nodup := by
  constructor
  · rintro ⟨hfresh, hnodup⟩
    refine ⟨fun y hy hmem => hfresh y hy (List.mem_cons_of_mem _ hmem), fun hmem => ?_, hnodup⟩
    obtain ⟨y, hy, heq⟩ := List.mem_map.mp hmem
    exact hfresh y hy (heq ▸ List.mem_cons_self)
  · rintro ⟨hfresh, hnew, hnodup⟩
    refine ⟨fun y hy hmem => ?_, hnodup⟩
    rcases List.mem_cons.mp hmem with heq | hmem
    · exact hnew (List.mem_map.mpr ⟨y, hy, heq⟩)
    · exact hfresh y hy hmem

theorem checkObjects_eq_ok_iff {group : String} {seen : List String} {objects : List ObjectConfig} :
    checkObjects group seen objects = .ok () ↔
      (∀ o ∈ objects, o.WellFormed) ∧ (∀ o ∈ objects, o.name ∉ seen) ∧
        (objects.map ObjectConfig.name).Nodup := by
  induction objects generalizing seen with
  | nil => simp [checkObjects]
  | cons o objects ih =>
      rw [checkObjects, List.forall_mem_cons, List.forall_mem_cons, List.map_cons, List.nodup_cons]
      split_ifs with hblank hseen hversions
      · simp only [false_iff]
        rintro ⟨⟨ho, -⟩, -⟩
        exact Bool.false_ne_true (ho.named.symm.trans hblank)
      · simp [hseen]
      · simp only [false_iff]
        rintro ⟨⟨ho, -⟩, -⟩
        exact ho.versioned hversions
      · split
        · rename_i version hfind
          simp only [reduceCtorEq, false_iff]
          rintro ⟨⟨ho, -⟩, -⟩
          have hinvalid := List.find?_some hfind
          rw [ho.valid version (List.mem_of_find?_eq_some hfind)] at hinvalid
          exact Bool.false_ne_true hinvalid
        · rename_i hfind
          have hvalid : ∀ v ∈ o.versions, Version.isValid v = true := by
            simpa using List.find?_eq_none.mp hfind
          have ho : o.WellFormed := ⟨by simpa using hblank, hversions, hvalid⟩
          rw [ih, fresh_cons_iff]
          exact ⟨fun h => ⟨⟨ho, h.1⟩, ⟨hseen, h.2.1⟩, h.2.2⟩, fun h => ⟨h.1.2, h.2.1.2, h.2.2⟩⟩

theorem checkGroups_eq_ok_iff {index : Nat} {seen : List String} {groups : List GroupConfig} :
    checkGroups index seen groups = .ok () ↔
      (∀ g ∈ groups, g.WellFormed) ∧ (∀ g ∈ groups, g.name ∉ seen) ∧ (groups.map GroupConfig.name).Nodup := by
  induction groups generalizing index seen with
  | nil => simp [checkGroups]
  | cons g groups ih =>
      rw [checkGroups, List.forall_mem_cons, List.forall_mem_cons, List.map_cons, List.nodup_cons]
      split_ifs with hblank hseen
      · simp only [false_iff]
        rintro ⟨⟨hg, -⟩, -⟩
        exact Bool.false_ne_true (hg.named.symm.trans hblank)
      · simp [hseen]
      · split
        · rename_i fault hobjects
          simp only [reduceCtorEq, false_iff]
          rintro ⟨⟨hg, -⟩, -⟩
          rw [checkObjects_eq_ok_iff.mpr ⟨hg.objects, fun o _ => List.not_mem_nil, hg.distinct⟩] at hobjects
          cases hobjects
        · rename_i hobjects
          obtain ⟨hall, -, hdistinct⟩ := checkObjects_eq_ok_iff.mp hobjects
          have hg : g.WellFormed := ⟨by simpa using hblank, hall, hdistinct⟩
          rw [ih, fresh_cons_iff]
          exact ⟨fun h => ⟨⟨hg, h.1⟩, ⟨hseen, h.2.1⟩, h.2.2⟩, fun h => ⟨h.1.2, h.2.1.2, h.2.2⟩⟩

theorem checkMigrationOrder_eq_ok_iff {orders : List MigrationOrder} :
    checkMigrationOrder orders = .ok () ↔ ∀ o ∈ orders, o.isWellFormed = true := by
  rw [checkMigrationOrder]
  split
  · rename_i o hfind
    simp only [reduceCtorEq, false_iff]
    intro hall
    have hbad := List.find?_some hfind
    rw [hall o (List.mem_of_find?_eq_some hfind)] at hbad
    exact Bool.false_ne_true hbad
  · rename_i hfind
    simpa using List.find?_eq_none.mp hfind

theorem Config.check_eq_ok_iff {c : Config} : c.check = .ok () ↔ c.WellFormed := by
  rw [check]
  split_ifs with hblank
  · simp only [false_iff]
    exact fun h => Bool.false_ne_true (h.named.symm.trans hblank)
  · split
    · rename_i fault hgroups
      simp only [reduceCtorEq, false_iff]
      intro h
      rw [checkGroups_eq_ok_iff.mpr ⟨h.groups, fun g _ => List.not_mem_nil, h.distinct⟩] at hgroups
      cases hgroups
    · rename_i hgroups
      obtain ⟨hall, -, hdistinct⟩ := checkGroups_eq_ok_iff.mp hgroups
      rw [checkMigrationOrder_eq_ok_iff]
      exact ⟨fun horders => ⟨by simpa using hblank, hall, hdistinct, horders⟩, fun h => h.orders⟩

end ApiForge
