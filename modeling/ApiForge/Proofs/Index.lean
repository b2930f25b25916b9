import ApiForge.Emission.Target
import ApiForge.Proofs.Groups
import ApiForge.Proofs.MigrationOrder

/-! The objects by version. The pass over the groups leaves for each version what the objects of that version make by
themselves, so both views have the objects of the groups again: the lists of names in another order, the parts of the
groups in the same. -/

namespace ApiForge

open Source (Marker)

/-! ### Lists of names -/

/-- The lists of names that are kept of a version. -/
inductive Listing where
  | route
  | database
  | reconciled
  deriving DecidableEq, Repr

namespace Listing

def names : Listing → VersionIndex → List String
  | .route => VersionIndex.routeNames
  | .database => VersionIndex.databaseNames
  | .reconciled => VersionIndex.reconciledNames

/-- The objects that the list has. -/
def wants : Listing → ApiObject → Bool
  | .route, o => !o.excludeRoute
  | .database, o => !o.excludeFromDb
  | .reconciled, o => o.has .reconciler

theorem names_add (l : Listing) (v : VersionIndex) (o : ApiObject) :
    l.names (v.add o) = if l.wants o then l.names v ++ [o.typeName] else l.names v := by
  cases l with
  | route => cases h : o.excludeRoute <;> simp [names, wants, VersionIndex.add, h]
  | database => cases h : o.excludeFromDb <;> simp [names, wants, VersionIndex.add, h]
  | reconciled => rfl

theorem names_foldl_add (l : Listing) (objects : List ApiObject) (v : VersionIndex) :
    l.names (objects.foldl VersionIndex.add v) =
      l.names v ++ (objects.filter l.wants).map ApiObject.typeName := by
  induction objects generalizing v with
  | nil => exact (List.append_nil _).symm
  | cons o objects ih =>
      rw [List.foldl_cons, ih, names_add, List.filter_cons]
      split
      · rw [List.map_cons, List.append_assoc, List.singleton_append]
      · rfl

theorem names_empty (l : Listing) (version : String) : l.names (.empty version) = [] := by
  cases l <;> rfl

theorem names_sorted (l : Listing) (v : VersionIndex) : l.names v.sorted = sortNames (l.names v) := by
  cases l <;> rfl

end Listing

theorem VersionIndex.version_foldl_add (objects : List ApiObject) (v : VersionIndex) :
    (objects.foldl add v).version = v.version := by
  induction objects generalizing v with
  | nil => rfl
  | cons o objects ih => exact ih (v.add o)

/-! ### Parts of groups -/

namespace Group

/-- The part of a group at a version. -/
def sliceAt (g : Group) (version : String) : GroupSlice :=
  { name := g.name, names := g.names, objects := g.objectsIn version, tags := (g.tags.get? version).getD [] }

theorem addToSlices_other {g : Group} {slices : List GroupSlice} (h : ∀ s ∈ slices, s.name ≠ g.name) (o : ApiObject) :
    g.addToSlices o slices = slices ++ [g.beginSlice o] := by
  induction slices with
  | nil => rfl
  | cons s slices ih =>
      cases slices with
      | nil =>
          rw [addToSlices, if_neg (h s List.mem_cons_self)]
          rfl
      | cons t rest =>
          rw [addToSlices, ih fun u hu => h u (List.mem_cons_of_mem _ hu)]
          rfl

theorem addToSlices_own {g : Group} {s : GroupSlice} (h : s.name = g.name) (slices : List GroupSlice) (o : ApiObject) :
    g.addToSlices o (slices ++ [s]) = slices ++ [{ s with objects := s.objects ++ [o] }] := by
  induction slices with
  | nil => rw [List.nil_append, addToSlices, if_pos h, List.nil_append]
  | cons t slices ih =>
      cases slices with
      | nil =>
          rw [List.singleton_append, addToSlices, ← List.nil_append [s], ih]
          rfl
      | cons u rest =>
          rw [List.cons_append, List.cons_append, addToSlices, ← List.cons_append, ih]
          rfl

/-- The objects of a group at a version end up in one part, behind the parts of other groups. -/
theorem foldl_addToSlices {g : Group} {version : String} {objects : List ApiObject}
    (hobjects : ∀ o ∈ objects, o.version = version) (hne : objects ≠ []) {slices : List GroupSlice}
    (hslices : ∀ s ∈ slices, s.name ≠ g.name) :
    objects.foldl (fun slices o => g.addToSlices o slices) slices =
      slices ++ [{ name := g.name, names := g.names, objects := objects,
                   tags := (g.tags.get? version).getD [] }] := by
  induction objects using List.reverseRecOn with
  | nil => exact absurd rfl hne
  | append_singleton objects o ih =>
      rw [List.foldl_append, List.foldl_cons, List.foldl_nil]
      by_cases hfirst : objects = []
      · rw [hfirst, List.foldl_nil, addToSlices_other hslices, beginSlice, hobjects o (by simp)]
        rfl
      · rw [ih (fun p hp => hobjects p (List.mem_append_left _ hp)) hfirst]
        exact addToSlices_own rfl _ _

theorem mem_objectsIn {g : Group} {version : String} {o : ApiObject} :
    o ∈ g.objectsIn version ↔ o ∈ g.objects ∧ o.version = version := by
  rw [objectsIn, List.mem_filter, beq_iff_eq]

/-- The groups that have objects at a version give one part each. -/
theorem foldl_slices {groups : List Group} (hnames : (groups.map Group.name).Nodup) (version : String) :
    groups.foldl (fun slices g => (g.objectsIn version).foldl (fun slices o => g.addToSlices o slices) slices) [] =
      (groups.filter fun g => g.objectsIn version ≠ []).map (·.sliceAt version) := by
  induction groups using List.reverseRecOn with
  | nil => rfl
  | append_singleton groups g ih =>
      rw [List.map_append, List.nodup_append] at hnames
      obtain ⟨hgroups, -, hnew⟩ := hnames
      rw [List.foldl_append, List.foldl_cons, List.foldl_nil, ih hgroups, List.filter_append, List.map_append]
      by_cases hempty : g.objectsIn version = []
      · simp [hempty]
      · rw [foldl_addToSlices (fun o ho => (mem_objectsIn.mp ho).2) hempty]
        · simp [hempty, sliceAt]
        · intro s hs heq
          obtain ⟨other, hother, rfl⟩ := List.mem_map.mp hs
          exact hnew other.name (List.mem_map_of_mem (List.mem_of_mem_filter hother)) g.name (by simp) heq

end Group

/-! ### The pass over the groups -/

/-- Each object of each group, beside its group. -/
def placed (groups : List Group) : List (Group × ApiObject) :=
  groups.flatMap fun g => g.objects.map (g, ·)

theorem placed_snd (groups : List Group) : (placed groups).map Prod.snd = groups.flatMap Group.objects := by
  rw [placed, List.map_flatMap]
  refine List.flatMap_congr fun g _ => ?_
  rw [List.map_map]
  exact List.map_id g.objects

theorem placed_version (groups : List Group) :
    (placed groups).map (fun p => p.2.version) = (groups.flatMap Group.objects).map ApiObject.version := by
  rw [← placed_snd, List.map_map]
  rfl

theorem placed_at (groups : List Group) (version : String) :
    ((placed groups).filter fun p => p.2.version = version) =
      groups.flatMap fun g => (g.objectsIn version).map (g, ·) := by
  rw [placed, List.filter_flatMap]
  refine List.flatMap_congr fun g _ => ?_
  rw [List.filter_map]
  rfl

theorem collect_eq (groups : List Group) :
    collect groups = (placed groups).foldl (fun c p => c.add p.1 p.2) {} := by
  rw [collect, placed, List.foldl_flatMap]
  simp only [List.foldl_map]

theorem collect_index (groups : List Group) :
    (collect groups).index =
      NameMap.overSet (NameSet.ofList ((groups.flatMap Group.objects).map ApiObject.version)) fun v =>
        ((groups.flatMap Group.objects).filter (·.version = v)).foldl VersionIndex.add (.empty v) := by
  have hfold (ps : List (Group × ApiObject)) (c : Collection) :
      (ps.foldl (fun c p => c.add p.1 p.2) c).index =
        ps.foldl (fun (index : NameMap VersionIndex) p => index.insert p.2.version
          (((index.get? p.2.version).getD (.empty p.2.version)).add p.2)) c.index := by
    induction ps generalizing c with
    | nil => rfl
    | cons p ps ih => exact ih (c.add p.1 p.2)
  rw [collect_eq, hfold,
    NameMap.foldl_insert (fun p : Group × ApiObject => p.2.version) VersionIndex.empty (fun v p => v.add p.2),
    placed_version]
  refine NameMap.overSet_congr fun v _ => ?_
  rw [← placed_snd, List.filter_map, List.foldl_map]
  rfl

theorem collect_slices {groups : List Group} (hnames : (groups.map Group.name).Nodup) :
    (collect groups).slices =
      NameMap.overSet (NameSet.ofList ((groups.flatMap Group.objects).map ApiObject.version)) fun v =>
        (groups.filter fun g => g.objectsIn v ≠ []).map (·.sliceAt v) := by
  have hfold (ps : List (Group × ApiObject)) (c : Collection) :
      (ps.foldl (fun c p => c.add p.1 p.2) c).slices =
        ps.foldl (fun (slices : NameMap (List GroupSlice)) p => slices.insert p.2.version
          (p.1.addToSlices p.2 ((slices.get? p.2.version).getD []))) c.slices := by
    induction ps generalizing c with
    | nil => rfl
    | cons p ps ih => exact ih (c.add p.1 p.2)
  rw [collect_eq, hfold, NameMap.foldl_insert (fun p : Group × ApiObject => p.2.version) (fun _ => [])
    (fun slices p => p.1.addToSlices p.2 slices), placed_version]
  refine NameMap.overSet_congr fun v _ => ?_
  rw [placed_at, List.foldl_flatMap, ← Group.foldl_slices hnames v]
  simp only [List.foldl_map]

/-! ### The two views -/

/-- The versions of the objects of all groups, ascending. -/
def versionsOf (groups : List Group) : List String :=
  Version.sort (NameSet.ofList ((groups.flatMap Group.objects).map ApiObject.version))

/-- Entries that are found by their version are sorted as the versions are. -/
private theorem sortBy_version {α : Type} {version : α → String} {entry : String → α}
    (hversion : ∀ v, version (entry v) = v) (versions : List String) :
    sortBy (fun a b => Version.le (version a) (version b)) (versions.map entry) =
      (Version.sort versions).map entry := by
  rw [sortBy_map, Version.sort]
  simp only [hversion]

/-- The lists of names of a version, before any order of migration is established. -/
def VersionIndex.ofObjects (objects : List ApiObject) (version : String) : VersionIndex :=
  ((objects.filter (·.version = version)).foldl add (.empty version)).sorted

theorem VersionIndex.version_ofObjects (objects : List ApiObject) (version : String) :
    (ofObjects objects version).version = version :=
  version_foldl_add _ _

theorem indexOf_eq (groups : List Group) :
    indexOf groups = (versionsOf groups).map (.ofObjects (groups.flatMap Group.objects)) := by
  rw [indexOf, collect_index, NameMap.overSet, List.map_map]
  exact sortBy_version (VersionIndex.version_ofObjects (groups.flatMap Group.objects)) _

theorem slicesOf_eq {groups : List Group} (hnames : (groups.map Group.name).Nodup) :
    slicesOf groups = (versionsOf groups).map fun v =>
      ⟨v, (groups.filter fun g => g.objectsIn v ≠ []).map (·.sliceAt v)⟩ := by
  rw [slicesOf, collect_slices hnames, NameMap.overSet, List.map_map]
  exact sortBy_version (fun v => (rfl : VersionSlice.version ⟨v, _⟩ = v)) _

theorem Listing.names_ofObjects (l : Listing) (objects : List ApiObject) (version : String) :
    l.names (.ofObjects objects version) =
      sortNames (((objects.filter (·.version = version)).filter l.wants).map ApiObject.typeName) := by
  rw [VersionIndex.ofObjects, names_sorted, names_foldl_add, names_empty, List.nil_append]

end ApiForge
