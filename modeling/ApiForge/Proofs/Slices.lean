import ApiForge.Proofs.Artifacts

/-! The groups of a version against the groups of the model: every part of a version is what a group has there, and every
object is in the part of its group at its version. -/

namespace ApiForge

open Generated (routedGroups)

namespace Config.Built

variable {project : Project} {inspect : Inspector} {c : Config} {m : Model}

theorem exists_group_of_part (h : c.Built project inspect m) {s : VersionSlice} (hs : s ∈ m.slices) {p : GroupSlice}
    (hp : p ∈ s.groups) : ∃ g ∈ m.groups, p.PartOf g s.version := by
  obtain ⟨g, hg, hpart⟩ := exists_of_forall₂ (h.partitioned.parts s hs) hp
  exact ⟨g, List.mem_of_mem_filter hg, hpart⟩

theorem exists_part (h : c.Built project inspect m) {g : Group} (hg : g ∈ m.groups) {o : ApiObject} (ho : o ∈ g.objects) :
    ∃ s ∈ m.slices, s.version = o.version ∧ ∃ p ∈ s.groups, p.PartOf g s.version ∧ o ∈ p.objects := by
  have hversion := h.version_mem hg (List.mem_map_of_mem ho)
  rw [← h.partitioned.sliced] at hversion
  obtain ⟨s, hs, hsv⟩ := List.mem_map.mp hversion
  have hmem : o ∈ g.objectsIn s.version := Group.mem_objectsIn.mpr ⟨ho, hsv.symm⟩
  obtain ⟨p, hp, hpart⟩ := exists_of_forall₂_left (h.partitioned.parts s hs)
    (List.mem_filter.mpr ⟨hg, decide_eq_true (List.ne_nil_of_mem hmem)⟩)
  exact ⟨s, hs, hsv, p, hp, hpart, hpart.objects ▸ hmem⟩

theorem mem_part (h : c.Built project inspect m) {s : VersionSlice} (hs : s ∈ m.slices) {p : GroupSlice}
    (hp : p ∈ s.groups) {o : ApiObject} (ho : o ∈ p.objects) :
    ∃ g ∈ m.groups, p.PartOf g s.version ∧ o ∈ g.objects ∧ o.version = s.version := by
  obtain ⟨g, hg, hpart⟩ := h.exists_group_of_part hs hp
  rw [hpart.objects] at ho
  exact ⟨g, hg, hpart, Group.mem_objectsIn.mp ho⟩

theorem nodup_part_names (h : c.Built project inspect m) {s : VersionSlice} (hs : s ∈ m.slices) :
    (s.groups.map GroupSlice.name).Nodup := by
  rw [h.partitioned.part_names hs]
  exact h.nodup_names.sublist (List.filter_sublist.map _)

/-- A version has one part of a group. -/
theorem part_eq (h : c.Built project inspect m) {s : VersionSlice} (hs : s ∈ m.slices) {p p' : GroupSlice}
    (hp : p ∈ s.groups) (hp' : p' ∈ s.groups) (hname : p.name = p'.name) : p = p' :=
  List.inj_on_of_nodup_map (h.nodup_part_names hs) hp hp' hname

theorem slice_eq_of_version (h : c.Built project inspect m) {s s' : VersionSlice} (hs : s ∈ m.slices)
    (hs' : s' ∈ m.slices) (hversion : s.version = s'.version) : s = s' :=
  List.inj_on_of_nodup_map (h.partitioned.sliced ▸ h.partitioned.distinct) hs hs' hversion

theorem group_eq (h : c.Built project inspect m) {g g' : Group} (hg : g ∈ m.groups) (hg' : g' ∈ m.groups)
    (hname : g.name = g'.name) : g = g' :=
  List.inj_on_of_nodup_map h.nodup_names hg hg' hname

/-- A version has routes as soon as one of its groups has. -/
theorem routeNames_ne_nil_iff (h : c.Built project inspect m) {s : VersionSlice} (hs : s ∈ m.slices) {i : VersionIndex}
    (hi : m.index? s.version = some i) : i.routeNames ≠ [] ↔ ∃ p ∈ s.groups, ∃ o ∈ p.objects, o.excludeRoute = false := by
  have hversion : (i.version == s.version) = true :=
    List.find?_some (p := fun i : VersionIndex => i.version == s.version) hi
  have hlisted := h.partitioned.listed i (List.mem_of_find?_eq_some hi) .route
  rw [beq_iff_eq.mp hversion] at hlisted
  have hserved : i.routeNames ≠ [] ↔ ∃ o ∈ m.objects, o.version = s.version ∧ o.excludeRoute = false := by
    rw [show i.routeNames = Listing.route.names i from rfl, Ne, ← List.length_eq_zero_iff, hlisted.length_eq,
      List.length_eq_zero_iff, List.map_eq_nil_iff, List.filter_eq_nil_iff]
    simp [Listing.wants]
  rw [hserved]
  constructor
  · rintro ⟨o, ho, hov, hroute⟩
    obtain ⟨g, hg, ho⟩ := List.mem_flatMap.mp ho
    obtain ⟨s', hs', hsv, p, hp, -, hop⟩ := h.exists_part hg ho
    rw [h.slice_eq_of_version hs' hs (hsv.trans hov)] at hp
    exact ⟨p, hp, o, hop, hroute⟩
  · rintro ⟨p, hp, o, ho, hroute⟩
    obtain ⟨g, hg, -, hmem, hov⟩ := h.mem_part hs hp ho
    exact ⟨o, List.mem_flatMap.mpr ⟨g, hg, hmem⟩, hov, hroute⟩

end Config.Built

theorem mem_routable {objects : List ApiObject} {o : ApiObject} :
    o ∈ routable objects ↔ o ∈ objects ∧ o.excludeRoute = false := by
  simp [routable]

theorem Generated.mem_routedGroups {s : VersionSlice} {p : GroupSlice} :
    p ∈ routedGroups s ↔ p ∈ s.groups ∧ ∃ o ∈ p.objects, o.excludeRoute = false := by
  rw [routedGroups, List.mem_filter, routable, Bool.not_eq_true', List.isEmpty_eq_false_iff]
  simp [List.filter_eq_nil_iff]

end ApiForge
