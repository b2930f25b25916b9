import ApiForge.Proofs.Build
import ApiForge.Proofs.Versions

/-! What a group is built of: an entry for each version of each configured object, changed afterwards only in what
its type has at other versions or beside other types. Entries of one key are therefore equal, and what is asked of a
type may be asked of any of its entries. -/

namespace ApiForge

open Source (Marker SourceFile TagMap)

/-! ### Entries -/

/-- An entry together with what the other entries of its group switch on for it. -/
def finish (entries : List ApiObject) (o : ApiObject) : ApiObject :=
  { o.mark fun m => entries.any fun p => p.typeName == o.typeName && p.has m with
    definedInstance := ApiObject.isDefinition o.typeName &&
      (ApiObject.instanceName? o.typeName).any (entries.map ApiObject.typeName).contains }

theorem pairInstances_shareMarkers (entries : List ApiObject) :
    pairInstances (shareMarkers entries) = entries.map (finish entries) := by
  have htypes : (shareMarkers entries).map ApiObject.typeName = entries.map ApiObject.typeName := by
    rw [shareMarkers, List.map_map]
    rfl
  rw [pairInstances, htypes, shareMarkers, List.map_map]
  rfl

theorem finish_key (entries : List ApiObject) (o : ApiObject) : (finish entries o).key = o.key :=
  rfl

theorem ObjectConfig.Describes.finish {c : ObjectConfig} {o : ApiObject} (h : c.Describes o)
    (entries : List ApiObject) : c.Describes (ApiForge.finish entries o) :=
  ⟨h.typeName, h.version, h.excludeRoute, h.excludeFromDb, h.names⟩

theorem mem_markers (m : Marker) : m ∈ Marker.all := by
  cases m <;> decide

theorem ApiObject.has_mark (o : ApiObject) (on : Marker → Bool) (m : Marker) :
    (o.mark on).has m = (o.has m || on m) := by
  rw [has, mark, Bool.eq_iff_iff]
  simp [mem_markers]

/-- A finished entry has the markers that any entry of its type had before. -/
theorem finish_has {entries : List ApiObject} {o : ApiObject} (ho : o ∈ entries) (m : Marker) :
    (finish entries o).has m = entries.any fun p => p.typeName == o.typeName && p.has m := by
  have hself (hm : o.has m = true) : (entries.any fun p => p.typeName == o.typeName && p.has m) = true :=
    List.any_eq_true.mpr ⟨o, ho, by rw [hm, beq_self_eq_true, Bool.and_self]⟩
  calc (finish entries o).has m
      = (o.has m || entries.any fun p => p.typeName == o.typeName && p.has m) :=
        ApiObject.has_mark o (fun m => entries.any fun p => p.typeName == o.typeName && p.has m) m
    _ = entries.any fun p => p.typeName == o.typeName && p.has m := by
        cases hm : o.has m with
        | false => exact Bool.false_or _
        | true => rw [hself hm, Bool.or_self]

namespace GroupConfig.Built

variable {project : Project} {inspect : Inspector} {c : GroupConfig} {g : Group}

/-- Each configured object at each of its versions, in the order of the configuration. -/
theorem keys (h : c.Built project inspect g) :
    g.objects.map ApiObject.key = c.objects.flatMap fun o => (objectVersions o).map (o.name, ·) := by
  obtain ⟨sources, -, hobjects⟩ := h.inspected
  rw [hobjects, pairInstances_shareMarkers, List.map_map, objectEntries_eq, List.map_flatMap]
  refine List.flatMap_congr fun o _ => ?_
  rw [List.map_map]
  refine List.map_congr_left fun v _ => ?_
  rw [Function.comp_apply, Function.comp_apply, finish_key, entry_key]

theorem described (h : c.Built project inspect g) {a : ApiObject} (ha : a ∈ g.objects) :
    ∃ o ∈ c.objects, o.Describes a := by
  obtain ⟨sources, -, hobjects⟩ := h.inspected
  rw [hobjects, pairInstances_shareMarkers, objectEntries_eq] at ha
  obtain ⟨e, he, rfl⟩ := List.mem_map.mp ha
  obtain ⟨o, ho, he⟩ := List.mem_flatMap.mp he
  obtain ⟨v, hv, rfl⟩ := List.mem_map.mp he
  exact ⟨o, ho, (entry_describes hv).finish _⟩

/-- Objects of one name are one object. -/
private theorem config_eq (hdistinct : (c.objects.map ObjectConfig.name).Nodup) {o p : ObjectConfig}
    (ho : o ∈ c.objects) (hp : p ∈ c.objects) (hname : o.name = p.name) : o = p :=
  List.inj_on_of_nodup_map hdistinct ho hp hname

theorem eq_of_key_eq (h : c.Built project inspect g) (hdistinct : (c.objects.map ObjectConfig.name).Nodup)
    {a b : ApiObject} (ha : a ∈ g.objects) (hb : b ∈ g.objects) (hkey : a.key = b.key) : a = b := by
  obtain ⟨sources, -, hobjects⟩ := h.inspected
  have hform : ∀ a ∈ g.objects, ∃ o ∈ c.objects, ∃ v, a = finish (c.objectEntries sources) (entry sources o v) := by
    intro a ha
    rw [hobjects, pairInstances_shareMarkers] at ha
    obtain ⟨e, he, rfl⟩ := List.mem_map.mp ha
    rw [objectEntries_eq] at he
    obtain ⟨o, ho, he⟩ := List.mem_flatMap.mp he
    obtain ⟨v, -, rfl⟩ := List.mem_map.mp he
    exact ⟨o, ho, v, rfl⟩
  obtain ⟨o, ho, v, rfl⟩ := hform a ha
  obtain ⟨p, hp, w, rfl⟩ := hform b hb
  rw [finish_key, finish_key, entry_key, entry_key, Prod.mk.injEq] at hkey
  rw [config_eq hdistinct ho hp hkey.1, hkey.2]

/-- Entries of one type are described by one configured object. -/
theorem described_both (h : c.Built project inspect g) (hdistinct : (c.objects.map ObjectConfig.name).Nodup)
    {a b : ApiObject} (ha : a ∈ g.objects) (hb : b ∈ g.objects) (htype : a.typeName = b.typeName) :
    ∃ o ∈ c.objects, o.Describes a ∧ o.Describes b := by
  obtain ⟨o, ho, hoa⟩ := h.described ha
  obtain ⟨p, hp, hpb⟩ := h.described hb
  have hop : o = p := config_eq hdistinct ho hp (by rw [← hoa.typeName, ← hpb.typeName, htype])
  exact ⟨o, ho, hoa, hop ▸ hpb⟩

theorem has_congr (h : c.Built project inspect g) {a b : ApiObject} (ha : a ∈ g.objects) (hb : b ∈ g.objects)
    (htype : a.typeName = b.typeName) (m : Marker) : a.has m = b.has m := by
  obtain ⟨sources, -, hobjects⟩ := h.inspected
  rw [hobjects, pairInstances_shareMarkers] at ha hb
  obtain ⟨e, he, rfl⟩ := List.mem_map.mp ha
  obtain ⟨f, hf, rfl⟩ := List.mem_map.mp hb
  have hef : e.typeName = f.typeName := htype
  rw [finish_has he, finish_has hf, hef]

end GroupConfig.Built

/-! ### Tags -/

theorem tagsOf_eq (objects : List ApiObject) :
    tagsOf objects = NameMap.overSet (NameSet.ofList (objects.map ApiObject.version)) fun v =>
      NameMap.overSet (NameSet.ofList ((objects.filter (·.version = v)).map ApiObject.typeName)) fun name =>
        ((objects.filter (·.version = v)).filter (·.typeName = name)).foldl (fun _ o => o.fieldTags) [] := by
  rw [tagsOf, NameMap.foldl_insert ApiObject.version (fun _ => [])
    (fun (tags : TagIndex) o => NameMap.insert o.typeName o.fieldTags tags)]
  refine NameMap.overSet_congr fun v _ => ?_
  exact NameMap.foldl_insert ApiObject.typeName (fun _ => []) (fun _ o => o.fieldTags) _

/-- The tags at a version of the types that are there, under their names. -/
theorem tagsOf_at (objects : List ApiObject) (version : String) :
    ((tagsOf objects).get? version).getD [] =
      NameMap.overSet (NameSet.ofList ((objects.filter (·.version = version)).map ApiObject.typeName)) fun name =>
        ((objects.filter (·.version = version)).filter (·.typeName = name)).foldl (fun _ o => o.fieldTags) [] := by
  rw [tagsOf_eq]
  apply NameMap.getD_overSet
  intro hversion
  have hnone : objects.filter (·.version = version) = [] := by
    rw [List.filter_eq_nil_iff]
    intro o ho heq
    exact hversion (NameSet.mem_ofList.mpr (List.mem_map.mpr ⟨o, ho, of_decide_eq_true heq⟩))
  rw [hnone]
  rfl

/-- A fold that keeps the last value gives the one value that all entries have. -/
private theorem foldl_last {α σ : Type} {value : σ → α} {x : α} {xs : List σ} (hne : xs ≠ []) (init : α)
    (h : ∀ y ∈ xs, value y = x) : xs.foldl (fun _ y => value y) init = x := by
  obtain ⟨front, last, rfl⟩ := List.eq_nil_or_concat xs |>.resolve_left hne
  rw [List.concat_eq_append, List.foldl_append]
  exact h last (by simp)

theorem get?_tagsOf {objects : List ApiObject}
    (hsame : ∀ a ∈ objects, ∀ b ∈ objects, a.key = b.key → a = b) {o : ApiObject} (ho : o ∈ objects) :
    (((tagsOf objects).get? o.version).getD []).get? o.typeName = some o.fieldTags := by
  have hthere : o ∈ objects.filter (·.version = o.version) := List.mem_filter.mpr ⟨ho, by simp⟩
  rw [tagsOf_at, NameMap.get?_overSet, if_pos (NameSet.mem_ofList.mpr (List.mem_map_of_mem hthere))]
  congr 1
  apply foldl_last
  · exact List.ne_nil_of_mem (List.mem_filter.mpr ⟨hthere, by simp⟩)
  · intro p hp
    simp only [List.mem_filter, decide_eq_true_eq] at hp
    rw [hsame p hp.1.1 o ho (Prod.ext hp.2 hp.1.2)]

/-! ### Reconciled objects -/

/-- What the entries of one type add up to. -/
def reconciledAs (objects : List ApiObject) (name : String) : ReconciledObject where
  name := name
  versions := (objects.filter (·.typeName = name)).map ApiObject.version
  disableNotificationPersistence := (objects.filter (·.typeName = name)).any ApiObject.disableNotificationPersistence

theorem name_reconciledAs (objects : List ApiObject) (name : String) : (reconciledAs objects name).name = name :=
  rfl

theorem reconciledAs_concat (objects : List ApiObject) (o : ApiObject) (name : String) :
    reconciledAs (objects ++ [o]) name =
      if o.typeName = name then
        { name := name
          versions := (reconciledAs objects name).versions ++ [o.version]
          disableNotificationPersistence :=
            (reconciledAs objects name).disableNotificationPersistence || o.disableNotificationPersistence }
      else reconciledAs objects name := by
  by_cases h : o.typeName = name
  · simp [reconciledAs, List.filter_append, h]
  · simp [reconciledAs, List.filter_append, h]

/-- One more entry changes what its type adds up to, or adds its type at the end. -/
theorem addReconciled_map (objects : List ApiObject) (o : ApiObject) {names : List String} (hnames : names.Nodup)
    (hnew : o.typeName ∉ names → objects.filter (·.typeName = o.typeName) = []) :
    addReconciled (names.map (reconciledAs objects)) o =
      (if o.typeName ∈ names then names else names ++ [o.typeName]).map (reconciledAs (objects ++ [o])) := by
  induction names with
  | nil =>
      have hnone := hnew List.not_mem_nil
      simp [addReconciled, reconciledAs, List.filter_append, hnone]
  | cons name names ih =>
      rw [List.nodup_cons] at hnames
      rw [List.map_cons, addReconciled, name_reconciledAs]
      by_cases heq : name = o.typeName
      · have hrest : names.map (reconciledAs (objects ++ [o])) = names.map (reconciledAs objects) := by
          refine List.map_congr_left fun other hother => ?_
          rw [reconciledAs_concat, if_neg]
          rintro rfl
          exact hnames.1 (heq ▸ hother)
        rw [if_pos heq, if_pos (by simp [heq]), List.map_cons, hrest, reconciledAs_concat, if_pos heq.symm]
      · have hhead : reconciledAs (objects ++ [o]) name = reconciledAs objects name := by
          rw [reconciledAs_concat, if_neg (Ne.symm heq)]
        have hlater : o.typeName ∉ names → objects.filter (·.typeName = o.typeName) = [] :=
          fun hmem => hnew fun h => (List.mem_cons.mp h).elim (Ne.symm heq) hmem
        rw [if_neg heq, ih hnames.2 hlater]
        by_cases hmem : o.typeName ∈ names
        · simp [hmem, hhead]
        · simp [hmem, Ne.symm heq, hhead]

theorem foldl_addReconciled (objects : List ApiObject) :
    objects.foldl addReconciled [] = (distinct (objects.map ApiObject.typeName)).map (reconciledAs objects) := by
  induction objects using List.reverseRecOn with
  | nil => rfl
  | append_singleton objects o ih =>
      rw [List.foldl_append, ih, List.foldl_cons, List.foldl_nil, addReconciled_map objects o (nodup_distinct _),
        List.map_append, List.map_singleton, distinct_concat]
      · simp only [mem_distinct]
      · intro hnew
        rw [mem_distinct] at hnew
        rw [List.filter_eq_nil_iff]
        exact fun p hp heq => hnew (List.mem_map.mpr ⟨p, hp, of_decide_eq_true heq⟩)

/-- The types that have a reconciler, each once, with what their entries add up to. -/
theorem reconciledOf_eq (objects : List ApiObject) :
    reconciledOf objects = (distinct ((objects.filter (·.has .reconciler)).map ApiObject.typeName)).map fun name =>
      { reconciledAs (objects.filter (·.has .reconciler)) name with
        versions := Version.sort (reconciledAs (objects.filter (·.has .reconciler)) name).versions } := by
  rw [reconciledOf, foldl_addReconciled, List.map_map]
  rfl

theorem reconciledOf_names (objects : List ApiObject) :
    (reconciledOf objects).map ReconciledObject.name =
      distinct ((objects.filter (·.has .reconciler)).map ApiObject.typeName) := by
  rw [reconciledOf_eq, List.map_map]
  exact List.map_id _

theorem versions_reconciledOf {objects : List ApiObject} {r : ReconciledObject} (hr : r ∈ reconciledOf objects) :
    r.versions =
      Version.sort (((objects.filter (·.has .reconciler)).filter (·.typeName = r.name)).map ApiObject.version) := by
  rw [reconciledOf_eq] at hr
  obtain ⟨name, -, rfl⟩ := List.mem_map.mp hr
  rfl

theorem mem_versions_reconciledOf {objects : List ApiObject} {r : ReconciledObject} {v : String}
    (hr : r ∈ reconciledOf objects) (hv : v ∈ r.versions) : v ∈ objects.map ApiObject.version := by
  rw [versions_reconciledOf hr, Version.sort, mem_sortBy] at hv
  exact (List.filter_sublist.trans List.filter_sublist).map ApiObject.version |>.mem hv

end ApiForge
