import ApiForge.Proofs.Artifacts
import ApiForge.Proofs.LatestObjects

/-! The two ways to the latest version of an object. The latest objects of a group keep the first listed version of the
greatest rank, while a reconciled object has its versions sorted and takes the last. The two differ exactly when versions
of the greatest rank tie, which plainly written versions never do. -/

namespace ApiForge

/-! ### Ties -/

namespace Version

theorem compare_eq_iff_key {a b : String} : compare a b = .eq ↔ key a = key b := by
  constructor
  · intro h
    rw [compare, Key.compare, Ordering.then_eq_eq, Ordering.then_eq_eq] at h
    obtain ⟨hnumber, hstable, hsuffix⟩ := h
    have hnumber := Std.LawfulEqCmp.eq_of_compare hnumber
    have hstable := Std.LawfulEqCmp.eq_of_compare hstable
    have hsuffix := Std.LawfulEqCmp.eq_of_compare hsuffix
    cases ha : key a
    cases hb : key b
    simp_all
  · intro h
    rw [compare, h]
    exact Std.ReflCmp.compare_self

/-- The numbers that are too large to be told apart. -/
example : compare "v18446744073709551615" "v18446744073709551616" = .eq := by decide +kernel

/-- A version whose number has no zeros in front and is not too large to be told from others. -/
def Plain (version : String) : Prop :=
  ∃ n ≤ numberLimit, ∃ suffix, isSuffix suffix = true ∧ version.toList = 'v' :: (Nat.toDigits 10 n ++ suffix)

/-- A suffix is no continuation of the number. -/
theorem takeWhile_suffix {suffix : List Char} (h : isSuffix suffix = true) :
    suffix.takeWhile Char.isDigit = [] ∧ suffix.dropWhile Char.isDigit = suffix := by
  cases suffix with
  | nil => exact ⟨rfl, rfl⟩
  | cons c cs =>
      rw [isSuffix, Bool.and_eq_true] at h
      have hc : c.isDigit = false := by
        have hstart := h.1
        simp only [isSuffixStart, Bool.and_eq_true, decide_eq_true_eq] at hstart
        simp only [Char.isDigit, Bool.and_eq_false_iff, decide_eq_false_iff_not]
        right
        intro hle
        exact absurd (hstart.1.trans hle) (by decide)
      simp [hc]

theorem key_of_plain {version : String} {n : Nat} {suffix : List Char} (hn : n ≤ numberLimit)
    (hsuffix : isSuffix suffix = true) (h : version.toList = 'v' :: (Nat.toDigits 10 n ++ suffix)) :
    key version = ⟨n, suffix.isEmpty, suffix⟩ := by
  have hdigits : ∀ c ∈ Nat.toDigits 10 n, c.isDigit = true :=
    fun c hc => Nat.isDigit_of_mem_toDigits (by decide) (by decide) hc
  obtain ⟨htake, hdrop⟩ := takeWhile_suffix hsuffix
  have hsplit : split? version = some (Nat.toDigits 10 n, suffix) := by
    simp only [split?, h, List.takeWhile_append_of_pos hdigits, List.dropWhile_append_of_pos hdigits, htake, hdrop,
      List.append_nil]
    exact if_pos ⟨Nat.toDigits_ne_nil, hsuffix⟩
  have hnumber : numberOf (Nat.toDigits 10 n) = n := Nat.ofDigitChars_ten_toDigits
  simp only [key, hsplit, hnumber, Nat.min_eq_left hn]

theorem Plain.eq_of_compare_eq {a b : String} (ha : Plain a) (hb : Plain b) (h : compare a b = .eq) : a = b := by
  obtain ⟨n, hn, suffix, hsuffix, ha⟩ := ha
  obtain ⟨n', hn', suffix', hsuffix', hb⟩ := hb
  rw [compare_eq_iff_key, key_of_plain hn hsuffix ha, key_of_plain hn' hsuffix' hb] at h
  obtain ⟨rfl, -, rfl⟩ := Key.mk.inj h
  exact String.toList_inj.mp (ha.trans hb.symm)

/-! ### Versions of the greatest rank -/

/-- The versions that no other comes after, in their order. -/
def greatest (versions : List String) : List String :=
  versions.filter fun v => versions.all fun w => le w v

theorem mem_greatest {versions : List String} {v : String} :
    v ∈ greatest versions ↔ v ∈ versions ∧ ∀ w ∈ versions, le w v = true := by
  simp [greatest]

theorem all_le_eq {versions : List String} {v : String} (hv : v ∈ versions) :
    (versions.all fun w => le w v) = decide (v ∈ greatest versions) := by
  rw [Bool.eq_iff_iff, decide_eq_true_eq, mem_greatest, and_iff_right hv, List.all_eq_true]

theorem compare_eq_of_mem_greatest {versions : List String} {v w : String} (hv : v ∈ greatest versions)
    (hw : w ∈ greatest versions) : compare v w = .eq :=
  compare_eq_iff.mpr ⟨(mem_greatest.mp hw).2 v (mem_greatest.mp hv).1, (mem_greatest.mp hv).2 w (mem_greatest.mp hw).1⟩

/-- Behind versions none of which comes after it, a version is the last of the greatest. -/
theorem greatest_concat_of_forall_le {versions : List String} {v : String} (h : ∀ u ∈ versions, le u v = true) :
    greatest (versions ++ [v]) = (versions.filter fun u => le v u) ++ [v] := by
  have hlast : ∀ u ∈ versions ++ [v], le u v = true := fun u hu =>
    (List.mem_append.mp hu).elim (h u) fun hu => List.mem_singleton.mp hu ▸ le_refl u
  rw [greatest, List.filter_append]
  congr 1
  · refine List.filter_congr fun u _ => ?_
    rw [Bool.eq_iff_iff, List.all_eq_true]
    exact ⟨fun hall => hall v (List.mem_append_right versions List.mem_cons_self),
      fun hvu w hw => le_trans (hlast w hw) hvu⟩
  · rw [List.filter_eq_self]
    intro u hu
    rw [List.mem_singleton.mp hu]
    exact List.all_eq_true.mpr hlast

/-- A version that comes after the greatest ones is the greatest alone. -/
theorem greatest_concat_of_gt {versions : List String} {v w : String} (hw : w ∈ greatest versions)
    (h : compare v w = .gt) : greatest (versions ++ [v]) = [v] := by
  have hnot : ¬le v w = true := fun hle => le_iff_ne_gt.mp hle h
  have hgreatest := (mem_greatest.mp hw).2
  have hnone : (versions.filter fun u => le v u) = [] :=
    List.filter_eq_nil_iff.mpr fun u hu hvu => hnot (le_trans hvu (hgreatest u hu))
  rw [greatest_concat_of_forall_le fun u hu => le_trans (hgreatest u hu) ((le_total w v).resolve_right hnot), hnone,
    List.nil_append]

/-- Any other version leaves the greatest ones, and stands behind them if it is of their rank. -/
theorem greatest_concat_of_le {versions : List String} {v w : String} (hw : w ∈ greatest versions)
    (h : le v w = true) : greatest (versions ++ [v]) = greatest versions ++ [v].filter fun u => le w u := by
  rw [greatest, List.filter_append, greatest]
  congr 1
  · refine List.filter_congr fun u hu => ?_
    rw [Bool.eq_iff_iff, List.all_append, Bool.and_eq_true, and_iff_left_iff_imp, List.all_eq_true]
    intro hall
    simpa using le_trans h (hall w (mem_greatest.mp hw).1)
  · refine List.filter_congr fun u hu => ?_
    rw [List.mem_singleton.mp hu, Bool.eq_iff_iff, List.all_append, Bool.and_eq_true, List.all_eq_true]
    constructor
    · exact fun hall => hall.1 w (mem_greatest.mp hw).1
    · exact fun hwv => ⟨fun x hx => le_trans ((mem_greatest.mp hw).2 x hx) hwv, by simp [le_refl]⟩

/-- The first of the greatest versions is found going through the list: it is kept until one comes after it. -/
theorem head?_greatest_concat (versions : List String) (v : String) :
    (greatest (versions ++ [v])).head? = some (match (greatest versions).head? with
      | none => v
      | some w => if compare v w = .gt then v else w) := by
  induction versions using List.reverseRecOn generalizing v with
  | nil => simp [greatest, le_refl]
  | append_singleton versions u ih =>
      obtain ⟨w, hw⟩ : ∃ w, (greatest (versions ++ [u])).head? = some w := ⟨_, ih u⟩
      have hmem : w ∈ greatest (versions ++ [u]) := List.mem_of_head? hw
      rw [hw]
      dsimp only
      split_ifs with hgt
      · rw [greatest_concat_of_gt hmem hgt]
        rfl
      · rw [greatest_concat_of_le hmem (le_iff_ne_gt.mpr hgt), List.head?_append, hw]
        rfl

/-- Where versions are in order the last one is the last of the greatest. -/
theorem getLast?_greatest {versions : List String} (h : versions.Pairwise fun v w => le v w = true) :
    (greatest versions).getLast? = versions.getLast? := by
  rcases List.eq_nil_or_concat' versions with rfl | ⟨front, v, rfl⟩
  · rfl
  · have hlast : ∀ u ∈ front, le u v = true := fun u hu =>
      (List.pairwise_append.mp h).2.2 u hu v List.mem_cons_self
    rw [greatest_concat_of_forall_le hlast, List.getLast?_concat, List.getLast?_concat]

end Version

/-! ### Versions as entries list them -/

namespace GroupConfig

/-- The greatest versions of an object's entries are the greatest of its configuration, up to repetitions. -/
theorem greatest_objectVersions (o : ObjectConfig) : Version.greatest (objectVersions o) =
    (objectVersions o).filter fun v => decide (v ∈ Version.greatest o.versions) := by
  refine List.filter_congr fun v hv => ?_
  rw [← Version.all_le_eq (mem_objectVersions.mp hv), Bool.eq_iff_iff, List.all_eq_true, List.all_eq_true]
  simp only [mem_objectVersions]

/-- The greatest versions tie, so sorting leaves them as they stood. -/
theorem filter_sort_greatest (versions : List String) :
    ((Version.sort versions).filter fun v => decide (v ∈ Version.greatest versions)) = Version.greatest versions := by
  rw [Version.sort, filter_sortBy]
  · exact List.filter_congr fun v hv => (Version.all_le_eq hv).symm
  · intro v w hv hw
    exact (Version.mem_greatest.mp (of_decide_eq_true hw)).2 v (Version.mem_greatest.mp (of_decide_eq_true hv)).1

theorem head?_greatest_objectVersions (o : ObjectConfig) :
    (Version.greatest (objectVersions o)).head? = (Version.greatest o.versions).head? := by
  rw [greatest_objectVersions, List.head?_filter, objectVersions, find?_dropRepeats, ← List.head?_filter,
    filter_sort_greatest]

theorem getLast?_greatest_objectVersions (o : ObjectConfig) :
    (Version.greatest (objectVersions o)).getLast? = (Version.greatest o.versions).getLast? := by
  rw [greatest_objectVersions, List.getLast?_filter, objectVersions, find?_reverse_dropRepeats, ← List.getLast?_filter,
    filter_sort_greatest]

end GroupConfig

/-! ### Entries -/

namespace Group

theorem types_foldl_keepLatest (objects : List ApiObject) :
    (objects.foldl keepLatest []).map ApiObject.typeName = distinct (objects.map ApiObject.typeName) := by
  induction objects using List.reverseRecOn with
  | nil => rfl
  | append_singleton objects o ih =>
      rw [List.foldl_append, List.foldl_cons, List.foldl_nil, types_keepLatest, ih, List.map_append, List.map_singleton,
        distinct_concat]
      simp only [mem_distinct]

/-- An entry counts for its own type only, where it is kept if there is none or an older one. -/
theorem find?_keepLatest (ls : List ApiObject) (o : ApiObject) (type : String) :
    (keepLatest ls o).find? (·.typeName == type) =
      if o.typeName = type then
        some (match ls.find? (·.typeName == type) with
          | none => o
          | some l => if Version.compare o.version l.version = .gt then o else l)
      else ls.find? (·.typeName == type) := by
  induction ls with
  | nil => by_cases htype : o.typeName = type <;> simp [keepLatest, htype]
  | cons l ls ih =>
      by_cases hsame : l.typeName = o.typeName
      · rw [keepLatest, if_pos hsame]
        by_cases htype : o.typeName = type
        · have hl : l.typeName = type := hsame.trans htype
          split_ifs with hnewer <;> simp [htype, hl, hnewer]
        · have hl : l.typeName ≠ type := fun h => htype (hsame.symm.trans h)
          split_ifs <;> simp [htype, hl]
      · rw [keepLatest, if_neg hsame]
        by_cases hl : l.typeName = type
        · have htype : o.typeName ≠ type := fun h => hsame (hl.trans h.symm)
          simp [hl, htype]
        · simp [hl, ih]

/-- The entry of a type among the latest is the first listed of those that no other of the type comes after. -/
theorem version_find?_latest (objects : List ApiObject) (type : String) :
    ((objects.foldl keepLatest []).find? (·.typeName == type)).map ApiObject.version =
      (Version.greatest ((objects.filter (·.typeName = type)).map ApiObject.version)).head? := by
  induction objects using List.reverseRecOn with
  | nil => rfl
  | append_singleton objects o ih =>
      rw [List.foldl_append, List.foldl_cons, List.foldl_nil, find?_keepLatest, List.filter_append, List.map_append]
      by_cases htype : o.typeName = type
      · rw [if_pos htype, List.filter_cons_of_pos (by simp [htype]), List.filter_nil, List.map_singleton,
          Version.head?_greatest_concat, ← ih, Option.map_some]
        cases (objects.foldl keepLatest []).find? (·.typeName == type) with
        | none => rfl
        | some l =>
            simp only [Option.map_some]
            split_ifs <;> rfl
      · rw [if_neg htype, List.filter_cons_of_neg (by simp [htype]), List.filter_nil, List.map_nil, List.append_nil, ih]

/-- The two entries that stand for a reconciled object whose versions the configuration lists as `versions`: `first`
where the latest objects are asked for and `last` where it is reconciled. They have the first and the last listed
version of the greatest rank. -/
structure LatestEntries (g : Group) (r : ReconciledObject) (versions : List String) (first last : ApiObject) :
    Prop where
  kept : first ∈ g.latestObjects
  ofType : first.typeName = r.name
  commands : ∀ o ∈ g.commandObjects, o.typeName = r.name → o = first
  firstListed : (Version.greatest versions).head? = some first.version
  reconciler : Generated.reconcilerOf g r = .ok ⟨last, !r.disableNotificationPersistence⟩
  latest : r.latestVersion? = some last.version
  lastListed : (Version.greatest versions).getLast? = some last.version
  tied : Version.compare first.version last.version = .eq
  agree : r.latestVersion? = some first.version ↔
    (Version.greatest versions).head? = (Version.greatest versions).getLast?
  same : r.latestVersion? = some first.version ↔ last = first

end Group

namespace GroupConfig.Built

variable {project : Project} {inspect : Inspector} {c : GroupConfig} {g : Group}

/-- The versions of a reconciled object are those of the configured object of its name, sorted. -/
theorem exists_reconciled_config (h : c.Built project inspect g) (hdistinct : (c.objects.map ObjectConfig.name).Nodup)
    {r : ReconciledObject} (hr : r ∈ g.reconciled) : ∃ o ∈ c.objects, o.name = r.name ∧
      (g.objects.filter (·.typeName = r.name)).map ApiObject.version = objectVersions o ∧
      r.versions = objectVersions o := by
  obtain ⟨x, hx⟩ := h.exists_lastEntry hdistinct hr
  obtain ⟨o, ho, hdescribes⟩ := h.described hx.mem
  have hname : o.name = r.name := hdescribes.typeName.symm.trans hx.typeName
  have hversions := h.versions_of_type hdistinct ho
  rw [hname] at hversions
  exact ⟨o, ho, hname, hversions, ((h.derived hdistinct).versions r hr).1.trans hversions⟩

theorem exists_latestEntries (h : c.Built project inspect g) (hdistinct : (c.objects.map ObjectConfig.name).Nodup)
    {r : ReconciledObject} (hr : r ∈ g.reconciled) : ∃ o ∈ c.objects, o.name = r.name ∧
      ∃ first last, g.LatestEntries r o.versions first last := by
  obtain ⟨o, ho, hname, hentries, hversions⟩ := h.exists_reconciled_config hdistinct hr
  obtain ⟨last, hlast⟩ := h.exists_lastEntry hdistinct hr
  have hlatest := Group.latest_latestObjects g
  obtain ⟨first, hfind⟩ : ∃ first, g.latestObjects.find? (·.typeName == r.name) = some first := by
    rw [← Option.isSome_iff_exists, List.find?_isSome]
    obtain ⟨l, hl, htype⟩ := List.mem_map.mp (hlatest.complete last hlast.mem)
    exact ⟨l, hl, beq_iff_eq.mpr (htype.trans hlast.typeName)⟩
  have hfirst : first ∈ g.latestObjects := List.mem_of_find?_eq_some hfind
  have htype : first.typeName = r.name := by simpa using List.find?_some hfind
  have hfirstListed : (Version.greatest o.versions).head? = some first.version := by
    rw [← head?_greatest_objectVersions, ← hentries, ← Group.version_find?_latest, ← Group.latestObjects, hfind]
    rfl
  have hlastListed : (Version.greatest o.versions).getLast? = some last.version := by
    rw [← getLast?_greatest_objectVersions, Version.getLast?_greatest (objectVersions_pairwise o), ← hversions]
    exact hlast.last
  exact ⟨o, ho, hname, first, last, {
    kept := hfirst
    ofType := htype
    commands := fun a ha hatype =>
      List.inj_on_of_nodup_map hlatest.once (Group.mem_commandObjects.mp ha).1 hfirst (hatype.trans htype.symm)
    firstListed := hfirstListed
    reconciler := by rw [Generated.reconcilerOf, hlast.found]; rfl
    latest := hlast.last
    lastListed := hlastListed
    tied := Version.compare_eq_of_mem_greatest (List.mem_of_head? hfirstListed) (List.mem_of_getLast? hlastListed)
    agree := by rw [hlast.last, hfirstListed, hlastListed, eq_comm]
    same := by
      rw [hlast.last, Option.some.injEq]
      constructor
      · intro hversion
        exact h.eq_of_key_eq hdistinct hlast.mem (hlatest.mem first hfirst)
          (Prod.ext (hlast.typeName.trans htype.symm) hversion)
      · exact congrArg ApiObject.version }⟩

end GroupConfig.Built

/-- The latest objects of a group are one entry of each type, in the order in which the types appear, and none of the
type comes after it. For a reconciled object this entry has the first listed of the greatest versions and its
reconciler the last: they target one version exactly when these are the same text, as with plainly written ones. -/
theorem latest_versions_agree_iff {project : Project} {inspect : Inspector} {c : Config} {m : Model}
    (h : buildModel project inspect c = .ok m) :
    (∀ g ∈ m.groups,
      g.latestObjects.map ApiObject.typeName = distinct (g.objects.map ApiObject.typeName) ∧
      ∀ l ∈ g.latestObjects, l ∈ g.objects ∧
        ∀ o ∈ g.objects, o.typeName = l.typeName → Version.le o.version l.version = true) ∧
    List.Forall₂ (fun d g => ∀ r ∈ g.reconciled, ∃ o ∈ d.objects, o.name = r.name ∧
      ∃ first last, g.LatestEntries r o.versions first last ∧
        ((∀ v ∈ o.versions, Version.Plain v) → r.latestVersion? = some first.version)) c.groups m.groups := by
  have hbuilt := buildModel_ok h
  constructor
  · intro g _
    have hlatest := Group.latest_latestObjects g
    exact ⟨Group.types_foldl_keepLatest g.objects, fun l hl => ⟨hlatest.mem l hl, hlatest.last l hl⟩⟩
  · refine List.forall₂_iff_zip.mpr ⟨hbuilt.groups.length_eq, fun {d g} hdg r hr => ?_⟩
    have hdistinct := (hbuilt.wellFormed.groups d (List.of_mem_zip hdg).1).distinct
    obtain ⟨o, ho, hname, first, last, hentries⟩ :=
      (List.forall₂_zip hbuilt.groups hdg).exists_latestEntries hdistinct hr
    refine ⟨o, ho, hname, first, last, hentries, fun hplain => ?_⟩
    have hfirst := (Version.mem_greatest.mp (List.mem_of_head? hentries.firstListed)).1
    have hlast := (Version.mem_greatest.mp (List.mem_of_getLast? hentries.lastListed)).1
    rw [(hplain _ hfirst).eq_of_compare_eq (hplain _ hlast) hentries.tied]
    exact hentries.latest

/-- The versions `v1` and `v01` have one rank, so a chart is offered at `v1` and reconciled at `v01`. -/
theorem tied_versions_disagree :
    let config : Config := {
      apiNamespace := "charts"
      migrationOrder := some []
      groups := [{ name := "Helm", objects := [
        { name := "Chart", versions := ["v1", "v01"], reconcilable := true, commands := { enabled := true } }] }] }
    ∃ m, buildModel (Project.ofModule "" "example.com/charts") (fun path => .ok ⟨path, "", []⟩) config = .ok m ∧
      m.groups.map (fun g => g.latestObjects.map ApiObject.label) = [["Chart@v1"]] ∧
      m.groups.map (fun g => g.commandObjects.map ApiObject.label) = [["Chart@v1"]] ∧
      m.groups.map (fun g => g.reconciled.map ReconciledObject.latestVersion?) = [[some "v01"]] := by
  intro config
  obtain ⟨m, hm, hlatest⟩ : ∃ m, buildModel (Project.ofModule "" "example.com/charts") (fun path => .ok ⟨path, "", []⟩)
      config = .ok m ∧
        m.groups.map (fun g => (g.latestObjects.map ApiObject.label, g.commandObjects.map ApiObject.label,
          g.reconciled.map ReconciledObject.latestVersion?)) = [(["Chart@v1"], ["Chart@v1"], [some "v01"])] :=
    exists_ok_of_map (by decide +kernel)
  refine ⟨m, hm, ?_, ?_, ?_⟩
  · simpa using congrArg (List.map Prod.fst) hlatest
  · simpa using congrArg (List.map fun e => e.2.1) hlatest
  · simpa using congrArg (List.map fun e => e.2.2) hlatest

/-- Charts at versions that are written plainly are offered and reconciled at the same one. -/
theorem plain_versions_agree :
    let config : Config := {
      apiNamespace := "charts"
      migrationOrder := some []
      groups := [{ name := "Helm", objects := [
        { name := "Chart", versions := ["v1", "v1alpha2", "v0"], reconcilable := true }] }] }
    ∃ m, buildModel (Project.ofModule "" "example.com/charts") (fun path => .ok ⟨path, "", []⟩) config = .ok m ∧
      m.groups.map (fun g => g.reconciled.map ReconciledObject.versions) = [[["v0", "v1alpha2", "v1"]]] ∧
      ∀ g ∈ m.groups, ∀ r ∈ g.reconciled, ∃ l ∈ g.latestObjects,
        l.typeName = r.name ∧ r.latestVersion? = some l.version := by
  intro config
  obtain ⟨m, hm, hversions⟩ : ∃ m, buildModel (Project.ofModule "" "example.com/charts")
      (fun path => .ok ⟨path, "", []⟩) config = .ok m ∧
        m.groups.map (fun g => g.reconciled.map ReconciledObject.versions) = [[["v0", "v1alpha2", "v1"]]] :=
    exists_ok_of_map (by decide +kernel)
  obtain ⟨-, hagree⟩ := latest_versions_agree_iff hm
  refine ⟨m, hm, hversions, fun g hg r hr => ?_⟩
  obtain ⟨d, hd, hlatest⟩ := exists_of_forall₂ hagree hg
  obtain ⟨o, ho, -, first, last, hentries, hplain⟩ := hlatest r hr
  obtain rfl := List.mem_singleton.mp hd
  obtain rfl := List.mem_singleton.mp ho
  refine ⟨first, hentries.kept, hentries.ofType, hplain ?_⟩
  simp only [List.forall_mem_cons, List.not_mem_nil, false_implies, implies_true, and_true]
  exact ⟨⟨1, by decide, [], rfl, by decide⟩, ⟨1, by decide, ['a', 'l', 'p', 'h', 'a', '2'], by decide, by decide⟩,
    ⟨0, by decide, [], rfl, by decide⟩⟩

end ApiForge
