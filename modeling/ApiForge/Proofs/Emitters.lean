import ApiForge.Proofs.Partition
import ApiForge.Proofs.Runs
import ApiForge.Proofs.Marks
import ApiForge.Proofs.Outcomes
import ApiForge.Proofs.Templates

/-! Where the built-in emitters write. The values of placeholders come from the names of groups and objects and from
versions, so names without slashes stay within one segment. Then only two of the emitters write beside the sources. -/

namespace ApiForge

open PathTemplate (Part Slashless Grounded apart parse fill segmentParts)

/-! ### Values of placeholders -/

/-- What a target is made of. -/
def Target.Within (m : Model) : Target → Granularity → Prop
  | .version s v, granularity => granularity = .version ∧ s ∈ m.slices ∧ m.index? s.version = some v
  | .versionGroup s p, granularity => granularity = .versionGroup ∧ s ∈ m.slices ∧ p ∈ s.groups
  | .group g, granularity => granularity = .group ∧ g ∈ m.groups
  | .reconciledObject g r, granularity => granularity = .reconciledObject ∧ g ∈ m.groups ∧ r ∈ g.reconciled

theorem Target.mem_all_iff {m : Model} {granularity : Granularity} {t : Target} :
    t ∈ Target.all m granularity ↔ t.Within m granularity := by
  cases granularity with
  | version =>
      rw [all, List.mem_filterMap]
      simp only [Option.map_eq_some_iff]
      cases t <;> simp [Within]
  | versionGroup =>
      rw [all, List.mem_flatMap]
      simp only [List.mem_map]
      cases t <;> simp [Within]
  | group =>
      rw [all, List.mem_map]
      cases t <;> simp [Within]
  | reconciledObject =>
      rw [all, List.mem_flatMap]
      simp only [List.mem_map]
      cases t <;> simp [Within]

/-- No name in a configuration has a slash. -/
structure Config.Plain (c : Config) : Prop where
  groups : ∀ g ∈ c.groups, '/' ∉ g.name.toList
  objects : ∀ g ∈ c.groups, ∀ o ∈ g.objects, '/' ∉ o.name.toList

/-- No name in a configuration has the character. -/
structure Config.Without (c : Config) (d : Char) : Prop where
  groups : ∀ g ∈ c.groups, d ∉ g.name.toList
  objects : ∀ g ∈ c.groups, ∀ o ∈ g.objects, d ∉ o.name.toList

namespace Config.Built

variable {project : Project} {inspect : Inspector} {c : Config} {m : Model}

theorem version_mem (h : c.Built project inspect m) {g : Group} (hg : g ∈ m.groups) {v : String}
    (hv : v ∈ g.objects.map ApiObject.version) : v ∈ c.versions := by
  rw [← versionsOf_built h.groups, versionsOf, Version.sort, mem_sortBy, NameSet.mem_ofList, List.map_flatMap]
  exact List.mem_flatMap.mpr ⟨g, hg, hv⟩

theorem isValid_of_mem (h : c.Built project inspect m) {v : String} (hv : v ∈ c.versions) : Version.isValid v = true := by
  rw [Config.versions, Version.sort, mem_sortBy, NameSet.mem_ofList] at hv
  obtain ⟨o, ho, hv⟩ := List.mem_flatMap.mp hv
  obtain ⟨g, hg, ho⟩ := List.mem_flatMap.mp ho
  exact ((h.wellFormed.groups g hg).objects o ho).valid v hv

/-- The group of a target is a group of the model, with the names derived from it. -/
theorem group_of_target (h : c.Built project inspect m) {granularity : Granularity} {t : Target}
    (ht : t ∈ Target.all m granularity) {name : String} {names : GroupNames} (hgroup : t.group? = some (name, names)) :
    ∃ g ∈ m.groups, name = g.name ∧ names = .ofGroup name := by
  have hnames {g : Group} (hg : g ∈ m.groups) : g.names = .ofGroup g.name := by
    obtain ⟨d, -, hbuilt, -⟩ := h.configured hg
    rw [hbuilt.names, hbuilt.name]
  have hwithin := Target.mem_all_iff.mp ht
  cases t with
  | version s v => cases hgroup
  | versionGroup s p =>
      obtain ⟨-, hs, hp⟩ := hwithin
      obtain ⟨g, hg, hpart⟩ := exists_of_forall₂ (h.partitioned.parts s hs) hp
      have hg := List.mem_of_mem_filter hg
      cases hgroup
      exact ⟨g, hg, hpart.name, by rw [hpart.names, hpart.name, hnames hg]⟩
  | group g =>
      cases hgroup
      exact ⟨g, hwithin.2, rfl, hnames hwithin.2⟩
  | reconciledObject g r =>
      cases hgroup
      exact ⟨g, hwithin.2.1, rfl, hnames hwithin.2.1⟩

theorem version_of_target (h : c.Built project inspect m) {granularity : Granularity} {t : Target}
    (ht : t ∈ Target.all m granularity) {v : String} (hversion : t.version? = some v) : v ∈ c.versions := by
  have hwithin := Target.mem_all_iff.mp ht
  cases t with
  | version s i =>
      cases hversion
      exact h.partitioned.mem_versions hwithin.2.1
  | versionGroup s p =>
      cases hversion
      exact h.partitioned.mem_versions hwithin.2.1
  | group g => cases hversion
  | reconciledObject g r =>
      obtain ⟨-, hg, hr⟩ := hwithin
      obtain ⟨d, -, hbuilt, -⟩ := h.configured hg
      rw [hbuilt.reconciled] at hr
      exact h.version_mem hg (mem_versions_reconciledOf hr (List.mem_of_getLast? hversion))

theorem object_of_target (h : c.Built project inspect m) {granularity : Granularity} {t : Target}
    (ht : t ∈ Target.all m granularity) {name : String} (hobject : t.object? = some name) :
    ∃ d ∈ c.groups, ∃ o ∈ d.objects, name = o.name := by
  have hwithin := Target.mem_all_iff.mp ht
  cases t with
  | version s v => cases hobject
  | versionGroup s p => cases hobject
  | group g => cases hobject
  | reconciledObject g r =>
      obtain ⟨-, hg, hr⟩ := hwithin
      obtain ⟨d, hd, hbuilt, -⟩ := h.configured hg
      cases hobject
      have hname : r.name ∈ g.reconciled.map ReconciledObject.name := List.mem_map_of_mem hr
      rw [hbuilt.reconciled, reconciledOf_names, mem_distinct] at hname
      obtain ⟨a, ha, heq⟩ := List.mem_map.mp hname
      obtain ⟨o, ho, hdescribes⟩ := hbuilt.described (List.mem_of_mem_filter ha)
      exact ⟨d, hd, o, ho, by rw [← heq, hdescribes.typeName]⟩

/-- What placeholders stand for has a mark only if some name has it. -/
theorem placeholder_markless (h : c.Built project inspect m) {d : Char} (hd : Text.IsMark d) (hhyphen : d ≠ '-')
    (hwithout : c.Without d) {granularity : Granularity} {t : Target} (ht : t ∈ Target.all m granularity)
    {key value : String} (hvalue : t.placeholder? key = some value) : d ∉ value.toList := by
  have hgroup {name : String} {names : GroupNames} (hnamed : t.group? = some (name, names)) :
      d ∉ name.toList ∧ names = .ofGroup name := by
    obtain ⟨g, hg, hname, hnames⟩ := h.group_of_target ht hnamed
    obtain ⟨config, hconfig, hbuilt, -⟩ := h.configured hg
    rw [hname, hbuilt.name] at hnames ⊢
    exact ⟨hwithout.groups config hconfig, hnames⟩
  unfold Target.placeholder? at hvalue
  split_ifs at hvalue
  · exact fun hmark => Version.not_isMark_of_isValid (h.isValid_of_mem (h.version_of_target ht hvalue)) d hmark hd
  · obtain ⟨⟨name, names⟩, hg, rfl⟩ := Option.map_eq_some_iff.mp hvalue
    exact Text.markless_snakeCase hd (hgroup hg).1
  · obtain ⟨name, hname, rfl⟩ := Option.map_eq_some_iff.mp hvalue
    obtain ⟨config, hconfig, o, ho, rfl⟩ := h.object_of_target ht hname
    exact Text.markless_snakeCase hd (hwithout.objects config hconfig o ho)
  · obtain ⟨⟨name, names⟩, hg, rfl⟩ := Option.map_eq_some_iff.mp hvalue
    obtain ⟨hmark, rfl⟩ := hgroup hg
    exact Text.markless_controller hd hhyphen hmark
  · obtain ⟨⟨name, names⟩, hg, rfl⟩ := Option.map_eq_some_iff.mp hvalue
    obtain ⟨hmark, rfl⟩ := hgroup hg
    exact Text.markless_packageCase hd hmark

/-- When no name has a slash they are pieces of one segment. -/
theorem placeholder_slashless (h : c.Built project inspect m) (hplain : c.Plain) {granularity : Granularity} {t : Target}
    (ht : t ∈ Target.all m granularity) {key value : String} (hvalue : t.placeholder? key = some value) :
    '/' ∉ value.toList :=
  h.placeholder_markless (by decide) (by decide) ⟨hplain.groups, hplain.objects⟩ ht hvalue

theorem placeholder_grounded (h : c.Built project inspect m) {granularity : Granularity} {t : Target}
    (ht : t ∈ Target.all m granularity) : Grounded t.placeholder? := by
  intro key value hkey hvalue
  rcases hkey with rfl | rfl
  · exact ⟨'v', (Version.segment_of_isValid (h.isValid_of_mem (h.version_of_target ht hvalue))).2, by decide⟩
  · obtain ⟨⟨name, names⟩, hg, rfl⟩ := Option.map_eq_some_iff.mp hvalue
    obtain ⟨g, -, -, rfl⟩ := h.group_of_target ht hg
    refine ⟨'-', ?_, by decide⟩
    rw [GroupNames.ofGroup, String.toList_append]
    exact List.mem_append_right _ (by decide)

end Config.Built

/-! ### Artifacts -/

/-- An artifact has the mode of its emitter and the path of its target. -/
theorem Emitter.artifact_ok {e : Emitter} {p : Project} {m : Model} {t : Target} {a : Artifact}
    (h : e.artifact p m t = .ok a) :
    a.mode = e.mode ∧ ∃ cs, fill t.placeholder? (parse e.path.toList).1 = .ok cs ∧ a.path = String.ofList cs := by
  unfold artifact at h
  split at h
  · cases h
  · rename_i path hpath
    split at h
    · cases h
    · cases h
      unfold PathTemplate.expand at hpath
      dsimp only at hpath
      split at hpath
      · cases hpath
      · rename_i cs hcs
        split at hpath
        · exact ⟨rfl, cs, hcs, (Except.ok.inj hpath).symm⟩
        · cases hpath

/-! ### Beside the sources -/

def objectsTemplate : String := "pkg/api/\x7bversion\x7d/\x7bgroup\x7d_gen.go"

def notificationsTemplate : String := "pkg/api/\x7bversion\x7d/notifications_gen.go"

/-- The template starts with a character of a name, so none of its paths is absolute. -/
def relative : List Part → Bool
  | .literal c :: _ => c != '/'
  | _ => false

/-- Two emitters write to the directories of the sources, and both overwrite. -/
theorem defaultEmitters_cases {e : Emitter} (he : e ∈ defaultEmitters) :
    relative (parse e.path.toList).1 = true ∧
      ((e.stage = .apiModel ∧ e.mode = .overwrite ∧
        (e.granularity = .versionGroup ∧ e.path = objectsTemplate ∨
          e.granularity = .version ∧ e.path = notificationsTemplate)) ∨
        apart (parse e.path.toList).1 = true) := by
  have hall : ∀ e ∈ defaultEmitters.map fun e => (e.stage, e.mode, e.granularity, e.path),
      relative (parse e.2.2.2.toList).1 = true ∧
        ((e.1 = .apiModel ∧ e.2.1 = .overwrite ∧
          (e.2.2.1 = .versionGroup ∧ e.2.2.2 = objectsTemplate ∨
            e.2.2.1 = .version ∧ e.2.2.2 = notificationsTemplate)) ∨
          apart (parse e.2.2.2.toList).1 = true) := by
    decide +kernel
  exact hall _ (List.mem_map_of_mem he)

theorem segmentParts_objectsTemplate :
    segmentParts (parse objectsTemplate.toList).1 =
      ["pkg".toList.map .literal, "api".toList.map .literal, [.hole "version"],
        .hole "group" :: "_gen.go".toList.map .literal] := by
  decide +kernel

theorem segmentParts_notificationsTemplate :
    segmentParts (parse notificationsTemplate.toList).1 =
      ["pkg".toList.map .literal, "api".toList.map .literal, [.hole "version"],
        "notifications_gen.go".toList.map .literal] := by
  decide +kernel

section Segments

variable {value? : String → Option String}

theorem eq_of_fill_literals {name segment : String}
    (h : fill value? (name.toList.map .literal) = .ok segment.toList) : segment = name := by
  rw [PathTemplate.fill_literals, Except.ok.injEq, String.toList_inj] at h
  exact h.symm

theorem segments_beside {parts last : List Part} {cs : List Char}
    (hparts : segmentParts parts = ["pkg".toList.map .literal, "api".toList.map .literal, [.hole "version"], last])
    (hslash : Slashless value? parts) (hfill : fill value? parts = .ok cs) :
    ∃ version file, value? "version" = some version ∧ fill value? last = .ok file.toList ∧
      Path.segments (String.ofList cs) = ["pkg", "api", version, file] := by
  have hsegments := PathTemplate.fill_segments_path hslash hfill
  rw [hparts] at hsegments
  generalize Path.segments (String.ofList cs) = segments at hsegments ⊢
  rcases hsegments with _ | ⟨hfirst, _ | ⟨hsecond, _ | ⟨hthird, _ | ⟨hfourth, _ | _⟩⟩⟩⟩
  rename_i first second third fourth
  obtain ⟨version, rest, hversion, hrest, hthird⟩ := PathTemplate.fill_hole.mp hthird
  cases hrest
  rw [List.append_nil, String.toList_inj] at hthird
  refine ⟨version, fourth, hversion, hfourth, ?_⟩
  rw [eq_of_fill_literals hfirst, eq_of_fill_literals hsecond, hthird]

theorem segments_objectsTemplate {cs : List Char} (hslash : Slashless value? (parse objectsTemplate.toList).1)
    (hfill : fill value? (parse objectsTemplate.toList).1 = .ok cs) :
    ∃ version group, value? "version" = some version ∧ value? "group" = some group ∧
      Path.segments (String.ofList cs) = ["pkg", "api", version, group ++ "_gen.go"] := by
  obtain ⟨version, file, hversion, hfile, hsegments⟩ := segments_beside segmentParts_objectsTemplate hslash hfill
  obtain ⟨group, rest, hgroup, hrest, heq⟩ := PathTemplate.fill_hole.mp hfile
  rw [PathTemplate.fill_literals, Except.ok.injEq] at hrest
  rw [← hrest, ← String.toList_append, String.toList_inj] at heq
  exact ⟨version, group, hversion, hgroup, by rw [hsegments, heq]⟩

theorem segments_notificationsTemplate {cs : List Char}
    (hslash : Slashless value? (parse notificationsTemplate.toList).1)
    (hfill : fill value? (parse notificationsTemplate.toList).1 = .ok cs) :
    ∃ version, value? "version" = some version ∧
      Path.segments (String.ofList cs) = ["pkg", "api", version, "notifications_gen.go"] := by
  obtain ⟨version, file, hversion, hfile, hsegments⟩ :=
    segments_beside segmentParts_notificationsTemplate hslash hfill
  exact ⟨version, hversion, by rw [hsegments, eq_of_fill_literals hfile]⟩

end Segments

/-! ### Places of artifacts -/

/-- A generated file beside the sources of a version has this name, without what all generated names end in. -/
def Config.Generates (c : Config) (version stem : String) : Prop :=
  stem = "notifications" ∨ ∃ g ∈ c.groups, version ∈ g.versions ∧ Text.snakeCase g.name = stem

/-- The name of the file beside the sources that a target is for. -/
def Target.stem? : Target → Option String
  | .version _ _ => some "notifications"
  | .versionGroup _ p => some (Text.snakeCase p.name)
  | _ => none

theorem isName_generated (stem : String) : Path.IsName (stem ++ "_gen.go") := by
  rw [← String.ofList_toList (s := stem ++ "_gen.go"), String.toList_append]
  exact PathTemplate.isName_of_mem (List.mem_append_right _ (by decide : '_' ∈ "_gen.go".toList)) (by decide)

theorem isName_version {version : String} (h : Version.isValid version = true) : Path.IsName version := by
  rw [← String.ofList_toList (s := version)]
  exact PathTemplate.isName_of_mem (Version.segment_of_isValid h).2 (by decide)

/-- The way from the root of the project to a file beside the sources of a version. -/
theorem isName_beside {version file : String} (hversion : Version.isValid version = true) (hfile : Path.IsName file) :
    ∀ s ∈ ["pkg", "api", version, file], Path.IsName s := by
  simp only [List.forall_mem_cons]
  exact ⟨Path.isName_iff.mpr (by decide), Path.isName_iff.mpr (by decide), isName_version hversion, hfile,
    fun _ hmem => absurd hmem List.not_mem_nil⟩

theorem isAbsolute_of_relative {parts : List Part} {value? : String → Option String} {cs : List Char}
    (h : relative parts = true) (hfill : fill value? parts = .ok cs) :
    Path.isAbsolute (String.ofList cs) = false := by
  cases parts with
  | nil => cases h
  | cons part parts =>
      cases part with
      | literal c =>
          obtain ⟨rest, -, rfl⟩ := PathTemplate.fill_literal.mp hfill
          have hc : c ≠ '/' := bne_iff_ne.mp h
          rw [Path.isAbsolute, String.toList_ofList, List.head?_cons]
          simpa using hc
      | hole key => cases h

theorem Emitter.mem_made {e : Emitter} {p : Project} {m : Model} {a : Artifact} (ha : a ∈ e.made p m) :
    ∃ t ∈ Target.all m e.granularity, e.artifact p m t = .ok a := by
  unfold made artifacts at ha
  cases hmade : ((Target.all m e.granularity).filter e.applies).mapM (e.artifact p m) with
  | error f => rw [hmade] at ha; cases ha
  | ok as =>
      rw [hmade] at ha
      obtain ⟨t, ht, hta⟩ := exists_of_forall₂ (forall₂_of_mapM hmade) ha
      exact ⟨t, List.mem_of_mem_filter ht, hta⟩

theorem Emitter.exists_made {e : Emitter} {p : Project} {m : Model} (h : e.artifacts p m = .ok (e.made p m))
    {t : Target} (ht : t ∈ Target.all m e.granularity) (happlies : e.applies t = true) :
    ∃ a ∈ e.made p m, e.artifact p m t = .ok a :=
  exists_of_forall₂_left (forall₂_of_mapM h) (List.mem_filter.mpr ⟨ht, happlies⟩)

namespace Config.Built

variable {project : Project} {inspect : Inspector} {c : Config} {m : Model}

/-- The generated files beside the sources come from the targets of these two kinds. -/
theorem generates_iff (h : c.Built project inspect m) {version stem : String} (hversion : version ∈ c.versions) :
    c.Generates version stem ↔ ∃ granularity, ∃ t ∈ Target.all m granularity,
      t.version? = some version ∧ t.stem? = some stem := by
  constructor
  · rintro (rfl | ⟨d, hd, hv, rfl⟩)
    · have htargets := h.partitioned.sliced
      rw [← htargets] at hversion
      obtain ⟨s, hs, rfl⟩ := List.mem_map.mp hversion
      obtain ⟨i, -, hi, -⟩ := h.partitioned.index?_eq (h.partitioned.mem_versions hs)
      exact ⟨.version, .version s i, Target.mem_all_iff.mpr ⟨rfl, hs, hi⟩, rfl, rfl⟩
    · obtain ⟨g, hg, hbuilt⟩ := exists_of_forall₂_left h.groups hd
      rw [← hbuilt.mem_versions] at hv
      obtain ⟨o, ho, rfl⟩ := List.mem_map.mp hv
      have hthere : g.objectsIn o.version ≠ [] := List.ne_nil_of_mem (Group.mem_objectsIn.mpr ⟨ho, rfl⟩)
      rw [← h.partitioned.sliced] at hversion
      obtain ⟨s, hs, hsv⟩ := List.mem_map.mp hversion
      obtain ⟨p, hp, hpart⟩ := exists_of_forall₂_left (h.partitioned.parts s hs)
        (List.mem_filter.mpr ⟨hg, by simpa [hsv] using hthere⟩)
      refine ⟨.versionGroup, .versionGroup s p, Target.mem_all_iff.mpr ⟨rfl, hs, hp⟩, congrArg some hsv, ?_⟩
      rw [Target.stem?, hpart.name, hbuilt.name]
  · rintro ⟨granularity, t, ht, hv, hstem⟩
    have hwithin := Target.mem_all_iff.mp ht
    cases t with
    | version s i => exact Or.inl (Option.some.inj hstem).symm
    | versionGroup s p =>
        obtain ⟨-, hs, hp⟩ := hwithin
        obtain ⟨g, hg, hpart⟩ := exists_of_forall₂ (h.partitioned.parts s hs) hp
        obtain ⟨hg, hthere⟩ := List.mem_filter.mp hg
        obtain ⟨d, hd, hbuilt⟩ := exists_of_forall₂ h.groups hg
        obtain ⟨o, ho⟩ := List.exists_mem_of_ne_nil _ (of_decide_eq_true hthere)
        obtain ⟨ho, hov⟩ := Group.mem_objectsIn.mp ho
        refine Or.inr ⟨d, hd, ?_, ?_⟩
        · rw [← hbuilt.mem_versions, ← Option.some.inj hv, ← hov]
          exact List.mem_map_of_mem ho
        · rw [← Option.some.inj hstem, hpart.name, hbuilt.name]
    | group g => cases hv
    | reconciledObject g r => cases hstem

/-- The path of an artifact that is meant to be beside the sources. -/
theorem segments_artifact (h : c.Built project inspect m) (hplain : c.Plain) {e : Emitter} {t : Target} {a : Artifact}
    (ht : t ∈ Target.all m e.granularity) (hta : e.artifact project m t = .ok a)
    (hkind : e.granularity = .versionGroup ∧ e.path = objectsTemplate ∨
      e.granularity = .version ∧ e.path = notificationsTemplate) :
    ∃ version stem, t.version? = some version ∧ t.stem? = some stem ∧
      Path.segments a.path = ["pkg", "api", version, stem ++ "_gen.go"] := by
  obtain ⟨-, cs, hfill, hpath⟩ := Emitter.artifact_ok hta
  have hslash : Slashless t.placeholder? (parse e.path.toList).1 :=
    fun key value _ hvalue => h.placeholder_slashless hplain ht hvalue
  have hwithin := Target.mem_all_iff.mp ht
  rw [hpath]
  rcases hkind with ⟨hgranularity, htemplate⟩ | ⟨hgranularity, htemplate⟩
  · rw [htemplate] at hslash hfill
    obtain ⟨v, stem, hv, hstem, hsegments⟩ := segments_objectsTemplate hslash hfill
    refine ⟨v, stem, hv, ?_, hsegments⟩
    rw [hgranularity] at hwithin
    cases t with
    | version s i => cases hwithin.1
    | versionGroup s p => exact hstem
    | group g => cases hwithin.1
    | reconciledObject g r => cases hwithin.1
  · rw [htemplate] at hslash hfill
    obtain ⟨v, hv, hsegments⟩ := segments_notificationsTemplate hslash hfill
    refine ⟨v, "notifications", hv, ?_, hsegments⟩
    rw [hgranularity] at hwithin
    cases t with
    | version s i => rfl
    | versionGroup s p => cases hwithin.1
    | group g => cases hwithin.1
    | reconciledObject g r => cases hwithin.1

theorem walk_beside (h : c.Built project inspect m) {version : String} (hversion : version ∈ c.versions) (stem : String)
    (place : Files.Place) :
    Path.walk place ["pkg", "api", version, stem ++ "_gen.go"] =
      place ++ ["pkg", "api", version, stem ++ "_gen.go"] :=
  Path.walk_names (isName_beside (h.isValid_of_mem hversion) (isName_generated stem)) place

theorem relative_artifact {e : Emitter} (he : e ∈ defaultEmitters) {a : Artifact} (ha : a ∈ e.made project m) :
    Path.isAbsolute a.path = false := by
  obtain ⟨t, -, hta⟩ := Emitter.mem_made ha
  obtain ⟨-, cs, hfill, hpath⟩ := Emitter.artifact_ok hta
  rw [hpath]
  exact isAbsolute_of_relative (defaultEmitters_cases he).1 hfill

/-- An artifact that leads to the directory of the sources of a version is one of those that are meant to. -/
theorem artifact_place (h : c.Built project inspect m) (hplain : c.Plain) {e : Emitter} (he : e ∈ defaultEmitters)
    {a : Artifact} (ha : a ∈ e.made project m) {place : Files.Place} {version file : String}
    (hplace : Path.walk place (Path.segments a.path) = place ++ ["pkg", "api", version, file]) :
    e.stage = .apiModel ∧ a.mode = .overwrite ∧
      ∃ stem, file = stem ++ "_gen.go" ∧ c.Generates version stem := by
  obtain ⟨t, ht, hta⟩ := Emitter.mem_made ha
  obtain ⟨hmode, cs, hfill, hpath⟩ := Emitter.artifact_ok hta
  obtain ⟨-, ⟨hstage, hoverwrite, hkind⟩ | hapart⟩ := defaultEmitters_cases he
  · refine ⟨hstage, hmode.trans hoverwrite, ?_⟩
    obtain ⟨v, stem, hv, hstem, hsegments⟩ := h.segments_artifact hplain ht hta hkind
    have hversion := h.version_of_target ht hv
    rw [hsegments, h.walk_beside hversion, List.append_cancel_left_eq] at hplace
    simp only [List.cons.injEq, true_and, and_true] at hplace
    rw [← hplace.1, ← hplace.2]
    exact ⟨stem, rfl, (h.generates_iff hversion).mpr ⟨e.granularity, t, ht, hv, hstem⟩⟩
  · rw [hpath] at hplace
    have hslash : Slashless t.placeholder? (parse e.path.toList).1 :=
      fun key value _ hvalue => h.placeholder_slashless hplain ht hvalue
    exact absurd hplace
      (PathTemplate.walk_ne_of_apart (h.placeholder_grounded ht) hslash hfill hapart place version file)

/-- What is meant to be beside the sources of a version is an artifact of the first stage. -/
theorem exists_artifact (h : c.Built project inspect m) (hplain : c.Plain) {version stem : String}
    (hversion : version ∈ c.versions) (hgenerates : c.Generates version stem) :
    ∃ e ∈ defaultEmitters, e.stage = .apiModel ∧ (e.artifacts project m = .ok (e.made project m) →
      ∃ a ∈ e.made project m, a.mode = .overwrite ∧
        Path.segments a.path = ["pkg", "api", version, stem ++ "_gen.go"]) := by
  obtain ⟨granularity, t, ht, hv, hstem⟩ := (h.generates_iff hversion).mp hgenerates
  -- There is an emitter for targets of either kind.
  have hemitter : ∃ e ∈ defaultEmitters, e.stage = .apiModel ∧ e.mode = .overwrite ∧ e.granularity = granularity ∧
      (∀ t, e.applies t = true) ∧ (e.granularity = .versionGroup ∧ e.path = objectsTemplate ∨
        e.granularity = .version ∧ e.path = notificationsTemplate) := by
    have hwithin := Target.mem_all_iff.mp ht
    cases t with
    | version s i =>
        rw [hwithin.1]
        exact ⟨_, List.mem_cons_of_mem _ List.mem_cons_self, rfl, rfl, rfl, fun _ => rfl, Or.inr ⟨rfl, rfl⟩⟩
    | versionGroup s p =>
        rw [hwithin.1]
        exact ⟨_, List.mem_cons_self, rfl, rfl, rfl, fun _ => rfl, Or.inl ⟨rfl, rfl⟩⟩
    | group g => cases hv
    | reconciledObject g r => cases hstem
  obtain ⟨e, he, hstage, hmode, rfl, happlies, hkind⟩ := hemitter
  refine ⟨e, he, hstage, fun hmade => ?_⟩
  obtain ⟨a, ha, hta⟩ := Emitter.exists_made hmade ht (happlies t)
  obtain ⟨v, stem', hv', hstem', hsegments⟩ := h.segments_artifact hplain ht hta hkind
  rw [hv, Option.some.injEq] at hv'
  rw [hstem, Option.some.injEq] at hstem'
  rw [← hv', ← hstem'] at hsegments
  exact ⟨a, ha, (Emitter.artifact_ok hta).1.trans hmode, hsegments⟩

end Config.Built

end ApiForge
