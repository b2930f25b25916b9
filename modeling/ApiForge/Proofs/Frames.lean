import ApiForge.Files.Writer
import ApiForge.Proofs.Outcomes
import ApiForge.Proofs.Places

/-! What operations on files leave alone. A write makes directories where nothing was and sets one file, the one that
its path leads to by its segments alone, so all other files and every directory are there afterwards as before. -/

namespace ApiForge.Files

namespace Tree

/-! ### Places of paths -/

def placeOf (t : Tree) (path : String) : Place :=
  Path.placeFrom t.workingDirectory path

theorem follow_ok {t : Tree} {place q : Place} {segments : List String} (h : t.follow place segments = .ok q) :
    q = Path.walk place segments := by
  induction segments generalizing place with
  | nil => exact (Except.ok.inj h).symm
  | cons s segments ih =>
      rw [follow] at h
      rw [Path.walk]
      cases hs : Path.Component.ofSegment? s with
      | none =>
          rw [hs] at h
          exact ih h
      | some component =>
          rw [hs] at h
          cases component with
          | name name =>
              dsimp only at h
              split at h
              · exact ih h
              · cases h
              · cases h
          | parent => exact ih h
          | root => exact ih h
          | here => exact ih h

theorem follow_append_iff {t : Tree} {place q : Place} {front back : List String} :
    t.follow place (front ++ back) = .ok q ↔ ∃ mid, t.follow place front = .ok mid ∧ t.follow mid back = .ok q := by
  induction front generalizing place with
  | nil =>
      rw [List.nil_append]
      exact ⟨fun h => ⟨place, rfl, h⟩, fun ⟨mid, hmid, h⟩ => Except.ok.inj hmid ▸ h⟩
  | cons s front ih =>
      rw [List.cons_append, follow, follow]
      split
      · split
        · exact ih
        · exact iff_of_false nofun fun ⟨mid, hmid, _⟩ => nomatch hmid
        · exact iff_of_false nofun fun ⟨mid, hmid, _⟩ => nomatch hmid
      · exact ih
      · exact ih

theorem follow_name_iff {t : Tree} {place q : Place} {name : String} (hname : Path.IsName name) :
    t.follow place [name] = .ok q ↔ q = place ++ [name] ∧ t.get? q = some .directory := by
  have hcomponent : Path.Component.ofSegment? name = some (.name name) := hname
  rw [follow, hcomponent]
  dsimp only
  split
  · rename_i hdirectory
    rw [follow]
    constructor
    · intro h
      cases h
      exact ⟨rfl, hdirectory⟩
    · rintro ⟨rfl, -⟩
      rfl
  · rename_i content hfile
    refine iff_of_false nofun ?_
    rintro ⟨rfl, hdirectory⟩
    rw [hfile] at hdirectory
    cases hdirectory
  · rename_i hnone
    refine iff_of_false nofun ?_
    rintro ⟨rfl, hdirectory⟩
    rw [hnone] at hdirectory
    cases hdirectory

/-- One component of a path, through a directory that has to be there. -/
def advance (t : Tree) (place : Place) : Path.Component → Except FileFault Place
  | .name name =>
    match t.get? (place ++ [name]) with
    | some .directory => .ok (place ++ [name])
    | some (.file _) => .error .notDirectory
    | none => .error .notFound
  | .parent => .ok place.dropLast
  | _ => .ok place

/-- What is no component of a path does not matter to where it can be followed. -/
theorem follow_eq_foldlM (t : Tree) (place : Place) (segments : List String) :
    t.follow place segments = (segments.filterMap Path.Component.ofSegment?).foldlM t.advance place := by
  induction segments generalizing place with
  | nil => rfl
  | cons s segments ih =>
      rw [follow, List.filterMap_cons]
      cases hs : Path.Component.ofSegment? s with
      | none => exact ih place
      | some component =>
          rw [List.foldlM_cons]
          cases component with
          | name name =>
              simp only [advance]
              cases t.get? (place ++ [name]) with
              | none => rfl
              | some entry =>
                  cases entry with
                  | file content => rfl
                  | directory => exact ih (place ++ [name])
          | parent => exact ih place.dropLast
          | root => exact ih place
          | here => exact ih place

/-- The slashes at the end of a path are set apart. -/
theorem splitPath_eq (path : String) : ∃ blank, (∀ s ∈ blank, s = "") ∧
    ∃ kept, Path.segments path = kept ++ blank ∧ kept.getLast? ≠ some "" ∧
      splitPath path = (kept.dropLast, kept.getLast?.getD "", decide (0 < blank.length)) := by
  let kept := ((Path.segments path).reverse.dropWhile (· == "")).reverse
  let blank := ((Path.segments path).reverse.takeWhile (· == "")).reverse
  have hsplit : Path.segments path = kept ++ blank := by
    rw [← List.reverse_append, List.takeWhile_append_dropWhile, List.reverse_reverse]
  refine ⟨blank, fun s hs => ?_, kept, hsplit, ?_, ?_⟩
  · have hs := List.mem_takeWhile_imp (List.mem_reverse.mp hs)
    exact beq_iff_eq.mp hs
  · intro hlast
    rw [List.getLast?_reverse] at hlast
    have hhead := List.head?_dropWhile_not (fun s : String => s == "") (Path.segments path).reverse
    rw [hlast] at hhead
    simp at hhead
  · have hlength : (Path.segments path).length = kept.length + blank.length := by
      rw [hsplit, List.length_append]
    have hslash : decide (kept.length < (Path.segments path).length) = decide (0 < blank.length) := by
      rw [hlength]
      simp
    rw [← hslash]
    rfl

/-- The last segment of a path that does not end in a slash. -/
theorem splitPath_name_iff {path : String} {front : List String} {name : String} (hname : name ≠ "") :
    splitPath path = (front, name, false) ↔ Path.segments path = front ++ [name] := by
  obtain ⟨blank, hblank, kept, hsegments, hkept, hsplit⟩ := splitPath_eq path
  rw [hsplit, hsegments]
  constructor
  · intro h
    rw [Prod.mk.injEq, Prod.mk.injEq] at h
    obtain ⟨hfront, hlast, hslash⟩ := h
    have hnil : blank = [] := by simpa using hslash
    rcases List.eq_nil_or_concat kept with hempty | ⟨front', last, hconcat⟩
    · rw [hempty] at hlast
      exact absurd hlast.symm hname
    · rw [hconcat, List.concat_eq_append] at hfront hlast
      rw [List.dropLast_concat] at hfront
      rw [List.getLast?_concat, Option.getD_some] at hlast
      rw [hnil, List.append_nil, hconcat, List.concat_eq_append, hfront, hlast]
  · intro h
    have hnil : blank = [] := by
      rcases List.eq_nil_or_concat blank with hempty | ⟨front', last, hconcat⟩
      · exact hempty
      · rw [hconcat, List.concat_eq_append, ← List.append_assoc] at h
        obtain ⟨-, hlast⟩ := List.append_singleton_inj.mp h
        have hblank' := hblank last (by rw [hconcat]; simp)
        exact absurd (hlast.symm.trans hblank') hname
    rw [hnil, List.append_nil] at h
    rw [h, hnil]
    simp

theorem walk_name {place : Place} {name : String} (h : Path.IsName name) :
    Path.walk place [name] = place ++ [name] :=
  Path.walk_names (fun _ hn => List.mem_singleton.mp hn ▸ h) place

theorem eq_of_ofSegment? {segment name : String} (h : Path.Component.ofSegment? segment = some (.name name)) :
    segment = name := by
  rw [Path.Component.ofSegment?] at h
  split_ifs at h
  · cases h
  · exact Path.Component.name.inj (Option.some.inj h)

/-- A name at the end of a path is its last segment if no slash comes after it. -/
theorem segments_of_splitPath {path name : String}
    (hname : Path.Component.ofSegment? (splitPath path).2.1 = some (.name name)) (hslash : (splitPath path).2.2 = false) :
    Path.segments path = (splitPath path).1 ++ [name] ∧ Path.IsName name := by
  have hlast := eq_of_ofSegment? hname
  rw [hlast] at hname
  refine ⟨(splitPath_name_iff (Path.isName_iff.mp hname).1).mp ?_, hname⟩
  rw [← hlast, ← hslash]

theorem splitPath_of_name {path name : String} {front : List String} (hsegments : Path.segments path = front ++ [name])
    (hname : Path.IsName name) : path ≠ "" ∧ splitPath path = (front, name, false) := by
  refine ⟨?_, (splitPath_name_iff (Path.isName_iff.mp hname).1).mpr hsegments⟩
  rintro rfl
  have hblank : [] ++ [""] = front ++ [name] := hsegments
  exact (Path.isName_iff.mp hname).1 (List.append_singleton_inj.mp hblank).2.symm

/-- The slashes at the end of a path do not matter to where it can be followed. -/
theorem follow_splitPath_iff {t : Tree} {place q : Place} {path : String} :
    t.follow place (Path.segments path) = .ok q ↔
      ∃ mid, t.follow place (splitPath path).1 = .ok mid ∧ t.follow mid [(splitPath path).2.1] = .ok q := by
  obtain ⟨blank, hblank, kept, hsegments, -, hsplit⟩ := splitPath_eq path
  have hnone : blank.filterMap Path.Component.ofSegment? = [] :=
    List.filterMap_eq_nil_iff.mpr fun s hs => hblank s hs ▸ rfl
  rw [← follow_append_iff, hsplit, hsegments]
  simp only [follow_eq_foldlM, List.filterMap_append, hnone, List.append_nil]
  rcases List.eq_nil_or_concat' kept with rfl | ⟨front, last, rfl⟩
  · rfl
  · rw [List.dropLast_concat, List.getLast?_concat, Option.getD_some, List.filterMap_append]

/-- A path finds a directory where all of it can be followed. -/
theorem locate_directory_iff {t : Tree} {path : String} {q : Place} :
    t.locate path = .ok (q, .directory) ↔ path ≠ "" ∧ t.follow (t.origin path) (Path.segments path) = .ok q := by
  rw [locate]
  by_cases hempty : path = ""
  · rw [if_pos hempty]
    exact iff_of_false (by rintro ⟨⟩) fun h => h.1 hempty
  · rw [if_neg hempty, and_iff_right hempty, follow_splitPath_iff]
    simp only [bind, Except.bind]
    cases t.follow (t.origin path) (splitPath path).1 with
    | error fault => simp
    | ok place =>
        simp only [Except.ok.injEq, exists_eq_left', follow]
        cases Path.Component.ofSegment? (splitPath path).2.1 with
        | none => simp [pure, Except.pure]
        | some component =>
            cases component with
            | name name =>
                dsimp only
                cases t.get? (place ++ [name]) with
                | none => simp
                | some entry =>
                    cases entry with
                    | directory => simp [pure, Except.pure]
                    | file content => cases (splitPath path).2.2 <;> simp [pure, Except.pure]
            | parent => simp [pure, Except.pure]
            | root => simp [pure, Except.pure]
            | here => simp [pure, Except.pure]

/-- A path finds a file through the directories in front of its last segment, which is the name of the file. -/
theorem locate_file_iff {t : Tree} {path : String} {q : Place} {content : Content} :
    t.locate path = .ok (q, .file content) ↔ ∃ front name place, Path.segments path = front ++ [name] ∧
      Path.IsName name ∧ t.follow (t.origin path) front = .ok place ∧ q = place ++ [name] ∧
      t.get? q = some (.file content) := by
  constructor
  · intro h
    rw [locate] at h
    split at h
    · cases h
    · obtain ⟨place, hfollow, h⟩ := of_bind h
      split at h
      · rename_i name hname
        split at h
        · cases h
        · rename_i found hfound
          split at h
          · cases h
          · rename_i hslash
            cases h
            obtain ⟨hsegments, hname⟩ := segments_of_splitPath hname (Bool.not_eq_true _ ▸ hslash)
            exact ⟨_, name, place, hsegments, hname, hfollow, rfl, hfound⟩
        · cases h
      · cases h
      · cases h
  · rintro ⟨front, name, place, hsegments, hname, hfollow, rfl, hfile⟩
    obtain ⟨hne, hsplit⟩ := splitPath_of_name hsegments hname
    have hcomponent : Path.Component.ofSegment? name = some (.name name) := hname
    rw [locate, if_neg hne, hsplit]
    simp [bind, Except.bind, pure, Except.pure, hfollow, hcomponent, hfile]

/-- A path that ends in a name finds what stands under that name, a file or a directory. -/
theorem locate_name_iff {t : Tree} {path name : String} {front : List String} {q : Place} {entry : Entry}
    (hsegments : Path.segments path = front ++ [name]) (hname : Path.IsName name) :
    t.locate path = .ok (q, entry) ↔
      ∃ place, t.follow (t.origin path) front = .ok place ∧ q = place ++ [name] ∧ t.get? q = some entry := by
  cases entry with
  | file content =>
      rw [locate_file_iff]
      constructor
      · rintro ⟨front', name', place, hsegments', hname', hfollow, hplace, hfile⟩
        obtain ⟨rfl, rfl⟩ := List.append_singleton_inj.mp (hsegments.symm.trans hsegments')
        exact ⟨place, hfollow, hplace, hfile⟩
      · rintro ⟨place, hfollow, hplace, hfile⟩
        exact ⟨front, name, place, hsegments, hname, hfollow, hplace, hfile⟩
  | directory =>
      rw [locate_directory_iff, and_iff_right (splitPath_of_name hsegments hname).1, hsegments, follow_append_iff]
      simp only [follow_name_iff hname]

theorem read_ok_iff {t : Tree} {path : String} {content : Content} :
    t.read path = .ok content ↔ ∃ q, t.locate path = .ok (q, .file content) := by
  rw [read]
  cases hlocate : t.locate path with
  | error fault => exact iff_of_false nofun fun ⟨q, hq⟩ => nomatch hq
  | ok found =>
      obtain ⟨q, entry⟩ := found
      cases entry with
      | directory => exact iff_of_false nofun fun ⟨q', hq⟩ => nomatch hq
      | file content' =>
          constructor
          · intro h
            cases h
            exact ⟨q, rfl⟩
          · rintro ⟨q', hq⟩
            cases hq
            rfl

/-- The place in front of the name that a path ends in. -/
theorem placeOf_of_name {t : Tree} {path name : String} {front : List String} {place : Place}
    (hsegments : Path.segments path = front ++ [name]) (hname : Path.IsName name)
    (hfollow : t.follow (t.origin path) front = .ok place) : t.placeOf path = place ++ [name] := by
  calc t.placeOf path = Path.walk (t.origin path) (front ++ [name]) := by rw [← hsegments]; rfl
    _ = Path.walk place [name] := by rw [Path.walk_append, follow_ok hfollow]
    _ = place ++ [name] := walk_name hname

/-- A file is at the place that its path leads to. -/
theorem locate_file {t : Tree} {path : String} {q : Place} {content : Content}
    (h : t.locate path = .ok (q, .file content)) : q = t.placeOf path ∧ t.get? q = some (.file content) := by
  obtain ⟨front, name, place, hsegments, hname, hfollow, rfl, hfound⟩ := locate_file_iff.mp h
  exact ⟨(placeOf_of_name hsegments hname hfollow).symm, hfound⟩

/-- Paths with the same components find the same file if both end in its name. -/
theorem locate_file_congr {t : Tree} {path path' : String} {q : Place} {content : Content}
    (h : t.locate path = .ok (q, .file content)) (habsolute : Path.isAbsolute path' = Path.isAbsolute path)
    (hcomponents : (Path.segments path').filterMap Path.Component.ofSegment? =
      (Path.segments path).filterMap Path.Component.ofSegment?)
    (hlast : ∃ front name, Path.segments path' = front ++ [name] ∧ Path.IsName name) :
    t.locate path' = .ok (q, .file content) := by
  obtain ⟨front, name, place, hsegments, hname, hfollow, rfl, hfound⟩ := locate_file_iff.mp h
  obtain ⟨front', name', hsegments', hname'⟩ := hlast
  have horigin : t.origin path' = t.origin path := by rw [origin, origin, habsolute]
  have hsingle {n : String} (hn : Path.IsName n) : [n].filterMap Path.Component.ofSegment? = [.name n] := by
    rw [List.filterMap_cons_some hn, List.filterMap_nil]
  rw [hsegments, hsegments', List.filterMap_append, List.filterMap_append, hsingle hname, hsingle hname'] at hcomponents
  obtain ⟨hfront, hcomponent⟩ := List.append_singleton_inj.mp hcomponents
  have hsame : name' = name := Path.Component.name.inj hcomponent
  refine locate_file_iff.mpr ⟨front', name, place, hsame ▸ hsegments', hname, ?_, rfl, hfound⟩
  rw [follow_eq_foldlM, hfront, ← follow_eq_foldlM, horigin]
  exact hfollow

/-- A file may be written where its name stands at the end of a path that can be followed up to there, unless a
directory is in its place. -/
theorem writablePlace_eq_ok_iff {t : Tree} {path : String} {q : Place} :
    t.writablePlace path = .ok q ↔ ∃ front name place, Path.segments path = front ++ [name] ∧
      Path.IsName name ∧ t.follow (t.origin path) front = .ok place ∧ q = place ++ [name] ∧
      t.get? q ≠ some .directory := by
  constructor
  · intro h
    rw [writablePlace] at h
    split at h
    · cases h
    · obtain ⟨place, hfollow, h⟩ := of_bind h
      split at h
      · rename_i name hname
        split at h
        · cases h
        · rename_i hfree
          cases h
          rw [Bool.or_eq_true, not_or, Bool.not_eq_true, beq_iff_eq] at hfree
          obtain ⟨hsegments, hname⟩ := segments_of_splitPath hname hfree.1
          exact ⟨_, name, place, hsegments, hname, hfollow, rfl, hfree.2⟩
      · cases h
  · rintro ⟨front, name, place, hsegments, hname, hfollow, rfl, hdirectory⟩
    obtain ⟨hne, hsplit⟩ := splitPath_of_name hsegments hname
    have hcomponent : Path.Component.ofSegment? name = some (.name name) := hname
    rw [writablePlace, if_neg hne, hsplit]
    simp [bind, Except.bind, pure, Except.pure, hfollow, hcomponent, hdirectory]

/-! ### Frames -/

/-- Only files at places that are touched may have changed or gone. -/
structure Keeps (t : Tree) (touched : Place → Prop) (t' : Tree) : Prop where
  workingDirectory : t'.workingDirectory = t.workingDirectory
  directories : ∀ q, t.get? q = some .directory → t'.get? q = some .directory
  files : ∀ q content, t.get? q = some (.file content) → ¬touched q → t'.get? q = some (.file content)

/-- Nothing is touched. -/
abbrev KeepsAll (t t' : Tree) : Prop :=
  t.Keeps (fun _ => False) t'

theorem KeepsAll.refl (t : Tree) : t.KeepsAll t :=
  ⟨rfl, fun _ h => h, fun _ _ h _ => h⟩

theorem Keeps.mono {t t' : Tree} {touched touched' : Place → Prop} (h : t.Keeps touched t')
    (himp : ∀ q, touched q → touched' q) : t.Keeps touched' t' :=
  ⟨h.workingDirectory, h.directories, fun q content hq hnot => h.files q content hq fun ht => hnot (himp q ht)⟩

theorem Keeps.trans {t t' t'' : Tree} {touched : Place → Prop} (h : t.Keeps touched t')
    (h' : t'.Keeps touched t'') : t.Keeps touched t'' where
  workingDirectory := h'.workingDirectory.trans h.workingDirectory
  directories q hq := h'.directories q (h.directories q hq)
  files q content hq hnot := h'.files q content (h.files q content hq hnot) hnot

theorem Keeps.placeOf_eq {t t' : Tree} {touched : Place → Prop} (h : t.Keeps touched t') (path : String) :
    t'.placeOf path = t.placeOf path := by
  rw [placeOf, placeOf, h.workingDirectory]

theorem Keeps.follow {t t' : Tree} {touched : Place → Prop} (h : t.Keeps touched t') {place q : Place}
    {segments : List String} (hq : t.follow place segments = .ok q) : t'.follow place segments = .ok q := by
  induction segments generalizing place with
  | nil => exact hq
  | cons s segments ih =>
      rw [Tree.follow] at hq ⊢
      split at hq
      · split at hq
        · rename_i hdirectory
          rw [h.directories _ hdirectory]
          exact ih hq
        · cases hq
        · cases hq
      · exact ih hq
      · exact ih hq

/-- A file that is still there is found by the same paths, whatever it holds now. -/
theorem Keeps.locate_file {t t' : Tree} {touched : Place → Prop} (h : t.Keeps touched t') {path : String} {q : Place}
    {content content' : Content} (hq : t.locate path = .ok (q, .file content))
    (hq' : t'.get? q = some (.file content')) : t'.locate path = .ok (q, .file content') := by
  obtain ⟨front, name, place, hsegments, hname, hfollow, hplace, -⟩ := locate_file_iff.mp hq
  have horigin : t'.origin path = t.origin path := by rw [origin, origin, h.workingDirectory]
  exact locate_file_iff.mpr ⟨front, name, place, hsegments, hname, horigin ▸ h.follow hfollow, hplace, hq'⟩

/-- A directory is found by the same paths as before. -/
theorem Keeps.locate_directory {t t' : Tree} {touched : Place → Prop} (h : t.Keeps touched t') {path : String}
    {q : Place} (hq : t.locate path = .ok (q, .directory)) : t'.locate path = .ok (q, .directory) := by
  obtain ⟨hne, hfollow⟩ := locate_directory_iff.mp hq
  have horigin : t'.origin path = t.origin path := by rw [origin, origin, h.workingDirectory]
  exact locate_directory_iff.mpr ⟨hne, horigin ▸ h.follow hfollow⟩

/-! ### Directories and files -/

theorem makeFrom_keeps (t : Tree) (made : Bool) (place : Place) (segments : List String) :
    t.KeepsAll (t.makeFrom made place segments).1 := by
  induction segments generalizing t made place with
  | nil => exact KeepsAll.refl t
  | cons s segments ih =>
      rw [makeFrom]
      split
      · rename_i name _
        split
        · exact ih t made (place ++ [name])
        · exact KeepsAll.refl t
        · rename_i hnone
          have hput : t.KeepsAll (t.put (place ++ [name]) .directory) := by
            have hne : place ++ [name] ≠ [] := List.append_ne_nil_of_right_ne_nil _ (List.cons_ne_nil _ _)
            -- Nothing was at the new place, so no entry is lost.
            have hother (q : Place) {entry : Entry} (hq : t.get? q = some entry) :
                (t.put (place ++ [name]) .directory).get? q = some entry := by
              rw [get?_put t _ q _ hne, if_neg, hq]
              rintro rfl
              rw [hnone] at hq
              cases hq
            exact ⟨rfl, fun q hq => hother q hq, fun q _ hq _ => hother q hq⟩
          exact hput.trans (ih (t.put (place ++ [name]) .directory) true (place ++ [name]))
      · exact ih t made place.dropLast
      · exact ih t made place

/-- A write sets one file, where no directory was. -/
theorem put_of_write {t t' : Tree} {path : String} {content : Content} (h : t.write path content = .ok t') :
    t' = t.put (t.placeOf path) (.file content) ∧ t.placeOf path ≠ [] ∧ t.get? (t.placeOf path) ≠ some .directory := by
  obtain ⟨q, hplace, heq⟩ := of_bind h
  obtain ⟨front, name, place, hsegments, hname, hfollow, rfl, hdirectory⟩ := writablePlace_eq_ok_iff.mp hplace
  cases heq
  rw [placeOf_of_name hsegments hname hfollow]
  exact ⟨rfl, List.append_ne_nil_of_right_ne_nil _ (List.cons_ne_nil _ _), hdirectory⟩

theorem write_ok {t t' : Tree} {path : String} {content : Content} (h : t.write path content = .ok t') :
    t.Keeps (· = t.placeOf path) t' ∧ t'.get? (t.placeOf path) = some (.file content) := by
  obtain ⟨rfl, hne, hdirectory⟩ := put_of_write h
  refine ⟨⟨rfl, fun p hp => ?_, fun p content' hp hnot => ?_⟩, ?_⟩
  · rw [get?_put t _ p _ hne, if_neg, hp]
    rintro rfl
    exact hdirectory hp
  · rw [get?_put t _ p _ hne, if_neg hnot, hp]
  · rw [get?_put t _ _ _ hne, if_pos rfl]

end Tree

/-- A write that fails has made directories at most. -/
theorem tree_of_writeFile_error {t t' : Tree} {path : String} {content : Content} {f : Failure}
    (h : writeFile t path content = (t', .error f)) : t' = (t.makeDirectories ((Path.parent? path).getD "")).1 := by
  unfold writeFile at h
  dsimp only at h
  split at h
  · rename_i hdirectories
    cases h
    rw [hdirectories]
  · rename_i hdirectories
    split at h
    · cases h
      rw [hdirectories]
    · cases h

theorem writeFile_error {t t' : Tree} {path : String} {content : Content} {f : Failure}
    (h : writeFile t path content = (t', .error f)) : t.KeepsAll t' := by
  rw [tree_of_writeFile_error h]
  exact t.makeFrom_keeps _ _ _

/-- A file is written once its directories are made, which changes no file. -/
theorem exists_write_of_writeFile {t t' : Tree} {path : String} {content : Content}
    (h : writeFile t path content = (t', .ok ())) : ∃ t₁, t.KeepsAll t₁ ∧ t₁.write path content = .ok t' := by
  have hmade := t.makeFrom_keeps false (t.origin ((Path.parent? path).getD ""))
    (Path.segments ((Path.parent? path).getD ""))
  unfold writeFile at h
  dsimp only at h
  split at h
  · cases h
  · rename_i t₁ hdirectories
    unfold Tree.makeDirectories at hdirectories
    rw [hdirectories] at hmade
    split at h
    · cases h
    · rename_i hwrite
      cases h
      exact ⟨t₁, hmade, hwrite⟩

theorem writeFile_ok {t t' : Tree} {path : String} {content : Content}
    (h : writeFile t path content = (t', .ok ())) :
    t.Keeps (· = t.placeOf path) t' ∧ t'.get? (t.placeOf path) = some (.file content) := by
  obtain ⟨t₁, hmade, hwrite⟩ := exists_write_of_writeFile h
  obtain ⟨hkeeps, hwritten⟩ := Tree.write_ok hwrite
  rw [hmade.placeOf_eq] at hkeeps hwritten
  exact ⟨(hmade.mono fun _ => False.elim).trans hkeeps, hwritten⟩

/-! ### The writer -/

/-- What one write of a run can do. -/
inductive Writer.Wrote (w : Writer) (s : Session) (path : String) (content : Content) (mode : WriteMode) :
    Session × Except Failure WriteOutcome → Prop where
  | skipped (hmode : mode = .scaffold) (hthere : s.tree.pathExists (Path.join w.root path) = true) :
      Wrote w s path content mode
        ({ s with report := { s.report with skipped := s.report.skipped ++ [path] } }, .ok .skipped)
  | wouldWrite (hdry : w.dryRun = true) :
      Wrote w s path content mode
        ({ s with report := { s.report with wouldWrite := s.report.wouldWrite ++ [path] } }, .ok .wouldWrite)
  | failed (hdry : w.dryRun = false) (tree : Tree) (f : Failure)
      (hfile : writeFile s.tree (Path.join w.root path) content = (tree, .error f)) :
      Wrote w s path content mode ({ s with tree := tree }, .error f)
  | written (hdry : w.dryRun = false) (tree : Tree)
      (hfile : writeFile s.tree (Path.join w.root path) content = (tree, .ok ())) :
      Wrote w s path content mode
        (⟨tree, { s.report with written := s.report.written ++ [path] }⟩, .ok .written)

theorem Writer.wrote_write (w : Writer) (s : Session) (path text : String) (mode : WriteMode) :
    w.Wrote s path (Text.utf8Bytes text.toList) mode (w.write s path text mode) := by
  rw [write]
  split
  · rename_i hskip
    exact .skipped hskip.1 hskip.2
  · rename_i hskip
    split
    · rename_i hdry
      exact .wouldWrite hdry
    · rename_i hdry
      have hdry : w.dryRun = false := by simpa using hdry
      -- The file is to be overwritten or is not there, so it is not skipped a second time.
      have htext : writeText s.tree (Path.join w.root path) text (mode = .overwrite) =
          ((writeFile s.tree (Path.join w.root path) (Text.utf8Bytes text.toList)).1,
            (writeFile s.tree (Path.join w.root path) (Text.utf8Bytes text.toList)).2.map fun _ => true) := by
        rw [writeText, if_neg]
        cases mode with
        | overwrite => simp
        | scaffold => simpa using hskip
      rw [htext]
      cases hfile : writeFile s.tree (Path.join w.root path) (Text.utf8Bytes text.toList) with
      | mk tree result =>
          cases result with
          | error f => exact .failed hdry tree f hfile
          | ok _ => exact .written hdry tree hfile

end ApiForge.Files
