import ApiForge.Proofs.Growth

/-! Which files are found stale before and after a run. The generated files below a directory can be read off the places
of all files of a tree, and those that a run has written are on record, so they do not count. -/

namespace ApiForge

open Files (Content Entry Place Report Session Tree)

/-- The names below a directory that leads down lead on. -/
theorem Path.components_below {directory : String} (h : Path.Descends directory) {rest : List String}
    (hrest : ∀ n ∈ rest, Path.IsName n ∧ '/' ∉ n.toList) :
    Path.components ("/".intercalate (directory :: rest)) = (Path.names directory ++ rest).map .name := by
  obtain ⟨front, dirs, name, hsegments, hname, -, -⟩ := h.exists_front
  have hbelow : Path.segments ("/".intercalate (directory :: rest)) = Path.segments directory ++ rest := by
    rw [Path.segments_intercalate, List.flatMap_cons,
      Path.flatMap_segments_of_slashless fun n hn => (hrest n hn).2]
  have hhead : (Path.segments ("/".intercalate (directory :: rest))).head? = (Path.segments directory).head? := by
    rw [hbelow, hsegments, List.head?_append_of_ne_nil _ (by simp)]
  have hrelative : Path.isAbsolute ("/".intercalate (directory :: rest)) = false := by
    rw [Bool.eq_false_iff]
    intro habsolute
    obtain ⟨others, -, hothers⟩ := Path.isAbsolute_iff.mp habsolute
    rw [hothers, List.head?_cons] at hhead
    cases hfront : front with
    | nil =>
        rw [hsegments, hfront] at hhead
        exact (Path.isName_iff.mp hname).1 (Option.some.inj hhead).symm
    | cons first front' =>
        rw [hsegments, hfront] at hhead
        have hfirst : first = "" := (Option.some.inj hhead).symm
        rw [hfront, hfirst] at hsegments
        have habsolute := Path.isAbsolute_iff.mpr ⟨front' ++ [name], by simp, hsegments⟩
        rw [h.relative] at habsolute
        cases habsolute
  have hhere : (Path.segments directory).head? ≠ some "." := by
    intro hhere
    have hcomponents := h.components
    rw [Path.components, if_neg (by simp [h.relative]), if_pos hhere] at hcomponents
    have hmem : Path.Component.here ∈ (Path.names directory).map Path.Component.name := by
      rw [← hcomponents]
      exact List.mem_cons_self
    obtain ⟨n, -, hn⟩ := List.mem_map.mp hmem
    cases hn
  rw [Path.components, if_neg (by simp [hrelative]), hhead, if_neg hhere, List.nil_append, hbelow, List.filterMap_append,
    h.filterMap_segments, List.map_append]
  congr 1
  rw [← List.filterMap_eq_map]
  exact List.filterMap_congr fun n hn => (hrest n hn).1

theorem descends_generatedDirectories {directory : String} (h : directory ∈ generatedDirectories) :
    Path.Descends directory := by
  have hall : ∀ d ∈ generatedDirectories, Path.components d = (Path.names d).map .name ∧
      Path.segments d = (Path.segments d).dropLast ++ [(Path.segments d).getLast?.getD ""] ∧
      Path.Component.ofSegment? ((Path.segments d).getLast?.getD "") =
        some (.name ((Path.segments d).getLast?.getD "")) := by
    decide
  obtain ⟨hcomponents, hsegments, hname⟩ := hall directory h
  exact ⟨hcomponents, _, _, hsegments, hname⟩

/-- The path of a generated file that is at or below a place, as seen from a directory there. -/
def belowPath? (place : Place) (directory : String) (q : Place) : Option String :=
  if place.isPrefixOf q && (q.drop place.length).getLast?.any isGeneratedName then
    some ("/".intercalate (directory :: q.drop place.length))
  else none

theorem Files.Tree.map_filesBelow (t : Tree) (place : Place) (directory : String) :
    ((t.filesBelow place).filter fun f => f.1.getLast?.any isGeneratedName).map
        (fun f => "/".intercalate (directory :: f.1)) = t.files.filterMap (belowPath? place directory) := by
  rw [filesBelow, files]
  induction t.entries with
  | nil => rfl
  | cons e entries ih =>
      obtain ⟨q, entry⟩ := e
      cases entry with
      | directory => exact ih
      | file content =>
          simp only [List.filterMap_cons]
          cases hwithin : place.isPrefixOf q with
          | false => simpa only [belowPath?, hwithin, Bool.false_and, Bool.false_eq_true, if_false] using ih
          | true =>
              cases hlast : (q.drop place.length).getLast?.any isGeneratedName with
              | false =>
                  simpa only [belowPath?, hwithin, hlast, Bool.and_false, Bool.false_eq_true, if_false, if_true,
                    List.filter_cons] using ih
              | true =>
                  simpa only [belowPath?, hwithin, hlast, Bool.and_true, if_true, List.filter_cons, List.map_cons,
                    List.cons.injEq, true_and] using ih

theorem Files.Tree.Connected.generatedBelow_eq {t : Tree} (hconnected : t.Connected) {root directory : String}
    (hroot : t.Reaches root) (hdirectory : Path.Descends directory) : generatedBelow t root directory =
      t.files.filterMap (belowPath? (t.placeOf root ++ Path.names directory) directory) := by
  rw [generatedBelow]
  by_cases hthere : t.get? (t.placeOf root ++ Path.names directory) = some .directory
  · rw [(Tree.locate_descends hroot hdirectory).mpr
      ⟨rfl, hconnected.through (by rw [hthere]; rintro ⟨⟩), hthere⟩]
    exact t.map_filesBelow _ directory
  · -- Nothing is below what is no directory.
    have hnone : t.files.filterMap (belowPath? (t.placeOf root ++ Path.names directory) directory) = [] := by
      rw [List.filterMap_eq_nil_iff]
      intro q hq
      rw [belowPath?, if_neg]
      rw [Bool.and_eq_true]
      rintro ⟨hwithin, hlast⟩
      obtain ⟨rest, rfl⟩ := List.isPrefixOf_iff_prefix.mp hwithin
      rw [List.drop_left] at hlast
      refine hthere (hconnected.above ?_ (Tree.get?_ne_none_of_mem_files hq))
      rintro rfl
      cases hlast
    rw [hnone]
    split
    · rename_i place hlocate
      obtain ⟨rfl, -, hfound⟩ := (Tree.locate_descends hroot hdirectory).mp hlocate
      exact absurd hfound hthere
    · rfl

/-- Of the files that count, those that are written may be left out beforehand. -/
theorem filter_belowPath {root directory : String} {t : Tree} {written : List String} {keep : String → Bool}
    (hdirectory : Path.Descends directory) (hdescends : ∀ path ∈ written, Path.Descends path)
    (hkeep : ∀ path ∈ written, ∀ x, Path.components x = Path.components path → keep x = false) (files : List Place) :
    (files.filterMap (belowPath? (t.placeOf root ++ Path.names directory) directory)).filter keep =
      ((files.filter (· ∉ written.map (t.placeOf root ++ Path.names ·))).filterMap
        (belowPath? (t.placeOf root ++ Path.names directory) directory)).filter keep := by
  induction files with
  | nil => rfl
  | cons q files ih =>
      by_cases hwritten : q ∈ written.map (t.placeOf root ++ Path.names ·)
      · rw [List.filter_cons_of_neg (by simpa using hwritten), ← ih]
        cases hbelow : belowPath? (t.placeOf root ++ Path.names directory) directory q with
        | none => rw [List.filterMap_cons_none hbelow]
        | some text =>
            rw [List.filterMap_cons_some hbelow, List.filter_cons_of_neg]
            obtain ⟨path, hpath, rfl⟩ := List.mem_map.mp hwritten
            have hpathDescends := hdescends path hpath
            rw [belowPath?] at hbelow
            split at hbelow
            · rename_i hcondition
              rw [Bool.and_eq_true, List.isPrefixOf_iff_prefix, List.prefix_append_right_inj] at hcondition
              obtain ⟨⟨rest, hrest⟩, -⟩ := hcondition
              rw [← hrest, ← List.append_assoc, List.drop_left] at hbelow
              cases hbelow
              have hnames : ∀ n ∈ rest, Path.IsName n ∧ '/' ∉ n.toList := by
                intro n hn
                have hn : n ∈ Path.names path := hrest ▸ List.mem_append_right _ hn
                exact ⟨Path.isName_of_mem_names hn, Path.slash_not_mem_names hn⟩
              rw [hkeep path hpath, Bool.false_eq_true, not_false_eq_true]
              · trivial
              · rw [Path.components_below hdirectory hnames, hpathDescends.components, hrest]
            · cases hbelow
      · rw [List.filter_cons_of_pos (by simpa using hwritten)]
        cases hbelow : belowPath? (t.placeOf root ++ Path.names directory) directory q with
        | none => rw [List.filterMap_cons_none hbelow, List.filterMap_cons_none hbelow, ih]
        | some text =>
            rw [List.filterMap_cons_some hbelow, List.filterMap_cons_some hbelow, List.filter_cons, List.filter_cons, ih]

/-- What is written does not count as stale afterwards, so the same files are found as before. -/
theorem Grown.staleFiles_eq {root : String} {t : Tree} {s : Session} (h : Grown root t s) (hconnected : t.Connected)
    (hroot : t.Reaches root) {report : Report} (hproduced : s.report.written ⊆ report.produced)
    (hdescends : ∀ path ∈ s.report.written, Path.Descends path) (owned : String → Bool) :
    staleFiles s.tree root report owned = staleFiles t root report owned := by
  have hbelow : ∀ directory ∈ generatedDirectories,
      (generatedBelow s.tree root directory).filter (fun path =>
          !report.produced.any (Path.same path) && owned ("/".intercalate (Path.names path))) =
        (generatedBelow t root directory).filter (fun path =>
          !report.produced.any (Path.same path) && owned ("/".intercalate (Path.names path))) := by
    intro directory hmem
    have hdirectory := descends_generatedDirectories hmem
    have hkeep : ∀ path ∈ s.report.written, ∀ x, Path.components x = Path.components path →
        (!report.produced.any (Path.same x) && owned ("/".intercalate (Path.names x))) = false := by
      intro path hpath x hx
      rw [List.any_eq_true.mpr ⟨path, hproduced hpath, Path.same_iff_components.mpr hx⟩, Bool.not_true, Bool.false_and]
    rw [h.connected.generatedBelow_eq h.reaches hdirectory, hconnected.generatedBelow_eq hroot hdirectory,
      h.placeOf_eq, filter_belowPath hdirectory hdescends hkeep, h.files,
      ← filter_belowPath hdirectory hdescends hkeep]
  rw [staleFiles, staleFiles, List.filter_flatMap, List.filter_flatMap, List.flatMap_congr hbelow]

end ApiForge
