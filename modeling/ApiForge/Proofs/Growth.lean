import ApiForge.Proofs.Descent
import ApiForge.Proofs.Drafts

/-! What becomes of a tree while files are written below a root that is there. It stays connected, and it differs from
the tree at the start only where a path on record leads and on the way there. -/

namespace ApiForge

open Files (Content Entry Place Report Session Tree Writer)

namespace Files.Tree

variable {t t' : Tree} {root : String} {place : Place} {names : List String} {content : Content}

/-- A root that can be reached is a directory. -/
theorem Connected.get?_root (h : t.Connected) (hroot : t.Reaches root) : t.get? (t.placeOf root) = some .directory := by
  have hfollow : ∀ segments place q, t.get? place = some .directory → t.follow place segments = .ok q →
      t.get? q = some .directory := by
    intro segments
    induction segments with
    | nil =>
        intro place q hplace hq
        cases hq
        exact hplace
    | cons s segments ih =>
        intro place q hplace hq
        rw [follow] at hq
        split at hq
        · split at hq
          · rename_i hdirectory
            exact ih _ q hdirectory hq
          · cases hq
          · cases hq
        · exact ih _ q (h.parents place (by rw [hplace]; rintro ⟨⟩)) hq
        · exact ih place q hplace hq
  refine hfollow _ (t.origin root) _ ?_ hroot
  rw [origin]
  split
  · rfl
  · exact h.workingDirectory

theorem Laid.get?_target (h : t.Laid place names content t') : t'.get? (place ++ names) = some (.file content) := by
  rw [h.get?, if_pos rfl]

theorem Laid.get?_through (h : t.Laid place names content t') {q : Place} (hq : q ∈ through place names.dropLast) :
    t'.get? q = some .directory := by
  rw [h.get?, if_neg (ne_of_mem_through hq), if_pos hq]

theorem Laid.get?_other (h : t.Laid place names content t') {q : Place} (htarget : q ≠ place ++ names)
    (hthrough : q ∉ through place names.dropLast) : t'.get? q = t.get? q := by
  rw [h.get?, if_neg htarget, if_neg hthrough]

section Free

variable (h : t.Laid place names content t') (hfree : t.Free place names)

include h hfree

/-- Directories stay, and a file stays one. -/
theorem Laid.keeps : t.Keeps (· = place ++ names) t' where
  workingDirectory := h.workingDirectory
  directories q hq := by
    rw [h.get?]
    split
    · rename_i htarget
      exact absurd (htarget ▸ hq) hfree.target
    · split
      · rfl
      · exact hq
  files q content' hq hnot := by
    rw [h.get?, if_neg hnot, if_neg]
    · exact hq
    · exact fun hthrough => hfree.way q hthrough content' hq

theorem Laid.reaches (hroot : t.Reaches root) : t'.Reaches root := by
  have hkeeps := h.keeps hfree
  have horigin : t'.origin root = t.origin root := by rw [origin, origin, hkeeps.workingDirectory]
  rw [Reaches, hkeeps.placeOf_eq, horigin]
  exact hkeeps.follow hroot

theorem Laid.connected (hconnected : t.Connected) (hplace : t.get? place = some .directory) (hne : names ≠ []) :
    t'.Connected := by
  have hkeeps := h.keeps hfree
  have hway (front : List String) (hwithin : front <+: names.dropLast) : t'.get? (place ++ front) = some .directory := by
    by_cases hnil : front = []
    · rw [hnil, List.append_nil]
      exact hkeeps.directories _ hplace
    · exact h.get?_through (mem_through_iff.mpr ⟨front, hnil, hwithin, rfl⟩)
  refine ⟨fun q hq => ?_, ?_⟩
  · by_cases htarget : q = place ++ names
    · rw [htarget, List.dropLast_append_of_ne_nil hne]
      exact hway _ (List.prefix_refl _)
    · by_cases hthrough : q ∈ through place names.dropLast
      · obtain ⟨front, hfront, hwithin, rfl⟩ := mem_through_iff.mp hthrough
        rw [List.dropLast_append_of_ne_nil hfront]
        exact hway _ ((List.dropLast_prefix front).trans hwithin)
      · rw [h.get?_other htarget hthrough] at hq
        exact hkeeps.directories _ (hconnected.parents q hq)
  · rw [hkeeps.workingDirectory]
    exact hkeeps.directories _ hconnected.workingDirectory

end Free

/-- What a path finds is found as long as nothing goes and files stay files. -/
theorem Keeps.pathExists {touched : Place → Prop} (h : t.Keeps touched t')
    (hfiles : ∀ q, touched q → ∃ content, t'.get? q = some (.file content)) {path : String}
    (hthere : t.pathExists path = true) : t'.pathExists path = true := by
  obtain ⟨q, entry, hlocate⟩ := pathExists_iff.mp hthere
  rw [pathExists_iff]
  cases entry with
  | directory => exact ⟨q, .directory, h.locate_directory hlocate⟩
  | file content =>
      have hfile : ∃ content', t'.get? q = some (.file content') := by
        by_cases ht : touched q
        · exact hfiles q ht
        · exact ⟨content, h.files q content (Tree.locate_file hlocate).2 ht⟩
      obtain ⟨content', hfile⟩ := hfile
      exact ⟨q, .file content', h.locate_file hlocate hfile⟩

end Files.Tree

/-! ### Runs -/

/-- What stands between the root and the file at the end of a path, the file included. -/
def OnWay (place : Place) (path : String) (q : Place) : Prop :=
  q = place ++ Path.names path ∨ q ∈ Tree.through place (Path.names path).dropLast

theorem onWay_iff {place q : Place} {path : String} (hne : Path.names path ≠ []) :
    OnWay place path q ↔ ∃ front, front ≠ [] ∧ front <+: Path.names path ∧ q = place ++ front := by
  rw [OnWay, Tree.mem_through_iff]
  constructor
  · rintro (rfl | ⟨front, hfront, hwithin, rfl⟩)
    · exact ⟨_, hne, List.prefix_refl _, rfl⟩
    · exact ⟨front, hfront, hwithin.trans (List.dropLast_prefix _), rfl⟩
  · rintro ⟨front, hfront, ⟨rest, hrest⟩, rfl⟩
    rcases List.eq_nil_or_concat' rest with rfl | ⟨others, last, rfl⟩
    · rw [List.append_nil] at hrest
      exact Or.inl (by rw [hrest])
    · refine Or.inr ⟨front, hfront, ?_, rfl⟩
      rw [← hrest, ← List.append_assoc, List.dropLast_concat]
      exact List.prefix_append _ _

theorem Path.Descends.names_ne_nil {path : String} (h : Path.Descends path) : Path.names path ≠ [] := by
  obtain ⟨front, dirs, name, -, -, hnames, -⟩ := h.exists_front
  simp [hnames]

/-- How far a tree can have changed from one where the root is reached while the paths on record were written. -/
structure Grown (root : String) (t : Tree) (s : Session) : Prop where
  workingDirectory : s.tree.workingDirectory = t.workingDirectory
  connected : s.tree.Connected
  reaches : s.tree.Reaches root
  there : ∀ path, t.pathExists path = true → s.tree.pathExists path = true
  written : ∀ path ∈ s.report.written, s.tree.get? (t.placeOf root ++ Path.names path) ≠ none
  others : ∀ q, s.tree.get? q = t.get? q ∨ ∃ path ∈ s.report.written, OnWay (t.placeOf root) path q
  files : s.tree.files.filter (· ∉ s.report.written.map (t.placeOf root ++ Path.names ·)) =
    t.files.filter (· ∉ s.report.written.map (t.placeOf root ++ Path.names ·))

namespace Grown

variable {root : String} {t : Tree} {s : Session}

theorem start (hconnected : t.Connected) (hroot : t.Reaches root) : Grown root t { tree := t } where
  workingDirectory := rfl
  connected := hconnected
  reaches := hroot
  there _ hpath := hpath
  written _ hpath := absurd hpath List.not_mem_nil
  others _ := Or.inl rfl
  files := rfl

theorem placeOf_eq (h : Grown root t s) (path : String) : s.tree.placeOf path = t.placeOf path := by
  rw [Tree.placeOf, Tree.placeOf, h.workingDirectory]

/-- A path that leads down exists when something stands where it leads. -/
theorem pathExists_iff (h : Grown root t s) {path : String} (hpath : Path.Descends path) :
    s.tree.pathExists (Path.join root path) = true ↔ s.tree.get? (t.placeOf root ++ Path.names path) ≠ none := by
  rw [Tree.pathExists_descends h.connected h.reaches hpath, h.placeOf_eq]

/-- Nothing but the record counts of the report. -/
theorem congr (h : Grown root t s) {report : Report} (hwritten : report.written = s.report.written) :
    Grown root t { s with report := report } where
  workingDirectory := h.workingDirectory
  connected := h.connected
  reaches := h.reaches
  there := h.there
  written := by
    rw [hwritten]
    exact h.written
  others := by
    rw [hwritten]
    exact h.others
  files := by
    rw [hwritten]
    exact h.files

/-- One more file. -/
theorem laid (h : Grown root t s) {path : String} (hpath : Path.Descends path) {content : Content} {tree : Tree}
    (hwrite : Files.writeFile s.tree (Path.join root path) content = (tree, .ok ())) :
    Grown root t ⟨tree, { s.report with written := s.report.written ++ [path] }⟩ := by
  obtain ⟨hfree, hlaid⟩ := Files.writeFile_laid h.reaches hpath hwrite
  rw [h.placeOf_eq] at hfree hlaid
  have hkeeps := hlaid.keeps hfree
  have hplace : s.tree.get? (t.placeOf root) = some .directory := h.placeOf_eq root ▸ h.connected.get?_root h.reaches
  refine {
    workingDirectory := hlaid.workingDirectory.trans h.workingDirectory
    connected := hlaid.connected hfree h.connected hplace hpath.names_ne_nil
    reaches := hlaid.reaches hfree h.reaches
    there := fun path' hpath' => hkeeps.pathExists (by rintro q rfl; exact ⟨content, hlaid.get?_target⟩)
      (h.there path' hpath')
    written := fun path' hpath' => ?_
    others := fun q => ?_
    files := ?_ }
  · rcases List.mem_append.mp hpath' with hold | hnew
    · have hthere := h.written path' hold
      rw [hlaid.get?]
      split
      · rintro ⟨⟩
      · split
        · rintro ⟨⟩
        · exact hthere
    · rw [List.mem_singleton.mp hnew, hlaid.get?_target]
      rintro ⟨⟩
  · by_cases hway : OnWay (t.placeOf root) path q
    · exact Or.inr ⟨path, List.mem_append_right _ (List.mem_singleton_self path), hway⟩
    · rw [OnWay, not_or] at hway
      rw [hlaid.get?_other hway.1 hway.2]
      refine (h.others q).imp_right ?_
      rintro ⟨path', hpath', hway'⟩
      exact ⟨path', List.mem_append_left _ hpath', hway'⟩
  · have hsplit (files : List Place) :
        files.filter (· ∉ (s.report.written ++ [path]).map (t.placeOf root ++ Path.names ·)) =
          (files.filter (· ∉ s.report.written.map (t.placeOf root ++ Path.names ·))).filter
            (· ≠ t.placeOf root ++ Path.names path) := by
      rw [List.filter_filter]
      refine List.filter_congr fun q _ => ?_
      rw [List.map_append, List.map_singleton, Bool.eq_iff_iff]
      simp [and_comm]
    have hcomm (files : List Place) :
        (files.filter (· ∉ s.report.written.map (t.placeOf root ++ Path.names ·))).filter
            (· ≠ t.placeOf root ++ Path.names path) =
          (files.filter (· ≠ t.placeOf root ++ Path.names path)).filter
            (· ∉ s.report.written.map (t.placeOf root ++ Path.names ·)) := by
      rw [List.filter_filter, List.filter_filter]
      exact List.filter_congr fun q _ => Bool.and_comm _ _
    rw [hsplit, hcomm, hlaid.files, ← hcomm, h.files, hsplit]

end Grown

end ApiForge
