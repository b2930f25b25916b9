import ApiForge.Proofs.Clashes
import ApiForge.Proofs.Descent

/-! Where artifacts go when no name has a dot. Their paths lead down from the root by names alone, and dots are in the
names of files only, so the file of a stub is never a directory on the way to another file. -/

namespace ApiForge

open PathTemplate (Part parse fill segmentParts)

/-! ### Templates -/

namespace PathTemplate

/-- No dot is written in the part of a template. -/
def undotted (parts : List Part) : Bool :=
  !parts.contains (.literal '.')

variable {value? : String → Option String}

theorem dot_notMem_of_fill {parts : List Part} {cs : List Char} (hundotted : undotted parts = true)
    (hvalues : ∀ key value, value? key = some value → '.' ∉ value.toList) (hfill : fill value? parts = .ok cs) :
    '.' ∉ cs := by
  induction parts generalizing cs with
  | nil =>
      cases hfill
      exact List.not_mem_nil
  | cons part parts ih =>
      rw [undotted, List.contains_cons, Bool.not_or, Bool.and_eq_true] at hundotted
      cases part with
      | literal c =>
          obtain ⟨rest, hrest, rfl⟩ := fill_literal.mp hfill
          rw [List.mem_cons, not_or]
          refine ⟨?_, ih hundotted.2 hrest⟩
          rintro rfl
          exact absurd hundotted.1 (by decide)
      | hole key =>
          obtain ⟨value, rest, hvalue, hrest, rfl⟩ := fill_hole.mp hfill
          rw [List.mem_append, not_or]
          exact ⟨hvalues key value hvalue, ih hundotted.2 hrest⟩

theorem mem_of_fill {parts : List Part} {cs : List Char} {c : Char} (hc : .literal c ∈ parts)
    (hfill : fill value? parts = .ok cs) : c ∈ cs := by
  induction parts generalizing cs with
  | nil => cases hc
  | cons part parts ih =>
      cases part with
      | literal d =>
          obtain ⟨rest, hrest, rfl⟩ := fill_literal.mp hfill
          rcases List.mem_cons.mp hc with hd | hc
          · rw [Part.literal.inj hd]
            exact List.mem_cons_self
          · exact List.mem_cons_of_mem d (ih hc hrest)
      | hole key =>
          obtain ⟨value, rest, -, hrest, rfl⟩ := fill_hole.mp hfill
          rcases List.mem_cons.mp hc with hhole | hc
          · cases hhole
          · exact List.mem_append_right _ (ih hc hrest)

end PathTemplate

/-- Dots are written in the last segments of the templates only, and every file that is not to be overwritten has one
there. -/
theorem defaultEmitters_dots {e : Emitter} (he : e ∈ defaultEmitters) :
    ∃ front last, segmentParts (parse e.path.toList).1 = front ++ [last] ∧ front ≠ [] ∧
      (∀ parts ∈ front, PathTemplate.undotted parts = true) ∧ PathTemplate.solid last = true ∧
      (e.mode = .scaffold → .literal '.' ∈ last) := by
  have hall : ∀ e ∈ defaultEmitters.map fun e => (e.mode, segmentParts (parse e.path.toList).1),
      e.2 = e.2.dropLast ++ [e.2.getLast?.getD []] ∧ e.2.dropLast ≠ [] ∧
        (∀ parts ∈ e.2.dropLast, PathTemplate.undotted parts = true) ∧
        PathTemplate.solid (e.2.getLast?.getD []) = true ∧
        (e.1 = .scaffold → .literal '.' ∈ e.2.getLast?.getD []) := by
    decide +kernel
  exact ⟨_, _, hall _ (List.mem_map_of_mem he)⟩

/-! ### Paths -/

namespace Path

theorem ofSegment?_of_dotless {segment : String} (h : '.' ∉ segment.toList) :
    Component.ofSegment? segment = if segment = "" then none else some (.name segment) := by
  have hdots : segment ≠ "." ∧ segment ≠ ".." := by
    constructor <;> rintro rfl <;> exact h (by decide)
  rw [Component.ofSegment?]
  by_cases hempty : segment = "" <;> simp [hempty, hdots]

/-- A path with a dot in its last segment only leads down to a file. -/
theorem descends_of_dotless {path name : String} {front : List String} (hrelative : isAbsolute path = false)
    (hsegments : segments path = front ++ [name]) (hname : IsName name) (hne : front ≠ [])
    (hdots : ∀ s ∈ front, '.' ∉ s.toList) :
    Descends path ∧ names path = front.filter (· ≠ "") ++ [name] := by
  have hcomponents : components path = (front.filter (· ≠ "") ++ [name]).map .name := by
    obtain ⟨first, rest, rfl⟩ := List.exists_cons_of_ne_nil hne
    have hhere : (segments path).head? ≠ some "." := by
      rw [hsegments, List.cons_append, List.head?_cons]
      intro heq
      exact hdots first List.mem_cons_self (by rw [Option.some.inj heq]; decide)
    rw [components, if_neg (by simp [hrelative]), if_neg hhere, List.nil_append, hsegments, List.filterMap_append,
      List.filterMap_cons_some hname, List.filterMap_nil, List.map_append, List.map_singleton]
    congr 1
    rw [← List.filterMap_eq_map, List.filterMap_filter]
    refine List.filterMap_congr fun s hs => ?_
    rw [ofSegment?_of_dotless (hdots s hs)]
    by_cases hempty : s = "" <;> simp [hempty]
  have hnames : names path = front.filter (· ≠ "") ++ [name] := by
    rw [names, hcomponents, List.filterMap_map]
    exact List.filterMap_some
  exact ⟨⟨by rw [hnames, hcomponents], front, name, hsegments, hname⟩, hnames⟩

end Path

/-! ### Artifacts -/

/-- The path leads down, dots are in the name of the file only, and the file has one unless it is to be overwritten. -/
structure Artifact.Dotted (a : Artifact) : Prop where
  descends : Path.Descends a.path
  directories : ∀ n ∈ (Path.names a.path).dropLast, '.' ∉ n.toList
  file : a.mode = .scaffold → ∃ n, (Path.names a.path).getLast? = some n ∧ '.' ∈ n.toList

/-- What is not to be overwritten does not become a directory. -/
theorem Artifact.Dotted.eq_of_within {a b : Artifact} (ha : a.Dotted) (hb : b.Dotted) (hmode : a.mode = .scaffold)
    (hwithin : Path.names a.path <+: Path.names b.path) : Path.names a.path = Path.names b.path := by
  obtain ⟨rest, hrest⟩ := hwithin
  rcases List.eq_nil_or_concat' rest with rfl | ⟨others, last, rfl⟩
  · rw [← hrest, List.append_nil]
  · obtain ⟨n, hlast, hdot⟩ := ha.file hmode
    refine absurd hdot (hb.directories n ?_)
    rw [← hrest, ← List.append_assoc, List.dropLast_concat]
    exact List.mem_append_left _ (List.mem_of_getLast? hlast)

namespace Config.Built

variable {project : Project} {inspect : Inspector} {c : Config} {m : Model}

theorem dotted (h : c.Built project inspect m) (hplain : c.Plain) (hdotless : c.Without '.') {e : Emitter}
    (he : e ∈ defaultEmitters) {a : Artifact} (ha : a ∈ e.made project m) : a.Dotted := by
  obtain ⟨t, ht, hta⟩ := Emitter.mem_made ha
  obtain ⟨hmode, cs, hfill, hpath⟩ := Emitter.artifact_ok hta
  have hrelative := relative_artifact he ha
  have hslash : PathTemplate.Slashless t.placeholder? (parse e.path.toList).1 :=
    fun key value _ hvalue => h.placeholder_slashless hplain ht hvalue
  have hdots : ∀ key value, t.placeholder? key = some value → '.' ∉ value.toList :=
    fun key value hvalue => h.placeholder_markless (by decide) (by decide) hdotless ht hvalue
  -- The segments of the path are those of the template, filled.
  have hsegments := PathTemplate.fill_segments_path hslash hfill
  rw [← hpath] at hsegments
  obtain ⟨front, last, htemplate, hne, hundotted, hsolid, hfile⟩ := defaultEmitters_dots he
  rw [htemplate] at hsegments
  have hdirs := List.forall₂_take_append _ front [last] hsegments.flip
  have hback := List.forall₂_drop_append _ front [last] hsegments.flip
  obtain ⟨name, rest, hname, hrest, hdrop⟩ := List.forall₂_cons_right_iff.mp hback
  cases hrest
  have hsplit : Path.segments a.path = (Path.segments a.path).take front.length ++ [name] := by
    rw [← hdrop, List.take_append_drop]
  have hisName : Path.IsName name := by
    rw [← String.ofList_toList (s := name)]
    exact PathTemplate.isName_of_solid (h.placeholder_grounded ht) hsolid hname
  have hdirsDots : ∀ s ∈ (Path.segments a.path).take front.length, '.' ∉ s.toList := by
    intro s hs
    obtain ⟨parts, hparts, hfilled⟩ := exists_of_forall₂_left hdirs hs
    exact PathTemplate.dot_notMem_of_fill (hundotted parts hparts) hdots hfilled
  have hdirsNe : (Path.segments a.path).take front.length ≠ [] := by
    rw [Ne, ← List.length_eq_zero_iff, hdirs.length_eq, List.length_eq_zero_iff]
    exact hne
  obtain ⟨hdescends, hnames⟩ := Path.descends_of_dotless hrelative hsplit hisName hdirsNe hdirsDots
  refine ⟨hdescends, fun n hn => ?_, fun hscaffold => ⟨name, ?_, ?_⟩⟩
  · rw [hnames, List.dropLast_concat] at hn
    exact hdirsDots n (List.mem_of_mem_filter hn)
  · rw [hnames, List.getLast?_concat]
  · exact PathTemplate.mem_of_fill (hfile (hmode.symm.trans hscaffold)) hname

end Config.Built

end ApiForge
