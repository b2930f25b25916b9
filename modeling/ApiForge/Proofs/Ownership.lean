import ApiForge.Proofs.Clashes
import ApiForge.Proofs.Growth

/-! Files that are not to be overwritten are not owned. Their names end otherwise than those of generated files, but for
the stub of an object whose name does; the files of reconcilers are the only ones that are owned where stubs are, and
no stub has the name of these unless artifacts clash. -/

namespace ApiForge

open PathTemplate (Part parse accepts accepts_append accepts_literals beginning ending exists_beginning componentsOf
  componentsOf_cons_eq)

/-! ### Templates -/

namespace PathTemplate

variable {parts : List Part} {cs : List Char}

theorem prefix_of_accepts (h : accepts parts cs = true) : beginning parts <+: cs := by
  obtain ⟨rest, hparts⟩ := exists_beginning parts
  rw [hparts, accepts_append] at h
  obtain ⟨ds, es, rfl, hds, -⟩ := h
  rw [accepts_literals.mp hds]
  exact List.prefix_append _ es

theorem suffix_of_accepts (h : accepts parts cs = true) : ending parts <:+ cs := by
  obtain ⟨rest, hparts⟩ := exists_beginning parts.reverse
  have hreverse : parts = rest.reverse ++ (ending parts).map .literal := by
    rw [ending, List.map_reverse, ← List.reverse_append, ← hparts, List.reverse_reverse]
  rw [hreverse, accepts_append] at h
  obtain ⟨ds, es, rfl, -, hes⟩ := h
  rw [accepts_literals.mp hes]
  exact List.suffix_append ds _

end PathTemplate

/-- The names of a path are what the path that they make has for segments. -/
theorem Path.segments_intercalate_names {path : String} (h : names path ≠ []) :
    segments ("/".intercalate (names path)) = names path := by
  have hslashless : ∀ n ∈ names path, '/' ∉ n.toList := fun n hn => slash_not_mem_names hn
  cases hnames : names path with
  | nil => exact absurd hnames h
  | cons first rest => rw [segments_intercalate, flatMap_segments_of_slashless (hnames ▸ hslashless)]

/-- An emitter whose files are overwritten and named as generated could have written the file. -/
def Emitter.Owns (e : Emitter) (path : String) : Prop :=
  (e.mode = .overwrite ∧ isGeneratedName e.path = true) ∧
    accepts (parse e.path.toList).1 ("/".intercalate (Path.names path)).toList = true

namespace Emitter.Owns

variable {e : Emitter} {path : String}

/-- What is owned has the name of a generated file. -/
theorem exists_stem (h : e.Owns path) (he : e ∈ defaultEmitters) (hpath : Path.names path ≠ []) :
    ∃ front stem, Path.names path = front ++ [stem ++ "_gen.go"] := by
  obtain ⟨front, last, hnames⟩ := (List.eq_nil_or_concat' _).resolve_left hpath
  obtain ⟨stem, -, hlast⟩ := last_of_hasStem (hasStem_defaultEmitters he h.1.1 h.1.2) h.2
    ((Path.segments_intercalate_names hpath).trans hnames)
  exact ⟨front, stem, hlast ▸ hnames⟩

/-- In the directories of reconcilers, it has the name of their files. -/
theorem last_of_internal (h : e.Owns path) (he : e ∈ defaultEmitters) {front : List String} {name : String}
    (hpath : Path.names path = "internal" :: front ++ [name]) : name = "reconcilers_gen.go" := by
  have hall : ∀ e ∈ defaultEmitters.map fun e => (e.mode, e.path),
      ¬(e.1 = .overwrite ∧ isGeneratedName e.2 = true) ∨
        (beginning (parse e.2.toList).1).head?.any (· != 'i') = true ∨
          ending (parse e.2.toList).1 = "/reconcilers_gen.go".toList := by
    decide +kernel
  have hne : Path.names path ≠ [] := by simp [hpath]
  have htext : "/".intercalate (Path.names path) = "internal" ++ "/" ++ "/".intercalate (front ++ [name]) := by
    rw [hpath, List.cons_append, String.intercalate_cons_of_ne_nil (by simp)]
  rcases (hall _ (List.mem_map_of_mem he)).resolve_left fun hnot => hnot h.1 with hfront | hback
  · -- A template that does not begin with the letter has no path that does.
    obtain ⟨rest, hrest⟩ := PathTemplate.prefix_of_accepts h.2
    obtain ⟨c, hhead, hc⟩ := (Option.any_eq_true _ _).mp hfront
    obtain ⟨others, hothers⟩ := List.head?_eq_some_iff.mp hhead
    rw [hothers, htext, String.append_assoc, String.toList_append] at hrest
    rw [(List.cons.inj hrest).1] at hc
    exact absurd hc (by decide)
  · obtain ⟨rest, hrest⟩ := PathTemplate.suffix_of_accepts h.2
    have hsplit : "/".intercalate (Path.names path) =
        "/".intercalate [String.ofList rest, "reconcilers_gen.go"] := by
      have hrestText : (String.ofList rest).toList = rest := String.toList_ofList
      rw [← String.toList_inj, ← hrest, hback, String.intercalate_cons_cons, String.intercalate_singleton,
        String.toList_append, String.toList_append, hrestText, List.append_assoc]
      rfl
    have hsegments := Path.segments_intercalate_names hne
    rw [hsplit, Path.segments_intercalate, List.flatMap_cons,
      Path.flatMap_segments_of_slashless (by decide : ∀ n ∈ ["reconcilers_gen.go"], '/' ∉ n.toList), hpath] at hsegments
    exact (List.append_singleton_inj.mp hsegments).2.symm

end Emitter.Owns

/-! ### Artifacts -/

namespace Config.Built

variable {project : Project} {inspect : Inspector} {c : Config} {m : Model}

/-- Emitters own no file that is not to be overwritten. -/
theorem overwritten_of_owns (h : c.Built project inspect m) (hplain : c.Plain) (hapart : m.FilesApart) {e : Emitter}
    (he : e ∈ defaultEmitters) {a : Artifact} (ha : a ∈ m.artifacts project) (hdescends : Path.Descends a.path)
    (howns : e.Owns a.path) : a.mode = .overwrite := by
  obtain ⟨⟨f, t⟩, hsite, hmakes⟩ := exists_of_forall₂ h.artifacts_sites ha
  have hf := (Model.mem_sites.mp hsite).1
  obtain ⟨texts, text, hlocated⟩ := h.exists_located hplain hf hmakes
  obtain ⟨dirs, stem, hstem⟩ := howns.exists_stem he hdescends.names_ne_nil
  -- The last name is that of the file.
  have hnames : componentsOf texts = dirs.map .name ∧ Path.Component.name text = .name (stem ++ "_gen.go") := by
    rw [← List.append_singleton_inj, ← hlocated.components, hdescends.components, hstem, List.map_append,
      List.map_singleton]
  have hfile : f.fileName t = .ok (stem ++ "_gen.go").toList := Path.Component.name.inj hnames.2 ▸ hlocated.file
  rw [(Emitter.artifact_ok hmakes.artifact).1]
  simp only [defaultEmitters, List.mem_cons, List.not_mem_nil, or_false] at hf
  rcases hf with rfl | rfl | rfl | rfl | rfl | rfl | rfl | rfl | rfl | rfl | rfl | rfl | rfl | rfl <;> try rfl
  · obtain ⟨g, -, rfl⟩ := Target.exists_group hmakes.target
    rw [fileName_output, Except.ok.injEq, String.toList_inj] at hfile
    exact absurd hfile.symm (generated_ne_output _ _)
  · obtain ⟨g, hg, r, hr, rfl⟩ := Target.exists_reconciledObject hmakes.target
    have hdirectory : Emitter.stub.directory = reconcilerDirectory := by decide +kernel
    have habove := hlocated.above
    rw [hdirectory] at habove
    obtain ⟨first, rest, hfirst, -, rfl⟩ := List.forall₂_cons_left_iff.mp habove
    rw [word, PathTemplate.fill_literals, Except.ok.injEq, String.toList_inj] at hfirst
    have hdirs := hnames.1
    rw [componentsOf_cons_eq, ← hfirst] at hdirs
    obtain ⟨dir, dirs', rfl, hdir, -⟩ := List.map_eq_cons_iff.mp hdirs.symm
    rw [Path.Component.name.inj hdir] at hstem
    have hname := howns.last_of_internal he hstem
    rw [fileName_stub, hname, Except.ok.injEq, String.toList_inj] at hfile
    have hsnake : Text.snakeCase r.name = "reconcilers_gen" := by
      rw [← String.toList_inj] at hfile ⊢
      rw [String.toList_append] at hfile
      exact List.append_cancel_right (hfile.trans (by decide : _ = "reconcilers_gen".toList ++ ".go".toList))
    exact absurd (hsnake ▸ List.mem_map_of_mem hr) (List.nodup_cons.mp (hapart.reconciled g hg)).1

end Config.Built

end ApiForge
