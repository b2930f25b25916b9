import ApiForge.Proofs.Drafts

/-! Where files are edited. Frames say which entries are still there afterwards; edits also say where nothing new has
come up. A command edits files only at the places that its paths lead to, and this is so whether it succeeds or stops
halfway. -/

namespace ApiForge

open Files (Content Entry Place Report Session Tree WriteOutcome Writer)

namespace Files

namespace Tree

variable {t t' t'' : Tree} {touched touched' : Place → Prop}

/-- What the file at a place holds, if there is one. -/
def fileAt? (t : Tree) (place : Place) : Option Content :=
  match t.get? place with
  | some (.file content) => some content
  | _ => none

theorem fileAt?_eq_some {place : Place} {content : Content} :
    t.fileAt? place = some content ↔ t.get? place = some (.file content) := by
  rw [fileAt?]
  split
  · rename_i content' hfile
    rw [hfile, Option.some.injEq, Option.some.injEq, Entry.file.injEq]
  · rename_i hfile
    exact iff_of_false (by rintro ⟨⟩) fun h => hfile content h

theorem fileAt?_congr {place : Place} (h : t'.get? place = t.get? place) : t'.fileAt? place = t.fileAt? place := by
  rw [fileAt?, fileAt?, h]

/-- Files are made, changed and deleted at touched places only. -/
structure Edits (t : Tree) (touched : Place → Prop) (t' : Tree) : Prop where
  workingDirectory : t'.workingDirectory = t.workingDirectory
  files : ∀ q, ¬touched q → t'.fileAt? q = t.fileAt? q

theorem Edits.refl (t : Tree) (touched : Place → Prop) : t.Edits touched t :=
  ⟨rfl, fun _ _ => rfl⟩

theorem Edits.mono (h : t.Edits touched t') (himp : ∀ q, touched q → touched' q) : t.Edits touched' t' :=
  ⟨h.workingDirectory, fun q hq => h.files q fun ht => hq (himp q ht)⟩

theorem Edits.trans (h : t.Edits touched t') (h' : t'.Edits touched t'') : t.Edits touched t'' :=
  ⟨h'.workingDirectory.trans h.workingDirectory, fun q hq => (h'.files q hq).trans (h.files q hq)⟩

theorem Edits.placeOf_eq (h : t.Edits touched t') (path : String) : t'.placeOf path = t.placeOf path := by
  rw [placeOf, placeOf, h.workingDirectory]

/-- Directories come up on the way to a file, but no file does. -/
theorem makeFrom_edits (t : Tree) (made : Bool) (place : Place) (segments : List String) :
    t.Edits (fun _ => False) (t.makeFrom made place segments).1 := by
  induction segments generalizing t made place with
  | nil => exact Edits.refl t _
  | cons s segments ih =>
      rw [makeFrom]
      split
      · rename_i name _
        split
        · exact ih t made (place ++ [name])
        · exact Edits.refl t _
        · rename_i hnone
          have hne : place ++ [name] ≠ [] := List.append_ne_nil_of_right_ne_nil _ (List.cons_ne_nil _ _)
          have hput : t.Edits (fun _ => False) (t.put (place ++ [name]) .directory) := by
            refine ⟨rfl, fun q _ => ?_⟩
            by_cases hq : q = place ++ [name]
            · rw [fileAt?, fileAt?, get?_put _ _ _ _ hne, if_pos hq, hq, hnone]
            · exact fileAt?_congr (by rw [get?_put _ _ _ _ hne, if_neg hq])
          exact hput.trans (ih (t.put (place ++ [name]) .directory) true (place ++ [name]))
      · exact ih t made place.dropLast
      · exact ih t made place

theorem write_edits {path : String} {content : Content} (h : t.write path content = .ok t') :
    t.Edits (· = t.placeOf path) t' := by
  obtain ⟨rfl, hne, -⟩ := put_of_write h
  exact ⟨rfl, fun p hp => fileAt?_congr (by rw [get?_put t _ p _ hne, if_neg hp])⟩

end Tree

/-- A write that fails edits nothing, but then this need not be told apart. -/
theorem writeFile_edits (t : Tree) (path : String) (content : Content) :
    t.Edits (· = t.placeOf path) (writeFile t path content).1 := by
  have hmade := t.makeFrom_edits false (t.origin ((Path.parent? path).getD ""))
    (Path.segments ((Path.parent? path).getD ""))
  unfold writeFile
  dsimp only
  split
  · rename_i t₁ fault hdirectories
    unfold Tree.makeDirectories at hdirectories
    rw [hdirectories] at hmade
    exact hmade.mono fun _ => False.elim
  · rename_i t₁ hdirectories
    unfold Tree.makeDirectories at hdirectories
    rw [hdirectories] at hmade
    replace hmade : t.Edits (· = t.placeOf path) t₁ := hmade.mono fun _ => False.elim
    split
    · exact hmade
    · rename_i hwrite
      have hwritten := Tree.write_edits hwrite
      rw [hmade.placeOf_eq] at hwritten
      exact hmade.trans hwritten

/-- The place is one that the paths lead to from the root. -/
def Tree.Targets (t : Tree) (root : String) (paths : List String) (q : Place) : Prop :=
  ∃ path ∈ paths, t.placeOf (Path.join root path) = q

theorem Tree.Targets.mono {t : Tree} {root : String} {paths paths' : List String} {q : Place}
    (h : t.Targets root paths q) (hsub : ∀ path ∈ paths, path ∈ paths') : t.Targets root paths' q := by
  obtain ⟨path, hpath, hplace⟩ := h
  exact ⟨path, hsub path hpath, hplace⟩

theorem Tree.Edits.targets_iff {t t' : Tree} {touched : Place → Prop} (h : t.Edits touched t') {root : String}
    {paths : List String} {q : Place} : t'.Targets root paths q ↔ t.Targets root paths q := by
  simp only [Targets, h.placeOf_eq]

/-- Edits that a path calls for, and then those that further paths call for. -/
theorem Tree.Edits.cons {t t' t'' : Tree} {root path : String} {paths : List String}
    (h : t.Edits (· = t.placeOf (Path.join root path)) t') (h' : t'.Edits (t'.Targets root paths) t'') :
    t.Edits (t.Targets root (path :: paths)) t'' := by
  refine (h.mono fun q hq => ⟨path, List.mem_cons_self, hq.symm⟩).trans (h'.mono fun q hq => ?_)
  exact (h.targets_iff.mp hq).mono fun _ => List.mem_cons_of_mem path

theorem Writer.write_edits (w : Writer) (s : Session) (path text : String) (mode : WriteMode) :
    s.tree.Edits (· = s.tree.placeOf (Path.join w.root path)) (w.write s path text mode).1.tree := by
  have hwrote := w.wrote_write s path text mode
  generalize w.write s path text mode = result at hwrote ⊢
  cases hwrote with
  | skipped _ _ => exact Tree.Edits.refl s.tree _
  | wouldWrite _ => exact Tree.Edits.refl s.tree _
  | failed _ tree f hfile =>
      have hedits := writeFile_edits s.tree (Path.join w.root path) (Text.utf8Bytes text.toList)
      rw [hfile] at hedits
      exact hedits
  | written _ tree hfile =>
      have hedits := writeFile_edits s.tree (Path.join w.root path) (Text.utf8Bytes text.toList)
      rw [hfile] at hedits
      exact hedits

end Files

theorem deleteFile_edits (t : Tree) (path : String) : t.Edits (· = t.placeOf path) (deleteFile t path) := by
  rw [deleteFile]
  split
  · rename_i place content hlocate
    obtain ⟨hplace, -⟩ := Tree.locate_file hlocate
    refine ⟨rfl, fun q hq => Tree.fileAt?_congr ?_⟩
    rw [Tree.get?_unlink, if_neg]
    rintro ⟨rfl, -⟩
    exact hq hplace
  · exact Tree.Edits.refl t _

theorem deleteFiles_edits (t : Tree) (root : String) (paths : List String) :
    t.Edits (t.Targets root paths) (deleteFiles t root paths) := by
  induction paths generalizing t with
  | nil => exact Tree.Edits.refl t _
  | cons path paths ih => exact (deleteFile_edits t (Path.join root path)).cons (ih _)

/-- A run edits files where its artifacts go, and nowhere else. -/
theorem Pipeline.run_edits (pipeline : Pipeline) (p : Project) (m : Model) (w : Writer) (s : Session) :
    s.tree.Edits (s.tree.Targets w.root ((pipeline.emitters.flatMap (·.made p m)).map Artifact.path))
      (pipeline.run p m w s).1.tree := by
  let paths := (pipeline.emitters.flatMap (·.made p m)).map Artifact.path
  -- Each write is allowed for wherever the run stands, since all of them start from one directory.
  refine pipeline.run_steps (R := fun s s' => s.tree.Edits (s.tree.Targets w.root paths) s'.tree)
    (fun s => Tree.Edits.refl s.tree _) (fun s s' s'' h h' => ?_) (fun a ha s => ?_) s
  · exact h.trans (h'.mono fun q hq => h.targets_iff.mp hq)
  · refine (w.write_edits s a.path a.document.text a.mode).mono fun q hq => ?_
    exact ⟨a.path, List.mem_map_of_mem ha, hq.symm⟩

namespace Workspace

variable (t : Tree) (c : Config) (p : Project)

theorem writeStubs_edits (w : Writer) (s : Session) (stubs : List (String × String)) :
    s.tree.Edits (s.tree.Targets w.root (stubs.map Prod.fst)) (writeStubs w s stubs).1.tree := by
  induction stubs generalizing s with
  | nil => exact Tree.Edits.refl s.tree _
  | cons stub stubs ih =>
      obtain ⟨path, text⟩ := stub
      have hstep := w.write_edits s path text .scaffold
      unfold writeStubs
      split
      · rename_i s₁ f hwrite
        rw [hwrite] at hstep
        exact hstep.cons (Tree.Edits.refl _ _)
      · rename_i s₁ outcome hwrite
        rw [hwrite] at hstep
        exact hstep.cons (ih s₁)

theorem createSources_edits (dryRun : Bool) :
    t.Edits (t.Targets p.root ((sourceStubs c).map Prod.fst)) (createSources t c p dryRun).1 := by
  have hstubs := writeStubs_edits ⟨p.root, dryRun⟩ { tree := t } (sourceStubs c)
  rw [createSources]
  cases c.check with
  | error fault => exact Tree.Edits.refl t _
  | ok u =>
      rcases hrun : writeStubs ⟨p.root, dryRun⟩ { tree := t } (sourceStubs c) with ⟨s, written⟩
      rw [hrun] at hstubs
      exact hstubs

/-- The paths that a generation writes to, if there is a model. -/
def selectedPaths (o : GenerateOptions) : List String :=
  match model t c p with
  | .ok m => (m.selection p o.only).map Artifact.path
  | .error _ => []

theorem generate_edits (o : GenerateOptions) : t.Edits (t.Targets p.root (selectedPaths t c p o)) (generate t c p o).1 := by
  unfold generate selectedPaths
  cases model t c p with
  | error f => exact Tree.Edits.refl t _
  | ok m =>
      exact Pipeline.run_edits { Pipeline.builtIn.only o.only with keepGoing := o.keepGoing } p m
        ⟨p.root, o.dryRun⟩ { tree := t }

/-- The paths that a synchronization may delete, once it has generated all there is. -/
def stalePaths (dryRun : Bool) : List String :=
  match generate t c p { dryRun := dryRun } with
  | (t₁, .ok report) =>
    match ownedPaths defaultEmitters with
    | .ok owned => staleFiles t₁ p.root report owned
    | .error _ => []
  | (_, .error _) => []

theorem sync_edits (dryRun : Bool) :
    t.Edits (t.Targets p.root (selectedPaths t c p {} ++ stalePaths t c p dryRun)) (sync t c p dryRun).1 := by
  have hgenerate : t.Edits (t.Targets p.root (selectedPaths t c p {} ++ stalePaths t c p dryRun))
      (generate t c p { dryRun := dryRun }).1 :=
    (generate_edits t c p { dryRun := dryRun }).mono fun q hq =>
      hq.mono fun _ hpath => List.mem_append_left _ hpath
  unfold sync
  unfold stalePaths at hgenerate ⊢
  generalize generate t c p { dryRun := dryRun } = generated at hgenerate ⊢
  obtain ⟨t₁, result⟩ := generated
  cases result with
  | error f => exact hgenerate
  | ok report =>
      dsimp only at hgenerate ⊢
      rw [pruneStale]
      generalize ownedPaths defaultEmitters = owned at hgenerate ⊢
      cases owned with
      | error fault => exact hgenerate
      | ok owned =>
          dsimp only at hgenerate ⊢
          split
          · exact hgenerate
          · refine hgenerate.trans ((deleteFiles_edits t₁ p.root _).mono fun q hq => ?_)
            exact (hgenerate.targets_iff.mp hq).mono fun _ hpath => List.mem_append_right _ hpath

end Workspace

end ApiForge
