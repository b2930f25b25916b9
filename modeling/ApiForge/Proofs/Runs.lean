import ApiForge.Emission.Run
import ApiForge.Proofs.Frames
import ApiForge.Proofs.Order

/-! What a run does to the files. It only sets files that paths on record lead to, and what such a file holds in the
end is the text of an artifact; this is so of one write and carries over to any sequence of them, whether it ends
early or not. -/

namespace ApiForge

open Files (Content Entry Place Session Tree Writer)

def Artifact.content (a : Artifact) : Content :=
  Text.utf8Bytes a.document.text.toList

/-- The place that a path leads to from the root that is written below. -/
def Files.Writer.placeOf (w : Writer) (t : Tree) (path : String) : Place :=
  t.placeOf (Path.join w.root path)

/-- What is at a place is what an artifact on record has put there. -/
def Settled (w : Writer) (artifacts : List Artifact) (s : Session) (q : Place) : Prop :=
  ∃ a ∈ artifacts, a.path ∈ s.report.written ∧ w.placeOf s.tree a.path = q ∧ s.tree.get? q = some (.file a.content)

/-- What a run that was to write the artifacts has done, however far it came. -/
structure Ran (w : Writer) (artifacts : List Artifact) (s s' : Session) : Prop where
  workingDirectory : s'.tree.workingDirectory = s.tree.workingDirectory
  directories : ∀ q, s.tree.get? q = some .directory → s'.tree.get? q = some .directory
  files : ∀ q content, s.tree.get? q = some (.file content) →
    s'.tree.get? q = some (.file content) ∨ Settled w artifacts s' q
  grows : ∀ path ∈ s.report.written, path ∈ s'.report.written
  written : ∀ path ∈ s'.report.written, path ∈ s.report.written ∨
    w.dryRun = false ∧ (∃ a ∈ artifacts, a.path = path) ∧ Settled w artifacts s' (w.placeOf s'.tree path)
  skipped : ∀ path ∈ s'.report.skipped, path ∈ s.report.skipped ∨
    ∃ a ∈ artifacts, a.path = path ∧ a.mode = .scaffold
  wouldWrite : w.dryRun = false → s'.report.wouldWrite = s.report.wouldWrite

namespace Ran

variable {w : Writer} {as bs : List Artifact} {s s' s'' : Session}

theorem placeOf_eq (h : Ran w as s s') (path : String) : w.placeOf s'.tree path = w.placeOf s.tree path := by
  unfold Writer.placeOf Tree.placeOf
  rw [h.workingDirectory]

/-- Files at places that no path on record leads to are kept. -/
theorem keeps (h : Ran w as s s') :
    s.tree.Keeps (fun q => ∃ path ∈ s'.report.written, w.placeOf s.tree path = q) s'.tree where
  workingDirectory := h.workingDirectory
  directories := h.directories
  files q content hq hnot := by
    rcases h.files q content hq with hkept | ⟨a, -, hwritten, hplace, -⟩
    · exact hkept
    · exact absurd ⟨a.path, hwritten, (h.placeOf_eq a.path).symm.trans hplace⟩ hnot

/-- A run that is not on record, on a tree of which all files are kept. -/
theorem ofKeepsAll {tree : Tree} (h : s.tree.KeepsAll tree) : Ran w as s { s with tree := tree } where
  workingDirectory := h.workingDirectory
  directories := h.directories
  files q content hq := Or.inl (h.files q content hq id)
  grows _ hpath := hpath
  written _ hpath := Or.inl hpath
  skipped _ hpath := Or.inl hpath
  wouldWrite _ := rfl

theorem refl (w : Writer) (as : List Artifact) (s : Session) : Ran w as s s :=
  ofKeepsAll (Tree.KeepsAll.refl s.tree)

theorem settled_mono (hsub : ∀ a ∈ as, a ∈ bs) {q : Place} (h : Settled w as s q) : Settled w bs s q := by
  obtain ⟨a, ha, hrest⟩ := h
  exact ⟨a, hsub a ha, hrest⟩

theorem mono (h : Ran w as s s') (hsub : ∀ a ∈ as, a ∈ bs) : Ran w bs s s' where
  workingDirectory := h.workingDirectory
  directories := h.directories
  files q content hq := (h.files q content hq).imp_right (settled_mono hsub)
  grows := h.grows
  written path hpath := (h.written path hpath).imp_right fun ⟨hdry, ⟨a, ha, hpath⟩, hsettled⟩ =>
    ⟨hdry, ⟨a, hsub a ha, hpath⟩, settled_mono hsub hsettled⟩
  skipped path hpath := (h.skipped path hpath).imp_right fun ⟨a, ha, hskip⟩ => ⟨a, hsub a ha, hskip⟩
  wouldWrite := h.wouldWrite

/-- What was settled is kept by a later run or settled by it. -/
theorem settled (h : Ran w as s s') {q : Place} (hsettled : Settled w as s q) : Settled w as s' q := by
  obtain ⟨a, ha, hwritten, hplace, hq⟩ := hsettled
  rcases h.files q a.content hq with hkept | hsettled
  · exact ⟨a, ha, h.grows _ hwritten, (h.placeOf_eq a.path).trans hplace, hkept⟩
  · exact hsettled

theorem trans (h : Ran w as s s') (h' : Ran w as s' s'') : Ran w as s s'' where
  workingDirectory := h'.workingDirectory.trans h.workingDirectory
  directories q hq := h'.directories q (h.directories q hq)
  files q content hq := by
    rcases h.files q content hq with hkept | hsettled
    · exact h'.files q content hkept
    · exact Or.inr (h'.settled hsettled)
  grows path hpath := h'.grows path (h.grows path hpath)
  written path hpath := by
    rcases h'.written path hpath with hold | hnew
    · refine (h.written path hold).imp_right fun ⟨hdry, ha, hsettled⟩ => ⟨hdry, ha, ?_⟩
      rw [h'.placeOf_eq]
      exact h'.settled hsettled
    · exact Or.inr hnew
  skipped path hpath := by
    rcases h'.skipped path hpath with hold | hnew
    · exact h.skipped path hold
    · exact Or.inr hnew
  wouldWrite hdry := (h'.wouldWrite hdry).trans (h.wouldWrite hdry)

end Ran

/-! ### One write -/

/-- Everything that is to be overwritten is on record. -/
def Recorded (w : Writer) (artifacts : List Artifact) (s : Session) : Prop :=
  w.dryRun = false → ∀ a ∈ artifacts, a.mode = .overwrite → a.path ∈ s.report.written

theorem ran_write (w : Writer) (s : Session) (a : Artifact) :
    Ran w [a] s (w.write s a.path a.document.text a.mode).1 := by
  have hwrote := w.wrote_write s a.path a.document.text a.mode
  generalize w.write s a.path a.document.text a.mode = result at hwrote ⊢
  cases hwrote with
  | skipped hmode hthere =>
      refine { Ran.refl w [a] s with skipped := fun path hpath => ?_ }
      rcases List.mem_append.mp hpath with hold | hnew
      · exact Or.inl hold
      · exact Or.inr ⟨a, List.mem_singleton.mpr rfl, (List.mem_singleton.mp hnew).symm, hmode⟩
  | wouldWrite hdry =>
      exact { Ran.refl w [a] s with wouldWrite := fun hnot => absurd (hdry.symm.trans hnot) (by decide) }
  | failed hdry tree f hfile => exact Ran.ofKeepsAll (Files.writeFile_error hfile)
  | written hdry tree hfile =>
      obtain ⟨hkeeps, hput⟩ := Files.writeFile_ok hfile
      have hplace (path : String) : w.placeOf tree path = w.placeOf s.tree path := hkeeps.placeOf_eq _
      have hsettled : Settled w [a] ⟨tree, { s.report with written := s.report.written ++ [a.path] }⟩
          (w.placeOf s.tree a.path) :=
        ⟨a, List.mem_singleton.mpr rfl, List.mem_append_right _ (List.mem_singleton.mpr rfl), hplace a.path, hput⟩
      exact {
        workingDirectory := hkeeps.workingDirectory
        directories := hkeeps.directories
        files := fun q content hq => by
          by_cases hqa : q = w.placeOf s.tree a.path
          · exact Or.inr (hqa ▸ hsettled)
          · exact Or.inl (hkeeps.files q content hq hqa)
        grows := fun path hpath => List.mem_append_left _ hpath
        written := fun path hpath => by
          rcases List.mem_append.mp hpath with hold | hnew
          · exact Or.inl hold
          · rw [List.mem_singleton.mp hnew, hplace]
            exact Or.inr ⟨hdry, ⟨a, List.mem_singleton.mpr rfl, rfl⟩, hsettled⟩
        skipped := fun path hpath => Or.inl hpath
        wouldWrite := fun _ => rfl }

theorem recorded_write {w : Writer} {s s' : Session} {a : Artifact} {outcome : Files.WriteOutcome}
    (h : w.write s a.path a.document.text a.mode = (s', .ok outcome)) : Recorded w [a] s' := by
  have hwrote := w.wrote_write s a.path a.document.text a.mode
  rw [h] at hwrote
  intro hdry b hb hmode
  rw [List.mem_singleton.mp hb] at hmode ⊢
  cases hwrote with
  | skipped hscaffold _ =>
      rw [hscaffold] at hmode
      cases hmode
  | wouldWrite hdry' =>
      rw [hdry'] at hdry
      cases hdry
  | written _ tree _ => exact List.mem_append_right _ (List.mem_singleton.mpr rfl)

theorem Recorded.grows {w : Writer} {as bs : List Artifact} {s s' : Session} (h : Recorded w as s)
    (hran : Ran w bs s s') : Recorded w as s' :=
  fun hdry a ha hmode => hran.grows _ (h hdry a ha hmode)

/-! ### Writes one after the other -/

/-- The artifacts of an emitter, if it has no trouble with the model. -/
def Emitter.made (e : Emitter) (p : Project) (m : Model) : List Artifact :=
  (e.artifacts p m).toOption.getD []

section Steps

variable {p : Project} {m : Model} {w : Writer} {R : Session → Session → Prop} (hrefl : ∀ s, R s s)
  (htrans : ∀ s s' s'', R s s' → R s' s'' → R s s'')

include hrefl htrans

/-- What holds across each write holds across all of them, however far they come. -/
theorem writeArtifacts_steps {artifacts : List Artifact}
    (hwrite : ∀ a ∈ artifacts, ∀ s, R s (w.write s a.path a.document.text a.mode).1) (s : Progress) :
    R s.session (writeArtifacts w s artifacts).1.session := by
  induction artifacts generalizing s with
  | nil => exact hrefl s.session
  | cons a rest ih =>
      obtain ⟨hstep, hrest⟩ := List.forall_mem_cons.mp hwrite
      have hstep := hstep s.session
      unfold writeArtifacts
      split
      · exact hrefl s.session
      · dsimp only
        split
        · rename_i session f hwrite
          rw [hwrite] at hstep
          exact hstep
        · rename_i session outcome hwrite
          rw [hwrite] at hstep
          exact htrans _ _ _ hstep (ih hrest ⟨session, s.owners ++ [(a.path, a.emitter)]⟩)

theorem Emitter.run_steps {e : Emitter}
    (hwrite : ∀ a ∈ e.made p m, ∀ s, R s (w.write s a.path a.document.text a.mode).1) (s : Progress) :
    R s.session (e.run p m w s).1.session := by
  rw [made] at hwrite
  rw [run]
  cases hartifacts : e.artifacts p m with
  | error f => exact hrefl s.session
  | ok artifacts =>
      rw [hartifacts] at hwrite
      exact writeArtifacts_steps hrefl htrans hwrite s

theorem runUntilFailure_steps {emitters : List Emitter}
    (hwrite : ∀ a ∈ emitters.flatMap (·.made p m), ∀ s, R s (w.write s a.path a.document.text a.mode).1)
    (s : Progress) (count : Nat) : R s.session (runUntilFailure p m w s count emitters).1.session := by
  induction emitters generalizing s count with
  | nil => exact hrefl s.session
  | cons e rest ih =>
      rw [List.flatMap_cons, List.forall_mem_append] at hwrite
      have hstep := Emitter.run_steps hrefl htrans hwrite.1 s
      unfold runUntilFailure
      split
      · rename_i s₁ f hrun
        rw [hrun] at hstep
        exact hstep
      · rename_i s₁ n hrun
        rw [hrun] at hstep
        exact htrans _ _ _ hstep (ih hwrite.2 s₁ (count + n))

theorem runAll_steps {emitters : List Emitter}
    (hwrite : ∀ a ∈ emitters.flatMap (·.made p m), ∀ s, R s (w.write s a.path a.document.text a.mode).1)
    (s : Progress) : R s.session (runAll p m w s emitters).1.session := by
  induction emitters generalizing s with
  | nil => exact hrefl s.session
  | cons e rest ih =>
      rw [List.flatMap_cons, List.forall_mem_append] at hwrite
      have hstep := Emitter.run_steps hrefl htrans hwrite.1 s
      unfold runAll
      split
      · rename_i s₁ f hrun
        rw [hrun] at hstep
        exact htrans _ _ _ hstep (ih hwrite.2 s₁)
      · rename_i s₁ n hrun
        rw [hrun] at hstep
        exact htrans _ _ _ hstep (ih hwrite.2 s₁)

theorem Pipeline.run_steps (pipeline : Pipeline)
    (hwrite : ∀ a ∈ pipeline.emitters.flatMap (·.made p m), ∀ s, R s (w.write s a.path a.document.text a.mode).1)
    (s : Session) : R s (pipeline.run p m w s).1 := by
  unfold run
  split
  · have hrun := runAll_steps hrefl htrans hwrite ⟨s, []⟩
    split
    · rename_i s₁ count hran
      rw [hran] at hrun
      exact hrun
    · rename_i s₁ count failed hran
      rw [hran] at hrun
      exact hrun
  · exact runUntilFailure_steps hrefl htrans hwrite ⟨s, []⟩ 0

end Steps

/-! ### Artifacts one after the other -/

theorem ran_writes (w : Writer) {as bs : List Artifact} (hsub : ∀ a ∈ as, a ∈ bs) :
    ∀ a ∈ as, ∀ s, Ran w bs s (w.write s a.path a.document.text a.mode).1 :=
  fun a ha s => (ran_write w s a).mono fun _ hb => List.mem_singleton.mp hb ▸ hsub a ha

theorem writeArtifacts_ran (w : Writer) (s : Progress) (artifacts : List Artifact) :
    Ran w artifacts s.session (writeArtifacts w s artifacts).1.session :=
  writeArtifacts_steps (Ran.refl w artifacts) (fun _ _ _ => Ran.trans) (ran_writes w fun _ ha => ha) s

theorem writeArtifacts_recorded {w : Writer} {s s' : Progress} {artifacts : List Artifact}
    (h : writeArtifacts w s artifacts = (s', .ok ())) : Recorded w artifacts s'.session := by
  induction artifacts generalizing s with
  | nil => exact fun _ a ha => absurd ha List.not_mem_nil
  | cons a rest ih =>
      unfold writeArtifacts at h
      split at h
      · cases h
      · dsimp only at h
        split at h
        · cases h
        · rename_i session outcome hwrite
          have hran := writeArtifacts_ran w ⟨session, s.owners ++ [(a.path, a.emitter)]⟩ rest
          rw [h] at hran
          intro hdry b hb hmode
          rcases List.mem_cons.mp hb with rfl | hb
          · exact (recorded_write hwrite).grows hran hdry b (List.mem_singleton.mpr rfl) hmode
          · exact ih h hdry b hb hmode

/-! ### Emitters one after the other -/

section Emitters

variable {p : Project} {m : Model} {w : Writer}

/-- An emitter runs to the end if it has artifacts and all of them are written. -/
theorem Emitter.run_eq_ok_iff {e : Emitter} {s s' : Progress} {n : Nat} : e.run p m w s = (s', .ok n) ↔
    e.artifacts p m = .ok (e.made p m) ∧ writeArtifacts w s (e.made p m) = (s', .ok ()) ∧ n = (e.made p m).length := by
  rw [run, made]
  cases e.artifacts p m with
  | error f => exact iff_of_false (fun h => by cases h) fun h => by cases h.1
  | ok artifacts =>
      dsimp only [Except.toOption, Option.getD]
      rcases writeArtifacts w s artifacts with ⟨s₁, result⟩
      cases result with
      | error f => exact iff_of_false (fun h => by cases h) fun h => by cases h.2.1
      | ok _ =>
          constructor
          · intro h
            cases h
            exact ⟨rfl, rfl, rfl⟩
          · rintro ⟨-, h, rfl⟩
            cases h
            rfl

/-- An emitter that has run to the end has all of its artifacts on record. -/
theorem Emitter.run_ok {e : Emitter} {s s' : Progress} {n : Nat} (h : e.run p m w s = (s', .ok n)) :
    e.artifacts p m = .ok (e.made p m) ∧ Recorded w (e.made p m) s'.session := by
  obtain ⟨hmade, hwritten, -⟩ := run_eq_ok_iff.mp h
  exact ⟨hmade, writeArtifacts_recorded hwritten⟩

theorem runAll_ran (s : Progress) (emitters : List Emitter) :
    Ran w (emitters.flatMap (·.made p m)) s.session (runAll p m w s emitters).1.session :=
  runAll_steps (Ran.refl w _) (fun _ _ _ => Ran.trans) (ran_writes w fun _ ha => ha) s

/-- Emitters that all succeed, one after the other. -/
theorem runAll_cons_eq_nil_iff {e : Emitter} {rest : List Emitter} {s s' : Progress} {n : Nat} :
    runAll p m w s (e :: rest) = (s', n, []) ↔
      ∃ s₁ k l, e.run p m w s = (s₁, .ok k) ∧ runAll p m w s₁ rest = (s', l, []) ∧ n = k + l := by
  rw [runAll]
  rcases e.run p m w s with ⟨s₁, result⟩
  cases result with
  | error f =>
      refine iff_of_false (fun h => by cases h) ?_
      rintro ⟨_, _, _, h, -⟩
      cases h
  | ok k =>
      dsimp only
      constructor
      · intro h
        rcases hrest : runAll p m w s₁ rest with ⟨s₂, l, failed⟩
        rw [hrest] at h
        cases h
        exact ⟨s₁, k, l, rfl, hrest, rfl⟩
      · rintro ⟨_, _, l, h, hrest, rfl⟩
        cases h
        rw [hrest]

/-- A run that goes on and fails nowhere is one that has nowhere to stop. -/
theorem runUntilFailure_ok_iff_runAll {s s' : Progress} {count n : Nat} {emitters : List Emitter} :
    runUntilFailure p m w s count emitters = (s', .ok n) ↔
      ∃ k, n = count + k ∧ runAll p m w s emitters = (s', k, []) := by
  induction emitters generalizing s count with
  | nil => simp [runUntilFailure, runAll, eq_comm, and_comm]
  | cons e rest ih =>
      simp only [runAll_cons_eq_nil_iff]
      rw [runUntilFailure]
      rcases e.run p m w s with ⟨s₁, result⟩
      cases result with
      | error f => simp
      | ok k =>
          dsimp only
          rw [ih]
          constructor
          · rintro ⟨l, rfl, hrest⟩
            exact ⟨k + l, Nat.add_assoc .., s₁, k, l, rfl, hrest, rfl⟩
          · rintro ⟨_, rfl, _, _, l, h, hrest, rfl⟩
            cases h
            exact ⟨l, (Nat.add_assoc ..).symm, hrest⟩

theorem runAll_ok {s s' : Progress} {n : Nat} {emitters : List Emitter}
    (h : runAll p m w s emitters = (s', n, [])) :
    ∀ e ∈ emitters, e.artifacts p m = .ok (e.made p m) ∧ Recorded w (e.made p m) s'.session := by
  induction emitters generalizing s n with
  | nil => exact fun e he => absurd he List.not_mem_nil
  | cons e rest ih =>
      obtain ⟨s₁, k, l, hrun, hrest, -⟩ := runAll_cons_eq_nil_iff.mp h
      have hran := runAll_ran (p := p) (m := m) (w := w) s₁ rest
      rw [hrest] at hran
      obtain ⟨hmade, hrecorded⟩ := Emitter.run_ok hrun
      exact List.forall_mem_cons.mpr ⟨⟨hmade, hrecorded.grows hran⟩, ih hrest⟩

theorem Pipeline.run_ran (pipeline : Pipeline) (s : Session) :
    Ran w (pipeline.emitters.flatMap (·.made p m)) s (pipeline.run p m w s).1 :=
  pipeline.run_steps (Ran.refl w _) (fun _ _ _ => Ran.trans) (ran_writes w fun _ ha => ha) s

/-- Whatever is done about failures, a run that succeeds is one of all emitters in which none fails. -/
theorem Pipeline.run_eq_ok_iff {pipeline : Pipeline} {s s' : Session} {n : Nat} :
    pipeline.run p m w s = (s', .ok n) ↔
      ∃ s₁ : Progress, s₁.session = s' ∧ runAll p m w ⟨s, []⟩ pipeline.emitters = (s₁, n, []) := by
  rw [run]
  split
  · rcases runAll p m w ⟨s, []⟩ pipeline.emitters with ⟨s₁, count, failed⟩
    cases failed with
    | nil => simp [and_comm]
    | cons name failed => simp [failWith]
  · have huntil {s₁ : Progress} : runUntilFailure p m w ⟨s, []⟩ 0 pipeline.emitters = (s₁, .ok n) ↔
        runAll p m w ⟨s, []⟩ pipeline.emitters = (s₁, n, []) := by
      rw [runUntilFailure_ok_iff_runAll]
      simp
    simp only [← huntil]
    rcases runUntilFailure p m w ⟨s, []⟩ 0 pipeline.emitters with ⟨s₁, counted⟩
    simp

theorem Pipeline.run_ok {pipeline : Pipeline} {s s' : Session} {n : Nat}
    (h : pipeline.run p m w s = (s', .ok n)) :
    ∀ e ∈ pipeline.emitters, e.artifacts p m = .ok (e.made p m) ∧ Recorded w (e.made p m) s' := by
  obtain ⟨s₁, rfl, hrun⟩ := run_eq_ok_iff.mp h
  exact runAll_ok hrun

end Emitters

end ApiForge
