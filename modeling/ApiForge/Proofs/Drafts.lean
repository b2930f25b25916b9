import ApiForge.Proofs.Clashes
import ApiForge.Proofs.Sources
import Mathlib.Data.List.Flatten

/-! What a run comes to that succeeds. It writes its files one after the other and meets no path twice; emitters and the
policy for failures have no say in it. So what is said of files that are written one after the other holds of all runs,
of those that write the stubs of sources too. -/

namespace ApiForge

open Files (Content Report Session Tree Writer)

/-- What is to be written to a path. -/
structure Draft where
  path : String
  text : String
  mode : WriteMode
  deriving DecidableEq

def Draft.content (d : Draft) : Content :=
  Text.utf8Bytes d.text.toList

def Artifact.draft (a : Artifact) : Draft :=
  ⟨a.path, a.document.text, a.mode⟩

/-- Writes drafts one after the other, unless one cannot be written. -/
def Files.Writer.writeAll (w : Writer) (s : Session) : List Draft → Option Session
  | [] => some s
  | d :: ds =>
    match w.write s d.path d.text d.mode with
    | (s, .ok _) => w.writeAll s ds
    | (_, .error _) => none

/-- Drafts that are all written, one after the other. -/
theorem Files.Writer.writeAll_cons_eq_some_iff {w : Writer} {s s' : Session} {d : Draft} {ds : List Draft} :
    w.writeAll s (d :: ds) = some s' ↔
      ∃ s₁ outcome, w.write s d.path d.text d.mode = (s₁, .ok outcome) ∧ w.writeAll s₁ ds = some s' := by
  rw [writeAll]
  rcases w.write s d.path d.text d.mode with ⟨s₁, result⟩
  cases result <;> simp

theorem Files.Writer.writeAll_append (w : Writer) (s : Session) (ds es : List Draft) :
    w.writeAll s (ds ++ es) = (w.writeAll s ds).bind fun s => w.writeAll s es := by
  induction ds generalizing s with
  | nil => rfl
  | cons d ds ih =>
      rw [List.cons_append, writeAll, writeAll]
      split
      · exact ih _
      · rfl

/-- A run stands for the path of each draft once, whatever becomes of it. -/
theorem Files.Writer.produced_perm {w : Writer} {s s' : Session} {ds : List Draft} (h : w.writeAll s ds = some s') :
    s'.report.produced.Perm (s.report.produced ++ ds.map Draft.path) := by
  induction ds generalizing s with
  | nil =>
      cases h
      rw [List.map_nil, List.append_nil]
  | cons d ds ih =>
      obtain ⟨s₁, outcome, hwrite, hrest⟩ := writeAll_cons_eq_some_iff.mp h
      have hwrote := wrote_write w s d.path d.text d.mode
      rw [hwrite] at hwrote
      have hstep : s₁.report.produced.Perm (s.report.produced ++ [d.path]) := by
        cases hwrote with
        | skipped _ _ => simp only [Report.produced, List.append_assoc, List.Perm.refl]
        | wouldWrite _ =>
            simp only [Report.produced, List.append_assoc]
            exact (List.perm_append_comm.append_left _).append_left _
        | written _ _ _ =>
            simp only [Report.produced, List.append_assoc]
            rw [← List.append_assoc s.report.wouldWrite]
            exact List.perm_append_comm.append_left _
      rw [List.map_cons, List.append_cons]
      exact (ih hrest).trans (hstep.append_right _)

theorem Files.Writer.mem_produced_iff {w : Writer} {s s' : Session} {ds : List Draft} (h : w.writeAll s ds = some s')
    {path : String} : path ∈ s'.report.produced ↔ path ∈ s.report.produced ∨ path ∈ ds.map Draft.path :=
  (produced_perm h).mem_iff.trans List.mem_append

/-! ### Artifacts -/

theorem Progress.Noted.eq {s s' : Progress} {written : List Artifact} (h : s.Noted written) (h' : s'.Noted written)
    (hsession : s.session = s'.session) : s = s' := by
  obtain ⟨session, owners⟩ := s
  obtain ⟨session', owners'⟩ := s'
  cases hsession
  cases h.owners.trans h'.owners.symm
  rfl

section Artifacts

variable {p : Project} {m : Model} {w : Writer}

theorem writeArtifacts_ok_iff {s s' : Progress} {written rest : List Artifact} (hs : s.Noted written) :
    writeArtifacts w s rest = (s', .ok ()) ↔
      s'.Noted (written ++ rest) ∧ w.writeAll s.session (rest.map Artifact.draft) = some s'.session := by
  induction rest generalizing s written with
  | nil =>
      rw [writeArtifacts, List.append_nil, List.map_nil, Writer.writeAll, Prod.mk.injEq, Option.some.injEq]
      constructor
      · rintro ⟨rfl, -⟩
        exact ⟨hs, rfl⟩
      · rintro ⟨hs', hsession⟩
        exact ⟨hs.eq hs' hsession, rfl⟩
  | cons a rest ih =>
      unfold writeArtifacts
      rw [List.map_cons, Writer.writeAll, List.append_cons written]
      split
      · rename_i owner howner
        refine iff_of_false (fun h => by cases h) ?_
        rintro ⟨hnoted, -⟩
        -- The path is somebody's, so no run can have noted the artifact with it.
        have hfree : s.owners.find? a.path = none := by
          rw [hs.owners, Owners.find?_eq_none_iff]
          intro b hb
          have hapart := (List.pairwise_append.mp hnoted.apart).1
          exact (List.pairwise_append.mp hapart).2.2 b hb a (List.mem_singleton_self a)
        rw [hfree] at howner
        cases howner
      · rename_i hfree
        dsimp only [Artifact.draft]
        cases hwrite : w.write s.session a.path a.document.text a.mode with
        | mk session result =>
            cases result with
            | error f => exact iff_of_false (fun h => by cases h) fun h => by cases h.2
            | ok outcome => exact ih (hs.concat hfree session)

theorem Emitter.run_ok_iff {e : Emitter} (hmade : e.artifacts p m = .ok (e.made p m)) {s s' : Progress}
    {written : List Artifact} (hs : s.Noted written) : (∃ n, e.run p m w s = (s', .ok n)) ↔
      s'.Noted (written ++ e.made p m) ∧ w.writeAll s.session ((e.made p m).map Artifact.draft) = some s'.session := by
  simp only [← writeArtifacts_ok_iff hs, run_eq_ok_iff, hmade, true_and, exists_and_left, exists_eq, and_true]

/-- An emitter and those after it. -/
theorem writeAll_made_iff {s s' : Progress} {written : List Artifact} (e : Emitter) (rest : List Emitter) :
    s'.Noted (written ++ (e :: rest).flatMap (·.made p m)) ∧
        w.writeAll s.session (((e :: rest).flatMap (·.made p m)).map Artifact.draft) = some s'.session ↔
      ∃ s₁ : Progress, (s₁.Noted (written ++ e.made p m) ∧
        w.writeAll s.session ((e.made p m).map Artifact.draft) = some s₁.session) ∧
          s'.Noted (written ++ e.made p m ++ rest.flatMap (·.made p m)) ∧
            w.writeAll s₁.session ((rest.flatMap (·.made p m)).map Artifact.draft) = some s'.session := by
  rw [List.flatMap_cons, List.map_append, Writer.writeAll_append, ← List.append_assoc, Option.bind_eq_some_iff]
  constructor
  · rintro ⟨hnoted, session, hfirst, hrest⟩
    refine ⟨⟨session, (written ++ e.made p m).map fun a => (a.path, a.emitter)⟩, ⟨⟨rfl, ?_⟩, hfirst⟩, hnoted, hrest⟩
    exact (List.pairwise_append.mp hnoted.apart).1
  · rintro ⟨s₁, ⟨-, hfirst⟩, hnoted, hrest⟩
    exact ⟨hnoted, s₁.session, hfirst, hrest⟩

theorem runAll_ok_iff {emitters : List Emitter} (hmade : ∀ e ∈ emitters, e.artifacts p m = .ok (e.made p m))
    {s s' : Progress} {written : List Artifact} (hs : s.Noted written) :
    (∃ n, runAll p m w s emitters = (s', n, [])) ↔ s'.Noted (written ++ emitters.flatMap (·.made p m)) ∧
      w.writeAll s.session ((emitters.flatMap (·.made p m)).map Artifact.draft) = some s'.session := by
  induction emitters generalizing s written with
  | nil =>
      rw [List.flatMap_nil, List.append_nil, List.map_nil, Writer.writeAll, Option.some.injEq]
      constructor
      · rintro ⟨n, h⟩
        cases h
        exact ⟨hs, rfl⟩
      · rintro ⟨hs', hsession⟩
        rw [runAll, hs.eq hs' hsession]
        exact ⟨0, rfl⟩
  | cons e rest ih =>
      rw [List.forall_mem_cons] at hmade
      rw [writeAll_made_iff]
      simp only [runAll_cons_eq_nil_iff]
      constructor
      · rintro ⟨_, s₁, k, l, hrun, hrest, -⟩
        have hfirst := (Emitter.run_ok_iff hmade.1 hs).mp ⟨k, hrun⟩
        exact ⟨s₁, hfirst, (ih hmade.2 hfirst.1).mp ⟨l, hrest⟩⟩
      · rintro ⟨s₁, hfirst, hrest⟩
        obtain ⟨k, hrun⟩ := (Emitter.run_ok_iff hmade.1 hs).mpr hfirst
        obtain ⟨l, hrest⟩ := (ih hmade.2 hfirst.1).mpr hrest
        exact ⟨k + l, s₁, k, l, hrun, hrest, rfl⟩

theorem Pipeline.run_ok_iff {pipeline : Pipeline}
    (hmade : ∀ e ∈ pipeline.emitters, e.artifacts p m = .ok (e.made p m)) {s s' : Session} :
    (∃ n, pipeline.run p m w s = (s', .ok n)) ↔ PathsApart (pipeline.emitters.flatMap (·.made p m)) ∧
      w.writeAll s ((pipeline.emitters.flatMap (·.made p m)).map Artifact.draft) = some s' := by
  simp only [run_eq_ok_iff]
  constructor
  · rintro ⟨n, s₁, rfl, hrun⟩
    obtain ⟨hnoted, hwritten⟩ := (runAll_ok_iff hmade (noted_nil s)).mp ⟨n, hrun⟩
    exact ⟨hnoted.apart, hwritten⟩
  · rintro ⟨hapart, hwritten⟩
    have hnoted : Progress.Noted ⟨s', _⟩ ([] ++ pipeline.emitters.flatMap (·.made p m)) := ⟨rfl, hapart⟩
    obtain ⟨n, hrun⟩ := (runAll_ok_iff hmade (noted_nil s)).mpr ⟨hnoted, hwritten⟩
    exact ⟨n, _, rfl, hrun⟩

end Artifacts

/-! ### Runs -/

/-- What the emitters of some stages make of a model, or all of them if no stage is named. -/
def Model.selection (m : Model) (p : Project) (stages : List Stage) : List Artifact :=
  (Pipeline.builtIn.only stages).emitters.flatMap (·.made p m)

theorem Model.selection_nil (m : Model) (p : Project) : m.selection p [] = m.artifacts p :=
  (m.artifacts_eq p).symm

theorem Model.mem_selection {m : Model} {p : Project} {stages : List Stage} {a : Artifact} :
    a ∈ m.selection p stages ↔ ∃ e ∈ defaultEmitters, (stages = [] ∨ e.stage ∈ stages) ∧ a ∈ e.made p m := by
  rw [selection, List.mem_flatMap]
  simp only [mem_selected, and_assoc]

/-- Artifacts of some stages are in the order in which all are made. -/
theorem Model.selection_sublist (m : Model) (p : Project) (stages : List Stage) :
    (m.selection p stages).Sublist (m.artifacts p) := by
  rw [selection, m.artifacts_eq, Pipeline.only]
  split
  · exact List.Sublist.refl _
  · exact List.filter_sublist.flatMap _

namespace Workspace

variable {t t' : Tree} {c : Config} {p : Project} {o : GenerateOptions} {dryRun : Bool} {report : Report}

/-- The stubs of sources as what is to be written. -/
def stubDrafts (c : Config) : List Draft :=
  (sourceStubs c).map fun stub => ⟨stub.1, stub.2, .scaffold⟩

theorem writeStubs_ok_iff {w : Writer} {s s' : Session} {stubs : List (String × String)} :
    writeStubs w s stubs = (s', .ok ()) ↔
      w.writeAll s (stubs.map fun stub => ⟨stub.1, stub.2, .scaffold⟩) = some s' := by
  induction stubs generalizing s with
  | nil =>
      rw [List.map_nil, Writer.writeAll, Option.some.injEq]
      constructor
      · intro h
        cases h
        rfl
      · rintro rfl
        rfl
  | cons stub stubs ih =>
      obtain ⟨path, text⟩ := stub
      unfold writeStubs
      rw [List.map_cons, Writer.writeAll]
      dsimp only
      rcases w.write s path text .scaffold with ⟨s₁, result⟩
      cases result with
      | error f => exact iff_of_false (fun h => by cases h) fun h => by cases h
      | ok outcome => exact ih

theorem createSources_ok_iff : createSources t c p dryRun = (t', .ok report) ↔
    c.check = .ok () ∧ Writer.writeAll ⟨p.root, dryRun⟩ { tree := t } (stubDrafts c) = some ⟨t', report⟩ := by
  rw [createSources, stubDrafts, ← writeStubs_ok_iff]
  cases c.check with
  | error fault => exact iff_of_false (fun h => by cases h) fun h => by cases h.1
  | ok u =>
      rcases writeStubs ⟨p.root, dryRun⟩ { tree := t } (sourceStubs c) with ⟨s, result⟩
      cases result with
      | error f => exact iff_of_false (fun h => by cases h) fun h => by cases h.2
      | ok u =>
          constructor
          · intro h
            cases h
            exact ⟨rfl, rfl⟩
          · rintro ⟨-, h⟩
            cases h
            rfl

theorem generate_ok_iff : generate t c p o = (t', .ok report) ↔
    ∃ m, model t c p = .ok m ∧ PathsApart (m.selection p o.only) ∧
      Writer.writeAll ⟨p.root, o.dryRun⟩ { tree := t } ((m.selection p o.only).map Artifact.draft) =
        some ⟨t', report⟩ := by
  unfold generate
  cases hmodel : model t c p with
  | error f => exact iff_of_false (fun h => by cases h) (by rintro ⟨m, h, _⟩; cases h)
  | ok m =>
      let pipeline : Pipeline := { Pipeline.builtIn.only o.only with keepGoing := o.keepGoing }
      have hmade : ∀ e ∈ pipeline.emitters, e.artifacts p m = .ok (e.made p m) := fun e he =>
        (buildModel_ok hmodel).artifacts_eq_made (mem_selected.mp he).1 p
      have hrun : (∃ n, pipeline.run p m ⟨p.root, o.dryRun⟩ { tree := t } = (⟨t', report⟩, .ok n)) ↔ _ :=
        Pipeline.run_ok_iff hmade
      dsimp only
      rcases hresult : pipeline.run p m ⟨p.root, o.dryRun⟩ { tree := t } with ⟨s, counted⟩
      rw [hresult] at hrun
      constructor
      · intro h
        cases counted with
        | error f => cases h
        | ok n =>
            cases h
            exact ⟨m, rfl, hrun.mp ⟨n, rfl⟩⟩
      · rintro ⟨m', hm', h⟩
        cases hm'
        obtain ⟨n, h⟩ := hrun.mpr h
        cases h
        rfl

theorem sync_ok_iff {paths : List String} : sync t c p dryRun = (t', .ok (report, paths)) ↔
    ∃ t₁ owned, generate t c p { dryRun := dryRun } = (t₁, .ok report) ∧ ownedPaths defaultEmitters = .ok owned ∧
      paths = staleFiles t₁ p.root report owned ∧ t' = if dryRun then t₁ else deleteFiles t₁ p.root paths := by
  rw [sync]
  rcases generate t c p { dryRun := dryRun } with ⟨t₁, result⟩
  cases result with
  | error f => exact iff_of_false (fun h => by cases h) (by rintro ⟨t₁, owned, h, _⟩; cases h)
  | ok report₁ =>
      simp only [pruneStale]
      cases ownedPaths defaultEmitters with
      | error fault => exact iff_of_false (fun h => by cases h) (by rintro ⟨t₁, owned, _, h, _⟩; cases h)
      | ok owned =>
          constructor
          · intro h
            cases h
            exact ⟨t₁, owned, rfl, rfl, rfl, rfl⟩
          · rintro ⟨t₂, owned', h, howned, rfl, rfl⟩
            cases h
            cases howned
            rfl

end Workspace

end ApiForge
