import ApiForge.Proofs.Runs

/-! Runs that stop at the first failure beside runs that go on. Up to that failure they are one run; what comes after
it only adds to the record. An emitter that cannot give an artifact for each of its targets gives none, and leaves a
run as if it were not in the list. -/

namespace ApiForge

open Files (Report Session Writer)

/-! ### Records that grow -/

/-- One record is the beginning of the other. -/
structure Files.Report.Begins (r r' : Report) : Prop where
  written : r.written <+: r'.written
  skipped : r.skipped <+: r'.skipped
  wouldWrite : r.wouldWrite <+: r'.wouldWrite

namespace Files.Report.Begins

variable {r r' r'' : Report}

theorem refl (r : Report) : r.Begins r :=
  ⟨List.prefix_rfl, List.prefix_rfl, List.prefix_rfl⟩

theorem trans (h : r.Begins r') (h' : r'.Begins r'') : r.Begins r'' :=
  ⟨h.written.trans h'.written, h.skipped.trans h'.skipped, h.wouldWrite.trans h'.wouldWrite⟩

end Files.Report.Begins

theorem Files.Writer.write_begins (w : Writer) (s : Session) (path text : String) (mode : WriteMode) :
    s.report.Begins (w.write s path text mode).1.report := by
  have hwrote := w.wrote_write s path text mode
  generalize w.write s path text mode = result at hwrote ⊢
  cases hwrote with
  | skipped => exact { Report.Begins.refl s.report with skipped := List.prefix_append _ _ }
  | wouldWrite => exact { Report.Begins.refl s.report with wouldWrite := List.prefix_append _ _ }
  | failed => exact Report.Begins.refl s.report
  | written => exact { Report.Begins.refl s.report with written := List.prefix_append _ _ }

/-! ### Emitters that give no artifacts -/

/-- The emitter applies to a target for which its path cannot be expanded or its document cannot be rendered. -/
def Emitter.Unrendered (e : Emitter) (p : Project) (m : Model) : Prop :=
  ∃ t ∈ Target.all m e.granularity, e.applies t = true ∧
    ((∃ fault, PathTemplate.expand e.path t.describe t.placeholder? = .error fault) ∨
      ∃ fault, e.render p m t = .error fault)

theorem Emitter.exists_artifact_iff {e : Emitter} {p : Project} {m : Model} {t : Target} :
    (∃ a, e.artifact p m t = .ok a) ↔
      ¬((∃ fault, PathTemplate.expand e.path t.describe t.placeholder? = .error fault) ∨
        ∃ fault, e.render p m t = .error fault) := by
  rw [artifact]
  cases PathTemplate.expand e.path t.describe t.placeholder? with
  | error fault => simp [failWith]
  | ok path => cases e.render p m t <;> simp

theorem Emitter.artifacts_error_iff {e : Emitter} {p : Project} {m : Model} :
    (∃ f, e.artifacts p m = .error f) ↔ e.Unrendered p m := by
  have hmember (t : Target) :
      t ∈ (Target.all m e.granularity).filter e.applies ↔ t ∈ Target.all m e.granularity ∧ e.applies t = true :=
    List.mem_filter
  constructor
  · rintro ⟨f, hf⟩
    by_contra hrendered
    have hall : ∀ t ∈ (Target.all m e.granularity).filter e.applies, ∃ a, e.artifact p m t = .ok a ∧ True := by
      intro t ht
      obtain ⟨hall, happlies⟩ := (hmember t).mp ht
      obtain ⟨a, ha⟩ := exists_artifact_iff.mpr fun hfault => hrendered ⟨t, hall, happlies, hfault⟩
      exact ⟨a, ha, trivial⟩
    obtain ⟨artifacts, hartifacts, -⟩ := exists_mapM hall
    rw [Emitter.artifacts, hartifacts] at hf
    cases hf
  · rintro ⟨t, hall, happlies, hfault⟩
    cases hartifacts : e.artifacts p m with
    | error f => exact ⟨f, rfl⟩
    | ok artifacts =>
        obtain ⟨a, -, ha⟩ := exists_of_forall₂_left (forall₂_of_mapM hartifacts) ((hmember t).mpr ⟨hall, happlies⟩)
        exact absurd hfault (exists_artifact_iff.mp ⟨a, ha⟩)

/-- An emitter without artifacts fails and leaves everything as it was. -/
theorem Emitter.Unrendered.run {e : Emitter} {p : Project} {m : Model} (h : e.Unrendered p m) (w : Writer)
    (s : Progress) : ∃ f, e.run p m w s = (s, .error f) := by
  obtain ⟨f, hf⟩ := Emitter.artifacts_error_iff.mpr h
  rw [Emitter.run, hf]
  exact ⟨f, rfl⟩

/-! ### Two lists of emitters, one after the other -/

section Emitters

variable {p : Project} {m : Model} {w : Writer}

theorem runUntilFailure_append (s : Progress) (count : Nat) (front back : List Emitter) :
    runUntilFailure p m w s count (front ++ back) =
      match runUntilFailure p m w s count front with
      | (s', .error f) => (s', .error f)
      | (s', .ok n) => runUntilFailure p m w s' n back := by
  induction front generalizing s count with
  | nil => rfl
  | cons e front ih =>
      rw [List.cons_append, runUntilFailure, runUntilFailure]
      split
      · rfl
      · exact ih _ _

theorem runAll_append (s : Progress) (front back : List Emitter) :
    runAll p m w s (front ++ back) =
      let first := runAll p m w s front
      let second := runAll p m w first.1 back
      (second.1, first.2.1 + second.2.1, first.2.2 ++ second.2.2) := by
  induction front generalizing s with
  | nil => simp [runAll]
  | cons e front ih =>
      rw [List.cons_append, runAll, runAll]
      split
      · simp [ih]
      · simp [ih, Nat.add_assoc]

theorem runAll_begins (s : Progress) (emitters : List Emitter) :
    s.session.report.Begins (runAll p m w s emitters).1.session.report :=
  runAll_steps (R := fun s s' => s.report.Begins s'.report) (fun s => .refl s.report) (fun _ _ _ h h' => h.trans h')
    (fun a _ s => w.write_begins s a.path a.document.text a.mode) s

theorem runUntilFailure_begins_runAll (s : Progress) (count : Nat) (emitters : List Emitter) :
    (runUntilFailure p m w s count emitters).1.session.report.Begins (runAll p m w s emitters).1.session.report := by
  induction emitters generalizing s count with
  | nil => exact .refl s.session.report
  | cons e rest ih =>
      rw [runUntilFailure, runAll]
      cases e.run p m w s with
      | mk s₁ result =>
          cases result with
          | error f => exact runAll_begins s₁ rest
          | ok n => exact ih s₁ (count + n)

/-! ### The emitters that fail -/

/-- The emitters that fail when they run after all those in front of them, in the order in which they run. -/
def failing (p : Project) (m : Model) (w : Writer) (s : Progress) (emitters : List Emitter) : List Emitter :=
  (emitters.zipIdx.filter fun x => !(x.1.run p m w (runAll p m w s (emitters.take x.2)).1).2.isOk).map Prod.fst

theorem failing_concat (s : Progress) (front : List Emitter) (e : Emitter) :
    failing p m w s (front ++ [e]) =
      failing p m w s front ++ if (e.run p m w (runAll p m w s front).1).2.isOk then [] else [e] := by
  have hfront : ∀ x ∈ front.zipIdx, (front ++ [e]).take x.2 = front.take x.2 := fun x hx =>
    List.take_append_of_le_length (List.snd_lt_of_mem_zipIdx hx).le
  rw [failing, List.zipIdx_append, List.filter_append, List.map_append, Nat.zero_add,
    List.filter_congr fun x hx => by rw [hfront x hx]]
  congr 1
  simp only [List.zipIdx_singleton, List.take_left, List.filter_singleton]
  cases (e.run p m w (runAll p m w s front).1).2.isOk <;> rfl

theorem failed_runAll (s : Progress) (emitters : List Emitter) :
    (runAll p m w s emitters).2.2 = (failing p m w s emitters).map Emitter.name := by
  induction emitters using List.reverseRecOn with
  | nil => rfl
  | append_singleton front e ih =>
      rw [runAll_append, failing_concat, List.map_append, ← ih]
      simp only [runAll]
      cases e.run p m w (runAll p m w s front).1 with
      | mk s₁ result => cases result <;> rfl

namespace Pipeline

/-- Stops at the first failure. -/
def halting (emitters : List Emitter) : Pipeline where
  emitters := emitters
  keepGoing := false

/-- Goes on to the last emitter and says in the end which have failed. -/
def collecting (emitters : List Emitter) : Pipeline where
  emitters := emitters
  keepGoing := true

theorem run_halting (s : Session) (emitters : List Emitter) :
    (halting emitters).run p m w s =
      ((runUntilFailure p m w ⟨s, []⟩ 0 emitters).1.session, (runUntilFailure p m w ⟨s, []⟩ 0 emitters).2) :=
  rfl

theorem run_collecting (s : Session) (emitters : List Emitter) :
    (collecting emitters).run p m w s =
      ((runAll p m w ⟨s, []⟩ emitters).1.session,
        if failing p m w ⟨s, []⟩ emitters = [] then .ok (runAll p m w ⟨s, []⟩ emitters).2.1
        else failWith (.failedEmitters ((failing p m w ⟨s, []⟩ emitters).map Emitter.name))) := by
  have hfailed := failed_runAll (p := p) (m := m) (w := w) ⟨s, []⟩ emitters
  simp only [← List.map_eq_nil_iff (f := Emitter.name), ← hfailed]
  simp only [run, collecting, if_true]
  obtain ⟨s₁, count, failed⟩ := runAll p m w ⟨s, []⟩ emitters
  cases failed <;> rfl

theorem halting_ok_iff_collecting {s s' : Session} {n : Nat} {emitters : List Emitter} :
    (halting emitters).run p m w s = (s', .ok n) ↔ (collecting emitters).run p m w s = (s', .ok n) := by
  rw [run_eq_ok_iff, run_eq_ok_iff]
  rfl

/-- A run that stops does so at the latest at an emitter without artifacts. -/
theorem session_halting_unrendered {e : Emitter} (h : e.Unrendered p m) (s : Session) (front back : List Emitter) :
    ((halting (front ++ e :: back)).run p m w s).1 = ((halting front).run p m w s).1 := by
  rw [run_halting, run_halting, runUntilFailure_append]
  dsimp only
  obtain ⟨s₁, counted⟩ := runUntilFailure p m w ⟨s, []⟩ 0 front
  cases counted with
  | error f => rfl
  | ok n =>
      obtain ⟨f, hrun⟩ := h.run w s₁
      dsimp only
      rw [runUntilFailure, hrun]

/-- A run that goes on passes over an emitter without artifacts. -/
theorem session_collecting_unrendered {e : Emitter} (h : e.Unrendered p m) (s : Session) (front back : List Emitter) :
    ((collecting (front ++ e :: back)).run p m w s).1 = ((collecting (front ++ back)).run p m w s).1 := by
  rw [run_collecting, run_collecting, runAll_append, runAll_append]
  obtain ⟨f, hrun⟩ := h.run w (runAll p m w ⟨s, []⟩ front).1
  simp only [runAll, hrun]

end Pipeline

end Emitters

/-- Stopping at the first failure or going on makes no difference to a run that succeeds. Otherwise the record of the
run that stops is the beginning of that of the run that goes on, which names the emitters that fail, and an emitter
that cannot give an artifact for each of its targets leaves no trace in the files or in the record of either. -/
theorem failure_policies_agree (p : Project) (m : Model) (w : Writer) (s : Session) (emitters : List Emitter) :
    (∀ s' n, (Pipeline.halting emitters).run p m w s = (s', .ok n) ↔
      (Pipeline.collecting emitters).run p m w s = (s', .ok n)) ∧
    ((Pipeline.halting emitters).run p m w s).1.report.Begins ((Pipeline.collecting emitters).run p m w s).1.report ∧
    (∀ f, ((Pipeline.collecting emitters).run p m w s).2 = .error f ↔
      failing p m w ⟨s, []⟩ emitters ≠ [] ∧
        f = { cause := .failedEmitters ((failing p m w ⟨s, []⟩ emitters).map Emitter.name) }) ∧
    ∀ front e back, emitters = front ++ e :: back → e.Unrendered p m →
      ((Pipeline.halting emitters).run p m w s).1 = ((Pipeline.halting front).run p m w s).1 ∧
        ((Pipeline.collecting emitters).run p m w s).1 = ((Pipeline.collecting (front ++ back)).run p m w s).1 := by
  refine ⟨fun s' n => Pipeline.halting_ok_iff_collecting, ?_, fun f => ?_, ?_⟩
  · rw [Pipeline.run_halting, Pipeline.run_collecting]
    exact runUntilFailure_begins_runAll ⟨s, []⟩ 0 emitters
  · rw [Pipeline.run_collecting]
    dsimp only
    split
    · rename_i hnone
      exact iff_of_false nofun fun h => h.1 hnone
    · rename_i hsome
      rw [and_iff_right hsome, failWith, Except.error.injEq, eq_comm]
  · rintro front e back rfl hunrendered
    exact ⟨Pipeline.session_halting_unrendered hunrendered s front back,
      Pipeline.session_collecting_unrendered hunrendered s front back⟩

/-! ### Notes on the versions of a model -/

/-- One version with nothing in it. -/
def bareModel : Model where
  apiNamespace := ""
  imageRepo := ""
  docs := {}
  groups := []
  index := [.empty "v0"]
  slices := [⟨"v0", []⟩]

/-- An emitter of one file for each version; without a text it fails. -/
def noteEmitter (name : String) (stage : Stage) (directory : String) (text? : Option String) : Emitter where
  name := name
  stage := stage
  granularity := .version
  mode := .overwrite
  path := directory ++ "/\x7bversion\x7d.txt"
  applies := fun _ => true
  render := fun _ _ _ =>
    match text? with
    | some text => .ok (.plain text)
    | none => .error (.other "no text")

/-- Of three emitters the second fails, so that a run which stops has the note of the first on record, and one that goes
on also that of the third. -/
theorem textless_notes_left_out :
    let front := [noteEmitter "first" .apiModel "first" (some "1")]
    let textless := noteEmitter "second" .apiModel "second" none
    let back := [noteEmitter "third" .apiModel "third" (some "3")]
    let run (pipeline : Pipeline) := pipeline.run ⟨"", .base⟩ bareModel ⟨"", false⟩ ⟨⟨[], []⟩, {}⟩
    textless.Unrendered ⟨"", .base⟩ bareModel ∧
      (run (.halting (front ++ textless :: back))).1.report = { written := ["first/v0.txt"] } ∧
      (run (.collecting (front ++ textless :: back))).1.report = { written := ["first/v0.txt", "third/v0.txt"] } ∧
      (run (.collecting (front ++ textless :: back))).2 = .error { cause := .failedEmitters ["second"] } ∧
      (run (.halting (front ++ textless :: back))).1 = (run (.halting front)).1 ∧
      (run (.collecting (front ++ textless :: back))).1 = (run (.collecting (front ++ back))).1 := by
  intro front textless back run
  have htextless : textless.Unrendered ⟨"", .base⟩ bareModel :=
    ⟨.version ⟨"v0", []⟩ (.empty "v0"), by decide +kernel, rfl, .inr ⟨.other "no text", rfl⟩⟩
  obtain ⟨-, -, hfailed, hleft⟩ :=
    failure_policies_agree ⟨"", .base⟩ bareModel ⟨"", false⟩ ⟨⟨[], []⟩, {}⟩ (front ++ textless :: back)
  refine ⟨htextless, by decide +kernel, by decide +kernel, ?_, hleft front textless back rfl htextless⟩
  exact (hfailed _).mpr ⟨fun hnil => absurd (congrArg List.length hnil) (by decide +kernel), by decide +kernel⟩

end ApiForge
