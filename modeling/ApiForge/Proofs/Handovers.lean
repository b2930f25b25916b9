import ApiForge.Proofs.Policies
import ApiForge.Proofs.Scaffolding

/-! What a run hands to the writer. A path belongs to the first artifact that comes with it: this one is handed over, and
no other one of the path is, even if the run goes on after the clash. So no file that a run has written is written over
by it, and a run that succeeds has handed over every artifact. -/

namespace ApiForge

open Files (Content Entry Place Report Session Tree Writer)

/-! ### The artifacts that a run comes to -/

/-- An artifact that a run comes to, and whether the run hands it to the writer. -/
structure Visit where
  artifact : Artifact
  handed : Bool
  deriving DecidableEq

/-- The artifacts up to the first that is not written. -/
def visitArtifacts (w : Writer) (s : Progress) : List Artifact → List Visit
  | [] => []
  | a :: rest =>
    match s.owners.find? a.path with
    | some _ => [⟨a, false⟩]
    | none =>
      match w.write s.session a.path a.document.text a.mode with
      | (_, .error _) => [⟨a, true⟩]
      | (session, .ok _) => ⟨a, true⟩ :: visitArtifacts w ⟨session, s.owners ++ [(a.path, a.emitter)]⟩ rest

def Emitter.visits (e : Emitter) (p : Project) (m : Model) (w : Writer) (s : Progress) : List Visit :=
  visitArtifacts w s (e.made p m)

def visitEmitters (keepGoing : Bool) (p : Project) (m : Model) (w : Writer) (s : Progress) : List Emitter → List Visit
  | [] => []
  | e :: rest =>
    e.visits p m w s ++
      if keepGoing || (e.run p m w s).2.isOk then visitEmitters keepGoing p m w (e.run p m w s).1 rest else []

def Pipeline.visits (pipeline : Pipeline) (p : Project) (m : Model) (w : Writer) (s : Session) : List Visit :=
  visitEmitters pipeline.keepGoing p m w ⟨s, []⟩ pipeline.emitters

/-- The artifacts that are handed to the writer, in this order. -/
def handedOver (visits : List Visit) : List Artifact :=
  (visits.filter Visit.handed).map Visit.artifact

theorem handedOver_append (visits visits' : List Visit) :
    handedOver (visits ++ visits') = handedOver visits ++ handedOver visits' := by
  rw [handedOver, List.filter_append, List.map_append]
  rfl

/-- Hands artifacts to the writer, whatever becomes of each. -/
def Files.Writer.handOver (w : Writer) (s : Session) (artifacts : List Artifact) : Session :=
  artifacts.foldl (fun s a => (w.write s a.path a.document.text a.mode).1) s

theorem Files.Writer.handOver_append (w : Writer) (s : Session) (front back : List Artifact) :
    w.handOver s (front ++ back) = w.handOver (w.handOver s front) back :=
  List.foldl_append

/-- An artifact is handed over if it is the first that comes with its path, and only then. -/
def FirstCome (visits : List Visit) : Prop :=
  ∀ front v back, visits = front ++ v :: back →
    (v.handed = true ↔ ∀ u ∈ front, Path.same u.artifact.path v.artifact.path = false)

theorem FirstCome.concat {visits : List Visit} (h : FirstCome visits) {v : Visit}
    (hv : v.handed = true ↔ ∀ u ∈ visits, Path.same u.artifact.path v.artifact.path = false) :
    FirstCome (visits ++ [v]) := by
  intro front u back heq
  rcases List.eq_nil_or_concat' back with rfl | ⟨back, last, rfl⟩
  · obtain ⟨rfl, rfl⟩ := List.append_singleton_inj.mp heq
    exact hv
  · rw [← List.cons_append, ← List.append_assoc] at heq
    obtain ⟨rfl, -⟩ := List.append_singleton_inj.mp heq
    exact h front u back rfl

/-- A run that has made the visits: what it has done is to hand over the artifacts that came first, and their paths are
the ones that it keeps from others. -/
structure Progress.HandedOver (w : Writer) (start : Session) (s : Progress) (visits : List Visit) : Prop where
  session : s.session = w.handOver start (handedOver visits)
  noted : s.Noted (handedOver visits)
  firstCome : FirstCome visits
  kept : ∀ v ∈ visits, ∃ a ∈ handedOver visits, Path.same a.path v.artifact.path = true

namespace Progress.HandedOver

variable {w : Writer} {start : Session} {s : Progress} {visits : List Visit}

theorem nil (w : Writer) (start : Session) : HandedOver w start ⟨start, []⟩ [] where
  session := rfl
  noted := ⟨rfl, List.Pairwise.nil⟩
  firstCome front _ _ heq := absurd heq (List.append_ne_nil_of_right_ne_nil front (List.cons_ne_nil _ _)).symm
  kept := List.forall_mem_nil _

/-- A path is free if no visit was for it. -/
theorem find?_eq_none_iff (h : s.HandedOver w start visits) {path : String} :
    s.owners.find? path = none ↔ ∀ v ∈ visits, Path.same v.artifact.path path = false := by
  rw [h.noted.owners, Owners.find?_eq_none_iff]
  constructor
  · intro hfree v hv
    obtain ⟨a, ha, hsame⟩ := h.kept v hv
    by_contra hpath
    rw [Bool.not_eq_false] at hpath
    exact absurd ((Path.same_trans hsame hpath).symm.trans (hfree a ha)) (by decide)
  · intro hfree a ha
    obtain ⟨v, hv, rfl⟩ := List.mem_map.mp ha
    exact hfree v (List.mem_filter.mp hv).1

theorem clash (h : s.HandedOver w start visits) {a : Artifact} {owner : String}
    (howner : s.owners.find? a.path = some owner) : s.HandedOver w start (visits ++ [⟨a, false⟩]) := by
  have hhanded : handedOver (visits ++ [⟨a, false⟩]) = handedOver visits := by
    rw [handedOver_append]
    exact List.append_nil _
  rw [h.noted.owners] at howner
  obtain ⟨b, hb, hsame, -⟩ := Owners.exists_of_find? howner
  constructor
  · rw [hhanded]
    exact h.session
  · rw [hhanded]
    exact h.noted
  · refine h.firstCome.concat (iff_of_false Bool.false_ne_true fun hfree => ?_)
    rw [← h.noted.owners, h.find?_eq_none_iff.mpr hfree] at howner
    cases howner
  · rw [hhanded]
    rintro v hv
    rcases List.mem_append.mp hv with hv | hv
    · exact h.kept v hv
    · rw [List.mem_singleton.mp hv]
      exact ⟨b, hb, hsame⟩

theorem taken (h : s.HandedOver w start visits) {a : Artifact} (hfree : s.owners.find? a.path = none) :
    HandedOver w start ⟨(w.write s.session a.path a.document.text a.mode).1, s.owners ++ [(a.path, a.emitter)]⟩
      (visits ++ [⟨a, true⟩]) := by
  have hhanded : handedOver (visits ++ [⟨a, true⟩]) = handedOver visits ++ [a] := handedOver_append visits _
  constructor
  · rw [hhanded, Writer.handOver_append, ← h.session]
    rfl
  · rw [hhanded]
    exact h.noted.concat hfree _
  · exact h.firstCome.concat (iff_of_true rfl (h.find?_eq_none_iff.mp hfree))
  · rw [hhanded]
    rintro v hv
    rcases List.mem_append.mp hv with hv | hv
    · obtain ⟨b, hb, hsame⟩ := h.kept v hv
      exact ⟨b, List.mem_append_left _ hb, hsame⟩
    · rw [List.mem_singleton.mp hv]
      exact ⟨a, List.mem_append_right _ (List.mem_singleton_self a), beq_self_eq_true _⟩

theorem writeArtifacts (h : s.HandedOver w start visits) (artifacts : List Artifact) :
    (writeArtifacts w s artifacts).1.HandedOver w start (visits ++ visitArtifacts w s artifacts) := by
  induction artifacts generalizing s visits with
  | nil =>
      rw [visitArtifacts, List.append_nil]
      exact h
  | cons a rest ih =>
      rw [ApiForge.writeArtifacts, visitArtifacts]
      cases hfind : s.owners.find? a.path with
      | some owner => exact h.clash hfind
      | none =>
          have htaken := h.taken hfind
          dsimp only
          cases hwrite : w.write s.session a.path a.document.text a.mode with
          | mk session result =>
              rw [hwrite] at htaken
              cases result with
              | error f => exact htaken
              | ok outcome =>
                  dsimp only
                  rw [List.append_cons visits]
                  exact ih htaken

variable {p : Project} {m : Model}

theorem run (h : s.HandedOver w start visits) (e : Emitter) :
    (e.run p m w s).1.HandedOver w start (visits ++ e.visits p m w s) := by
  rw [Emitter.run, Emitter.visits, Emitter.made]
  cases e.artifacts p m with
  | error f =>
      dsimp only [Except.toOption, Option.getD]
      rw [visitArtifacts, List.append_nil]
      exact h
  | ok artifacts => exact h.writeArtifacts artifacts

theorem runAll (h : s.HandedOver w start visits) (emitters : List Emitter) :
    (runAll p m w s emitters).1.HandedOver w start (visits ++ visitEmitters true p m w s emitters) := by
  induction emitters generalizing s visits with
  | nil =>
      rw [visitEmitters, List.append_nil]
      exact h
  | cons e rest ih =>
      have hrest := ih (h.run (p := p) (m := m) e)
      rw [ApiForge.runAll, visitEmitters, Bool.true_or, if_pos rfl, ← List.append_assoc]
      cases hrun : e.run p m w s with
      | mk s₁ result =>
          rw [hrun] at hrest
          cases result <;> exact hrest

theorem runUntilFailure (h : s.HandedOver w start visits) (count : Nat) (emitters : List Emitter) :
    (runUntilFailure p m w s count emitters).1.HandedOver w start
      (visits ++ visitEmitters false p m w s emitters) := by
  induction emitters generalizing s visits count with
  | nil =>
      rw [visitEmitters, List.append_nil]
      exact h
  | cons e rest ih =>
      have hstep := h.run (p := p) (m := m) e
      rw [ApiForge.runUntilFailure, visitEmitters, Bool.false_or, ← List.append_assoc]
      cases hrun : e.run p m w s with
      | mk s₁ result =>
          rw [hrun] at hstep
          cases result with
          | error f =>
              rw [if_neg (by rintro ⟨⟩), List.append_nil]
              exact hstep
          | ok n =>
              rw [if_pos (show Except.isOk (.ok n : Except Failure Nat) = true from rfl)]
              exact ih hstep (count + n)

end Progress.HandedOver

theorem Pipeline.exists_handedOver (pipeline : Pipeline) (p : Project) (m : Model) (w : Writer) (s : Session) :
    ∃ s₁ : Progress, (pipeline.run p m w s).1 = s₁.session ∧ s₁.HandedOver w s (pipeline.visits p m w s) := by
  have hnil := Progress.HandedOver.nil w s
  obtain ⟨emitters, keepGoing⟩ := pipeline
  cases keepGoing with
  | true =>
      refine ⟨_, ?_, hnil.runAll emitters⟩
      exact congrArg Prod.fst (Pipeline.run_collecting s emitters)
  | false => exact ⟨_, rfl, hnil.runUntilFailure 0 emitters⟩

/-! ### The order of the visits -/

theorem visitArtifacts_isPrefix (w : Writer) (s : Progress) (artifacts : List Artifact) :
    (visitArtifacts w s artifacts).map Visit.artifact <+: artifacts := by
  induction artifacts generalizing s with
  | nil => exact List.prefix_rfl
  | cons a rest ih =>
      rw [visitArtifacts]
      split
      · exact List.prefix_append [a] rest
      · split
        · exact List.prefix_append [a] rest
        · exact List.prefix_cons_inj a |>.mpr (ih _)

theorem visitEmitters_sublist (keepGoing : Bool) (p : Project) (m : Model) (w : Writer) (s : Progress)
    (emitters : List Emitter) :
    ((visitEmitters keepGoing p m w s emitters).map Visit.artifact).Sublist (emitters.flatMap (·.made p m)) := by
  induction emitters generalizing s with
  | nil => exact List.Sublist.slnil
  | cons e rest ih =>
      rw [visitEmitters, List.map_append, List.flatMap_cons]
      refine (visitArtifacts_isPrefix w s _).sublist.append ?_
      split
      · exact ih _
      · exact List.nil_sublist _

namespace Pipeline

/-- Emitters run stage by stage. -/
theorem pairwise_position (emitters : List Emitter) (stages : List Stage) :
    ((ofEmitters emitters).only stages).emitters.Pairwise fun e e' => e.stage.position ≤ e'.stage.position := by
  have hsorted : (ofEmitters emitters).emitters.Pairwise fun e e' => e.stage.position ≤ e'.stage.position := by
    refine (sortBy_pairwise ?_ ?_ emitters).imp of_decide_eq_true
    · intro e e'
      simpa using Nat.le_total e.stage.position e'.stage.position
    · intro e e' e''
      simpa using Nat.le_trans
  rw [only]
  split
  · exact hsorted
  · exact hsorted.sublist List.filter_sublist

/-- Emitters of one stage run in their order in the list. -/
theorem filter_stage (emitters : List Emitter) (stages : List Stage) (stage : Stage) :
    ((ofEmitters emitters).only stages).emitters.filter (fun e => decide (e.stage = stage)) =
      if stages = [] ∨ stage ∈ stages then emitters.filter fun e => decide (e.stage = stage) else [] := by
  have hstable : (ofEmitters emitters).emitters.filter (fun e => decide (e.stage = stage)) =
      emitters.filter fun e => decide (e.stage = stage) := by
    refine filter_sortBy (fun e e' he he' => ?_) emitters
    rw [of_decide_eq_true he, of_decide_eq_true he']
    exact decide_eq_true (Nat.le_refl _)
  rw [only]
  by_cases hnil : stages = []
  · rw [if_pos hnil, if_pos (Or.inl hnil), hstable]
  · rw [if_neg hnil, ← hstable]
    dsimp only
    rw [List.filter_filter]
    split
    · rename_i hstage
      rw [or_iff_right hnil] at hstage
      refine List.filter_congr fun e _ => ?_
      by_cases he : e.stage = stage <;> simp [he, hstage]
    · rename_i hstage
      rw [or_iff_right hnil] at hstage
      rw [List.filter_eq_nil_iff]
      intro e _
      by_cases he : e.stage = stage <;> simp [he, hstage]

end Pipeline

/-! ### Runs that succeed -/

theorem handedOver_map (artifacts : List Artifact) : handedOver (artifacts.map (⟨·, true⟩)) = artifacts := by
  rw [handedOver, List.filter_map, List.map_map]
  simp [Function.comp_def]

section Success

variable {p : Project} {m : Model} {w : Writer}

theorem visitArtifacts_ok {s s' : Progress} {artifacts : List Artifact}
    (h : writeArtifacts w s artifacts = (s', .ok ())) : visitArtifacts w s artifacts = artifacts.map (⟨·, true⟩) := by
  induction artifacts generalizing s with
  | nil => rfl
  | cons a rest ih =>
      rw [writeArtifacts] at h
      rw [visitArtifacts]
      cases hfind : s.owners.find? a.path with
      | some owner =>
          rw [hfind] at h
          cases h
      | none =>
          rw [hfind] at h
          dsimp only at h ⊢
          cases hwrite : w.write s.session a.path a.document.text a.mode with
          | mk session result =>
              rw [hwrite] at h
              cases result with
              | error f => cases h
              | ok outcome =>
                  dsimp only at h ⊢
                  rw [ih h, List.map_cons]

theorem Emitter.visits_ok {e : Emitter} {s s' : Progress} {n : Nat} (h : e.run p m w s = (s', .ok n)) :
    e.visits p m w s = (e.made p m).map (⟨·, true⟩) :=
  visitArtifacts_ok (run_eq_ok_iff.mp h).2.1

theorem visitEmitters_ok {keepGoing : Bool} {s s' : Progress} {n : Nat} {emitters : List Emitter}
    (h : runAll p m w s emitters = (s', n, [])) :
    visitEmitters keepGoing p m w s emitters = (emitters.flatMap (·.made p m)).map (⟨·, true⟩) ∧
      n = (emitters.flatMap (·.made p m)).length := by
  induction emitters generalizing s n with
  | nil =>
      cases h
      exact ⟨rfl, rfl⟩
  | cons e rest ih =>
      obtain ⟨s₁, k, l, hrun, hrest, rfl⟩ := runAll_cons_eq_nil_iff.mp h
      obtain ⟨hothers, rfl⟩ := ih hrest
      have hgoes : (keepGoing || (e.run p m w s).2.isOk) = true := by
        rw [hrun]
        exact Bool.or_true _
      rw [visitEmitters, if_pos hgoes, Emitter.visits_ok hrun, hrun, hothers, (Emitter.run_eq_ok_iff.mp hrun).2.2,
        List.flatMap_cons, List.map_append, List.length_append]
      exact ⟨rfl, rfl⟩

theorem Pipeline.visits_ok {pipeline : Pipeline} {s s' : Session} {n : Nat}
    (h : pipeline.run p m w s = (s', .ok n)) :
    pipeline.visits p m w s = (pipeline.emitters.flatMap (·.made p m)).map (⟨·, true⟩) ∧
      n = (pipeline.emitters.flatMap (·.made p m)).length := by
  obtain ⟨s₁, -, hrun⟩ := run_eq_ok_iff.mp h
  exact visitEmitters_ok hrun

end Success

/-! ### Files that stay as they were written -/

namespace Files.Writer

variable {w : Writer} {s s' : Session} {artifacts : List Artifact}

theorem handOver_ran (w : Writer) (s : Session) (artifacts : List Artifact) :
    Ran w artifacts s (w.handOver s artifacts) := by
  induction artifacts generalizing s with
  | nil => exact Ran.refl w [] s
  | cons a rest ih =>
      have hstep : Ran w (a :: rest) s (w.write s a.path a.document.text a.mode).1 :=
        (ran_write w s a).mono fun b hb => List.mem_singleton.mp hb ▸ List.mem_cons_self
      exact hstep.trans ((ih _).mono fun b hb => List.mem_cons_of_mem a hb)

/-- The path finds a file at the place that it leads to. -/
def Finds (w : Writer) (t : Tree) (path : String) : Prop :=
  ∃ content, t.locate (Path.join w.root path) = .ok (w.placeOf t path, .file content)

/-- Files stay files. -/
theorem Finds.ran {path : String} (h : w.Finds s.tree path) (hran : Ran w artifacts s s') : w.Finds s'.tree path := by
  obtain ⟨content, hlocate⟩ := h
  have hthere : ∃ content', s'.tree.get? (w.placeOf s.tree path) = some (.file content') := by
    rcases hran.files _ content (Tree.locate_file hlocate).2 with hkept | ⟨a, -, -, -, hput⟩
    · exact ⟨content, hkept⟩
    · exact ⟨a.content, hput⟩
  obtain ⟨content', hthere⟩ := hthere
  refine ⟨content', ?_⟩
  rw [hran.placeOf_eq]
  exact hran.keeps.locate_file hlocate hthere

theorem finds_of_write (w : Writer) (s : Session) (a : Artifact) {path : String}
    (h : path ∈ (w.write s a.path a.document.text a.mode).1.report.written) :
    path ∈ s.report.written ∨ w.Finds (w.write s a.path a.document.text a.mode).1.tree path := by
  have hwrote := w.wrote_write s a.path a.document.text a.mode
  generalize w.write s a.path a.document.text a.mode = result at h hwrote ⊢
  cases hwrote with
  | skipped => exact Or.inl h
  | wouldWrite => exact Or.inl h
  | failed => exact Or.inl h
  | written hdry tree hfile =>
      rcases List.mem_append.mp h with hold | hnew
      · exact Or.inl hold
      · rw [List.mem_singleton.mp hnew]
        refine Or.inr ⟨a.content, ?_⟩
        rw [placeOf, (writeFile_ok hfile).1.placeOf_eq]
        exact locate_of_writeFile hfile

theorem finds_of_handOver (w : Writer) (s : Session) (artifacts : List Artifact) {path : String}
    (h : path ∈ (w.handOver s artifacts).report.written) :
    path ∈ s.report.written ∨ w.Finds (w.handOver s artifacts).tree path := by
  induction artifacts generalizing s with
  | nil => exact Or.inl h
  | cons a rest ih =>
      rcases ih _ h with hearlier | hfinds
      · exact (w.finds_of_write s a hearlier).imp_right fun hfinds => hfinds.ran (w.handOver_ran _ rest)
      · exact Or.inr hfinds

theorem placeOf_onlyNames (w : Writer) (t : Tree) {path : String} (h : Path.OnlyNames path) :
    w.placeOf t path = t.placeOf w.root ++ Path.names path := by
  rw [placeOf, Tree.placeOf, Path.placeFrom_join _ _ h.relative, h.walk]
  rfl

/-- Of artifacts whose paths are apart, each one that is written stays as it is. -/
theorem read_handOver (hnames : ∀ a ∈ artifacts, Path.OnlyNames a.path) (hapart : PathsApart artifacts)
    {a : Artifact} (ha : a ∈ artifacts) (hnew : a.path ∉ s.report.written)
    (hwritten : a.path ∈ (w.handOver s artifacts).report.written) :
    (w.handOver s artifacts).tree.read (Path.join w.root a.path) = .ok a.content := by
  obtain ⟨-, -, b, hb, -, hplace, hput⟩ := ((w.handOver_ran s artifacts).written _ hwritten).resolve_left hnew
  obtain ⟨content, hlocate⟩ := (w.finds_of_handOver s artifacts hwritten).resolve_left hnew
  have hsame : Path.same b.path a.path = true := by
    rw [w.placeOf_onlyNames _ (hnames b hb), w.placeOf_onlyNames _ (hnames a ha)] at hplace
    exact ((hnames b hb).same_iff (hnames a ha)).mpr (List.append_cancel_left hplace)
  obtain rfl := hapart.eq_of_same hb ha hsame
  have hcontent : content = b.content := by
    rw [(Tree.locate_file hlocate).2] at hput
    exact Entry.file.inj (Option.some.inj hput)
  exact Tree.read_ok_iff.mpr ⟨_, hcontent ▸ hlocate⟩

end Files.Writer

/-- A path goes to the first artifact that comes with it, in the order of the stages and of the list within a stage,
whatever fails, and what was written for it stays. A run that succeeds has handed over all artifacts. -/
theorem paths_first_come (emitters : List Emitter) (stages : List Stage) (keepGoing : Bool) (p : Project) (m : Model)
    (w : Writer) (s : Session) :
    let pipeline : Pipeline := { (Pipeline.ofEmitters emitters).only stages with keepGoing := keepGoing }
    let artifacts := pipeline.emitters.flatMap (·.made p m)
    let visits := pipeline.visits p m w s
    let s' := (pipeline.run p m w s).1
    (pipeline.emitters.Pairwise (fun e e' => e.stage.position ≤ e'.stage.position) ∧
      ∀ stage, pipeline.emitters.filter (fun e => decide (e.stage = stage)) =
        if stages = [] ∨ stage ∈ stages then emitters.filter fun e => decide (e.stage = stage) else []) ∧
    (visits.map Visit.artifact).Sublist artifacts ∧
    FirstCome visits ∧ PathsApart (handedOver visits) ∧ s' = w.handOver s (handedOver visits) ∧
    ((∀ a ∈ handedOver visits, Path.OnlyNames a.path) → ∀ a ∈ handedOver visits, a.path ∉ s.report.written →
      a.path ∈ s'.report.written → s'.tree.read (Path.join w.root a.path) = .ok a.content) ∧
    ∀ n, (pipeline.run p m w s).2 = .ok n → s.report = {} →
      (∀ e ∈ pipeline.emitters, e.artifacts p m = .ok (e.made p m)) ∧ handedOver visits = artifacts ∧
      n = artifacts.length ∧ s'.report.produced.Perm (artifacts.map Artifact.path) ∧
      n = s'.report.produced.length ∧
      ((∀ a ∈ artifacts, Path.OnlyNames a.path) → w.dryRun = false → ∀ a ∈ artifacts, a.mode = .overwrite →
        s'.tree.read (Path.join w.root a.path) = .ok a.content) := by
  intro pipeline artifacts visits s'
  obtain ⟨s₁, hsession, hvisits⟩ := pipeline.exists_handedOver p m w s
  have hs' : s' = w.handOver s (handedOver visits) := hsession.trans hvisits.session
  have hapart : PathsApart (handedOver visits) := hvisits.noted.apart
  refine ⟨⟨Pipeline.pairwise_position emitters stages, Pipeline.filter_stage emitters stages⟩,
    visitEmitters_sublist keepGoing p m w _ _, hvisits.firstCome, hapart, hs', ?_, ?_⟩
  · intro hnames a ha hnew hwritten
    rw [hs'] at hwritten ⊢
    exact Writer.read_handOver hnames hapart ha hnew hwritten
  · intro n hn hfresh
    have hrun : pipeline.run p m w s = (s', .ok n) := Prod.ext rfl hn
    have hmade := Pipeline.run_ok hrun
    obtain ⟨hall, hcount⟩ := Pipeline.visits_ok hrun
    have hhanded : handedOver visits = artifacts := (congrArg handedOver hall).trans (handedOver_map artifacts)
    have hproduced : s'.report.produced.Perm (artifacts.map Artifact.path) := by
      obtain ⟨-, hwritten⟩ := (Pipeline.run_ok_iff fun e he => (hmade e he).1).mp ⟨n, hrun⟩
      have hperm := Writer.produced_perm hwritten
      rw [hfresh, List.map_map] at hperm
      exact hperm
    refine ⟨fun e he => (hmade e he).1, hhanded, hcount, hproduced, ?_, fun hnames hdry a ha hmode => ?_⟩
    · rw [hcount, hproduced.length_eq, List.length_map]
    · obtain ⟨e, he, hae⟩ := List.mem_flatMap.mp ha
      have hwritten : a.path ∈ s'.report.written := (hmade e he).2 hdry a hae hmode
      rw [hs'] at hwritten ⊢
      rw [hhanded] at hapart hwritten ⊢
      exact Writer.read_handOver hnames hapart ha (by simp [hfresh]) hwritten

/-- Two notes on one path: the one of the earlier stage stays, and the run goes on to the third. Without the second it
succeeds. -/
theorem clashing_note_left_out :
    let early := noteEmitter "early" .apiModel "notes" (some "1")
    let late := noteEmitter "late" .client "notes" (some "2")
    let third := noteEmitter "third" .tptctl "others" (some "3")
    let run (emitters : List Emitter) :=
      ({ (Pipeline.ofEmitters emitters).only [] with keepGoing := true } : Pipeline).run ⟨"", .base⟩ bareModel ⟨"", false⟩
        ⟨⟨[], []⟩, {}⟩
    (run [late, early, third]).2 = .error { cause := .failedEmitters ["late"] } ∧
      (run [late, early, third]).1.report.written = ["notes/v0.txt", "others/v0.txt"] ∧
      (run [late, early, third]).1.tree.read "notes/v0.txt" = .ok (Text.utf8Bytes "1".toList) ∧
      (run [third, early]).2 = .ok 2 ∧
      (run [third, early]).1.report.produced.length = 2 ∧
      (run [third, early]).1.tree.read "others/v0.txt" = .ok (Text.utf8Bytes "3".toList) := by
  intro early late third run
  have hwritten : (run [late, early, third]).1.report.written = ["notes/v0.txt", "others/v0.txt"] := by decide +kernel
  have hcount : (run [third, early]).2 = .ok 2 := by decide +kernel
  obtain ⟨-, -, -, -, -, hkept, -⟩ :=
    paths_first_come [late, early, third] [] true ⟨"", .base⟩ bareModel ⟨"", false⟩ ⟨⟨[], []⟩, {}⟩
  obtain ⟨-, -, -, -, -, -, hsucceeds⟩ :=
    paths_first_come [third, early] [] true ⟨"", .base⟩ bareModel ⟨"", false⟩ ⟨⟨[], []⟩, {}⟩
  obtain ⟨-, -, -, -, hproduced, hread⟩ := hsucceeds 2 hcount rfl
  have hnote : (run [late, early, third]).1.tree.read (Path.join "" "notes/v0.txt") =
      .ok (Text.utf8Bytes "1".toList) := by
    refine hkept ?_ ⟨"early", "notes/v0.txt", .overwrite, .plain "1"⟩ (by decide +kernel) List.not_mem_nil
      (hwritten ▸ List.mem_cons_self)
    unfold Path.OnlyNames
    decide +kernel
  have hother : (run [third, early]).1.tree.read (Path.join "" "others/v0.txt") =
      .ok (Text.utf8Bytes "3".toList) := by
    refine hread ?_ rfl ⟨"third", "others/v0.txt", .overwrite, .plain "3"⟩ (by decide +kernel) rfl
    unfold Path.OnlyNames
    decide +kernel
  have hjoin (path : String) : Path.join "" path = path := by simp [Path.join]
  rw [hjoin] at hnote hother
  exact ⟨by decide +kernel, hwritten, hnote, hcount, hproduced.symm, hother⟩

end ApiForge
