import ApiForge.Proofs.Runs

/-! How a run ends. A run of emitters that all have their artifacts stops at the first artifact whose path an earlier one
has, or at the first that cannot be written; if it comes to the end, then no two artifacts have one path. -/

namespace ApiForge

open Files (Session Writer)

/-- No two artifacts have one path. -/
def PathsApart (artifacts : List Artifact) : Prop :=
  artifacts.Pairwise fun a b => Path.same a.path b.path = false

theorem PathsApart.nodup_paths {artifacts : List Artifact} (h : PathsApart artifacts) :
    (artifacts.map Artifact.path).Nodup := by
  refine List.pairwise_map.mpr (h.imp fun {a b} hapart hpath => ?_)
  exact Bool.false_ne_true (hapart.symm.trans (Path.same_iff_components.mpr (congrArg _ hpath)))

/-- Why a run that was to write the artifacts has stopped: two of them have one path, or one could not be written. -/
inductive Stopped (w : Writer) (artifacts : List Artifact) (f : Failure) : Prop where
  | clash {a b : Artifact} (order : [a, b].Sublist artifacts) (same : Path.same a.path b.path = true)
      (failure : f = { cause := .pathClash a.emitter b.emitter b.path })
  | refused {a : Artifact} {g : Failure} (mem : a ∈ artifacts) (s : Session)
      (write : (w.write s a.path a.document.text a.mode).2 = .error g)
      (failure : f = g.during (.writingArtifact a.emitter a.path))

theorem Stopped.mono {w : Writer} {artifacts artifacts' : List Artifact} {f : Failure} (h : Stopped w artifacts f)
    (hsub : artifacts.Sublist artifacts') : Stopped w artifacts' f := by
  cases h with
  | clash order same failure => exact .clash (order.trans hsub) same failure
  | refused mem s write failure => exact .refused (hsub.mem mem) s write failure

/-- The artifacts that were written are on record with their emitters, and no two of them have one path. -/
structure Progress.Noted (s : Progress) (written : List Artifact) : Prop where
  owners : s.owners = written.map fun a => (a.path, a.emitter)
  apart : PathsApart written

/-! ### Artifacts one after the other -/

theorem Owners.find?_eq_none_iff {written : List Artifact} {path : String} :
    Owners.find? (written.map fun a => (a.path, a.emitter)) path = none ↔
      ∀ a ∈ written, Path.same a.path path = false := by
  rw [find?, Option.map_eq_none_iff, List.head?_eq_none_iff, List.filter_eq_nil_iff, List.forall_mem_map]
  simp

theorem Owners.exists_of_find? {written : List Artifact} {path owner : String}
    (h : Owners.find? (written.map fun a => (a.path, a.emitter)) path = some owner) :
    ∃ a ∈ written, Path.same a.path path = true ∧ a.emitter = owner := by
  obtain ⟨entry, hentry, rfl⟩ := Option.map_eq_some_iff.mp h
  obtain ⟨hmem, hsame⟩ := List.mem_filter.mp (List.mem_of_mem_head? hentry)
  obtain ⟨a, ha, rfl⟩ := List.mem_map.mp hmem
  exact ⟨a, ha, hsame, rfl⟩

/-- One more artifact whose path is nobody's. -/
theorem Progress.Noted.concat {s : Progress} {written : List Artifact} (h : s.Noted written) {a : Artifact}
    (hfree : s.owners.find? a.path = none) (session : Session) :
    (⟨session, s.owners ++ [(a.path, a.emitter)]⟩ : Progress).Noted (written ++ [a]) where
  owners := by rw [h.owners, List.map_append, List.map_singleton]
  apart := by
    rw [h.owners, Owners.find?_eq_none_iff] at hfree
    refine List.pairwise_append.mpr ⟨h.apart, List.pairwise_singleton _ a, fun b hb c hc => ?_⟩
    rw [List.mem_singleton.mp hc]
    exact hfree b hb

section Artifacts

variable {w : Writer}

theorem writeArtifacts_noted {s s' : Progress} {written rest : List Artifact} (hs : s.Noted written)
    (h : writeArtifacts w s rest = (s', .ok ())) : s'.Noted (written ++ rest) := by
  induction rest generalizing s written with
  | nil =>
      cases h
      rw [List.append_nil]
      exact hs
  | cons a rest ih =>
      unfold writeArtifacts at h
      split at h
      · cases h
      · rename_i hfree
        dsimp only at h
        split at h
        · cases h
        · rw [List.append_cons]
          exact ih (hs.concat hfree _) h

theorem writeArtifacts_stopped {s s' : Progress} {written rest : List Artifact} {f : Failure} (hs : s.Noted written)
    (h : writeArtifacts w s rest = (s', .error f)) : Stopped w (written ++ rest) f := by
  induction rest generalizing s written with
  | nil => cases h
  | cons a rest ih =>
      unfold writeArtifacts at h
      split at h
      · rename_i owner howner
        cases h
        rw [hs.owners] at howner
        obtain ⟨b, hb, hsame, rfl⟩ := Owners.exists_of_find? howner
        exact .clash ((List.singleton_sublist.mpr hb).append (List.singleton_sublist.mpr List.mem_cons_self)) hsame rfl
      · rename_i hfree
        dsimp only at h
        split at h
        · rename_i session g hwrite
          cases h
          exact .refused (List.mem_append_right _ List.mem_cons_self) s.session (congrArg Prod.snd hwrite) rfl
        · rw [List.append_cons]
          exact ih (hs.concat hfree _) h

end Artifacts

/-! ### Emitters one after the other -/

section Emitters

variable {p : Project} {m : Model} {w : Writer}

theorem Emitter.run_noted {e : Emitter} {s s' : Progress} {written : List Artifact} (hs : s.Noted written) {n : Nat}
    (h : e.run p m w s = (s', .ok n)) : s'.Noted (written ++ e.made p m) :=
  writeArtifacts_noted hs (run_eq_ok_iff.mp h).2.1

theorem Emitter.run_stopped {e : Emitter} (hmade : e.artifacts p m = .ok (e.made p m)) {s s' : Progress}
    {written : List Artifact} (hs : s.Noted written) {f : Failure} (h : e.run p m w s = (s', .error f)) :
    Stopped w (written ++ e.made p m) f := by
  rw [run, hmade] at h
  dsimp only at h
  cases hwritten : writeArtifacts w s (e.made p m) with
  | mk s₁ result =>
      rw [hwritten] at h
      cases result with
      | error g =>
          cases h
          exact writeArtifacts_stopped hs hwritten
      | ok _ => cases h

theorem runAll_noted {emitters : List Emitter} {s s' : Progress} {written : List Artifact} (hs : s.Noted written)
    {n : Nat} (h : runAll p m w s emitters = (s', n, [])) : s'.Noted (written ++ emitters.flatMap (·.made p m)) := by
  induction emitters generalizing s written n with
  | nil =>
      cases h
      rw [List.flatMap_nil, List.append_nil]
      exact hs
  | cons e rest ih =>
      obtain ⟨s₁, k, l, hrun, hrest, -⟩ := runAll_cons_eq_nil_iff.mp h
      rw [List.flatMap_cons, ← List.append_assoc]
      exact ih (Emitter.run_noted hs hrun) hrest

theorem runUntilFailure_stopped {emitters : List Emitter}
    (hmade : ∀ e ∈ emitters, e.artifacts p m = .ok (e.made p m)) {s s' : Progress} {written : List Artifact}
    (hs : s.Noted written) {count : Nat} {f : Failure}
    (h : runUntilFailure p m w s count emitters = (s', .error f)) :
    Stopped w (written ++ emitters.flatMap (·.made p m)) f := by
  induction emitters generalizing s written count with
  | nil => cases h
  | cons e rest ih =>
      rw [List.forall_mem_cons] at hmade
      unfold runUntilFailure at h
      rw [List.flatMap_cons, ← List.append_assoc]
      split at h
      · rename_i s₁ g hrun
        cases h
        exact (Emitter.run_stopped hmade.1 hs hrun).mono (List.sublist_append_left ..)
      · rename_i s₁ n₁ hrun
        exact ih hmade.2 (Emitter.run_noted hs hrun) h

namespace Pipeline

variable {pipeline : Pipeline} {s s' : Session}

theorem noted_nil (s : Session) : (⟨s, []⟩ : Progress).Noted [] :=
  ⟨rfl, List.Pairwise.nil⟩

/-- A run to the end has met no two artifacts of one path. -/
theorem run_apart {n : Nat} (h : pipeline.run p m w s = (s', .ok n)) :
    PathsApart (pipeline.emitters.flatMap (·.made p m)) := by
  obtain ⟨s₁, -, hrun⟩ := run_eq_ok_iff.mp h
  exact (runAll_noted (noted_nil s) hrun).apart

theorem run_stopped (hkeepGoing : pipeline.keepGoing = false)
    (hmade : ∀ e ∈ pipeline.emitters, e.artifacts p m = .ok (e.made p m)) {f : Failure}
    (h : pipeline.run p m w s = (s', .error f)) : Stopped w (pipeline.emitters.flatMap (·.made p m)) f := by
  rw [run, hkeepGoing] at h
  exact runUntilFailure_stopped hmade (noted_nil s) (Prod.ext rfl (Prod.mk.inj h).2)

end Pipeline

end Emitters

end ApiForge
