import ApiForge.Proofs.Artifacts

/-! The artifacts of a built model all together. Each comes from one emitter and one target, its site, and no two have the
same, so what holds between any two artifacts is what holds between the files of any two sites. -/

namespace ApiForge

/-! ### Lists of artifacts -/

/-- What holds between any two of what is made of the entries of a list. -/
theorem pairwise_iff_of_forall₂ {α β : Type} {S : α → β → Prop} {R : β → β → Prop} {xs : List α} {ys : List β}
    (h : List.Forall₂ S xs ys) (hxs : xs.Nodup) (hsymm : ∀ a b, R a b → R b a)
    (honly : ∀ x a b, S x a → S x b → a = b) :
    ys.Pairwise R ↔ ∀ x ∈ xs, ∀ y ∈ xs, x ≠ y → ∀ a b, S x a → S y b → R a b := by
  induction h with
  | nil => simp
  | @cons x a xs ys hxa hrest ih =>
      rw [List.nodup_cons] at hxs
      rw [List.pairwise_cons, ih hxs.2]
      constructor
      · rintro ⟨hfirst, hothers⟩ y hy z hz hne b c hyb hzc
        rcases List.mem_cons.mp hy with rfl | hy'
        · rcases List.mem_cons.mp hz with rfl | hz'
          · exact absurd rfl hne
          · obtain ⟨d, hd, hzd⟩ := exists_of_forall₂_left hrest hz'
            rw [honly _ _ _ hyb hxa, honly _ _ _ hzc hzd]
            exact hfirst d hd
        · rcases List.mem_cons.mp hz with rfl | hz'
          · obtain ⟨d, hd, hyd⟩ := exists_of_forall₂_left hrest hy'
            rw [honly _ _ _ hzc hxa, honly _ _ _ hyb hyd]
            exact hsymm _ _ (hfirst d hd)
          · exact hothers y hy' z hz' hne b c hyb hzc
      · intro hall
        refine ⟨fun b hb => ?_, fun y hy z hz => hall y (List.mem_cons_of_mem x hy) z (List.mem_cons_of_mem x hz)⟩
        obtain ⟨y, hy, hyb⟩ := exists_of_forall₂ hrest hb
        exact hall x List.mem_cons_self y (List.mem_cons_of_mem x hy) (fun heq => hxs.1 (heq ▸ hy)) a b hxa hyb

/-- The built-in emitters with the targets that each of them applies to. -/
def Model.sites (m : Model) : List (Emitter × Target) :=
  defaultEmitters.flatMap fun e => ((Target.all m e.granularity).filter e.applies).map (e, ·)

/-- What the built-in emitters make of a model. -/
def Model.artifacts (m : Model) (p : Project) : List Artifact :=
  defaultEmitters.flatMap (·.made p m)

/-- They are what a run of the built-in pipeline has to write. -/
theorem Model.artifacts_eq (m : Model) (p : Project) :
    m.artifacts p = Pipeline.builtIn.emitters.flatMap (·.made p m) := by
  rw [builtIn_emitters]
  rfl

theorem Model.mem_sites {m : Model} {x : Emitter × Target} :
    x ∈ m.sites ↔ x.1 ∈ defaultEmitters ∧ x.2 ∈ Target.all m x.1.granularity ∧ x.1.applies x.2 = true := by
  obtain ⟨e, t⟩ := x
  rw [sites, List.mem_flatMap]
  constructor
  · rintro ⟨e', he, hx⟩
    obtain ⟨t', ht, heq⟩ := List.mem_map.mp hx
    obtain ⟨rfl, rfl⟩ := Prod.mk.inj heq
    exact ⟨he, List.mem_filter.mp ht⟩
  · rintro ⟨he, ht⟩
    exact ⟨e, he, List.mem_map_of_mem (List.mem_filter.mpr ht)⟩

/-- What tells the artifacts of a model apart: the emitter and what its target is about. -/
def siteKey (x : Emitter × Target) : String × List String :=
  (x.1.name, x.2.subject)

theorem defaultEmitters_names : (defaultEmitters.map Emitter.name).Nodup := by
  decide

theorem Emitter.Makes.eq {e : Emitter} {p : Project} {m : Model} {t : Target} {a b : Artifact} (ha : e.Makes p m t a)
    (hb : e.Makes p m t b) : a = b :=
  Except.ok.inj (ha.artifact.symm.trans hb.artifact)

theorem Emitter.Makes.rendered {e : Emitter} {p : Project} {m : Model} {t : Target} {a : Artifact}
    (h : e.Makes p m t a) : e.render p m t = .ok a.document := by
  have hartifact := h.artifact
  unfold Emitter.artifact at hartifact
  split at hartifact
  · cases hartifact
  · split at hartifact
    · cases hartifact
    · cases hartifact
      assumption

theorem Emitter.Makes.site {e : Emitter} {p : Project} {m : Model} {t : Target} {a : Artifact} (h : e.Makes p m t a)
    (he : e ∈ defaultEmitters) : (e, t) ∈ m.sites :=
  Model.mem_sites.mpr ⟨he, h.target, h.applies⟩

namespace Config.Built

variable {project : Project} {inspect : Inspector} {c : Config} {m : Model}

theorem targeted (h : c.Built project inspect m) : m.Targeted c.versions := by
  refine h.partitioned.targeted h.nodup_names fun g hg => ?_
  obtain ⟨d, -, hbuilt, -⟩ := h.configured hg
  exact hbuilt.reconciled

theorem nodup_sites (h : c.Built project inspect m) : (m.sites.map siteKey).Nodup := by
  rw [Model.sites, List.map_flatMap, List.nodup_flatMap]
  constructor
  · intro e _
    have hsubjects : ((Target.all m e.granularity).map Target.subject).Nodup := by
      rw [h.targeted.complete]
      exact h.targeted.once e.granularity
    have hkeys : (((Target.all m e.granularity).filter e.applies).map (e, ·)).map siteKey =
        ((((Target.all m e.granularity).filter e.applies).map Target.subject)).map (e.name, ·) := by
      rw [List.map_map, List.map_map]
      rfl
    rw [hkeys]
    exact (hsubjects.sublist (List.filter_sublist.map _)).map fun _ _ heq => (Prod.mk.inj heq).2
  · refine (List.pairwise_map.mp defaultEmitters_names).imp fun {e e'} hne key hkey hkey' => ?_
    obtain ⟨x, hx, rfl⟩ := List.mem_map.mp hkey
    obtain ⟨y, hy, heq⟩ := List.mem_map.mp hkey'
    obtain ⟨t, -, rfl⟩ := List.mem_map.mp hx
    obtain ⟨t', -, rfl⟩ := List.mem_map.mp hy
    exact hne (Prod.mk.inj heq).1.symm

/-- The artifacts of a built model, one for each of its sites. -/
theorem artifacts_sites (h : c.Built project inspect m) :
    List.Forall₂ (fun x a => x.1.Makes project m x.2 a) m.sites (m.artifacts project) := by
  have hall : ∀ emitters : List Emitter, (∀ e ∈ emitters, e ∈ defaultEmitters) →
      List.Forall₂ (fun (x : Emitter × Target) a => x.1.Makes project m x.2 a)
        (emitters.flatMap fun e => ((Target.all m e.granularity).filter e.applies).map (e, ·))
        (emitters.flatMap (·.made project m)) := by
    intro emitters hemitters
    induction emitters with
    | nil => exact List.Forall₂.nil
    | cons e emitters ih =>
        rw [List.forall_mem_cons] at hemitters
        refine List.rel_append ?_ (ih hemitters.2)
        rw [List.forall₂_map_left_iff]
        have hmade := forall₂_of_mapM (h.artifacts_eq_made hemitters.1 project)
        refine List.forall₂_iff_zip.mpr ⟨hmade.length_eq, fun {t a} hta => ?_⟩
        obtain ⟨ht, happlies⟩ := List.mem_filter.mp (List.of_mem_zip hta).1
        exact ⟨ht, happlies, List.forall₂_zip hmade hta⟩
  exact hall defaultEmitters fun _ he => he

/-- What holds between any two artifacts of a built model. -/
theorem pairwise_artifacts_iff (h : c.Built project inspect m) {R : Artifact → Artifact → Prop}
    (hsymm : ∀ a b, R a b → R b a) :
    (m.artifacts project).Pairwise R ↔ ∀ x ∈ m.sites, ∀ y ∈ m.sites, x ≠ y →
      ∀ a b, x.1.Makes project m x.2 a → y.1.Makes project m y.2 b → R a b :=
  pairwise_iff_of_forall₂ h.artifacts_sites h.nodup_sites.of_map hsymm fun _ _ _ ha hb => ha.eq hb

theorem exists_makes (h : c.Built project inspect m) {x : Emitter × Target} (hx : x ∈ m.sites) :
    ∃ a ∈ m.artifacts project, x.1.Makes project m x.2 a :=
  exists_of_forall₂_left h.artifacts_sites hx

end Config.Built

end ApiForge
