import ApiForge.Proofs.Foresight

/-! What drafts make of a tree, whatever order they are written in and however often. What stands at a place in the end
depends on what stood there at the start and on which drafts were written, so runs that have written the same drafts
have come to the same files. -/

namespace ApiForge

open Files (Content Entry Place Report Session Tree WriteOutcome Writer)

/-- What stands where a draft goes once it has been written, or skipped. -/
def Draft.outcome (d : Draft) (before : Option Entry) : Entry :=
  match d.mode with
  | .overwrite => .file d.content
  | .scaffold => before.getD (.file d.content)

theorem Draft.outcome_overwrite {d : Draft} (h : d.mode = .overwrite) (before : Option Entry) :
    d.outcome before = .file d.content := by
  rw [outcome, h]

theorem Draft.outcome_none (d : Draft) : d.outcome none = .file d.content := by
  rw [outcome]
  cases d.mode <;> rfl

theorem Draft.outcome_some {d : Draft} (h : d.mode = .scaffold) (entry : Entry) : d.outcome (some entry) = entry := by
  rw [outcome, h]
  rfl

/-- Drafts of which none is in the way of another and each has a path of its own. -/
structure Compatible (drafts : List Draft) : Prop where
  descends : ∀ d ∈ drafts, Path.Descends d.path
  level : Level drafts
  unique : ∀ d ∈ drafts, ∀ e ∈ drafts, Path.names d.path = Path.names e.path → d = e

theorem compatible_artifacts {artifacts : List Artifact} (hdotted : ∀ a ∈ artifacts, a.Dotted)
    (hapart : PathsApart artifacts) : Compatible (artifacts.map Artifact.draft) where
  descends d hd := by
    obtain ⟨a, ha, rfl⟩ := List.mem_map.mp hd
    exact (hdotted a ha).descends
  level := level_artifacts hdotted hapart
  unique d hd e he hnames := by
    obtain ⟨a, ha, rfl⟩ := List.mem_map.mp hd
    obtain ⟨b, hb, rfl⟩ := List.mem_map.mp he
    rw [hapart.eq_of_same ha hb (((hdotted a ha).descends.same_iff (hdotted b hb).descends).mpr hnames)]

/-- A tree that comes from another when some drafts, and nothing else, are written. -/
structure InPlace (root : String) (t : Tree) (done : List Draft) (s : Tree) : Prop where
  workingDirectory : s.workingDirectory = t.workingDirectory
  connected : s.Connected
  reaches : t.Reaches root → s.Reaches root
  directories : ∀ q, t.get? q = some .directory → s.get? q = some .directory
  files : ∀ q content, t.get? q = some (.file content) → ∃ content', s.get? q = some (.file content')
  target : ∀ d ∈ done, s.get? (t.placeOf root ++ Path.names d.path) =
    some (d.outcome (t.get? (t.placeOf root ++ Path.names d.path)))
  way : ∀ d ∈ done, ∀ q ∈ Tree.through (t.placeOf root) (Path.names d.path).dropLast, s.get? q = some .directory
  others : ∀ q, (∀ d ∈ done, ¬OnWay (t.placeOf root) d.path q) → s.get? q = t.get? q

namespace InPlace

variable {root : String} {t s : Tree} {done drafts : List Draft} {d : Draft}

theorem start (hconnected : t.Connected) : InPlace root t [] t where
  workingDirectory := rfl
  connected := hconnected
  reaches h := h
  directories _ h := h
  files _ content h := ⟨content, h⟩
  target _ hd := absurd hd List.not_mem_nil
  way _ hd := absurd hd List.not_mem_nil
  others _ _ := rfl

/-- The order of the drafts does not count. -/
theorem congr_mem (h : InPlace root t done s) {done' : List Draft} (hsame : ∀ d, d ∈ done' ↔ d ∈ done) :
    InPlace root t done' s :=
  { h with
    target := fun d hd => h.target d ((hsame d).mp hd)
    way := fun d hd => h.way d ((hsame d).mp hd)
    others := fun q hq => h.others q fun d hd => hq d ((hsame d).mpr hd) }

/-- Where the same drafts are in place, the files are the same. -/
theorem get?_eq (h : InPlace root t done s) {done' : List Draft} {s' : Tree} (h' : InPlace root t done' s')
    (hsame : ∀ d, d ∈ done' ↔ d ∈ done) (q : Place) : s'.get? q = s.get? q := by
  replace h' := h'.congr_mem fun d => (hsame d).symm
  by_cases hway : ∃ d ∈ done, OnWay (t.placeOf root) d.path q
  · obtain ⟨d, hd, rfl | hthrough⟩ := hway
    · rw [h.target d hd, h'.target d hd]
    · rw [h.way d hd q hthrough, h'.way d hd q hthrough]
  · have hnone : ∀ d ∈ done, ¬OnWay (t.placeOf root) d.path q := fun d hd honWay => hway ⟨d, hd, honWay⟩
    rw [h.others q hnone, h'.others q hnone]

theorem placeOf_eq (h : InPlace root t done s) (path : String) : s.placeOf path = t.placeOf path := by
  rw [Tree.placeOf, Tree.placeOf, h.workingDirectory]

/-- Nothing that was there goes. -/
theorem none_before (h : InPlace root t done s) {q : Place} (hnone : s.get? q = none) : t.get? q = none := by
  rw [← Option.not_isSome_iff_eq_none]
  intro hsome
  obtain ⟨entry, hentry⟩ := Option.isSome_iff_exists.mp hsome
  cases entry with
  | directory =>
      rw [h.directories q hentry] at hnone
      cases hnone
  | file content =>
      obtain ⟨content', hfile⟩ := h.files q content hentry
      rw [hfile] at hnone
      cases hnone

theorem pathExists_iff (h : InPlace root t done s) (hroot : t.Reaches root) {path : String}
    (hpath : Path.Descends path) : s.pathExists (Path.join root path) = true ↔
      s.get? (t.placeOf root ++ Path.names path) ≠ none := by
  rw [Tree.pathExists_descends h.connected (h.reaches hroot) hpath, h.placeOf_eq]

/-- What can be written at the start, with all the other drafts, can be written at any time. -/
theorem free_of_all (h : InPlace root t done s) {final : Tree} (hall : InPlace root t drafts final)
    (hdone : done ⊆ drafts) (hd : d ∈ drafts)
    (hnew : d.mode = .scaffold → s.get? (t.placeOf root ++ Path.names d.path) = none) :
    s.Free (t.placeOf root) (Path.names d.path) where
  way q hq content hfile := by
    have hfinal := hall.way d hd q hq
    by_cases hway : ∃ e ∈ done, OnWay (t.placeOf root) e.path q
    · obtain ⟨e, he, rfl | hthrough⟩ := hway
      · rw [hall.target e (hdone he), ← h.target e he, hfile] at hfinal
        cases hfinal
      · rw [h.way e he q hthrough] at hfile
        cases hfile
    · rw [h.others q fun e he honWay => hway ⟨e, he, honWay⟩] at hfile
      obtain ⟨content', hfile'⟩ := hall.files q content hfile
      rw [hfile'] at hfinal
      cases hfinal
  target hdirectory := by
    have hfinal := hall.target d hd
    cases hmode : d.mode with
    | scaffold =>
        rw [hnew hmode] at hdirectory
        cases hdirectory
    | overwrite =>
        rw [Draft.outcome_overwrite hmode] at hfinal
        by_cases hway : ∃ e ∈ done, OnWay (t.placeOf root) e.path (t.placeOf root ++ Path.names d.path)
        · obtain ⟨e, he, htarget | hthrough⟩ := hway
          · have hthere := h.target e he
            rw [← htarget, hdirectory, htarget, ← hall.target e (hdone he), ← htarget, hfinal] at hthere
            cases hthere
          · rw [hall.way e (hdone he) _ hthrough] at hfinal
            cases hfinal
        · rw [h.others _ fun e he honWay => hway ⟨e, he, honWay⟩] at hdirectory
          rw [hall.directories _ hdirectory] at hfinal
          cases hfinal

section Compatible

variable (hroot : t.Reaches root) (hcompatible : Compatible drafts) (hdone : done ⊆ drafts) (hd : d ∈ drafts)

include hroot hcompatible hdone hd

/-- A draft that finds its file there is in place already. -/
theorem found (h : InPlace root t done s) (hmode : d.mode = .scaffold)
    (hthere : s.pathExists (Path.join root d.path) = true) : InPlace root t (d :: done) s := by
  have hdescends := hcompatible.descends d hd
  have hget := (h.pathExists_iff hroot hdescends).mp hthere
  have hway := h.connected.through hget
  refine { h with
    target := List.forall_mem_cons.mpr ⟨?_, h.target⟩
    way := List.forall_mem_cons.mpr ⟨hway, h.way⟩
    others := fun q hq => h.others q (List.forall_mem_cons.mp hq).2 }
  by_cases hmem : d ∈ done
  · exact h.target d hmem
  · -- No draft that is in place has its file there, or a directory.
    have hfree : ∀ e ∈ done, ¬OnWay (t.placeOf root) e.path (t.placeOf root ++ Path.names d.path) := by
      intro e he honWay
      obtain ⟨front, -, hwithin, hplace⟩ := (onWay_iff (hcompatible.descends e (hdone he)).names_ne_nil).mp honWay
      rw [List.append_cancel_left_eq] at hplace
      have hpath := hcompatible.level e (hdone he) d hd hmode (hplace ▸ hwithin)
      rw [hcompatible.unique d hd e (hdone he) (by rw [hpath])] at hmem
      exact hmem he
    have hsame := h.others _ hfree
    obtain ⟨entry, hentry⟩ := Option.ne_none_iff_exists'.mp hget
    rw [hentry, ← hsame, hentry, Draft.outcome_some hmode]

/-- A draft is written where nothing is that is not to be overwritten. -/
theorem laid (h : InPlace root t done s) {s' : Tree}
    (hnew : d.mode = .scaffold → s.get? (t.placeOf root ++ Path.names d.path) = none)
    (hwrite : Files.writeFile s (Path.join root d.path) d.content = (s', .ok ())) : InPlace root t (d :: done) s' := by
  have hdescends := hcompatible.descends d hd
  have hreaches := h.reaches hroot
  obtain ⟨hfree, hlaid⟩ := Files.writeFile_laid hreaches hdescends hwrite
  rw [h.placeOf_eq] at hfree hlaid
  have hkeeps := hlaid.keeps hfree
  have hplace : s.get? (t.placeOf root) = some .directory := h.placeOf_eq root ▸ h.connected.get?_root hreaches
  refine {
    workingDirectory := hlaid.workingDirectory.trans h.workingDirectory
    connected := hlaid.connected hfree h.connected hplace hdescends.names_ne_nil
    reaches := fun _ => hlaid.reaches hfree hreaches
    directories := fun q hq => hkeeps.directories q (h.directories q hq)
    files := fun q content hq => ?_
    target := List.forall_mem_cons.mpr ⟨?_, fun e he => ?_⟩
    way := List.forall_mem_cons.mpr
      ⟨fun q hq => hlaid.get?_through hq, fun e he q hq => hkeeps.directories q (h.way e he q hq)⟩
    others := fun q hq => ?_ }
  · by_cases htarget : q = t.placeOf root ++ Path.names d.path
    · exact ⟨d.content, htarget ▸ hlaid.get?_target⟩
    · obtain ⟨content', hfile⟩ := h.files q content hq
      exact ⟨content', hkeeps.files q content' hfile htarget⟩
  · rw [hlaid.get?_target]
    cases hmode : d.mode with
    | overwrite => rw [Draft.outcome_overwrite hmode]
    | scaffold => rw [h.none_before (hnew hmode), Draft.outcome_none]
  · by_cases hnames : Path.names e.path = Path.names d.path
    · rw [hnames, hlaid.get?_target, ← hcompatible.unique e (hdone he) d hd hnames]
      have htarget := h.target e he
      cases hmode : e.mode with
      | overwrite => rw [Draft.outcome_overwrite hmode]
      | scaffold =>
          obtain rfl := hcompatible.unique e (hdone he) d hd hnames
          rw [h.none_before (hnew hmode), Draft.outcome_none]
    · rw [hlaid.get?_other (by rwa [Ne, List.append_cancel_left_eq]), h.target e he]
      -- The file of the other draft is not a directory on the way.
      intro hthrough
      cases hmode : e.mode with
      | overwrite =>
          have htarget := h.target e he
          rw [Draft.outcome_overwrite hmode] at htarget
          exact hfree.way _ hthrough _ htarget
      | scaffold =>
          obtain ⟨front, -, hwithin, hplace⟩ := Tree.mem_through_iff.mp hthrough
          rw [List.append_cancel_left_eq] at hplace
          have hpath := hcompatible.level d hd e (hdone he) hmode
            (hplace ▸ hwithin.trans (List.dropLast_prefix _))
          exact hnames (by rw [hpath])
  · rw [List.forall_mem_cons, OnWay, not_or] at hq
    rw [hlaid.get?_other hq.1.1 hq.1.2, h.others q hq.2]

theorem step (h : InPlace root t done s) {report : Report} {s' : Session} {outcome : WriteOutcome}
    (hwrite : Writer.write ⟨root, false⟩ ⟨s, report⟩ d.path d.text d.mode = (s', .ok outcome)) :
    InPlace root t (d :: done) s'.tree := by
  by_cases hskips : d.mode = .scaffold ∧ s.pathExists (Path.join root d.path) = true
  · rw [Writer.write, if_pos hskips] at hwrite
    cases hwrite
    exact h.found hroot hcompatible hdone hd hskips.1 hskips.2
  · have hwrote := Writer.wrote_write ⟨root, false⟩ ⟨s, report⟩ d.path d.text d.mode
    rw [hwrite] at hwrote
    cases hwrote with
    | skipped hmode hthere => exact absurd ⟨hmode, hthere⟩ hskips
    | wouldWrite hdry => cases hdry
    | written _ tree hfile =>
        refine h.laid hroot hcompatible hdone hd (fun hmode => ?_) hfile
        by_contra hget
        exact hskips ⟨hmode, (h.pathExists_iff hroot (hcompatible.descends d hd)).mpr hget⟩

theorem exists_step (h : InPlace root t done s) {final : Tree} (hall : InPlace root t drafts final) (report : Report) :
    ∃ s' outcome, Writer.write ⟨root, false⟩ ⟨s, report⟩ d.path d.text d.mode = (s', .ok outcome) := by
  by_cases hskips : d.mode = .scaffold ∧ s.pathExists (Path.join root d.path) = true
  · rw [Writer.write, if_pos hskips]
    exact ⟨_, _, rfl⟩
  · have hdescends := hcompatible.descends d hd
    have hfree : s.Free (s.placeOf root) (Path.names d.path) := by
      rw [h.placeOf_eq]
      refine h.free_of_all hall hdone hd fun hmode => ?_
      by_contra hget
      exact hskips ⟨hmode, (h.pathExists_iff hroot hdescends).mpr hget⟩
    obtain ⟨s', hs'⟩ := Files.exists_writeFile (h.reaches hroot) hdescends hfree d.content
    have hwrote := Writer.wrote_write ⟨root, false⟩ ⟨s, report⟩ d.path d.text d.mode
    generalize hresult : Writer.write ⟨root, false⟩ ⟨s, report⟩ d.path d.text d.mode = result at hwrote
    cases hwrote with
    | skipped _ _ => exact ⟨_, _, rfl⟩
    | wouldWrite _ => exact ⟨_, _, rfl⟩
    | written _ _ _ => exact ⟨_, _, rfl⟩
    | failed _ tree f hfile =>
        rw [show Files.writeFile s (Path.join root d.path) d.content = _ from hfile] at hs'
        cases hs'

end Compatible

section Runs

variable (hroot : drafts ≠ [] → t.Reaches root) (hcompatible : Compatible drafts) {rest : List Draft}
  (hrest : rest ⊆ drafts)

include hroot hcompatible hrest

theorem writeAll (h : InPlace root t done s) (hdone : done ⊆ drafts) {report : Report} {s' : Session}
    (hwrite : Writer.writeAll ⟨root, false⟩ ⟨s, report⟩ rest = some s') :
    InPlace root t (rest ++ done) s'.tree := by
  induction rest generalizing s report done with
  | nil =>
      cases hwrite
      exact h
  | cons d rest ih =>
      rw [List.cons_subset] at hrest
      replace hroot := hroot (List.ne_nil_of_mem hrest.1)
      obtain ⟨s₁, outcome, hfirst, hlater⟩ := Writer.writeAll_cons_eq_some_iff.mp hwrite
      have hstep := h.step hroot hcompatible hdone hrest.1 hfirst
      have hlast := ih hrest.2 hstep (List.cons_subset.mpr ⟨hrest.1, hdone⟩) hlater
      exact hlast.congr_mem fun e => by simp [or_left_comm]

theorem exists_writeAll (h : InPlace root t done s) (hdone : done ⊆ drafts) {final : Tree}
    (hall : InPlace root t drafts final) (report : Report) :
    ∃ s', Writer.writeAll ⟨root, false⟩ ⟨s, report⟩ rest = some s' := by
  induction rest generalizing s report done with
  | nil => exact ⟨_, rfl⟩
  | cons d rest ih =>
      rw [List.cons_subset] at hrest
      replace hroot := hroot (List.ne_nil_of_mem hrest.1)
      obtain ⟨s₁, outcome, hfirst⟩ := h.exists_step hroot hcompatible hdone hrest.1 hall report
      have hstep := h.step hroot hcompatible hdone hrest.1 hfirst
      obtain ⟨s', hlater⟩ := ih hrest.2 hstep (List.cons_subset.mpr ⟨hrest.1, hdone⟩) s₁.report
      exact ⟨s', Writer.writeAll_cons_eq_some_iff.mpr ⟨s₁, outcome, hfirst, hlater⟩⟩

/-- Once all drafts are in place, those that are not to be overwritten are skipped. -/
theorem writeAll_again (h : InPlace root t drafts s) {report : Report} {s' : Session}
    (hwrite : Writer.writeAll ⟨root, false⟩ ⟨s, report⟩ rest = some s') :
    s'.report.skipped = report.skipped ++ (rest.filter (·.mode = .scaffold)).map Draft.path ∧
      s'.report.written = report.written ++ (rest.filter (·.mode = .overwrite)).map Draft.path := by
  induction rest generalizing s report with
  | nil =>
      cases hwrite
      simp
  | cons d rest ih =>
      rw [List.cons_subset] at hrest
      replace hroot := hroot (List.ne_nil_of_mem hrest.1)
      obtain ⟨s₁, outcome, hfirst, hlater⟩ := Writer.writeAll_cons_eq_some_iff.mp hwrite
      have hagain : InPlace root t drafts s₁.tree :=
        (h.step hroot hcompatible (List.Subset.refl _) hrest.1 hfirst).congr_mem fun e => by
          rw [List.mem_cons, or_iff_right_of_imp]
          rintro rfl
          exact hrest.1
      obtain ⟨hskipped, hwritten⟩ := ih hrest.2 hagain hlater
      rw [hskipped, hwritten]
      cases hmode : d.mode with
      | scaffold =>
          have hthere : s.pathExists (Path.join root d.path) = true := by
            rw [h.pathExists_iff hroot (hcompatible.descends d hrest.1), h.target d hrest.1]
            rintro ⟨⟩
          rw [Writer.write, if_pos ⟨hmode, hthere⟩] at hfirst
          cases hfirst
          simp [hmode]
      | overwrite =>
          have hwrote := Writer.wrote_write ⟨root, false⟩ ⟨s, report⟩ d.path d.text d.mode
          rw [hfirst] at hwrote
          cases hwrote with
          | skipped hscaffold _ =>
              rw [hmode] at hscaffold
              cases hscaffold
          | wouldWrite hdry => cases hdry
          | written _ _ _ => simp [hmode]

end Runs

end InPlace

end ApiForge
