import ApiForge.Proofs.Dotless
import ApiForge.Proofs.Staleness

/-! What a dry run tells of the run that writes. It leaves the files alone and comes to its end whenever the other does,
and the two report the same unless the run that writes finds a file of its own in its way: what it skips then was not
there before. Artifacts of one model are never in each other's way, but stubs of sources can be, for their paths are
not compared. -/

namespace ApiForge

open Files (Content Entry Place Report Session Tree WriteOutcome Writer)

/-! ### The files are left alone -/

section Untouched

variable (root : String)

theorem Files.Writer.write_dry (s : Session) (path text : String) (mode : WriteMode) :
    (Writer.write ⟨root, true⟩ s path text mode).1.tree = s.tree := by
  have hwrote := Writer.wrote_write ⟨root, true⟩ s path text mode
  generalize Writer.write ⟨root, true⟩ s path text mode = result at hwrote
  cases hwrote with
  | skipped _ _ => rfl
  | wouldWrite _ => rfl
  | failed hdry => cases hdry
  | written hdry => cases hdry

theorem Pipeline.run_dry (pipeline : Pipeline) (p : Project) (m : Model) (s : Session) :
    (pipeline.run p m ⟨root, true⟩ s).1.tree = s.tree :=
  pipeline.run_steps (R := fun s s' => s'.tree = s.tree) (fun _ => rfl) (fun _ _ _ h h' => h'.trans h)
    (fun a _ s => Writer.write_dry root s a.path a.document.text a.mode) s

end Untouched

namespace Workspace

variable (t : Tree) (c : Config) (p : Project)

theorem writeStubs_dry (root : String) (s : Session) (stubs : List (String × String)) :
    (writeStubs ⟨root, true⟩ s stubs).1.tree = s.tree := by
  induction stubs generalizing s with
  | nil => rfl
  | cons stub stubs ih =>
      obtain ⟨path, text⟩ := stub
      have hwrite := Writer.write_dry root s path text .scaffold
      unfold writeStubs
      split
      · rename_i hresult
        rw [hresult] at hwrite
        exact hwrite
      · rename_i hresult
        rw [hresult] at hwrite
        exact (ih _).trans hwrite

theorem createSources_dry : (createSources t c p true).1 = t := by
  rw [createSources]
  split
  · rfl
  · exact writeStubs_dry p.root { tree := t } (sourceStubs c)

theorem generate_dry (o : GenerateOptions) (hdry : o.dryRun = true) : (generate t c p o).1 = t := by
  unfold generate
  split
  · rfl
  · rw [hdry]
    exact Pipeline.run_dry p.root _ p _ { tree := t }

theorem sync_dry : (sync t c p true).1 = t := by
  have hgenerate := generate_dry t c p { dryRun := true } rfl
  rw [sync]
  split
  · rename_i hresult
    rw [hresult] at hgenerate
    exact hgenerate
  · rename_i t₁ report hresult
    rw [hresult] at hgenerate
    have hprune : (pruneStale t₁ p.root report defaultEmitters true).1 = t₁ := by
      rw [pruneStale]
      split <;> rfl
    exact hprune.trans hgenerate

end Workspace

/-! ### The two runs side by side -/

/-- What is reported as what would be done is what was done. -/
structure Files.Report.Foretells (dry real : Report) : Prop where
  written : dry.written = []
  wouldWrite : dry.wouldWrite = real.written
  skipped : dry.skipped = real.skipped

theorem Files.Report.Foretells.produced_eq {dry real : Report} (h : dry.Foretells real) (hreal : real.wouldWrite = []) :
    dry.produced = real.produced := by
  rw [Report.produced, Report.produced, h.written, h.wouldWrite, h.skipped, hreal, List.nil_append, List.append_nil]

/-- A run that writes and a dry run from the same tree have come to the same draft. -/
structure Mirrored (root : String) (t : Tree) (real dry : Session) : Prop where
  tree : dry.tree = t
  written : dry.report.written = []
  wouldWrite : real.report.wouldWrite = []
  there : ∀ path, t.pathExists path = true → real.tree.pathExists path = true
  recorded : real.report.written ⊆ dry.report.wouldWrite
  skipped : ∀ path ∈ dry.report.skipped, t.pathExists (Path.join root path) = true
  alike : (∀ path ∈ real.report.skipped, t.pathExists (Path.join root path) = true) →
    dry.report.wouldWrite = real.report.written ∧ dry.report.skipped = real.report.skipped

namespace Mirrored

variable {root : String} {t : Tree} {real real' dry : Session}

theorem start (root : String) (t : Tree) : Mirrored root t { tree := t } { tree := t } where
  tree := rfl
  written := rfl
  wouldWrite := rfl
  there _ hpath := hpath
  recorded _ hpath := hpath
  skipped _ hpath := absurd hpath List.not_mem_nil
  alike _ := ⟨rfl, rfl⟩

/-- The reports are the same exactly when all that was skipped was there before. -/
theorem foretells_iff (h : Mirrored root t real dry) : dry.report.Foretells real.report ↔
    ∀ path ∈ real.report.skipped, t.pathExists (Path.join root path) = true := by
  constructor
  · intro hforetells path hpath
    rw [← hforetells.skipped] at hpath
    exact h.skipped path hpath
  · intro hthere
    obtain ⟨hwritten, hskipped⟩ := h.alike hthere
    exact ⟨h.written, hwritten, hskipped⟩

/-- What a dry run does with a draft that is written or skipped. -/
inductive Step (root : String) (t : Tree) (real real' dry dry' : Session) (d : Draft) : Prop where
  | skipped (mode : d.mode = .scaffold) (before : t.pathExists (Path.join root d.path) = true)
      (isReal : real' = { real with report := { real.report with skipped := real.report.skipped ++ [d.path] } })
      (isDry : dry' = { dry with report := { dry.report with skipped := dry.report.skipped ++ [d.path] } })
  | hindered (mode : d.mode = .scaffold) (before : t.pathExists (Path.join root d.path) = false)
      (now : real.tree.pathExists (Path.join root d.path) = true)
      (isReal : real' = { real with report := { real.report with skipped := real.report.skipped ++ [d.path] } })
      (isDry : dry' = { dry with report := { dry.report with wouldWrite := dry.report.wouldWrite ++ [d.path] } })
  | written (tree : Tree) (free : d.mode = .scaffold → real.tree.pathExists (Path.join root d.path) = false)
      (write : Files.writeFile real.tree (Path.join root d.path) d.content = (tree, .ok ()))
      (isReal : real' = ⟨tree, { real.report with written := real.report.written ++ [d.path] }⟩)
      (isDry : dry' = { dry with report := { dry.report with wouldWrite := dry.report.wouldWrite ++ [d.path] } })

theorem exists_step (h : Mirrored root t real dry) {d : Draft} {outcome : WriteOutcome}
    (hwrite : Writer.write ⟨root, false⟩ real d.path d.text d.mode = (real', .ok outcome)) :
    ∃ dry' outcome', Writer.write ⟨root, true⟩ dry d.path d.text d.mode = (dry', .ok outcome') ∧
      Step root t real real' dry dry' d := by
  have hdry : Writer.write ⟨root, true⟩ dry d.path d.text d.mode =
      if d.mode = .scaffold ∧ t.pathExists (Path.join root d.path) = true then
        ({ dry with report := { dry.report with skipped := dry.report.skipped ++ [d.path] } }, .ok .skipped)
      else ({ dry with report := { dry.report with wouldWrite := dry.report.wouldWrite ++ [d.path] } },
        .ok .wouldWrite) := by
    rw [Writer.write, h.tree]
    rfl
  have hnow := h.there (Path.join root d.path)
  rw [hdry]
  by_cases hskips : d.mode = .scaffold ∧ t.pathExists (Path.join root d.path) = true
  · rw [if_pos hskips]
    rw [Writer.write, if_pos ⟨hskips.1, hnow hskips.2⟩] at hwrite
    cases hwrite
    exact ⟨_, _, rfl, .skipped hskips.1 hskips.2 rfl rfl⟩
  · rw [if_neg hskips]
    refine ⟨_, _, rfl, ?_⟩
    by_cases hfound : d.mode = .scaffold ∧ real.tree.pathExists (Path.join root d.path) = true
    · rw [Writer.write, if_pos hfound] at hwrite
      cases hwrite
      have hbefore : t.pathExists (Path.join root d.path) = false :=
        Bool.eq_false_iff.mpr fun hbefore => hskips ⟨hfound.1, hbefore⟩
      exact .hindered hfound.1 hbefore hfound.2 rfl rfl
    · have hfree (hmode : d.mode = .scaffold) : real.tree.pathExists (Path.join root d.path) = false :=
        Bool.eq_false_iff.mpr fun hnow => hfound ⟨hmode, hnow⟩
      have hwrote := Writer.wrote_write ⟨root, false⟩ real d.path d.text d.mode
      rw [hwrite] at hwrote
      cases hwrote with
      | skipped hmode hthere => exact absurd ⟨hmode, hthere⟩ hfound
      | wouldWrite hdry => cases hdry
      | written _ tree hfile => exact .written tree hfree hfile rfl rfl

/-- The two stay side by side. -/
theorem step {dry' : Session} (h : Mirrored root t real dry) {d : Draft} (hstep : Step root t real real' dry dry' d) :
    Mirrored root t real' dry' := by
  cases hstep with
  | skipped _ hbefore hreal hdry =>
      subst hreal hdry
      refine { h with skipped := fun path hpath => ?_, alike := fun hthere => ?_ }
      · rcases List.mem_append.mp hpath with hold | hnew
        · exact h.skipped path hold
        · rw [List.mem_singleton.mp hnew]
          exact hbefore
      · obtain ⟨hwritten, hskipped⟩ := h.alike fun path hpath => hthere path (List.mem_append_left _ hpath)
        exact ⟨hwritten, by rw [hskipped]⟩
  | hindered _ hbefore _ hreal hdry =>
      subst hreal hdry
      refine { h with recorded := fun path hpath => List.mem_append_left _ (h.recorded hpath), alike := fun hthere => ?_ }
      have hpath := hthere d.path (List.mem_append_right _ (List.mem_singleton_self _))
      rw [hbefore] at hpath
      cases hpath
  | written tree _ hfile hreal hdry =>
      subst hreal hdry
      obtain ⟨hkeeps, hput⟩ := Files.writeFile_ok hfile
      refine { h with
        there := fun path hpath => hkeeps.pathExists (by rintro q rfl; exact ⟨_, hput⟩) (h.there path hpath)
        recorded := fun path hpath => ?_
        alike := fun hthere => ?_ }
      · rcases List.mem_append.mp hpath with hold | hnew
        · exact List.mem_append_left _ (h.recorded hold)
        · exact List.mem_append_right _ hnew
      · obtain ⟨hwritten, hskipped⟩ := h.alike hthere
        exact ⟨by rw [hwritten], hskipped⟩

/-- A dry run goes as far as the run that writes. -/
theorem exists_writeAll (h : Mirrored root t real dry) {drafts : List Draft}
    (hwrite : Writer.writeAll ⟨root, false⟩ real drafts = some real') :
    ∃ dry', Writer.writeAll ⟨root, true⟩ dry drafts = some dry' ∧ Mirrored root t real' dry' := by
  induction drafts generalizing real dry with
  | nil =>
      cases hwrite
      exact ⟨dry, rfl, h⟩
  | cons d drafts ih =>
      obtain ⟨real₁, outcome, hreal, hlater⟩ := Writer.writeAll_cons_eq_some_iff.mp hwrite
      obtain ⟨dry₁, outcome', hdry, hstep⟩ := h.exists_step hreal
      obtain ⟨dry', hlater', hmirrored⟩ := ih (h.step hstep) hlater
      exact ⟨dry', Writer.writeAll_cons_eq_some_iff.mpr ⟨dry₁, outcome', hdry, hlater'⟩, hmirrored⟩

end Mirrored

/-! ### Drafts that are not in each other's way -/

/-- No path of a file that is not to be overwritten is on the way of another path. -/
def Level (drafts : List Draft) : Prop :=
  ∀ d ∈ drafts, ∀ e ∈ drafts, e.mode = .scaffold → Path.names e.path <+: Path.names d.path → e.path = d.path

/-- The two runs where the drafts are not in each other's way. -/
structure Tracked (root : String) (t : Tree) (drafts : List Draft) (real dry : Session) : Prop where
  mirrored : Mirrored root t real dry
  grown : Grown root t real
  among : ∀ path ∈ real.report.written, ∃ d ∈ drafts, d.path = path
  settled : dry.report.wouldWrite.Nodup → ∀ path ∈ real.report.skipped, t.pathExists (Path.join root path) = true
  fresh : (∀ d ∈ drafts, d.mode = .scaffold) → real.report.written.Nodup

namespace Tracked

variable {root : String} {t : Tree} {drafts : List Draft} {real real' dry : Session}

theorem start (hconnected : t.Connected) (hroot : t.Reaches root) (drafts : List Draft) :
    Tracked root t drafts { tree := t } { tree := t } where
  mirrored := Mirrored.start root t
  grown := Grown.start hconnected hroot
  among _ hpath := absurd hpath List.not_mem_nil
  settled _ _ hpath := absurd hpath List.not_mem_nil
  fresh _ := List.nodup_nil

section Drafts

variable (hdescends : ∀ d ∈ drafts, Path.Descends d.path)

include hdescends

/-- What hinders a draft is a file of its own path. -/
theorem mem_written (h : Tracked root t drafts real dry) (hconnected : t.Connected) (hroot : t.Reaches root)
    (hlevel : Level drafts) {d : Draft} (hd : d ∈ drafts) (hmode : d.mode = .scaffold)
    (hbefore : t.pathExists (Path.join root d.path) = false)
    (hnow : real.tree.pathExists (Path.join root d.path) = true) : d.path ∈ real.report.written := by
  rw [h.grown.pathExists_iff (hdescends d hd)] at hnow
  rcases h.grown.others (t.placeOf root ++ Path.names d.path) with hsame | ⟨path, hpath, hway⟩
  · rw [hsame, ← Tree.pathExists_descends hconnected hroot (hdescends d hd), hbefore] at hnow
    cases hnow
  · obtain ⟨e, he, rfl⟩ := h.among path hpath
    obtain ⟨front, -, hwithin, hplace⟩ := (onWay_iff (hdescends e he).names_ne_nil).mp hway
    rw [List.append_cancel_left_eq] at hplace
    rw [hlevel e he d hd hmode (hplace ▸ hwithin)]
    exact hpath

theorem step (h : Tracked root t drafts real dry) (hconnected : t.Connected) (hroot : t.Reaches root)
    (hlevel : Level drafts) {dry' : Session} {d : Draft} (hd : d ∈ drafts)
    (hstep : Mirrored.Step root t real real' dry dry' d) : Tracked root t drafts real' dry' := by
  have hmirrored := h.mirrored.step hstep
  cases hstep with
  | skipped _ hbefore hreal hdry =>
      subst hreal hdry
      refine ⟨hmirrored, h.grown.congr rfl, h.among, fun hnodup path hpath => ?_, h.fresh⟩
      rcases List.mem_append.mp hpath with hold | hnew
      · exact h.settled hnodup path hold
      · rw [List.mem_singleton.mp hnew]
        exact hbefore
  | hindered hmode hbefore hnow hreal hdry =>
      subst hreal hdry
      refine ⟨hmirrored, h.grown.congr rfl, h.among, fun hnodup path hpath => ?_, h.fresh⟩
      have hwritten := h.mem_written hdescends hconnected hroot hlevel hd hmode hbefore hnow
      exact absurd (h.mirrored.recorded hwritten) (List.nodup_append.mp hnodup |>.2.2 _ · _
        (List.mem_singleton_self _) rfl)
  | written tree hfree hfile hreal hdry =>
      subst hreal hdry
      refine ⟨hmirrored, h.grown.laid (hdescends d hd) hfile, fun path hpath => ?_, fun hnodup => ?_, fun hall => ?_⟩
      · rcases List.mem_append.mp hpath with hold | hnew
        · exact h.among path hold
        · exact ⟨d, hd, (List.mem_singleton.mp hnew).symm⟩
      · exact h.settled (List.nodup_append.mp hnodup).1
      · -- A path on record exists, and the one that is new did not.
        have hnew : d.path ∉ real.report.written := by
          intro hmem
          have hthere := (h.grown.pathExists_iff (hdescends d hd)).mpr (h.grown.written _ hmem)
          rw [hfree (hall d hd)] at hthere
          cases hthere
        exact List.nodup_append.mpr ⟨h.fresh hall, List.nodup_singleton _,
          fun path hpath path' hpath' heq => hnew (List.mem_singleton.mp hpath' ▸ heq ▸ hpath)⟩

theorem exists_writeAll (h : Tracked root t drafts real dry) (hconnected : t.Connected) (hroot : t.Reaches root)
    (hlevel : Level drafts) {rest : List Draft} (hrest : ∀ d ∈ rest, d ∈ drafts)
    (hwrite : Writer.writeAll ⟨root, false⟩ real rest = some real') :
    ∃ dry', Writer.writeAll ⟨root, true⟩ dry rest = some dry' ∧ Tracked root t drafts real' dry' := by
  induction rest generalizing real dry with
  | nil =>
      cases hwrite
      exact ⟨dry, rfl, h⟩
  | cons d rest ih =>
      rw [List.forall_mem_cons] at hrest
      obtain ⟨real₁, outcome, hreal, hlater⟩ := Writer.writeAll_cons_eq_some_iff.mp hwrite
      obtain ⟨dry₁, outcome', hdry, hstep⟩ := h.mirrored.exists_step hreal
      obtain ⟨dry', hlater', htracked⟩ := ih (h.step hdescends hconnected hroot hlevel hrest.1 hstep) hrest.2 hlater
      exact ⟨dry', Writer.writeAll_cons_eq_some_iff.mpr ⟨dry₁, outcome', hdry, hlater'⟩, htracked⟩

end Drafts

/-- Where all drafts are stubs, the reports are the same exactly when no path would be written twice. -/
theorem foretells_iff (h : Tracked root t drafts real dry) (hstubs : ∀ d ∈ drafts, d.mode = .scaffold) :
    dry.report.Foretells real.report ↔ dry.report.wouldWrite.Nodup := by
  constructor
  · intro hforetells
    rw [hforetells.wouldWrite]
    exact h.fresh hstubs
  · intro hnodup
    exact h.mirrored.foretells_iff.mpr (h.settled hnodup)

theorem foretells (h : Tracked root t drafts real dry) (hnodup : dry.report.wouldWrite.Nodup) :
    dry.report.Foretells real.report :=
  h.mirrored.foretells_iff.mpr (h.settled hnodup)

end Tracked

/-- A dry run would write paths of drafts only, each at most as often as it is one. -/
theorem wouldWrite_sublist {root : String} {s s' : Session} {drafts : List Draft}
    (h : Writer.writeAll ⟨root, true⟩ s drafts = some s') :
    ∃ paths, s'.report.wouldWrite = s.report.wouldWrite ++ paths ∧ paths.Sublist (drafts.map Draft.path) := by
  induction drafts generalizing s with
  | nil =>
      cases h
      exact ⟨[], (List.append_nil _).symm, List.Sublist.refl _⟩
  | cons d drafts ih =>
      obtain ⟨s₁, outcome, hwrite, hlater⟩ := Writer.writeAll_cons_eq_some_iff.mp h
      obtain ⟨paths, hpaths, hsublist⟩ := ih hlater
      have hwrote := Writer.wrote_write ⟨root, true⟩ s d.path d.text d.mode
      rw [hwrite] at hwrote
      cases hwrote with
      | skipped _ _ => exact ⟨paths, hpaths, hsublist.cons _⟩
      | wouldWrite _ =>
          refine ⟨d.path :: paths, ?_, hsublist.cons_cons _⟩
          rw [hpaths, List.append_assoc, List.singleton_append]
      | written hdry => cases hdry

end ApiForge
