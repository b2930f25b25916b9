import ApiForge.Proofs.Handovers

/-! Calls of a writer one after the other, whatever becomes of each. What a place holds in the end depends on the writes
that went to it alone: the last overwrite counts, then what was there at first, then the first scaffold. This takes a
root whose files are found by their paths from it, so that a scaffold is written where no file is. -/

namespace ApiForge

open Files (Content Place Report Session Tree WriteOutcome Writer)

/-! ### Roots that show their files -/

/-- Without going back up, segments only lead further down. -/
theorem Path.exists_names_of_noParent {segments : List String} (h : ".." ∉ segments) (place : Place) :
    ∃ names, segments.filterMap Component.ofSegment? = names.map .name ∧
      Path.walk place segments = place ++ names := by
  induction segments generalizing place with
  | nil => exact ⟨[], rfl, (List.append_nil place).symm⟩
  | cons s segments ih =>
      rw [List.mem_cons, not_or] at h
      rw [Path.walk]
      cases hs : Component.ofSegment? s with
      | none =>
          rw [List.filterMap_cons_none hs]
          exact ih h.2 place
      | some component =>
          rcases ofSegment?_cases hs with rfl | rfl
          · rw [Component.ofSegment?] at hs
            split_ifs at hs with _ hparent
            · exact absurd hparent.symm h.1
            · cases hs
          · obtain ⟨names, hnames, hwalk⟩ := ih h.2 (place ++ [s])
            refine ⟨s :: names, ?_, ?_⟩
            · rw [List.filterMap_cons_some hs, hnames, List.map_cons]
            · rw [← List.append_cons place s names] at hwalk
              exact hwalk

namespace Files.Tree

variable {t : Tree} {root : String}

/-- If there is a file below the root, then so are the directories that the path of the root goes through. -/
def Straight (t : Tree) (root : String) : Prop :=
  ∀ names content, names ≠ [] → t.get? (t.placeOf root ++ names) = some (.file content) → t.Reaches root

/-- A path that never goes back up goes through nothing but what its place is below. -/
theorem straight_of_noParent (hconnected : t.Connected) (h : ".." ∉ Path.segments root) : t.Straight root := by
  intro names content hne hfile
  obtain ⟨dirs, hdirs, hplace⟩ := Path.exists_names_of_noParent h (t.origin root)
  have hroot : t.placeOf root = t.origin root ++ dirs := hplace
  refine (follow_names_iff hdirs).mpr ⟨hroot, fun p hp => ?_⟩
  obtain ⟨front, -, ⟨rest, hrest⟩, rfl⟩ := mem_through_iff.mp hp
  refine hconnected.above (List.append_ne_nil_of_right_ne_nil rest hne) ?_
  rw [← List.append_assoc, List.append_assoc _ front, hrest, ← hroot, hfile]
  rintro ⟨⟩

end Files.Tree

namespace Files.Writer

variable {w : Writer} {t : Tree}

/-- The files below the root are found by the paths that lead down to them. -/
def Shows (w : Writer) (t : Tree) : Prop :=
  ∀ path, Path.Descends path → t.fileAt? (w.placeOf t path) ≠ none → w.Finds t path

theorem shows_of_straight (hconnected : t.Connected) (h : t.Straight w.root) : w.Shows t := by
  intro path hpath hthere
  obtain ⟨content, hfile⟩ := Option.ne_none_iff_exists'.mp hthere
  rw [Tree.fileAt?_eq_some, w.placeOf_onlyNames t hpath.onlyNames] at hfile
  refine ⟨content, ?_⟩
  rw [w.placeOf_onlyNames t hpath.onlyNames]
  refine (Tree.locate_descends (h _ _ hpath.names_ne_nil hfile) hpath).mpr ⟨rfl, hconnected.through ?_, hfile⟩
  rw [hfile]
  rintro ⟨⟩

end Files.Writer

/-! ### One call -/

/-- A write that fails edits nothing. -/
theorem Files.writeFile_error_edits {t t' : Tree} {path : String} {content : Content} {f : Failure}
    (h : writeFile t path content = (t', .error f)) : t.Edits (fun _ => False) t' := by
  rw [tree_of_writeFile_error h]
  exact t.makeFrom_edits _ _ _

/-- A call of a writer with what it gave. -/
abbrev Call := Draft × Except Failure WriteOutcome

/-- The drafts of the calls with this outcome, in the order of the calls. -/
def withOutcome (outcome : WriteOutcome) (log : List Call) : List Draft :=
  (log.filter (·.2 = .ok outcome)).map Prod.fst

theorem withOutcome_append (outcome : WriteOutcome) (front back : List Call) :
    withOutcome outcome (front ++ back) = withOutcome outcome front ++ withOutcome outcome back := by
  rw [withOutcome, List.filter_append, List.map_append, withOutcome, withOutcome]

/-- The report, continued with the calls. -/
def Files.Report.after (r : Report) (log : List Call) : Report where
  written := r.written ++ (withOutcome .written log).map Draft.path
  skipped := r.skipped ++ (withOutcome .skipped log).map Draft.path
  wouldWrite := r.wouldWrite ++ (withOutcome .wouldWrite log).map Draft.path

theorem Files.Report.after_append (r : Report) (front back : List Call) :
    r.after (front ++ back) = (r.after front).after back := by
  simp only [after, withOutcome_append, List.map_append, List.append_assoc]

namespace Files.Writer

variable (w : Writer) (s : Session) (d : Draft)

/-- Writes one draft. -/
def call : Session × Except Failure WriteOutcome :=
  w.write s d.path d.text d.mode

theorem wrote_call : w.Wrote s d.path d.content d.mode (w.call s d) :=
  w.wrote_write s d.path d.text d.mode

theorem placeOf_call (path : String) : w.placeOf (w.call s d).1.tree path = w.placeOf s.tree path :=
  (w.write_edits s d.path d.text d.mode).placeOf_eq _

theorem report_call : (w.call s d).1.report = s.report.after [(d, (w.call s d).2)] := by
  have hwrote := w.wrote_call s d
  generalize w.call s d = result at hwrote ⊢
  cases hwrote <;> simp [Report.after, withOutcome]

/-- A file is written to its place, and no other file is changed. -/
theorem fileAt?_call (q : Place) : (w.call s d).1.tree.fileAt? q =
    if (w.call s d).2 = .ok .written ∧ w.placeOf s.tree d.path = q then some d.content else s.tree.fileAt? q := by
  have hwrote := w.wrote_call s d
  have hedits := w.write_edits s d.path d.text d.mode
  rw [← call] at hedits
  generalize w.call s d = result at hwrote hedits ⊢
  cases hwrote with
  | skipped _ _ => rw [if_neg (by rintro ⟨⟨⟩, -⟩)]
  | wouldWrite _ => rw [if_neg (by rintro ⟨⟨⟩, -⟩)]
  | failed _ tree f hfile =>
      rw [if_neg (by rintro ⟨⟨⟩, -⟩)]
      exact (writeFile_error_edits hfile).files q id
  | written _ tree hfile =>
      by_cases hq : w.placeOf s.tree d.path = q
      · rw [if_pos ⟨rfl, hq⟩, Tree.fileAt?_eq_some, ← hq]
        exact (writeFile_ok hfile).2
      · rw [if_neg fun h => hq h.2]
        exact hedits.files q fun h => hq h.symm

theorem keeps_call : s.tree.Keeps (· = w.placeOf s.tree d.path) (w.call s d).1.tree := by
  have hwrote := w.wrote_call s d
  have hrefl : s.tree.Keeps (· = w.placeOf s.tree d.path) s.tree := (Tree.KeepsAll.refl s.tree).mono fun _ => False.elim
  generalize w.call s d = result at hwrote ⊢
  cases hwrote with
  | skipped _ _ => exact hrefl
  | wouldWrite _ => exact hrefl
  | failed _ tree f hfile => exact (writeFile_error hfile).mono fun _ => False.elim
  | written _ tree hfile => exact (writeFile_ok hfile).1

variable {w s d}

theorem locate_call (h : (w.call s d).2 = .ok .written) :
    (w.call s d).1.tree.locate (Path.join w.root d.path) = .ok (w.placeOf s.tree d.path, .file d.content) := by
  have hwrote := w.wrote_call s d
  generalize w.call s d = result at h hwrote ⊢
  cases hwrote with
  | skipped _ _ => cases h
  | wouldWrite _ => cases h
  | failed _ tree f hfile => cases h
  | written _ tree hfile => exact locate_of_writeFile hfile

/-- A scaffold is not written where its path finds something. -/
theorem pathExists_of_written (hmode : d.mode = .scaffold) (h : (w.call s d).2 = .ok .written) :
    s.tree.pathExists (Path.join w.root d.path) = false := by
  rw [call, write] at h
  split at h
  · cases h
  · rename_i hskip
    simpa [hmode] using hskip

/-- Whatever was written went to a path that leads down to a file. -/
theorem descends_of_written (hnames : Path.OnlyNames d.path) (h : (w.call s d).2 = .ok .written) :
    Path.Descends d.path := by
  obtain ⟨front, name, -, hsegments, hname, -⟩ := Tree.locate_file_iff.mp (locate_call h)
  rw [Path.segments_join _ hnames.relative] at hsegments
  rcases List.eq_nil_or_concat' (Path.segments d.path) with hnil | ⟨front', last, hlast⟩
  · simp [Path.segments] at hnil
  · rw [hlast, ← List.append_assoc] at hsegments
    refine ⟨hnames, front', last, hlast, ?_⟩
    rw [(List.append_singleton_inj.mp hsegments).2]
    exact hname

/-- A call leaves files where they are found. -/
theorem Finds.call {path : String} (h : w.Finds s.tree path) (d : Draft) : w.Finds (w.call s d).1.tree path := by
  obtain ⟨content, hlocate⟩ := h
  have hthere : ∃ content', (w.call s d).1.tree.fileAt? (w.placeOf s.tree path) = some content' := by
    rw [fileAt?_call]
    split
    · exact ⟨_, rfl⟩
    · exact ⟨content, Tree.fileAt?_eq_some.mpr (Tree.locate_file hlocate).2⟩
  obtain ⟨content', hthere⟩ := hthere
  refine ⟨content', ?_⟩
  rw [placeOf_call]
  exact (w.keeps_call s d).locate_file hlocate (Tree.fileAt?_eq_some.mp hthere)

/-- Files below the root go on being found, those that come up too. -/
theorem Shows.call (h : w.Shows s.tree) {d : Draft} (hnames : Path.OnlyNames d.path) :
    w.Shows (w.call s d).1.tree := by
  intro path hpath hthere
  by_cases hold : s.tree.fileAt? (w.placeOf s.tree path) = none
  · rw [placeOf_call, fileAt?_call] at hthere
    split at hthere
    · rename_i hnew
      -- The file has come up at the end of the path of the draft, which has the same names.
      have hsame : Path.names path = Path.names d.path := by
        have hplaces := hnew.2
        rw [w.placeOf_onlyNames _ hnames, w.placeOf_onlyNames _ hpath.onlyNames] at hplaces
        exact (List.append_cancel_left hplaces).symm
      refine ⟨d.content, ?_⟩
      rw [placeOf_call, ← hnew.2]
      obtain ⟨front, dirs, name, hsegments, hname, -, -⟩ := hpath.exists_front
      refine Tree.locate_file_congr (locate_call hnew.1) ?_ ?_ ⟨Path.joint w.root ++ front, name, ?_, hname⟩
      · rw [Path.isAbsolute_join _ hpath.relative, Path.isAbsolute_join _ hnames.relative]
      · rw [Path.segments_join _ hpath.relative, Path.segments_join _ hnames.relative, List.filterMap_append,
          List.filterMap_append, hpath.filterMap_segments, hnames.filterMap_segments, hsame]
      · rw [Path.segments_join _ hpath.relative, hsegments, List.append_assoc]
    · exact absurd hold hthere
  · exact (h path hpath hold).call d

/-- A scaffold is written where no file is. -/
theorem fileAt?_of_scaffolded (h : w.Shows s.tree) (hnames : Path.OnlyNames d.path) (hmode : d.mode = .scaffold)
    (hwritten : (w.call s d).2 = .ok .written) : s.tree.fileAt? (w.placeOf s.tree d.path) = none := by
  by_contra hthere
  obtain ⟨content, hlocate⟩ := h d.path (descends_of_written hnames hwritten) hthere
  have hmissing := pathExists_of_written hmode hwritten
  rw [Tree.pathExists, hlocate] at hmissing
  cases hmissing

/-- What is at a place when a scaffold comes stays there. -/
theorem fileAt?_scaffold (h : w.Shows s.tree) (hnames : Path.OnlyNames d.path) (hmode : d.mode = .scaffold)
    {q : Place} (hthere : s.tree.fileAt? q ≠ none) : (w.call s d).1.tree.fileAt? q = s.tree.fileAt? q := by
  rw [fileAt?_call, if_neg]
  rintro ⟨hwritten, rfl⟩
  exact hthere (fileAt?_of_scaffolded h hnames hmode hwritten)

theorem call_error {f : Failure} (h : (w.call s d).2 = .error f) :
    (w.call s d).1.report = s.report ∧ ∀ q, (w.call s d).1.tree.fileAt? q = s.tree.fileAt? q := by
  refine ⟨?_, fun q => ?_⟩
  · rw [report_call, h]
    simp [Report.after, withOutcome]
  · rw [fileAt?_call, if_neg]
    rw [h]
    rintro ⟨⟨⟩, -⟩

theorem call_dry (hdry : w.dryRun = true) (s : Session) (d : Draft) :
    (w.call s d).1.tree = s.tree ∧ (w.call s d).2 ≠ .ok .written := by
  have hwrote := w.wrote_call s d
  generalize w.call s d = result at hwrote ⊢
  cases hwrote with
  | skipped _ _ => exact ⟨rfl, by rintro ⟨⟩⟩
  | wouldWrite _ => exact ⟨rfl, by rintro ⟨⟩⟩
  | failed hnot _ _ _ => rw [hdry] at hnot; cases hnot
  | written hnot _ _ => rw [hdry] at hnot; cases hnot

end Files.Writer

/-! ### What writes come to -/

/-- The drafts of this mode that are for a place. -/
def Files.Writer.draftsFor (w : Writer) (t : Tree) (mode : WriteMode) (q : Place) (drafts : List Draft) : List Draft :=
  drafts.filter fun d => d.mode = mode ∧ w.placeOf t d.path = q

/-- What a place holds after the drafts have been written: the last overwrite for it; if there is none, what it held at
first; if this was nothing, the first scaffold for it. -/
def Files.Writer.outcomeAt (w : Writer) (t : Tree) (written : List Draft) (q : Place) : Option Content :=
  ((w.draftsFor t .overwrite q written).getLast?.map Draft.content).or <|
    (t.fileAt? q).or ((w.draftsFor t .scaffold q written).head?.map Draft.content)

namespace Files.Writer

variable {w : Writer} {t : Tree} {written : List Draft} {d : Draft} {q : Place}

theorem draftsFor_concat (w : Writer) (t : Tree) (mode : WriteMode) (q : Place) (written : List Draft) (d : Draft) :
    w.draftsFor t mode q (written ++ [d]) =
      w.draftsFor t mode q written ++ if d.mode = mode ∧ w.placeOf t d.path = q then [d] else [] := by
  rw [draftsFor, List.filter_append, List.filter_singleton]
  simp [draftsFor]

theorem outcomeAt_elsewhere (h : w.placeOf t d.path ≠ q) :
    w.outcomeAt t (written ++ [d]) q = w.outcomeAt t written q := by
  simp only [outcomeAt, draftsFor_concat, h, and_false, if_false, List.append_nil]

theorem outcomeAt_overwrite (hmode : d.mode = .overwrite) :
    w.outcomeAt t (written ++ [d]) (w.placeOf t d.path) = some d.content := by
  rw [outcomeAt, draftsFor_concat, if_pos ⟨hmode, rfl⟩, List.getLast?_concat]
  rfl

/-- A scaffold counts where nothing was before. -/
theorem outcomeAt_scaffold (hmode : d.mode = .scaffold) (h : w.outcomeAt t written (w.placeOf t d.path) = none) :
    w.outcomeAt t (written ++ [d]) (w.placeOf t d.path) = some d.content := by
  rw [outcomeAt, Option.or_eq_none_iff, Option.or_eq_none_iff, Option.map_eq_none_iff, Option.map_eq_none_iff] at h
  obtain ⟨hoverwrites, hfirst, hscaffolds⟩ := h
  have hnot : ¬(d.mode = .overwrite ∧ w.placeOf t d.path = w.placeOf t d.path) := by simp [hmode]
  rw [outcomeAt, draftsFor_concat, draftsFor_concat, if_neg hnot, List.append_nil, hoverwrites, hfirst,
    if_pos ⟨hmode, rfl⟩, List.head?_eq_none_iff.mp hscaffolds]
  rfl

end Files.Writer

/-! ### All calls -/

/-- Calls a writer with one draft after the other, whatever becomes of each. -/
def Files.Writer.attempt (w : Writer) (s : Session) : List Draft → Session × List Call
  | [] => (s, [])
  | d :: ds =>
    ((w.attempt (w.call s d).1 ds).1, (d, (w.call s d).2) :: (w.attempt (w.call s d).1 ds).2)

namespace Files.Writer

variable {w : Writer} {s : Session} {calls : List Draft}

theorem attempt_concat (w : Writer) (s : Session) (front : List Draft) (d : Draft) :
    w.attempt s (front ++ [d]) = ((w.call (w.attempt s front).1 d).1,
      (w.attempt s front).2 ++ [(d, (w.call (w.attempt s front).1 d).2)]) := by
  induction front generalizing s with
  | nil => rfl
  | cons e front ih => rw [List.cons_append, attempt, attempt, ih, List.cons_append]

theorem attempt_drafts (w : Writer) (s : Session) (calls : List Draft) :
    (w.attempt s calls).2.map Prod.fst = calls := by
  induction calls generalizing s with
  | nil => rfl
  | cons d calls ih => rw [attempt, List.map_cons, ih]

theorem placeOf_attempt (w : Writer) (s : Session) (calls : List Draft) (path : String) :
    w.placeOf (w.attempt s calls).1.tree path = w.placeOf s.tree path := by
  induction calls generalizing s with
  | nil => rfl
  | cons d calls ih => rw [attempt, ih, placeOf_call]

theorem attempt_report (w : Writer) (s : Session) (calls : List Draft) :
    (w.attempt s calls).1.report = s.report.after (w.attempt s calls).2 := by
  induction calls using List.reverseRecOn with
  | nil => simp [attempt, Report.after, withOutcome]
  | append_singleton front d ih => rw [attempt_concat, report_call, ih, Report.after_append]

theorem attempt_dry (hdry : w.dryRun = true) (s : Session) (calls : List Draft) :
    (w.attempt s calls).1.tree = s.tree ∧ withOutcome .written (w.attempt s calls).2 = [] := by
  induction calls using List.reverseRecOn with
  | nil => exact ⟨rfl, rfl⟩
  | append_singleton front d ih =>
      obtain ⟨htree, hwritten⟩ := call_dry hdry (w.attempt s front).1 d
      rw [attempt_concat, htree, withOutcome_append, ih.2]
      exact ⟨ih.1, by simp [withOutcome, hwritten]⟩

theorem Shows.attempt (h : w.Shows s.tree) (hnames : ∀ d ∈ calls, Path.OnlyNames d.path) :
    w.Shows (w.attempt s calls).1.tree := by
  induction calls generalizing s with
  | nil => exact h
  | cons d calls ih =>
      obtain ⟨hd, hcalls⟩ := List.forall_mem_cons.mp hnames
      exact ih (h.call hd) hcalls

/-- Every file is as the writes to its place make it. -/
theorem fileAt?_attempt (h : w.Shows s.tree) (hnames : ∀ d ∈ calls, Path.OnlyNames d.path) (q : Place) :
    (w.attempt s calls).1.tree.fileAt? q =
      w.outcomeAt s.tree (withOutcome .written (w.attempt s calls).2) q := by
  induction calls using List.reverseRecOn with
  | nil => simp [attempt, withOutcome, outcomeAt, draftsFor]
  | append_singleton front d ih =>
      have hfront : ∀ e ∈ front, Path.OnlyNames e.path := fun e he => hnames e (List.mem_append_left _ he)
      have hd : Path.OnlyNames d.path := hnames d (List.mem_append_right _ (List.mem_singleton.mpr rfl))
      have hshows := h.attempt hfront
      replace ih := ih hfront
      rw [attempt_concat, fileAt?_call, ih, withOutcome_append, placeOf_attempt]
      by_cases hwritten : (w.call (w.attempt s front).1 d).2 = .ok .written
      · have hlast : withOutcome .written [(d, (w.call (w.attempt s front).1 d).2)] = [d] := by
          simp [withOutcome, hwritten]
        rw [hlast]
        by_cases hplace : w.placeOf s.tree d.path = q
        · rw [if_pos ⟨hwritten, hplace⟩, ← hplace]
          cases hmode : d.mode with
          | overwrite => exact (outcomeAt_overwrite hmode).symm
          | scaffold =>
              have hfree := fileAt?_of_scaffolded hshows hd hmode hwritten
              rw [placeOf_attempt, hplace, ih, ← hplace] at hfree
              exact (outcomeAt_scaffold hmode hfree).symm
        · rw [if_neg fun hboth => hplace hboth.2, outcomeAt_elsewhere hplace]
      · have hlast : withOutcome .written [(d, (w.call (w.attempt s front).1 d).2)] = [] := by
          simp [withOutcome, hwritten]
        rw [if_neg fun hboth => hwritten hboth.1, hlast, List.append_nil]

/-- Paths that lead down read what is at their places. -/
theorem Shows.read {t : Tree} (h : w.Shows t) {path : String} (hpath : Path.Descends path) :
    (t.read (Path.join w.root path)).toOption = t.fileAt? (w.placeOf t path) := by
  cases hread : t.read (Path.join w.root path) with
  | ok content =>
      obtain ⟨q, hlocate⟩ := Tree.read_ok_iff.mp hread
      obtain ⟨rfl, hfile⟩ := Tree.locate_file hlocate
      exact (Tree.fileAt?_eq_some.mpr hfile).symm
  | error fault =>
      by_contra hthere
      obtain ⟨content, hlocate⟩ := h path hpath fun hnone => hthere hnone.symm
      rw [Tree.read_ok_iff.mpr ⟨_, hlocate⟩] at hread
      cases hread

/-- The calls are on the log and in the report, in order. A failing call leaves the report and all files alone, and so
does a dry run leave all files. -/
structure Recorded (w : Writer) (s : Session) (calls : List Draft) : Prop where
  drafts : (w.attempt s calls).2.map Prod.fst = calls
  report : (w.attempt s calls).1.report = s.report.after (w.attempt s calls).2
  failures : ∀ front d back, calls = front ++ d :: back → ∀ f, (w.call (w.attempt s front).1 d).2 = .error f →
    (w.attempt s (front ++ [d])).1.report = (w.attempt s front).1.report ∧
      ∀ q, (w.attempt s (front ++ [d])).1.tree.fileAt? q = (w.attempt s front).1.tree.fileAt? q
  dry : w.dryRun = true → (w.attempt s calls).1.tree = s.tree ∧
    (w.attempt s calls).1.report.written = s.report.written

/-- Files are as the modes of the writes have it: a scaffold changes none that is there, and in the end each holds what
the writes to its place come to, and is read so. -/
structure ByMode (w : Writer) (s : Session) (calls : List Draft) : Prop where
  scaffolds : ∀ front d back, calls = front ++ d :: back → d.mode = .scaffold →
    ∀ q, (w.attempt s front).1.tree.fileAt? q ≠ none →
      (w.attempt s (front ++ [d])).1.tree.fileAt? q = (w.attempt s front).1.tree.fileAt? q
  files : ∀ q, (w.attempt s calls).1.tree.fileAt? q =
    w.outcomeAt s.tree (withOutcome .written (w.attempt s calls).2) q
  reads : ∀ path, Path.Descends path → ((w.attempt s calls).1.tree.read (Path.join w.root path)).toOption =
    w.outcomeAt s.tree (withOutcome .written (w.attempt s calls).2) (w.placeOf s.tree path)

theorem attempt_recorded (w : Writer) (s : Session) (calls : List Draft) : w.Recorded s calls where
  drafts := w.attempt_drafts s calls
  report := w.attempt_report s calls
  failures front d back _ f hfails := by
    rw [attempt_concat]
    exact call_error hfails
  dry hdry := by
    obtain ⟨htree, hwritten⟩ := attempt_dry hdry s calls
    rw [attempt_report, Report.after, hwritten]
    exact ⟨htree, List.append_nil _⟩

theorem Shows.byMode (h : w.Shows s.tree) (hnames : ∀ d ∈ calls, Path.OnlyNames d.path) : w.ByMode s calls where
  scaffolds front d back hcalls hmode q hthere := by
    rw [hcalls] at hnames
    obtain ⟨hfront, hrest⟩ := List.forall_mem_append.mp hnames
    rw [attempt_concat]
    exact fileAt?_scaffold (h.attempt hfront) (List.forall_mem_cons.mp hrest).1 hmode hthere
  files := fileAt?_attempt h hnames
  reads path hpath := by
    rw [(h.attempt hnames).read hpath, fileAt?_attempt h hnames, placeOf_attempt]

end Files.Writer

/-- Calls are recorded as they go, and a call that fails changes no file. Where the path of the root is followed through
directories that are there as soon as a file is below it, files are as the modes of the writes have it. -/
theorem calls_follow_modes (w : Writer) (s : Session) (calls : List Draft) :
    w.Recorded s calls ∧
      (s.tree.Connected → s.tree.Straight w.root → (∀ d ∈ calls, Path.OnlyNames d.path) → w.ByMode s calls) :=
  ⟨w.attempt_recorded s calls, fun hconnected hstraight hnames =>
    (w.shows_of_straight hconnected hstraight).byMode hnames⟩

/-- A project with one file, which its developer has written. -/
def startedProject : Session where
  tree := ⟨[(["project"], .directory), (["project", "main.go"], .file (Text.utf8Bytes "package main\n".toList))], []⟩

/-- Writes to two files, and one that a file is in the way of. -/
def mixedCalls : List Draft := [
  ⟨"main.go", "// stub\n", .scaffold⟩, ⟨"pkg/chart.go", "package v0\n", .scaffold⟩, ⟨"main.go", "one", .overwrite⟩,
  ⟨"main.go/chart.go", "package v1\n", .overwrite⟩, ⟨"pkg//chart.go", "// stub\n", .scaffold⟩,
  ⟨"main.go", "two", .overwrite⟩]

theorem mixed_calls_follow_modes :
    let s' := (Writer.attempt ⟨"project", false⟩ startedProject mixedCalls).1
    startedProject.tree.Connected ∧ startedProject.tree.Straight "project" ∧
      (∀ d ∈ mixedCalls, Path.OnlyNames d.path) ∧
      (s'.tree.read "project/main.go").toOption = some (Text.utf8Bytes "two".toList) ∧
      (s'.tree.read "project/pkg/chart.go").toOption = some (Text.utf8Bytes "package v0\n".toList) ∧
      s'.report = ⟨["pkg/chart.go", "main.go", "main.go"], ["main.go", "pkg//chart.go"], []⟩ := by
  have hconnected : startedProject.tree.Connected := by decide +kernel
  have hstraight : startedProject.tree.Straight "project" :=
    Tree.straight_of_noParent hconnected (by decide +kernel)
  have hnames : ∀ d ∈ mixedCalls, Path.OnlyNames d.path := by
    unfold Path.OnlyNames
    decide +kernel
  obtain ⟨hrecorded, hmodes⟩ := calls_follow_modes ⟨"project", false⟩ startedProject mixedCalls
  have hbyMode := hmodes hconnected hstraight hnames
  refine ⟨hconnected, hstraight, hnames, ?_, ?_, hrecorded.report.trans (by decide +kernel)⟩
  · have hpath : Path.Descends "main.go" :=
      ⟨by decide +kernel, [], "main.go", by decide +kernel, Path.isName_iff.mpr (by decide)⟩
    exact (hbyMode.reads "main.go" hpath).trans (by decide +kernel)
  · have hpath : Path.Descends "pkg/chart.go" :=
      ⟨by decide +kernel, ["pkg"], "chart.go", by decide +kernel, Path.isName_iff.mpr (by decide)⟩
    exact (hbyMode.reads "pkg/chart.go" hpath).trans (by decide +kernel)

/-- The path of this root goes through a directory that is made on the way. So the file is not found to be there, and
the scaffold replaces it. -/
theorem hidden_file_replaced :
    let w : Writer := ⟨"gen/../project", false⟩
    let stub : Draft := ⟨"main.go", "// stub\n", .scaffold⟩
    startedProject.tree.Connected ∧ Path.OnlyNames stub.path ∧
      startedProject.tree.fileAt? ["project", "main.go"] = some (Text.utf8Bytes "package main\n".toList) ∧
      (w.attempt startedProject [stub]).1.tree.fileAt? ["project", "main.go"] = some stub.content ∧
      ¬w.ByMode startedProject [stub] := by
  intro w stub
  have hbefore : startedProject.tree.fileAt? ["project", "main.go"] =
      some (Text.utf8Bytes "package main\n".toList) := by
    decide +kernel
  have hafter : (w.attempt startedProject [stub]).1.tree.fileAt? ["project", "main.go"] = some stub.content := by
    decide +kernel
  refine ⟨by decide +kernel, ?_, hbefore, hafter, fun hbyMode => ?_⟩
  · unfold Path.OnlyNames
    decide +kernel
  · have hsame := hbyMode.scaffolds [] stub [] rfl rfl ["project", "main.go"] (by decide +kernel)
    rw [List.nil_append, hafter, Writer.attempt, hbefore] at hsame
    exact absurd hsame (by decide +kernel)

end ApiForge
