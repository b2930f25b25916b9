import ApiForge.Proofs.Pruning

/-! What a write does when its path leads down from the root of the project by names alone. The directories on the way
are there afterwards, the file is at the end of them, and everything else is as it was. -/

namespace ApiForge

open Files (Content Entry Place Tree)

/-! ### Paths that lead down -/

namespace Path

theorem isAbsolute_iff {path : String} :
    isAbsolute path = true ↔ ∃ rest, rest ≠ [] ∧ segments path = "" :: rest := by
  rw [isAbsolute, segments_eq, pieces]
  cases hpath : path.toList with
  | nil =>
      refine iff_of_false (by decide) ?_
      rintro ⟨rest, hrest, heq⟩
      exact hrest (List.cons.inj heq).2.symm
  | cons c cs =>
      rw [cut, List.head?_cons, beq_iff_eq, Option.some.injEq]
      by_cases hc : c = '/'
      · simp [hc]
      · simp only [hc, if_false, List.map_cons, false_iff]
        rintro ⟨rest, -, heq⟩
        have hhead := congrArg String.toList (List.cons.inj heq).1
        rw [String.toList_ofList] at hhead
        cases hhead

theorem filterMap_dropMeaningless (segments : List String) :
    (dropMeaningless segments).filterMap Component.ofSegment? = segments.filterMap Component.ofSegment? := by
  have hsplit := List.takeWhile_append_dropWhile (p := fun s => (Component.ofSegment? s).isNone) (l := segments.reverse)
  have hdropped : (segments.reverse.takeWhile fun s => (Component.ofSegment? s).isNone).filterMap
      Component.ofSegment? = [] := by
    rw [List.filterMap_eq_nil_iff]
    intro s hs
    have hnone : (Component.ofSegment? s).isNone = true :=
      List.mem_takeWhile_imp (p := fun s => (Component.ofSegment? s).isNone) hs
    exact Option.isNone_iff_eq_none.mp hnone
  rw [← List.reverse_inj, ← List.filterMap_reverse, ← List.filterMap_reverse, dropMeaningless, List.reverse_reverse]
  conv_rhs => rw [← hsplit, List.filterMap_append, hdropped, List.nil_append]

theorem dropMeaningless_concat {name : String} (h : IsName name) (segments : List String) :
    dropMeaningless (segments ++ [name]) = segments ++ [name] := by
  have hsome : (Component.ofSegment? name).isNone = false := by
    rw [show Component.ofSegment? name = some (.name name) from h]
    rfl
  rw [dropMeaningless, List.reverse_append, List.reverse_singleton, List.singleton_append,
    List.dropWhile_cons_of_neg (by simp [hsome]), List.reverse_cons, List.reverse_reverse]

theorem dropMeaningless_subset (segments : List String) : dropMeaningless segments ⊆ segments := by
  intro s hs
  exact List.mem_reverse.mp ((List.dropWhile_sublist _).mem (List.mem_reverse.mp hs))

theorem isAbsolute_of_segments {path first : String} {rest : List String} (h : segments path = first :: rest) :
    isAbsolute path = true ↔ first = "" ∧ rest ≠ [] := by
  rw [isAbsolute_iff, h]
  constructor
  · rintro ⟨rest', hrest, heq⟩
    cases heq
    exact ⟨rfl, hrest⟩
  · rintro ⟨rfl, hrest⟩
    exact ⟨rest, hrest, rfl⟩

theorem parent?_of_single {path name : String} (h : segments path = [name]) (hname : IsName name) :
    parent? path = some "" := by
  have hne : name ≠ "" := (isName_iff.mp hname).1
  have hnone : dropMeaningless [] = [] := rfl
  rw [parent?, h, List.drop_succ_cons, List.drop_zero, List.headD_cons, hnone]
  exact if_neg hne

/-- Without its name, a path goes as far as its last component in front of the name. -/
theorem parent?_of_cons {path first name : String} {front : List String} (h : segments path = first :: front ++ [name])
    (hname : IsName name) : parent? path = some
      (if dropMeaningless front = [] then if isAbsolute path then "/" else first
      else "/".intercalate (first :: dropMeaningless front)) := by
  rw [parent?, h, List.cons_append, List.drop_succ_cons, List.drop_zero, List.headD_cons, dropMeaningless_concat hname]
  split
  · rename_i hnil
    exact absurd hnil (List.append_ne_nil_of_right_ne_nil _ (List.cons_ne_nil _ _))
  · rw [List.dropLast_concat]
    cases dropMeaningless front <;> rfl

/-- The directory that a file is in, by what the path of the file says of it. -/
theorem parent?_of_name {path name : String} {front : List String} (h : segments path = front ++ [name])
    (hname : IsName name) : isAbsolute ((parent? path).getD "") = isAbsolute path ∧
      (segments ((parent? path).getD "")).filterMap Component.ofSegment? = front.filterMap Component.ofSegment? := by
  have hslash : ∀ s ∈ front ++ [name], '/' ∉ s.toList := fun s hs => slash_not_mem_segments (h ▸ hs)
  cases front with
  | nil =>
      rw [parent?_of_single h hname, Option.getD_some, Bool.eq_iff_iff, isAbsolute_of_segments h]
      exact ⟨iff_of_false (by decide) fun h => h.2 rfl, by decide⟩
  | cons first front =>
      have hfirst : '/' ∉ first.toList := hslash first List.mem_cons_self
      have hrest : front ++ [name] ≠ [] := List.append_ne_nil_of_right_ne_nil _ (List.cons_ne_nil _ _)
      have habsolute : isAbsolute path = true ↔ first = "" := (isAbsolute_of_segments h).trans (and_iff_left hrest)
      have hcons (l : List String) : (first :: l).filterMap Component.ofSegment? =
          [first].filterMap Component.ofSegment? ++ l.filterMap Component.ofSegment? :=
        List.filterMap_append (l := [first])
      have hkept := filterMap_dropMeaningless front
      rw [parent?_of_cons h hname, Option.getD_some, hcons front, ← hkept]
      by_cases hnone : dropMeaningless front = []
      · rw [if_pos hnone, hnone]
        by_cases hpath : isAbsolute path = true
        · rw [if_pos hpath, hpath, habsolute.mp hpath]
          exact ⟨by decide, by decide⟩
        · rw [if_neg hpath, Bool.eq_iff_iff, isAbsolute_of_segments (segments_of_slashless hfirst)]
          refine ⟨iff_of_false (fun h => h.2 rfl) hpath, ?_⟩
          rw [segments_of_slashless hfirst]
          exact (List.append_nil _).symm
      · have hslashless : ∀ s ∈ first :: dropMeaningless front, '/' ∉ s.toList := by
          intro s hs
          rcases List.mem_cons.mp hs with rfl | hs
          · exact hfirst
          · exact hslash s (List.mem_cons_of_mem _ (List.mem_append_left _ (dropMeaningless_subset front hs)))
        have hsegments : segments ("/".intercalate (first :: dropMeaningless front)) = first :: dropMeaningless front := by
          rw [segments_intercalate, flatMap_segments_of_slashless hslashless]
        rw [if_neg hnone, Bool.eq_iff_iff, isAbsolute_of_segments hsegments, habsolute, and_iff_left hnone, hsegments]
        exact ⟨Iff.rfl, hcons _⟩

theorem filterMap_joint (base : String) :
    (joint base).filterMap Component.ofSegment? = (segments base).filterMap Component.ofSegment? := by
  rw [joint]
  split
  · rename_i hbase
    rw [hbase]
    decide
  · split
    · rename_i hlast
      conv_rhs => rw [(segments_of_slash_last hlast "").2]
      rw [List.filterMap_append, show [""].filterMap Component.ofSegment? = [] by decide, List.append_nil]
    · rfl

/-- A relative path whose components are names. -/
def OnlyNames (path : String) : Prop :=
  components path = (names path).map .name

namespace OnlyNames

variable {path a b : String}

theorem relative (h : OnlyNames path) : isAbsolute path = false := by
  rw [Bool.eq_false_iff]
  intro habsolute
  have hroot := root_mem_components.mpr habsolute
  rw [h] at hroot
  obtain ⟨n, -, hn⟩ := List.mem_map.mp hroot
  cases hn

theorem filterMap_segments (h : OnlyNames path) :
    (segments path).filterMap Component.ofSegment? = (names path).map .name := by
  rw [← filter_components, h, List.filter_eq_self]
  intro component hmem
  obtain ⟨n, -, rfl⟩ := List.mem_map.mp hmem
  rfl

theorem walk (h : OnlyNames path) (place : Place) : walk place (segments path) = place ++ names path := by
  rw [← walk_names (fun _ hn => isName_of_mem_names hn) place, walk_eq_foldl, walk_eq_foldl, h.filterMap_segments]
  congr 1
  rw [← List.filterMap_eq_map]
  exact List.filterMap_congr fun n hn => (isName_of_mem_names hn).symm

theorem same_iff (ha : OnlyNames a) (hb : OnlyNames b) : same a b = true ↔ names a = names b := by
  rw [same_iff_components, ha, hb]
  exact List.map_inj_right fun _ _ => Component.name.inj

end OnlyNames

/-- The path is made of names, and nothing comes after the last of them. -/
structure Descends (path : String) : Prop where
  components : components path = (names path).map .name
  last : ∃ front name, segments path = front ++ [name] ∧ IsName name

namespace Descends

variable {path a b : String}

theorem onlyNames (h : Descends path) : OnlyNames path :=
  h.components

theorem relative (h : Descends path) : isAbsolute path = false :=
  h.onlyNames.relative

theorem filterMap_segments (h : Descends path) :
    (segments path).filterMap Component.ofSegment? = (names path).map .name :=
  h.onlyNames.filterMap_segments

/-- The directories on the way and the name of the file. -/
theorem exists_front (h : Descends path) : ∃ front dirs name, segments path = front ++ [name] ∧ IsName name ∧
    names path = dirs ++ [name] ∧ front.filterMap Component.ofSegment? = dirs.map .name := by
  obtain ⟨front, name, hsegments, hname⟩ := h.last
  have hmap := h.filterMap_segments
  rw [hsegments, List.filterMap_append, List.filterMap_cons_some hname, List.filterMap_nil] at hmap
  obtain ⟨dirs, last, hnames, hdirs, hlast⟩ := List.map_eq_append_iff.mp hmap.symm
  obtain ⟨n, rest, rfl, hn, hrest⟩ := List.map_eq_cons_iff.mp hlast
  rw [List.map_eq_nil_iff.mp hrest, Component.name.inj hn] at hnames
  exact ⟨front, dirs, name, hsegments, hname, hnames, hdirs.symm⟩

theorem walk (h : Descends path) (place : Place) : walk place (segments path) = place ++ names path :=
  h.onlyNames.walk place

theorem same_iff (ha : Descends a) (hb : Descends b) : same a b = true ↔ names a = names b :=
  ha.onlyNames.same_iff hb.onlyNames

end Descends

end Path

/-! ### Trees -/

namespace Files.Tree

/-- The places that names lead through, the one that they lead to included. -/
def through (place : Place) : List String → List Place
  | [] => []
  | name :: names => (place ++ [name]) :: through (place ++ [name]) names

theorem mem_through_iff {place q : Place} {names : List String} :
    q ∈ through place names ↔ ∃ front, front ≠ [] ∧ front <+: names ∧ q = place ++ front := by
  induction names generalizing place with
  | nil =>
      refine iff_of_false List.not_mem_nil ?_
      rintro ⟨front, hne, hwithin, -⟩
      exact hne (List.prefix_nil.mp hwithin)
  | cons name names ih =>
      rw [through, List.mem_cons, ih]
      constructor
      · rintro (rfl | ⟨front, -, hwithin, rfl⟩)
        · exact ⟨[name], List.cons_ne_nil _ _, List.prefix_append [name] names, rfl⟩
        · exact ⟨name :: front, List.cons_ne_nil _ _, (List.prefix_cons_inj name).mpr hwithin, by simp⟩
      · rintro ⟨front, hne, hwithin, rfl⟩
        cases front with
        | nil => exact absurd rfl hne
        | cons n front =>
            obtain ⟨rest, hrest⟩ := hwithin
            obtain ⟨rfl, hnames⟩ := List.cons.inj hrest
            rcases List.eq_nil_or_concat front with rfl | ⟨front', last, rfl⟩
            · exact Or.inl rfl
            · refine Or.inr ⟨front'.concat last, by simp, ⟨rest, hnames⟩, by simp⟩

theorem ne_of_mem_through {place q : Place} {names : List String} (h : q ∈ through place names.dropLast) :
    q ≠ place ++ names := by
  obtain ⟨front, hne, hwithin, rfl⟩ := mem_through_iff.mp h
  intro heq
  rw [List.append_cancel_left_eq] at heq
  have hle := hwithin.length_le
  rw [heq, List.length_dropLast] at hle
  have hpos := List.length_pos_iff.mpr hne
  rw [heq] at hpos
  omega

/-- Everything is in a directory, and relative paths start from one. -/
structure Connected (t : Tree) : Prop where
  parents : ∀ q, t.get? q ≠ none → t.get? q.dropLast = some .directory
  workingDirectory : t.get? t.workingDirectory = some .directory

/-- The places of the files. -/
def files (t : Tree) : List Place :=
  t.entries.filterMap fun e =>
    match e.2 with
    | .file _ => some e.1
    | .directory => none

theorem get?_ne_none_of_mem {t : Tree} {e : Place × Entry} (h : e ∈ t.entries) : t.get? e.1 ≠ none := by
  rw [get?]
  split
  · rintro ⟨⟩
  · rw [Ne, Option.map_eq_none_iff, List.find?_eq_none]
    exact fun hnone => absurd (decide_eq_true rfl) (hnone e h)

theorem get?_ne_none_of_mem_files {t : Tree} {q : Place} (h : q ∈ t.files) : t.get? q ≠ none := by
  obtain ⟨⟨place, entry⟩, he, hq⟩ := List.mem_filterMap.mp h
  cases entry with
  | directory => cases hq
  | file content =>
      cases hq
      exact get?_ne_none_of_mem he

theorem connected_iff {t : Tree} : t.Connected ↔
    (∀ e ∈ t.entries, t.get? e.1.dropLast = some .directory) ∧ t.get? t.workingDirectory = some .directory := by
  constructor
  · intro h
    exact ⟨fun e he => h.parents e.1 (get?_ne_none_of_mem he), h.workingDirectory⟩
  · rintro ⟨hentries, hworking⟩
    refine ⟨fun q hq => ?_, hworking⟩
    rw [get?] at hq
    split at hq
    · rename_i hroot
      rw [hroot]
      rfl
    · obtain ⟨e, he⟩ := Option.ne_none_iff_exists'.mp (mt Option.map_eq_none_iff.mpr hq)
      have hplace : e.1 = q := by simpa using List.find?_some he
      rw [← hplace]
      exact hentries e (List.mem_of_find?_eq_some he)

instance (t : Tree) : Decidable t.Connected :=
  decidable_of_iff _ connected_iff.symm

/-- Whatever something is below is a directory. -/
theorem Connected.above {t : Tree} (h : t.Connected) {place names : Place} (hne : names ≠ [])
    (hthere : t.get? (place ++ names) ≠ none) : t.get? place = some .directory := by
  induction names using List.reverseRecOn with
  | nil => exact absurd rfl hne
  | append_singleton names name ih =>
      have hparent := h.parents _ hthere
      rw [← List.append_assoc, List.dropLast_concat] at hparent
      by_cases hnil : names = []
      · rw [hnil, List.append_nil] at hparent
        exact hparent
      · exact ih hnil (by rw [hparent]; rintro ⟨⟩)

theorem Connected.through {t : Tree} (h : t.Connected) {place names : Place}
    (hthere : t.get? (place ++ names) ≠ none) : ∀ q ∈ through place names.dropLast, t.get? q = some .directory := by
  intro q hq
  have hlong := ne_of_mem_through hq
  obtain ⟨front, -, hwithin, rfl⟩ := mem_through_iff.mp hq
  obtain ⟨rest, hrest⟩ := hwithin.trans (List.dropLast_prefix names)
  have hrestThere : t.get? (place ++ front ++ rest) ≠ none := by
    rw [List.append_assoc, hrest]
    exact hthere
  refine h.above ?_ hrestThere
  rintro rfl
  rw [List.append_nil] at hrest
  exact hlong (by rw [hrest])

/-- The directories that the path goes through are there. -/
def Reaches (t : Tree) (path : String) : Prop :=
  t.follow (t.origin path) (Path.segments path) = .ok (t.placeOf path)

instance (t : Tree) (path : String) : Decidable (t.Reaches path) :=
  decidable_of_iff ((t.follow (t.origin path) (Path.segments path)).toOption = some (t.placeOf path)) <| by
    rw [Reaches]
    cases t.follow (t.origin path) (Path.segments path) <;> simp [Except.toOption]

theorem follow_names_iff {t : Tree} {place q : Place} {segments dirs : List String}
    (h : segments.filterMap Path.Component.ofSegment? = dirs.map .name) :
    t.follow place segments = .ok q ↔ q = place ++ dirs ∧ ∀ p ∈ through place dirs, t.get? p = some .directory := by
  rw [follow_eq_foldlM, h]
  clear h
  induction dirs generalizing place with
  | nil =>
      rw [List.append_nil]
      constructor
      · intro heq
        exact ⟨(Except.ok.inj heq).symm, fun p hp => absurd hp List.not_mem_nil⟩
      · rintro ⟨rfl, -⟩
        rfl
  | cons name dirs ih =>
      rw [List.map_cons, List.foldlM_cons, advance, through, List.forall_mem_cons]
      cases hget : t.get? (place ++ [name]) with
      | none => exact iff_of_false (by rintro ⟨⟩) fun hright => absurd hright.2.1 (by rintro ⟨⟩)
      | some entry =>
          cases entry with
          | file content => exact iff_of_false (by rintro ⟨⟩) fun hright => absurd hright.2.1 (by simp)
          | directory =>
              dsimp only [bind, Except.bind]
              rw [ih, List.append_assoc, List.singleton_append]
              simp

/-! ### Directories on the way -/

/-- Follows components and makes the directories that are missing. -/
def makeThrough (t : Tree) (place : Place) : List Path.Component → Option Tree
  | [] => some t
  | .name name :: rest =>
    match t.get? (place ++ [name]) with
    | some .directory => makeThrough t (place ++ [name]) rest
    | some (.file _) => none
    | none => makeThrough (t.put (place ++ [name]) .directory) (place ++ [name]) rest
  | .parent :: rest => makeThrough t place.dropLast rest
  | _ :: rest => makeThrough t place rest

theorem makeFrom_ok_iff {t t' : Tree} {made : Bool} {place : Place} {segments : List String} :
    t.makeFrom made place segments = (t', none) ↔
      t.makeThrough place (segments.filterMap Path.Component.ofSegment?) = some t' := by
  induction segments generalizing t made place with
  | nil => simp [makeFrom, makeThrough]
  | cons s segments ih =>
      rw [makeFrom]
      cases hs : Path.Component.ofSegment? s with
      | none =>
          rw [List.filterMap_cons_none hs]
          exact ih
      | some component =>
          rw [List.filterMap_cons_some hs]
          rcases Path.ofSegment?_cases hs with rfl | rfl
          · exact ih
          · simp only [makeThrough]
            cases t.get? (place ++ [s]) with
            | none => exact ih
            | some entry =>
                cases entry with
                | directory => exact ih
                | file content => simp

/-- Where the way is there, nothing is made. -/
theorem makeThrough_of_follow {t : Tree} {place q : Place} {segments : List String}
    (h : t.follow place segments = .ok q) (rest : List Path.Component) :
    t.makeThrough place (segments.filterMap Path.Component.ofSegment? ++ rest) = t.makeThrough q rest := by
  induction segments generalizing place with
  | nil =>
      cases h
      rfl
  | cons s segments ih =>
      rw [follow] at h
      cases hs : Path.Component.ofSegment? s with
      | none =>
          rw [hs] at h
          rw [List.filterMap_cons_none hs]
          exact ih h
      | some component =>
          rw [hs] at h
          rw [List.filterMap_cons_some hs, List.cons_append]
          rcases Path.ofSegment?_cases hs with rfl | rfl
          · exact ih h
          · dsimp only at h
            split at h
            · rename_i hdirectory
              simp only [makeThrough, hdirectory]
              exact ih h
            · cases h
            · cases h

theorem files_put_directory {t : Tree} {place : Place} (h : t.get? place = none) :
    (t.put place .directory).files = t.files := by
  rw [get?] at h
  split at h
  · cases h
  · have hnone := List.find?_eq_none.mp (Option.map_eq_none_iff.mp h)
    rw [files, files, put]
    generalize t.entries = entries at hnone
    induction entries with
    | nil => rfl
    | cons e entries ih =>
        rw [List.forall_mem_cons] at hnone
        have he : e.1 ≠ place := by simpa using hnone.1
        rw [putEntry, if_neg he]
        simp only [List.filterMap_cons, ih hnone.2]

/-- A file takes the place of a file or of nothing, so the other files stay in their order. -/
theorem files_put_file {t : Tree} {place : Place} (h : t.get? place ≠ some .directory) (content : Content) :
    (t.put place (.file content)).files.filter (· ≠ place) = t.files.filter (· ≠ place) := by
  rw [get?] at h
  split at h
  · exact absurd rfl h
  · rw [files, files, put]
    generalize t.entries = entries at h
    induction entries with
    | nil => simp [putEntry]
    | cons e entries ih =>
        obtain ⟨q, entry⟩ := e
        by_cases hq : q = place
        · subst hq
          cases entry with
          | directory => simp at h
          | file content' => simp [putEntry]
        · have hrest : (entries.find? (·.1 = place)).map Prod.snd ≠ some .directory := by
            simpa [hq] using h
          cases entry with
          | directory => simpa [putEntry, hq] using ih hrest
          | file content' => simpa [putEntry, hq] using ih hrest

/-- Places become directories unless they are, and nothing else changes. -/
structure Paved (t : Tree) (places : List Place) (t' : Tree) : Prop where
  workingDirectory : t'.workingDirectory = t.workingDirectory
  get? : ∀ q, t'.get? q = if q ∈ places then some .directory else t.get? q
  files : t'.files = t.files

/-- The way down can be made exactly when no file stands in it. -/
theorem makeThrough_names (t : Tree) (place : Place) (dirs : List String) :
    match t.makeThrough place (dirs.map .name) with
    | some t' => t.Paved (through place dirs) t' ∧
        ∀ q ∈ through place dirs, ∀ content, t.get? q ≠ some (.file content)
    | none => ∃ q ∈ through place dirs, ∃ content, t.get? q = some (.file content) := by
  induction dirs generalizing t place with
  | nil => exact ⟨⟨rfl, fun q => (if_neg List.not_mem_nil).symm, rfl⟩, fun q hq => absurd hq List.not_mem_nil⟩
  | cons name dirs ih =>
      have hne : place ++ [name] ≠ [] := List.append_ne_nil_of_right_ne_nil _ (List.cons_ne_nil _ _)
      rw [List.map_cons, makeThrough, through]
      cases hget : t.get? (place ++ [name]) with
      | none =>
          have hput (q : Place) := get?_put t (place ++ [name]) q .directory hne
          have hmade := ih (t.put (place ++ [name]) .directory) (place ++ [name])
          -- The new directory is no file, and the rest is as it was.
          have hfile {q : Place} {content : Content} :
              (t.put (place ++ [name]) .directory).get? q = some (.file content) ↔
                t.get? q = some (.file content) := by
            rw [hput]
            by_cases hq : q = place ++ [name]
            · rw [if_pos hq, hq, hget]
              exact iff_of_false (by rintro ⟨⟩) (by rintro ⟨⟩)
            · rw [if_neg hq]
          dsimp only
          cases hthrough : (t.put (place ++ [name]) .directory).makeThrough (place ++ [name]) (dirs.map .name) with
          | none =>
              rw [hthrough] at hmade
              obtain ⟨q, hq, content, hcontent⟩ := hmade
              exact ⟨q, List.mem_cons_of_mem _ hq, content, hfile.mp hcontent⟩
          | some t' =>
              rw [hthrough] at hmade
              obtain ⟨hpaved, hfree⟩ := hmade
              refine ⟨⟨hpaved.workingDirectory, fun q => ?_, hpaved.files.trans (files_put_directory hget)⟩, ?_⟩
              · rw [hpaved.get?, hput]
                by_cases hq : q = place ++ [name] <;> simp [hq]
              · rw [List.forall_mem_cons]
                refine ⟨fun content => by rw [hget]; rintro ⟨⟩, fun q hq content hcontent => ?_⟩
                exact hfree q hq content (hfile.mpr hcontent)
      | some entry =>
          cases entry with
          | file content => exact ⟨place ++ [name], List.mem_cons_self, content, hget⟩
          | directory =>
              have hmade := ih t (place ++ [name])
              dsimp only
              cases hthrough : t.makeThrough (place ++ [name]) (dirs.map .name) with
              | none =>
                  rw [hthrough] at hmade
                  obtain ⟨q, hq, hcontent⟩ := hmade
                  exact ⟨q, List.mem_cons_of_mem _ hq, hcontent⟩
              | some t' =>
                  rw [hthrough] at hmade
                  obtain ⟨hpaved, hfree⟩ := hmade
                  refine ⟨⟨hpaved.workingDirectory, fun q => ?_, hpaved.files⟩, ?_⟩
                  · rw [hpaved.get?]
                    by_cases hq : q = place ++ [name]
                    · rw [hq, hget]
                      simp
                    · simp [hq]
                  · rw [List.forall_mem_cons]
                    exact ⟨fun content => by rw [hget]; simp, hfree⟩

/-! ### Files at the end of the way -/

/-- A file can be written: no file stands in the way of it, and no directory stands where it goes. -/
structure Free (t : Tree) (place : Place) (names : List String) : Prop where
  way : ∀ q ∈ through place names.dropLast, ∀ content, t.get? q ≠ some (.file content)
  target : t.get? (place ++ names) ≠ some .directory

/-- A file is laid down with the directories on the way to it. -/
structure Laid (t : Tree) (place : Place) (names : List String) (content : Content) (t' : Tree) : Prop where
  workingDirectory : t'.workingDirectory = t.workingDirectory
  get? : ∀ q, t'.get? q = if q = place ++ names then some (.file content)
    else if q ∈ through place names.dropLast then some .directory else t.get? q
  files : t'.files.filter (· ≠ place ++ names) = t.files.filter (· ≠ place ++ names)

section Descends

variable {t : Tree} {root path : String}

/-- The way of a path below the root. -/
theorem follow_join_iff (hroot : t.Reaches root) (hrelative : Path.isAbsolute path = false) {front dirs : List String}
    (hdirs : front.filterMap Path.Component.ofSegment? = dirs.map .name) {q : Place} :
    t.follow (t.origin (Path.join root path)) (Path.joint root ++ front) = .ok q ↔
      q = t.placeOf root ++ dirs ∧ ∀ p ∈ through (t.placeOf root) dirs, t.get? p = some .directory := by
  have horigin : t.origin (Path.join root path) = t.origin root := by
    rw [origin, origin, Path.isAbsolute_join root hrelative]
  have hjoint : t.follow (t.origin root) (Path.joint root) = .ok (t.placeOf root) := by
    rw [follow_eq_foldlM, Path.filterMap_joint, ← follow_eq_foldlM]
    exact hroot
  rw [horigin, follow_append_iff, ← follow_names_iff hdirs]
  constructor
  · rintro ⟨mid, hmid, hq⟩
    rw [hjoint] at hmid
    rwa [← Except.ok.inj hmid] at hq
  · exact fun hq => ⟨_, hjoint, hq⟩

/-- What stands at a path that leads down. -/
theorem locate_descends (hroot : t.Reaches root) (hpath : Path.Descends path) {q : Place} {entry : Entry} :
    t.locate (Path.join root path) = .ok (q, entry) ↔ q = t.placeOf root ++ Path.names path ∧
      (∀ p ∈ through (t.placeOf root) (Path.names path).dropLast, t.get? p = some .directory) ∧
      t.get? q = some entry := by
  obtain ⟨front, dirs, name, hsegments, hname, hnames, hdirs⟩ := hpath.exists_front
  have hjoin : Path.segments (Path.join root path) = (Path.joint root ++ front) ++ [name] := by
    rw [Path.segments_join root hpath.relative, hsegments, List.append_assoc]
  rw [locate_name_iff hjoin hname, hnames, List.dropLast_concat]
  simp only [follow_join_iff hroot hpath.relative hdirs]
  constructor
  · rintro ⟨place, ⟨rfl, hthere⟩, rfl, hentry⟩
    exact ⟨List.append_assoc _ _ _, hthere, hentry⟩
  · rintro ⟨rfl, hthere, hentry⟩
    exact ⟨_, ⟨rfl, hthere⟩, (List.append_assoc _ _ _).symm, hentry⟩

theorem read_descends (hroot : t.Reaches root) (hpath : Path.Descends path) {content : Content} :
    t.read (Path.join root path) = .ok content ↔
      (∀ p ∈ through (t.placeOf root) (Path.names path).dropLast, t.get? p = some .directory) ∧
        t.get? (t.placeOf root ++ Path.names path) = some (.file content) := by
  rw [read_ok_iff]
  constructor
  · rintro ⟨q, hq⟩
    obtain ⟨rfl, hway, hfile⟩ := (locate_descends hroot hpath).mp hq
    exact ⟨hway, hfile⟩
  · rintro ⟨hway, hfile⟩
    exact ⟨_, (locate_descends hroot hpath).mpr ⟨rfl, hway, hfile⟩⟩

theorem pathExists_iff {path : String} : t.pathExists path = true ↔ ∃ q entry, t.locate path = .ok (q, entry) := by
  rw [pathExists]
  cases t.locate path with
  | error fault => exact iff_of_false (by rintro ⟨⟩) (by rintro ⟨q, entry, h⟩; cases h)
  | ok found => exact iff_of_true rfl ⟨found.1, found.2, rfl⟩

theorem pathExists_descends (hconnected : t.Connected) (hroot : t.Reaches root) (hpath : Path.Descends path) :
    t.pathExists (Path.join root path) = true ↔ t.get? (t.placeOf root ++ Path.names path) ≠ none := by
  rw [pathExists_iff]
  constructor
  · rintro ⟨q, entry, hlocate⟩
    obtain ⟨rfl, -, hentry⟩ := (locate_descends hroot hpath).mp hlocate
    rw [hentry]
    rintro ⟨⟩
  · intro hthere
    obtain ⟨entry, hentry⟩ := Option.ne_none_iff_exists'.mp hthere
    exact ⟨_, entry, (locate_descends hroot hpath).mpr ⟨rfl, hconnected.through hthere, hentry⟩⟩

end Descends

end Files.Tree

namespace Files

section Write

variable {t t' : Tree} {root path : String} {content : Content}

/-- The directories of a file below the root are those of the root, which are there, and those on the way down. -/
theorem makeDirectories_descends (hroot : t.Reaches root) (hpath : Path.Descends path) :
    t.makeDirectories ((Path.parent? (Path.join root path)).getD "") = (t', none) ↔
      t.makeThrough (t.placeOf root) ((Path.names path).dropLast.map .name) = some t' := by
  obtain ⟨front, dirs, name, hsegments, hname, hnames, hdirs⟩ := hpath.exists_front
  have hjoin : Path.segments (Path.join root path) = (Path.joint root ++ front) ++ [name] := by
    rw [Path.segments_join root hpath.relative, hsegments, List.append_assoc]
  obtain ⟨habsolute, hparent⟩ := Path.parent?_of_name hjoin hname
  have hjoint : t.follow (t.origin root) (Path.joint root) = .ok (t.placeOf root) := by
    rw [Tree.follow_eq_foldlM, Path.filterMap_joint, ← Tree.follow_eq_foldlM]
    exact hroot
  have horigin : t.origin ((Path.parent? (Path.join root path)).getD "") = t.origin root := by
    rw [Tree.origin, Tree.origin, habsolute, Path.isAbsolute_join root hpath.relative]
  rw [Tree.makeDirectories, horigin, Tree.makeFrom_ok_iff, hparent, List.filterMap_append,
    Tree.makeThrough_of_follow hjoint, hdirs, hnames, List.dropLast_concat]

/-- Where the directories on the way are there, a file is written unless a directory stands in its place. -/
theorem Tree.write_eq_ok_iff (hroot : t.Reaches root) (hpath : Path.Descends path)
    (hway : ∀ q ∈ Tree.through (t.placeOf root) (Path.names path).dropLast, t.get? q = some .directory) :
    t.write (Path.join root path) content = .ok t' ↔
      t.get? (t.placeOf root ++ Path.names path) ≠ some .directory ∧
        t' = t.put (t.placeOf root ++ Path.names path) (.file content) := by
  obtain ⟨front, dirs, name, hsegments, hname, hnames, hdirs⟩ := hpath.exists_front
  have hjoin : Path.segments (Path.join root path) = (Path.joint root ++ front) ++ [name] := by
    rw [Path.segments_join root hpath.relative, hsegments, List.append_assoc]
  have hplace : t.placeOf root ++ Path.names path = t.placeOf root ++ dirs ++ [name] := by
    rw [hnames, List.append_assoc]
  have hfollow : t.follow (t.origin (Path.join root path)) (Path.joint root ++ front) = .ok (t.placeOf root ++ dirs) := by
    rw [hnames, List.dropLast_concat] at hway
    exact (Tree.follow_join_iff hroot hpath.relative hdirs).mpr ⟨rfl, hway⟩
  rw [hplace]
  constructor
  · intro h
    obtain ⟨q, hwritable, hput⟩ := of_bind h
    obtain ⟨front', name', place, hsegments', -, hfollow', rfl, hdirectory⟩ :=
      Tree.writablePlace_eq_ok_iff.mp hwritable
    obtain ⟨rfl, rfl⟩ := List.append_singleton_inj.mp (hjoin.symm.trans hsegments')
    rw [hfollow] at hfollow'
    cases hfollow'
    cases hput
    exact ⟨hdirectory, rfl⟩
  · rintro ⟨hdirectory, rfl⟩
    have hwritable : t.writablePlace (Path.join root path) = .ok (t.placeOf root ++ dirs ++ [name]) :=
      Tree.writablePlace_eq_ok_iff.mpr ⟨_, name, _, hjoin, hname, hfollow, rfl, hdirectory⟩
    rw [Tree.write, hwritable]
    rfl

/-- A file is written below the root once its directories are made, unless it is one itself. -/
theorem writeFile_eq_ok_iff (hroot : t.Reaches root) (hpath : Path.Descends path) :
    writeFile t (Path.join root path) content = (t', .ok ()) ↔
      ∃ t₁, t.makeThrough (t.placeOf root) ((Path.names path).dropLast.map .name) = some t₁ ∧
        t.get? (t.placeOf root ++ Path.names path) ≠ some .directory ∧
        t' = t₁.put (t.placeOf root ++ Path.names path) (.file content) := by
  have hmade {t₁ : Tree} : t.makeDirectories ((Path.parent? (Path.join root path)).getD "") = (t₁, none) ↔
      t.makeThrough (t.placeOf root) ((Path.names path).dropLast.map .name) = some t₁ :=
    makeDirectories_descends hroot hpath
  have hkeeps := t.makeFrom_keeps false (t.origin ((Path.parent? (Path.join root path)).getD ""))
    (Path.segments ((Path.parent? (Path.join root path)).getD ""))
  rw [← Tree.makeDirectories] at hkeeps
  unfold writeFile
  dsimp only
  rcases hdirectories : t.makeDirectories ((Path.parent? (Path.join root path)).getD "") with ⟨t₁, fault⟩
  rw [hdirectories] at hkeeps
  cases fault with
  | some fault =>
      refine iff_of_false (by rintro ⟨⟩) ?_
      rintro ⟨t₂, hthrough, -⟩
      rw [hmade.mpr hthrough] at hdirectories
      cases hdirectories
  | none =>
      have hthrough := hmade.mp hdirectories
      have hpaved := Tree.makeThrough_names t (t.placeOf root) (Path.names path).dropLast
      rw [hthrough] at hpaved
      replace hpaved := hpaved.1
      have hroot₁ : t₁.Reaches root := by
        have horigin : t₁.origin root = t.origin root := by rw [Tree.origin, Tree.origin, hkeeps.workingDirectory]
        rw [Tree.Reaches, hkeeps.placeOf_eq, horigin]
        exact hkeeps.follow hroot
      have hget : t₁.get? (t.placeOf root ++ Path.names path) = t.get? (t.placeOf root ++ Path.names path) := by
        rw [hpaved.get?, if_neg]
        exact fun hmem => Tree.ne_of_mem_through hmem rfl
      have hwrite (t₂ : Tree) : t₁.write (Path.join root path) content = .ok t₂ ↔
          t.get? (t.placeOf root ++ Path.names path) ≠ some .directory ∧
            t₂ = t₁.put (t.placeOf root ++ Path.names path) (.file content) := by
        rw [← hget, ← hkeeps.placeOf_eq root]
        apply Tree.write_eq_ok_iff hroot₁ hpath
        intro q hq
        rw [hkeeps.placeOf_eq] at hq
        rw [hpaved.get?, if_pos hq]
      simp only [hthrough, Option.some.injEq, exists_eq_left', ← hwrite]
      cases t₁.write (Path.join root path) content <;> simp

/-- What a write below the root does. -/
theorem writeFile_laid (hroot : t.Reaches root) (hpath : Path.Descends path)
    (h : writeFile t (Path.join root path) content = (t', .ok ())) :
    t.Free (t.placeOf root) (Path.names path) ∧ t.Laid (t.placeOf root) (Path.names path) content t' := by
  obtain ⟨t₁, hthrough, hdirectory, rfl⟩ := (writeFile_eq_ok_iff hroot hpath).mp h
  have hmade := Tree.makeThrough_names t (t.placeOf root) (Path.names path).dropLast
  rw [hthrough] at hmade
  obtain ⟨hpaved, hfree⟩ := hmade
  obtain ⟨front, dirs, name, -, -, hnames, -⟩ := hpath.exists_front
  have hne : t.placeOf root ++ Path.names path ≠ [] := by simp [hnames]
  refine ⟨⟨hfree, hdirectory⟩, hpaved.workingDirectory, fun q => ?_, ?_⟩
  · rw [Tree.get?_put t₁ _ q _ hne, hpaved.get?]
  · rw [← hpaved.files]
    apply Tree.files_put_file
    rw [hpaved.get?, if_neg fun hmem => Tree.ne_of_mem_through hmem rfl]
    exact hdirectory

/-- Nothing else keeps it from being done. -/
theorem exists_writeFile (hroot : t.Reaches root) (hpath : Path.Descends path)
    (hfree : t.Free (t.placeOf root) (Path.names path)) (content : Content) :
    ∃ t', writeFile t (Path.join root path) content = (t', .ok ()) := by
  have hmade := Tree.makeThrough_names t (t.placeOf root) (Path.names path).dropLast
  cases hthrough : t.makeThrough (t.placeOf root) ((Path.names path).dropLast.map .name) with
  | none =>
      rw [hthrough] at hmade
      obtain ⟨q, hq, content', hcontent⟩ := hmade
      exact absurd hcontent (hfree.way q hq content')
  | some t₁ => exact ⟨_, (writeFile_eq_ok_iff hroot hpath).mpr ⟨t₁, hthrough, hfree.target, rfl⟩⟩

end Write

end Files

end ApiForge
