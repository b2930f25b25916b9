import ApiForge.Files.Access
import Mathlib.Data.List.TakeWhile
import Mathlib.Data.String.Basic

/-! Where paths lead. Following a path needs directories on the way, but where it arrives can be read off its segments
alone, and the files of a tree only decide whether it arrives. -/

namespace ApiForge

namespace Path

/-! ### Segments -/

/-- The pieces of a text between its slashes. -/
def pieces (cs : List Char) : List (List Char) :=
  (cut cs).1 :: (cut cs).2

theorem segments_eq (path : String) : segments path = (pieces path.toList).map String.ofList :=
  rfl

theorem pieces_append_slash (front back : List Char) : pieces (front ++ '/' :: back) = pieces front ++ pieces back := by
  induction front with
  | nil => rfl
  | cons c front ih =>
      rw [pieces, List.cons_append, cut, pieces, cut]
      rw [pieces, pieces, List.cons_append, List.cons.injEq] at ih
      by_cases hc : c = '/'
      · simp only [if_pos hc, List.cons_append, ih.1, ih.2]
      · simp only [if_neg hc, List.cons_append, ih.1, ih.2]

theorem pieces_of_slashless {cs : List Char} (h : '/' ∉ cs) : pieces cs = [cs] := by
  induction cs with
  | nil => rfl
  | cons c cs ih =>
      rw [List.mem_cons, not_or] at h
      have htail := ih h.2
      rw [pieces, List.cons.injEq] at htail
      rw [pieces, cut]
      simp only [if_neg (Ne.symm h.1), htail.1, htail.2]

theorem segments_append_slash (front back : String) :
    segments (front ++ "/" ++ back) = segments front ++ segments back := by
  rw [segments_eq, String.toList_append, String.toList_append, List.append_assoc]
  exact (congrArg _ (pieces_append_slash front.toList back.toList)).trans (List.map_append ..)

theorem segments_of_slashless {path : String} (h : '/' ∉ path.toList) : segments path = [path] := by
  rw [segments_eq, pieces_of_slashless h, List.map_singleton, String.ofList_toList]

/-- What is put at the end of a text without a slash is at the end of its last piece. -/
theorem pieces_append_of_slashless {back : List Char} (h : '/' ∉ back) (front : List Char) :
    ∃ others last, pieces front = others ++ [last] ∧ pieces (front ++ back) = others ++ [last ++ back] := by
  induction front with
  | nil => exact ⟨[], [], rfl, pieces_of_slashless h⟩
  | cons c front ih =>
      obtain ⟨others, last, hfront, happend⟩ := ih
      have hcons (cs : List Char) : pieces (c :: cs) =
          if c = '/' then [] :: pieces cs else (c :: (pieces cs).headD []) :: (pieces cs).tail := by
        rw [pieces, cut]
        split <;> rfl
      rw [List.cons_append, hcons, hcons, hfront, happend]
      split
      · exact ⟨[] :: others, last, rfl, rfl⟩
      · cases others with
        | nil => exact ⟨[], c :: last, rfl, rfl⟩
        | cons first others => exact ⟨(c :: first) :: others, last, rfl, rfl⟩

theorem slash_not_mem_pieces {cs piece : List Char} (h : piece ∈ pieces cs) : '/' ∉ piece := by
  induction cs generalizing piece with
  | nil =>
      rw [List.mem_singleton.mp h]
      exact List.not_mem_nil
  | cons c cs ih =>
      rw [pieces, cut] at h
      by_cases hc : c = '/'
      · simp only [if_pos hc] at h
        rcases List.mem_cons.mp h with rfl | h
        · exact List.not_mem_nil
        · exact ih h
      · simp only [if_neg hc] at h
        rcases List.mem_cons.mp h with rfl | h
        · rw [List.mem_cons, not_or]
          exact ⟨Ne.symm hc, ih List.mem_cons_self⟩
        · exact ih (List.mem_cons_of_mem _ h)

theorem slash_not_mem_segments {path s : String} (h : s ∈ segments path) : '/' ∉ s.toList := by
  obtain ⟨piece, hpiece, rfl⟩ := List.mem_map.mp h
  rw [String.toList_ofList]
  exact slash_not_mem_pieces hpiece

theorem segments_intercalate (first : String) (others : List String) :
    segments ("/".intercalate (first :: others)) = (first :: others).flatMap segments := by
  induction others generalizing first with
  | nil => rw [String.intercalate_singleton, List.flatMap_singleton]
  | cons second others ih =>
      rw [String.intercalate_cons_cons, segments_append_slash, ih]
      rfl

theorem flatMap_segments_of_slashless {names : List String} (h : ∀ n ∈ names, '/' ∉ n.toList) :
    names.flatMap segments = names := by
  induction names with
  | nil => rfl
  | cons n names ih =>
      rw [List.forall_mem_cons] at h
      rw [List.flatMap_cons, segments_of_slashless h.1, ih h.2, List.singleton_append]

/-- A segment that stands for a name. -/
def IsName (segment : String) : Prop :=
  Component.ofSegment? segment = some (.name segment)

theorem isName_iff {segment : String} : IsName segment ↔ segment ≠ "" ∧ segment ≠ "." ∧ segment ≠ ".." := by
  rw [IsName, Component.ofSegment?]
  split_ifs with hempty hparent
  · rcases hempty with h | h <;> simp [h]
  · simp [hparent]
  · simpa [hparent] using hempty

/-! ### Where segments lead -/

/-- The place that segments lead to from a place. -/
def walk (place : Files.Place) : List String → Files.Place
  | [] => place
  | segment :: rest =>
    match Component.ofSegment? segment with
    | some (.name name) => walk (place ++ [name]) rest
    | some .parent => walk place.dropLast rest
    | _ => walk place rest

theorem walk_append (place : Files.Place) (front back : List String) :
    walk place (front ++ back) = walk (walk place front) back := by
  induction front generalizing place with
  | nil => rfl
  | cons s front ih =>
      rw [List.cons_append, walk, walk]
      split <;> exact ih _

theorem walk_names {names : List String} (h : ∀ n ∈ names, IsName n) (place : Files.Place) :
    walk place names = place ++ names := by
  induction names generalizing place with
  | nil => exact (List.append_nil place).symm
  | cons n names ih =>
      rw [List.forall_mem_cons] at h
      have hn : Component.ofSegment? n = some (.name n) := h.1
      rw [walk, hn]
      simp only [ih h.2, List.append_assoc, List.singleton_append]

theorem walk_blank {segments : List String} (h : ∀ s ∈ segments, s = "") (place : Files.Place) :
    walk place segments = place := by
  induction segments with
  | nil => rfl
  | cons s segments ih =>
      rw [List.forall_mem_cons] at h
      rw [h.1]
      exact ih h.2

/-- What is no component of a path does not matter to where it leads. -/
theorem walk_eq_foldl (place : Files.Place) (segments : List String) :
    walk place segments = (segments.filterMap Component.ofSegment?).foldl
      (fun place component =>
        match component with
        | .name name => place ++ [name]
        | .parent => place.dropLast
        | _ => place) place := by
  induction segments generalizing place with
  | nil => rfl
  | cons s segments ih =>
      rw [walk, List.filterMap_cons]
      cases hs : Component.ofSegment? s with
      | none => exact ih place
      | some component =>
          cases component with
          | name name => exact ih (place ++ [name])
          | parent => exact ih place.dropLast
          | root => exact ih place
          | here => exact ih place

theorem length_walk_le (place : Files.Place) (segments : List String) :
    (walk place segments).length ≤ place.length + segments.length := by
  induction segments generalizing place with
  | nil => exact Nat.le_refl _
  | cons s segments ih =>
      rw [walk, List.length_cons]
      split
      · rename_i name _
        have hrest := ih (place ++ [name])
        rw [List.length_append, List.length_singleton] at hrest
        omega
      · have hrest := ih place.dropLast
        rw [List.length_dropLast] at hrest
        omega
      · have hrest := ih place
        omega

/-- Where a path leads when relative paths start at `base`. -/
def placeFrom (base : Files.Place) (path : String) : Files.Place :=
  walk (if isAbsolute path then [] else base) (segments path)

theorem isAbsolute_append {front : String} (h : front ≠ "") (back : String) :
    isAbsolute (front ++ back) = isAbsolute front := by
  cases hfront : front.toList with
  | nil => exact absurd (String.toList_eq_nil_iff.mp hfront) h
  | cons c cs => rw [isAbsolute, isAbsolute, String.toList_append, hfront, List.cons_append, List.head?_cons,
      List.head?_cons]

/-- The segments of a base that come in front of those of a path; a slash at the end of the base is the one between
them. -/
def joint (base : String) : List String :=
  if base = "" then []
  else if base.toList.getLast? = some '/' then (segments base).dropLast
  else segments base

theorem segments_of_slash_last {base : String} (h : base.toList.getLast? = some '/') (path : String) :
    segments (base ++ path) = (segments base).dropLast ++ segments path ∧
      segments base = (segments base).dropLast ++ [""] := by
  obtain ⟨front, hfront⟩ := List.getLast?_eq_some_iff.mp h
  have hbase : base = String.ofList front ++ "/" := by
    rw [← String.toList_inj, hfront, String.toList_append, String.toList_ofList]
    rfl
  have hsegments : segments base = segments (String.ofList front) ++ [""] := by
    have hempty := segments_append_slash (String.ofList front) ""
    rw [String.append_empty, ← hbase] at hempty
    exact hempty
  rw [hsegments, List.dropLast_concat, hbase, segments_append_slash]
  exact ⟨rfl, rfl⟩

theorem segments_join (base : String) {path : String} (h : isAbsolute path = false) :
    segments (join base path) = joint base ++ segments path := by
  rw [join, h, Bool.false_or, joint]
  by_cases hbase : base = ""
  · rw [if_pos (beq_iff_eq.mpr hbase), if_pos hbase, List.nil_append]
  · rw [if_neg (by simpa using hbase), if_neg hbase]
    by_cases hlast : base.toList.getLast? = some '/'
    · rw [if_pos (beq_iff_eq.mpr hlast), if_pos hlast]
      exact (segments_of_slash_last hlast path).1
    · rw [if_neg (by simpa using hlast), if_neg hlast, segments_append_slash]

theorem walk_joint (base : String) (place : Files.Place) : walk place (joint base) = walk place (segments base) := by
  have hblank : ∀ s ∈ [""], s = "" := fun s hs => List.mem_singleton.mp hs
  rw [joint]
  split
  · rename_i hbase
    rw [hbase]
    exact (walk_blank hblank place).symm
  · split
    · rename_i hlast
      rw [(segments_of_slash_last hlast "").2, List.dropLast_concat, walk_append, walk_blank hblank]
    · rfl

theorem isAbsolute_join (base : String) {path : String} (h : isAbsolute path = false) :
    isAbsolute (join base path) = isAbsolute base := by
  rw [join, h, Bool.false_or]
  by_cases hbase : base = ""
  · rw [if_pos (beq_iff_eq.mpr hbase), h, hbase]
    rfl
  · rw [if_neg (by simpa using hbase)]
    split
    · exact isAbsolute_append hbase path
    · rw [String.append_assoc]
      exact isAbsolute_append hbase _

/-- Bases can be put together before a path is joined to them. -/
theorem join_join (base : String) {front path : String} (hfront : front ≠ "")
    (hlast : front.toList.getLast? ≠ some '/') (h : isAbsolute path = false) :
    join (join base front) path = join base (front ++ "/" ++ path) := by
  have hjoin {b : String} (hb : b ≠ "") (hblast : b.toList.getLast? ≠ some '/') : join b path = b ++ "/" ++ path := by
    rw [join, h, Bool.false_or, if_neg (by simpa using hb), if_neg (by simpa using hblast)]
  have habsolute : isAbsolute (front ++ "/" ++ path) = isAbsolute front := by
    rw [String.append_assoc, isAbsolute_append hfront]
  rw [join.eq_1 base front, join.eq_1 base (front ++ "/" ++ path), habsolute]
  have hends {b : String} : (b ++ front).toList.getLast? ≠ some '/' := by
    obtain ⟨cs, c, hcs⟩ := List.eq_nil_or_concat front.toList |>.resolve_left
      fun hnil => hfront (String.toList_eq_nil_iff.mp hnil)
    rw [hcs, List.concat_eq_append, List.getLast?_concat] at hlast
    rw [String.toList_append, hcs, List.concat_eq_append, ← List.append_assoc, List.getLast?_concat]
    exact hlast
  have hne (b : String) : b ++ front ≠ "" := by
    intro hempty
    rw [String.append_eq_empty_iff] at hempty
    exact hfront hempty.2
  split
  · exact hjoin hfront hlast
  · split
    · rw [hjoin (hne base) hends]
      simp only [String.append_assoc]
    · rw [hjoin (hne (base ++ "/")) hends]
      simp only [String.append_assoc]

theorem same_iff_components {a b : String} : same a b = true ↔ components a = components b :=
  beq_iff_eq

theorem same_comm (a b : String) : same a b = same b a :=
  Bool.beq_comm

theorem same_trans {a b c : String} (hab : same a b = true) (hbc : same b c = true) : same a c = true :=
  same_iff_components.mpr ((same_iff_components.mp hab).trans (same_iff_components.mp hbc))

/-- A relative path leads on from where its base leads. -/
theorem placeFrom_join (start : Files.Place) (base : String) {path : String} (h : isAbsolute path = false) :
    placeFrom start (join base path) = walk (placeFrom start base) (segments path) := by
  rw [placeFrom, placeFrom, isAbsolute_join base h, segments_join base h, walk_append, walk_joint]

end Path

end ApiForge
