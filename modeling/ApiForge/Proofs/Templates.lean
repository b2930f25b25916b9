import ApiForge.PathTemplate
import ApiForge.Proofs.Order
import ApiForge.Proofs.Places

/-! The paths that templates give. As long as no value has a slash, a path is cut where its template is, so what its
segments can be, and where it can lead, is seen from the template. -/

namespace ApiForge.PathTemplate

variable {value? : String → Option String}

/-! ### Filled templates -/

theorem fill_literal {c : Char} {parts : List Part} {cs : List Char} :
    fill value? (.literal c :: parts) = .ok cs ↔ ∃ rest, fill value? parts = .ok rest ∧ cs = c :: rest := by
  rw [fill]
  cases fill value? parts with
  | error key => simp [Functor.map, Except.map]
  | ok rest => simp [Functor.map, Except.map, eq_comm]

theorem fill_hole {key : String} {parts : List Part} {cs : List Char} :
    fill value? (.hole key :: parts) = .ok cs ↔
      ∃ value rest, value? key = some value ∧ fill value? parts = .ok rest ∧ cs = value.toList ++ rest := by
  rw [fill]
  cases value? key with
  | none => simp
  | some value =>
      cases fill value? parts with
      | error key => simp [Functor.map, Except.map]
      | ok rest => simp [Functor.map, Except.map, eq_comm]

theorem fill_literals (cs : List Char) : fill value? (cs.map .literal) = .ok cs := by
  induction cs with
  | nil => rfl
  | cons c cs ih => exact fill_literal.mpr ⟨cs, ih, rfl⟩

/-- A template without placeholders has one path. -/
theorem fill_of_plain {parts : List Part} {cs : List Char} (h : fill (fun _ => none) parts = .ok cs) :
    fill value? parts = .ok cs := by
  induction parts generalizing cs with
  | nil => exact h
  | cons part parts ih =>
      cases part with
      | literal c =>
          obtain ⟨rest, hrest, rfl⟩ := fill_literal.mp h
          exact fill_literal.mpr ⟨rest, ih hrest, rfl⟩
      | hole key =>
          obtain ⟨value, rest, hvalue, -⟩ := fill_hole.mp h
          cases hvalue

def Part.key? : Part → Option String
  | literal _ => none
  | hole key => some key

/-- The placeholders of a template. -/
def keys (parts : List Part) : List String :=
  parts.filterMap Part.key?

theorem keys_hole (key : String) (parts : List Part) : keys (.hole key :: parts) = key :: keys parts :=
  rfl

theorem exists_fill {parts : List Part}
    (h : ∀ key ∈ keys parts, ∃ value, value? key = some value) : ∃ cs, fill value? parts = .ok cs := by
  induction parts with
  | nil => exact ⟨[], rfl⟩
  | cons part parts ih =>
      cases part with
      | literal c =>
          obtain ⟨cs, hcs⟩ := ih h
          exact ⟨c :: cs, fill_literal.mpr ⟨cs, hcs, rfl⟩⟩
      | hole key =>
          rw [keys_hole, List.forall_mem_cons] at h
          obtain ⟨value, hvalue⟩ := h.1
          obtain ⟨cs, hcs⟩ := ih h.2
          exact ⟨value.toList ++ cs, fill_hole.mpr ⟨value, cs, hvalue, hcs, rfl⟩⟩

theorem expand_eq_ok_iff {template target path : String} :
    expand template target value? = .ok path ↔
      (parse template.toList).2 = true ∧
        ∃ cs, fill value? (parse template.toList).1 = .ok cs ∧ path = String.ofList cs := by
  rw [expand]
  cases fill value? (parse template.toList).1 with
  | error key => simp
  | ok cs => cases (parse template.toList).2 <;> simp [eq_comm]

/-- The values of the placeholders have no slashes. -/
def Slashless (value? : String → Option String) (parts : List Part) : Prop :=
  ∀ key value, .hole key ∈ parts → value? key = some value → '/' ∉ value.toList

theorem Slashless.tail {part : Part} {parts : List Part} (h : Slashless value? (part :: parts)) :
    Slashless value? parts :=
  fun key value hkey => h key value (List.mem_cons_of_mem part hkey)

/-! ### Segments -/

/-- A template cut at its slashes, as texts are. -/
def cutParts : List Part → List Part × List (List Part)
  | [] => ([], [])
  | .literal c :: parts =>
    let rest := cutParts parts
    if c = '/' then ([], rest.1 :: rest.2) else (.literal c :: rest.1, rest.2)
  | .hole key :: parts =>
    let rest := cutParts parts
    (.hole key :: rest.1, rest.2)

def segmentParts (parts : List Part) : List (List Part) :=
  (cutParts parts).1 :: (cutParts parts).2

theorem pieces_cons (c : Char) (cs : List Char) :
    Path.pieces (c :: cs) =
      if c = '/' then [] :: Path.pieces cs else (c :: (Path.cut cs).1) :: (Path.cut cs).2 := by
  rw [Path.pieces, Path.cut]
  by_cases hc : c = '/'
  · simp only [if_pos hc]
    rfl
  · simp only [if_neg hc]

theorem pieces_append {value : List Char} (hslash : '/' ∉ value) (cs : List Char) :
    Path.pieces (value ++ cs) = (value ++ (Path.cut cs).1) :: (Path.cut cs).2 := by
  induction value with
  | nil => rfl
  | cons c value ih =>
      rw [List.mem_cons, not_or] at hslash
      have htail := ih hslash.2
      rw [Path.pieces, List.cons.injEq] at htail
      rw [List.cons_append, pieces_cons, if_neg (Ne.symm hslash.1), htail.1, htail.2, List.cons_append]

/-- Filling a template fills each of its segments. -/
theorem fill_segments {parts : List Part} {cs : List Char} (hslash : Slashless value? parts)
    (hfill : fill value? parts = .ok cs) :
    List.Forall₂ (fun ps piece => fill value? ps = .ok piece) (segmentParts parts) (Path.pieces cs) := by
  induction parts generalizing cs with
  | nil =>
      cases hfill
      exact List.Forall₂.cons rfl List.Forall₂.nil
  | cons part parts ih =>
      cases part with
      | literal c =>
          obtain ⟨rest, hrest, rfl⟩ := fill_literal.mp hfill
          have htail := ih hslash.tail hrest
          rw [segmentParts, cutParts, pieces_cons]
          split
          · exact List.Forall₂.cons rfl htail
          · obtain ⟨hfirst, hothers⟩ := List.forall₂_cons.mp htail
            exact List.Forall₂.cons (fill_literal.mpr ⟨_, hfirst, rfl⟩) hothers
      | hole key =>
          obtain ⟨value, rest, hvalue, hrest, rfl⟩ := fill_hole.mp hfill
          obtain ⟨hfirst, hothers⟩ := List.forall₂_cons.mp (ih hslash.tail hrest)
          rw [segmentParts, cutParts, pieces_append (hslash key value List.mem_cons_self hvalue)]
          exact List.Forall₂.cons (fill_hole.mpr ⟨value, _, hvalue, hfirst, rfl⟩) hothers

/-- Some character of the segment is no dot, whatever its placeholders stand for. -/
def solid : List Part → Bool
  | [] => false
  | .literal c :: parts => c != '.' || solid parts
  | .hole key :: parts => key == "version" || key == "controller" || solid parts

/-- The values of the placeholders that make a segment solid have a character that is no dot. -/
def Grounded (value? : String → Option String) : Prop :=
  ∀ key value, (key = "version" ∨ key = "controller") → value? key = some value → ∃ c ∈ value.toList, c ≠ '.'

theorem isName_of_mem {cs : List Char} {c : Char} (hc : c ∈ cs) (hdot : c ≠ '.') : Path.IsName (String.ofList cs) := by
  rw [Path.isName_iff]
  refine ⟨?_, ?_, ?_⟩ <;> intro h <;> rw [← String.toList_inj, String.toList_ofList] at h <;> rw [h] at hc <;>
    simp_all

theorem isName_of_solid (hgrounded : Grounded value?) {parts : List Part} {cs : List Char}
    (hsolid : solid parts = true) (hfill : fill value? parts = .ok cs) : Path.IsName (String.ofList cs) := by
  have hchar : ∃ c ∈ cs, c ≠ '.' := by
    induction parts generalizing cs with
    | nil => cases hsolid
    | cons part parts ih =>
        cases part with
        | literal c =>
            obtain ⟨rest, hrest, rfl⟩ := fill_literal.mp hfill
            rw [solid, Bool.or_eq_true, bne_iff_ne] at hsolid
            rcases hsolid with hc | hsolid
            · exact ⟨c, List.mem_cons_self, hc⟩
            · obtain ⟨d, hd, hdot⟩ := ih hsolid hrest
              exact ⟨d, List.mem_cons_of_mem c hd, hdot⟩
        | hole key =>
            obtain ⟨value, rest, hvalue, hrest, rfl⟩ := fill_hole.mp hfill
            rw [solid, Bool.or_eq_true, Bool.or_eq_true, beq_iff_eq, beq_iff_eq] at hsolid
            rcases hsolid with hkey | hsolid
            · obtain ⟨c, hc, hdot⟩ := hgrounded key value hkey hvalue
              exact ⟨c, List.mem_append_left _ hc, hdot⟩
            · obtain ⟨d, hd, hdot⟩ := ih hsolid hrest
              exact ⟨d, List.mem_append_right _ hd, hdot⟩
  obtain ⟨c, hc, hdot⟩ := hchar
  exact isName_of_mem hc hdot

/-! ### Places -/

/-- Paths of a template whose segments are all solid lead down, one name a segment. -/
theorem walk_solid (hgrounded : Grounded value?) {parts : List Part} {cs : List Char}
    (hslash : Slashless value? parts) (hfill : fill value? parts = .ok cs)
    (hsolid : (segmentParts parts).all solid = true) (place : Files.Place) :
    Path.walk place (Path.segments (String.ofList cs)) = place ++ Path.segments (String.ofList cs) := by
  apply Path.walk_names
  intro n hn
  rw [Path.segments_eq, String.toList_ofList] at hn
  obtain ⟨piece, hpiece, rfl⟩ := List.mem_map.mp hn
  obtain ⟨ps, hps, hpiece⟩ := exists_of_forall₂ (fill_segments hslash hfill) hpiece
  exact isName_of_solid hgrounded (List.all_eq_true.mp hsolid ps hps) hpiece

/-- What the segments of a path are filled with. -/
theorem fill_segments_path {parts : List Part} {cs : List Char} (hslash : Slashless value? parts)
    (hfill : fill value? parts = .ok cs) :
    List.Forall₂ (fun ps segment => fill value? ps = .ok segment.toList) (segmentParts parts)
      (Path.segments (String.ofList cs)) := by
  rw [Path.segments_eq, String.toList_ofList, List.forall₂_map_right_iff]
  refine (fill_segments hslash hfill).imp fun ps piece hpiece => ?_
  rw [String.toList_ofList]
  exact hpiece

/-- A segment without placeholders that is not `name`. -/
def differs (parts : List Part) (name : String) : Bool :=
  match fill (fun _ => none) parts with
  | .ok cs => cs != name.toList
  | .error _ => false

theorem fill_ne_of_differs {parts : List Part} {name : String} (h : differs parts name = true) :
    fill value? parts ≠ .ok name.toList := by
  rw [differs] at h
  split at h
  · rename_i cs hcs
    rw [fill_of_plain hcs]
    intro heq
    rw [Except.ok.inj heq] at h
    simp at h
  · cases h

/-- No path of the template leads to a file of `pkg/api` at some version: it does not lead as far down, or it leads
down elsewhere. -/
def apart (parts : List Part) : Bool :=
  decide ((segmentParts parts).length ≤ 3) ||
    (segmentParts parts).all solid && ((segmentParts parts).zip ["pkg", "api"]).any fun e => differs e.1 e.2

theorem walk_ne_of_apart (hgrounded : Grounded value?) {parts : List Part} {cs : List Char}
    (hslash : Slashless value? parts) (hfill : fill value? parts = .ok cs) (hapart : apart parts = true)
    (place : Files.Place) (version file : String) :
    Path.walk place (Path.segments (String.ofList cs)) ≠ place ++ ["pkg", "api", version, file] := by
  have hsegments := fill_segments_path hslash hfill
  intro hwalk
  rw [apart, Bool.or_eq_true, decide_eq_true_eq, Bool.and_eq_true] at hapart
  rcases hapart with hshort | ⟨hsolid, hdiffers⟩
  · have hle := Path.length_walk_le place (Path.segments (String.ofList cs))
    have hlength := congrArg List.length hwalk
    rw [List.length_append] at hlength
    simp only [List.length_cons, List.length_nil] at hlength
    rw [← hsegments.length_eq] at hle
    omega
  · rw [walk_solid hgrounded hslash hfill hsolid, List.append_cancel_left_eq] at hwalk
    rw [hwalk] at hsegments
    obtain ⟨first, rest, hfirst, hrest, heq⟩ := List.forall₂_cons_right_iff.mp hsegments
    obtain ⟨second, rest', hsecond, -, heq'⟩ := List.forall₂_cons_right_iff.mp hrest
    rw [heq, heq', List.zip_cons_cons, List.zip_cons_cons, List.zip_nil_right, List.any_cons, List.any_cons,
      List.any_nil, Bool.or_false, Bool.or_eq_true] at hdiffers
    rcases hdiffers with hdiffers | hdiffers
    · exact fill_ne_of_differs hdiffers hfirst
    · exact fill_ne_of_differs hdiffers hsecond

/-! ### Matching -/

theorem accepts_nil_iff {cs : List Char} : accepts [] cs = true ↔ cs = [] := by
  rw [accepts, List.isEmpty_iff]

theorem accepts_literal_iff {c : Char} {parts : List Part} {cs : List Char} :
    accepts (.literal c :: parts) cs = true ↔ ∃ rest, cs = c :: rest ∧ accepts parts rest = true := by
  cases cs with
  | nil => exact iff_of_false (fun h => by cases h) fun ⟨rest, hnil, _⟩ => List.cons_ne_nil c rest hnil.symm
  | cons d cs =>
      rw [accepts, Bool.and_eq_true, beq_iff_eq]
      constructor
      · rintro ⟨rfl, hrest⟩
        exact ⟨cs, rfl, hrest⟩
      · rintro ⟨rest, hcs, hrest⟩
        obtain ⟨rfl, rfl⟩ := List.cons.inj hcs
        exact ⟨rfl, hrest⟩

/-- A placeholder stands for one or more characters that are no slashes. -/
theorem accepts_hole_iff {key : String} {parts : List Part} {cs : List Char} :
    accepts (.hole key :: parts) cs = true ↔
      ∃ value rest, value ≠ [] ∧ '/' ∉ value ∧ cs = value ++ rest ∧ accepts parts rest = true := by
  induction cs with
  | nil =>
      refine iff_of_false (fun h => by cases h) ?_
      rintro ⟨value, rest, hne, -, hcs, -⟩
      exact hne (List.append_eq_nil_iff.mp hcs.symm).1
  | cons c cs ih =>
      rw [accepts, Bool.and_eq_true, Bool.or_eq_true, bne_iff_ne, ih]
      constructor
      · rintro ⟨hc, hrest | ⟨value, rest, -, hslash, rfl, hrest⟩⟩
        · exact ⟨[c], cs, List.cons_ne_nil c [], by simpa using Ne.symm hc, rfl, hrest⟩
        · refine ⟨c :: value, rest, List.cons_ne_nil c value, ?_, rfl, hrest⟩
          rw [List.mem_cons, not_or]
          exact ⟨Ne.symm hc, hslash⟩
      · rintro ⟨value, rest, hne, hslash, hcs, hrest⟩
        cases value with
        | nil => exact absurd rfl hne
        | cons d value =>
            rw [List.cons_append, List.cons.injEq] at hcs
            obtain ⟨rfl, rfl⟩ := hcs
            rw [List.mem_cons, not_or] at hslash
            refine ⟨Ne.symm hslash.1, ?_⟩
            by_cases hvalue : value = []
            · rw [hvalue]
              exact Or.inl hrest
            · exact Or.inr ⟨value, rest, hvalue, hslash.2, rfl, hrest⟩

/-- A path that a template accepts can be cut where the template is. -/
theorem accepts_append {front back : List Part} {cs : List Char} :
    accepts (front ++ back) cs = true ↔
      ∃ ds es, cs = ds ++ es ∧ accepts front ds = true ∧ accepts back es = true := by
  induction front generalizing cs with
  | nil => simp [accepts_nil_iff]
  | cons part front ih =>
      rw [List.cons_append]
      cases part with
      | literal c =>
          simp only [accepts_literal_iff, ih]
          constructor
          · rintro ⟨rest, rfl, ds, es, rfl, hds, hes⟩
            exact ⟨c :: ds, es, rfl, ⟨ds, rfl, hds⟩, hes⟩
          · rintro ⟨_, es, rfl, ⟨ds, rfl, hds⟩, hes⟩
            exact ⟨ds ++ es, rfl, ds, es, rfl, hds, hes⟩
      | hole key =>
          simp only [accepts_hole_iff, ih]
          constructor
          · rintro ⟨value, rest, hne, hslash, rfl, ds, es, rfl, hds, hes⟩
            exact ⟨value ++ ds, es, (List.append_assoc ..).symm, ⟨value, ds, hne, hslash, rfl, hds⟩, hes⟩
          · rintro ⟨_, es, rfl, ⟨value, ds, hne, hslash, rfl, hds⟩, hes⟩
            exact ⟨value, ds ++ es, hne, hslash, List.append_assoc .., ds, es, rfl, hds, hes⟩

theorem accepts_literals {cs ds : List Char} : accepts (cs.map .literal) ds = true ↔ ds = cs := by
  induction cs generalizing ds with
  | nil => exact accepts_nil_iff
  | cons c cs ih => simp [accepts_literal_iff, ih]

theorem accepts_hole {key : String} {cs : List Char} (hne : cs ≠ []) (hslash : '/' ∉ cs) :
    accepts [.hole key] cs = true :=
  accepts_hole_iff.mpr ⟨cs, [], hne, hslash, (List.append_nil cs).symm, rfl⟩

/-- A part that is no slash stands for something that does not end in one. -/
theorem exists_of_accepts {part : Part} {cs : List Char} (hpart : part ≠ .literal '/')
    (h : accepts [part] cs = true) : ∃ ds d, cs = ds ++ [d] ∧ d ≠ '/' := by
  cases part with
  | literal c =>
      obtain ⟨rest, rfl, hrest⟩ := accepts_literal_iff.mp h
      rw [accepts_nil_iff.mp hrest]
      exact ⟨[], c, rfl, fun hc => hpart (congrArg _ hc)⟩
  | hole key =>
      obtain ⟨value, rest, hne, hslash, rfl, hrest⟩ := accepts_hole_iff.mp h
      obtain ⟨ds, d, rfl⟩ := (List.eq_nil_or_concat' value).resolve_left hne
      rw [accepts_nil_iff.mp hrest, List.append_nil]
      refine ⟨ds, d, rfl, fun hd => hslash ?_⟩
      rw [hd]
      exact List.mem_append_right ds List.mem_cons_self

end ApiForge.PathTemplate
