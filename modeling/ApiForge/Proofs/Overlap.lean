import ApiForge.Proofs.Templates

/-! When the paths of templates can be the same. Segments are never the same text when what is written at the front or
at the end of both differs, so most templates are told apart by themselves. And as long as a segment has one placeholder
at most, paths of one template are the same only for the same values. -/

namespace ApiForge.PathTemplate

variable {value? value'? : String → Option String}

/-! ### Segments of different templates -/

theorem fill_append {front back : List Part} {cs : List Char} :
    fill value? (front ++ back) = .ok cs ↔
      ∃ ds es, fill value? front = .ok ds ∧ fill value? back = .ok es ∧ cs = ds ++ es := by
  induction front generalizing cs with
  | nil => simp [fill]
  | cons part front ih =>
      rw [List.cons_append]
      cases part with
      | literal c =>
          simp only [fill_literal, ih]
          constructor
          · rintro ⟨_, ⟨ds, es, hds, hes, rfl⟩, rfl⟩
            exact ⟨c :: ds, es, ⟨ds, hds, rfl⟩, hes, rfl⟩
          · rintro ⟨_, es, ⟨ds, hds, rfl⟩, hes, rfl⟩
            exact ⟨ds ++ es, ⟨ds, es, hds, hes, rfl⟩, rfl⟩
      | hole key =>
          simp only [fill_hole, ih]
          constructor
          · rintro ⟨value, _, hvalue, ⟨ds, es, hds, hes, rfl⟩, rfl⟩
            exact ⟨value.toList ++ ds, es, ⟨value, ds, hvalue, hds, rfl⟩, hes, (List.append_assoc ..).symm⟩
          · rintro ⟨_, es, ⟨value, ds, hvalue, hds, rfl⟩, hes, rfl⟩
            exact ⟨value, ds ++ es, hvalue, ⟨ds, es, hds, hes, rfl⟩, List.append_assoc ..⟩

/-- What is written in front of the first placeholder. -/
def beginning : List Part → List Char
  | .literal c :: parts => c :: beginning parts
  | _ => []

/-- What is written behind the last placeholder. -/
def ending (parts : List Part) : List Char :=
  (beginning parts.reverse).reverse

theorem exists_beginning (parts : List Part) : ∃ rest, parts = (beginning parts).map .literal ++ rest := by
  induction parts with
  | nil => exact ⟨[], rfl⟩
  | cons part parts ih =>
      cases part with
      | literal c =>
          obtain ⟨rest, hrest⟩ := ih
          exact ⟨rest, congrArg (.literal c :: ·) hrest⟩
      | hole key => exact ⟨.hole key :: parts, rfl⟩

theorem prefix_of_fill {parts : List Part} {cs : List Char} (h : fill value? parts = .ok cs) :
    beginning parts <+: cs := by
  obtain ⟨rest, hparts⟩ := exists_beginning parts
  rw [hparts, fill_append] at h
  obtain ⟨ds, es, hds, -, rfl⟩ := h
  rw [fill_literals, Except.ok.injEq] at hds
  exact hds ▸ List.prefix_append ds es

theorem suffix_of_fill {parts : List Part} {cs : List Char} (h : fill value? parts = .ok cs) : ending parts <:+ cs := by
  obtain ⟨rest, hparts⟩ := exists_beginning parts.reverse
  have hreverse : parts = rest.reverse ++ (ending parts).map .literal := by
    rw [ending, List.map_reverse, ← List.reverse_append, ← hparts, List.reverse_reverse]
  rw [hreverse, fill_append] at h
  obtain ⟨ds, es, -, hes, rfl⟩ := h
  rw [fill_literals, Except.ok.injEq] at hes
  exact hes ▸ List.suffix_append ds es

/-- The segments are written differently at the front or at the end, so they are not the same for any values. -/
def opposed (ps qs : List Part) : Bool :=
  !((beginning ps).isPrefixOf (beginning qs) || (beginning qs).isPrefixOf (beginning ps)) ||
    !((ending ps).isSuffixOf (ending qs) || (ending qs).isSuffixOf (ending ps))

theorem ne_of_opposed {ps qs : List Part} {cs ds : List Char} (h : opposed ps qs = true)
    (hfill : fill value? ps = .ok cs) (hfill' : fill value'? qs = .ok ds) : cs ≠ ds := by
  rintro rfl
  have hfront := List.prefix_or_prefix_of_prefix (prefix_of_fill hfill) (prefix_of_fill hfill')
  have hback := List.suffix_or_suffix_of_suffix (suffix_of_fill hfill) (suffix_of_fill hfill')
  rw [← List.isPrefixOf_iff_prefix, ← List.isPrefixOf_iff_prefix, ← Bool.or_eq_true] at hfront
  rw [← List.isSuffixOf_iff_suffix, ← List.isSuffixOf_iff_suffix, ← Bool.or_eq_true] at hback
  rw [opposed, hfront, hback] at h
  cases h

/-! ### Paths of different templates -/

/-- What the segments are filled with. -/
def Filled (value? : String → Option String) (segments : List (List Part)) (texts : List String) : Prop :=
  List.Forall₂ (fun ps text => fill value? ps = .ok text.toList) segments texts

theorem exists_concat_of_filled {segments : List (List Part)} {last : List Part} {texts : List String}
    (h : Filled value? (segments ++ [last]) texts) :
    ∃ front text, texts = front ++ [text] ∧ Filled value? segments front ∧ fill value? last = .ok text.toList := by
  induction segments generalizing texts with
  | nil =>
      obtain ⟨text, rest, htext, hrest, rfl⟩ := List.forall₂_cons_left_iff.mp h
      rw [List.forall₂_nil_left_iff.mp hrest]
      exact ⟨[], text, rfl, List.Forall₂.nil, htext⟩
  | cons ps segments ih =>
      obtain ⟨first, rest, hfirst, hrest, rfl⟩ := List.forall₂_cons_left_iff.mp h
      obtain ⟨front, text, rfl, hfront, htext⟩ := ih hrest
      exact ⟨first :: front, text, rfl, List.Forall₂.cons hfirst hfront, htext⟩

/-- What the segments stand for. -/
def componentsOf (texts : List String) : List Path.Component :=
  texts.filterMap Path.Component.ofSegment?

theorem componentsOf_cons_eq (text : String) (texts : List String) :
    componentsOf (text :: texts) = (Path.Component.ofSegment? text).toList ++ componentsOf texts := by
  rw [componentsOf, List.filterMap_cons]
  cases Path.Component.ofSegment? text <;> rfl

theorem ofSegment?_of_solid (hgrounded : Grounded value?) {ps : List Part} {text : String} (hsolid : solid ps = true)
    (hfill : fill value? ps = .ok text.toList) : Path.Component.ofSegment? text = some (.name text) := by
  have hname := isName_of_solid hgrounded hsolid hfill
  rw [String.ofList_toList] at hname
  exact hname

theorem componentsOf_cons (hgrounded : Grounded value?) {ps : List Part} {text : String} (hsolid : solid ps = true)
    (hfill : fill value? ps = .ok text.toList) (texts : List String) :
    componentsOf (text :: texts) = .name text :: componentsOf texts := by
  rw [componentsOf, List.filterMap_cons_some (ofSegment?_of_solid hgrounded hsolid hfill)]
  rfl

/-- Some segments in the same place are opposed, or one path is longer, and up to there all of them stand for names. -/
def separate : List (List Part) → List (List Part) → Bool
  | ps :: segments, qs :: segments' => solid ps && solid qs && (opposed ps qs || separate segments segments')
  | [], qs :: _ => solid qs
  | ps :: _, [] => solid ps
  | [], [] => false

theorem ne_of_separate (hgrounded : Grounded value?) (hgrounded' : Grounded value'?)
    {segments segments' : List (List Part)} {texts texts' : List String} (h : separate segments segments' = true)
    (hfill : Filled value? segments texts) (hfill' : Filled value'? segments' texts') :
    componentsOf texts ≠ componentsOf texts' := by
  induction hfill generalizing segments' texts' with
  | nil =>
      cases hfill' with
      | nil => cases h
      | cons hq _ =>
          rw [componentsOf_cons hgrounded' h hq]
          exact (List.cons_ne_nil _ _).symm
  | cons hp _ ih =>
      cases hfill' with
      | nil =>
          rw [componentsOf_cons hgrounded h hp]
          exact List.cons_ne_nil _ _
      | cons hq hrest' =>
          rw [separate, Bool.and_eq_true, Bool.and_eq_true, Bool.or_eq_true] at h
          obtain ⟨⟨hsolid, hsolid'⟩, hopposed | hlater⟩ := h
          · rw [componentsOf_cons hgrounded hsolid hp, componentsOf_cons hgrounded' hsolid' hq]
            intro heq
            rw [List.cons.injEq, Path.Component.name.injEq] at heq
            exact ne_of_opposed hopposed hp hq (congrArg String.toList heq.1)
          · rw [componentsOf_cons hgrounded hsolid hp, componentsOf_cons hgrounded' hsolid' hq]
            intro heq
            exact ih hlater hrest' (List.cons.inj heq).2

/-! ### Paths of one template -/

/-- At most one segment may stand for something else than a name. -/
def steady : List (List Part) → Bool
  | [] => true
  | ps :: segments => if solid ps then steady segments else segments.all solid

theorem steady_of_all_solid {segments : List (List Part)} (h : segments.all solid = true) : steady segments = true := by
  induction segments with
  | nil => rfl
  | cons ps segments ih =>
      rw [List.all_cons, Bool.and_eq_true] at h
      rw [steady, if_pos h.1]
      exact ih h.2

theorem length_componentsOf (hgrounded : Grounded value?) {segments : List (List Part)} {texts : List String}
    (hsolid : segments.all solid = true) (hfill : Filled value? segments texts) :
    (componentsOf texts).length = segments.length := by
  induction hfill with
  | nil => rfl
  | cons hp _ ih =>
      rw [List.all_cons, Bool.and_eq_true] at hsolid
      rw [componentsOf_cons hgrounded hsolid.1 hp, List.length_cons, List.length_cons, ih hsolid.2]

/-- The same components in the same places, as a segment without a component is found by what is behind it. -/
theorem ofSegment?_eq_of_steady (hgrounded : Grounded value?) (hgrounded' : Grounded value'?)
    {segments : List (List Part)} {texts texts' : List String} (h : steady segments = true)
    (hfill : Filled value? segments texts) (hfill' : Filled value'? segments texts')
    (heq : componentsOf texts = componentsOf texts') :
    ∀ ps ∈ segments, ∃ text text', fill value? ps = .ok text.toList ∧ fill value'? ps = .ok text'.toList ∧
      Path.Component.ofSegment? text = Path.Component.ofSegment? text' := by
  induction hfill generalizing texts' with
  | nil => exact fun ps hps => absurd hps List.not_mem_nil
  | @cons ps text segments texts hp hrest ih =>
      obtain ⟨text', texts', hq, hrest', rfl⟩ := List.forall₂_cons_left_iff.mp hfill'
      rw [steady] at h
      split at h
      · rename_i hsolid
        rw [componentsOf_cons hgrounded hsolid hp, componentsOf_cons hgrounded' hsolid hq, List.cons.injEq] at heq
        refine List.forall_mem_cons.mpr ⟨⟨text, text', hp, hq, ?_⟩, ih h hrest' heq.2⟩
        rw [ofSegment?_of_solid hgrounded hsolid hp, ofSegment?_of_solid hgrounded' hsolid hq, heq.1]
      · have hlength := (length_componentsOf hgrounded h hrest).trans (length_componentsOf hgrounded' h hrest').symm
        have hsteady : steady segments = true := steady_of_all_solid h
        rw [componentsOf_cons_eq, componentsOf_cons_eq] at heq
        obtain ⟨hhead, htail⟩ := List.append_inj' heq hlength
        have hcomponent := congrArg List.head? hhead
        rw [Option.head?_toList, Option.head?_toList] at hcomponent
        exact List.forall_mem_cons.mpr ⟨⟨text, text', hp, hq, hcomponent⟩, ih hsteady hrest' htail⟩

/-! ### Values -/

/-- A text without placeholders is the same for all values. -/
theorem fill_of_keys_nil {parts : List Part} (hkeys : keys parts = []) {cs ds : List Char}
    (hfill : fill value? parts = .ok cs) (hfill' : fill value'? parts = .ok ds) : cs = ds := by
  induction parts generalizing cs ds with
  | nil =>
      cases hfill
      cases hfill'
      rfl
  | cons part parts ih =>
      cases part with
      | literal c =>
          obtain ⟨rest, hrest, rfl⟩ := fill_literal.mp hfill
          obtain ⟨rest', hrest', rfl⟩ := fill_literal.mp hfill'
          rw [ih hkeys hrest hrest']
      | hole key => cases hkeys

/-! ### Values and components -/

theorem keys_flatten (segments : List (List Part)) : keys segments.flatten = segments.flatMap keys := by
  rw [keys, List.filterMap_flatten, List.flatMap_def]
  rfl

/-- Where each placeholder stands by itself, paths of one template are the same exactly for values that stand for the
same components. -/
theorem componentsOf_eq_iff (hgrounded : Grounded value?) (hgrounded' : Grounded value'?)
    {segments : List (List Part)} {texts texts' : List String} (hsteady : steady segments = true)
    (hwhole : ∀ ps ∈ segments, keys ps = [] ∨ ∃ key ∈ keys ps, ps = [.hole key])
    (hfill : Filled value? segments texts) (hfill' : Filled value'? segments texts') :
    componentsOf texts = componentsOf texts' ↔ ∀ key ∈ keys segments.flatten,
      (value? key).bind Path.Component.ofSegment? = (value'? key).bind Path.Component.ofSegment? := by
  have hhole {value? : String → Option String} {key text : String} (h : fill value? [.hole key] = .ok text.toList) :
      value? key = some text := by
    obtain ⟨value, rest, hvalue, hrest, heq⟩ := fill_hole.mp h
    cases hrest
    rw [List.append_nil, String.toList_inj] at heq
    rw [hvalue, heq]
  rw [keys_flatten]
  constructor
  · intro heq key hkey
    obtain ⟨ps, hps, hkey⟩ := List.mem_flatMap.mp hkey
    obtain ⟨text, text', hp, hq, hsame⟩ := ofSegment?_eq_of_steady hgrounded hgrounded' hsteady hfill hfill' heq ps hps
    rcases hwhole ps hps with hnone | ⟨other, -, rfl⟩
    · rw [hnone] at hkey
      cases hkey
    · rw [List.mem_singleton.mp hkey, hhole hp, hhole hq]
      exact hsame
  · intro hvalues
    clear hsteady
    induction hfill generalizing texts' with
    | nil => rw [List.forall₂_nil_left_iff.mp hfill']
    | @cons ps text segments texts hp hrest ih =>
        obtain ⟨text', texts', hq, hrest', rfl⟩ := List.forall₂_cons_left_iff.mp hfill'
        rw [List.forall_mem_cons] at hwhole
        rw [List.flatMap_cons, List.forall_mem_append] at hvalues
        rw [componentsOf_cons_eq, componentsOf_cons_eq, ih hwhole.2 hrest' hvalues.2]
        rcases hwhole.1 with hnone | ⟨key, hkey, rfl⟩
        · rw [String.toList_inj.mp (fill_of_keys_nil hnone hp hq)]
        · have hsame := hvalues.1 key hkey
          rw [hhole hp, hhole hq] at hsame
          rw [show Path.Component.ofSegment? text = Path.Component.ofSegment? text' from hsame]

end ApiForge.PathTemplate
