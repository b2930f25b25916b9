import ApiForge.Proofs.Templates
import Mathlib.Computability.Language

/-! Which paths a template matches. Braces are read from the left: a placeholder runs from its opening brace to the
first closing one, whatever stands in between, and a closing brace outside is text. What is between the placeholders
stands for itself, so a template is a regular expression of a simple kind, and its paths are those that can be cut
where the template is. Placeholders may touch or share a segment, and then there is more than one way to cut a path. -/

namespace ApiForge.PathTemplate

open scoped Computability

/-! ### Closed templates -/

/-- Every opening brace has a closing one after it. -/
def Closed (template : List Char) : Prop :=
  ∀ front back, template = front ++ '\x7b' :: back → '\x7d' ∈ back

theorem closed_cons_iff {c : Char} {cs : List Char} :
    Closed (c :: cs) ↔ (c = '\x7b' → '\x7d' ∈ cs) ∧ Closed cs := by
  constructor
  · intro h
    refine ⟨?_, fun front back hcs => h (c :: front) back (by rw [hcs, List.cons_append])⟩
    rintro rfl
    exact h [] cs rfl
  · rintro ⟨hfirst, hrest⟩ front back heq
    cases front with
    | nil =>
        obtain ⟨rfl, rfl⟩ := List.cons.inj heq
        exact hfirst rfl
    | cons d front => exact hrest front back (List.cons.inj heq).2

/-- Within a placeholder a closing brace is still to come. -/
theorem parseFrom_closed_iff (key? : Option (List Char)) (cs : List Char) :
    (parseFrom key? cs).2 = true ↔ (key? ≠ none → '\x7d' ∈ cs) ∧ Closed cs := by
  induction cs generalizing key? with
  | nil =>
      have hclosed : Closed [] := fun front back h => absurd h (by simp)
      cases key? <;> simp [parseFrom, hclosed]
  | cons c cs ih =>
      rw [closed_cons_iff]
      cases key? with
      | none =>
          rw [parseFrom]
          by_cases hc : c = '\x7b'
          · simp [hc, ih]
          · simp [hc, ih]
      | some key =>
          rw [parseFrom]
          by_cases hc : c = '\x7d'
          · simp [hc, ih]
          · rw [if_neg hc, ih]
            simp only [ne_eq, reduceCtorEq, not_false_eq_true, true_implies, List.mem_cons, Ne.symm hc, false_or]
            exact ⟨fun h => ⟨h.1, fun _ => h.1, h.2⟩, fun h => ⟨h.1, h.2.2⟩⟩

theorem parse_closed_iff {template : List Char} : (parse template).2 = true ↔ Closed template := by
  rw [parse, parseFrom_closed_iff]
  simp

/-! ### Outlines -/

/-- A template cut at its placeholders: the text in front of the first, and each key with the text behind it. -/
structure Outline where
  lead : List Char
  holes : List (List Char × List Char)
  lead_plain : '\x7b' ∉ lead
  keys_ended : ∀ e ∈ holes, '\x7d' ∉ e.1
  texts_plain : ∀ e ∈ holes, '\x7b' ∉ e.2

namespace Outline

/-- The template that has been cut. -/
def text (o : Outline) : List Char :=
  o.lead ++ o.holes.flatMap fun e => '\x7b' :: e.1 ++ '\x7d' :: e.2

def keys (o : Outline) : List String :=
  o.holes.map fun e => String.ofList e.1

/-- The template with values in the places of its placeholders. -/
def filled (o : Outline) (values : List (List Char)) : List Char :=
  o.lead ++ (List.zipWith (fun value e => value ++ e.2) values o.holes).flatten

def parts (o : Outline) : List Part :=
  o.lead.map .literal ++ o.holes.flatMap fun e => .hole (String.ofList e.1) :: e.2.map .literal

end Outline

theorem parseFrom_plain {cs : List Char} (h : '\x7b' ∉ cs) (rest : List Char) :
    parseFrom none (cs ++ rest) = (cs.map .literal ++ (parseFrom none rest).1, (parseFrom none rest).2) := by
  induction cs with
  | nil => rfl
  | cons c cs ih =>
      rw [List.mem_cons, not_or] at h
      rw [List.cons_append, parseFrom]
      simp only [if_neg (Ne.symm h.1), ih h.2, List.map_cons, List.cons_append]

theorem parseFrom_key {key : List Char} (h : '\x7d' ∉ key) (front rest : List Char) :
    parseFrom (some front) (key ++ '\x7d' :: rest) =
      (.hole (String.ofList (front.reverse ++ key)) :: (parseFrom none rest).1, (parseFrom none rest).2) := by
  induction key generalizing front with
  | nil => simp [parseFrom]
  | cons c key ih =>
      rw [List.mem_cons, not_or] at h
      rw [List.cons_append, parseFrom]
      simp only [if_neg (Ne.symm h.1), ih h.2, List.reverse_cons, List.append_assoc, List.singleton_append]

theorem parseFrom_holes {holes : List (List Char × List Char)} (hkeys : ∀ e ∈ holes, '\x7d' ∉ e.1)
    (htexts : ∀ e ∈ holes, '\x7b' ∉ e.2) :
    parseFrom none (holes.flatMap fun e => '\x7b' :: e.1 ++ '\x7d' :: e.2) =
      (holes.flatMap fun e => .hole (String.ofList e.1) :: e.2.map .literal, true) := by
  induction holes with
  | nil => rfl
  | cons e holes ih =>
      rw [List.forall_mem_cons] at hkeys htexts
      rw [List.flatMap_cons, List.cons_append, List.cons_append, parseFrom]
      simp only [if_true]
      rw [List.append_assoc, List.cons_append, parseFrom_key hkeys.1, parseFrom_plain htexts.1,
        ih hkeys.2 htexts.2]
      rfl

theorem Outline.parse_text (o : Outline) : parse o.text = (o.parts, true) := by
  rw [parse, text, parseFrom_plain o.lead_plain, parseFrom_holes o.keys_ended o.texts_plain, parts]

/-- A closed template can be cut, and within a placeholder it can be once that is closed. -/
theorem exists_outline_or_key {cs : List Char} (h : Closed cs) :
    (∃ o : Outline, o.text = cs) ∧
      ('\x7d' ∈ cs → ∃ key, '\x7d' ∉ key ∧ ∃ o : Outline, cs = key ++ '\x7d' :: o.text) := by
  induction cs with
  | nil =>
      refine ⟨⟨⟨[], [], List.not_mem_nil, ?_, ?_⟩, rfl⟩, fun hmem => absurd hmem List.not_mem_nil⟩
      · exact fun e he => absurd he List.not_mem_nil
      · exact fun e he => absurd he List.not_mem_nil
  | cons c cs ih =>
      obtain ⟨hopen, hrest⟩ := closed_cons_iff.mp h
      obtain ⟨⟨o, ho⟩, hwithin⟩ := ih hrest
      constructor
      · by_cases hc : c = '\x7b'
        · obtain ⟨key, hkey, o', rfl⟩ := hwithin (hopen hc)
          refine ⟨⟨[], (key, o'.lead) :: o'.holes, List.not_mem_nil, ?_, ?_⟩, ?_⟩
          · exact List.forall_mem_cons.mpr ⟨hkey, o'.keys_ended⟩
          · exact List.forall_mem_cons.mpr ⟨o'.lead_plain, o'.texts_plain⟩
          · simp [Outline.text, hc]
        · refine ⟨⟨c :: o.lead, o.holes, ?_, o.keys_ended, o.texts_plain⟩, ?_⟩
          · rw [List.mem_cons, not_or]
            exact ⟨Ne.symm hc, o.lead_plain⟩
          · rw [← ho, Outline.text, Outline.text, List.cons_append]
      · intro hmem
        by_cases hc : c = '\x7d'
        · exact ⟨[], List.not_mem_nil, o, by rw [hc, ho, List.nil_append]⟩
        · obtain ⟨key, hkey, o', hcs⟩ := hwithin ((List.mem_cons.mp hmem).resolve_left (Ne.symm hc))
          refine ⟨c :: key, ?_, o', by rw [hcs, List.cons_append]⟩
          rw [List.mem_cons, not_or]
          exact ⟨Ne.symm hc, hkey⟩

theorem closed_iff_exists_outline {template : List Char} : Closed template ↔ ∃ o : Outline, o.text = template := by
  constructor
  · exact fun h => (exists_outline_or_key h).1
  · rintro ⟨o, rfl⟩
    rw [← parse_closed_iff, o.parse_text]

/-! ### Regular expressions -/

/-- One character that is no slash. -/
def noSlash : Language Char :=
  {cs | ∃ c, c ≠ '/' ∧ cs = [c]}

/-- One or more characters that are no slashes. -/
def someNoSlash : Language Char :=
  noSlash * noSlash∗

/-- The texts of the regular expression that a template is: what is between placeholders stands for itself, and each
placeholder for some characters that are no slashes. -/
def Outline.language (o : Outline) : Language Char :=
  {o.lead} * (o.holes.map fun e => someNoSlash * {e.2}).prod

/-- A value that a placeholder stands for when paths are matched. -/
def Fits (value : List Char) : Prop :=
  value ≠ [] ∧ '/' ∉ value

theorem mem_someNoSlash_iff {value : List Char} : value ∈ someNoSlash ↔ Fits value := by
  rw [someNoSlash, Language.mem_mul]
  symm
  constructor
  · rintro ⟨hne, hslash⟩
    cases value with
    | nil => exact absurd rfl hne
    | cons c cs =>
        rw [List.mem_cons, not_or] at hslash
        refine ⟨[c], ⟨c, Ne.symm hslash.1, rfl⟩, cs, Language.mem_kstar.mpr ⟨cs.map fun d => [d], ?_, ?_⟩, rfl⟩
        · rw [← List.flatMap_def, List.flatMap_singleton']
        · intro piece hpiece
          obtain ⟨d, hd, rfl⟩ := List.mem_map.mp hpiece
          exact ⟨d, fun heq => hslash.2 (heq ▸ hd), rfl⟩
  · rintro ⟨_, ⟨c, hc, rfl⟩, _, hrest, rfl⟩
    obtain ⟨pieces, rfl, hpieces⟩ := Language.mem_kstar.mp hrest
    refine ⟨List.cons_ne_nil _ _, ?_⟩
    rw [List.singleton_append, List.mem_cons, not_or]
    refine ⟨Ne.symm hc, fun hmem => ?_⟩
    obtain ⟨piece, hpiece, hmem⟩ := List.mem_flatten.mp hmem
    obtain ⟨d, hd, rfl⟩ := hpieces piece hpiece
    exact hd (List.mem_singleton.mp hmem).symm

theorem mem_prod_holes_iff {holes : List (List Char × List Char)} {cs : List Char} :
    cs ∈ (holes.map fun e => someNoSlash * ({e.2} : Language Char)).prod ↔
      ∃ values : List (List Char), values.length = holes.length ∧ (∀ value ∈ values, Fits value) ∧
        cs = (List.zipWith (fun value e => value ++ e.2) values holes).flatten := by
  induction holes generalizing cs with
  | nil =>
      rw [List.map_nil, List.prod_nil, Language.mem_one]
      constructor
      · rintro rfl
        exact ⟨[], rfl, fun _ h => absurd h List.not_mem_nil, rfl⟩
      · rintro ⟨values, -, -, rfl⟩
        rw [List.zipWith_nil_right, List.flatten_nil]
  | cons e holes ih =>
      rw [List.map_cons, List.prod_cons, Language.mem_mul]
      simp only [ih, Language.mem_mul, mem_someNoSlash_iff]
      constructor
      · rintro ⟨_, ⟨value, hvalue, _, rfl, rfl⟩, _, ⟨values, hlength, hfits, rfl⟩, rfl⟩
        refine ⟨value :: values, by rw [List.length_cons, List.length_cons, hlength], ?_, ?_⟩
        · exact List.forall_mem_cons.mpr ⟨hvalue, hfits⟩
        · rw [List.zipWith_cons_cons, List.flatten_cons]
      · rintro ⟨values, hlength, hfits, rfl⟩
        cases values with
        | nil => cases hlength
        | cons value values =>
            rw [List.forall_mem_cons] at hfits
            refine ⟨_, ⟨value, hfits.1, e.2, rfl, rfl⟩, _, ⟨values, Nat.succ.inj hlength, hfits.2, rfl⟩, ?_⟩
            rw [List.zipWith_cons_cons, List.flatten_cons]

theorem Outline.mem_language_iff {o : Outline} {cs : List Char} : cs ∈ o.language ↔
    ∃ values : List (List Char), values.length = o.holes.length ∧ (∀ value ∈ values, Fits value) ∧
      cs = o.filled values := by
  rw [language, Language.mem_mul]
  simp only [mem_prod_holes_iff, filled]
  constructor
  · rintro ⟨_, rfl, _, ⟨values, hlength, hfits, rfl⟩, rfl⟩
    exact ⟨values, hlength, hfits, rfl⟩
  · rintro ⟨values, hlength, hfits, rfl⟩
    exact ⟨o.lead, rfl, _, ⟨values, hlength, hfits, rfl⟩, rfl⟩

/-! ### Matchers -/

theorem accepts_literals_append {text : List Char} {parts : List Part} {cs : List Char} :
    accepts (text.map .literal ++ parts) cs = true ↔ ∃ rest, accepts parts rest = true ∧ text ++ rest = cs := by
  rw [accepts_append]
  simp only [accepts_literals]
  constructor
  · rintro ⟨_, rest, rfl, rfl, hrest⟩
    exact ⟨rest, hrest, rfl⟩
  · rintro ⟨rest, hrest, rfl⟩
    exact ⟨text, rest, rfl, rfl, hrest⟩

theorem accepts_holes_iff {holes : List (List Char × List Char)} {cs : List Char} :
    accepts (holes.flatMap fun e => .hole (String.ofList e.1) :: e.2.map .literal) cs = true ↔
      cs ∈ (holes.map fun e => someNoSlash * ({e.2} : Language Char)).prod := by
  induction holes generalizing cs with
  | nil => rw [List.flatMap_nil, accepts_nil_iff, List.map_nil, List.prod_nil, Language.mem_one]
  | cons e holes ih =>
      rw [List.flatMap_cons, List.cons_append, accepts_hole_iff, List.map_cons, List.prod_cons, mul_assoc,
        Language.mem_mul]
      simp only [accepts_literals_append, ih, Language.mem_mul, mem_someNoSlash_iff]
      constructor
      · rintro ⟨value, _, hne, hslash, rfl, rest, hrest, rfl⟩
        exact ⟨value, ⟨hne, hslash⟩, _, ⟨e.2, rfl, rest, hrest, rfl⟩, rfl⟩
      · rintro ⟨value, ⟨hne, hslash⟩, _, ⟨_, rfl, rest, hrest, rfl⟩, rfl⟩
        exact ⟨value, _, hne, hslash, rfl, rest, hrest, rfl⟩

/-- Trying all values from the left finds a way to cut a text if there is one. -/
theorem Outline.accepts_iff {o : Outline} {cs : List Char} : accepts o.parts cs = true ↔ cs ∈ o.language := by
  rw [parts, accepts_literals_append, language, Language.mem_mul]
  simp only [accepts_holes_iff]
  constructor
  · rintro ⟨rest, hrest, rfl⟩
    exact ⟨o.lead, rfl, rest, hrest, rfl⟩
  · rintro ⟨_, rfl, rest, hrest, rfl⟩
    exact ⟨rest, hrest, rfl⟩

theorem matcher_of_closed {template : String} {o : Outline} (ho : o.text = template.toList) :
    matcher template = .ok fun path => accepts o.parts path.toList := by
  rw [matcher, ← ho, o.parse_text]
  rfl

theorem matcher_eq_error_iff {template : String} {fault : TemplateFault} :
    matcher template = .error fault ↔ fault = .unterminated template ∧ ¬Closed template.toList := by
  rw [matcher, ← parse_closed_iff]
  cases (parse template.toList).2 <;> simp [eq_comm]

/-! ### Texts that templates expand to -/

theorem fill_literals_append {value? : String → Option String} {text cs : List Char} {parts : List Part} :
    fill value? (text.map .literal ++ parts) = .ok cs ↔ ∃ rest, fill value? parts = .ok rest ∧ cs = text ++ rest := by
  induction text generalizing cs with
  | nil => simp
  | cons c text ih =>
      rw [List.map_cons, List.cons_append, fill_literal]
      simp only [ih]
      constructor
      · rintro ⟨_, ⟨rest, hrest, rfl⟩, rfl⟩
        exact ⟨rest, hrest, rfl⟩
      · rintro ⟨rest, hrest, rfl⟩
        exact ⟨_, ⟨rest, hrest, rfl⟩, rfl⟩

theorem fill_holes_iff {value? : String → Option String} {holes : List (List Char × List Char)} {cs : List Char} :
    fill value? (holes.flatMap fun e => .hole (String.ofList e.1) :: e.2.map .literal) = .ok cs ↔
      ∃ values : List String, (holes.map fun e => value? (String.ofList e.1)) = values.map some ∧
        cs = (List.zipWith (fun value e => value ++ e.2) (values.map String.toList) holes).flatten := by
  induction holes generalizing cs with
  | nil =>
      rw [List.flatMap_nil, fill, Except.ok.injEq]
      constructor
      · rintro rfl
        exact ⟨[], rfl, rfl⟩
      · rintro ⟨values, -, rfl⟩
        rw [List.zipWith_nil_right, List.flatten_nil]
  | cons e holes ih =>
      rw [List.flatMap_cons, List.cons_append, fill_hole]
      simp only [fill_literals_append, ih]
      constructor
      · rintro ⟨value, _, hvalue, ⟨_, ⟨values, hvalues, rfl⟩, rfl⟩, rfl⟩
        refine ⟨value :: values, ?_, ?_⟩
        · rw [List.map_cons, List.map_cons, hvalue, hvalues]
        · rw [List.map_cons, List.zipWith_cons_cons, List.flatten_cons, List.append_assoc]
      · rintro ⟨values, hvalues, rfl⟩
        cases values with
        | nil => cases hvalues
        | cons value values =>
            obtain ⟨hvalue, hvalues⟩ := List.cons.inj hvalues
            refine ⟨value, _, hvalue, ⟨_, ⟨values, hvalues, rfl⟩, rfl⟩, ?_⟩
            rw [List.map_cons, List.zipWith_cons_cons, List.flatten_cons, List.append_assoc]

/-- A template is expanded where it is cut, if it is closed and each of its keys has a value. -/
theorem expand_ok_iff_outline {template target path : String} {value? : String → Option String} :
    expand template target value? = .ok path ↔ ∃ o : Outline, o.text = template.toList ∧
      ∃ values : List String, o.keys.map value? = values.map some ∧
        path.toList = o.filled (values.map String.toList) := by
  have hfill (o : Outline) (cs : List Char) : fill value? o.parts = .ok cs ↔
      ∃ values : List String, o.keys.map value? = values.map some ∧ cs = o.filled (values.map String.toList) := by
    rw [Outline.parts, fill_literals_append, Outline.keys, List.map_map]
    simp only [fill_holes_iff, Outline.filled]
    constructor
    · rintro ⟨_, ⟨values, hvalues, rfl⟩, rfl⟩
      exact ⟨values, hvalues, rfl⟩
    · rintro ⟨values, hvalues, rfl⟩
      exact ⟨_, ⟨values, hvalues, rfl⟩, rfl⟩
  rw [expand_eq_ok_iff, parse_closed_iff, closed_iff_exists_outline]
  constructor
  · rintro ⟨⟨o, ho⟩, cs, hcs, rfl⟩
    rw [← ho, o.parse_text, hfill] at hcs
    obtain ⟨values, hvalues, rfl⟩ := hcs
    exact ⟨o, ho, values, hvalues, String.toList_ofList⟩
  · rintro ⟨o, ho, values, hvalues, hpath⟩
    refine ⟨⟨o, ho⟩, path.toList, ?_, String.ofList_toList.symm⟩
    rw [← ho, o.parse_text]
    exact (hfill o _).mpr ⟨values, hvalues, hpath⟩

/-- A template can be matched unless a brace of it is not closed. It matches the texts that can be cut where it is with
fitting values in the places of its placeholders, which are those of the regular expression that it is; and so it
matches what it expands to when all values fit. -/
theorem matching_exact (template : String) :
    (∀ fault, matcher template = .error fault ↔ fault = .unterminated template ∧ ¬Closed template.toList) ∧
      (Closed template.toList ↔ ∃ o : Outline, o.text = template.toList) ∧
      (∀ o : Outline, o.text = template.toList → ∃ accepted, matcher template = .ok accepted ∧
        ∀ path : String, (accepted path = true ↔ ∃ values : List (List Char), values.length = o.holes.length ∧
            (∀ value ∈ values, value ≠ [] ∧ '/' ∉ value) ∧ path.toList = o.filled values) ∧
          (accepted path = true ↔ path.toList ∈ o.language)) ∧
      ∀ target value? path, expand template target value? = .ok path →
        ∃ o : Outline, o.text = template.toList ∧ ∃ values : List String, o.keys.map value? = values.map some ∧
          path.toList = o.filled (values.map String.toList) ∧
          ((∀ value ∈ values, value ≠ "" ∧ '/' ∉ value.toList) →
            ∃ accepted, matcher template = .ok accepted ∧ accepted path = true) := by
  refine ⟨fun fault => matcher_eq_error_iff, closed_iff_exists_outline, fun o ho => ?_, ?_⟩
  · refine ⟨_, matcher_of_closed ho, fun path => ⟨?_, o.accepts_iff⟩⟩
    exact o.accepts_iff.trans o.mem_language_iff
  · intro target value? path hexpand
    obtain ⟨o, ho, values, hvalues, hpath⟩ := expand_ok_iff_outline.mp hexpand
    refine ⟨o, ho, values, hvalues, hpath, fun hfits => ⟨_, matcher_of_closed ho, ?_⟩⟩
    refine o.accepts_iff.mpr (o.mem_language_iff.mpr ⟨values.map String.toList, ?_, fun value hvalue => ?_, hpath⟩)
    · have hlength := congrArg List.length hvalues
      rw [List.length_map, List.length_map, Outline.keys, List.length_map] at hlength
      rw [List.length_map, hlength]
    · obtain ⟨v, hv, rfl⟩ := List.mem_map.mp hvalue
      exact ⟨fun hnil => (hfits v hv).1 (String.toList_eq_nil_iff.mp hnil), (hfits v hv).2⟩

/-- Where two placeholders touch, a path is matched whatever belongs to which. A dot stands for itself only, and a
closing brace outside for itself. -/
theorem touching_placeholders_matched :
    let template := "cmd/\x7bgroup\x7d\x7bversion\x7d.d/\x7bgroup\x7d\x7d_gen.go"
    let value? (key : String) := if key = "version" then some "v1" else some "helm"
    expand template "v1" value? = .ok "cmd/helmv1.d/helm\x7d_gen.go" ∧
      ∃ accepted, matcher template = .ok accepted ∧ accepted "cmd/helmv1.d/helm\x7d_gen.go" = true ∧
        accepted "cmd/helmv1xd/helm\x7d_gen.go" = false := by
  intro template value?
  have hexpand : expand template "v1" value? = .ok "cmd/helmv1.d/helm\x7d_gen.go" := by decide +kernel
  obtain ⟨-, -, -, hexpanded⟩ := matching_exact template
  obtain ⟨o, -, values, hvalues, -, hmatched⟩ := hexpanded "v1" value? _ hexpand
  have hfits : ∀ value ∈ values, value ≠ "" ∧ '/' ∉ value.toList := by
    intro value hvalue
    have hmem : some value ∈ o.keys.map value? := hvalues ▸ List.mem_map_of_mem hvalue
    obtain ⟨key, -, hkey⟩ := List.mem_map.mp hmem
    dsimp only [value?] at hkey
    split at hkey <;> cases hkey <;> decide
  obtain ⟨accepted, haccepted, htrue⟩ := hmatched hfits
  have hfalse : (matcher template).map (· "cmd/helmv1xd/helm\x7d_gen.go") = .ok false := by decide +kernel
  rw [haccepted] at hfalse
  exact ⟨hexpand, accepted, haccepted, htrue, Except.ok.inj hfalse⟩

end ApiForge.PathTemplate
