import ApiForge.Proofs.Items

/-! Where the structs of a source come from. Every struct that a source is said to declare stands in one of its type
declarations, alone or in a group, and its markers are those of the comment above the keyword of the declaration and, in
a group, of the comment above its own name. -/

namespace ApiForge.Source

section Reading

variable {stop : Position} {ts rest : List Token}

/-! ### What each part takes -/

theorem eq_of_expectIdentifier {what : Expectation} {t : Token} (h : expectIdentifier stop what ts = .ok (t, rest)) :
    ts = t :: rest ∧ t.kind = .identifier := by
  cases ts with
  | nil => cases h
  | cons t' ts =>
      rw [expectIdentifier] at h
      split_ifs at h with hkind
      cases h
      exact ⟨rfl, hkind⟩

theorem plain_of_identifier {t : Token} (h : t.kind = .identifier) : t.plain = true :=
  plain_of_kind (by rw [h]; rintro ⟨⟩)

theorem expectIdentifier_leaves {what : Expectation} {t : Token} (h : expectIdentifier stop what ts = .ok (t, rest)) :
    Leaves ts rest := by
  obtain ⟨rfl, hkind⟩ := eq_of_expectIdentifier h
  exact (leaves_refl rest).plain (plain_of_identifier hkind)

theorem endDeclaration_leaves (h : endDeclaration stop ts = .ok rest) : Leaves ts rest := by
  cases ts with
  | nil =>
      cases h
      exact leaves_refl _
  | cons t ts =>
      rw [endDeclaration] at h
      split_ifs at h with ht
      cases h
      exact (leaves_refl rest).plain (plain_of_isTerminator ht)

/-- A part whose tokens are followed with the open brackets in hand. -/
theorem skipDeclaration_tracks {stack : List Token} (h : skipDeclaration stop stack ts = .ok rest) :
    ∃ used, ts = used ++ rest ∧ used.foldlM track stack = .ok [] := by
  induction ts generalizing stack with
  | nil =>
      rw [skipDeclaration] at h
      split_ifs at h with hstack
      cases h
      rw [hstack]
      exact ⟨[], rfl, rfl⟩
  | cons t ts ih =>
      rw [skipDeclaration] at h
      split_ifs at h with hend
      · cases h
        rw [hend.2]
        exact ⟨[t], rfl, balanced_plain (plain_of_isTerminator hend.1)⟩
      · split at h
        · cases h
        · rename_i next htrack
          obtain ⟨used, rfl, hused⟩ := ih h
          exact ⟨t :: used, rfl, (foldlM_track_cons htrack used).trans hused⟩

theorem skipType_tracks {grouped : Bool} {stack : List Token} (h : skipType stop grouped stack ts = .ok rest) :
    ∃ used, ts = used ++ rest ∧ used.foldlM track stack = .ok [] := by
  induction ts generalizing stack with
  | nil =>
      rw [skipType] at h
      split_ifs at h with hstack
      cases h
      rw [hstack]
      exact ⟨[], rfl, rfl⟩
  | cons t ts ih =>
      rw [skipType] at h
      split_ifs at h with hend
      · cases h
        rw [hend.1]
        exact ⟨[], rfl, rfl⟩
      · split at h
        · cases h
        · rename_i next htrack
          obtain ⟨used, rfl, hused⟩ := ih h
          exact ⟨t :: used, rfl, (foldlM_track_cons htrack used).trans hused⟩

theorem bracketed_tracks {stack used : List Token} (h : bracketed stop stack ts = .ok (used, rest)) :
    ts = used ++ rest ∧ used.foldlM track stack = .ok [] := by
  induction ts generalizing stack used with
  | nil => cases h
  | cons t ts ih =>
      rw [bracketed] at h
      split at h
      · cases h
      · rename_i htrack
        cases h
        exact ⟨rfl, foldlM_track_cons htrack []⟩
      · rename_i opener outer htrack
        obtain ⟨⟨used', rest'⟩, hrest, heq⟩ := of_map h
        cases heq
        obtain ⟨rfl, hused⟩ := ih hrest
        exact ⟨rfl, (foldlM_track_cons htrack _).trans hused⟩

theorem fieldType_tracks {stack type : List Token} (h : fieldType stop stack ts = .ok (type, rest)) :
    ts = type ++ rest ∧ type.foldlM track stack = .ok [] := by
  induction ts generalizing stack type with
  | nil => cases h
  | cons t ts ih =>
      rw [fieldType] at h
      split_ifs at h with hend
      · cases h
        rw [hend.1]
        exact ⟨rfl, rfl⟩
      · split at h
        · cases h
        · rename_i next htrack
          obtain ⟨⟨type', rest'⟩, hrest, heq⟩ := of_map h
          cases heq
          obtain ⟨rfl, htype⟩ := ih hrest
          exact ⟨rfl, (foldlM_track_cons htrack _).trans htype⟩

theorem skipDeclaration_leaves (h : skipDeclaration stop [] ts = .ok rest) : Leaves ts rest := by
  obtain ⟨used, hts, hused⟩ := skipDeclaration_tracks h
  exact ⟨used, hused, hts⟩

theorem skipType_leaves {grouped : Bool} (h : skipType stop grouped [] ts = .ok rest) : Leaves ts rest := by
  obtain ⟨used, hts, hused⟩ := skipType_tracks h
  exact ⟨used, hused, hts⟩

theorem bracketed_leaves {used : List Token} (h : bracketed stop [] ts = .ok (used, rest)) : Leaves ts rest := by
  obtain ⟨hts, hused⟩ := bracketed_tracks h
  exact ⟨used, hused, hts⟩

theorem typeArguments_leaves {used : List Token} (h : typeArguments stop ts = .ok (used, rest)) : Leaves ts rest := by
  rw [typeArguments] at h
  split_ifs at h
  · exact bracketed_leaves h
  · cases h
    exact leaves_refl _

/-- A sign at the front that is no bracket. -/
theorem leaves_tail {text : String} (h : nextIsOperator ts text = true) (htext : text ∉ openers ++ closers) :
    Leaves ts ts.tail := by
  cases ts with
  | nil => cases h
  | cons t ts => exact (leaves_refl ts).plain (plain_of_isOperator h htext)

theorem embeddedType_leaves {t : Token} {type : String × String} (h : embeddedType stop (t :: ts) = .ok (type, rest)) :
    t.plain = true ∧ Leaves ts rest := by
  obtain ⟨⟨first, behind⟩, hfirst, h⟩ := of_bind h
  obtain ⟨heq, hkind⟩ := eq_of_expectIdentifier hfirst
  obtain ⟨rfl, rfl⟩ := List.cons_eq_cons.mp heq
  refine ⟨plain_of_identifier hkind, ?_⟩
  dsimp only at h
  split_ifs at h with hdot
  · obtain ⟨⟨second, behind'⟩, hsecond, h⟩ := of_bind h
    obtain ⟨⟨arguments, rest'⟩, harguments, h⟩ := of_bind h
    cases h
    exact (leaves_tail hdot (by decide)).trans ((expectIdentifier_leaves hsecond).trans (typeArguments_leaves harguments))
  · obtain ⟨⟨arguments, rest'⟩, harguments, h⟩ := of_bind h
    cases h
    exact typeArguments_leaves harguments

theorem fieldTag_leaves (ts : List Token) : Leaves ts (fieldTag ts).2 := by
  cases ts with
  | nil => exact leaves_refl _
  | cons t ts =>
      rw [fieldTag]
      split
      · rename_i value hkind
        exact (leaves_refl ts).plain (plain_of_kind (by rw [hkind]; rintro ⟨⟩))
      · exact leaves_refl _

theorem moreNames_leaves {names : List String} (h : moreNames stop ts = .ok (names, rest)) : Leaves ts rest := by
  induction ts using moreNames.induct generalizing names with
  | case1 =>
      cases h
      exact leaves_refl _
  | case2 t ht =>
      rw [moreNames, if_pos ht] at h
      cases h
  | case3 t ht =>
      rw [moreNames, if_neg ht] at h
      cases h
      exact leaves_refl _
  | case4 t name ts ht hname ih =>
      rw [moreNames, if_pos ht, if_pos hname] at h
      obtain ⟨⟨names', rest'⟩, hrest, heq⟩ := of_map h
      cases heq
      exact ((ih hrest).plain (plain_of_identifier hname)).plain (plain_of_isOperator ht (by decide))
  | case5 t name ts ht hname =>
      rw [moreNames, if_pos ht, if_neg hname] at h
      cases h
  | case6 t name ts ht =>
      rw [moreNames, if_neg ht] at h
      cases h
      exact leaves_refl _

theorem namedFields_leaves {first : String} {fields : List Field}
    (h : namedFields stop first ts = .ok (fields, rest)) : Leaves ts rest := by
  obtain ⟨⟨more, behind⟩, hmore, h⟩ := of_bind h
  obtain ⟨⟨type, behind'⟩, htype, h⟩ := of_bind h
  obtain ⟨hbehind, hbalanced⟩ := fieldType_tracks htype
  dsimp only at h
  split_ifs at h
  · cases h
  cases h
  exact (moreNames_leaves hmore).trans (Leaves.trans ⟨type, hbalanced, hbehind⟩ (fieldTag_leaves behind'))

theorem embeddedField_leaves {mark : String} {t : Token} {fields : List Field}
    (h : embeddedField stop mark (t :: ts) = .ok (fields, rest)) : t.plain = true ∧ Leaves ts rest := by
  obtain ⟨⟨type, behind⟩, htype, h⟩ := of_bind h
  cases h
  obtain ⟨hplain, hleaves⟩ := embeddedType_leaves htype
  exact ⟨hplain, hleaves.trans (fieldTag_leaves behind)⟩

/-- The fields of a struct as items. -/
def fieldItem (stop : Position) (t : Token) (ts : List Token) : Reading (List Field × List Token) :=
  fieldDeclaration stop (t :: ts)

theorem fieldItem_takesFirst (stop : Position) : TakesFirst (fieldItem stop) := by
  intro t ts fields rest h
  rw [fieldItem, fieldDeclaration] at h
  split_ifs at h with hstar hkind hembedded
  · refine ⟨plain_of_isOperator hstar (by decide), ?_⟩
    cases ts with
    | nil => cases h
    | cons t' ts =>
        obtain ⟨hplain, hleaves⟩ := embeddedField_leaves h
        exact hleaves.plain hplain
  · exact embeddedField_leaves h
  · exact ⟨plain_of_identifier (not_not.mp hkind), namedFields_leaves h⟩

theorem structFields_eq (stop opening : Position) (ts : List Token) : structFields stop opening ts =
    itemsStep (fieldItem stop) "\x7d" ⟨opening, .unclosedStruct⟩ (unexpected stop .fieldEnd)
      (structFields stop opening) ts := by
  rw [structFields, itemsStep]
  cases hfirst : skipTerminators ts with
  | nil => rfl
  | cons t behind =>
      dsimp only [fieldItem]
      cases hfield : fieldDeclaration stop (t :: behind) with
      | error e => rfl
      | ok r =>
          obtain ⟨fields, rest⟩ := r
          cases rest with
          | nil => rfl
          | cons t' rest =>
              dsimp only
              rw [dif_pos ((fieldItem_takesFirst stop).length_lt hfirst hfield)]

theorem structFields_eq_ok_iff {opening : Position} {fields : List Field} :
    structFields stop opening ts = .ok (fields, rest) ↔ ItemsRead (fieldItem stop) "\x7d" ts fields rest :=
  eq_ok_iff_itemsRead (structFields_eq stop opening) (fieldItem_takesFirst stop)

/-- The fields of a struct end with the brace that closes it. -/
theorem structFields_leaves {opening : Position} {fields : List Field}
    (h : structFields stop opening ts = .ok (fields, rest)) :
    ∃ closing, closing.isOperator "\x7d" = true ∧ Leaves ts (closing :: rest) :=
  (structFields_eq_ok_iff.mp h).leaves (fieldItem_takesFirst stop)

/-! ### Structs and the declarations around them -/

/-- With `name` and `behind` begins the declaration of the struct: its name and type parameters and the brace that opens
it. -/
def Struct.Begins (s : Struct) (name : Token) (behind : List Token) : Prop :=
  name.kind = .identifier ∧ name.text = s.name ∧ name.pos.line = s.line ∧
    ∃ parameters equals kw opening body, behind = parameters ++ equals ++ kw :: opening :: body ∧
      Balanced parameters ∧ (∀ t ∈ equals, t.isOperator "=" = true) ∧ kw.isKeyword "struct" = true ∧
      opening.isOperator "\x7b" = true

/-- The tokens declare the struct, and these are the tokens that a comment on it stands above: the keyword of the
declaration and, in a group, the name of the struct too. -/
inductive Struct.DeclaredBy (s : Struct) (ts : List Token) : List Token → Prop where
  | alone {kw name : Token} {behind : List Token} (hfront : Leaves ts (kw :: name :: behind))
      (hkw : kw.isKeyword "type" = true) (hbegins : s.Begins name behind) : DeclaredBy s ts [kw]
  | grouped {kw opening name : Token} {specs behind : List Token} (hfront : Leaves ts (kw :: opening :: specs))
      (hkw : kw.isKeyword "type" = true) (hopening : opening.isOperator "(" = true)
      (hspecs : Leaves specs (name :: behind)) (hbegins : s.Begins name behind) : DeclaredBy s ts [kw, name]

/-- What is left behind the type parameters. -/
def typeParameters (stop : Position) (ts : List Token) : Reading (List Token) :=
  if opensTypeParameters ts then (bracketed stop [] ts).map Prod.snd else .ok ts

/-- What a type declaration says behind the name, the type parameters and the sign of an alias. -/
def declaredType (stop : Position) (doc : String) (grouped : Bool) (name : Token) (ts : List Token) :
    Reading (Option Struct × List Token) :=
  match ts with
  | kw :: opening :: body =>
    if kw.isKeyword "struct" ∧ opening.isOperator "\x7b" then do
      let (fields, rest) ← structFields stop opening.pos body
      return (some ⟨name.text, name.pos.line, Marker.scan doc, fields⟩, rest)
    else return (none, ← skipType stop grouped [] ts)
  | _ => return (none, ← skipType stop grouped [] ts)

theorem typeSpec_eq (stop : Position) (doc : String) (grouped : Bool) (ts : List Token) :
    typeSpec stop doc grouped ts = expectIdentifier stop .typeName ts >>= fun r =>
      typeParameters stop r.2 >>= fun rest =>
        declaredType stop doc grouped r.1 (if nextIsOperator rest "=" then rest.tail else rest) := by
  unfold typeSpec typeParameters declaredType
  cases expectIdentifier stop .typeName ts with
  | error e => rfl
  | ok r =>
      simp only [bind, Except.bind]
      cases opensTypeParameters r.2 <;> rfl

theorem typeParameters_leaves (h : typeParameters stop ts = .ok rest) : Leaves ts rest := by
  rw [typeParameters] at h
  split_ifs at h
  · obtain ⟨⟨used, rest'⟩, hbracketed, heq⟩ := of_map h
    cases heq
    exact bracketed_leaves hbracketed
  · cases h
    exact leaves_refl _

theorem kind_of_isKeyword {t : Token} {text : String} (h : t.isKeyword text = true) : t.kind = .keyword := by
  rw [Token.isKeyword, Bool.and_eq_true, beq_iff_eq] at h
  exact h.1

theorem plain_of_isKeyword {t : Token} {text : String} (h : t.isKeyword text = true) : t.plain = true :=
  plain_of_kind (by rw [kind_of_isKeyword h]; rintro ⟨⟩)

/-- A struct type with its fields begins. -/
def OpensStruct (ts : List Token) : Prop :=
  ∃ kw opening body, ts = kw :: opening :: body ∧ kw.isKeyword "struct" = true ∧ opening.isOperator "\x7b" = true

/-- What is declared is a struct, of which the fields are read, or it is passed over. -/
inductive TypeRead (stop : Position) (doc : String) (grouped : Bool) (name : Token) :
    List Token → Option Struct → List Token → Prop where
  | struct {kw opening : Token} {body rest : List Token} {fields : List Field} (hkw : kw.isKeyword "struct" = true)
      (hopening : opening.isOperator "\x7b" = true) (hfields : structFields stop opening.pos body = .ok (fields, rest)) :
      TypeRead stop doc grouped name (kw :: opening :: body)
        (some ⟨name.text, name.pos.line, Marker.scan doc, fields⟩) rest
  | other {ts rest : List Token} (hother : ¬OpensStruct ts) (hskip : skipType stop grouped [] ts = .ok rest) :
      TypeRead stop doc grouped name ts none rest

theorem declaredType_eq_ok_iff {doc : String} {grouped : Bool} {name : Token} {struct? : Option Struct} :
    declaredType stop doc grouped name ts = .ok (struct?, rest) ↔ TypeRead stop doc grouped name ts struct? rest := by
  by_cases hstruct : OpensStruct ts
  · obtain ⟨kw, opening, body, rfl, hkw, hopening⟩ := id hstruct
    rw [declaredType, if_pos ⟨hkw, hopening⟩]
    constructor
    · intro h
      obtain ⟨⟨fields, rest'⟩, hfields, heq⟩ := of_bind h
      cases heq
      exact .struct hkw hopening hfields
    · intro h
      cases h with
      | struct _ _ hfields =>
          rw [hfields]
          rfl
      | other hother _ => exact absurd hstruct hother
  · have hskipped : declaredType stop doc grouped name ts =
        (skipType stop grouped [] ts).map fun rest => (none, rest) := by
      unfold declaredType
      split
      · rename_i kw opening body
        rw [if_neg fun hboth => hstruct ⟨kw, opening, body, rfl, hboth⟩]
        rfl
      · rfl
    rw [hskipped]
    constructor
    · intro h
      obtain ⟨rest', hskip, heq⟩ := of_map h
      cases heq
      exact .other hstruct hskip
    · intro h
      cases h with
      | struct hkw hopening _ => exact absurd ⟨_, _, _, rfl, hkw, hopening⟩ hstruct
      | other _ hskip =>
          rw [hskip]
          rfl

theorem declaredType_leaves {doc : String} {grouped : Bool} {name : Token} {struct? : Option Struct}
    (h : declaredType stop doc grouped name ts = .ok (struct?, rest)) : Leaves ts rest := by
  cases declaredType_eq_ok_iff.mp h with
  | struct hkw hopening hfields =>
      obtain ⟨closing, hclosing, hbody⟩ := structFields_leaves hfields
      exact (hbody.enclosed hopening (by decide) hclosing).plain (plain_of_isKeyword hkw)
  | other _ hskip => exact skipType_leaves hskip

theorem declaredType_struct {doc : String} {grouped : Bool} {name : Token} {s : Struct}
    (h : declaredType stop doc grouped name ts = .ok (some s, rest)) :
    name.text = s.name ∧ name.pos.line = s.line ∧ s.markers = Marker.scan doc ∧ OpensStruct ts := by
  cases declaredType_eq_ok_iff.mp h with
  | struct hkw hopening _ => exact ⟨rfl, rfl, rfl, _, _, _, rfl, hkw, hopening⟩

/-- A type declaration takes its name and what comes behind it, and a struct that it declares begins there. -/
theorem typeSpec_declares {doc : String} {grouped : Bool} {name : Token} {struct? : Option Struct}
    (h : typeSpec stop doc grouped (name :: ts) = .ok (struct?, rest)) : (name.plain = true ∧ Leaves ts rest) ∧
      ∀ s ∈ struct?.toList, s.markers = Marker.scan doc ∧ s.Begins name ts := by
  rw [typeSpec_eq] at h
  obtain ⟨⟨name', behind⟩, hname, hspec⟩ := of_bind h
  obtain ⟨behind', hparameters, htype⟩ := of_bind hspec
  obtain ⟨heq, hkind⟩ := eq_of_expectIdentifier hname
  obtain ⟨rfl, rfl⟩ := List.cons_eq_cons.mp heq
  obtain ⟨parameters, hbalanced, rfl⟩ := typeParameters_leaves hparameters
  -- A sign of equality behind the type parameters, if there is one.
  obtain ⟨equals, behind'', rfl, hequals, hbehind⟩ : ∃ equals behind'', behind' = equals ++ behind'' ∧
      (∀ t ∈ equals, t.isOperator "=" = true) ∧
      (if nextIsOperator behind' "=" then behind'.tail else behind') = behind'' := by
    by_cases hnext : nextIsOperator behind' "=" = true
    · cases behind' with
      | nil => cases hnext
      | cons t behind' => exact ⟨[t], behind', rfl, List.forall_mem_singleton.mpr hnext, if_pos hnext⟩
    · exact ⟨[], behind', rfl, List.forall_mem_nil _, if_neg hnext⟩
  rw [hbehind] at htype
  have hsigns : ∀ signs, (∀ t ∈ signs, t.isOperator "=" = true) → Leaves (signs ++ behind'') behind'' := by
    intro signs hsigns
    induction signs with
    | nil => exact leaves_refl _
    | cons t signs ih =>
        rw [List.forall_mem_cons] at hsigns
        exact (ih hsigns.2).plain (plain_of_isOperator hsigns.1 (by decide))
  constructor
  · have hfront : Leaves (parameters ++ (equals ++ behind'')) behind'' :=
      Leaves.trans ⟨parameters, hbalanced, rfl⟩ (hsigns equals hequals)
    exact ⟨plain_of_identifier hkind, hfront.trans (declaredType_leaves htype)⟩
  · intro s hs
    rw [Option.mem_toList] at hs
    cases hs
    obtain ⟨htext, hline, hmarkers, kw, opening, body, rfl, hkw, hopening⟩ := declaredType_struct htype
    refine ⟨hmarkers, hkind, htext, hline, parameters, equals, kw, opening, body, ?_, hbalanced, hequals, hkw, hopening⟩
    rw [List.append_assoc]

/-- The types of a group as items, each with the comments above the group and above its name. -/
def specItem (ctx : GroupContext) (t : Token) (ts : List Token) : Reading (List Struct × List Token) :=
  (typeSpec ctx.stop (ctx.doc ++ "\n" ++ docAbove ctx.comments t.pos.line) true (t :: ts)).map fun r =>
    (r.1.toList, r.2)

theorem specItem_declares {ctx : GroupContext} {t : Token} {structs : List Struct}
    (h : specItem ctx t ts = .ok (structs, rest)) : (t.plain = true ∧ Leaves ts rest) ∧
      ∀ s ∈ structs, s.markers = Marker.scan (ctx.doc ++ "\n" ++ docAbove ctx.comments t.pos.line) ∧ s.Begins t ts := by
  obtain ⟨⟨struct?, rest'⟩, hspec, heq⟩ := of_map h
  cases heq
  exact typeSpec_declares hspec

theorem specItem_takesFirst (ctx : GroupContext) : TakesFirst (specItem ctx) :=
  fun _ _ _ _ h => (specItem_declares h).1

theorem typeGroup_eq (ctx : GroupContext) (ts : List Token) : typeGroup ctx ts =
    itemsStep (specItem ctx) ")" ⟨ctx.keyword, .unclosedGroup⟩ (unexpected ctx.stop .groupEnd) (typeGroup ctx) ts := by
  rw [typeGroup, itemsStep]
  cases hfirst : skipTerminators ts with
  | nil => rfl
  | cons t behind =>
      have hitem : specItem ctx t behind =
          (typeSpec ctx.stop (ctx.doc ++ "\n" ++ docAbove ctx.comments t.pos.line) true (t :: behind)).map fun r =>
            (r.1.toList, r.2) :=
        rfl
      dsimp only
      cases hspec : typeSpec ctx.stop (ctx.doc ++ "\n" ++ docAbove ctx.comments t.pos.line) true (t :: behind) with
      | error e =>
          rw [hitem, hspec]
          rfl
      | ok r =>
          obtain ⟨struct?, rest⟩ := r
          rw [hspec] at hitem
          rw [hitem]
          cases rest with
          | nil => rfl
          | cons t' rest =>
              dsimp only [Except.map]
              rw [dif_pos ((specItem_takesFirst ctx).length_lt hfirst hitem)]

theorem typeGroup_eq_ok_iff {ctx : GroupContext} {structs : List Struct} :
    typeGroup ctx ts = .ok (structs, rest) ↔ ItemsRead (specItem ctx) ")" ts structs rest :=
  eq_ok_iff_itemsRead (typeGroup_eq ctx) (specItem_takesFirst ctx)

/-- The group ends with the parenthesis that closes it, and each of its structs begins outside all brackets of it. -/
theorem typeGroup_declares {ctx : GroupContext} {structs : List Struct} (h : typeGroup ctx ts = .ok (structs, rest)) :
    (∃ closing, closing.isOperator ")" = true ∧ Leaves ts (closing :: rest)) ∧ ∀ s ∈ structs,
      ∃ name behind, Leaves ts (name :: behind) ∧ s.Begins name behind ∧
        s.markers = Marker.scan (ctx.doc ++ "\n" ++ docAbove ctx.comments name.pos.line) := by
  have hread := typeGroup_eq_ok_iff.mp h
  refine ⟨hread.leaves (specItem_takesFirst ctx), fun s hs => ?_⟩
  obtain ⟨name, behind, structs', left, hleaves, hitem, hs⟩ := hread.exists_read (specItem_takesFirst ctx) hs
  obtain ⟨hmarkers, hbegins⟩ := (specItem_declares hitem).2 s hs
  exact ⟨name, behind, hleaves, hbegins, hmarkers⟩

/-- The markers are those of the comments above the tokens. -/
def Struct.MarkedAbove (s : Struct) (comments : List Comment) (heads : List Token) : Prop :=
  s.markers = Marker.scan ("\n".intercalate (heads.map fun t => docAbove comments t.pos.line))

theorem typeDeclaration_declares {comments : List Comment} {kw : Token} {structs : List Struct}
    (hkw : kw.isKeyword "type" = true) (h : typeDeclaration comments stop kw ts = .ok (structs, rest)) :
    Leaves ts rest ∧ ∀ s ∈ structs, ∃ heads, s.DeclaredBy (kw :: ts) heads ∧ s.MarkedAbove comments heads := by
  unfold typeDeclaration at h
  dsimp only at h
  split_ifs at h with hopening
  · obtain ⟨⟨structs', behind⟩, hgroup, h⟩ := of_bind h
    obtain ⟨rest', hend, h⟩ := of_bind h
    cases h
    obtain ⟨⟨closing, hclosing, hleaves⟩, hstructs⟩ := typeGroup_declares hgroup
    cases ts with
    | nil => cases hopening
    | cons opening specs =>
        refine ⟨(hleaves.enclosed hopening (by decide) hclosing).trans (endDeclaration_leaves hend), fun s hs => ?_⟩
        obtain ⟨name, behind', hspecs, hbegins, hmarkers⟩ := hstructs s hs
        exact ⟨_, .grouped (leaves_refl _) hkw hopening hspecs hbegins, hmarkers⟩
  · obtain ⟨⟨struct?, behind⟩, hspec, h⟩ := of_bind h
    obtain ⟨rest', hend, h⟩ := of_bind h
    cases h
    cases ts with
    | nil => cases hspec
    | cons name ts =>
        obtain ⟨⟨hplain, hleaves⟩, hstruct⟩ := typeSpec_declares hspec
        refine ⟨(hleaves.trans (endDeclaration_leaves hend)).plain hplain, fun s hs => ?_⟩
        obtain ⟨hmarkers, hbegins⟩ := hstruct s hs
        exact ⟨_, .alone (leaves_refl _) hkw hbegins, hmarkers⟩

theorem declaration_declares {comments : List Comment} {kw : Token} {structs : List Struct}
    (h : declaration comments stop kw ts = .ok (structs, rest)) : (kw.plain = true ∧ Leaves ts rest) ∧
      ∀ s ∈ structs, ∃ heads, s.DeclaredBy (kw :: ts) heads ∧ s.MarkedAbove comments heads := by
  unfold declaration at h
  split_ifs at h with hskipped hkw
  · obtain ⟨rest', hskip, heq⟩ := of_map h
    cases heq
    have hplain : kw.plain = true := plain_of_kind (by rw [hskipped.1]; rintro ⟨⟩)
    exact ⟨⟨hplain, skipDeclaration_leaves hskip⟩, List.forall_mem_nil _⟩
  · obtain ⟨hleaves, hstructs⟩ := typeDeclaration_declares hkw h
    exact ⟨⟨plain_of_isKeyword hkw, hleaves⟩, hstructs⟩

theorem declaration_takesFirst (comments : List Comment) (stop : Position) : TakesFirst (declaration comments stop) :=
  fun _ _ _ _ h => (declaration_declares h).1

/-- What a part of the tokens declares, the tokens declare. -/
theorem Struct.DeclaredBy.of_leaves {s : Struct} {heads : List Token} (hleaves : Leaves ts rest)
    (h : s.DeclaredBy rest heads) : s.DeclaredBy ts heads := by
  cases h with
  | alone hfront hkw hbegins => exact .alone (hleaves.trans hfront) hkw hbegins
  | grouped hfront hkw hopening hspecs hbegins => exact .grouped (hleaves.trans hfront) hkw hopening hspecs hbegins

/-- There is nothing to declare but semicolons. -/
theorem declarations_nil {comments : List Comment} (h : skipTerminators ts = []) :
    declarations comments stop ts = .ok [] := by
  rw [declarations, h]

/-- Declarations are read one after the other. -/
theorem declarations_cons {comments : List Comment} {kw : Token} (h : skipTerminators ts = kw :: rest) :
    declarations comments stop ts =
      declaration comments stop kw rest >>= fun r => (declarations comments stop r.2).map (r.1 ++ ·) := by
  rw [declarations, h]
  dsimp only
  cases hdeclaration : declaration comments stop kw rest with
  | error e => rfl
  | ok r => exact if_pos ((declaration_takesFirst comments stop).length_lt h hdeclaration)

/-- The tokens are those of declarations up to the end of the source. -/
inductive DeclarationsRead (comments : List Comment) (stop : Position) : List Token → List Struct → Prop where
  | none {ts : List Token} (nothing : skipTerminators ts = []) : DeclarationsRead comments stop ts []
  | next {ts behind rest : List Token} {kw : Token} {structs later : List Struct}
      (first : skipTerminators ts = kw :: behind) (read : declaration comments stop kw behind = .ok (structs, rest))
      (others : DeclarationsRead comments stop rest later) : DeclarationsRead comments stop ts (structs ++ later)

theorem declarations_eq_ok_iff {comments : List Comment} {structs : List Struct} :
    declarations comments stop ts = .ok structs ↔ DeclarationsRead comments stop ts structs := by
  constructor
  · intro h
    induction hn : ts.length using Nat.strong_induction_on generalizing ts structs with
    | _ n ih =>
        cases hfirst : skipTerminators ts with
        | nil =>
            rw [declarations_nil hfirst] at h
            cases h
            exact .none hfirst
        | cons kw behind =>
            rw [declarations_cons hfirst] at h
            obtain ⟨⟨structs', rest⟩, hdeclaration, hmap⟩ := of_bind h
            obtain ⟨later, hlater, rfl⟩ := of_map hmap
            have hlength := (declaration_takesFirst comments stop).length_lt hfirst hdeclaration
            exact .next hfirst hdeclaration (ih rest.length (hn ▸ hlength) hlater rfl)
  · intro h
    induction h with
    | none hnothing => exact declarations_nil hnothing
    | next hfirst hdeclaration _ ih =>
        rw [declarations_cons hfirst, hdeclaration]
        simp only [bind, Except.bind]
        rw [ih]
        rfl

theorem declarations_declare {comments : List Comment} {structs : List Struct}
    (h : declarations comments stop ts = .ok structs) {s : Struct} (hs : s ∈ structs) :
    ∃ heads, s.DeclaredBy ts heads ∧ s.MarkedAbove comments heads := by
  rw [declarations_eq_ok_iff] at h
  induction h with
  | none => cases hs
  | next hfirst hdeclaration _ ih =>
      rcases List.mem_append.mp hs with hs | hs
      · obtain ⟨heads, hheads, hmarked⟩ := (declaration_declares hdeclaration).2 s hs
        exact ⟨heads, hheads.of_leaves (leaves_of_skipTerminators hfirst), hmarked⟩
      · obtain ⟨heads, hheads, hmarked⟩ := ih hs
        exact ⟨heads, hheads.of_leaves ((declaration_takesFirst _ _).leaves hfirst hdeclaration), hmarked⟩

/-- The tokens begin with a package clause, and `rest` is left behind it. -/
inductive HasClause (lexed : Lexed) : String → List Token → Prop where
  | intro {kw name : Token} {behind rest : List Token} (first : skipTerminators lexed.tokens = kw :: name :: behind)
      (keyword : kw.isKeyword "package" = true) (identifier : name.kind = .identifier)
      (ending : endDeclaration lexed.stop behind = .ok rest) : HasClause lexed name.text rest

section Clause

variable {path package : String} {lexed : Lexed} {file : SourceFile}

/-- Behind the package clause the declarations are read. -/
theorem HasClause.parseLexed_eq (h : HasClause lexed package rest) (path : String) :
    parseLexed path lexed = (declarations lexed.comments lexed.stop rest).map (⟨path, package, ·⟩) := by
  obtain ⟨hfirst, hkw, hname, hend⟩ := h
  rw [parseLexed, hfirst]
  dsimp only
  rw [if_pos hkw, expectIdentifier, if_pos hname]
  simp only [bind, Except.bind, hend]
  cases declarations lexed.comments lexed.stop rest <;> rfl

theorem exists_clause_of_parseLexed (h : parseLexed path lexed = .ok file) : ∃ rest,
    HasClause lexed file.package rest ∧ declarations lexed.comments lexed.stop rest = .ok file.structs := by
  unfold parseLexed at h
  dsimp only at h
  split at h
  · rename_i kw behind hfirst
    split_ifs at h with hkw
    obtain ⟨⟨name, behind'⟩, hname, h⟩ := of_bind h
    obtain ⟨rest, hend, h⟩ := of_bind h
    obtain ⟨structs, hstructs, h⟩ := of_bind h
    cases h
    obtain ⟨rfl, hkind⟩ := eq_of_expectIdentifier hname
    exact ⟨rest, ⟨hfirst, hkw, hkind, hend⟩, hstructs⟩
  · cases h

theorem HasClause.leaves (h : HasClause lexed package rest) : Leaves lexed.tokens rest := by
  obtain ⟨hfirst, hkw, hname, hend⟩ := h
  have hclause := (endDeclaration_leaves hend).plain (plain_of_identifier hname)
  exact (leaves_of_skipTerminators hfirst).trans (hclause.plain (plain_of_isKeyword hkw))

/-- Every struct of a file comes from a type declaration among its tokens. -/
theorem parseLexed_declares (h : parseLexed path lexed = .ok file) {s : Struct} (hs : s ∈ file.structs) :
    ∃ heads, s.DeclaredBy lexed.tokens heads ∧ s.MarkedAbove lexed.comments heads := by
  obtain ⟨rest, hclause, hstructs⟩ := exists_clause_of_parseLexed h
  obtain ⟨heads, hheads, hmarked⟩ := declarations_declare hstructs hs
  exact ⟨heads, hheads.of_leaves hclause.leaves, hmarked⟩

end Clause

end Reading

end ApiForge.Source
