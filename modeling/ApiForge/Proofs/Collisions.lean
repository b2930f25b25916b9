import ApiForge.Model.Build
import ApiForge.Proofs.Identifiers

/-! The check for collisions. It knows an object by its group and its type with a dot between them, which is the same
text for different objects when names have dots themselves. Such objects have type names with different numbers of
dots, so they share no identifier, and the check is exact all the same. -/

namespace ApiForge

/-! ### Owners -/

theorem IdentifierUse.sameName_iff {a b : IdentifierUse} :
    a.sameName b = true ↔ a.identifier = b.identifier ∧ a.version = b.version ∧ a.scope = b.scope := by
  rw [sameName, Bool.and_eq_true, Bool.and_eq_true, beq_iff_eq, beq_iff_eq, beq_iff_eq, and_assoc]

theorem IdentifierUse.sameName_symm {a b : IdentifierUse} (h : a.sameName b = true) : b.sameName a = true := by
  obtain ⟨hid, hversion, hscope⟩ := sameName_iff.mp h
  exact sameName_iff.mpr ⟨hid.symm, hversion.symm, hscope.symm⟩

theorem IdentifierUse.sameName_trans {a b c : IdentifierUse} (hab : a.sameName b = true) (hbc : b.sameName c = true) :
    a.sameName c = true := by
  obtain ⟨hid, hversion, hscope⟩ := sameName_iff.mp hab
  obtain ⟨hid', hversion', hscope'⟩ := sameName_iff.mp hbc
  exact sameName_iff.mpr ⟨hid.trans hid', hversion.trans hversion', hscope.trans hscope'⟩

/-- Uses of one name have one owner. -/
def SoleOwners (uses : List IdentifierUse) : Prop :=
  ∀ a ∈ uses, ∀ b ∈ uses, a.sameName b = true → a.owner = b.owner

/-- A use of a name that nothing else has, or that has the owner of another use of it, leaves names with one owner. -/
theorem SoleOwners.insert {front back : List IdentifierUse} {use : IdentifierUse} (h : SoleOwners (front ++ back))
    (huse : ∀ a ∈ front ++ back, a.sameName use = true → a.owner = use.owner) :
    SoleOwners (front ++ use :: back) := by
  have hmem : ∀ a ∈ front ++ use :: back, a = use ∨ a ∈ front ++ back := by
    intro a ha
    simpa [or_left_comm] using ha
  intro a ha b hb hab
  rcases hmem a ha with haeq | haold
  · rcases hmem b hb with hbeq | hbold
    · rw [haeq, hbeq]
    · rw [haeq] at hab ⊢
      exact (huse b hbold (IdentifierUse.sameName_symm hab)).symm
  · rcases hmem b hb with hbeq | hbold
    · rw [hbeq] at hab ⊢
      exact huse a haold hab
    · exact h a haold b hbold hab

theorem SoleOwners.mono {uses uses' : List IdentifierUse} (h : SoleOwners uses') (hsub : uses ⊆ uses') :
    SoleOwners uses :=
  fun a ha b hb => h a (hsub ha) b (hsub hb)

theorem collision?_eq_none_iff {earlier uses : List IdentifierUse} (hearlier : SoleOwners earlier) :
    collision? earlier uses = none ↔ SoleOwners (earlier ++ uses) := by
  induction uses generalizing earlier with
  | nil => simpa [collision?] using hearlier
  | cons use uses ih =>
      rw [collision?]
      have hwithout : SoleOwners (earlier ++ use :: uses) → SoleOwners (earlier ++ uses) :=
        fun h => h.mono (List.append_subset.mpr
          ⟨List.subset_append_left _ _, fun _ ha => List.mem_append_right _ (List.mem_cons_of_mem use ha)⟩)
      split
      · rename_i first hfirst
        have hmem := List.mem_of_find?_eq_some hfirst
        have hname : use.sameName first = true := List.find?_some hfirst
        split
        · -- The use is one more of a name that its owner has already, so it says nothing new.
          rename_i howner
          rw [ih hearlier]
          refine ⟨fun h => h.insert fun a ha hsame => ?_, hwithout⟩
          rw [← howner]
          exact h a ha first (List.mem_append_left _ hmem) (IdentifierUse.sameName_trans hsame hname)
        · rename_i howner
          simp only [reduceCtorEq, false_iff]
          intro h
          exact howner (h first (List.mem_append_left _ hmem) use (List.mem_append_right _ List.mem_cons_self)
            (IdentifierUse.sameName_symm hname))
      · rename_i hnone
        have hnew : SoleOwners (earlier ++ [use]) := by
          refine SoleOwners.insert (by rwa [List.append_nil]) fun a ha hname => ?_
          rw [List.append_nil] at ha
          exact absurd (IdentifierUse.sameName_symm hname) (List.find?_eq_none.mp hnone a ha)
        rw [ih hnew, List.append_assoc, List.singleton_append]

/-! ### Objects -/

/-- `R` holds between any two different objects of one version. -/
def BetweenObjects (groups : List Group) (R : ApiObject → ApiObject → Prop) : Prop :=
  ∀ g ∈ groups, ∀ a ∈ g.objects, ∀ g' ∈ groups, ∀ b ∈ g'.objects,
    a.version = b.version → (g.name, a.typeName) ≠ (g'.name, b.typeName) → R a b

/-- Each object has the names derived from its type and its version. -/
def DerivedNames (groups : List Group) : Prop :=
  ∀ g ∈ groups, ∀ a ∈ g.objects, a.names = .ofObject a.typeName a.version

instance (groups : List Group) : Decidable (DerivedNames groups) :=
  inferInstanceAs (Decidable (∀ g ∈ groups, ∀ a ∈ g.objects, _))

theorem mem_identifierUses {groups : List Group} {use : IdentifierUse} :
    use ∈ identifierUses groups ↔ ∃ g ∈ groups, ∃ a ∈ g.objects, ∃ id ∈ a.names.identifiers,
      use = ⟨a.version, id.1, id.2, g.name ++ "." ++ a.typeName⟩ := by
  simp only [identifierUses, List.mem_flatMap, List.mem_map, eq_comm]

/-- A text that goes on behind a dot as another does, with as many dots from there on, has the same dot there. -/
theorem eq_of_dot_eq {front front' back back' : List Char} (h : front ++ '.' :: back = front' ++ '.' :: back')
    (hdots : back.count '.' = back'.count '.') : front = front' ∧ back = back' := by
  induction front generalizing front' with
  | nil =>
      cases front' with
      | nil => exact ⟨rfl, (List.cons.inj h).2⟩
      | cons c front' =>
          have hback : back = front' ++ '.' :: back' := (List.cons.inj h).2
          rw [hback, List.count_append, List.count_cons_self] at hdots
          omega
  | cons c front ih =>
      cases front' with
      | nil =>
          have hback : front ++ '.' :: back = back' := (List.cons.inj h).2
          rw [← hback, List.count_append, List.count_cons_self] at hdots
          omega
      | cons c' front' =>
          obtain ⟨rfl, htail⟩ := List.cons.inj h
          obtain ⟨rfl, rfl⟩ := ih htail
          exact ⟨rfl, rfl⟩

/-- One text can stand for two objects only if their type names have different numbers of dots. -/
theorem eq_of_owner_eq {group group' typeName typeName' : String}
    (howner : group ++ "." ++ typeName = group' ++ "." ++ typeName')
    (hdots : typeName.toList.count '.' = typeName'.toList.count '.') : (group, typeName) = (group', typeName') := by
  have hlist := congrArg String.toList howner
  simp only [String.toList_append, List.append_assoc] at hlist
  obtain ⟨hgroup, htype⟩ := eq_of_dot_eq hlist hdots
  rw [String.toList_inj.mp hgroup, String.toList_inj.mp htype]

theorem soleOwners_iff {groups : List Group} (hnames : DerivedNames groups) :
    SoleOwners (identifierUses groups) ↔
      BetweenObjects groups fun a b => a.names.identifiers.Disjoint b.names.identifiers := by
  constructor
  · intro h g hg a ha g' hg' b hb hversion hne id hid hid'
    have howner := h _ (mem_identifierUses.mpr ⟨g, hg, a, ha, id, hid, rfl⟩) _
      (mem_identifierUses.mpr ⟨g', hg', b, hb, id, hid', rfl⟩)
      (IdentifierUse.sameName_iff.mpr ⟨rfl, hversion, rfl⟩)
    rw [hnames g hg a ha] at hid
    rw [hnames g' hg' b hb] at hid'
    apply hne
    apply eq_of_owner_eq howner
    rw [← ObjectNames.count_dot_identifiers hid, ← ObjectNames.count_dot_identifiers hid']
  · intro h use huse use' huse' hname
    obtain ⟨g, hg, a, ha, id, hid, rfl⟩ := mem_identifierUses.mp huse
    obtain ⟨g', hg', b, hb, id', hid', rfl⟩ := mem_identifierUses.mp huse'
    obtain ⟨hidentifier, hversion, hscope⟩ := IdentifierUse.sameName_iff.mp hname
    obtain rfl : id = id' := Prod.ext hscope hidentifier
    by_cases heq : (g.name, a.typeName) = (g'.name, b.typeName)
    · obtain ⟨hgroup, htype⟩ := Prod.mk.inj heq
      rw [hgroup, htype]
    · exact absurd hid' (h g hg a ha g' hg' b hb hversion heq hid)

theorem collision?_uses_eq_none_iff {groups : List Group} (hnames : DerivedNames groups) :
    collision? [] (identifierUses groups) = none ↔
      BetweenObjects groups fun a b => a.names.identifiers.Disjoint b.names.identifiers := by
  rw [collision?_eq_none_iff fun _ ha => absurd ha List.not_mem_nil, List.nil_append, soleOwners_iff hnames]

/-- The check passes exactly when no two different objects of one version share an identifier of one package, and no
object whatever its type is called meets itself there. -/
theorem collision_free_iff_disjoint {groups : List Group} (hnames : DerivedNames groups) :
    (collision? [] (identifierUses groups) = none ↔
      BetweenObjects groups fun a b => a.names.identifiers.Disjoint b.names.identifiers) ∧
    ∀ typeName version, (ObjectNames.ofObject typeName version).identifiers.Nodup :=
  ⟨collision?_uses_eq_none_iff hnames, ObjectNames.nodup_identifiers⟩

/-- Two objects that are both known as `A.B.C` pass the check and share nothing. -/
theorem dotted_owners_disjoint :
    let object (typeName : String) : ApiObject := .ofConfig { name := typeName } "v0"
    let group (name typeName : String) : Group :=
      { name := name, names := .ofGroup name, objects := [object typeName], reconciled := [], marked := [], tags := [] }
    let groups := [group "A.B" "C", group "A" "B.C"]
    DerivedNames groups ∧ distinct ((identifierUses groups).map IdentifierUse.owner) = ["A.B.C"] ∧
      collision? [] (identifierUses groups) = none ∧
      BetweenObjects groups fun a b => a.names.identifiers.Disjoint b.names.identifiers := by
  intro object group groups
  have hnames : DerivedNames groups := by decide +kernel
  have hfree : collision? [] (identifierUses groups) = none := by decide +kernel
  exact ⟨hnames, by decide +kernel, hfree, (collision_free_iff_disjoint hnames).1.mp hfree⟩

end ApiForge
