import ApiForge.Proofs.ConfigRules
import ApiForge.Proofs.VersionOrder

/-! The fault that the check of a configuration reports. What is at fault is said for each place of the document on its
own, and the check reports the first. A place is the path that leads to it: the number of a part, of an entry in it and
so on, so that places are in the order of their paths. -/

namespace ApiForge

/-! ### What is at fault where -/

/-- The faults of an object by itself: at its name, at its list of versions, and at each version. -/
inductive ObjectConfig.Faulty (group : String) (o : ObjectConfig) : List Nat → ConfigFault → Prop where
  | blank : Text.isBlankText o.name = true → Faulty group o [] (.emptyObjectName group)
  | unversioned : o.versions = [] → Faulty group o [0] (.noVersions group o.name)
  | malformed {k : Nat} {v : String} : o.versions[k]? = some v → (¬∃ w : Version.Written, w.text = v) →
      Faulty group o [k + 1] (.invalidVersion group o.name v)

/-- The faults of the objects of a group, behind the number of the object. -/
inductive GroupConfig.Faulty (g : GroupConfig) : List Nat → ConfigFault → Prop where
  | object {j : Nat} {o : ObjectConfig} {t : List Nat} {fault : ConfigFault} : g.objects[j]? = some o →
      o.Faulty g.name t fault → Faulty g (j :: t) fault
  | repeated {h j : Nat} {e o : ObjectConfig} : g.objects[h]? = some e → g.objects[j]? = some o → h < j →
      e.name = o.name → Faulty g [j] (.duplicateObject g.name o.name)

/-- The faults of a configuration: of its namespace, of its groups, of its migration order. -/
inductive Config.Faulty (c : Config) : List Nat → ConfigFault → Prop where
  | blankNamespace : Text.isBlankText c.apiNamespace = true → Faulty c [0] .missingApiNamespace
  | blankGroup {i : Nat} {g : GroupConfig} : c.groups[i]? = some g → Text.isBlankText g.name = true →
      Faulty c [1, i] (.emptyGroupName i)
  | repeatedGroup {h i : Nat} {e g : GroupConfig} : c.groups[h]? = some e → c.groups[i]? = some g → h < i →
      e.name = g.name → Faulty c [1, i] (.duplicateGroup g.name)
  | group {i : Nat} {g : GroupConfig} {t : List Nat} {fault : ConfigFault} : c.groups[i]? = some g →
      g.Faulty t fault → Faulty c (1 :: i :: t) fault
  | migrationOrder {k : Nat} {o : MigrationOrder} : (c.migrationOrder.getD [])[k]? = some o →
      (o.before = "" ∨ o.after = "" ∨ o.before = o.after) →
      Faulty c [2, k] (.invalidMigrationOrder o.before o.after)

/-- All other faults come later. -/
structure FirstFault (faulty : List Nat → ConfigFault → Prop) (place : List Nat) (fault : ConfigFault) : Prop where
  found : faulty place fault
  first : ∀ q other, faulty q other → q = place ∧ other = fault ∨ place < q

theorem FirstFault.unique {faulty : List Nat → ConfigFault → Prop} {p q : List Nat} {fault other : ConfigFault}
    (hp : FirstFault faulty p fault) (hq : FirstFault faulty q other) : other = fault := by
  rcases hp.first q other hq.found with h | h
  · exact h.2
  · rcases hq.first p fault hp.found with h' | h'
    · exact h'.2.symm
    · exact absurd h' (List.lt_asymm h)

/-- Where the entries in front of number `n` are without fault, the first fault is the first of that entry. -/
theorem FirstFault.entry {faulty : List Nat → ConfigFault → Prop} {entries : Nat → List Nat → ConfigFault → Prop}
    (hentries : ∀ q other, faulty q other ↔ ∃ i t, q = i :: t ∧ entries i t other) {n : Nat} {t : List Nat}
    {fault : ConfigFault} (hnone : ∀ i < n, ∀ t other, ¬entries i t other) (h : FirstFault (entries n) t fault) :
    FirstFault faulty (n :: t) fault where
  found := (hentries _ _).mpr ⟨n, t, rfl, h.found⟩
  first q other hq := by
    obtain ⟨i, u, rfl, hu⟩ := (hentries q other).mp hq
    rcases lt_trichotomy i n with hlt | rfl | hlt
    · exact absurd hu (hnone i hlt u other)
    · rcases h.first u other hu with ⟨rfl, rfl⟩ | hlater
      · exact Or.inl ⟨rfl, rfl⟩
      · exact Or.inr (List.cons_lt_cons_iff.mpr (Or.inr ⟨rfl, hlater⟩))
    · exact Or.inr (List.cons_lt_cons_iff.mpr (Or.inl hlt))

/-! ### Where the checks of lists stop -/

/-- What the check of an object stops at; `known` when its name is that of one before it. -/
inductive ObjectConfig.Stops (group : String) (known : Prop) (o : ObjectConfig) : ConfigFault → Prop where
  | blank : Text.isBlankText o.name = true → Stops group known o (.emptyObjectName group)
  | repeated : Text.isBlankText o.name = false → known → Stops group known o (.duplicateObject group o.name)
  | unversioned : Text.isBlankText o.name = false → ¬known → o.versions = [] →
      Stops group known o (.noVersions group o.name)
  | malformed {front back : List String} {v : String} : Text.isBlankText o.name = false → ¬known →
      o.versions = front ++ v :: back → (∀ w ∈ front, Version.isValid w = true) → Version.isValid v = false →
      Stops group known o (.invalidVersion group o.name v)

/-- What the check of group number `index` stops at; `known` when its name is that of one before it. -/
inductive GroupConfig.Stops (index : Nat) (known : Prop) (g : GroupConfig) : ConfigFault → Prop where
  | blank : Text.isBlankText g.name = true → Stops index known g (.emptyGroupName index)
  | repeated : Text.isBlankText g.name = false → known → Stops index known g (.duplicateGroup g.name)
  | object {fault : ConfigFault} : Text.isBlankText g.name = false → ¬known →
      checkObjects g.name [] g.objects = .error fault → Stops index known g fault

theorem checkObjects_error {group : String} {seen : List String} {objects : List ObjectConfig} {fault : ConfigFault}
    (h : checkObjects group seen objects = .error fault) :
    ∃ front o back, objects = front ++ o :: back ∧ checkObjects group seen front = .ok () ∧
      o.Stops group (o.name ∈ seen ∨ o.name ∈ front.map ObjectConfig.name) fault := by
  induction objects generalizing seen with
  | nil => cases h
  | cons o objects ih =>
      rw [checkObjects] at h
      split_ifs at h with hblank hseen hversions
      · cases h
        exact ⟨[], o, objects, rfl, rfl, .blank hblank⟩
      · cases h
        exact ⟨[], o, objects, rfl, rfl, .repeated (by simpa using hblank) (by simpa using hseen)⟩
      · cases h
        exact ⟨[], o, objects, rfl, rfl, .unversioned (by simpa using hblank) (by simpa using hseen) hversions⟩
      · split at h
        · rename_i v hfind
          cases h
          obtain ⟨hinvalid, front, back, hsplit, hfront⟩ := List.find?_eq_some_iff_append.mp hfind
          exact ⟨[], o, objects, rfl, rfl, .malformed (by simpa using hblank) (by simpa using hseen) hsplit
            (by simpa using hfront) (by simpa using hinvalid)⟩
        · rename_i hfind
          obtain ⟨front, p, back, rfl, hfront, hstops⟩ := ih h
          refine ⟨o :: front, p, back, rfl, ?_, ?_⟩
          · rw [checkObjects, if_neg hblank, if_neg hseen, if_neg hversions, hfind]
            exact hfront
          · simpa only [List.mem_cons, List.map_cons, or_assoc, or_left_comm] using hstops

theorem checkGroups_error {index : Nat} {seen : List String} {groups : List GroupConfig} {fault : ConfigFault}
    (h : checkGroups index seen groups = .error fault) :
    ∃ front g back, groups = front ++ g :: back ∧ checkGroups index seen front = .ok () ∧
      g.Stops (index + front.length) (g.name ∈ seen ∨ g.name ∈ front.map GroupConfig.name) fault := by
  induction groups generalizing index seen with
  | nil => cases h
  | cons g groups ih =>
      rw [checkGroups] at h
      split_ifs at h with hblank hseen
      · cases h
        exact ⟨[], g, groups, rfl, rfl, .blank hblank⟩
      · cases h
        exact ⟨[], g, groups, rfl, rfl, .repeated (by simpa using hblank) (by simpa using hseen)⟩
      · split at h
        · rename_i fault hobjects
          cases h
          exact ⟨[], g, groups, rfl, rfl, .object (by simpa using hblank) (by simpa using hseen) hobjects⟩
        · rename_i hobjects
          obtain ⟨front, p, back, rfl, hfront, hstops⟩ := ih h
          refine ⟨g :: front, p, back, rfl, ?_, ?_⟩
          · rw [checkGroups, if_neg hblank, if_neg hseen, hobjects]
            exact hfront
          · simpa only [List.mem_cons, List.map_cons, List.length_cons, or_assoc, or_left_comm, Nat.add_assoc,
              Nat.add_comm 1] using hstops

/-! ### The first fault -/

/-- The name of an entry is that of one before it. -/
def Known {α : Type} (name : α → String) (xs : List α) (i : Nat) (x : α) : Prop :=
  ∃ h e, xs[h]? = some e ∧ h < i ∧ name e = name x

section Known

variable {α : Type} {name : α → String} {front back : List α} {x : α}

theorem known_at_split : Known name (front ++ x :: back) front.length x ↔ name x ∈ front.map name := by
  constructor
  · rintro ⟨h, e, he, hlt, hname⟩
    rw [List.getElem?_append_left hlt] at he
    exact List.mem_map.mpr ⟨e, List.mem_of_getElem? he, hname⟩
  · intro hmem
    obtain ⟨e, he, hname⟩ := List.mem_map.mp hmem
    obtain ⟨h, hh⟩ := List.mem_iff_getElem?.mp he
    have hlt : h < front.length := (List.getElem?_eq_some_iff.mp hh).1
    exact ⟨h, e, by rwa [List.getElem?_append_left hlt], hlt, hname⟩

theorem Known.of_append {i : Nat} (h : Known name (front ++ back) i x) (hi : i ≤ front.length) :
    Known name front i x := by
  obtain ⟨h, e, he, hlt, hname⟩ := h
  exact ⟨h, e, by rwa [List.getElem?_append_left (by omega)] at he, hlt, hname⟩

theorem not_known_of_nodup {xs : List α} (hxs : (xs.map name).Nodup) {i : Nat} (hx : xs[i]? = some x) :
    ¬Known name xs i x := by
  rintro ⟨h, e, he, hlt, hname⟩
  have he' : (xs.map name)[h]? = some (name e) := by simp [he]
  have hx' : (xs.map name)[i]? = some (name e) := by simp [hx, hname]
  exact hlt.ne ((List.getElem?_inj (List.getElem?_eq_some_iff.mp he').1 hxs).mp (he'.trans hx'.symm))

end Known

namespace ObjectConfig

variable {group : String} {o : ObjectConfig}

theorem WellFormed.not_faulty (h : o.WellFormed) (t : List Nat) (fault : ConfigFault) : ¬o.Faulty group t fault := by
  intro hfault
  cases hfault with
  | blank hblank => exact Bool.false_ne_true (h.named.symm.trans hblank)
  | unversioned hnone => exact h.versioned hnone
  | malformed hv hbad => exact hbad (Version.Written.exists_text (h.valid _ (List.mem_of_getElem? hv)))

/-- The faults of an object among others. -/
def FaultyAmong (group : String) (known : Prop) (o : ObjectConfig) (t : List Nat) (fault : ConfigFault) : Prop :=
  o.Faulty group t fault ∨ t = [] ∧ known ∧ fault = .duplicateObject group o.name

theorem Stops.firstFault {known : Prop} {fault : ConfigFault} (h : o.Stops group known fault)
    (hknown : known → Text.isBlankText o.name = false) : ∃ t, FirstFault (o.FaultyAmong group known) t fault := by
  cases h with
  | blank hblank =>
      refine ⟨[], Or.inl (.blank hblank), ?_⟩
      rintro q other (hq | ⟨-, hk, -⟩)
      · cases hq with
        | blank => exact Or.inl ⟨rfl, rfl⟩
        | unversioned => exact Or.inr (by simp)
        | malformed => exact Or.inr (by simp)
      · exact absurd (hknown hk) (by simp [hblank])
  | repeated hnamed hk =>
      refine ⟨[], Or.inr ⟨rfl, hk, rfl⟩, ?_⟩
      rintro q other (hq | ⟨rfl, -, rfl⟩)
      · cases hq with
        | blank hblank => exact absurd hblank (by simp [hnamed])
        | unversioned => exact Or.inr (by simp)
        | malformed => exact Or.inr (by simp)
      · exact Or.inl ⟨rfl, rfl⟩
  | unversioned hnamed hnew hnone =>
      refine ⟨[0], Or.inl (.unversioned hnone), ?_⟩
      rintro q other (hq | ⟨-, hk, -⟩)
      · cases hq with
        | blank hblank => exact absurd hblank (by simp [hnamed])
        | unversioned => exact Or.inl ⟨rfl, rfl⟩
        | malformed => exact Or.inr (List.cons_lt_cons_iff.mpr (Or.inl (Nat.succ_pos _)))
      · exact absurd hk hnew
  | @malformed front back v hnamed hnew hsplit hfront hbad =>
      have hv : o.versions[front.length]? = some v := by simp [hsplit]
      have hwritten : ¬∃ w : Version.Written, w.text = v := by
        rintro ⟨w, rfl⟩
        exact Bool.false_ne_true (hbad.symm.trans w.isValid_text)
      refine ⟨[front.length + 1], Or.inl (.malformed hv hwritten), ?_⟩
      rintro q other (hq | ⟨-, hk, -⟩)
      · cases hq with
        | blank hblank => exact absurd hblank (by simp [hnamed])
        | unversioned hnone =>
            rw [hnone] at hsplit
            simp at hsplit
        | @malformed k w hw hnot =>
            rcases lt_trichotomy k front.length with hlt | rfl | hlt
            · rw [hsplit, List.getElem?_append_left hlt] at hw
              exact absurd (Version.Written.exists_text (hfront w (List.mem_of_getElem? hw))) hnot
            · cases hw.symm.trans hv
              exact Or.inl ⟨rfl, rfl⟩
            · exact Or.inr (List.cons_lt_cons_iff.mpr (Or.inl (Nat.succ_lt_succ hlt)))
      · exact absurd hk hnew

end ObjectConfig

namespace GroupConfig

variable {g : GroupConfig}

/-- The faults of object number `j`. -/
def FaultyObject (g : GroupConfig) (j : Nat) (t : List Nat) (fault : ConfigFault) : Prop :=
  ∃ o, g.objects[j]? = some o ∧ o.FaultyAmong g.name (Known ObjectConfig.name g.objects j o) t fault

theorem faulty_iff (q : List Nat) (other : ConfigFault) :
    g.Faulty q other ↔ ∃ j t, q = j :: t ∧ g.FaultyObject j t other := by
  constructor
  · intro h
    cases h with
    | object ho h => exact ⟨_, _, rfl, _, ho, Or.inl h⟩
    | repeated he ho hlt hname => exact ⟨_, _, rfl, _, ho, Or.inr ⟨rfl, ⟨_, _, he, hlt, hname⟩, rfl⟩⟩
  · rintro ⟨j, t, rfl, o, ho, h | ⟨rfl, ⟨h, e, he, hlt, hname⟩, rfl⟩⟩
    · exact .object ho h
    · exact .repeated he ho hlt hname

theorem WellFormed.not_faulty (h : g.WellFormed) (t : List Nat) (fault : ConfigFault) : ¬g.Faulty t fault := by
  rw [faulty_iff]
  rintro ⟨j, t, rfl, o, ho, hfault | ⟨-, hknown, -⟩⟩
  · exact (h.objects o (List.mem_of_getElem? ho)).not_faulty t fault hfault
  · exact not_known_of_nodup h.distinct ho hknown

theorem firstFault_of_error {fault : ConfigFault} (h : checkObjects g.name [] g.objects = .error fault) :
    ∃ p, FirstFault g.Faulty p fault := by
  obtain ⟨front, o, back, hsplit, hfront, hstops⟩ := checkObjects_error h
  obtain ⟨hfine, -, hdistinct⟩ := checkObjects_eq_ok_iff.mp hfront
  have hknown : (o.name ∈ [] ∨ o.name ∈ front.map ObjectConfig.name) =
      Known ObjectConfig.name g.objects front.length o := by
    rw [hsplit, known_at_split]
    simp
  rw [hknown] at hstops
  obtain ⟨t, ht⟩ := hstops.firstFault fun hk => by
    rw [hsplit, known_at_split] at hk
    obtain ⟨e, he, hname⟩ := List.mem_map.mp hk
    exact hname ▸ (hfine e he).named
  have hentry : g.FaultyObject front.length =
      o.FaultyAmong g.name (Known ObjectConfig.name g.objects front.length o) := by
    funext t fault
    simp [FaultyObject, hsplit]
  refine ⟨front.length :: t, .entry faulty_iff ?_ (hentry ▸ ht)⟩
  rintro j hj t other ⟨e, he, hfault⟩
  rw [hsplit, List.getElem?_append_left hj] at he
  rcases hfault with hfault | ⟨-, hk, -⟩
  · exact (hfine e (List.mem_of_getElem? he)).not_faulty t other hfault
  · rw [hsplit] at hk
    exact not_known_of_nodup hdistinct he (hk.of_append hj.le)

/-- The faults of a group among others, of which it is number `index`. -/
def FaultyAmong (index : Nat) (known : Prop) (g : GroupConfig) (t : List Nat) (fault : ConfigFault) : Prop :=
  g.Faulty t fault ∨ t = [] ∧ (Text.isBlankText g.name = true ∧ fault = .emptyGroupName index ∨
    known ∧ fault = .duplicateGroup g.name)

theorem Stops.firstFault {index : Nat} {known : Prop} {fault : ConfigFault} (h : g.Stops index known fault)
    (hknown : known → Text.isBlankText g.name = false) : ∃ t, FirstFault (g.FaultyAmong index known) t fault := by
  have hbelow {q : List Nat} {other : ConfigFault} (hq : g.Faulty q other) : [] < q := by
    obtain ⟨j, t, rfl, -⟩ := (faulty_iff q other).mp hq
    simp
  cases h with
  | blank hblank =>
      refine ⟨[], Or.inr ⟨rfl, Or.inl ⟨hblank, rfl⟩⟩, ?_⟩
      rintro q other (hq | ⟨rfl, ⟨-, rfl⟩ | ⟨hk, -⟩⟩)
      · exact Or.inr (hbelow hq)
      · exact Or.inl ⟨rfl, rfl⟩
      · exact absurd (hknown hk) (by simp [hblank])
  | repeated hnamed hk =>
      refine ⟨[], Or.inr ⟨rfl, Or.inr ⟨hk, rfl⟩⟩, ?_⟩
      rintro q other (hq | ⟨rfl, ⟨hblank, -⟩ | ⟨-, rfl⟩⟩)
      · exact Or.inr (hbelow hq)
      · exact absurd hblank (by simp [hnamed])
      · exact Or.inl ⟨rfl, rfl⟩
  | object hnamed hnew hobjects =>
      obtain ⟨t, ht⟩ := firstFault_of_error hobjects
      refine ⟨t, Or.inl ht.found, ?_⟩
      rintro q other (hq | ⟨-, ⟨hblank, -⟩ | ⟨hk, -⟩⟩)
      · exact ht.first q other hq
      · exact absurd hblank (by simp [hnamed])
      · exact absurd hk hnew

end GroupConfig

namespace Config

variable {c : Config}

/-- The faults of group number `i`. -/
def FaultyGroup (c : Config) (i : Nat) (t : List Nat) (fault : ConfigFault) : Prop :=
  ∃ g, c.groups[i]? = some g ∧ g.FaultyAmong i (Known GroupConfig.name c.groups i g) t fault

/-- The faults of a part: the namespace, the groups, the migration order. -/
def FaultyPart (c : Config) : Nat → List Nat → ConfigFault → Prop
  | 0, t, fault => t = [] ∧ Text.isBlankText c.apiNamespace = true ∧ fault = .missingApiNamespace
  | 1, t, fault => ∃ i u, t = i :: u ∧ c.FaultyGroup i u fault
  | 2, t, fault => ∃ k u, t = k :: u ∧ u = [] ∧ ∃ o, (c.migrationOrder.getD [])[k]? = some o ∧
      o.isWellFormed = false ∧ fault = .invalidMigrationOrder o.before o.after
  | _ + 3, _, _ => False

theorem isWellFormed_eq_false_iff {o : MigrationOrder} :
    o.isWellFormed = false ↔ o.before = "" ∨ o.after = "" ∨ o.before = o.after := by
  simp [MigrationOrder.isWellFormed, Decidable.or_iff_not_imp_left]

theorem faulty_iff (q : List Nat) (other : ConfigFault) :
    c.Faulty q other ↔ ∃ n t, q = n :: t ∧ c.FaultyPart n t other := by
  constructor
  · intro h
    cases h with
    | blankNamespace hblank => exact ⟨0, [], rfl, rfl, hblank, rfl⟩
    | blankGroup hg hblank => exact ⟨1, _, rfl, _, _, rfl, _, hg, Or.inr ⟨rfl, Or.inl ⟨hblank, rfl⟩⟩⟩
    | repeatedGroup he hg hlt hname =>
        exact ⟨1, _, rfl, _, _, rfl, _, hg, Or.inr ⟨rfl, Or.inr ⟨⟨_, _, he, hlt, hname⟩, rfl⟩⟩⟩
    | group hg h => exact ⟨1, _, rfl, _, _, rfl, _, hg, Or.inl h⟩
    | migrationOrder ho hbad =>
        exact ⟨2, _, rfl, _, _, rfl, rfl, _, ho, isWellFormed_eq_false_iff.mpr hbad, rfl⟩
  · rintro ⟨n, t, rfl, h⟩
    match n with
    | 0 =>
        obtain ⟨rfl, hblank, rfl⟩ := h
        exact .blankNamespace hblank
    | 1 =>
        obtain ⟨i, u, rfl, g, hg, h | ⟨rfl, ⟨hblank, rfl⟩ | ⟨⟨h, e, he, hlt, hname⟩, rfl⟩⟩⟩ := h
        · exact .group hg h
        · exact .blankGroup hg hblank
        · exact .repeatedGroup he hg hlt hname
    | 2 =>
        obtain ⟨k, u, rfl, rfl, o, ho, hbad, rfl⟩ := h
        exact .migrationOrder ho (isWellFormed_eq_false_iff.mp hbad)
    | _ + 3 => exact h.elim

theorem not_faultyGroup {i : Nat} {front back : List GroupConfig} (hsplit : c.groups = front ++ back)
    (hfront : checkGroups 0 [] front = .ok ()) (hi : i < front.length) (t : List Nat) (other : ConfigFault) :
    ¬c.FaultyGroup i t other := by
  obtain ⟨hfine, -, hdistinct⟩ := checkGroups_eq_ok_iff.mp hfront
  rintro ⟨e, he, hfault⟩
  rw [hsplit, List.getElem?_append_left hi] at he
  have hwell := hfine e (List.mem_of_getElem? he)
  rcases hfault with hfault | ⟨-, ⟨hblank, -⟩ | ⟨hk, -⟩⟩
  · exact hwell.not_faulty t other hfault
  · exact Bool.false_ne_true (hwell.named.symm.trans hblank)
  · rw [hsplit] at hk
    exact not_known_of_nodup hdistinct he (hk.of_append hi.le)

theorem firstFault_of_groups {fault : ConfigFault} (h : checkGroups 0 [] c.groups = .error fault) :
    ∃ p, FirstFault (c.FaultyPart 1) p fault := by
  obtain ⟨front, g, back, hsplit, hfront, hstops⟩ := checkGroups_error h
  have hknown : (g.name ∈ [] ∨ g.name ∈ front.map GroupConfig.name) =
      Known GroupConfig.name c.groups front.length g := by
    rw [hsplit, known_at_split]
    simp
  rw [hknown, Nat.zero_add] at hstops
  obtain ⟨t, ht⟩ := hstops.firstFault fun hk => by
    rw [hsplit, known_at_split] at hk
    obtain ⟨e, he, hname⟩ := List.mem_map.mp hk
    exact hname ▸ ((checkGroups_eq_ok_iff.mp hfront).1 e he).named
  have hentry : c.FaultyGroup front.length =
      g.FaultyAmong front.length (Known GroupConfig.name c.groups front.length g) := by
    funext t fault
    simp [FaultyGroup, hsplit]
  exact ⟨front.length :: t, .entry (fun _ _ => Iff.rfl) (fun _ hi => not_faultyGroup hsplit hfront hi) (hentry ▸ ht)⟩

theorem firstFault_of_orders {fault : ConfigFault} (h : checkMigrationOrder (c.migrationOrder.getD []) = .error fault) :
    ∃ p, FirstFault (c.FaultyPart 2) p fault := by
  rw [checkMigrationOrder] at h
  split at h
  · rename_i o hfind
    cases h
    obtain ⟨hbad, front, back, hsplit, hfront⟩ := List.find?_eq_some_iff_append.mp hfind
    refine ⟨[front.length], .entry (fun _ _ => Iff.rfl) ?_ ⟨⟨rfl, o, by simp [hsplit], by simpa using hbad, rfl⟩, ?_⟩⟩
    · rintro k hk t other ⟨-, e, he, hwrong, -⟩
      rw [hsplit, List.getElem?_append_left hk] at he
      exact absurd (hfront e (List.mem_of_getElem? he)) (by simp [hwrong])
    · rintro q other ⟨rfl, e, he, -, rfl⟩
      rw [hsplit, List.getElem?_append_right le_rfl] at he
      simp only [Nat.sub_self, List.getElem?_cons_zero, Option.some.injEq] at he
      exact Or.inl ⟨rfl, he ▸ rfl⟩
  · cases h

theorem firstFault_of_error {fault : ConfigFault} (h : c.check = .error fault) : ∃ p, FirstFault c.Faulty p fault := by
  rw [check] at h
  split_ifs at h with hblank
  · cases h
    refine ⟨[0], .entry faulty_iff (by simp) ⟨⟨rfl, hblank, rfl⟩, ?_⟩⟩
    rintro q other ⟨rfl, -, rfl⟩
    exact Or.inl ⟨rfl, rfl⟩
  · have hnamespace (t : List Nat) (other : ConfigFault) : ¬c.FaultyPart 0 t other := fun h => hblank h.2.1
    split at h
    · rename_i fault hgroups
      cases h
      obtain ⟨p, hp⟩ := firstFault_of_groups hgroups
      refine ⟨1 :: p, .entry faulty_iff (fun n hn => ?_) hp⟩
      obtain rfl := Nat.lt_one_iff.mp hn
      exact hnamespace
    · rename_i hgroups
      obtain ⟨p, hp⟩ := firstFault_of_orders h
      refine ⟨2 :: p, .entry faulty_iff (fun n hn t other => ?_) hp⟩
      obtain rfl | rfl : n = 0 ∨ n = 1 := by omega
      · exact hnamespace t other
      · rintro ⟨i, u, rfl, hgroup⟩
        have hi : i < c.groups.length := by
          obtain ⟨g, hg, -⟩ := hgroup
          exact (List.getElem?_eq_some_iff.mp hg).1
        exact not_faultyGroup (List.append_nil _).symm hgroups hi u other hgroup

theorem WellFormed.not_faulty (h : c.WellFormed) (place : List Nat) (fault : ConfigFault) : ¬c.Faulty place fault := by
  intro hfault
  cases hfault with
  | blankNamespace hblank => exact Bool.false_ne_true (h.named.symm.trans hblank)
  | blankGroup hg hblank => exact Bool.false_ne_true ((h.groups _ (List.mem_of_getElem? hg)).named.symm.trans hblank)
  | repeatedGroup he hg hlt hname => exact not_known_of_nodup h.distinct hg ⟨_, _, he, hlt, hname⟩
  | group hg hbelow => exact (h.groups _ (List.mem_of_getElem? hg)).not_faulty _ fault hbelow
  | migrationOrder ho hbad =>
      exact Bool.false_ne_true ((isWellFormed_eq_false_iff.mpr hbad).symm.trans (h.orders _ (List.mem_of_getElem? ho)))

end Config

/-- A configuration is accepted exactly when it is well-formed, that is when it has no fault at any place; otherwise the
check reports the one fault that comes before all others in the document. -/
theorem config_check_exact (c : Config) :
    (c.check = .ok () ↔ c.WellFormed) ∧
    (∀ version, Version.isValid version = true ↔ ∃ w : Version.Written, w.text = version) ∧
    (c.check = .ok () ↔ ∀ place fault, ¬c.Faulty place fault) ∧
    ∀ fault, c.check = .error fault ↔ ∃ place, FirstFault c.Faulty place fault := by
  have hfaulty (place : List Nat) (fault : ConfigFault) (h : c.Faulty place fault) : c.check ≠ .ok () :=
    fun hok => (Config.check_eq_ok_iff.mp hok).not_faulty place fault h
  refine ⟨Config.check_eq_ok_iff, fun version => ⟨Version.Written.exists_text, ?_⟩, ⟨fun hok place fault h =>
    hfaulty place fault h hok, fun hnone => ?_⟩, fun fault => ⟨Config.firstFault_of_error, ?_⟩⟩
  · rintro ⟨w, rfl⟩
    exact w.isValid_text
  · cases hcheck : c.check with
    | ok => rfl
    | error fault =>
        obtain ⟨place, h⟩ := Config.firstFault_of_error hcheck
        exact absurd h.found (hnone place fault)
  · rintro ⟨place, h⟩
    cases hcheck : c.check with
    | ok => exact absurd hcheck (hfaulty place fault h.found)
    | error other =>
        obtain ⟨q, hq⟩ := Config.firstFault_of_error hcheck
        rw [hq.unique h]

end ApiForge
