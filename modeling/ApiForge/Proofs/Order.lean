import ApiForge.Order
import Mathlib.Data.List.Dedup
import Mathlib.Data.List.Forall2
import Mathlib.Data.List.Induction
import Mathlib.Data.List.Sort
import Mathlib.Data.String.Basic

/-! Sorting, dropped repetitions and ordered collections of names: which entries are left, and in which order. A
sorted set is known by its members and a map by its look-ups, so both are compared entry by entry nowhere else. -/

namespace ApiForge

/-! ### Sorting -/

section Sorting

variable {α β : Type} {le : α → α → Bool}

theorem insertBy_eq_orderedInsert (x : α) (xs : List α) :
    insertBy le x xs = xs.orderedInsert (fun a b => le a b = true) x := by
  induction xs with
  | nil => rfl
  | cons y ys ih => rw [insertBy, List.orderedInsert_cons, ih]

theorem sortBy_eq_insertionSort (xs : List α) :
    sortBy le xs = xs.insertionSort (fun a b => le a b = true) := by
  induction xs with
  | nil => rfl
  | cons x xs ih =>
      rw [List.insertionSort_cons, ← ih, ← insertBy_eq_orderedInsert]
      rfl

theorem sortBy_perm (xs : List α) : (sortBy le xs).Perm xs := by
  rw [sortBy_eq_insertionSort]
  exact List.perm_insertionSort _ xs

@[simp] theorem mem_sortBy {x : α} {xs : List α} : x ∈ sortBy le xs ↔ x ∈ xs :=
  (sortBy_perm xs).mem_iff

theorem sortBy_pairwise (htotal : ∀ a b, le a b = true ∨ le b a = true)
    (htrans : ∀ a b c, le a b = true → le b c = true → le a c = true) (xs : List α) :
    (sortBy le xs).Pairwise fun a b => le a b = true := by
  have : Std.Total fun a b => le a b = true := ⟨htotal⟩
  have : IsTrans α fun a b => le a b = true := ⟨htrans⟩
  rw [sortBy_eq_insertionSort]
  exact List.pairwise_insertionSort _ xs

theorem sortBy_map (f : β → α) (xs : List β) :
    sortBy le (xs.map f) = (sortBy (fun a b => le (f a) (f b)) xs).map f := by
  rw [sortBy_eq_insertionSort, sortBy_eq_insertionSort]
  exact (List.map_insertionSort _ _ f xs fun _ _ _ _ => Iff.rfl).symm

/-- Sorting is stable: entries that tie among themselves stay as they stood. -/
theorem filter_sortBy {p : α → Bool} (hties : ∀ a b, p a = true → p b = true → le a b = true) (xs : List α) :
    (sortBy le xs).filter p = xs.filter p := by
  have hsorted : (xs.filter p).Pairwise fun a b => le a b = true :=
    List.pairwise_of_forall_mem_list fun a ha b hb => hties a b (List.of_mem_filter ha) (List.of_mem_filter hb)
  have hsub : (xs.filter p).Sublist ((sortBy le xs).filter p) := by
    rw [sortBy_eq_insertionSort]
    simpa using (List.sublist_insertionSort hsorted List.filter_sublist).filter p
  exact (hsub.eq_of_length ((sortBy_perm xs).symm.filter p).length_eq).symm

theorem sortNames_perm (names : List String) : (sortNames names).Perm names :=
  sortBy_perm names

theorem sortNames_pairwise (names : List String) : (sortNames names).Pairwise (· ≤ ·) := by
  refine (sortBy_pairwise ?_ ?_ names).imp fun h => of_decide_eq_true h
  · intro a b
    simpa using le_total a b
  · intro a b c hab hbc
    simp only [decide_eq_true_eq] at hab hbc ⊢
    exact hab.trans hbc

/-- The order that names come in does not matter. -/
theorem sortNames_congr {names names' : List String} (h : names.Perm names') : sortNames names = sortNames names' := by
  refine List.Perm.eq_of_pairwise (fun a b _ _ => le_antisymm) (sortNames_pairwise names) (sortNames_pairwise names') ?_
  exact (sortNames_perm names).trans (h.trans (sortNames_perm names').symm)

end Sorting

/-! ### Repetitions -/

section Repetitions

variable {α : Type} [DecidableEq α]

private theorem foldl_seen (xs seen : List α) (hseen : seen.Nodup) :
    (xs.foldl (fun seen x => if x ∈ seen then seen else seen ++ [x]) seen).Nodup ∧
      ∀ x, x ∈ xs.foldl (fun seen x => if x ∈ seen then seen else seen ++ [x]) seen ↔ x ∈ seen ∨ x ∈ xs := by
  induction xs generalizing seen with
  | nil => simp [hseen]
  | cons y ys ih =>
      rw [List.foldl_cons]
      by_cases hy : y ∈ seen
      · rw [if_pos hy]
        obtain ⟨hnodup, hmem⟩ := ih seen hseen
        refine ⟨hnodup, fun x => ?_⟩
        rw [hmem, List.mem_cons]
        constructor
        · exact Or.imp_right Or.inr
        · rintro (h | rfl | h)
          · exact Or.inl h
          · exact Or.inl hy
          · exact Or.inr h
      · rw [if_neg hy]
        have hnext : (seen ++ [y]).Nodup := by
          rw [List.nodup_append]
          refine ⟨hseen, List.nodup_singleton y, fun a ha b hb => ?_⟩
          rintro rfl
          exact hy (List.mem_singleton.mp hb ▸ ha)
        obtain ⟨hnodup, hmem⟩ := ih (seen ++ [y]) hnext
        refine ⟨hnodup, fun x => ?_⟩
        rw [hmem, List.mem_append, List.mem_singleton, List.mem_cons, or_assoc]

@[simp] theorem mem_distinct {x : α} {xs : List α} : x ∈ distinct xs ↔ x ∈ xs := by
  rw [distinct, (foldl_seen xs [] List.nodup_nil).2]
  simp

theorem nodup_distinct (xs : List α) : (distinct xs).Nodup :=
  (foldl_seen xs [] List.nodup_nil).1

theorem distinct_concat (xs : List α) (x : α) :
    distinct (xs ++ [x]) = if x ∈ xs then distinct xs else distinct xs ++ [x] := by
  have hstep : distinct (xs ++ [x]) = if x ∈ distinct xs then distinct xs else distinct xs ++ [x] := by
    rw [distinct, List.foldl_append]
    rfl
  rw [hstep]
  simp only [mem_distinct]

theorem dropRepeats_cons_cons (x y : α) (xs : List α) :
    dropRepeats (x :: y :: xs) = if x = y then dropRepeats (y :: xs) else x :: dropRepeats (y :: xs) := by
  have hhead : ∃ zs, dropRepeats (y :: xs) = y :: zs := by
    rw [dropRepeats]
    split
    · exact ⟨[], rfl⟩
    · split
      · rename_i h
        exact ⟨_, by rw [h]⟩
      · exact ⟨_, rfl⟩
  obtain ⟨zs, hzs⟩ := hhead
  rw [dropRepeats, hzs]

/-- The recursion of `dropRepeats` looks at two neighbours at a time. -/
theorem dropRepeats_induction {motive : List α → Prop} (nil : motive []) (singleton : ∀ x, motive [x])
    (again : ∀ x xs, motive (x :: xs) → motive (x :: x :: xs))
    (other : ∀ x y xs, x ≠ y → motive (y :: xs) → motive (x :: y :: xs)) : ∀ xs, motive xs
  | [] => nil
  | [x] => singleton x
  | x :: y :: xs => by
    have ih := dropRepeats_induction nil singleton again other (y :: xs)
    by_cases hxy : x = y
    · subst hxy
      exact again x xs ih
    · exact other x y xs hxy ih

@[simp] theorem mem_dropRepeats {x : α} {xs : List α} : x ∈ dropRepeats xs ↔ x ∈ xs := by
  induction xs using dropRepeats_induction with
  | nil => simp [dropRepeats]
  | singleton y => simp [dropRepeats]
  | again y ys ih => simp [dropRepeats_cons_cons, ih]
  | other y z zs hne ih => simp [dropRepeats_cons_cons, hne, ih]

theorem dropRepeats_sublist (xs : List α) : (dropRepeats xs).Sublist xs := by
  induction xs using dropRepeats_induction with
  | nil => exact List.Sublist.refl _
  | singleton y => exact List.Sublist.refl _
  | again y ys ih =>
      rw [dropRepeats_cons_cons, if_pos rfl]
      exact ih.cons y
  | other y z zs hne ih =>
      rw [dropRepeats_cons_cons, if_neg hne]
      exact ih.cons_cons y

theorem find?_dropRepeats (p : α → Bool) (xs : List α) : (dropRepeats xs).find? p = xs.find? p := by
  induction xs using dropRepeats_induction with
  | nil => rfl
  | singleton x => rfl
  | again x xs ih =>
      rw [dropRepeats_cons_cons, if_pos rfl, ih]
      cases hx : p x with
      | true => rw [List.find?_cons_of_pos hx, List.find?_cons_of_pos hx]
      | false => rw [List.find?_cons_of_neg (a := x) (l := x :: xs) (by simp [hx])]
  | other x y xs hne ih => rw [dropRepeats_cons_cons, if_neg hne, List.find?_cons, ih, ← List.find?_cons]

theorem find?_reverse_dropRepeats (p : α → Bool) (xs : List α) :
    (dropRepeats xs).reverse.find? p = xs.reverse.find? p := by
  induction xs using dropRepeats_induction with
  | nil => rfl
  | singleton x => rfl
  | again x xs ih =>
      rw [dropRepeats_cons_cons, if_pos rfl, ih]
      simp only [List.reverse_cons, List.find?_append, Option.or_assoc, Option.or_self]
  | other x y xs hne ih =>
      rw [dropRepeats_cons_cons, if_neg hne, List.reverse_cons, List.find?_append, ih, List.reverse_cons (a := x),
        List.find?_append]

/-- Repetitions are left exactly where something else stands in between. -/
theorem nodup_dropRepeats_iff {xs : List α} :
    (dropRepeats xs).Nodup ↔ ∀ a b, a ≠ b → ¬[a, b, a].Sublist xs := by
  induction xs using dropRepeats_induction with
  | nil => simp [dropRepeats]
  | singleton y =>
      simp only [dropRepeats, List.nodup_singleton, true_iff]
      intro a b _ hsub
      simpa using hsub.length_le
  | again y ys ih =>
      rw [dropRepeats_cons_cons, if_pos rfl, ih]
      refine forall₃_congr fun a b hne => not_congr ⟨fun h => h.cons y, fun h => ?_⟩
      rcases List.cons_sublist_cons'.mp h with h | ⟨rfl, h⟩
      · exact h
      · rcases List.cons_sublist_cons'.mp h with h | ⟨rfl, -⟩
        · exact h.cons_cons a
        · exact absurd rfl hne
  | other y z zs hne ih =>
      rw [dropRepeats_cons_cons, if_neg hne, List.nodup_cons, mem_dropRepeats, ih]
      constructor
      · rintro ⟨hy, hrest⟩ a b hab hsub
        rcases List.cons_sublist_cons'.mp hsub with hlater | ⟨rfl, hlater⟩
        · exact hrest a b hab hlater
        · exact hy (hlater.subset (by simp))
      · intro h
        refine ⟨fun hy => ?_, fun a b hab hsub => h a b hab (hsub.cons y)⟩
        have hy : y ∈ zs := (List.mem_cons.mp hy).resolve_left hne
        exact h y z hne (((List.singleton_sublist.mpr hy).cons_cons z).cons_cons y)

end Repetitions

/-! ### Lists side by side -/

theorem exists_of_forall₂ {α β : Type} {R : α → β → Prop} {xs : List α} {ys : List β} (h : List.Forall₂ R xs ys)
    {y : β} (hy : y ∈ ys) : ∃ x ∈ xs, R x y := by
  induction h with
  | nil => cases hy
  | cons hxy _ ih =>
      rcases List.mem_cons.mp hy with rfl | hy
      · exact ⟨_, List.mem_cons_self, hxy⟩
      · obtain ⟨x, hx, hxy⟩ := ih hy
        exact ⟨x, List.mem_cons_of_mem _ hx, hxy⟩

theorem exists_of_forall₂_left {α β : Type} {R : α → β → Prop} {xs : List α} {ys : List β} (h : List.Forall₂ R xs ys)
    {x : α} (hx : x ∈ xs) : ∃ y ∈ ys, R x y :=
  exists_of_forall₂ h.flip hx

/-! ### Sets of names -/

namespace NameSet

theorem mem_insert {x name : String} {set : NameSet} : x ∈ insert name set ↔ x = name ∨ x ∈ set := by
  induction set with
  | nil => simp [insert]
  | cons n ns ih =>
      rw [insert]
      split
      · rw [List.mem_cons]
      · split
        · rename_i heq
          rw [heq, List.mem_cons, ← or_assoc, or_self]
        · rw [List.mem_cons, ih, List.mem_cons, or_left_comm]

theorem pairwise_insert (name : String) {set : NameSet} (h : set.Pairwise (· < ·)) :
    (insert name set).Pairwise (· < ·) := by
  induction set with
  | nil => exact List.pairwise_singleton _ name
  | cons n ns ih =>
      rw [insert]
      split
      · rename_i hlt
        refine List.pairwise_cons.mpr ⟨fun m hm => ?_, h⟩
        rcases List.mem_cons.mp hm with rfl | hm
        · exact hlt
        · exact hlt.trans (List.rel_of_pairwise_cons h hm)
      · split
        · exact h
        · rename_i hnlt hne
          refine List.pairwise_cons.mpr ⟨fun m hm => ?_, ih h.of_cons⟩
          rcases mem_insert.mp hm with rfl | hm
          · exact lt_of_le_of_ne (not_lt.mp hnlt) (Ne.symm hne)
          · exact List.rel_of_pairwise_cons h hm

theorem ofList_concat (names : List String) (name : String) : ofList (names ++ [name]) = insert name (ofList names) := by
  rw [ofList, List.foldl_append]
  rfl

@[simp] theorem mem_ofList {x : String} {names : List String} : x ∈ ofList names ↔ x ∈ names := by
  induction names using List.reverseRecOn with
  | nil => exact Iff.rfl
  | append_singleton names name ih => rw [ofList_concat, mem_insert, ih, List.mem_append, List.mem_singleton, or_comm]

theorem pairwise_ofList (names : List String) : (ofList names).Pairwise (· < ·) := by
  induction names using List.reverseRecOn with
  | nil => exact List.Pairwise.nil
  | append_singleton names name ih =>
      rw [ofList_concat]
      exact pairwise_insert name ih

theorem nodup_ofList (names : List String) : (ofList names).Nodup :=
  (pairwise_ofList names).imp ne_of_lt

/-- A set is known by its members. -/
theorem ofList_congr {names names' : List String} (h : ∀ x, x ∈ names ↔ x ∈ names') : ofList names = ofList names' :=
  (pairwise_ofList names).eq_of_mem_iff (pairwise_ofList names') fun x => by rw [mem_ofList, mem_ofList, h]

end NameSet

/-! ### Maps under names -/

namespace NameMap

variable {α σ : Type}

theorem get?_cons (e : String × α) (map : NameMap α) (name : String) :
    get? (e :: map) name = if name = e.1 then some e.2 else map.get? name := by
  rw [get?, List.lookup_cons]
  by_cases h : name = e.1
  · rw [if_pos h, beq_iff_eq.mpr h]
  · rw [if_neg h, beq_eq_false_iff_ne.mpr h]
    rfl

theorem get?_insert (map : NameMap α) (name : String) (value : α) (other : String) :
    (map.insert name value).get? other = if other = name then some value else map.get? other := by
  induction map with
  | nil => exact get?_cons (name, value) [] other
  | cons e es ih =>
      rw [insert]
      split
      · exact get?_cons (name, value) (e :: es) other
      · split
        · rename_i heq
          rw [get?_cons, get?_cons, heq]
          split <;> rfl
        · rename_i hne
          rw [get?_cons, get?_cons, ih]
          split
          · rename_i heq
            rw [if_neg (heq ▸ Ne.symm hne)]
          · rfl

/-- The map over the names of a set. -/
def overSet (set : NameSet) (value : String → α) : NameMap α :=
  set.map fun name => (name, value name)

theorem overSet_congr {set : NameSet} {value value' : String → α} (h : ∀ name ∈ set, value name = value' name) :
    overSet set value = overSet set value' :=
  List.map_congr_left fun name hname => congrArg (Prod.mk name) (h name hname)

theorem get?_overSet (set : NameSet) (value : String → α) (name : String) :
    (overSet set value).get? name = if name ∈ set then some (value name) else none := by
  induction set with
  | nil => rfl
  | cons n ns ih =>
      rw [overSet, List.map_cons, get?_cons, ← overSet, ih]
      by_cases h : name = n
      · simp [h]
      · simp [h]

theorem getD_overSet {set : NameSet} {value : String → α} {name : String} {other : α}
    (hother : name ∉ set → value name = other) : ((overSet set value).get? name).getD other = value name := by
  rw [get?_overSet]
  split
  · rfl
  · rename_i hname
    exact (hother hname).symm

theorem insert_overSet {set : NameSet} (hset : set.Pairwise (· < ·)) (value : String → α) (name : String) (new : α) :
    (overSet set value).insert name new =
      overSet (NameSet.insert name set) fun other => if other = name then new else value other := by
  have hcongr {rest : NameSet} (hrest : ∀ n ∈ rest, n ≠ name) :
      overSet rest value = overSet rest fun other => if other = name then new else value other :=
    overSet_congr fun n hn => (if_neg (hrest n hn)).symm
  induction set with
  | nil => simp [overSet, NameSet.insert, insert]
  | cons n ns ih =>
      have hlater : ∀ m ∈ ns, n < m := fun m hm => List.rel_of_pairwise_cons hset hm
      rw [overSet, List.map_cons, insert, NameSet.insert]
      split
      · rename_i hlt
        have hothers : ∀ m ∈ n :: ns, m ≠ name := by
          intro m hm
          rcases List.mem_cons.mp hm with rfl | hm
          · exact hlt.ne'
          · exact (hlt.trans (hlater m hm)).ne'
        have htail := hcongr hothers
        rw [overSet, List.map_cons] at htail
        rw [htail]
        simp [overSet]
      · split
        · rename_i heq
          have htail := hcongr fun m hm => heq ▸ (hlater m hm).ne'
          rw [overSet] at htail
          rw [htail, heq]
          simp [overSet]
        · rename_i hne
          have hrest := ih hset.of_cons
          rw [overSet] at hrest
          rw [hrest]
          simp [overSet, Ne.symm hne]

/-- What a pass over `xs` collects under the keys of its entries: each key has what the entries of that key make of
`init`, in their order. -/
theorem foldl_insert (key : σ → String) (init : String → α) (step : α → σ → α) (xs : List σ) :
    xs.foldl (fun (map : NameMap α) x => map.insert (key x) (step ((map.get? (key x)).getD (init (key x))) x)) [] =
      overSet (NameSet.ofList (xs.map key)) fun name =>
        (xs.filter fun x => key x = name).foldl step (init name) := by
  induction xs using List.reverseRecOn with
  | nil => rfl
  | append_singleton xs x ih =>
      -- A key that is new has no entries yet, so it starts from `init`.
      have hnew : key x ∉ NameSet.ofList (xs.map key) →
          (xs.filter fun y => key y = key x).foldl step (init (key x)) = init (key x) := by
        intro hkey
        have hnone : (xs.filter fun y => key y = key x) = [] := by
          rw [List.filter_eq_nil_iff]
          intro y hy heq
          exact hkey (NameSet.mem_ofList.mpr (List.mem_map.mpr ⟨y, hy, of_decide_eq_true heq⟩))
        rw [hnone]
        rfl
      rw [List.foldl_append, ih, List.foldl_cons, List.foldl_nil, List.map_append, List.map_singleton,
        NameSet.ofList_concat, getD_overSet hnew, insert_overSet (NameSet.pairwise_ofList _)]
      refine overSet_congr fun name _ => ?_
      by_cases hname : name = key x
      · simp [hname, List.filter_append]
      · simp [hname, Ne.symm hname, List.filter_append]

theorem get?_insertNew (map : NameMap α) (name : String) (value : α) (other : String) :
    (map.insertNew name value).get? other = (map.get? other).or (if other = name then some value else none) := by
  rw [insertNew, contains]
  by_cases hname : (map.get? name).isSome = true
  · rw [if_pos hname]
    split_ifs with hother
    · subst hother
      obtain ⟨old, hold⟩ := Option.isSome_iff_exists.mp hname
      rw [hold, Option.some_or]
    · rw [Option.or_none]
  · rw [if_neg hname, get?_insert]
    split_ifs with hother
    · subst hother
      rw [Option.not_isSome_iff_eq_none.mp hname, Option.none_or]
    · rw [Option.or_none]

/-- Of several entries of one name the first counts. -/
theorem get?_foldl_insertNew (entries : List (String × α)) (map : NameMap α) (name : String) :
    (entries.foldl (fun map e => map.insertNew e.1 e.2) map).get? name = (map.get? name).or (entries.lookup name) := by
  induction entries generalizing map with
  | nil => rw [List.foldl_nil, List.lookup_nil, Option.or_none]
  | cons e entries ih =>
      have hlookup : (e :: entries).lookup name = if name = e.1 then some e.2 else entries.lookup name :=
        get?_cons e entries name
      rw [List.foldl_cons, ih, get?_insertNew, hlookup, Option.or_assoc]
      split_ifs <;> rfl

theorem keys_insert (map : NameMap α) (name : String) (value : α) :
    (map.insert name value).map Prod.fst = NameSet.insert name (map.map Prod.fst) := by
  induction map with
  | nil => rfl
  | cons e es ih =>
      rw [insert, List.map_cons, NameSet.insert]
      split_ifs with hlt heq
      · rfl
      · rw [List.map_cons, heq]
      · rw [List.map_cons, ih]

theorem pairwise_foldl_insertNew (entries : List (String × α)) {map : NameMap α}
    (h : (map.map Prod.fst).Pairwise (· < ·)) :
    ((entries.foldl (fun map e => map.insertNew e.1 e.2) map).map Prod.fst).Pairwise (· < ·) := by
  induction entries generalizing map with
  | nil => exact h
  | cons e entries ih =>
      apply ih
      dsimp only [insertNew]
      split_ifs
      · exact h
      · rw [keys_insert]
        exact NameSet.pairwise_insert e.1 h

end NameMap

end ApiForge
