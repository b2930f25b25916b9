import ApiForge.Model.Group
import ApiForge.Proofs.Versions
import Mathlib.Data.List.Nodup

/-! The objects of a group at their latest versions. They are collected one by one, each in the place of an older version
of its type, so every type is there once, with an entry that no other entry of the type comes after. -/

namespace ApiForge

namespace Group

/-- `latest` has one entry of each type in `objects`, at the latest of its versions. -/
structure Latest (objects latest : List ApiObject) : Prop where
  mem : ∀ l ∈ latest, l ∈ objects
  complete : ∀ o ∈ objects, o.typeName ∈ latest.map ApiObject.typeName
  once : (latest.map ApiObject.typeName).Nodup
  last : ∀ l ∈ latest, ∀ o ∈ objects, o.typeName = l.typeName → Version.le o.version l.version = true

theorem types_keepLatest (ls : List ApiObject) (o : ApiObject) :
    (keepLatest ls o).map ApiObject.typeName =
      if o.typeName ∈ ls.map ApiObject.typeName then ls.map ApiObject.typeName
      else ls.map ApiObject.typeName ++ [o.typeName] := by
  induction ls with
  | nil => simp [keepLatest]
  | cons l ls ih =>
      rw [keepLatest]
      split
      · rename_i htype
        split <;> simp [htype]
      · rename_i htype
        have hmem : o.typeName ∈ (l :: ls).map ApiObject.typeName ↔ o.typeName ∈ ls.map ApiObject.typeName := by
          rw [List.map_cons, List.mem_cons, or_iff_right (Ne.symm htype)]
        rw [List.map_cons, ih]
        simp only [hmem]
        split <;> rfl

/-- An entry that is kept is an old one, which no newer one of its type has come for, or the new one, which has taken the
place of an older one if there was one. -/
theorem mem_keepLatest {ls : List ApiObject} {o x : ApiObject} (honce : (ls.map ApiObject.typeName).Nodup)
    (hx : x ∈ keepLatest ls o) :
    (x ∈ ls ∧ (o.typeName = x.typeName → Version.le o.version x.version = true)) ∨
      x = o ∧ ∀ l ∈ ls, l.typeName = o.typeName → Version.le l.version o.version = true := by
  induction ls with
  | nil => exact Or.inr ⟨List.mem_singleton.mp hx, fun l hl => absurd hl List.not_mem_nil⟩
  | cons l ls ih =>
      rw [List.map_cons, List.nodup_cons] at honce
      have hothers {l' : ApiObject} (hl' : l' ∈ ls) : l'.typeName ≠ l.typeName :=
        fun heq => honce.1 (heq ▸ List.mem_map_of_mem hl')
      rw [keepLatest] at hx
      split at hx
      · rename_i htype
        rcases List.mem_cons.mp hx with hx | hx
        · split at hx
          · rename_i hnewer
            refine Or.inr ⟨hx, fun l' hl' htype' => ?_⟩
            rcases List.mem_cons.mp hl' with rfl | hl'
            · rw [Version.le, Version.compare_swap, hnewer]
              rfl
            · exact absurd (htype'.trans htype.symm) (hothers hl')
          · rename_i hnewer
            rw [hx]
            exact Or.inl ⟨List.mem_cons_self, fun _ => Version.le_iff_ne_gt.mpr hnewer⟩
        · exact Or.inl ⟨List.mem_cons_of_mem l hx, fun heq => absurd (heq.symm.trans htype.symm) (hothers hx)⟩
      · rename_i htype
        rcases List.mem_cons.mp hx with rfl | hx
        · exact Or.inl ⟨List.mem_cons_self, fun heq => absurd heq.symm htype⟩
        · rcases ih honce.2 hx with ⟨hmem, hlast⟩ | ⟨hnew, hlast⟩
          · exact Or.inl ⟨List.mem_cons_of_mem l hmem, hlast⟩
          · refine Or.inr ⟨hnew, fun l' hl' htype' => ?_⟩
            rcases List.mem_cons.mp hl' with rfl | hl'
            · exact absurd htype' htype
            · exact hlast l' hl' htype'

theorem Latest.concat {objects latest : List ApiObject} (h : Latest objects latest) (o : ApiObject) :
    Latest (objects ++ [o]) (keepLatest latest o) where
  mem x hx := by
    rcases mem_keepLatest h.once hx with ⟨hmem, -⟩ | ⟨rfl, -⟩
    · exact List.mem_append_left [o] (h.mem x hmem)
    · exact List.mem_append_right objects List.mem_cons_self
  complete x hx := by
    rw [types_keepLatest]
    rcases List.mem_append.mp hx with hx | hx
    · have htype := h.complete x hx
      split
      · exact htype
      · exact List.mem_append_left _ htype
    · rw [List.mem_singleton.mp hx]
      split
      · assumption
      · exact List.mem_append_right _ List.mem_cons_self
  once := by
    rw [types_keepLatest]
    split
    · exact h.once
    · rename_i hnew
      exact List.nodup_append.mpr ⟨h.once, List.nodup_singleton _,
        fun a ha b hb heq => hnew (by rw [← List.mem_singleton.mp hb, ← heq]; exact ha)⟩
  last x hx y hy htype := by
    rcases mem_keepLatest h.once hx with ⟨hmem, hlast⟩ | ⟨rfl, hlast⟩
    · rcases List.mem_append.mp hy with hy | hy
      · exact h.last x hmem y hy htype
      · rw [List.mem_singleton.mp hy] at htype ⊢
        exact hlast htype
    · rcases List.mem_append.mp hy with hy | hy
      · -- The type was there, with an entry that is as late as this one and that the new one is as late as.
        obtain ⟨l, hl, hltype⟩ := List.mem_map.mp (h.complete y hy)
        exact Version.le_trans (h.last l hl y hy hltype.symm) (hlast l hl (hltype.trans htype))
      · rw [List.mem_singleton.mp hy]
        exact Version.le_refl x.version

theorem latest_nil : Latest [] [] where
  mem _ hl := hl
  complete _ ho := absurd ho List.not_mem_nil
  once := List.nodup_nil
  last _ hl := absurd hl List.not_mem_nil

theorem latest_foldl (objects : List ApiObject) : Latest objects (objects.foldl keepLatest []) := by
  induction objects using List.reverseRecOn with
  | nil => exact latest_nil
  | append_singleton objects o ih =>
      rw [List.foldl_append]
      exact ih.concat o

theorem latest_latestObjects (g : Group) : Latest g.objects g.latestObjects :=
  latest_foldl g.objects

theorem mem_commandObjects {g : Group} {o : ApiObject} :
    o ∈ g.commandObjects ↔ o ∈ g.latestObjects ∧ o.has .tptctlEnabled = true ∧ o.excludeRoute = false := by
  simp [commandObjects]

end Group

end ApiForge
