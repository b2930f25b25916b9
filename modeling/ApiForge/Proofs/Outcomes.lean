import Mathlib.Data.List.Forall2

/-! Computations that may fail: what was computed on the way to a result, and the results for the entries of a list. -/

namespace ApiForge

variable {ε α β : Type}

theorem of_bind {x : Except ε α} {f : α → Except ε β} {b : β} (h : x >>= f = .ok b) :
    ∃ a, x = .ok a ∧ f a = .ok b := by
  cases x with
  | error e => cases h
  | ok a => exact ⟨a, rfl, h⟩

theorem of_map {x : Except ε α} {f : α → β} {b : β} (h : x.map f = .ok b) : ∃ a, x = .ok a ∧ f a = b := by
  cases x with
  | error e => cases h
  | ok a =>
      cases h
      exact ⟨a, rfl, rfl⟩

theorem exists_ok_of_map {x : Except ε α} {f : α → β} {y : β} (h : x.toOption.map f = some y) :
    ∃ a, x = .ok a ∧ f a = y := by
  cases x with
  | error e => cases h
  | ok a => exact ⟨a, rfl, Option.some.inj h⟩

/-! ### One result for each entry -/

theorem forall₂_of_mapM {f : α → Except ε β} {xs : List α} {ys : List β} (h : xs.mapM f = .ok ys) :
    List.Forall₂ (fun x y => f x = .ok y) xs ys := by
  induction xs generalizing ys with
  | nil =>
      cases h
      exact .nil
  | cons x xs ih =>
      rw [List.mapM_cons] at h
      obtain ⟨y, hy, h⟩ := of_bind h
      obtain ⟨rest, hrest, h⟩ := of_bind h
      cases h
      exact .cons hy (ih hrest)

theorem exists_mapM {f : α → Except ε β} {R : α → β → Prop} {xs : List α}
    (h : ∀ x ∈ xs, ∃ y, f x = .ok y ∧ R x y) : ∃ ys, xs.mapM f = .ok ys ∧ List.Forall₂ R xs ys := by
  induction xs with
  | nil => exact ⟨[], rfl, .nil⟩
  | cons x xs ih =>
      rw [List.forall_mem_cons] at h
      obtain ⟨y, hy, hxy⟩ := h.1
      obtain ⟨ys, hys, hxys⟩ := ih h.2
      refine ⟨y :: ys, ?_, .cons hxy hxys⟩
      rw [List.mapM_cons, hy, hys]
      rfl

theorem exists_mapM_pair {f f' : α → Except ε β} {R : β → β → Prop} {xs : List α}
    (h : ∀ x ∈ xs, ∃ y y', f x = .ok y ∧ f' x = .ok y' ∧ R y y') :
    ∃ ys ys', xs.mapM f = .ok ys ∧ xs.mapM f' = .ok ys' ∧ List.Forall₂ R ys ys' := by
  induction xs with
  | nil => exact ⟨[], [], rfl, rfl, .nil⟩
  | cons x xs ih =>
      rw [List.forall_mem_cons] at h
      obtain ⟨⟨y, y', hy, hy', hyy⟩, hxs⟩ := h
      obtain ⟨ys, ys', hys, hys', hyys⟩ := ih hxs
      refine ⟨y :: ys, y' :: ys', ?_, ?_, .cons hyy hyys⟩
      · rw [List.mapM_cons, hy, hys]
        rfl
      · rw [List.mapM_cons, hy', hys']
        rfl

end ApiForge
