import Mathlib.Data.List.Forall2

/-! A list built element by element, where an element may be missing. -/

namespace MapM

variable {α β γ : Type} {f : α → Option β} {l : List α} {r : List β}

theorem mapM_map_some {write : α → β} {read : β → Option γ} {f : α → γ}
    (h : ∀ a, read (write a) = some (f a)) (l : List α) :
    (l.map write).mapM read = some (l.map f) := by
  induction l with
  | nil => rfl
  | cons a l ih =>
    rw [List.map_cons, List.mapM_cons, h, ih]
    rfl

theorem mapM_of_forall {g : α → β} (h : ∀ a ∈ l, f a = some (g a)) : l.mapM f = some (l.map g) := by
  induction l with
  | nil => rfl
  | cons a l ih =>
    obtain ⟨ha, hl⟩ := List.forall_mem_cons.mp h
    rw [List.mapM_cons, ha, ih hl]
    rfl

theorem isSome_mapM : (l.mapM f).isSome ↔ ∀ a ∈ l, (f a).isSome := by
  induction l with
  | nil => simp
  | cons a l ih =>
    rw [List.mapM_cons, List.forall_mem_cons, ← ih]
    cases f a with
    | none => simp
    | some b => cases l.mapM f <;> simp

theorem forall₂_of_mapM (h : l.mapM f = some r) : List.Forall₂ (fun a b => f a = some b) l r := by
  induction l generalizing r with
  | nil =>
    cases h
    exact .nil
  | cons a l ih =>
    rw [List.mapM_cons, Option.bind_eq_bind, Option.bind_eq_some_iff] at h
    obtain ⟨b, hb, h⟩ := h
    rw [Option.bind_eq_bind, Option.bind_eq_some_iff] at h
    obtain ⟨bs, hbs, h⟩ := h
    cases h
    exact .cons hb (ih hbs)

theorem forall_mem_of_mapM {P : β → Prop} (h : l.mapM f = some r)
    (hP : ∀ a b, f a = some b → P b) : ∀ b ∈ r, P b := by
  have hall := forall₂_of_mapM h
  clear h
  induction hall with
  | nil => exact fun b hb => absurd hb List.not_mem_nil
  | cons hab _ ih => exact List.forall_mem_cons.mpr ⟨hP _ _ hab, ih⟩

/-- What is read off the results is read off the elements. -/
theorem map_eq_map_of_mapM {g : β → γ} {g' : α → γ} (h : l.mapM f = some r)
    (hg : ∀ a b, f a = some b → g b = g' a) : r.map g = l.map g' := by
  have hall := forall₂_of_mapM h
  clear h
  induction hall with
  | nil => rfl
  | cons hab _ ih => rw [List.map_cons, List.map_cons, hg _ _ hab, ih]

theorem length_of_mapM (h : l.mapM f = some r) : r.length = l.length :=
  (forall₂_of_mapM h).length_eq.symm

end MapM
