import Mathlib.Data.List.Perm.Basic

/-! Rows that come in no particular order, and what is read off them. -/

structure Listing (α : Type) where
  list : List α → List α
  perm : ∀ rows, (list rows).Perm rows

namespace Listing

variable {α β : Type} {f : List α → β} {rows : List α}

def first [DecidableEq α] (a : α) : Listing α where
  list rows := if a ∈ rows then a :: rows.erase a else rows
  perm rows := by
    split
    next h => exact (List.perm_cons_erase h).symm
    next => exact .refl _

theorem list_first [DecidableEq α] {a : α} (h : a ∈ rows) :
    (first a).list rows = a :: rows.erase a := if_pos h

/-- What is read does not depend on how the rows are listed. -/
def OrderFree (f : List α → β) (rows : List α) : Prop :=
  ∀ o o' : Listing α, f (o.list rows) = f (o'.list rows)

theorem orderFree_of_perm
    (h : ∀ l l' : List α, l.Perm rows → l'.Perm rows → f l = f l') : OrderFree f rows := by
  intro o o'
  exact h _ _ (o.perm rows) (o'.perm rows)

theorem orderFree_head?_iff [DecidableEq α] :
    OrderFree List.head? rows ↔ ∀ a ∈ rows, ∀ b ∈ rows, a = b := by
  constructor
  · intro h a ha b hb
    have hab : ((first a).list rows).head? = ((first b).list rows).head? := h (first a) (first b)
    rw [list_first ha, list_first hb] at hab
    exact Option.some.inj hab
  · intro h
    apply orderFree_of_perm
    intro l l' hl hl'
    have hread : ∀ a ∈ l, ∀ b ∈ l', a = b := by
      intro a ha b hb
      exact h a (hl.mem_iff.mp ha) b (hl'.mem_iff.mp hb)
    have hlength : l.length = l'.length := (hl.trans hl'.symm).length_eq
    cases l with
    | nil => rw [List.eq_nil_of_length_eq_zero hlength.symm]
    | cons a l =>
      cases l' with
      | nil => exact absurd hlength (Nat.succ_ne_zero _)
      | cons b l' => exact congrArg some (hread a List.mem_cons_self b List.mem_cons_self)

end Listing
