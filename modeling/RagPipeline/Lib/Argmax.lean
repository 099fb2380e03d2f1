import Mathlib.Order.WithBot
import Mathlib.Order.Basic
import Mathlib.Data.List.Basic
import Mathlib.Data.Nat.Notation

/-! The first position of a largest element, and what it is to be chosen so again and again. -/

namespace Argmax

variable {α : Type} [LinearOrder α]

/-- Where the largest element stands first. -/
def argmax (l : List α) : ℕ := l.findIdx fun a => l.all (· ≤ a)

/-- Where the smallest element stands first. -/
def argmin (l : List α) : ℕ := l.findIdx fun a => l.all (a ≤ ·)

/-- `i` is the lowest of the indices in `P` where `f` is largest. -/
structure IsFirstMax (f : ℕ → α) (P : ℕ → Prop) (i : ℕ) : Prop where
  mem : P i
  le : ∀ j, P j → f j ≤ f i
  first : ∀ j, P j → f j = f i → i ≤ j

theorem IsFirstMax.unique {f : ℕ → α} {P : ℕ → Prop} {i j : ℕ} (hi : IsFirstMax f P i)
    (hj : IsFirstMax f P j) : i = j := by
  have h : f i = f j := le_antisymm (hj.le i hi.mem) (hi.le j hj.mem)
  have hij : i ≤ j := hi.first j hj.mem h.symm
  have hji : j ≤ i := hj.first i hi.mem h
  omega

theorem exists_largest {l : List α} (h : l ≠ []) : ∃ a ∈ l, ∀ b ∈ l, b ≤ a := by
  induction l with
  | nil => exact absurd rfl h
  | cons a l ih =>
    by_cases hl : l = []
    · subst hl
      exact ⟨a, List.mem_cons_self, fun b hb => (List.mem_singleton.mp hb).le⟩
    · obtain ⟨c, hc, hmax⟩ := ih hl
      by_cases hac : a ≤ c
      · exact ⟨c, List.mem_cons_of_mem a hc, List.forall_mem_cons.mpr ⟨hac, hmax⟩⟩
      · have hca : c ≤ a := le_of_not_ge hac
        exact ⟨a, List.mem_cons_self,
          List.forall_mem_cons.mpr ⟨le_rfl, fun b hb => (hmax b hb).trans hca⟩⟩

theorem argmax_lt {l : List α} (h : l ≠ []) : argmax l < l.length := by
  obtain ⟨a, ha, hmax⟩ := exists_largest h
  apply List.findIdx_lt_length_of_exists
  exact ⟨a, ha, List.all_eq_true.mpr fun b hb => decide_eq_true (hmax b hb)⟩

theorem isFirstMax_argmax {l : List α} {f : ℕ → α} {n : ℕ} (hn : l.length = n) (h : 0 < n)
    (hf : ∀ i (hi : i < l.length), l[i] = f i) : IsFirstMax f (· < n) (argmax l) := by
  have hlt : argmax l < l.length := argmax_lt (List.ne_nil_of_length_pos (by omega))
  have hall : l.all (· ≤ l[argmax l]) = true := List.findIdx_getElem (w := hlt)
  rw [List.all_eq_true] at hall
  constructor
  · omega
  · intro j hj
    have hjl : j < l.length := by omega
    have hle := hall l[j] (List.getElem_mem hjl)
    rwa [decide_eq_true_eq, hf, hf] at hle
  · intro j hj hji
    by_contra hlt'
    -- whatever stands before the position found is not largest
    have hno : l.all (· ≤ l[j]) = false :=
      List.not_of_lt_findIdx (p := fun a => l.all (· ≤ a)) (not_le.mp hlt')
    rw [← Bool.not_eq_true, List.all_eq_true] at hno
    apply hno
    intro b hb
    rw [hf, hji, ← hf (argmax l) hlt]
    exact hall b hb

/-- Where what is excluded counts as minus infinity, the choice is among the rest. -/
theorem IsFirstMax.of_mask {f : ℕ → α} {P S : ℕ → Prop} [DecidablePred S] {i : ℕ}
    (h : IsFirstMax (fun j => if S j then (⊥ : WithBot α) else f j) P i)
    (hex : ∃ j, P j ∧ ¬S j) : IsFirstMax f (fun j => P j ∧ ¬S j) i := by
  obtain ⟨j, hj, hSj⟩ := hex
  have hSi : ¬S i := by
    intro hSi
    have := h.le j hj
    rw [if_neg hSj, if_pos hSi, le_bot_iff] at this
    exact absurd this WithBot.coe_ne_bot
  constructor
  · exact ⟨h.mem, hSi⟩
  · intro k hk
    have := h.le k hk.1
    rwa [if_neg hk.2, if_neg hSi, WithBot.coe_le_coe] at this
  · intro k hk hki
    apply h.first k hk.1
    rw [if_neg hk.2, if_neg hSi, hki]

end Argmax
