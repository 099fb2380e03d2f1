import Mathlib.Data.List.Infix
import Mathlib.Data.Nat.Notation

/-! Splitting a list at every occurrence of a separator, from left to right. -/

namespace Separator

variable {α : Type} {sep l p : List α} {parts : List (List α)}

theorem intercalate_cons {rest : List (List α)} (h : rest ≠ []) :
    sep.intercalate (p :: rest) = p ++ sep ++ sep.intercalate rest := by
  obtain ⟨q, qs, hrest⟩ := List.exists_cons_of_ne_nil h
  rw [hrest, List.intercalate_cons_cons]

theorem isInfix_intercalate (hp : p ∈ parts) : p <:+: sep.intercalate parts := by
  induction parts with
  | nil => cases hp
  | cons q rest ih =>
    by_cases hrest : rest = []
    · rw [hrest, List.mem_singleton] at hp
      rw [hp, hrest, List.intercalate_singleton]
    · rw [intercalate_cons hrest]
      rw [List.mem_cons] at hp
      apply hp.elim
      · intro hq
        rw [hq, List.append_assoc]
        exact (List.prefix_append _ _).isInfix
      · intro hmem
        exact (ih hmem).trans (List.suffix_append _ _).isInfix

theorem length_add_le_of_mem (hp : p ∈ parts) (hparts : parts.length ≠ 1) :
    p.length + sep.length ≤ (sep.intercalate parts).length := by
  cases parts with
  | nil => cases hp
  | cons q rest =>
    have hrest : rest ≠ [] := fun hnil => hparts (by rw [hnil]; rfl)
    have hlen : (sep.intercalate (q :: rest)).length =
        q.length + sep.length + (sep.intercalate rest).length := by
      rw [intercalate_cons hrest, List.length_append, List.length_append]
    rw [List.mem_cons] at hp
    apply hp.elim
    · intro hq
      rw [hq]
      omega
    · intro hmem
      have hle : p.length ≤ (sep.intercalate rest).length := (isInfix_intercalate hmem).length_le
      omega

variable [DecidableEq α]

/-- The parts from here on: after the next `skip` elements, and after the reversed beginning of
one. -/
def splitFrom (sep : List α) (skip : ℕ) (cur : List α) : List α → List (List α)
  | [] => [cur.reverse]
  | c :: cs =>
    match skip with
    | skip + 1 => splitFrom sep skip cur cs
    | 0 =>
      if sep <+: c :: cs then cur.reverse :: splitFrom sep (sep.length - 1) [] cs
      else splitFrom sep 0 (c :: cur) cs

def split (sep l : List α) : List (List α) := splitFrom sep 0 [] l

theorem splitFrom_ne_nil (skip : ℕ) (cur l : List α) : splitFrom sep skip cur l ≠ [] := by
  induction l generalizing skip cur with
  | nil => simp [splitFrom]
  | cons c cs ih =>
    cases skip with
    | succ skip => exact ih skip cur
    | zero =>
      rw [splitFrom]
      split_ifs
      · exact List.cons_ne_nil _ _
      · exact ih 0 (c :: cur)

theorem intercalate_splitFrom (hsep : sep ≠ []) (skip : ℕ) (cur l : List α) :
    sep.intercalate (splitFrom sep skip cur l) = cur.reverse ++ l.drop skip := by
  induction l generalizing skip cur with
  | nil => simp [splitFrom]
  | cons c cs ih =>
    cases skip with
    | succ skip => exact ih skip cur
    | zero =>
      rw [splitFrom]
      split_ifs with hpre
      · -- the separator is skipped, and put back between the parts
        have hlen : sep.length ≠ 0 := fun h => hsep (List.length_eq_zero_iff.mp h)
        have hdrop : (c :: cs).drop sep.length = cs.drop (sep.length - 1) := by
          obtain ⟨n, hn⟩ := Nat.exists_eq_succ_of_ne_zero hlen
          rw [hn]
          rfl
        have hwhole : sep ++ cs.drop (sep.length - 1) = c :: cs := by
          rw [← hdrop]
          exact List.prefix_iff_eq_append.mp hpre
        rw [intercalate_cons (splitFrom_ne_nil _ _ _), ih, List.reverse_nil, List.nil_append,
          List.append_assoc, hwhole, List.drop_zero]
      · rw [ih, List.reverse_cons, List.append_assoc]
        rfl

/-- The parts, with the separator between them, are the list. -/
theorem intercalate_split (hsep : sep ≠ []) (l : List α) : sep.intercalate (split sep l) = l :=
  intercalate_splitFrom hsep 0 [] l

theorem sep_subset_of_length_ne_one (hsep : sep ≠ []) (h : (split sep l).length ≠ 1) :
    sep ⊆ l := by
  have hl := intercalate_split hsep l
  cases hparts : split sep l with
  | nil => exact absurd hparts (splitFrom_ne_nil 0 [] l)
  | cons q rest =>
    rw [hparts] at h hl
    have hrest : rest ≠ [] := fun hnil => h (by rw [hnil]; rfl)
    rw [intercalate_cons hrest] at hl
    rw [← hl]
    intro c hc
    exact List.mem_append_left _ (List.mem_append_right _ hc)

theorem subset_of_mem_split (hsep : sep ≠ []) (hp : p ∈ split sep l) : p ⊆ l := by
  have hpart : p <:+: sep.intercalate (split sep l) := isInfix_intercalate hp
  rw [intercalate_split hsep] at hpart
  exact hpart.subset

/-- Where the list is split at all, every part is shorter. -/
theorem length_lt_of_mem_split (hsep : sep ≠ []) (h : (split sep l).length ≠ 1)
    (hp : p ∈ split sep l) : p.length < l.length := by
  have hle : p.length + sep.length ≤ (sep.intercalate (split sep l)).length :=
    length_add_le_of_mem hp h
  have hpos : 0 < sep.length := List.length_pos_iff.mpr hsep
  rw [intercalate_split hsep] at hle
  omega

end Separator
