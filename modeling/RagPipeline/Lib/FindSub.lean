import Mathlib.Data.List.Infix

/-! The first occurrence of a list in another, and markers: patterns whose first element comes
back only as their last. -/

section

variable {α : Type} [DecidableEq α]

/-- The position of the first occurrence of `pat`. -/
def findSub (pat : List α) : List α → Option ℕ
  | [] => if pat = [] then some 0 else none
  | x :: xs => if pat <+: x :: xs then some 0 else (findSub pat xs).map (· + 1)

theorem findSub_eq_some {pat l : List α} {i : ℕ} :
    findSub pat l = some i ↔
      i ≤ l.length ∧ pat <+: l.drop i ∧ ∀ j < i, ¬ pat <+: l.drop j := by
  induction l generalizing i with
  | nil =>
    by_cases h : pat = []
    · simp only [findSub, if_pos h, Option.some.injEq, List.length_nil, Nat.le_zero]
      constructor
      · rintro rfl
        simp [h]
      · exact fun hi => hi.1.symm
    · simp [findSub, h]
  | cons x xs ih =>
    by_cases h : pat <+: x :: xs
    · rw [findSub, if_pos h]
      constructor
      · rintro ⟨⟩
        exact ⟨Nat.zero_le _, h, fun j hj => absurd hj (Nat.not_lt_zero j)⟩
      · rintro ⟨-, -, hmin⟩
        have hi : ¬ 0 < i := fun hi => hmin 0 hi h
        rw [Nat.eq_zero_of_not_pos hi]
    · rw [findSub, if_neg h]
      cases i with
      | zero => simp [h]
      | succ i =>
        simp only [Option.map_eq_some_iff, Nat.add_right_cancel_iff, exists_eq_right, ih,
          List.length_cons, Nat.add_le_add_iff_right, List.drop_succ_cons]
        refine and_congr_right fun _ => and_congr_right fun _ => ⟨fun hmin j hj => ?_,
          fun hmin j hj => hmin (j + 1) (Nat.succ_lt_succ hj)⟩
        cases j with
        | zero => exact h
        | succ j => exact hmin j (Nat.lt_of_succ_lt_succ hj)

omit [DecidableEq α] in
theorem getElem?_of_prefix_drop {pat l : List α} {j k : ℕ} (h : pat <+: l.drop j)
    (hk : k < pat.length) : l[j + k]? = pat[k]? := by
  obtain ⟨t, ht⟩ := h
  rw [← List.getElem?_drop, ← ht, List.getElem?_append_left hk]

variable {a : α} {mid : List α}

omit [DecidableEq α] in
/-- Before its own place a marker can only occur where it ends at the marker's first element. -/
theorem marker_occurs_before (ha : a ∉ mid) {p s : List α} {j : ℕ} (hj : j < p.length)
    (h : a :: (mid ++ [a]) <+: (p ++ a :: (mid ++ [a]) ++ s).drop j) :
    j + (mid.length + 2) ≤ p.length + 1 := by
  by_contra hlt
  obtain ⟨k, hk⟩ : ∃ k, p.length = j + (k + 1) := ⟨p.length - j - 1, by omega⟩
  have hkm : k < mid.length := by omega
  have hpat : k + 1 < (a :: (mid ++ [a])).length := by
    simp only [List.length_cons, List.length_append, List.length_nil]
    omega
  have hget := getElem?_of_prefix_drop h hpat
  have hleft : (p ++ a :: (mid ++ [a]) ++ s)[j + (k + 1)]? = some a := by
    rw [← hk, List.append_assoc, List.getElem?_append_right (Nat.le_refl _)]
    simp
  rw [hleft, List.getElem?_cons_succ, List.getElem?_append_left hkm] at hget
  exact ha (List.mem_of_getElem? hget.symm)

/-- A marker is found where it was put unless it already occurs in what stands before it, its own
first element included. -/
theorem findSub_marker (ha : a ∉ mid) (p s : List α) :
    findSub (a :: (mid ++ [a])) (p ++ a :: (mid ++ [a]) ++ s) = some p.length ↔
      ¬ a :: (mid ++ [a]) <:+: p ++ [a] := by
  have hplace : a :: (mid ++ [a]) <+: (p ++ a :: (mid ++ [a]) ++ s).drop p.length := by
    rw [List.append_assoc, List.drop_left]
    exact List.prefix_append _ _
  have hshift : ∀ j, j + (mid.length + 2) ≤ p.length + 1 →
      (a :: (mid ++ [a]) <+: (p ++ a :: (mid ++ [a]) ++ s).drop j ↔
        a :: (mid ++ [a]) <+: (p ++ [a]).drop j) := by
    intro j hj
    have hsplit : p ++ a :: (mid ++ [a]) ++ s = p ++ [a] ++ (mid ++ [a] ++ s) := by simp
    have hlen : j ≤ (p ++ [a]).length := by
      rw [List.length_append, List.length_singleton]
      omega
    rw [hsplit, List.drop_append_of_le_length hlen]
    refine List.isPrefix_append_of_length ?_
    simp only [List.length_cons, List.length_append, List.length_drop, List.length_nil]
    omega
  rw [findSub_eq_some]
  constructor
  · rintro ⟨-, -, hmin⟩ ⟨u, v, huv⟩
    have hlen := congrArg List.length huv
    simp only [List.length_append, List.length_cons, List.length_nil] at hlen
    refine hmin u.length (by omega) ((hshift u.length (by omega)).mpr ?_)
    rw [← huv, List.append_assoc, List.drop_left]
    exact List.prefix_append _ _
  · intro hinf
    refine ⟨by simp, hplace, fun j hj h => hinf ?_⟩
    have hj' := marker_occurs_before ha hj h
    exact (((hshift j hj').mp h).isInfix).trans (List.drop_suffix j _).isInfix

end
