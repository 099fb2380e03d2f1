import Mathlib.Data.List.Sort

/-! Insertion sort keeps the order of what it does not tell apart. -/

namespace StableSort

variable {α : Type} {r R : α → α → Prop}

/-- Sorted by `r`, and in the order `R` where `r` goes both ways. -/
def Keeps (r R : α → α → Prop) (a b : α) : Prop := r a b ∧ (r b a → R a b)

variable [DecidableRel r] [Std.Total r] [IsTrans α r]

/-- An element goes in front of those that it came before and that are not smaller. -/
theorem pairwise_orderedInsert {a : α} {l : List α} (ha : ∀ b ∈ l, R a b)
    (hl : l.Pairwise (Keeps r R)) : (l.orderedInsert r a).Pairwise (Keeps r R) := by
  induction l with
  | nil => simp
  | cons b l ih =>
    rw [List.pairwise_cons] at hl
    rw [List.orderedInsert_cons]
    split_ifs with hab
    · rw [List.pairwise_cons]
      refine ⟨fun c hc => ⟨?_, fun _ => ha c hc⟩, List.pairwise_cons.mpr hl⟩
      obtain rfl | hcl := List.mem_cons.mp hc
      · exact hab
      · exact IsTrans.trans a b c hab (hl.1 c hcl).1
    · have hba : r b a := (Std.Total.total a b).resolve_left hab
      rw [List.pairwise_cons]
      refine ⟨fun c hc => ?_, ih (fun c hc => ha c (List.mem_cons_of_mem b hc)) hl.2⟩
      obtain rfl | hcl := List.mem_cons.mp ((List.perm_orderedInsert r a l).mem_iff.mp hc)
      · exact ⟨hba, fun h => absurd h hab⟩
      · exact hl.1 c hcl

theorem pairwise_insertionSort {l : List α} (h : l.Pairwise R) :
    (l.insertionSort r).Pairwise (Keeps r R) := by
  -- each element is inserted in front of those that came after it
  induction l with
  | nil => simp
  | cons a l ih =>
    rw [List.pairwise_cons] at h
    rw [List.insertionSort_cons]
    apply pairwise_orderedInsert _ (ih h.2)
    intro b hb
    exact h.1 b ((List.perm_insertionSort r l).mem_iff.mp hb)

/-- A list without repetitions is in the order of the positions in it. -/
theorem pairwise_idxOf [DecidableEq α] {l : List α} (h : l.Nodup) :
    l.Pairwise fun a b => l.idxOf a < l.idxOf b := by
  rw [List.pairwise_iff_getElem]
  intro i j hi hj hij
  rwa [h.idxOf_getElem i hi, h.idxOf_getElem j hj]

end StableSort
