import Mathlib.Data.List.Perm.Basic
import Mathlib.Data.List.Range

/-! A reader of a log that moves past an entry before it handles it, and hands on what the entry
asks for one piece at a time. It need not come to the entries in the order of the log. -/

/-- Where in the log it has been, and what is left to hand on of the last entry that it took. -/
structure LogReader (β : Type) where
  passed : List ℕ
  outbox : List β

namespace LogReader

variable {α β : Type}

def start : LogReader β := ⟨[], []⟩

def ahead (r : LogReader β) (log : List α) : List α :=
  ((List.range log.length).filter (· ∉ r.passed)).filterMap (log[·]?)

/-- The entry at `k` asks for `work`. -/
def take (r : LogReader β) (k : ℕ) (work : List β) : LogReader β := ⟨k :: r.passed, work⟩

/-- The entry at `k` is passed over. -/
def skip (r : LogReader β) (k : ℕ) : LogReader β := { r with passed := k :: r.passed }

/-- Nothing but `outbox` is left of its last entry. -/
def rest (r : LogReader β) (outbox : List β) : LogReader β := { r with outbox }

def Within (r : LogReader β) (log : List α) : Prop := ∀ k ∈ r.passed, k < log.length

variable {r : LogReader β} {log more : List α} {a b : α} {k : ℕ}

theorem mem_ahead : a ∈ r.ahead log ↔ ∃ k, k ∉ r.passed ∧ log[k]? = some a := by
  unfold ahead
  simp only [List.mem_filterMap, List.mem_filter, List.mem_range, decide_eq_true_eq, and_assoc]
  constructor
  · rintro ⟨k, -, hk, ha⟩
    exact ⟨k, hk, ha⟩
  · rintro ⟨k, hk, ha⟩
    obtain ⟨hlt, -⟩ := List.getElem?_eq_some_iff.mp ha
    exact ⟨k, hlt, hk, ha⟩

theorem mem_ahead_append (hr : r.Within log) :
    a ∈ r.ahead (log ++ more) ↔ a ∈ r.ahead log ∨ a ∈ more := by
  rw [mem_ahead, mem_ahead]
  constructor
  · rintro ⟨k, hk, ha⟩
    by_cases hlt : k < log.length
    · rw [List.getElem?_append_left hlt] at ha
      exact .inl ⟨k, hk, ha⟩
    · rw [List.getElem?_append_right (Nat.le_of_not_lt hlt)] at ha
      exact .inr (List.mem_of_getElem? ha)
  · rintro (⟨k, hk, ha⟩ | ha)
    · obtain ⟨hlt, -⟩ := List.getElem?_eq_some_iff.mp ha
      exact ⟨k, hk, (List.getElem?_append_left hlt).trans ha⟩
    · obtain ⟨i, hi, rfl⟩ := List.mem_iff_getElem.mp ha
      refine ⟨log.length + i, fun hin => ?_, ?_⟩
      · have hlt := hr _ hin
        omega
      · rw [List.getElem?_append_right (Nat.le_add_right _ _), Nat.add_sub_cancel_left]
        exact List.getElem?_eq_getElem hi

/-- One entry fewer is ahead of a reader that moves past one. -/
theorem ahead_skip (hk : k ∉ r.passed) (hb : log[k]? = some b) :
    (r.ahead log).Perm (b :: (r.skip k).ahead log) := by
  obtain ⟨hlt, -⟩ := List.getElem?_eq_some_iff.mp hb
  have hnodup : ((List.range log.length).filter (· ∉ r.passed)).Nodup :=
    List.nodup_range.filter _
  have hmem : k ∈ (List.range log.length).filter (· ∉ r.passed) :=
    List.mem_filter.mpr ⟨List.mem_range.mpr hlt, decide_eq_true hk⟩
  have herase : ((List.range log.length).filter (· ∉ r.passed)).erase k =
      (List.range log.length).filter (· ∉ (r.skip k).passed) := by
    rw [hnodup.erase_eq_filter, List.filter_filter]
    refine List.filter_congr fun i _ => ?_
    simp [skip, bne, beq_eq_decide]
  have hperm := (List.perm_cons_erase hmem).filterMap (log[·]?)
  rw [herase, List.filterMap_cons_some hb] at hperm
  exact hperm

theorem ahead_take (hk : k ∉ r.passed) (hb : log[k]? = some b) (work : List β) :
    (r.ahead log).Perm (b :: (r.take k work).ahead log) := ahead_skip hk hb

theorem Within.append (hr : r.Within log) : r.Within (log ++ more) := by
  intro k hk
  rw [List.length_append]
  exact Nat.lt_add_right _ (hr k hk)

theorem Within.skip (hr : r.Within log) (hb : log[k]? = some b) : (r.skip k).Within log := by
  obtain ⟨hlt, -⟩ := List.getElem?_eq_some_iff.mp hb
  exact List.forall_mem_cons.mpr ⟨hlt, hr⟩

theorem Within.take (hr : r.Within log) (hb : log[k]? = some b) (work : List β) :
    (r.take k work).Within log := hr.skip hb

end LogReader
