import RagPipeline.Utils.ChunkStrategies

namespace RagPipeline

/-- The marker that the overlap begins behind, if there is one near its start. -/
def overlapSnap (overlap : ℚ) (prev : Text) : Option ℤ :=
  let targetStart : ℤ := charForWordFraction prev (1 - overlap)
  let slack := max 30 (pyInt (prev.length * (1 / 10)))
  let lo := max 0 (targetStart - slack)
  let hi := min (prev.length : ℤ) (targetStart + slack)
  nearestBreak prev targetStart lo hi markers

/-- The marker is inside of the previous chunk and cuts none of its words. -/
def SnapsAtWord (prev : Text) (snap : ℤ) : Prop :=
  snap < prev.length ∧ (Words.endsInWord isSpace false (prev.take snap.toNat) = false ∨
    ∀ c ∈ prev[snap.toNat]?, isSpace c = true)

/-- There is a previous chunk, and the overlap does not begin at its end or inside of a word. -/
def KeepsOverlap (overlap : ℚ) (prev : Text) : Prop :=
  prev ≠ [] ∧ ∀ snap ∈ overlapSnap overlap prev, SnapsAtWord prev snap

variable {overlap : ℚ} {prev : Text}

theorem overlapPrefix_of_snap (hover : 0 < overlap) (hprev : prev ≠ []) {snap : ℤ}
    (h : overlapSnap overlap prev = some snap) :
    overlapPrefix overlap prev = Words.strip isSpace (PyList.sliceFrom prev snap) ++ [' '] := by
  unfold overlapSnap at h
  unfold overlapPrefix
  rw [if_pos ⟨hover, hprev⟩]
  simp only at h ⊢
  rw [h]

theorem overlapPrefix_of_no_snap (hover : 0 < overlap) (hprev : prev ≠ [])
    (h : overlapSnap overlap prev = none) :
    overlapPrefix overlap prev = [' '].intercalate (PyList.sliceFrom (Words.split isSpace prev)
      (-max 1 (pyInt ((Words.split isSpace prev).length * overlap)))) ++ [' '] := by
  unfold overlapSnap at h
  unfold overlapPrefix
  rw [if_pos ⟨hover, hprev⟩]
  simp only at h ⊢
  rw [h]

theorem split_append_space (l : Text) : Words.split isSpace (l ++ [' ']) = Words.split isSpace l :=
  Words.splitFrom_append_seps [] l (by simp [isSpace])

theorem split_ne_nil {l : Text} (hne : l ≠ []) (hlast : ∀ c ∈ l.getLast?, isSpace c = false) :
    Words.split isSpace l ≠ [] := by
  intro hnil
  have hlast' := hlast _ (List.getLast?_eq_getLast_of_ne_nil hne)
  have hspace := Words.split_eq_nil_iff.mp hnil _ (List.getLast_mem hne)
  rw [hlast'] at hspace
  cases hspace

theorem wordCount_overlapPrefix_le (overlap : ℚ) (prev : Text) :
    wordCount (overlapPrefix overlap prev) ≤ wordCount prev := by
  by_cases htaken : 0 < overlap ∧ prev ≠ []
  · obtain ⟨hover, hprev⟩ := htaken
    cases hsnap : overlapSnap overlap prev with
    | some snap =>
      rw [overlapPrefix_of_snap hover hprev hsnap]
      unfold wordCount Words.count
      rw [split_append_space, Words.split_strip]
      exact Words.count_drop_le _ prev
    | none =>
      rw [overlapPrefix_of_no_snap hover hprev hsnap]
      unfold wordCount Words.count
      rw [split_append_space]
      by_cases hwords : Words.split isSpace prev = []
      · rw [hwords, PyList.sliceFrom, List.drop_nil]
        exact Nat.le_refl 0
      · obtain ⟨k, -, hslice⟩ := PyList.exists_sliceFrom_neg hwords (le_max_left 1
          (pyInt ((Words.split isSpace prev).length * overlap)))
        have hdrop : ∀ w ∈ (Words.split isSpace prev).drop k,
            w ≠ [] ∧ ∀ c ∈ w, isSpace c = false :=
          fun w hw => Words.word_of_mem_split (List.mem_of_mem_drop hw)
        rw [hslice, Words.split_intercalate (by decide) hdrop, List.length_drop]
        exact Nat.sub_le _ _
  · rw [overlapPrefix, if_neg htaken]
    exact Nat.zero_le _

theorem overlapSnap_nonneg {snap : ℤ} (h : overlapSnap overlap prev = some snap) : 0 ≤ snap :=
  (le_max_left _ _).trans (mem_window_of_nearestBreak h).1

/-- The overlap is a part of the previous chunk's words, and not an empty one, exactly if the
marker it begins behind is inside of that chunk and cuts no word. -/
theorem keepsOverlap_iff (hover : 0 < overlap) (hlast : ∀ c ∈ prev.getLast?, isSpace c = false) :
    KeepsOverlap overlap prev ↔ Words.split isSpace (overlapPrefix overlap prev) ≠ [] ∧
      Words.split isSpace (overlapPrefix overlap prev) <:+ Words.split isSpace prev := by
  by_cases hprev : prev = []
  · subst hprev
    refine iff_of_false (fun h => h.1 rfl) fun h => h.1 ?_
    rw [overlapPrefix, if_neg fun h => h.2 rfl]
    rfl
  have hwords := split_ne_nil hprev hlast
  unfold KeepsOverlap
  rw [and_iff_right hprev]
  cases hsnap : overlapSnap overlap prev with
  | none =>
    refine iff_of_true (by simp) ?_
    obtain ⟨k, hk, hslice⟩ := PyList.exists_sliceFrom_neg hwords (le_max_left 1
      (pyInt ((Words.split isSpace prev).length * overlap)))
    have hdrop : ∀ w ∈ (Words.split isSpace prev).drop k, w ≠ [] ∧ ∀ c ∈ w, isSpace c = false :=
      fun w hw => Words.word_of_mem_split (List.mem_of_mem_drop hw)
    rw [overlapPrefix_of_no_snap hover hprev hsnap, split_append_space, hslice,
      Words.split_intercalate (by decide) hdrop]
    refine ⟨?_, List.drop_suffix _ _⟩
    apply List.ne_nil_of_length_pos
    rw [List.length_drop]
    omega
  | some snap =>
    obtain ⟨n, rfl⟩ := Int.eq_ofNat_of_zero_le (overlapSnap_nonneg hsnap)
    have hdrop : PyList.sliceFrom prev n = prev.drop n := PyList.sliceFrom_natCast prev n
    rw [overlapPrefix_of_snap hover hprev hsnap, split_append_space, Words.split_strip, hdrop]
    by_cases hn : n < prev.length
    · have hsuffix := Words.split_drop_suffix_iff isSpace hn
      have hne : Words.split isSpace (prev.drop n) ≠ [] := by
        apply split_ne_nil
        · apply List.ne_nil_of_length_pos
          rw [List.length_drop]
          omega
        · rw [List.getLast?_drop, if_neg (not_le.mpr hn)]
          exact hlast
      rw [hsuffix]
      simp [SnapsAtWord, hn, hne]
    · have hend : prev.drop n = [] := List.drop_eq_nil_of_le (not_lt.mp hn)
      rw [hend]
      refine iff_of_false ?_ fun h => h.1 rfl
      simp [SnapsAtWord, hn]

end RagPipeline
