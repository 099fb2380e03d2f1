import Mathlib.Algebra.Order.Field.Rat
import Mathlib.Logic.Relation
import Mathlib.Tactic.Linarith
import Mathlib.Tactic.NormNum
import Mathlib.Tactic.Positivity
import RagPipeline.Utils.ChunkStrategies
import RagPipeline.Utils.OverlapPrefix

namespace RagPipeline
namespace ChunkAtBoundaryStrategy

/-- What the hard split looks for. -/
def Blank (c : Char) : Prop := c = ' ' ∨ c = '\n'

variable (S : ChunkAtBoundaryStrategy) (text : Text) (s : ChunkState)

/-- How far the first remaining word is that would be one too many for the chunk. -/
def nextWord : ℕ :=
  Words.start isSpace (S.hardLimit - wordCount (S.overlapText s)) (remaining text s)

/-- No blank that the hard split could find comes after that word begins, and if there is none
before it either, the split does not reach it. -/
structure SplitsInTime : Prop where
  blanks : ∀ i c, (remaining text s)[i]? = some c → S.nextWord text s ≤ i →
    (i : ℤ) < S.hardChars text s → ¬ Blank c
  reach : min (S.hardChars text s) (remaining text s).length ≤ S.nextWord text s ∨
    ∃ i < S.nextWord text s, ∃ c, (remaining text s)[i]? = some c ∧ Blank c

/-- A turn that does not take the whole rest cuts before that word begins: at the marker, if there
is one near the target, and else where the hard split goes. -/
def CutsInTime : Prop :=
  s.cursor < text.length → ¬ S.FitsRest text s →
    wordCount (S.overlapText s) ≤ S.hardLimit ∧
      match S.markerBreak text s with
      | some pos => pos ≤ s.cursor + S.nextWord text s
      | none => S.SplitsInTime text s

/-- One turn of the loop leads to another. -/
def Next (s s' : ChunkState) : Prop := S.turn text s = .next s'

def AtHead (s : ChunkState) : Prop := Relation.ReflTransGen (S.Next text) (S.start text) s

variable {S text s}

theorem pyInt_nonneg {q : ℚ} (h : 0 ≤ q) : 0 ≤ pyInt q :=
  Int.tdiv_nonneg (Rat.num_nonneg.mpr h) (Int.natCast_nonneg _)

theorem avgChars_nonneg : 0 ≤ avgChars text s := by
  unfold avgChars
  positivity

theorem wordCount_strip (l : Text) : wordCount (Words.strip isSpace l) = wordCount l :=
  Words.count_strip l

theorem overlapPrefix_eq (overlap : ℚ) (prev : Text) :
    overlapPrefix overlap prev = [] ∨ ∃ l, overlapPrefix overlap prev = l ++ [' '] := by
  unfold overlapPrefix
  split_ifs
  · right
    simp only
    cases nearestBreak prev _ _ _ markers with
    | some snap => exact ⟨_, rfl⟩
    | none => exact ⟨_, rfl⟩
  · exact .inl rfl

theorem wordCount_overlap_append (l : Text) :
    wordCount (S.overlapText s ++ l) = wordCount (S.overlapText s) + wordCount l := by
  unfold overlapText
  obtain h | ⟨m, h⟩ := overlapPrefix_eq S.overlap s.prevChunkText
  · rw [h]
    exact (Nat.zero_add _).symm
  · rw [h]
    exact Words.count_append_of_sep (by decide)

theorem forall_mem_keepChunk {chunk : Text} {n : ℕ} :
    (∀ c ∈ keepChunk chunk, wordCount c ≤ n) ↔ wordCount chunk ≤ n := by
  unfold keepChunk
  split_ifs with h
  · subst h
    exact iff_of_true (by simp) (Nat.zero_le n)
  · exact List.forall_mem_singleton

theorem bound_eq {n : ℕ} {i : ℤ} (hi : 0 ≤ i) : PyList.bound n i = min i.toNat n := by
  rw [PyList.bound, if_neg (not_lt.mpr hi)]

section Cursor

variable (h0 : 0 ≤ s.cursor) (hlen : s.cursor < text.length)

include h0

theorem remaining_eq : remaining text s = text.drop s.cursor.toNat := by
  rw [remaining, PyList.sliceFrom, bound_eq h0, List.drop_eq_drop_iff]
  omega

include hlen in
theorem slice_eq (m : ℕ) :
    PyList.slice text s.cursor (s.cursor + m) = (remaining text s).take m := by
  have hstart : min s.cursor.toNat text.length = s.cursor.toNat := by omega
  have hstop : (s.cursor + m).toNat = s.cursor.toNat + m := by omega
  rw [PyList.slice, bound_eq h0, bound_eq (by omega), hstart, hstop, remaining_eq h0,
    List.drop_take, List.take_eq_take_iff, List.length_drop]
  omega

theorem item?_eq {i : ℕ} (hi : i < (remaining text s).length) :
    PyList.item? text (s.cursor + i) = (remaining text s)[i]? := by
  rw [remaining_eq h0, List.length_drop] at hi
  have hpos : PyList.position? text.length (s.cursor + i) = some (s.cursor.toNat + i) := by
    rw [PyList.position?, if_pos (by omega), if_pos (by omega), Option.some_inj]
    omega
  rw [PyList.item?, hpos, remaining_eq h0, List.getElem?_drop]
  rfl

end Cursor

section Cut

variable (h0 : 0 ≤ s.cursor) (hlen : s.cursor < text.length)

include h0

/-- The scan stops behind the last blank, or where it began. -/
theorem backToBlank_eq {n : ℕ} (hn : n ≤ (remaining text s).length) :
    ∃ m ≤ n, backToBlank text s.cursor n = some m ∧
      (∀ i c, (remaining text s)[i]? = some c → m ≤ i → i < n → ¬ Blank c) ∧
      (m ≠ 0 → ∃ c, (remaining text s)[m - 1]? = some c ∧ Blank c) := by
  induction n with
  | zero => exact ⟨0, le_rfl, rfl, fun i c _ _ hi => absurd hi (Nat.not_lt_zero i), absurd rfl⟩
  | succ n ih =>
    have hget := item?_eq h0 hn
    rw [List.getElem?_eq_getElem hn] at hget
    rw [backToBlank, hget]
    simp only
    split_ifs with hblank
    · exact ⟨n + 1, le_rfl, rfl, fun i c _ hle hlt => absurd hlt (Nat.not_lt.mpr hle),
        fun _ => ⟨_, List.getElem?_eq_getElem hn, hblank⟩⟩
    · obtain ⟨m, hm, hback, hclear, hfound⟩ := ih (Nat.le_of_succ_le hn)
      refine ⟨m, Nat.le_succ_of_le hm, hback, fun i c hc hle hlt => ?_, hfound⟩
      obtain hlt | rfl := Nat.lt_succ_iff_lt_or_eq.mp hlt
      · exact hclear i c hc hle hlt
      · rw [List.getElem?_eq_getElem hn, Option.some_inj] at hc
        rw [← hc]
        exact hblank

omit h0 in
theorem hardSplit_of_backToBlank {H m : ℕ} (hH : S.hardChars text s = H)
    (hback : backToBlank text s.cursor (min H (remaining text s).length) = some m) :
    S.hardSplit text s = some (s.cursor + (if m = 0 then H else m : ℕ)) := by
  unfold hardSplit
  rw [hH]
  by_cases hzero : min H (remaining text s).length = 0
  · rw [hzero, backToBlank, Option.some_inj] at hback
    subst hback
    have hstop : min (H : ℤ) (remaining text s).length = 0 := by omega
    simp [hstop]
  · have hstop : s.cursor < s.cursor + min (H : ℤ) (remaining text s).length := by omega
    have hcount : (s.cursor + min (H : ℤ) (remaining text s).length - s.cursor).toNat =
        min H (remaining text s).length := by omega
    simp only [if_pos hstop, hcount, hback]
    by_cases hm : m = 0 <;> simp [hm]

/-- The hard split goes to the last blank that its characters hold, or else behind all of them. -/
theorem hardSplit_eq (hhard : 0 ≤ S.hardChars text s) :
    ∃ m : ℕ, S.hardSplit text s = some (s.cursor + m) ∧
      (min m (remaining text s).length ≤ S.nextWord text s ↔ S.SplitsInTime text s) := by
  obtain ⟨H, hH⟩ := Int.eq_ofNat_of_zero_le hhard
  have hwindow : ∀ {i : ℕ} {c}, (remaining text s)[i]? = some c → (i : ℤ) < S.hardChars text s →
      i < min H (remaining text s).length := by
    intro i c hc hi
    have hlt := (List.getElem?_eq_some_iff.mp hc).1
    omega
  obtain ⟨m, hm, hback, hclear, hfound⟩ :=
    backToBlank_eq h0 (n := min H (remaining text s).length) (Nat.min_le_right _ _)
  refine ⟨_, hardSplit_of_backToBlank hH hback, ?_⟩
  by_cases hzero : m = 0
  · -- no blank at all: the split takes every character
    subst hzero
    rw [if_pos rfl]
    constructor
    · intro hle
      refine ⟨fun i c hc _ hi => hclear i c hc (Nat.zero_le i) (hwindow hc hi), .inl ?_⟩
      omega
    · rintro ⟨-, hle | ⟨i, hi, c, hc, hblank⟩⟩
      · omega
      · have hbeyond : ¬ i < min H (remaining text s).length :=
          fun hlt => hclear i c hc (Nat.zero_le i) hlt hblank
        omega
  · rw [if_neg hzero]
    obtain ⟨c, hc, hblank⟩ := hfound hzero
    constructor
    · intro hle
      refine ⟨fun i c hc hnext hi => hclear i c hc (by omega) (hwindow hc hi), .inr ?_⟩
      exact ⟨m - 1, by omega, c, hc, hblank⟩
    · rintro ⟨hblanks, -⟩
      by_contra hlate
      exact hblanks (m - 1) c hc (by omega) (by omega) hblank

variable (text) in
theorem breakPos_eq (htol : S.chunkSizeTolerance ≤ 1)
    (how : wordCount (S.overlapText s) ≤ S.hardLimit) :
    ∃ m : ℕ, S.breakPos text s = some (s.cursor + m) ∧
      (wordCount ((remaining text s).take m) ≤ S.hardLimit - wordCount (S.overlapText s) ↔
        match S.markerBreak text s with
        | some pos => pos ≤ s.cursor + S.nextWord text s
        | none => S.SplitsInTime text s) := by
  unfold breakPos wordCount
  simp only [Words.count_take_le_iff]
  cases hmarker : S.markerBreak text s with
  | some pos =>
    obtain ⟨hlo, hhi⟩ := mem_window_of_nearestBreak hmarker
    have hfactor :
        (0 : ℚ) ≤ S.effectiveTarget s * (1 - S.chunkSizeTolerance) * avgChars text s := by
      have htarget : 0 ≤ S.effectiveTarget s := le_max_of_le_left (by omega)
      have hcast : (0 : ℚ) ≤ S.effectiveTarget s := Int.cast_nonneg htarget
      exact mul_nonneg (mul_nonneg hcast (sub_nonneg.mpr htol)) avgChars_nonneg
    have hnonneg := pyInt_nonneg hfactor
    refine ⟨(pos - s.cursor).toNat, ?_, ?_⟩
    · rw [Option.some_or, Option.some_inj]
      omega
    · show _ ≤ S.nextWord text s ↔ _
      simp only
      omega
  | none =>
    have hhard : 0 ≤ S.hardChars text s := by
      have hleft : 0 ≤ S.wordsLeft s := by
        unfold wordsLeft
        omega
      exact pyInt_nonneg (mul_nonneg (Int.cast_nonneg hleft) avgChars_nonneg)
    exact hardSplit_eq h0 hhard

end Cut

theorem next_iff {s' : ChunkState} : S.Next text s s' ↔
    s.cursor < text.length ∧ ¬ S.FitsRest text s ∧ ∃ pos, S.breakPos text s = some pos ∧
      s' = { cursor := pos
             prevChunkText := Words.strip isSpace (PyList.slice text s.cursor pos)
             chunks := s.chunks ++ keepChunk (Words.strip isSpace
               (S.overlapText s ++ Words.strip isSpace (PyList.slice text s.cursor pos))) } := by
  unfold Next turn
  split_ifs with hlen hfits
  · simp [hfits]
  · cases S.breakPos text s with
    | none => simp
    | some pos => simp [hlen, hfits, eq_comm]
  · simp [hlen]

/-- The chunk of a turn keeps the limit exactly if the turn cuts in time, and then the next one
starts inside of the text. -/
theorem Next.limit_iff {s' : ChunkState} (h : S.Next text s s') (htol : S.chunkSizeTolerance ≤ 1)
    (h0 : 0 ≤ s.cursor) : ∃ new, s'.chunks = s.chunks ++ new ∧
      ((∀ c ∈ new, wordCount c ≤ S.hardLimit) ↔ S.CutsInTime text s) ∧
      (S.CutsInTime text s → 0 ≤ s'.cursor) := by
  obtain ⟨hlen, hfits, pos, hpos, rfl⟩ := next_iff.mp h
  refine ⟨_, rfl, ?_⟩
  rw [forall_mem_keepChunk, wordCount_strip, wordCount_overlap_append, wordCount_strip]
  have hcuts : S.CutsInTime text s ↔ wordCount (S.overlapText s) ≤ S.hardLimit ∧
      match S.markerBreak text s with
      | some pos => pos ≤ s.cursor + S.nextWord text s
      | none => S.SplitsInTime text s := by
    unfold CutsInTime
    rw [forall_prop_of_true hlen, forall_prop_of_true hfits]
  by_cases how : wordCount (S.overlapText s) ≤ S.hardLimit
  · obtain ⟨m, hm, hcount⟩ := breakPos_eq text h0 htol how
    obtain rfl := Option.some.inj (hpos.symm.trans hm)
    rw [slice_eq h0 hlen, hcuts, ← hcount]
    simp only
    omega
  · -- the overlap alone is too long
    rw [hcuts]
    exact ⟨iff_of_false (by omega) fun h => how h.1, fun h => absurd h.1 how⟩

theorem returned_cases {chunks : List Text} (h : S.turn text s = .returned chunks) :
    (S.FitsRest text s ∧ chunks = s.chunks ++
      keepChunk (Words.strip isSpace (S.overlapText s ++ remaining text s))) ∨
        ¬ s.cursor < text.length ∧ chunks = s.chunks := by
  unfold turn at h
  split_ifs at h with hlen hfits
  · left
    exact ⟨hfits, (ChunkTurn.returned.inj h).symm⟩
  · cases hpos : S.breakPos text s with
    | some pos =>
      rw [hpos] at h
      cases h
    | none =>
      rw [hpos] at h
      cases h
  · right
    exact ⟨hlen, (ChunkTurn.returned.inj h).symm⟩

theorem turn_returned {chunks : List Text} (h : S.turn text s = .returned chunks) :
    S.CutsInTime text s ∧
      ∃ new, chunks = s.chunks ++ new ∧ ∀ c ∈ new, wordCount c ≤ S.hardLimit := by
  apply (returned_cases h).elim
  · intro hlast
    refine ⟨fun _ hno => absurd hlast.1 hno, _, hlast.2, ?_⟩
    rw [forall_mem_keepChunk, wordCount_strip]
    exact hlast.1
  · intro hdone
    refine ⟨fun hlt => absurd hlt hdone.1, [], ?_, by simp⟩
    rw [hdone.2, List.append_nil]

section Runs

variable {fuel : ℕ} {chunks : List Text}

theorem loop_cases (h : S.loop text (fuel + 1) s = some chunks) :
    S.turn text s = .returned chunks ∨
      ∃ s', S.Next text s s' ∧ S.loop text fuel s' = some chunks := by
  rw [loop] at h
  cases hturn : S.turn text s with
  | next s' =>
    rw [hturn] at h
    exact .inr ⟨s', hturn, h⟩
  | returned cs =>
    rw [hturn] at h
    rw [Option.some.inj h]
    exact .inl rfl
  | indexError =>
    rw [hturn] at h
    cases h

/-- A chunk stays in the list until the end. -/
theorem chunks_subset_loop (h : S.loop text fuel s = some chunks) : s.chunks ⊆ chunks := by
  induction fuel generalizing s with
  | zero => cases h
  | succ fuel ih =>
    obtain hturn | ⟨s', hnext, hloop⟩ := loop_cases h
    · obtain ⟨-, new, rfl, -⟩ := turn_returned hturn
      exact List.subset_append_left _ _
    · obtain ⟨-, -, pos, -, rfl⟩ := next_iff.mp hnext
      exact fun c hc => ih hloop (List.mem_append_left _ hc)

theorem within_of_cutsInTime (htol : S.chunkSizeTolerance ≤ 1) (h0 : 0 ≤ s.cursor)
    (hcuts : ∀ s', Relation.ReflTransGen (S.Next text) s s' → S.CutsInTime text s')
    (hs : ∀ c ∈ s.chunks, wordCount c ≤ S.hardLimit) (h : S.loop text fuel s = some chunks) :
    ∀ c ∈ chunks, wordCount c ≤ S.hardLimit := by
  induction fuel generalizing s with
  | zero => cases h
  | succ fuel ih =>
    obtain hturn | ⟨s', hnext, hloop⟩ := loop_cases h
    · obtain ⟨-, new, rfl, hnew⟩ := turn_returned hturn
      exact List.forall_mem_append.mpr ⟨hs, hnew⟩
    · obtain ⟨new, hchunks, hlimit, hcursor⟩ := hnext.limit_iff htol h0
      have hcut := hcuts s .refl
      refine ih (hcursor hcut) (fun t ht => hcuts t (ht.head hnext)) ?_ hloop
      rw [hchunks]
      exact List.forall_mem_append.mpr ⟨hs, hlimit.mpr hcut⟩

theorem cutsInTime_of_within (htol : S.chunkSizeTolerance ≤ 1) (h0 : 0 ≤ s.cursor)
    (h : S.loop text fuel s = some chunks) (hwithin : ∀ c ∈ chunks, wordCount c ≤ S.hardLimit)
    {t : ChunkState} (ht : Relation.ReflTransGen (S.Next text) s t) : S.CutsInTime text t := by
  induction fuel generalizing s with
  | zero => cases h
  | succ fuel ih =>
    obtain hturn | ⟨s', hnext, hloop⟩ := loop_cases h
    · -- no turn follows the one that returns
      obtain rfl | ⟨s', hnext, -⟩ := ht.cases_head
      · exact (turn_returned hturn).1
      · rw [Next, hturn] at hnext
        cases hnext
    · obtain ⟨new, hchunks, hlimit, hcursor⟩ := hnext.limit_iff htol h0
      have hcut : S.CutsInTime text s := by
        refine hlimit.mp fun c hc => hwithin c (chunks_subset_loop hloop ?_)
        rw [hchunks]
        exact List.mem_append_right _ hc
      obtain rfl | ⟨s'', hnext', hrest⟩ := ht.cases_head
      · exact hcut
      · rw [Next, hnext] at hnext'
        injection hnext' with hs
        subst hs
        exact ih (hcursor hcut) hloop hrest

theorem start_cursor_nonneg : 0 ≤ (S.start text).cursor := by
  unfold start startCursor
  split_ifs
  · simp only
    cases hsnap : nearestBreak text _ _ _ [['\n', '\n'], ['\n'], ['.']] with
    | none => exact Int.natCast_nonneg _
    | some pos => exact (Int.natCast_nonneg _).trans (mem_window_of_nearestBreak hsnap).1
  · exact le_rfl

end Runs

section Termination

theorem le_pyInt {n : ℤ} {q : ℚ} (h : (n : ℚ) ≤ q) : n ≤ pyInt q := by
  have hmul : n * q.den ≤ q.num := by simpa [Rat.le_iff] using h
  exact Int.le_tdiv_of_mul_le (Int.natCast_pos.mpr q.den_pos) hmul

/-- A rest with a word in it has at least one character for each. -/
theorem one_le_avgChars (h : 0 < wordCount (remaining text s)) : 1 ≤ avgChars text s := by
  have hle : wordCount (remaining text s) ≤ (remaining text s).length :=
    Words.count_le_length _
  have hmax : max (wordCount (remaining text s)) 1 = wordCount (remaining text s) := max_eq_left h
  have hpos : (0 : ℚ) < wordCount (remaining text s) := Nat.cast_pos.mpr h
  rw [avgChars, hmax, le_div_iff₀ hpos, one_mul, Nat.cast_le]
  exact hle

/-- The text that is left, and whether the next chunk begins with an overlap. -/
def workLeft (text : Text) (s : ChunkState) : ℕ :=
  2 * (text.length - s.cursor).toNat + if s.prevChunkText = [] then 0 else 1

theorem overlapText_of_nil (h : s.prevChunkText = []) : S.overlapText s = [] := by
  rw [overlapText, overlapPrefix, if_neg fun hprev => hprev.2 h]

variable (htol : S.chunkSizeTolerance ≤ 9 / 10) (h0 : 0 ≤ s.cursor)
  (how : wordCount (S.overlapText s) ≤ S.hardLimit) (hwords : 0 < wordCount (remaining text s))

include htol h0 how hwords

/-- A cut moves on, unless the overlap has used up all words. -/
theorem cursor_lt_of_breakPos {pos : ℤ} (h : S.breakPos text s = some pos) :
    s.cursor < pos ∨ pos = s.cursor ∧ wordCount (S.overlapText s) = S.hardLimit := by
  have havg := one_le_avgChars hwords
  unfold breakPos at h
  cases hmarker : S.markerBreak text s with
  | some p =>
    rw [hmarker, Option.some_or, Option.some_inj] at h
    subst h
    obtain ⟨hlo, -⟩ := mem_window_of_nearestBreak hmarker
    have htarget : (10 : ℤ) ≤ S.effectiveTarget s := le_max_left _ _
    have hfactor : (1 : ℚ) ≤ S.effectiveTarget s * (1 - S.chunkSizeTolerance) := by
      have hcast : (10 : ℚ) ≤ S.effectiveTarget s := by exact_mod_cast htarget
      nlinarith
    have hstep : 1 ≤ pyInt (S.effectiveTarget s * (1 - S.chunkSizeTolerance) * avgChars text s) :=
      le_pyInt (by simpa using one_le_mul_of_one_le_of_one_le hfactor havg)
    omega
  | none =>
    rw [hmarker, Option.none_or] at h
    have hleft : 0 ≤ S.wordsLeft s := by
      unfold wordsLeft
      omega
    have hhard : S.wordsLeft s ≤ S.hardChars text s :=
      le_pyInt (le_mul_of_one_le_right (Int.cast_nonneg hleft) havg)
    obtain ⟨H, hH⟩ := Int.eq_ofNat_of_zero_le (hleft.trans hhard)
    obtain ⟨m, -, hback, -⟩ :=
      backToBlank_eq h0 (n := min H (remaining text s).length) (Nat.min_le_right _ _)
    rw [hardSplit_of_backToBlank hH hback, Option.some_inj] at h
    unfold wordsLeft at hhard
    split_ifs at h <;> omega

/-- A turn that cuts in time takes something off the text, or at least its overlap. -/
theorem workLeft_lt {pos : ℤ} (h : S.breakPos text s = some pos) (hlimit : 0 < S.hardLimit)
    (hlen : s.cursor < text.length) (chunks : List Text) :
    workLeft text ⟨pos, Words.strip isSpace (PyList.slice text s.cursor pos), chunks⟩ <
      workLeft text s := by
  unfold workLeft
  obtain hlt | ⟨rfl, hfull⟩ := cursor_lt_of_breakPos htol h0 how hwords h
  · simp only
    split_ifs <;> omega
  · have hempty : PyList.slice text s.cursor s.cursor = [] := by
      have hslice := slice_eq h0 hlen 0
      rwa [Nat.cast_zero, add_zero, List.take_zero] at hslice
    have hprev : s.prevChunkText ≠ [] := by
      intro hnil
      rw [overlapText_of_nil hnil] at hfull
      exact hlimit.ne hfull
    rw [hempty, if_neg hprev]
    simp [Words.strip]

end Termination

theorem loop_returns (hlimit : 0 < S.hardLimit) (htol : S.chunkSizeTolerance ≤ 9 / 10)
    (h0 : 0 ≤ s.cursor)
    (hcuts : ∀ s', Relation.ReflTransGen (S.Next text) s s' → S.CutsInTime text s') :
    ∃ fuel chunks, S.loop text fuel s = some chunks := by
  have htol1 : S.chunkSizeTolerance ≤ 1 := htol.trans (by norm_num)
  induction hwork : workLeft text s using Nat.strong_induction_on generalizing s with
  | h n ih =>
    subst hwork
    by_cases hlen : s.cursor < text.length
    · by_cases hfits : S.FitsRest text s
      · exact ⟨1, _, by rw [loop, turn, if_pos hlen, if_pos hfits]⟩
      · have hcut := hcuts s .refl
        obtain ⟨how, -⟩ := hcut hlen hfits
        obtain ⟨m, hpos, -⟩ := breakPos_eq text h0 htol1 how
        have hnext : S.Next text s _ := next_iff.mpr ⟨hlen, hfits, _, hpos, rfl⟩
        have hwords : 0 < wordCount (remaining text s) := by
          rw [FitsRest, wordCount_overlap_append] at hfits
          omega
        obtain ⟨-, -, -, hcursor⟩ := hnext.limit_iff htol1 h0
        obtain ⟨fuel, chunks, hloop⟩ :=
          ih _ (workLeft_lt htol h0 how hwords hpos hlimit hlen _) (hcursor hcut)
            (fun t ht => hcuts t (ht.head hnext)) rfl
        refine ⟨fuel + 1, chunks, ?_⟩
        rw [loop, hnext]
        exact hloop
    · exact ⟨1, _, by rw [loop, turn, if_neg hlen]⟩

section EvenWords

/-- The characters in which a rest has so many words, if its words are of one length. -/
def evenChars (rest : Text) (n : ℕ) : ℕ :=
  (pyInt (n * ((rest.length : ℚ) / (max (wordCount rest) 1 : ℕ)))).toNat

variable (S text) in
/-- All words fit into one chunk, or no rest of the text has more words at its front than its
average allows: for the hard limit, and where an overlap takes some of that, for what it leaves. -/
def EvenWords : Prop :=
  wordCount text ≤ S.hardLimit ∨ ∀ p < text.length, ∀ n ≤ S.hardLimit,
    (n = S.hardLimit ∨ 0 < S.overlap ∧ 0 < p) →
      wordCount ((text.drop p).take (evenChars (text.drop p) n)) ≤ n

theorem pyInt_le {q : ℚ} (h : 0 ≤ q) : (pyInt q : ℚ) ≤ q := by
  have hden : (0 : ℚ) < q.den := Nat.cast_pos.mpr q.den_pos
  have hmul : pyInt q * q.den ≤ q.num := by
    rw [pyInt, Int.tdiv_eq_ediv_of_nonneg (Rat.num_nonneg.mpr h)]
    exact Int.ediv_mul_le _ (Int.natCast_ne_zero.mpr q.den_nz)
  calc (pyInt q : ℚ) ≤ q.num / q.den := by
        rw [le_div_iff₀ hden]
        exact_mod_cast hmul
    _ = q := Rat.num_div_den q

theorem pyInt_mono {q q' : ℚ} (h : q ≤ q') (h' : 0 ≤ q') : pyInt q ≤ pyInt q' := by
  by_cases hq : 0 ≤ q
  · exact le_pyInt ((pyInt_le hq).trans h)
  · have hneg : pyInt q ≤ Int.tdiv 0 q.den :=
      Int.tdiv_le_tdiv (Int.natCast_pos.mpr q.den_pos) (Rat.num_nonpos.mpr (not_le.mp hq).le)
    rw [Int.zero_tdiv] at hneg
    exact hneg.trans (pyInt_nonneg h')

/-- What the loop keeps to on such a text. -/
structure Kept (S : ChunkAtBoundaryStrategy) (s : ChunkState) : Prop where
  cursor : 0 ≤ s.cursor
  prev : wordCount s.prevChunkText ≤ S.hardLimit
  first : s.cursor = 0 → s.prevChunkText = []

theorem Kept.overlap_le (h : S.Kept s) : wordCount (S.overlapText s) ≤ S.hardLimit :=
  (wordCount_overlapPrefix_le _ _).trans h.prev

theorem cutsInTime_of_even (h : S.Kept s) (heven : ∀ p < text.length, ∀ n ≤ S.hardLimit,
    (n = S.hardLimit ∨ 0 < S.overlap ∧ 0 < p) →
      wordCount ((text.drop p).take (evenChars (text.drop p) n)) ≤ n) : S.CutsInTime text s := by
  intro hlen _
  have how := h.overlap_le
  refine ⟨how, ?_⟩
  have h0 := h.cursor
  have hwords : S.hardLimit - wordCount (S.overlapText s) = S.hardLimit ∨
      0 < S.overlap ∧ 0 < s.cursor.toNat := by
    by_cases htaken : 0 < S.overlap ∧ s.prevChunkText ≠ []
    · refine .inr ⟨htaken.1, ?_⟩
      have hcursor : s.cursor ≠ 0 := fun hzero => htaken.2 (h.first hzero)
      omega
    · left
      rw [overlapText, overlapPrefix, if_neg htaken]
      rfl
  have hcount := heven s.cursor.toNat (by omega) _ (Nat.sub_le _ _) hwords
  rw [← remaining_eq h0, wordCount, Words.count_take_le_iff] at hcount
  have hleft : S.wordsLeft s = (S.hardLimit - wordCount (S.overlapText s) : ℕ) := by
    rw [wordsLeft, Nat.cast_sub how]
  have havg : 0 ≤ (S.wordsLeft s : ℚ) * avgChars text s := by
    rw [hleft]
    exact mul_nonneg (Nat.cast_nonneg _) avgChars_nonneg
  have hchars : S.hardChars text s = evenChars (remaining text s)
      (S.hardLimit - wordCount (S.overlapText s)) := by
    have hnonneg : 0 ≤ S.hardChars text s := pyInt_nonneg havg
    rw [← Int.toNat_of_nonneg hnonneg, hardChars, hleft]
    rfl
  cases hmarker : S.markerBreak text s with
  | some pos =>
    obtain ⟨-, hhi⟩ := mem_window_of_nearestBreak hmarker
    have hmono : pyInt (min (S.effectiveTarget s * (1 + S.chunkSizeTolerance)) (S.wordsLeft s) *
        avgChars text s) ≤ S.hardChars text s :=
      pyInt_mono (mul_le_mul_of_nonneg_right (min_le_right _ _) avgChars_nonneg) havg
    show pos ≤ s.cursor + S.nextWord text s
    unfold nextWord
    omega
  | none =>
    refine ⟨fun i c hc hnext hi => ?_, .inl ?_⟩
    · have hilt := (List.getElem?_eq_some_iff.mp hc).1
      unfold nextWord at hnext
      omega
    · unfold nextWord
      omega

/-- The next turn begins behind a chunk that keeps the limit. -/
theorem Kept.next {s' : ChunkState} (h : S.Kept s) (htol : S.chunkSizeTolerance ≤ 1)
    (hcuts : S.CutsInTime text s) (hnext : S.Next text s s') : S.Kept s' := by
  obtain ⟨hlen, hfits, pos, hpos, rfl⟩ := next_iff.mp hnext
  obtain ⟨how, hcut⟩ := hcuts hlen hfits
  obtain ⟨m, hm, hcount⟩ := breakPos_eq text h.cursor htol how
  obtain rfl := Option.some.inj (hpos.symm.trans hm)
  have hwords := hcount.mpr hcut
  have h0 := h.cursor
  constructor
  · show 0 ≤ s.cursor + m
    omega
  · rw [wordCount_strip, slice_eq h0 hlen]
    omega
  · intro hzero
    have hstop : s.cursor + (m : ℤ) = 0 := hzero
    obtain rfl : m = 0 := by omega
    rw [slice_eq h0 hlen]
    rfl

theorem EvenWords.cutsInTime (heven : S.EvenWords text) (htol : S.chunkSizeTolerance ≤ 1)
    (hoffset : S.startOffset = 0) {t : ChunkState} (ht : S.AtHead text t) :
    S.CutsInTime text t := by
  have hstart : S.start text = ⟨0, [], []⟩ := by
    rw [start, startCursor, if_neg (by rw [hoffset]; exact lt_irrefl _)]
  obtain hfew | heven := heven
  · -- all of the text fits, so no turn follows the first
    have hfits : S.FitsRest text (S.start text) := by
      rw [hstart, FitsRest, overlapText_of_nil rfl, remaining_eq (le_refl 0)]
      exact hfew
    obtain rfl | ⟨s', hnext, -⟩ := ht.cases_head
    · exact fun _ hno => absurd hfits hno
    · exact absurd hfits (next_iff.mp hnext).2.1
  · have hkept : S.Kept t := by
      induction ht with
      | refl =>
        rw [hstart]
        exact ⟨le_refl 0, Nat.zero_le _, fun _ => rfl⟩
      | tail _ hnext ih => exact ih.next htol (cutsInTime_of_even ih heven) hnext
    exact cutsInTime_of_even hkept heven

end EvenWords

end ChunkAtBoundaryStrategy

theorem tolerance_le (config : ChunkConfig) :
    (strategyFromConfig config).chunkSizeTolerance ≤ 9 / 10 := by
  show (1 / 5 : ℚ) ≤ 9 / 10
  norm_num

open ChunkAtBoundaryStrategy in
/-- The chunks keep the hard limit exactly if every turn on the way to them cuts in time. -/
theorem hard_limit_iff (config : ChunkConfig) (text : Text) :
    (∀ fuel chunks, (strategyFromConfig config).chunkAtBoundaries text fuel = some chunks →
      ∀ c ∈ chunks, wordCount c ≤ config.hardLimitWords) ↔
    ((∃ fuel chunks, (strategyFromConfig config).chunkAtBoundaries text fuel = some chunks) →
      ∀ s, (strategyFromConfig config).AtHead (normalise text) s →
        (strategyFromConfig config).CutsInTime (normalise text) s) := by
  have htol : (strategyFromConfig config).chunkSizeTolerance ≤ 1 :=
    (tolerance_le config).trans (by norm_num)
  constructor
  · rintro hwithin ⟨fuel, chunks, h⟩ s hs
    exact cutsInTime_of_within htol start_cursor_nonneg h (hwithin fuel chunks h) hs
  · intro hcuts fuel chunks h
    exact within_of_cutsInTime htol start_cursor_nonneg (hcuts ⟨fuel, chunks, h⟩)
      (by simp [start]) h

/-- Words of one length, with an overlap. -/
def evenText : Text := (List.replicate 8 ['a', 'b', ' ']).flatten

def evenConfig : ChunkConfig := ⟨3, 3, 1 / 3⟩

/-- Many one-letter words and a longer one: the words at the front are shorter than the average. -/
def shortWords : Text := (List.replicate 481 ['a', ' ']).flatten ++ List.replicate 8 'b'

def shortWordsChunks : List Text :=
  [(List.replicate 480 ['a', ' ']).flatten ++ ['a'], List.replicate 8 'b']

theorem chunkAtBoundaries_shortWords :
    (selectStrategy "title").chunkAtBoundaries shortWords 2 = some shortWordsChunks := by
  decide +kernel

end RagPipeline
