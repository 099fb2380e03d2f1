import RagPipeline.Utils.ChunkProgress

namespace RagPipeline

def letters (text : Text) : Text := text.filter fun c => !isSpace c

/-- Not empty, and no whitespace at the ends. -/
structure Trimmed (chunk : Text) : Prop where
  nonempty : chunk ≠ []
  front : ∀ c ∈ chunk.head?, isSpace c = false
  back : ∀ c ∈ chunk.getLast?, isSpace c = false

structure Partitions (text : Text) (chunks : List Text) : Prop where
  trimmed : ∀ c ∈ chunks, Trimmed c
  whole : letters chunks.flatten = letters text

theorem letters_append (l r : Text) : letters (l ++ r) = letters l ++ letters r :=
  List.filter_append l r

theorem letters_strip (l : Text) : letters (Words.strip isSpace l) = letters l :=
  Words.filter_strip l

theorem flatten_keepChunk (chunk : Text) : (keepChunk chunk).flatten = chunk := by
  unfold keepChunk
  split_ifs with h
  · exact h.symm
  · simp

theorem partitions_keepChunk (l : Text) : Partitions l (keepChunk (Words.strip isSpace l)) := by
  constructor
  · intro c hc
    unfold keepChunk at hc
    split_ifs at hc with hempty
    · cases hc
    · rw [List.mem_singleton] at hc
      rw [hc]
      exact ⟨hempty, Words.head?_strip l, Words.getLast?_strip l⟩
  · rw [flatten_keepChunk, letters_strip]

theorem partitions_nil : Partitions [] [] := ⟨by simp, rfl⟩

theorem Partitions.append {l r : Text} {cs ds : List Text} (hl : Partitions l cs)
    (hr : Partitions r ds) : Partitions (l ++ r) (cs ++ ds) := by
  refine ⟨List.forall_mem_append.mpr ⟨hl.trimmed, hr.trimmed⟩, ?_⟩
  rw [List.flatten_append, letters_append, letters_append, hl.whole, hr.whole]

/-- Whitespace around a text does not matter to its chunks. -/
theorem Partitions.of_strip {l : Text} {cs : List Text}
    (h : Partitions (Words.strip isSpace l) cs) : Partitions l cs :=
  ⟨h.trimmed, h.whole.trans (letters_strip l)⟩

namespace ChunkAtBoundaryStrategy

variable {S : ChunkAtBoundaryStrategy} {text : Text} {s : ChunkState}

theorem overlapText_of_zero (hover : S.overlap = 0) : S.overlapText s = [] := by
  rw [overlapText, hover, overlapPrefix, if_neg fun h => lt_irrefl 0 h.1]

theorem leavesWords_of_zero (hover : S.overlap = 0) (hlimit : 0 < S.hardLimit) :
    S.LeavesWords text s := by
  intro _ _
  rw [overlapText_of_zero hover]
  exact hlimit

theorem remaining_of_le (h0 : 0 ≤ s.cursor) (hlen : ¬ s.cursor < text.length) :
    remaining text s = [] := by
  rw [remaining_eq h0]
  apply List.drop_eq_nil_of_le
  omega

variable (htol : S.chunkSizeTolerance ≤ 9 / 10) (hover : S.overlap = 0) (hlimit : 0 < S.hardLimit)

include htol hover

theorem Next.takes {s' : ChunkState} (h : S.Next text s s') (h0 : 0 ≤ s.cursor) :
    ∃ (m : ℕ) (new : List Text), s'.cursor = s.cursor + m ∧ s'.chunks = s.chunks ++ new ∧
      Partitions ((remaining text s).take m) new := by
  obtain ⟨hlen, -, pos, hpos, rfl⟩ := next_iff.mp h
  have hempty : S.overlapText s = [] := overlapText_of_zero hover
  have hwords : wordCount (S.overlapText s) ≤ S.hardLimit := by
    rw [hempty]
    exact Nat.zero_le _
  obtain ⟨m, hm, -⟩ := breakPos_eq text h0 (htol.trans (by norm_num)) hwords
  obtain rfl := Option.some.inj (hpos.symm.trans hm)
  refine ⟨m, _, rfl, rfl, ?_⟩
  rw [slice_eq h0 hlen, hempty, List.nil_append]
  exact (partitions_keepChunk _).of_strip

theorem loop_partitions {fuel : ℕ} {chunks : List Text} (h0 : 0 ≤ s.cursor)
    (h : S.loop text fuel s = some chunks) :
    ∃ new, chunks = s.chunks ++ new ∧ Partitions (remaining text s) new := by
  induction fuel generalizing s with
  | zero => cases h
  | succ fuel ih =>
    obtain hturn | ⟨s', hnext, hloop⟩ := loop_cases h
    · apply (returned_cases hturn).elim
      · intro hlast
        refine ⟨_, hlast.2, ?_⟩
        rw [overlapText_of_zero hover, List.nil_append]
        exact partitions_keepChunk _
      · intro hdone
        refine ⟨[], by rw [hdone.2, List.append_nil], ?_⟩
        rw [remaining_of_le h0 hdone.1]
        exact partitions_nil
    · obtain ⟨m, new, hcursor, hchunks, htaken⟩ := hnext.takes htol hover h0
      have h0' : 0 ≤ s'.cursor := by omega
      obtain ⟨rest, hall, hrest⟩ := ih h0' hloop
      refine ⟨new ++ rest, by rw [hall, hchunks, List.append_assoc], ?_⟩
      have hdrop : remaining text s' = (remaining text s).drop m := by
        rw [remaining_eq h0', remaining_eq h0, List.drop_drop]
        congr 1
        omega
      rw [hdrop] at hrest
      have hboth := htaken.append hrest
      rwa [List.take_append_drop] at hboth

end ChunkAtBoundaryStrategy

/-- The title and summary_title strategies are of this kind. -/
def withoutOverlap (target : ℤ) (hardLimit : ℕ) : ChunkAtBoundaryStrategy where
  target
  hardLimit
  overlap := 0

open ChunkAtBoundaryStrategy in
/-- Without overlap the chunks are a partition of the text, whatever the target is. -/
theorem chunkAtBoundaries_partitions (target : ℤ) {hardLimit : ℕ} (hlimit : 1 ≤ hardLimit)
    (text : Text) :
    (∃ fuel chunks, (withoutOverlap target hardLimit).chunkAtBoundaries text fuel = some chunks) ∧
      ∀ fuel chunks, (withoutOverlap target hardLimit).chunkAtBoundaries text fuel = some chunks →
        Partitions (normalise text) chunks := by
  have htol : (withoutOverlap target hardLimit).chunkSizeTolerance ≤ 9 / 10 := by
    show (1 / 5 : ℚ) ≤ 9 / 10
    norm_num
  constructor
  · have hprogress := progress_of_leavesWords (S := withoutOverlap target hardLimit)
      (normalise text) htol fun s _ => leavesWords_of_zero rfl hlimit
    exact ⟨_, hprogress.ends⟩
  · intro fuel chunks h
    obtain ⟨new, hchunks, hnew⟩ := loop_partitions htol rfl start_cursor_nonneg h
    have hwhole : remaining (normalise text) ((withoutOverlap target hardLimit).start
        (normalise text)) = normalise text := by
      rw [remaining_eq start_cursor_nonneg, cursor_start rfl]
      rfl
    rw [hwhole] at hnew
    rw [hchunks]
    exact hnew

def manyWords : Text := (List.replicate 60 ['a', ' ']).flatten

theorem chunkAtBoundaries_partitions_manyWords :
    ((withoutOverlap 40 48).chunkAtBoundaries manyWords 2).map List.length = some 2 ∧
    (∃ fuel chunks, (withoutOverlap 40 48).chunkAtBoundaries manyWords fuel = some chunks) ∧
      ∀ fuel chunks, (withoutOverlap 40 48).chunkAtBoundaries manyWords fuel = some chunks →
        Partitions (normalise manyWords) chunks :=
  ⟨by decide +kernel, chunkAtBoundaries_partitions 40 (by decide : 1 ≤ 48) manyWords⟩

end RagPipeline
