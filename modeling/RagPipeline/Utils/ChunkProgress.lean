import RagPipeline.Utils.HardLimit
import RagPipeline.Utils.OverlapPrefix

namespace RagPipeline
namespace ChunkAtBoundaryStrategy

variable (S : ChunkAtBoundaryStrategy) (text : Text) (s : ChunkState)

/-- Every turn that goes on moves the cursor forward; so it never is below 0, and the loop ends. -/
structure Progress : Prop where
  forward : ∀ s s', S.AtHead text s → S.Next text s s' → s.cursor < s'.cursor
  inside : ∀ s, S.AtHead text s → 0 ≤ s.cursor
  ends : ∃ chunks, S.loop text (text.length + 1) (S.start text) = some chunks

/-- A turn that has to cut has words left for its chunk beside the overlap. -/
def LeavesWords : Prop :=
  s.cursor < text.length → ¬ S.FitsRest text s → wordCount (S.overlapText s) < S.hardLimit

variable {S text s}

theorem pyInt_nonpos {q : ℚ} (h : q ≤ 0) : pyInt q ≤ 0 := by
  have hnum : 0 ≤ -q.num := neg_nonneg.mpr (Rat.num_nonpos.mpr h)
  have hdiv := Int.tdiv_nonneg hnum (Int.natCast_nonneg q.den)
  rw [Int.neg_tdiv] at hdiv
  exact neg_nonneg.mp hdiv

section Turn

variable (h0 : 0 ≤ s.cursor)

variable (text) in
/-- Where the overlap takes all the words, a turn stays or goes back. -/
theorem breakPos_of_full (hfull : S.hardLimit ≤ wordCount (S.overlapText s)) :
    ∃ pos, S.breakPos text s = some pos ∧ pos ≤ s.cursor := by
  have hleft : (S.wordsLeft s : ℚ) ≤ 0 := by
    have hint : S.wordsLeft s ≤ 0 := by
      unfold wordsLeft
      omega
    exact_mod_cast hint
  unfold breakPos
  cases hmarker : S.markerBreak text s with
  | some pos =>
    obtain ⟨-, hhi⟩ := mem_window_of_nearestBreak hmarker
    have hwidth : pyInt (min (S.effectiveTarget s * (1 + S.chunkSizeTolerance)) (S.wordsLeft s)
        * avgChars text s) ≤ 0 := by
      apply pyInt_nonpos
      exact mul_nonpos_of_nonpos_of_nonneg (min_le_of_right_le hleft) avgChars_nonneg
    exact ⟨pos, rfl, by omega⟩
  | none =>
    have hhard : S.hardChars text s ≤ 0 := by
      apply pyInt_nonpos
      exact mul_nonpos_of_nonpos_of_nonneg hleft avgChars_nonneg
    have hstop : ¬ s.cursor < s.cursor + min (S.hardChars text s) (remaining text s).length := by
      omega
    rw [Option.none_or, hardSplit]
    simp only [if_neg hstop, Option.map_some]
    split_ifs
    · exact ⟨_, rfl, by omega⟩
    · exact ⟨_, rfl, by omega⟩

include h0

theorem Next.lt_cursor (htol : S.chunkSizeTolerance ≤ 9 / 10) (hwords : S.LeavesWords text s)
    {s' : ChunkState} (h : S.Next text s s') : s.cursor < s'.cursor := by
  obtain ⟨hlen, hfits, pos, hpos, rfl⟩ := next_iff.mp h
  have how := hwords hlen hfits
  have hrest : 0 < wordCount (remaining text s) := by
    rw [FitsRest, wordCount_overlap_append] at hfits
    omega
  obtain hlt | ⟨-, hfull⟩ := cursor_lt_of_breakPos htol h0 how.le hrest hpos
  · exact hlt
  · exact absurd hfull how.ne

variable (text) in
/-- A turn that has to cut finds a place. -/
theorem exists_next (htol : S.chunkSizeTolerance ≤ 9 / 10) (hlen : s.cursor < text.length)
    (hfits : ¬ S.FitsRest text s) : ∃ s', S.Next text s s' := by
  have hcut : ∃ pos, S.breakPos text s = some pos := by
    by_cases how : wordCount (S.overlapText s) ≤ S.hardLimit
    · obtain ⟨m, hpos, -⟩ := breakPos_eq text h0 (htol.trans (by norm_num)) how
      exact ⟨_, hpos⟩
    · obtain ⟨pos, hpos, -⟩ := breakPos_of_full text (not_le.mp how).le
      exact ⟨pos, hpos⟩
  obtain ⟨pos, hpos⟩ := hcut
  exact ⟨_, next_iff.mpr ⟨hlen, hfits, pos, hpos, rfl⟩⟩

theorem leavesWords_of_forward (htol : S.chunkSizeTolerance ≤ 9 / 10)
    (hforward : ∀ s', S.Next text s s' → s.cursor < s'.cursor) : S.LeavesWords text s := by
  intro hlen hfits
  by_contra hfull
  obtain ⟨s', hnext⟩ := exists_next text h0 htol hlen hfits
  have hlt := hforward s' hnext
  obtain ⟨-, -, pos, hpos, rfl⟩ := next_iff.mp hnext
  obtain ⟨pos', hpos', hle⟩ := breakPos_of_full text (not_lt.mp hfull)
  have heq : pos = pos' := Option.some.inj (hpos.symm.trans hpos')
  simp only at hlt
  omega

end Turn

theorem cursor_start (h : S.startOffset = 0) : (S.start text).cursor = 0 := by
  rw [start, startCursor, if_neg (by rw [h]; exact lt_irrefl 0)]

/-- As long as every turn moves on, a turn for each character is enough. -/
theorem exists_loop (htol : S.chunkSizeTolerance ≤ 9 / 10)
    (hforward : ∀ s s', S.AtHead text s → S.Next text s s' → s.cursor < s'.cursor)
    {fuel : ℕ} (hs : S.AtHead text s) (h0 : 0 ≤ s.cursor)
    (hfuel : text.length ≤ s.cursor + fuel) :
    ∃ chunks, S.loop text (fuel + 1) s = some chunks := by
  induction fuel generalizing s with
  | zero =>
    have hlen : ¬ s.cursor < text.length := by omega
    exact ⟨_, by rw [loop, turn, if_neg hlen]⟩
  | succ fuel ih =>
    by_cases hlen : s.cursor < text.length
    · by_cases hfits : S.FitsRest text s
      · exact ⟨_, by rw [loop, turn, if_pos hlen, if_pos hfits]⟩
      · obtain ⟨s', hnext⟩ := exists_next text h0 htol hlen hfits
        have hlt := hforward s s' hs hnext
        obtain ⟨chunks, hloop⟩ := ih (hs.tail hnext) (by omega) (by omega)
        exact ⟨chunks, by rw [loop, hnext]; exact hloop⟩
    · exact ⟨_, by rw [loop, turn, if_neg hlen]⟩

variable (text) in
theorem progress_of_leavesWords (htol : S.chunkSizeTolerance ≤ 9 / 10)
    (hwords : ∀ s, S.AtHead text s → S.LeavesWords text s) : S.Progress text := by
  have hinside : ∀ s, S.AtHead text s → 0 ≤ s.cursor := by
    intro s hs
    induction hs with
    | refl => exact start_cursor_nonneg
    | tail ht hnext ih => exact ih.trans (hnext.lt_cursor ih htol (hwords _ ht)).le
  have hforward : ∀ s s', S.AtHead text s → S.Next text s s' → s.cursor < s'.cursor := by
    intro s s' hs hnext
    exact hnext.lt_cursor (hinside s hs) htol (hwords s hs)
  refine ⟨hforward, hinside, ?_⟩
  have hstart : 0 ≤ (S.start text).cursor := start_cursor_nonneg
  exact exists_loop htol hforward .refl hstart (by omega)

end ChunkAtBoundaryStrategy

open ChunkAtBoundaryStrategy in
/-- The cursor always moves forward exactly if no overlap takes all the words of a chunk. -/
theorem progress_iff (config : ChunkConfig) (text : Text) :
    (strategyFromConfig config).Progress (normalise text) ↔
      ∀ s, (strategyFromConfig config).AtHead (normalise text) s →
        (strategyFromConfig config).LeavesWords (normalise text) s := by
  have htol : (strategyFromConfig config).chunkSizeTolerance ≤ 9 / 10 := tolerance_le config
  constructor
  · intro h s hs
    exact leavesWords_of_forward (h.inside s hs) htol fun s' hnext => h.forward s s' hs hnext
  · exact progress_of_leavesWords (normalise text) htol

/-- A long word, and then more one-letter words than a chunk may have. -/
def manyShortWords : Text :=
  List.replicate 7700 'x' ++ ['.'] ++ (List.replicate 481 [' ', 'a']).flatten

/-- A word that keeps the average up comes after them. -/
def shortWordsText : Text := manyShortWords ++ ['\n', '\n'] ++ List.replicate 60 'b'

theorem length_manyShortWords : manyShortWords.length = 8663 := by
  rw [manyShortWords, List.length_append, List.length_append, List.length_replicate,
    List.length_flatten, List.map_replicate, List.sum_replicate_nat]
  rfl

theorem length_shortWordsText : shortWordsText.length = 8725 := by
  rw [shortWordsText, List.length_append, List.length_append, length_manyShortWords,
    List.length_replicate]
  rfl

theorem head?_manyShortWords : manyShortWords.head? = some 'x' := by
  simp only [manyShortWords, List.head?_append, List.head?_replicate]
  rfl

theorem getLast?_manyShortWords : manyShortWords.getLast? = some 'a' := by
  have hlast : (List.replicate 481 [' ', 'a']).flatten =
      (List.replicate 480 [' ', 'a']).flatten ++ [' ', 'a'] := by
    rw [List.replicate_succ', List.flatten_append]
    rfl
  rw [manyShortWords, hlast, ← List.append_assoc, List.getLast?_append]
  rfl

theorem eq_of_mem_manyShortWords {c : Char} (h : c ∈ manyShortWords) :
    c = 'x' ∨ c = '.' ∨ c = ' ' ∨ c = 'a' := by
  simp only [manyShortWords, List.mem_append, List.mem_flatten, List.mem_replicate,
    List.mem_singleton] at h
  grind

theorem eq_of_mem_shortWordsText {c : Char} (h : c ∈ shortWordsText) :
    c ∈ manyShortWords ∨ c = '\n' ∨ c = 'b' := by
  simp only [shortWordsText, List.mem_append, List.mem_replicate] at h
  grind

theorem split_letters (n : ℕ) : Words.split isSpace ('a' :: (List.replicate n [' ', 'a']).flatten) =
    List.replicate (n + 1) ['a'] := by
  induction n with
  | zero => rfl
  | succ n ih =>
    have hcons : 'a' :: (List.replicate (n + 1) [' ', 'a']).flatten =
        ['a'] ++ ' ' :: ('a' :: (List.replicate n [' ', 'a']).flatten) := rfl
    rw [hcons, Words.split_append_cons (by decide), ih]
    rfl

theorem drop_manyShortWords : manyShortWords.drop 7701 =
    ' ' :: ('a' :: (List.replicate 480 [' ', 'a']).flatten) := by
  have hlen : (List.replicate 7700 'x' ++ ['.']).length = 7701 := by
    rw [List.length_append, List.length_replicate]
    rfl
  rw [manyShortWords, List.drop_left' hlen]
  rfl

/-- The long word and the short ones. -/
theorem manyShortWords_eq : manyShortWords = (List.replicate 7700 'x' ++ ['.']) ++
    ' ' :: ('a' :: (List.replicate 480 [' ', 'a']).flatten) := rfl

theorem isSpace_of_mem_longWord : ∀ c ∈ List.replicate 7700 'x' ++ ['.'], isSpace c = false := by
  intro c hc
  rw [List.mem_append, List.mem_replicate, List.mem_singleton] at hc
  obtain ⟨-, rfl⟩ | rfl := hc <;> decide

theorem longWord_ne_nil : List.replicate 7700 'x' ++ ['.'] ≠ [] :=
  List.append_ne_nil_of_right_ne_nil _ (List.cons_ne_nil _ _)

theorem wordCount_manyShortWords : wordCount manyShortWords = 482 := by
  rw [wordCount, Words.count, manyShortWords_eq, Words.split_append_cons (by decide),
    Words.split_of_word longWord_ne_nil isSpace_of_mem_longWord, split_letters, List.length_append,
    List.length_replicate]
  rfl

theorem wordCount_shortWordsText : wordCount shortWordsText = 483 := by
  have hword : ∀ c ∈ List.replicate 60 'b', isSpace c = false := by
    intro c hc
    rw [List.eq_of_mem_replicate hc]
    decide
  have hcount : (Words.split isSpace manyShortWords).length = 482 := wordCount_manyShortWords
  have htext : shortWordsText = manyShortWords ++ '\n' :: ('\n' :: List.replicate 60 'b') := by
    rw [shortWordsText, List.append_assoc]
    rfl
  rw [wordCount, Words.count, htext, Words.split_append_cons (by decide),
    Words.split_cons_sep (by decide), Words.split_of_word (by simp) hword, List.length_append,
    hcount]
  rfl

theorem charsToWordEnd_letters {n : ℤ} {count k : ℕ} (h : count + k < n) (l : Text) :
    charsToWordEnd n true count ((List.replicate k [' ', 'a']).flatten ++ l) =
      2 * k + charsToWordEnd n true (count + k) l := by
  induction k generalizing count with
  | zero => rw [List.replicate_zero, List.flatten_nil, List.nil_append]; simp
  | succ k ih =>
    have hshort : ¬ n ≤ (count + 1 : ℕ) := by omega
    have hnext : (count + 1 : ℕ) + k < n := by omega
    have hletter : ∀ m : ℕ, charsToWordEnd n false m ('a' ::
        ((List.replicate k [' ', 'a']).flatten ++ l)) =
          charsToWordEnd n true m ((List.replicate k [' ', 'a']).flatten ++ l) + 1 := fun _ => rfl
    show (if n ≤ (count + 1 : ℕ) then 0 else charsToWordEnd n false (count + 1) ('a' ::
      ((List.replicate k [' ', 'a']).flatten ++ l)) + 1) = _
    rw [if_neg hshort, hletter, ih hnext, Nat.add_assoc count, Nat.add_comm 1 k]
    omega

theorem charForWordFraction_manyShortWords :
    charForWordFraction manyShortWords (1 - 1 / 10) = 8565 := by
  have htarget : pyInt ((482 : ℕ) * (1 - 1 / 10)) = 433 := by decide +kernel
  have hletters : List.replicate 481 [' ', 'a'] =
      List.replicate 432 [' ', 'a'] ++ [' ', 'a'] :: List.replicate 48 [' ', 'a'] := by
    rw [← List.replicate_succ, ← List.replicate_add]
  have hstop : ∀ l, charsToWordEnd 433 true (0 + 432) ([' ', 'a'] ++ l) = 0 := fun _ => rfl
  rw [charForWordFraction, if_neg (by norm_num), if_neg (by norm_num), wordCount_manyShortWords,
    htarget, manyShortWords, charsToWordEnd_append_word 433 false 0 longWord_ne_nil
      isSpace_of_mem_longWord, hletters, List.flatten_append, List.flatten_cons,
    charsToWordEnd_letters (by decide), hstop, List.length_append, List.length_replicate]
  rfl

theorem findBreaks_manyShortWords : findBreaks ['.'] 0 manyShortWords = [7701] := by
  have hfront : '.' ∉ List.replicate 7700 'x' := fun h => by
    cases List.eq_of_mem_replicate h
  have hrest : '.' ∉ (List.replicate 481 [' ', 'a']).flatten := by
    intro h
    obtain ⟨l, hl, hmem⟩ := List.mem_flatten.mp h
    rw [List.eq_of_mem_replicate hl] at hmem
    revert hmem
    decide
  rw [manyShortWords, List.append_assoc, List.singleton_append, findBreaks_append hfront,
    List.length_replicate, findBreaks, findBreaks_of_notMem hrest]
  rfl

theorem overlapSnap_manyShortWords : overlapSnap (1 / 10) manyShortWords = some 7701 := by
  have hstar : '*' ∉ manyShortWords := fun h => by simpa using eq_of_mem_manyShortWords h
  have hdash : '-' ∉ manyShortWords := fun h => by simpa using eq_of_mem_manyShortWords h
  have hline : '\n' ∉ manyShortWords := fun h => by simpa using eq_of_mem_manyShortWords h
  unfold overlapSnap markers
  simp only [nearestBreak_of_notMem hstar, nearestBreak_of_notMem hdash,
    nearestBreak_of_notMem hline, charForWordFraction_manyShortWords, length_manyShortWords]
  exact nearestBreak_singleton findBreaks_manyShortWords (by decide +kernel) 8565 []

theorem wordCount_overlap_manyShortWords :
    wordCount (overlapPrefix (1 / 10) manyShortWords) = 481 := by
  have hslice : PyList.sliceFrom manyShortWords 7701 = manyShortWords.drop 7701 := by
    rw [PyList.sliceFrom, ChunkAtBoundaryStrategy.bound_eq (by decide), length_manyShortWords]
    rfl
  have hsplit : Words.split isSpace (PyList.sliceFrom manyShortWords 7701) =
      List.replicate 481 ['a'] := by
    rw [hslice, drop_manyShortWords, Words.split_cons_sep (by decide), split_letters]
  have hne : manyShortWords ≠ [] := List.ne_nil_of_length_pos (by simp [length_manyShortWords])
  rw [overlapPrefix_of_snap (by norm_num) hne overlapSnap_manyShortWords,
    wordCount, Words.count, split_append_space, Words.split_strip, hsplit, List.length_replicate]

theorem findBreaks_shortWordsText : findBreaks ['\n', '\n'] 0 shortWordsText = [8665] := by
  have hline : '\n' ∉ manyShortWords := fun h => by simpa using eq_of_mem_manyShortWords h
  rw [shortWordsText, List.append_assoc, findBreaks_append hline, length_manyShortWords]
  rfl

open ChunkAtBoundaryStrategy in
theorem avgChars_shortWordsText : avgChars shortWordsText
    ((selectStrategy "body").start shortWordsText) = 8725 / 483 := by
  have hremaining : remaining shortWordsText ((selectStrategy "body").start shortWordsText) =
      shortWordsText := by
    rw [remaining_eq (cursor_start rfl).ge, cursor_start rfl]
    rfl
  rw [avgChars, hremaining, wordCount_shortWordsText, length_shortWordsText]
  norm_num

open ChunkAtBoundaryStrategy in
theorem breakPos_shortWordsText : (selectStrategy "body").breakPos shortWordsText
    ((selectStrategy "body").start shortWordsText) = some 8665 := by
  have hstar : '*' ∉ shortWordsText := fun h => by
    simpa [mt eq_of_mem_manyShortWords] using eq_of_mem_shortWordsText h
  have hdash : '-' ∉ shortWordsText := fun h => by
    simpa [mt eq_of_mem_manyShortWords] using eq_of_mem_shortWordsText h
  have hremaining : (remaining shortWordsText
      ((selectStrategy "body").start shortWordsText)).length = 8725 := by
    rw [remaining_eq (cursor_start rfl).ge, cursor_start rfl]
    exact length_shortWordsText
  have hbreak : (selectStrategy "body").markerBreak shortWordsText
      ((selectStrategy "body").start shortWordsText) = some 8665 := by
    unfold markerBreak markers
    simp only [nearestBreak_of_notMem hstar, nearestBreak_of_notMem hdash, avgChars_shortWordsText,
      hremaining]
    exact nearestBreak_singleton findBreaks_shortWordsText (by decide +kernel) _ _
  rw [breakPos, hbreak]
  rfl

theorem strip_slice_shortWordsText :
    Words.strip isSpace (PyList.slice shortWordsText 0 8665) = manyShortWords := by
  have hslice : PyList.slice shortWordsText 0 8665 = manyShortWords ++ ['\n', '\n'] := by
    have htake := PyList.slice_zero_natCast shortWordsText 8665
    rw [shortWordsText, List.take_left' (by simp [length_manyShortWords])] at htake
    exact htake
  rw [hslice]
  apply Words.strip_append_seps
  · exact List.ne_nil_of_length_pos (by simp [length_manyShortWords])
  · rw [head?_manyShortWords]
    simp [isSpace]
  · rw [getLast?_manyShortWords]
    simp [isSpace]
  · simp [isSpace]

open ChunkAtBoundaryStrategy in
theorem exists_next_shortWordsText : ∃ s, (selectStrategy "body").Next shortWordsText
    ((selectStrategy "body").start shortWordsText) s ∧ s.cursor = 8665 ∧
      s.prevChunkText = manyShortWords := by
  have hcursor : ((selectStrategy "body").start shortWordsText).cursor = 0 := cursor_start rfl
  have hlen : ((selectStrategy "body").start shortWordsText).cursor < shortWordsText.length := by
    rw [hcursor, length_shortWordsText]
    decide
  have hfits : ¬ (selectStrategy "body").FitsRest shortWordsText
      ((selectStrategy "body").start shortWordsText) := by
    have hwords := wordCount_shortWordsText
    have hlimit : (selectStrategy "body").hardLimit = 480 := by decide
    rw [FitsRest, wordCount_overlap_append, remaining_eq hcursor.ge, hcursor, hlimit]
    rw [Int.toNat_zero, List.drop_zero]
    omega
  refine ⟨_, next_iff.mpr ⟨hlen, hfits, 8665, breakPos_shortWordsText, rfl⟩, rfl, ?_⟩
  simp only [hcursor]
  exact strip_slice_shortWordsText

open ChunkAtBoundaryStrategy in
/-- The second turn of this text goes back. -/
theorem short_words_go_back : ¬ ∀ taskType ∈ chunkConfigs.keys, ∀ text,
    (selectStrategy taskType).Progress (normalise text) := by
  intro h
  have hnormal : normalise shortWordsText = shortWordsText := by
    apply normalise_of_notMem
    intro hmem
    simpa [mt eq_of_mem_manyShortWords] using eq_of_mem_shortWordsText hmem
  have hprogress := h "body" (by decide) shortWordsText
  rw [hnormal] at hprogress
  obtain ⟨s, hnext, hcursor, hprev⟩ := exists_next_shortWordsText
  have hhead := Relation.ReflTransGen.single hnext
  have htol : (selectStrategy "body").chunkSizeTolerance ≤ 9 / 10 := tolerance_le _
  have hwords := leavesWords_of_forward (hprogress.inside s hhead) htol fun s' hs' =>
    hprogress.forward s s' hhead hs'
  -- the overlap of the second turn is all the short words
  have hcount : wordCount ((selectStrategy "body").overlapText s) = 481 := by
    rw [overlapText, hprev]
    exact wordCount_overlap_manyShortWords
  have hlimit : (selectStrategy "body").hardLimit = 480 := by decide
  have hfits : ¬ (selectStrategy "body").FitsRest shortWordsText s := by
    rw [FitsRest, wordCount_overlap_append]
    omega
  have hlen : s.cursor < shortWordsText.length := by
    rw [hcursor, length_shortWordsText]
    decide
  have hleft := hwords hlen hfits
  omega

end RagPipeline
