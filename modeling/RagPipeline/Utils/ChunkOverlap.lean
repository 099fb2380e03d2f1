import RagPipeline.Utils.ChunkPartition

namespace RagPipeline

/-- The second chunk begins with words that the first one ends with. -/
def SharesWords (a b : Text) : Prop :=
  ∃ ws, ws ≠ [] ∧ ws <:+ Words.split isSpace a ∧ ws <+: Words.split isSpace b

/-- The second chunk begins with a word that the first one has anywhere. -/
def Repeats (a b : Text) : Prop :=
  ∃ w ∈ (Words.split isSpace b).head?, w ∈ Words.split isSpace a

theorem SharesWords.repeats {a b : Text} (h : SharesWords a b) : Repeats a b := by
  obtain ⟨ws, hne, hsuffix, hprefix⟩ := h
  cases ws with
  | nil => exact absurd rfl hne
  | cons w ws =>
    obtain ⟨rest, hb⟩ := hprefix
    refine ⟨w, ?_, hsuffix.subset (List.mem_cons_self ..)⟩
    rw [← hb]
    rfl

structure ChunkState.EndsInPrev (s : ChunkState) : Prop where
  back : ∀ c ∈ s.prevChunkText.getLast?, isSpace c = false
  last : s.prevChunkText ≠ [] → ∃ a ∈ s.chunks.getLast?,
    Words.split isSpace s.prevChunkText <:+ Words.split isSpace a

namespace ChunkAtBoundaryStrategy

variable (S : ChunkAtBoundaryStrategy) (text : Text) (s : ChunkState)

def added : List Text :=
  match S.turn text s with
  | .next s' => s'.chunks.drop s.chunks.length
  | .returned chunks => chunks.drop s.chunks.length
  | .indexError => []

/-- A turn that adds a chunk after another one finds the overlap that it needs. -/
def OverlapKept : Prop :=
  S.added text s ≠ [] → s.chunks ≠ [] → KeepsOverlap S.overlap s.prevChunkText

variable {S text s}

theorem split_overlap_append (l : Text) :
    Words.split isSpace (Words.strip isSpace (S.overlapText s ++ l)) =
      Words.split isSpace (S.overlapText s) ++ Words.split isSpace l := by
  rw [Words.split_strip]
  unfold overlapText
  obtain h | ⟨m, h⟩ := overlapPrefix_eq S.overlap s.prevChunkText
  · rw [h]
    rfl
  · rw [h, split_append_space, List.append_assoc, List.singleton_append]
    exact Words.split_append_cons (by decide)

theorem added_of_next {s' : ChunkState} (h : S.Next text s s') :
    s'.chunks = s.chunks ++ S.added text s ∧ S.added text s =
      keepChunk (Words.strip isSpace (S.overlapText s ++ s'.prevChunkText)) := by
  have hturn : S.turn text s = .next s' := h
  obtain ⟨-, -, pos, -, rfl⟩ := next_iff.mp h
  unfold added
  rw [hturn]
  simp

theorem added_of_returned {chunks : List Text} (h : S.turn text s = .returned chunks) :
    chunks = s.chunks ++ S.added text s ∧ (S.added text s = [] ∨ ∃ l, S.added text s =
      keepChunk (Words.strip isSpace (S.overlapText s ++ l))) := by
  unfold added
  rw [h]
  apply (returned_cases h).elim
  · intro hlast
    rw [hlast.2]
    simp only [List.drop_left, true_and]
    exact .inr ⟨_, rfl⟩
  · intro hdone
    rw [hdone.2]
    simp

theorem Next.endsInPrev {s' : ChunkState} (h : S.Next text s s') : s'.EndsInPrev := by
  obtain ⟨hchunks, hadded⟩ := added_of_next h
  have hback : ∀ c ∈ s'.prevChunkText.getLast?, isSpace c = false := by
    obtain ⟨-, -, pos, -, rfl⟩ := next_iff.mp h
    exact Words.getLast?_strip _
  refine ⟨hback, fun hprev => ?_⟩
  have hwords := split_ne_nil hprev hback
  have hsplit := split_overlap_append (S := S) (s := s) s'.prevChunkText
  have hchunk : Words.strip isSpace (S.overlapText s ++ s'.prevChunkText) ≠ [] := by
    intro hnil
    rw [hnil] at hsplit
    exact hwords (List.append_eq_nil_iff.mp hsplit.symm).2
  rw [hadded, keepChunk, if_neg hchunk] at hchunks
  refine ⟨_, by rw [hchunks]; exact List.getLast?_concat, ?_⟩
  rw [hsplit]
  exact List.suffix_append _ _

theorem shares_of_kept (h : s.EndsInPrev) (hover : 0 < S.overlap)
    (hkept : KeepsOverlap S.overlap s.prevChunkText) {a : Text} (ha : a ∈ s.chunks.getLast?)
    (l : Text) : SharesWords a (Words.strip isSpace (S.overlapText s ++ l)) := by
  obtain ⟨hne, hsuffix⟩ := (keepsOverlap_iff hover h.back).mp hkept
  obtain ⟨a', ha', hlast⟩ := h.last hkept.1
  obtain rfl := Option.some.inj (ha.symm.trans ha')
  refine ⟨_, hne, hsuffix.trans hlast, ?_⟩
  rw [split_overlap_append]
  exact List.prefix_append _ _

theorem isChain_append_added (h : s.EndsInPrev) (hover : 0 < S.overlap)
    (hkept : S.OverlapKept text s) (hchain : s.chunks.IsChain SharesWords)
    (hadded : S.added text s = [] ∨ ∃ l, S.added text s =
      keepChunk (Words.strip isSpace (S.overlapText s ++ l))) :
    (s.chunks ++ S.added text s).IsChain SharesWords := by
  obtain hnone | ⟨l, hl⟩ := hadded
  · rwa [hnone, List.append_nil]
  · by_cases hempty : Words.strip isSpace (S.overlapText s ++ l) = []
    · rwa [hl, keepChunk, if_pos hempty, List.append_nil]
    · rw [keepChunk, if_neg hempty] at hl
      rw [hl]
      refine hchain.append (List.isChain_singleton _) fun a ha b hb => ?_
      obtain rfl := Option.some.inj hb
      have hne : s.chunks ≠ [] := by
        intro hnil
        rw [hnil] at ha
        cases ha
      exact shares_of_kept h hover (hkept (by rw [hl]; exact List.cons_ne_nil _ _) hne) ha l

section Runs

variable {fuel : ℕ} {chunks : List Text}

theorem isChain_of_overlapKept (hover : 0 < S.overlap)
    (hkept : ∀ s', Relation.ReflTransGen (S.Next text) s s' → S.OverlapKept text s')
    (hinv : s.EndsInPrev) (hchain : s.chunks.IsChain SharesWords)
    (h : S.loop text fuel s = some chunks) : chunks.IsChain SharesWords := by
  induction fuel generalizing s with
  | zero => cases h
  | succ fuel ih =>
    obtain hturn | ⟨s', hnext, hloop⟩ := loop_cases h
    · obtain ⟨hchunks, hadded⟩ := added_of_returned hturn
      rw [hchunks]
      exact isChain_append_added hinv hover (hkept s .refl) hchain hadded
    · obtain ⟨hchunks, hadded⟩ := added_of_next hnext
      have hchain' : s'.chunks.IsChain SharesWords := by
        rw [hchunks]
        exact isChain_append_added hinv hover (hkept s .refl) hchain (.inr ⟨_, hadded⟩)
      exact ih (fun t ht => hkept t (ht.head hnext)) hnext.endsInPrev hchain' hloop

end Runs

theorem endsInPrev_start : (S.start text).EndsInPrev :=
  ⟨fun c hc => (by cases hc), fun hne => absurd rfl hne⟩

theorem AtHead.endsInPrev (h : S.AtHead text s) : s.EndsInPrev := by
  obtain rfl | ⟨t, -, hnext⟩ := h.cases_tail
  · exact endsInPrev_start
  · exact hnext.endsInPrev

/-- The overlap is found exactly if the words that come before the new ones are the last words of
the chunk before, and not none of them. -/
theorem keepsOverlap_iff_recycles (h : s.EndsInPrev) (hover : 0 < S.overlap) {a : Text}
    (ha : a ∈ s.chunks.getLast?) : KeepsOverlap S.overlap s.prevChunkText ↔
      Words.split isSpace (S.overlapText s) ≠ [] ∧
        Words.split isSpace (S.overlapText s) <:+ Words.split isSpace a := by
  refine (keepsOverlap_iff hover h.back).trans (and_congr_right fun hne => ?_)
  have hprev : s.prevChunkText ≠ [] := by
    intro hnil
    rw [hnil, overlapPrefix, if_neg fun h => h.2 rfl] at hne
    exact hne rfl
  obtain ⟨a', ha', hlast⟩ := h.last hprev
  obtain rfl := Option.some.inj (ha.symm.trans ha')
  refine ⟨fun hsuffix => hsuffix.trans hlast, fun hsuffix => ?_⟩
  exact List.suffix_of_suffix_length_le hsuffix hlast
    (wordCount_overlapPrefix_le S.overlap s.prevChunkText)

end ChunkAtBoundaryStrategy

open ChunkAtBoundaryStrategy in
/-- Where every turn that adds a chunk after another finds its overlap, consecutive chunks share
words; and a turn finds it exactly if what it puts before the new words are the last words of the
chunk before. -/
theorem overlap_shared {config : ChunkConfig} (hover : 0 < config.chunkOverlap) (text : Text) :
    ((∀ s, (strategyFromConfig config).AtHead (normalise text) s →
        (strategyFromConfig config).OverlapKept (normalise text) s) →
      ∀ fuel chunks, (strategyFromConfig config).chunkAtBoundaries text fuel = some chunks →
        chunks.IsChain SharesWords) ∧
    ∀ s, (strategyFromConfig config).AtHead (normalise text) s → ∀ a ∈ s.chunks.getLast?,
      (KeepsOverlap config.chunkOverlap s.prevChunkText ↔
        Words.split isSpace ((strategyFromConfig config).overlapText s) ≠ [] ∧
          Words.split isSpace ((strategyFromConfig config).overlapText s) <:+
            Words.split isSpace a) := by
  constructor
  · intro hkept fuel chunks h
    exact isChain_of_overlapKept hover hkept endsInPrev_start List.isChain_nil h
  · intro s hs a ha
    exact keepsOverlap_iff_recycles (S := strategyFromConfig config) hs.endsInPrev hover ha

section ManyWords

def smallConfig : ChunkConfig := ⟨40, 48, 1 / 10⟩

/-- The first chunk of `manyWords`. -/
def firstWords : Text := (List.replicate 47 ['a', ' ']).flatten ++ ['a']

def manyWordsChunks : List Text :=
  [firstWords, (List.replicate 15 ['a', ' ']).flatten ++ ['a']]

theorem turns_manyWords :
    (strategyFromConfig smallConfig).turn (normalise manyWords)
      ((strategyFromConfig smallConfig).start (normalise manyWords)) =
        .next ⟨96, firstWords, [firstWords]⟩ ∧
    (strategyFromConfig smallConfig).turn (normalise manyWords) ⟨96, firstWords, [firstWords]⟩ =
      .returned manyWordsChunks := by
  decide +kernel

/-- There is no marker near the overlap's start. -/
theorem keepsOverlap_firstWords : KeepsOverlap smallConfig.chunkOverlap firstWords := by
  have hsnap : overlapSnap smallConfig.chunkOverlap firstWords = none := by
    rfl
  refine ⟨by decide, ?_⟩
  rw [hsnap]
  intro snap hsnap
  cases hsnap

open ChunkAtBoundaryStrategy in
theorem overlapKept_manyWords :
    ∀ s, (strategyFromConfig smallConfig).AtHead (normalise manyWords) s →
      (strategyFromConfig smallConfig).OverlapKept (normalise manyWords) s := by
  intro s hs _ hchunks
  obtain rfl | ⟨t, hfirst, hrest⟩ := hs.cases_head
  · exact absurd rfl hchunks
  · rw [Next, turns_manyWords.1] at hfirst
    obtain rfl := ChunkTurn.next.inj hfirst
    obtain rfl | ⟨u, hnext, -⟩ := hrest.cases_head
    · exact keepsOverlap_firstWords
    · rw [Next, turns_manyWords.2] at hnext
      cases hnext

open ChunkAtBoundaryStrategy in
theorem overlap_shared_manyWords :
    (∃ a b, (strategyFromConfig smallConfig).chunkAtBoundaries manyWords 2 = some [a, b] ∧
      SharesWords a b) ∧
    (KeepsOverlap smallConfig.chunkOverlap firstWords ↔
      Words.split isSpace ((strategyFromConfig smallConfig).overlapText
          ⟨96, firstWords, [firstWords]⟩) ≠ [] ∧
        Words.split isSpace ((strategyFromConfig smallConfig).overlapText
          ⟨96, firstWords, [firstWords]⟩) <:+ Words.split isSpace firstWords) := by
  have hover : 0 < smallConfig.chunkOverlap := by norm_num [smallConfig]
  obtain ⟨hshared, hiff⟩ := overlap_shared hover manyWords
  constructor
  · have hrun : (strategyFromConfig smallConfig).chunkAtBoundaries manyWords 2 =
        some manyWordsChunks := by
      simp only [chunkAtBoundaries, loop, turns_manyWords]
    have hchain := hshared overlapKept_manyWords 2 manyWordsChunks hrun
    exact ⟨_, _, hrun, List.isChain_pair.mp hchain⟩
  · exact hiff ⟨96, firstWords, [firstWords]⟩ (.single turns_manyWords.1) firstWords rfl

end ManyWords

/-- A sentence of 400 words, the shorter ones at its end, and then 100 words more. -/
def oneSentence : Text :=
  (List.replicate 100 ['b', 'b', ' ']).flatten ++ (List.replicate 299 ['a', ' ']).flatten ++
    ['a', '.'] ++ (List.replicate 100 [' ', 'c']).flatten

def oneSentenceChunks : List Text :=
  [(List.replicate 100 ['b', 'b', ' ']).flatten ++ (List.replicate 299 ['a', ' ']).flatten ++
    ['a', '.'], (List.replicate 99 ['c', ' ']).flatten ++ ['c']]

theorem chunkAtBoundaries_oneSentence :
    (selectStrategy "body").chunkAtBoundaries oneSentence 2 = some oneSentenceChunks := by
  decide +kernel

/-- A body whose second chunk begins with a word that the first one does not have. -/
theorem sentence_end_drops_overlap :
    ¬ ∀ taskType ∈ chunkConfigs.keys, 0 < (selectStrategy taskType).overlap →
      ∀ text fuel chunks, (selectStrategy taskType).chunkAtBoundaries text fuel = some chunks →
        chunks.IsChain SharesWords := by
  intro h
  have hchain := h "body" (by decide) (by decide +kernel) oneSentence 2 oneSentenceChunks
    chunkAtBoundaries_oneSentence
  obtain ⟨w, hw, hmem⟩ := (List.isChain_pair.mp hchain).repeats
  have hfirst : (Words.split isSpace ((List.replicate 99 ['c', ' ']).flatten ++ ['c'])).head? =
      some ['c'] := by
    rfl
  rw [hfirst, Option.mem_some_iff] at hw
  subst hw
  revert hmem
  decide

end RagPipeline
