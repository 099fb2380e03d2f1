import RagPipeline.Utils.ChunkOverlap
import RagPipeline.Utils.ChunkPartition

namespace RagPipeline

/-- At least one character that is no whitespace. -/
def HasText (text : Text) : Prop := ∃ c ∈ text, isSpace c = false

instance (text : Text) : Decidable (HasText text) := List.decidableBEx _ _

theorem not_hasText_iff {text : Text} : ¬ HasText text ↔ ∀ c ∈ text, isSpace c = true := by
  simp [HasText]

theorem letters_eq_nil_iff {text : Text} : letters text = [] ↔ ¬ HasText text := by
  rw [letters, List.filter_eq_nil_iff, not_hasText_iff]
  simp

theorem Trimmed.hasText {chunk : Text} (h : Trimmed chunk) : HasText chunk := by
  obtain ⟨c, cs, hchunk⟩ := List.exists_cons_of_ne_nil h.nonempty
  have hc : isSpace c = false := h.front c (by rw [hchunk]; rfl)
  exact ⟨c, by rw [hchunk]; exact List.mem_cons_self, hc⟩

theorem eq_of_mem_keepChunk {chunk c : Text} (h : c ∈ keepChunk chunk) : c = chunk := by
  unfold keepChunk at h
  split_ifs at h
  · cases h
  · exact List.mem_singleton.mp h

theorem hasText_of_mem_keepChunk {l c : Text} (h : c ∈ keepChunk (Words.strip isSpace l)) :
    HasText c := ((partitions_keepChunk l).trimmed c h).hasText

theorem keepChunk_strip_eq_nil {l : Text} :
    keepChunk (Words.strip isSpace l) = [] ↔ letters l = [] := by
  constructor
  · intro h
    have hletters := (partitions_keepChunk l).whole
    rw [h] at hletters
    exact hletters.symm
  · intro h
    apply List.eq_nil_iff_forall_not_mem.mpr
    intro c hc
    have htext := hasText_of_mem_keepChunk hc
    rw [eq_of_mem_keepChunk hc] at htext
    have hnone := letters_eq_nil_iff.mp ((letters_strip l).trans h)
    exact hnone htext

theorem strip_eq_nil {l : Text} (h : letters l = []) : Words.strip isSpace l = [] := by
  have hkeep := keepChunk_strip_eq_nil.mpr h
  unfold keepChunk at hkeep
  split_ifs at hkeep with hnil
  exact hnil

theorem wordCount_of_letters_eq_nil {l : Text} (h : letters l = []) : wordCount l = 0 := by
  have hspace := not_hasText_iff.mp (letters_eq_nil_iff.mp h)
  have hsplit : Words.split isSpace l = [] := by
    have happend := Words.splitFrom_seps_append (r := []) hspace
    rwa [List.append_nil] at happend
  rw [wordCount, Words.count, hsplit]
  rfl

/-- Whitespace, and backslashes before one of the letters. -/
inductive Escapes (E : Text) : Text → Prop
  | nil : Escapes E []
  | space {c : Char} {l : Text} : isSpace c = true → Escapes E l → Escapes E (c :: l)
  | escape {c : Char} {l : Text} : c ∈ E → Escapes E l → Escapes E ('\\' :: c :: l)

section Replace

variable {pat rep E E' l : Text} {c : Char}

theorem replaceFrom_skip (k : ℕ) (l : Text) :
    replaceFrom pat rep k l = replaceFrom pat rep 0 (l.drop k) := by
  induction l generalizing k with
  | nil => rw [List.drop_nil, replaceFrom, replaceFrom]
  | cons c cs ih =>
    cases k with
    | zero => rfl
    | succ k => exact ih k

theorem replaceFrom_append (hpat : pat ≠ []) (l : Text) :
    replaceFrom pat rep 0 (pat ++ l) = rep ++ replaceFrom pat rep 0 l := by
  obtain ⟨c, cs, hcs⟩ := List.exists_cons_of_ne_nil hpat
  have hprefix : pat.isPrefixOf (c :: (cs ++ l)) = true := by
    rw [hcs, List.isPrefixOf_iff_prefix]
    exact List.prefix_append _ _
  have hlen : pat.length - 1 = cs.length := by rw [hcs]; rfl
  have hcons : pat ++ l = c :: (cs ++ l) := by rw [hcs]; rfl
  rw [hcons, replaceFrom, if_pos hprefix, replaceFrom_skip, hlen, List.drop_left]

theorem replaceFrom_cons (h : ¬ pat <+: c :: l) :
    replaceFrom pat rep 0 (c :: l) = c :: replaceFrom pat rep 0 l := by
  rw [replaceFrom, if_neg (by rwa [List.isPrefixOf_iff_prefix])]

theorem isSpace_backslash : isSpace '\\' = false := by decide

theorem escapes_space_iff (hc : isSpace c = true) : Escapes E (c :: l) ↔ Escapes E l := by
  constructor
  · intro h
    cases h with
    | space _ hl => exact hl
    | escape _ _ => exact absurd hc (by decide)
  · exact .space hc

theorem escapes_escape_iff : Escapes E ('\\' :: c :: l) ↔ c ∈ E ∧ Escapes E l := by
  constructor
  · intro h
    cases h with
    | space hc _ => exact absurd hc (by decide)
    | escape hc hl => exact ⟨hc, hl⟩
  · intro h
    exact .escape h.1 h.2

theorem not_escapes_cons (hspace : ¬ isSpace c = true) (hc : c ≠ '\\') :
    ¬ Escapes E (c :: l) := by
  intro h
  cases h with
  | space hs _ => exact hspace hs
  | escape _ _ => exact hc rfl

theorem not_escapes_backslash : ¬ Escapes E ['\\'] := by
  intro h
  cases h with
  | space hc _ => exact absurd hc (by decide)

theorem escapes_nil_iff : Escapes [] l ↔ ¬ HasText l := by
  rw [not_hasText_iff]
  constructor
  · intro h
    induction h with
    | nil => simp
    | space hc _ ih => exact List.forall_mem_cons.mpr ⟨hc, ih⟩
    | escape hc _ _ => cases hc
  · intro h
    induction l with
    | nil => exact .nil
    | cons c cs ih =>
      obtain ⟨hc, hcs⟩ := List.forall_mem_cons.mp h
      exact .space hc (ih hcs)

/-- A replacement of escape sequences by whitespace, after which those of `E'` are left. -/
structure Unescaping (pat rep E E' : Text) : Prop where
  first : ∃ p, pat = '\\' :: p
  dropped : ∀ l, Escapes E (pat ++ l) ↔ Escapes E l
  added : ∀ l, Escapes E' (rep ++ l) ↔ Escapes E' l
  head : ∃ w r, rep = w :: r ∧ w ∉ E'
  kept : ∀ c l, ¬ pat <+: '\\' :: c :: l → (c ∈ E' ↔ c ∈ E)
  backslash : '\\' ∉ E

theorem Unescaping.escapes_iff (h : Unescaping pat rep E E') (l : Text) :
    Escapes E' (replaceFrom pat rep 0 l) ↔ Escapes E l := by
  obtain ⟨p, hp⟩ := h.first
  obtain ⟨w, r, hrep, hw⟩ := h.head
  have hpat : pat ≠ [] := by
    rw [hp]
    exact List.cons_ne_nil _ _
  induction hlen : l.length using Nat.strong_induction_on generalizing l with
  | h n ih =>
    by_cases hpre : pat <+: l
    · obtain ⟨rest, hrest⟩ := hpre
      have hshort : rest.length < n := by
        rw [← hlen, ← hrest, List.length_append]
        have hpos := List.length_pos_iff.mpr hpat
        omega
      rw [← hrest, replaceFrom_append hpat, h.added, h.dropped]
      exact ih _ hshort rest rfl
    · cases l with
      | nil => exact iff_of_true .nil .nil
      | cons c cs =>
        rw [List.length_cons] at hlen
        rw [replaceFrom_cons hpre]
        by_cases hspace : isSpace c = true
        · rw [escapes_space_iff hspace, escapes_space_iff hspace]
          exact ih _ (by omega) cs rfl
        · by_cases hc : c = '\\'
          · rw [hc]
            rw [hc] at hpre
            cases cs with
            | nil => exact iff_of_false not_escapes_backslash not_escapes_backslash
            | cons d ds =>
              rw [List.length_cons] at hlen
              by_cases hnext : pat <+: d :: ds
              · -- a backslash before an escape sequence stands for itself
                obtain ⟨rest, hrest⟩ := hnext
                have hd : d = '\\' := by
                  rw [hp] at hrest
                  exact (List.cons.inj hrest).1.symm
                rw [← hrest, replaceFrom_append hpat, hrest, hrep, List.cons_append,
                  escapes_escape_iff, escapes_escape_iff, hd]
                exact iff_of_false (fun hr => hw hr.1) fun hl => h.backslash hl.1
              · have hrest : Escapes E' (replaceFrom pat rep 0 ds) ↔ Escapes E ds :=
                  ih ds.length (by omega) ds rfl
                rw [replaceFrom_cons hnext, escapes_escape_iff, escapes_escape_iff,
                  h.kept d ds hpre, hrest]
          · exact iff_of_false (not_escapes_cons hspace hc) (not_escapes_cons hspace hc)

theorem unescaping_pairs :
    Unescaping ['\\', 'n', '\\', 'n'] ['\n', '\n'] ['n', 'r'] ['n', 'r'] where
  first := ⟨_, rfl⟩
  dropped l := by simp [escapes_escape_iff]
  added l := by simp [escapes_space_iff, isSpace]
  head := ⟨_, _, rfl, by decide⟩
  kept c l _ := Iff.rfl
  backslash := by decide

theorem unescaping_newline : Unescaping ['\\', 'n'] ['\n'] ['n', 'r'] ['r'] where
  first := ⟨_, rfl⟩
  dropped l := by simp [escapes_escape_iff]
  added l := by simp [escapes_space_iff, isSpace]
  head := ⟨_, _, rfl, by decide⟩
  kept c l h := by
    have hc : c ≠ 'n' := by
      intro hn
      apply h
      rw [hn]
      exact List.prefix_append ['\\', 'n'] l
    simp [hc]
  backslash := by decide

theorem unescaping_return : Unescaping ['\\', 'r'] ['\r'] ['r'] [] where
  first := ⟨_, rfl⟩
  dropped l := by simp [escapes_escape_iff]
  added l := by simp [escapes_space_iff, isSpace]
  head := ⟨_, _, rfl, by decide⟩
  kept c l h := by
    have hc : c ≠ 'r' := by
      intro hr
      apply h
      rw [hr]
      exact List.prefix_append ['\\', 'r'] l
    simp [hc]
  backslash := by decide

/-- A text is without letters after its normalisation if it is made of whitespace and of the escape
sequences of line breaks. -/
theorem hasText_normalise_iff (text : Text) :
    ¬ HasText (normalise text) ↔ Escapes ['n', 'r'] text := by
  unfold normalise
  rw [← escapes_nil_iff, unescaping_return.escapes_iff, unescaping_newline.escapes_iff,
    unescaping_pairs.escapes_iff]

end Replace
namespace ChunkAtBoundaryStrategy

variable {S : ChunkAtBoundaryStrategy} {text : Text} {s : ChunkState} {fuel : ℕ}
  {chunks : List Text}

theorem hasText_of_mem_added : ∀ c ∈ S.added text s, HasText c := by
  intro c hc
  cases hturn : S.turn text s with
  | next s' =>
    rw [(added_of_next hturn).2] at hc
    exact hasText_of_mem_keepChunk hc
  | returned chunks =>
    apply (added_of_returned hturn).2.elim
    · intro hnil
      rw [hnil] at hc
      cases hc
    · intro hkeep
      obtain ⟨l, hl⟩ := hkeep
      rw [hl] at hc
      exact hasText_of_mem_keepChunk hc
  | indexError =>
    rw [added, hturn] at hc
    cases hc

theorem loop_hasText (hs : ∀ c ∈ s.chunks, HasText c) (h : S.loop text fuel s = some chunks) :
    ∀ c ∈ chunks, HasText c := by
  induction fuel generalizing s with
  | zero => cases h
  | succ fuel ih =>
    apply (loop_cases h).elim
    · intro hturn
      rw [(added_of_returned hturn).1]
      exact List.forall_mem_append.mpr ⟨hs, hasText_of_mem_added⟩
    · intro hnext
      obtain ⟨s', hnext, hloop⟩ := hnext
      refine ih ?_ hloop
      rw [(added_of_next hnext).1]
      exact List.forall_mem_append.mpr ⟨hs, hasText_of_mem_added⟩

structure Unfilled (text : Text) (s : ChunkState) : Prop where
  prev : s.prevChunkText = []
  cursor : 0 ≤ s.cursor
  letters : letters (text.take s.cursor.toNat) = []

theorem Unfilled.next {s' : ChunkState} (hs : Unfilled text s) (htol : S.chunkSizeTolerance ≤ 1)
    (h : S.Next text s s') (hadded : S.added text s = []) : Unfilled text s' := by
  have hoverlap : S.overlapText s = [] := overlapText_of_nil hs.prev
  rw [(added_of_next h).2, hoverlap, List.nil_append, keepChunk_strip_eq_nil] at hadded
  obtain ⟨hlen, -, pos, hpos, hnext⟩ := next_iff.mp h
  have hwords : wordCount (S.overlapText s) ≤ S.hardLimit := by
    rw [hoverlap]
    exact Nat.zero_le _
  obtain ⟨m, hm, -⟩ := breakPos_eq text hs.cursor htol hwords
  have hcut : pos = s.cursor + m := Option.some.inj (hpos.symm.trans hm)
  rw [hcut, slice_eq hs.cursor hlen] at hnext
  have hprev : s'.prevChunkText = Words.strip isSpace ((remaining text s).take m) := by rw [hnext]
  have hcursor : s'.cursor = s.cursor + m := by rw [hnext]
  rw [hprev, letters_strip] at hadded
  have htake : s'.cursor.toNat = s.cursor.toNat + m := by
    have h0 := hs.cursor
    omega
  refine ⟨by rw [hprev, strip_eq_nil hadded], ?_, ?_⟩
  · have h0 := hs.cursor
    omega
  · rw [remaining_eq hs.cursor] at hadded
    rw [htake, List.take_add, letters_append, hs.letters, hadded]
    rfl

theorem letters_of_loop_eq_nil (htol : S.chunkSizeTolerance ≤ 1) (hs : Unfilled text s)
    (h : S.loop text fuel s = some []) : letters text = [] := by
  induction fuel generalizing s with
  | zero => cases h
  | succ fuel ih =>
    apply (loop_cases h).elim
    · intro hturn
      apply (returned_cases hturn).elim
      · intro hlast
        have hnone := (List.append_eq_nil_iff.mp hlast.2.symm).2
        rw [overlapText_of_nil hs.prev, List.nil_append, keepChunk_strip_eq_nil,
          remaining_eq hs.cursor] at hnone
        rw [← List.take_append_drop s.cursor.toNat text, letters_append, hs.letters, hnone]
        rfl
      · intro hdone
        have hlen := hdone.1
        have hall : text.take s.cursor.toNat = text := List.take_of_length_le (by omega)
        have hletters := hs.letters
        rwa [hall] at hletters
    · intro hnext
      obtain ⟨s', hnext, hloop⟩ := hnext
      have hempty : s'.chunks = [] := List.subset_nil.mp (chunks_subset_loop hloop)
      rw [(added_of_next hnext).1] at hempty
      exact ih (hs.next htol hnext (List.append_eq_nil_iff.mp hempty).2) hloop

theorem loop_of_letters_eq_nil (htext : letters text = []) (hs : Unfilled text s)
    (hchunks : s.chunks = []) : S.loop text (fuel + 1) s = some [] := by
  have hturn : S.turn text s = .returned [] := by
    have hremaining : letters (remaining text s) = [] := by
      have hsplit := letters_append (text.take s.cursor.toNat) (text.drop s.cursor.toNat)
      rw [List.take_append_drop, htext] at hsplit
      rw [remaining_eq hs.cursor]
      exact (List.append_eq_nil_iff.mp hsplit.symm).2
    have hoverlap : S.overlapText s = [] := overlapText_of_nil hs.prev
    have hfits : S.FitsRest text s := by
      rw [FitsRest, hoverlap, List.nil_append, wordCount_of_letters_eq_nil hremaining]
      exact Nat.zero_le _
    rw [turn, if_pos hfits, hchunks, hoverlap, List.nil_append, List.nil_append,
      keepChunk_strip_eq_nil.mpr hremaining]
    split_ifs <;> rfl
  rw [loop, hturn]

theorem unfilled_start (hoffset : S.startOffset = 0) : Unfilled text (S.start text) := by
  have hcursor : (S.start text).cursor = 0 := cursor_start hoffset
  refine ⟨rfl, hcursor.ge, ?_⟩
  rw [hcursor]
  rfl

theorem chunkAtBoundaries_eq_nil_iff (htol : S.chunkSizeTolerance ≤ 1)
    (hoffset : S.startOffset = 0) :
    S.chunkAtBoundaries text fuel = some [] ↔ fuel ≠ 0 ∧ ¬ HasText (normalise text) := by
  rw [← letters_eq_nil_iff]
  constructor
  · intro h
    refine ⟨?_, letters_of_loop_eq_nil htol (unfilled_start hoffset) h⟩
    rintro rfl
    cases h
  · intro h
    obtain ⟨hfuel, htext⟩ := h
    obtain ⟨n, rfl⟩ := Nat.exists_eq_succ_of_ne_zero hfuel
    exact loop_of_letters_eq_nil htext (unfilled_start hoffset) rfl

theorem chunkAtBoundaries_hasText (h : S.chunkAtBoundaries text fuel = some chunks) :
    ∀ c ∈ chunks, HasText c := by
  apply loop_hasText _ h
  intro c hc
  cases hc

end ChunkAtBoundaryStrategy
end RagPipeline
