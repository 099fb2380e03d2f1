import RagPipeline.Handlers.Chunk
import RagPipeline.Lib.Separator
import RagPipeline.Utils.BlankText

namespace RagPipeline

def charTarget : ℕ := 2048

def charOverlap : ℕ := 256

def separators : List Text := [['\n', '\n'], ['\n'], ['.', ' '], [' ']]

/-- The loop's variables: the chunk that is being filled, and the chunks before it. -/
structure Packing where
  current : Text
  chunks : List Text

/-- The body of the loop over the parts; `again` is the recursive call. -/
def packPart (again : Text → List Text) (sep : Text) (s : Packing) (part : Text) : Packing :=
  let candidate :=
    if s.current = [] then part else (s.current ++ sep ++ part).dropWhile (· ∈ sep)
  if candidate.length ≤ charTarget then { s with current := candidate }
  else if charTarget < part.length then
    ⟨[], s.chunks ++ keepChunk s.current ++ again part⟩
  else ⟨part, s.chunks ++ keepChunk s.current⟩

def packParts (again : Text → List Text) (sep : Text) (parts : List Text) : List Text :=
  let s := parts.foldl (packPart again sep) ⟨[], []⟩
  s.chunks ++ keepChunk s.current

/-- Every window begins with the last characters of the one before. -/
def overlapFrom (window : Text) : List Text → List Text
  | [] => []
  | chunk :: chunks =>
    let next := window.drop (window.length - charOverlap) ++ chunk
    next :: overlapFrom next chunks

/-- `if not chunks: return [text]`, and otherwise the chunks with their overlaps. -/
def overlapped (text : Text) : List Text → List Text
  | [] => [text]
  | chunk :: chunks => chunk :: overlapFrom chunk chunks

/-- `[text[i: i + target] for i in range(0, len(text), target - overlap)]`. -/
def textSlices (text : Text) : List Text :=
  let step := charTarget - charOverlap
  (List.range ((text.length + (step - 1)) / step)).map fun i =>
    (text.drop (i * step)).take charTarget

/-- One call of `_split_text_fallback`. -/
def splitOnce (again : Text → List Text) (text : Text) : List Text :=
  if text.length ≤ charTarget then [text]
  else
    match separators.find? fun sep => (Separator.split sep text).length ≠ 1 with
    | some sep => overlapped text (packParts again sep (Separator.split sep text))
    | none => textSlices text

/-- The calls up to a depth. -/
def splitWithin : ℕ → Text → List Text
  | 0 => fun text => [text]
  | depth + 1 => splitOnce (splitWithin depth)

/-- `_split_text_fallback`: a part of a text is shorter, so its length is depth enough. -/
def splitTextFallback (text : Text) : List Text := splitWithin text.length text

section Recursion

variable {again again' : Text → List Text} {sep text : Text} {parts : List Text}

theorem sep_ne_nil_of_find? (h : (separators.find? fun sep =>
    (Separator.split sep text).length ≠ 1) = some sep) :
    sep ≠ [] ∧ (Separator.split sep text).length ≠ 1 := by
  have hne : ∀ sep ∈ separators, sep ≠ [] := by decide
  exact ⟨hne sep (List.mem_of_find?_eq_some h), by simpa using List.find?_some h⟩

theorem packParts_congr (h : ∀ part ∈ parts, again part = again' part) :
    packParts again sep parts = packParts again' sep parts := by
  have hfold : parts.foldl (packPart again sep) ⟨[], []⟩ =
      parts.foldl (packPart again' sep) ⟨[], []⟩ := by
    apply List.foldl_ext
    intro s part hpart
    rw [packPart, packPart, h part hpart]
  rw [packParts, packParts, hfold]

/-- A call looks at the recursive calls on shorter texts only. -/
theorem splitOnce_congr (h : ∀ part, part.length < text.length → again part = again' part) :
    splitOnce again text = splitOnce again' text := by
  unfold splitOnce
  split_ifs
  · rfl
  · split
    next sep hfind =>
      obtain ⟨hsep, hparts⟩ := sep_ne_nil_of_find? hfind
      rw [packParts_congr fun part hpart =>
        h part (Separator.length_lt_of_mem_split hsep hparts hpart)]
    next => rfl

theorem splitWithin_nil (n : ℕ) : splitWithin n [] = [[]] := by
  cases n <;> rfl

theorem splitWithin_eq {n m : ℕ} (hn : text.length ≤ n) (hm : text.length ≤ m) :
    splitWithin n text = splitWithin m text := by
  induction n generalizing m text with
  | zero =>
    rw [List.length_eq_zero_iff.mp (Nat.le_zero.mp hn), splitWithin_nil, splitWithin_nil]
  | succ n ih =>
    cases m with
    | zero =>
      rw [List.length_eq_zero_iff.mp (Nat.le_zero.mp hm), splitWithin_nil, splitWithin_nil]
    | succ m =>
      apply splitOnce_congr
      intro part hpart
      apply ih
      · omega
      · omega

/-- The depth never runs out. -/
theorem splitTextFallback_eq (text : Text) :
    splitTextFallback text = splitOnce splitTextFallback text := by
  have hdepth : splitTextFallback text = splitWithin (text.length + 1) text :=
    splitWithin_eq le_rfl (Nat.le_succ _)
  rw [hdepth]
  apply splitOnce_congr
  intro part hpart
  exact splitWithin_eq hpart.le le_rfl

end Recursion

section Windows

variable {again : Text → List Text} {sep text : Text} {parts : List Text}

/-- What was packed so far has no characters but those of the text. -/
structure Packing.Inside (s : Packing) (text : Text) : Prop where
  current : s.current ⊆ text
  chunks : ∀ c ∈ s.chunks, c ⊆ text

theorem Packing.Inside.keep {s : Packing} (h : s.Inside text) :
    ∀ c ∈ s.chunks ++ keepChunk s.current, c ⊆ text := by
  intro c hc
  rw [List.mem_append] at hc
  apply hc.elim
  · exact h.chunks c
  · intro hkeep
    rw [eq_of_mem_keepChunk hkeep]
    exact h.current

theorem Packing.Inside.packPart {s : Packing} {part : Text} (h : s.Inside text)
    (hsep : sep ⊆ text) (hpart : part ⊆ text) (hagain : ∀ w ∈ again part, w ⊆ part) :
    (packPart again sep s part).Inside text := by
  unfold RagPipeline.packPart
  dsimp only
  have hcandidate : (if s.current = [] then part
      else (s.current ++ sep ++ part).dropWhile (· ∈ sep)) ⊆ text := by
    split_ifs
    · exact hpart
    · have hall : s.current ++ sep ++ part ⊆ text :=
        List.append_subset.mpr ⟨List.append_subset.mpr ⟨h.current, hsep⟩, hpart⟩
      exact List.Subset.trans (List.dropWhile_suffix _).subset hall
  by_cases hfits : (if s.current = [] then part
      else (s.current ++ sep ++ part).dropWhile (· ∈ sep)).length ≤ charTarget
  · rw [if_pos hfits]
    exact ⟨hcandidate, h.chunks⟩
  · rw [if_neg hfits]
    split_ifs
    · refine ⟨List.nil_subset _, List.forall_mem_append.mpr ⟨h.keep, ?_⟩⟩
      intro w hw
      exact List.Subset.trans (hagain w hw) hpart
    · exact ⟨hpart, h.keep⟩

theorem packParts_subset (hsep : sep ⊆ text) (hparts : ∀ part ∈ parts, part ⊆ text)
    (hagain : ∀ part ∈ parts, ∀ w ∈ again part, w ⊆ part) :
    ∀ c ∈ packParts again sep parts, c ⊆ text := by
  have hfold : ∀ s : Packing, s.Inside text → (parts.foldl (packPart again sep) s).Inside text := by
    induction parts with
    | nil => exact fun s hs => hs
    | cons part rest ih =>
      intro s hs
      obtain ⟨hpart, hrest⟩ := List.forall_mem_cons.mp hparts
      obtain ⟨hhead, htail⟩ := List.forall_mem_cons.mp hagain
      exact ih hrest htail _ (hs.packPart hsep hpart hhead)
  exact (hfold ⟨[], []⟩ ⟨List.nil_subset _, by simp⟩).keep

theorem overlapFrom_subset {window : Text} {chunks : List Text} (hwindow : window ⊆ text)
    (hchunks : ∀ c ∈ chunks, c ⊆ text) : ∀ w ∈ overlapFrom window chunks, w ⊆ text := by
  induction chunks generalizing window with
  | nil => simp [overlapFrom]
  | cons chunk chunks ih =>
    obtain ⟨hchunk, hrest⟩ := List.forall_mem_cons.mp hchunks
    have hnext : window.drop (window.length - charOverlap) ++ chunk ⊆ text :=
      List.append_subset.mpr ⟨List.Subset.trans (List.drop_subset _ _) hwindow, hchunk⟩
    rw [overlapFrom]
    exact List.forall_mem_cons.mpr ⟨hnext, ih hnext hrest⟩

theorem overlapped_subset {chunks : List Text} (hchunks : ∀ c ∈ chunks, c ⊆ text) :
    ∀ w ∈ overlapped text chunks, w ⊆ text := by
  cases chunks with
  | nil => simp [overlapped]
  | cons chunk chunks =>
    obtain ⟨hchunk, hrest⟩ := List.forall_mem_cons.mp hchunks
    exact List.forall_mem_cons.mpr ⟨hchunk, overlapFrom_subset hchunk hrest⟩

theorem splitOnce_subset (hagain : ∀ part, part.length < text.length → ∀ w ∈ again part, w ⊆ part) :
    ∀ w ∈ splitOnce again text, w ⊆ text := by
  unfold splitOnce
  split_ifs
  · simp
  · split
    next sep hfind =>
      obtain ⟨hsep, hparts⟩ := sep_ne_nil_of_find? hfind
      apply overlapped_subset
      apply packParts_subset (Separator.sep_subset_of_length_ne_one hsep hparts)
      · exact fun part hpart => Separator.subset_of_mem_split hsep hpart
      · exact fun part hpart =>
          hagain part (Separator.length_lt_of_mem_split hsep hparts hpart)
    next =>
      intro w hw
      obtain ⟨i, -, hslice⟩ := List.mem_map.mp hw
      rw [← hslice]
      exact List.Subset.trans (List.take_subset _ _) (List.drop_subset _ _)

theorem splitTextFallback_subset (text : Text) : ∀ w ∈ splitTextFallback text, w ⊆ text := by
  induction hlen : text.length using Nat.strong_induction_on generalizing text with
  | h n ih =>
    rw [splitTextFallback_eq]
    apply splitOnce_subset
    intro part hpart
    exact ih _ (hlen ▸ hpart) part rfl

theorem splitTextFallback_of_short (h : text.length ≤ charTarget) :
    splitTextFallback text = [text] := by
  rw [splitTextFallback_eq, splitOnce, if_pos h]

theorem splitTextFallback_ne_nil (text : Text) : splitTextFallback text ≠ [] := by
  rw [splitTextFallback_eq, splitOnce]
  split_ifs with hlen
  · exact List.cons_ne_nil _ _
  · split
    next sep _ =>
      cases packParts splitTextFallback sep (Separator.split sep text) with
      | nil => exact List.cons_ne_nil _ _
      | cons chunk chunks => exact List.cons_ne_nil _ _
    next =>
      unfold textSlices charTarget charOverlap
      unfold charTarget at hlen
      have hcount : (text.length + (2048 - 256 - 1)) / (2048 - 256) ≠ 0 := by omega
      simpa using hcount

end Windows

/-- `none` where the boundary strategy raises or has no fuel left. -/
def chunkText (fuel : ℕ) (taskType : ChunkTaskType) (text : Text) : Option (List Text) :=
  ((selectStrategy taskType.key).chunkAtBoundaries text fuel).map fun windows =>
    if windows = [] then splitTextFallback text else windows

example : chunkText 1 .title [' ', ' ', ' '] = some [[' ', ' ', ' ']] := by decide +kernel

end RagPipeline
