import Mathlib.Algebra.Order.Ring.Rat
import RagPipeline.Basics
import RagPipeline.Lib.Json
import RagPipeline.Lib.Words

namespace RagPipeline

/-- A `str`, as its characters. -/
abbrev Text := List Char

def markers : List Text := [['*', '*', '*'], ['-', '-', '-'], ['\n', '\n'], ['\n'], ['.']]

/-- `int(q)` of a number that stands for a float. -/
def pyInt (q : ℚ) : ℤ := q.num.tdiv q.den

def wordCount (text : Text) : ℕ := Words.count isSpace text

/-- `find_breaks`, from the `i`-th character on. -/
def findBreaks (marker : Text) (i : ℕ) : Text → List ℕ
  | [] => []
  | c :: cs =>
    if marker.isPrefixOf (c :: cs) then (i + marker.length) :: findBreaks marker (i + 1) cs
    else findBreaks marker (i + 1) cs

theorem findBreaks_append {c : Char} {marker front : Text} (h : c ∉ front) (i : ℕ) (l : Text) :
    findBreaks (c :: marker) i (front ++ l) = findBreaks (c :: marker) (i + front.length) l := by
  induction front generalizing i with
  | nil => rfl
  | cons d front ih =>
    obtain ⟨hd, hfront⟩ := not_or.mp (mt List.mem_cons.mpr h)
    have hmarker : (c :: marker).isPrefixOf (d :: (front ++ l)) = false := by
      simp [List.isPrefixOf, hd]
    rw [List.cons_append, findBreaks, hmarker, if_neg Bool.false_ne_true, ih hfront,
      List.length_cons, Nat.add_assoc, Nat.add_comm 1]

theorem findBreaks_of_notMem {c : Char} {marker l : Text} (h : c ∉ l) (i : ℕ) :
    findBreaks (c :: marker) i l = [] := by
  rw [← List.append_nil l]
  exact findBreaks_append h i []

/-- `min(candidates, key=lambda p: abs(p - target_char))`: the first one that is nearest. -/
def nearestOf (targetChar : ℤ) : List ℕ → Option ℕ
  | [] => none
  | p :: ps => some (ps.foldl (fun (best q : ℕ) =>
      if ((q : ℤ) - targetChar).natAbs < ((best : ℤ) - targetChar).natAbs then q else best) p)

theorem mem_of_nearestOf {target : ℤ} {l : List ℕ} {p : ℕ} (h : nearestOf target l = some p) :
    p ∈ l := by
  cases l with
  | nil => cases h
  | cons q l =>
    obtain rfl := Option.some.inj h
    induction l generalizing q with
    | nil => exact List.mem_singleton_self q
    | cons r l ih =>
      rw [List.foldl_cons]
      split_ifs
      · exact List.mem_cons_of_mem q (ih r rfl)
      · have hmem := ih q rfl
        rw [List.mem_cons] at hmem
        exact List.mem_cons.mpr (hmem.imp_right (List.mem_cons_of_mem r))

def nearestBreak (text : Text) (targetChar lo hi : ℤ) : List Text → Option ℤ
  | [] => none
  | marker :: rest =>
    match nearestOf targetChar ((findBreaks marker 0 text).filter fun p => lo ≤ p ∧ p ≤ hi) with
    | some p => some p
    | none => nearestBreak text targetChar lo hi rest

theorem mem_window_of_nearestBreak {l : Text} {target lo hi pos : ℤ} {ms : List Text}
    (h : nearestBreak l target lo hi ms = some pos) : lo ≤ pos ∧ pos ≤ hi := by
  induction ms with
  | nil => cases h
  | cons marker ms ih =>
    rw [nearestBreak] at h
    split at h
    next p hbest =>
      obtain rfl := Option.some.inj h
      have hmem := mem_of_nearestOf hbest
      simpa using (List.mem_filter.mp hmem).2
    next => exact ih h

theorem nearestBreak_of_notMem {c : Char} {marker l : Text} (h : c ∉ l) (target lo hi : ℤ)
    (rest : List Text) :
    nearestBreak l target lo hi ((c :: marker) :: rest) = nearestBreak l target lo hi rest := by
  rw [nearestBreak, findBreaks_of_notMem h]
  rfl

theorem nearestBreak_singleton {marker l : Text} {p : ℕ} (h : findBreaks marker 0 l = [p])
    {lo hi : ℤ} (hp : lo ≤ p ∧ p ≤ hi) (target : ℤ) (rest : List Text) :
    nearestBreak l target lo hi (marker :: rest) = some p := by
  rw [nearestBreak, h, List.filter_cons_of_pos (by simp [hp])]
  rfl

/-- The loop of `char_for_word_fraction`: how far it goes from here, inside of a word or not. -/
def charsToWordEnd (targetWord : ℤ) (inWord : Bool) (count : ℕ) : Text → ℕ
  | [] => 0
  | c :: cs =>
    if isSpace c then
      if inWord then
        if targetWord ≤ count + 1 then 0 else charsToWordEnd targetWord false (count + 1) cs + 1
      else charsToWordEnd targetWord false count cs + 1
    else charsToWordEnd targetWord true count cs + 1

theorem charsToWordEnd_append_word (n : ℤ) (inWord : Bool) (count : ℕ) {w : Text} (hne : w ≠ [])
    (hw : ∀ c ∈ w, isSpace c = false) (l : Text) :
    charsToWordEnd n inWord count (w ++ l) = w.length + charsToWordEnd n true count l := by
  induction w generalizing inWord with
  | nil => exact absurd rfl hne
  | cons c w ih =>
    rw [List.forall_mem_cons] at hw
    rw [List.cons_append, charsToWordEnd, hw.1, if_neg Bool.false_ne_true, List.length_cons]
    cases w with
    | nil =>
      rw [List.nil_append, List.length_nil]
      omega
    | cons d w =>
      rw [ih true (List.cons_ne_nil d w) hw.2]
      omega

def charForWordFraction (text : Text) (fraction : ℚ) : ℕ :=
  if fraction ≤ 0 then 0
  else if 1 ≤ fraction then text.length
  else charsToWordEnd (pyInt (wordCount text * fraction)) false 0 text

/-- `text.replace(pat, rep)`, after the next `skip` characters. -/
def replaceFrom (pat rep : Text) (skip : ℕ) : Text → Text
  | [] => []
  | c :: cs =>
    match skip with
    | skip + 1 => replaceFrom pat rep skip cs
    | 0 =>
      if pat.isPrefixOf (c :: cs) then rep ++ replaceFrom pat rep (pat.length - 1) cs
      else c :: replaceFrom pat rep 0 cs

/-- The literal escape sequences of raw text become the characters they stand for. -/
def normalise (text : Text) : Text :=
  let text := replaceFrom ['\\', 'n', '\\', 'n'] ['\n', '\n'] 0 text
  let text := replaceFrom ['\\', 'n'] ['\n'] 0 text
  replaceFrom ['\\', 'r'] ['\r'] 0 text

theorem replaceFrom_of_notMem {c : Char} {pat rep l : Text} (h : c ∉ l) :
    replaceFrom (c :: pat) rep 0 l = l := by
  induction l with
  | nil => rfl
  | cons d l ih =>
    obtain ⟨hd, hl⟩ := not_or.mp (mt List.mem_cons.mpr h)
    have hpat : (c :: pat).isPrefixOf (d :: l) = false := by simp [List.isPrefixOf, hd]
    rw [replaceFrom, hpat]
    simp [ih hl]

theorem normalise_of_notMem {text : Text} (h : '\\' ∉ text) : normalise text = text := by
  unfold normalise
  simp only [replaceFrom_of_notMem h]

structure ChunkAtBoundaryStrategy where
  target : ℤ
  chunkSizeTolerance : ℚ := 1 / 5
  hardLimit : ℕ
  overlap : ℚ
  startOffset : ℚ := 0

/-- The loop's variables: where the rest begins, the text of the previous chunk, the chunks. -/
structure ChunkState where
  cursor : ℤ
  prevChunkText : Text
  chunks : List Text
deriving DecidableEq

/-- What one turn of the loop comes to. -/
inductive ChunkTurn where
  | next (s : ChunkState)
  | returned (chunks : List Text)
  | indexError
deriving DecidableEq

def overlapPrefix (overlap : ℚ) (prev : Text) : Text :=
  if 0 < overlap ∧ prev ≠ [] then
    let targetStart : ℤ := charForWordFraction prev (1 - overlap)
    let slack := max 30 (pyInt (prev.length * (1 / 10)))
    let lo := max 0 (targetStart - slack)
    let hi := min (prev.length : ℤ) (targetStart + slack)
    match nearestBreak prev targetStart lo hi markers with
    | some snap => Words.strip isSpace (PyList.sliceFrom prev snap) ++ [' ']
    | none =>
      let prevWords := Words.split isSpace prev
      let overlapWordCount := max 1 (pyInt (prevWords.length * overlap))
      [' '].intercalate (PyList.sliceFrom prevWords (-overlapWordCount)) ++ [' ']
  else []

/-- `while end > cursor and text[end - 1] not in (" ", "\n")`, from `cursor + n` on. -/
def backToBlank (text : Text) (cursor : ℤ) : ℕ → Option ℕ
  | 0 => some 0
  | n + 1 =>
    match PyList.item? text (cursor + n) with
    | some c => if c = ' ' ∨ c = '\n' then some (n + 1) else backToBlank text cursor n
    | none => none

/-- `[chunk] if chunk else []`. -/
def keepChunk (chunk : Text) : List Text := if chunk = [] then [] else [chunk]

namespace ChunkAtBoundaryStrategy

variable (S : ChunkAtBoundaryStrategy) (text : Text) (s : ChunkState)

def remaining : Text := PyList.sliceFrom text s.cursor

def overlapText : Text := overlapPrefix S.overlap s.prevChunkText

def avgChars : ℚ := (remaining text s).length / (max (wordCount (remaining text s)) 1 : ℕ)

def effectiveTarget : ℤ := max 10 (S.target - wordCount (S.overlapText s))

/-- The words that a chunk may take from the rest of the text. -/
def wordsLeft : ℤ := S.hardLimit - wordCount (S.overlapText s)

def hardChars : ℤ := pyInt (S.wordsLeft s * avgChars text s)

def markerBreak : Option ℤ :=
  let targetChars := pyInt (S.effectiveTarget s * avgChars text s)
  let loChars := pyInt (S.effectiveTarget s * (1 - S.chunkSizeTolerance) * avgChars text s)
  let hiChars := pyInt
    (min (S.effectiveTarget s * (1 + S.chunkSizeTolerance)) (S.wordsLeft s) * avgChars text s)
  nearestBreak text (s.cursor + targetChars) (s.cursor + loChars)
    (s.cursor + min hiChars (remaining text s).length) markers

/-- The split at a word boundary; `none` is an IndexError. -/
def hardSplit : Option ℤ :=
  let stop := s.cursor + min (S.hardChars text s) (remaining text s).length
  let found :=
    if s.cursor < stop then
      (backToBlank text s.cursor (stop - s.cursor).toNat).map fun n => s.cursor + n
    else some stop
  found.map fun stop => if stop = s.cursor then s.cursor + S.hardChars text s else stop

def breakPos : Option ℤ := (S.markerBreak text s).or (S.hardSplit text s)

def FitsRest : Prop := wordCount (S.overlapText s ++ remaining text s) ≤ S.hardLimit

instance : Decidable (S.FitsRest text s) := inferInstanceAs (Decidable (_ ≤ _))

def turn : ChunkTurn :=
  if s.cursor < text.length then
    if S.FitsRest text s then
      .returned (s.chunks ++ keepChunk (Words.strip isSpace (S.overlapText s ++ remaining text s)))
    else
      match S.breakPos text s with
      | some pos =>
        let rawChunk := Words.strip isSpace (PyList.slice text s.cursor pos)
        .next {
          cursor := pos
          prevChunkText := rawChunk
          chunks := s.chunks ++ keepChunk (Words.strip isSpace (S.overlapText s ++ rawChunk)) }
      | none => .indexError
  else .returned s.chunks

/-- The loop; `none` where it raises or has no fuel left. -/
def loop : ℕ → ChunkState → Option (List Text)
  | 0, _ => none
  | fuel + 1, s =>
    match S.turn text s with
    | .next s' => loop fuel s'
    | .returned chunks => some chunks
    | .indexError => none

/-- Where the first chunk begins. -/
def startCursor : ℤ :=
  if 0 < S.startOffset then
    let offsetChar : ℤ := charForWordFraction text S.startOffset
    (nearestBreak text offsetChar offsetChar (min (offsetChar + 300) text.length)
      [['\n', '\n'], ['\n'], ['.']]).getD offsetChar
  else 0

def start : ChunkState := ⟨S.startCursor text, [], []⟩

def chunkAtBoundaries (fuel : ℕ) : Option (List Text) :=
  S.loop (normalise text) fuel (S.start (normalise text))

end ChunkAtBoundaryStrategy

structure ChunkConfig where
  targetWords : ℕ
  hardLimitWords : ℕ
  chunkOverlap : ℚ

/-- `CHUNK_CONFIGS`. -/
def chunkConfigs : OrderedDict String ChunkConfig where
  entries := [
    ("body", ⟨400, 480, 1 / 10⟩),
    ("title", ⟨400, 480, 0⟩),
    ("summary_title", ⟨18000, 32000, 0⟩),
    ("analysis", ⟨400, 512, 1 / 10⟩)]
  nodup := by decide

def defaultChunkConfig : ChunkConfig := ⟨500, 750, 1 / 10⟩

/-- `_strategy_from_config`. -/
def strategyFromConfig (config : ChunkConfig) : ChunkAtBoundaryStrategy where
  target := config.targetWords
  hardLimit := config.hardLimitWords
  overlap := config.chunkOverlap

/-- `_select_strategy`. -/
def selectStrategy (taskType : String) : ChunkAtBoundaryStrategy :=
  strategyFromConfig ((chunkConfigs.get? taskType).getD defaultChunkConfig)

end RagPipeline
