import Mathlib.Data.List.Basic

/-! Regular expressions with anchors, by what they leave of a text. -/

inductive Regex (α : Type) where
  | start
  | stop (newline : α)
  | cls (p : α → Bool)
  | seq (r s : Regex α)
  | star (r : Regex α)

namespace Regex

variable {α : Type} {text l rest : List α} {r s : Regex α} {p q : α → Bool} {newline : α}

/-- The pattern leads from where `l` is left of the text to where `rest` is left. -/
inductive Reads (text : List α) : Regex α → List α → List α → Prop
  | start : Reads text .start text text
  | stop (newline : α) : Reads text (.stop newline) [] []
  | stopBefore (newline : α) : Reads text (.stop newline) [newline] [newline]
  | cls {p : α → Bool} {c : α} (l : List α) (h : p c = true) : Reads text (.cls p) (c :: l) l
  | seq {r s : Regex α} {l m rest : List α} :
      Reads text r l m → Reads text s m rest → Reads text (.seq r s) l rest
  | starNil (r : Regex α) (l : List α) : Reads text (.star r) l l
  | starCons {r : Regex α} {l m rest : List α} :
      Reads text r l m → Reads text (.star r) m rest → Reads text (.star r) l rest

/-- The pattern matches from the beginning of the text, up to anywhere. -/
def Match (r : Regex α) (text : List α) : Prop := ∃ rest, Reads text r text rest

def FullMatch (r : Regex α) (text : List α) : Prop := Reads text r text []

theorem reads_start : Reads text .start l rest ↔ l = text ∧ rest = text := by
  constructor
  · intro h
    cases h
    exact ⟨rfl, rfl⟩
  · intro h
    rw [h.1, h.2]
    exact .start

theorem reads_stop : Reads text (.stop newline) l rest ↔
    rest = l ∧ (l = [] ∨ l = [newline]) := by
  constructor
  · intro h
    cases h with
    | stop => exact ⟨rfl, .inl rfl⟩
    | stopBefore => exact ⟨rfl, .inr rfl⟩
  · intro h
    rw [h.1]
    apply h.2.elim
    · intro hl
      rw [hl]
      exact .stop newline
    · intro hl
      rw [hl]
      exact .stopBefore newline

theorem reads_cls : Reads text (.cls p) l rest ↔ ∃ c, l = c :: rest ∧ p c = true := by
  constructor
  · intro h
    cases h with
    | cls _ hc => exact ⟨_, rfl, hc⟩
  · intro h
    obtain ⟨c, hl, hc⟩ := h
    rw [hl]
    exact .cls rest hc

theorem reads_seq : Reads text (.seq r s) l rest ↔
    ∃ m, Reads text r l m ∧ Reads text s m rest := by
  constructor
  · intro h
    cases h with
    | seq hr hs => exact ⟨_, hr, hs⟩
  · intro h
    obtain ⟨m, hr, hs⟩ := h
    exact .seq hr hs

theorem append_of_reads_star (h : Reads text (.star (.cls p)) l rest) :
    ∃ cs, l = cs ++ rest ∧ ∀ c ∈ cs, p c = true := by
  generalize hr : Regex.star (.cls p) = r at h
  induction h with
  | starNil => exact ⟨[], rfl, by simp⟩
  | starCons hhead _ _ ih =>
    obtain rfl := Regex.star.inj hr
    obtain ⟨c, hl, hc⟩ := reads_cls.mp hhead
    obtain ⟨cs, hm, hcs⟩ := ih rfl
    refine ⟨c :: cs, ?_, List.forall_mem_cons.mpr ⟨hc, hcs⟩⟩
    rw [hl, hm, List.cons_append]
  | _ => cases hr

theorem reads_star_append {cs : List α} (hcs : ∀ c ∈ cs, p c = true) :
    Reads text (.star (.cls p)) (cs ++ rest) rest := by
  induction cs with
  | nil => exact .starNil _ _
  | cons c cs ih =>
    have hhead := List.forall_mem_cons.mp hcs
    exact .starCons (.cls _ hhead.1) (ih hhead.2)

/-- A repeated class reads any number of its characters. -/
theorem reads_star : Reads text (.star (.cls p)) l rest ↔
    ∃ cs, l = cs ++ rest ∧ ∀ c ∈ cs, p c = true := by
  constructor
  · exact append_of_reads_star
  · intro h
    obtain ⟨cs, hl, hcs⟩ := h
    rw [hl]
    exact reads_star_append hcs

/-- One character of a class and any number of another, from the start to the end. -/
def anchored (p q : α → Bool) (newline : α) : Regex α :=
  .seq .start (.seq (.cls p) (.seq (.star (.cls q)) (.stop newline)))

theorem reads_anchored : Reads text (anchored p q newline) text rest ↔
    ∃ c cs, text = c :: (cs ++ rest) ∧ p c = true ∧ (∀ d ∈ cs, q d = true) ∧
      (rest = [] ∨ rest = [newline]) := by
  simp only [anchored, reads_seq, reads_start, reads_cls, reads_star, reads_stop, true_and,
    exists_eq_left]
  constructor
  · intro h
    obtain ⟨l, ⟨c, htext, hc⟩, m, ⟨cs, hl, hcs⟩, hrest, hstop⟩ := h
    rw [← hrest] at hl hstop
    rw [hl] at htext
    exact ⟨c, cs, htext, hc, hcs, hstop⟩
  · intro h
    obtain ⟨c, cs, htext, hc, hcs, hstop⟩ := h
    exact ⟨cs ++ rest, ⟨c, htext, hc⟩, rest, ⟨cs, rfl, hcs⟩, rfl, hstop⟩

/-- The end anchor lets one line break after the word pass. -/
theorem match_anchored : Match (anchored p q newline) text ↔
    ∃ c cs, (text = c :: cs ∨ text = c :: cs ++ [newline]) ∧ p c = true ∧
      ∀ d ∈ cs, q d = true := by
  simp only [Match, reads_anchored]
  constructor
  · intro h
    obtain ⟨rest, c, cs, htext, hc, hcs, hstop⟩ := h
    refine ⟨c, cs, hstop.imp ?_ ?_, hc, hcs⟩
    · intro hrest
      rw [htext, hrest, List.append_nil]
    · intro hrest
      rw [htext, hrest, List.cons_append]
  · intro h
    obtain ⟨c, cs, htext, hc, hcs⟩ := h
    apply htext.elim
    · intro hword
      exact ⟨[], c, cs, by rw [hword, List.append_nil], hc, hcs, .inl rfl⟩
    · intro hline
      exact ⟨[newline], c, cs, by rw [hline, List.cons_append], hc, hcs, .inr rfl⟩

theorem fullMatch_anchored : FullMatch (anchored p q newline) text ↔
    ∃ c cs, text = c :: cs ∧ p c = true ∧ ∀ d ∈ cs, q d = true := by
  simp only [FullMatch, reads_anchored, List.append_nil, true_or, and_true]

end Regex
