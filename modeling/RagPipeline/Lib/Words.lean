import Mathlib.Data.List.TakeWhile
import Mathlib.Data.Nat.Notation

/-! The words of a list: its maximal runs of elements that are no separators. -/

namespace Words

variable {α : Type} (sp : α → Bool)

/-- The words from here on, after the reversed beginning of one. -/
def splitFrom (cur : List α) : List α → List (List α)
  | [] => if cur.isEmpty then [] else [cur.reverse]
  | c :: cs =>
    if sp c then if cur.isEmpty then splitFrom [] cs else cur.reverse :: splitFrom [] cs
    else splitFrom (c :: cur) cs

def split (l : List α) : List (List α) := splitFrom sp [] l

def count (l : List α) : ℕ := (split sp l).length

/-- The list without the separators at its ends. -/
def strip (l : List α) : List α := ((l.dropWhile sp).reverse.dropWhile sp).reverse

/-- How many words begin here, inside of a word or not. -/
def countFrom (inWord : Bool) : List α → ℕ
  | [] => 0
  | c :: cs =>
    if sp c then countFrom false cs
    else if inWord then countFrom true cs else countFrom true cs + 1

def endsInWord (inWord : Bool) : List α → Bool
  | [] => inWord
  | c :: cs => endsInWord (!sp c) cs

/-- Where the word after the next `n` begins, or the end of the list. -/
def startFrom (inWord : Bool) (n : ℕ) : List α → ℕ
  | [] => 0
  | c :: cs =>
    if sp c then startFrom false n cs + 1
    else if inWord then startFrom true n cs + 1
    else match n with
      | 0 => 0
      | n + 1 => startFrom true n cs + 1

/-- Where the word after the first `n` begins, or the end of the list. -/
def start (n : ℕ) (l : List α) : ℕ := startFrom sp false n l

variable {sp} {n k : ℕ} {b : Bool} {l r : List α} {s : α}

theorem length_splitFrom (cur l : List α) : (splitFrom sp cur l).length =
    countFrom sp (!cur.isEmpty) l + if cur.isEmpty then 0 else 1 := by
  induction l generalizing cur with
  | nil => cases cur <;> rfl
  | cons c cs ih =>
    by_cases hc : sp c = true
    · cases cur <;> simp [splitFrom, countFrom, hc, ih]
    · cases cur <;> simp [splitFrom, countFrom, hc, ih]

theorem count_eq (l : List α) : count sp l = countFrom sp false l := length_splitFrom [] l

theorem countFrom_append (l r : List α) : countFrom sp b (l ++ r) =
    countFrom sp b l + countFrom sp (endsInWord sp b l) r := by
  induction l generalizing b with
  | nil => simp [countFrom, endsInWord]
  | cons c cs ih =>
    by_cases hc : sp c = true
    · simp [countFrom, endsInWord, hc, ih]
    · cases b <;> simp [countFrom, endsInWord, hc, ih, Nat.add_right_comm]

theorem countFrom_le_length : countFrom sp b l ≤ l.length := by
  induction l generalizing b with
  | nil => exact Nat.zero_le _
  | cons c cs ih =>
    rw [countFrom, List.length_cons]
    split_ifs
    · exact Nat.le_succ_of_le ih
    · exact Nat.le_succ_of_le ih
    · exact Nat.succ_le_succ ih

theorem count_le_length (l : List α) : count sp l ≤ l.length := by
  rw [count_eq]
  exact countFrom_le_length

theorem endsInWord_concat (hs : sp s = true) : endsInWord sp b (l ++ [s]) = false := by
  induction l generalizing b with
  | nil => simp [endsInWord, hs]
  | cons c cs ih => exact ih

/-- No word goes on beyond a separator. -/
theorem count_append_of_sep (hs : sp s = true) :
    count sp (l ++ [s] ++ r) = count sp (l ++ [s]) + count sp r := by
  simp only [count_eq]
  rw [countFrom_append, endsInWord_concat hs]

theorem countFrom_false_le (l : List α) : countFrom sp false l ≤ countFrom sp true l + 1 := by
  cases l with
  | nil => exact Nat.zero_le _
  | cons c cs =>
    by_cases hc : sp c = true
    · simp [countFrom, hc]
    · simp [countFrom, hc]

theorem count_drop_le (k : ℕ) (l : List α) : count sp (l.drop k) ≤ count sp l := by
  simp only [count_eq]
  induction l generalizing k with
  | nil => rw [List.drop_nil]
  | cons c cs ih =>
    cases k with
    | zero => exact Nat.le_refl _
    | succ k =>
      have hcs : countFrom sp false cs ≤ countFrom sp false (c :: cs) := by
        by_cases hc : sp c = true
        · simp [countFrom, hc]
        · simpa [countFrom, hc] using countFrom_false_le cs
      exact (ih k).trans hcs

theorem splitFrom_seps_append (hl : ∀ c ∈ l, sp c = true) : splitFrom sp [] (l ++ r) =
    splitFrom sp [] r := by
  induction l with
  | nil => rfl
  | cons c cs ih =>
    obtain ⟨hc, hcs⟩ := List.forall_mem_cons.mp hl
    simp [splitFrom, hc, ih hcs]

theorem splitFrom_append_seps (cur l : List α) (hr : ∀ c ∈ r, sp c = true) :
    splitFrom sp cur (l ++ r) = splitFrom sp cur l := by
  induction l generalizing cur with
  | nil =>
    cases r with
    | nil => rfl
    | cons c cs =>
      obtain ⟨hc, hcs⟩ := List.forall_mem_cons.mp hr
      have hrest : splitFrom sp [] cs = [] := by
        have hnil := splitFrom_seps_append (r := []) hcs
        rwa [List.append_nil] at hnil
      cases cur <;> simp [splitFrom, hc, hrest]
  | cons c cs ih =>
    rw [List.cons_append, splitFrom, splitFrom, ih, ih]

variable (sp) in
theorem exists_splitFrom_append (cur l : List α) : ∃ ws cur',
    (cur' = [] ↔ endsInWord sp (!cur.isEmpty) l = false) ∧
      ∀ r, splitFrom sp cur (l ++ r) = ws ++ splitFrom sp cur' r := by
  induction l generalizing cur with
  | nil =>
    refine ⟨[], cur, ?_, fun r => rfl⟩
    cases cur <;> simp [endsInWord]
  | cons c cs ih =>
    by_cases hc : sp c = true
    · obtain ⟨ws, cur', hcur, hws⟩ := ih []
      have hends : endsInWord sp (!cur.isEmpty) (c :: cs) = endsInWord sp false cs := by
        rw [endsInWord, hc]
        rfl
      rw [hends]
      cases cur with
      | nil => exact ⟨ws, cur', hcur, fun r => by simp [splitFrom, hc, hws]⟩
      | cons d ds =>
        exact ⟨(d :: ds).reverse :: ws, cur', hcur, fun r => by simp [splitFrom, hc, hws]⟩
    · obtain ⟨ws, cur', hcur, hws⟩ := ih (c :: cur)
      refine ⟨ws, cur', ?_, fun r => by simp [splitFrom, hc, hws]⟩
      simpa [endsInWord, hc] using hcur

theorem split_append_of_ends (hl : endsInWord sp false l = false) :
    split sp (l ++ r) = split sp l ++ split sp r := by
  obtain ⟨ws, cur, hcur, hws⟩ := exists_splitFrom_append sp [] l
  obtain rfl := hcur.mpr hl
  have hnil := hws []
  rw [List.append_nil] at hnil
  rw [split, hws, split, hnil]
  simp [split, splitFrom]

theorem split_append_cons (hs : sp s = true) : split sp (l ++ s :: r) =
    split sp l ++ split sp r := by
  have hsplit := split_append_of_ends (l := l ++ [s]) (r := r) (endsInWord_concat hs)
  have hsep : split sp (l ++ [s]) = split sp l := splitFrom_append_seps [] l (by simpa using hs)
  rwa [List.append_assoc, List.singleton_append, hsep] at hsplit

theorem split_cons_sep (hs : sp s = true) : split sp (s :: r) = split sp r :=
  split_append_cons (l := []) hs

variable (sp) in
/-- A word that was begun goes on with the first word of the list. -/
theorem splitFrom_append_cur {cur : List α} (hcur : cur ≠ []) (cur' l : List α) :
    ∃ w ws, w ≠ [] ∧ splitFrom sp cur l = w :: ws ∧
      splitFrom sp (cur ++ cur') l = (cur'.reverse ++ w) :: ws := by
  induction l generalizing cur with
  | nil => exact ⟨cur.reverse, [], by simpa using hcur, by simp [splitFrom, hcur]⟩
  | cons c cs ih =>
    by_cases hc : sp c = true
    · exact ⟨cur.reverse, splitFrom sp [] cs, by simpa using hcur, by simp [splitFrom, hc, hcur]⟩
    · obtain ⟨w, ws, hw, hsplit, hsplit'⟩ := ih (List.cons_ne_nil c cur)
      refine ⟨w, ws, hw, ?_, ?_⟩
      · simpa [splitFrom, hc] using hsplit
      · simpa [splitFrom, hc] using hsplit'

/-- What follows in the middle of a word has no words that the whole list ends with. -/
theorem not_suffix_split {x : α} (hl : endsInWord sp false l = true) (hx : sp x = false) :
    ¬ split sp (x :: r) <:+ split sp (l ++ x :: r) := by
  obtain ⟨ws, cur, hcur, hws⟩ := exists_splitFrom_append sp [] l
  have hne : cur ≠ [] := by
    intro hnil
    have hend := hcur.mp hnil
    rw [List.isEmpty_nil, Bool.not_true, hl] at hend
    cases hend
  obtain ⟨w, rest, hw, hsplit, hjoined⟩ :=
    splitFrom_append_cur sp (List.cons_ne_nil x []) cur r
  have hfirst : split sp (x :: r) = w :: rest := by simpa [split, splitFrom, hx] using hsplit
  have hall : split sp (l ++ x :: r) = ws ++ (cur.reverse ++ w) :: rest := by
    rw [split, hws, ← hjoined]
    simp [splitFrom, hx]
  rw [hfirst, hall]
  intro hsuffix
  have htail : w :: rest <:+ (cur.reverse ++ w) :: rest :=
    List.suffix_of_suffix_length_le hsuffix (List.suffix_append _ _) (by simp)
  have heq := htail.eq_of_length (by simp)
  have hword := congrArg List.length (List.cons.inj heq).1
  have hlen : 0 < cur.length := List.length_pos_iff.mpr hne
  simp only [List.length_append, List.length_reverse] at hword
  omega

variable (sp) in
/-- The words from the `n`-th element on are the last ones of the list exactly if no word goes on
there. -/
theorem split_drop_suffix_iff (hn : n < l.length) : split sp (l.drop n) <:+ split sp l ↔
    endsInWord sp false (l.take n) = false ∨ ∀ x ∈ l[n]?, sp x = true := by
  have hdrop : l.drop n = l[n] :: l.drop (n + 1) := List.drop_eq_getElem_cons hn
  have hl : l.take n ++ l[n] :: l.drop (n + 1) = l := by rw [← hdrop, List.take_append_drop]
  have hget : (∀ x ∈ l[n]?, sp x = true) ↔ sp l[n] = true := by simp [hn]
  rw [hget, hdrop]
  by_cases hends : endsInWord sp false (l.take n) = false
  · refine iff_of_true ?_ (.inl hends)
    have hsplit := split_append_of_ends (r := l[n] :: l.drop (n + 1)) hends
    rw [hl] at hsplit
    exact ⟨_, hsplit.symm⟩
  · by_cases hsep : sp l[n] = true
    · refine iff_of_true ?_ (.inr hsep)
      have hsplit := split_append_cons (l := l.take n) (r := l.drop (n + 1)) hsep
      rw [hl] at hsplit
      rw [split_cons_sep hsep]
      exact ⟨_, hsplit.symm⟩
    · refine iff_of_false ?_ (by simp [hends, hsep])
      have hmid := not_suffix_split (r := l.drop (n + 1)) ((Bool.not_eq_false _).mp hends)
        ((Bool.not_eq_true _).mp hsep)
      rwa [hl] at hmid

theorem splitFrom_ne_nil_of_mem {w cur : List α} (hcur : ∀ c ∈ cur, sp c = false)
    (hw : w ∈ splitFrom sp cur l) : w ≠ [] ∧ ∀ c ∈ w, sp c = false := by
  induction l generalizing cur with
  | nil =>
    cases cur with
    | nil => cases hw
    | cons d ds =>
      obtain rfl := List.mem_singleton.mp hw
      exact ⟨by simp, fun c hc => hcur c (List.mem_reverse.mp hc)⟩
  | cons c cs ih =>
    by_cases hc : sp c = true
    · cases cur with
      | nil =>
        have hrest : w ∈ splitFrom sp [] cs := by simpa [splitFrom, hc] using hw
        exact ih (by simp) hrest
      | cons d ds =>
        rw [splitFrom, if_pos hc] at hw
        obtain rfl | hrest := List.mem_cons.mp hw
        · exact ⟨by simp, fun c hc => hcur c (List.mem_reverse.mp hc)⟩
        · exact ih (by simp) hrest
    · have hcur' : ∀ d ∈ c :: cur, sp d = false :=
        List.forall_mem_cons.mpr ⟨by simpa using hc, hcur⟩
      exact ih hcur' (by simpa [splitFrom, hc] using hw)

theorem word_of_mem_split {w : List α} (hw : w ∈ split sp l) : w ≠ [] ∧ ∀ c ∈ w, sp c = false :=
  splitFrom_ne_nil_of_mem (by simp) hw

theorem splitFrom_of_word (cur : List α) {w : List α} (hw : ∀ c ∈ w, sp c = false) :
    splitFrom sp cur w = splitFrom sp (w.reverse ++ cur) [] := by
  induction w generalizing cur with
  | nil => rfl
  | cons c cs ih =>
    obtain ⟨hc, hcs⟩ := List.forall_mem_cons.mp hw
    simp [splitFrom, hc, ih _ hcs]

theorem split_of_word {w : List α} (hne : w ≠ []) (hw : ∀ c ∈ w, sp c = false) :
    split sp w = [w] := by
  rw [split, splitFrom_of_word [] hw]
  simp [splitFrom, hne]

/-- Words that are joined by a separator come apart again. -/
theorem split_intercalate (hs : sp s = true) {ws : List (List α)}
    (hws : ∀ w ∈ ws, w ≠ [] ∧ ∀ c ∈ w, sp c = false) : split sp ([s].intercalate ws) = ws := by
  induction ws with
  | nil => rfl
  | cons w ws ih =>
    obtain ⟨⟨hne, hw⟩, hrest⟩ := List.forall_mem_cons.mp hws
    cases ws with
    | nil => simpa using split_of_word hne hw
    | cons v vs =>
      have hjoin : [s].intercalate (w :: v :: vs) = w ++ s :: [s].intercalate (v :: vs) := by
        simp [List.intercalate]
      rw [hjoin, split_append_cons hs, ih hrest, split_of_word hne hw]
      rfl

theorem split_eq_nil_iff : split sp l = [] ↔ ∀ c ∈ l, sp c = true := by
  constructor
  · intro h c hc
    by_contra hsep
    obtain ⟨a, b, rfl⟩ := List.append_of_mem hc
    obtain ⟨ws, cur, -, hws⟩ := exists_splitFrom_append sp [] a
    obtain ⟨w, rest, -, hword, -⟩ := splitFrom_append_cur sp (List.cons_ne_nil c cur) [] b
    rw [split, hws, splitFrom, if_neg hsep, hword] at h
    simp at h
  · intro h
    have hnil := splitFrom_seps_append (r := []) h
    rwa [List.append_nil] at hnil

variable (sp) in
theorem exists_strip_append (l : List α) : ∃ a b, a ++ strip sp l ++ b = l ∧
    (∀ c ∈ a, sp c = true) ∧ ∀ c ∈ b, sp c = true := by
  refine ⟨l.takeWhile sp, ((l.dropWhile sp).reverse.takeWhile sp).reverse, ?_, ?_, ?_⟩
  · rw [strip, List.append_assoc, ← List.reverse_append, List.takeWhile_append_dropWhile,
      List.reverse_reverse, List.takeWhile_append_dropWhile]
  · exact fun c hc => List.mem_takeWhile_imp hc
  · exact fun c hc => List.mem_takeWhile_imp (List.mem_reverse.mp hc)

theorem split_strip (l : List α) : split sp (strip sp l) = split sp l := by
  obtain ⟨a, b, hl, ha, hb⟩ := exists_strip_append sp l
  calc split sp (strip sp l)
      = splitFrom sp [] (a ++ strip sp l) := (splitFrom_seps_append ha).symm
    _ = split sp (a ++ strip sp l ++ b) := (splitFrom_append_seps [] _ hb).symm
    _ = split sp l := by rw [hl]

theorem count_strip (l : List α) : count sp (strip sp l) = count sp l :=
  congrArg List.length (split_strip l)

theorem head?_strip (l : List α) : ∀ c ∈ (strip sp l).head?, sp c = false := by
  intro c hc
  have hdrop : l.dropWhile sp =
      strip sp l ++ ((l.dropWhile sp).reverse.takeWhile sp).reverse := by
    rw [strip, ← List.reverse_append, List.takeWhile_append_dropWhile, List.reverse_reverse]
  have hhead : (l.dropWhile sp).head? = some c := by
    rw [hdrop, List.head?_append, Option.mem_def.mp hc, Option.some_or]
  have hnot := List.head?_dropWhile_not sp l
  rw [hhead] at hnot
  simpa using hnot

theorem getLast?_strip (l : List α) : ∀ c ∈ (strip sp l).getLast?, sp c = false := by
  intro c hc
  rw [strip, List.getLast?_reverse] at hc
  have hnot := List.head?_dropWhile_not sp (l.dropWhile sp).reverse
  rw [Option.mem_def] at hc
  rw [hc] at hnot
  simpa using hnot

theorem dropWhile_eq_self (h : ∀ c ∈ l.head?, sp c = false) : l.dropWhile sp = l := by
  cases l with
  | nil => rfl
  | cons c cs =>
    have hc := h c rfl
    rw [List.dropWhile_cons_of_neg (by simp [hc])]

/-- Only separators come off. -/
theorem strip_append_seps (hne : l ≠ []) (hhead : ∀ c ∈ l.head?, sp c = false)
    (hlast : ∀ c ∈ l.getLast?, sp c = false) (hr : ∀ c ∈ r, sp c = true) :
    strip sp (l ++ r) = l := by
  have hfront : (l ++ r).dropWhile sp = l ++ r := by
    apply dropWhile_eq_self
    cases l with
    | nil => exact absurd rfl hne
    | cons c cs => exact hhead
  have hback : l.reverse.dropWhile sp = l.reverse := by
    apply dropWhile_eq_self
    rwa [List.head?_reverse]
  have hseps : ∀ c ∈ r.reverse, sp c = true := fun c hc => hr c (List.mem_reverse.mp hc)
  rw [strip, hfront, List.reverse_append, List.dropWhile_append_of_pos hseps, hback,
    List.reverse_reverse]

theorem filter_strip (l : List α) :
    (strip sp l).filter (fun c => !sp c) = l.filter fun c => !sp c := by
  obtain ⟨a, b, hl, ha, hb⟩ := exists_strip_append sp l
  have hempty : ∀ {m : List α}, (∀ c ∈ m, sp c = true) → m.filter (fun c => !sp c) = [] := by
    intro m hm
    apply List.filter_eq_nil_iff.mpr
    intro c hc
    simp [hm c hc]
  calc (strip sp l).filter (fun c => !sp c)
      = (a ++ strip sp l ++ b).filter fun c => !sp c := by
        rw [List.filter_append, List.filter_append, hempty ha, hempty hb, List.nil_append,
          List.append_nil]
    _ = l.filter fun c => !sp c := by rw [hl]

theorem countFrom_take_le_iff (hk : k ≤ l.length) :
    countFrom sp b (l.take k) ≤ n ↔ k ≤ startFrom sp b n l := by
  induction l generalizing b n k with
  | nil =>
    obtain rfl := Nat.le_zero.mp hk
    simp [countFrom]
  | cons c cs ih =>
    cases k with
    | zero => simp [countFrom]
    | succ k =>
      have hk' : k ≤ cs.length := Nat.le_of_succ_le_succ hk
      rw [List.take_succ_cons]
      by_cases hc : sp c = true
      · simp [countFrom, startFrom, hc, ih hk']
      · cases b with
        | true => simp [countFrom, startFrom, hc, ih hk']
        | false =>
          cases n with
          | zero => simp [countFrom, startFrom, hc]
          | succ n => simp [countFrom, startFrom, hc, ih hk']

/-- A beginning of the list has at most `n` words if it ends before the next word begins. -/
theorem count_take_le_iff (k : ℕ) : count sp (l.take k) ≤ n ↔ min k l.length ≤ start sp n l := by
  have hmin : l.take k = l.take (min k l.length) := by simp
  rw [count_eq, hmin]
  exact countFrom_take_le_iff (Nat.min_le_right _ _)

end Words
