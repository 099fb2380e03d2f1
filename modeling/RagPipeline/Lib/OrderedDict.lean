import Mathlib.Data.List.Basic
import Mathlib.Data.List.Nodup
import Mathlib.Data.List.Induction

/-- A dictionary that keeps its keys in the order of their first insertion. -/
structure OrderedDict (κ ν : Type) where
  entries : List (κ × ν)
  nodup : (entries.map Prod.fst).Nodup

namespace OrderedDict

variable {κ ν ι : Type} [DecidableEq κ]

def lookupEntries (k : κ) : List (κ × ν) → Option ν
  | [] => none
  | (k', v) :: l => if k' = k then some v else lookupEntries k l

/-- Replaces the value under `k` where it stands, or appends a new entry. -/
def alterEntries (k : κ) (f : Option ν → ν) : List (κ × ν) → List (κ × ν)
  | [] => [(k, f none)]
  | (k', v) :: l => if k' = k then (k', f (some v)) :: l else (k', v) :: alterEntries k f l

theorem keys_alterEntries (k : κ) (f : Option ν → ν) (l : List (κ × ν)) :
    (alterEntries k f l).map Prod.fst =
      if k ∈ l.map Prod.fst then l.map Prod.fst else l.map Prod.fst ++ [k] := by
  induction l with
  | nil => rfl
  | cons p l ih =>
    obtain ⟨k', v⟩ := p
    by_cases h : k' = k
    · simp [alterEntries, h]
    · have h' : k ≠ k' := fun e => h e.symm
      simp only [alterEntries, h, if_false, List.map_cons, ih, List.mem_cons, h', false_or]
      split_ifs <;> rfl

def empty : OrderedDict κ ν := ⟨[], List.nodup_nil⟩

/-- `d[k] = f(d.get(k))`. -/
def alter (d : OrderedDict κ ν) (k : κ) (f : Option ν → ν) : OrderedDict κ ν where
  entries := alterEntries k f d.entries
  nodup := by
    rw [keys_alterEntries]
    split_ifs with h
    · exact d.nodup
    · exact List.Nodup.append d.nodup (List.nodup_singleton k) (by simpa using h)

def get? (d : OrderedDict κ ν) (k : κ) : Option ν := lookupEntries k d.entries

def set (d : OrderedDict κ ν) (k : κ) (v : ν) : OrderedDict κ ν := d.alter k fun _ => v

def keys (d : OrderedDict κ ν) : List κ := d.entries.map Prod.fst

def values (d : OrderedDict κ ν) : List ν := d.entries.map Prod.snd

/-- A dictionary display or comprehension: the last pair with a key gives its value. -/
def ofList (l : List (κ × ν)) : OrderedDict κ ν := l.foldl (fun d p => d.set p.1 p.2) empty

@[simp] theorem get?_empty (k : κ) : (empty : OrderedDict κ ν).get? k = none := rfl

omit [DecidableEq κ] in
@[simp] theorem keys_empty : (empty : OrderedDict κ ν).keys = [] := rfl

theorem lookupEntries_alterEntries (k k' : κ) (f : Option ν → ν) (l : List (κ × ν)) :
    lookupEntries k' (alterEntries k f l) =
      if k' = k then some (f (lookupEntries k l)) else lookupEntries k' l := by
  induction l with
  | nil =>
    by_cases h : k' = k
    · simp [alterEntries, lookupEntries, h]
    · simp [alterEntries, lookupEntries, h, Ne.symm h]
  | cons p l ih =>
    obtain ⟨a, v⟩ := p
    by_cases ha : a = k
    · by_cases h : k' = k
      · simp [alterEntries, lookupEntries, ha, h]
      · simp [alterEntries, lookupEntries, ha, h, Ne.symm h]
    · by_cases h : k' = k
      · subst h
        simpa [alterEntries, lookupEntries, ha] using ih
      · simp [alterEntries, lookupEntries, ha, h, ih]

theorem get?_alter (d : OrderedDict κ ν) (k k' : κ) (f : Option ν → ν) :
    (d.alter k f).get? k' = if k' = k then some (f (d.get? k)) else d.get? k' :=
  lookupEntries_alterEntries k k' f d.entries

theorem keys_alter (d : OrderedDict κ ν) (k : κ) (f : Option ν → ν) :
    (d.alter k f).keys = if k ∈ d.keys then d.keys else d.keys ++ [k] :=
  keys_alterEntries k f d.entries

theorem lookupEntries_eq_some {l : List (κ × ν)} (hl : (l.map Prod.fst).Nodup) {k : κ} {v : ν} :
    lookupEntries k l = some v ↔ (k, v) ∈ l := by
  induction l with
  | nil => simp [lookupEntries]
  | cons p l ih =>
    obtain ⟨a, u⟩ := p
    simp only [List.map_cons, List.nodup_cons] at hl
    by_cases h : a = k
    · subst h
      have hn : ∀ x, (a, x) ∉ l := fun x hx => hl.1 (List.mem_map.mpr ⟨(a, x), hx, rfl⟩)
      simp [lookupEntries, hn, eq_comm]
    · simp [lookupEntries, h, Ne.symm h, ih hl.2]

theorem get?_eq_some {d : OrderedDict κ ν} {k : κ} {v : ν} :
    d.get? k = some v ↔ (k, v) ∈ d.entries := lookupEntries_eq_some d.nodup

theorem get?_eq_none {d : OrderedDict κ ν} {k : κ} : d.get? k = none ↔ k ∉ d.keys := by
  rw [Option.eq_none_iff_forall_ne_some]
  simp only [ne_eq, get?_eq_some, keys, List.mem_map, not_exists, not_and]
  exact ⟨fun h p hp hk => h p.2 (by rw [← hk]; exact hp), fun h v hv => h (k, v) hv rfl⟩

/-! ## Building by a loop

A loop that touches one key for each item leaves under each key what the items of that key
made of it, in their order. -/

section Fold

variable (key : ι → κ) (upd : ι → Option ν → ν)

def foldItems (d : OrderedDict κ ν) (l : List ι) : OrderedDict κ ν :=
  l.foldl (fun d x => d.alter (key x) (upd x)) d

@[simp] theorem foldItems_nil (d : OrderedDict κ ν) : d.foldItems key upd [] = d := rfl

@[simp] theorem foldItems_cons (d : OrderedDict κ ν) (x : ι) (l : List ι) :
    d.foldItems key upd (x :: l) = (d.alter (key x) (upd x)).foldItems key upd l := rfl

theorem get?_foldItems (d : OrderedDict κ ν) (l : List ι) (k : κ) :
    (d.foldItems key upd l).get? k =
      (l.filter (key · = k)).foldl (fun o x => some (upd x o)) (d.get? k) := by
  induction l generalizing d with
  | nil => rfl
  | cons x l ih =>
    by_cases h : key x = k
    · simp [ih, get?_alter, h]
    · simp [ih, get?_alter, h, Ne.symm h]

theorem mem_keys_foldItems (d : OrderedDict κ ν) (l : List ι) (k : κ) :
    k ∈ (d.foldItems key upd l).keys ↔ k ∈ d.keys ∨ ∃ x ∈ l, key x = k := by
  induction l generalizing d with
  | nil => simp
  | cons x l ih =>
    have hk : k ∈ (d.alter (key x) (upd x)).keys ↔ k ∈ d.keys ∨ key x = k := by
      rw [keys_alter]
      split_ifs with h
      · exact ⟨Or.inl, fun e => e.elim id fun hx => hx ▸ h⟩
      · simp [eq_comm]
    simp [ih, hk, or_assoc]

section Listing

variable {β : Type} (list : κ → ν → List β) (item : ι → List β)

theorem flatMap_alterEntries_perm {k : κ} {f : Option ν → ν} {new : List β}
    (hf : ∀ o : Option ν, (list k (f o)).Perm ((o.map (list k)).getD [] ++ new))
    (l : List (κ × ν)) :
    ((alterEntries k f l).flatMap fun p => list p.1 p.2).Perm
      ((l.flatMap fun p => list p.1 p.2) ++ new) := by
  induction l with
  | nil => simpa [alterEntries] using hf none
  | cons p l ih =>
    obtain ⟨a, v⟩ := p
    by_cases ha : a = k
    · subst ha
      simp only [alterEntries, if_true, List.flatMap_cons, List.append_assoc]
      refine ((hf (some v)).append_right _).trans ?_
      rw [Option.map_some, Option.getD_some, List.append_assoc]
      exact List.perm_append_comm.append_left _
    · simp only [alterEntries, if_neg ha, List.flatMap_cons, List.append_assoc]
      exact ih.append_left _

/-- When every item adds what it stands for to its group, the groups together hold what all items
stand for. -/
theorem flatMap_foldItems_perm
    (hupd : ∀ x o, (list (key x) (upd x o)).Perm ((o.map (list (key x))).getD [] ++ item x))
    (d : OrderedDict κ ν) (l : List ι) :
    ((d.foldItems key upd l).entries.flatMap fun p => list p.1 p.2).Perm
      ((d.entries.flatMap fun p => list p.1 p.2) ++ l.flatMap item) := by
  -- item by item, the dictionary built so far being general
  induction l generalizing d with
  | nil => simp
  | cons x l ih =>
    rw [foldItems_cons, List.flatMap_cons, ← List.append_assoc]
    exact (ih _).trans ((flatMap_alterEntries_perm list (hupd x) d.entries).append_right _)

end Listing

end Fold

theorem mem_alterEntries {k : κ} {f : Option ν → ν} {l : List (κ × ν)} {p : κ × ν}
    (h : p ∈ alterEntries k f l) : p.1 = k ∨ p ∈ l := by
  induction l with
  | nil => exact .inl (by simpa [alterEntries] using congrArg Prod.fst (List.mem_singleton.mp h))
  | cons q l ih =>
    obtain ⟨a, v⟩ := q
    by_cases ha : a = k
    · simp only [alterEntries, ha, if_true, List.mem_cons] at h
      exact h.elim (fun e => .inl (by rw [e])) fun hm => .inr (List.mem_cons_of_mem _ hm)
    · simp only [alterEntries, ha, if_false, List.mem_cons] at h
      rcases h with rfl | h
      · exact .inr (List.mem_cons_self ..)
      · exact (ih h).imp id (List.mem_cons_of_mem _)

theorem alterEntries_of_notMem {k : κ} (f : Option ν → ν) {l : List (κ × ν)}
    (h : k ∉ l.map Prod.fst) : alterEntries k f l = l ++ [(k, f none)] := by
  induction l with
  | nil => rfl
  | cons q l ih =>
    simp only [List.map_cons, List.mem_cons, not_or] at h
    simp [alterEntries, Ne.symm h.1, ih h.2]

theorem ofList_eq_foldItems (l : List (κ × ν)) :
    ofList l = empty.foldItems Prod.fst (fun p _ => p.2) l := rfl

theorem mem_keys_ofList (l : List (κ × ν)) (k : κ) :
    k ∈ (ofList l).keys ↔ ∃ v, (k, v) ∈ l := by
  simp [ofList_eq_foldItems, mem_keys_foldItems]

theorem ofList_append_singleton (l : List (κ × ν)) (p : κ × ν) :
    ofList (l ++ [p]) = (ofList l).set p.1 p.2 := by
  simp [ofList, List.foldl_append]

theorem entries_ofList_subset (l : List (κ × ν)) : (ofList l).entries ⊆ l := by
  -- from the end: the last pair overwrites what stood under its key
  induction l using List.reverseRec with
  | nil => exact List.Subset.refl _
  | append_singleton l p ih =>
    intro q hq
    rw [ofList_append_singleton] at hq
    by_cases hk : q.1 = p.1
    · have hv : ((ofList l).set p.1 p.2).get? q.1 = some q.2 := get?_eq_some.mpr hq
      rw [set, get?_alter, if_pos hk] at hv
      exact List.mem_append_right _ (List.mem_singleton.mpr (Prod.ext hk (Option.some.inj hv).symm))
    · exact List.mem_append_left _ (ih ((mem_alterEntries hq).resolve_left hk))

/-- Without repeated keys the dictionary holds the pairs as they were given. -/
theorem entries_ofList {l : List (κ × ν)} (h : (l.map Prod.fst).Nodup) :
    (ofList l).entries = l := by
  induction l using List.reverseRec with
  | nil => rfl
  | append_singleton l p ih =>
    rw [List.map_append, List.map_singleton, List.nodup_append] at h
    have hp : p.1 ∉ l.map Prod.fst := fun hm => h.2.2 _ hm _ (List.mem_singleton_self _) rfl
    have hl := ih h.1
    rw [ofList_append_singleton]
    change alterEntries p.1 _ (ofList l).entries = _
    rw [hl, alterEntries_of_notMem _ hp]

theorem get?_ofList {l : List (κ × ν)} (h : (l.map Prod.fst).Nodup) {k : κ} {v : ν} :
    (ofList l).get? k = some v ↔ (k, v) ∈ l := by
  rw [get?_eq_some, entries_ofList h]

def erase (d : OrderedDict κ ν) (k : κ) : OrderedDict κ ν where
  entries := d.entries.filter fun p => p.1 ≠ k
  nodup := d.nodup.sublist (List.filter_sublist.map Prod.fst)

theorem get?_erase (d : OrderedDict κ ν) (k k' : κ) :
    (d.erase k).get? k' = if k' = k then none else d.get? k' := by
  apply Option.ext
  intro v
  rw [get?_eq_some, erase, List.mem_filter, decide_eq_true_eq]
  split_ifs with h
  · simp [h]
  · rw [get?_eq_some]
    exact and_iff_left h

variable (key : ν → κ)

def indexBy (l : List ν) : OrderedDict κ ν := ofList (l.map fun v => (key v, v))

theorem entries_indexBy {l : List ν} {p : κ × ν} (h : p ∈ (indexBy key l).entries) :
    p.2 ∈ l ∧ p.1 = key p.2 := by
  obtain ⟨v, hv, rfl⟩ := List.mem_map.mp (entries_ofList_subset _ h)
  exact ⟨hv, rfl⟩

theorem values_indexBy_subset (l : List ν) : (indexBy key l).values ⊆ l := by
  intro v hv
  obtain ⟨p, hp, rfl⟩ := List.mem_map.mp hv
  exact (entries_indexBy key hp).1

theorem nodup_values_indexBy (l : List ν) : ((indexBy key l).values.map key).Nodup := by
  have he : (indexBy key l).values.map key = (indexBy key l).keys := by
    rw [values, keys, List.map_map]
    exact List.map_congr_left fun p hp => (entries_indexBy key hp).2.symm
  rw [he]
  exact (indexBy key l).nodup

theorem exists_mem_values_indexBy {l : List ν} {v : ν} (h : v ∈ l) :
    ∃ u ∈ (indexBy key l).values, key u = key v := by
  have hk : key v ∈ (indexBy key l).keys :=
    (mem_keys_ofList _ _).mpr ⟨v, List.mem_map.mpr ⟨v, h, rfl⟩⟩
  obtain ⟨p, hp, hpk⟩ := List.mem_map.mp hk
  exact ⟨p.2, List.mem_map.mpr ⟨p, hp, rfl⟩, by rw [← (entries_indexBy key hp).2, hpk]⟩

theorem get?_indexBy {l : List ν} (h : (l.map key).Nodup) {k : κ} {v : ν} :
    (indexBy key l).get? k = some v ↔ v ∈ l ∧ key v = k := by
  rw [indexBy, get?_ofList (by simpa [List.map_map, Function.comp_def] using h), List.mem_map]
  constructor
  · rintro ⟨u, hu, e⟩
    obtain ⟨rfl, rfl⟩ := Prod.mk.inj e
    exact ⟨hu, rfl⟩
  · rintro ⟨hv, rfl⟩
    exact ⟨v, hv, rfl⟩

end OrderedDict
