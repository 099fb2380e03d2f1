import Mathlib.Data.List.Basic
import Mathlib.Data.Rat.Defs
import RagPipeline.Lib.FindSub
import RagPipeline.Lib.OrderedDict

/-! JSON values as Python reads them. Where Python raises, the reader here is `none`. -/

/-- What `json.loads` makes of a text; it takes `NaN` and the infinities too. -/
inductive Json where
  | null
  | bool (b : Bool)
  | int (n : ℤ)
  | float (q : ℚ)
  | nonFinite (name : String)
  | str (s : String)
  | arr (items : List Json)
  | obj (fields : List (String × Json))

namespace Json

/-- `v[key]` with a string. -/
def item? (v : Json) (key : String) : Option Json :=
  match v with
  | obj fields => (OrderedDict.ofList fields).get? key
  | _ => none

/-- `v.get(key)`, which only a dictionary has. -/
def get? (v : Json) (key : String) : Option (Option Json) :=
  match v with
  | obj fields => some ((OrderedDict.ofList fields).get? key)
  | _ => none

/-- `for x in v`: a string gives its characters and a dictionary its keys. -/
def iter? : Json → Option (List Json)
  | arr items => some items
  | obj fields => some ((OrderedDict.ofList fields).keys.map str)
  | str s => some (s.toList.map fun c => str c.toString)
  | _ => none

/-- What a list takes as an index; a `bool` is an `int`. -/
def index? : Json → Option ℤ
  | int n => some n
  | bool b => some (if b then 1 else 0)
  | _ => none

/-- `len(v)`. -/
def len? : Json → Option ℕ
  | arr items => some items.length
  | obj fields => some (OrderedDict.ofList fields).keys.length
  | str s => some s.length
  | _ => none

/-- `bool(v)`. -/
def truthy : Json → Bool
  | null => false
  | bool b => b
  | int n => n ≠ 0
  | float q => q ≠ 0
  | nonFinite _ => true
  | str s => s ≠ ""
  | arr items => !items.isEmpty
  | obj fields => !fields.isEmpty

/-- `d.get(v)` of a dictionary with strings for keys; lists and dictionaries cannot be hashed. -/
def lookup? {ν : Type} (d : OrderedDict String ν) : Json → Option (Option ν)
  | str s => some (d.get? s)
  | arr _ | obj _ => none
  | _ => some none

def ofOption {α : Type} (f : α → Json) : Option α → Json
  | some a => f a
  | none => null

def isNumber : Json → Bool
  | int _ | float _ | nonFinite _ => true
  | _ => false

def IsVector (v : Json) : Prop := ∃ xs, v = arr xs ∧ ∀ x ∈ xs, x.isNumber = true

def isStr (v : Json) (s : String) : Bool :=
  match v with
  | str t => t = s
  | _ => false

/-- `s in v`. -/
def contains? (v : Json) (s : String) : Option Bool :=
  match v with
  | arr items => some (items.any fun x => x.isStr s)
  | obj fields => some ((OrderedDict.ofList fields).get? s).isSome
  | str t => some (findSub s.toList t.toList).isSome
  | _ => none

end Json

namespace PyList

variable {α : Type}

/-- The item that an index of a list of length `n` stands for; negative ones count from the end. -/
def position? (n : ℕ) (i : ℤ) : Option ℕ :=
  if 0 ≤ i then if i < n then some i.toNat else none
  else if -n ≤ i then some (i + n).toNat else none

/-- The bound that an index of a slice stands for. -/
def bound (n : ℕ) (i : ℤ) : ℕ := min (if i < 0 then i + n else i).toNat n

/-- `l[i:j]`. -/
def slice (l : List α) (i j : ℤ) : List α := (l.take (bound l.length j)).drop (bound l.length i)

/-- `l[i:]`. -/
def sliceFrom (l : List α) (i : ℤ) : List α := l.drop (bound l.length i)

/-- `l[i]`. -/
def item? (l : List α) (i : ℤ) : Option α := (position? l.length i).bind fun k => l[k]?

/-- `l[i] = v`. -/
def setItem? (l : List α) (i : ℤ) (v : α) : Option (List α) :=
  (position? l.length i).map fun k => l.set k v

/-- `for i, v in rows: l[i] = v`. -/
def assign? (rows : List (ℤ × α)) (l : List α) : Option (List α) :=
  rows.foldlM (fun l r => setItem? l r.1 r.2) l

/-- The last value that is assigned to the item. -/
def lastAt (n : ℕ) (rows : List (ℤ × α)) (k : ℕ) : Option α :=
  (rows.reverse.find? fun r => position? n r.1 = some k).map Prod.snd

variable {n k : ℕ} {i : ℤ} {l out : List α} {v : α} {rows : List (ℤ × α)}

theorem position?_natCast (h : k < n) : position? n (k : ℤ) = some k := by
  simp [position?, h]

theorem sliceFrom_natCast (l : List α) (k : ℕ) : sliceFrom l k = l.drop k := by
  rw [sliceFrom, bound, if_neg (by omega), List.drop_eq_drop_iff]
  omega

theorem slice_zero_natCast (l : List α) (k : ℕ) : slice l 0 k = l.take k := by
  have hstop : bound l.length k = min k l.length := by
    rw [bound, if_neg (by omega)]
    rfl
  rw [slice, hstop, bound, if_neg (by omega), List.take_eq_take_min]
  simp

/-- `l[-i:]` is a part of the list's end, and has an item if the list has one. -/
theorem exists_sliceFrom_neg (hl : l ≠ []) (hi : 1 ≤ i) :
    ∃ k < l.length, sliceFrom l (-i) = l.drop k := by
  have hlen : 0 < l.length := List.length_pos_iff.mpr hl
  refine ⟨bound l.length (-i), ?_, rfl⟩
  rw [bound, if_pos (by omega)]
  omega

theorem setItem?_eq_some : setItem? l i v = some out ↔
    ∃ k, position? l.length i = some k ∧ out = l.set k v := by
  unfold setItem?
  cases position? l.length i <;> simp [eq_comm]

theorem assign?_concat (rows : List (ℤ × α)) (r : ℤ × α) (l : List α) :
    assign? (rows ++ [r]) l = (assign? rows l).bind fun out => setItem? out r.1 r.2 := by
  simp [assign?, List.foldlM_append]

theorem lastAt_concat (n : ℕ) (rows : List (ℤ × α)) (r : ℤ × α) (k : ℕ) :
    lastAt n (rows ++ [r]) k =
      if position? n r.1 = some k then some r.2 else lastAt n rows k := by
  unfold lastAt
  rw [List.reverse_append, List.reverse_singleton, List.singleton_append, List.find?_cons]
  split_ifs with h <;> simp [h]

theorem assign?_spec (h : assign? rows l = some out) : out.length = l.length ∧
    ∀ k < l.length, out[k]? = (lastAt l.length rows k <|> l[k]?) := by
  -- from the end: the last assignment decides
  induction rows using List.reverseRecOn generalizing out with
  | nil =>
    obtain rfl := Option.some.inj h
    exact ⟨rfl, fun k _ => rfl⟩
  | append_singleton rows r ih =>
    rw [assign?_concat] at h
    obtain ⟨mid, hmid, hset⟩ := Option.bind_eq_some_iff.mp h
    obtain ⟨hlen, hitems⟩ := ih hmid
    obtain ⟨j, hj, rfl⟩ := setItem?_eq_some.mp hset
    rw [hlen] at hj
    refine ⟨by rw [List.length_set, hlen], fun k hk => ?_⟩
    rw [lastAt_concat, hj, List.getElem?_set, hitems k hk]
    by_cases hjk : j = k
    · subst hjk
      simp [hlen, hk]
    · rw [if_neg hjk, if_neg (by simpa using hjk)]

/-- It raises exactly when some index is out of range. -/
theorem isSome_assign?_iff :
    (assign? rows l).isSome ↔ ∀ r ∈ rows, (position? l.length r.1).isSome := by
  induction rows using List.reverseRecOn with
  | nil => simp [assign?]
  | append_singleton rows r ih =>
    rw [assign?_concat, List.forall_mem_append, ← ih, List.forall_mem_singleton]
    cases h : assign? rows l with
    | none => simp
    | some mid =>
      rw [← (assign?_spec h).1]
      simp [setItem?]

theorem isSome_lastAt {r : ℤ × α} (hr : r ∈ rows) (h : position? n r.1 = some k) :
    (lastAt n rows k).isSome := by
  unfold lastAt
  rw [Option.isSome_map, List.find?_isSome]
  exact ⟨r, List.mem_reverse.mpr hr, by simp [h]⟩

def indexed (values : List α) : List (ℤ × α) := values.mapIdx fun i v => ((i : ℤ), v)

theorem mem_indexed {values : List α} {r : ℤ × α} :
    r ∈ indexed values ↔ ∃ (k : ℕ) (hk : k < values.length), ((k : ℤ), values[k]) = r :=
  List.mem_mapIdx

theorem lastAt_indexed {values : List α} (hk : k < values.length) :
    lastAt values.length (indexed values) k = some values[k] := by
  have hmem := mem_indexed.mpr ⟨k, hk, rfl⟩
  obtain ⟨v, hv⟩ := Option.isSome_iff_exists.mp (isSome_lastAt hmem (position?_natCast hk))
  rw [hv, Option.some_inj]
  -- only the row with the position `k` is assigned there
  obtain ⟨r, hr, rfl⟩ := Option.map_eq_some_iff.mp hv
  obtain ⟨j, hj, rfl⟩ := mem_indexed.mp (List.mem_reverse.mp (List.mem_of_find?_eq_some hr))
  have hpos := List.find?_some hr
  rw [position?_natCast hj] at hpos
  obtain rfl : j = k := by simpa using hpos
  rfl

theorem assign?_indexed {values : List α} (h : l.length = values.length) :
    assign? (indexed values) l = some values := by
  have hsome : (assign? (indexed values) l).isSome := by
    rw [isSome_assign?_iff, h]
    intro r hr
    obtain ⟨k, hk, rfl⟩ := mem_indexed.mp hr
    rw [position?_natCast hk]
    rfl
  obtain ⟨out, hout⟩ := Option.isSome_iff_exists.mp hsome
  obtain ⟨hlen, hitems⟩ := assign?_spec hout
  rw [h] at hlen hitems
  rw [hout, Option.some_inj]
  apply List.ext_getElem hlen
  intro k hk hk'
  rw [← Option.some_inj, ← List.getElem?_eq_getElem, hitems k hk', lastAt_indexed hk']
  rfl

end PyList
