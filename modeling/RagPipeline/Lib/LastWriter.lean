import Mathlib.Order.Lattice
import RagPipeline.Lib.Crash
import RagPipeline.Lib.Interleave

/-! A register whose writes only take effect on an older value, and clients that look before they
write. -/

namespace LastWriter
open Coro Interleave

variable {V T : Type} [LinearOrder T] (stamp : V → T)

def write (r : Option V) (v : V) : Option V :=
  match r with
  | none => some v
  | some old => if stamp old < stamp v then some v else some old

/-- The register holds something at least as new as `v`. -/
def Covers (r : Option V) (v : V) : Prop := ∃ u ∈ r, stamp v ≤ stamp u

/-- Nothing in the register is as new as `v`. -/
def Newer (r : Option V) (v : V) : Prop := ∀ u ∈ r, stamp u < stamp v

/-- `t` covers what `r` holds. -/
def NotOlder (r t : Option V) : Prop := ∀ u ∈ r, Covers stamp t u

variable {stamp} {r r' t : Option V} {v : V}

theorem not_newer_iff : ¬ Newer stamp r v ↔ Covers stamp r v := by
  simp only [Newer, Covers, not_forall, not_lt, exists_prop]

theorem notOlder_refl (r : Option V) : NotOlder stamp r r := fun u hu => ⟨u, hu, le_refl _⟩

theorem Covers.mono (h : Covers stamp r v) (ht : NotOlder stamp r t) : Covers stamp t v := by
  obtain ⟨u, hu, hle⟩ := h
  obtain ⟨u', hu', hle'⟩ := ht u hu
  exact ⟨u', hu', le_trans hle hle'⟩

theorem NotOlder.trans (h : NotOlder stamp r r') (h' : NotOlder stamp r' t) :
    NotOlder stamp r t := fun u hu => (h u hu).mono h'

theorem write_of_newer (h : Newer stamp r v) : write stamp r v = some v := by
  cases r with
  | none => rfl
  | some old => exact if_pos (h old rfl)

theorem write_of_covers (h : Covers stamp r v) : write stamp r v = r := by
  obtain ⟨u, rfl, hle⟩ := h
  exact if_neg (not_lt.mpr hle)

theorem covers_write (r : Option V) (v : V) : Covers stamp (write stamp r v) v := by
  by_cases h : Newer stamp r v
  · rw [write_of_newer h]
    exact ⟨v, rfl, le_refl _⟩
  · rw [not_newer_iff] at h
    rwa [write_of_covers h]

theorem notOlder_write (r : Option V) (v : V) : NotOlder stamp r (write stamp r v) := by
  by_cases h : Newer stamp r v
  · rw [write_of_newer h]
    exact fun u hu => ⟨v, rfl, le_of_lt (h u hu)⟩
  · rw [write_of_covers (not_newer_iff.mp h)]
    exact notOlder_refl r

variable {ι : Type}

/-- The first value, or one of the values that are newer than it. -/
def From (stamp : V → T) (values : ι → V) (r₀ r : Option V) : Prop :=
  r = r₀ ∨ ∃ i, r = some (values i) ∧ Newer stamp r₀ (values i)

variable {values : ι → V} {r₀ : Option V}

theorem From.write (h : From stamp values r₀ r) (i : ι) :
    From stamp values r₀ (write stamp r (values i)) := by
  by_cases hn : Newer stamp r (values i)
  · rw [write_of_newer hn]
    refine .inr ⟨i, rfl, ?_⟩
    obtain rfl | ⟨j, rfl, hj⟩ := h
    · exact hn
    · exact fun u hu => lt_trans (hj u hu) (hn _ rfl)
  · rwa [write_of_covers (not_newer_iff.mp hn)]

theorem From.eq_first (h : From stamp values r₀ r) (hold : ∀ i, ¬ Newer stamp r₀ (values i)) :
    r = r₀ := by
  obtain h | ⟨i, -, hi⟩ := h
  · exact h
  · exact absurd hi (hold i)

theorem From.newest (h : From stamp values r₀ r) (hall : ∀ i, Covers stamp r (values i))
    (hnew : ∃ i, Newer stamp r₀ (values i)) :
    ∃ i, r = some (values i) ∧ ∀ j, stamp (values j) ≤ stamp (values i) := by
  obtain rfl | ⟨i, rfl, -⟩ := h
  · obtain ⟨i, hi⟩ := hnew
    exact absurd hi (not_newer_iff.mpr (hall i))
  · refine ⟨i, rfl, fun j => ?_⟩
    obtain ⟨u, hu, hle⟩ := hall j
    rwa [← Option.mem_some_iff.mp hu] at hle

section Clients

variable {Op : Type} {Ans : Op → Type} {ε α σ : Type}
variable (stamp) (w : World Op Ans ε σ) (row : σ → Option V)

def Writes (v : V) (p : Coro Op Ans ε α) : Prop :=
  ∀ s, (∃ a, (next w (p, s)).1 = ret a) ∧ row (next w (p, s)).2 = write stamp (row s) v

/-- The client's next await is its look: it raises, or returns since what it saw covers its value,
or goes on to its write. -/
def Looks (v : V) (p : Coro Op Ans ε α) : Prop :=
  ∀ s, row (next w (p, s)).2 = row s ∧
    ((∃ e, (next w (p, s)).1 = raise e) ∨
      (∃ a, (next w (p, s)).1 = ret a ∧ Covers stamp (row s) v) ∨
      Writes stamp w row v (next w (p, s)).1)

/-- A client whose look answers with something that a check then takes for as new as its value only
when it is. -/
theorem looks_of_check {read wr : Op} {check : Ans read → Except ε Bool} {skip done : Ans read → α}
    {v : V}
    (hread : ∀ s, ∃ seen, w read s = (.ok seen, s) ∧
      (check seen = .ok true → Covers stamp (row s) v))
    (hwrite : ∀ s, ∃ u t, w wr s = (.ok u, t) ∧ row t = write stamp (row s) v) :
    Looks stamp w row v (call read >>= fun seen => Coro.ofExcept (check seen) >>= fun b =>
      if b = true then ret (skip seen) else call wr >>= fun _ => ret (done seen)) := by
  intro s
  obtain ⟨seen, hr, hcheck⟩ := hread s
  rw [next_call_bind, hr]
  refine ⟨rfl, ?_⟩
  cases hc : check seen with
  | error e => exact .inl ⟨e, by simp [hc]⟩
  | ok b =>
    by_cases hb : b = true
    · exact .inr (.inl ⟨skip seen, by simp [hc, hb], hcheck (by rw [hc, hb])⟩)
    · refine .inr (.inr ?_)
      simp only [hc, ofExcept_ok, ret_bind, if_neg hb]
      intro s'
      obtain ⟨u, t, hw, hrow⟩ := hwrite s'
      rw [next_call_bind, hw]
      exact ⟨⟨done seen, rfl⟩, hrow⟩

/-- Where a client stands. What it looked at may be long gone when it writes. -/
inductive Stage (v : V) : Coro Op Ans ε α → σ → Prop
  | looking {p : Coro Op Ans ε α} {s : σ} (h : Looks stamp w row v p) : Stage v p s
  | writing {p : Coro Op Ans ε α} {s : σ} (h : Writes stamp w row v p) : Stage v p s
  | returned {s : σ} (a : α) (h : Covers stamp (row s) v) : Stage v (ret a) s
  | raised {s : σ} (e : ε) : Stage v (raise e) s

/-- Any order of awaits: the register never gets older, and once all clients have returned it holds
the newest value, and the first one if no client's is newer. -/
structure FreshestWins [DecidableEq ι] (progs : ι → Coro Op Ans ε α) (values : ι → V) (s : σ) :
    Prop where
  notOlder : ∀ schedule rest, NotOlder stamp (row (run w (start progs s) schedule).world)
    (row (run w (start progs s) (schedule ++ rest)).world)
  unchanged : ∀ schedule, AllReturned (run w (start progs s) schedule) →
    (∀ i, ¬ Newer stamp (row s) (values i)) →
      row (run w (start progs s) schedule).world = row s
  newest : ∀ schedule, AllReturned (run w (start progs s) schedule) →
    (∃ i, Newer stamp (row s) (values i)) →
      ∃ i, row (run w (start progs s) schedule).world = some (values i) ∧
        ∀ j, stamp (values j) ≤ stamp (values i)
  unordered : (∀ i j, stamp (values i) = stamp (values j) → i = j) → ∀ schedule schedule',
    AllReturned (run w (start progs s) schedule) → AllReturned (run w (start progs s) schedule') →
      row (run w (start progs s) schedule).world = row (run w (start progs s) schedule').world

variable {stamp} {w} {row} in
/-- A client that looks does so at once, so a returned one has its value covered. -/
theorem Stage.covers_of_ret {v : V} {a : α} {s : σ} (h : Stage stamp w row v (ret a) s) :
    Covers stamp (row s) v := by
  generalize hp : (ret a : Coro Op Ans ε α) = p at h
  cases h with
  | looking h =>
    obtain ⟨-, hcases⟩ := h s
    subst hp
    -- a program that has returned stays put, so its look and its write are those of `ret`
    obtain ⟨e, he⟩ | ⟨b, -, hcov⟩ | hw := hcases
    · cases he
    · exact hcov
    · have hwrite : row s = write stamp (row s) v := (hw s).2
      rw [hwrite]
      exact covers_write _ _
  | writing h =>
    subst hp
    have hwrite : row s = write stamp (row s) v := (h s).2
    rw [hwrite]
    exact covers_write _ _
  | returned b h => exact h
  | raised e => cases hp

/-- How the clients' steps move the register. -/
def Moved (values : ι → V) (r₀ : Option V) (s t : σ) : Prop :=
  NotOlder stamp (row s) (row t) ∧ (From stamp values r₀ (row s) → From stamp values r₀ (row t))

variable {stamp} {w} {row} {s t : σ}

theorem moved_of_eq (h : row t = row s) : Moved stamp row values r₀ s t := by
  unfold Moved
  rw [h]
  exact ⟨notOlder_refl _, id⟩

theorem Stage.next {v : V} {p : Coro Op Ans ε α} (h : Stage stamp w row v p s) :
    Stage stamp w row v (Coro.next w (p, s)).1 (Coro.next w (p, s)).2 := by
  cases h with
  | looking h =>
    obtain ⟨hrow, ⟨e, he⟩ | ⟨a, ha, hcov⟩ | hw⟩ := h s
    · rw [he]
      exact .raised e
    · rw [ha]
      exact .returned a (by rwa [hrow])
    · exact .writing hw
  | writing h =>
    obtain ⟨⟨a, ha⟩, hrow⟩ := h s
    rw [ha]
    exact .returned a (by rw [hrow]; exact covers_write _ _)
  | returned a h => exact .returned a h
  | raised e => exact .raised e

theorem Stage.moved {i : ι} {p : Coro Op Ans ε α} (h : Stage stamp w row (values i) p s) :
    Moved stamp row values r₀ s (Coro.next w (p, s)).2 := by
  cases h with
  | looking h => exact moved_of_eq (h s).1
  | writing h =>
    unfold Moved
    rw [(h s).2]
    exact ⟨notOlder_write _ _, fun hf => hf.write i⟩
  | returned a h => exact moved_of_eq rfl
  | raised e => exact moved_of_eq rfl

variable (stamp w row) in
/-- The law is carried by the write alone: what a client saw when it looked plays no part. -/
theorem protocol (values : ι → V) (r₀ : Option V) : Protocol w
    (fun i (p : Coro Op Ans ε α) _ s => Stage stamp w row (values i) p s)
    (Moved stamp row values r₀) where
  step h := h.next
  moves h := h.moved
  stable h hm := by
    cases h with
    | looking h => exact .looking h
    | writing h => exact .writing h
    | returned a h => exact .returned a (h.mono hm.1)
    | raised e => exact .raised e

theorem Moved.trans {u : σ} (h : Moved stamp row values r₀ s t)
    (h' : Moved stamp row values r₀ t u) : Moved stamp row values r₀ s u :=
  ⟨h.1.trans h'.1, fun hf => h'.2 (h.2 hf)⟩

/-- Two registers that hold the newest of distinct values hold the same. -/
theorem eq_of_newest (hinj : ∀ i j, stamp (values i) = stamp (values j) → i = j)
    (h : ∃ i, r = some (values i) ∧ ∀ j, stamp (values j) ≤ stamp (values i))
    (h' : ∃ i, r' = some (values i) ∧ ∀ j, stamp (values j) ≤ stamp (values i)) : r = r' := by
  obtain ⟨i, rfl, hi⟩ := h
  obtain ⟨j, rfl, hj⟩ := h'
  rw [hinj i j (le_antisymm (hj i) (hi j))]

theorem freshestWins [DecidableEq ι] {progs : ι → Coro Op Ans ε α}
    (hlooks : ∀ i, Looks stamp w row (values i) (progs i)) (s : σ) :
    FreshestWins stamp w row progs values s := by
  have hproto : Protocol w (fun i (p : Coro Op Ans ε α) _ s => Stage stamp w row (values i) p s)
      (Moved stamp row values (row s)) := protocol stamp w row values (row s)
  have hholds : ∀ schedule, Holds (fun i p _ s => Stage stamp w row (values i) p s)
      (run w (start progs s) schedule) :=
    hproto.holds_run fun i => .looking (hlooks i)
  have hmoved : ∀ (P : Pool ι Op Ans ε α σ) schedule,
      Holds (fun i p _ s => Stage stamp w row (values i) p s) P →
        Moved stamp row values (row s) P.world (run w P schedule).world :=
    fun P schedule hP => hproto.moves_run (fun _ => moved_of_eq rfl) Moved.trans hP schedule
  have hfrom : ∀ schedule,
      From stamp values (row s) (row (run w (start progs s) schedule).world) :=
    fun schedule => (hmoved _ schedule fun i => .looking (hlooks i)).2 (.inl rfl)
  have hcovers : ∀ schedule, AllReturned (run w (start progs s) schedule) → ∀ i,
      Covers stamp (row (run w (start progs s) schedule).world) (values i) := by
    intro schedule hret i
    obtain ⟨a, ha⟩ := hret i
    have hstage := hholds schedule i
    rw [ha] at hstage
    exact hstage.covers_of_ret
  -- everything follows from where the register's value is from and which values it covers
  refine ⟨fun schedule rest => ?_, fun schedule _ hold => (hfrom schedule).eq_first hold,
    fun schedule hret hnew => (hfrom schedule).newest (hcovers schedule hret) hnew,
    fun hinj schedule schedule' hret hret' => ?_⟩
  · rw [run_append]
    exact (hmoved _ rest (hholds schedule)).1
  · by_cases hnew : ∃ i, Newer stamp (row s) (values i)
    · exact eq_of_newest hinj ((hfrom schedule).newest (hcovers schedule hret) hnew)
        ((hfrom schedule').newest (hcovers schedule' hret') hnew)
    · rw [(hfrom schedule).eq_first (not_exists.mp hnew),
        (hfrom schedule').eq_first (not_exists.mp hnew)]

variable (w row) in
/-- Any order of awaits: what the register holds stays, and what comes into an empty one is the
value of one of the clients. -/
structure FirstStays [DecidableEq ι] (progs : ι → Coro Op Ans ε α) (values : ι → V) (s : σ) :
    Prop where
  stays : ∀ schedule rest v, row (run w (start progs s) schedule).world = some v →
    row (run w (start progs s) (schedule ++ rest)).world = some v
  first : ∀ schedule v, row (run w (start progs s) schedule).world = some v →
    row s = some v ∨ row s = none ∧ ∃ i, v = values i

variable (row) in
/-- The register stays as it is, or gets its first value. -/
def FirstMoved (values : ι → V) (s t : σ) : Prop :=
  row t = row s ∨ row s = none ∧ ∃ i, row t = some (values i)

theorem FirstMoved.trans {u : σ} (h : FirstMoved row values s t) (h' : FirstMoved row values t u) :
    FirstMoved row values s u := by
  obtain h | ⟨hnone, i, hi⟩ := h
  · obtain h' | ⟨hnone', i, hi⟩ := h'
    · exact .inl (h'.trans h)
    · exact .inr ⟨h ▸ hnone', i, hi⟩
  · obtain h' | ⟨hnone', -⟩ := h'
    · exact .inr ⟨hnone, i, h'.trans hi⟩
    · rw [hi] at hnone'
      cases hnone'

/-- Clients whose operations leave the register alone, or write their value where there is none. -/
theorem firstStays [DecidableEq ι] {progs : ι → Coro Op Ans ε α} {P : ι → Op → Prop}
    (honly : ∀ i, (progs i).Only (P i))
    (hwrite : ∀ i op s, P i op →
      row (w op s).2 = row s ∨ row s = none ∧ row (w op s).2 = some (values i)) (s : σ) :
    FirstStays w row progs values s := by
  have hproto : Protocol w (fun i (p : Coro Op Ans ε α) _ _ => p.Only (P i))
      (FirstMoved row values) := by
    refine ⟨fun {i p past s} h => ?_, fun {i p past s} h => ?_, fun h _ => h⟩
    · cases p with
      | await op k => exact h.2 _
      | _ => exact h
    · cases p with
      | await op k =>
        apply (hwrite i op s h.1).imp_right
        exact fun h => ⟨h.1, i, h.2⟩
      | _ => exact .inl rfl
  have hmoved : ∀ schedule rest, FirstMoved row values (run w (start progs s) schedule).world
      (run w (start progs s) (schedule ++ rest)).world := by
    intro schedule rest
    rw [run_append]
    exact hproto.moves_run (fun _ => .inl rfl) FirstMoved.trans
      (hproto.holds_run (P := start progs s) honly schedule) rest
  refine ⟨fun schedule rest v hv => ?_, fun schedule v hv => ?_⟩
  · obtain heq | ⟨hnone, -⟩ := hmoved schedule rest
    · exact heq.trans hv
    · rw [hv] at hnone
      cases hnone
  · obtain heq | ⟨hnone, i, hi⟩ := hmoved [] schedule
    · exact .inl (heq.symm.trans hv)
    · exact .inr ⟨hnone, i, Option.some.inj (hv.symm.trans hi)⟩

end Clients

end LastWriter
