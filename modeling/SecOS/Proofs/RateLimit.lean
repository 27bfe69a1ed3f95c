import SecOS.DriverRate

/-! A triple that has an entry gets at most 50 calls in a window. The table is never emptied, so a
triple that finds it full is let through for ever. -/

namespace SecOS.DriverRate
open Function List

/-- A call of the triple `q` in the hundred ticks from `p` on. -/
def Call.within (q : Triple) (p : Nat) (req : Call) : Bool := req.key == q && decide (p ≤ req.now ∧ req.now < p + 100)

/-- At most two windows of calls in any hundred ticks. -/
def Sparse (q : Triple) (calls : List Call) : Prop := ∀ p, calls.countP (Call.within q p) ≤ 2 * rlMaxCalls

/-- Some entry is free when the triple makes its first call. -/
def Seated (t : Table) (q : Triple) (calls : List Call) : Prop :=
  (after t (calls.takeWhile fun req => req.key != q)).find Entry.free ≠ none

section
variable {t : Table} {q : Triple} {req : Call} {rest : List Call} {e : Entry} {i p : Nat}

theorem find_update {f : Entry → Bool} (same : f e = f (t i)) : Table.find (update t i e) f = t.find f := by
  unfold Table.find
  congr 1
  funext j
  by_cases here : j = i
  · rw [here, update_self, same]
  · rw [update_of_ne here]

theorem charge_key (e : Entry) (now : Nat) : (e.charge now).1.key = e.key := by
  unfold Entry.charge
  dsimp only
  split <;> split <;> rfl

section
variable (slot : t.slot req = some (i, e))
include slot

theorem slot_cases : e.key = req.key ∧ (t.find (fun e => e.key == req.key) = some i ∧ e = t i ∨
    t.find (fun e => e.key == req.key) = none ∧ t.find Entry.free = some i ∧ e = ⟨req.key, req.now, 0⟩) := by
  unfold Table.slot at slot
  split at slot
  next j found =>
    cases slot
    exact ⟨beq_iff_eq.mp (find?_some (p := fun i => (t i).key == req.key) found), .inl ⟨found, rfl⟩⟩
  next none =>
    obtain ⟨j, found, made⟩ := Option.map_eq_some_iff.mp slot
    cases made
    exact ⟨rfl, .inr ⟨none, found, rfl⟩⟩

theorem check_slot :
    driverRateCheck t req = (update t i (e.charge req.now).1, (e.charge req.now).2) := by
  unfold driverRateCheck
  rw [slot]

theorem slot_found : (driverRateCheck t req).1.find (fun e => e.key == req.key) = some i := by
  rw [check_slot slot]
  obtain ⟨key, ⟨found, rfl⟩ | ⟨none, free, _⟩⟩ := slot_cases slot
  · refine (find_update ?_).trans found
    rw [charge_key]
  · have here : ((update t i (e.charge req.now).1 i).key == req.key) = true := by
      rw [update_self, charge_key, key, beq_self_eq_true]
    have some : (Table.find (update t i (e.charge req.now).1) fun e => e.key == req.key).isSome :=
      List.find?_isSome.mpr ⟨i, mem_of_find?_eq_some free, here⟩
    obtain ⟨j, found⟩ := Option.isSome_iff_exists.mp some
    by_cases same : j = i
    · exact same ▸ found
    · have old := find?_some found
      rw [update_of_ne same] at old
      exact absurd old (List.find?_eq_none.mp none j (mem_of_find?_eq_some found))

end

theorem slot_other (t : Table) (real : q.pid ≠ -1) (other : req.key ≠ q) : (driverRateCheck t req).1.find (fun e => e.key == q) =
    t.find (fun e => e.key == q) ∧ ∀ i, (t i).key = q → (driverRateCheck t req).1 i = t i := by
  unfold driverRateCheck
  split
  · exact ⟨rfl, fun _ _ => rfl⟩
  next i e slot =>
    obtain ⟨key, old⟩ := slot_cases slot
    have before : (t i).key ≠ q := by
      rcases old with ⟨_, rfl⟩ | ⟨_, free, _⟩
      · exact key ▸ other
      · rintro rfl
        exact real (beq_iff_eq.mp (find?_some (p := fun i => (t i).free) free))
    refine ⟨find_update ?_, fun j mine => update_of_ne ?_ _ _⟩
    · rw [charge_key, key, beq_false_of_ne other, beq_false_of_ne before]
    · rintro rfl
      exact before mine

theorem full_kept (full : t.find Entry.free = none) (req : Call) (f : Triple → Bool) :
    (driverRateCheck t req).1.find (fun e => f e.key) = t.find fun e => f e.key := by
  unfold driverRateCheck
  split
  · rfl
  next i e slot =>
    obtain ⟨_, ⟨_, rfl⟩ | ⟨_, free, _⟩⟩ := slot_cases slot
    · refine find_update ?_
      rw [charge_key]
    · exact nomatch full.symm.trans free

theorem count_granted (f : Call → Bool) : (granted t (req :: rest)).countP f =
    (granted (driverRateCheck t req).1 rest).countP f + if (driverRateCheck t req).2 = .ok ∧ f req = true then 1 else 0 := by
  rw [granted]
  split
  next ok => simp only [countP_cons, ok, true_and]
  next refused => simp [refused]

theorem not_within (other : req.key ≠ q) : req.within q p = false := by
  rw [Call.within, beq_false_of_ne other, Bool.false_and]

variable {calls : List Call}

theorem granted_all : ∀ {t : Table}, t.find Entry.free = none → t.find (fun e => e.key == q) = none →
    (granted t calls).countP (Call.within q p) = calls.countP (Call.within q p) := by
  induction calls with
  | nil => exact fun _ _ => rfl
  | cons req rest ih =>
    intro t full missing
    have same := full_kept full req
    rw [count_granted, countP_cons, ih ((same fun k => k.pid == -1).trans full) ((same fun k => k == q).trans missing)]
    by_cases mine : req.key = q
    · have none : t.slot req = none := by
        rw [Table.slot, mine, missing, full]
        rfl
      have ok : (driverRateCheck t req).2 = .ok := by rw [driverRateCheck, none]
      simp only [ok, true_and]
    · simp [not_within mine]

def Entry.room (e : Entry) (p now : Nat) : Nat :=
  if p + 100 ≤ now then 0
  else if p ≤ e.windowStartTick then 50 - e.count
  else if p ≤ e.windowStartTick + 100 then 50 - e.count + 50
  else 100

theorem charge_room {now : Nat} (begun : e.windowStartTick ≤ now) (late : now ≤ req.now) :
    (e.charge req.now).1.windowStartTick ≤ req.now ∧
      (e.charge req.now).1.room p req.now + (if (e.charge req.now).2 = .ok ∧ req.within q p = true then 1 else 0) ≤ e.room p now := by
  have inside : req.within q p = true → p ≤ req.now ∧ req.now < p + 100 := by
    simp only [Call.within, Bool.and_eq_true, decide_eq_true_eq]
    exact And.right
  generalize req.within q p = w at inside
  unfold Entry.charge rlWindowTicks rlMaxCalls
  dsimp only
  split <;> split
  all_goals
    unfold Entry.room
    dsimp only
    refine ⟨by omega, ?_⟩
    cases w
    all_goals
      simp only [reduceCtorEq, false_and, true_and, and_false, if_true, if_false, Bool.false_eq_true, forall_const] at *
      repeat' split
      all_goals omega

theorem granted_room (real : q.pid ≠ -1) : ∀ {t : Table} (now : Nat), calls.Pairwise (·.now ≤ ·.now) →
    t.find (fun e => e.key == q) = some i → (t i).windowStartTick ≤ now → (∀ req ∈ calls, now ≤ req.now) →
    (granted t calls).countP (Call.within q p) ≤ (t i).room p now := by
  induction calls with
  | nil => exact fun _ _ _ _ _ => Nat.zero_le _
  | cons req rest ih =>
    intro t now sorted found begun late
    obtain ⟨first, later⟩ := pairwise_cons.mp sorted
    rw [count_granted]
    by_cases mine : req.key = q
    · subst mine
      have slot : t.slot req = some (i, t i) := by rw [Table.slot, found]
      obtain ⟨begun, room⟩ := charge_room (p := p) (q := req.key) begun (late req mem_cons_self)
      have rest := ih req.now later (slot_found slot)
      rw [check_slot slot] at rest ⊢
      dsimp only at rest ⊢
      rw [update_self] at rest
      exact Nat.le_trans (Nat.add_le_add_right (rest begun first) _) room
    · have key : (t i).key = q := beq_iff_eq.mp (find?_some (p := fun i => (t i).key == q) found)
      obtain ⟨same, entry⟩ := slot_other t real mine
      simp only [not_within mine, Bool.false_eq_true, and_false, if_false]
      rw [← entry i key]
      exact ih now later (same.trans found) ((entry i key).symm ▸ begun) fun req' member => late req' (mem_cons_of_mem _ member)

theorem sparse_iff_seated (real : q.pid ≠ -1) : ∀ {t : Table}, t.find (fun e => e.key == q) = none →
    calls.Pairwise (·.now ≤ ·.now) → (Sparse q (granted t calls) ↔ Seated t q calls ∨ Sparse q calls) := by
  induction calls with
  | nil => exact fun _ _ => ⟨fun _ => .inr fun _ => Nat.zero_le _, fun _ _ => Nat.zero_le _⟩
  | cons req rest ih =>
    intro t missing sorted
    obtain ⟨first, later⟩ := pairwise_cons.mp sorted
    by_cases mine : req.key = q
    · subst mine
      cases free : t.find Entry.free with
      | none =>
        simp only [Sparse, Seated, granted_all free missing, takeWhile_cons, bne_self_eq_false, Bool.false_eq_true, if_false]
        simp [after, free]
      | some i =>
        have slot : t.slot req = some (i, ⟨req.key, req.now, 0⟩) := by
          rw [Table.slot, missing, free]
          rfl
        refine ⟨fun _ => .inl ?_, fun _ p => ?_⟩
        · simp [Seated, after, free]
        · rw [count_granted]
          obtain ⟨begun, room⟩ := charge_room (e := ⟨req.key, req.now, 0⟩) (p := p) (q := req.key) (Nat.le_refl req.now) le_rfl
          have rest := granted_room (p := p) real req.now later (slot_found slot)
          rw [check_slot slot] at rest ⊢
          dsimp only at rest ⊢
          rw [update_self] at rest
          have most : Entry.room ⟨req.key, req.now, 0⟩ p req.now ≤ 100 := by
            unfold Entry.room
            dsimp only
            repeat' split
            all_goals omega
          exact Nat.le_trans (Nat.le_trans (Nat.add_le_add_right (rest begun first) _) room) most
    · have again := ih ((slot_other t real mine).1.trans missing) later
      simpa [Sparse, Seated, count_granted, countP_cons, not_within mine, takeWhile_cons, mine, after] using again

end

/-- The limit holds for a triple just in case it found room in the table or does not need a limit. -/
theorem rate_limited_iff (q : Triple) (real : q.pid ≠ -1) (calls : List Call) (sorted : calls.Pairwise (·.now ≤ ·.now)) :
    Sparse q (granted rlInit calls) ↔ Seated rlInit q calls ∨ Sparse q calls := by
  refine sparse_iff_seated real (List.find?_eq_none.mpr fun i _ found => ?_) sorted
  exact real (congrArg Triple.pid (beq_iff_eq.mp found)).symm

theorem first_caller_limited : Sparse ⟨1, 0, 0⟩ (granted rlInit (List.replicate 120 ⟨⟨1, 0, 0⟩, 7⟩)) := by
  refine (rate_limited_iff ⟨1, 0, 0⟩ (by decide) _ (List.pairwise_replicate.mpr (.inr (Nat.le_refl 7)))).mpr (.inl ?_)
  unfold Seated
  decide +kernel

/-- One after another, sixty-four drivers of device 0 ask for its caps (opcode 5) and exit, each in
a tick of its own, so that one binding at a time is in use; the next one asks a hundred and one times. -/
def crowd : List Call := (List.range 64).map (fun n => ⟨⟨.ofNat 32 (n + 1), 0, 5⟩, n⟩) ++ List.replicate 101 ⟨⟨65, 0, 5⟩, 64⟩

theorem full_table_unlimited : crowd.Pairwise (fun a b => a.now ≤ b.now ∧ (a.key ≠ b.key → a.now < b.now)) ∧
    ¬Sparse ⟨65, 0, 5⟩ (granted rlInit crowd) := by
  have many : ¬(granted rlInit crowd).countP (Call.within ⟨65, 0, 5⟩ 0) ≤ 100 := by decide +kernel
  exact ⟨by decide +kernel, fun sparse => many (sparse 0)⟩

end SecOS.DriverRate
