import SecOS.Library.Schedule
import SecOS.Sched

/-! A process is on at most one CPU. `on_cpu` is set under the table lock by the CPU that claims
the process, and cleared by the same CPU when it has left the kernel stack. The slot of a process
is given away while it runs when its creation fails or `elfunload` destroys it. -/

namespace SecOS.Sched
open Library Function List

def Pc.locks : Pc → Bool
  | .claim _ (.scan _) | .claim _ (.scanCpu _ _) | .claim _ (.mark _) | .claim _ (.take _) | .claim _ (.unlock _) => true
  | .reap (.scan _) | .reap (.scanCpu _ _) | .reap (.reapable _ _) | .reap (.orphan _ _ _) | .reap (.unlock _) => true
  | .ttyWake _ => true
  | _ => false

def Pc.claimed : Pc → Option Nat
  | .claim _ (.unlock r) | .switch (.chosen _ r) | .switch (.load r) => r
  | .switch (.requeue next) => some next
  | _ => none

def Pc.leaving : Pc → Option Nat
  | .switch (.enter prev) | .switch (.leave prev) => prev
  | .switch (.drop prev) => some prev
  | _ => none

/-- No longer current, and the CPU is still on its kernel stack. -/
def Pc.stack : Pc → Option Nat
  | .switch (.enter prev) | .switch (.leave prev) => prev
  | _ => none

def Pc.dropping : Pc → Option Nat
  | .switch (.drop prev) => some prev
  | _ => none

def Pc.candidate : Pc → Option Nat
  | .claim _ (.scan at_) | .claim _ (.scanCpu at_ _) => at_.any
  | .claim _ (.mark r) | .claim _ (.take r) => some r
  | .reap (.reapable _ p) | .reap (.orphan _ p _) => some p
  | _ => none

def Pc.entry : Pc → Option (Nat × Nat)
  | .claim _ (.scanCpu at_ p) => some ((at_.start + at_.k) % maxProcesses, p)
  | .reap (.scanCpu i p) | .reap (.reapable i p) | .reap (.orphan i p _) => some (i, p)
  | _ => none

def Pc.detached : Pc → Option Nat
  | .reap (.unlock z) => z
  | .reap (.free z) | .reap (.remove z) => some z
  | _ => none

def Cpu.holds (k : Cpu) (p : Nat) : Prop := k.current = some p ∨ k.pc.claimed = some p ∨ k.pc.leaving = some p

def Cpu.uses (k : Cpu) (p : Nat) : Prop := k.current = some p ∨ k.pc.stack = some p

def Listed (s : State) (p : Nat) : Prop := ∃ i, s.table i = some p

structure Held (s : State) : Prop where
  lockPc : ∀ c, (s.cpu c).pc.locks = true ↔ s.lock = some c
  up : ∀ c p, (s.cpu c).holds p → (s.proc p).onCpu = true
  one : ∀ c d p, (s.cpu c).holds p → (s.cpu d).holds p → c = d
  dropped : ∀ c p, (s.cpu c).pc.dropping = some p → (s.cpu c).current ≠ some p
  down : ∀ c p, (s.cpu c).pc.candidate = some p → (s.proc p).onCpu = false

structure Filed (s : State) : Prop where
  candidate : ∀ c p, (s.cpu c).pc.candidate = some p → Listed s p
  entry : ∀ c i p, (s.cpu c).pc.entry = some (i, p) → s.table i = some p
  held : ∀ c p, (s.cpu c).holds p → Listed s p
  listed : ∀ i p, s.table i = some p → (s.proc p).kstackSlot = i ∧ s.kstackSlotBusy i = true ∧ p < s.made ∧ p ∉ s.returned
  old : ∀ p ∈ s.returned, p < s.made
  once : s.returned.Nodup
  detached : ∀ c z, (s.cpu c).pc.detached = some z → z ∈ s.returned ∧ s.kstackSlotBusy (s.proc z).kstackSlot = true ∧
    s.table (s.proc z).kstackSlot = none
  slots : ∀ c d y z, (s.cpu c).pc.detached = some y → (s.cpu d).pc.detached = some z →
    (s.proc y).kstackSlot = (s.proc z).kstackSlot → c = d

section
variable {s s' : State} {c : Nat} {k : Cpu}

theorem cpu_self : update s.cpu c k c = k := update_self ..

theorem cpu_other {d : Nat} (other : d ≠ c) : update s.cpu c k d = s.cpu d := update_of_ne other _ _

theorem forall_cpu {P : Nat → Cpu → Prop} (others : ∀ d, d ≠ c → P d (s.cpu d)) (moves : P c k) (d : Nat) :
    P d (update s.cpu c k d) := by
  by_cases here : d = c
  · subst here
    rw [cpu_self]
    exact moves
  · rw [cpu_other here]
    exact others d here

variable {pc : Pc} {p : Nat} {r : Proc}

section
variable {q : Nat} (claimed : pc.claimed = none) (leaving : pc.leaving = none) (here : Cpu.holds { k with pc := pc } q)
include claimed leaving here

theorem Cpu.holds_idle : k.current = some q := by
  rcases here with current | mine | mine
  · exact current
  · exact nomatch claimed.symm.trans mine
  · exact nomatch leaving.symm.trans mine

theorem Cpu.holds_fewer : k.holds q :=
  .inl (Cpu.holds_idle claimed leaving here)

end

theorem Pc.locks_of_candidate (found : pc.candidate = some p) : pc.locks = true := by
  unfold Pc.candidate at found
  split at found <;> first | rfl | exact nomatch found

theorem Pc.locks_of_entry {i p : Nat} (found : pc.entry = some (i, p)) : pc.locks = true := by
  unfold Pc.entry at found
  split at found <;> first | rfl | exact nomatch found

/-- One CPU moves on. It raises `on_cpu` only with the lock and lowers it only for a
process it lets go. -/
theorem Held.move (inv : Held s) (cpus : s'.cpu = update s.cpu c k)
    (mine : k.pc.locks = true ↔ s'.lock = some c) (others : ∀ d, d ≠ c → (s.lock = some d ↔ s'.lock = some d))
    (holds : ∀ p, k.holds p → (s.cpu c).holds p ∨ (s.proc p).onCpu = false ∧ (s'.proc p).onCpu = true)
    (raised : ∀ p, (s'.proc p).onCpu = true → (s.proc p).onCpu = true ∨ s.lock = some c)
    (lowered : ∀ d p, (s.cpu d).holds p → (s'.proc p).onCpu = true ∨ d = c ∧ ¬ k.holds p)
    (dropped : ∀ p, k.pc.dropping = some p → k.current ≠ some p)
    (down : ∀ p, k.pc.candidate = some p → (s'.proc p).onCpu = false) : Held s' := by
  have back : ∀ d p, (s'.cpu d).holds p → (s.cpu d).holds p ∨ d = c ∧ (s.proc p).onCpu = false ∧ (s'.proc p).onCpu = true := by
    intro d p
    rw [cpus]
    refine forall_cpu (P := fun d k => k.holds p → (s.cpu d).holds p ∨ d = c ∧ _) (fun _ _ => .inl) (fun here => ?_) d
    exact (holds p here).imp id fun new => ⟨rfl, new⟩
  refine ⟨?_, ?_, ?_, ?_, ?_⟩
  · rw [cpus]
    exact forall_cpu (P := fun d k => k.pc.locks = true ↔ s'.lock = some d) (fun d other => (inv.lockPc d).trans (others d other)) mine
  · intro d p now
    rcases back d p now with before | ⟨_, _, up⟩
    · rcases lowered d p before with up | ⟨rfl, gone⟩
      · exact up
      · rw [cpus, cpu_self] at now
        exact absurd now gone
    · exact up
  · intro d e p first second
    rcases back d p first with before | ⟨rfl, free, _⟩
    · rcases back e p second with before' | ⟨rfl, free, _⟩
      · exact inv.one d e p before before'
      · exact nomatch free.symm.trans (inv.up d p before)
    · rcases back e p second with before' | ⟨rfl, _⟩
      · exact nomatch free.symm.trans (inv.up e p before')
      · rfl
  · rw [cpus]
    exact forall_cpu (P := fun _ k => ∀ p, k.pc.dropping = some p → k.current ≠ some p) (fun d _ => inv.dropped d) dropped
  · rw [cpus]
    refine forall_cpu (P := fun _ k => ∀ p, k.pc.candidate = some p → (s'.proc p).onCpu = false) (fun d other p found => ?_) down
    refine Bool.eq_false_iff.mpr fun up => ?_
    rcases raised p up with before | held
    · exact nomatch (inv.down d p found).symm.trans before
    · have locked := (inv.lockPc d).mp (Pc.locks_of_candidate found)
      exact other (Option.some.inj (locked.symm.trans held))

theorem Filed.move (inv : Filed s) (cpus : s'.cpu = update s.cpu c k)
    (same : s'.table = s.table ∧ s'.kstackSlotBusy = s.kstackSlotBusy ∧ s'.made = s.made ∧ s'.returned = s.returned)
    (slot : ∀ p, (s'.proc p).kstackSlot = (s.proc p).kstackSlot)
    (holds : ∀ p, k.holds p → (s.cpu c).holds p ∨ Listed s p) (candidate : ∀ p, k.pc.candidate = some p → Listed s p)
    (entry : ∀ i p, k.pc.entry = some (i, p) → s.table i = some p)
    (detached : ∀ z, k.pc.detached = some z → (s.cpu c).pc.detached = some z) : Filed s' := by
  obtain ⟨table, busy, made, returned⟩ := same
  have owner : ∀ d z, (s'.cpu d).pc.detached = some z → (s.cpu d).pc.detached = some z := by
    intro d z
    rw [cpus]
    exact forall_cpu (P := fun d k => k.pc.detached = some z → (s.cpu d).pc.detached = some z) (fun _ _ => id) (detached z) d
  refine ⟨?_, ?_, ?_, ?_, ?_, ?_, ?_, ?_⟩
  · rw [cpus]
    simp only [Listed, table]
    exact forall_cpu (P := fun _ k => ∀ p, k.pc.candidate = some p → Listed s p) (fun d _ => inv.candidate d) candidate
  · rw [cpus, table]
    exact forall_cpu (P := fun _ k => ∀ i p, k.pc.entry = some (i, p) → s.table i = some p) (fun d _ => inv.entry d) entry
  · rw [cpus]
    simp only [Listed, table]
    refine forall_cpu (P := fun _ k => ∀ p, k.holds p → Listed s p) (fun d _ => inv.held d) fun p here => ?_
    exact (holds p here).elim (inv.held c p) id
  · intro i p
    rw [table, busy, made, returned, slot]
    exact inv.listed i p
  · rw [made, returned]
    exact inv.old
  · rw [returned]
    exact inv.once
  · intro d z found
    rw [returned, busy, table, slot]
    exact inv.detached d z (owner d z found)
  · intro d e y z first second
    rw [slot, slot]
    exact inv.slots d e y z (owner d y first) (owner e z second)

/-- The steps that only touch other fields of the processes. -/
def Alike (s : State) (f : Nat → Proc) : Prop := ∀ p, (f p).onCpu = (s.proc p).onCpu ∧ (f p).kstackSlot = (s.proc p).kstackSlot

theorem Alike.refl (s : State) : Alike s s.proc := fun _ => ⟨rfl, rfl⟩

structure Exclusive (s : State) : Prop where
  held : Held s
  filed : Filed s

variable {f : Nat → Proc}

theorem Exclusive.move {lock : Option Nat} (inv : Exclusive s)
    (same : Alike s f)
    (mine : k.pc.locks = true ↔ lock = some c) (others : ∀ d, d ≠ c → (s.lock = some d ↔ lock = some d))
    (holds : ∀ p, k.holds p → (s.cpu c).holds p) (dropped : ∀ p, k.pc.dropping = some p → k.current ≠ some p)
    (candidate : ∀ p, k.pc.candidate = some p → (s.proc p).onCpu = false ∧ Listed s p)
    (entry : ∀ i p, k.pc.entry = some (i, p) → s.table i = some p)
    (detached : ∀ z, k.pc.detached = some z → (s.cpu c).pc.detached = some z) :
    Exclusive { s with proc := f, lock := lock, cpu := update s.cpu c k } := by
  refine ⟨?_, ?_⟩
  · refine inv.held.move rfl mine others (fun p here => .inl (holds p here)) ?_ ?_ dropped ?_
    · exact fun p up => .inl ((same p).1.symm.trans up)
    · exact fun d p here => .inl ((same p).1.trans (inv.held.up d p here))
    · exact fun p found => (same p).1.trans (candidate p found).1
  · exact inv.filed.move rfl ⟨rfl, rfl, rfl, rfl⟩ (fun p => (same p).2) (fun p here => .inl (holds p here))
      (fun p found => (candidate p found).2) entry detached

theorem Exclusive.go (inv : Exclusive s)
    (same : Alike s f)
    (locks : pc.locks = (s.cpu c).pc.locks) (claimed : pc.claimed = none ∨ pc.claimed = (s.cpu c).pc.claimed)
    (leaving : pc.leaving = none ∨ pc.leaving = (s.cpu c).pc.leaving) (dropped : ∀ p, pc.dropping = some p → (s.cpu c).current ≠ some p)
    (candidate : ∀ p, pc.candidate = some p → (s.proc p).onCpu = false ∧ Listed s p)
    (entry : ∀ i p, pc.entry = some (i, p) → s.table i = some p)
    (detached : pc.detached = none ∨ pc.detached = (s.cpu c).pc.detached) :
    Exclusive { s with proc := f, cpu := update s.cpu c { s.cpu c with pc := pc } } := by
  refine inv.move same (locks ▸ inv.held.lockPc c) (fun _ _ => Iff.rfl) ?_ dropped candidate entry ?_
  · rintro p (current | mine | mine)
    · exact .inl current
    · rcases claimed with idle | kept
      · exact nomatch idle.symm.trans mine
      · exact .inr (.inl (kept.symm.trans mine))
    · rcases leaving with idle | kept
      · exact nomatch idle.symm.trans mine
      · exact .inr (.inr (kept.symm.trans mine))
  · intro z mine
    rcases detached with idle | kept
    · exact nomatch idle.symm.trans mine
    · exact kept.symm.trans mine

theorem setProc_self : (s.setProc p r).proc p = r := update_self ..

theorem setProc_other {p q : Nat} (other : q ≠ p) : (s.setProc p r).proc q = s.proc q := update_of_ne other _ _

theorem setProc_slot (slot : r.kstackSlot = (s.proc p).kstackSlot) (q : Nat) :
    ((s.setProc p r).proc q).kstackSlot = (s.proc q).kstackSlot := by
  by_cases here : q = p
  · subst here
    rw [setProc_self, slot]
  · rw [setProc_other here]

theorem setProc_same (same : r.onCpu = (s.proc p).onCpu ∧ r.kstackSlot = (s.proc p).kstackSlot) : Alike s (s.setProc p r).proc := by
  intro q
  by_cases here : q = p
  · subst here
    rw [setProc_self]
    exact same
  · rw [setProc_other here]
    exact ⟨rfl, rfl⟩

theorem setState_same {state : Wake.ProcState} : Alike s (s.setState p state).proc := setProc_same ⟨rfl, rfl⟩

theorem Exclusive.take {caller : Caller} {r : Nat} (inv : Exclusive s) (at_pc : (s.cpu c).pc = .claim caller (.take r)) :
    Exclusive ((s.setProc r { s.proc r with onCpu := true, cpuAffinity := c }).setPc c (.claim caller (.unlock (some r)))) := by
  have lock : s.lock = some c := (inv.held.lockPc c).mp (by rw [at_pc]; rfl)
  have down : (s.proc r).onCpu = false := inv.held.down c r (by rw [at_pc]; rfl)
  have listed : Listed s r := inv.filed.candidate c r (by rw [at_pc]; rfl)
  refine ⟨?_, ?_⟩
  · refine inv.held.move rfl ⟨fun _ => lock, fun _ => rfl⟩ (fun _ _ => Iff.rfl) ?_ (fun _ _ => .inr lock) ?_ nofun nofun
    · rintro p (current | claimed | leaving)
      · exact .inl (.inl current)
      · cases claimed
        exact .inr ⟨down, congrArg Proc.onCpu setProc_self⟩
      · exact nomatch leaving
    · intro d p before
      have other : p ≠ r := by
        rintro rfl
        exact nomatch down.symm.trans (inv.held.up d p before)
      exact .inl ((congrArg Proc.onCpu (setProc_other other)).trans (inv.held.up d p before))
  · refine inv.filed.move rfl ⟨rfl, rfl, rfl, rfl⟩ (setProc_slot rfl) ?_ nofun nofun nofun
    rintro p (current | claimed | leaving)
    · exact .inl (.inl current)
    · cases claimed
      exact .inr listed
    · exact nomatch leaving

theorem Exclusive.drop (inv : Exclusive s) (at_pc : (s.cpu c).pc = .switch (.drop p)) :
    Exclusive ((s.setProc p { s.proc p with onCpu := false }).setPc c .run) := by
  have here : (s.cpu c).holds p := .inr (.inr (by rw [at_pc]; rfl))
  have left : (s.cpu c).current ≠ some p := inv.held.dropped c p (by rw [at_pc]; rfl)
  have unlocked : (s.cpu c).pc.locks = false := by rw [at_pc]; rfl
  have fewer : ∀ q, Cpu.holds { s.cpu c with pc := .run } q → (s.cpu c).current = some q := fun _ => Cpu.holds_idle rfl rfl
  refine ⟨?_, ?_⟩
  · refine inv.held.move rfl ?_ (fun _ _ => Iff.rfl) (fun q mine => .inl (.inl (fewer q mine))) ?_ ?_ nofun nofun
    · exact ⟨nofun, fun held => nomatch unlocked.symm.trans ((inv.held.lockPc c).mpr held)⟩
    · intro q up
      by_cases same : q = p
      · subst same
        exact nomatch (congrArg Proc.onCpu setProc_self).symm.trans up
      · exact .inl ((congrArg Proc.onCpu (setProc_other same)).symm.trans up)
    · intro d q before
      by_cases same : q = p
      · subst same
        exact .inr ⟨inv.held.one d c q before here, fun mine => left (fewer q mine)⟩
      · exact .inl ((congrArg Proc.onCpu (setProc_other same)).trans (inv.held.up d q before))
  · exact inv.filed.move rfl ⟨rfl, rfl, rfl, rfl⟩ (setProc_slot rfl) (fun q mine => .inl (.inl (fewer q mine))) nofun nofun nofun

theorem Exclusive.detach {i p : Nat} (inv : Exclusive s) (found : (s.cpu c).pc.candidate = some p)
    (entry : (s.cpu c).pc.entry = some (i, p)) : Exclusive (s.detach c i p) := by
  have locks := Pc.locks_of_candidate found
  have lock : s.lock = some c := (inv.held.lockPc c).mp locks
  have down := inv.held.down c p found
  have at_ := inv.filed.entry c i p entry
  obtain ⟨slot, busy, old, new⟩ := inv.filed.listed i p at_
  have fewer : ∀ q, Cpu.holds { s.cpu c with pc := .reap (.unlock (some p)) } q → (s.cpu c).holds q := fun _ => Cpu.holds_fewer rfl rfl
  have kept : ∀ d q, ((s.detach c i p).cpu d).holds q → (s.cpu d).holds q := fun d q =>
    forall_cpu (P := fun d k => k.holds q → (s.cpu d).holds q) (fun _ _ => id) (fewer q) d
  have owner : ∀ d z, ((s.detach c i p).cpu d).pc.detached = some z → (s.cpu d).pc.detached = some z ∨ d = c ∧ z = p := by
    intro d z
    refine forall_cpu (P := fun d k => k.pc.detached = some z → (s.cpu d).pc.detached = some z ∨ d = c ∧ z = p) (fun _ _ => .inl) ?_ d
    exact fun mine => .inr ⟨rfl, (Option.some.inj mine).symm⟩
  -- Whatever another CPU has detached is not in the slot of a listed process.
  have elsewhere : ∀ d z, (s.cpu d).pc.detached = some z → (s.proc z).kstackSlot ≠ i := by
    rintro d z mine rfl
    exact nomatch (inv.filed.detached d z mine).2.2.symm.trans at_
  refine ⟨?_, ?_⟩
  · refine inv.held.move rfl ⟨fun _ => lock, fun _ => rfl⟩ (fun _ _ => Iff.rfl) (fun q mine => .inl (fewer q mine)) (fun _ => .inl)
      (fun d q mine => .inl (inv.held.up d q mine)) nofun nofun
  · refine ⟨?_, ?_, ?_, ?_, ?_, ?_, ?_, ?_⟩
    · intro d q
      refine forall_cpu (P := fun _ k => k.pc.candidate = some q → Listed (s.detach c i p) q) (fun d other mine => ?_) ?_ d
      case refine_2 => nofun
      exact absurd (Option.some.inj (((inv.held.lockPc d).mp (Pc.locks_of_candidate mine)).symm.trans lock)) other
    · intro d j q
      refine forall_cpu (P := fun _ k => k.pc.entry = some (j, q) → (s.detach c i p).table j = some q) (fun d other mine => ?_) ?_ d
      case refine_2 => nofun
      exact absurd (Option.some.inj (((inv.held.lockPc d).mp (Pc.locks_of_entry mine)).symm.trans lock)) other
    · intro d q mine
      obtain ⟨j, listed⟩ := inv.filed.held d q (kept d q mine)
      have other : j ≠ i := by
        rintro rfl
        obtain rfl := Option.some.inj (listed.symm.trans at_)
        exact nomatch down.symm.trans (inv.held.up d q (kept d q mine))
      exact ⟨j, (update_of_ne other _ _).trans listed⟩
    · intro j q listed
      have other : j ≠ i := by
        rintro rfl
        have empty : (s.detach c j p).table j = none := update_self ..
        exact nomatch empty.symm.trans listed
      have before : s.table j = some q := (update_of_ne other _ _).symm.trans listed
      obtain ⟨home, taken, young, fresh⟩ := inv.filed.listed j q before
      refine ⟨home, taken, young, not_mem_cons_of_ne_of_not_mem ?_ fresh⟩
      rintro rfl
      exact other (home.symm.trans slot)
    · intro q member
      rcases mem_cons.mp member with rfl | before
      · exact old
      · exact inv.filed.old q before
    · exact List.nodup_cons.mpr ⟨new, inv.filed.once⟩
    · intro d z mine
      rcases owner d z mine with before | ⟨rfl, rfl⟩
      · obtain ⟨member, taken, empty⟩ := inv.filed.detached d z before
        exact ⟨mem_cons_of_mem _ member, taken, (update_of_ne (elsewhere d z before) _ _).trans empty⟩
      · refine ⟨mem_cons_self, ?_, ?_⟩
        · exact slot ▸ busy
        · rw [show ((s.detach d i z).proc z).kstackSlot = i from slot]
          exact update_self ..
    · intro d e y z first second same
      rcases owner d y first with before | ⟨rfl, rfl⟩
      · rcases owner e z second with before' | ⟨rfl, rfl⟩
        · exact inv.filed.slots d e y z before before' same
        · exact absurd (same.trans slot) (elsewhere d y before)
      · rcases owner e z second with before' | ⟨rfl, _⟩
        · exact absurd (same.symm.trans slot) (elsewhere e z before')
        · rfl

/-- A detached process is not found in the table: at most its slot is given back. -/
theorem Filed.procRemove {z : Nat} (inv : Filed s) (mine : (s.cpu c).pc.detached = some z) :
    ∃ busy, s.procRemove z = { s with kstackSlotBusy := busy } ∧
      ∀ i, i ≠ (s.proc z).kstackSlot → busy i = s.kstackSlotBusy i := by
  have missing : ((List.range maxProcesses).find? fun i => s.table i == some z) = none := by
    refine List.find?_eq_none.mpr fun i _ found => ?_
    exact (inv.listed i z (beq_iff_eq.mp found)).2.2.2 (inv.detached c z mine).1
  simp only [State.procRemove, missing]
  refine ⟨_, rfl, fun i other => ?_⟩
  split
  · exact update_of_ne other _ _
  · rfl

theorem Exclusive.remove {z : Nat} (inv : Exclusive s) (at_pc : (s.cpu c).pc = .reap (.remove z)) :
    Exclusive ((s.procRemove z).setPc c (.reap .acquire)) := by
  have mine : (s.cpu c).pc.detached = some z := by rw [at_pc]; rfl
  have unlocked : (s.cpu c).pc.locks = false := by rw [at_pc]; rfl
  obtain ⟨busy, removed, kept⟩ := inv.filed.procRemove mine
  rw [removed]
  obtain ⟨member, _, empty⟩ := inv.filed.detached c z mine
  have fewer : ∀ q, Cpu.holds { s.cpu c with pc := .reap .acquire } q → (s.cpu c).holds q := fun _ => Cpu.holds_fewer rfl rfl
  have plain : Exclusive (s.setPc c (.reap .acquire)) := by
    refine inv.move (.refl s) ?_ (fun _ _ => Iff.rfl) fewer nofun nofun nofun nofun
    exact ⟨nofun, fun held => nomatch unlocked.symm.trans ((inv.held.lockPc c).mpr held)⟩
  refine ⟨⟨plain.held.lockPc, plain.held.up, plain.held.one, plain.held.dropped, plain.held.down⟩, ?_⟩
  refine ⟨plain.filed.candidate, plain.filed.entry, plain.filed.held, ?_, plain.filed.old, plain.filed.once, ?_, plain.filed.slots⟩
  · intro i q listed
    obtain ⟨home, taken, rest⟩ := plain.filed.listed i q listed
    refine ⟨home, (kept i ?_).trans taken, rest⟩
    rintro rfl
    exact nomatch empty.symm.trans listed
  · intro d y detached
    obtain ⟨before, taken, free⟩ := plain.filed.detached d y detached
    refine ⟨before, (kept _ fun same => ?_).trans taken, free⟩
    -- Two detached processes are in different slots, and this CPU is done with its own.
    have other : d ≠ c := by
      rintro rfl
      exact nomatch (congrArg (Pc.detached ∘ Cpu.pc) cpu_self).symm.trans detached
    have theirs : (s.cpu d).pc.detached = some y := (congrArg (Pc.detached ∘ Cpu.pc) (cpu_other other)).symm.trans detached
    exact other (inv.filed.slots d c y z theirs mine same)

/-- The process is in the table and on no CPU. -/
def Spared (s : State) (p : Nat) : Prop := (s.proc p).onCpu = false ∧ ∃ i < maxProcesses, s.table i = some p

instance (s : State) (p : Nat) : Decidable (Spared s p) := inferInstanceAs (Decidable (_ ∧ _))

/-- A process that no CPU has claimed is taken out of the table. -/
theorem Exclusive.discard {p : Nat} (inv : Exclusive s) (free : s.lock = none) (spared : Spared s p) :
    Exclusive ((s.procRemove p).setPc c .run) := by
  obtain ⟨down, i, small, here⟩ := spared
  obtain rfl := (inv.filed.listed i p here).1
  have nobody : ∀ d, (s.cpu d).pc.locks = false :=
    fun d => Bool.eq_false_iff.mpr fun locks => nomatch free.symm.trans ((inv.held.lockPc d).mp locks)
  have found : ((List.range maxProcesses).find? fun i => s.table i == some p) = some (s.proc p).kstackSlot := by
    cases found : (List.range maxProcesses).find? fun i => s.table i == some p with
    | none => exact absurd (beq_iff_eq.mpr here) (List.find?_eq_none.mp found _ (List.mem_range.mpr small))
    | some i =>
      have there : s.table i = some p := beq_iff_eq.mp (find?_some (p := fun i => s.table i == some p) found)
      rw [(inv.filed.listed i p there).1]
  have removed : s.procRemove p = { s with
      table := update s.table (s.proc p).kstackSlot none
      kstackSlotBusy := update s.kstackSlotBusy (s.proc p).kstackSlot false } := by
    simp [State.procRemove, found, small]
  have plain : Exclusive (s.setPc c .run) := by
    refine inv.move (.refl s) ⟨nofun, fun held => ?_⟩ (fun _ _ => Iff.rfl) (fun _ => Cpu.holds_fewer rfl rfl) nofun nofun nofun nofun
    exact nomatch free.symm.trans held
  have idle : ∀ d, (update s.cpu c { s.cpu c with pc := .run } d).pc.locks = false :=
    forall_cpu (P := fun _ k => k.pc.locks = false) (fun d _ => nobody d) rfl
  rw [removed]
  refine ⟨⟨plain.held.lockPc, plain.held.up, plain.held.one, plain.held.dropped, plain.held.down⟩, ?_⟩
  refine ⟨fun d q mine => ?_, fun d i q mine => ?_, fun d q mine => ?_, fun i q listed => ?_, plain.filed.old, plain.filed.once,
    fun d z mine => ?_, plain.filed.slots⟩
  · exact nomatch (idle d).symm.trans (Pc.locks_of_candidate mine)
  · exact nomatch (idle d).symm.trans (Pc.locks_of_entry mine)
  · obtain ⟨j, listed⟩ := plain.filed.held d q mine
    have other : j ≠ (s.proc p).kstackSlot := by
      rintro rfl
      obtain rfl := Option.some.inj (listed.symm.trans here)
      exact nomatch down.symm.trans (plain.held.up d q mine)
    exact ⟨j, (update_of_ne other _ _).trans listed⟩
  · have other : i ≠ (s.proc p).kstackSlot := by
      rintro rfl
      have empty : update s.table (s.proc p).kstackSlot none (s.proc p).kstackSlot = none := update_self ..
      exact nomatch empty.symm.trans listed
    have before : s.table i = some q := (update_of_ne other _ _).symm.trans listed
    obtain ⟨home, taken, rest⟩ := inv.filed.listed i q before
    exact ⟨home, (update_of_ne other _ _).trans taken, rest⟩
  · obtain ⟨member, taken, empty⟩ := plain.filed.detached d z mine
    have other : (s.proc z).kstackSlot ≠ (s.proc p).kstackSlot := by
      intro same
      exact nomatch (same ▸ empty).symm.trans here
    exact ⟨member, (update_of_ne other _ _).trans taken, (update_of_ne other _ _).trans empty⟩

theorem Pc.eq_run (run : pc.isRun = true) : pc = .run := by
  cases pc with
  | run => rfl
  | _ => exact nomatch run

def Pc.plain (pc : Pc) : Bool := pc.claimed.isNone && pc.leaving.isNone && pc.dropping.isNone && pc.detached.isNone

theorem Pc.of_plain (plain : pc.plain = true) : pc.claimed = none ∧ pc.leaving = none ∧ pc.dropping = none ∧ pc.detached = none := by
  simpa [Pc.plain, and_assoc] using plain

section
variable (inv : Exclusive s)
include inv

theorem Exclusive.procAdd {r : Proc} (free : s.lock = none) (down : r.onCpu = false) : Exclusive (s.procAdd c r) := by
  unfold State.procAdd
  split
  case h_2 => exact inv
  next i found =>
    have vacant := find?_some found
    simp only [Bool.and_eq_true, Option.isNone_iff_eq_none, Bool.not_eq_eq_eq_not, Bool.not_true] at vacant
    obtain ⟨empty, idle⟩ := vacant
    have nobody : ∀ d, (s.cpu d).pc.locks = false :=
      fun d => Bool.eq_false_iff.mpr fun locks => nomatch free.symm.trans ((inv.held.lockPc d).mp locks)
    have fewer : ∀ q, Cpu.holds { s.cpu c with pc := .create (.build s.made) } q → (s.cpu c).holds q := fun _ => Cpu.holds_fewer rfl rfl
    have old : ∀ p, p < s.made → update s.proc s.made { r with kstackSlot := i } p = s.proc p :=
      fun p young => update_of_ne (Nat.ne_of_lt young) _ _
    refine ⟨?_, ?_⟩
    · refine inv.held.move rfl ⟨nofun, fun held => nomatch free.symm.trans held⟩ (fun _ _ => Iff.rfl)
        (fun q mine => .inl (fewer q mine)) ?_ ?_ nofun nofun
      · intro p up
        by_cases new : p = s.made
        · subst new
          have lowered : update s.proc s.made { r with kstackSlot := i } s.made = { r with kstackSlot := i } :=
            update_self ..
          exact nomatch down.symm.trans ((congrArg Proc.onCpu lowered).symm.trans up)
        · exact .inl ((congrArg Proc.onCpu (update_of_ne new _ _)).symm.trans up)
      · intro d p mine
        obtain ⟨j, listed⟩ := inv.filed.held d p mine
        exact .inl ((congrArg Proc.onCpu (old p (inv.filed.listed j p listed).2.2.1)).trans (inv.held.up d p mine))
    · have owner : ∀ d z, (update s.cpu c { s.cpu c with pc := .create (.build s.made) } d).pc.detached = some z →
          (s.cpu d).pc.detached = some z ∧ z < s.made := by
        intro d z
        refine forall_cpu (P := fun d k => k.pc.detached = some z → (s.cpu d).pc.detached = some z ∧ z < s.made) ?_ ?_ d
        · exact fun d _ mine => ⟨mine, inv.filed.old z (inv.filed.detached d z mine).1⟩
        · nofun
      have unlocked : ∀ d, (update s.cpu c { s.cpu c with pc := .create (.build s.made) } d).pc.locks = false :=
        forall_cpu (P := fun _ k => k.pc.locks = false) (fun d _ => nobody d) rfl
      refine ⟨?_, ?_, ?_, ?_, ?_, inv.filed.once, ?_, ?_⟩
      · exact fun d q found => nomatch (unlocked d).symm.trans (Pc.locks_of_candidate found)
      · exact fun d j q found => nomatch (unlocked d).symm.trans (Pc.locks_of_entry found)
      · intro d q mine
        have before : (s.cpu d).holds q :=
          forall_cpu (P := fun d k => k.holds q → (s.cpu d).holds q) (fun _ _ => id) (fewer q) d mine
        obtain ⟨j, listed⟩ := inv.filed.held d q before
        have other : j ≠ i := by
          rintro rfl
          exact nomatch empty.symm.trans listed
        exact ⟨j, (update_of_ne other _ _).trans listed⟩
      · intro j q listed
        by_cases here : j = i
        · subst here
          have new : update s.table j (some s.made) j = some s.made := update_self ..
          obtain rfl := Option.some.inj (new.symm.trans listed)
          refine ⟨congrArg Proc.kstackSlot (update_self s.made _ s.proc), update_self .., Nat.lt_succ_self _, ?_⟩
          exact fun member => Nat.lt_irrefl _ (inv.filed.old _ member)
        · have before : s.table j = some q := (update_of_ne here _ _).symm.trans listed
          obtain ⟨home, taken, young, fresh⟩ := inv.filed.listed j q before
          refine ⟨(congrArg Proc.kstackSlot (old q young)).trans home, ?_, Nat.lt_succ_of_lt young, fresh⟩
          exact (update_of_ne here _ _).trans taken
      · exact fun q member => Nat.lt_succ_of_lt (inv.filed.old q member)
      · intro d z mine
        obtain ⟨before, young⟩ := owner d z mine
        obtain ⟨member, taken, left⟩ := inv.filed.detached d z before
        have other : (s.proc z).kstackSlot ≠ i := by
          rintro rfl
          exact nomatch idle.symm.trans taken
        refine ⟨member, ?_⟩
        simp only [State.setPc, old z young]
        exact ⟨(update_of_ne other _ _).trans taken, (update_of_ne other _ _).trans left⟩
      · intro d e y z first second
        obtain ⟨before, young⟩ := owner d y first
        obtain ⟨before', young'⟩ := owner e z second
        simp only [State.setPc, old y young, old z young']
        exact inv.filed.slots d e y z before before'

theorem Exclusive.look {at_ pc : Pc} (at_pc : (s.cpu c).pc = at_) (locks : pc.locks = at_.locks)
    (plain : pc.plain = true)
    (candidate : ∀ p, pc.candidate = some p → at_.candidate = some p ∨ (s.proc p).onCpu = false ∧ Listed s p)
    (entry : ∀ i p, pc.entry = some (i, p) → s.table i = some p) : Exclusive (s.setPc c pc) := by
  subst at_pc
  obtain ⟨claimed, leaving, dropping, detached⟩ := Pc.of_plain plain
  refine inv.go (.refl s) locks (.inl claimed) (.inl leaving) ?_ ?_ entry (.inl detached)
  · exact fun p mine => nomatch dropping.symm.trans mine
  · intro p found
    rcases candidate p found with before | new
    · exact ⟨inv.held.down c p before, inv.filed.candidate c p before⟩
    · exact new

theorem Exclusive.lock {pc : Pc} (free : s.lock = none) (locks : pc.locks = true)
    (plain : pc.plain = true) (candidate : pc.candidate = none)
    (entry : pc.entry = none) : Exclusive ({ s with lock := some c }.setPc c pc) := by
  obtain ⟨claimed, leaving, dropping, detached⟩ := Pc.of_plain plain
  refine inv.move (.refl s) ⟨fun _ => rfl, fun _ => locks⟩ ?_ ?_ ?_ ?_ ?_ ?_
  · refine fun d other => ⟨fun held => (nomatch free.symm.trans held), fun held => ?_⟩
    exact absurd (Option.some.inj held).symm other
  · exact fun _ => Cpu.holds_fewer claimed leaving
  · exact fun p mine => nomatch dropping.symm.trans mine
  · exact fun p mine => nomatch candidate.symm.trans mine
  · exact fun i p mine => nomatch entry.symm.trans mine
  · exact fun z mine => nomatch detached.symm.trans mine

theorem Exclusive.unlock {pc : Pc}
    (same : Alike s f) (locks : (s.cpu c).pc.locks = true)
    (free : pc.locks = false) (claimed : pc.claimed = (s.cpu c).pc.claimed) (detached : pc.detached = (s.cpu c).pc.detached)
    (plain : pc.leaving = none ∧ pc.dropping = none ∧ pc.candidate = none ∧ pc.entry = none) :
    Exclusive ({ s with proc := f, lock := none }.setPc c pc) := by
  have held := (inv.held.lockPc c).mp locks
  obtain ⟨leaving, dropping, candidate, entry⟩ := plain
  refine inv.move same ⟨fun mine => (nomatch free.symm.trans mine), nofun⟩ ?_ ?_ ?_ ?_ ?_ ?_
  · exact fun d other => ⟨fun mine => absurd (Option.some.inj (mine.symm.trans held)) other, nofun⟩
  · rintro p (current | mine | mine)
    · exact .inl current
    · exact .inr (.inl (claimed.symm.trans mine))
    · exact nomatch leaving.symm.trans mine
  · exact fun p mine => nomatch dropping.symm.trans mine
  · exact fun p mine => nomatch candidate.symm.trans mine
  · exact fun i p mine => nomatch entry.symm.trans mine
  · exact fun z mine => detached.symm.trans mine

theorem claimStep_exclusive {caller : Caller} {at_ : ClaimAt} (at_pc : (s.cpu c).pc = .claim caller at_)
    (taken : claimStep s c caller at_ = some s') : Exclusive s' := by
  cases at_ with
  | peek i =>
    simp only [claimStep] at taken
    split at taken
    · split at taken <;> cases taken
      · split <;> exact inv.look at_pc rfl rfl nofun nofun
      · exact inv.look at_pc rfl rfl nofun nofun
    · cases taken
      exact inv.look at_pc rfl rfl nofun nofun
  | peekCpu i p =>
    cases taken
    split <;> exact inv.look at_pc rfl rfl nofun nofun
  | acquire =>
    simp only [claimStep] at taken
    split at taken <;> cases taken
    next free => exact inv.lock free rfl rfl rfl rfl
  | scan search =>
    simp only [claimStep] at taken
    split at taken
    · split at taken <;> cases taken
      next p listed =>
        split
        · exact inv.look at_pc rfl rfl (fun _ => .inl) fun _ _ mine => by cases mine; exact listed
        · exact inv.look at_pc rfl rfl (fun _ => .inl) nofun
      · exact inv.look at_pc rfl rfl (fun _ => .inl) nofun
    · split at taken <;> cases taken
      next r chosen => exact inv.look at_pc rfl rfl (fun _ mine => .inl (chosen.trans mine)) nofun
      · exact inv.look at_pc rfl rfl nofun nofun
  | scanCpu search p =>
    have listed : Listed s p := ⟨_, inv.filed.entry c _ p (by rw [at_pc]; rfl)⟩
    simp only [claimStep] at taken
    split at taken
    · cases taken
      exact inv.look at_pc rfl rfl (fun _ => .inl) nofun
    next down =>
      have new : ∀ q, some p = some q → (s.proc q).onCpu = false ∧ Listed s q := by
        rintro q same
        cases same
        exact ⟨Bool.eq_false_iff.mpr down, listed⟩
      split at taken
      · cases taken
        exact inv.look at_pc rfl rfl (fun _ => .inl) nofun
      split at taken
      · cases taken
        exact inv.look at_pc rfl rfl (fun q mine => .inr (new q mine)) nofun
      split at taken <;> cases taken
      · exact inv.look at_pc rfl rfl (fun _ => .inl) nofun
      · exact inv.look at_pc rfl rfl (fun q mine => .inr (new q mine)) nofun
  | mark r =>
    cases taken
    refine inv.go setState_same (by rw [at_pc]; rfl) (.inl rfl) (.inl rfl) nofun ?_ nofun (.inl rfl)
    intro p found
    have before : (s.cpu c).pc.candidate = some p := by
      rw [at_pc]
      exact found
    exact ⟨inv.held.down c p before, inv.filed.candidate c p before⟩
  | take r =>
    cases taken
    exact inv.take at_pc
  | unlock r =>
    cases taken
    exact inv.unlock (.refl s) (by rw [at_pc]; rfl) rfl (by rw [at_pc]; rfl) (by rw [at_pc]; rfl) ⟨rfl, rfl, rfl, rfl⟩

theorem switchStep_exclusive {at_ : SwitchAt} (at_pc : (s.cpu c).pc = .switch at_) : Exclusive (switchStep s c at_) := by
  -- The claimed task and the one that is left are still held.
  have go : ∀ {f : Nat → Proc} {pc : Pc}, Alike s f →
      pc.locks = false → (pc.claimed = none ∨ pc.claimed = Pc.claimed (.switch at_)) →
      (pc.leaving = none ∨ pc.leaving = Pc.leaving (.switch at_)) → (∀ p, pc.dropping = some p → (s.cpu c).current ≠ some p) →
      pc.candidate = none → pc.entry = none → pc.detached = none →
      Exclusive { s with proc := f, cpu := update s.cpu c { s.cpu c with pc := pc } } := by
    intro f pc same locks claimed leaving dropped candidate entry detached
    refine inv.go same ?_ ?_ ?_ dropped ?_ ?_ (.inl detached)
    · rw [at_pc]
      exact locks
    · rw [at_pc]
      exact claimed
    · rw [at_pc]
      exact leaving
    · exact fun p mine => nomatch candidate.symm.trans mine
    · exact fun i p mine => nomatch entry.symm.trans mine
  cases at_ with
  | chosen caller r =>
    cases caller with
    | preempt | idle =>
      cases r with
      | some next => exact go (.refl s) rfl (.inr rfl) (.inl rfl) nofun rfl rfl rfl
      | none => exact go (.refl s) rfl (.inl rfl) (.inl rfl) nofun rfl rfl rfl
    | gone => exact go (.refl s) rfl (.inr rfl) (.inl rfl) nofun rfl rfl rfl
  | requeue next =>
    simp only [switchStep]
    split
    · split
      · exact go (setProc_same ⟨rfl, rfl⟩) rfl (.inr rfl) (.inl rfl) nofun rfl rfl rfl
      · exact go (.refl s) rfl (.inr rfl) (.inl rfl) nofun rfl rfl rfl
    · exact go (.refl s) rfl (.inr rfl) (.inl rfl) nofun rfl rfl rfl
  | load next =>
    refine inv.move (.refl s) ?_ (fun _ _ => Iff.rfl) ?_ nofun nofun nofun nofun
    · refine Iff.trans ?_ (inv.held.lockPc c)
      rw [at_pc]
      exact Iff.rfl
    · rintro p (current | claimed | leaving)
      · exact .inr (.inl (by rw [at_pc]; exact current))
      · exact nomatch claimed
      · exact .inl leaving
  | enter prev =>
    simp only [switchStep]
    split
    · exact go setState_same rfl (.inl rfl) (.inr rfl) nofun rfl rfl rfl
    · exact go (.refl s) rfl (.inl rfl) (.inr rfl) nofun rfl rfl rfl
  | leave prev =>
    cases prev with
    | some p =>
      simp only [switchStep]
      split
      next gone =>
        refine go (.refl s) rfl (.inl rfl) (.inr rfl) (fun q mine => ?_) rfl rfl rfl
        cases mine
        exact gone.1
      · exact go (.refl s) rfl (.inl rfl) (.inl rfl) nofun rfl rfl rfl
    | none => exact go (.refl s) rfl (.inl rfl) (.inl rfl) nofun rfl rfl rfl
  | drop p => exact inv.drop at_pc

theorem reapStep_exclusive {at_ : ReapAt} (at_pc : (s.cpu c).pc = .reap at_) (taken : reapStep s c at_ = some s') :
    Exclusive s' := by
  have kept : ∀ i p, Pc.entry (.reap at_) = some (i, p) → s.table i = some p :=
    fun i p mine => inv.filed.entry c i p (by rw [at_pc]; exact mine)
  cases at_ with
  | acquire =>
    simp only [reapStep] at taken
    split at taken <;> cases taken
    next free => exact inv.lock free rfl rfl rfl rfl
  | scan i =>
    simp only [reapStep] at taken
    split at taken
    · split at taken <;> cases taken
      next p listed =>
        split
        · exact inv.look at_pc rfl rfl nofun fun _ _ mine => by cases mine; exact listed
        · exact inv.look at_pc rfl rfl nofun nofun
      · exact inv.look at_pc rfl rfl nofun nofun
    · cases taken
      exact inv.look at_pc rfl rfl nofun nofun
  | scanCpu i p =>
    cases taken
    split
    · exact inv.look at_pc rfl rfl nofun nofun
    next down =>
      refine inv.look at_pc rfl rfl (fun q mine => .inr ?_) kept
      cases mine
      exact ⟨Bool.eq_false_iff.mpr down, i, kept i p rfl⟩
  | reapable i p =>
    simp only [reapStep] at taken
    split at taken <;> cases taken
    · exact inv.detach (by rw [at_pc]; rfl) (by rw [at_pc]; rfl)
    · exact inv.look at_pc rfl rfl (fun _ => .inl) kept
  | orphan i p j =>
    simp only [reapStep] at taken
    split at taken
    · split at taken <;> cases taken
      · split
        · exact inv.look at_pc rfl rfl nofun nofun
        · exact inv.look at_pc rfl rfl (fun _ => .inl) kept
      · exact inv.look at_pc rfl rfl (fun _ => .inl) kept
    · cases taken
      exact inv.detach (by rw [at_pc]; rfl) (by rw [at_pc]; rfl)
  | unlock z =>
    cases z with
    | some z | none =>
      cases taken
      exact inv.unlock (.refl s) (by rw [at_pc]; rfl) rfl (by rw [at_pc]; rfl) (by rw [at_pc]; rfl) ⟨rfl, rfl, rfl, rfl⟩
  | free z =>
    cases taken
    exact inv.go (setProc_same ⟨rfl, rfl⟩) (by rw [at_pc]; rfl) (.inl rfl) (.inl rfl) nofun nofun nofun (.inr (by rw [at_pc]; rfl))
  | remove z =>
    simp only [reapStep] at taken
    split at taken <;> cases taken
    exact inv.remove at_pc

theorem Exclusive.touch {ticks : Nat}
    (same : Alike s f) :
    Exclusive { s with proc := f, ticks := ticks } := by
  have still : s.cpu = update s.cpu 0 (s.cpu 0) := (update_eq_self 0 s.cpu).symm
  refine ⟨?_, ?_⟩
  · refine inv.held.move still (inv.held.lockPc 0) (fun _ _ => Iff.rfl) (fun _ => .inl) ?_ ?_ (inv.held.dropped 0) ?_
    · exact fun p up => .inl ((same p).1.symm.trans up)
    · exact fun d p mine => .inl ((same p).1.trans (inv.held.up d p mine))
    · exact fun p found => (same p).1.trans (inv.held.down 0 p found)
  · exact inv.filed.move still ⟨rfl, rfl, rfl, rfl⟩ (fun p => (same p).2) (fun _ => .inl) (inv.filed.candidate 0) (inv.filed.entry 0)
      (fun _ => id)

end

theorem casState_same {before after : Wake.ProcState} : Alike s (s.casState p before after).proc := by
  unfold State.casState
  split
  · exact setState_same
  · exact .refl s

theorem casState_frame {before after : Wake.ProcState} :
    s.casState p before after = { s with proc := (s.casState p before after).proc } := by
  unfold State.casState
  split
  · rfl
  · rfl

theorem stopRunning_exclusive {state : Wake.ProcState} (inv : Exclusive s) (taken : stopRunning s c state = some s') : Exclusive s' := by
  unfold stopRunning at taken
  split at taken
  · split at taken <;> cases taken
    next run =>
      have at_pc := Pc.eq_run run
      exact inv.go setState_same (by rw [at_pc]; rfl) (.inl rfl) (.inl rfl) nofun nofun nofun (.inl rfl)
  · exact nomatch taken

theorem createStep_exclusive {at_ : CreateAt} (inv : Exclusive s) (at_pc : (s.cpu c).pc = .create at_)
    (spared : ∀ p, at_ = .undo p → Spared s p) (taken : createStep s c at_ = some s') : Exclusive s' := by
  cases at_ with
  | build p =>
    cases taken
    exact inv.go (setProc_same ⟨rfl, rfl⟩) (by rw [at_pc]; rfl) (.inl rfl) (.inl rfl) nofun nofun nofun (.inl rfl)
  | promote p =>
    cases taken
    exact inv.go setState_same (by rw [at_pc]; rfl) (.inl rfl) (.inl rfl) nofun nofun nofun (.inl rfl)
  | publish p =>
    cases taken
    rw [casState_frame]
    exact inv.go casState_same (by rw [at_pc]; rfl) (.inl rfl) (.inl rfl) nofun nofun nofun (.inl rfl)
  | undo p =>
    obtain ⟨free, ⟨⟩⟩ := Option.ite_none_right_eq_some.mp taken
    exact inv.discard free (spared p rfl)

theorem refuse_exclusive {at_ : CreateAt} (inv : Exclusive s) (at_pc : (s.cpu c).pc = .create at_)
    (taken : refuse s c at_ = some s') : Exclusive s' := by
  cases at_ with
  | build p | promote p =>
    cases taken
    exact inv.go (setProc_same ⟨rfl, rfl⟩) (by rw [at_pc]; rfl) (.inl rfl) (.inl rfl) nofun nofun nofun (.inl rfl)
  | publish p | undo p => cases taken

theorem unloadStep_exclusive {at_ : UnloadAt} (inv : Exclusive s) (at_pc : (s.cpu c).pc = .unload at_)
    (spared : ∀ p, at_ = .remove p → Spared s p) (taken : unloadStep s c at_ = some s') : Exclusive s' := by
  cases at_ with
  | free p =>
    cases taken
    exact inv.go (setProc_same ⟨rfl, rfl⟩) (by rw [at_pc]; rfl) (.inl rfl) (.inl rfl) nofun nofun nofun (.inl rfl)
  | remove p =>
    obtain ⟨free, ⟨⟩⟩ := Option.ite_none_right_eq_some.mp taken
    exact inv.discard free (spared p rfl)

/-- The process that a step takes its kernel stack or its slot from, though nobody has reaped it. -/
def Pc.robs : Pc → Option Nat
  | .create (.undo p) | .unload (.free p) | .unload (.remove p) => some p
  | _ => none

/-- A creation that fails and `elfunload` find the process in the table and on no CPU. -/
def Careful (s : State) : Action → Prop
  | .cpu c => ∀ p ∈ (s.cpu c).pc.robs, Spared s p
  | _ => True

instance (s : State) : (a : Action) → Decidable (Careful s a)
  | .cpu c => inferInstanceAs (Decidable (∀ p ∈ (s.cpu c).pc.robs, Spared s p))
  | .preempt _ | .block _ | .stop _ | .exit _ | .reap _ | .create .. | .refuse _ | .unload .. | .tty .. | .wake _ | .continue_ _
  | .collect _ | .reparent .. | .tick => inferInstanceAs (Decidable True)

theorem step_exclusive {a : Action} (inv : Exclusive s) (careful : Careful s a) (taken : step s a = some s') : Exclusive s' := by
  cases a with
  | cpu c =>
    simp only [step] at taken
    split at taken
    · exact nomatch taken
    next caller at_ at_pc => exact claimStep_exclusive inv at_pc taken
    next at_ at_pc =>
      cases taken
      exact switchStep_exclusive inv at_pc
    next at_ at_pc => exact reapStep_exclusive inv at_pc taken
    next at_ at_pc =>
      exact createStep_exclusive inv at_pc (fun p same => careful p (by rw [at_pc, same]; rfl)) taken
    next at_ at_pc =>
      exact unloadStep_exclusive inv at_pc (fun p same => careful p (by rw [at_pc, same]; rfl)) taken
    next p at_pc =>
      cases taken
      exact inv.unlock setState_same (by rw [at_pc]; rfl) rfl (by rw [at_pc]; rfl) (by rw [at_pc]; rfl) ⟨rfl, rfl, rfl, rfl⟩
  | preempt c =>
    simp only [step] at taken
    split at taken <;> cases taken
    next run =>
      have at_pc := Pc.eq_run run
      exact inv.look at_pc rfl rfl nofun nofun
  | block c =>
    simp only [step] at taken
    split at taken
    · exact stopRunning_exclusive inv taken
    · exact nomatch taken
  | stop c => exact stopRunning_exclusive inv taken
  | exit c => exact stopRunning_exclusive inv taken
  | reap c =>
    simp only [step] at taken
    split at taken <;> cases taken
    next run =>
      have at_pc := Pc.eq_run run
      exact inv.look at_pc rfl rfl nofun nofun
  | create c pid ppid cpuPin cpuAffinity =>
    simp only [step] at taken
    split at taken <;> cases taken
    next ready => exact inv.procAdd ready.2 rfl
  | refuse c =>
    simp only [step] at taken
    split at taken
    next at_ at_pc => exact refuse_exclusive inv at_pc taken
    · cases taken
  | unload c i =>
    simp only [step] at taken
    obtain ⟨ready, taken⟩ := Option.ite_none_right_eq_some.mp taken
    obtain ⟨p, _, rfl⟩ := Option.map_eq_some_iff.mp taken
    exact inv.look (Pc.eq_run ready.1) rfl rfl nofun nofun
  | tty c i =>
    simp only [step] at taken
    split at taken
    next ready =>
      split at taken <;> cases taken
      · split
        · exact inv.lock ready.2 rfl rfl rfl rfl
        · exact inv
      · exact inv
    · exact nomatch taken
  | wake p | continue_ p =>
    cases taken
    rw [casState_frame]
    exact inv.touch casState_same
  | collect p | reparent p ppid =>
    cases taken
    exact inv.touch (setProc_same ⟨rfl, rfl⟩)
  | tick =>
    cases taken
    exact inv.touch fun _ => ⟨rfl, rfl⟩

theorem booted_exclusive (ncpu : Nat) (online : Nat → Bool) : Exclusive (booted ncpu online) := by
  have idle : ∀ c p, ¬ ((booted ncpu online).cpu c).holds p := by
    rintro c p (current | claimed | leaving)
    · exact nomatch current
    · exact nomatch claimed
    · exact nomatch leaving
  refine ⟨⟨fun _ => ⟨nofun, nofun⟩, ?_, ?_, nofun, nofun⟩, ⟨nofun, nofun, ?_, nofun, nofun, nodup_nil, nofun, nofun⟩⟩
  · exact fun c p mine => absurd mine (idle c p)
  · exact fun c d p mine => absurd mine (idle c p)
  · exact fun c p mine => absurd mine (idle c p)

theorem Cpu.holds_of_uses (uses : k.uses p) : k.holds p := by
  rcases uses with current | stack
  · exact .inl current
  · refine .inr (.inr ?_)
    generalize k.pc = pc at stack
    unfold Pc.stack at stack
    split at stack
    · exact stack
    · exact stack
    · exact nomatch stack

/-- In the table, or returned by `process_reap_one` and not yet destroyed. -/
def Owner (s : State) (p : Nat) : Prop := Listed s p ∨ ∃ c, (s.cpu c).pc.detached = some p

theorem Filed.owner_unique {p q : Nat} (inv : Filed s) (first : Owner s p) (second : Owner s q)
    (same : (s.proc p).kstackSlot = (s.proc q).kstackSlot) : p = q := by
  rcases first with ⟨i, listed⟩ | ⟨c, mine⟩
  · rcases second with ⟨j, listed'⟩ | ⟨d, mine'⟩
    · have slot : i = j := (inv.listed i p listed).1.symm.trans (same.trans (inv.listed j q listed').1)
      subst slot
      exact Option.some.inj (listed.symm.trans listed')
    · have empty := (inv.detached d q mine').2.2
      rw [← same, (inv.listed i p listed).1, listed] at empty
      cases empty
  · rcases second with ⟨j, listed'⟩ | ⟨d, mine'⟩
    · have empty := (inv.detached c p mine).2.2
      rw [same, (inv.listed j q listed').1, listed'] at empty
      cases empty
    · obtain rfl := inv.slots c d p q mine mine' same
      exact Option.some.inj (mine.symm.trans mine')

/-- On any number of CPUs and in every interleaving in which no creation fails with its child on a
CPU and `elfunload` destroys no such process: one CPU at a time runs a process or is on its kernel
stack, what `process_reap_one` returns is on no CPU and returned once, and processes that are not
destroyed have kernel-stack slots of their own. -/
theorem one_cpu_per_process (ncpu : Nat) (online : Nat → Bool) (schedule : List Action)
    (careful : Along step Careful (booted ncpu online) schedule) (run : schedule.foldlM step (booted ncpu online) = some s) :
    (∀ c d p q, (s.cpu c).uses p → (s.cpu d).uses q → p = q ∨ (s.proc p).kstackSlot = (s.proc q).kstackSlot → c = d) ∧
    (∀ p ∈ s.returned, ∀ c, ¬ (s.cpu c).uses p) ∧ s.returned.Nodup ∧
    ∀ p q, Owner s p → Owner s q → (s.proc p).kstackSlot = (s.proc q).kstackSlot → p = q := by
  have inv : Exclusive s :=
    run_keeps (fun _ _ _ inv careful taken => step_exclusive inv careful taken) (booted_exclusive ncpu online) careful run
  refine ⟨?_, ?_, inv.filed.once, fun p q first second => inv.filed.owner_unique first second⟩
  · intro c d p q first second shared
    have held := Cpu.holds_of_uses first
    have held' := Cpu.holds_of_uses second
    have same : p = q :=
      shared.elim id (inv.filed.owner_unique (.inl (inv.filed.held c p held)) (.inl (inv.filed.held d q held')))
    subst same
    exact inv.held.one c d p held held'
  · intro p member c uses
    obtain ⟨i, listed⟩ := inv.filed.held c p (Cpu.holds_of_uses uses)
    exact (inv.filed.listed i p listed).2.2.2 member

end

/-- A creation fails; then a process made on CPU 0, in the same slot, runs on CPU 1. -/
def created : List Action :=
  [.create 0 1 0 none 1, .refuse 0, .cpu 0] ++ .create 0 2 0 none 1 :: List.replicate 3 (.cpu 0) ++
    .preempt 1 :: List.replicate 12 (.cpu 1)

/-- It exits, CPU 1 leaves it, and CPU 0 reaps and destroys it. -/
def lifetime : List Action :=
  created ++ .exit 1 :: List.replicate 38 (.cpu 1) ++ .reap 0 :: List.replicate 7 (.cpu 0)

theorem process_reaped_once : ∃ s, lifetime.foldlM step (booted 2 fun _ => true) = some s ∧ s.returned = [1] ∧
    s.kstackSlotBusy 0 = false ∧ ∀ p ∈ s.returned, ∀ c, ¬ (s.cpu c).uses p := by
  have done : (lifetime.foldlM step (booted 2 fun _ => true)).map (fun s => (s.returned, s.kstackSlotBusy 0)) = some ([1], false) := by
    decide +kernel
  obtain ⟨s, run, seen⟩ := Option.map_eq_some_iff.mp done
  obtain ⟨returned, free⟩ := Prod.mk.inj seen
  exact ⟨s, run, returned, free, (one_cpu_per_process 2 _ lifetime (along_of_check (by decide +kernel)) run).2.1⟩

/-- A signal makes the child of a fork READY while it is under construction, and CPU 1 runs it.
There is no memory for its kernel stack, so the fork fails and gives its slot back; the next
process gets the slot and runs on CPU 2. -/
def robbed : List Action :=
  [.create 0 1 0 none 1, .wake 0, .preempt 1] ++ List.replicate 12 (.cpu 1) ++ [.refuse 0, .cpu 0, .create 0 2 0 none 2] ++
    List.replicate 3 (.cpu 0) ++ .preempt 2 :: List.replicate 12 (.cpu 2)

/-- `elfunload` of the process that CPU 1 runs. -/
def unloaded : List Action :=
  .create 0 1 0 none 1 :: List.replicate 3 (.cpu 0) ++ .preempt 1 :: List.replicate 12 (.cpu 1) ++ [.unload 0 0, .cpu 0, .cpu 0] ++
    .create 0 2 0 none 2 :: List.replicate 3 (.cpu 0) ++ .preempt 2 :: List.replicate 12 (.cpu 2)

/-- After the schedule CPU 1 runs process 0 and CPU 2 process 1, on one kernel stack. -/
def Robs (schedule : List Action) : Prop := ∃ s, schedule.foldlM step (booted 3 fun _ => true) = some s ∧
  (s.cpu 1).uses 0 ∧ (s.cpu 2).uses 1 ∧ (s.proc 0).kstackSlot = (s.proc 1).kstackSlot

theorem robs_of_run {schedule : List Action} (ran : ((schedule.foldlM step (booted 3 fun _ => true)).map fun s =>
    ((s.cpu 1).current, (s.cpu 2).current, (s.proc 0).kstackSlot, (s.proc 1).kstackSlot)) = some (some 0, some 1, 0, 0)) :
    Robs schedule := by
  obtain ⟨s, run, seen⟩ := Option.map_eq_some_iff.mp ran
  simp only [Prod.mk.injEq] at seen
  obtain ⟨first, second, slot, slot'⟩ := seen
  exact ⟨s, run, .inl first, .inl second, slot.trans slot'.symm⟩

/-- Both ways two CPUs are on one kernel stack, and one of them runs a process that is freed. -/
theorem stack_given_away : Robs robbed ∧ Robs unloaded := ⟨robs_of_run (by decide +kernel), robs_of_run (by decide +kernel)⟩

end SecOS.Sched
