import SecOS.Bkl
import SecOS.Library.Schedule

/-! The kernel lock excludes and counts. The depth is written only by the owner, by one that has
just become it or by one that is about to stop being it. -/

namespace SecOS.Bkl
open Library Function

/-- The depth while an owner has the lock, as far as its code has come. -/
def Holding (depth calls : Nat) : Pc → Prop
  | .out | .enter _ | .deepen _ => depth = calls ∧ 0 < calls
  | .lower => depth = calls + 1
  | .won _ | .restore _ | .clear _ | .free _ => calls = 0
  | .spin _ | .dropped => False

/-- Where the code of an owner can be without the lock. -/
def Resting : Pc → Prop
  | .out | .enter _ | .spin _ | .dropped => True
  | _ => False

def Pc.resumes : Pc → Option Nat
  | .enter resume | .deepen resume | .spin resume | .won resume => resume
  | .restore d => some d
  | _ => none

def Pc.pending : Pc → Nat
  | .enter none | .deepen none | .lower => 1
  | _ => 0

structure Fine (owned : Prop) (depth calls saved paused : Nat) (pc : Pc) : Prop where
  holding : owned → Holding depth calls pc
  resting : ¬owned → calls = 0 ∧ Resting pc
  resuming : ∀ d, pc.resumes = some d → d = paused ∧ calls = 0 ∧ 0 < d
  saved : saved = paused ∧ paused < 2 ^ 32
  small : calls + pc.pending < 2 ^ 32

def Good (s : State) (a : Owner) : Prop := Fine (s.owner = some a) s.depth (s.calls a) (s.saved a) (s.paused a) (s.pc a)

section
variable {s s' : State} {a : Owner}

theorem good_of_own (good : ∀ b, Good s b)
    (others : ∀ b, b ≠ a → s'.pc b = s.pc b ∧ s'.calls b = s.calls b ∧ s'.saved b = s.saved b ∧ s'.paused b = s.paused b)
    (turn : (s'.owner = s.owner ∧ s'.depth = s.depth) ∨
      ((s.owner = none ∨ s.owner = some a) ∧ (s'.owner = none ∨ s'.owner = some a))) (own : Good s' a) : ∀ b, Good s' b := by
  intro b
  by_cases same : b = a
  · exact same ▸ own
  obtain ⟨pc, calls, saved, paused⟩ := others b same
  have fine := good b
  unfold Good at fine ⊢
  rw [pc, calls, saved, paused]
  rcases turn with ⟨owner, depth⟩ | ⟨before, after⟩
  · rwa [owner, depth]
  · have apart : ∀ o : Option Owner, o = none ∨ o = some a → o ≠ some b := by
      rintro o (rfl | rfl) held
      · exact nomatch held
      · exact same (Option.some.inj held).symm
    exact ⟨fun held => absurd held (apart _ after), fun _ => fine.resting (apart _ before), fine.resuming, fine.saved, fine.small⟩

theorem goto_good {pc : Pc} (good : ∀ b, Good s b) (own : Fine (s.owner = some a) s.depth (s.calls a) (s.saved a) (s.paused a) pc) :
    ∀ b, Good (s.goto a pc) b := by
  refine good_of_own good (fun b apart => ⟨update_of_ne apart _ _, rfl, rfl, rfl⟩) (.inl ⟨rfl, rfl⟩) ?_
  simp only [Good, State.goto, update_self]
  exact own

theorem write_good {owner : Option Owner} {depth calls : Nat} {pc : Pc} (good : ∀ b, Good s b) (before : s.owner = none ∨ s.owner = some a)
    (after : owner = none ∨ owner = some a) (own : Fine (owner = some a) depth calls (s.saved a) (s.paused a) pc) :
    ∀ b, Good (({ s with owner := owner, depth := depth }.count a calls).goto a pc) b := by
  refine good_of_own good (fun b apart => ⟨update_of_ne apart _ _, update_of_ne apart _ _, rfl, rfl⟩)
    (.inr ⟨before, after⟩) ?_
  simp only [Good, State.goto, State.count, update_self]
  exact own

theorem count_self (s : State) (a : Owner) : s.count a (s.calls a) = s := by
  rw [State.count, update_eq_self]

theorem acquired_good {depth : Nat} {resume : Option Nat} (good : ∀ b, Good s b) (held : s.owner = some a)
    (asked : (s.pc a).resumes = resume) (room : s.calls a + 1 < 2 ^ 32) (deep : resume = none → depth = s.calls a + 1) :
    ∀ b, Good ({ s with depth := depth }.acquired a resume) b := by
  have fine := good a
  cases resume with
  | none =>
    refine write_good good (.inr held) (.inr held) ?_
    exact ⟨fun _ => ⟨deep rfl, Nat.succ_pos _⟩, fun free => absurd held free, nofun, fine.saved, room⟩
  | some d =>
    have resuming := fine.resuming d asked
    rw [← count_self { s with depth := depth } a]
    refine write_good good (.inr held) (.inr held) ⟨fun _ => resuming.2.1, fun free => absurd held free, ?_, fine.saved, Nat.lt_of_succ_lt room⟩
    exact fun e same => Option.some.inj same ▸ resuming

theorem advance_good (good : ∀ b, Good s b) (taken : advance s a = some s') : ∀ b, Good s' b := by
  have fine : Fine _ _ _ _ _ (s.pc a) := good a
  have small := fine.small
  have held : ¬Resting (s.pc a) → s.owner = some a := fun busy => by_contra fun free => busy (fine.resting free).2
  unfold advance at taken
  cases at_a : s.pc a with
  | out => rw [at_a] at taken; cases taken
  | dropped => rw [at_a] at taken; cases taken
  | enter resume =>
    rw [at_a] at taken fine small
    cases taken
    by_cases mine : s.owner = some a
    · rw [if_pos mine]
      exact goto_good good ⟨fun _ => fine.holding mine, fun free => absurd mine free, fine.resuming, fine.saved, by cases resume <;> exact small⟩
    · rw [if_neg mine]
      have calls := (fine.resting mine).1
      refine goto_good good ⟨fun now => absurd now mine, fun _ => ⟨calls, trivial⟩, fine.resuming, fine.saved, ?_⟩
      simp only [calls, Pc.pending]
      decide
  | deepen resume =>
    rw [at_a] at taken fine small held
    cases taken
    obtain ⟨depth, _⟩ := fine.holding (held id)
    have room : s.calls a + 1 < 2 ^ 32 := by
      cases resume with
      | none => exact small
      | some d =>
        rw [(fine.resuming d rfl).2.1]
        decide
    exact acquired_good good (held id) (by rw [at_a]; rfl) room (fun _ => by rw [depth, Nat.mod_eq_of_lt room])
  | spin resume =>
    rw [at_a] at taken fine
    cases taken
    split
    next empty =>
      have calls := (fine.resting (by rw [empty]; exact nofun)).1
      rw [← count_self { s with owner := some a } a]
      refine write_good good (.inl empty) (.inr rfl) ⟨fun _ => calls, fun free => absurd rfl free, fine.resuming, fine.saved, ?_⟩
      simp only [calls, Pc.pending]
      decide
    · exact good
  | won resume =>
    rw [at_a] at taken fine held
    cases taken
    have calls : s.calls a = 0 := fine.holding (held id)
    exact acquired_good good (held id) (by rw [at_a]; rfl) (by rw [calls]; decide) (fun _ => by rw [calls])
  | restore d =>
    rw [at_a] at taken fine held
    cases taken
    obtain ⟨same, _, some_⟩ := fine.resuming d rfl
    exact write_good good (.inr (held id)) (.inr (held id))
      ⟨fun _ => ⟨same, same ▸ some_⟩, fun free => absurd (held id) free, nofun, fine.saved, fine.saved.2⟩
  | lower =>
    rw [at_a] at taken fine small held
    cases taken
    have depth : s.depth = s.calls a + 1 := fine.holding (held id)
    have less : (s.depth + 2 ^ 32 - 1) % 2 ^ 32 = s.calls a := by
      unfold Pc.pending at small
      omega
    rw [less, ← count_self { s with depth := s.calls a } a]
    refine write_good good (.inr (held id)) (.inr (held id)) ⟨fun _ => ?_, fun free => absurd (held id) free, ?_, fine.saved, ?_⟩
    · split
      next none => exact none
      next more => exact ⟨rfl, Nat.pos_of_ne_zero more⟩
    · split <;> exact nofun
    · split <;> exact Nat.lt_of_succ_lt small
  | clear drop =>
    rw [at_a] at taken fine small held
    cases taken
    rw [← count_self { s with depth := 0 } a]
    exact write_good good (.inr (held id)) (.inr (held id)) ⟨fun _ => fine.holding (held id), fun free => absurd (held id) free, nofun, fine.saved, small⟩
  | free drop =>
    rw [at_a] at taken fine small held
    cases taken
    rw [← count_self { s with owner := none } a]
    refine write_good good (.inr (held id)) (.inl rfl) ⟨nofun, fun _ => ⟨fine.holding (held id), ?_⟩, ?_, fine.saved, ?_⟩
    · split <;> trivial
    · split <;> exact nofun
    · split <;> exact small

theorem step_good {action : Action} (good : ∀ b, Good s b) (taken : step s action = some s') : ∀ b, Good s' b := by
  have at_out : ∀ {c}, s.pc (s.self c) = .out →
      Fine (s.owner = some (s.self c)) s.depth (s.calls (s.self c)) (s.saved (s.self c)) (s.paused (s.self c)) .out :=
    fun here => here ▸ good _
  cases action with
  | lock c =>
    rw [step] at taken
    split at taken <;> cases taken
    next asked =>
      have fine := at_out asked.1
      exact goto_good good ⟨fine.holding, fun free => ⟨(fine.resting free).1, trivial⟩, nofun, fine.saved, asked.2⟩
  | unlock c =>
    rw [step] at taken
    split at taken <;> [cases taken; split at taken <;> cases taken]
    next here held =>
      have fine := at_out (not_not.mp here)
      obtain ⟨depth, some_⟩ := fine.holding held
      have back : s.calls (s.self c) - 1 + 1 = s.calls (s.self c) := Nat.sub_add_cancel some_
      exact write_good good (.inr held) (.inr held)
        ⟨fun _ => depth.trans back.symm, fun free => absurd held free, nofun, fine.saved, back.symm ▸ fine.small⟩
    · exact good
  | suspend c =>
    rw [step] at taken
    split at taken <;> [cases taken; split at taken <;> cases taken]
    next here held =>
      have fine := at_out (not_not.mp here)
      refine good_of_own good (fun b apart => ⟨update_of_ne apart _ _, update_of_ne apart _ _,
        update_of_ne apart _ _, update_of_ne apart _ _⟩) (.inr ⟨.inr held, .inr held⟩) ?_
      simp only [Good, State.goto, State.count, update_self]
      exact ⟨fun _ => rfl, fun free => absurd held free, nofun, ⟨(fine.holding held).1, fine.small⟩, by decide⟩
    next here free =>
      have fine := at_out (not_not.mp here)
      refine good_of_own good (fun b apart => ⟨rfl, rfl, update_of_ne apart _ _, update_of_ne apart _ _⟩)
        (.inl ⟨rfl, rfl⟩) ?_
      simp only [Good, update_self, not_not.mp here]
      exact ⟨fine.holding, fine.resting, nofun, by decide, fine.small⟩
  | resume c =>
    rw [step] at taken
    split at taken <;> cases taken
    next asked =>
      split
      · exact good
      next some_ =>
        have fine := at_out asked.1
        refine goto_good good ⟨fine.holding, fun free => ⟨(fine.resting free).1, trivial⟩, ?_, fine.saved, fine.small⟩
        exact fun d same => Option.some.inj same ▸ ⟨fine.saved.1, asked.2, Nat.pos_of_ne_zero some_⟩
  | dropFor c =>
    rw [step] at taken
    split at taken <;> [cases taken; split at taken <;> cases taken]
    next here held =>
      have fine := at_out (not_not.mp here)
      exact write_good good (.inr held) (.inr held) ⟨fun _ => rfl, fun free => absurd held free, nofun, fine.saved, by decide⟩
    next here free =>
      have fine := at_out (not_not.mp here)
      exact goto_good good ⟨fun held => absurd held free, fun _ => ⟨(fine.resting free).1, trivial⟩, nofun, fine.saved, fine.small⟩
  | next c => exact advance_good good taken
  | switch c next =>
    rw [step] at taken
    split at taken
    next left =>
      cases taken
      have fine : Fine _ _ _ _ _ (s.pc (s.self c)) := good (s.self c)
      rw [left] at fine
      exact goto_good good ⟨fun held => (fine.holding held).elim, fun free => ⟨(fine.resting free).1, trivial⟩, nofun, fine.saved, fine.small⟩
    · split at taken <;> cases taken
      exact good

end

/-- Only the owner has lock calls open, and the depth is their number whenever its code is outside
of the lock functions; a resumed owner gets its depth back, and a dropped one is not the owner. -/
structure Mutex (s : State) : Prop where
  owned : ∀ a, 0 < s.calls a → s.owner = some a
  counted : ∀ a, s.owner = some a → s.pc a = .out → s.depth = s.calls a
  resumed : ∀ a d s', s.pc a = .restore d → advance s a = some s' → s'.depth = s.paused a ∧ s'.calls a = s.paused a
  dropped : ∀ a, s.pc a = .dropped → s.owner ≠ some a

theorem kernel_lock_mutex (schedule : List Action) (s : State) (ran : schedule.foldlM step boot = some s) : Mutex s := by
  have start : ∀ b, Good boot b := fun _ => ⟨nofun, fun _ => ⟨rfl, trivial⟩, nofun, ⟨rfl, Nat.two_pow_pos 32⟩, Nat.two_pow_pos 32⟩
  have good : ∀ b, Good s b := run_invariant (fun _ _ _ => step_good) start ran
  refine ⟨fun a some_ => ?_, fun a held out => ?_, fun a d s' at_a taken => ?_, fun a at_a held => ?_⟩
  · by_contra free
    exact absurd ((good a).resting free).1 (Nat.ne_of_gt some_)
  · have holding := (good a).holding held
    rw [out] at holding
    exact holding.1
  · have resuming := (good a).resuming d (by rw [at_a]; rfl)
    rw [advance, at_a] at taken
    cases taken
    exact ⟨resuming.1, update_self ..⟩
  · have holding := (good a).holding held
    rw [at_a] at holding
    exact holding

/-- Task 7 on CPU 0 takes the lock twice, and task 8 on CPU 1 waits for it. Task 7 suspends it,
task 8 takes and releases it, and task 7 resumes it at its depth. -/
def sampleSchedule : List Action :=
  [.switch 0 (some 7), .switch 1 (some 8), .lock 0, .next 0, .next 0, .next 0, .lock 0, .next 0, .next 0,
    .lock 1, .next 1, .next 1, .suspend 0, .next 0, .next 0, .next 1, .next 1, .unlock 1, .next 1, .next 1, .next 1,
    .resume 0, .next 0, .next 0, .next 0, .next 0]

theorem sample_mutex : ∃ s, sampleSchedule.foldlM step boot = some s ∧ (s.owner = some (.task 7) ∧ s.depth = 2) ∧ Mutex s := by
  have held : (sampleSchedule.foldlM step boot).any (fun s => decide (s.owner = some (.task 7) ∧ s.depth = 2)) = true := by
    decide +kernel
  cases ran : sampleSchedule.foldlM step boot with
  | none =>
    rw [ran] at held
    cases held
  | some s =>
    rw [ran] at held
    exact ⟨s, rfl, of_decide_eq_true held, kernel_lock_mutex sampleSchedule s ran⟩

end SecOS.Bkl
