import SecOS.Library.Schedule
import SecOS.Wake

/-! What a step of one CPU leaves as it is: the calls of the others, and the places where a
process can be. -/

namespace SecOS.Wake
open Library

def Pc.away : Pc → Bool
  | .slept | .off => true
  | _ => false

theorem never {P : Prop} (up : false = true) : P := by cases up

section
variable {s s' : State} {n m : Nat} {c : Call}

theorem call_self : (s.setCall n c).call n = c := Function.update_self ..

theorem call_other (other : m ≠ n) : (s.setCall n c).call m = s.call m := Function.update_of_ne other _ _

theorem exists_call {P : Call → Prop} (found : ∃ m, P (s.call m)) (moves : P (s.call n) → P c) : ∃ m, P ((s.setCall n c).call m) := by
  obtain ⟨m, holds⟩ := found
  by_cases here : m = n
  · subst here
    exact ⟨m, by rw [call_self]; exact moves holds⟩
  · exact ⟨m, by rw [call_other here]; exact holds⟩

theorem forall_call {P : Nat → Call → Prop} (all : ∀ m, P m (s.call m)) (moves : P n c) (m : Nat) : P m ((s.setCall n c).call m) := by
  by_cases here : m = n
  · subst here
    rw [call_self]
    exact moves
  · rw [call_other here]
    exact all m

theorem Pc.eq_user {pc : Pc} (user : pc.isUser = true) : pc = .user := by
  cases pc with
  | user => rfl
  | _ => exact nomatch user

theorem Pc.eq_off {pc : Pc} (off : pc.isOff = true) : pc = .off := by
  cases pc with
  | off => rfl
  | _ => exact nomatch off

theorem Call.eq_out (out : c.isOut = true) : c = .out := by
  cases c with
  | out => rfl
  | _ => exact nomatch out

def Action.caller : Action → Option Nat
  | .wake n _ | .post n _ | .call n => some n
  | _ => none

theorem taskStep_call {pc : Pc} (taken : taskStep s pc = some s') : s'.call = s.call := by
  cases pc with
  | user | off => exact nomatch taken
  | armed f =>
    obtain ⟨_, ⟨⟩⟩ := Option.ite_none_right_eq_some.mp taken
    rfl
  | taken sig =>
    simp only [taskStep] at taken
    split at taken
    · cases taken
      rfl
    split at taken
    · cases taken
      rfl
    split at taken
    · cases taken
      rfl
    · split at taken
      all_goals
        cases taken
        rfl
    · cases taken
      rfl
  | _ =>
    cases taken
    rfl

theorem wakeStep_call {w : Waker} {stage : WakeAt} (other : m ≠ n) (taken : wakeStep s n w stage = some s') : s'.call m = s.call m := by
  cases stage with
  | bumped =>
    obtain ⟨_, ⟨⟩⟩ := Option.ite_none_right_eq_some.mp taken
    exact call_other other
  | scan rest =>
    cases rest with
    | nil | cons =>
      cases taken
      exact call_other other
  | cleared rest =>
    simp only [wakeStep] at taken
    split at taken
    all_goals
      cases taken
      exact call_other other
  | _ =>
    cases taken
    exact call_other other

theorem postStep_call {sig : Nat} {stage : PostAt} (other : m ≠ n) : (postStep s n sig stage).call m = s.call m := by
  cases stage with
  | start =>
    simp only [postStep]
    split
    · exact call_other other
    split
    · exact call_other other
    · split <;> exact call_other other
  | wakeStopped | judge | wakeBlocked =>
    simp only [postStep]
    split <;> exact call_other other
  | _ => exact call_other other

theorem step_call {a : Action} (other : a.caller ≠ some m) (taken : step s a = some s') : s'.call m = s.call m := by
  cases a with
  | task => rw [taskStep_call taken]
  | wake n w =>
    have here : m ≠ n := fun same => other (congrArg some same.symm)
    obtain ⟨_, ⟨⟩⟩ := Option.ite_none_right_eq_some.mp taken
    exact call_other here
  | post n sig =>
    have here : m ≠ n := fun same => other (congrArg some same.symm)
    obtain ⟨_, ⟨⟩⟩ := Option.ite_none_right_eq_some.mp taken
    exact call_other here
  | call n =>
    have here : m ≠ n := fun same => other (congrArg some same.symm)
    simp only [step] at taken
    split at taken
    · exact nomatch taken
    · exact wakeStep_call here taken
    · cases taken
      exact postStep_call here
  | consume f | note =>
    cases taken
    rfl
  | dispatch =>
    simp only [step] at taken
    split at taken
    · split at taken
      all_goals
        cases taken
        rfl
    · exact nomatch taken
  | _ =>
    obtain ⟨_, ⟨⟩⟩ := Option.ite_none_right_eq_some.mp taken
    rfl

theorem run_call {schedule : List Action} (others : ∀ a ∈ schedule, a.caller ≠ some m) (run : schedule.foldlM step s = some s') :
    s'.call m = s.call m := by
  have keeps : ∀ t a t', t.call m = s.call m → a.caller ≠ some m → step t a = some t' → t'.call m = s.call m :=
    fun t a t' same other taken => (step_call other taken).trans same
  exact run_keeps keeps rfl (along_of_forall fun a member _ => others a member) run

end
end SecOS.Wake
