import Mathlib

/-! Systems that take one enabled step at a time. A schedule is the list of the
actions taken; it runs to a state when every action is enabled where it is taken. -/

namespace SecOS.Library
open List
variable {σ α : Type*}

/-- Every action of the schedule meets `ok` in the state it is taken from. -/
def Along (step : σ → α → Option σ) (ok : σ → α → Prop) : σ → List α → Prop
  | _, [] => True
  | s, a :: rest => ok s a ∧ ∀ s', step s a = some s' → Along step ok s' rest

section
variable {step : σ → α → Option σ} {ok : σ → α → Prop} {P : σ → Prop}

theorem run_keeps (keeps : ∀ s a s', P s → ok s a → step s a = some s' → P s') {schedule : List α} :
    ∀ {s s' : σ}, P s → Along step ok s schedule → schedule.foldlM step s = some s' → P s' := by
  induction schedule with
  | nil =>
    intro s s' start _ run
    cases run
    exact start
  | cons a rest ih =>
    intro s s' start along run
    rw [foldlM_cons] at run
    obtain ⟨next, taken, run⟩ := Option.bind_eq_some_iff.mp run
    exact ih (keeps s a next start along.1 taken) (along.2 next taken) run

theorem Along.cons {a : α} {rest : List α} {s next : σ} (met : ok s a) (taken : step s a = some next)
    (later : Along step ok next rest) : Along step ok s (a :: rest) := by
  refine ⟨met, fun s' again => ?_⟩
  obtain rfl := Option.some.inj (taken.symm.trans again)
  exact later

theorem along_of_forall : ∀ {schedule : List α} {s : σ}, (∀ a ∈ schedule, ∀ s, ok s a) → Along step ok s schedule
  | [], _, _ => trivial
  | _ :: _, s, all => ⟨all _ mem_cons_self s, fun _ _ => along_of_forall fun a member => all a (mem_cons_of_mem _ member)⟩

/-- Where `ok` can be decided, so can it be along a schedule, by taking its steps. -/
def alongCheck (step : σ → α → Option σ) (ok : σ → α → Prop) [∀ s a, Decidable (ok s a)] : σ → List α → Bool
  | _, [] => true
  | s, a :: rest => decide (ok s a) && (step s a).all fun s' => alongCheck step ok s' rest

theorem along_of_check [∀ s a, Decidable (ok s a)] : ∀ {schedule : List α} {s : σ}, alongCheck step ok s schedule = true →
    Along step ok s schedule
  | [], _, _ => trivial
  | a :: rest, s, checked => by
    obtain ⟨met, later⟩ := (Bool.and_eq_true _ _).mp checked
    refine ⟨of_decide_eq_true met, fun s' taken => along_of_check ?_⟩
    rwa [taken] at later

theorem run_invariant (keeps : ∀ s a s', P s → step s a = some s' → P s') {schedule : List α} {s s' : σ} (start : P s)
    (run : schedule.foldlM step s = some s') : P s' := by
  have permitted : ∀ s a s', P s → True → step s a = some s' → P s' := fun s a s' held _ => keeps s a s' held
  exact run_keeps permitted start (along_of_forall fun _ _ _ => trivial) run

end

/-- Every action of the list meets `ok` in the state it is taken from. -/
def Permitted (step : σ → α → σ) (ok : σ → α → Prop) : σ → List α → Prop
  | _, [] => True
  | s, a :: rest => ok s a ∧ Permitted step ok (step s a) rest

section
variable {step : σ → α → σ} {ok : σ → α → Prop} {P : σ → Prop}

theorem foldl_keeps (keeps : ∀ s a, P s → ok s a → P (step s a)) {actions : List α} :
    ∀ {s : σ}, P s → Permitted step ok s actions → P (actions.foldl step s) := by
  induction actions with
  | nil => exact fun start _ => start
  | cons a rest ih => exact fun start permitted => ih (keeps _ a start permitted.1) permitted.2

theorem permitted_of_forall : ∀ {actions : List α} {s : σ}, (∀ a ∈ actions, ∀ s, ok s a) → Permitted step ok s actions
  | [], _, _ => trivial
  | _ :: _, s, all => ⟨all _ mem_cons_self s, permitted_of_forall fun a member => all a (mem_cons_of_mem _ member)⟩

theorem foldl_invariant (keeps : ∀ s a, P s → P (step s a)) (actions : List α) : ∀ {s : σ}, P s → P (actions.foldl step s) := by
  induction actions with
  | nil => exact fun start => start
  | cons a rest ih => exact fun start => ih (keeps _ a start)

theorem Permitted.before {pre post : List α} {a : α} : ∀ {s : σ}, Permitted step ok s (pre ++ a :: post) →
    Permitted step ok s pre ∧ ok (pre.foldl step s) a := by
  induction pre with
  | nil => exact fun permitted => ⟨trivial, permitted.1⟩
  | cons b pre ih =>
    intro s permitted
    obtain ⟨earlier, met⟩ := ih permitted.2
    exact ⟨⟨permitted.1, earlier⟩, met⟩

theorem permitted_congr {ok' : σ → α → Prop} (keeps : ∀ s a, P s → P (step s a)) (same : ∀ s a, P s → (ok s a ↔ ok' s a))
    (actions : List α) : ∀ {s : σ}, P s → (Permitted step ok s actions ↔ Permitted step ok' s actions) := by
  induction actions with
  | nil => exact fun _ => Iff.rfl
  | cons a rest ih => exact fun start => and_congr (same _ a start) (ih (keeps _ a start))

end
end SecOS.Library
