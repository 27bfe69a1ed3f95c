import Mathlib

/-! Loops without a bound of their own. One round either leaves the loop with a result or
goes on with a new state; a computation with such loops is run with fuel, and ends when
some fuel is enough for it and more changes nothing. -/

namespace SecOS.Library
universe u
variable {σ τ ρ : Type*} {α β : Type u}

inductive Step (σ ρ : Type*) where
  | again (s : σ)
  | done (r : ρ)
deriving DecidableEq

/-- Nothing when the fuel is gone. -/
def loop (step : σ → Step σ ρ) : Nat → σ → Option ρ
  | 0, _ => none
  | fuel + 1, s =>
    match step s with
    | .again s => loop step fuel s
    | .done r => some r

def Reaches (f : Nat → Option α) (r : α) : Prop := ∃ n, ∀ m, n ≤ m → f m = some r

def Ends (f : Nat → Option α) : Prop := ∃ r, Reaches f r

theorem Reaches.of_some (r : α) : Reaches (fun _ => some r) r := ⟨0, fun _ _ => rfl⟩

theorem Ends.of_some (r : α) : Ends fun _ => some r := ⟨r, .of_some r⟩

variable {f : Nat → Option α} {g : Nat → α → Option β}

theorem Reaches.bind {r : α} {r' : β} (first : Reaches f r)
    (second : Reaches (fun n => g n r) r') : Reaches (fun n => f n >>= g n) r' := by
  obtain ⟨n, first⟩ := first
  obtain ⟨k, second⟩ := second
  refine ⟨max n k, fun m enough => ?_⟩
  have whole : (f m >>= g m) = g m r := by rw [first m (by omega)]; rfl
  exact whole.trans (second m (by omega))

theorem Ends.bind (first : Ends f) (second : ∀ r, Reaches f r → Ends fun n => g n r) :
    Ends fun n => f n >>= g n := by
  obtain ⟨r, reached⟩ := first
  obtain ⟨r', later⟩ := second r reached
  exact ⟨r', reached.bind later⟩

theorem Reaches.of_bind {r : α} {r' : β} (whole : Reaches (fun n => f n >>= g n) r')
    (first : Reaches f r) : Reaches (fun n => g n r) r' := by
  obtain ⟨k, whole⟩ := whole
  obtain ⟨n, first⟩ := first
  refine ⟨max n k, fun m enough => ?_⟩
  have total : (f m >>= g m) = some r' := whole m (by omega)
  rw [first m (by omega)] at total
  exact total

theorem Ends.map (g : α → β) (first : Ends f) : Ends fun n => g <$> f n := by
  obtain ⟨r, n, first⟩ := first
  refine ⟨g r, n, fun m enough => ?_⟩
  have whole : (g <$> f m) = some (g r) := by rw [first m enough]; rfl
  exact whole

theorem Ends.answers {g : α → β} (whole : Ends fun n => g <$> f n) : ∃ n, ∀ m, n ≤ m → (f m).isSome := by
  obtain ⟨r, n, whole⟩ := whole
  refine ⟨n, fun m enough => ?_⟩
  have total : (g <$> f m) = some r := whole m enough
  cases first : f m with
  | some r => rfl
  | none =>
    rw [first] at total
    cases total

section
variable {step : σ → Step σ ρ} {s s' : σ} {r : ρ} {n m : Nat}

theorem loop_again (more : step s = .again s') : loop step (n + 1) s = loop step n s' := by
  simp only [loop, more]

theorem loop_done (left : step s = .done r) : loop step (n + 1) s = some r := by
  simp only [loop, left]

theorem loop_more (left : loop step n s = some r) (enough : n ≤ m) : loop step m s = some r := by
  induction n generalizing s m with
  | zero => cases left
  | succ n ih =>
    obtain ⟨m, rfl⟩ : ∃ k, m = k + 1 := ⟨m - 1, by omega⟩
    cases round : step s with
    | done result =>
      rw [loop_done round] at left ⊢
      exact left
    | again next =>
      rw [loop_again round] at left ⊢
      exact ih left (by omega)

theorem ends_loop_iff : (Ends fun n => loop step n s) ↔ ∃ n, (loop step n s).isSome := by
  constructor
  · rintro ⟨r, n, reached⟩
    have left : loop step n s = some r := reached n (Nat.le_refl n)
    exact ⟨n, by rw [left]; rfl⟩
  · rintro ⟨n, left⟩
    obtain ⟨r, left⟩ := Option.isSome_iff_exists.mp left
    exact ⟨r, n, fun m enough => loop_more left enough⟩

theorem reaches_loop (left : loop step n s = some r) : Reaches (fun n => loop step n s) r := ⟨n, fun _ enough => loop_more left enough⟩

theorem Reaches.of_loop_bind {σ : Type*} {ρ : Type u} {step : σ → Step σ ρ} {s : σ} {g : Nat → ρ → Option β} {r' : β}
    (whole : Reaches (fun n => loop step n s >>= g n) r') :
    ∃ r, Reaches (fun n => loop step n s) r ∧ Reaches (fun n => g n r) r' := by
  obtain ⟨n, whole⟩ := whole
  have total : (loop step n s >>= g n) = some r' := whole n (Nat.le_refl n)
  obtain ⟨r, left, _⟩ := Option.bind_eq_some_iff.mp total
  refine ⟨r, reaches_loop left, n, fun m enough => ?_⟩
  have total : (loop step m s >>= g m) = some r' := whole m enough
  rw [loop_more left enough] at total
  exact total

theorem loop_stuck (back : step s = .again s) (n : Nat) : loop step n s = none := by
  induction n with
  | zero => rfl
  | succ n ih => rw [loop_again back, ih]

/-- A measure that every further round lowers, as long as an invariant holds. -/
theorem ends_of_measure (P : σ → Prop) (μ : σ → Nat) (less : ∀ s s', P s → step s = .again s' → P s' ∧ μ s' < μ s) (start : P s) :
    Ends fun n => loop step n s := by
  rw [ends_loop_iff]
  induction bound : μ s using Nat.strongRecOn generalizing s with
  | ind bound' ih =>
    cases round : step s with
    | done r => exact ⟨1, by rw [loop_done round]; rfl⟩
    | again next =>
      obtain ⟨kept, lower⟩ := less s next start round
      obtain ⟨n, left⟩ := ih (μ next) (bound ▸ lower) kept rfl
      exact ⟨n + 1, by rw [loop_again round]; exact left⟩

theorem Ends.again (more : step s = .again s') (later : Ends fun n => loop step n s') : Ends fun n => loop step n s := by
  rw [ends_loop_iff] at later ⊢
  obtain ⟨n, left⟩ := later
  exact ⟨n + 1, by rw [loop_again more]; exact left⟩

theorem Ends.done (left : step s = .done r) : Ends fun n => loop step n s := ends_loop_iff.mpr ⟨1, by rw [loop_done left]; rfl⟩

end
end SecOS.Library
