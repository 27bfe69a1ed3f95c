import SecOS.Library.Schedule
import SecOS.RxPoll

/-! No kick is lost: there is always a context that will still look at it, the holder of the lock
or one that has just set it. -/

namespace SecOS.RxPoll
open Library Function List

def Pc.holds : Pc → Bool
  | .testing | .clearing | .cleared | .polling | .leaving => true
  | _ => false

def Pc.looks : Pc → Bool
  | .trying | .rechecking => true
  | pc => pc.holds

/-- The last call is being answered: its kick is set or about to be, or a poll is about to start. -/
def State.Pending (s : State) : Prop := s.rxKick = true ∨ ∃ n, s.pc n = .entry ∨ s.pc n = .cleared

structure Sound (s : State) : Prop where
  alone : ∀ m n, (s.pc m).holds = true → (s.pc n).holds = true → m = n
  held : s.locked = true ↔ ∃ n, (s.pc n).holds = true
  seen : s.rxKick = true → ∃ n, (s.pc n).looks = true
  answered : ∀ pre n post, s.log = pre ++ .called n :: post → (∃ m, .polled m ∈ post) ∨ s.Pending

section
variable {s s' : State} {n : Nat} {pc : Pc}

theorem exists_moved {P : Pc → Prop} (moves : P (s.pc n) → P pc) (found : ∃ m, P (s.pc m)) : ∃ m, P (update s.pc n pc m) := by
  obtain ⟨m, holds⟩ := found
  by_cases here : m = n
  · subst here
    exact ⟨m, by rw [update_self]; exact moves holds⟩
  · exact ⟨m, by rw [update_of_ne here]; exact holds⟩

section
variable (sound : Sound s)
include sound

theorem alone_moved (moves : pc.holds = true → (s.pc n).holds = true) :
    ∀ m m', (update s.pc n pc m).holds = true → (update s.pc n pc m').holds = true → m = m' := by
  have back : ∀ m, (update s.pc n pc m).holds = true → (s.pc m).holds = true := by
    intro m holds
    by_cases here : m = n
    · subst here
      rw [update_self] at holds
      exact moves holds
    · rwa [update_of_ne here] at holds
  exact fun m m' first last => sound.alone m m' (back m first) (back m' last)

theorem released (holds : (s.pc n).holds = true) (lets : pc.holds = false) :
    ¬∃ m, (update s.pc n pc m).holds = true := by
  rintro ⟨m, still⟩
  by_cases here : m = n
  · subst here
    rw [update_self, lets] at still
    exact nomatch still
  · rw [update_of_ne here] at still
    exact here (sound.alone m n still holds)

theorem held_moved (same : pc.holds = (s.pc n).holds) : s.locked = true ↔ ∃ m, (update s.pc n pc m).holds = true := by
  refine sound.held.trans ⟨exists_moved (P := fun pc => pc.holds = true) fun holds => same ▸ holds, ?_⟩
  rintro ⟨m, holds⟩
  refine ⟨m, ?_⟩
  by_cases here : m = n
  · subst here
    rwa [update_self, same] at holds
  · rwa [update_of_ne here] at holds

theorem seen_moved (looks : (s.pc n).looks = true → pc.looks = true) (kick : s.rxKick = true) :
    ∃ m, (update s.pc n pc m).looks = true :=
  exists_moved (P := fun pc => pc.looks = true) looks (sound.seen kick)

theorem answered_moved (stays : s.pc n ≠ .entry ∧ s.pc n ≠ .cleared) (pre : List Mark) (k : Nat) (post : List Mark)
    (shape : s.log = pre ++ .called k :: post) : (∃ m, .polled m ∈ post) ∨ (s.goto n pc).Pending := by
  rcases sound.answered pre k post shape with done | kick | waits
  · exact .inl done
  · exact .inr (.inl kick)
  · refine .inr (.inr ?_)
    exact exists_moved (P := fun pc => pc = .entry ∨ pc = .cleared)
      (fun here => here.elim (fun entry => absurd entry stays.1) (fun cleared => absurd cleared stays.2)) waits

theorem Sound.moved (same : pc.holds = (s.pc n).holds)
    (looks : s.rxKick = true → ∃ m, (update s.pc n pc m).looks = true) (stays : s.pc n ≠ .entry ∧ s.pc n ≠ .cleared) :
    Sound (s.goto n pc) :=
  ⟨alone_moved sound fun holds => same ▸ holds, held_moved sound same, looks, answered_moved sound stays⟩

theorem called_sound (here : s.pc n = .out) : Sound ((s.note (.called n)).goto n .entry) where
  alone := alone_moved (s := s) sound nofun
  held := held_moved (s := s) sound (by rw [here]; rfl)
  seen := seen_moved sound (by rw [here]; exact nofun)
  answered _ _ _ _ := .inr (.inr ⟨n, .inl (update_self ..)⟩)

theorem kicked_sound (here : s.pc n = .entry) : Sound ({ s with rxKick := true }.goto n .trying) where
  alone := alone_moved (s := s) sound nofun
  held := held_moved (s := s) sound (by rw [here]; rfl)
  seen _ := ⟨n, by simp only [State.goto, update_self]; rfl⟩
  answered _ _ _ _ := .inr (.inl rfl)

/-- A context that finds the lock held leaves the kick to the holder. -/
theorem refused_sound (here : s.pc n = .trying) (busy : s.locked = true) : Sound (s.goto n .out) := by
  refine sound.moved (by rw [here]; rfl) (fun _ => ?_) (by rw [here]; exact ⟨nofun, nofun⟩)
  obtain ⟨m, holds⟩ := sound.held.mp busy
  have other : m ≠ n := by
    rintro rfl
    rw [here] at holds
    exact nomatch holds
  refine ⟨m, ?_⟩
  rw [update_of_ne other]
  cases place : s.pc m with
  | testing | clearing | cleared | polling | leaving => rfl
  | out | entry | trying | rechecking =>
    rw [place] at holds
    exact nomatch holds

theorem taken_sound (here : s.pc n = .trying) (free : s.locked = false) :
    Sound ({ s with locked := true }.goto n .testing) where
  alone := by
    have nobody : ∀ m, m ≠ n → (update s.pc n .testing m).holds = true → False := by
      intro m other holds
      rw [update_of_ne other] at holds
      rw [sound.held.mpr ⟨m, holds⟩] at free
      exact nomatch free
    intro m m' first last
    by_cases left : m = n
    · by_cases right : m' = n
      · exact left.trans right.symm
      · exact (nobody m' right last).elim
    · exact (nobody m left first).elim
  held := ⟨fun _ => ⟨n, by simp only [State.goto, update_self]; rfl⟩, fun _ => rfl⟩
  seen := seen_moved sound fun _ => rfl
  answered := answered_moved (s := s) sound (by rw [here]; exact ⟨nofun, nofun⟩)

theorem cleared_sound (here : s.pc n = .clearing) : Sound ({ s with rxKick := false }.goto n .cleared) where
  alone := alone_moved (s := s) sound fun _ => by rw [here]; rfl
  held := held_moved (s := s) sound (by rw [here]; rfl)
  seen := nofun
  answered _ _ _ _ := .inr (.inr ⟨n, .inr (update_self ..)⟩)

theorem polled_sound (here : s.pc n = .cleared) : Sound ((s.note (.polled n)).goto n .polling) where
  alone := alone_moved (s := s) sound fun _ => by rw [here]; rfl
  held := held_moved (s := s) sound (by rw [here]; rfl)
  seen := seen_moved sound fun _ => rfl
  answered pre k post shape := by
    change s.log ++ [.polled n] = pre ++ .called k :: post at shape
    left
    rcases eq_nil_or_concat post with rfl | ⟨rest, last, rfl⟩
    · have ends := congrArg List.getLast? shape
      simp at ends
    · refine ⟨n, ?_⟩
      have ends := congrArg List.getLast? shape
      simp only [getLast?_concat, concat_eq_append, ← cons_append, ← append_assoc, Option.some.injEq] at ends
      rw [concat_eq_append, ← ends]
      exact mem_append_cons_self

theorem released_sound (here : s.pc n = .leaving) : Sound ({ s with locked := false }.goto n .rechecking) where
  alone := alone_moved (s := s) sound nofun
  held := ⟨nofun, fun still => absurd still (released (s := s) sound (by rw [here]; rfl) rfl)⟩
  seen := seen_moved sound fun _ => rfl
  answered := answered_moved (s := s) sound (by rw [here]; exact ⟨nofun, nofun⟩)

theorem step_sound (n : Nat) : Sound (step s n) := by
  unfold step
  cases here : s.pc n with
  | out => exact called_sound sound here
  | entry => exact kicked_sound sound here
  | trying =>
    dsimp only
    split
    next busy => exact refused_sound sound here busy
    next free => exact taken_sound sound here (by simpa using free)
  | testing =>
    dsimp only
    split
    · exact sound.moved (by rw [here]; rfl) (seen_moved sound fun _ => rfl) (by rw [here]; exact ⟨nofun, nofun⟩)
    · exact sound.moved (by rw [here]; rfl) (seen_moved sound fun _ => rfl) (by rw [here]; exact ⟨nofun, nofun⟩)
  | clearing => exact cleared_sound sound here
  | cleared => exact polled_sound sound here
  | polling => exact sound.moved (by rw [here]; rfl) (seen_moved sound fun _ => rfl) (by rw [here]; exact ⟨nofun, nofun⟩)
  | leaving => exact released_sound sound here
  | rechecking =>
    dsimp only
    split
    · exact sound.moved (by rw [here]; rfl) (seen_moved sound fun _ => rfl) (by rw [here]; exact ⟨nofun, nofun⟩)
    next quiet => exact sound.moved (by rw [here]; rfl) (fun kick => absurd kick quiet) (by rw [here]; exact ⟨nofun, nofun⟩)

end

end

theorem registered_sound : Sound registered where
  alone := nofun
  held := ⟨nofun, fun ⟨_, holds⟩ => nomatch holds⟩
  seen := nofun
  answered pre n post shape := by
    have member : Mark.called n ∈ registered.log := by
      rw [shape]
      exact mem_append_cons_self
    exact nomatch member

theorem run_sound (schedule : List Nat) : Sound (run registered schedule) :=
  foldl_invariant (P := Sound) (fun _ n sound => step_sound sound n) schedule registered_sound

/-- In every interleaving at most one context is in `dev->poll`, and when every call has returned
the kick is clear and a poll has started after the start of each call. -/
theorem no_kick_is_lost (schedule : List Nat) :
    (∀ m n, (run registered schedule).pc m = .polling → (run registered schedule).pc n = .polling → m = n) ∧
      ((∀ n, (run registered schedule).pc n = .out) → (run registered schedule).rxKick = false ∧
        ∀ pre n post, (run registered schedule).log = pre ++ .called n :: post → ∃ m, .polled m ∈ post) := by
  have sound := run_sound schedule
  generalize run registered schedule = s at sound
  refine ⟨fun m n first last => sound.alone m n (by rw [first]; rfl) (by rw [last]; rfl), fun returned => ?_⟩
  have clear : s.rxKick = false := by
    by_contra set
    obtain ⟨n, looks⟩ := sound.seen (by simpa using set)
    rw [returned n] at looks
    exact nomatch looks
  refine ⟨clear, fun pre n post shape => ?_⟩
  rcases sound.answered pre n post shape with done | kick | ⟨m, entry | cleared⟩
  · exact done
  · rw [clear] at kick
    exact nomatch kick
  · rw [returned m] at entry
    exact nomatch entry
  · rw [returned m] at cleared
    exact nomatch cleared

end SecOS.RxPoll
