import SecOS.Cred

/-! A process without a zero among its user ids cannot leave the ids it has: every call either
fails and changes nothing, or moves ids it already holds from one slot to another. -/

namespace SecOS.Ids
open Confine (Cred)

namespace Triple

def Has (ids : Triple) (v : Nat) : Prop := v = ids.real ∨ v = ids.effective ∨ v = ids.saved

structure Within (ids bound : Triple) : Prop where
  real : bound.Has ids.real
  effective : bound.Has ids.effective
  saved : bound.Has ids.saved

theorem Within.refl (ids : Triple) : Within ids ids := ⟨.inl rfl, .inr (.inl rfl), .inr (.inr rfl)⟩

variable {ids middle bound : Triple} {v : Nat}

theorem Within.has (within : Within ids bound) (held : ids.Has v) : bound.Has v := by
  rcases held with rfl | rfl | rfl
  · exact within.real
  · exact within.effective
  · exact within.saved

theorem Within.trans (first : Within ids middle) (second : Within middle bound) : Within ids bound :=
  ⟨second.has first.real, second.has first.effective, second.has first.saved⟩

theorem Within.ne_zero (within : Within ids bound) (dropped : ¬bound.Has 0) : ids.effective ≠ 0 := by
  intro zero
  apply dropped
  rw [← zero]
  exact within.effective

end Triple

section
variable {ids ids' : Triple} {cr : Cred}

theorem isOneOf_iff {v : Nat} : isOneOf v ids = true ↔ ids.Has v := by
  simp only [isOneOf, Bool.or_eq_true, beq_iff_eq, or_assoc]
  rfl

theorem setSlot_has {old new : Nat} (held : ids.Has old) (allowed : ¬(new != unchanged && !isOneOf new ids) = true) : ids.Has (setSlot old new) := by
  unfold setSlot
  split
  next given =>
    rw [← isOneOf_iff]
    simp only [Bool.and_eq_true, bne_iff_ne, Bool.not_eq_true', not_and, Bool.not_eq_false] at allowed
    exact allowed given
  · exact held

theorem setRes_within {r e s : Nat} (done : setRes ids r e s false = some ids') : ids'.Within ids := by
  simp only [setRes, Bool.not_false, Bool.true_and] at done
  split at done
  · cases done
  next first =>
    split at done
    · cases done
    next second =>
      split at done
      · cases done
      next third =>
        cases done
        exact ⟨setSlot_has (.inl rfl) first, setSlot_has (.inr (.inl rfl)) second, setSlot_has (.inr (.inr rfl)) third⟩

theorem setId_within {v : Nat} (done : setId ids v false = .ok ids') : ids'.Within ids := by
  simp only [setId, Bool.false_eq_true, if_false] at done
  split at done
  · cases done
  split at done
  next own =>
    cases done
    refine ⟨.inl rfl, ?_, .inr (.inr rfl)⟩
    rcases own with real | saved
    · exact .inl real
    · exact .inr (.inr saved)
  · cases done

/-- The credentials a process without privilege can reach. -/
structure Kept (cr cr' : Cred) : Prop where
  uids : (uids cr').Within (uids cr)
  gids : (gids cr').Within (gids cr)
  groups : cr'.groups = cr.groups

theorem Kept.refl (cr : Cred) : Kept cr cr := ⟨.refl _, .refl _, rfl⟩

theorem Kept.trans {cr' cr'' : Cred} (first : Kept cr cr') (second : Kept cr' cr'') : Kept cr cr'' :=
  ⟨second.uids.trans first.uids, second.gids.trans first.gids, second.groups.trans first.groups⟩

theorem credSyscall_kept (num : IdNumber) (a0 a1 a2 : Word) (user : UserIds) (unprivileged : cr.euid ≠ 0) :
    Kept cr (credSyscall num a0 a1 a2 user cr).1 := by
  have priv : (cr.euid == 0) = false := beq_eq_false_iff_ne.mpr unprivileged
  unfold credSyscall
  simp only [priv]
  cases num with
  | getuid => exact .refl cr
  | geteuid => exact .refl cr
  | getgid => exact .refl cr
  | getegid => exact .refl cr
  | getgroups => exact .refl cr
  | setgroups => exact .refl cr
  | setuid =>
    dsimp only
    split
    next done => exact ⟨setId_within done, .refl _, rfl⟩
    · exact .refl cr
  | setgid =>
    dsimp only
    split
    next done => exact ⟨.refl _, setId_within done, rfl⟩
    · exact .refl cr
  | setresuid =>
    dsimp only
    split
    next done => exact ⟨setRes_within done, .refl _, rfl⟩
    · exact .refl cr
  | setresgid =>
    dsimp only
    split
    next done => exact ⟨.refl _, setRes_within done, rfl⟩
    · exact .refl cr

theorem credSyscall_failed (num : IdNumber) (a0 a1 a2 : Word) (user : UserIds) (failed : (credSyscall num a0 a1 a2 user cr).2 < 0) :
    (credSyscall num a0 a1 a2 user cr).1 = cr := by
  unfold credSyscall at failed ⊢
  cases num with
  | getuid => rfl
  | geteuid => rfl
  | getgid => rfl
  | getegid => rfl
  | getgroups => rfl
  | setuid =>
    dsimp only at failed ⊢
    split at failed
    · cases failed
    · rfl
  | setgid =>
    dsimp only at failed ⊢
    split at failed
    · cases failed
    · rfl
  | setresuid =>
    dsimp only at failed ⊢
    split at failed
    · cases failed
    · rfl
  | setresgid =>
    dsimp only at failed ⊢
    split at failed
    · cases failed
    · rfl
  | setgroups =>
    dsimp only at failed ⊢
    split at failed
    next unprivileged => rw [if_pos unprivileged]
    next privileged =>
      rw [if_neg privileged]
      split at failed
      next bad => rw [if_pos bad]
      next good =>
        rw [if_neg good]
        split at failed
        · cases failed
        next some_ =>
          rw [if_neg some_]
          split at failed
          · rfl
          · cases failed

theorem sysId_kept (unprivileged : cr.euid ≠ 0) (call : IdCall) : Kept cr (sysId cr call).1 := by
  unfold sysId
  split
  · exact .refl cr
  · exact credSyscall_kept _ _ _ _ _ unprivileged

theorem sysId_failed (call : IdCall) (failed : (sysId cr call).2 < 0) : (sysId cr call).1 = cr := by
  unfold sysId at failed ⊢
  split at failed
  · rfl
  · exact credSyscall_failed _ _ _ _ _ failed

theorem afterIds_kept (dropped : ¬(uids cr).Has 0) (calls : List IdCall) : Kept cr (afterIds cr calls) := by
  unfold afterIds
  induction calls using List.reverseRecOn with
  | nil => exact .refl cr
  | append_singleton calls call ih =>
    rw [List.foldl_concat]
    exact ih.trans (sysId_kept (ih.uids.ne_zero dropped) call)

end

/-- Without a zero among the three user ids, no sequence of the id calls leads to an id that
the process did not have, and the groups stay; a call that fails changes nothing. -/
theorem dropped_stays_dropped (cr : Cred) (dropped : cr.ruid ≠ 0 ∧ cr.euid ≠ 0 ∧ cr.suid ≠ 0) (calls : List IdCall) :
    let after := afterIds cr calls
    (∀ v, v = after.ruid ∨ v = after.euid ∨ v = after.suid → v = cr.ruid ∨ v = cr.euid ∨ v = cr.suid) ∧
      (∀ v, v = after.rgid ∨ v = after.egid ∨ v = after.sgid → v = cr.rgid ∨ v = cr.egid ∨ v = cr.sgid) ∧
      after.groups = cr.groups ∧ ∀ call, (sysId after call).2 < 0 → (sysId after call).1 = after := by
  have kept : Kept cr (afterIds cr calls) := by
    refine afterIds_kept ?_ calls
    rintro (real | effective | saved)
    · exact dropped.1 real.symm
    · exact dropped.2.1 effective.symm
    · exact dropped.2.2 saved.symm
  exact ⟨fun v held => kept.uids.has held, fun v held => kept.gids.has held, kept.groups, fun call failed => sysId_failed call failed⟩

def droppedCred : Cred := ⟨1000, 1001, 1002, 100, 100, 100, [10]⟩

def asksForRoot : List IdCall :=
  [⟨104, 0, 0, 0, ⟨true, fun _ => none⟩⟩, ⟨106, 0xffffffff, 1000, 0xffffffff, ⟨true, fun _ => none⟩⟩, ⟨109, 1, 0, 0, ⟨true, fun _ => some [0]⟩⟩]

theorem asksForRoot_refused :
    (afterIds droppedCred asksForRoot).euid = 1000 ∧
      (∀ v, v = (afterIds droppedCred asksForRoot).ruid ∨ v = (afterIds droppedCred asksForRoot).euid ∨
        v = (afterIds droppedCred asksForRoot).suid → v = 1000 ∨ v = 1001 ∨ v = 1002) :=
  ⟨by decide, (dropped_stays_dropped droppedCred (by decide) asksForRoot).1⟩

end SecOS.Ids
