import SecOS.Signal

/-! What a forged signal frame can bring into the processor: the selectors and the interrupt flag
are forced and the stack pointer is checked, the rest comes as it is. -/

namespace SecOS.Signal
open Library BitVec

/-- The flags that change what user code may do, apart from the interrupt flag: IOPL, NT, VM,
VIF and VIP. -/
def systemFlags : List Nat := [12, 13, 14, 17, 19, 20]

/-- A context that user code may be given. -/
structure Harmless (tf : Trapframe) (sigBlocked : Word) : Prop where
  cs : tf.cs = 0x1b
  ss : tf.ss = 0x23
  interrupts : tf.rflags.getLsbD 9 = true
  flags : ∀ i ∈ systemFlags, tf.rflags.getLsbD i = false
  rip : tf.rip.toNat < userAddrMax
  rsp : tf.rsp.toNat < userAddrMax
  mask : sigBlocked.getLsbD sigkill = false ∧ sigBlocked.getLsbD sigstop = false

/-- The call fails, kills the process, or restores a harmless context. -/
def Contained : Sigreturn → Prop
  | .failed => True
  | .killed _ => True
  | .restored tf sigBlocked _ => Harmless tf sigBlocked

/-- What the frame itself has to say for that. -/
structure Tame (sf : Sigframe) : Prop where
  flags : ∀ i ∈ systemFlags, sf.saved.rflags.getLsbD i = false
  rip : sf.saved.rip.toNat < userAddrMax
  mask : sf.savedMask.getLsbD sigkill = false ∧ sf.savedMask.getLsbD sigstop = false

theorem rflags_bit (flags : Word) {i : Nat} (small : i < 64) :
    ((flags &&& ~~~0x200#64) ||| 0x202#64).getLsbD i = (flags.getLsbD i || (0x202#64).getLsbD i) := by
  rw [getLsbD_or, getLsbD_and, getLsbD_not]
  have known : (0x200#64).getLsbD i = true → (0x202#64).getLsbD i = true := by
    revert small
    revert i
    decide
  cases low : (0x200#64).getLsbD i with
  | false => simp only [small, decide_true, Bool.not_false, Bool.and_true]
  | true => rw [known low, Bool.or_true, Bool.or_true]

theorem systemFlags_kept {i : Nat} (system : i ∈ systemFlags) : i < 64 ∧ (0x202#64).getLsbD i = false := by
  revert i
  decide

theorem restored_harmless_iff {sf : Sigframe} (low : sf.saved.rsp.toNat < userAddrMax) :
    Harmless { sf.saved with cs := 0x1b, ss := 0x23, rflags := (sf.saved.rflags &&& ~~~0x200#64) ||| 0x202#64 } sf.savedMask ↔ Tame sf := by
  constructor
  · intro harmless
    refine ⟨fun i system => ?_, harmless.rip, harmless.mask⟩
    obtain ⟨small, free⟩ := systemFlags_kept system
    have clear := harmless.flags i system
    rw [rflags_bit sf.saved.rflags small, free, Bool.or_false] at clear
    exact clear
  · intro tame
    refine ⟨rfl, rfl, ?_, fun i system => ?_, tame.rip, low, tame.mask⟩
    · rw [rflags_bit sf.saved.rflags (by decide)]
      exact Bool.or_true _
    · obtain ⟨small, free⟩ := systemFlags_kept system
      rw [rflags_bit sf.saved.rflags small, free, Bool.or_false]
      exact tame.flags i system

/-- For every memory and every context: the process stays contained exactly when a frame that
is readable, has the magic number and a user stack pointer is tame. -/
theorem sigreturn_contained_iff (mem : UserMem) (mxcsrMask : Nat) (tf : Trapframe) :
    Contained (ksysSigreturn mem mxcsrMask tf) ↔
      ∀ b, copyFromUser mem tf.rsp.toNat sigframeSize = some b → (sigframeAt b).magic = sigframeMagic →
        (sigframeAt b).saved.rsp.toNat < userAddrMax → Tame (sigframeAt b) := by
  unfold ksysSigreturn
  cases copied : copyFromUser mem tf.rsp.toNat sigframeSize with
  | none =>
    refine ⟨fun _ b impossible => ?_, fun _ => trivial⟩
    cases impossible
  | some b =>
    dsimp only
    split
    next wrong => exact ⟨fun _ b' same magic => absurd (Option.some.inj same ▸ magic) wrong, fun _ => trivial⟩
    next right =>
      have right : (sigframeAt b).magic = sigframeMagic := Decidable.not_not.mp right
      split
      next high =>
        refine ⟨fun _ b' same _ low => ?_, fun _ => trivial⟩
        cases same
        exact absurd (le_def.mp high) (Nat.not_le.mpr low)
      next low =>
        have low : (sigframeAt b).saved.rsp.toNat < userAddrMax := Nat.lt_of_not_le fun high => low (le_def.mpr high)
        have both := restored_harmless_iff low
        constructor
        · intro harmless b' same _ _
          cases same
          exact both.mp harmless
        · intro tame
          exact both.mpr (tame b rfl right low)

def forgedStack : UserMem := fun a =>
  if a < 0x100000000 then none
  else
    let off := a - 0x100000000
    some (if off < 8 then UInt8.ofNat (sigframeMagic.toNat / 256 ^ off) else if 16 + 8 * 19 ≤ off ∧ off < 16 + 8 * 20 then 0xff else 0)

def handlerContext : Trapframe :=
  ⟨0, 0, 0, 0, 0, 0, 0, 0, 0, 0, 0, 0, 0, 0, 0, 0, 0, 0, 0x1b, 0x202, 0x100000000, 0x23⟩

def ioPrivileged : Sigreturn → Bool
  | .restored tf _ _ => tf.rflags.getLsbD 12
  | _ => false

theorem not_contained_of_io {r : Sigreturn} (io : ioPrivileged r = true) : ¬Contained r := by
  intro contained
  cases r with
  | failed => cases io
  | killed => cases io
  | restored tf mask fpu =>
    have clear := contained.flags 12 (by decide)
    rw [show tf.rflags.getLsbD 12 = true from io] at clear
    cases clear

/-- The forged frame gives user code the I/O privilege level 3. -/
theorem forged_frame_escapes : ¬Contained (ksysSigreturn forgedStack 0xffbf handlerContext) :=
  not_contained_of_io (by decide +kernel)

end SecOS.Signal
