import SecOS.Library.Bytes

/-! Returning from a signal handler (`ksys_sigreturn` of kernel/signal.c, with the range check
and the copy of mm/user_copy.c). The user's memory is the byte at each address, none where
an access faults. -/

namespace SecOS.Signal
open Library

abbrev Word := BitVec 64

/-- `trapframe_t`, in the order of the fields in memory. -/
structure Trapframe where
  r15 : Word
  r14 : Word
  r13 : Word
  r12 : Word
  r11 : Word
  r10 : Word
  r9 : Word
  r8 : Word
  rbp : Word
  rdi : Word
  rsi : Word
  rdx : Word
  rcx : Word
  rbx : Word
  rax : Word
  intNo : Word
  errCode : Word
  rip : Word
  cs : Word
  rflags : Word
  rsp : Word
  ss : Word
deriving DecidableEq

abbrev UserMem := Nat → Option UInt8

def userAddrMin : Nat := 0x100000000
def userAddrMax : Nat := 0x800000000000

def userRangeValid (start len : Nat) : Bool :=
  start ≠ 0 && len ≠ 0 && !(start < userAddrMin) && !(start ≥ userAddrMax) && !(len > userAddrMax) &&
    !((start + len) % 2 ^ 64 < start) && !((start + len) % 2 ^ 64 > userAddrMax)

def copyFromUser (mem : UserMem) (src len : Nat) : Option Bytes :=
  if userRangeValid src len && (List.range len).all fun i => (mem (src + i)).isSome then some fun i => (mem (src + i)).getD 0 else none

def word (b : Bytes) (off : Nat) : Word := BitVec.ofNat 64 (b.rd 8 off)

def trapframeAt (b : Bytes) (off : Nat) : Trapframe :=
  let field := fun i => word b (off + 8 * i)
  ⟨field 0, field 1, field 2, field 3, field 4, field 5, field 6, field 7, field 8, field 9, field 10, field 11, field 12, field 13, field 14,
    field 15, field 16, field 17, field 18, field 19, field 20, field 21⟩

structure Sigframe where
  magic : Word
  savedMask : Word
  saved : Trapframe
  fpu : Bytes

def sigframeMagic : Word := 0x5347465253454330
def sigframeSize : Nat := 704

def sigframeAt (b : Bytes) : Sigframe := ⟨word b 0, word b 8, trapframeAt b 16, b.drop 192⟩

def sigkill : Nat := 9
def sigsegv : Nat := 11
def sigstop : Nat := 19

inductive Sigreturn where
  | failed
  | killed (sig : Nat)
  | restored (tf : Trapframe) (sigBlocked : Word) (fpu : Bytes)

/-- `mxcsrMask` is what the processor says of its control word. -/
def ksysSigreturn (mem : UserMem) (mxcsrMask : Nat) (tf : Trapframe) : Sigreturn :=
  match copyFromUser mem tf.rsp.toNat sigframeSize with
  | none => .failed
  | some b =>
    let sf := sigframeAt b
    if sf.magic ≠ sigframeMagic then .killed sigsegv
    else
      let s := { sf.saved with cs := 0x1b, ss := 0x23, rflags := (sf.saved.rflags &&& ~~~0x200#64) ||| 0x202#64 }
      if s.rsp ≥ 0x800000000000#64 then .failed
      else .restored s sf.savedMask (sf.fpu.wr32 24 (sf.fpu.rd32 24 &&& mxcsrMask))

end SecOS.Signal
