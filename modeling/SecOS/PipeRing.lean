import SecOS.Library.Ring
import SecOS.Pipe

/-! The ring buffer of a pipe (kernel/pipe.c). Every function runs under the lock of the pipe
table, so that the calls on one pipe are a sequence. -/

namespace SecOS.PipeRing
open Library Pipes

/-- `readers` and `writers` count the descriptors on an end: at most 32 in each of at most 32
processes, and those of a child that is being made, so that an int does not wrap. -/
structure Pipe where
  used : Bool
  buf : Nat → UInt8
  head : Nat
  len : Nat
  readers : Nat
  writers : Nat
  head_lt : head < pipeSize
  len_le : len ≤ pipeSize

def pipeAlloc (buf : Nat → UInt8) : Pipe := ⟨true, buf, 0, 0, 1, 1, by decide, Nat.zero_le _⟩

def pipeRead (p : Pipe) (len : Nat) : Pipe × Int × List UInt8 :=
  if len = 0 then (p, -1, [])
  else if p.len = 0 then (p, if p.writers = 0 then 0 else -2, [])
  else
    let n := min len p.len
    ({ p with head := (p.head + n) % pipeSize, head_lt := Nat.mod_lt _ (by decide),
              len := p.len - n, len_le := Nat.le_trans (Nat.sub_le _ _) p.len_le }, n, Ring.window pipeSize p.buf p.head n)

def pipeWriteMode (p : Pipe) (s : List UInt8) (atomic : Bool) : Pipe × Int :=
  if s = [] then (p, -1)
  else if p.readers = 0 then (p, -1)
  else
    let space := pipeSize - p.len
    if space = 0 ∨ (atomic ∧ space < s.length) then (p, -2)
    else
      let n := min s.length space
      let tail := (p.head + p.len) % pipeSize
      ({ p with buf := Ring.fill pipeSize p.buf tail (s.take n), len := p.len + n,
                len_le := Nat.add_le_of_le_sub' p.len_le (Nat.min_le_right _ _) }, n)

def pipeWrite (p : Pipe) (s : List UInt8) : Pipe × Int := pipeWriteMode p s (s.length ≤ pipeBuf)

def pipeWriteSome (p : Pipe) (s : List UInt8) : Pipe × Int := pipeWriteMode p s false

def pipeRef (p : Pipe) (writer : Bool) : Pipe :=
  if writer then { p with writers := p.writers + 1 } else { p with readers := p.readers + 1 }

def pipeUnref (p : Pipe) (writer : Bool) : Pipe :=
  let p := if writer then { p with writers := p.writers - 1 } else { p with readers := p.readers - 1 }
  if p.readers = 0 ∧ p.writers = 0 then { p with used := false } else p

inductive Call where
  | write (s : List UInt8)
  | writeSome (s : List UInt8)
  | read (len : Nat)
  | ref (writer : Bool)
  | unref (writer : Bool)

structure Session where
  pipe : Pipe
  accepted : List UInt8
  taken : List UInt8

def step (t : Session) : Call → Session
  | .write s => ⟨(pipeWrite t.pipe s).1, t.accepted ++ s.take (pipeWrite t.pipe s).2.toNat, t.taken⟩
  | .writeSome s => ⟨(pipeWriteSome t.pipe s).1, t.accepted ++ s.take (pipeWriteSome t.pipe s).2.toNat, t.taken⟩
  | .read len => ⟨(pipeRead t.pipe len).1, t.accepted, t.taken ++ (pipeRead t.pipe len).2.2⟩
  | .ref writer => { t with pipe := pipeRef t.pipe writer }
  | .unref writer => { t with pipe := pipeUnref t.pipe writer }

def run (buf : Nat → UInt8) (calls : List Call) : Session := calls.foldl step ⟨pipeAlloc buf, [], []⟩

end SecOS.PipeRing
