import Mathlib

/-! `proc_resolve_path` of `kernel/syscall.c`. A C string is the list of its bytes before the
NUL; no process and no input are the empty string. -/

namespace SecOS.ResolvePath

def slash : UInt8 := 0x2F
def dot : UInt8 := 0x2E

abbrev Name := List UInt8

/-- Bytes go to `tmp` as long as it has fewer than 511. -/
def append (tmp more : List UInt8) : List UInt8 := tmp ++ more.take (511 - tmp.length)

def tmpOf (cwd input : List UInt8) : List UInt8 :=
  if input.head? = some slash then append [] input
  else
    let t := append [] (if cwd = [] then [slash] else cwd)
    append (if t.getLast? = some slash then t else append t [slash]) input

def place (parts : List Name) (seg : Name) : List Name :=
  if seg = [dot] then parts
  else if seg = [dot, dot] then parts.dropLast
  else if parts.length < 64 then parts ++ [seg] else parts

/-- The loop over `tmp`; `seg` has the bytes of the component it is in. -/
def scan (parts : List Name) (seg : Name) : List UInt8 → List Name
  | [] => if seg = [] then parts else place parts seg
  | b :: rest =>
    if b = slash then scan (if seg = [] then parts else place parts seg) [] rest else scan parts (seg ++ [b]) rest

def emit (outsz : Nat) (out : List UInt8) (part : Name) : List UInt8 :=
  let out := if out.length < outsz - 1 then out ++ [slash] else out
  out ++ part.take (outsz - 1 - out.length)

/-- What is in `out`, if it is written at all. -/
def procResolvePath (cwd input : List UInt8) (outsz : Nat) : Option (List UInt8) :=
  let parts := scan [] [] (tmpOf cwd input)
  if parts = [] then if outsz > 1 then some [slash] else none else some (parts.foldl (emit outsz) [])

def absolute (cwd input : List UInt8) : List UInt8 := if input.head? = some slash then input else cwd ++ slash :: input

def components (path : List UInt8) : List Name := (path.splitOn slash).filter (· ≠ [])

def push (parts : List Name) (seg : Name) : List Name :=
  if seg = [dot] then parts else if seg = [dot, dot] then parts.dropLast else parts ++ [seg]

def joined (parts : List Name) : List UInt8 := parts.flatMap (slash :: ·)

def render (parts : List Name) : List UInt8 := if parts = [] then [slash] else joined parts

def normalForm (cwd input : List UInt8) : List UInt8 := render ((components (absolute cwd input)).foldl push [])

/-- There were never more than 64 components since the last time at the root; `so` says it of the time before. -/
def Shallow (parts : List Name) (so : Prop) : List Name → Prop
  | [] => so
  | seg :: rest => Shallow (push parts seg) (push parts seg = [] ∨ so ∧ (push parts seg).length ≤ 64) rest

end SecOS.ResolvePath
