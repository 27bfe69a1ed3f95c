import SecOS.Vma

/-! The memory of the whole machine: the physical memory manager, the page cache, the
address spaces that are alive and the frames the rest of the kernel holds. An
operation is one call of the address-space layer by some process, or a store that
user code makes through its own page tables. -/

namespace SecOS.Machine
open Library Pmm Vmm

structure World where
  pmm : Pmm.State
  cache : PageCache.Cache
  spaces : List Space
  kernel : List Nat

def load (m : Pmm.State) (s : Space) (addr : Nat) : Option UInt8 :=
  let pte := s.pte (addr / 4096)
  if pte.has flagPresent then some (m.mem (ptePhys pte / frameSize) (addr % 4096)) else none

/-- A store by user code. It reaches memory through a present writable leaf; what device
memory does with it is not modelled. -/
def store (m : Pmm.State) (s : Space) (addr : Nat) (value : UInt8) : Pmm.State :=
  let pte := s.pte (addr / 4096)
  if pte.has flagPresent && pte.has flagRw && !pte.has flagDevice then
    let frame := ptePhys pte / frameSize
    { m with mem := Function.update m.mem frame (Function.update (m.mem frame) (addr % 4096) value) }
  else m

/-- Spaces are named by their position among those alive. -/
inductive Op where
  | create (heapOk : Bool)
  | faultIn (i : Nat) (env : Vma.Env) (v : Vma) (addr : Nat)
  | fork (i : Nat) (heapOk : Bool)
  | cowFault (i addr : Nat) (region : Option Word)
  | protect (i virt : Nat) (flags : Word)
  | unmap (i virt : Nat)
  | destroy (i : Nat)
  | store (i addr : Nat) (value : UInt8)
  | kernelAlloc
  | kernelFree (n : Nat)

/-- Replace space `i`, if it is alive, by what an operation makes of it. -/
def onSpace (w : World) (i : Nat) (operation : Pmm.State → Space → Pmm.State × Space × Int) : World :=
  match w.spaces[i]? with
  | none => w
  | some s =>
    match operation w.pmm s with
    | (m, s, _) => { w with pmm := m, spaces := w.spaces.set i s }

def step (w : World) : Op → World
  | .create heapOk =>
    match spaceCreateUser w.pmm heapOk with
    | (m, none) => { w with pmm := m }
    | (m, some s) => { w with pmm := m, spaces := w.spaces ++ [s] }
  | .faultIn i env v addr =>
    match w.spaces[i]? with
    | none => w
    | some s =>
      match Vma.faultIn w.pmm w.cache s env v addr with
      | (m, c, s, _) => { w with pmm := m, cache := c, spaces := w.spaces.set i s }
  | .fork i heapOk =>
    match w.spaces[i]? with
    | none => w
    | some s =>
      match forkSpace w.pmm s heapOk with
      | (m, s, none) => { w with pmm := m, spaces := w.spaces.set i s }
      | (m, s, some child) => { w with pmm := m, spaces := w.spaces.set i s ++ [child] }
  | .cowFault i addr region => onSpace w i fun m s => Vmm.cowFault m s addr region
  | .protect i virt flags => onSpace w i fun m s => protectInSpace m s virt flags
  | .unmap i virt => onSpace w i fun m s => unmapInSpace m s virt
  | .destroy i =>
    match w.spaces[i]? with
    | none => w
    | some s => { w with pmm := spaceDestroy w.pmm s, spaces := w.spaces.eraseIdx i }
  | .store i addr value =>
    match w.spaces[i]? with
    | none => w
    | some s => { w with pmm := store w.pmm s addr value }
  | .kernelAlloc =>
    match allocFrame w.pmm with
    | (m, frame) => if frame = 0 then { w with pmm := m } else { w with pmm := m, kernel := (frame / frameSize) :: w.kernel }
  | .kernelFree n =>
    match w.kernel[n]? with
    | none => w
    | some f => { w with pmm := freeFrame w.pmm (f * frameSize), kernel := w.kernel.eraseIdx n }

def emptyCache : PageCache.Cache := ⟨fun _ => ⟨0, 0, 0, false⟩, 0⟩

def booted (boot : Pmm.State) : World := ⟨lateInit boot, emptyCache, [], []⟩

def run (w : World) (ops : List Op) : World := ops.foldl step w

end SecOS.Machine
