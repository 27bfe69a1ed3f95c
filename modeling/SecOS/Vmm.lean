import SecOS.Pmm

/-! User address spaces (mm/vmm.c). A space is its four levels of tables for the
user half; the leaves are 64-bit page table entries. Table frames are taken from
the physical memory manager, and the tables themselves are kept here by level:
`pdpt` by address bits 39 up, `pd` by bits 30 up, `pt` by bits 21 up and `pte` by
page number. The kernel half, shared by every space, holds no user page. -/

namespace SecOS.Vmm
open Library Pmm Function

def flagPresent : Word := Word.bit 0
def flagRw : Word := Word.bit 1
def flagUser : Word := Word.bit 2
def flagPwt : Word := Word.bit 3
def flagPcd : Word := Word.bit 4
def flagPs : Word := Word.bit 7
def flagCow : Word := Word.bit 9
/-- Software bit: a PROT_NONE page that keeps its frame while not present. -/
def flagProtnone : Word := Word.bit 10
/-- Software bit: device memory, not owned by the physical memory manager. -/
def flagDevice : Word := Word.bit 11
def flagNoexec : Word := Word.bit 63

def addressMask : Word := 0x000FFFFFFFFFF000#64

def userCodeBase : Nat := 0x100000000
def userStackTop : Nat := 0x3FFF00000
def userTop : Nat := 0x800000000000
def kernelBase : Nat := 0xFFFF800000000000

/-- Page flags as the owners of regions write them: the frame address is passed apart
from them, and the device and copy-on-write bits are set by this layer alone. -/
structure Flags where
  word : Word
  plain : word &&& (addressMask ||| flagDevice ||| flagCow) = 0#64
deriving DecidableEq

theorem flagUser_plain : flagUser &&& (addressMask ||| flagDevice ||| flagCow) = 0#64 := by decide

theorem dataFlags_plain : (flagUser ||| flagRw ||| flagNoexec) &&& (addressMask ||| flagDevice ||| flagCow) = 0#64 := by decide

/-- The leaf holds a frame: present, or parked by PROT_NONE. -/
def pteHasFrame (pte : Word) : Bool := pte.has (flagPresent ||| flagProtnone)

def ptePhys (pte : Word) : Nat := (pte &&& addressMask).toNat

def physWord (phys : Nat) : Word := BitVec.ofNat 64 phys

/-- The tables of a user space. A table exists only below an existing table, and
what lies below an absent table is empty. -/
structure Space where
  pml4 : Nat
  pdpt : Nat → Option Nat
  pd : Nat → Option Nat
  pt : Nat → Option Nat
  pte : Nat → Word
  pd_below : ∀ k, pdpt (k / 512) = none → pd k = none
  pt_below : ∀ k, pd (k / 512) = none → pt k = none
  pte_below : ∀ page, pt (page / 512) = none → pte page = 0#64

namespace Space

/-! New tables are zeroed frames. Everything below an absent table is empty
already, so installing one changes its own entry only. -/

def putPdpt (s : Space) (k frame : Nat) : Space :=
  { s with
    pdpt := update s.pdpt k (some frame)
    pd_below := by
      intro j absent
      by_cases here : j / 512 = k
      · rw [here, update_self] at absent
        exact nomatch absent
      · rw [update_of_ne here] at absent
        exact s.pd_below j absent }

def putPd (s : Space) (k frame : Nat) : Space :=
  if above : (s.pdpt (k / 512)).isSome then
    { s with
      pd := update s.pd k (some frame)
      pd_below := by
        intro j absent
        by_cases here : j = k
        · rw [← here, absent] at above
          exact nomatch above
        · rw [update_of_ne here]
          exact s.pd_below j absent
      pt_below := by
        intro j absent
        by_cases here : j / 512 = k
        · rw [here, update_self] at absent
          exact nomatch absent
        · rw [update_of_ne here] at absent
          exact s.pt_below j absent }
  else s

def putPt (s : Space) (k frame : Nat) : Space :=
  if above : (s.pd (k / 512)).isSome then
    { s with
      pt := update s.pt k (some frame)
      pt_below := by
        intro j absent
        by_cases here : j = k
        · rw [← here, absent] at above
          exact nomatch above
        · rw [update_of_ne here]
          exact s.pt_below j absent
      pte_below := by
        intro page absent
        by_cases here : page / 512 = k
        · rw [here, update_self] at absent
          exact nomatch absent
        · rw [update_of_ne here] at absent
          exact s.pte_below page absent }
  else s

def setPte (s : Space) (page : Nat) (value : Word) : Space :=
  if above : (s.pt (page / 512)).isSome then
    { s with
      pte := update s.pte page value
      pte_below := by
        intro other absent
        by_cases here : other = page
        · rw [← here, absent] at above
          exact nomatch above
        · rw [update_of_ne here]
          exact s.pte_below other absent }
  else s

end Space

/-- `get_or_create_table` on an absent entry: a new frame, installed by `put`. -/
def createTable (m : Pmm.State) (s : Space) (create : Bool) (put : Space → Nat → Space) : Pmm.State × Space × Bool :=
  if create then
    let (m, frame) := allocFrame m
    if frame = 0 then (m, s, false) else (m, put s (frame / frameSize), true)
  else (m, s, false)

/-- Walk to the last-level table of `virt`. Tables made on the way stay when a
lower one cannot be allocated. -/
def getPtSpace (m : Pmm.State) (s : Space) (virt : Nat) (create : Bool) : Pmm.State × Space × Bool :=
  match (if (s.pdpt (virt / 2 ^ 39)).isSome then (m, s, true)
      else createTable m s create (fun s => s.putPdpt (virt / 2 ^ 39))) with
  | (m, s, false) => (m, s, false)
  | (m, s, true) =>
    match (if (s.pd (virt / 2 ^ 30)).isSome then (m, s, true)
        else createTable m s create (fun s => s.putPd (virt / 2 ^ 30))) with
    | (m, s, false) => (m, s, false)
    | (m, s, true) =>
      if (s.pt (virt / 2 ^ 21)).isSome then (m, s, true)
      else createTable m s create (fun s => s.putPt (virt / 2 ^ 21))

def mapInSpace (m : Pmm.State) (s : Space) (virt phys : Nat) (flags : Word) : Pmm.State × Space × Int :=
  if virt % 4096 ≠ 0 ∨ phys % 4096 ≠ 0 then (m, s, -1)
  -- W^X gate: no writable and executable mapping.
  else if flags.has flagRw && !flags.has flagNoexec then (m, s, -5)
  else if flags.has flagUser && decide (virt ≥ kernelBase) then (m, s, -4)
  else match getPtSpace m s virt true with
    | (m, s, false) => (m, s, -2)
    | (m, s, true) =>
      if pteHasFrame (s.pte (virt / 4096)) then (m, s, -3)
      else if flags.has flagProtnone then (m, s, -1)
      else (m, s.setPte (virt / 4096) ((physWord phys &&& addressMask) ||| (flags &&& ~~~flagPs) ||| flagPresent), 0)

def dropFrame (m : Pmm.State) (phys : Nat) : Pmm.State :=
  match unrefFrame m phys with
  | (m, still) => if still = 0 then freeFrame m phys else m

def unmapInSpace (m : Pmm.State) (s : Space) (virt : Nat) : Pmm.State × Space × Int :=
  if virt % 4096 ≠ 0 then (m, s, -1)
  else if virt ≥ userTop then (m, s, -1)
  else match getPtSpace m s virt false with
    | (m, s, false) => (m, s, -2)
    | (m, s, true) =>
      let entry := s.pte (virt / 4096)
      if !pteHasFrame entry then (m, s, -3)
      else if entry.has flagDevice then (m, s.setPte (virt / 4096) 0#64, 0)
      else (dropFrame m (ptePhys entry), s.setPte (virt / 4096) 0#64, 0)

/-- The leaf `vmm_protect_in_space` writes in place of `old`. -/
def protectedPte (old flags : Word) (shared : Bool) : Word :=
  let phys := old &&& addressMask
  if old.has flagDevice then
    let keep := old &&& (flagDevice ||| flagPwt ||| flagPcd)
    if flags.has flagProtnone then phys ||| keep ||| flagProtnone ||| flagNoexec
    else phys ||| keep ||| flagPresent ||| flagUser ||| flagNoexec ||| (flags &&& flagRw)
  else if flags.has flagProtnone then phys ||| flagProtnone ||| flagNoexec
  else
    let nf := (flags &&& ~~~(flagPs ||| flagCow ||| flagProtnone)) ||| flagPresent ||| flagUser
    -- A frame still shared stays read-only and copy-on-write.
    let nf := if old.has flagCow || shared then (nf &&& ~~~flagRw) ||| flagCow else nf
    phys ||| nf

def protectInSpace (m : Pmm.State) (s : Space) (virt : Nat) (flags : Word) : Pmm.State × Space × Int :=
  if virt % 4096 ≠ 0 then (m, s, -1)
  else if virt ≥ userTop then (m, s, -1)
  else if flags.has flagRw && !flags.has flagNoexec then (m, s, -5)
  else match getPtSpace m s virt false with
    | (m, s, false) => (m, s, -3)
    | (m, s, true) =>
      let old := s.pte (virt / 4096)
      if !pteHasFrame old then (m, s, -3)
      else (m, s.setPte (virt / 4096) (protectedPte old flags (frameShared m (ptePhys old))), 0)

def emptySpace (pml4 pdpt : Nat) : Space where
  pml4 := pml4
  pdpt := update (fun _ => none) (userCodeBase / 2 ^ 39) (some pdpt)
  pd := fun _ => none
  pt := fun _ => none
  pte := fun _ => 0#64
  pd_below := fun _ _ => rfl
  pt_below := fun _ _ => rfl
  pte_below := fun _ _ => rfl

/-- `heapOk` is the answer of the kernel heap, which is not modelled. When it
refuses, the two table frames are not given back. -/
def spaceCreateUser (m : Pmm.State) (heapOk : Bool) : Pmm.State × Option Space :=
  let (m, pml4) := allocFrame m
  if pml4 = 0 then (m, none)
  else
    let (m, priv) := allocFrame m
    if priv = 0 then (freeFrame m pml4, none)
    else if heapOk then (m, some (emptySpace (pml4 / frameSize) (priv / frameSize))) else (m, none)

def pdptLo : Nat := userCodeBase / 2 ^ 30
def pdptHi : Nat := userStackTop / 2 ^ 30

def destroyLeaf (s : Space) (m : Pmm.State) (page : Nat) : Pmm.State :=
  let pte := s.pte page
  if !pteHasFrame pte then m
  else if pte.has flagDevice then m
  else dropFrame m (ptePhys pte)

def destroyTable (s : Space) (m : Pmm.State) (k : Nat) : Pmm.State :=
  match s.pt k with
  | none => m
  | some pt => freeFrame ((List.range' (k * 512) 512).foldl (destroyLeaf s) m) (pt * frameSize)

def destroyDirectory (s : Space) (m : Pmm.State) (k : Nat) : Pmm.State :=
  match s.pd k with
  | none => m
  | some pd => freeFrame ((List.range' (k * 512) 512).foldl (destroyTable s) m) (pd * frameSize)

def spaceDestroy (m : Pmm.State) (s : Space) : Pmm.State :=
  let m := match s.pdpt 0 with
    | none => m
    | some pdpt => freeFrame ((List.range' pdptLo (pdptHi + 1 - pdptLo)).foldl (destroyDirectory s) m) (pdpt * frameSize)
  freeFrame m (s.pml4 * frameSize)

structure ForkState where
  pmm : Pmm.State
  parent : Space
  child : Space

/-- The parent and child leaves of a writable page after a fork. -/
def cowFlags (pte : Word) : Word := (pte &&& ~~~addressMask &&& ~~~flagPresent &&& ~~~flagRw) ||| flagCow

/-! The three kinds of leaf in the fork's walk. `error` is the jump to `out`. A page
that cannot be mapped in the child because a table is missing is skipped when it is
device memory or present; only a parked page aborts. -/

def forkDevice (st : ForkState) (page : Nat) (pte : Word) : Except ForkState ForkState :=
  match getPtSpace st.pmm st.child (page * 4096) true with
  | (m, child, true) => .ok { st with pmm := m, child := child.setPte page pte }
  | (m, child, false) => .ok { st with pmm := m, child := child }

def forkParked (st : ForkState) (page : Nat) (pte : Word) : Except ForkState ForkState :=
  match getPtSpace st.pmm st.child (page * 4096) true with
  | (m, child, false) => .error { st with pmm := m, child := child }
  | (m, child, true) =>
    match shareFrame m (ptePhys pte) with
    | (m, rc) =>
      if rc ≠ 0 then .error { st with pmm := m, child := child }
      else .ok { st with pmm := m, child := child.setPte page pte }

def forkPresent (st : ForkState) (page : Nat) (pte : Word) : Except ForkState ForkState :=
  match shareFrame st.pmm (ptePhys pte) with
  | (m, rc) =>
    if rc ≠ 0 then .error { st with pmm := m }
    else
      let writable := pte.has flagRw
      let parent := if writable then
          st.parent.setPte page ((pte &&& addressMask) ||| cowFlags pte ||| flagPresent)
        else st.parent
      let childflags := if writable then cowFlags pte else pte &&& ~~~addressMask &&& ~~~flagPresent
      match mapInSpace m st.child (page * 4096) (ptePhys pte) childflags with
      | (m, child, res) =>
        if res = 0 then .ok ⟨m, parent, child⟩
        -- Best effort: drop the share just added and leave the child partial.
        else .ok ⟨(unrefFrame m (ptePhys pte)).1, parent, child⟩

def forkLeaf (st : ForkState) (page : Nat) : Except ForkState ForkState :=
  let pte := st.parent.pte page
  if !pteHasFrame pte then .ok st
  else if pte.has flagDevice then forkDevice st page pte
  else if !pte.has flagPresent then forkParked st page pte
  else forkPresent st page pte

def forkTable (st : ForkState) (k : Nat) : Except ForkState ForkState :=
  if (st.parent.pt k).isSome then (List.range' (k * 512) 512).foldlM forkLeaf st else .ok st

def forkDirectory (st : ForkState) (k : Nat) : Except ForkState ForkState :=
  if (st.parent.pd k).isSome then (List.range' (k * 512) 512).foldlM forkTable st else .ok st

def forkWalk (st : ForkState) : Except ForkState ForkState :=
  if (st.parent.pdpt 0).isSome then (List.range' pdptLo (pdptHi + 1 - pdptLo)).foldlM forkDirectory st else .ok st

/-- The parent comes back too: its writable pages become copy-on-write, also when
the fork fails on the way. -/
def forkSpace (m : Pmm.State) (parent : Space) (heapOk : Bool) : Pmm.State × Space × Option Space :=
  match spaceCreateUser m heapOk with
  | (m, none) => (m, parent, none)
  | (m, some child) =>
    match forkWalk ⟨m, parent, child⟩ with
    | .ok st => (st.pmm, st.parent, some st.child)
    | .error st => (spaceDestroy st.pmm st.child, st.parent, none)

/-- Copy a page into a fresh frame for its writer. `region` is the flags of the
area the current process has there, if `space` is its own. -/
def cowFault (m : Pmm.State) (s : Space) (addr : Nat) (region : Option Word) : Pmm.State × Space × Int :=
  if addr < userCodeBase ∨ addr ≥ userStackTop then (m, s, -1)
  else
    let page := addr / 4096
    match getPtSpace m s (page * 4096) false with
    | (m, s, false) => (m, s, -1)
    | (m, s, true) =>
      let pte := s.pte page
      if !pte.has flagPresent || !pte.has flagCow then (m, s, -1)
      else match region with
        | none => (m, s, -1)
        | some flags =>
          if !flags.has flagRw || flags.has flagProtnone then (m, s, -1)
          else
            let (m, nf) := allocFrame m
            if nf = 0 then (m, s, -1)
            else
              let m := { m with mem := update m.mem (nf / frameSize) (m.mem (ptePhys pte / frameSize)) }
              let m := dropFrame m (ptePhys pte)
              let flags := (pte &&& ~~~addressMask &&& ~~~flagCow) ||| flagRw
              (m, s.setPte page ((physWord nf &&& addressMask) ||| flags), 0)

end SecOS.Vmm
