import SecOS.Proofs.HeapRelease

/-! Whole runs of the kernel heap. What a call gives is sound as long as the request leaves room
for the rounding of expand_heap. -/

namespace SecOS.Heap
open Library List

def boot (mem : Bytes) (secret : Word) (phys : Nat) : World := ⟨heapInit mem secret phys, []⟩

def run (w : World) : List Event → Except Fault World
  | [] => .ok w
  | e :: rest =>
    match step w e with
    | .error fault => .error fault
    | .ok (w', _) => run w' rest

def Throughout (assumed : World → Event → Prop) : World → List Event → Prop
  | _, [] => True
  | w, e :: rest => assumed w e ∧ ∀ w' p, step w e = .ok (w', p) → Throughout assumed w' rest

def Keeps (promised : World → Event → World → Nat → Prop) : World → List Event → Prop
  | _, [] => True
  | w, e :: rest => ∃ w' p, step w e = .ok (w', p) ∧ promised w e w' p ∧ Keeps promised w' rest

/-- Clients release what they hold and write only there; the rest of the kernel keeps out of the heap. -/
def Admissible (w : World) : Event → Prop
  | .kmalloc grant size caller => GrantOk w.heap grant ∧ size < 2 ^ 64 ∧ caller < 2 ^ 64
  | .kmallocAligned grant size alignment caller => GrantOk w.heap grant ∧ size < 2 ^ 64 ∧ alignment < 2 ^ 64 ∧ caller < 2 ^ 64
  | .kfree p caller => (∃ l ∈ w.live, l.ptr = p) ∧ caller < 2 ^ 64
  | .write a _ => (∃ l ∈ w.live, l.ptr ≤ a ∧ a < l.ptr + l.size) ∨ ¬ InRuns w.heap a

/-- The request, with stub and alignment, leaves room for the rounding to frames, or is refused at once. -/
def Fits : Event → Prop
  | .kmalloc _ size _ => size ≤ requestLimit ∨ 2 ^ 64 - 24 < size
  | .kmallocAligned _ size alignment _ =>
    let req := if alignment ≤ heapAlign then size else size + alignment + hdr
    req ≤ requestLimit ∨ 2 ^ 64 - 24 < req
  | .kfree _ _ | .write _ _ => True

def Small : Event → Prop
  | .kmalloc _ size _ => size < 2 ^ 40
  | .kmallocAligned _ size alignment _ => size < 2 ^ 40 ∧ alignment < 2 ^ 40
  | .kfree _ _ | .write _ _ => True

theorem Small.fits {e : Event} (small : Small e) : Fits e := by
  cases e with
  | kmalloc _ size _ =>
    unfold Small at small
    unfold Fits requestLimit
    omega
  | kmallocAligned _ size alignment _ =>
    unfold Small at small
    unfold Fits requestLimit hdr
    simp only
    split <;> omega
  | kfree _ _ => trivial
  | write _ _ => trivial

theorem Throughout.imp {weak strong : World → Event → Prop} {events : List Event} {w : World} (assumed : Throughout strong w events)
    (weaker : ∀ w e, strong w e → weak w e) : Throughout weak w events := by
  induction events generalizing w with
  | nil => trivial
  | cons e rest ih => exact ⟨weaker w e assumed.1, fun w' p stepped => ih (assumed.2 w' p stepped)⟩

/-- The blocks from `a` on, along the next fields to the end of the list. -/
def Follows (mem : Bytes) : Nat → List Nat → Prop
  | a, [] => a = 0
  | a, b :: rest => a = b ∧ a ≠ 0 ∧ Follows mem (load mem a).next rest

/-- The bytes of a result: in one used block of the list, in memory that the heap has, and
nobody else's. -/
structure Granted (live : List Allocation) (h : State) (p size alignment : Nat) : Prop where
  aligned : p % alignment = 0
  block : ∃ list, Follows h.mem h.start list ∧
    (∃ a ∈ list, (load h.mem a).magic = magicUsed ∧ a + hdr ≤ p ∧ p + size ≤ a + hdr + (load h.mem a).size ∧
      ∀ x, a ≤ x → x < a + hdr + (load h.mem a).size → InRuns h x) ∧
    ∀ a ∈ list, ∀ x, p ≤ x → x < p + size → ¬ (a ≤ x ∧ x < a + hdr)
  others : ∀ l ∈ live, ∀ x, p ≤ x → x < p + size → ¬ (l.ptr ≤ x ∧ x < l.ptr + l.size)

def Contained (h h' : State) : Prop := ∀ x, ¬ InRuns h' x → h'.mem x = h.mem x

def SoundCall (w : World) (e : Event) (w' : World) (p : Nat) : Prop :=
  match e with
  | .kmalloc _ size _ => Contained w.heap w'.heap ∧ (p ≠ 0 → Granted w.live w'.heap p size heapAlign)
  | .kmallocAligned _ size alignment _ => Contained w.heap w'.heap ∧ (p ≠ 0 → Granted w.live w'.heap p size alignment)
  | .kfree _ _ => Contained w.heap w'.heap
  | .write _ _ => True

def InBlock (h : State) (a x : Nat) : Prop := a ≤ x ∧ x < a + hdr + (load h.mem a).size

structure Intact (h : State) (list : List Nat) : Prop where
  follows : Follows h.mem h.start list
  acyclic : list.Nodup
  tiled : ∀ x, InRuns h x ↔ ∃ a ∈ list, InBlock h a x
  apart : ∀ a ∈ list, ∀ b ∈ list, ∀ x, InBlock h a x → InBlock h b x → a = b
  checks : ∀ a ∈ list, (load h.mem a).check = hbCalc h.secret a (load h.mem a)
  counted : ((h.totalAllocated : Int) - h.totalFreed) % 2 ^ 64 =
    ((list.map fun a => if (load h.mem a).magic = magicUsed then (load h.mem a).size else 0).sum : Nat)
  checked : ∃ stats, heapCheckLocked h = .ok stats

/-- No two neighbours in the list are free and adjacent in memory. -/
def Coalesced (h : State) (list : List Nat) : Prop :=
  list.IsChain fun a b => ¬ ((load h.mem a).magic = magicFree ∧ (load h.mem b).magic = magicFree ∧ a + hdr + (load h.mem a).size = b)

def IntactCall (e : Event) (h : State) : Prop :=
  ∃ list, Intact h list ∧ match e with
    | .kfree _ _ => Coalesced h list
    | _ => True

section
variable {h : State} {blocks : List Block}

theorem Linked.follows {mem : Bytes} {secret : Word} (linked : Linked mem secret blocks 0) (some_ : ∀ b ∈ blocks, b.addr ≠ 0) :
    Follows mem (firstOf blocks 0) (blocks.map Block.addr) := by
  induction blocks with
  | nil => rfl
  | cons b rest ih =>
    refine ⟨rfl, some_ b mem_cons_self, ?_⟩
    simp only [firstOf, linked.1.header, Block.header_next]
    exact ih linked.2 fun c member => some_ c (mem_cons_of_mem _ member)

section
variable (layout : Layout h blocks)
include layout

theorem Layout.follows : Follows h.mem h.start (blocks.map Block.addr) := by
  rw [layout.start]
  exact layout.linked.follows fun b member => layout.addr_ne member

theorem Layout.inBlock {b : Block} (member : b ∈ blocks) {x : Nat} : InBlock h b.addr x ↔ b.span.Has x := by
  obtain ⟨next, header⟩ := layout.header member
  rw [InBlock, header, Block.header_size, Block.has_span]

theorem Layout.intact : Intact h (blocks.map Block.addr) := by
  refine ⟨layout.follows, ?_, fun x => ?_, ?_, ?_, ?_, check_spec layout⟩
  · have apart := layout.apart
    rw [pairwise_map] at apart
    rw [List.Nodup, pairwise_map]
    refine apart.imp fun {b c} clear same => clear b.addr (span_first b) ?_
    rw [same]
    exact span_first c
  · rw [layout.covered]
    constructor
    · rintro ⟨s, held, inside⟩
      obtain ⟨b, member, rfl⟩ := List.mem_map.mp held
      exact ⟨b.addr, mem_map_of_mem member, (layout.inBlock member).mpr inside⟩
    · rintro ⟨a, held, inside⟩
      obtain ⟨b, member, rfl⟩ := List.mem_map.mp held
      exact covered_of_mem member ((layout.inBlock member).mp inside)
  · intro a heldA b heldB x inA inB
    obtain ⟨c, memberC, rfl⟩ := List.mem_map.mp heldA
    obtain ⟨d, memberD, rfl⟩ := List.mem_map.mp heldB
    rw [layout.eq_of_has memberC memberD ((layout.inBlock memberC).mp inA) ((layout.inBlock memberD).mp inB)]
  · intro a held
    obtain ⟨b, member, rfl⟩ := List.mem_map.mp held
    obtain ⟨next, header⟩ := layout.header member
    rw [header]
    exact b.header_check h.secret next
  · have sizes : (blocks.map Block.addr).map (fun a => if (load h.mem a).magic = magicUsed then (load h.mem a).size else 0) =
        blocks.map fun b => if b.used then b.size else 0 := by
      rw [map_map]
      refine map_congr_left fun b member => ?_
      obtain ⟨next, header⟩ := layout.header member
      simp only [Function.comp, header, Block.header_magic, Block.magic_eq_used, Block.header_size]
    have total := layout.usedBytes_le
    have balance := layout.balance
    have high := layout.high
    rw [sizes, ← usedBytes]
    omega

theorem Layout.coalesced (separated : Separated blocks) : Coalesced h (blocks.map Block.addr) := by
  rw [Coalesced, isChain_map]
  refine List.IsChain.imp_of_mem_imp (fun b c memberB memberC clear => ?_) separated
  obtain ⟨next, header⟩ := layout.header memberB
  obtain ⟨next', header'⟩ := layout.header memberC
  rwa [header, header', Block.header_magic, Block.header_magic, Block.magic_eq_free, Block.magic_eq_free, Block.header_size]

end

end

/-- The clients hold exactly the used blocks. -/
structure World.Sound (w : World) (blocks : List Block) : Prop where
  layout : Layout w.heap blocks
  live : ∀ l, l ∈ w.live ↔ ∃ b ∈ blocks, b.used = true ∧ b.allocation = l

section
variable {w w' : World} {h' : State} {blocks blocks' : List Block} {c : Block} {size alignment p : Nat}

theorem boot_sound (mem : Bytes) (secret : Word) (phys : Nat) (whole : phys % pmmFrameSize = 0)
    (direct : physmapBase + phys + pmmFrameSize < 2 ^ 64) :
    (boot mem secret phys).Sound [regionBlock (physmapBase + phys) 1] := by
  have virt : physToVirt phys = physmapBase + phys := Nat.mod_eq_of_lt (by omega)
  have ok : (regionBlock (physmapBase + phys) 1).Ok := regionBlock_ok (by unfold pmmFrameSize physmapBase at *; omega) Nat.one_pos
  have stop : (physmapBase + phys + pmmFrameSize) % 2 ^ 64 = physmapBase + phys + pmmFrameSize := Nat.mod_eq_of_lt direct
  have header : load (store mem (physmapBase + phys) ((regionBlock (physmapBase + phys) 1).header secret 0)) (physmapBase + phys) =
      (regionBlock (physmapBase + phys) 1).header secret 0 :=
    load_store (header_bounded ok.caller (show 1 * pmmFrameSize - hdr < 2 ^ 64 by decide) (Nat.two_pow_pos 64) (Nat.two_pow_pos 64))
  have lo : (boot mem secret phys).heap.lo = physmapBase + phys := by
    simp [boot, heapInit, heapTrackRegion, virt]
  have hi : (boot mem secret phys).heap.hi = physmapBase + phys + pmmFrameSize := by
    simp only [boot, heapInit, heapTrackRegion, virt, stop]
    exact if_pos (by unfold pmmFrameSize; omega)
  have runs : (boot mem secret phys).heap.runs = [⟨physmapBase + phys, 1 * pmmFrameSize⟩] := by
    simp only [boot, heapInit, heapTrackRegion, virt, nil_append, Nat.one_mul]
  have image : (boot mem secret phys).heap.mem = store mem (physmapBase + phys) ((regionBlock (physmapBase + phys) 1).header secret 0) := by
    simp only [boot, heapInit, virt]
    rfl
  have start : (boot mem secret phys).heap.start = physmapBase + phys := virt
  refine ⟨⟨start, cons_ne_nil _ _, ?_, ?_, ?_, pairwise_singleton _ _, ?_, ?_, ?_, rfl⟩, ?_⟩
  · rw [image]
    exact ⟨⟨header, (by rintro ⟨⟩), (by rintro ⟨⟩)⟩, trivial⟩
  · intro b held
    cases mem_singleton.mp held
    exact ok
  · intro b held
    cases mem_singleton.mp held
    rw [lo, hi]
    simp only [regionBlock, pmmFrameSize, hdr]
    omega
  · intro x
    rw [InRuns, runs, covered_single, has_regionBlock Nat.one_pos]
    simp [Span.Covered]
  · rw [lo]
    exact Nat.le_add_right _ _
  · rw [hi]
    exact direct
  · intro l
    refine ⟨(by rintro ⟨⟩), ?_⟩
    rintro ⟨b, held, used, _⟩
    cases mem_singleton.mp held
    cases used

theorem Served.granted (sound : w.Sound blocks) (served : Served w.heap h' blocks blocks' c) (want : c.want = size)
    (aligned : c.ptr % alignment = 0) : Granted w.live h' c.ptr size alignment := by
  have layout := served.layout
  have member : c ∈ blocks' := (served.clients c served.used).mpr (.inl rfl)
  obtain ⟨next, header⟩ := layout.header member
  obtain ⟨behind, _, room⟩ := (layout.ok c member).client served.used
  rw [want] at room
  -- the client's bytes belong to its block and to no other
  have mine : ∀ x, c.ptr ≤ x → x < c.ptr + size → c.span.Has x := fun x first last => Block.has_span.mpr ⟨by omega, by omega⟩
  refine ⟨aligned, ⟨blocks'.map Block.addr, layout.follows, ⟨c.addr, mem_map_of_mem member, ?_, behind, ?_, ?_⟩, ?_⟩, ?_⟩
  · rw [header, Block.header_magic]
    exact (Block.magic_eq_used c).mpr served.used
  · rw [header, Block.header_size]
    omega
  · intro x first last
    exact (layout.covered x).mpr (covered_of_mem member ((layout.inBlock member).mp ⟨first, last⟩))
  · intro a held x first last inHeader
    obtain ⟨d, other, rfl⟩ := List.mem_map.mp held
    have same := layout.eq_of_has member other (mine x first last) (Block.has_span.mpr ⟨inHeader.1, by omega⟩)
    subst same
    omega
  · intro l held x first last inside
    obtain ⟨d, listed, used, rfl⟩ := (sound.live l).mp held
    have other : d ∈ blocks' := (served.clients d used).mpr (.inr listed)
    obtain ⟨above, _, below⟩ := (layout.ok d other).client used
    simp only [Block.allocation] at inside
    have same := layout.eq_of_has member other (mine x first last) (Block.has_span.mpr ⟨by omega, by omega⟩)
    exact served.fresh (same ▸ listed)

theorem Served.sound (sound : w.Sound blocks) (served : Served w.heap h' blocks blocks' c) (want : c.want = size) :
    World.Sound ⟨h', hold w.live c.ptr size⟩ blocks' := by
  have member : c ∈ blocks' := (served.clients c served.used).mpr (.inl rfl)
  have some_ : c.ptr ≠ 0 := by
    have behind := ((served.layout.ok c member).client served.used).1
    have low := served.layout.addr_ne member
    omega
  refine ⟨served.layout, fun l => ?_⟩
  simp only [hold, if_neg some_, mem_cons, sound.live]
  constructor
  · rintro (rfl | ⟨d, listed, used, same⟩)
    · exact ⟨c, member, served.used, by rw [Block.allocation, want]⟩
    · exact ⟨d, (served.clients d used).mpr (.inr listed), used, same⟩
  · rintro ⟨d, listed, used, rfl⟩
    rcases (served.clients d used).mp listed with rfl | old
    · exact .inl (by rw [Block.allocation, want])
    · exact .inr ⟨d, old, used, rfl⟩

theorem Released.sound (sound : w.Sound blocks) (member : c ∈ blocks) (used : c.used = true)
    (released : Released w.heap h' blocks blocks' c) : World.Sound ⟨h', w.live.filter (·.ptr ≠ c.ptr)⟩ blocks' := by
  have layout := sound.layout
  have inside : ∀ d ∈ blocks, d.used = true → d.span.Has d.ptr := by
    intro d listed held
    obtain ⟨above, _, below⟩ := (layout.ok d listed).client held
    exact Block.has_span.mpr ⟨by omega, by omega⟩
  refine ⟨released.layout, fun l => ?_⟩
  simp only [mem_filter, decide_eq_true_eq, ne_eq, sound.live]
  constructor
  · rintro ⟨⟨d, listed, held, rfl⟩, other⟩
    refine ⟨d, (released.clients d held).mpr ⟨?_, listed⟩, held, rfl⟩
    rintro rfl
    exact other rfl
  · rintro ⟨d, listed, held, rfl⟩
    obtain ⟨other, old⟩ := (released.clients d held).mp listed
    refine ⟨⟨d, old, held, rfl⟩, fun same => other ?_⟩
    have inD := inside d old held
    rw [show d.ptr = c.ptr from same] at inD
    exact layout.eq_of_has old member inD (inside c member used)

theorem write_sound (sound : w.Sound blocks) {a : Nat} (value : UInt8)
    (allowed : (∃ l ∈ w.live, l.ptr ≤ a ∧ a < l.ptr + l.size) ∨ ¬ InRuns w.heap a) :
    World.Sound ⟨{ w.heap with mem := Function.update w.heap.mem a value }, w.live⟩ blocks := by
  have layout := sound.layout
  have unguarded : ∀ b ∈ blocks, ¬ b.Guards a := by
    rintro b member ⟨inside, foreign⟩
    rcases allowed with ⟨l, held, first, last⟩ | out
    · obtain ⟨d, listed, used, rfl⟩ := (sound.live l).mp held
      simp only [Block.allocation] at first last
      obtain ⟨above, _, below⟩ := (layout.ok d listed).client used
      have same := layout.eq_of_has listed member (Block.has_span.mpr ⟨by omega, by omega⟩) inside
      subst same
      exact foreign ⟨used, first, last⟩
    · exact out ((layout.covered a).mpr (covered_of_mem member inside))
  refine ⟨⟨layout.start, layout.nonempty, ?_, layout.ok, layout.inside, layout.apart, layout.covered, layout.low, layout.high, layout.balance⟩,
    sound.live⟩
  refine layout.linked.congr_guards layout.ok fun b member x guard => ?_
  have other : x ≠ a := by
    rintro rfl
    exact unguarded b member guard
  exact (Function.update_of_ne other value w.heap.mem).symm

end

section
variable {h h' : State} {blocks : List Block} {live : List Allocation} {grant : Grant} {req size alignment caller p : Nat}

/-- The rounding to the canary and to sixteen wraps, which is noticed. -/
theorem alloc_refused (high : 2 ^ 64 - 24 < req) (word : req < 2 ^ 64) : heapAllocLocked h grant req caller = .ok (h, 0) := by
  have wraps : alignUp ((req + heapTail) % 2 ^ 64) heapAlign < req := by
    unfold alignUp heapTail heapAlign
    omega
  unfold heapAllocLocked
  simp only [if_pos wraps]

theorem kmalloc_refused (high : 2 ^ 64 - 24 < size) (word : size < 2 ^ 64) : kmalloc h grant size caller = .ok (h, 0) := by
  unfold kmalloc
  split
  · rfl
  · simp only [alloc_refused high word, if_true]

theorem power_le (power : alignment &&& (alignment - 1) = 0) (positive : 0 < alignment) (word : alignment < 2 ^ 64) : alignment ≤ 2 ^ 63 := by
  obtain ⟨k, rfl⟩ := (Nat.and_sub_one_eq_zero_iff_isPowerOfTwo (Nat.ne_of_gt positive)).mp power
  have below : k < 64 := (Nat.pow_lt_pow_iff_right (a := 2) (by decide)).mp word
  exact Nat.pow_le_pow_right (by decide) (Nat.le_of_lt_succ below)

theorem kmallocAligned_refused (high : 2 ^ 64 - 24 < if alignment ≤ heapAlign then size else size + alignment + hdr) (word : size < 2 ^ 64)
    (words : alignment < 2 ^ 64) : kmallocAligned h grant size alignment caller = .ok (h, 0) := by
  unfold kmallocAligned
  split
  · rfl
  obtain ⟨_, positive, power, _⟩ : 0 < size ∧ 0 < alignment ∧ alignment &&& (alignment - 1) = 0 ∧ h.start ≠ 0 := by omega
  have half := power_le power positive words
  split
  next small =>
    rw [if_pos small] at high
    simp only [alloc_refused high word, if_true]
  next large =>
    rw [if_neg large] at high
    -- a sum that wraps ends below the size
    dsimp only
    split
    · have whole : (size + alignment + hdr) % 2 ^ 64 = size + alignment + hdr := by
        unfold hdr at *
        omega
      rw [whole, alloc_refused high (by rw [← whole]; exact Nat.mod_lt _ (Nat.two_pow_pos 64))]
      rfl
    · rfl

theorem Granted.reach (granted : Granted live h' p size alignment) (asked : 0 < size) (bounded : ∀ x, InRuns h' x → x < 2 ^ 64) :
    p + size ≤ 2 ^ 64 := by
  obtain ⟨_, _, ⟨a, _, _, behind, room, inside⟩, _⟩ := granted.block
  have last := bounded (p + size - 1) (inside _ (by omega) (by omega))
  omega

theorem gap_bounded {phys : Nat} (layout : Layout h blocks) (contract : GrantOk h grant) (granted : grant 1 = some phys)
    (runs : h'.runs = h.runs ++ [⟨physmapBase + phys, pmmFrameSize⟩]) : ∀ x, InRuns h' x → x < 2 ^ 64 := by
  intro x inside
  rw [InRuns, runs, Span.covered_append] at inside
  rcases inside with old | ⟨s, single, inS⟩
  · obtain ⟨s, held, inS⟩ := (layout.covered x).mp old
    obtain ⟨b, member, rfl⟩ := List.mem_map.mp held
    have bounds := layout.block_bounds member
    rw [Block.has_span] at inS
    omega
  · cases mem_singleton.mp single
    obtain ⟨_, room, _⟩ := contract _ _ granted
    unfold Span.Has at inS
    simp only [Nat.one_mul] at room inS
    omega

/-- In the gap between them one frame is taken for the request, whatever it was. -/
theorem alloc_gap (caller : Nat) (layout : Layout h blocks) (contract : GrantOk h grant) (high : requestLimit < req) (low : req ≤ 2 ^ 64 - 24) :
    (grant 1 = none ∧ heapAllocLocked h grant req caller = .ok (h, 0)) ∨
      ∃ h' b, heapAllocLocked h grant req caller = .ok (h', b) ∧ (b ≠ 0 ∧ physmapBase ≤ b) ∧ b + 4096 < 2 ^ 64 ∧
        hbPayload b = b + hdr ∧ ∀ x, InRuns h' x → x < 2 ^ 64 := by
  unfold requestLimit at high
  have needs : alignUp ((req + heapTail) % 2 ^ 64) heapAlign = (req + 23) / 16 * 16 := by
    unfold alignUp heapTail heapAlign
    omega
  have one : framesFor ((req + 23) / 16 * 16) = 1 := by
    unfold framesFor hdr pmmFrameSize
    dsimp only
    split <;> omega
  unfold heapAllocLocked
  simp only [needs, if_neg (show ¬ (req + 23) / 16 * 16 < req by omega)]
  obtain ⟨pre, b, post, before, rfl, _, large, _⟩ | ⟨_, ended⟩ := firstFit layout ((req + 23) / 16 * 16)
  · -- no block is that large
    obtain ⟨above, below⟩ := layout.block_bounds (b := b) (mem_append_cons_self)
    unfold physmapBase at above
    omega
  · obtain ⟨init, last, rfl⟩ : ∃ init last, blocks = init ++ [last] :=
      ⟨_, _, (dropLast_append_getLast layout.nonempty).symm⟩
    simp only [ended, lastOf_concat, ne_eq, not_true_eq_false, if_false]
    cases granted : grant 1 with
    | none =>
      have refused : expandHeap h grant last.addr ((req + 23) / 16 * 16) = (h, 0) := by
        simp only [expandHeap, one, granted]
      simp only [refused, if_true]
      exact .inl ⟨trivial, trivial⟩
    | some phys =>
      obtain ⟨base, _, runs, _⟩ := expand_layout layout contract (show grant (framesFor ((req + 23) / 16 * 16)) = some phys by rw [one]; exact granted)
      have pair : expandHeap h grant last.addr ((req + 23) / 16 * 16) =
          ((expandHeap h grant last.addr ((req + 23) / 16 * 16)).1, physmapBase + phys) := Prod.ext rfl base
      have some_ : physmapBase + phys ≠ 0 := by unfold physmapBase; omega
      obtain ⟨_, room, _⟩ := contract _ _ granted
      rw [Nat.one_mul] at room
      rw [one, Nat.one_mul] at runs
      rw [pair]
      simp only [if_neg some_]
      refine .inr ⟨_, _, rfl, ⟨some_, Nat.le_add_right _ _⟩, room, Nat.mod_eq_of_lt ?_, gap_bounded layout contract granted runs⟩
      unfold hdr
      unfold pmmFrameSize at room
      omega

theorem Granted.absurd {b : Nat} (granted : Granted live h' p size alignment) (bounded : ∀ x, InRuns h' x → x < 2 ^ 64)
    (above : physmapBase ≤ b) (place : b + hdr ≤ p) (high : requestLimit < size + alignment + hdr) (room : b + alignment < 2 ^ 64) : False := by
  unfold requestLimit hdr at high
  unfold physmapBase at above
  have reach := granted.reach (by omega) bounded
  omega

theorem kmalloc_gap (caller : Nat) (layout : Layout h blocks) (contract : GrantOk h grant) (high : requestLimit < size) (low : size ≤ 2 ^ 64 - 24) :
    (grant 1 = none ∧ kmalloc h grant size caller = .ok (h, 0)) ∨
      ∃ h' p, kmalloc h grant size caller = .ok (h', p) ∧ p ≠ 0 ∧ ∀ live, ¬ Granted live h' p size heapAlign := by
  have valid : ¬ (size = 0 ∨ h.start = 0) := by
    have start := layout.start_ne
    unfold requestLimit at high
    omega
  unfold kmalloc
  rw [if_neg valid]
  obtain ⟨none, refused⟩ | ⟨h', b, given, ⟨some_, above⟩, room, payload, bounded⟩ := alloc_gap caller layout contract high low
  · simp only [refused, if_true]
    exact .inl ⟨none, trivial⟩
  · simp only [given, if_neg some_, payload]
    refine .inr ⟨h', _, rfl, by omega, fun live sound => ?_⟩
    exact sound.absurd bounded above le_rfl (by omega) (by unfold heapAlign; omega)

theorem alignUp_wraps {a : Nat} (low : a < 2 ^ 64) (excess : 2 ^ 64 ≤ a + alignment - 1) : alignUp a alignment = 0 := by
  unfold alignUp
  rw [Nat.div_eq_of_lt (by omega), Nat.zero_mul]

theorem alignBlock_runs (h : State) (b size alignment caller : Nat) : (alignBlock h b size alignment caller).1.runs = h.runs := by
  obtain ⟨mem, r, same⟩ : ∃ mem r, alignBlock h b size alignment caller = ({ h with mem := mem }, r) := ⟨_, _, rfl⟩
  rw [same]

theorem kmallocAligned_gap (caller : Nat) (layout : Layout h blocks) (contract : GrantOk h grant)
    (high : requestLimit < if alignment ≤ heapAlign then size else size + alignment + hdr)
    (low : (if alignment ≤ heapAlign then size else size + alignment + hdr) ≤ 2 ^ 64 - 24) :
    ∃ h' p, kmallocAligned h grant size alignment caller = .ok (h', p) ∧ (p ≠ 0 → ∀ live, ¬ Granted live h' p size alignment) := by
  unfold kmallocAligned
  split
  · exact ⟨h, 0, rfl, fun some_ => absurd rfl some_⟩
  obtain ⟨asked, positive, power, _⟩ : 0 < size ∧ 0 < alignment ∧ alignment &&& (alignment - 1) = 0 ∧ h.start ≠ 0 := by omega
  split
  next small =>
    rw [if_pos small] at high low
    unfold heapAlign at small
    obtain ⟨_, refused⟩ | ⟨h', b, given, ⟨some_, above⟩, room, payload, bounded⟩ := alloc_gap caller layout contract high low
    · simp only [refused, if_true]
      exact ⟨h, 0, rfl, fun some_ => absurd rfl some_⟩
    · simp only [given, if_neg some_, payload]
      exact ⟨h', _, rfl, fun _ live sound => sound.absurd bounded above le_rfl (by omega) (by omega)⟩
  next large =>
    rw [if_neg large] at high low
    have whole : (size + alignment + hdr) % 2 ^ 64 = size + alignment + hdr := Nat.mod_eq_of_lt (by omega)
    rw [whole, if_pos (show size + alignment + hdr > size by omega)]
    obtain ⟨_, refused⟩ | ⟨h', b, given, ⟨some_, above⟩, room, payload, bounded⟩ := alloc_gap caller layout contract high low
    · simp only [refused, if_true]
      exact ⟨h, 0, rfl, fun some_ => absurd rfl some_⟩
    · have place : (hbPayload b + hdr) % 2 ^ 64 = b + hdr + hdr := by
        rw [payload]
        unfold hdr
        omega
      simp only [given, if_neg some_]
      have pointer : (alignBlock h' b size alignment caller).2 = alignUp (b + hdr + hdr) alignment := by
        simp only [alignBlock, place]
      refine ⟨(alignBlock h' b size alignment caller).1, (alignBlock h' b size alignment caller).2, by rw [Prod.mk.eta], fun some_ live sound => ?_⟩
      rw [pointer] at some_ sound
      have fits : b + hdr + hdr + alignment - 1 < 2 ^ 64 := by
        by_contra excess
        exact some_ (alignUp_wraps (by unfold hdr; omega) (by omega))
      obtain ⟨behind, _, _⟩ := alignUp_spec positive fits
      have same : ∀ x, InRuns (alignBlock h' b size alignment caller).1 x → x < 2 ^ 64 := fun x inside =>
        bounded x (by rwa [InRuns, alignBlock_runs] at inside)
      exact sound.absurd same above (by omega) high (by unfold hdr at fits; omega)

end

section
variable {w w' : World} {blocks : List Block} {e : Event} {p : Nat} {events : List Event}

/-- A used block is in the list after the event, or its header is gone. -/
def Survive (h' : State) (blocks blocks' : List Block) : Prop :=
  ∀ d ∈ blocks, d.used = true → d ∈ blocks' ∨ (load h'.mem d.addr).magic ≠ magicUsed

theorem step_sound (sound : w.Sound blocks) (allowed : Admissible w e) (fits : Fits e) :
    ∃ w' p blocks', step w e = .ok (w', p) ∧ w'.Sound blocks' ∧ SoundCall w e w' p ∧ IntactCall e w'.heap ∧
      Survive w'.heap blocks blocks' := by
  have layout := sound.layout
  have unchanged : Contained w.heap w.heap := fun _ _ => rfl
  cases e with
  | kmalloc grant size caller =>
    obtain ⟨contract, word, low⟩ := allowed
    have call : kmalloc w.heap grant size caller = .ok (w.heap, 0) ∨ ∃ h' blocks' c, kmalloc w.heap grant size caller = .ok (h', c.ptr) ∧
        Served w.heap h' blocks blocks' c ∧ c.want = size ∧ c.ptr % 16 = 0 := by
      rcases fits with small | huge
      · exact kmalloc_spec layout contract small low
      · exact .inl (kmalloc_refused huge word)
    obtain refused | ⟨h', blocks', c, given, served, want, aligned⟩ := call
    · exact ⟨w, 0, blocks, by simp only [step, refused, hold, if_true], sound, ⟨unchanged, fun some_ => absurd rfl some_⟩,
        ⟨_, layout.intact, trivial⟩, fun _ listed _ => .inl listed⟩
    · exact ⟨_, c.ptr, blocks', by simp only [step, given], served.sound sound want, ⟨served.frame, fun _ => served.granted sound want aligned⟩,
        ⟨_, served.layout.intact, trivial⟩, fun d listed used => .inl ((served.clients d used).mpr (.inr listed))⟩
  | kmallocAligned grant size alignment caller =>
    obtain ⟨contract, word, words, low⟩ := allowed
    have call : kmallocAligned w.heap grant size alignment caller = .ok (w.heap, 0) ∨ ∃ h' blocks' c,
        kmallocAligned w.heap grant size alignment caller = .ok (h', c.ptr) ∧ Served w.heap h' blocks blocks' c ∧
          c.want = size ∧ c.ptr % alignment = 0 := by
      rcases fits with small | huge
      · refine kmallocAligned_spec layout contract ?_ low
        split at small
        next le => rwa [if_pos le]
        next excess => rwa [if_neg excess]
      · exact .inl (kmallocAligned_refused huge word words)
    obtain refused | ⟨h', blocks', c, given, served, want, aligned⟩ := call
    · exact ⟨w, 0, blocks, by simp only [step, refused, hold, if_true], sound, ⟨unchanged, fun some_ => absurd rfl some_⟩,
        ⟨_, layout.intact, trivial⟩, fun _ listed _ => .inl listed⟩
    · exact ⟨_, c.ptr, blocks', by simp only [step, given], served.sound sound want, ⟨served.frame, fun _ => served.granted sound want aligned⟩,
        ⟨_, served.layout.intact, trivial⟩, fun d listed used => .inl ((served.clients d used).mpr (.inr listed))⟩
  | kfree p caller =>
    obtain ⟨⟨l, held, rfl⟩, low⟩ := allowed
    obtain ⟨b, member, used, rfl⟩ := (sound.live l).mp held
    obtain ⟨h', blocks', freed, released, alone⟩ := kfree_spec layout member used low
    have contained : Contained w.heap h' := fun x out => released.frame x (by rwa [InRuns, released.runs] at out)
    refine ⟨_, 0, blocks', by simp only [step, Block.allocation, freed]; rfl, released.sound sound member used, contained,
      ⟨_, released.layout.intact, released.layout.coalesced released.separated⟩, fun d listed held => ?_⟩
    by_cases same : d = b
    · exact .inr (same ▸ alone.gone)
    · exact .inl ((released.clients d held).mpr ⟨same, listed⟩)
  | write a value =>
    have kept := write_sound sound value allowed
    exact ⟨_, 0, blocks, rfl, kept, trivial, ⟨_, kept.layout.intact, trivial⟩, fun _ listed _ => .inl listed⟩

theorem run_sound {promised : World → Event → World → Nat → Prop}
    (promises : ∀ w e w' p, SoundCall w e w' p → IntactCall e w'.heap → promised w e w' p) (sound : w.Sound blocks)
    (assumed : Throughout (fun w e => Admissible w e ∧ Fits e) w events) :
    Keeps promised w events ∧ ∀ w', run w events = .ok w' → ∃ blocks', w'.Sound blocks' := by
  induction events generalizing w blocks with
  | nil =>
    refine ⟨trivial, fun w' ended => ?_⟩
    cases ended
    exact ⟨blocks, sound⟩
  | cons e rest ih =>
    obtain ⟨⟨allowed, fits⟩, later⟩ := assumed
    obtain ⟨w', p, blocks', stepped, kept, call, intact, _⟩ := step_sound sound allowed fits
    obtain ⟨keeps, final⟩ := ih kept (later w' p stepped)
    refine ⟨⟨w', p, stepped, promises w e w' p call intact, keeps⟩, fun last ended => final last ?_⟩
    simp only [run, stepped] at ended
    exact ended

theorem unfit_unsound (sound : w.Sound blocks) (allowed : Admissible w e) (unfit : ¬ Fits e) (stepped : step w e = .ok (w', p))
    (some_ : p ≠ 0) : ¬ SoundCall w e w' p := by
  have layout := sound.layout
  cases e with
  | kmalloc grant size caller =>
    obtain ⟨high, low⟩ := not_or.mp unfit
    obtain ⟨_, refused⟩ | ⟨h', q, given, _, unsound⟩ := kmalloc_gap caller layout allowed.1 (Nat.lt_of_not_le high) (Nat.le_of_not_lt low)
    · simp only [step, refused] at stepped
      cases stepped
      exact absurd rfl some_
    · simp only [step, given] at stepped
      cases stepped
      exact fun call => unsound _ (call.2 some_)
  | kmallocAligned grant size alignment caller =>
    obtain ⟨high, low⟩ := not_or.mp unfit
    obtain ⟨h', q, given, unsound⟩ := kmallocAligned_gap caller layout allowed.1 (Nat.lt_of_not_le high) (Nat.le_of_not_lt low)
    simp only [step, given] at stepped
    cases stepped
    exact fun call => unsound some_ _ (call.2 some_)
  | kfree _ _ => exact absurd trivial unfit
  | write _ _ => exact absurd trivial unfit

end

/-- A machine with one frame at 1 MiB in the heap, and a frame at 2 MiB to give. -/
def sampleBoot : World := boot (fun _ => 0) 0 0x100000

def sampleGrant : Grant := fun frames => if frames = 1 then some 0x200000 else none

theorem sampleGrant_ok : GrantOk sampleBoot.heap sampleGrant := by
  intro frames phys granted
  unfold sampleGrant at granted
  split at granted
  next one =>
    cases granted
    subst one
    refine ⟨rfl, by decide, fun x inside old => ?_⟩
    obtain ⟨s, held, inS⟩ := old
    have runs : sampleBoot.heap.runs = [⟨physmapBase + 0x100000, 4096⟩] := rfl
    rw [runs] at held
    cases mem_singleton.mp held
    simp only [Span.Has, pmmFrameSize] at inside inS
    omega
  · cases granted

def after (w : World) (e : Event) : World :=
  match step w e with
  | .ok (w', _) => w'
  | .error _ => w

theorem after_eq {w w' : World} {e : Event} {p : Nat} (stepped : step w e = .ok (w', p)) : w' = after w e := by
  rw [after, stepped]

/-- Two allocations, a request that is refused, and their release: the second `kfree` merges on both sides. -/
def sampleEvents : List Event := [.kmalloc sampleGrant 16 0, .kmallocAligned (fun _ => none) 64 256 0, .kmalloc (fun _ => none) 4040 0,
  .kfree (physmapBase + 0x100030) 0, .kfree (physmapBase + 0x100100) 0]

theorem sampleEvents_allowed : Throughout (fun w e => Admissible w e ∧ Small e) sampleBoot sampleEvents := by
  refine ⟨⟨⟨sampleGrant_ok, by decide, by decide⟩, show 16 < 2 ^ 40 by decide⟩, fun _ _ stepped => ?_⟩
  rw [after_eq stepped]
  refine ⟨⟨⟨nofun, by decide, by decide, by decide⟩, by decide, by decide⟩, fun _ _ stepped => ?_⟩
  rw [after_eq stepped]
  refine ⟨⟨⟨nofun, by decide, by decide⟩, show 4040 < 2 ^ 40 by decide⟩, fun _ _ stepped => ?_⟩
  rw [after_eq stepped]
  refine ⟨⟨⟨⟨⟨physmapBase + 0x100030, 16⟩, by decide +kernel, rfl⟩, by decide⟩, trivial⟩, fun _ _ stepped => ?_⟩
  rw [after_eq stepped]
  exact ⟨⟨⟨⟨⟨physmapBase + 0x100100, 64⟩, by decide +kernel, rfl⟩, by decide⟩, trivial⟩, fun _ _ _ => trivial⟩

section
variable (mem : Bytes) (secret : Word) (phys : Nat) (whole : phys % pmmFrameSize = 0) (direct : physmapBase + phys + pmmFrameSize < 2 ^ 64)
include whole direct

/-- Requests that fit are all sound, whatever the order; after them a request that does not fit gets NULL or is not. -/
theorem allocations_sound_iff_fit (events : List Event)
    (assumed : Throughout (fun w e => Admissible w e ∧ Fits e) (boot mem secret phys) events) :
    Keeps SoundCall (boot mem secret phys) events ∧
      ∀ w, run (boot mem secret phys) events = .ok w → ∀ e, Admissible w e → ∀ w' p, step w e = .ok (w', p) → p ≠ 0 →
        (SoundCall w e w' p ↔ Fits e) := by
  obtain ⟨keeps, final⟩ := run_sound (fun _ _ _ _ call _ => call) (boot_sound mem secret phys whole direct) assumed
  refine ⟨keeps, fun w ended e allowed w' p stepped some_ => ?_⟩
  obtain ⟨blocks, sound⟩ := final w ended
  constructor
  · intro call
    by_contra unfit
    exact unfit_unsound sound allowed unfit stepped some_ call
  · intro fits
    obtain ⟨w'', p', _, again, _, call, _⟩ := step_sound sound allowed fits
    rw [stepped] at again
    cases again
    exact call

omit whole direct in
/-- A request of 2^64 - 4100 bytes takes one frame, and its bytes run past the address space. -/
theorem huge_request_unsound : ∃ w' p, Admissible sampleBoot (.kmalloc sampleGrant (2 ^ 64 - 4100) 0) ∧
    step sampleBoot (.kmalloc sampleGrant (2 ^ 64 - 4100) 0) = .ok (w', p) ∧ p ≠ 0 ∧
    ¬ SoundCall sampleBoot (.kmalloc sampleGrant (2 ^ 64 - 4100) 0) w' p := by
  have sound : sampleBoot.Sound _ := boot_sound (fun _ => 0) 0 0x100000 (by decide) (by decide)
  obtain ⟨none, _⟩ | ⟨h', p, given, some_, unsound⟩ :=
    kmalloc_gap 0 sound.layout sampleGrant_ok (show requestLimit < 2 ^ 64 - 4100 by decide) (by decide)
  · cases none
  · refine ⟨⟨h', hold sampleBoot.live p (2 ^ 64 - 4100)⟩, p, ⟨sampleGrant_ok, by decide, by decide⟩, by simp only [step, given], some_, fun call => ?_⟩
    exact unsound _ (call.2 some_)

omit whole direct in
theorem sample_allocations_sound : Keeps SoundCall sampleBoot sampleEvents :=
  (allocations_sound_iff_fit (fun _ => 0) 0 0x100000 (by decide) (by decide) sampleEvents
    (sampleEvents_allowed.imp fun _ _ each => And.intro each.1 each.2.fits)).1

theorem list_stays_intact (events : List Event)
    (assumed : Throughout (fun w e => Admissible w e ∧ Small e) (boot mem secret phys) events) :
    (∃ list, Intact (boot mem secret phys).heap list) ∧ Keeps (fun _ e w' _ => IntactCall e w'.heap) (boot mem secret phys) events := by
  have sound := boot_sound mem secret phys whole direct
  have fits := assumed.imp fun _ _ each => And.intro each.1 each.2.fits
  exact ⟨⟨_, sound.layout.intact⟩, (run_sound (fun _ _ _ _ _ intact => intact) sound fits).1⟩

omit whole direct in
theorem sample_list_intact : Keeps (fun _ e w' _ => IntactCall e w'.heap) sampleBoot sampleEvents :=
  (list_stays_intact (fun _ => 0) 0 0x100000 (by decide) (by decide) sampleEvents sampleEvents_allowed).2

end
end SecOS.Heap
