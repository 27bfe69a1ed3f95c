import SecOS.Proofs.HeapOperations

/-! The calls of the heap. An allocation places one block, splitting a free one or growing the
heap, and an aligned one moves the pointer inside its block; the list stays laid out. -/

namespace SecOS.Heap
open Library List

section
variable {h h' : State} {blocks pre post : List Block} {b : Block} {grant : Grant} {req caller : Nat}

/-- Requests up to here have a number of frames that fits 64 bits. -/
def requestLimit : Nat := 2 ^ 64 - 4152

theorem need_eq (low : req ≤ requestLimit) : alignUp ((req + heapTail) % 2 ^ 64) heapAlign = (req + 23) / 16 * 16 := by
  unfold requestLimit at low
  unfold alignUp heapTail heapAlign
  rw [Nat.mod_eq_of_lt (show req + 8 < 2 ^ 64 by omega)]
  omega

theorem framesFor_enough (need : Nat) (low : need ≤ 2 ^ 64 - 4144) : need + hdr ≤ framesFor need * pmmFrameSize := by
  unfold framesFor hdr pmmFrameSize
  dsimp only
  split <;> omega

/-- A block of its own for the request, in a heap that has only grown. -/
structure Placed (h h' : State) (blocks pre post : List Block) (b : Block) (req caller : Nat) : Prop where
  layout : Layout h' (pre ++ b :: post)
  block : b = usedBlock b b.size req caller
  others : ∀ c, c.used = true → (c ∈ pre ++ post ↔ c ∈ blocks)
  grown : ∀ x, InRuns h x → InRuns h' x
  frame : ∀ x, ¬ InRuns h' x → h'.mem x = h.mem x

theorem take_placed {need : Nat} (layout : Layout h (pre ++ b :: post)) (free : b.used = false) (whole : need % 16 = 0)
    (fits : req + 8 ≤ need) (enough : need ≤ b.size) (asked : 0 < req) (low : caller < 2 ^ 64) :
    ∃ after c, c.addr = b.addr ∧ Placed h (takeBlock h b.addr need req caller) (pre ++ b :: post) pre after c req caller := by
  obtain ⟨taken, frame⟩ := take_layout layout free whole fits enough asked low
  have runs : (takeBlock h b.addr need req caller).runs = h.runs := by
    unfold takeBlock
    rfl
  have outside : ∀ x, ¬ InRuns (takeBlock h b.addr need req caller) x → (takeBlock h b.addr need req caller).mem x = h.mem x := by
    intro x out
    refine frame x fun inside => out ?_
    rw [InRuns, runs]
    exact (layout.covered x).mpr (covered_of_mem (mem_append_cons_self) inside)
  have grown : ∀ x, InRuns h x → InRuns (takeBlock h b.addr need req caller) x := by
    intro x inside
    rw [InRuns, runs]
    exact inside
  unfold takenBlocks at taken
  split at taken
  · refine ⟨restBlock b need :: post, usedBlock b need req caller, rfl, ?_, rfl, ?_, grown, outside⟩
    · rwa [append_assoc] at taken
    · intro c used
      have first : c ≠ restBlock b need := by rintro rfl; cases used
      have second : c ≠ b := by rintro rfl; rw [free] at used; cases used
      simp [first, second]
  · refine ⟨post, usedBlock b b.size req caller, rfl, ?_, rfl, ?_, grown, outside⟩
    · rwa [append_assoc] at taken
    · intro c used
      have second : c ≠ b := by rintro rfl; rw [free] at used; cases used
      simp [second]

theorem alloc_spec (layout : Layout h blocks) (contract : GrantOk h grant) (limit : req ≤ requestLimit) (asked : 0 < req)
    (low : caller < 2 ^ 64) :
    heapAllocLocked h grant req caller = .ok (h, 0) ∨
      ∃ h' pre b post, heapAllocLocked h grant req caller = .ok (h', b.addr) ∧ Placed h h' blocks pre post b req caller := by
  have needs := need_eq limit
  have fits : req + 8 ≤ (req + 23) / 16 * 16 := by omega
  have whole : (req + 23) / 16 * 16 % 16 = 0 := Nat.mul_mod_left _ _
  unfold heapAllocLocked
  simp only [needs, if_neg (show ¬ (req + 23) / 16 * 16 < req by omega)]
  obtain ⟨pre, b, post, before, rfl, free, large, found⟩ | ⟨_, ended⟩ := firstFit layout ((req + 23) / 16 * 16)
  · obtain ⟨after, c, same, placed⟩ := take_placed layout free whole fits large asked low
    have some_ : b.addr ≠ 0 := layout.addr_ne (mem_append_cons_self)
    simp only [found, if_pos some_]
    exact .inr ⟨_, pre, c, after, by rw [same], placed⟩
  · obtain ⟨init, last, rfl⟩ : ∃ init last, blocks = init ++ [last] :=
      ⟨_, _, (dropLast_append_getLast layout.nonempty).symm⟩
    simp only [ended, lastOf_concat, ne_eq, not_true_eq_false, if_false]
    cases granted : grant (framesFor ((req + 23) / 16 * 16)) with
    | none =>
      have refused : expandHeap h grant last.addr ((req + 23) / 16 * 16) = (h, 0) := by
        simp only [expandHeap, granted]
      simp only [refused, if_true]
      exact .inl trivial
    | some phys =>
      obtain ⟨base, grown, runs, frame⟩ := expand_layout layout contract granted
      have enough : (req + 23) / 16 * 16 ≤ (regionBlock (physmapBase + phys) (framesFor ((req + 23) / 16 * 16))).size := by
        have frames := framesFor_enough ((req + 23) / 16 * 16) (by unfold requestLimit at limit; omega)
        simp only [regionBlock]
        omega
      obtain ⟨after, c, same, placed⟩ := take_placed grown rfl whole fits enough asked low
      have pair : expandHeap h grant last.addr ((req + 23) / 16 * 16) =
          ((expandHeap h grant last.addr ((req + 23) / 16 * 16)).1, physmapBase + phys) := Prod.ext rfl base
      have some_ : physmapBase + phys ≠ 0 := by unfold physmapBase; omega
      rw [pair]
      simp only [if_neg some_]
      refine .inr ⟨_, init ++ [last], c, after, by rw [same]; rfl, placed.layout, placed.block, fun d used => ?_, fun x inside => ?_, fun x out => ?_⟩
      · have other : d ≠ regionBlock (physmapBase + phys) (framesFor ((req + 23) / 16 * 16)) := by rintro rfl; cases used
        rw [placed.others d used, mem_append, mem_singleton, or_iff_left other]
      · refine placed.grown x ?_
        rw [InRuns, runs]
        exact Span.covered_append.mpr (.inl inside)
      · rw [placed.frame x out]
        exact frame x fun inside => out (placed.grown x inside)

end

section
variable {h : State} {pre post : List Block} {b : Block} {size alignment caller : Nat}

def movedBlock (b : Block) (r size : Nat) : Block := { b with req := r - (b.addr + hdr) + size, aligned := true, ptr := r, want := size }

theorem movedBlock_ok {r : Nat} (ok : b.Ok) (used : b.used = true) (asked : 0 < size) (above : b.addr + 2 * hdr ≤ r) (whole : r % 16 = 0)
    (fits : r + size + 8 ≤ b.addr + hdr + b.size) : (movedBlock b r size).Ok := by
  unfold hdr at above fits
  refine ⟨ok.base, ok.room, ok.caller, fun _ => ?_, fun _ => asked, fun _ plain => (nomatch plain), fun _ => ⟨used, ?_, whole, ?_⟩, fun free => ?_⟩
  · simp only [movedBlock, hdr]
    omega
  · simp only [movedBlock, hdr]
    omega
  · simp only [movedBlock, hdr]
    omega
  · simp only [movedBlock, used] at free
    cases free

theorem alignUp_spec {a : Nat} (positive : 0 < alignment) (low : a + alignment - 1 < 2 ^ 64) :
    a ≤ alignUp a alignment ∧ alignUp a alignment < a + alignment ∧ alignUp a alignment % alignment = 0 := by
  unfold alignUp
  rw [Nat.mod_eq_of_lt low]
  have down := Nat.div_mul_le_self (a + alignment - 1) alignment
  have up := Nat.lt_div_mul_add (a := a + alignment - 1) positive
  exact ⟨by omega, by omega, Nat.mul_mod_left _ _⟩

theorem align_layout (layout : Layout h (pre ++ b :: post)) (block : b = usedBlock b b.size (size + alignment + hdr) caller)
    (asked : 0 < size) (positive : 0 < alignment) (sixteen : alignment % 16 = 0) :
    let r := alignUp (b.addr + 2 * hdr) alignment
    let after := alignBlock h b.addr size alignment caller
    after.2 = r ∧ r % alignment = 0 ∧ Layout after.1 (pre ++ movedBlock b r size :: post) ∧ after.1.runs = h.runs ∧
      ∀ x, ¬ b.span.Has x → after.1.mem x = h.mem x := by
  have member : b ∈ pre ++ b :: post := mem_append_cons_self
  obtain ⟨_, high⟩ := layout.block_bounds member
  have ok := layout.ok b member
  have used : b.used = true := by rw [block]; rfl
  have request : b.req = size + alignment + hdr := by rw [block]; rfl
  have plain : b.aligned = false := by rw [block]; rfl
  have marked : b.caller = caller := by rw [block]; rfl
  have fits := ok.fits used
  rw [request] at fits
  unfold hdr at high fits
  obtain ⟨above, below, multiple⟩ := alignUp_spec (a := b.addr + 2 * hdr) positive (by unfold hdr; omega)
  generalize place : alignUp (b.addr + 2 * hdr) alignment = r at above below multiple ⊢
  unfold hdr at above below
  have whole : r % 16 = 0 := by
    obtain ⟨k, rfl⟩ := Nat.dvd_of_mod_eq_zero multiple
    rw [Nat.mul_mod, sixteen, Nat.zero_mul, Nat.zero_mod]
  have movedOk : (movedBlock b r size).Ok := movedBlock_ok ok used asked (by unfold hdr; omega) whole (by unfold hdr; omega)
  have payload := layout.payload member
  have aligned : alignUp ((b.addr + hdr + hdr) % 2 ^ 64) alignment = r := by
    rw [← place, Nat.mod_eq_of_lt (by unfold hdr; omega), Nat.two_mul, Nat.add_assoc]
  have stubAt : (r + 2 ^ 64 - hdr) % 2 ^ 64 = r - hdr := by unfold hdr; omega
  have req : ((r + 2 ^ 64 - (b.addr + hdr)) % 2 ^ 64 + size) % 2 ^ 64 = r - (b.addr + hdr) + size := by unfold hdr; omega
  have stub : hbSeal h.secret (r - hdr) ⟨magicAlign, 0, size, size, b.addr, caller, 0⟩ = (movedBlock b r size).stub h.secret := by
    rw [← marked]
    rfl
  have apart : load (store h.mem (r - hdr) ((movedBlock b r size).stub h.secret)) b.addr = b.header h.secret (firstOf post 0) := by
    rw [← layout.split]
    exact load_store_apart (.inr (by unfold hdr; omega))
  have owner : hbSeal h.secret b.addr { b.header h.secret (firstOf post 0) with
      flags := (b.header h.secret (firstOf post 0)).flags ||| flagAligned, req := r - (b.addr + hdr) + size } =
      (movedBlock b r size).header h.secret (firstOf post 0) := by
    have flags : (b.header h.secret (firstOf post 0)).flags ||| flagAligned = flagAligned := by
      rw [Block.header_flags, Block.flags, plain]
      rfl
    rw [flags]
    exact seal_again _ _ _ _ _ _ _ _ _
  have room : (movedBlock b r size).req + 8 ≤ b.size := movedOk.fits used
  obtain ⟨header, tail⟩ := header_tail_written (store h.mem (r - hdr) ((movedBlock b r size).stub h.secret)) h.secret movedOk used
    (show b.addr + hdr + b.size < 2 ^ 64 by unfold hdr; omega) layout.next_lt_after
  have frame : ∀ x, ¬ b.span.Has x → hbTailWrite (store (store h.mem (r - hdr) ((movedBlock b r size).stub h.secret)) b.addr
      ((movedBlock b r size).header h.secret (firstOf post 0))) h.secret b.addr (r - (b.addr + hdr) + size) x = h.mem x := by
    intro x out
    rw [Block.has_span] at out
    unfold hdr at out
    refine (written_out room (show b.addr + hdr + b.size < 2 ^ 64 by unfold hdr; omega) (by unfold hdr; omega)).trans ?_
    exact store_out (by unfold hdr; omega)
  simp only [alignBlock, payload, aligned, stubAt, req, stub, apart, owner]
  refine ⟨trivial, multiple, layout.rewrite ⟨rfl, rfl, rfl, rfl, rfl⟩ ⟨rfl, rfl⟩ movedOk ⟨header, fun _ => tail, fun _ => ?_⟩ frame ?_, trivial, frame⟩
  · -- the stub lies between the header and the client's bytes
    have kept : ∀ x, r - hdr ≤ x → x < r - hdr + hdr → hbTailWrite (store (store h.mem (r - hdr) ((movedBlock b r size).stub h.secret)) b.addr
        ((movedBlock b r size).header h.secret (firstOf post 0))) h.secret b.addr (r - (b.addr + hdr) + size) x =
        store h.mem (r - hdr) ((movedBlock b r size).stub h.secret) x := by
      intro x first last
      unfold hdr at first last
      rw [tail_out (by unfold hdr; omega) (.inl (by unfold hdr; omega)), store_out (.inr (by unfold hdr; omega))]
    refine (load_congr kept).trans (load_store (bounded_seal _ _ ⟨show magicAlign < 2 ^ 32 by decide, Nat.two_pow_pos 32, ?_, ?_, ?_, ok.caller⟩))
    · exact show size < 2 ^ 64 by omega
    · exact show size < 2 ^ 64 by omega
    · exact show b.addr < 2 ^ 64 by omega
  · exact layout.balance_around

end

section
variable {h h' : State} {blocks blocks' pre post : List Block} {b c : Block} {grant : Grant} {size alignment req caller : Nat}

/-- A client has got `c`; the other clients have what they had, in a heap that has only grown. -/
structure Served (h h' : State) (blocks blocks' : List Block) (c : Block) : Prop where
  layout : Layout h' blocks'
  used : c.used = true
  fresh : c ∉ blocks
  clients : ∀ d, d.used = true → (d ∈ blocks' ↔ d = c ∨ d ∈ blocks)
  grown : ∀ x, InRuns h x → InRuns h' x
  frame : ∀ x, ¬ InRuns h' x → h'.mem x = h.mem x

section
variable (placed : Placed h h' blocks pre post b req caller)
include placed

theorem Placed.used : b.used = true := by
  rw [placed.block]
  rfl

theorem Placed.served {last : State} (layout : Layout last (pre ++ c :: post))
    (used : c.used = true) (runs : last.runs = h'.runs) (frame : ∀ x, ¬ b.span.Has x → last.mem x = h'.mem x) :
    Served h last blocks (pre ++ c :: post) c := by
  have same : ∀ x, InRuns last x ↔ InRuns h' x := fun x => by rw [InRuns, runs, InRuns]
  refine ⟨layout, used, ?_, fun d held => ?_, fun x inside => (same x).mpr (placed.grown x inside), fun x out => ?_⟩
  · rw [← placed.others c used]
    exact layout.notMem_around
  · rw [← placed.others d held]
    simp only [mem_append, mem_cons]
    exact or_left_comm
  · rw [same] at out
    have member : b ∈ pre ++ b :: post := mem_append_cons_self
    rw [frame x fun inside => out ((placed.layout.covered x).mpr (covered_of_mem member inside)), placed.frame x out]

theorem Placed.client : b.ptr = b.addr + hdr ∧ b.want = req := by
  rw [placed.block]
  exact ⟨rfl, rfl⟩

end

section
variable (layout : Layout h blocks) (contract : GrantOk h grant) (limit : size ≤ requestLimit)
include layout contract limit

theorem plain_spec (asked : 0 < size)
    (low : caller < 2 ^ 64) :
    heapAllocLocked h grant size caller = .ok (h, 0) ∨
      ∃ h' blocks' c, heapAllocLocked h grant size caller = .ok (h', c.addr) ∧ c.addr ≠ 0 ∧ hbPayload c.addr = c.ptr ∧
        Served h h' blocks blocks' c ∧ c.want = size ∧ c.ptr % 16 = 0 := by
  obtain refused | ⟨h', pre, c, post, given, placed⟩ := alloc_spec layout contract limit asked low
  · exact .inl refused
  · have member : c ∈ pre ++ c :: post := mem_append_cons_self
    have base := (placed.layout.ok c member).base
    obtain ⟨ptr, want⟩ := placed.client
    refine .inr ⟨h', _, c, given, placed.layout.addr_ne member, ?_,
      placed.served placed.layout placed.used rfl fun _ _ => rfl, want, ?_⟩
    · rw [placed.layout.payload member, ptr]
    · rw [ptr]
      unfold hdr
      omega

theorem kmalloc_spec (low : caller < 2 ^ 64) :
    kmalloc h grant size caller = .ok (h, 0) ∨
      ∃ h' blocks' c, kmalloc h grant size caller = .ok (h', c.ptr) ∧ Served h h' blocks blocks' c ∧ c.want = size ∧ c.ptr % 16 = 0 := by
  unfold kmalloc
  split
  · exact .inl rfl
  have asked : 0 < size := by omega
  obtain refused | ⟨h', blocks', c, given, other, payload, served, want, aligned⟩ := plain_spec layout contract limit asked low
  · simp only [refused, if_true]
    exact .inl trivial
  · simp only [given, if_neg other, payload]
    exact .inr ⟨h', blocks', c, rfl, served, want, aligned⟩

end

theorem power_cases (power : alignment &&& (alignment - 1) = 0) (positive : 0 < alignment) :
    (16 < alignment → alignment % 16 = 0) ∧ (alignment ≤ 16 → 16 % alignment = 0) := by
  obtain ⟨k, rfl⟩ := (Nat.and_sub_one_eq_zero_iff_isPowerOfTwo (Nat.ne_of_gt positive)).mp power
  refine ⟨fun large => ?_, fun small => ?_⟩
  · have four : 4 < k := (Nat.pow_lt_pow_iff_right (a := 2) (by decide)).mp large
    exact Nat.mod_eq_zero_of_dvd (Nat.pow_dvd_pow 2 (Nat.le_of_lt four))
  · have four : k ≤ 4 := (Nat.pow_le_pow_iff_right (a := 2) (by decide)).mp small
    exact Nat.mod_eq_zero_of_dvd (Nat.pow_dvd_pow 2 four)

theorem kmallocAligned_spec (layout : Layout h blocks) (contract : GrantOk h grant)
    (limit : if alignment ≤ heapAlign then size ≤ requestLimit else size + alignment + hdr ≤ requestLimit) (low : caller < 2 ^ 64) :
    kmallocAligned h grant size alignment caller = .ok (h, 0) ∨
      ∃ h' blocks' c, kmallocAligned h grant size alignment caller = .ok (h', c.ptr) ∧ Served h h' blocks blocks' c ∧
        c.want = size ∧ c.ptr % alignment = 0 := by
  unfold kmallocAligned
  split
  · exact .inl rfl
  obtain ⟨asked, positive, power, _⟩ : 0 < size ∧ 0 < alignment ∧ alignment &&& (alignment - 1) = 0 ∧ h.start ≠ 0 := by omega
  obtain ⟨multiple, divides⟩ := power_cases power positive
  split
  next small =>
    rw [if_pos small] at limit
    obtain refused | ⟨h', blocks', c, given, other, payload, served, want, aligned⟩ := plain_spec layout contract limit asked low
    · simp only [refused, if_true]
      exact .inl trivial
    · simp only [given, if_neg other, payload]
      refine .inr ⟨h', blocks', c, rfl, served, want, ?_⟩
      exact Nat.mod_eq_zero_of_dvd ((Nat.dvd_of_mod_eq_zero (divides small)).trans (Nat.dvd_of_mod_eq_zero aligned))
  next large =>
    rw [if_neg large] at limit
    unfold heapAlign at large
    have whole : (size + alignment + hdr) % 2 ^ 64 = size + alignment + hdr :=
      Nat.mod_eq_of_lt (by unfold requestLimit at limit; omega)
    rw [whole, if_pos (show size + alignment + hdr > size by omega)]
    obtain refused | ⟨h', pre, b, post, given, placed⟩ := alloc_spec layout contract limit (by omega) low
    · simp only [refused, if_true]
      exact .inl trivial
    · have member : b ∈ pre ++ b :: post := mem_append_cons_self
      simp only [given, if_neg (placed.layout.addr_ne member)]
      obtain ⟨place, aligned, moved, runs, frame⟩ := align_layout placed.layout placed.block asked positive (multiple (by omega))
      have pair : alignBlock h' b.addr size alignment caller =
          ((alignBlock h' b.addr size alignment caller).1, alignUp (b.addr + 2 * hdr) alignment) := Prod.ext rfl place
      exact .inr ⟨_, _, movedBlock b (alignUp (b.addr + 2 * hdr) alignment) size, congrArg Except.ok pair,
        placed.served moved placed.used runs frame, rfl, aligned⟩

end
end SecOS.Heap
