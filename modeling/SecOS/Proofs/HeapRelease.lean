import SecOS.Proofs.HeapCalls

/-! Release and validation in the kernel heap. The block of a live pointer becomes free, and one
pass over the list joins every free block with the free blocks that follow it. -/

namespace SecOS.Heap
open Library List

section
variable {h h' : State} {blocks pre post : List Block} {b c n : Block}

def Joinable (c n : Block) : Prop := c.used = false ∧ n.used = false ∧ c.addr + hdr + c.size = n.addr

instance (c n : Block) : Decidable (Joinable c n) := by
  unfold Joinable
  infer_instance

def joinedBlock (c n : Block) : Block := { c with size := c.size + (hdr + n.size) }

theorem joinedBlock_ok (first : c.Ok) (second : n.Ok) (free : c.used = false) : (joinedBlock c n).Ok := by
  have notMoved : c.aligned = false := by
    cases kind : c.aligned with
    | false => rfl
    | true => rw [(first.moved kind).1] at free; cases free
  have unused : (joinedBlock c n).used = true → False := fun used => by
    simp only [joinedBlock, free, Bool.false_eq_true] at used
  have plain : (joinedBlock c n).aligned = true → False := fun aligned => by
    simp only [joinedBlock, notMoved, Bool.false_eq_true] at aligned
  refine ⟨first.base, ?_, first.caller, fun used => (unused used).elim, fun used => (unused used).elim,
    fun used => (unused used).elim, fun aligned => (plain aligned).elim, fun _ => first.idle free⟩
  have room := first.room
  have room' := second.room
  simp only [joinedBlock, hdr]
  omega

variable {next : Nat}

theorem sealed_free {mem : Bytes} {secret : Word} (ok : c.Ok) (free : c.used = false)
    (header : load mem c.addr = c.header secret next) : Sealed mem secret c next := by
  refine ⟨header, fun used => ?_, fun aligned => ?_⟩
  · rw [free] at used
    cases used
  · rw [(ok.moved aligned).1] at free
    cases free

def joinMem (h : State) (c n : Block) (next : Nat) : Bytes :=
  store (store h.mem c.addr ((joinedBlock c n).header h.secret next)) n.addr
    (hbSeal h.secret n.addr { n.header h.secret next with magic := magicMerged })

theorem joinMem_out {x : Nat} (apart : ¬ (c.span.Has x ∨ n.span.Has x)) : joinMem h c n next x = h.mem x := by
  simp only [Block.has_span, not_or] at apart
  unfold joinMem
  rw [store_out (by omega), store_out (by omega)]

theorem joinMem_mark {a : Nat} (free : c.used = false) (apartC : c.addr = a ∨ c.addr + hdr ≤ a ∨ a + hdr ≤ c.addr)
    (apartN : n.addr = a ∨ n.addr + hdr ≤ a ∨ a + hdr ≤ n.addr) (was : (load h.mem a).magic ≠ magicUsed) :
    (load (joinMem h c n next) a).magic ≠ magicUsed := by
  refine store_mark (.inr rfl) apartN fun _ => store_mark (.inl ?_) apartC fun _ => was
  exact (Block.magic_eq_free c).mpr free

theorem join_layout (layout : Layout h (pre ++ c :: n :: post)) (joinable : Joinable c n) :
    Layout { h with mem := joinMem h c n (firstOf post 0) } (pre ++ joinedBlock c n :: post) ∧
      ∀ x, ¬ InRuns h x → joinMem h c n (firstOf post 0) x = h.mem x := by
  obtain ⟨freeC, freeN, meet⟩ := joinable
  have memberC : c ∈ pre ++ c :: n :: post := mem_append_cons_self
  have memberN : n ∈ pre ++ c :: n :: post := mem_append_right _ (mem_cons_of_mem _ mem_cons_self)
  obtain ⟨_, high⟩ := layout.block_bounds memberN
  have okC := layout.ok c memberC
  have okN := layout.ok n memberN
  have old : Layout h (pre ++ [c, n] ++ post) := by rw [append_assoc]; exact layout
  have joinedOk := joinedBlock_ok okC okN freeC
  have cover : ∀ x, (joinedBlock c n).span.Has x ↔ c.span.Has x ∨ n.span.Has x := by
    intro x
    simp only [Block.has_span, joinedBlock]
    omega
  have size : (joinedBlock c n).size < 2 ^ 64 := by
    simp only [joinedBlock]
    omega
  have request : (joinedBlock c n).req < 2 ^ 64 := by
    rw [joinedOk.idle freeC]
    exact Nat.two_pow_pos 64
  have header : load (joinMem h c n (firstOf post 0)) c.addr = (joinedBlock c n).header h.secret (firstOf post 0) := by
    unfold joinMem
    rw [load_store_apart (.inr (by omega)), load_store (header_bounded joinedOk.caller size request old.next_lt)]
  have sealed_ : Sealed (joinMem h c n (firstOf post 0)) h.secret (joinedBlock c n) (firstOf post 0) :=
    sealed_free joinedOk freeC header
  refine ⟨?_, fun x outside => joinMem_out ?_⟩
  · have new : Layout { h with mem := joinMem h c n (firstOf post 0) } (pre ++ [joinedBlock c n] ++ post) := by
      refine old.exchange ⟨rfl, rfl, rfl, rfl, rfl⟩ (fun _ => rfl) (cons_ne_nil _ _) ⟨sealed_, trivial⟩ ?_ (pairwise_singleton _ _) ?_ ?_ ?_
      · intro d held
        cases mem_singleton.mp held
        exact joinedOk
      · intro x
        rw [covered_single, covered_pair]
        exact cover x
      · intro x apart
        rw [covered_pair] at apart
        exact joinMem_out apart
      · have pair : usedBytes [c, n] = 0 := by
          simp [usedBytes, freeC, freeN, sum_cons, sum_nil]
        have joined : usedBytes [joinedBlock c n] = 0 := by
          rw [usedBytes_single]
          exact if_neg (by simp [joinedBlock, freeC])
        have balance := old.balance
        rw [usedBytes_append, usedBytes_append, pair] at balance
        rw [usedBytes_append, usedBytes_append, joined]
        exact balance
    rwa [append_assoc] at new
  · rintro (inC | inN)
    · exact outside ((layout.covered x).mpr (covered_of_mem memberC inC))
    · exact outside ((layout.covered x).mpr (covered_of_mem memberN inN))

/-- No free block is followed in the list by a free block that starts where it ends. -/
def Separated (blocks : List Block) : Prop := blocks.IsChain fun c n => ¬ Joinable c n

structure Swept (h h' : State) (pre : List Block) (c : Block) (post : List Block) (c' : Block) (post' : List Block) : Prop where
  layout : Layout h' (pre ++ c' :: post')
  head : c'.addr = c.addr ∧ c'.used = c.used
  separated : Separated (c' :: post')
  clients : ∀ d, d.used = true → (d ∈ c' :: post' ↔ d ∈ c :: post)
  runs : h'.runs = h.runs
  frame : ∀ x, ¬ InRuns h x → h'.mem x = h.mem x

/-- Only free blocks are written to, and no address of a block becomes that of a used one. -/
structure Spared (h h' : State) (blocks : List Block) : Prop where
  bytes : ∀ x, (∀ d ∈ blocks, d.span.Has x → d.used = true) → h'.mem x = h.mem x
  marks : ∀ a, (∀ d ∈ blocks, d.addr = a ∨ d.addr + hdr ≤ a ∨ a + hdr ≤ d.addr) →
    (load h.mem a).magic ≠ magicUsed → (load h'.mem a).magic ≠ magicUsed

theorem Spared.joined {rest : List Block} (spared : Spared { h with mem := joinMem h c n next } h' (joinedBlock c n :: rest))
    (joinable : Joinable c n) : Spared h h' (c :: n :: rest) := by
  obtain ⟨free, freeN, meet⟩ := joinable
  refine ⟨fun x used => ?_, fun a apart was => ?_⟩
  · have outC : ¬ c.span.Has x := fun inside => nomatch free.symm.trans (used c mem_cons_self inside)
    have outN : ¬ n.span.Has x := fun inside => nomatch freeN.symm.trans (used n (mem_cons_of_mem _ mem_cons_self) inside)
    refine (spared.bytes x fun d member inside => ?_).trans (joinMem_out (not_or.mpr ⟨outC, outN⟩))
    rcases mem_cons.mp member with rfl | later
    · simp only [Block.has_span, joinedBlock] at inside outC outN
      omega
    · exact used d (mem_cons_of_mem _ (mem_cons_of_mem _ later)) inside
  · refine spared.marks a (fun d member => ?_) (joinMem_mark free (apart c mem_cons_self) (apart n (mem_cons_of_mem _ mem_cons_self)) was)
    rcases mem_cons.mp member with rfl | later
    · exact apart c mem_cons_self
    · exact apart d (mem_cons_of_mem _ (mem_cons_of_mem _ later))

theorem coalesce_spec (layout : Layout h (pre ++ c :: post)) {rounds : Nat} (enough : post.length < rounds) :
    ∃ h' c' post', coalesce h rounds c.addr = .ok h' ∧ Swept h h' pre c post c' post' ∧ Spared h h' (c :: post) := by
  induction post generalizing h pre c rounds with
  | nil =>
    obtain ⟨more, rfl⟩ := Nat.exists_eq_succ_of_ne_zero (Nat.ne_of_gt enough)
    have header := layout.split
    refine ⟨h, c, [], ?_, ⟨layout, ⟨rfl, rfl⟩, isChain_singleton _, fun _ _ => Iff.rfl, rfl, fun _ _ => rfl⟩, fun _ _ => rfl, fun _ _ => id⟩
    simp only [coalesce, header, Block.header_next, firstOf, if_true]
  | cons n rest ih =>
    obtain ⟨more, rfl⟩ := Nat.exists_eq_succ_of_ne_zero (show rounds ≠ 0 by omega)
    simp only [length_cons] at enough
    have memberC : c ∈ pre ++ c :: n :: rest := mem_append_cons_self
    have memberN : n ∈ pre ++ c :: n :: rest := mem_append_right _ (mem_cons_of_mem _ mem_cons_self)
    obtain ⟨_, high⟩ := layout.block_bounds memberC
    have later : Layout h ((pre ++ [c]) ++ n :: rest) := by rw [append_assoc]; exact layout
    have headerC : load h.mem c.addr = c.header h.secret n.addr := layout.split
    have headerN : load h.mem n.addr = n.header h.secret (firstOf rest 0) := later.split
    have stop : (hbPayload c.addr + c.size) % 2 ^ 64 = c.addr + hdr + c.size := by
      rw [layout.payload memberC, Nat.mod_eq_of_lt high]
    have step : coalesce h (more + 1) c.addr =
        if Joinable c n then coalesce { h with mem := joinMem h c n (firstOf rest 0) } more c.addr else coalesce h more n.addr := by
      rw [coalesce]
      simp only [headerC, Block.header_next, if_neg (layout.addr_ne memberN), layout.verify memberN, headerN, Block.header_magic,
        Block.magic_eq_free, Block.header_size, stop]
      refine ite_congr rfl (fun joinable => ?_) fun _ => rfl
      have size : (c.size + (hdr + n.size)) % 2 ^ 64 = c.size + (hdr + n.size) := by
        obtain ⟨_, _, meet⟩ := joinable
        have bounds := layout.block_bounds memberN
        exact Nat.mod_eq_of_lt (by omega)
      have grown : hbSeal h.secret c.addr ⟨c.magic, (c.header h.secret n.addr).flags, c.size + (hdr + n.size), (c.header h.secret n.addr).req,
            firstOf rest 0, (c.header h.secret n.addr).caller, (c.header h.secret n.addr).check⟩ =
          (joinedBlock c n).header h.secret (firstOf rest 0) := seal_again _ _ _ _ _ _ _ _ _
      rw [size, grown]
      rfl
    rw [step]
    split
    next joinable =>
      obtain ⟨joined, outside⟩ := join_layout layout joinable
      obtain ⟨h', c', post', swept, result, spared⟩ := ih joined (by omega : rest.length < more)
      refine ⟨h', c', post', swept, ⟨result.layout, result.head, result.separated, fun d used => ?_, result.runs, fun x out => ?_⟩,
        spared.joined joinable⟩
      obtain ⟨freeC, freeN, _⟩ := joinable
      · have notC : d ≠ c := by rintro rfl; rw [freeC] at used; cases used
        have notN : d ≠ n := by rintro rfl; rw [freeN] at used; cases used
        have notJoined : d ≠ joinedBlock c n := by rintro rfl; rw [joinedBlock, freeC] at used; cases used
        rw [result.clients d used]
        simp [notC, notN, notJoined]
      · exact (result.frame x out).trans (outside x out)
    next kept =>
      obtain ⟨h', n', rest', swept, result, spared⟩ := ih later (by omega : rest.length < more)
      have whole := result.layout
      rw [append_assoc] at whole
      refine ⟨h', c, n' :: rest', swept, ⟨whole, ⟨rfl, rfl⟩, List.isChain_cons_cons.mpr ⟨?_, result.separated⟩, fun d used => ?_, result.runs,
        result.frame⟩, fun x used => spared.bytes x fun d member => used d (mem_cons_of_mem _ member),
        fun a apart => spared.marks a fun d member => apart d (mem_cons_of_mem _ member)⟩
      · rintro ⟨freeC, freeN, meet⟩
        exact kept ⟨freeC, result.head.2 ▸ freeN, result.head.1 ▸ meet⟩
      · rw [mem_cons, result.clients d used, mem_cons (l := n :: rest)]

end

section
variable {h : State} {blocks pre post : List Block} {b d : Block} {caller : Nat}

section
variable (layout : Layout h blocks)
include layout

theorem Layout.lo_lt : h.lo + hdr < 2 ^ 64 := by
  obtain ⟨first, rest, rfl⟩ := exists_cons_of_ne_nil layout.nonempty
  obtain ⟨above, below⟩ := layout.inside first mem_cons_self
  have high := layout.high
  omega

theorem Layout.in_range {p : Nat} (member : b ∈ blocks) (above : b.addr + hdr ≤ p)
    (below : p ≤ b.addr + hdr + b.size) : ¬ (p < (h.lo + hdr) % 2 ^ 64 ∨ p > h.hi) := by
  obtain ⟨first, last⟩ := layout.inside b member
  rw [Nat.mod_eq_of_lt layout.lo_lt]
  omega

theorem resolve_stub {p : Nat} {stub : Header} (member : b ∈ blocks) (aligned : b.aligned = true)
    (whole : p % heapAlign = 0) (found : load h.mem (p - hdr) = stub) (magic : stub.magic = magicAlign)
    (sealedStub : stub.check = hbCalc h.secret (p - hdr) stub) (owner : stub.next = b.addr) (above : b.addr + 2 * hdr ≤ p)
    (below : p < b.addr + hdr + b.req) : heapResolveLocked h p = .ok b.addr := by
  obtain ⟨next, header⟩ := layout.header member
  obtain ⟨_, high⟩ := layout.block_bounds member
  have ok := layout.ok b member
  have used := (ok.moved aligned).1
  have fits := ok.fits used
  have notFree : magicUsed ≠ magicFree := by decide
  have flags : b.flags = flagAligned := by rw [Block.flags, aligned]; rfl
  have floor : (b.addr + hdr + hdr) % 2 ^ 64 = b.addr + 2 * hdr := by
    rw [Nat.mod_eq_of_lt (by omega)]
    omega
  have range : ¬ (flagAligned &&& flagAligned = 0 ∨ p < b.addr + 2 * hdr ∨ p ≥ b.addr + hdr + b.req) := by
    rintro (unmarked | low | far)
    · exact absurd unmarked (by decide)
    · omega
    · omega
  unfold heapResolveLocked
  simp only [found]
  rw [if_neg (not_not_intro whole), if_neg (layout.in_range member (by omega) (by omega)), if_pos magic]
  unfold resolveStub
  simp only [← sealedStub, ne_eq, not_true_eq_false, if_false, owner, layout.verify member, header, Block.header_magic,
    (Block.magic_eq_used b).mpr used, if_neg notFree, Block.header_flags, flags, layout.payload member, Block.header_req, floor,
    Nat.mod_eq_of_lt (show b.addr + hdr + b.req < 2 ^ 64 by omega)]
  rw [if_neg range]

theorem resolve_spec (member : b ∈ blocks) (used : b.used = true) : heapResolveLocked h b.ptr = .ok b.addr := by
  obtain ⟨next, sealed_⟩ := layout.linked.sealed member
  have ok := layout.ok b member
  obtain ⟨behind, total, room⟩ := ok.client used
  have asked := ok.asked used
  cases kind : b.aligned with
  | false =>
    obtain ⟨ptr, _⟩ := ok.plain used kind
    have base := ok.base
    have place : b.ptr - hdr = b.addr := by rw [ptr, Nat.add_sub_cancel]
    have whole : b.ptr % heapAlign = 0 := by
      unfold hdr at ptr
      unfold heapAlign
      omega
    have flags : b.flags = 0 := by rw [Block.flags, kind]; rfl
    unfold heapResolveLocked
    rw [if_neg (not_not_intro whole), if_neg (layout.in_range member behind (by omega)), place]
    simp only [sealed_.header, Block.header_magic, Block.header_flags, (Block.magic_eq_used b).mpr used, flags, layout.verify member]
    rfl
  | true =>
    obtain ⟨_, above, whole, _⟩ := ok.moved kind
    exact resolve_stub layout member kind whole (sealed_.stub kind) rfl (seal_check _ _ _) rfl above (by omega)

end

def freedBlock (b : Block) (caller : Nat) : Block := ⟨b.addr, b.size, 0, caller, false, false, 0, 0⟩

theorem freedBlock_ok (ok : b.Ok) (low : caller < 2 ^ 64) : (freedBlock b caller).Ok :=
  ⟨ok.base, ok.room, low, nofun, nofun, nofun, nofun, fun _ => rfl⟩

def markedFree (h : State) (b : Block) (next caller : Nat) : State :=
  { h with mem := store h.mem b.addr ((freedBlock b caller).header h.secret next), totalFreed := (h.totalFreed + b.size) % 2 ^ 64 }

theorem mark_layout (layout : Layout h (pre ++ b :: post)) (used : b.used = true) (low : caller < 2 ^ 64) :
    Layout (markedFree h b (firstOf post 0) caller) (pre ++ freedBlock b caller :: post) := by
  have member : b ∈ pre ++ b :: post := mem_append_cons_self
  obtain ⟨_, high⟩ := layout.block_bounds member
  have freedOk := freedBlock_ok (layout.ok b member) low
  have header : load (markedFree h b (firstOf post 0) caller).mem b.addr = (freedBlock b caller).header h.secret (firstOf post 0) :=
    load_store (header_bounded low (show b.size < 2 ^ 64 by omega) (Nat.two_pow_pos 64) layout.next_lt_after)
  refine layout.rewrite ⟨rfl, rfl, rfl, rfl, rfl⟩ ⟨rfl, rfl⟩ freedOk (sealed_free freedOk rfl header) (fun x out => ?_) ?_
  · rw [Block.has_span] at out
    exact store_out (by omega)
  · have around := layout.balance_around
    simp only [used, if_true] at around
    simp only [markedFree, freedBlock, Bool.false_eq_true, if_false, around]
    omega

/-- A block is free again, the other clients have what they had. -/
structure Released (h h' : State) (blocks blocks' : List Block) (b : Block) : Prop where
  layout : Layout h' blocks'
  separated : Separated blocks'
  clients : ∀ d, d.used = true → (d ∈ blocks' ↔ d ≠ b ∧ d ∈ blocks)
  runs : h'.runs = h.runs
  frame : ∀ x, ¬ InRuns h x → h'.mem x = h.mem x

structure Alone (h h' : State) (blocks : List Block) (b : Block) : Prop where
  others : ∀ d ∈ blocks, d.used = true → d ≠ b → ∀ x, d.span.Has x → h'.mem x = h.mem x
  gone : (load h'.mem b.addr).magic ≠ magicUsed

theorem Layout.headers_apart (layout : Layout h blocks) (member : b ∈ blocks) (listed : d ∈ blocks) :
    d.addr = b.addr ∨ d.addr + hdr ≤ b.addr ∨ b.addr + hdr ≤ d.addr := by
  by_contra close
  have same := layout.eq_of_has (x := max b.addr d.addr) member listed (Block.has_span.mpr (by omega)) (Block.has_span.mpr (by omega))
  exact close (.inl (by rw [same]))

theorem freeBlock_eq (layout : Layout h (pre ++ b :: post)) (used : b.used = true) :
    heapFreeBlockLocked h b.addr caller =
      match hbVerify (markedFree h b (firstOf post 0) caller) h.start with
      | .error fault => .error fault
      | .ok _ => coalesce (markedFree h b (firstOf post 0) caller) (blockLimit h + 1) h.start := by
  have member : b ∈ pre ++ b :: post := mem_append_cons_self
  obtain ⟨_, high⟩ := layout.block_bounds member
  have fits := (layout.ok b member).fits used
  have payload := layout.payload member
  have tail : hbTailRead h.mem b.addr b.req = hbTailValue h.secret (b.addr + hdr) := by
    rw [← (linked_append.mp layout.linked).2.1.tail used, hbTailRead, payload, Nat.mod_eq_of_lt (by omega)]
  have freed : hbSeal h.secret b.addr ⟨magicFree, 0, b.size, 0, firstOf post 0, caller, (b.header h.secret (firstOf post 0)).check⟩ =
      (freedBlock b caller).header h.secret (firstOf post 0) := seal_again _ _ _ _ _ _ _ _ _
  unfold heapFreeBlockLocked
  simp only [layout.split, payload, Block.header_req, tail, ne_eq, not_true_eq_false, if_false, Block.header_size, Block.header_next, freed]
  rfl

theorem freeBlock_spec (layout : Layout h (pre ++ b :: post)) (used : b.used = true) (low : caller < 2 ^ 64) :
    ∃ h' blocks', heapFreeBlockLocked h b.addr caller = .ok h' ∧ Released h h' (pre ++ b :: post) blocks' b ∧ Alone h h' (pre ++ b :: post) b := by
  have member : b ∈ pre ++ b :: post := mem_append_cons_self
  have marked := mark_layout layout used low
  -- the pass starts at the head of the list
  obtain ⟨first, rest, whole⟩ : ∃ first rest, pre ++ freedBlock b caller :: post = first :: rest := exists_cons_of_ne_nil marked.nonempty
  have swept : Layout (markedFree h b (firstOf post 0) caller) ([] ++ first :: rest) := by rw [← whole]; exact marked
  have start : h.start = first.addr := swept.start
  have rounds : rest.length < blockLimit h + 1 := by
    have short : ([] ++ first :: rest).length ≤ (h.hi - h.lo) / 16 := swept.length_le
    simp only [nil_append, length_cons] at short
    unfold blockLimit heapAlign
    omega
  obtain ⟨h', first', rest', done, result, spared⟩ := coalesce_spec swept rounds
  refine ⟨h', first' :: rest', ?_, ⟨result.layout, result.separated, fun d held => ?_, result.runs, fun x out => ?_⟩,
    fun d listed held other x inside => ?_, ?_⟩
  · rw [freeBlock_eq layout used, start, swept.verify mem_cons_self]
    exact done
  · have notFreed : d ≠ freedBlock b caller := by rintro rfl; cases held
    have around := layout.notMem_around
    rw [result.clients d held, ← whole]
    simp only [mem_append, mem_cons, notFreed, false_or] at around ⊢
    constructor
    · intro other
      refine ⟨?_, ?_⟩
      · rintro rfl
        exact around other
      · rcases other with front | back
        · exact .inl front
        · exact .inr (.inr back)
    · rintro ⟨other, front | same | back⟩
      · exact .inl front
      · exact absurd same other
      · exact .inr back
  · refine (result.frame x out).trans (store_out ?_)
    by_contra inside
    refine out ((layout.covered x).mpr (covered_of_mem member ?_))
    rw [Block.has_span]
    omega
  · have apart : ¬ b.span.Has x := fun mine => other (layout.eq_of_has listed member inside mine)
    refine (spared.bytes x fun e found here => ?_).trans (store_out ?_)
    · rw [← whole] at found
      rcases mem_append.mp found with front | back
      · exact layout.eq_of_has listed (mem_append_left _ front) inside here ▸ held
      · rcases mem_cons.mp back with rfl | later
        · exact absurd here apart
        · exact layout.eq_of_has listed (mem_append_right _ (mem_cons_of_mem _ later)) inside here ▸ held
    · rw [Block.has_span] at apart
      omega
  · refine spared.marks b.addr (fun e found => ?_) ?_
    · rw [← whole] at found
      exact marked.headers_apart (b := freedBlock b caller) (mem_append_cons_self) found
    · exact store_mark (.inl rfl) (.inl rfl) fun other => absurd rfl other

theorem Layout.start_ne (layout : Layout h blocks) : h.start ≠ 0 := by
  obtain ⟨first, rest, rfl⟩ := exists_cons_of_ne_nil layout.nonempty
  rw [layout.start]
  exact layout.addr_ne mem_cons_self

theorem kfree_spec (layout : Layout h blocks) (member : b ∈ blocks) (used : b.used = true) (low : caller < 2 ^ 64) :
    ∃ h' blocks', kfree h b.ptr caller = .ok h' ∧ Released h h' blocks blocks' b ∧ Alone h h' blocks b := by
  obtain ⟨pre, post, rfl⟩ := append_of_mem member
  obtain ⟨h', blocks', freed, released⟩ := freeBlock_spec layout used low
  have some_ : ¬ (b.ptr = 0 ∨ h.start = 0) := by
    have behind := ((layout.ok b member).client used).1
    have low := layout.addr_ne member
    have start := layout.start_ne
    omega
  refine ⟨h', blocks', ?_, released⟩
  unfold kfree
  rw [if_neg some_]
  simp only [resolve_spec layout member used, freed]

end

section
variable {h : State} {blocks pre post : List Block} {b : Block}

theorem checkBlock_spec (layout : Layout h (pre ++ b :: post)) {s : WalkStats} (few : s.blocks ≤ blockLimit h) :
    ∃ s', checkBlock h b.addr s = .ok s' ∧ s'.blocks = s.blocks := by
  have member : b ∈ pre ++ b :: post := mem_append_cons_self
  obtain ⟨_, high⟩ := layout.block_bounds member
  have payload := layout.payload member
  have sealed_ := (linked_append.mp layout.linked).2.1
  have stop : (b.addr + hdr + b.size) % 2 ^ 64 = b.addr + hdr + b.size := Nat.mod_eq_of_lt high
  -- the successor does not start inside the block
  have clear : ¬ (firstOf post 0 ≠ 0 ∧ firstOf post 0 > b.addr ∧ firstOf post 0 < b.addr + hdr + b.size) := by
    rintro ⟨some_, after, inside⟩
    cases post with
    | nil => exact some_ rfl
    | cons n rest =>
      have apart := layout.apart
      rw [map_append, pairwise_append] at apart
      have meets := (pairwise_cons.mp apart.2.1).1 n.span (mem_map_of_mem mem_cons_self) n.addr
      exact meets (Block.has_span.mpr ⟨Nat.le_of_lt after, inside⟩) (span_first n)
  unfold checkBlock
  simp only [if_neg (Nat.not_lt.mpr few), layout.verify member, sealed_.header, Block.header_next, Block.header_size, Block.header_magic,
    Block.header_req, Block.magic_eq_used, payload, stop, if_neg clear]
  split
  next used =>
    have fits := (layout.ok b member).fits used
    have tail : hbTailRead h.mem b.addr b.req = hbTailValue h.secret (b.addr + hdr) := by
      rw [← sealed_.tail used, hbTailRead, payload, Nat.mod_eq_of_lt (by omega)]
    rw [if_neg (not_not_intro tail)]
    exact ⟨_, rfl, rfl⟩
  · exact ⟨_, rfl, rfl⟩

theorem checkFrom_spec (layout : Layout h (pre ++ post)) {rounds : Nat} {s : WalkStats} (enough : post.length < rounds)
    (few : s.blocks + post.length ≤ blockLimit h) : ∃ s', checkFrom h rounds (firstOf post 0) s = .ok s' := by
  induction post generalizing pre rounds s with
  | nil =>
    obtain ⟨more, rfl⟩ := Nat.exists_eq_succ_of_ne_zero (Nat.ne_of_gt enough)
    exact ⟨s, rfl⟩
  | cons b rest ih =>
    obtain ⟨more, rfl⟩ := Nat.exists_eq_succ_of_ne_zero (show rounds ≠ 0 by omega)
    simp only [length_cons] at enough few
    have member : b ∈ pre ++ b :: rest := mem_append_cons_self
    have later : Layout h ((pre ++ [b]) ++ rest) := by rw [append_assoc]; exact layout
    have next : (load h.mem b.addr).next = firstOf rest 0 := by rw [layout.split, Block.header_next]
    have counted : ({ s with blocks := s.blocks + 1 } : WalkStats).blocks ≤ blockLimit h := show s.blocks + 1 ≤ _ by omega
    obtain ⟨s', passed, blocks⟩ := checkBlock_spec layout counted
    obtain ⟨final, done⟩ := ih later (s := s') (by omega : rest.length < more) (by rw [blocks]; simp only; omega)
    refine ⟨final, ?_⟩
    simp only [firstOf, checkFrom, if_neg (layout.addr_ne member), passed, next]
    exact done

theorem check_spec (layout : Layout h blocks) : ∃ s, heapCheckLocked h = .ok s := by
  have whole : Layout h ([] ++ blocks) := layout
  have short := layout.length_le
  unfold heapCheckLocked
  rw [layout.start]
  refine checkFrom_spec whole ?_ ?_
  · unfold blockLimit heapAlign
    omega
  · unfold blockLimit heapAlign
    simp only
    omega

end
end SecOS.Heap
