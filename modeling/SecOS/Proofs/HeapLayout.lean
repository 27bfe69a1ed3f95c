import SecOS.Heap

/-! The blocks behind the list of the kernel heap, described beside the memory that holds their
headers, canaries and stubs. -/

namespace SecOS.Heap
open Library List Bytes

structure Header.Bounded (h : Header) : Prop where
  magic : h.magic < 2 ^ 32
  flags : h.flags < 2 ^ 32
  size : h.size < 2 ^ 64
  req : h.req < 2 ^ 64
  next : h.next < 2 ^ 64
  caller : h.caller < 2 ^ 64
  check : h.check < 2 ^ 64

section
variable {mem mem' : Bytes} {a b x : Nat} {h : Header}

theorem store_out (out : x < a ∨ a + hdr ≤ x) : store mem a h x = mem x := by
  unfold hdr at out
  unfold store
  rw [wr_out (by omega), wr_out (by omega), wr_out (by omega), wr_out (by omega),
    wr_out (by omega), wr_out (by omega), wr_out (by omega)]

theorem load_congr (same : ∀ x, a ≤ x → x < a + hdr → mem x = mem' x) : load mem a = load mem' a := by
  unfold hdr at same
  have part : ∀ w off, a ≤ off → off + w ≤ a + 48 → mem.rd w off = mem'.rd w off :=
    fun w off low high => rd_congr fun i first last => same i (by omega) (by omega)
  unfold load
  rw [part 4 a, part 4 (a + 4), part 8 (a + 8), part 8 (a + 16), part 8 (a + 24), part 8 (a + 32), part 8 (a + 40)]
  all_goals omega

theorem load_store_apart (apart : a + hdr ≤ b ∨ b + hdr ≤ a) : load (store mem a h) b = load mem b :=
  load_congr fun x low high => store_out (by unfold hdr at *; omega)

theorem load_store (bounded : h.Bounded) : load (store mem a h) a = h := by
  obtain ⟨magic, flags, size, req, next, caller, check⟩ := bounded
  have parts : ∀ {first second : Header}, first.magic = second.magic → first.flags = second.flags → first.size = second.size →
      first.req = second.req → first.next = second.next → first.caller = second.caller → first.check = second.check →
      first = second := fun one two three four five six seven => by
    rw [Header.mk.injEq]
    exact ⟨one, two, three, four, five, six, seven⟩
  apply parts <;> unfold load store
  all_goals simp (disch := omega) only [rd_wr_apart, rd_wr_of_lt]

theorem store_mark (idle : h.magic = magicFree ∨ h.magic = magicMerged) (apart : a = b ∨ a + hdr ≤ b ∨ b + hdr ≤ a)
    (was : a ≠ b → (load mem b).magic ≠ magicUsed) : (load (store mem a h) b).magic ≠ magicUsed := by
  by_cases same : a = b
  · subst same
    have magic : (load (store mem a h) a).magic = h.magic % 256 ^ 4 := by
      unfold load store
      simp (disch := omega) only [rd_wr_apart, rd_wr]
    rw [magic]
    rcases idle with free | merged
    · rw [free]
      decide
    · rw [merged]
      decide
  · rw [load_store_apart (apart.resolve_left same)]
    exact was same

theorem hbCalc_lt (secret : Word) (a : Nat) (h : Header) : hbCalc secret a h < 2 ^ 64 := by
  rw [hbCalc]
  exact BitVec.isLt _

theorem seal_check (secret : Word) (a : Nat) (h : Header) : (hbSeal secret a h).check = hbCalc secret a (hbSeal secret a h) := by
  simp only [hbSeal, hbCalc]

theorem seal_again (secret : Word) (a magic flags size req next caller check : Nat) :
    hbSeal secret a ⟨magic, flags, size, req, next, caller, check⟩ = hbSeal secret a ⟨magic, flags, size, req, next, caller, 0⟩ := by
  simp only [hbSeal, hbCalc]

theorem bounded_seal (secret : Word) (a : Nat) (low : h.magic < 2 ^ 32 ∧ h.flags < 2 ^ 32 ∧ h.size < 2 ^ 64 ∧ h.req < 2 ^ 64 ∧
    h.next < 2 ^ 64 ∧ h.caller < 2 ^ 64) : (hbSeal secret a h).Bounded := by
  obtain ⟨magic, flags, size, req, next, caller⟩ := low
  exact ⟨magic, flags, size, req, next, caller, hbCalc_lt secret a h⟩

end

/-- A block of the list. A used block was asked for with `req` bytes behind its header; its
client holds `want` bytes at `ptr`, which is further up for an aligned allocation. -/
structure Block where
  addr : Nat
  size : Nat
  req : Nat
  caller : Nat
  used : Bool
  aligned : Bool
  ptr : Nat
  want : Nat

namespace Block

def span (b : Block) : Span := ⟨b.addr, hdr + b.size⟩

theorem has_span {b : Block} {x : Nat} : b.span.Has x ↔ b.addr ≤ x ∧ x < b.addr + hdr + b.size := by
  unfold Span.Has span
  rw [Nat.add_assoc b.addr]

def magic (b : Block) : Nat := if b.used then magicUsed else magicFree

def flags (b : Block) : Nat := if b.aligned then flagAligned else 0

def header (secret : Word) (b : Block) (next : Nat) : Header :=
  hbSeal secret b.addr ⟨b.magic, b.flags, b.size, b.req, next, b.caller, 0⟩

def stub (secret : Word) (b : Block) : Header :=
  hbSeal secret (b.ptr - hdr) ⟨magicAlign, 0, b.want, b.want, b.addr, b.caller, 0⟩

def allocation (b : Block) : Allocation := ⟨b.ptr, b.want⟩

structure Ok (b : Block) : Prop where
  base : b.addr % 16 = 0
  room : b.size % 16 = 0
  caller : b.caller < 2 ^ 64
  fits : b.used = true → b.req + 8 ≤ b.size
  asked : b.used = true → 0 < b.want
  plain : b.used = true → b.aligned = false → b.ptr = b.addr + hdr ∧ b.want = b.req
  moved : b.aligned = true → b.used = true ∧ b.addr + 2 * hdr ≤ b.ptr ∧ b.ptr % 16 = 0 ∧ b.ptr + b.want = b.addr + hdr + b.req
  idle : b.used = false → b.req = 0

@[simp] theorem magic_eq_free (b : Block) : b.magic = magicFree ↔ b.used = false := by
  unfold magic
  cases b.used <;> decide

@[simp] theorem magic_eq_used (b : Block) : b.magic = magicUsed ↔ b.used = true := by
  unfold magic
  cases b.used <;> decide

section
variable (secret : Word) (b : Block) (next : Nat)

@[simp] theorem header_magic : (b.header secret next).magic = b.magic := rfl
@[simp] theorem header_flags : (b.header secret next).flags = b.flags := rfl
@[simp] theorem header_size : (b.header secret next).size = b.size := rfl
@[simp] theorem header_req : (b.header secret next).req = b.req := rfl
@[simp] theorem header_caller : (b.header secret next).caller = b.caller := rfl
@[simp] theorem header_next : (b.header secret next).next = next := rfl
theorem header_check : (b.header secret next).check = hbCalc secret b.addr (b.header secret next) := seal_check secret b.addr _

end

theorem Ok.client {b : Block} (ok : b.Ok) (used : b.used = true) :
    b.addr + hdr ≤ b.ptr ∧ b.ptr + b.want = b.addr + hdr + b.req ∧ b.ptr + b.want + 8 ≤ b.addr + hdr + b.size := by
  have fits := ok.fits used
  cases kind : b.aligned with
  | false =>
    obtain ⟨here, whole⟩ := ok.plain used kind
    omega
  | true =>
    obtain ⟨_, above, _, total⟩ := ok.moved kind
    unfold hdr at *
    omega

end Block

/-- The memory holds the block, followed in the list by `next`. -/
structure Sealed (mem : Bytes) (secret : Word) (b : Block) (next : Nat) : Prop where
  header : load mem b.addr = b.header secret next
  tail : b.used = true → mem.rd heapTail (b.addr + hdr + b.req) = hbTailValue secret (b.addr + hdr)
  stub : b.aligned = true → load mem (b.ptr - hdr) = b.stub secret

/-- The address after the list: of its first block, or what follows it. -/
def firstOf : List Block → Nat → Nat
  | [], next => next
  | b :: _, _ => b.addr

def Linked (mem : Bytes) (secret : Word) : List Block → Nat → Prop
  | [], _ => True
  | b :: rest, next => Sealed mem secret b (firstOf rest next) ∧ Linked mem secret rest next

section
variable {mem mem' : Bytes} {secret : Word} {b : Block} {blocks pre post : List Block} {next : Nat}

theorem firstOf_append : firstOf (pre ++ post) next = firstOf pre (firstOf post next) := by
  cases pre <;> rfl

theorem linked_append : Linked mem secret (pre ++ post) next ↔ Linked mem secret pre (firstOf post next) ∧ Linked mem secret post next := by
  induction pre with
  | nil => exact ⟨fun whole => ⟨trivial, whole⟩, fun parts => parts.2⟩
  | cons b rest ih =>
    rw [cons_append, Linked, Linked, ih, firstOf_append, and_assoc]

theorem Linked.sealed (linked : Linked mem secret blocks next) (member : b ∈ blocks) : ∃ after, Sealed mem secret b after := by
  obtain ⟨pre, post, rfl⟩ := append_of_mem member
  exact ⟨_, (linked_append.mp linked).2.1⟩

/-- The bytes of a block that are not its client's. -/
def Block.Guards (b : Block) (x : Nat) : Prop := b.span.Has x ∧ ¬ (b.used = true ∧ b.ptr ≤ x ∧ x < b.ptr + b.want)

theorem Sealed.congr (sealed_ : Sealed mem secret b next) (ok : b.Ok) (same : ∀ x, b.Guards x → mem x = mem' x) :
    Sealed mem' secret b next := by
  simp only [Block.Guards, Block.has_span] at same
  obtain ⟨header, tail, stub⟩ := sealed_
  refine ⟨?_, fun used => ?_, fun aligned => ?_⟩
  · rw [← header]
    refine (load_congr fun x low high => same x ⟨⟨low, by omega⟩, ?_⟩).symm
    rintro ⟨used, first, _⟩
    have behind := (ok.client used).1
    omega
  · have fits := ok.fits used
    obtain ⟨_, total, _⟩ := ok.client used
    rw [← tail used]
    unfold heapTail
    exact (rd_congr fun i low high => same i ⟨⟨by omega, by omega⟩, by omega⟩).symm
  · obtain ⟨used, above, _, _⟩ := ok.moved aligned
    obtain ⟨_, total, room⟩ := ok.client used
    rw [← stub aligned]
    refine (load_congr fun x low high => same x ⟨⟨?_, ?_⟩, ?_⟩).symm
    all_goals unfold hdr at *; omega

theorem Linked.congr_guards (linked : Linked mem secret blocks next) (ok : ∀ b ∈ blocks, b.Ok)
    (same : ∀ b ∈ blocks, ∀ x, b.Guards x → mem x = mem' x) : Linked mem' secret blocks next := by
  induction blocks with
  | nil => trivial
  | cons b rest ih =>
    refine ⟨linked.1.congr (ok b mem_cons_self) (same b mem_cons_self), ih linked.2 ?_ ?_⟩
    · exact fun c member => ok c (mem_cons_of_mem _ member)
    · exact fun c member => same c (mem_cons_of_mem _ member)

theorem Linked.congr (linked : Linked mem secret blocks next) (ok : ∀ b ∈ blocks, b.Ok)
    (same : ∀ b ∈ blocks, ∀ x, b.span.Has x → mem x = mem' x) : Linked mem' secret blocks next :=
  linked.congr_guards ok fun b member x guard => same b member x guard.1

end

def InRuns (h : State) (x : Nat) : Prop := Span.Covered h.runs x

def usedBytes (blocks : List Block) : Nat := (blocks.map fun b => if b.used then b.size else 0).sum

structure Layout (h : State) (blocks : List Block) : Prop where
  start : h.start = firstOf blocks 0
  nonempty : blocks ≠ []
  linked : Linked h.mem h.secret blocks 0
  ok : ∀ b ∈ blocks, b.Ok
  inside : ∀ b ∈ blocks, h.lo ≤ b.addr ∧ b.addr + hdr + b.size ≤ h.hi
  apart : (blocks.map Block.span).Pairwise Span.Apart
  covered : ∀ x, InRuns h x ↔ Span.Covered (blocks.map Block.span) x
  low : physmapBase ≤ h.lo
  high : h.hi < 2 ^ 64
  balance : h.totalAllocated = (h.totalFreed + usedBytes blocks) % 2 ^ 64

section
variable {h : State} {blocks pre post : List Block} {b c : Block}

theorem Layout.block_bounds (layout : Layout h blocks) (member : b ∈ blocks) :
    physmapBase ≤ b.addr ∧ b.addr + hdr + b.size < 2 ^ 64 := by
  obtain ⟨low, high⟩ := layout.inside b member
  exact ⟨Nat.le_trans layout.low low, Nat.lt_of_le_of_lt high layout.high⟩

theorem Layout.payload (layout : Layout h blocks) (member : b ∈ blocks) : hbPayload b.addr = b.addr + hdr := by
  have bounds := layout.block_bounds member
  unfold hbPayload
  exact Nat.mod_eq_of_lt (by omega)

theorem Layout.split (layout : Layout h (pre ++ b :: post)) : load h.mem b.addr = b.header h.secret (firstOf post 0) :=
  (linked_append.mp layout.linked).2.1.header

theorem Layout.next_lt (layout : Layout h (pre ++ post)) : firstOf post 0 < 2 ^ 64 := by
  cases post with
  | nil => exact Nat.two_pow_pos 64
  | cons c rest =>
    have bounds := layout.block_bounds (b := c) (mem_append_cons_self)
    simp only [firstOf]
    omega

theorem Layout.next_lt_after (layout : Layout h (pre ++ b :: post)) : firstOf post 0 < 2 ^ 64 := by
  have whole : Layout h ((pre ++ [b]) ++ post) := by rw [append_assoc]; exact layout
  exact whole.next_lt

theorem Layout.header (layout : Layout h blocks) (member : b ∈ blocks) : ∃ next, load h.mem b.addr = b.header h.secret next := by
  obtain ⟨next, sealed_⟩ := layout.linked.sealed member
  exact ⟨next, sealed_.header⟩

theorem Layout.verify (layout : Layout h blocks) (member : b ∈ blocks) : hbVerify h b.addr = .ok () := by
  obtain ⟨next, header⟩ := layout.header member
  obtain ⟨low, high⟩ := layout.block_bounds member
  obtain ⟨below, above⟩ := layout.inside b member
  have ok := layout.ok b member
  have payload := layout.payload member
  have in_heap : hbInHeap h b.addr = true := by
    have base := ok.base
    simp only [hbInHeap, heapAlign, base, beq_self_eq_true, Bool.true_and, Bool.and_eq_true, decide_eq_true_eq]
    refine ⟨below, ?_⟩
    rw [Nat.mod_eq_of_lt (by omega)]
    omega
  have sizes : ¬ (b.size % heapAlign ≠ 0 ∨ (hbPayload b.addr + b.size) % 2 ^ 64 > h.hi) := by
    have room := ok.room
    rw [payload, Nat.mod_eq_of_lt high]
    unfold heapAlign
    omega
  have request : ¬ (b.used = true ∧ (b.req + heapTail) % 2 ^ 64 > b.size) := by
    rintro ⟨used, excess⟩
    have fits := ok.fits used
    unfold heapTail at excess
    omega
  have kind : ¬ (¬ b.used = true ∧ ¬ b.used = false) := by cases b.used <;> decide
  unfold hbVerify
  simp only [header, in_heap, Block.header_magic, Block.header_size, Block.header_req, Block.magic_eq_used, Block.magic_eq_free,
    ne_eq, ← Block.header_check, not_true_eq_false, Bool.not_true, Bool.false_eq_true, if_false, if_neg kind, if_neg request]
  rw [if_neg sizes]

end
end SecOS.Heap
