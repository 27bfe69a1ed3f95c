import SecOS.Proofs.HeapLayout
import SecOS.Library.Counting

/-! What the operations of the kernel heap do to the blocks: take, split, grow, align and join. -/

namespace SecOS.Heap
open Library List Bytes

section
variable {h h' : State} {blocks pre post old new : List Block} {b c : Block}

theorem usedBytes_append : usedBytes (pre ++ post) = usedBytes pre + usedBytes post := by
  simp only [usedBytes, map_append, sum_append]

theorem span_first (b : Block) : b.span.Has b.addr := by
  rw [Block.has_span]
  unfold hdr
  omega

theorem span_last (b : Block) : b.span.Has (b.addr + hdr + b.size - 1) := by
  rw [Block.has_span]
  unfold hdr
  omega

theorem covered_of_mem (member : b ∈ blocks) {x : Nat} (inside : b.span.Has x) : Span.Covered (blocks.map Block.span) x :=
  ⟨b.span, mem_map_of_mem member, inside⟩

theorem usedBytes_single (b : Block) : usedBytes [b] = if b.used then b.size else 0 := by
  simp [usedBytes, sum_cons, sum_nil]

theorem covered_pair {first second : Block} {x : Nat} :
    Span.Covered ([first, second].map Block.span) x ↔ first.span.Has x ∨ second.span.Has x := by
  simp [Span.Covered, not_mem_nil, exists_eq_or_imp]

theorem covered_single {x : Nat} : Span.Covered ([b].map Block.span) x ↔ b.span.Has x := by
  simp [Span.Covered]

/-- The heap, with the blocks of one part of the list replaced by others in the same place. -/
theorem Layout.exchange (layout : Layout h (pre ++ old ++ post))
    (same : h'.start = h.start ∧ h'.secret = h.secret ∧ h'.lo = h.lo ∧ h'.hi = h.hi ∧ h'.runs = h.runs)
    (head : ∀ next, firstOf new next = firstOf old next) (filled : new ≠ [])
    (linked : Linked h'.mem h.secret new (firstOf post 0)) (ok : ∀ b ∈ new, b.Ok)
    (inner : (new.map Block.span).Pairwise Span.Apart)
    (cover : ∀ x, Span.Covered (new.map Block.span) x ↔ Span.Covered (old.map Block.span) x)
    (frame : ∀ x, ¬ Span.Covered (old.map Block.span) x → h'.mem x = h.mem x)
    (balance : h'.totalAllocated = (h'.totalFreed + usedBytes (pre ++ new ++ post)) % 2 ^ 64) :
    Layout h' (pre ++ new ++ post) := by
  obtain ⟨start, secret, lo, hi, runs⟩ := same
  have apart := layout.apart
  simp only [map_append] at apart
  obtain ⟨linkedFront, linkedBack⟩ := linked_append.mp layout.linked
  obtain ⟨linkedPre, _⟩ := linked_append.mp linkedFront
  -- the blocks around the part do not meet it, so their bytes are as before
  have kept : ∀ b ∈ pre ++ post, ∀ x, b.span.Has x → h.mem x = h'.mem x := by
    intro b member x inside
    refine (frame x fun taken => ?_).symm
    obtain ⟨s, held, inS⟩ := taken
    rw [pairwise_append, pairwise_append] at apart
    obtain ⟨⟨_, _, between⟩, _, around⟩ := apart
    rcases mem_append.mp member with before | after
    · exact between _ (mem_map_of_mem before) s held x inside inS
    · exact around s (mem_append_right _ held) _ (mem_map_of_mem after) x inS inside
  have okPre : ∀ b ∈ pre, b.Ok := fun b member => layout.ok b (mem_append_left _ (mem_append_left _ member))
  have okPost : ∀ b ∈ post, b.Ok := fun b member => layout.ok b (mem_append_right _ member)
  have coverAll : ∀ x, Span.Covered ((pre ++ new ++ post).map Block.span) x ↔ Span.Covered ((pre ++ old ++ post).map Block.span) x := by
    intro x
    simp only [map_append]
    exact Span.covered_replace cover
  have inRange : ∀ x, Span.Covered ((pre ++ old ++ post).map Block.span) x → h.lo ≤ x ∧ x < h.hi := by
    rintro x ⟨s, held, inS⟩
    obtain ⟨b, member, rfl⟩ := List.mem_map.mp held
    obtain ⟨low, high⟩ := layout.inside b member
    rw [Block.has_span] at inS
    omega
  refine ⟨?_, ?_, ?_, ?_, ?_, ?_, ?_, lo ▸ layout.low, hi ▸ layout.high, balance⟩
  · rw [start, layout.start]
    simp only [firstOf_append, head]
  · intro empty
    simp only [append_eq_nil_iff] at empty
    exact filled empty.1.2
  · rw [secret, linked_append, linked_append]
    refine ⟨⟨?_, linked⟩, ?_⟩
    · rw [head]
      exact linkedPre.congr okPre fun b member => kept b (mem_append_left _ member)
    · exact linkedBack.congr okPost fun b member => kept b (mem_append_right _ member)
  · intro b member
    rcases mem_append.mp member with front | back
    · rcases mem_append.mp front with first | middle
      · exact okPre b first
      · exact ok b middle
    · exact okPost b back
  · intro b member
    have first := inRange _ ((coverAll _).mp (covered_of_mem member (span_first b)))
    have last := inRange _ ((coverAll _).mp (covered_of_mem member (span_last b)))
    rw [lo, hi]
    unfold hdr at *
    omega
  · simp only [map_append]
    exact Span.apart_replace apart inner fun x inside => (cover x).mp inside
  · intro x
    have before := layout.covered x
    rw [InRuns] at before ⊢
    rw [runs, before, coverAll x]

theorem Layout.rewrite (layout : Layout h (pre ++ b :: post))
    (same : h'.start = h.start ∧ h'.secret = h.secret ∧ h'.lo = h.lo ∧ h'.hi = h.hi ∧ h'.runs = h.runs)
    (place : c.addr = b.addr ∧ c.size = b.size) (ok : c.Ok) (sealed_ : Sealed h'.mem h.secret c (firstOf post 0))
    (frame : ∀ x, ¬ b.span.Has x → h'.mem x = h.mem x)
    (balance : h'.totalAllocated = (h'.totalFreed + (usedBytes (pre ++ post) + if c.used then c.size else 0)) % 2 ^ 64) :
    Layout h' (pre ++ c :: post) := by
  have old : Layout h (pre ++ [b] ++ post) := by rw [append_assoc]; exact layout
  have span : c.span = b.span := by simp only [Block.span, place]
  have new : Layout h' (pre ++ [c] ++ post) := by
    refine old.exchange same (fun _ => place.1) (cons_ne_nil _ _) ⟨sealed_, trivial⟩ ?_ (pairwise_singleton _ _) ?_ ?_ ?_
    · intro d held
      cases mem_singleton.mp held
      exact ok
    · intro x
      rw [covered_single, covered_single, span]
    · intro x out
      rw [covered_single] at out
      exact frame x out
    · rw [balance]
      simp only [usedBytes_append, usedBytes_single]
      omega
  rwa [append_assoc] at new

theorem Layout.eq_of_has (layout : Layout h blocks) (left : b ∈ blocks) (right : c ∈ blocks) {x : Nat} (inB : b.span.Has x)
    (inC : c.span.Has x) : b = c := by
  obtain ⟨i, first⟩ := getElem?_of_mem left
  obtain ⟨j, second⟩ := getElem?_of_mem right
  have same : i = j := Span.eq_of_has layout.apart (by rw [getElem?_map, first]; rfl) (by rw [getElem?_map, second]; rfl) inB inC
  rw [same, second] at first
  exact (Option.some.inj first).symm

theorem Layout.notMem_around (layout : Layout h (pre ++ b :: post)) : b ∉ pre ++ post := by
  intro held
  have apart := layout.apart
  rw [map_append, map_cons, pairwise_append, pairwise_cons] at apart
  obtain ⟨_, ⟨after, _⟩, before⟩ := apart
  rcases mem_append.mp held with front | back
  · exact before _ (mem_map_of_mem front) _ mem_cons_self _ (span_first b) (span_first b)
  · exact after _ (mem_map_of_mem back) _ (span_first b) (span_first b)

theorem Layout.balance_around (layout : Layout h (pre ++ b :: post)) :
    h.totalAllocated = (h.totalFreed + (usedBytes (pre ++ post) + if b.used then b.size else 0)) % 2 ^ 64 := by
  have balance := layout.balance
  have cons : usedBytes (b :: post) = (if b.used then b.size else 0) + usedBytes post := rfl
  rw [usedBytes_append, cons] at balance
  rw [balance, usedBytes_append]
  omega

end

section
variable {h : State} {pre post : List Block} {b : Block} {need req caller : Nat}

def usedBlock (b : Block) (size req caller : Nat) : Block := ⟨b.addr, size, req, caller, true, false, b.addr + hdr, req⟩

def restBlock (b : Block) (need : Nat) : Block := ⟨b.addr + hdr + need, b.size - need - hdr, 0, b.caller, false, false, 0, 0⟩

theorem usedBlock_ok {size : Nat} (ok : b.Ok) (room : size % 16 = 0) (fits : req + 8 ≤ size) (asked : 0 < req) (low : caller < 2 ^ 64) :
    (usedBlock b size req caller).Ok :=
  ⟨ok.base, room, low, fun _ => fits, fun _ => asked, fun _ _ => ⟨rfl, rfl⟩, nofun, nofun⟩

theorem restBlock_ok (ok : b.Ok) (whole : need % 16 = 0) (worth : need + hdr ≤ b.size) : (restBlock b need).Ok := by
  have base := ok.base
  have room := ok.room
  refine ⟨?_, ?_, ok.caller, nofun, nofun, nofun, nofun, fun _ => rfl⟩
  · simp only [restBlock, hdr]
    omega
  · simp only [restBlock, hdr] at *
    omega

variable {secret : Word} {mem : Bytes}

theorem header_bounded {next : Nat} (low : b.caller < 2 ^ 64) (size : b.size < 2 ^ 64) (request : b.req < 2 ^ 64)
    (after : next < 2 ^ 64) : (b.header secret next).Bounded := by
  have kind : b.magic < 2 ^ 32 := by
    unfold Block.magic
    split <;> decide
  have mark : b.flags < 2 ^ 32 := by
    unfold Block.flags
    split <;> decide
  exact bounded_seal secret b.addr ⟨kind, mark, size, request, after, low⟩

theorem header_tail_written (mem : Bytes) (secret : Word) {next : Nat} {c : Block} (ok : c.Ok) (used : c.used = true)
    (high : c.addr + hdr + c.size < 2 ^ 64) (after : next < 2 ^ 64) :
    load (hbTailWrite (store mem c.addr (c.header secret next)) secret c.addr c.req) c.addr = c.header secret next ∧
      (hbTailWrite (store mem c.addr (c.header secret next)) secret c.addr c.req).rd heapTail (c.addr + hdr + c.req) =
        hbTailValue secret (c.addr + hdr) := by
  have fits := ok.fits used
  have payload : hbPayload c.addr = c.addr + hdr := Nat.mod_eq_of_lt (by omega)
  have place : (hbPayload c.addr + c.req) % 2 ^ 64 = c.addr + hdr + c.req := by
    rw [payload]
    exact Nat.mod_eq_of_lt (by omega)
  unfold hbTailWrite
  rw [place, payload]
  refine ⟨?_, rd_wr_of_lt (BitVec.isLt _)⟩
  refine (load_congr fun x low high => wr_out (.inl (by omega))).trans (load_store ?_)
  exact header_bounded ok.caller (by omega) (by omega) after

theorem sealed_written {next size : Nat} (ok : (usedBlock b size req caller).Ok)
    (high : b.addr + hdr + size < 2 ^ 64) (after : next < 2 ^ 64) :
    Sealed (hbTailWrite (store mem b.addr ((usedBlock b size req caller).header secret next)) secret b.addr req) secret
      (usedBlock b size req caller) next := by
  obtain ⟨header, tail⟩ := header_tail_written mem secret ok rfl high after
  exact ⟨header, fun _ => tail, nofun⟩

def takenBlocks (b : Block) (need req caller : Nat) : List Block :=
  if b.size - need ≥ hdr + heapMinSplit then [usedBlock b need req caller, restBlock b need] else [usedBlock b b.size req caller]

theorem takeBlock_eq (layout : Layout h (pre ++ b :: post)) (enough : need ≤ b.size) :
    takeBlock h b.addr need req caller =
      if b.size - need ≥ hdr + heapMinSplit then
        { h with mem := hbTailWrite (store (store h.mem (b.addr + hdr + need) ((restBlock b need).header h.secret (firstOf post 0)))
                   b.addr ((usedBlock b need req caller).header h.secret (b.addr + hdr + need))) h.secret b.addr req,
                 totalAllocated := (h.totalAllocated + need) % 2 ^ 64 }
      else
        { h with mem := hbTailWrite (store h.mem b.addr ((usedBlock b b.size req caller).header h.secret (firstOf post 0)))
                   h.secret b.addr req,
                 totalAllocated := (h.totalAllocated + b.size) % 2 ^ 64 } := by
  have member : b ∈ pre ++ b :: post := mem_append_cons_self
  obtain ⟨_, high⟩ := layout.block_bounds member
  have header := layout.split
  have payload := layout.payload member
  have remaining : (b.size + 2 ^ 64 - need) % 2 ^ 64 = b.size - need := by omega
  have place : (b.addr + hdr + need) % 2 ^ 64 = b.addr + hdr + need := Nat.mod_eq_of_lt (by omega)
  unfold takeBlock
  simp only [header, payload, remaining, place, Block.header_size, Block.header_next, Block.header_caller]
  split
  · rw [seal_again]
    rfl
  · rw [seal_again]
    rfl

theorem tail_out {a x : Nat} (high : a + hdr + req < 2 ^ 64)
    (out : x < a + hdr + req ∨ a + hdr + req + 8 ≤ x) : hbTailWrite mem secret a req x = mem x := by
  unfold hbTailWrite hbPayload heapTail
  rw [Nat.mod_eq_of_lt (show a + hdr < 2 ^ 64 by omega), Nat.mod_eq_of_lt high, wr_out out]

theorem written_out {a size x : Nat} {head : Header} (fits : req + 8 ≤ size) (high : a + hdr + size < 2 ^ 64)
    (out : x < a ∨ a + hdr + size ≤ x) : hbTailWrite (store mem a head) secret a req x = mem x := by
  rw [tail_out (by omega) (by omega), store_out (by omega)]

theorem take_layout (layout : Layout h (pre ++ b :: post)) (free : b.used = false) (whole : need % 16 = 0) (fits : req + 8 ≤ need)
    (enough : need ≤ b.size) (asked : 0 < req) (low : caller < 2 ^ 64) :
    Layout (takeBlock h b.addr need req caller) (pre ++ takenBlocks b need req caller ++ post) ∧
      ∀ x, ¬ b.span.Has x → (takeBlock h b.addr need req caller).mem x = h.mem x := by
  have member : b ∈ pre ++ b :: post := mem_append_cons_self
  obtain ⟨_, high⟩ := layout.block_bounds member
  have ok := layout.ok b member
  have room := ok.room
  have old : Layout h (pre ++ [b] ++ post) := by rw [append_assoc]; exact layout
  have below := old.next_lt
  have balance := old.balance
  rw [takeBlock_eq layout enough, takenBlocks]
  split
  next worth =>
    unfold hdr heapMinSplit at worth
    have usedOk : (usedBlock b need req caller).Ok := usedBlock_ok ok whole fits asked low
    have restOk : (restBlock b need).Ok := restBlock_ok ok whole (by unfold hdr; omega)
    have apart : (usedBlock b need req caller).span.Apart (restBlock b need).span := Span.apart_of_le (Nat.le_of_eq (Nat.add_assoc _ _ _).symm)
    have frame : ∀ x, ¬ b.span.Has x → hbTailWrite (store (store h.mem (b.addr + hdr + need) ((restBlock b need).header h.secret (firstOf post 0)))
        b.addr ((usedBlock b need req caller).header h.secret (b.addr + hdr + need))) h.secret b.addr req x = h.mem x := by
      intro x out
      rw [Block.has_span] at out
      rw [written_out fits (by omega) (by omega), store_out (by unfold hdr at *; omega)]
    have restSealed : Sealed (hbTailWrite (store (store h.mem (b.addr + hdr + need) ((restBlock b need).header h.secret (firstOf post 0)))
        b.addr ((usedBlock b need req caller).header h.secret (b.addr + hdr + need))) h.secret b.addr req) h.secret
        (restBlock b need) (firstOf post 0) := by
      refine ⟨?_, nofun, nofun⟩
      refine (load_congr fun x first last => written_out fits (by omega) (.inr first)).trans (load_store ?_)
      exact header_bounded restOk.caller (show b.size - need - hdr < 2 ^ 64 by omega) (Nat.two_pow_pos 64) below
    refine ⟨old.exchange ⟨rfl, rfl, rfl, rfl, rfl⟩ (fun _ => rfl) (cons_ne_nil _ _)
      ⟨sealed_written usedOk (by omega) (show b.addr + hdr + need < 2 ^ 64 by omega), restSealed, trivial⟩ ?_
      (List.pairwise_pair.mpr apart) ?_ ?_ ?_, frame⟩
    · intro c held
      rcases mem_cons.mp held with rfl | rest
      · exact usedOk
      · cases mem_singleton.mp rest
        exact restOk
    · intro x
      simp only [covered_single, covered_pair, Block.has_span, usedBlock, restBlock, hdr]
      omega
    · intro x out
      rw [covered_single] at out
      exact frame x out
    · have pair : usedBytes [usedBlock b need req caller, restBlock b need] = need := rfl
      simp only [usedBytes_append, usedBytes_single, free, pair, Bool.false_eq_true, if_false] at balance ⊢
      omega
  · have usedOk : (usedBlock b b.size req caller).Ok := usedBlock_ok ok room (by omega) asked low
    have frame : ∀ x, ¬ b.span.Has x → hbTailWrite (store h.mem b.addr ((usedBlock b b.size req caller).header h.secret (firstOf post 0)))
        h.secret b.addr req x = h.mem x := by
      intro x out
      rw [Block.has_span] at out
      exact written_out (show req + 8 ≤ b.size by omega) high (by omega)
    rw [append_assoc]
    refine ⟨layout.rewrite ⟨rfl, rfl, rfl, rfl, rfl⟩ ⟨rfl, rfl⟩ usedOk (sealed_written usedOk high below) frame ?_, frame⟩
    have around := layout.balance_around
    simp only [free, usedBlock, Bool.false_eq_true, if_false, if_true] at around ⊢
    omega

end

/-- The physical memory manager gives whole frames of the direct map that the heap does not have yet. -/
def GrantOk (h : State) (grant : Grant) : Prop :=
  ∀ frames phys, grant frames = some phys → phys % pmmFrameSize = 0 ∧ physmapBase + phys + frames * pmmFrameSize < 2 ^ 64 ∧
    ∀ x, Span.Has ⟨physmapBase + phys, frames * pmmFrameSize⟩ x → ¬ InRuns h x

section
variable {h : State} {blocks init : List Block} {b last : Block} {grant : Grant} {need : Nat}

theorem Sealed.relink {mem : Bytes} {secret : Word} {next after : Nat} (sealed_ : Sealed mem secret b next) (ok : b.Ok)
    (high : b.addr + hdr + b.size < 2 ^ 64) (low : after < 2 ^ 64) : Sealed (store mem b.addr (b.header secret after)) secret b after := by
  have request : b.req < 2 ^ 64 := by
    cases kind : b.used with
    | false => rw [ok.idle kind]; exact Nat.two_pow_pos 64
    | true => have fits := ok.fits kind; omega
  refine ⟨load_store (header_bounded ok.caller (by omega) request low), fun used => ?_, fun aligned => ?_⟩
  · rw [← sealed_.tail used]
    exact rd_congr fun i first _ => store_out (.inr (by omega))
  · obtain ⟨_, above, _, _⟩ := ok.moved aligned
    rw [← sealed_.stub aligned]
    exact load_store_apart (.inl (by unfold hdr at *; omega))

theorem framesFor_pos (need : Nat) : 0 < framesFor need := by
  unfold framesFor
  simp only
  split
  · exact Nat.one_pos
  next some_ => exact Nat.pos_of_ne_zero some_

def regionBlock (base frames : Nat) : Block := ⟨base, frames * pmmFrameSize - hdr, 0, 0, false, false, 0, 0⟩

theorem regionBlock_ok {base frames : Nat} (aligned : base % 16 = 0) (some_ : 0 < frames) : (regionBlock base frames).Ok := by
  refine ⟨aligned, ?_, Nat.two_pow_pos 64, nofun, nofun, nofun, nofun, fun _ => rfl⟩
  simp only [regionBlock, pmmFrameSize, hdr]
  omega

theorem has_regionBlock {base frames x : Nat} (some_ : 0 < frames) :
    (regionBlock base frames).span.Has x ↔ Span.Has ⟨base, frames * pmmFrameSize⟩ x := by
  rw [Block.has_span]
  simp only [regionBlock, Span.Has, pmmFrameSize, hdr]
  omega

theorem expand_layout (layout : Layout h (init ++ [last])) (contract : GrantOk h grant) {phys : Nat}
    (granted : grant (framesFor need) = some phys) :
    let base := physmapBase + phys
    let grown := expandHeap h grant last.addr need
    grown.2 = base ∧ Layout grown.1 (init ++ [last] ++ [regionBlock base (framesFor need)]) ∧
      grown.1.runs = h.runs ++ [⟨base, framesFor need * pmmFrameSize⟩] ∧
      ∀ x, ¬ InRuns grown.1 x → grown.1.mem x = h.mem x := by
  obtain ⟨whole, room, fresh⟩ := contract _ _ granted
  have positive := framesFor_pos need
  have member : last ∈ init ++ [last] := mem_append_cons_self
  obtain ⟨lowLast, highLast⟩ := layout.block_bounds member
  have okLast := layout.ok last member
  have virt : physToVirt phys = physmapBase + phys := Nat.mod_eq_of_lt (by omega)
  have size : (framesFor need * pmmFrameSize + 2 ^ 64 - hdr) % 2 ^ 64 = framesFor need * pmmFrameSize - hdr := by
    unfold pmmFrameSize hdr at *
    omega
  have len : framesFor need * pmmFrameSize % 2 ^ 64 = framesFor need * pmmFrameSize := Nat.mod_eq_of_lt (by omega)
  have stop : (physmapBase + phys + framesFor need * pmmFrameSize) % 2 ^ 64 = physmapBase + phys + framesFor need * pmmFrameSize :=
    Nat.mod_eq_of_lt room
  have regionOk : (regionBlock (physmapBase + phys) (framesFor need)).Ok :=
    regionBlock_ok (by unfold pmmFrameSize physmapBase at *; omega) positive
  have outside : ∀ b ∈ init ++ [last], ∀ x, b.span.Has x → ¬ (regionBlock (physmapBase + phys) (framesFor need)).span.Has x := by
    intro b held x inside new
    exact fresh x ((has_regionBlock positive).mp new) ((layout.covered x).mpr (covered_of_mem held inside))
  -- the header of the region is written outside every block
  have kept : ∀ b ∈ init ++ [last], ∀ x, b.span.Has x → h.mem x =
      store h.mem (physmapBase + phys) ((regionBlock (physmapBase + phys) (framesFor need)).header h.secret 0) x := by
    intro b held x inside
    refine (store_out ?_).symm
    have out := outside b held x inside
    rw [Block.has_span] at out
    simp only [regionBlock] at out
    omega
  have header : load (store h.mem (physmapBase + phys) ((regionBlock (physmapBase + phys) (framesFor need)).header h.secret 0)) last.addr =
      last.header h.secret 0 := by
    refine (load_congr fun x first final => kept last member x ?_).symm.trans layout.split
    rw [Block.has_span]
    omega
  have linked := layout.linked.congr layout.ok kept
  obtain ⟨front, back, _⟩ := linked_append.mp linked
  have relinked := back.relink okLast highLast (show physmapBase + phys < 2 ^ 64 by omega)
  simp only [expandHeap, granted, virt, size, len, heapTrackRegion, stop]
  have region : freeHeader h.secret (physmapBase + phys) (framesFor need * pmmFrameSize - hdr) =
    (regionBlock (physmapBase + phys) (framesFor need)).header h.secret 0 := rfl
  have successor : hbSeal h.secret last.addr { last.header h.secret 0 with next := physmapBase + phys } =
    last.header h.secret (physmapBase + phys) := seal_again _ _ _ _ _ _ _ _ _
  simp only [region, header, successor]
  have others : ∀ b ∈ init, ∀ x, b.span.Has x → ¬ last.span.Has x := by
    intro b held x inside final
    have apart := layout.apart
    rw [map_append, pairwise_append] at apart
    exact apart.2.2 _ (mem_map_of_mem held) _ (mem_map_of_mem mem_cons_self) x inside final
  have covered : ∀ x, Span.Covered (h.runs ++ [⟨physmapBase + phys, framesFor need * pmmFrameSize⟩]) x ↔
      Span.Covered ((init ++ [last] ++ [regionBlock (physmapBase + phys) (framesFor need)]).map Block.span) x := by
    intro x
    have old := layout.covered x
    rw [InRuns] at old
    rw [map_append, Span.covered_append, Span.covered_append, old, covered_single, has_regionBlock positive]
    simp [Span.Covered]
  have lastOut : ∀ x, ¬ last.span.Has x → x < last.addr ∨ last.addr + hdr ≤ x := by
    intro x out
    rw [Block.has_span] at out
    omega
  have regionIn : (regionBlock (physmapBase + phys) (framesFor need)).addr + hdr + (regionBlock (physmapBase + phys) (framesFor need)).size =
      physmapBase + phys + framesFor need * pmmFrameSize := by
    simp only [regionBlock, pmmFrameSize, hdr] at *
    omega
  have floor : 0 < h.lo := Nat.lt_of_lt_of_le (by decide) layout.low
  refine ⟨trivial, ⟨?_, ?_, ?_, ?_, ?_, ?_, covered, ?_, ?_, ?_⟩, trivial, ?_⟩
  · rw [layout.start]
    cases init <;> rfl
  · simp [append_eq_nil_iff, cons_ne_nil]
  · rw [linked_append, linked_append]
    refine ⟨⟨front.congr (fun b held => layout.ok b (mem_append_left _ held)) fun b held x inside => ?_, relinked, trivial⟩,
      ⟨?_, (by rintro ⟨⟩), (by rintro ⟨⟩)⟩, trivial⟩
    · exact (store_out (lastOut x (others b held x inside))).symm
    · refine (load_congr fun x first final => store_out (lastOut x fun inLast => ?_)).trans (load_store ?_)
      · exact outside last member x inLast (by rw [Block.has_span]; omega)
      · exact header_bounded regionOk.caller (by simp only [regionBlock]; omega) (Nat.two_pow_pos 64) (Nat.two_pow_pos 64)
  · intro b held
    rcases mem_append.mp held with old | new
    · exact layout.ok b old
    · cases mem_singleton.mp new
      exact regionOk
  · intro b held
    rcases mem_append.mp held with old | new
    · obtain ⟨low, high⟩ := layout.inside b old
      constructor <;> dsimp only <;> split <;> omega
    · cases mem_singleton.mp new
      rw [regionIn]
      simp only [regionBlock]
      constructor <;> split <;> omega
  · rw [map_append]
    exact Span.apart_concat layout.apart fun x inside old =>
      fresh x ((has_regionBlock positive).mp inside) ((layout.covered x).mpr old)
  · have low := layout.low
    dsimp only
    split <;> omega
  · have high := layout.high
    dsimp only
    split <;> omega
  · rw [usedBytes_append, usedBytes_single]
    exact layout.balance
  · intro x out
    rw [InRuns, covered, map_append, Span.covered_append, covered_single] at out
    obtain ⟨old, new⟩ := not_or.mp out
    rw [store_out (lastOut x fun inside => old (covered_of_mem member inside))]
    refine store_out ?_
    rw [Block.has_span] at new
    simp only [regionBlock] at new
    omega

end

section
variable {h : State} {blocks pre post : List Block} {b : Block} {need : Nat}

theorem Layout.room_le (layout : Layout h blocks) : ((blocks.map Block.span).map Span.len).sum ≤ h.hi - h.lo := by
  refine Span.sum_le layout.apart fun s held => ?_
  obtain ⟨b, member, rfl⟩ := List.mem_map.mp held
  obtain ⟨low, high⟩ := layout.inside b member
  exact ⟨low, by simp only [Block.span]; omega⟩

theorem Layout.length_le (layout : Layout h blocks) : blocks.length ≤ (h.hi - h.lo) / 16 := by
  have total := layout.room_le
  have each : 48 * blocks.length ≤ ((blocks.map Block.span).map Span.len).sum := by
    clear total layout
    induction blocks with
    | nil => exact Nat.le_refl 0
    | cons b rest ih =>
      simp only [map_cons, sum_cons, length_cons, Block.span, hdr] at ih ⊢
      omega
  omega

theorem Layout.usedBytes_le (layout : Layout h blocks) : usedBytes blocks ≤ h.hi - h.lo := by
  refine Nat.le_trans ?_ layout.room_le
  clear layout
  induction blocks with
  | nil => exact Nat.le_refl 0
  | cons b rest ih =>
    simp only [usedBytes, map_cons, sum_cons, Block.span] at ih ⊢
    split <;> omega

def lastOf : List Block → Nat → Nat
  | [], before => before
  | b :: rest, _ => lastOf rest b.addr

theorem lastOf_concat (init : List Block) (last : Block) (before : Nat) : lastOf (init ++ [last]) before = last.addr := by
  induction init generalizing before with
  | nil => rfl
  | cons b rest ih => exact ih b.addr

theorem Layout.addr_ne (layout : Layout h blocks) (member : b ∈ blocks) : b.addr ≠ 0 := by
  have low := (layout.block_bounds member).1
  unfold physmapBase at low
  omega

theorem findFree_spec (layout : Layout h (pre ++ post)) (last : Nat) {rounds : Nat} (enough : post.length < rounds) :
    (∃ mid b rest before, post = mid ++ b :: rest ∧ b.used = false ∧ need ≤ b.size ∧
      findFree h need rounds last (firstOf post 0) = .ok (before, b.addr)) ∨
    ((∀ b ∈ post, b.used = false → b.size < need) ∧ findFree h need rounds last (firstOf post 0) = .ok (lastOf post last, 0)) := by
  induction post generalizing pre rounds last with
  | nil =>
    obtain ⟨more, rfl⟩ := Nat.exists_eq_succ_of_ne_zero (Nat.ne_of_gt enough)
    exact .inr ⟨nofun, rfl⟩
  | cons b rest ih =>
    obtain ⟨more, rfl⟩ := Nat.exists_eq_succ_of_ne_zero (show rounds ≠ 0 by omega)
    have member : b ∈ pre ++ b :: rest := mem_append_cons_self
    have step : findFree h need (more + 1) last b.addr =
        if b.used = false ∧ b.size ≥ need then .ok (last, b.addr) else findFree h need more b.addr (firstOf rest 0) := by
      rw [findFree, if_neg (layout.addr_ne member)]
      simp only [layout.verify member, layout.split, Block.header_magic, Block.header_size, Block.header_next, Block.magic_eq_free]
    simp only [firstOf, Nat.succ_eq_add_one, step]
    split
    next fit => exact .inl ⟨[], b, rest, last, rfl, fit.1, fit.2, rfl⟩
    next unfit =>
      have later : Layout h ((pre ++ [b]) ++ rest) := by rw [append_assoc]; exact layout
      have shorter : rest.length < more := by simp only [length_cons] at enough; omega
      obtain ⟨mid, c, after, before, rfl, free, large, found⟩ | ⟨none, ended⟩ := ih later b.addr shorter
      · exact .inl ⟨b :: mid, c, after, before, rfl, free, large, found⟩
      · refine .inr ⟨fun c held free => ?_, ended⟩
        rcases mem_cons.mp held with rfl | inRest
        · by_contra large
          exact unfit ⟨free, by omega⟩
        · exact none c inRest free

theorem firstFit (layout : Layout h blocks) (need : Nat) :
    (∃ pre b post before, blocks = pre ++ b :: post ∧ b.used = false ∧ need ≤ b.size ∧
      findFree h need (blockLimit h + 1) 0 h.start = .ok (before, b.addr)) ∨
    ((∀ b ∈ blocks, b.used = false → b.size < need) ∧ findFree h need (blockLimit h + 1) 0 h.start = .ok (lastOf blocks 0, 0)) := by
  have rounds : blocks.length < blockLimit h + 1 := by
    have short := layout.length_le
    unfold blockLimit heapAlign
    omega
  have whole : Layout h ([] ++ blocks) := layout
  rw [layout.start]
  exact findFree_spec whole 0 rounds

end
end SecOS.Heap
