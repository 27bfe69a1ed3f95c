import SecOS.Proofs.HeapRuns

/-! What kfree does with any pointer. A header that passes its check was sealed by the heap and is
that of a used block, so a pointer is taken for an allocation only through its own header, or
through a stub. The stub of an aligned allocation outlives it. -/

namespace SecOS.Heap
open Library

/-- `hb_verify` accepts the header at `a`, of a used block. -/
def Passes (h : State) (a : Nat) : Prop := a < 2 ^ 64 ∧ (load h.mem a).magic = magicUsed ∧ hbVerify h a = .ok ()

/-- No bytes pass the check by chance: a header that passes after the event is on the list, or has passed before. -/
def Unforged (w : World) (e : Event) : Prop :=
  ∀ w' p, step w e = .ok (w', p) → ∀ a, Passes w'.heap a → Passes w.heap a ∨ ∀ list, Follows w'.heap.mem w'.heap.start list → a ∈ list

/-- A live pointer is released, with its block and nothing else; any other is reported before anything is written. -/
structure FreesOnly (w : World) (p caller : Nat) : Prop where
  live : ∀ l ∈ w.live, l.ptr = p → ∃ h' blocks blocks' b, kfree w.heap p caller = .ok h' ∧ Layout w.heap blocks ∧ b ∈ blocks ∧
    b.used = true ∧ b.allocation = l ∧ Released w.heap h' blocks blocks' b ∧ Alone w.heap h' blocks b
  other : (∀ l ∈ w.live, l.ptr ≠ p) → ∃ fault, heapResolveLocked w.heap p = .error fault ∧ kfree w.heap p caller = .error fault

/-- Below `p` is a stub, and the block it names is that of an aligned allocation that reaches over `p`. -/
def Stubbed (h : State) (p : Nat) : Prop :=
  p % heapAlign = 0 ∧ ∃ stub, load h.mem (p - hdr) = stub ∧ stub.magic = magicAlign ∧ stub.check = hbCalc h.secret (p - hdr) stub ∧
    Passes h stub.next ∧ (load h.mem stub.next).flags = flagAligned ∧
    stub.next + 2 * hdr ≤ p ∧ p < stub.next + hdr + (load h.mem stub.next).req

def Genuine (h : State) (blocks : List Block) : Prop := ∀ a, Passes h a → ∃ b ∈ blocks, b.used = true ∧ b.addr = a

section
variable {h : State} {w w' : World} {blocks : List Block} {p a : Nat}

theorem verify_passes (low : a < 2 ^ 64) (verified : hbVerify h a = .ok ()) (notFree : (load h.mem a).magic ≠ magicFree) : Passes h a := by
  refine ⟨low, by_contra fun unused => ?_, verified⟩
  unfold hbVerify at verified
  dsimp only at verified
  rw [if_pos (show _ ∧ _ from ⟨unused, notFree⟩)] at verified
  split at verified <;> cases verified

theorem resolve_cases (layout : Layout h blocks) (genuine : Genuine h blocks) (found : heapResolveLocked h p = .ok a) :
    (∃ b ∈ blocks, b.used = true ∧ b.ptr = p) ∨ Stubbed h p := by
  unfold heapResolveLocked at found
  dsimp only at found
  split at found <;> [cases found; split at found <;> [cases found; skip]]
  next whole range =>
    have high := layout.high
    rw [Nat.mod_eq_of_lt layout.lo_lt] at range
    split at found
    next magic =>
      unfold resolveStub at found
      dsimp only at found
      split at found <;> [cases found; split at found <;> [cases found; split at found <;> [cases found; split at found <;> [cases found; skip]]]]
      next check _ _ verified used bounds =>
        have passes := verify_passes (show (load h.mem (p - hdr)).next < 2 ^ 64 from Bytes.rd_lt h.mem 8 _) verified used
        obtain ⟨b, member, held, place⟩ := genuine _ passes
        obtain ⟨next, header⟩ := layout.header member
        obtain ⟨_, last⟩ := layout.block_bounds member
        have ok := layout.ok b member
        have fits := ok.fits held
        refine .inr ⟨not_not.mp whole, _, rfl, magic, not_not.mp check, passes, ?_⟩
        rw [← place, header, layout.payload member] at bounds
        rw [← place, header]
        simp only [Block.header_flags, Block.header_req, not_or] at bounds ⊢
        cases kind : b.aligned with
        | false => exact absurd (by rw [Block.flags, kind]; rfl) bounds.1
        | true =>
          obtain ⟨_, above, _, total⟩ := ok.moved kind
          rw [Nat.mod_eq_of_lt (by omega), Nat.mod_eq_of_lt (by omega)] at bounds
          exact ⟨by rw [Block.flags, kind]; rfl, by omega, by omega⟩
    · split at found <;> [split at found <;> cases found; split at found <;> [cases found; split at found <;> [cases found; split at found <;>
        [cases found; split at found <;> [cases found; skip]]]]]
      next used _ _ verified flags =>
        obtain ⟨b, member, held, place⟩ := genuine _ ⟨by omega, not_not.mp used, verified⟩
        obtain ⟨next, header⟩ := layout.header member
        refine .inl ⟨b, member, held, ?_⟩
        cases kind : b.aligned with
        | false => rw [((layout.ok b member).plain held kind).1, place, Nat.sub_add_cancel (by omega)]
        | true =>
          rw [← place, header, Block.header_flags, Block.flags, kind] at flags
          exact absurd flags (by decide)

theorem Stubbed.resolves (stubbed : Stubbed h p) (layout : Layout h blocks) (genuine : Genuine h blocks) :
    ∃ a, heapResolveLocked h p = .ok a := by
  obtain ⟨whole, stub, found, magic, check, passes, flags, above, below⟩ := stubbed
  obtain ⟨b, member, _, place⟩ := genuine _ passes
  obtain ⟨next, header⟩ := layout.header member
  rw [← place, header, Block.header_flags] at flags
  rw [← place, header, Block.header_req] at below
  have aligned : b.aligned = true := by
    cases kind : b.aligned with
    | false => rw [Block.flags, kind] at flags; cases flags
    | true => rfl
  exact ⟨_, resolve_stub layout member aligned whole found magic check place.symm (place ▸ above) below⟩

theorem run_genuine {events : List Event} (sound : w.Sound blocks) (genuine : Genuine w.heap blocks) (fit : ∀ e ∈ events, Fits e)
    (assumed : Throughout (fun w e => Admissible w e ∧ Unforged w e) w events) (ended : run w events = .ok w') :
    ∃ blocks', w'.Sound blocks' ∧ Genuine w'.heap blocks' := by
  induction events generalizing w blocks with
  | nil =>
    cases ended
    exact ⟨blocks, sound, genuine⟩
  | cons e rest ih =>
    obtain ⟨⟨allowed, unforged⟩, later⟩ := assumed
    obtain ⟨fits, rest⟩ := List.forall_mem_cons.mp fit
    obtain ⟨next, q, after, stepped, kept, _, _, survive⟩ := step_sound sound allowed fits
    refine ih kept (fun a passes => ?_) rest (later next q stepped) (by simpa only [run, stepped] using ended)
    have magic := passes.2.1
    rcases unforged next q stepped a passes with before | listed
    · obtain ⟨b, member, used, rfl⟩ := genuine a before
      exact (survive b member used).elim (fun still => ⟨b, still, used, rfl⟩) fun gone => absurd magic gone
    · obtain ⟨b, member, rfl⟩ := List.mem_map.mp (listed _ kept.layout.follows)
      obtain ⟨_, header⟩ := kept.layout.header member
      rw [header, Block.header_magic, Block.magic_eq_used] at magic
      exact ⟨b, member, magic, rfl⟩

/-- No used header but maybe the first, at the multiples of sixteen between the ends of the heap and at the end of memory. -/
def Sole (h : State) : Prop :=
  (h.start = h.lo ∧ 0 < h.lo ∧ h.lo % 16 = 0 ∧ h.hi = h.lo + 4096) ∧ (∀ k ∈ List.range 255, h.mem (h.lo + 16 * (k + 1)) ≠ 0x7E) ∧
    ∀ k ∈ List.range 3, h.mem (2 ^ 64 - 16 * (k + 1)) ≠ 0x7E

instance (h : State) : Decidable (Sole h) := by
  unfold Sole
  infer_instance

theorem Sole.passes (sole : Sole h) (passes : Passes h a) : a = h.start := by
  obtain ⟨⟨start, _, even, hi⟩, bytes, last⟩ := sole
  obtain ⟨low, magic, verified⟩ := passes
  have first : h.mem a = 0x7E := by
    simp only [load, Bytes.rd, magicUsed] at magic
    have low := (h.mem a).toNat_lt
    exact UInt8.toNat_inj.mp (show (h.mem a).toNat = 0x7E by omega)
  have inside : hbInHeap h a = true := by
    refine eq_true_of_ne_false fun outside => ?_
    simp only [hbVerify, outside, Bool.not_false, if_true] at verified
    cases verified
  simp only [hbInHeap, heapAlign, Bool.and_eq_true, beq_iff_eq, decide_eq_true_eq] at inside
  obtain ⟨⟨whole, above⟩, below⟩ := inside
  rw [start]
  by_contra other
  by_cases wraps : a + hdr < 2 ^ 64
  · rw [Nat.mod_eq_of_lt wraps] at below
    unfold hdr at below
    refine bytes ((a - h.lo) / 16 - 1) (List.mem_range.mpr (by omega)) ?_
    rwa [show h.lo + 16 * ((a - h.lo) / 16 - 1 + 1) = a by omega]
  · unfold hdr at wraps
    refine last ((2 ^ 64 - a) / 16 - 1) (List.mem_range.mpr (by omega)) ?_
    rwa [show 2 ^ 64 - 16 * ((2 ^ 64 - a) / 16 - 1 + 1) = a by omega]

theorem Sole.unforged {e : Event} (sole : Sole (after w e).heap) : Unforged w e := by
  intro w' p stepped a passes
  rw [← after_eq stepped] at sole
  refine .inr fun list follows => ?_
  rw [sole.passes passes]
  obtain ⟨⟨start, some_, _⟩, _⟩ := sole
  cases list with
  | nil =>
    have none : w'.heap.start = 0 := follows
    omega
  | cons b rest => exact follows.1 ▸ List.mem_cons_self

def oldPointer : Nat := physmapBase + 0x100060

def reuse : List Event := [.kmallocAligned (fun _ => none) 64 32 0, .kfree oldPointer 0, .kmallocAligned (fun _ => none) 64 1024 0]

theorem reuse_allowed : Throughout (fun w e => Admissible w e ∧ Unforged w e) sampleBoot reuse := by
  refine ⟨⟨⟨nofun, by decide, by decide, by decide⟩, Sole.unforged (by decide +kernel)⟩, fun w p stepped => ?_⟩
  rw [after_eq stepped]
  refine ⟨⟨⟨⟨⟨oldPointer, 64⟩, by decide +kernel, rfl⟩, by decide⟩, Sole.unforged (by decide +kernel)⟩, fun w p stepped => ?_⟩
  rw [after_eq stepped]
  exact ⟨⟨⟨nofun, by decide, by decide, by decide⟩, Sole.unforged (by decide +kernel)⟩, fun _ _ _ => trivial⟩

theorem reuse_fits : ∀ e ∈ reuse, Fits e := by
  simp [reuse, Fits, heapAlign, hdr, requestLimit]

theorem reuse_ends : ∃ w, run sampleBoot reuse = .ok w ∧ w.live = [⟨physmapBase + 0x100400, 64⟩] ∧
    (heapResolveLocked w.heap oldPointer).isOk = true := by
  have done : ((run sampleBoot reuse).toOption.map fun w => (w.live, (heapResolveLocked w.heap oldPointer).isOk)) =
      some ([⟨physmapBase + 0x100400, 64⟩], true) := by decide +kernel
  cases ended : run sampleBoot reuse with
  | error fault => rw [ended] at done; cases done
  | ok w =>
    rw [ended] at done
    obtain ⟨live, found⟩ := Prod.mk.inj (Option.some.inj done)
    exact ⟨w, rfl, live, found⟩

end
end SecOS.Heap
