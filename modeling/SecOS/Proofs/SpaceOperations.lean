import SecOS.Proofs.SpaceLedger

/-! The operations on one address space, posted to the ledger: mapping, unmapping,
protecting and copying a page. `rest` are the leaves of all other spaces, `base`
the other owners of frames. -/

namespace SecOS.Vmm
open Library Pmm BitVec
open Function (update update_of_ne update_self)

def writable (pte : Word) : Bool := pte.has flagPresent && pte.has flagRw && !pte.has flagDevice

/-- No leaf is a large page, and a present leaf is not parked. -/
def Shaped (pte : Word) : Prop := pte.getLsbD 7 = false ∧ (pte.getLsbD 0 = true → pte.getLsbD 10 = false)

instance (pte : Word) : Decidable (Shaped pte) := inferInstanceAs (Decidable (_ ∧ _))

/-- A writable leaf is alone on its frame, and device leaves point where devices may be
mapped and are never copied on write. -/
structure Tidy (mapped : Nat → Prop) (rest : Nat → Nat) (s : Space) : Prop where
  alone : ∀ page ∈ window, ∀ f, writable (s.pte page) = true → owner (s.pte page) = some f → rest f + s.leaves f = 1
  plain : ∀ page ∈ window, pteHasFrame (s.pte page) = true → (s.pte page).has flagDevice = true →
    (s.pte page).has flagCow = false ∧ mapped (ptePhys (s.pte page) / frameSize)
  shaped : ∀ page ∈ window, Shaped (s.pte page)

/-- The books of one space are in order after an operation on `s`. A frame of which
another space had the only leaf has not been touched. -/
structure Posted (device mapped : Nat → Prop) (rest base : Nat → Nat) (s : Space) (m' : Pmm.State) (s' : Space) : Prop where
  acc : Accounts device m' (fun f => rest f + s'.leaves f) (fun f => base f + s'.tables f)
  tidy : Tidy mapped rest s'
  others : ∀ f, 0 < rest f → rest f + s.leaves f = 1 → s'.leaves f = 0

section
variable {device mapped : Nat → Prop} {rest base leaves : Nat → Nat} {m m' : Pmm.State} {s s' : Space} {page f : Nat} {w : Word}

theorem owner_some : owner w = some f ↔ pteHasFrame w = true ∧ w.has flagDevice = false ∧ ptePhys w / frameSize = f := by
  unfold owner
  cases pteHasFrame w <;> cases w.has flagDevice <;> simp

theorem owner_phys (held : owner w = some f) : ptePhys w = f * frameSize := by
  rw [← ptePhys_aligned, (owner_some.mp held).2.2]

theorem owner_device (marked : w.has flagDevice = true) : owner w = none := by
  unfold owner
  rw [marked, Bool.not_true, Bool.and_false, if_neg Bool.false_ne_true]

theorem owner_empty (empty : pteHasFrame w = false) : owner w = none := by
  unfold owner
  rw [empty, Bool.false_and, if_neg Bool.false_ne_true]

theorem Posted.refl (acc : Accounts device m (fun f => rest f + s.leaves f) (fun f => base f + s.tables f)) (tidy : Tidy mapped rest s) :
    Posted device mapped rest base s m s :=
  ⟨acc, tidy, fun _ _ _ => by omega⟩

theorem Tidy.congr (tidy : Tidy mapped rest s) (same : s'.pte = s.pte) : Tidy mapped rest s' := by
  have equal := leaves_congr same
  refine ⟨?_, ?_, ?_⟩
  · rw [same]
    intro page inside f writes held
    rw [equal]
    exact tidy.alone page inside f writes held
  · rw [same]
    exact tidy.plain
  · rw [same]
    exact tidy.shaped

theorem Tidy.rewrite (tidy : Tidy mapped rest s) (above : (s.pt (page / 512)).isSome) (inside : page ∈ window)
    (source : ∀ f, owner w = some f → rest f + s.leaves f = 0 ∨ owner (s.pte page) = some f)
    (exclusive : ∀ f, writable w = true → owner w = some f → rest f + (s.setPte page w).leaves f = 1)
    (plain : pteHasFrame w = true → w.has flagDevice = true → w.has flagCow = false ∧ mapped (ptePhys w / frameSize))
    (shaped : Shaped w) :
    Tidy mapped rest (s.setPte page w) ∧
      ∀ f, 0 < rest f → rest f + s.leaves f = 1 → (s.setPte page w).leaves f = 0 := by
  have kept : ∀ f, owner w ≠ some f → (s.setPte page w).leaves f ≤ s.leaves f := by
    intro f other
    have sum := leaves_setPte (w := w) above inside f
    rw [Space.owns, Space.owns, if_neg other] at sum
    omega
  have entry := setPte_pte (w := w) above
  refine ⟨⟨?_, ?_, ?_⟩, ?_⟩
  · intro p inside' f writes held
    by_cases here : p = page
    · rw [entry, here, update_self] at writes held
      exact exclusive f writes held
    · have counted := leaf_counted inside' held
      rw [entry, update_of_ne here] at writes held
      have one := tidy.alone p inside' f writes held
      by_cases new : owner w = some f
      · -- The frame is not new, and the old leaf cannot have shared it with a writable one.
        have posted := leaf_counted inside' held
        rcases source f new with zero | old
        · omega
        · have twice := leaves_twice inside' inside here held old
          omega
      · have bound := kept f new
        omega
  · intro p inside'
    by_cases here : p = page
    · rw [entry, here, update_self]
      exact plain
    · rw [entry, update_of_ne here]
      exact tidy.plain p inside'
  · intro p inside'
    by_cases here : p = page
    · rw [entry, here, update_self]
      exact shaped
    · rw [entry, update_of_ne here]
      exact tidy.shaped p inside'
  · intro f elsewhere one
    by_cases new : owner w = some f
    · rcases source f new with zero | old
      · omega
      · have posted := leaf_counted inside old
        omega
    · have bound := kept f new
      omega

/-- What `vmm_map_in_space` can do to a window page. -/
inductive Mapping (device : Nat → Prop) (leaves base : Nat → Nat) (m : Pmm.State) (s : Space) (page phys : Nat) (flags : Word) :
    Pmm.State × Space × Int → Prop
  | refused {m' : Pmm.State} {s' : Space} {res : Int} (grown : Grown device leaves base m s m' s') (failed : res ≠ 0)
      (cause : phys % 4096 ≠ 0 ∨ (flags.has flagRw = true ∧ flags.has flagNoexec = false) ∨ pteHasFrame (s.pte page) = true ∨
        flags.has flagProtnone = true ∨ (getPtSpace m s (page * 4096) true).2.2 = false) :
      Mapping device leaves base m s page phys flags (m', s', res)
  | placed {m' : Pmm.State} {s' : Space} (grown : Grown device leaves base m s m' s') (above : (s'.pt (page / 512)).isSome)
      (empty : pteHasFrame (s.pte page) = false) (unparked : flags.has flagProtnone = false)
      (allowed : flags.has flagRw = true → flags.has flagNoexec = true)
      (walked : (getPtSpace m s (page * 4096) true).2.2 = true) :
      Mapping device leaves base m s page phys flags
        (m', s'.setPte page ((physWord phys &&& addressMask) ||| (flags &&& ~~~flagPs) ||| flagPresent), 0)

theorem window_virt (inside : page ∈ window) :
    page * 4096 % 4096 = 0 ∧ page * 4096 / 4096 = page ∧ ¬page * 4096 ≥ userTop ∧ ¬page * 4096 ≥ kernelBase := by
  have bounds := mem_window.mp inside
  unfold userTop kernelBase
  omega

theorem mapInSpace_mapping (acc : Accounts device m leaves (fun f => base f + s.tables f)) (inside : page ∈ window)
    (phys : Nat) (flags : Word) :
    Mapping device leaves base m s page phys flags (mapInSpace m s (page * 4096) phys flags) := by
  obtain ⟨aligned, place, _, low⟩ := window_virt inside
  unfold mapInSpace
  rw [place, aligned, decide_eq_false low, Bool.and_false]
  split
  next unaligned =>
    rcases unaligned with never | cause
    · exact absurd rfl never
    · exact .refused (.refl acc) (by decide) (.inl cause)
  · split
    next forbidden =>
      rw [Bool.and_eq_true, Bool.not_eq_true'] at forbidden
      exact .refused (.refl acc) (by decide) (.inr (.inl forbidden))
    next allowed =>
      rw [if_neg Bool.false_ne_true]
      obtain ⟨grown, found, failed⟩ := getPtSpace_walked acc inside
      cases walk : getPtSpace m s (page * 4096) true with
      | mk m1 reached =>
      obtain ⟨s1, ok⟩ := reached
      rw [walk] at grown found failed
      cases ok with
      | false => exact .refused grown (by decide) (.inr (.inr (.inr (.inr (by rw [walk])))))
      | true =>
        have entry : s1.pte page = s.pte page := congrFun grown.pte page
        simp only [entry]
        split
        next taken => exact .refused grown (by decide) (.inr (.inr (.inl taken)))
        next empty =>
          split
          next parked => exact .refused grown (by decide) (.inr (.inr (.inr (.inl parked))))
          next unparked =>
            refine .placed grown (found rfl) (Bool.not_eq_true _ ▸ empty) (Bool.not_eq_true _ ▸ unparked) ?_ (by rw [walk])
            intro writes
            rw [writes, Bool.true_and, Bool.not_eq_true', Bool.not_eq_false] at allowed
            exact allowed

theorem unmapInSpace_eq (m : Pmm.State) (s : Space) (inside : page ∈ window) :
    ∃ res : Int, unmapInSpace m s (page * 4096) =
      if pteHasFrame (s.pte page) then
        (if (s.pte page).has flagDevice then m else dropFrame m (ptePhys (s.pte page)), s.setPte page 0#64, 0)
      else (m, s, res) := by
  obtain ⟨aligned, place, low, _⟩ := window_virt inside
  unfold unmapInSpace
  rw [if_neg (not_not.mpr aligned), if_neg low, getPtSpace_look m s inside, place]
  cases table : s.pt (page / 512) with
  | none =>
    have zero := s.pte_below page table
    refine ⟨-2, ?_⟩
    rw [zero]
    rfl
  | some _ =>
    refine ⟨-3, ?_⟩
    cases taken : pteHasFrame (s.pte page) with
    | false => simp [taken]
    | true => cases marked : (s.pte page).has flagDevice <;> simp [taken, marked]

theorem pt_of_frame (taken : pteHasFrame (s.pte page) = true) : (s.pt (page / 512)).isSome := by
  cases table : s.pt (page / 512) with
  | none =>
    rw [s.pte_below page table] at taken
    exact absurd taken (by decide)
  | some _ => rfl

theorem credit_apply (ledger : Nat → Nat) (f g : Nat) : credit ledger f g = ledger g + Space.owns (some f) g := by
  unfold credit
  rw [owns_some]
  by_cases same : g = f
  · rw [if_pos same, same, update_self]
  · rw [if_neg same, update_of_ne same, Nat.add_zero]

theorem debit_apply (ledger : Nat → Nat) (f g : Nat) : debit ledger f g = ledger g - Space.owns (some f) g := by
  unfold debit
  rw [owns_some]
  by_cases same : g = f
  · rw [if_pos same, same, update_self]
  · rw [if_neg same, update_of_ne same, Nat.sub_zero]

theorem credit_rest {rest ledger : Nat → Nat} (f : Nat) :
    credit (fun g => rest g + ledger g) f = fun g => rest g + credit ledger f g := by
  funext g
  simp only [credit_apply]
  omega

theorem debit_rest {rest ledger : Nat → Nat} {f : Nat} (posted : 0 < ledger f) :
    debit (fun g => rest g + ledger g) f = fun g => rest g + debit ledger f g := by
  funext g
  simp only [debit_apply, owns_some]
  split
  next same =>
    subst same
    omega
  · omega

section
variable (above : (s.pt (page / 512)).isSome) (inside : page ∈ window)
include above inside

theorem leaves_kept (same : owner w = owner (s.pte page)) :
    (s.setPte page w).leaves = s.leaves := by
  funext g
  have sum := leaves_setPte (w := w) above inside g
  rw [same] at sum
  omega

theorem leaves_cleared (held : owner (s.pte page) = some f)
    (gone : owner w = none) : (s.setPte page w).leaves = debit s.leaves f := by
  funext g
  have sum := leaves_setPte (w := w) above inside g
  rw [held, gone, owns_none] at sum
  rw [debit_apply]
  omega

theorem leaves_placed (empty : owner (s.pte page) = none)
    (held : owner w = some f) : (s.setPte page w).leaves = credit s.leaves f := by
  funext g
  have sum := leaves_setPte (w := w) above inside g
  rwa [held, empty, owns_none, Nat.add_zero, ← credit_apply] at sum

end

theorem unmapInSpace_posted (acc : Accounts device m (fun f => rest f + s.leaves f) (fun f => base f + s.tables f))
    (tidy : Tidy mapped rest s) (inside : page ∈ window) :
    Posted device mapped rest base s (unmapInSpace m s (page * 4096)).1 (unmapInSpace m s (page * 4096)).2.1 := by
  obtain ⟨res, result⟩ := unmapInSpace_eq m s inside
  rw [result]
  cases taken : pteHasFrame (s.pte page) with
  | false => exact .refl acc tidy
  | true =>
    have above := pt_of_frame taken
    obtain ⟨tidy', others⟩ := tidy.rewrite (w := 0#64) above inside (fun f held => by rw [owner_zero] at held; exact nomatch held)
      (fun f _ held => by rw [owner_zero] at held; exact nomatch held) (fun some _ => absurd some (by decide)) (by decide)
    simp only [if_true]
    cases marked : (s.pte page).has flagDevice with
    | true =>
      refine ⟨?_, tidy', others⟩
      simp only [tables_setPte]
      rw [leaves_kept above inside (by rw [owner_zero, owner_device marked])]
      exact acc
    | false =>
      obtain ⟨f, held⟩ : ∃ f, owner (s.pte page) = some f := ⟨_, owner_some.mpr ⟨taken, marked, rfl⟩⟩
      refine ⟨?_, tidy', others⟩
      simp only [tables_setPte]
      have counted := leaf_counted inside held
      have dropped := (acc.drop (f := f) (by omega)).1
      rw [leaves_cleared above inside held owner_zero, if_neg Bool.false_ne_true, owner_phys held]
      rwa [debit_rest counted] at dropped

theorem frameShared_eq (on : m.sectioned = true) (f : Nat) : frameShared m (f * frameSize) = decide (0 < count m f) := by
  have place := frame_div f
  unfold frameShared
  rw [place]
  cases chunk : chunkAt m (f / 4096) with
  | none => rw [refSlot_none on chunk, count_none chunk rfl]; rfl
  | some p =>
    rw [refSlot_some on chunk, count_of chunk rfl]
    rfl

theorem protectInSpace_eq (m : Pmm.State) (s : Space) (inside : page ∈ window) (flags : Word) :
    ∃ res : Int, protectInSpace m s (page * 4096) flags =
      if pteHasFrame (s.pte page) && !(flags.has flagRw && !flags.has flagNoexec) then
        (m, s.setPte page (protectedPte (s.pte page) flags (frameShared m (ptePhys (s.pte page)))), 0)
      else (m, s, res) := by
  obtain ⟨aligned, place, low, _⟩ := window_virt inside
  unfold protectInSpace
  rw [if_neg (not_not.mpr aligned), if_neg low, getPtSpace_look m s inside, place]
  cases forbidden : flags.has flagRw && !flags.has flagNoexec with
  | true => exact ⟨-5, by rw [Bool.not_true, Bool.and_false]; rfl⟩
  | false =>
    refine ⟨-3, ?_⟩
    rw [Bool.not_false, Bool.and_true]
    cases table : s.pt (page / 512) with
    | none =>
      have zero := s.pte_below page table
      rw [zero]
      rfl
    | some _ => cases taken : pteHasFrame (s.pte page) <;> simp [taken]

/-- The flags a caller may ask for: no frame address and no device bit. -/
def Plain (flags : Word) : Prop := flags &&& (addressMask ||| flagDevice) = 0#64

instance (flags : Word) : Decidable (Plain flags) := inferInstanceAs (Decidable (_ = _))

variable {flags : Word}

theorem Plain.bits (plain : Plain flags) : Bare flags ∧ flags.getLsbD 11 = false := by
  have clear : ∀ i, (addressMask ||| flagDevice).getLsbD i = true → flags.getLsbD i = false := by
    intro i reserved
    have bit : (flags &&& (addressMask ||| flagDevice)).getLsbD i = false := by
      rw [plain, getLsbD_zero]
    rwa [getLsbD_and, reserved, Bool.and_true] at bit
  refine ⟨?_, clear 11 (by decide)⟩
  intro i low high
  apply clear
  rw [getLsbD_or, mask_bit (by omega), decide_eq_true ⟨low, high⟩, Bool.true_or]

theorem protected_kept (old : Word) (shared : Bool) (plain : Plain flags) :
    pteHasFrame (protectedPte old flags shared) = true ∧
      (protectedPte old flags shared).has flagDevice = old.has flagDevice ∧
      (old.has flagDevice = true → (protectedPte old flags shared).has flagCow = false) ∧
      (writable (protectedPte old flags shared) = true → shared = false) ∧ Shaped (protectedPte old flags shared) := by
  obtain ⟨bare, ordinary⟩ := plain.bits
  unfold writable Shaped
  rw [pteHasFrame_eq, has_device, has_device, has_cow, has_present, has_rw]
  simp only [protected_leaf old flags shared (i := 0) (by decide),
    protected_leaf old flags shared (i := 1) (by decide),
    protected_leaf old flags shared (i := 7) (by decide),
    protected_leaf old flags shared (i := 9) (by decide),
    protected_leaf old flags shared (i := 10) (by decide),
    protected_leaf old flags shared (i := 11) (by decide), ordinary]
  cases old.getLsbD 11 <;> cases flags.getLsbD 10 <;> cases old.getLsbD 9 <;> cases shared <;> simp

theorem owner_protected {old : Word} (shared : Bool) (plain : Plain flags) (taken : pteHasFrame old = true) :
    owner (protectedPte old flags shared) = owner old := by
  obtain ⟨still, kind, _, _, _⟩ := protected_kept old shared plain
  unfold owner
  rw [still, kind, taken, protected_phys old plain.bits.1 shared]

theorem protectInSpace_posted (acc : Accounts device m (fun f => rest f + s.leaves f) (fun f => base f + s.tables f))
    (tidy : Tidy mapped rest s) (inside : page ∈ window) (plain : Plain flags) :
    Posted device mapped rest base s (protectInSpace m s (page * 4096) flags).1 (protectInSpace m s (page * 4096) flags).2.1 := by
  obtain ⟨res, result⟩ := protectInSpace_eq m s inside flags
  rw [result]
  split
  next change =>
    rw [Bool.and_eq_true] at change
    have taken := change.1
    have above := pt_of_frame taken
    have same := owner_protected (frameShared m (ptePhys (s.pte page))) plain taken
    obtain ⟨_, kind, uncopied, unshared, shape⟩ := protected_kept (s.pte page) (frameShared m (ptePhys (s.pte page))) plain
    have equal := leaves_kept above inside same
    obtain ⟨tidy', others⟩ := tidy.rewrite above inside (fun f held => .inr (same.symm.trans held))
      (by
        intro f writes held
        rw [equal]
        have old := same.symm.trans held
        have single := unshared writes
        rw [owner_phys old, frameShared_eq acc.on, decide_eq_false_iff_not] at single
        have counted := leaf_counted inside old
        rcases acc.counts f with sticky | counts
        · omega
        · omega)
      (by
        intro _ marked
        rw [kind] at marked
        refine ⟨uncopied marked, ?_⟩
        rw [protected_phys _ plain.bits.1]
        exact (tidy.plain page inside taken marked).2)
      shape
    refine ⟨?_, tidy', others⟩
    simp only [tables_setPte, equal]
    exact acc
  · exact .refl acc tidy

inductive Copying (m : Pmm.State) (s : Space) (page : Nat) (region : Option Word) : Pmm.State × Space × Int → Prop
  | refused {m' : Pmm.State} (same : m' = m ∨ (allocFrame m).2 = 0 ∧ m' = (allocFrame m).1) : Copying m s page region (m', s, -1)
  | copied {m' : Pmm.State} {nf : Nat} (inside : page ∈ window) (present : (s.pte page).has flagPresent = true)
      (cow : (s.pte page).has flagCow = true)
      (allowed : ∃ flags, region = some flags ∧ flags.has flagRw = true ∧ flags.has flagProtnone = false)
      (fresh : allocFrame m = (m', nf)) (found : nf ≠ 0) :
      Copying m s page region
        (dropFrame { m' with mem := update m'.mem (nf / frameSize) (m'.mem (ptePhys (s.pte page) / frameSize)) }
            (ptePhys (s.pte page)),
          s.setPte page ((physWord nf &&& addressMask) ||| ((s.pte page &&& ~~~addressMask &&& ~~~flagCow) ||| flagRw)), 0)

theorem cowFault_copying (m : Pmm.State) (s : Space) (addr : Nat) (region : Option Word) :
    Copying m s (addr / 4096) region (cowFault m s addr region) := by
  unfold cowFault
  split
  · exact .refused (.inl rfl)
  next bounds =>
    have inside : addr / 4096 ∈ window := by
      unfold userCodeBase userStackTop at bounds
      exact mem_window.mpr ⟨by omega, by omega⟩
    simp only
    rw [getPtSpace_look m s inside]
    cases table : (s.pt (addr / 4096 / 512)).isSome with
    | false => exact .refused (.inl rfl)
    | true =>
      simp only
      split
      · exact .refused (.inl rfl)
      next present =>
        rw [Bool.not_eq_true, Bool.or_eq_false_iff, Bool.not_eq_false', Bool.not_eq_false'] at present
        cases region with
        | none => exact .refused (.inl rfl)
        | some flags =>
          simp only
          split
          · exact .refused (.inl rfl)
          next allowed =>
            rw [Bool.not_eq_true, Bool.or_eq_false_iff, Bool.not_eq_false'] at allowed
            cases fresh : allocFrame m with
            | mk m' nf =>
              simp only
              split
              next zero => exact .refused (.inr ⟨by rw [fresh]; exact zero, by rw [fresh]⟩)
              next found => exact .copied inside present.1 present.2 ⟨flags, rfl, allowed⟩ fresh found

theorem copied_kept {pte : Word} (small : f < 2 ^ 40) (present : pte.has flagPresent = true) (ordinary : pte.has flagDevice = false)
    (shaped : Shaped pte) :
    owner ((physWord (f * frameSize) &&& addressMask) ||| ((pte &&& ~~~addressMask &&& ~~~flagCow) ||| flagRw)) = some f ∧
      ((physWord (f * frameSize) &&& addressMask) ||| ((pte &&& ~~~addressMask &&& ~~~flagCow) ||| flagRw)).has flagDevice = false ∧
      Shaped ((physWord (f * frameSize) &&& addressMask) ||| ((pte &&& ~~~addressMask &&& ~~~flagCow) ||| flagRw)) := by
  obtain ⟨phys, bits⟩ := copied_leaf pte small
  have place : f * 4096 / frameSize = f := Nat.mul_div_cancel _ (by decide)
  unfold frameSize
  rw [has_device] at ordinary ⊢
  rw [has_present] at present
  unfold Shaped at shaped ⊢
  rw [owner_some, pteHasFrame_eq, has_device, bits 0 (by decide), bits 7 (by decide),
    bits 10 (by decide), bits 11 (by decide), phys, present, ordinary, shaped.1, shaped.2 present]
  exact ⟨⟨rfl, rfl, place⟩, rfl, rfl, fun _ => rfl⟩

theorem cowFault_posted (acc : Accounts device m (fun f => rest f + s.leaves f) (fun f => base f + s.tables f))
    (tidy : Tidy mapped rest s) (addr : Nat) (region : Option Word) :
    Posted device mapped rest base s (cowFault m s addr region).1 (cowFault m s addr region).2.1 := by
  have outcome := cowFault_copying m s addr region
  generalize addr / 4096 = page at outcome
  generalize cowFault m s addr region = result at outcome
  rcases acc.alloc with ⟨nothing, _⟩ | ⟨g, m1, found, nonzero, small, takes, acc1, loose⟩
  · cases outcome with
    | refused same =>
      rw [nothing] at same
      obtain rfl : _ = m := same.elim id (fun both => both.2)
      exact .refl acc tidy
    | copied _ _ _ _ fresh success =>
      rw [nothing] at fresh
      exact absurd (congrArg (·.2) fresh).symm success
  · cases outcome with
    | refused same =>
      rw [found] at same
      obtain rfl : _ = m := same.elim id (fun both => absurd both.1 nonzero)
      exact .refl acc tidy
    | copied inside present cow _ fresh _ =>
      rw [found] at fresh
      obtain ⟨rfl, rfl⟩ := Prod.mk.inj fresh
      have taken : pteHasFrame (s.pte page) = true := by
        rw [pteHasFrame_eq, ← has_present, present, Bool.true_or]
      have ordinary : (s.pte page).has flagDevice = false := by
        cases marked : (s.pte page).has flagDevice with
        | false => rfl
        | true =>
          have uncopied := (tidy.plain page inside taken marked).1
          rw [cow] at uncopied
          exact nomatch uncopied
      obtain ⟨f, held⟩ : ∃ f, owner (s.pte page) = some f := ⟨_, owner_some.mpr ⟨taken, ordinary, rfl⟩⟩
      have above := pt_of_frame taken
      obtain ⟨new, kind, shape⟩ := copied_kept small present ordinary (tidy.shaped page inside)
      have place := frame_div g
      have unposted := loose.unposted.1
      rw [owner_phys held, place]
      generalize (physWord (g * frameSize) &&& addressMask) ||| ((s.pte page &&& ~~~addressMask &&& ~~~flagCow) ||| flagRw) = w at *
      have ledger : (fun h => rest h + (s.setPte page w).leaves h) = debit (credit (fun h => rest h + s.leaves h) g) f := by
        funext h
        have sum := leaves_setPte (w := w) above inside h
        rw [held, new] at sum
        rw [debit_apply, credit_apply]
        omega
      have counted := leaf_counted inside held
      obtain ⟨tidy', others⟩ := tidy.rewrite (w := w) above inside
        (fun h owned => .inl (Option.some.inj (new.symm.trans owned) ▸ unposted))
        (by
          intro h _ owned
          obtain rfl := Option.some.inj (new.symm.trans owned)
          have sum := leaves_setPte (w := w) above inside g
          rw [held, new, owns_self, owns_some] at sum
          split at sum
          next same => rw [same] at unposted; omega
          · omega)
        (fun _ marked => by rw [kind] at marked; exact nomatch marked) shape
      refine ⟨?_, tidy', others⟩
      simp only [tables_setPte]
      rw [ledger]
      refine (((acc1.postLeaf loose).write loose.idle _).drop (f := f) ?_).1
      rw [credit_apply]
      omega

end
end SecOS.Vmm
