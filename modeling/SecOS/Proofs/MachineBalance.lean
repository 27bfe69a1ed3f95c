import SecOS.Machine
import SecOS.Proofs.Faults
import SecOS.Proofs.Fork
import SecOS.Proofs.PmmRun

/-! The books of the machine. Every operation of address spaces, page cache and kernel leaves
each frame with as many references as its count says. -/

namespace SecOS.Machine
open Library Pmm Vmm PageCache List

/-- The leaves, over all live spaces, that hold a frame, and the tables that are in it. -/
def leavesOf (spaces : List Space) (f : Nat) : Nat := (spaces.map fun s => s.leaves f).sum
def tablesOf (spaces : List Space) (f : Nat) : Nat := (spaces.map fun s => s.tables f).sum
def heldBy (kernel : List Nat) (f : Nat) : Nat := (kernel.map fun g => Space.owns (some g) f).sum

structure Balanced (device : Nat → Prop) (w : World) : Prop where
  acc : Accounts device w.pmm (leavesOf w.spaces) (fun f => heldBy w.kernel f + cached w.cache f + tablesOf w.spaces f)
  aligned : Aligned w.cache
  alone : ∀ s ∈ w.spaces, ∀ page ∈ window, ∀ f, writable (s.pte page) = true → owner (s.pte page) = some f → leavesOf w.spaces f = 1
  plain : ∀ s ∈ w.spaces, ∀ page ∈ window, pteHasFrame (s.pte page) = true → (s.pte page).has flagDevice = true →
    (s.pte page).has flagCow = false ∧ device (ptePhys (s.pte page) / frameSize)
  shaped : ∀ s ∈ w.spaces, ∀ page ∈ window, Shaped (s.pte page)

/-- What the callers of the address-space layer promise: pages of the user window, flags
without an address or the device bit, and device regions over device memory. -/
def Legal (device : Nat → Prop) : Op → Prop
  | .faultIn _ _ v addr => addr / 4096 ∈ window ∧
      (v.type = .phys → device (ptePhys (physWord ((v.physBase + (addr / 4096 * 4096 - v.start)) % 2 ^ 64)) / frameSize))
  | .protect _ virt flags => virt / 4096 ∈ window ∧ Plain flags
  | .unmap _ virt => virt / 4096 ∈ window
  | .store _ addr _ => addr / 4096 ∈ window
  | _ => True

section
variable {device : Nat → Prop} {m m' : Pmm.State} {c c' : Cache} {spaces pre post : List Space} {kernel : List Nat} {s s' : Space} {i : Nat}

theorem leavesOf_cons (s : Space) (f : Nat) : leavesOf (pre ++ s :: post) f = leavesOf (pre ++ post) f + s.leaves f := by
  unfold leavesOf
  rw [sum_middle]

theorem tablesOf_cons (s : Space) (f : Nat) : tablesOf (pre ++ s :: post) f = tablesOf (pre ++ post) f + s.tables f := by
  unfold tablesOf
  rw [sum_middle]

theorem leavesOf_snoc (s : Space) (f : Nat) : leavesOf (spaces ++ [s]) f = leavesOf spaces f + s.leaves f := by
  unfold leavesOf
  rw [sum_snoc]

theorem tablesOf_snoc (s : Space) (f : Nat) : tablesOf (spaces ++ [s]) f = tablesOf spaces f + s.tables f := by
  unfold tablesOf
  rw [sum_snoc]

theorem leaves_le {t : Space} (member : t ∈ spaces) (f : Nat) : t.leaves f ≤ leavesOf spaces f :=
  le_sum_of_mem (mem_map_of_mem member)

theorem split_at (found : spaces[i]? = some s) : ∃ pre post, spaces = pre ++ s :: post ∧ i = pre.length := by
  obtain ⟨inside, same⟩ := List.getElem?_eq_some_iff.mp found
  refine ⟨spaces.take i, spaces.drop (i + 1), ?_, ?_⟩
  · rw [← same, getElem_cons_drop, take_append_drop]
  · rw [length_take, Nat.min_eq_left (Nat.le_of_lt inside)]

theorem set_at (pre post : List Space) (s s' : Space) : (pre ++ s :: post).set pre.length s' = pre ++ s' :: post := by
  rw [set_append_right _ _ le_rfl, Nat.sub_self, set_cons_zero]

theorem erase_at (pre post : List Space) (s : Space) : (pre ++ s :: post).eraseIdx pre.length = pre ++ post := by
  rw [eraseIdx_append_of_length_le le_rfl, Nat.sub_self, eraseIdx_cons_zero]

theorem Balanced.view (balanced : Balanced device ⟨m, c, pre ++ s :: post, kernel⟩) :
    Accounts device m (fun f => leavesOf (pre ++ post) f + s.leaves f)
        (fun f => heldBy kernel f + tablesOf (pre ++ post) f + cached c f + s.tables f) ∧
      Tidy device (leavesOf (pre ++ post)) s := by
  have member : s ∈ pre ++ s :: post := mem_append_cons_self
  refine ⟨?_, ⟨?_, balanced.plain s member, balanced.shaped s member⟩⟩
  · have acc := balanced.acc
    simp only at acc
    rwa [show leavesOf (pre ++ s :: post) = fun f => leavesOf (pre ++ post) f + s.leaves f from funext (leavesOf_cons s),
      show (fun f => heldBy kernel f + cached c f + tablesOf (pre ++ s :: post) f) =
        fun f => heldBy kernel f + tablesOf (pre ++ post) f + cached c f + s.tables f from funext fun f => by
          rw [tablesOf_cons]; omega] at acc
  · intro page inside f writes held
    rw [← leavesOf_cons]
    exact balanced.alone s member page inside f writes held

theorem Balanced.replace (balanced : Balanced device ⟨m, c, pre ++ s :: post, kernel⟩) (aligned : Aligned c')
    (posted : Posted device device (leavesOf (pre ++ post)) (fun f => heldBy kernel f + tablesOf (pre ++ post) f + cached c' f) s m' s') :
    Balanced device ⟨m', c', pre ++ s' :: post, kernel⟩ := by
  have elsewhere : ∀ t ∈ pre ++ s' :: post, t = s' ∨ (t ∈ pre ++ post ∧ t ∈ pre ++ s :: post) := by
    intro t member
    rcases mem_append.mp member with before | rest
    · exact .inr ⟨mem_append_left _ before, mem_append_left _ before⟩
    · rcases mem_cons.mp rest with here | after
      · exact .inl here
      · exact .inr ⟨mem_append_right _ after, mem_append_right _ (mem_cons_of_mem _ after)⟩
  refine ⟨?_, aligned, ?_, ?_, ?_⟩
  · have acc := posted.acc
    simp only
    rwa [show leavesOf (pre ++ s' :: post) = fun f => leavesOf (pre ++ post) f + s'.leaves f from funext (leavesOf_cons s'),
      show (fun f => heldBy kernel f + cached c' f + tablesOf (pre ++ s' :: post) f) =
        fun f => heldBy kernel f + tablesOf (pre ++ post) f + cached c' f + s'.tables f from funext fun f => by
          rw [tablesOf_cons]; omega]
  · intro t member page inside f writes held
    simp only [leavesOf_cons]
    rcases elsewhere t member with rfl | ⟨other, was⟩
    · exact posted.tidy.alone page inside f writes held
    · have one := balanced.alone t was page inside f writes held
      have counted := leaf_counted inside held
      have bound := leaves_le other f
      simp only [leavesOf_cons] at one
      have gone := posted.others f (by omega) one
      omega
  · intro t member
    rcases elsewhere t member with rfl | ⟨_, was⟩
    · exact posted.tidy.plain
    · exact balanced.plain t was
  · intro t member
    rcases elsewhere t member with rfl | ⟨_, was⟩
    · exact posted.tidy.shaped
    · exact balanced.shaped t was

variable {w : World}

theorem Balanced.onSpace (balanced : Balanced device w) {operation : Pmm.State → Space → Pmm.State × Space × Int}
    (posts : ∀ {m : Pmm.State} {s : Space} {rest base : Nat → Nat},
      Accounts device m (fun f => rest f + s.leaves f) (fun f => base f + s.tables f) → Tidy device rest s →
        Posted device device rest base s (operation m s).1 (operation m s).2.1) : Balanced device (onSpace w i operation) := by
  unfold Machine.onSpace
  cases found : w.spaces[i]? with
  | none => exact balanced
  | some s =>
    obtain ⟨m, c, spaces, kernel⟩ := w
    obtain ⟨pre, post, rfl, rfl⟩ := split_at found
    obtain ⟨acc, tidy⟩ := balanced.view
    simp only [set_at]
    exact balanced.replace balanced.aligned (posts acc tidy)

theorem unmap_posted {virt : Nat} {rest base : Nat → Nat} (inside : virt / 4096 ∈ window)
    (acc : Accounts device m (fun f => rest f + s.leaves f) (fun f => base f + s.tables f)) (tidy : Tidy device rest s) :
    Posted device device rest base s (unmapInSpace m s virt).1 (unmapInSpace m s virt).2.1 := by
  by_cases page : virt % 4096 = 0
  · rw [show virt = virt / 4096 * 4096 by omega]
    exact unmapInSpace_posted acc tidy inside
  · unfold unmapInSpace
    rw [if_pos page]
    exact .refl acc tidy

theorem protect_posted {virt : Nat} {rest base : Nat → Nat} {flags : Word} (inside : virt / 4096 ∈ window) (plain : Plain flags)
    (acc : Accounts device m (fun f => rest f + s.leaves f) (fun f => base f + s.tables f)) (tidy : Tidy device rest s) :
    Posted device device rest base s (protectInSpace m s virt flags).1 (protectInSpace m s virt flags).2.1 := by
  by_cases page : virt % 4096 = 0
  · rw [show virt = virt / 4096 * 4096 by omega]
    exact protectInSpace_posted acc tidy inside plain
  · unfold protectInSpace
    rw [if_pos page]
    exact .refl acc tidy

theorem Balanced.faultIn (balanced : Balanced device w) {env : Vma.Env} {v : Vma} {addr : Nat}
    (legal : Legal device (.faultIn i env v addr)) : Balanced device (step w (.faultIn i env v addr)) := by
  simp only [step]
  cases found : w.spaces[i]? with
  | none => exact balanced
  | some s =>
    obtain ⟨m, c, spaces, kernel⟩ := w
    obtain ⟨pre, post, rfl, rfl⟩ := split_at found
    obtain ⟨acc, tidy⟩ := balanced.view
    obtain ⟨posted, aligned⟩ := Vma.faultIn_posted acc tidy balanced.aligned env v legal.1 legal.2
    simp only [set_at]
    exact balanced.replace aligned posted

theorem Balanced.withPmm (balanced : Balanced device ⟨m, c, spaces, kernel⟩)
    (acc : Accounts device m' (leavesOf spaces) (fun f => heldBy kernel f + cached c f + tablesOf spaces f)) :
    Balanced device ⟨m', c, spaces, kernel⟩ :=
  ⟨acc, balanced.aligned, balanced.alone, balanced.plain, balanced.shaped⟩

theorem Balanced.store (balanced : Balanced device w) (addr : Nat) (value : UInt8) (inside : addr / 4096 ∈ window) :
    Balanced device (step w (.store i addr value)) := by
  simp only [step]
  cases found : w.spaces[i]? with
  | none => exact balanced
  | some s =>
    obtain ⟨m, c, spaces, kernel⟩ := w
    refine balanced.withPmm ?_
    unfold Machine.store
    simp only
    split
    next writes =>
      rw [Bool.and_eq_true, Bool.and_eq_true] at writes
      have held : owner (s.pte (addr / 4096)) = some (ptePhys (s.pte (addr / 4096)) / frameSize) := by
        refine owner_some.mpr ⟨?_, Bool.not_eq_true' _ ▸ writes.2, rfl⟩
        rw [pteHasFrame_eq, ← has_present, writes.1.1, Bool.true_or]
      have counted := leaf_counted inside held
      have total : s.leaves _ ≤ leavesOf spaces (ptePhys (s.pte (addr / 4096)) / frameSize) := leaves_le (mem_of_getElem? found) _
      exact balanced.acc.write (balanced.acc.held (by simp only; omega)).2 _
    · exact balanced.acc

private theorem Balanced.join {st : ForkState} (balanced : Balanced device ⟨m, c, pre ++ s :: post, kernel⟩)
    (tidy : Tidy device (leavesOf (pre ++ post)) s)
    (walking : Walking device m (fun f => leavesOf (pre ++ post) f + s.leaves f)
      (fun f => heldBy kernel f + tablesOf (pre ++ post) f + cached c f + s.tables f) s st (16 * 2 ^ 18)) :
    Balanced device ⟨st.pmm, c, (pre ++ s :: post).set pre.length st.parent ++ [st.child], kernel⟩ := by
  obtain ⟨leaves, tables⟩ := walking.parent_kept
  have total : ∀ f, leavesOf (pre ++ st.parent :: post ++ [st.child]) f = leavesOf (pre ++ post) f + s.leaves f + st.child.leaves f := by
    intro f
    rw [leavesOf_snoc, leavesOf_cons, leaves]
  have frames : ∀ f, tablesOf (pre ++ st.parent :: post ++ [st.child]) f = tablesOf (pre ++ post) f + s.tables f + st.child.tables f := by
    intro f
    rw [tablesOf_snoc, tablesOf_cons, tables]
  have members : ∀ t ∈ pre ++ st.parent :: post ++ [st.child], t = st.parent ∨ t = st.child ∨ (t ∈ pre ++ post ∧ t ∈ pre ++ s :: post) := by
    intro t member
    simp only [mem_append, mem_cons, not_mem_nil, or_false] at member ⊢
    tauto
  rw [set_at]
  refine ⟨?_, balanced.aligned, ?_, ?_, ?_⟩
  · have acc := walking.loan.acc
    beta_reduce at acc
    simp only
    rwa [funext total, show (fun f => heldBy kernel f + cached c f + tablesOf (pre ++ st.parent :: post ++ [st.child]) f) =
      fun f => heldBy kernel f + tablesOf (pre ++ post) f + cached c f + s.tables f + st.child.tables f from funext fun f => by
        rw [frames]; omega]
  · intro t member page inside f writes held
    rcases members t member with rfl | rfl | ⟨other, was⟩
    · rw [walking.parent_reads inside] at writes
      exact nomatch writes
    · rw [(walking.child_tidy tidy page inside).1] at writes
      exact nomatch writes
    · have one := balanced.alone t was page inside f writes held
      have counted := leaf_counted inside held
      have bound := leaves_le other f
      have child := walking.child_le f
      simp only [leavesOf_cons] at one
      simp only [total]
      omega
  · intro t member
    rcases members t member with rfl | rfl | ⟨_, was⟩
    · exact (walking.parent_tidy tidy).plain
    · exact fun page inside => (walking.child_tidy tidy page inside).2.1
    · exact balanced.plain t was
  · intro t member
    rcases members t member with rfl | rfl | ⟨_, was⟩
    · exact (walking.parent_tidy tidy).shaped
    · exact fun page inside => (walking.child_tidy tidy page inside).2.2
    · exact balanced.shaped t was

section
variable (balanced : Balanced device w)
include balanced

theorem Balanced.fork (heapOk : Bool) : Balanced device (step w (.fork i heapOk)) := by
  simp only [step]
  cases found : w.spaces[i]? with
  | none => exact balanced
  | some s =>
    obtain ⟨m, c, spaces, kernel⟩ := w
    obtain ⟨pre, post, rfl, rfl⟩ := split_at found
    obtain ⟨acc, tidy⟩ := balanced.view
    have outcome := forkSpace_ends acc (fun f => Nat.le_add_left _ _) tidy.shaped heapOk
    have unmoved : ∀ {m' : Pmm.State}, Accounts device m' (fun f => leavesOf (pre ++ post) f + s.leaves f)
        (fun f => heldBy kernel f + tablesOf (pre ++ post) f + cached c f + s.tables f) →
        Balanced device ⟨m', c, (pre ++ s :: post).set pre.length s, kernel⟩ := by
      intro m' acc'
      rw [set_at]
      exact balanced.replace balanced.aligned (.refl acc' tidy)
    simp only
    generalize forkSpace m s heapOk = result at outcome
    cases outcome with
    | refused _ loan => exact unmoved loan.settled
    | lost _ _ acc' => exact unmoved acc'
    | aborted _ _ walking loan =>
      simp only [set_at]
      refine balanced.replace balanced.aligned ⟨?_, walking.parent_tidy tidy, fun f _ _ => ?_⟩
      · rw [walking.parent_kept.1, walking.parent_kept.2]
        exact loan.settled
      · rw [walking.parent_kept.1]
        omega
    | forked _ _ walking => exact balanced.join tidy walking

theorem Balanced.create (heapOk : Bool) : Balanced device (step w (.create heapOk)) := by
  obtain ⟨m, c, spaces, kernel⟩ := w
  have outcome := spaceCreateUser_created balanced.acc heapOk
  simp only [step]
  simp only at outcome
  generalize spaceCreateUser m heapOk = result at outcome
  cases outcome with
  | refused loan => exact balanced.withPmm loan.settled
  | lost _ acc => exact balanced.withPmm acc
  | made pml4 pdpt _ loan =>
    have acc := loan.acc
    have leaves : leavesOf (spaces ++ [emptySpace pml4 pdpt]) = fun f => leavesOf spaces f + (emptySpace pml4 pdpt).leaves f :=
      funext (leavesOf_snoc _)
    have tables : (fun f => heldBy kernel f + cached c f + tablesOf (spaces ++ [emptySpace pml4 pdpt]) f) =
        fun f => heldBy kernel f + cached c f + tablesOf spaces f + (emptySpace pml4 pdpt).tables f := by
      funext f
      rw [tablesOf_snoc, ← Nat.add_assoc]
    have members : ∀ t ∈ spaces ++ [emptySpace pml4 pdpt], t ∈ spaces ∨ ∀ page, t.pte page = 0#64 := by
      intro t member
      rcases mem_append.mp member with old | new
      · exact .inl old
      · rw [mem_singleton.mp new]
        exact .inr fun _ => rfl
    refine ⟨?_, balanced.aligned, ?_, ?_, ?_⟩
    · simp only
      rw [leaves, tables]
      exact acc
    · intro t member page inside f writes held
      rcases members t member with old | empty
      · simp only [leaves, emptySpace_leaves, Nat.add_zero]
        exact balanced.alone t old page inside f writes held
      · rw [empty] at writes
        exact absurd writes (by decide)
    · intro t member page inside taken
      rcases members t member with old | empty
      · exact balanced.plain t old page inside taken
      · rw [empty] at taken
        exact absurd taken (by decide)
    · intro t member page inside
      rcases members t member with old | empty
      · exact balanced.shaped t old page inside
      · rw [empty]
        decide

theorem Balanced.destroy : Balanced device (step w (.destroy i)) := by
  simp only [step]
  cases found : w.spaces[i]? with
  | none => exact balanced
  | some s =>
    obtain ⟨m, c, spaces, kernel⟩ := w
    obtain ⟨pre, post, rfl, rfl⟩ := split_at found
    obtain ⟨acc, tidy⟩ := balanced.view
    simp only [erase_at]
    have settled := spaceDestroy_settles (accounts_settle device (leavesOf (pre ++ post))
      (fun f => heldBy kernel f + tablesOf (pre ++ post) f + cached c f)) acc
    simp only [Nat.add_zero] at settled
    have was : ∀ t ∈ pre ++ post, t ∈ pre ++ s :: post := by
      intro t member
      rcases mem_append.mp member with before | after
      · exact mem_append_left _ before
      · exact mem_append_right _ (mem_cons_of_mem _ after)
    refine ⟨?_, balanced.aligned, ?_, fun t member => balanced.plain t (was t member), fun t member => balanced.shaped t (was t member)⟩
    · rwa [show (fun f => heldBy kernel f + tablesOf (pre ++ post) f + cached c f) =
        fun f => heldBy kernel f + cached c f + tablesOf (pre ++ post) f from funext fun f => by omega] at settled
    · intro t member page inside f writes held
      have one := balanced.alone t (was t member) page inside f writes held
      have counted := leaf_counted inside held
      have bound : t.leaves f ≤ leavesOf (pre ++ post) f := leaves_le member f
      simp only [leavesOf_cons] at one
      simp only
      omega

theorem Balanced.kernelAlloc : Balanced device (step w .kernelAlloc) := by
  obtain ⟨m, c, spaces, kernel⟩ := w
  simp only [step]
  rcases balanced.acc.alloc with ⟨nothing, _⟩ | ⟨f, m1, found, nonzero, _, _, acc1, loose⟩
  · simp only at nothing
    simp only [nothing, if_true]
    exact balanced
  · have place := frame_div f
    simp only at found
    simp only [found, nonzero, if_false, place]
    refine ⟨?_, balanced.aligned, balanced.alone, balanced.plain, balanced.shaped⟩
    have posted := acc1.postFixed loose
    simp only at posted
    rwa [show credit (fun g => heldBy kernel g + cached c g + tablesOf spaces g) f =
      fun g => heldBy (f :: kernel) g + cached c g + tablesOf spaces g from funext fun g => by
        rw [credit_apply, heldBy, heldBy, map_cons, sum_cons]
        omega] at posted

theorem Balanced.kernelFree (n : Nat) : Balanced device (step w (.kernelFree n)) := by
  simp only [step]
  cases found : w.kernel[n]? with
  | none => exact balanced
  | some f =>
    obtain ⟨m, c, spaces, kernel⟩ := w
    simp only at found ⊢
    have total : ∀ g, heldBy kernel g = heldBy (kernel.eraseIdx n) g + Space.owns (some f) g := by
      intro g
      obtain ⟨inside, same⟩ := List.getElem?_eq_some_iff.mp found
      unfold heldBy
      rw [eraseIdx_eq_take_drop_succ, ← same, ← sum_middle (fun h => Space.owns (some h) g), getElem_cons_drop,
        take_append_drop]
    refine ⟨?_, balanced.aligned, balanced.alone, balanced.plain, balanced.shaped⟩
    have freed := (balanced.acc.freeFixed (f := f) (by simp only [total f, owns_self]; omega)).1
    simp only at freed
    rwa [show debit (fun g => heldBy kernel g + cached c g + tablesOf spaces g) f =
      fun g => heldBy (kernel.eraseIdx n) g + cached c g + tablesOf spaces g from funext fun g => by
        rw [debit_apply, total]
        omega] at freed

theorem step_balanced {op : Op} (legal : Legal device op) : Balanced device (step w op) := by
  cases op with
  | create heapOk => exact balanced.create heapOk
  | faultIn i env v addr => exact balanced.faultIn legal
  | fork i heapOk => exact balanced.fork heapOk
  | cowFault i addr region => exact balanced.onSpace fun acc tidy => cowFault_posted acc tidy addr region
  | protect i virt flags => exact balanced.onSpace fun acc tidy => protect_posted legal.1 legal.2 acc tidy
  | unmap i virt => exact balanced.onSpace fun acc tidy => unmap_posted legal acc tidy
  | destroy i => exact balanced.destroy
  | store i addr value => exact balanced.store addr value legal
  | kernelAlloc => exact balanced.kernelAlloc
  | kernelFree n => exact balanced.kernelFree n

theorem run_balanced (ops : List Op) (legal : ∀ op ∈ ops, Legal device op) : Balanced device (run w ops) := by
  induction ops generalizing w with
  | nil => exact balanced
  | cons op rest ih =>
    exact ih (step_balanced balanced (legal op mem_cons_self)) (fun op member => legal op (mem_cons_of_mem _ member))

end

end
end SecOS.Machine
