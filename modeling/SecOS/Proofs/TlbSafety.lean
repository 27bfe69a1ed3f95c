import SecOS.Library.Schedule
import SecOS.Proofs.TlbInvariant

/-! Completeness of the TLB shootdown over whole runs: it holds as long as no poll starts in the
middle of another one of its CPU, and one such start loses a flush. -/

namespace SecOS.Tlb
open Library

theorem booted_inv {k : Machine} : Inv k booted where
  filled := fun _ _ _ _ cached => nomatch cached
  bits := fun _ user => absurd rfl user
  code := fun _ => trivial
  up := fun _ up => nomatch up
  poll := fun _ _ => trivial
  single := fun _ _ _ busy => nomatch busy
  deep := fun _ _ _ => rfl

/-- On any number of CPUs and in every interleaving in which no poll starts between the test and
the clear of another one of its CPU: when a shootdown has returned, no CPU holds a translation of
its pages that was read before the call, hence before the store that preceded it. -/
theorem shootdown_complete (k : Machine) (schedule : List Action) (s : State)
    (quiet : Along (step k) (Unnested k) booted schedule) (ran : schedule.foldlM (step k) booted = some s) (c : Nat) (call : Call)
    (returned : s.pc c = .returned call) (d page v : Nat) (covered : call.request.Covers page)
    (cached : s.tlb d call.request.pml4 page = some v) : call.since page ≤ v := by
  have inv : Inv k s := run_keeps (fun _ _ _ held quiet taken => step_inv held quiet taken) booted_inv quiet ran
  have ok := inv.code c
  rw [returned] at ok
  exact ok.2 d page v covered cached

private def Pc.finished : Pc → Option Call
  | .returned call => some call
  | _ => none

private theorem returned_of_finished {pc : Pc} {call : Call} (found : pc.finished = some call) : pc = .returned call := by
  cases pc with
  | returned call' => exact congrArg Pc.returned (Option.some.inj found)
  | _ => exact nomatch found

def threeCpus : Machine := ⟨3, 2, fun _ => true⟩

def loaded : List Action := .switchSpace 1 1 :: List.replicate 3 (.code 1) ++ [.fill 1 1 5]

/-- CPU 0 changes page 5 and shoots it down; CPU 1 answers from a spin loop, in which it is
switched away and resumed, and reads the page again. -/
def answered : List Action :=
  loaded ++ [.store 1 5, .shootdown 0 1 0x5000 1] ++ List.replicate 8 (.code 0) ++ List.replicate 3 (.poll 1 0) ++
    [.preempt 1 1, .preempt 1 1] ++ List.replicate 3 (.poll 1 0) ++ List.replicate 6 (.code 0) ++ [.fill 1 1 5]

theorem answered_shootdown : ∃ s call, answered.foldlM (step threeCpus) booted = some s ∧ s.pc 0 = .returned call ∧
    s.tlb 1 1 5 = some 1 ∧ call.since 5 ≤ 1 := by
  have outcome : ((answered.foldlM (step threeCpus) booted).bind fun s => (s.pc 0).finished.map fun call =>
      (call.request, s.tlb 1 1 5)) = some (⟨false, 1, 5, 1⟩, some 1) := by decide +kernel
  obtain ⟨s, ran, outcome⟩ := Option.bind_eq_some_iff.mp outcome
  obtain ⟨call, found, outcome⟩ := Option.map_eq_some_iff.mp outcome
  obtain ⟨request, cached⟩ := Prod.mk.inj outcome
  refine ⟨s, call, ran, returned_of_finished found, cached, ?_⟩
  refine shootdown_complete threeCpus answered s (along_of_check (by decide +kernel)) ran 0 call (returned_of_finished found) 1 5 1 ?_ ?_
  · rw [request]
    exact .inr (by decide)
  · rw [request]
    exact cached

/-- CPU 1 is interrupted between the flush and the clear of its poll for CPU 0. The handler, that of
the shootdown or any other one that waits for a lock, answers, CPU 2 raises the flag for its own
request, and the clear of the first poll takes that flag down unanswered. -/
def raced : List Action :=
  loaded ++ [.store 1 7, .shootdown 0 1 0x7000 1] ++ List.replicate 8 (.code 0) ++ List.replicate 5 (.poll 1 0) ++
    List.replicate 6 (.poll 1 1) ++ List.replicate 7 (.code 0) ++ [.store 1 5, .shootdown 2 1 0x5000 1] ++
    List.replicate 8 (.code 2) ++ [.poll 1 0] ++ List.replicate 6 (.code 2)

theorem flush_lost_to_nested_poll : ∃ s call, raced.foldlM (step threeCpus) booted = some s ∧ s.pc 2 = .returned call ∧
    call.request.Covers 5 ∧ s.tlb 1 call.request.pml4 5 = some 0 ∧ ¬call.since 5 ≤ 0 := by
  have outcome : ((raced.foldlM (step threeCpus) booted).bind fun s => (s.pc 2).finished.map fun call =>
      (call.request, s.tlb 1 1 5, call.since 5)) = some (⟨false, 1, 5, 1⟩, some 0, 1) := by decide +kernel
  obtain ⟨s, ran, outcome⟩ := Option.bind_eq_some_iff.mp outcome
  obtain ⟨call, found, outcome⟩ := Option.map_eq_some_iff.mp outcome
  simp only [Prod.mk.injEq] at outcome
  obtain ⟨request, cached, since⟩ := outcome
  refine ⟨s, call, ran, returned_of_finished found, ?_, ?_, ?_⟩
  · rw [request]
    exact .inr (by decide)
  · rw [request]
    exact cached
  · rw [since]
    decide

end SecOS.Tlb
