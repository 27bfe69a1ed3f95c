import SecOS.Pipe
import SecOS.Library.Schedule

/-! A write to a pipe that is put to sleep and started again is exact as long as nothing else
touches the progress counter of the process or the descriptor of the write. -/

namespace SecOS.Pipes
open Library Function List

def Call.queued (c : Call) : List UInt8 := c.parts.flatten

/-- A call that has stored a prefix of its buffer, nothing of a buffer that goes in at once. -/
structure Begun (c : Call) : Prop where
  start : c.queued = c.buf.take c.queued.length
  whole : c.buf.length ≤ pipeBuf → c.parts = []

/-- The count is the number of bytes of the buffer that were stored, from the first one on,
and a buffer of at most `pipeBuf` bytes was stored in one piece or not at all. -/
structure Exact (r : Returned) : Prop where
  stored : r.call.queued = r.call.buf.take r.ret.toNat
  count : r.ret ≤ r.call.buf.length
  whole : r.call.buf.length ≤ pipeBuf → r.call.parts = [] ∨ r.call.parts = [r.call.buf]

section
variable {p p' : Pipe} {data part buf : List UInt8} {parts parts' : List (List UInt8)} {atomic : Bool} {n done done' : Nat}
  {o : Outside} {c : Call} {ended : Ended}

theorem pipeWriteMode_bytes (written : pipeWriteMode p data atomic = (p', .bytes n, part)) :
    0 < n ∧ part = data.take n ∧ n ≤ data.length ∧ (atomic = true → part = data) := by
  unfold pipeWriteMode at written
  split at written
  · cases written
  next some_data =>
    dsimp only at written
    split at written
    · cases written
    next room =>
      cases written
      have nonempty : data.length ≠ 0 := fun empty => some_data (.inl (eq_nil_of_length_eq_zero empty))
      rw [length_take]
      refine ⟨by omega, ?_, Nat.min_le_right _ _, ?_⟩
      · rw [← List.take_eq_take_iff.mpr]
        omega
      · intro one
        apply take_of_length_le
        simp only [one, true_and, not_or] at room
        exact Nat.le_of_not_lt room.2

/-- How far a call can get: what is stored is the buffer up to `done`, and a small buffer is
stored at once. -/
structure Stored (buf : List UInt8) (parts : List (List UInt8)) (done : Nat) : Prop where
  prefixed : parts.flatten = buf.take done
  inside : done ≤ buf.length
  whole : buf.length ≤ pipeBuf → (parts = [] ∧ done = 0) ∨ (parts = [buf] ∧ done = buf.length)

theorem Stored.length (stored : Stored buf parts done) : parts.flatten.length = done := by
  rw [stored.prefixed, length_take]
  exact Nat.min_eq_left stored.inside

theorem Stored.more (stored : Stored buf parts done) (short : done < buf.length)
    (written : pipeWriteMode p ((buf.drop done).take pipeBuf) (buf.length ≤ pipeBuf) = (p', .bytes n, part)) :
    Stored buf (parts ++ [part]) (done + n) := by
  obtain ⟨positive, taken, fits, all⟩ := pipeWriteMode_bytes written
  rw [length_take, length_drop] at fits
  refine ⟨?_, by omega, ?_⟩
  · rw [flatten_append, stored.prefixed, taken, flatten_singleton, take_take, Nat.min_eq_left (by omega), ← take_add]
  · intro small
    obtain ⟨rfl, rfl⟩ | ⟨_, rfl⟩ := stored.whole small
    · right
      have everything : part = buf := by
        rw [all (by simpa using small), drop_zero]
        exact take_of_length_le small
      refine ⟨by rw [everything]; rfl, ?_⟩
      have size := congrArg List.length everything
      rw [taken, length_take, length_take, length_drop] at size
      omega
    · omega

theorem writeLoop_stored (rounds : Nat) (stored : Stored c.buf parts done)
    (ran : writeLoop o c rounds p done parts = (p', done', parts', ended)) :
    Stored c.buf parts' done' ∧ (ended = .wouldBlock → done' < c.buf.length) ∧ ∀ e, ended = .failed e → e < 0 := by
  induction rounds generalizing p done parts with
  | zero =>
    cases ran
    exact ⟨stored, nofun, nofun⟩
  | succ rounds ih =>
    unfold writeLoop at ran
    split at ran
    · cases ran
      exact ⟨stored, nofun, nofun⟩
    split at ran
    · cases ran
      refine ⟨stored, nofun, ?_⟩
      rintro e ⟨⟩
      decide
    · split at ran
      · cases ran
        exact ⟨stored, fun _ => by omega, nofun⟩
      · cases ran
        refine ⟨stored, nofun, ?_⟩
        rintro e ⟨⟩
        decide
      next written =>
        exact ih (stored.more (by omega) written) ran

theorem Begun.stored (begun : Begun c) : Stored c.buf c.parts c.queued.length := by
  refine ⟨begun.start, ?_, ?_⟩
  · have size := congrArg List.length begun.start
    rw [length_take] at size
    omega
  · intro small
    have none_yet := begun.whole small
    left
    exact ⟨none_yet, by rw [Call.queued, none_yet]; rfl⟩

theorem Stored.exact {r : Int} (stored : Stored c.buf parts done) (counted : r = done ∨ (done = 0 ∧ r < 0)) :
    Exact ⟨{ c with parts := parts }, r⟩ := by
  have inside := stored.inside
  refine ⟨?_, ?_, ?_⟩
  · change parts.flatten = c.buf.take r.toNat
    rw [stored.prefixed]
    congr 1
    omega
  · change r ≤ (c.buf.length : Int)
    omega
  · intro small
    obtain ⟨none_yet, _⟩ | ⟨all, _⟩ := stored.whole small
    · exact .inl none_yet
    · exact .inr all

theorem Stored.begun (stored : Stored c.buf parts done) (short : done < c.buf.length) : Begun { c with parts := parts } := by
  refine ⟨?_, ?_⟩
  · change parts.flatten = c.buf.take parts.flatten.length
    rw [stored.length]
    exact stored.prefixed
  · intro small
    obtain ⟨none_yet, _⟩ | ⟨_, all⟩ := stored.whole small
    · exact none_yet
    · exact absurd all (Nat.ne_of_lt short)

/-- What a call of write leaves: an exact count, or a call that waits with its progress. -/
def Outcome (c : Call) (parts : List (List UInt8)) (wdone : Nat) : Option Int → Prop
  | some r => wdone = 0 ∧ Exact ⟨{ c with parts := parts }, r⟩
  | none => Begun { c with parts := parts } ∧ wdone = parts.flatten.length ∧ wdone < c.buf.length

section
variable {wdone wdone' : Nat} {result : Option Int} (begun : Begun c) (mine : wdone = c.queued.length) (short : wdone < c.buf.length ∨ c.buf = [])
include begun mine short

theorem ksysWrite_outcome (ran : ksysWrite o p wdone c = (p', wdone', parts, result)) :
    Outcome c parts wdone' result := by
  have stored := begun.stored
  rw [← mine] at stored
  unfold ksysWrite at ran
  split at ran
  next empty =>
    cases ran
    have zero : wdone = 0 := by
      have inside := stored.inside
      rw [empty, length_nil] at inside
      omega
    exact ⟨zero, stored.exact (.inr ⟨zero, by decide⟩)⟩
  next nonempty =>
    have below : wdone < c.buf.length := short.resolve_right nonempty
    dsimp only at ran
    have resumed : (if wdone ≥ c.buf.length then 0 else wdone) = wdone := if_neg (by omega)
    rw [resumed] at ran
    split at ran
    · cases ran
      refine ⟨rfl, stored.exact ?_⟩
      split <;> omega
    · split at ran
      next loop =>
        cases ran
        obtain ⟨kept, early, _⟩ := writeLoop_stored c.buf.length stored loop
        exact ⟨kept.begun (early rfl), kept.length.symm, early rfl⟩
      next loop =>
        cases ran
        obtain ⟨kept, _, _⟩ := writeLoop_stored c.buf.length stored loop
        exact ⟨rfl, kept.exact (.inl rfl)⟩
      next e loop =>
        cases ran
        obtain ⟨kept, _, negative⟩ := writeLoop_stored c.buf.length stored loop
        have errno := negative e rfl
        refine ⟨rfl, kept.exact ?_⟩
        split <;> omega

theorem sysWrite_outcome (ran : sysWrite o p wdone c = (p', wdone', parts, result)) :
    Outcome c parts wdone' result := by
  unfold sysWrite at ran
  split at ran
  next inner =>
    cases ran
    exact ksysWrite_outcome begun mine short inner
  next sleeping parts' inner =>
    obtain ⟨waiting, progress, below⟩ := ksysWrite_outcome begun mine short inner
    -- Giving up reports the progress, or an error if there is none.
    have gaveUp : ∀ e : Int, e < 0 → Exact ⟨{ c with parts := parts' }, if sleeping > 0 then (sleeping : Int) else e⟩ := by
      intro e errno
      have stored := waiting.stored
      have exact_progress : Stored c.buf parts' sleeping := by
        rw [progress]
        exact stored
      apply exact_progress.exact
      split <;> omega
    split at ran
    · cases ran
      exact ⟨rfl, gaveUp eagain (by decide)⟩
    split at ran
    · cases ran
      exact ⟨rfl, gaveUp eintr (by decide)⟩
    · cases ran
      exact ⟨waiting, progress, below⟩

end

end

/-- The counter is the progress of the innermost call that waits; the calls below it have none. -/
def Tracked : Nat → List (Option Call) → Prop
  | wdone, [] => wdone = 0
  | wdone, none :: rest => Tracked wdone rest
  | wdone, some c :: rest => (Begun c ∧ wdone = c.queued.length ∧ wdone < c.buf.length) ∧ Tracked 0 rest

/-- The descriptor of every waiting call refers to the pipe that the call began on. -/
def Process.Attached (p : Process) : Prop := ∀ c, some c ∈ p.contexts → p.fds c.fd = some (.pipe c.pipe)

structure Sound (s : System) : Prop where
  tracked : ∀ i, Tracked (s.procs i).pipeWdone (s.procs i).contexts
  attached : ∀ i, (s.procs i).Attached
  exact_counts : ∀ r ∈ s.returned, Exact r

def Process.onPipe (p : Process) (fd : Nat) : Bool :=
  match p.fds fd with
  | some (.pipe _) => true
  | _ => false

def Process.free (p : Process) (fd : Nat) : Prop := ∀ context ∈ p.contexts, ∀ c ∈ context, c.fd ≠ fd

/-- While bytes of a waiting write are counted, a handler begins no write to a pipe, and no call
that would block gives up. The descriptor of a waiting write is neither closed nor replaced. -/
def Orderly (s : System) : Event → Prop
  | .write i o fd _ => (s.procs i).pipeWdone = 0 ∨ ((s.procs i).onPipe fd = false ∧ o.elsewhere ≠ .givesUp)
  | .readGivesUp i => (s.procs i).pipeWdone = 0
  | .close i fd => (s.procs i).free fd
  | .dup2 i oldfd newfd => oldfd = newfd ∨ (s.procs i).free newfd
  | _ => True

section
variable {s : System} {i : Nat}

theorem tracked_fresh (contexts : List (Option Call)) {wdone : Nat} (tracked : Tracked wdone contexts) :
    Tracked 0 (contexts.map (Option.map fun c => { c with parts := [] })) := by
  induction contexts generalizing wdone with
  | nil => rfl
  | cons context rest ih =>
    cases context with
    | none => exact @ih wdone tracked
    | some c =>
      obtain ⟨⟨_, _, below⟩, later⟩ := tracked
      refine ⟨⟨⟨?_, fun _ => rfl⟩, rfl, Nat.lt_of_le_of_lt (Nat.zero_le _) below⟩, ih later⟩
      exact (take_zero).symm

theorem Process.Attached.fresh {p : Process} (attached : p.Attached) (wdone : Nat) :
    Process.Attached ⟨wdone, p.contexts.map (Option.map fun c => { c with parts := [] }), p.fds⟩ := by
  intro c member
  obtain ⟨context, old, copied⟩ := mem_map.mp member
  obtain ⟨d, rfl, rfl⟩ := Option.map_eq_some_iff.mp copied
  exact attached d old

theorem Sound.put (sound : Sound s) {p : Process} (tracked : Tracked p.pipeWdone p.contexts) (attached : p.Attached) :
    Sound (s.put i p) := by
  refine ⟨?_, ?_, sound.exact_counts⟩
  · intro j
    by_cases here : j = i
    · subst here
      simpa only [System.put, update_self] using tracked
    · simpa only [System.put, update_of_ne here] using sound.tracked j
  · intro j
    by_cases here : j = i
    · subst here
      simpa only [System.put, update_self] using attached
    · simpa only [System.put, update_of_ne here] using sound.attached j

theorem Sound.putPipe (sound : Sound s) (j : Nat) (p : Pipe) : Sound (s.putPipe j p) :=
  ⟨sound.tracked, sound.attached, sound.exact_counts⟩

/-- A descriptor that no waiting call uses may change. -/
theorem Sound.setFd (sound : Sound s) {fd : Nat} (free : (s.procs i).free fd) (object : Option Object) :
    Sound (s.setFd i fd object) := by
  refine sound.put (p := { s.procs i with fds := update (s.procs i).fds fd object }) (sound.tracked i) ?_
  intro c member
  change update (s.procs i).fds fd object c.fd = _
  rw [update_of_ne (free (some c) member c rfl)]
  exact sound.attached i c member

theorem runCall_sound {o : Outside} {c : Call} {rest : List (Option Call)} (sound : Sound s) (begun : Begun c)
    (mine : (s.procs i).pipeWdone = c.queued.length) (short : (s.procs i).pipeWdone < c.buf.length ∨ c.buf = [])
    (here : (s.procs i).fds c.fd = some (.pipe c.pipe)) (below : Tracked 0 rest)
    (attached : ∀ d, some d ∈ rest → (s.procs i).fds d.fd = some (.pipe d.pipe)) : Sound (runCall s i o c rest) := by
  unfold runCall
  rw [here]
  dsimp only
  generalize ran : sysWrite o (s.pipes c.pipe) (s.procs i).pipeWdone c = outcome
  obtain ⟨p, wdone, parts, result⟩ := outcome
  have ended := sysWrite_outcome begun mine short ran
  have written : Sound (s.putPipe c.pipe p) := sound.putPipe c.pipe p
  cases result with
  | some r =>
    obtain ⟨rfl, right⟩ := ended
    have kept : Sound ((s.putPipe c.pipe p).put i { s.procs i with pipeWdone := 0, contexts := none :: rest }) := by
      refine written.put (p := { s.procs i with pipeWdone := 0, contexts := none :: rest }) below ?_
      intro d member
      exact attached d ((mem_cons.mp member).resolve_left nofun)
    refine ⟨kept.tracked, kept.attached, ?_⟩
    intro entry member
    obtain old | new := mem_append.mp member
    · exact sound.exact_counts entry old
    · rw [mem_singleton.mp new]
      exact right
  | none =>
    refine written.put (p := ⟨wdone, some { c with parts := parts } :: rest, (s.procs i).fds⟩) ⟨ended, below⟩ ?_
    intro d member
    obtain same | deeper := mem_cons.mp member
    · cases same
      exact here
    · exact attached d deeper

theorem writeElsewhere_keeps {o : Outside} {fd wdone : Nat} {used : Bool} (kept : wdone = 0 ∨ o.elsewhere ≠ .givesUp) :
    (writeElsewhere o fd used wdone).1 = wdone := by
  unfold writeElsewhere
  split
  · rfl
  · split
    · rfl
    · rfl
    next gaveUp => exact (kept.resolve_right (not_not_intro gaveUp)).symm

theorem step_write_sound (o : Outside) (fd : Nat) (buf : List UInt8) (sound : Sound s)
    (orderly : Orderly s (.write i o fd buf)) : Sound (step s (.write i o fd buf)) := by
  have tracked := sound.tracked i
  have attached := sound.attached i
  simp only [step]
  split
  next rest running =>
    split
    next j onPipe =>
      have zero : (s.procs i).pipeWdone = 0 := by
        refine orderly.resolve_right fun elsewhere => ?_
        have noPipe := elsewhere.1
        rw [Process.onPipe, onPipe] at noPipe
        cases noPipe
      rw [running, zero] at tracked
      refine runCall_sound sound ⟨take_zero.symm, fun _ => rfl⟩ zero ?_ onPipe tracked ?_
      · rw [zero]
        cases buf with
        | nil => exact .inr rfl
        | cons b buf => exact .inl (Nat.succ_pos _)
      · intro d member
        apply attached d
        rw [running]
        exact mem_cons_of_mem _ member
    next object _ =>
      rw [writeElsewhere_keeps (orderly.imp_right And.right)]
      exact sound.put tracked attached
  · exact sound

theorem step_sound (e : Event) (sound : Sound s) (orderly : Orderly s e) : Sound (step s e) := by
  cases e with
  | write i o fd buf => exact step_write_sound o fd buf sound orderly
  | rerun i o =>
    have tracked := sound.tracked i
    have attached := sound.attached i
    simp only [step]
    split
    next c rest running =>
      rw [Process.Attached, running] at attached
      rw [running] at tracked
      obtain ⟨⟨begun, mine, less⟩, below⟩ := tracked
      exact runCall_sound sound begun mine (.inl less) (attached c mem_cons_self) below
        (fun d member => attached d (mem_cons_of_mem _ member))
    · exact sound
  | handler i =>
    refine sound.put (p := { s.procs i with contexts := none :: (s.procs i).contexts }) (sound.tracked i) ?_
    intro c member
    exact sound.attached i c ((mem_cons.mp member).resolve_left nofun)
  | sigreturn i =>
    have tracked := sound.tracked i
    simp only [step]
    split
    next context rest running =>
      rw [running] at tracked
      apply sound.put tracked
      intro c member
      apply sound.attached i c
      rw [running]
      exact mem_cons_of_mem _ member
    · exact sound
  | execve i closing =>
    simp only [step]
    split
    · refine sound.put ?_ ?_
      · exact rfl
      intro c member
      exact absurd (mem_singleton.mp member) nofun
    · exact sound
  | fork i child => exact sound.put (tracked_fresh _ (sound.tracked i)) ((sound.attached i).fresh 0)
  | install i fd object =>
    simp only [step]
    split
    next unused =>
      apply sound.setFd
      rintro context member c rfl rfl
      rw [sound.attached i c member] at unused
      cases unused
    · exact sound
  | close i fd => exact sound.setFd orderly none
  | dup2 i oldfd newfd =>
    simp only [step]
    split
    · exact sound
    · obtain rfl | free := orderly
      · rw [System.setFd, update_eq_self]
        exact sound.put (sound.tracked i) (sound.attached i)
      · exact sound.setFd free _
  | read pipe len => exact sound.putPipe _ _
  | readGivesUp i =>
    have tracked := sound.tracked i
    have zero : (s.procs i).pipeWdone = 0 := orderly
    simp only [step]
    split
    · rw [zero] at tracked
      exact sound.put tracked (sound.attached i)
    · exact sound
  | setReaders pipe readers => exact sound.putPipe _ _

/-- In every run in which no handler writes to a pipe, and no call that would block gives up,
while bytes of a waiting write of the same process are counted, and in which the descriptors of
waiting writes stay, every write is exact. -/
theorem writes_exact_orderly (events : List Event) (orderly : Permitted step Orderly boot events) (r : Returned)
    (returned : r ∈ (run boot events).returned) :
    r.call.parts.flatten = r.call.buf.take r.ret.toNat ∧ r.ret ≤ r.call.buf.length ∧
      (r.call.buf.length ≤ pipeBuf → r.call.parts = [] ∨ r.call.parts = [r.call.buf]) := by
  have started : Sound boot := ⟨fun _ => rfl, fun _ c member => absurd (mem_singleton.mp member) nofun, nofun⟩
  have sound : Sound (run boot events) := foldl_keeps (fun s e => step_sound (s := s) e) started orderly
  obtain ⟨stored, count, whole⟩ := sound.exact_counts r returned
  exact ⟨stored, count, whole⟩

/-! A write of one byte more than the pipe holds. -/

def long (b : UInt8) : List UInt8 := List.replicate 4097 b

theorem exists_of_any {returned : List Returned} {fact : Returned → Prop} [DecidablePred fact]
    (evaluated : returned.any (fun r => decide (fact r)) = true) : ∃ r ∈ returned, fact r := by
  obtain ⟨r, member, holds⟩ := List.any_eq_true.mp evaluated
  exact ⟨r, member, of_decide_eq_true holds⟩

/-- The handler writes to a terminal, closes its descriptor and waits for nothing. -/
def longWrite : List Event :=
  [.setReaders 0 1, .install 0 3 (.pipe 0), .install 0 4 .other, .write 0 Outside.quiet 3 (long 7), .read 0 4096,
    .handler 0, .write 0 Outside.quiet 4 [1], .close 0 4, .sigreturn 0, .rerun 0 Outside.quiet]

theorem long_write_exact : ∃ r ∈ (run boot longWrite).returned, r.ret = 4097 ∧ r.call.parts.flatten = r.call.buf.take r.ret.toNat := by
  obtain ⟨r, member, count⟩ : ∃ r ∈ (run boot longWrite).returned, r.ret = 4097 := exists_of_any (by decide +kernel)
  have orderly : Permitted step Orderly boot longWrite := by
    refine ⟨trivial, trivial, trivial, .inl ?_, trivial, trivial, .inr ⟨?_, nofun⟩, ?_, trivial, trivial, trivial⟩
    · decide +kernel
    · decide +kernel
    · unfold Orderly Process.free
      decide +kernel
  exact ⟨r, member, count, (writes_exact_orderly longWrite orderly r member).1⟩

/-- A handler that runs before the write does, and writes to another pipe, takes over its
progress: of 4097 bytes the last one is stored, and the call returns 4097. -/
theorem handler_write_skips : ∃ r ∈ (run boot [.setReaders 0 1, .setReaders 1 1, .install 0 3 (.pipe 0), .install 0 4 (.pipe 1),
      .write 0 Outside.quiet 3 (long 1), .handler 0, .write 0 Outside.quiet 4 (long 2)]).returned,
    r.call.pipe = 1 ∧ r.ret = 4097 ∧ r.call.parts = [[2]] := exists_of_any (by decide +kernel)

end
end SecOS.Pipes
