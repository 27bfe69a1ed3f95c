import SecOS.Proofs.DescriptorCalls

/-! Every counter of a pipe, a socket or a pseudo-terminal is the number of descriptors, and of
controlling terminals, that name it, after every sequence of calls. -/

namespace SecOS.Descriptors
open Library List Option

section
variable {s s' : System} {held rest extra : Ref → Nat} {n : Nat} {p : Process} {i : Fin maxFds} {e : Fd}

theorem dropFd_books (now : Nat) (books : Books s fun x => rest x + p.holds x) (used : (p.fds i).used = true) (empty : e.ref = none) :
    Books (fdEntryUnref now s (p.fds i).object) fun x => rest x + (p.setFd i e).holds x := by
  refine entryUnref_books now (books.congr fun x => ?_)
  have moved := setFd_holds p i e x
  rw [used_ref used, empty, one_none] at moved
  omega

theorem held_of_named {x : Ref} (named : (p.fds i).ref = some x) : 0 < rest x + p.holds x := by
  have here := fd_held p i x
  rw [named, one_self] at here
  omega

/-- What the loop does with an entry that names something; the guards of the source hold. -/
theorem releaseFd_named (now : Nat) (books : Books s fun x => rest x + p.holds x) {x : Ref} (named : (p.fds i).ref = some x) :
    releaseFd now (s, p) i = (fdEntryUnref now s (p.fds i).object, p.setFd i { p.fds i with used := false, object := .null }) := by
  have used : (p.fds i).used = true := by
    unfold Fd.ref at named
    split at named
    next used => exact used
    · cases named
  have live : 0 < rest x + p.holds x := held_of_named named
  rw [used_ref used] at named
  simp only [releaseFd, used, Bool.not_true, Bool.false_eq_true, ↓reduceIte]
  cases object : (p.fds i).object with
  | null => rw [object] at named; cases named
  | file k => rw [object] at named; cases named
  | pipe k w => rfl
  | sock k => rfl
  | master a =>
    rw [object] at named
    cases named
    obtain ⟨t, there⟩ := books.pty_there live
    simp only [ptyOf_eq books.sound, there, isSome_some, ↓reduceIte]
    rfl
  | slave a =>
    rw [object] at named
    cases named
    obtain ⟨t, there⟩ := books.pty_there live
    simp only [ptyOf_eq books.sound, there, isSome_some, ↓reduceIte]
    rfl
  | client k =>
    rw [object] at named
    cases named
    have count : (s.clients k).refs = rest (.client k) + p.holds (.client k) := books.exact (.client k)
    have used := (books.sound.clients k).mpr (by omega)
    simp only [used, ↓reduceIte]
    rfl

theorem releaseFd_unnamed (now : Nat) (unnamed : (p.fds i).ref = none) : releaseFd now (s, p) i = (s, p) := by
  simp only [releaseFd]
  split
  · rfl
  next used =>
    rw [used_ref (by simpa using used)] at unnamed
    cases object : (p.fds i).object with
    | null => rfl
    | file k => rfl
    | _ =>
      rw [object] at unnamed
      cases unnamed

/-- In the middle of the loop: the entries in `left` are still to come. -/
def Releasing (procs : List Process) (rest : Ref → Nat) (ctty : Option Nat) (st : System × Process) (left : List (Fin maxFds)) : Prop :=
  Books st.1 (fun x => rest x + st.2.holds x) ∧ st.1.procs = procs ∧ st.2.ctty = ctty ∧ ∀ i, i ∉ left → (st.2.fds i).ref = none

theorem releaseFd_releasing (now : Nat) {procs : List Process} {ctty : Option Nat} (st : System × Process) (i : Fin maxFds)
    (left : List (Fin maxFds)) (before : Releasing procs rest ctty st (i :: left)) : Releasing procs rest ctty (releaseFd now st i) left := by
  obtain ⟨s, p⟩ := st
  obtain ⟨books, table, terminal, done⟩ := before
  cases named : (p.fds i).ref with
  | none =>
    rw [releaseFd_unnamed now named]
    refine ⟨books, table, terminal, fun j outside => ?_⟩
    by_cases same : j = i
    · rw [same]
      exact named
    · exact done j fun member => (mem_cons.mp member).elim same outside
  | some x =>
    have used : (p.fds i).used = true := by
      unfold Fd.ref at named
      split at named
      next used => exact used
      · cases named
    rw [releaseFd_named now books named]
    refine ⟨dropFd_books now books used rfl, (entryUnref_procs ..).trans table, terminal, fun j outside => ?_⟩
    dsimp only
    by_cases same : j = i
    · rw [same, setFd_self]
      rfl
    · rw [setFd_other _ _ same]
      exact done j fun member => (mem_cons.mp member).elim same outside

theorem empty_holds (empty : ∀ i, (p.fds i).ref = none) (x : Ref) : p.holds x = one (p.ctty.map (.pty .ctty)) x := by
  unfold Process.holds
  rw [Finset.sum_eq_zero fun i _ => by rw [empty i, one_none], Nat.zero_add]

theorem release_books (now : Nat) (books : Books s fun x => rest x + p.holds x) :
    Books (processReleasePipes now s p).1 rest ∧ (processReleasePipes now s p).1.procs = s.procs ∧
      ∀ x, (processReleasePipes now s p).2.holds x = 0 := by
  have start : Releasing s.procs rest p.ctty (s, p) (List.finRange maxFds) :=
    ⟨books, rfl, rfl, fun i outside => absurd (mem_finRange i) outside⟩
  have finish := foldl_remaining (Releasing s.procs rest p.ctty) (releaseFd now) (releaseFd_releasing now) start
  rcases folded : (List.finRange maxFds).foldl (releaseFd now) (s, p) with ⟨s', p'⟩
  have released : processReleasePipes now s p = (cttyUnref s' p' true p'.ctty, { p' with ctty := none }) := by
    unfold processReleasePipes
    rw [folded]
  rw [folded] at finish
  obtain ⟨books, table, -, done⟩ := finish
  have empty (i : Fin maxFds) : (p'.fds i).ref = none := done i not_mem_nil
  rw [released]
  refine ⟨cttyUnref_books (books.congr fun x => ?_), (cttyUnref_procs ..).trans table, fun x => ?_⟩
  · rw [empty_holds empty]
  · rw [empty_holds (p := { p' with ctty := none }) empty]
    exact one_none x

theorem Exact.books_at (exact : Exact s) (found : s.procs[n]? = some p) : Books s fun x => holdersOf (s.procs.eraseIdx n) x + p.holds x :=
  exact.congr fun x => holders_at found x

theorem exit_exact (exact : Exact s) (found : s.procs[n]? = some p) (now : Nat) : Exact (exit now s n p) := by
  have books := exact.books_at found
  obtain ⟨books, procs, nothing⟩ := release_books now books
  unfold exit
  generalize processReleasePipes now s p = st at books procs nothing ⊢
  obtain ⟨s', p'⟩ := st
  dsimp only at books procs nothing ⊢
  refine (books.procs _).congr fun x => ?_
  have same : ({ p' with dead := true } : Process).holds x = p'.holds x := rfl
  dsimp only [System.setProc]
  rw [procs]
  refine Eq.trans ?_ (holders_set found _ x).symm
  rw [same, nothing, Nat.add_zero]

theorem destroy_exact (exact : Exact s) (found : s.procs[n]? = some p) (now : Nat) : Exact (processDestroy now s n p) := by
  have books := exact.books_at found
  obtain ⟨books, procs, -⟩ := release_books now books
  refine (books.procs _).congr fun x => ?_
  rw [← procs]
  rfl

theorem cloexecFd_books (now : Nat) {procs : List Process} (st : System × Process) (i : Fin maxFds)
    (books : Books st.1 (fun x => rest x + st.2.holds x) ∧ st.1.procs = procs) :
    Books (cloexecFd now st i).1 (fun x => rest x + (cloexecFd now st i).2.holds x) ∧ (cloexecFd now st i).1.procs = procs := by
  obtain ⟨s, p⟩ := st
  obtain ⟨books, table⟩ := books
  simp only [cloexecFd]
  split
  · exact ⟨books, table⟩
  next kept =>
    have used : (p.fds i).used = true := by
      cases used : (p.fds i).used with
      | true => rfl
      | false => exact absurd (.inl (by simp [used])) kept
    exact ⟨dropFd_books now books used rfl, (entryUnref_procs ..).trans table⟩

theorem exec_exact (exact : Exact s) (found : s.procs[n]? = some p) (now : Nat) : Exact (execCloexec now s n p) := by
  have books := exact.books_at found
  have finish := foldl_remaining
    (fun st _ => Books st.1 (fun x => holdersOf (s.procs.eraseIdx n) x + st.2.holds x) ∧ st.1.procs = s.procs)
    (cloexecFd now) (fun st i _ => cloexecFd_books now st i) (l := List.finRange maxFds) (s := (s, p)) ⟨books, rfl⟩
  unfold execCloexec
  generalize (List.finRange maxFds).foldl (cloexecFd now) (s, p) = st at finish ⊢
  obtain ⟨s', p'⟩ := st
  obtain ⟨books, procs⟩ := finish
  dsimp only at books procs ⊢
  refine (books.procs _).congr fun x => ?_
  dsimp only [System.setProc]
  rw [procs]
  exact (holders_set found p' x).symm

theorem forkRef_books (books : Books s held) (live : ∀ x, e.ref = some x → 0 < held x) : Books (forkRef s e) fun x => held x + one e.ref x := by
  unfold forkRef
  split
  next used =>
    rw [used_ref used] at live ⊢
    exact entryRef_books books live
  next unused =>
    refine books.congr fun x => ?_
    rw [Fd.ref, if_neg unused, one_none, Nat.add_zero]

theorem forkRefs_books {fds : Fin maxFds → Fd} {l : List (Fin maxFds)} (books : Books s held)
    (live : ∀ i x, (fds i).ref = some x → 0 < held x) :
    Books (l.foldl (fun s i => forkRef s (fds i)) s) fun x => held x + (l.map fun i => one (fds i).ref x).sum := by
  induction l generalizing s held with
  | nil => exact books
  | cons i l ih =>
    have first := forkRef_books books (live i)
    refine (ih first fun j x named => Nat.lt_add_right _ (live j x named)).congr fun x => ?_
    rw [map_cons, sum_cons, Nat.add_assoc]

theorem forkRefs_procs (fds : Fin maxFds → Fd) (l : List (Fin maxFds)) (s : System) :
    (l.foldl (fun s i => forkRef s (fds i)) s).procs = s.procs := by
  induction l generalizing s with
  | nil => rfl
  | cons i l ih =>
    rw [foldl_cons, ih]
    unfold forkRef
    split
    · exact entryRef_procs ..
    · rfl

theorem child_open (exact : Exact s) (found : s.procs[n]? = some p) (pid : Nat) :
    Open (ptyCttyRef ((List.finRange maxFds).foldl (fun s i => forkRef s (p.fds i)) s) p.ctty) ({ p with pid := pid } : Process).holds := by
  have entries := forkRefs_books (l := List.finRange maxFds) exact fun i x named => named_live (i := i) found named
  have terminal := cttyRef_books entries p.ctty fun a named => Nat.lt_add_right _ (ctty_live found named)
  refine .of_books terminal ((cttyRef_procs ..).trans (forkRefs_procs ..)) fun x => ?_
  rw [Nat.add_assoc]
  unfold Process.holds
  rw [Fin.sum_univ_def]

theorem fork_exact (exact : Exact s) (found : s.procs[n]? = some p) (now pid : Nat) (how : ForkEnd) : Exact (processFork now s p pid how) := by
  have child := child_open exact found pid
  cases how with
  | early => exact exact
  | late =>
    obtain ⟨books, procs, -⟩ := release_books now child
    refine books.congr fun x => ?_
    simp only [processFork, procs]
  | done => exact child.append

theorem newProcess_ref (pid : Nat) (i : Fin maxFds) : ((newProcess pid).fds i).ref = none := by
  unfold newProcess
  dsimp only
  split <;> rfl

theorem newProcess_holds (pid : Nat) (x : Ref) : (newProcess pid).holds x = 0 := by
  rw [empty_holds (newProcess_ref pid)]
  exact one_none x

variable {parent : Process}

theorem inheritFd_books (books : Open s p.holds) (found : s.procs[n]? = some parent) (empty : (p.fds i).ref = none) :
    Open (inheritFd parent (s, p) i).1 (inheritFd parent (s, p) i).2.holds ∧ (inheritFd parent (s, p) i).1.procs = s.procs ∧
      ∀ j, j ≠ i → (inheritFd parent (s, p) i).2.fds j = p.fds j := by
  simp only [inheritFd]
  split
  next used =>
    have taken := books.take (parent.fds i).object fun x named => Nat.lt_add_right _ (named_live found ((used_ref used).trans named))
    refine ⟨Books.congr taken fun x => ?_, entryRef_procs .., fun j apart => setFd_other _ _ apart⟩
    have moved := setFd_holds p i { parent.fds i with cloexec := false } x
    rw [empty, one_none, used_ref (e := { parent.fds i with cloexec := false }) used] at moved
    dsimp only at moved ⊢
    omega
  · exact ⟨books, rfl, fun _ _ => rfl⟩

theorem inheritFds_books {l : List (Fin maxFds)} (nodup : l.Nodup) (books : Open s p.holds)
    (found : s.procs[n]? = some parent) (empty : ∀ i ∈ l, (p.fds i).ref = none) :
    Open (l.foldl (inheritFd parent) (s, p)).1 (l.foldl (inheritFd parent) (s, p)).2.holds ∧
      (l.foldl (inheritFd parent) (s, p)).1.procs = s.procs := by
  induction l generalizing s p with
  | nil => exact ⟨books, rfl⟩
  | cons i l ih =>
    obtain ⟨fresh, others⟩ := List.nodup_cons.mp nodup
    obtain ⟨books, procs, same⟩ := inheritFd_books books found (empty i mem_cons_self)
    rw [foldl_cons]
    generalize inheritFd parent (s, p) i = st at books procs same ⊢
    obtain ⟨s', p'⟩ := st
    dsimp only at books procs same
    have later := ih others books (by rw [procs]; exact found) fun j member => by
      rw [same j fun equal => fresh (equal ▸ member)]
      exact empty j (mem_cons_of_mem _ member)
    exact ⟨later.1, later.2.trans procs⟩

theorem inheritFds_ctty (parent : Process) (l : List (Fin maxFds)) (s : System) (p : Process) :
    (l.foldl (inheritFd parent) (s, p)).2.ctty = p.ctty := by
  induction l generalizing s p with
  | nil => rfl
  | cons i l ih =>
    rw [foldl_cons]
    unfold inheritFd
    dsimp only
    split
    · exact ih _ _
    · exact ih _ _

theorem spawnInherit_books (books : Open s p.holds) (found : s.procs[n]? = some parent)
    (empty : ∀ i, (p.fds i).ref = none) :
    Open (spawnInheritStdio s parent p).1 (spawnInheritStdio s parent p).2.holds ∧
      (spawnInheritStdio s parent p).1.procs = s.procs ∧ (spawnInheritStdio s parent p).2.ctty = p.ctty := by
  have nodup : ((List.finRange maxFds).filter (·.val < 3)).Nodup := (nodup_finRange maxFds).filter _
  obtain ⟨books, procs⟩ := inheritFds_books nodup books found fun i _ => empty i
  exact ⟨books, procs, inheritFds_ctty parent _ s p⟩

section
variable (exact : Exact s)
include exact

theorem spawn_exact (parent : Option Process) (found : ∀ p, parent = some p → ∃ n : Nat, s.procs[n]? = some p) (pid : Nat) :
    Exact (ksysSpawn s parent pid) := by
  have start : Open s (newProcess pid).holds := Books.congr exact fun x => by rw [newProcess_holds, Nat.add_zero]
  cases parent with
  | none => exact start.append
  | some p =>
    obtain ⟨n, found⟩ := found p rfl
    obtain ⟨books, procs, free⟩ := spawnInherit_books start found (newProcess_ref pid)
    unfold ksysSpawn
    dsimp only
    generalize spawnInheritStdio s p (newProcess pid) = st at books procs free ⊢
    obtain ⟨s', child⟩ := st
    have free : child.ctty = none := free
    dsimp only at books procs ⊢
    split
    · exact books.append
    -- The child also takes the controlling terminal of its parent.
    have counted := cttyRef_books books p.ctty fun a named => Nat.lt_add_right _ (by rw [procs]; exact ctty_live found named)
    have hand : Open (ptyCttyRef s' p.ctty) ({ child with pgid := p.pgid, sid := p.sid, cttyDetached := p.cttyDetached, ctty := p.ctty } : Process).holds := by
      refine .of_books counted (cttyRef_procs ..) fun x => ?_
      have moved := holds_ctty { child with pgid := p.pgid, sid := p.sid, cttyDetached := p.cttyDetached, ctty := p.ctty } (p := child) rfl x
      rw [free] at moved
      simp only [map_none, one_none] at moved
      omega
    exact hand.append

theorem setsid_exact (found : s.procs[n]? = some p) : Exact (ksysSetsid s n p) := by
  unfold ksysSetsid
  split
  · exact exact
  have let_go : Open (s.setProc n { p with ctty := none, sid := p.pid, pgid := p.pid, cttyDetached := true })
      (one (p.ctty.map (.pty .ctty))) := exact.open.setProc found fun x => by
    have moved := holds_ctty { p with ctty := none, sid := p.pid, pgid := p.pid, cttyDetached := true } (p := p) rfl x
    simp only [map_none, one_none] at moved
    omega
  refine (cttyUnref_books let_go).congr fun x => ?_
  rw [cttyUnref_procs]

theorem lock_exact {a : Nat} {t : Pty} (there : s.ptys a = some t) (locked : Bool) :
    Exact (s.setPty a { t with locked := locked }) :=
  exact.setPty there rfl (exact.sound.ptys a t there).1 (fun e => Eq.trans (by cases e <;> rfl) (exact.pty_count there e)) fun _ _ => rfl

theorem perform_exact (found : s.procs[n]? = some p) (now : Nat) (c : Call) : Exact (perform now s n p c) := by
  cases c with
  | pipe cloexec flags => exact pipe_exact exact found cloexec flags
  | «open» o => exact open_exact exact found o
  | socket stream flags => exact socket_exact exact found now stream flags
  | accept fd => exact accept_exact exact found fd
  | dup fd => exact dupFrom_exact exact found fd 0 false
  | dup2 oldfd newfd => exact dup2_exact exact found now oldfd newfd
  | dupfd fd low cloexec => exact dupFrom_exact exact found fd low cloexec
  | close fd => exact close_exact exact found now fd
  | spawn pid => exact spawn_exact exact (some p) (fun q same => ⟨n, by cases same; exact found⟩) pid
  | fork pid how => exact fork_exact exact found now pid how
  | execve => exact exec_exact exact found now
  | setsid => exact setsid_exact exact found
  | exit => exact exit_exact exact found now

theorem step_exact (e : Event) : Exact (step s e) := by
  have network {e : Event} {t : Tcp.Event} (other : netEvent e = some t) : Exact { s with net := Tcp.step s.net t } :=
    (netEvent_refs other s.net).books exact
  cases e with
  | call now n c =>
    simp only [step]
    split
    · exact exact
    next p found =>
      split
      · exact exact
      · exact perform_exact exact found now c
  | start pid => exact spawn_exact exact none (by rintro _ ⟨⟩) pid
  | destroy now n =>
    simp only [step]
    split
    · exact exact
    next p found => exact destroy_exact exact found now
  | lock a locked =>
    simp only [step]
    split
    · exact exact
    next t there =>
      rw [ptyOf_eq exact.sound] at there
      exact lock_exact exact there locked
  | bind i port => exact network (e := .bind i port) rfl
  | connect o i ip port => exact network (e := .connect o i ip port) rfl
  | listen o i backlog => exact network (e := .listen o i backlog) rfl
  | send o i data => exact network (e := .send o i data) rfl
  | recv i len => exact network (e := .recv i len) rfl
  | packet o ip bytes => exact network (e := .packet o ip bytes) rfl
  | tick now leaves => exact network (e := .tick now leaves) rfl

end

theorem boot_exact : Exact boot := by
  refine ⟨⟨fun i => ?_, fun i used => ?_, fun a p there => ?_, fun i a there => ?_, fun i => ?_⟩, fun x => ?_⟩
  · simp [boot]
  · cases used
  · cases there
  · cases there
  · simp [boot]
  · cases x with
    | pipe i w => cases w <;> rfl
    | _ => rfl

theorem run_exact (events : List Event) (exact : Exact s) : Exact (run s events) := by
  induction events generalizing s with
  | nil => exact exact
  | cons e events ih => exact ih (step_exact exact e)

end

def entries (s : System) (object : Object) : Nat :=
  (s.procs.map fun p => (List.finRange maxFds).countP fun i => (p.fds i).used && (p.fds i).object == object).sum

def controlled (s : System) (a : Nat) : Nat := s.procs.countP fun p => p.ctty == some a

variable {object : Object}

theorem Object.ref_inj {o : Object} {x : Ref} (named : object.ref = some x) : o.ref = some x ↔ o = object := by
  refine ⟨fun same => ?_, fun same => by rw [same, named]⟩
  cases object <;> cases named <;> cases o <;> simp_all [Object.ref]

theorem Object.ref_not_ctty (o : Object) (a : Nat) : o.ref ≠ some (.pty .ctty a) := by
  cases o <;> simp [Object.ref]

theorem Fd.ref_not_ctty (e : Fd) (a : Nat) : e.ref ≠ some (.pty .ctty a) := by
  unfold Fd.ref
  split
  · exact Object.ref_not_ctty _ a
  · nofun

theorem one_entry {x : Ref} (named : object.ref = some x) (e : Fd) :
    one e.ref x = if e.used && e.object == object then 1 else 0 := by
  unfold one Fd.ref
  cases used : e.used with
  | false => rfl
  | true =>
    simp [Object.ref_inj named, beq_iff_eq]

theorem holders_entries {s : System} {x : Ref} (named : object.ref = some x) : holdersOf s.procs x = entries s object := by
  unfold holdersOf entries
  congr 1
  refine map_congr_left fun p _ => ?_
  have other : one (p.ctty.map (.pty .ctty)) x = 0 := if_neg fun same => by
    obtain ⟨a, -, equal⟩ := Option.map_eq_some_iff.mp same
    exact Object.ref_not_ctty object a (by rw [named, equal])
  unfold Process.holds
  rw [other, Nat.add_zero, Fin.sum_univ_def]
  simp only [one_entry named]
  exact sum_indicator _ _

theorem holders_controlled (s : System) (a : Nat) : holdersOf s.procs (.pty .ctty a) = controlled s a := by
  unfold holdersOf controlled
  rw [← sum_indicator]
  congr 1
  refine map_congr_left fun p _ => ?_
  have none (i : Fin maxFds) : one (p.fds i).ref (.pty .ctty a) = 0 := if_neg (Fd.ref_not_ctty _ a)
  unfold Process.holds
  rw [Finset.sum_eq_zero fun i _ => none i, Nat.zero_add]
  unfold one
  cases ctty : p.ctty <;> simp

/-- After any sequence of calls, by any number of processes, every counter is the number of
entries that name the object, and a pseudo-terminal is there exactly while one of its three
counters is not zero. -/
theorem reference_counts_exact (events : List Event) :
    let s := run boot events
    (∀ i, (s.pipes i).readers = entries s (.pipe i false) ∧ (s.pipes i).writers = entries s (.pipe i true)) ∧
    (∀ i, ((s.net.socks i).used = true → (s.net.socks i).refs = entries s (.sock i)) ∧
      ((s.net.socks i).used = true ↔ 0 < entries s (.sock i))) ∧
    (∀ a t, s.ptys a = some t → t.mrefs = entries s (.master a) ∧ t.srefs = entries s (.slave a) ∧ t.crefs = controlled s a) ∧
    ∀ a, s.ptys a = none ↔ entries s (.master a) = 0 ∧ entries s (.slave a) = 0 ∧ controlled s a = 0 := by
  intro s
  have books : Exact s := run_exact events boot_exact
  have pty (a : Nat) (t : Pty) (there : s.ptys a = some t) :
      t.mrefs = entries s (.master a) ∧ t.srefs = entries s (.slave a) ∧ t.crefs = controlled s a := by
    refine ⟨?_, ?_, ?_⟩
    · exact (books.pty_count there .master).trans (holders_entries rfl)
    · exact (books.pty_count there .slave).trans (holders_entries rfl)
    · exact (books.pty_count there .ctty).trans (holders_controlled s a)
  refine ⟨fun i => ?_, fun i => ?_, pty, fun a => ?_⟩
  · exact ⟨(books.exact (.pipe i false)).trans (holders_entries rfl), (books.exact (.pipe i true)).trans (holders_entries rfl)⟩
  · have count : sockCount s.net i = entries s (.sock i) := (books.exact (.sock i)).trans (holders_entries rfl)
    unfold sockCount at count
    cases used : (s.net.socks i).used with
    | false =>
      rw [used] at count
      refine ⟨nofun, nofun, fun some => ?_⟩
      rw [← count] at some
      exact absurd some (Nat.lt_irrefl 0)
    | true =>
      have positive := books.sound.socks i used
      simp only [used, ↓reduceIte] at count
      refine ⟨fun _ => by omega, fun _ => by omega, fun _ => rfl⟩
  · cases there : s.ptys a with
    | some t =>
      obtain ⟨counted, -⟩ := books.sound.ptys a t there
      obtain ⟨master, slave, ctty⟩ := pty a t there
      refine ⟨nofun, fun zero => ?_⟩
      omega
    | none =>
      have nothing (e : End) : holdersOf s.procs (.pty e a) = 0 := by
        rw [← books.exact]
        simp only [counter, there]
        rfl
      refine ⟨fun _ => ⟨?_, ?_, ?_⟩, fun _ => rfl⟩
      · exact (holders_entries rfl).symm.trans (nothing .master)
      · exact (holders_entries rfl).symm.trans (nothing .slave)
      · exact (holders_controlled s a).symm.trans (nothing .ctty)

/-- After any calls no pipe, socket, terminal or input client is in use that nothing counts, and
each number of `/dev/pts` is that of one live terminal. -/
theorem objects_in_use (events : List Event) : Sound (run boot events) := (run_exact events boot_exact).sound

end SecOS.Descriptors
