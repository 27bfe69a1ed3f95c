import SecOS.Proofs.EntryBooks

/-! The calls that make, copy and drop descriptors of one process keep the books. -/

namespace SecOS.Descriptors
open Library Function List Finset Option

/-- What is held is in the table of processes, but for what a call has in hand. -/
def Open (s : System) (extra : Ref → Nat) : Prop := Books s fun x => holdersOf s.procs x + extra x

def Exact (s : System) : Prop := Books s (holdersOf s.procs)

section
variable {s s' : System} {held rest extra extra' : Ref → Nat} {n : Nat} {p p' : Process} {i : Fin maxFds} {e : Fd}

theorem Exact.open (exact : Exact s) : Open s fun _ => 0 := exact

theorem Open.of_books (books : Books s' held) (procs : s'.procs = s.procs) (same : ∀ x, held x = holdersOf s.procs x + extra x) :
    Open s' extra := books.congr fun x => by rw [same, procs]

theorem Open.exact (books : Open s extra) (none : ∀ x, extra x = 0) : Exact s := Books.congr books fun x => by rw [none x, Nat.add_zero]

theorem setFd_self (p : Process) (i : Fin maxFds) (e : Fd) : (p.setFd i e).fds i = e := update_self ..

theorem setFd_other (p : Process) {i j : Fin maxFds} (e : Fd) (apart : j ≠ i) : (p.setFd i e).fds j = p.fds j :=
  update_of_ne apart ..

theorem setFd_holds (p : Process) (i : Fin maxFds) (e : Fd) (x : Ref) :
    (p.setFd i e).holds x + one (p.fds i).ref x = p.holds x + one e.ref x := by
  have moved := sum_update Finset.univ p.fds (fun e => one e.ref x) (mem_univ i) e
  unfold Process.holds Process.setFd
  dsimp only at moved ⊢
  omega

theorem fd_held (p : Process) (i : Fin maxFds) (x : Ref) : one (p.fds i).ref x ≤ p.holds x := by
  have term := Finset.single_le_sum (fun j _ => Nat.zero_le (one (p.fds j).ref x)) (mem_univ i)
  unfold Process.holds
  omega

theorem unused_ref (unused : (p.fds i).used = false) : (p.fds i).ref = none := by
  unfold Fd.ref
  rw [unused]
  rfl

theorem used_ref (used : e.used = true) : e.ref = e.object.ref := if_pos used

theorem unusedFrom_used {low : Nat} (found : unusedFrom p low = some i) : (p.fds i).used = false := by
  have passed := find?_some found
  rw [Bool.and_eq_true] at passed
  simpa using passed.2

theorem setFd_fills (unused : (p.fds i).used = false) (x : Ref) : (p.setFd i e).holds x = p.holds x + one e.ref x := by
  have moved := setFd_holds p i e x
  rw [unused_ref unused, one_none] at moved
  omega

theorem holds_ctty (p' : Process) (fds : p'.fds = p.fds) (x : Ref) :
    p'.holds x + one (p.ctty.map (.pty .ctty)) x = p.holds x + one (p'.ctty.map (.pty .ctty)) x := by
  unfold Process.holds
  rw [fds]
  omega

theorem holders_at (found : s.procs[n]? = some p) (x : Ref) : holdersOf s.procs x = holdersOf (s.procs.eraseIdx n) x + p.holds x :=
  sum_erase (fun p : Process => p.holds x) found

theorem holders_set (found : s.procs[n]? = some p) (p' : Process) (x : Ref) :
    holdersOf (s.procs.set n p') x = holdersOf (s.procs.eraseIdx n) x + p'.holds x := sum_set (fun p : Process => p.holds x) found p'

theorem setProc_found (found : s.procs[n]? = some p) (p' : Process) : (s.setProc n p').procs[n]? = some p' :=
  getElem?_set_self (List.getElem?_eq_some_iff.mp found).choose

theorem Open.setProc (books : Open s extra) (found : s.procs[n]? = some p) (moved : ∀ x, p'.holds x + extra' x = p.holds x + extra x) :
    Open (s.setProc n p') extra' := by
  refine Books.congr (Books.procs books (s.procs.set n p')) fun x => ?_
  have before := holders_at found x
  have after := holders_set found p' x
  have change := moved x
  simp only [System.setProc]
  omega

theorem Open.setFd (books : Open s extra) (found : s.procs[n]? = some p) (moved : ∀ x, one e.ref x + extra' x = one (p.fds i).ref x + extra x) :
    Open (s.setFd n p i e) extra' := by
  refine books.setProc found fun x => ?_
  have change := setFd_holds p i e x
  have total := moved x
  omega

variable {object : Object} {a : Nat} {o : Opening}

theorem Open.fill (books : Open s (one object.ref)) (found : s.procs[n]? = some p) (unused : (p.fds i).used = false)
    (cloexec : Bool) (flags : Nat) : Exact (s.setFd n p i ⟨true, object, cloexec, flags⟩) := by
  have filled : Open (s.setFd n p i ⟨true, object, cloexec, flags⟩) fun _ => 0 := books.setFd found fun x => by
    rw [unused_ref unused, one_none, Nat.zero_add]
    rfl
  exact filled.exact fun _ => rfl

theorem Open.append (books : Open s p.holds) : Exact { s with procs := s.procs ++ [p] } := by
  refine Books.congr (Books.procs books (s.procs ++ [p])) fun x => ?_
  exact (sum_snoc (fun p : Process => p.holds x) s.procs p).symm

theorem Open.take (books : Open s extra) (object : Object) (live : ∀ x, object.ref = some x → 0 < holdersOf s.procs x + extra x) :
    Open (fdEntryRef s object) fun x => extra x + one object.ref x :=
  .of_books (entryRef_books books live) (entryRef_procs s object) fun x => Nat.add_assoc ..

theorem Open.drop (now : Nat) (object : Object) (books : Open s fun x => extra x + one object.ref x) :
    Open (fdEntryUnref now s object) extra := by
  have books : Books s fun x => (holdersOf s.procs x + extra x) + one object.ref x := Books.congr books fun x => (Nat.add_assoc ..).symm
  exact .of_books (entryUnref_books now books) (entryUnref_procs now s object) fun _ => rfl

theorem named_live (found : s.procs[n]? = some p) {x : Ref} (named : (p.fds i).ref = some x) : 0 < holdersOf s.procs x := by
  have here := fd_held p i x
  rw [named, one_self] at here
  rw [holders_at found]
  omega

theorem ctty_live (found : s.procs[n]? = some p) (named : p.ctty = some a) : 0 < holdersOf s.procs (.pty .ctty a) := by
  have here : one (p.ctty.map (.pty .ctty)) (.pty .ctty a) = 1 := by rw [named]; exact one_self _
  rw [holders_at found]
  unfold Process.holds
  omega

section
variable (exact : Exact s) (found : s.procs[n]? = some p)
include exact found

theorem pipe_exact (cloexec : Bool) (flags : Nat) : Exact (ksysPipe s n p cloexec flags) := by
  unfold ksysPipe
  split
  · exact exact
  next s' i made =>
    obtain ⟨procs, books⟩ := pipeAlloc_books exact made
    have both : Open s' fun x => (0 + one (Object.pipe i true).ref x) + one (Object.pipe i false).ref x :=
      .of_books books procs fun x => by
        simp only [Object.ref]
        omega
    have undone : Exact (pipeUnref (pipeUnref s' i false) i true) :=
      (Open.drop 0 (.pipe i true) (Open.drop 0 (.pipe i false) both)).exact fun _ => rfl
    split
    · exact undone
    next rfd first =>
      split
      · exact undone
      next wfd second =>
        have apart : wfd ≠ rfd := by
          rintro rfl
          have used := unusedFrom_used second
          rw [setFd_self] at used
          cases used
        have unused : (p.fds wfd).used = false := by
          have unused := unusedFrom_used second
          rwa [setFd_other _ _ apart] at unused
        have found' : s'.procs[n]? = some p := by rw [procs]; exact found
        have placed : Open (s'.setProc n ((p.setFd rfd ⟨true, .pipe i false, cloexec, flags⟩).setFd wfd ⟨true, .pipe i true, cloexec, flags⟩))
            fun _ => 0 := both.setProc found' fun x => by
          rw [setFd_fills (by rw [setFd_other _ _ apart]; exact unused), setFd_fills (unusedFrom_used first)]
          simp only [Fd.ref, ↓reduceIte]
          omega
        exact placed.exact fun _ => rfl

theorem socket_exact (now : Nat) (stream : Bool) (flags : Nat) :
    Exact (sysSocket now s n p stream flags) := by
  unfold sysSocket
  split
  next net e refused =>
    have same : net = s.net := by
      unfold Tcp.lCreate at refused
      split at refused
      · exact (Prod.mk.inj refused).1.symm
      · cases refused
    subst same
    exact exact
  next net sx made =>
    have made := create_books exact made
    split
    · exact sockUnref_books now made
    next fd free =>
      have hand : Open { s with net := net } (one (Object.sock sx).ref) := made
      exact hand.fill found (unusedFrom_used free) false flags

theorem accept_exact (fd : Fin maxFds) : Exact (sysAccept s n p fd) := by
  unfold sysAccept
  split
  · split
    · exact exact
    next nfd free =>
      split
      next net e refused => exact refused_books exact refused
      next net nsx taken =>
        have hand : Open { s with net := net } (one (Object.sock nsx).ref) := accept_books exact taken
        exact hand.fill found (unusedFrom_used free) false 0
  · exact exact

theorem dup2_exact (now : Nat) (oldfd newfd : Fin maxFds) :
    Exact (ksysDup2 now s n p oldfd newfd) := by
  unfold ksysDup2
  split
  · exact exact
  next valid =>
    have used : (p.fds oldfd).used = true := by
      cases used : (p.fds oldfd).used with
      | true => rfl
      | false => exact absurd (.inl (by simp [used])) valid
    have taken := exact.open.take (p.fds oldfd).object fun x named => by
      have live := named_live found ((used_ref used).trans named)
      omega
    have found' : (fdEntryRef s (p.fds oldfd).object).procs[n]? = some p := by rw [entryRef_procs]; exact found
    have copied : ({ p.fds oldfd with cloexec := false } : Fd).ref = (p.fds oldfd).object.ref := used_ref used
    have placed : Open ((fdEntryRef s (p.fds oldfd).object).setFd n p newfd { p.fds oldfd with cloexec := false })
        fun x => 0 + one (p.fds newfd).ref x := taken.setFd found' fun x => by
      rw [copied]
      omega
    dsimp only
    split
    next target =>
      rw [used_ref target] at placed
      exact (placed.drop now _).exact fun _ => rfl
    next target =>
      refine placed.exact fun x => ?_
      rw [unused_ref (by simpa using target), one_none]

theorem dupFrom_exact (fd : Fin maxFds) (low : Nat) (cloexec : Bool) :
    Exact (dupFrom s n p fd low cloexec) := by
  unfold dupFrom
  split
  · exact exact
  next used =>
    split
    · exact exact
    next i free =>
      -- The source writes the entry before it counts it.
      have used : (p.fds fd).used = true := by simpa using used
      have written : Books (s.setFd n p i { p.fds fd with cloexec := cloexec }) (holdersOf s.procs) := Books.procs exact _
      have counted := entryRef_books written fun x named => named_live found ((used_ref used).trans named)
      refine counted.congr fun x => ?_
      rw [entryRef_procs, holders_at found]
      refine Eq.trans ?_ (holders_set found _ x).symm
      rw [setFd_fills (unusedFrom_used free), Nat.add_assoc]
      simp only [Fd.ref, used, ↓reduceIte]

theorem close_exact (now : Nat) (fd : Fin maxFds) : Exact (ksysClose now s n p fd) := by
  unfold ksysClose
  split
  · exact exact
  next used =>
    have used : (p.fds fd).used = true := by simpa using used
    have emptied : Open (s.setFd n p fd { p.fds fd with used := false, object := .null }) fun x => 0 + one (p.fds fd).object.ref x :=
      exact.open.setFd found fun x => by
        rw [used_ref used]
        simp only [Fd.ref, Bool.false_eq_true, ↓reduceIte, one_none]
        omega
    exact (emptied.drop now _).exact fun _ => rfl

end

theorem ptyAlloc_books (books : Books s held) {memory : Option Nat} (made : ptyAlloc s memory = some (s', a)) :
    s'.procs = s.procs ∧ Books s' fun x => held x + one (some (.pty .master a)) x := by
  unfold ptyAlloc at made
  split at made
  next b i slot =>
    split at made
    · cases made
    next fresh =>
      cases made
      have free : s.slots i = none := by simpa using find?_some slot
      have fresh : s.ptys a = none := by simpa using fresh
      refine ⟨rfl, ⟨books.sound.pipes, books.sound.socks, fun b q there => ?_, fun j b there => ?_, books.sound.clients⟩, fun x => ?_⟩
      · dsimp only at there ⊢
        by_cases same : b = a
        · subst same
          rw [update_self] at there
          cases there
          exact ⟨Nat.one_pos, update_self ..⟩
        · rw [update_of_ne same] at there
          obtain ⟨counted, stored⟩ := books.sound.ptys b q there
          have apart : q.idx ≠ i := by
            rintro rfl
            rw [free] at stored
            cases stored
          exact ⟨counted, by rw [update_of_ne apart]; exact stored⟩
      · dsimp only at there ⊢
        by_cases same : j = i
        · subst same
          rw [update_self] at there
          cases there
          exact ⟨_, update_self .., rfl⟩
        · rw [update_of_ne same] at there
          obtain ⟨q, stored, idx⟩ := books.sound.slots j b there
          have apart : b ≠ a := by
            rintro rfl
            rw [fresh] at stored
            cases stored
          exact ⟨q, by rw [update_of_ne apart]; exact stored, idx⟩
      · have before := books.exact x
        rw [one_some]
        cases x with
        | pty e b =>
          by_cases same : b = a
          · subst same
            have nothing : held (.pty e b) = 0 := by
              rw [← before, counter, fresh]
              rfl
            rw [nothing]
            simp only [counter, update_self]
            cases e <;> simp [Pty.count]
          · rw [if_neg fun equal => same (by cases equal; rfl), Nat.add_zero, ← before]
            simp only [counter, update_of_ne same]
        | _ =>
          rw [if_neg (by rintro ⟨⟩), Nat.add_zero, ← before]
          rfl
  · cases made

theorem acquire_open (books : Open s extra) (found : s.procs[n]? = some p) (free : p.ctty = none) {t : Pty}
    (there : s.ptys a = some t) : Open (acquireCtty s n p a t) extra ∧ ∃ p', (acquireCtty s n p a t).procs[n]? = some p' := by
  have counted : Books (s.setPty a { t with session := p.sid, fgPgrp := p.pgid, crefs := t.crefs + 1 })
      fun x => (holdersOf s.procs x + extra x) + one (some (.pty .ctty a)) x := Books.takePty books there rfl fun e => by cases e <;> rfl
  have hand : Open (s.setPty a { t with session := p.sid, fgPgrp := p.pgid, crefs := t.crefs + 1 })
      fun x => extra x + one (some (.pty .ctty a)) x := .of_books counted rfl fun x => Nat.add_assoc ..
  refine ⟨hand.setProc found fun x => ?_, _, setProc_found (by exact found) _⟩
  have moved := holds_ctty { p with ctty := some a, cttyDetached := false } (p := p) rfl x
  rw [free] at moved
  simp only [map_none, map_some, one_none] at moved
  omega

theorem openSlave_open (exact : Exact s) (found : s.procs[n]? = some p) {t : Pty} (there : s.ptys a = some t) (noctty : Bool) :
    Open (openSlave s n p a t noctty) (one (Object.slave a).ref) ∧ ∃ p', (openSlave s n p a t noctty).procs[n]? = some p' := by
  have hand : Open (s.setPty a { t with srefs := t.srefs + 1, slaveOpened := true }) (one (Object.slave a).ref) :=
    exact.takePty there rfl fun e => by cases e <;> rfl
  have there' : (s.setPty a { t with srefs := t.srefs + 1, slaveOpened := true }).ptys a = some { t with srefs := t.srefs + 1, slaveOpened := true } :=
    update_self ..
  have found' : (s.setPty a { t with srefs := t.srefs + 1, slaveOpened := true }).procs[n]? = some p := found
  unfold openSlave
  dsimp only
  generalize s.setPty a { t with srefs := t.srefs + 1, slaveOpened := true } = s' at hand there' found' ⊢
  split
  · split
    next free =>
      split
      · exact acquire_open hand found' free there'
      · exact ⟨hand, p, found'⟩
    next old had =>
      split
      · exact ⟨hand, p, found'⟩
      -- The terminal the process has lost is dropped before the new one is taken.
      have let_go : Open (s'.setProc n { p with ctty := none })
          fun x => one (Object.slave a).ref x + one ((some old).map (.pty .ctty)) x := hand.setProc found' fun x => by
        have moved := holds_ctty { p with ctty := none } (p := p) rfl x
        rw [had] at moved
        simp only [map_none, one_none] at moved
        omega
      have dropped : Open (cttyUnref (s'.setProc n { p with ctty := none }) { p with ctty := none } false (some old)) (one (Object.slave a).ref) :=
        .of_books (cttyUnref_books (Books.congr let_go fun x => (Nat.add_assoc ..).symm)) (cttyUnref_procs ..) fun _ => rfl
      have found'' : (cttyUnref (s'.setProc n { p with ctty := none }) { p with ctty := none } false (some old)).procs[n]?
          = some { p with ctty := none } := by
        rw [cttyUnref_procs]
        exact setProc_found found' _
      split
      next t' there'' =>
        split
        · exact acquire_open dropped found'' rfl there''
        · exact ⟨dropped, _, found''⟩
      · exact ⟨dropped, _, found''⟩
  · exact ⟨hand, p, found'⟩

theorem ptyOpenHook_open (exact : Exact s) (found : s.procs[n]? = some p) {r : Option Object}
    (opened : ptyOpenHook s n p o = (s', r)) : Open s' (one (r.bind Object.ref)) ∧ ∃ p', s'.procs[n]? = some p' := by
  have plain (r : Option Object) (unnamed : r.bind Object.ref = none) : Open s (one (r.bind Object.ref)) ∧ ∃ p', s.procs[n]? = some p' := by
    rw [unnamed]
    exact ⟨Books.congr exact fun x => by rw [one_none, Nat.add_zero], p, found⟩
  unfold ptyOpenHook at opened
  split at opened
  · cases opened
    exact plain _ rfl
  · cases opened
    exact plain _ rfl
  · split at opened
    · cases opened
      exact plain _ rfl
    next made =>
      cases opened
      obtain ⟨procs, books⟩ := ptyAlloc_books exact made
      exact ⟨.of_books books procs fun _ => rfl, p, by rw [procs]; exact found⟩
  · split at opened
    · cases opened
      exact plain _ rfl
    · cases opened
      exact plain _ rfl
    next a _ =>
      split at opened
      · cases opened
        exact plain _ rfl
      next t there =>
        cases opened
        have counted : Open (s.setPty a { t with srefs := t.srefs + 1, slaveOpened := true }) (one (some (.pty .slave a))) :=
          exact.takePty there rfl fun e => by cases e <;> rfl
        exact ⟨counted, p, found⟩
  · split at opened
    · cases opened
      exact plain _ rfl
    split at opened
    · cases opened
      exact plain _ rfl
    next t there =>
      rw [ptyOf_eq exact.sound] at there
      split at opened
      · cases opened
        exact plain _ rfl
      · cases opened
        exact openSlave_open exact found there o.noctty

theorem ptyOpenHook_object (opened : ptyOpenHook s n p o = (s', some object)) :
    (∀ i w, object ≠ .pipe i w) ∧ (∀ i, object ≠ .sock i) ∧ (o.node = .event → object.ref = none) := by
  unfold ptyOpenHook at opened
  repeat' split at opened
  all_goals
    cases opened
  all_goals
    refine ⟨(by rintro _ _ ⟨⟩), (by rintro _ ⟨⟩), ?_⟩
    simp_all [Object.ref]

theorem devfsOpenHook_object {object object' : Object} (unpiped : ∀ i w, object ≠ .pipe i w) (unsocked : ∀ i, object ≠ .sock i)
    (opened : devfsOpenHook s o object = (s', some object')) : (∀ i w, object' ≠ .pipe i w) ∧ ∀ i, object' ≠ .sock i := by
  unfold devfsOpenHook at opened
  split at opened
  · split at opened
    · cases opened
    split at opened
    · cases opened
    · cases opened
      exact ⟨nofun, nofun⟩
  · cases opened
    exact ⟨unpiped, unsocked⟩

theorem devfsOpenHook_open {r : Option Object} (books : Open s (one object.ref))
    (plain : o.node = .event → object.ref = none) (opened : devfsOpenHook s o object = (s', r)) :
    Open s' (one (r.bind Object.ref)) ∧ s'.procs = s.procs := by
  unfold devfsOpenHook at opened
  split at opened
  next event =>
    rw [plain event] at books
    split at opened
    · cases opened
      exact ⟨books, rfl⟩
    split at opened
    · cases opened
      exact ⟨books, rfl⟩
    next i free =>
      cases opened
      have unused : (s.clients i).used = false := by simpa using find?_some free
      have refs : ¬0 < (s.clients i).refs := fun counted => by
        rw [(books.sound.clients i).mpr counted] at unused
        cases unused
      have nothing : (s.clients i).refs = holdersOf s.procs (.client i) + one none (.client i) := Books.exact books (.client i)
      rw [one_none] at nothing
      refine ⟨Books.setClient books i _ (by simp) ?_ fun x apart => ?_, rfl⟩
      · simp only [bind_some, Object.ref, one_self]
        omega
      · simp only [bind_some, Object.ref, one_none]
        rw [one_some, if_neg apart]
  · cases opened
    exact ⟨books, rfl⟩

theorem openFd_exact (books : Open s (one object.ref)) (found : ∃ p, s.procs[n]? = some p)
    (unpiped : ∀ i w, object ≠ .pipe i w) (unsocked : ∀ i, object ≠ .sock i) : Exact (openFd s n o object) := by
  obtain ⟨p, found⟩ := found
  unfold openFd
  simp only [found]
  split
  · have same : fdEntryUnref 0 s object = inputObjUnref (ptyUnref s object) object := by
      cases object with
      | pipe i w => exact absurd rfl (unpiped i w)
      | sock i => exact absurd rfl (unsocked i)
      | _ => rfl
    rw [← same]
    have hand : Open s fun x => 0 + one object.ref x := Books.congr books fun x => by simp only [Nat.zero_add]
    exact (hand.drop 0 object).exact fun _ => rfl
  next fd free => exact books.fill found (unusedFrom_used free) o.cloexec o.flags

theorem open_exact (exact : Exact s) (found : s.procs[n]? = some p) (o : Opening) : Exact (ksysOpen s n p o) := by
  unfold ksysOpen
  split
  next s' opened =>
    obtain ⟨books, -⟩ := ptyOpenHook_open exact found opened
    exact books.exact fun x => one_none x
  next s' object opened =>
    obtain ⟨books, found'⟩ := ptyOpenHook_open exact found opened
    obtain ⟨unpiped, unsocked, plain⟩ := ptyOpenHook_object opened
    split
    next s'' refused =>
      obtain ⟨books, -⟩ := devfsOpenHook_open books plain refused
      exact books.exact fun x => one_none x
    next s'' object' given =>
      obtain ⟨books, procs⟩ := devfsOpenHook_open books plain given
      obtain ⟨unpiped, unsocked⟩ := devfsOpenHook_object unpiped unsocked given
      exact openFd_exact books (by rw [procs]; exact found') unpiped unsocked

end
end SecOS.Descriptors
