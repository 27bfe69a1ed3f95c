import SecOS.Descriptors
import SecOS.Library.Counting

/-! Who holds a reference to what: taking one adds to the counter of the object, dropping one
takes from it and frees the object with the last. -/

namespace SecOS.Descriptors
open Library Function

inductive End where
  | master
  | slave
  | ctty
deriving DecidableEq

inductive Ref where
  | pipe (i : Fin pipeMax) (write : Bool)
  | sock (i : Fin Tcp.maxSock)
  | pty (e : End) (a : Nat)
  | client (i : Fin inputMaxClient)
deriving DecidableEq

def Object.ref : Object → Option Ref
  | .null => none
  | .file _ => none
  | .pipe i write => some (.pipe i write)
  | .sock i => some (.sock i)
  | .master a => some (.pty .master a)
  | .slave a => some (.pty .slave a)
  | .client i => some (.client i)

def Fd.ref (e : Fd) : Option Ref := if e.used then e.object.ref else none

def one (r : Option Ref) (x : Ref) : Nat := if r = some x then 1 else 0

/-- The references of the entries of a process and of its controlling terminal. -/
def Process.holds (p : Process) (x : Ref) : Nat := ∑ i, one (p.fds i).ref x + one (p.ctty.map (.pty .ctty)) x

def holdersOf (procs : List Process) (x : Ref) : Nat := (procs.map fun p => p.holds x).sum

def Pty.count (p : Pty) : End → Nat
  | .master => p.mrefs
  | .slave => p.srefs
  | .ctty => p.crefs

def Pipe.count (p : Pipe) (write : Bool) : Nat := if write then p.writers else p.readers

def sockCount (k : Tcp.Stack) (i : Fin Tcp.maxSock) : Nat := if (k.socks i).used then (k.socks i).refs.toNat else 0

def counter (s : System) : Ref → Nat
  | .pipe i write => (s.pipes i).count write
  | .sock i => sockCount s.net i
  | .pty e a => ((s.ptys a).map (·.count e)).getD 0
  | .client i => (s.clients i).refs

/-- An object is in use exactly while a counter of it is not zero. -/
structure Sound (s : System) : Prop where
  pipes : ∀ i, (s.pipes i).used = true ↔ 0 < (s.pipes i).readers + (s.pipes i).writers
  socks : ∀ i, (s.net.socks i).used = true → 0 < (s.net.socks i).refs
  ptys : ∀ a p, s.ptys a = some p → 0 < p.mrefs + p.srefs + p.crefs ∧ s.slots p.idx = some a
  slots : ∀ i a, s.slots i = some a → ∃ p, s.ptys a = some p ∧ p.idx = i
  clients : ∀ i, (s.clients i).used = true ↔ 0 < (s.clients i).refs

/-- The counters agree with what is held. -/
structure Books (s : System) (held : Ref → Nat) : Prop where
  sound : Sound s
  exact : ∀ x, counter s x = held x

section
variable {s s' : System} {held held' : Ref → Nat} {a : Nat} {p p' : Pty}

theorem Books.congr (books : Books s held) (same : ∀ x, held x = held' x) : Books s held' :=
  ⟨books.sound, fun x => (books.exact x).trans (same x)⟩

theorem Books.socks (books : Books s held) (i : Fin Tcp.maxSock) : sockCount s.net i = held (.sock i) := books.exact (.sock i)

theorem Books.procs (books : Books s held) (procs : List Process) : Books { s with procs := procs } held := by
  refine ⟨⟨books.sound.pipes, books.sound.socks, books.sound.ptys, books.sound.slots, books.sound.clients⟩, fun x => ?_⟩
  rw [← books.exact x]
  cases x <;> rfl

theorem one_none (x : Ref) : one none x = 0 := if_neg nofun

theorem one_some (r x : Ref) : one (some r) x = if x = r then 1 else 0 := by
  unfold one
  by_cases same : x = r
  · rw [if_pos same, if_pos (congrArg some same.symm)]
  · rw [if_neg same, if_neg fun equal => same (Option.some.inj equal).symm]

theorem one_self (r : Ref) : one (some r) r = 1 := if_pos rfl

theorem Books.setPipe (books : Books s held) (i : Fin pipeMax) (q : Pipe) (used : q.used = true ↔ 0 < q.readers + q.writers)
    (here : ∀ w, q.count w = held' (.pipe i w)) (others : ∀ x, (∀ w, x ≠ .pipe i w) → held' x = held x) :
    Books { s with pipes := update s.pipes i q } held' := by
  refine ⟨⟨fun j => ?_, books.sound.socks, books.sound.ptys, books.sound.slots, books.sound.clients⟩, fun x => ?_⟩
  · dsimp only
    by_cases same : j = i
    · subst same
      rw [update_self]
      exact used
    · rw [update_of_ne same]
      exact books.sound.pipes j
  · cases x with
    | pipe j w =>
      by_cases same : j = i
      · subst same
        simp only [counter, update_self]
        exact here w
      · rw [others _ (fun w equal => same (by cases equal; rfl)), ← books.exact]
        simp only [counter, update_of_ne same]
    | sock j => exact (books.exact (.sock j)).trans (others _ (fun w equal => by cases equal)).symm
    | pty e a => exact (books.exact (.pty e a)).trans (others _ (fun w equal => by cases equal)).symm
    | client j => exact (books.exact (.client j)).trans (others _ (fun w equal => by cases equal)).symm

theorem Pipe.count_pos (p : Pipe) : 0 < p.readers + p.writers ↔ ∃ w, 0 < p.count w := by
  constructor
  · intro some
    by_cases readers : 0 < p.readers
    · exact ⟨false, readers⟩
    · exact ⟨true, show 0 < p.writers by omega⟩
  · rintro ⟨w, some⟩
    unfold Pipe.count at some
    split at some <;> omega

theorem Pipe.take_count (p : Pipe) (w w' : Bool) : (p.take w).count w' = p.count w' + if w' = w then 1 else 0 := by
  cases w <;> cases w' <;> rfl

theorem Pipe.drop_count (p : Pipe) (w w' : Bool) : (p.drop w).count w' = p.count w' - if w' = w then 1 else 0 := by
  cases w <;> cases w' <;> rfl

theorem Pipe.take_used (p : Pipe) (w : Bool) : (p.take w).used = p.used := by cases w <;> rfl

theorem Pipe.drop_used (p : Pipe) (w : Bool) : (p.drop w).used = p.used := by cases w <;> rfl

theorem Pipe.settle_count (p : Pipe) (w : Bool) : p.settle.count w = p.count w := by
  unfold Pipe.settle
  split <;> rfl

theorem Pipe.settle_used {p : Pipe} (used : p.used = true) : p.settle.used = true ↔ 0 < p.settle.readers + p.settle.writers := by
  unfold Pipe.settle
  split
  next gone => simp [gone]
  · simp only [used, true_iff]
    omega

theorem one_pipe (i : Fin pipeMax) (w w' : Bool) : one (some (.pipe i w)) (.pipe i w') = if w' = w then 1 else 0 := by
  rw [one_some]
  cases w <;> cases w' <;> simp

section
variable (books : Books s held) {i : Fin pipeMax} {w : Bool} (live : 0 < held (.pipe i w))
include books live

theorem Books.pipe_used : (s.pipes i).used = true := by
  rw [books.sound.pipes i, Pipe.count_pos]
  exact ⟨w, by rw [← books.exact] at live; exact live⟩

theorem pipeRef_books :
    Books (pipeRef s i w) fun x => held x + one (some (.pipe i w)) x := by
  refine books.setPipe i _ ?_ (fun w' => ?_) (fun x apart => ?_)
  · rw [Pipe.take_used, books.pipe_used live, Pipe.count_pos]
    simp only [true_iff]
    exact ⟨w, by rw [Pipe.take_count, if_pos rfl]; omega⟩
  · rw [Pipe.take_count, one_pipe, ← books.exact]
    rfl
  · rw [one_some, if_neg (apart w), Nat.add_zero]

end

theorem pipeUnref_books {i : Fin pipeMax} {w : Bool} (books : Books s fun x => held x + one (some (.pipe i w)) x) :
    Books (pipeUnref s i w) held := by
  have live : 0 < held (.pipe i w) + one (some (.pipe i w)) (.pipe i w) := by rw [one_self]; omega
  refine books.setPipe i _ (Pipe.settle_used ((Pipe.drop_used _ w).trans (books.pipe_used live))) (fun w' => ?_) (fun x apart => ?_)
  · have count : (s.pipes i).count w' = held (.pipe i w') + one (some (.pipe i w)) (.pipe i w') := books.exact (.pipe i w')
    rw [one_pipe] at count
    rw [Pipe.settle_count, Pipe.drop_count]
    omega
  · rw [one_some, if_neg (apart w), Nat.add_zero]

theorem pipeAlloc_books (books : Books s held) {i : Fin pipeMax} (made : pipeAlloc s = some (s', i)) :
    s'.procs = s.procs ∧ Books s' fun x => held x + one (some (.pipe i false)) x + one (some (.pipe i true)) x := by
  unfold pipeAlloc at made
  split at made
  · cases made
  next j found =>
    cases made
    have unused : (s.pipes i).used = false := by simpa using List.find?_some found
    have none : ¬0 < (s.pipes i).readers + (s.pipes i).writers := fun some => by
      have inUse := (books.sound.pipes i).mpr some
      rw [unused] at inUse
      cases inUse
    refine ⟨rfl, books.setPipe i _ (by simp) (fun w => ?_) (fun x apart => ?_)⟩
    · have count : (s.pipes i).count w = held (.pipe i w) := books.exact (.pipe i w)
      have zero : ¬0 < (s.pipes i).count w := fun some => none ((Pipe.count_pos _).mpr ⟨w, some⟩)
      rw [one_pipe, one_pipe]
      cases w <;> simp [Pipe.count] at count zero ⊢ <;> omega
    · rw [one_some, one_some, if_neg (apart _), if_neg (apart _)]
      rfl

variable {net : Tcp.Stack}

theorem Books.setNet (books : Books s held) (used : ∀ i, (net.socks i).used = true → 0 < (net.socks i).refs)
    (here : ∀ i, sockCount net i = held' (.sock i)) (others : ∀ x, (∀ i, x ≠ .sock i) → held' x = held x) :
    Books { s with net := net } held' := by
  refine ⟨⟨books.sound.pipes, used, books.sound.ptys, books.sound.slots, books.sound.clients⟩, fun x => ?_⟩
  cases x with
  | sock i => exact here i
  | pipe i w => exact (books.exact (.pipe i w)).trans (others _ (fun i equal => by cases equal)).symm
  | pty e a => exact (books.exact (.pty e a)).trans (others _ (fun i equal => by cases equal)).symm
  | client i => exact (books.exact (.client i)).trans (others _ (fun i equal => by cases equal)).symm

theorem Books.setSock (books : Books s held) {i : Fin Tcp.maxSock}
    (used : (net.socks i).used = true → 0 < (net.socks i).refs) (here : sockCount net i = held' (.sock i))
    (rest : ∀ j, j ≠ i → net.socks j = s.net.socks j) (others : ∀ x, x ≠ .sock i → held' x = held x) :
    Books { s with net := net } held' := by
  apply books.setNet
  · intro j
    by_cases same : j = i
    · rw [same]
      exact used
    · rw [rest j same]
      exact books.sound.socks j
  · intro j
    by_cases same : j = i
    · rw [same]
      exact here
    · rw [others _ (fun equal => same (by cases equal; rfl)), ← books.exact]
      unfold sockCount
      rw [rest j same]
      rfl
  · exact fun x apart => others x (apart i)

theorem put_same (k : Tcp.Stack) (i : Fin Tcp.maxSock) (t : Tcp.Sock) : (k.put i t).socks i = t := update_self _ _ _

theorem put_other (k : Tcp.Stack) {i j : Fin Tcp.maxSock} (t : Tcp.Sock) (apart : j ≠ i) : (k.put i t).socks j = k.socks j :=
  update_of_ne apart _ _

section
variable (books : Books s held) {i : Fin Tcp.maxSock} (live : 0 < held (.sock i))
include books live

theorem Books.sock_used : (s.net.socks i).used = true := by
  have count := books.socks i
  unfold sockCount at count
  split at count
  next used => exact used
  · omega

theorem sockRef_books :
    Books { s with net := Tcp.lRef s.net i } fun x => held x + one (some (.sock i)) x := by
  have used := books.sock_used live
  have positive := books.sound.socks i used
  have count := books.socks i
  unfold Tcp.lRef
  rw [if_pos used]
  refine books.setSock (i := i) ?_ ?_ (fun j apart => put_other _ _ apart) (fun x apart => ?_)
  · rw [put_same]
    intro _
    dsimp only
    omega
  · rw [one_self, ← count]
    unfold sockCount
    rw [put_same]
    simp only [used, ↓reduceIte]
    omega
  · rw [one_some, if_neg apart, Nat.add_zero]

end

theorem sockUnref_books {i : Fin Tcp.maxSock} (now : Nat) (books : Books s fun x => held x + one (some (.sock i)) x) :
    Books { s with net := Tcp.lUnref now s.net i } held := by
  have count := books.socks i
  rw [one_self] at count
  have used : (s.net.socks i).used = true := books.sock_used (by rw [one_self]; omega)
  have positive := books.sound.socks i used
  unfold sockCount at count
  rw [if_pos used] at count
  have others : ∀ x, x ≠ Ref.sock i → held x = held x + one (some (.sock i)) x := fun x apart => by
    rw [one_some, if_neg apart, Nat.add_zero]
  unfold Tcp.lUnref
  rw [if_pos used]
  dsimp only
  rw [put_same]
  split
  next last =>
    -- the last reference: the socket is released
    unfold Tcp.sockRelease
    dsimp only
    refine books.setSock (i := i) ?_ ?_ (fun j apart => ?_) others
    · rw [put_same]
      intro impossible
      cases impossible
    · unfold sockCount
      rw [put_same]
      simp only [Bool.false_eq_true, ↓reduceIte]
      dsimp only at last
      omega
    · rw [put_other _ _ apart]
      split
      · exact put_other _ _ apart
      · exact put_other _ _ apart
  · refine books.setSock (i := i) ?_ ?_ (fun j apart => put_other _ _ apart) others
    · rw [put_same]
      intro _
      omega
    · unfold sockCount
      rw [put_same]
      simp only [used, ↓reduceIte]
      omega

theorem create_books (books : Books s held) {stream : Bool} {i : Fin Tcp.maxSock}
    (made : Tcp.lCreate stream s.net = (net, .ok i)) :
    Books { s with net := net } (fun x => held x + one (some (.sock i)) x) := by
  unfold Tcp.lCreate at made
  split at made
  · cases made
  next j found =>
    cases made
    have unused : (s.net.socks i).used = false := by simpa using List.find?_some found
    have count := books.socks i
    refine books.setSock (i := i) ?_ ?_ (fun j apart => put_other _ _ apart) (fun x apart => ?_)
    · rw [put_same]
      intro _
      exact Int.one_pos
    · rw [one_self, ← count]
      unfold sockCount
      rw [put_same, unused]
      rfl
    · rw [one_some, if_neg apart, Nat.add_zero]

theorem accept_books (books : Books s held) {l : Fin Tcp.maxSock} {i : Fin Tcp.maxSock}
    (taken : Tcp.lAccept s.net l = (net, .ok i)) : Books { s with net := net } fun x => held x + one (some (.sock i)) x := by
  unfold Tcp.lAccept at taken
  dsimp only at taken
  split at taken
  · cases taken
  split at taken
  · cases taken
  next c _ =>
    split at taken
    · cases taken
    split at taken
    · cases taken
    next k j made =>
      have created := create_books books made
      split at taken
      · cases taken
      cases taken
      have count : sockCount k i = held (.sock i) + one (some (.sock i)) (.sock i) := created.exact (.sock i)
      refine created.setSock (i := i) ?_ ?_ (fun j apart => put_other _ _ apart) (fun _ _ => rfl)
      · rw [put_same]
        exact created.sound.socks i
      · rw [← count]
        unfold sockCount
        rw [put_same]

theorem refused_books (books : Books s held) {l : Fin Tcp.maxSock} {e : Tcp.Errno}
    (refused : Tcp.lAccept s.net l = (net, .error e)) : Books { s with net := net } held := by
  unfold Tcp.lAccept at refused
  dsimp only at refused
  split at refused
  · cases refused
    exact books
  split at refused
  · cases refused
    exact books
  split at refused
  · cases refused
    exact books
  split at refused
  next k e made =>
    unfold Tcp.lCreate at made
    split at made
    · cases made
      cases refused
      exact books
    · cases made
  next k j made =>
    have created := create_books books made
    split at refused
    · cases refused
      have unused : (s.net.socks j).used = false := by
        unfold Tcp.lCreate at made
        split at made
        · cases made
        next found =>
          cases made
          simpa using List.find?_some found
      have count := books.socks j
      refine created.setSock (i := j) ?_ ?_ (fun j apart => put_other _ _ apart) (fun x apart => ?_)
      · rw [put_same]
        intro impossible
        cases impossible
      · rw [← count]
        unfold sockCount
        rw [put_same, unused]
        rfl
      · rw [one_some, if_neg apart, Nat.add_zero]
    · cases refused

end

/-- The sockets in use and their counters are what they were. -/
def SameRefs (k k' : Tcp.Stack) : Prop := ∀ i, (k'.socks i).used = (k.socks i).used ∧ (k'.socks i).refs = (k.socks i).refs

section
variable {k k' : Tcp.Stack}

theorem SameRefs.refl (k : Tcp.Stack) : SameRefs k k := fun _ => ⟨rfl, rfl⟩

theorem SameRefs.after (r : Tcp.Table × List Tcp.Segment) : SameRefs k (k.after r) := fun _ => ⟨rfl, rfl⟩

theorem SameRefs.put (same : SameRefs k k') {i : Fin Tcp.maxSock} {t : Tcp.Sock} (used : t.used = (k.socks i).used)
    (refs : t.refs = (k.socks i).refs) : SameRefs k (k'.put i t) := by
  intro j
  by_cases here : j = i
  · rw [here, put_same]
    exact ⟨used, refs⟩
  · rw [put_other _ _ here]
    exact same j

theorem connect_refs (o : Tcp.Outside) (ip : BitVec 32) (port : Nat) (k : Tcp.Stack) (i : Fin Tcp.maxSock) :
    SameRefs k (Tcp.lConnect o ip port k i).1 := by
  unfold Tcp.lConnect
  dsimp only
  split
  · exact .refl k
  split
  · exact .refl k
  split
  · exact .refl k
  split
  · exact .refl k
  split
  · split
    · exact fun _ => ⟨rfl, rfl⟩
    · exact (SameRefs.after _).put rfl rfl
  · split
    · exact .refl k
    split
    · exact (SameRefs.refl k).put rfl rfl
    split
    · exact (SameRefs.after _).put rfl rfl
    · exact .refl k

theorem listen_refs (o : Tcp.Outside) (backlog : Nat) (k : Tcp.Stack) (i : Fin Tcp.maxSock) :
    SameRefs k (Tcp.lListen o backlog k i).1 := by
  unfold Tcp.lListen
  dsimp only
  split
  · exact .refl k
  split
  · exact .refl k
  split
  · exact .refl k
  split
  · exact .refl k
  split
  · exact fun _ => ⟨rfl, rfl⟩
  split
  · exact fun _ => ⟨rfl, rfl⟩
  next t _ =>
    have table : SameRefs k { k with table := t } := fun _ => ⟨rfl, rfl⟩
    exact table.put rfl rfl

theorem bind_refs (port : Nat) (k : Tcp.Stack) (i : Fin Tcp.maxSock) : SameRefs k (Tcp.lBind port k i).1 := by
  unfold Tcp.lBind
  dsimp only
  split
  · exact .refl k
  split
  · exact .refl k
  split
  · exact .refl k
  · exact (SameRefs.refl k).put rfl rfl

theorem send_refs (o : Tcp.Outside) (data : List UInt8) (k : Tcp.Stack) (i : Fin Tcp.maxSock) : SameRefs k (Tcp.lSend o data k i).1 := by
  unfold Tcp.lSend
  dsimp only
  split
  · exact .refl k
  split
  · exact .refl k
  split
  · split
    · exact .refl k
    split
    · exact .refl k
    · split <;> exact .after _
  · exact .refl k

theorem recv_refs (len : Nat) (k : Tcp.Stack) (i : Fin Tcp.maxSock) : SameRefs k (Tcp.lRecv len k i).1 := by
  unfold Tcp.lRecv
  dsimp only
  split
  · exact .refl k
  split
  · split <;> exact .after _
  · exact .refl k

/-- Nothing but descriptors makes or drops references to sockets. -/
theorem netEvent_refs {e : Event} {t : Tcp.Event} (other : netEvent e = some t) (k : Tcp.Stack) : SameRefs k (Tcp.step k t) := by
  unfold netEvent at other
  split at other
  next i port =>
    cases other
    exact bind_refs port _ i
  next o i ip port =>
    cases other
    exact connect_refs o ip port _ i
  next o i backlog =>
    cases other
    exact listen_refs o backlog _ i
  next o i data =>
    cases other
    exact send_refs o data _ i
  next i len =>
    cases other
    exact recv_refs len _ i
  · cases other
    unfold Tcp.step Tcp.stepOn
    dsimp only
    split
    · exact fun _ => ⟨rfl, rfl⟩
    · exact fun _ => ⟨rfl, rfl⟩
  · cases other
    exact fun _ => ⟨rfl, rfl⟩
  · cases other

theorem SameRefs.books {s : System} {held : Ref → Nat} (same : SameRefs s.net k') (books : Books s held) : Books { s with net := k' } held := by
  refine books.setNet (fun i => ?_) (fun i => ?_) (fun _ _ => rfl)
  · rw [(same i).1, (same i).2]
    exact books.sound.socks i
  · have count := books.socks i
    rw [← count]
    unfold sockCount
    rw [(same i).1, (same i).2]

end
end SecOS.Descriptors
