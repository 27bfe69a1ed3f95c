import SecOS.Tty

/-! Why a terminal has room for what it takes: a byte adds at most one to the sum of the queue and
the line that is edited. -/

namespace SecOS.Tty
open Library List

section
variable {t : Terminal}

section
variable (room : t.q.count < tqSize - 1) (v : Entry)
include room v

theorem qPush_room : qPush t v = { t with q := t.q.push v } := by
  unfold qPush qSpace
  rw [if_pos (Nat.sub_pos_of_lt room)]

theorem contents_qPush : (t.q.push v).contents = t.q.contents ++ [v] :=
  Ring.contents_push (Nat.add_lt_of_lt_sub room) v

theorem count_qPush : (t.q.push v).count = t.q.count + 1 :=
  Ring.count_push (Nat.add_lt_of_lt_sub room) v

end

def marked : List UInt8 → List Entry
  | [] => []
  | c :: rest => ⟨c, rest.isEmpty, false⟩ :: marked rest

theorem length_marked (bytes : List UInt8) : (marked bytes).length = bytes.length := by
  induction bytes with
  | nil => rfl
  | cons c rest ih => exact congrArg (· + 1) ih

theorem commitBytes_eq (bytes : List UInt8) : ∀ t, commitBytes bytes t = (marked bytes).foldl qPush t := by
  induction bytes with
  | nil => exact fun _ => rfl
  | cons c rest ih => exact fun t => ih (qPush t ⟨c, rest.isEmpty, false⟩)

theorem pushes_room (entries : List Entry) : ∀ {t : Terminal}, t.q.count + entries.length ≤ tqSize - 1 →
    ∃ q, entries.foldl qPush t = { t with q := q } ∧ q.contents = t.q.contents ++ entries := by
  induction entries with
  | nil => exact fun _ => ⟨_, rfl, (append_nil _).symm⟩
  | cons v rest ih =>
    intro t room
    rw [length_cons] at room
    have here : t.q.count < tqSize - 1 := by omega
    have next : (t.q.push v).count + rest.length ≤ tqSize - 1 := by
      rw [count_qPush here]
      omega
    obtain ⟨q, result, contents⟩ := ih (t := { t with q := t.q.push v }) next
    refine ⟨q, ?_, ?_⟩
    · rw [foldl_cons, qPush_room here, result]
    · rw [contents, contents_qPush here, append_assoc]
      rfl

theorem count_of_contents {q : Ring tqSize Entry} {entries : List Entry} (is : q.contents = t.q.contents ++ entries) :
    q.count = t.q.count + entries.length := by
  rw [← q.length_contents, is, length_append, t.q.length_contents]

theorem canonEraseOne_length (tio : Termios) (line : List UInt8) : (canonEraseOne tio line).length ≤ line.length := by
  induction line with
  | nil => exact Nat.le_refl _
  | cons c rest ih =>
    unfold canonEraseOne
    split
    · exact Nat.le_succ_of_le ih
    · exact Nat.le_succ _

theorem eraseWhile_length (tio : Termios) (p : UInt8 → Bool) (fuel : Nat) : ∀ line, (eraseWhile tio p fuel line).length ≤ line.length := by
  induction fuel with
  | zero => exact fun _ => Nat.le_refl _
  | succ fuel ih =>
    intro line
    cases line with
    | nil => exact Nat.le_refl _
    | cons c rest =>
      unfold eraseWhile
      split
      · exact Nat.le_trans (ih _) (canonEraseOne_length tio _)
      · exact Nat.le_refl _

theorem killLine_length (tio : Termios) (line : List UInt8) : (killLine tio line).length ≤ line.length := by
  unfold killLine
  split
  · exact Nat.zero_le _
  · exact eraseWhile_length ..

theorem wordErase_length (tio : Termios) (line : List UInt8) : (wordErase tio line).length ≤ line.length :=
  Nat.le_trans (eraseWhile_length ..) (eraseWhile_length ..)

def load (t : Terminal) : Nat := t.q.count + t.line.length

structure Fine (t : Terminal) : Prop where
  line : t.line.length ≤ ttyLine - 1
  lost : ∀ l ∈ t.lost, ∃ c, l = .line (ttyLine - 1) c

def Adds (t t' : Terminal) : Prop := load t' ≤ load t + 1 ∧ Fine t'

theorem Fine.edited (fine : Fine t) {line : List UInt8} (shorter : line.length ≤ t.line.length) : Adds t { t with line := line } :=
  ⟨Nat.le_succ_of_le (Nat.add_le_add_left shorter _), Nat.le_trans shorter fine.line, fine.lost⟩

theorem Fine.pushed (fine : Fine t) (room : load t < tqSize - 1) (v : Entry) : Adds t (qPush t v) := by
  have here : t.q.count < tqSize - 1 := Nat.lt_of_le_of_lt (Nat.le_add_right ..) room
  rw [qPush_room here]
  refine ⟨?_, fine.line, fine.lost⟩
  change (t.q.push v).count + t.line.length ≤ t.q.count + t.line.length + 1
  rw [count_qPush here]
  omega

theorem Fine.stored (fine : Fine t) (c : UInt8) : Adds t (store t c) := by
  unfold store
  split
  next short => exact ⟨Nat.le_of_eq (Nat.add_assoc ..).symm, short, fine.lost⟩
  next full =>
    refine ⟨Nat.le_succ _, fine.line, fun l member => ?_⟩
    rcases mem_append.mp member with old | new
    · exact fine.lost l old
    · have exact : t.line.length = ttyLine - 1 := Nat.le_antisymm fine.line (Nat.le_of_not_lt full)
      exact ⟨c, (mem_singleton.mp new).trans (by rw [exact])⟩

theorem commit_room (fits : load t ≤ tqSize - 1) :
    ∃ q, commitBytes t.line.reverse t = { t with q := q } ∧ q.contents = t.q.contents ++ marked t.line.reverse := by
  rw [commitBytes_eq]
  refine pushes_room _ ?_
  rw [length_marked, length_reverse]
  exact fits

theorem commit_adds (lost : ∀ l ∈ t.lost, ∃ c, l = .line (ttyLine - 1) c) (fits : load t ≤ tqSize - 1) (eof : Bool)
    (some : ¬(eof = true ∧ t.line = [])) : load (canonCommit t eof) = load t ∧ Fine (canonCommit t eof) := by
  obtain ⟨q, result, contents⟩ := commit_room fits
  unfold canonCommit
  rw [if_neg some, result]
  refine ⟨?_, Nat.zero_le _, lost⟩
  have count := count_of_contents contents
  rw [length_marked, length_reverse] at count
  exact count

theorem endLine_short (fine : Fine t) (c : UInt8) : endLine t c = { t with line := c :: t.line } := by
  unfold endLine
  rw [if_pos (Nat.lt_of_le_of_lt fine.line (by decide))]

theorem Fine.keyed (fine : Fine t) (room : load t < tqSize - 1) (c : UInt8) : Adds t (canonByte t c) := by
  have same : Adds t t := ⟨Nat.le_succ _, fine⟩
  unfold canonByte
  split
  · exact ⟨Nat.le_succ _, fine.line, fine.lost⟩
  split
  · exact fine.edited (canonEraseOne_length ..)
  split
  · exact fine.edited (killLine_length ..)
  split
  · exact fine.edited (wordErase_length ..)
  split
  · exact same
  split
  · by_cases empty : t.line = []
    · unfold canonCommit
      rw [if_pos ⟨rfl, empty⟩]
      exact fine.pushed room tqEof
    · obtain ⟨kept, after⟩ := commit_adds fine.lost (Nat.le_of_lt room) true fun both => empty both.2
      exact ⟨Nat.le_succ_of_le (Nat.le_of_eq kept), after⟩
  split
  · rw [endLine_short fine]
    have fits : load { t with line := c :: t.line } ≤ tqSize - 1 := room
    obtain ⟨kept, after⟩ := commit_adds (t := { t with line := c :: t.line }) fine.lost fits false fun both => nomatch both.1
    exact ⟨Nat.le_of_eq kept, after⟩
  · exact fine.stored c

theorem Fine.processed (fine : Fine t) (room : load t < tqSize - 1) (c : UInt8) (now : Nat) : Adds t (processByte t c now) := by
  have same : Adds t t := ⟨Nat.le_succ _, fine⟩
  unfold processByte
  split
  · have quoted : Fine { t with lnext := false } := ⟨fine.line, fine.lost⟩
    unfold literalByte
    dsimp only
    split
    · exact quoted.stored _
    · exact quoted.pushed room _
  · split
    · exact same
    next c _ =>
      unfold inputByte
      split
      · split
        · exact same
        have empty : load (flushInput t) = 0 := by
          change t.q.clear.count + 0 = 0
          rw [Ring.count_eq]
          rfl
        exact ⟨by rw [empty]; exact Nat.zero_le _, Nat.zero_le _, fine.lost⟩
      · split
        · obtain ⟨adds, after⟩ := fine.pushed room ⟨c, false, false⟩
          exact ⟨adds, after.line, after.lost⟩
        · exact fine.keyed room c

structure Roomy (t : Terminal) : Prop extends Fine t where
  fits : load t ≤ tqSize - 1

theorem typed_roomy (bytes : List UInt8) (now : Nat) : ∀ {t : Terminal}, Fine t → load t + bytes.length ≤ tqSize - 1 →
    Roomy (bytes.foldl (fun t c => processByte t c now) t) := by
  induction bytes with
  | nil => exact fun fine fits => ⟨fine, fits⟩
  | cons c rest ih =>
    intro t fine fits
    rw [length_cons] at fits
    have room : load t < tqSize - 1 := by omega
    obtain ⟨adds, after⟩ := fine.processed room c now
    have later : load (processByte t c now) + rest.length ≤ tqSize - 1 := by omega
    exact ih after later

theorem ttyInputRoom_pos (room : 0 < ttyInputRoom t) : ttyInputRoom t = qSpace t - t.line.length - 1 := by
  unfold ttyInputRoom at room ⊢
  dsimp only at room ⊢
  split at room
  next full => rw [if_pos full]
  next short =>
    split at room
    next some => rw [if_neg short, if_pos some]
    · exact absurd room (Int.lt_irrefl 0)

theorem Roomy.writes (roomy : Roomy t) (bytes : List UInt8) (now : Nat) : ∃ n, load t + (bytes.take n).length ≤ tqSize - 1 ∧
    ptyWrite t bytes now = ((bytes.take n).foldl (fun t c => processByte t c now) t, n) := by
  have fits := roomy.fits
  unfold ptyWrite
  split
  · exact ⟨0, fits, rfl⟩
  split
  · exact ⟨0, fits, rfl⟩
  next room =>
    refine ⟨_, ?_, rfl⟩
    have room := ttyInputRoom_pos (Int.not_le.mp room)
    rw [length_take]
    unfold load qSpace at *
    omega

theorem Roomy.written (roomy : Roomy t) (bytes : List UInt8) (now : Nat) : Roomy (ptyWrite t bytes now).1 := by
  obtain ⟨n, fits, result⟩ := roomy.writes bytes now
  rw [result]
  exact typed_roomy _ now roomy.toFine fits

theorem Roomy.drained (roomy : Roomy t) {q : Ring tqSize Entry} (less : q.count ≤ t.q.count) (pid start : Nat) :
    Roomy { t with q := q, vtimePid := pid, vtimeStart := start } :=
  ⟨⟨roomy.line, roomy.lost⟩, Nat.le_trans (Nat.add_le_add_right less _) roomy.fits⟩

theorem pop_less (some : 0 < t.q.count) : t.q.pop.count ≤ t.q.count := Nat.le_of_succ_le (Nat.le_of_eq (Ring.count_pop some))

theorem takeLine_less (len : Nat) : ∀ {t : Terminal}, ∃ q, (takeLine len t).1 = { t with q := q } ∧ q.count ≤ t.q.count := by
  induction len with
  | zero => exact fun {t} => ⟨t.q, rfl, le_rfl⟩
  | succ len ih =>
    intro t
    unfold takeLine
    split
    · exact ⟨t.q, rfl, le_rfl⟩
    next some =>
      have less := pop_less (Nat.pos_of_ne_zero some)
      split
      · exact ⟨t.q, rfl, le_rfl⟩
      split
      · exact ⟨t.q.pop, rfl, less⟩
      · obtain ⟨q, result, fewer⟩ := ih (t := { t with q := t.q.pop })
        exact ⟨q, result, Nat.le_trans fewer less⟩

theorem takeRaw_less (left : Nat) : ∀ {len : Nat} {t : Terminal}, left ≤ t.q.count →
    ∃ q, (takeRaw left len t).1 = { t with q := q } ∧ q.count ≤ t.q.count := by
  induction left with
  | zero => exact fun {_ t} _ => ⟨t.q, rfl, le_rfl⟩
  | succ left ih =>
    intro len t enough
    cases len with
    | zero => exact ⟨t.q, rfl, le_rfl⟩
    | succ len =>
      have some : 0 < t.q.count := Nat.zero_lt_of_lt enough
      have rest : left ≤ t.q.pop.count := by
        have popped := Ring.count_pop some
        omega
      unfold takeRaw
      split
      · obtain ⟨q, result, fewer⟩ := ih (t := { t with q := t.q.pop }) rest
        exact ⟨q, result, Nat.le_trans fewer (pop_less some)⟩
      · obtain ⟨q, result, fewer⟩ := ih (t := { t with q := t.q.pop }) rest
        exact ⟨q, result, Nat.le_trans fewer (pop_less some)⟩

theorem take_less (t : Terminal) (len : Nat) : ∃ q, (take t len).1 = { t with q := q } ∧ q.count ≤ t.q.count := by
  unfold take
  split
  · split
    next first => exact ⟨t.q.pop, rfl, pop_less first.1⟩
    · exact takeLine_less len
  · exact takeRaw_less _ le_rfl

theorem read_cases (t : Terminal) (len : Nat) (r : Reader) (clock : Clock) : ∃ pid start,
    (0 < len ∧ (t.tio.icanon = true → lineReady t = true) ∧
      ttyLdiscRead t len r clock = found (take { t with vtimePid := pid, vtimeStart := start } len)) ∨
    (∃ e, ttyLdiscRead t len r clock = ({ t with vtimePid := pid, vtimeStart := start }, .error e)) ∨
    (t.tio.icanon = false ∧ ttyLdiscRead t len r clock = ({ t with vtimePid := pid, vtimeStart := start }, .ok [])) := by
  have waits : ∀ t : Terminal, ∃ pid e, waiting t r = ({ t with vtimePid := pid }, .error e) := by
    intro t
    unfold waiting
    split
    · exact ⟨_, _, rfl⟩
    · exact ⟨_, _, rfl⟩
  unfold ttyLdiscRead
  split
  · exact ⟨t.vtimePid, t.vtimeStart, .inr (.inl ⟨_, rfl⟩)⟩
  next some =>
    have some := Nat.pos_of_ne_zero some
    split
    · exact ⟨t.vtimePid, t.vtimeStart, .inr (.inl ⟨_, rfl⟩)⟩
    split
    · split
      next ready =>
        refine ⟨t.vtimePid, t.vtimeStart, .inl ⟨some, fun canon => ?_, rfl⟩⟩
        rw [anyReady, if_pos canon] at ready
        exact ready
      · exact ⟨t.vtimePid, t.vtimeStart, .inr (.inl ⟨_, rfl⟩)⟩
    split
    · split
      next ready => exact ⟨t.vtimePid, t.vtimeStart, .inl ⟨some, fun _ => ready, rfl⟩⟩
      · obtain ⟨pid, e, result⟩ := waits t
        exact ⟨pid, t.vtimeStart, .inr (.inl ⟨e, result⟩)⟩
    next raw =>
      have raw' : t.tio.icanon = true → lineReady t = true := fun canon => absurd canon raw
      unfold readRaw
      split
      · exact ⟨t.vtimePid, t.vtimeStart, .inl ⟨some, raw', rfl⟩⟩
      split
      · exact ⟨0, t.vtimeStart, .inl ⟨some, raw', rfl⟩⟩
      split
      · exact ⟨t.vtimePid, t.vtimeStart, .inl ⟨some, raw', rfl⟩⟩
      split
      · split
        · exact ⟨0, t.vtimeStart, .inl ⟨some, raw', rfl⟩⟩
        have armed : ∃ pid start, arm t r clock = { t with vtimePid := pid, vtimeStart := start } := by
          unfold arm
          split
          · exact ⟨_, _, rfl⟩
          · exact ⟨_, _, rfl⟩
        obtain ⟨pid, start, armed⟩ := armed
        rw [armed]
        split
        · exact ⟨0, start, .inr (.inr ⟨Bool.not_eq_true _ ▸ raw, rfl⟩)⟩
        · obtain ⟨pid', e, result⟩ := waits { t with vtimePid := pid, vtimeStart := start }
          exact ⟨pid', start, .inr (.inl ⟨e, result⟩)⟩
      · obtain ⟨pid, e, result⟩ := waits t
        exact ⟨pid, t.vtimeStart, .inr (.inl ⟨e, result⟩)⟩

theorem Roomy.read (roomy : Roomy t) (len : Nat) (r : Reader) (clock : Clock) : Roomy (ttyLdiscRead t len r clock).1 := by
  obtain ⟨pid, start, ⟨-, -, result⟩ | ⟨e, result⟩ | ⟨-, result⟩⟩ := read_cases t len r clock
  · obtain ⟨q, taken, less⟩ := take_less { t with vtimePid := pid, vtimeStart := start } len
    rw [result]
    unfold found
    rw [taken]
    exact roomy.drained less pid start
  · rw [result]
    exact roomy.drained le_rfl pid start
  · rw [result]
    exact roomy.drained le_rfl pid start

theorem overwrite_count (q : Ring tqSize Entry) (slots : Nat → Entry) : (q.overwrite slots).count = q.count := rfl

theorem Roomy.set (roomy : Roomy t) (tio : Termios) : Roomy (tcsets t tio) := by
  unfold tcsets
  dsimp only
  split
  · have fits : t.q.count + (t.line.reverse.map fun c => (⟨c, false, false⟩ : Entry)).length ≤ tqSize - 1 := by
      rw [length_map, length_reverse]
      exact roomy.fits
    obtain ⟨q, result, contents⟩ := pushes_room (t := { t with tio := tio }) _ fits
    rw [foldl_map] at result
    rw [result]
    have count := count_of_contents (t := { t with tio := tio }) contents
    rw [length_map, length_reverse] at count
    refine ⟨⟨Nat.zero_le _, roomy.lost⟩, ?_⟩
    change (plainEofs q).count + 0 ≤ tqSize - 1
    rw [plainEofs, overwrite_count, count]
    exact roomy.fits
  · split
    · exact ⟨⟨roomy.line, roomy.lost⟩, roomy.fits⟩
    · exact ⟨⟨roomy.line, roomy.lost⟩, roomy.fits⟩

theorem roomy_step (s : Session) (a : Action) (roomy : Roomy s.tty) : Roomy (step s a).tty := by
  cases a with
  | write bytes now => exact roomy.written bytes now
  | read len r clock => exact roomy.read len r clock
  | set tio => exact roomy.set tio

theorem opened_empty (tio : Termios) : (opened tio).q.count = 0 := by
  rw [Ring.count_eq]
  rfl

theorem roomy_opened (tio : Termios) : Roomy (opened tio) := by
  refine ⟨⟨Nat.zero_le _, nofun⟩, ?_⟩
  unfold load
  rw [opened_empty]
  exact Nat.zero_le _

end
end SecOS.Tty
