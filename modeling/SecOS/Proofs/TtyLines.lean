import SecOS.Library.Schedule
import SecOS.Proofs.TtyEditing

/-! What comes out of a terminal is what went in: the queue is always the items that have been typed
and not read. -/

namespace SecOS.Tty
open Library List

variable {reads : List (List UInt8)}

theorem Served.more {items unread new : List Item} (served : Served items reads unread) :
    Served (items ++ new) reads (unread ++ new) := by
  induction served with
  | none items => exact .none _
  | eof _ ih => exact .eof ih
  | part got left _ ih => exact .part got left ih
  | whole got _ ih => exact .whole got ih

theorem Served.next {items unread rest : List Item} {r : List UInt8} (served : Served items reads unread)
    (one : Served unread [r] rest) : Served items (reads ++ [r]) rest := by
  induction served with
  | none items => exact one
  | eof _ ih => exact .eof (ih one)
  | part got left _ ih => exact .part got left (ih one)
  | whole got _ ih => exact .whole got (ih one)

theorem Served.flatten {items unread : List Item} (served : Served items reads unread) :
    reads.flatten ++ unread.flatMap Item.bytes = items.flatMap Item.bytes := by
  induction served with
  | none items => rfl
  | eof _ ih => exact ih
  | part _ _ _ ih =>
    rw [flatten_cons, append_assoc, ih, flatMap_cons, flatMap_cons]
    exact (append_assoc ..).symm
  | whole _ _ ih =>
    rw [flatten_cons, append_assoc, ih, flatMap_cons]
    rfl

section
variable {t : Terminal}

theorem takeLine_marked (bytes : List UInt8) : ∀ (len : Nat) {t : Terminal} {more : List Entry}, bytes ≠ [] →
    t.q.contents = marked bytes ++ more →
      ∃ q, takeLine len t = ({ t with q := q }, bytes.take len) ∧ q.contents = marked (bytes.drop len) ++ more := by
  induction bytes with
  | nil => exact fun _ {_ _} some => absurd rfl some
  | cons c rest ih =>
    intro len t more _ is
    cases len with
    | zero => exact ⟨t.q, rfl, is⟩
    | succ len =>
      obtain ⟨some, front, behind⟩ := Ring.of_contents_cons is
      unfold takeLine
      rw [if_neg (Nat.ne_of_gt some), front, if_neg (by rintro ⟨⟩)]
      by_cases last : rest = []
      · subst last
        simp only [isEmpty_nil, if_true]
        refine ⟨t.q.pop, ?_, ?_⟩
        · rw [take_succ_cons, take_nil]
        · rw [drop_succ_cons, drop_nil]
          exact behind
      · have unmarked : rest.isEmpty = false := List.isEmpty_eq_false_iff.mpr last
        obtain ⟨q, result, contents⟩ := ih len (t := { t with q := t.q.pop }) last behind
        simp only [unmarked, Bool.false_eq_true, if_false, result]
        refine ⟨q, ?_, ?_⟩
        · rw [take_succ_cons]
        · rw [contents, drop_succ_cons]

/-- What is in the queue, in canonical mode. -/
structure Queued (t : Terminal) (unread : List Item) : Prop where
  contents : t.q.contents = unread.flatMap Item.entries
  full : ∀ bytes, .line bytes ∈ unread → bytes ≠ []

theorem marked_last (bytes : List UInt8) (some : bytes ≠ []) : ∃ v ∈ marked bytes, v.eol = true := by
  induction bytes with
  | nil => exact absurd rfl some
  | cons c rest ih =>
    by_cases last : rest = []
    · subst last
      exact ⟨_, mem_cons_self, rfl⟩
    · obtain ⟨v, member, eol⟩ := ih last
      exact ⟨v, mem_cons_of_mem _ member, eol⟩

section
variable {unread : List Item} (queued : Queued t unread) (canon : t.tio.icanon = true)
include queued canon

theorem Queued.ready_iff :
    lineReady t = true ↔ unread ≠ [] := by
  unfold lineReady readableCount
  rw [canon, decide_eq_true_iff]
  simp only [Bool.not_true, Bool.false_eq_true, if_false]
  cases unread with
  | nil =>
    have empty : t.q.contents = [] := queued.contents
    rw [empty, Ring.contents_nil_iff.mp empty]
    simp
  | cons item rest =>
    refine ⟨fun _ => nofun, fun _ => ?_⟩
    cases item with
    | eof =>
      obtain ⟨some, front, -⟩ := Ring.of_contents_cons (v := tqEof) queued.contents
      exact .inr ⟨some, by rw [front]; rfl⟩
    | line bytes =>
      left
      obtain ⟨v, member, eol⟩ := marked_last bytes (queued.full bytes mem_cons_self)
      refine List.length_pos_iff.mpr fun none => ?_
      have present : v ∈ t.q.contents.reverse := by
        rw [mem_reverse, queued.contents, flatMap_cons]
        exact mem_append_left _ member
      have unmarked := List.dropWhile_eq_nil_iff.mp none v present
      rw [eol] at unmarked
      exact nomatch unmarked

theorem Queued.takes (some : unread ≠ []) {len : Nat}
    (long : 0 < len) : ∃ q out rest, take t len = ({ t with q := q }, out) ∧ Queued { t with q := q } rest ∧ Served unread [out] rest := by
  unfold take
  rw [if_pos canon]
  cases unread with
  | nil => exact absurd rfl some
  | cons item rest =>
    have others : ∀ bytes, .line bytes ∈ rest → bytes ≠ [] := fun bytes member => queued.full bytes (mem_cons_of_mem _ member)
    cases item with
    | eof =>
      obtain ⟨some, front, behind⟩ := Ring.of_contents_cons (v := tqEof) queued.contents
      rw [if_pos ⟨some, by rw [front]; rfl⟩]
      exact ⟨_, _, rest, rfl, ⟨behind, others⟩, .eof (.none rest)⟩
    | line bytes =>
      have full := queued.full bytes mem_cons_self
      have notEof : ¬(0 < t.q.count ∧ t.q.front.eof = true) := by
        rintro ⟨-, eof⟩
        cases bytes with
        | nil => exact full rfl
        | cons c left =>
          obtain ⟨-, front, -⟩ := Ring.of_contents_cons (v := (⟨c, left.isEmpty, false⟩ : Entry)) queued.contents
          rw [front] at eof
          exact nomatch eof
      rw [if_neg notEof]
      obtain ⟨q, result, contents⟩ := takeLine_marked bytes len full queued.contents
      have got : bytes.take len ≠ [] := by
        rw [Ne, take_eq_nil_iff]
        exact fun none => none.elim (Nat.ne_of_gt long) full
      by_cases left : bytes.drop len = []
      · -- the read reaches the end of the line
        have all : bytes.take len = bytes := by
          have both := take_append_drop len bytes
          rwa [left, append_nil] at both
        rw [left] at contents
        refine ⟨q, _, rest, result, ⟨contents, others⟩, ?_⟩
        rw [all]
        exact .whole full (.none rest)
      · refine ⟨q, _, .line (bytes.drop len) :: rest, result, ⟨contents, fun bytes' member => ?_⟩, ?_⟩
        · rcases mem_cons.mp member with here | later
          · rw [Item.line.inj here]
            exact left
          · exact others bytes' later
        · have served := Served.part got left (.none (.line (bytes.drop len) :: rest))
          rwa [take_append_drop] at served

end

end

/-- The terminal has the settings, follows the editor of what was accepted, and has in its
queue what the reads have left of the items. -/
structure Lines (tio : Termios) (t : Terminal) (accepted : List UInt8) (reads : List (List UInt8)) (unread : List Item) : Prop where
  settings : t.tio = tio
  follows : Follows t (typed tio accepted).1
  served : Served (typed tio accepted).2 reads unread
  queued : Queued t unread

section
variable {tio : Termios} {t : Terminal} {accepted : List UInt8} {reads : List (List UInt8)} {unread : List Item}

theorem typed_snoc (tio : Termios) (text : List UInt8) (c : UInt8) :
    typed tio (text ++ [c]) = (((typed tio text).1.type tio c).1, (typed tio text).2 ++ ((typed tio text).1.type tio c).2) := by
  unfold typed
  rw [foldl_append]
  rfl

theorem Lines.typed (lines : Lines tio t accepted reads unread) (canon : tio.icanon = true) (quiet : tio.isig = false) (fine : Fine t)
    (room : load t < tqSize - 1) (c : UInt8) (now : Nat) :
    ∃ unread', Lines tio (processByte t c now) (accepted ++ [c]) reads unread' := by
  obtain ⟨rfl, follows, served, queued⟩ := lines
  have did := follows.processed canon quiet fine room c now
  refine ⟨unread ++ ((Tty.typed t.tio accepted).1.type t.tio c).2, did.tio, ?_, ?_, ?_, ?_⟩
  · rw [typed_snoc]
    exact did.follows
  · rw [typed_snoc]
    exact served.more
  · rw [did.contents, queued.contents, flatMap_append]
  · intro bytes member
    rcases mem_append.mp member with old | new
    · exact queued.full bytes old
    · exact did.full bytes new

theorem Lines.typedAll (canon : tio.icanon = true) (quiet : tio.isig = false) (bytes : List UInt8) (now : Nat) :
    ∀ {t : Terminal} {accepted : List UInt8} {unread : List Item}, Lines tio t accepted reads unread → Fine t → load t + bytes.length ≤ tqSize - 1 →
      ∃ unread', Lines tio (bytes.foldl (fun t c => processByte t c now) t) (accepted ++ bytes) reads unread' := by
  induction bytes with
  | nil =>
    intro t accepted unread lines _ _
    rw [append_nil]
    exact ⟨unread, lines⟩
  | cons c rest ih =>
    intro t accepted unread lines fine fits
    rw [length_cons] at fits
    have room : load t < tqSize - 1 := by omega
    obtain ⟨unread', after⟩ := lines.typed canon quiet fine room c now
    obtain ⟨adds, fine'⟩ := fine.processed room c now
    have later : load (processByte t c now) + rest.length ≤ tqSize - 1 := by omega
    obtain ⟨unread'', final⟩ := ih after fine' later
    rw [append_assoc] at final
    exact ⟨unread'', final⟩

theorem canonical_step {s : Session} (a : Action) (canon : tio.icanon = true) (quiet : tio.isig = false)
    (fixed : ∀ tio', a = .set tio' → tio' = tio) (roomy : Roomy s.tty) (lines : Lines tio s.tty s.accepted s.reads unread) :
    ∃ unread', Lines tio (step s a).tty (step s a).accepted (step s a).reads unread' := by
  obtain ⟨settings, follows, served, queued⟩ := lines
  cases a with
  | write bytes now =>
    obtain ⟨n, fits, result⟩ := roomy.writes bytes now
    obtain ⟨unread', after⟩ := Lines.typedAll canon quiet (bytes.take n) now ⟨settings, follows, served, queued⟩ roomy.toFine fits
    refine ⟨unread', ?_⟩
    change Lines tio (ptyWrite s.tty bytes now).1 (s.accepted ++ bytes.take (ptyWrite s.tty bytes now).2) s.reads unread'
    rw [result]
    exact after
  | read len r clock =>
    change ∃ unread', Lines tio (ttyLdiscRead s.tty len r clock).1 s.accepted
      (s.reads ++ (ttyLdiscRead s.tty len r clock).2.toOption.toList) unread'
    obtain ⟨pid, start, ⟨long, ready, result⟩ | ⟨e, result⟩ | ⟨raw, -⟩⟩ := read_cases s.tty len r clock
    · rw [← settings] at canon
      have some := (queued.ready_iff canon).mp (ready canon)
      have armed : Queued { s.tty with vtimePid := pid, vtimeStart := start } unread := ⟨queued.contents, queued.full⟩
      obtain ⟨q, out, rest, taken, left, one⟩ := armed.takes canon some long
      rw [result, taken]
      exact ⟨rest, settings, ⟨follows.line, follows.literal, follows.grouped⟩, served.next one, left.contents, left.full⟩
    · rw [result]
      refine ⟨unread, settings, ⟨follows.line, follows.literal, follows.grouped⟩, ?_, queued.contents, queued.full⟩
      change Served _ (s.reads ++ []) unread
      rw [append_nil]
      exact served
    · rw [settings, canon] at raw
      exact nomatch raw
  | set tio' =>
    have same : tcsets s.tty tio' = { s.tty with tio := tio', vtimePid := 0 } := by
      unfold tcsets
      rw [settings, fixed tio' rfl, canon]
      rfl
    change ∃ unread', Lines tio (tcsets s.tty tio') s.accepted s.reads unread'
    rw [same]
    have settled : tio' = s.tty.tio := (fixed tio' rfl).trans settings.symm
    exact ⟨unread, fixed tio' rfl, ⟨follows.line, follows.literal, settled ▸ follows.grouped⟩, served, queued.contents, queued.full⟩

theorem lines_opened (tio : Termios) : Lines tio (opened tio) [] [] [] :=
  ⟨rfl, ⟨rfl, rfl, trivial⟩, .none [], Ring.contents_nil_iff.mpr (opened_empty tio), nofun⟩

end

/-- No canonical mode and no translation of input. -/
structure Raw (tio : Termios) : Prop where
  icanon : tio.icanon = false
  isig : tio.isig = false
  istrip : tio.istrip = false
  inlcr : tio.inlcr = false
  igncr : tio.igncr = false
  icrnl : tio.icrnl = false

/-- The queue is what was accepted and has not been read. -/
structure Pipe (t : Terminal) (accepted : List UInt8) (reads : List (List UInt8)) : Prop where
  raw : Raw t.tio
  plain : t.lnext = false
  bytes : reads.flatten ++ t.q.contents.map Entry.byte = accepted
  noEof : ∀ v ∈ t.q.contents, v.eof = false

section
variable {t : Terminal} {accepted : List UInt8} {reads : List (List UInt8)}

theorem Raw.processed (raw : Raw t.tio) (plain : t.lnext = false) (c : UInt8) (now : Nat) :
    processByte t c now = { qPush t ⟨c, false, false⟩ with lastRx := now } := by
  have same : translate t.tio (strip t.tio c) = some c := by
    unfold translate strip
    simp [raw.istrip, raw.igncr, raw.icrnl, raw.inlcr]
  have noSignal : isSignal t.tio c = false := by
    unfold isSignal
    simp [raw.isig]
  simp [processByte, inputByte, plain, same, noSignal, raw.icanon]

theorem Pipe.typedAll (bytes : List UInt8) (now : Nat) : ∀ {t : Terminal} {accepted : List UInt8}, Pipe t accepted reads →
    load t + bytes.length ≤ tqSize - 1 → Pipe (bytes.foldl (fun t c => processByte t c now) t) (accepted ++ bytes) reads := by
  induction bytes with
  | nil =>
    intro t accepted pipe _
    rw [append_nil]
    exact pipe
  | cons c rest ih =>
    intro t accepted pipe fits
    rw [length_cons] at fits
    have here : t.q.count < tqSize - 1 := by
      unfold load at fits
      omega
    have pushed : processByte t c now = { t with q := t.q.push ⟨c, false, false⟩, lastRx := now } := by
      rw [pipe.raw.processed pipe.plain, qPush_room here]
    have contents := contents_qPush here ⟨c, false, false⟩
    have after : Pipe { t with q := t.q.push ⟨c, false, false⟩, lastRx := now } (accepted ++ [c]) reads := by
      refine ⟨pipe.raw, pipe.plain, ?_, fun v member => ?_⟩
      · change reads.flatten ++ (t.q.push ⟨c, false, false⟩).contents.map Entry.byte = _
        rw [contents, map_append, ← append_assoc, pipe.bytes]
        rfl
      · change v ∈ (t.q.push ⟨c, false, false⟩).contents at member
        rw [contents] at member
        rcases mem_append.mp member with old | new
        · exact pipe.noEof v old
        · rw [mem_singleton.mp new]
    have later : load { t with q := t.q.push ⟨c, false, false⟩, lastRx := now } + rest.length ≤ tqSize - 1 := by
      change (t.q.push ⟨c, false, false⟩).count + t.line.length + rest.length ≤ tqSize - 1
      rw [count_qPush here]
      unfold load at fits
      omega
    have final := ih after later
    rw [append_assoc] at final
    rw [foldl_cons, pushed]
    exact final

theorem takeRaw_plain (entries : List Entry) : ∀ (len : Nat) {t : Terminal}, t.q.contents = entries → (∀ v ∈ entries, v.eof = false) →
    ∃ q, takeRaw entries.length len t = ({ t with q := q }, (entries.take len).map Entry.byte) ∧ q.contents = entries.drop len := by
  induction entries with
  | nil =>
    intro len t is _
    refine ⟨t.q, ?_, ?_⟩
    · rw [take_nil]
      rfl
    · rw [drop_nil, is]
  | cons v rest ih =>
    intro len t is noEof
    cases len with
    | zero => exact ⟨t.q, rfl, is⟩
    | succ len =>
      obtain ⟨-, front, behind⟩ := Ring.of_contents_cons is
      obtain ⟨q, result, contents⟩ := ih len (t := { t with q := t.q.pop }) behind fun w member => noEof w (mem_cons_of_mem _ member)
      rw [length_cons, takeRaw, front, if_neg (by rw [noEof v mem_cons_self]; exact nofun), result]
      exact ⟨q, rfl, contents⟩

theorem raw_step {s : Session} (a : Action) (still : ∀ tio, a = .set tio → Raw tio) (roomy : Roomy s.tty)
    (pipe : Pipe s.tty s.accepted s.reads) : Pipe (step s a).tty (step s a).accepted (step s a).reads := by
  cases a with
  | write bytes now =>
    obtain ⟨n, fits, result⟩ := roomy.writes bytes now
    change Pipe (ptyWrite s.tty bytes now).1 (s.accepted ++ bytes.take (ptyWrite s.tty bytes now).2) s.reads
    rw [result]
    exact Pipe.typedAll _ now pipe fits
  | read len r clock =>
    change Pipe (ttyLdiscRead s.tty len r clock).1 s.accepted (s.reads ++ (ttyLdiscRead s.tty len r clock).2.toOption.toList)
    obtain ⟨pid, start, ⟨-, -, result⟩ | ⟨e, result⟩ | ⟨-, result⟩⟩ := read_cases s.tty len r clock
    · obtain ⟨q, taken, contents⟩ := takeRaw_plain s.tty.q.contents len (t := { s.tty with vtimePid := pid, vtimeStart := start }) rfl pipe.noEof
      rw [s.tty.q.length_contents] at taken
      have takes : take { s.tty with vtimePid := pid, vtimeStart := start } len =
          ({ s.tty with vtimePid := pid, vtimeStart := start, q := q }, (s.tty.q.contents.take len).map Entry.byte) := by
        unfold take
        rw [if_neg (by rw [pipe.raw.icanon]; exact nofun)]
        exact taken
      rw [result, takes]
      refine ⟨pipe.raw, pipe.plain, ?_, fun v member => ?_⟩
      · change (s.reads ++ [_]).flatten ++ q.contents.map Entry.byte = s.accepted
        rw [flatten_append, flatten_singleton, contents, append_assoc, ← map_append, take_append_drop]
        exact pipe.bytes
      · change v ∈ q.contents at member
        rw [contents] at member
        exact pipe.noEof v (mem_of_mem_drop member)
    · rw [result]
      refine ⟨pipe.raw, pipe.plain, ?_, pipe.noEof⟩
      change (s.reads ++ []).flatten ++ _ = _
      rw [append_nil]
      exact pipe.bytes
    · rw [result]
      refine ⟨pipe.raw, pipe.plain, ?_, pipe.noEof⟩
      change (s.reads ++ [[]]).flatten ++ _ = _
      rw [flatten_append]
      exact (congrArg (· ++ _) (append_nil _)).trans pipe.bytes
  | set tio =>
    have raw := still tio rfl
    have same : tcsets s.tty tio = { s.tty with tio := tio, vtimePid := 0 } := by
      unfold tcsets
      rw [pipe.raw.icanon, raw.icanon]
      rfl
    change Pipe (tcsets s.tty tio) s.accepted s.reads
    rw [same]
    exact ⟨raw, pipe.plain, pipe.bytes, pipe.noEof⟩

theorem pipe_opened {tio : Termios} (raw : Raw tio) : Pipe (opened tio) [] [] := by
  have empty : (opened tio).q.contents = [] := Ring.contents_nil_iff.mpr (opened_empty tio)
  refine ⟨raw, rfl, ?_, ?_⟩
  · rw [empty]
    rfl
  · rw [empty]
    exact nofun

end

theorem session_keeps {P : Session → Prop} {ok : Action → Prop} (keeps : ∀ s a, Roomy s.tty → P s → ok a → P (step s a))
    {tio : Termios} (start : P (session tio)) {actions : List Action} (all : ∀ a ∈ actions, ok a) :
    P (actions.foldl step (session tio)) := by
  have permitted : Permitted step (fun _ => ok) (session tio) actions := permitted_of_forall fun a member _ => all a member
  have both := foldl_keeps (P := fun s : Session => Roomy s.tty ∧ P s)
    (fun s a held met => ⟨roomy_step s a held.1, keeps s a held.1 held.2 met⟩) ⟨roomy_opened tio, start⟩ permitted
  exact both.2

/-- The settings of a terminal that has just been opened, without signals. -/
def cooked : Termios :=
  ⟨false, false, false, true, true, false, true, false, true, true, true, true,
    0x03, 0x1C, 0x1A, 0x7F, 0x15, 0x17, 0x12, 0x16, 0x04, 0, 0, 1, 0⟩

end SecOS.Tty
