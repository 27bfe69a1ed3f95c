import SecOS.LineEditor
import SecOS.Proofs.TtyRoom

/-! The line discipline edits as the editor does: erasing byte by byte erases whole characters. -/

namespace SecOS.Tty
open Library List

def lineOf (chars : List (List UInt8)) : List UInt8 := chars.flatMap List.reverse

/-- Characters as they come about: only the first of a line may start with a byte that would
continue another. -/
def Grouped (tio : Termios) : List (List UInt8) → Prop
  | [] => True
  | char :: rest =>
    (∃ lead tail, char = lead :: tail ∧ (∀ c ∈ tail, continues tio c = true) ∧ (continues tio lead = true → rest = [])) ∧ Grouped tio rest

section
variable {tio : Termios} {chars : List (List UInt8)}

theorem lineOf_reverse (chars : List (List UInt8)) : (lineOf chars).reverse = chars.reverse.flatten := by
  induction chars with
  | nil => rfl
  | cons char rest ih =>
    change (char.reverse ++ lineOf rest).reverse = _
    rw [reverse_append, reverse_reverse, ih, reverse_cons, flatten_append, flatten_singleton]

theorem lineOf_nil_iff (grouped : Grouped tio chars) : lineOf chars = [] ↔ chars = [] := by
  cases chars with
  | nil => exact Iff.intro (fun _ => rfl) fun _ => rfl
  | cons char rest =>
    obtain ⟨⟨lead, tail, rfl, -, -⟩, -⟩ := grouped
    refine ⟨fun empty => ?_, nofun⟩
    have first := (append_eq_nil_iff.mp empty).1
    rw [reverse_cons] at first
    exact absurd first (append_ne_nil_of_right_ne_nil _ nofun)

theorem lineOf_addByte (c : UInt8) (chars : List (List UInt8)) : lineOf (Editor.addByte tio c chars) = c :: lineOf chars := by
  cases chars with
  | nil => rfl
  | cons char rest =>
    rw [Editor.addByte]
    split
    · change (char ++ [c]).reverse ++ lineOf rest = c :: (char.reverse ++ lineOf rest)
      rw [reverse_append]
      rfl
    · rfl

theorem Grouped.addByte (grouped : Grouped tio chars) (c : UInt8) : Grouped tio (Editor.addByte tio c chars) := by
  cases chars with
  | nil => exact ⟨⟨c, [], rfl, nofun, fun _ => rfl⟩, trivial⟩
  | cons char rest =>
    rw [Editor.addByte]
    split
    next more =>
      obtain ⟨⟨lead, tail, rfl, conts, first⟩, others⟩ := grouped
      refine ⟨⟨lead, tail ++ [c], rfl, fun d member => ?_, first⟩, others⟩
      rcases mem_append.mp member with old | new
      · exact conts d old
      · rw [mem_singleton.mp new]
        exact more
    next own => exact ⟨⟨c, [], rfl, nofun, fun more => absurd more own⟩, grouped⟩

theorem canonEraseOne_back (conts : List UInt8) (all : ∀ c ∈ conts, continues tio c = true) {lead : UInt8} {rest : List UInt8}
    (first : continues tio lead = true → rest = []) : canonEraseOne tio (conts ++ lead :: rest) = rest := by
  induction conts with
  | nil =>
    change canonEraseOne tio (lead :: rest) = rest
    unfold canonEraseOne
    split
    next both => exact absurd (first both.1) both.2
    · rfl
  | cons c conts ih =>
    rw [cons_append, canonEraseOne, if_pos ⟨all c mem_cons_self, append_ne_nil_of_right_ne_nil _ nofun⟩]
    exact ih fun d member => all d (mem_cons_of_mem _ member)

theorem canonEraseOne_lineOf (grouped : Grouped tio chars) : canonEraseOne tio (lineOf chars) = lineOf chars.tail := by
  cases chars with
  | nil => rfl
  | cons char rest =>
    obtain ⟨⟨lead, tail, rfl, conts, first⟩, -⟩ := grouped
    change canonEraseOne tio ((lead :: tail).reverse ++ lineOf rest) = lineOf rest
    rw [reverse_cons, append_assoc]
    refine canonEraseOne_back tail.reverse (fun c member => conts c (mem_reverse.mp member)) fun more => ?_
    rw [first more]
    rfl

theorem Grouped.tail (grouped : Grouped tio chars) : Grouped tio chars.tail := by
  cases chars with
  | nil => trivial
  | cons char rest => exact grouped.2

theorem Grouped.dropWhile (grouped : Grouped tio chars) (p : List UInt8 → Bool) : Grouped tio (chars.dropWhile p) := by
  induction chars with
  | nil => trivial
  | cons char rest ih =>
    rw [dropWhile_cons]
    split
    · exact ih grouped.2
    · exact grouped

theorem eraseWhile_lineOf {p : UInt8 → Bool} {q : List UInt8 → Bool}
    (agree : ∀ lead tail, (∀ c ∈ tail, continues tio c = true) → p ((lead :: tail).getLast nofun) = q (lead :: tail))
    (grouped : Grouped tio chars) : ∀ fuel, (lineOf chars).length ≤ fuel → eraseWhile tio p fuel (lineOf chars) = lineOf (chars.dropWhile q) := by
  induction chars with
  | nil => exact fun fuel _ => by cases fuel <;> rfl
  | cons char rest ih =>
    intro fuel enough
    have erased := canonEraseOne_lineOf grouped
    obtain ⟨⟨lead, tail, rfl, conts, -⟩, others⟩ := grouped
    have shape : lineOf ((lead :: tail) :: rest) = (lead :: tail).getLast nofun :: ((lead :: tail).dropLast.reverse ++ lineOf rest) := by
      change (lead :: tail).reverse ++ lineOf rest = _
      nth_rewrite 1 [← dropLast_append_getLast (l := lead :: tail) nofun]
      rw [reverse_append]
      rfl
    rw [shape] at enough erased ⊢
    cases fuel with
    | zero => exact absurd enough (Nat.not_succ_le_zero _)
    | succ fuel =>
      rw [eraseWhile, agree lead tail conts, dropWhile_cons]
      split
      · rw [erased]
        refine ih others fuel ?_
        rw [length_cons, length_append] at enough
        omega
      · exact shape.symm

theorem blank_char (lead : UInt8) (tail : List UInt8) (conts : ∀ c ∈ tail, continues tio c = true) :
    blank ((lead :: tail).getLast nofun) = Editor.blankChar (lead :: tail) := by
  cases tail with
  | nil =>
    refine decide_eq_decide.mpr ?_
    simp only [getLast_singleton, List.cons.injEq, and_true]
  | cons c tail =>
    have last := conts ((c :: tail).getLast nofun) (getLast_mem _)
    rw [getLast_cons_cons]
    have notBlank : blank ((c :: tail).getLast nofun) = false := by
      generalize (c :: tail).getLast nofun = d at last
      unfold continues at last
      unfold blank
      have high := (of_decide_eq_true last).2
      refine decide_eq_false ?_
      rintro (rfl | rfl)
      · exact absurd high (by decide)
      · exact absurd high (by decide)
    rw [notBlank]
    unfold Editor.blankChar
    exact (decide_eq_false (by rintro (is | is) <;> exact nomatch is)).symm

theorem wordErase_lineOf (grouped : Grouped tio chars) : wordErase tio (lineOf chars) = lineOf (Editor.eraseWord chars) := by
  unfold wordErase
  dsimp only
  rw [eraseWhile_lineOf blank_char grouped _ le_rfl]
  refine eraseWhile_lineOf (fun lead tail conts => ?_) (grouped.dropWhile _) _ le_rfl
  rw [blank_char lead tail conts]

theorem killLine_lineOf (grouped : Grouped tio chars) : killLine tio (lineOf chars) = [] := by
  unfold killLine
  split
  · rfl
  · rw [eraseWhile_lineOf (q := fun _ => true) (fun _ _ _ => rfl) grouped _ le_rfl]
    rw [List.dropWhile_eq_nil_iff.mpr fun _ _ => rfl]
    rfl

end

def Item.entries : Item → List Entry
  | .line bytes => marked bytes
  | .eof => [tqEof]

structure Follows (t : Terminal) (e : Editor) : Prop where
  line : t.line = lineOf e.chars
  literal : t.lnext = e.literal
  grouped : Grouped t.tio e.chars

structure Did (t t' : Terminal) (r : Editor × List Item) : Prop where
  follows : Follows t' r.1
  contents : t'.q.contents = t.q.contents ++ r.2.flatMap Item.entries
  tio : t'.tio = t.tio
  full : ∀ bytes, .line bytes ∈ r.2 → bytes ≠ []

section
variable {t : Terminal} {e : Editor}

theorem Follows.edits (follows : Follows t e) {line : List UInt8} {chars : List (List UInt8)} (same : line = lineOf chars)
    (grouped : Grouped t.tio chars) : Did t { t with line := line } ({ e with chars := chars }, []) :=
  ⟨⟨same, follows.literal, grouped⟩, (append_nil _).symm, rfl, nofun⟩

theorem Follows.bytes (follows : Follows t e) : t.line.reverse = e.bytes := by
  rw [follows.line]
  exact lineOf_reverse e.chars

theorem Follows.stores (follows : Follows t e) (c : UInt8) : Did t (store t c) (e.put t.tio c, []) := by
  have length : t.line.length = e.bytes.length := by rw [← follows.bytes, length_reverse]
  unfold store Editor.put
  rw [length]
  split
  · refine follows.edits ?_ (follows.grouped.addByte c)
    rw [lineOf_addByte, follows.line]
  · exact ⟨⟨follows.line, follows.literal, follows.grouped⟩, (append_nil _).symm, rfl, nofun⟩

theorem commits {t : Terminal} (fits : load t ≤ tqSize - 1) (eof : Bool) (some : t.line ≠ []) (literal : t.lnext = e.literal) :
    Did t (canonCommit t eof) ({ e with chars := [] }, [.line t.line.reverse]) := by
  obtain ⟨q, result, contents⟩ := commit_room fits
  unfold canonCommit
  rw [if_neg (fun both => some both.2), result]
  refine ⟨⟨rfl, literal, trivial⟩, contents.trans ?_, rfl, fun bytes member => ?_⟩
  · rw [flatMap_singleton]
    rfl
  · rw [Item.line.inj (mem_singleton.mp member)]
    exact List.reverse_ne_nil_iff.mpr some

theorem Follows.keyed (follows : Follows t e) (fine : Fine t) (room : load t < tqSize - 1) (c : UInt8) :
    Did t (canonByte t c) (e.key t.tio c) := by
  have here : t.q.count < tqSize - 1 := Nat.lt_of_le_of_lt (Nat.le_add_right ..) room
  unfold canonByte Editor.key
  split
  · exact ⟨⟨follows.line, rfl, follows.grouped⟩, (append_nil _).symm, rfl, nofun⟩
  split
  · refine follows.edits ?_ follows.grouped.tail
    rw [follows.line, canonEraseOne_lineOf follows.grouped]
  split
  · refine follows.edits ?_ trivial
    rw [follows.line, killLine_lineOf follows.grouped]
    rfl
  split
  · refine follows.edits ?_ ((follows.grouped.dropWhile _).dropWhile _)
    rw [follows.line, wordErase_lineOf follows.grouped]
  split
  · exact follows.edits follows.line follows.grouped
  split
  · by_cases empty : e.chars = []
    · have emptyLine : t.line = [] := by rw [follows.line, empty]; rfl
      unfold canonCommit
      rw [if_pos ⟨rfl, emptyLine⟩, if_pos empty, qPush_room here]
      exact ⟨⟨emptyLine, follows.literal, trivial⟩, contents_qPush here tqEof, rfl, fun _ member => nomatch mem_singleton.mp member⟩
    · have some : t.line ≠ [] := by
        rw [follows.line]
        exact fun none => empty ((lineOf_nil_iff follows.grouped).mp none)
      rw [if_neg empty, ← follows.bytes]
      exact commits (Nat.le_of_lt room) true some follows.literal
  split
  · rw [endLine_short fine]
    have committed := commits (t := { t with line := c :: t.line }) (e := e) room false nofun follows.literal
    rw [reverse_cons, follows.bytes] at committed
    exact ⟨committed.follows, committed.contents, committed.tio, committed.full⟩
  · exact follows.stores c

theorem Follows.processed (follows : Follows t e) (canon : t.tio.icanon = true) (quiet : t.tio.isig = false) (fine : Fine t)
    (room : load t < tqSize - 1) (c : UInt8) (now : Nat) : Did t (processByte t c now) (e.type t.tio c) := by
  unfold processByte Editor.type
  rw [follows.literal]
  split
  · have quoted : Follows { t with lnext := false } { e with literal := false } := ⟨follows.line, rfl, follows.grouped⟩
    unfold literalByte
    rw [if_pos canon]
    have stored := quoted.stores (strip t.tio c)
    exact ⟨stored.follows, stored.contents, stored.tio, stored.full⟩
  · cases translate t.tio (strip t.tio c) with
    | none => exact follows.edits follows.line follows.grouped
    | some c =>
      have noSignal : ¬isSignal t.tio c = true := by
        unfold isSignal
        rw [quiet]
        simp
      have notRaw : ¬(!t.tio.icanon) = true := by
        rw [canon]
        exact nofun
      change Did t (inputByte t c now) (e.key t.tio c)
      unfold inputByte
      rw [if_neg noSignal, if_neg notRaw]
      exact follows.keyed fine room c

end
end SecOS.Tty
