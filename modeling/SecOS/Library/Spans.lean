import Mathlib

/-! Spans of numbers, half open, and lists of them that do not meet: what they cover, how
much room they take, and what happens when a part of the list is exchanged. -/

namespace SecOS.Library
open List Finset

structure Span where
  start : Nat
  len : Nat
deriving DecidableEq

namespace Span

def Has (s : Span) (x : Nat) : Prop := s.start ≤ x ∧ x < s.start + s.len

def Apart (s t : Span) : Prop := ∀ x, s.Has x → ¬ t.Has x

def Covered (spans : List Span) (x : Nat) : Prop := ∃ s ∈ spans, s.Has x

variable {s t : Span} {old new pre post spans : List Span} {lo hi x : Nat}

theorem apart_of_le (before : s.start + s.len ≤ t.start) : Apart s t := fun x first second => by
  have upper := first.2
  have lower := second.1
  omega

theorem covered_append : Covered (old ++ new) x ↔ Covered old x ∨ Covered new x := by
  simp only [Covered, mem_append, or_and_right, exists_or]

theorem covered_replace (same : ∀ x, Covered new x ↔ Covered old x) :
    Covered (pre ++ new ++ post) x ↔ Covered (pre ++ old ++ post) x := by
  simp only [covered_append, same]

theorem apart_replace (apart : (pre ++ old ++ post).Pairwise Apart) (inner : new.Pairwise Apart)
    (within : ∀ x, Covered new x → Covered old x) : (pre ++ new ++ post).Pairwise Apart := by
  rw [pairwise_append, pairwise_append] at apart ⊢
  obtain ⟨⟨first, _, between⟩, last, around⟩ := apart
  refine ⟨⟨first, inner, ?_⟩, last, ?_⟩
  · intro a left b right x inA inB
    obtain ⟨c, held, inC⟩ := within x ⟨b, right, inB⟩
    exact between a left c held x inA inC
  · intro a left b right x inA inB
    rcases mem_append.mp left with before | middle
    · exact around a (mem_append_left _ before) b right x inA inB
    · obtain ⟨c, held, inC⟩ := within x ⟨a, middle, inA⟩
      exact around c (mem_append_right _ held) b right x inC inB

theorem apart_concat (apart : spans.Pairwise Apart) (fresh : ∀ x, s.Has x → ¬ Covered spans x) : (spans ++ [s]).Pairwise Apart := by
  rw [pairwise_append]
  refine ⟨apart, pairwise_singleton _ _, fun a held b single x inA inB => ?_⟩
  cases List.mem_singleton.mp single
  exact fresh x inB ⟨a, held, inA⟩

theorem eq_of_has (apart : spans.Pairwise Apart) {i j : Nat} (left : spans[i]? = some s) (right : spans[j]? = some t)
    (inS : s.Has x) (inT : t.Has x) : i = j := by
  obtain ⟨low, rfl⟩ := List.getElem?_eq_some_iff.mp left
  obtain ⟨low', rfl⟩ := List.getElem?_eq_some_iff.mp right
  rcases Nat.lt_trichotomy i j with before | same | after
  · exact absurd inT (List.pairwise_iff_getElem.mp apart i j low low' before x inS)
  · exact same
  · exact absurd inS (List.pairwise_iff_getElem.mp apart j i low' low after x inT)

theorem sum_le (apart : spans.Pairwise Apart) (inside : ∀ s ∈ spans, lo ≤ s.start ∧ s.start + s.len ≤ hi) :
    (spans.map len).sum ≤ hi - lo := by
  -- the numbers taken by the list, as a set
  have taken : ∃ set : Finset Nat, set.card = (spans.map len).sum ∧ ∀ x ∈ set, Covered spans x := by
    clear inside
    induction spans with
    | nil => exact ⟨∅, rfl, fun x none => absurd none (notMem_empty x)⟩
    | cons s rest ih =>
      obtain ⟨meets, later⟩ := List.pairwise_cons.mp apart
      obtain ⟨set, size, members⟩ := ih later
      have disjoint : Disjoint (Finset.Ico s.start (s.start + s.len)) set := by
        refine Finset.disjoint_left.mpr fun x first second => ?_
        obtain ⟨t, held, inT⟩ := members x second
        exact meets t held x (mem_Ico.mp first) inT
      refine ⟨Finset.Ico s.start (s.start + s.len) ∪ set, ?_, fun x member => ?_⟩
      · rw [card_union_of_disjoint disjoint, size, Nat.card_Ico, List.map_cons, List.sum_cons]
        omega
      · rcases mem_union.mp member with first | second
        · exact ⟨s, List.mem_cons_self, mem_Ico.mp first⟩
        · obtain ⟨t, held, inT⟩ := members x second
          exact ⟨t, List.mem_cons_of_mem _ held, inT⟩
  obtain ⟨set, size, members⟩ := taken
  calc (spans.map len).sum = set.card := size.symm
    _ ≤ (Finset.Ico lo hi).card := by
      refine card_le_card fun x member => ?_
      obtain ⟨t, held, inT⟩ := members x member
      obtain ⟨low, high⟩ := inside t held
      have bounds := inT
      unfold Has at bounds
      exact mem_Ico.mpr ⟨by omega, by omega⟩
    _ = hi - lo := Nat.card_Ico lo hi

end Span
end SecOS.Library
