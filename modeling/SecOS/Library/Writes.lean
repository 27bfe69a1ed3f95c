import Mathlib

/-! A disk is the contents of every block; a device also remembers the writes issued to
it, oldest first, so that a power cut after any of them can be described. -/

namespace SecOS.Library
open Function List
variable {α : Type*}

def applyWrites (ws : List (Nat × α)) (d : Nat → α) : Nat → α := ws.foldl (fun d w => update d w.1 w.2) d

structure Device (α : Type*) where
  disk : Nat → α
  issued : List (Nat × α)

namespace Device

def fresh (d : Nat → α) : Device α := ⟨d, []⟩

def write (dev : Device α) (b : Nat) (x : α) : Device α := ⟨update dev.disk b x, dev.issued ++ [(b, x)]⟩

def writeAll (dev : Device α) (ws : List (Nat × α)) : Device α := ws.foldl (fun dev w => dev.write w.1 w.2) dev

end Device

section
variable {d d' : Nat → α} {ws vs : List (Nat × α)} {b : Nat} {x : α}

theorem applyWrites_append (ws vs : List (Nat × α)) (d : Nat → α) : applyWrites (ws ++ vs) d = applyWrites vs (applyWrites ws d) :=
  foldl_append

theorem applyWrites_cons (b : Nat) (x : α) (ws : List (Nat × α)) (d : Nat → α) :
    applyWrites ((b, x) :: ws) d = applyWrites ws (update d b x) := rfl

theorem applyWrites_other (absent : ∀ w ∈ ws, w.1 ≠ b) : applyWrites ws d b = d b := by
  induction ws generalizing d with
  | nil => rfl
  | cons w rest ih =>
    have here : w.1 ≠ b := absent w mem_cons_self
    rw [applyWrites_cons, ih fun v member => absent v (mem_cons_of_mem _ member), update_of_ne here.symm]

theorem applyWrites_congr (same : (∀ w ∈ ws, w.1 ≠ b) → d b = d' b) : applyWrites ws d b = applyWrites ws d' b := by
  induction ws generalizing d d' with
  | nil => exact same nofun
  | cons w rest ih =>
    rw [applyWrites_cons, applyWrites_cons]
    refine ih fun absent => ?_
    by_cases here : w.1 = b
    · rw [← here, update_self, update_self]
    · rw [update_of_ne (Ne.symm here), update_of_ne (Ne.symm here)]
      exact same (forall_mem_cons.mpr ⟨here, absent⟩)

theorem applyWrites_again (ws : List (Nat × α)) (n : Nat) (d : Nat → α) : applyWrites ws (applyWrites (ws.take n) d) = applyWrites ws d := by
  funext b
  exact applyWrites_congr fun absent => applyWrites_other fun w member => absent w (mem_of_mem_take member)

theorem applyWrites_mem (unique : (ws.map Prod.fst).Nodup) (member : (b, x) ∈ ws) : applyWrites ws d b = x := by
  induction ws generalizing d with
  | nil => exact nomatch member
  | cons w rest ih =>
    obtain ⟨fresh, unique⟩ := List.nodup_cons.mp unique
    rw [applyWrites_cons]
    rcases mem_cons.mp member with rfl | member
    · rw [applyWrites_other, update_self]
      intro v listed same
      exact fresh (List.mem_map.mpr ⟨v, listed, same⟩)
    · exact ih unique member

namespace Device

theorem writeAll_eq (dev : Device α) (ws : List (Nat × α)) : dev.writeAll ws = ⟨applyWrites ws dev.disk, dev.issued ++ ws⟩ := by
  induction ws generalizing dev with
  | nil => rw [append_nil]; rfl
  | cons w rest ih =>
    have step : dev.writeAll (w :: rest) = (dev.write w.1 w.2).writeAll rest := rfl
    rw [step, ih, Device.write, append_assoc]
    rfl

theorem writeAll_append (dev : Device α) (ws vs : List (Nat × α)) : dev.writeAll (ws ++ vs) = (dev.writeAll ws).writeAll vs :=
  foldl_append

end Device
end
end SecOS.Library
