import SecOS.Library.Ring
import SecOS.Tcp

/-! The receive buffer of a connection as net/tcp.c has it, a ring with a head and a length. It
refines the list of bytes of the control block. -/

namespace SecOS.Tcp
open Library.Ring List

structure RxRing where
  slots : Nat → UInt8
  head : Nat
  len : Nat
  head_lt : head < rxBuf
  len_le : len ≤ rxBuf

namespace RxRing

def bytes (r : RxRing) : List UInt8 := window rxBuf r.slots r.head r.len

theorem room (r : RxRing) (data : List UInt8) : r.len + (data.take (rxBuf - r.len)).length ≤ rxBuf := by
  have full := r.len_le
  rw [length_take]
  omega

def accept (r : RxRing) (data : List UInt8) : RxRing × Nat :=
  let taken := data.take (rxBuf - r.len)
  (⟨fill rxBuf r.slots ((r.head + r.len) % rxBuf) taken, r.head, r.len + taken.length, r.head_lt, r.room data⟩, taken.length)

def read (r : RxRing) (len : Nat) : RxRing × List UInt8 :=
  let n := min len r.len
  (⟨r.slots, (r.head + n) % rxBuf, r.len - n, Nat.mod_lt _ (Nat.zero_lt_of_lt r.head_lt), (Nat.sub_le _ _).trans r.len_le⟩,
    window rxBuf r.slots r.head n)

theorem read_bytes (r : RxRing) (len : Nat) : r.bytes.take len = (r.read len).2 ∧ r.bytes.drop len = (r.read len).1.bytes := by
  have taken : r.bytes.take len = (r.read len).2 := by
    rw [bytes, window, ← map_take, take_range]
    rfl
  have whole := window_add rxBuf r.slots r.head (min len r.len) (r.len - min len r.len)
  rw [Nat.add_sub_cancel' (Nat.min_le_right _ _)] at whole
  have parts : (r.read len).2 ++ r.bytes.drop len = (r.read len).2 ++ (r.read len).1.bytes := by
    rw [← taken, take_append_drop, taken]
    exact whole
  exact ⟨taken, append_cancel_left parts⟩

end RxRing

variable {r : RxRing} {c : Conn}

theorem rxAccept_refines (same : c.rx = r.bytes) (data : List UInt8) :
    (rxAccept c data).1.rx = (r.accept data).1.bytes ∧ (rxAccept c data).2 = (r.accept data).2 := by
  have length : r.bytes.length = r.len := length_window rxBuf r.slots r.head r.len
  unfold rxAccept
  dsimp only
  rw [same, length]
  exact ⟨(window_fill _ r.head_lt (r.room data) (Nat.mod_mod _ _)).symm, rfl⟩

theorem tcpRead_refines (same : c.rx = r.bytes) (len : Nat) : (tcpRead len c).1.rx = (r.read len).1.bytes ∧
    ∀ data, (tcpRead len c).2.2 = some data → data = (r.read len).2 := by
  obtain ⟨taken, left⟩ := r.read_bytes len
  rw [← taken, ← left, ← same]
  unfold tcpRead
  split
  next empty =>
    rw [length_eq_zero_iff.mp empty]
    split <;> simp [length_eq_zero_iff.mp empty]
  · exact ⟨rfl, fun data there => (Option.some.inj there).symm⟩

end SecOS.Tcp
