import SecOS.NetSend

/-! The checksums of emitted packets verify. Folding the carries keeps the sum modulo 65535 and
takes only zero to zero. -/

namespace SecOS.NetSend
open List

/-- The one's complement sum, as a receiver takes it. -/
def onesSum (data : List UInt8) : Nat := carry (sum16 data)

theorem carry_eq (sum : Nat) : carry sum = if sum = 0 then 0 else (sum - 1) % 65535 + 1 := by
  induction sum using carry.induct with
  | case1 sum small =>
    rw [carry, if_pos small]
    split <;> omega
  | case2 sum large ih =>
    rw [carry, if_neg large, ih, if_neg (by omega), if_neg (by omega)]
    omega

theorem sum16_le (data : List UInt8) : sum16 data ≤ 65535 * data.length := by
  induction data using sum16.induct with
  | case1 a b rest ih =>
    have := a.toNat_lt
    have := b.toNat_lt
    simp only [sum16, length_cons]
    omega
  | case2 a =>
    have := a.toNat_lt
    simp only [sum16, length_singleton]
    omega
  | case3 => exact Nat.le_refl 0

theorem sum16_append {pre : List UInt8} (even : pre.length % 2 = 0) (post : List UInt8) : sum16 (pre ++ post) = sum16 pre + sum16 post := by
  induction pre using sum16.induct with
  | case1 a b rest ih =>
    simp only [length_cons] at even
    simp only [cons_append, sum16, ih (by omega), Nat.add_assoc]
  | case2 a => cases even
  | case3 => exact (Nat.zero_add _).symm

theorem sum16_be16 (v : Nat) (rest : List UInt8) : sum16 (be16 v ++ rest) = v % 65536 + sum16 rest := by
  simp [be16, sum16]
  omega

theorem be16_ne {v : Nat} (nonzero : v % 65536 ≠ 0) : be16 v ≠ [0, 0] := fun zero => by
  have sum := sum16_be16 v []
  rw [zero] at sum
  exact nonzero sum.symm

/-- The complement is what is missing to 65535, and 65535 itself may stand for zero. -/
theorem carry_complement {sum forZero : Nat} (fits : sum < 2 ^ 32) (neutral : forZero = 0 ∨ forZero = 65535) :
    carry (sum + (if 65535 - carry (sum % 2 ^ 32) = 0 then forZero else 65535 - carry (sum % 2 ^ 32)) % 65536) = 65535 := by
  rw [Nat.mod_eq_of_lt fits, carry_eq sum, carry_eq]
  split <;> split <;> split <;> omega

section
variable {forZero : Nat} {ahead pre post : List UInt8}

theorem checked_length : (checked forZero ahead pre post).length = pre.length + (2 + post.length) := by
  rw [checked, length_append, length_append]
  rfl

variable (neutral : forZero = 0 ∨ forZero = 65535)
include neutral

theorem checked_verifies (even : (ahead ++ pre).length % 2 = 0) (short : (ahead ++ checked forZero ahead pre post).length ≤ 1536) :
    onesSum (ahead ++ checked forZero ahead pre post) = 65535 := by
  have sum (v : Nat) : sum16 (ahead ++ (pre ++ (be16 v ++ post))) = sum16 (ahead ++ (pre ++ (be16 0 ++ post))) + v % 65536 := by
    simp only [← append_assoc ahead, sum16_append even, sum16_be16]
    omega
  have bound := sum16_le (ahead ++ (pre ++ (be16 0 ++ post)))
  have pair : (be16 0).length = 2 := rfl
  simp only [length_append, checked_length, pair] at short bound
  rw [onesSum, checked, sum]
  exact carry_complement (by omega) neutral

theorem segment_verifies {r : Route} {proto : UInt8} {len : Nat} {seg : List UInt8} (made : checked forZero (pseudo r proto len) pre post = seg)
    (even : pre.length % 2 = 0) (whole : pre.length + (2 + post.length) = len) (fits : seg.length ≤ 1480) :
    onesSum (pseudo r proto seg.length ++ seg) = 65535 := by
  have ahead : (pseudo r proto len).length = 12 := rfl
  subst made
  rw [checked_length, whole]
  apply checked_verifies neutral <;> rw [length_append] <;> omega

end

/-- What leaves is a header whose checksum verifies, and then the payload. -/
theorem ipv4Send_all (r : Route) (proto : UInt8) {payload : List UInt8} (check : List UInt8 → Bool)
    (checks : payload.length ≤ 1480 → check payload = true) :
    (ipv4Send r proto payload).all (fun pkt => onesSum (pkt.take 20) == 65535 && check (pkt.drop 20)) = true := by
  unfold ipv4Send
  split
  · rfl
  next sends =>
    have fits : payload.length ≤ 1480 := Nat.le_of_not_lt fun large => sends (.inl large)
    rw [Option.all_some, take_left' (show _ = 20 from rfl), drop_left' (show _ = 20 from rfl), checks fits, Bool.and_true, beq_iff_eq]
    rw [← nil_append (checked _ _ _ _)]
    apply checked_verifies (.inl rfl)
    · simp [be16]
    · simp [checked_length, be16, octets]

/-- Every packet `ipv4_send`, `tcp_xmit` and `udp_output` emit verifies, the last ones with the
pseudo header ahead of the segment, and the checksum field of a datagram is never zero. -/
theorem emitted_checksums (r : Route) :
    (∀ proto payload, (ipv4Send r proto payload).all (fun pkt => onesSum (pkt.take 20) == 65535) = true) ∧
      (∀ t, (tcpXmit r t).all (fun pkt => onesSum (pkt.take 20) == 65535 &&
        onesSum (pseudo r protoTcp (pkt.drop 20).length ++ pkt.drop 20) == 65535) = true) ∧
      ∀ srcPort dstPort data, (udpOutput r srcPort dstPort data).all (fun pkt => onesSum (pkt.take 20) == 65535 &&
        (onesSum (pseudo r protoUdp (pkt.drop 20).length ++ pkt.drop 20) == 65535 && ((pkt.drop 20).drop 6).take 2 != [0, 0])) = true := by
  refine ⟨fun proto payload => ?_, fun t => ?_, fun srcPort dstPort data => ?_⟩
  · simpa only [Bool.and_true] using ipv4Send_all r proto (fun _ => true) fun _ => rfl
  · refine ipv4Send_all r protoTcp (fun seg => onesSum (pseudo r protoTcp seg.length ++ seg) == 65535) fun fits => beq_iff_eq.mpr ?_
    refine segment_verifies (.inl rfl) rfl (by simp [be16, be32]) ?_ fits
    simp [be16, be32]
    omega
  · unfold udpOutput
    split
    · rfl
    refine ipv4Send_all r protoUdp (fun seg => onesSum (pseudo r protoUdp seg.length ++ seg) == 65535 && (seg.drop 6).take 2 != [0, 0]) fun fits => ?_
    have whole : (be16 srcPort ++ be16 dstPort ++ be16 (8 + data.length)).length + (2 + data.length) = 8 + data.length := by
      simp [be16]
      omega
    rw [segment_verifies (.inr rfl) rfl (by simp [be16]) whole fits, beq_self_eq_true, Bool.true_and, bne_iff_ne]
    apply be16_ne
    unfold netChecksum
    split <;> omega

end SecOS.NetSend
