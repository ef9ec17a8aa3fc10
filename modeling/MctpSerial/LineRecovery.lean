import MctpSerial.Resynchronisation
import Mathlib.Order.Bounds.Defs

/-!
# Bringing a receiver back

Good frames alone need not bring back a receiver that is out of step, but enough bytes without
a flag always do. `Rx.settling` bounds how many of them it takes from a state: it drops with each
of them, to zero where a flag starts a frame and where no byte but a flag changes that. The worst
case is an opening flag, a length of 255 and a payload of which every byte is escaped.
-/
namespace MctpSerial.MctpFramer
open StreamTransducers

/-- The most bytes other than flags until only a flag moves the receiver. -/
def Rx.settling (s : Rx) : ℕ :=
  match s.rxState with
  | .waitingForSync => 0
  | .header1 => 515
  | .header2 => 514
  | .body => if s.byteCount ≤ 0 then 0 else 2 * s.byteCount.toNat + 3
  | .escape => if s.byteCount ≤ 0 then 0 else 2 * s.byteCount.toNat + 2
  | .fcs1 => 3
  | .fcs2 => 2
  | .endFlag => 1

theorem Rx.inStep_of_settling {s : Rx} (h : s.settling = 0) : s.InStep := by
  obtain ⟨st, rx, k⟩ := s
  cases st with
  | waitingForSync => exact Or.inl rfl
  | body => exact Or.inr (Or.inl rfl)
  | escape => exact Or.inr (Or.inr rfl)
  | header1 => cases h
  | header2 => cases h
  | fcs1 => cases h
  | fcs2 => cases h
  | endFlag => cases h

/-- After a payload byte at most the rest of the payload and the trailer are missing. -/
theorem settling_pushBody {s : Rx} (hk : 0 < s.byteCount) (b : Byte) :
    (s.pushBody b).settling ≤ 2 * s.byteCount.toNat + 1 := by
  unfold Rx.pushBody Rx.settling
  by_cases hone : s.byteCount - 1 = 0
  · simp only [hone, if_true]
    omega
  · have hmore : ¬s.byteCount - 1 ≤ 0 := by omega
    simp only [hone, hmore, if_false]
    omega

theorem settling_pushBody_exhausted {s : Rx} (hk : s.byteCount ≤ 0) (b : Byte) :
    (s.pushBody b).settling = 0 := by
  have hne : s.byteCount - 1 ≠ 0 := by omega
  have hle : s.byteCount - 1 ≤ 0 := by omega
  simp only [Rx.pushBody, Rx.settling, hne, if_false, hle, if_true]

/-- A byte that is no flag brings the receiver nearer. -/
theorem settling_step (s : Rx) (b : Byte) (hb : b ≠ frameChar) :
    (updateRxFSM s b).1.settling ≤ s.settling - 1 := by
  obtain ⟨st, rx, k⟩ := s
  cases st with
  | waitingForSync =>
    rw [updateRxFSM_waiting rfl hb]
    exact Nat.zero_le _
  | header1 => exact Nat.le_refl 514
  | header2 =>
    have hlt := b.isLt
    change (if (b.toNat : ℤ) ≤ 0 then 0 else 2 * (b.toNat : ℤ).toNat + 3) ≤ 513
    split <;> omega
  | fcs1 => exact Nat.le_refl 2
  | fcs2 => exact Nat.le_refl 1
  | endFlag =>
    simp only [updateRxFSM, hb, ne_eq, not_false_eq_true, if_true]
    exact Nat.zero_le _
  | body =>
    simp only [updateRxFSM, hb, if_false]
    by_cases hk : k ≤ 0
    · split
      next =>
        simp only [Rx.settling, hk, if_true]
        exact Nat.zero_le _
      next => exact (settling_pushBody_exhausted hk b).le.trans (Nat.zero_le _)
    · have hpos : 0 < k := not_le.mp hk
      have hnow : (⟨.body, rx, k⟩ : Rx).settling = 2 * k.toNat + 3 := if_neg hk
      rw [hnow]
      split
      next =>
        simp only [Rx.settling, hk, if_false]
        omega
      next =>
        have hpush := settling_pushBody (s := ⟨.body, rx, k⟩) hpos b
        dsimp only at hpush ⊢
        omega
  | escape =>
    simp only [updateRxFSM, hb, if_false]
    split
    next =>
      by_cases hk : k ≤ 0
      · exact (settling_pushBody_exhausted hk _).le.trans (Nat.zero_le _)
      · have hpush := settling_pushBody (s := ⟨.escape, rx, k⟩) (not_le.mp hk) (b + 0x20#8)
        have hnow : (⟨.escape, rx, k⟩ : Rx).settling = 2 * k.toNat + 2 := if_neg hk
        rw [hnow]
        dsimp only at hpush ⊢
        omega
    next => exact Nat.zero_le _

/-- The counter never exceeds a length byte. -/
theorem byteCount_step {s : Rx} (h : s.byteCount ≤ 255) (b : Byte) :
    (updateRxFSM s b).1.byteCount ≤ 255 := by
  have hbyte (x : Byte) : (x.toNat : ℤ) ≤ 255 := by
    have hlt := x.isLt
    omega
  have hpush (x : Byte) : (s.pushBody x).byteCount ≤ 255 := by
    simp only [Rx.pushBody]
    omega
  have hvalid : (validateRx s).1.byteCount ≤ 255 := by
    unfold validateRx
    dsimp only
    split
    next => exact h
    next =>
      split
      next => exact hbyte _
      next => exact hbyte _
  unfold updateRxFSM
  cases s.rxState with
  | waitingForSync =>
    dsimp only
    split <;> exact h
  | header1 => exact h
  | header2 => exact hbyte b
  | fcs1 => exact h
  | fcs2 => exact h
  | body =>
    dsimp only
    split
    next => exact h
    next =>
      split
      next => exact h
      next => exact hpush b
  | escape =>
    dsimp only
    split
    next => exact hpush _
    next => split <;> exact h
  | endFlag =>
    dsimp only
    split
    next => exact h
    next =>
      unfold finishFrame
      dsimp only
      split
      next => split <;> exact hvalid
      next => exact hvalid

theorem settling_le {s : Rx} (h : s.byteCount ≤ 255) : s.settling ≤ 515 := by
  unfold Rx.settling
  cases s.rxState with
  | body =>
    dsimp only
    split <;> omega
  | escape =>
    dsimp only
    split <;> omega
  | _ => exact Nat.le_of_ble_eq_true rfl

theorem settling_run {gap : List Byte} (hgap : frameChar ∉ gap) (s : Rx) :
    (run updateRxFSM s gap).settling ≤ s.settling - gap.length :=
  run_le_sub settling_step (fun _ hb => ne_of_mem_of_not_mem hb hgap) s

/-- The counter after any bytes. -/
theorem byteCount_run (noise : List Byte) : (run updateRxFSM Rx.init noise).byteCount ≤ 255 := by
  induction noise using List.reverseRecOn with
  | nil => decide
  | append_singleton bs b ih =>
    rw [run_concat]
    exact byteCount_step ih b

/-- A frame that is cut off before its closing flag. -/
theorem unclosed_run {p : Packet} (hp : p ≠ []) {n : Byte} (hn : p.length = n.toNat) (v a b : Byte) :
    (run updateRxFSM Rx.init (frameChar :: ([v, n] ++ esc p ++ [a, b]))).rxState = .endFlag := by
  have hopen : Silent updateRxFSM Rx.init [frameChar] ⟨.header1, [frameChar], 0⟩ := .single rfl
  have hpayload := body_run [frameChar, v, n] n.toNat p hp (Or.inl (by rw [hn]))
  have hphase : bodyPhase ((n.toNat : ℤ) - p.length) = .fcs1 := by
    rw [hn, sub_self]
    rfl
  rw [hphase] at hpayload
  have hrun := hopen.append (((header_run 0 v n).append hpayload).append (trailer_run _ _ a b))
  exact congrArg Rx.rxState hrun.2

theorem length_esc_replicate (n : ℕ) : (esc (List.replicate n escapeChar)).length = 2 * n := by
  induction n with
  | zero => rfl
  | succ n ih =>
    rw [List.replicate_succ, esc_cons, List.length_append, ih]
    exact Nat.add_comm 2 (2 * n)

/-- With 515 bytes that are no flags between the noise and the first frame nothing is lost any
more, and no shorter gap is enough for every noise. -/
theorem shortest_gap : IsLeast {n | ∀ noise gap : List Byte, frameChar ∉ gap → n ≤ gap.length →
    Resynchronises (run updateRxFSM Rx.init (noise ++ gap)) 0} 515 := by
  constructor
  · intro noise gap hgap hlen
    refine resynchronises_of_inStep (Rx.inStep_of_settling ?_) 0
    have hstart := settling_le (byteCount_run noise)
    have hend := settling_run hgap (run updateRxFSM Rx.init noise)
    rw [run_append]
    omega
  · intro n hn
    by_contra hshort
    have hlen : (List.replicate 255 escapeChar).length = (0xFF#8).toNat := List.length_replicate
    have hend := unclosed_run (List.ne_nil_of_length_pos (hlen ▸ by decide)) hlen 0x01 0 0
    have hstep := inStep_of_resynchronises (hn [frameChar]
      ([0x01, 0xFF#8] ++ esc (List.replicate 255 escapeChar) ++ [0, 0]) ?_ ?_)
    · rw [List.singleton_append, Rx.InStep, hend] at hstep
      rcases hstep with h | h | h <;> cases h
    · rw [List.mem_append, List.mem_append]
      rintro ((h | h) | h)
      · revert h
        decide
      · exact frameChar_notMem_esc _ h
      · revert h
        decide
    · rw [List.length_append, List.length_append, length_esc_replicate]
      change n ≤ 2 + 510 + 2
      omega

end MctpSerial.MctpFramer
