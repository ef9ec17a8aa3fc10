import MctpSerial.AcceptedFrames

/-!
# The phases of a frame in the receive buffer

In every phase of a frame the buffer begins with the opening flag, and its size, the length
byte and the counter are tied to one another. `validateRx` and the code behind it can rely
on this: no index is out of range, nothing more is erased than there is, and two of the
checks can never fail.
-/
namespace MctpSerial.MctpFramer
open StreamTransducers

namespace Rx

/-- The length byte of the header, where it has been received. -/
def announced (s : Rx) : ℕ := (s.rxInProgress.getD 2 0).toNat

/-- What a phase says about the size of the buffer, the length byte and the counter. -/
def InPhase (s : Rx) : Prop :=
  match s.rxState with
  | .waitingForSync => True
  | .header1 => s.rxInProgress.length = 1
  | .header2 => s.rxInProgress.length = 2
  | .body | .escape => s.byteCount = s.announced - ((s.rxInProgress.length : ℤ) - 3)
  | .fcs1 => 1 ≤ s.announced ∧ s.byteCount = 0 ∧ s.rxInProgress.length = 3 + s.announced
  | .fcs2 => 1 ≤ s.announced ∧ s.rxInProgress.length = 4 + s.announced
  | .endFlag => 1 ≤ s.announced ∧ s.rxInProgress.length = 6 + s.announced ∧
      s.rxInProgress.getLast? = some frameChar

end Rx

/-- `validateRx` with every index checked; no value means that one is out of range. -/
def checkedValidateRx (s : Rx) : Option (Rx × Bool) :=
  let size := s.rxInProgress.length
  if size < 11 then some (s, false)
  else do
    let n ← s.rxInProgress[2]?
    let s := { s with byteCount := n.toNat }
    if s.byteCount % 65536 ≠ ((size % 65536 : ℕ) : ℤ) - 6 then some (s, false)
    else do
      guard ((intOfSize (size - 4)).toNat ≤ (s.rxInProgress.drop 1).length)
      let fcs := calcFcs initFcs (s.rxInProgress.drop 1) (intOfSize (size - 4))
      let hi ← s.rxInProgress[size - 3]?
      let lo ← s.rxInProgress[size - 2]?
      some (s, decide (joinFcs hi lo = fcs))

/-- The state `MCTPSER_END` on its flag, with both erasures checked as well. -/
def checkedFinishFrame (s : Rx) : Option (Rx × Option Packet) := do
  let (s, valid) ← checkedValidateRx s
  if valid then do
    guard (3 ≤ s.rxInProgress.length)
    let stripped := s.rxInProgress.drop 3
    guard (3 ≤ stripped.length)
    let packet := stripped.take (stripped.length - 3)
    let s := { s with rxInProgress := packet, rxState := .waitingForSync }
    some (if packet.length < 5 then (s, none) else (s, some packet))
  else some ({ s with rxState := .waitingForSync }, none)

private theorem announced_frame (st : DataTransmission) (v n : Byte) (l : List Byte) (k : ℤ) :
    (⟨st, [frameChar, v, n] ++ l, k⟩ : Rx).announced = n.toNat := rfl

/-- The phases follow from what the buffer holds of the bytes received. -/
theorem Tracks.inPhase {xs : List Byte} {s : Rx} (h : Tracks xs s) :
    s.rxState ≠ .waitingForSync → s.rxInProgress.head? = some frameChar ∧ s.InPhase := by
  intro hstate
  cases h with
  | waiting xs rx k => exact absurd rfl hstate
  | header1 pre k => exact ⟨rfl, rfl⟩
  | header2 pre v k => exact ⟨rfl, rfl⟩
  | body pre v n q hq =>
    refine ⟨rfl, ?_⟩
    simp only [Rx.InPhase, announced_frame, List.length_append, List.length_cons, List.length_nil]
    omega
  | escape pre v n q hq =>
    refine ⟨rfl, ?_⟩
    simp only [Rx.InPhase, announced_frame, List.length_append, List.length_cons, List.length_nil]
    omega
  | fcs1 pre v n q hq hne =>
    have hpos : 1 ≤ q.length := List.length_pos_of_ne_nil hne
    refine ⟨rfl, ?_, rfl, ?_⟩
    · simp only [announced_frame]
      omega
    · simp only [announced_frame, List.length_append, List.length_cons, List.length_nil]
      omega
  | fcs2 pre v n q a hq hne =>
    have hpos : 1 ≤ q.length := List.length_pos_of_ne_nil hne
    refine ⟨rfl, ?_⟩
    simp only [Rx.InPhase, List.append_assoc, announced_frame, List.length_append,
      List.length_cons, List.length_nil]
    omega
  | endFlag pre v n q a b hq hne =>
    have hpos : 1 ≤ q.length := List.length_pos_of_ne_nil hne
    refine ⟨rfl, ?_, ?_, (List.getLast?_append ..).trans rfl⟩
    · simp only [List.append_assoc, announced_frame]
      omega
    · simp only [List.append_assoc, announced_frame, List.length_append, List.length_cons,
        List.length_nil]
      omega

/-- The buffer of a state that waits for its closing flag: flag, version, length byte,
the announced payload, two checksum bytes and the flag pushed early. -/
def Rx.Complete (s : Rx) : Prop := s.rxInProgress.length = 6 + s.announced

private theorem getElem?_eq_getD {l : List Byte} {i : ℕ} (h : i < l.length) :
    l[i]? = some (l.getD i 0) := by
  rw [List.getD_eq_getElem l 0 h, List.getElem?_eq_getElem h]

/-- The comparison of `validateRx`, which therefore never rejects a frame. -/
theorem Rx.Complete.length_agrees {s : Rx} (h : s.Complete) :
    (s.announced : ℤ) % 65536 = ((s.rxInProgress.length % 65536 : ℕ) : ℤ) - 6 := by
  have hbyte : s.announced < 256 := (s.rxInProgress.getD 2 0).isLt
  rw [Rx.Complete] at h
  omega

theorem checkedValidateRx_eq {s : Rx} (h : s.Complete) :
    checkedValidateRx s = some (validateRx s) := by
  have hagree := h.length_agrees
  have hbyte : s.announced < 256 := (s.rxInProgress.getD 2 0).isLt
  rw [Rx.Complete] at h
  rw [checkedValidateRx, validateRx]
  dsimp only
  split
  · rfl
  · rename_i hsize
    have hread : (intOfSize (s.rxInProgress.length - 4)).toNat ≤
        (s.rxInProgress.drop 1).length := by
      rw [intOfSize_of_lt (by omega), List.length_drop]
      omega
    rw [getElem?_eq_getD (show 2 < _ by omega), getElem?_eq_getD (show _ - 3 < _ by omega),
      getElem?_eq_getD (show _ - 2 < _ by omega)]
    simp only [Option.bind_eq_bind, Option.bind_some, guard, hread, if_true]
    split <;> rfl

/-- A frame that passes has at least eleven bytes, so that five or more are left of it. -/
theorem eleven_le_of_valid {s : Rx} (h : (validateRx s).2 = true) :
    11 ≤ s.rxInProgress.length := by
  rw [validateRx] at h
  dsimp only at h
  split at h
  · cases h
  · omega

theorem checkedFinishFrame_eq {s : Rx} (h : s.Complete) :
    checkedFinishFrame s = some (finishFrame s) := by
  rw [checkedFinishFrame, checkedValidateRx_eq h, finishFrame]
  simp only [Option.bind_eq_bind, Option.bind_some]
  split
  · rename_i hvalid
    have hsize := eleven_le_of_valid hvalid
    rw [← validateRx_rxInProgress s] at hsize
    have hfront : 3 ≤ (validateRx s).1.rxInProgress.length := by omega
    have hback : 3 ≤ ((validateRx s).1.rxInProgress.drop 3).length := by
      rw [List.length_drop]
      omega
    simp only [guard, hfront, hback, if_true]
    split <;> rfl
  · rfl

theorem finishFrame_delivers {s : Rx} (h : (validateRx s).2 = true) :
    ∃ p, (finishFrame s).2 = some p ∧ 5 ≤ p.length := by
  have hsize := eleven_le_of_valid h
  rw [← validateRx_rxInProgress s] at hsize
  have hlen : 5 ≤ (((validateRx s).1.rxInProgress.drop 3).take
      (((validateRx s).1.rxInProgress.drop 3).length - 3)).length := by
    rw [List.length_take, List.length_drop]
    omega
  refine ⟨_, ?_, hlen⟩
  simp only [finishFrame, h, if_true]
  rw [if_neg (not_lt.mpr hlen)]

/-- In every state that a stream can reach the buffer, the length byte and the counter are
those of the phase. At the closing flag every index and both erasures are in range, the
length comparison holds, and a valid frame is handed over. -/
theorem receive_phases (bs : List Byte) :
    let s := run updateRxFSM Rx.init bs
    (s.rxState ≠ .waitingForSync → s.rxInProgress.head? = some frameChar ∧ s.InPhase) ∧
      (s.rxState = .endFlag →
        checkedFinishFrame s = some (finishFrame s) ∧
          (s.announced : ℤ) % 65536 = ((s.rxInProgress.length % 65536 : ℕ) : ℤ) - 6 ∧
          ((validateRx s).2 = true → ∃ p, (finishFrame s).2 = some p ∧ 5 ≤ p.length)) := by
  intro s
  obtain ⟨hparsed⟩ := parsed bs
  refine ⟨hparsed.tracks.inPhase, fun hend => ?_⟩
  have hstate : s.rxState ≠ .waitingForSync := by
    rw [hend]
    decide
  obtain ⟨-, hphase⟩ := hparsed.tracks.inPhase hstate
  have hcomplete : s.Complete := by
    rw [Rx.InPhase, hend] at hphase
    exact hphase.2.1
  exact ⟨checkedFinishFrame_eq hcomplete, hcomplete.length_agrees, finishFrame_delivers⟩

end MctpSerial.MctpFramer
