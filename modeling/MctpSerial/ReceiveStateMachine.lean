import MctpSerial.FrameEncoder
import MctpSerial.StreamTransducers
import Mathlib.Data.List.GetD

/-!
# The receive state machine of the framer

`updateRxFSM` handles one byte read from the serial descriptor. Its answer is the
packet handed to the packet socket, if any. The counter `byte_count` is a C++
`int` that the machine may drive below zero; it is kept here as an integer.
-/
namespace MctpSerial.MctpFramer
open StreamTransducers

inductive DataTransmission where
  | waitingForSync | header1 | header2 | body | fcs1 | fcs2 | escape | endFlag
  deriving DecidableEq

/-- The receive fields of the framer object. -/
structure Rx where
  rxState : DataTransmission
  rxInProgress : List Byte
  byteCount : ℤ
  deriving DecidableEq

/-- The receive fields set by the constructor. -/
def Rx.init : Rx := ⟨.waitingForSync, [], 0⟩

/-- A flag taken as the start of a frame. -/
def Rx.restart (s : Rx) : Rx := { s with rxState := .header1, rxInProgress := [frameChar] }

/-- A payload byte, after unescaping. -/
def Rx.pushBody (s : Rx) (b : Byte) : Rx where
  rxState := if s.byteCount - 1 = 0 then .fcs1 else .body
  rxInProgress := s.rxInProgress ++ [b]
  byteCount := s.byteCount - 1

/-- `validateRx`; it overwrites `byte_count` on the way. The length comparison is
between two `int`s, the casts to `uint16_t` binding tighter than the subtraction. -/
def validateRx (s : Rx) : Rx × Bool :=
  let size := s.rxInProgress.length
  if size < 11 then (s, false)
  else
    let s := { s with byteCount := (s.rxInProgress.getD 2 0).toNat }
    if s.byteCount % 65536 ≠ ((size % 65536 : ℕ) : ℤ) - 6 then (s, false)
    else
      let fcs := calcFcs initFcs (s.rxInProgress.drop 1) (intOfSize (size - 4))
      let msgFcs := joinFcs (s.rxInProgress.getD (size - 3) 0) (s.rxInProgress.getD (size - 2) 0)
      (s, decide (msgFcs = fcs))

/-- The state `MCTPSER_END` on its flag: validate, strip header and trailer, hand over. -/
def finishFrame (s : Rx) : Rx × Option Packet :=
  let (s, valid) := validateRx s
  if valid then
    let stripped := s.rxInProgress.drop 3
    let packet := stripped.take (stripped.length - 3)
    let s := { s with rxInProgress := packet, rxState := .waitingForSync }
    if packet.length < 5 then (s, none) else (s, some packet)
  else ({ s with rxState := .waitingForSync }, none)

/-- One call of `updateRxFSM` whose `read` returned the byte `b`. A call whose `read`
returned anything else changes nothing. -/
def updateRxFSM (s : Rx) (b : Byte) : Rx × Option Packet :=
  match s.rxState with
  | .waitingForSync => if b = frameChar then (s.restart, none) else (s, none)
  | .header1 => ({ s with rxInProgress := s.rxInProgress ++ [b], rxState := .header2 }, none)
  | .header2 =>
    ({ rxInProgress := s.rxInProgress ++ [b], byteCount := b.toNat, rxState := .body }, none)
  | .body =>
    if b = escapeChar then ({ s with rxState := .escape }, none)
    else if b = frameChar then (s.restart, none)
    else (s.pushBody b, none)
  | .fcs1 => ({ s with rxInProgress := s.rxInProgress ++ [b], rxState := .fcs2 }, none)
  | .fcs2 =>
    ({ s with rxInProgress := s.rxInProgress ++ [b, frameChar], rxState := .endFlag }, none)
  | .endFlag =>
    if b ≠ frameChar then ({ s with rxState := .waitingForSync }, none) else finishFrame s
  | .escape =>
    if b = escapeChar - 0x20#8 ∨ b = frameChar - 0x20#8 then (s.pushBody (b + 0x20#8), none)
    else if b = frameChar then (s.restart, none)
    else ({ s with rxState := .waitingForSync }, none)

/-- The packets handed to the packet socket while a byte stream is consumed. -/
abbrev delivered (s : Rx) (bytes : List Byte) : List Packet := emitted updateRxFSM s bytes

/-- The states in which a flag starts a frame. -/
def Rx.InStep (s : Rx) : Prop :=
  s.rxState = .waitingForSync ∨ s.rxState = .body ∨ s.rxState = .escape

instance (s : Rx) : Decidable s.InStep := inferInstanceAs (Decidable (_ ∨ _ ∨ _))

/-- The frames the receiver hands over: at least five payload bytes and a checksum
over version, length and payload. -/
def Accepts (v : Byte) (p : Packet) (a b : Byte) : Prop :=
  5 ≤ p.length ∧
    joinFcs a b = calcFcs initFcs (v :: BitVec.ofNat 8 p.length :: p) (p.length + 2 : ℕ)

instance (v : Byte) (p : Packet) (a b : Byte) : Decidable (Accepts v p a b) :=
  inferInstanceAs (Decidable (_ ∧ _))

theorem Rx.InStep.waiting {s : Rx} (h : s.rxState = .waitingForSync) : s.InStep := Or.inl h

theorem updateRxFSM_flag {s : Rx} (h : s.InStep) : updateRxFSM s frameChar = (s.restart, none) := by
  rcases h with h | h | h <;> simp only [updateRxFSM, h, frameChar_ne_escapeChar,
    frameChar_not_escaped, if_true, if_false]

theorem updateRxFSM_waiting {s : Rx} (h : s.rxState = .waitingForSync) {b : Byte}
    (hb : b ≠ frameChar) : updateRxFSM s b = (s, none) := by
  simp [updateRxFSM, h, hb]

/-- Only `finishFrame` answers a byte. -/
theorem updateRxFSM_quiet {s : Rx} {b : Byte} (h : s.rxState ≠ .endFlag ∨ b ≠ frameChar) :
    (updateRxFSM s b).2 = none := by
  unfold updateRxFSM
  cases hs : s.rxState <;> simp only <;> (repeat' split) <;> simp_all

/-- Packets of fewer than five bytes are dropped, in whatever state they end. -/
theorem five_le_of_answer {s : Rx} {b : Byte} {p : Packet} (h : (updateRxFSM s b).2 = some p) :
    5 ≤ p.length := by
  by_cases hs : s.rxState = .endFlag ∧ b = frameChar
  · simp only [updateRxFSM, hs.1, hs.2, ne_eq, not_true_eq_false, if_false, finishFrame] at h
    split at h
    · split at h
      next => cases h
      next hlen =>
        rw [← Option.some.inj h]
        exact not_lt.mp hlen
    · cases h
  · rw [updateRxFSM_quiet (not_and_or.mp hs)] at h
    cases h

theorem five_le_of_delivered {s : Rx} {bytes : List Byte} {p : Packet}
    (h : p ∈ delivered s bytes) : 5 ≤ p.length := by
  induction bytes using List.reverseRecOn with
  | nil => cases h
  | append_singleton bs b ih =>
    rw [delivered, emitted_concat, List.mem_append] at h
    rcases h with h | h
    · exact ih h
    · exact five_le_of_answer (Option.mem_toList.mp h)

/-- Bytes without a flag do not move a waiting receiver. -/
theorem waiting_gap {s : Rx} (h : s.rxState = .waitingForSync) {g : List Byte}
    (hg : frameChar ∉ g) : Silent updateRxFSM s g s := by
  induction g with
  | nil => exact .nil s
  | cons b g ih =>
    have hb : b ≠ frameChar := fun e => hg (by simp [e])
    exact .cons (updateRxFSM_waiting h hb) (ih fun hm => hg (List.mem_cons_of_mem _ hm))

/-- The states that only a flag can leave towards a delivery: waiting, or a body whose
counter has run past zero and never comes back to it. -/
def Rx.Idle (s : Rx) : Prop :=
  s.rxState = .waitingForSync ∨
    (s.rxState = .body ∨ s.rxState = .escape) ∧ s.byteCount ≤ 0

instance (s : Rx) : Decidable s.Idle := inferInstanceAs (Decidable (_ ∨ _ ∧ _))

theorem Rx.Idle.inStep {s : Rx} (h : s.Idle) : s.InStep := by
  rcases h with h | ⟨h | h, _⟩
  · exact Or.inl h
  · exact Or.inr (Or.inl h)
  · exact Or.inr (Or.inr h)

theorem Rx.Idle.pushBody {s : Rx} (h : s.byteCount ≤ 0) (b : Byte) : (s.pushBody b).Idle := by
  have hne : s.byteCount - 1 ≠ 0 := by omega
  refine Or.inr ⟨Or.inl ?_, ?_⟩
  · simp [Rx.pushBody, hne]
  · simp only [Rx.pushBody]
    omega

/-- A byte other than a flag keeps an idle receiver idle. -/
theorem Rx.Idle.step {s : Rx} (h : s.Idle) {b : Byte} (hb : b ≠ frameChar) :
    (updateRxFSM s b).1.Idle ∧ (updateRxFSM s b).2 = none := by
  refine ⟨?_, updateRxFSM_quiet (Or.inr hb)⟩
  rcases h with h | ⟨h | h, hk⟩
  · rw [updateRxFSM_waiting h hb]
    exact Or.inl h
  · simp only [updateRxFSM, h]
    rw [if_neg hb]
    split
    · exact Or.inr ⟨Or.inr rfl, hk⟩
    · exact Rx.Idle.pushBody hk b
  · simp only [updateRxFSM, h]
    rw [if_neg hb]
    split
    · exact Rx.Idle.pushBody hk _
    · exact Or.inl rfl

theorem idle_gap {s : Rx} (h : s.Idle) {g : List Byte} (hg : frameChar ∉ g) :
    ∃ t : Rx, t.Idle ∧ Silent updateRxFSM s g t := by
  induction g generalizing s with
  | nil => exact ⟨s, h, .nil s⟩
  | cons b g ih =>
    have hb : b ≠ frameChar := fun e => hg (by simp [e])
    obtain ⟨hidle, hquiet⟩ := h.step hb
    obtain ⟨t, ht, hr⟩ := ih hidle fun hm => hg (List.mem_cons_of_mem _ hm)
    exact ⟨t, ht, .cons (Prod.ext rfl hquiet) hr⟩

/-- Version and length after a flag. -/
theorem header_run (k : ℤ) (v n : Byte) :
    Silent updateRxFSM ⟨.header1, [frameChar], k⟩ [v, n] ⟨.body, [frameChar, v, n], n.toNat⟩ :=
  .cons rfl (.cons rfl (.nil _))

private theorem escape_step (rx : List Byte) (k : ℤ) (x : Byte)
    (hx : x = frameChar ∨ x = escapeChar) :
    Silent updateRxFSM ⟨.body, rx, k⟩ [escapeChar, x - 0x20#8]
      ((⟨.body, rx, k⟩ : Rx).pushBody x) := by
  refine .cons (t := ⟨.escape, rx, k⟩) (by simp [updateRxFSM]) (.cons ?_ (.nil _))
  rcases hx with rfl | rfl <;> rfl

/-- One payload byte in its escaped form. -/
theorem body_byte (rx : List Byte) (k : ℤ) (x : Byte) :
    Silent updateRxFSM ⟨.body, rx, k⟩ (escByte x) ((⟨.body, rx, k⟩ : Rx).pushBody x) := by
  rw [escByte]
  split
  · rename_i hx
    exact escape_step rx k x hx
  · rename_i hx
    obtain ⟨hf, he⟩ := not_or.mp hx
    exact .cons (by simp [updateRxFSM, hf, he]) (.nil _)

/-- The phase after a payload byte: the checksum follows once the counter is zero. -/
def bodyPhase (k : ℤ) : DataTransmission := if k = 0 then .fcs1 else .body

/-- A payload that does not overrun the counter, or one read after the counter has
already been exhausted. -/
theorem body_run (rx : List Byte) (k : ℤ) (p : Packet) (hp : p ≠ [])
    (hk : p.length ≤ k ∨ k ≤ 0) :
    Silent updateRxFSM ⟨.body, rx, k⟩ (esc p) ⟨bodyPhase (k - p.length), rx ++ p, k - p.length⟩ := by
  induction p generalizing rx k with
  | nil => exact absurd rfl hp
  | cons x p ih =>
    have hx := body_byte rx k x
    by_cases hnil : p = []
    · subst hnil
      simpa [Rx.pushBody, bodyPhase, esc] using hx
    · have hpos : 0 < p.length := List.length_pos_iff.mpr hnil
      have hne : k - 1 ≠ 0 := by
        simp only [List.length_cons] at hk
        omega
      have hbody : (⟨.body, rx, k⟩ : Rx).pushBody x = ⟨.body, rx ++ [x], k - 1⟩ := by
        simp [Rx.pushBody, hne]
      rw [hbody] at hx
      have hrest := ih (rx ++ [x]) (k - 1) hnil (by simp only [List.length_cons] at hk; omega)
      have hsub : k - 1 - (p.length : ℤ) = k - (x :: p).length := by
        simp only [List.length_cons]
        omega
      rw [hsub, List.append_assoc] at hrest
      exact hx.append hrest

/-- Checksum bytes are taken as they are, flags included. -/
theorem trailer_run (rx : List Byte) (k : ℤ) (a b : Byte) :
    Silent updateRxFSM ⟨.fcs1, rx, k⟩ [a, b] ⟨.endFlag, rx ++ [a, b, frameChar], k⟩ := by
  refine .cons (t := ⟨.fcs2, rx ++ [a], k⟩) rfl (.cons ?_ (.nil _))
  simp [updateRxFSM]

private theorem getD_two (x v n : Byte) (l : List Byte) : ([x, v, n] ++ l).getD 2 0 = n := rfl

theorem validateRx_rxInProgress (s : Rx) : (validateRx s).1.rxInProgress = s.rxInProgress := by
  rw [validateRx]
  dsimp only
  repeat' split
  all_goals rfl

/-- What `validateRx` decides about a buffer whose length byte fits its payload. -/
theorem validateRx_frame (st : DataTransmission) (k : ℤ) (x v n : Byte) (p : Packet)
    (a b c : Byte) (hn : n.toNat = p.length) :
    (validateRx ⟨st, [x, v, n] ++ p ++ [a, b, c], k⟩).2 = decide (Accepts v p a b) := by
  have hle : p.length ≤ 255 := by have := n.isLt; omega
  have hlen : ([x, v, n] ++ p ++ [a, b, c]).length = p.length + 6 := by simp
  have hnp : n = BitVec.ofNat 8 p.length := by
    rw [← hn, BitVec.ofNat_toNat, BitVec.setWidth_eq]
  have hget : ([x, v, n] ++ p ++ [a, b, c]).getD 2 0 = n := by
    rw [List.append_assoc, getD_two]
  have ha : ([x, v, n] ++ p ++ [a, b, c]).getD (p.length + 6 - 3) 0 = a := by
    rw [List.getD_append_right _ _ _ _ (by simp)]
    simp
  have hb : ([x, v, n] ++ p ++ [a, b, c]).getD (p.length + 6 - 2) 0 = b := by
    rw [List.getD_append_right _ _ _ _ (by simp)]
    simp
  have hfcs : calcFcs initFcs (([x, v, n] ++ p ++ [a, b, c]).drop 1) (intOfSize (p.length + 6 - 4))
      = calcFcs initFcs (v :: n :: p) (p.length + 2 : ℕ) := by
    rw [intOfSize_of_lt (by omega)]
    exact calcFcs_append initFcs (v :: n :: p) [a, b, c]
  simp only [validateRx, hlen, hget, ha, hb, hfcs]
  by_cases h5 : p.length + 6 < 11
  · have : ¬ 5 ≤ p.length := by omega
    simp [h5, Accepts, this]
  · have h5' : 5 ≤ p.length := by omega
    have hmod : ¬ ((n.toNat : ℤ) % 65536 ≠ (((p.length + 6) % 65536 : ℕ) : ℤ) - 6) := by
      rw [hn]
      omega
    simp only [h5, if_false, hmod, Accepts, h5', true_and, ← hnp]

/-- The verdict on a complete buffer, and the state it leaves. -/
theorem finishFrame_frame (k : ℤ) (x v n : Byte) (p : Packet) (a b c : Byte)
    (hn : n.toNat = p.length) :
    (finishFrame ⟨.endFlag, [x, v, n] ++ p ++ [a, b, c], k⟩).2 =
        (if Accepts v p a b then some p else none) ∧
      (finishFrame ⟨.endFlag, [x, v, n] ++ p ++ [a, b, c], k⟩).1.rxState = .waitingForSync := by
  have hv := validateRx_frame .endFlag k x v n p a b c hn
  have hrx := validateRx_rxInProgress ⟨.endFlag, [x, v, n] ++ p ++ [a, b, c], k⟩
  have hpacket : (([x, v, n] ++ p ++ [a, b, c]).drop 3).take
      ((([x, v, n] ++ p ++ [a, b, c]).drop 3).length - 3) = p := by
    simp
  unfold finishFrame
  simp only [hv, hrx, hpacket, decide_eq_true_eq]
  by_cases h : Accepts v p a b
  · have h5 : ¬ p.length < 5 := by have := h.1; omega
    simp [h, h5]
  · simp [h]

theorem toNat_length_byte {p : Packet} (h : p.length ≤ 255) :
    (BitVec.ofNat 8 p.length).toNat = p.length := by
  rw [BitVec.toNat_ofNat]
  omega

end MctpSerial.MctpFramer
