import MctpSerial.ReceiveStateMachine

/-!
# Decoding a stream of frames

From any state in which a flag starts a frame, the receive state machine decodes
a frame exactly: it is silent up to the closing flag, answers that flag with the
payload when length and checksum are acceptable, and waits for the next flag. The
result for a whole line, with noise between the frames, is by induction on the
list of frames.
-/
namespace MctpSerial.MctpFramer
open StreamTransducers

/-- A frame on the line, followed by noise without flags. -/
structure LineFrame where
  version : Byte
  payload : Packet
  hi : Byte
  lo : Byte
  gap : List Byte
  payload_pos : 1 ≤ payload.length
  payload_le : payload.length ≤ 255
  gap_clean : frameChar ∉ gap

namespace LineFrame

def wire (f : LineFrame) : List Byte := wireFrame f.version f.payload f.hi f.lo

def bytes (f : LineFrame) : List Byte := f.wire ++ f.gap

/-- The answer to the closing flag. -/
def answer (f : LineFrame) : Option Packet :=
  if Accepts f.version f.payload f.hi f.lo then some f.payload else none

/-- One answer for each byte: all but the one to the closing flag are silent. -/
def answers (f : LineFrame) : List (Option Packet) :=
  List.replicate (f.wire.length - 1) none ++ f.answer :: List.replicate f.gap.length none

end LineFrame

/-- Everything of a frame before its closing flag is consumed silently. -/
theorem frame_open {s : Rx} (hs : s.InStep) (v : Byte) (p : Packet) (a b : Byte)
    (hpos : 1 ≤ p.length) (hle : p.length ≤ 255) :
    Silent updateRxFSM s ([frameChar, v, BitVec.ofNat 8 p.length] ++ esc p ++ [a, b])
      ⟨.endFlag, [frameChar, v, BitVec.ofNat 8 p.length] ++ p ++ [a, b, frameChar], 0⟩ := by
  have hne : p ≠ [] := List.length_pos_iff.mp hpos
  have hflag : Silent updateRxFSM s [frameChar] ⟨.header1, [frameChar], s.byteCount⟩ :=
    .single (updateRxFSM_flag hs)
  have hheader := header_run s.byteCount v (BitVec.ofNat 8 p.length)
  rw [toNat_length_byte hle] at hheader
  have hbody := body_run [frameChar, v, BitVec.ofNat 8 p.length] p.length p hne (Or.inl le_rfl)
  simp only [sub_self, bodyPhase, if_true] at hbody
  exact ((hflag.append hheader).append hbody).append (trailer_run _ 0 a b)

theorem wireFrame_eq (v : Byte) (p : Packet) (a b : Byte) :
    wireFrame v p a b =
      ([frameChar, v, BitVec.ofNat 8 p.length] ++ esc p ++ [a, b]) ++ [frameChar] := by
  simp [wireFrame]

/-- A whole frame, ending with the verdict on its closing flag. -/
theorem frame_run {s : Rx} (hs : s.InStep) (v : Byte) (p : Packet) (a b : Byte)
    (hpos : 1 ≤ p.length) (hle : p.length ≤ 255) :
    ∃ t : Rx, t.rxState = .waitingForSync ∧
      Runs updateRxFSM s (wireFrame v p a b)
        (List.replicate ((wireFrame v p a b).length - 1) none ++
          [if Accepts v p a b then some p else none]) t := by
  have hopen := frame_open hs v p a b hpos hle
  obtain ⟨hverdict, hwait⟩ := finishFrame_frame 0 frameChar v (BitVec.ofNat 8 p.length) p a b
    frameChar (toNat_length_byte hle)
  refine ⟨_, hwait, ?_⟩
  rw [wireFrame_eq, List.length_append, List.length_singleton, Nat.add_sub_cancel, ← hverdict]
  exact Runs.append hopen (.single (by simp [updateRxFSM]))

theorem LineFrame.bytes_run (f : LineFrame) {s : Rx} (hs : s.InStep) :
    ∃ t : Rx, t.rxState = .waitingForSync ∧ Runs updateRxFSM s f.bytes f.answers t := by
  obtain ⟨t, ht, hr⟩ := frame_run hs f.version f.payload f.hi f.lo f.payload_pos f.payload_le
  refine ⟨t, ht, ?_⟩
  have h := Runs.append hr (waiting_gap ht f.gap_clean)
  simpa [LineFrame.bytes, LineFrame.answers, LineFrame.wire, LineFrame.answer] using h

/-- The whole line: the machine ends waiting, or has not moved. -/
theorem line_run (fs : List LineFrame) {s : Rx} (hs : s.InStep) :
    ∃ t : Rx, (t.rxState = .waitingForSync ∨ fs = [] ∧ t = s) ∧
      Runs updateRxFSM s (fs.flatMap LineFrame.bytes) (fs.flatMap LineFrame.answers) t := by
  induction fs generalizing s with
  | nil => exact ⟨s, Or.inr ⟨rfl, rfl⟩, .nil s⟩
  | cons f fs ih =>
    obtain ⟨t, ht, hf⟩ := f.bytes_run hs
    obtain ⟨u, hu, hfs⟩ := ih (.waiting ht)
    refine ⟨u, ?_, ?_⟩
    · rcases hu with hu | ⟨_, rfl⟩
      · exact Or.inl hu
      · exact Or.inl ht
    · simpa only [List.flatMap_cons] using Runs.append hf hfs

theorem LineFrame.reduceOption_answers (fs : List LineFrame) :
    (fs.flatMap LineFrame.answers).reduceOption =
      (fs.filter fun f => Accepts f.version f.payload f.hi f.lo).map LineFrame.payload := by
  induction fs with
  | nil => rfl
  | cons f fs ih =>
    rw [List.flatMap_cons, List.reduceOption_append, ih, LineFrame.answers,
      List.reduceOption_append, List.reduceOption_replicate_none]
    by_cases h : Accepts f.version f.payload f.hi f.lo
    · simp [LineFrame.answer, h, List.reduceOption_cons_of_some, List.reduceOption_replicate_none]
    · simp [LineFrame.answer, h, List.reduceOption_cons_of_none, List.reduceOption_replicate_none]

/-- Messages the receiver hands over. -/
def Sendable (m : Packet) : Prop := 5 ≤ m.length ∧ m.length ≤ 255

instance (m : Packet) : Decidable (Sendable m) := inferInstanceAs (Decidable (_ ∧ _))

theorem accepts_own {m : Packet} (h : Sendable m) : Accepts 0x01#8 m (fcsHi m) (fcsLo m) :=
  ⟨h.1, by rw [joinFcs_msgFcs, msgFcs_eq h.2]⟩

/-- The frame `buildWire` makes, without noise after it. -/
def ownFrame (m : Packet) (h : Sendable m) : LineFrame where
  version := 0x01#8
  payload := m
  hi := fcsHi m
  lo := fcsLo m
  gap := []
  payload_pos := by have := h.1; omega
  payload_le := h.2
  gap_clean := by simp

/-- One encoded message, from any state in which a flag starts a frame. -/
theorem buildWire_run {s : Rx} (hs : s.InStep) {m : Packet} (h : Sendable m) :
    ∃ t : Rx, t.rxState = .waitingForSync ∧ run updateRxFSM s (buildWire m) = t ∧
      delivered s (buildWire m) = [m] := by
  obtain ⟨t, ht, hr⟩ := (ownFrame m h).bytes_run hs
  have hbytes : (ownFrame m h).bytes = buildWire m := by
    simp [LineFrame.bytes, LineFrame.wire, ownFrame, buildWire_eq]
  rw [hbytes] at hr
  refine ⟨t, ht, hr.2, ?_⟩
  have he := LineFrame.reduceOption_answers [ownFrame m h]
  rw [delivered, hr.emitted_eq]
  simpa [ownFrame, accepts_own h] using he

/-- A line of encoded messages gives the messages back. -/
theorem buildWires_run {s : Rx} (hs : s.InStep) (ms : List Packet) (h : ∀ m ∈ ms, Sendable m) :
    delivered s (ms.flatMap buildWire) = ms := by
  induction ms generalizing s with
  | nil => rfl
  | cons m ms ih =>
    obtain ⟨t, ht, hrun, hdel⟩ := buildWire_run hs (h m List.mem_cons_self)
    rw [delivered, List.flatMap_cons, emitted_append, hrun, ← delivered, hdel]
    simp [ih (.waiting ht) fun x hx => h x (List.mem_cons_of_mem _ hx)]

/-- Stream decoding is exact. The trace has one answer for each byte, so the packets
are handed over at the closing flags of their frames and nowhere else. -/
theorem stream_decoding_exact (s : Rx) (hs : s.InStep) (fs : List LineFrame) :
    trace updateRxFSM s (fs.flatMap LineFrame.bytes) = fs.flatMap LineFrame.answers ∧
      delivered s (fs.flatMap LineFrame.bytes) =
        (fs.filter fun f => Accepts f.version f.payload f.hi f.lo).map LineFrame.payload ∧
      (fs ≠ [] →
        (run updateRxFSM s (fs.flatMap LineFrame.bytes)).rxState = .waitingForSync) ∧
      (∀ p : Packet, p.length ≤ 255 →
        buildWire p = wireFrame 0x01#8 p (fcsHi p) (fcsLo p) ∧
          joinFcs (fcsHi p) (fcsLo p) =
            calcFcs initFcs (0x01#8 :: BitVec.ofNat 8 p.length :: p) (p.length + 2 : ℕ)) ∧
      ∀ ms : List Packet, (∀ m ∈ ms, Sendable m) → delivered s (ms.flatMap buildWire) = ms := by
  obtain ⟨t, ht, htrace, hrun⟩ := line_run fs hs
  refine ⟨htrace, ?_, ?_, ?_, buildWires_run hs⟩
  · rw [delivered, emitted, htrace, LineFrame.reduceOption_answers]
  · intro hne
    rw [hrun]
    rcases ht with ht | ⟨he, _⟩
    · exact ht
    · exact absurd he hne
  · intro p hp
    exact ⟨buildWire_eq p, by rw [joinFcs_msgFcs, msgFcs_eq hp]⟩

/-- A receiver abandoned in an escape decodes a good frame, noise and a bad frame. -/
def strayEscape : Rx := ⟨.escape, [frameChar, 0x01#8, 0x09#8, 0x55#8], 8⟩

theorem stream_decoding_exact_strayEscape : strayEscape.InStep ∧
    delivered strayEscape ([LineFrame.mk 0x01#8 [1, 0x7E, 3, 0x7D, 5] 0xFF 0xEB [0x7D, 9]
        (by decide) (by decide) (by decide),
      LineFrame.mk 0x01#8 [1, 0x7E, 3, 0x7D, 5] 0xFF 0xEA [] (by decide) (by decide)
        (by decide)].flatMap LineFrame.bytes) = [[1, 0x7E, 3, 0x7D, 5]] := by
  have hs : strayEscape.InStep := by decide
  refine ⟨hs, (stream_decoding_exact strayEscape hs _).2.1.trans ?_⟩
  decide +kernel

end MctpSerial.MctpFramer
