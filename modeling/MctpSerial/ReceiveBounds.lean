import MctpSerial.ReceiveStateMachine

/-!
# How far the receive buffer and its counter can run

A legal frame is a flag, version and length, at most 255 payload bytes, two checksum
bytes and a flag. `Fits` gives each phase its share of these 261 bytes. The length byte
is loaded into `byte_count` unchecked and the counter is tested for zero only after a
decrement, so that one kind of step leaves the bounds: a payload byte taken with the
counter at zero, which a header with length byte zero makes possible.
-/
namespace MctpSerial.MctpFramer
open StreamTransducers

namespace Rx

/-- Buffer and counter are within the limits of one frame. -/
def Bounded (s : Rx) : Prop :=
  s.rxInProgress.length ≤ 261 ∧ 0 ≤ s.byteCount ∧ s.byteCount ≤ 255

instance (s : Rx) : Decidable s.Bounded := inferInstanceAs (Decidable (_ ∧ _ ∧ _))

/-- The receiver takes `b` as a payload byte, plain or as the second half of an escape. -/
def TakesPayload (s : Rx) (b : Byte) : Prop :=
  (s.rxState = .body ∧ b ≠ escapeChar ∧ b ≠ frameChar) ∨
    (s.rxState = .escape ∧ (b = escapeChar - 0x20#8 ∨ b = frameChar - 0x20#8))

instance (s : Rx) (b : Byte) : Decidable (s.TakesPayload b) :=
  inferInstanceAs (Decidable (_ ∧ _ ∧ _ ∨ _ ∧ _))

/-- A payload byte beyond the announced length. -/
def Overruns (s : Rx) (b : Byte) : Prop := s.TakesPayload b ∧ s.byteCount = 0

instance (s : Rx) (b : Byte) : Decidable (s.Overruns b) := inferInstanceAs (Decidable (_ ∧ _))

/-- The buffer may hold what the phase has received, and the counter what is missing. -/
inductive Fits : Rx → Prop
  | waiting (rx : List Byte) (k : ℤ) (hrx : rx.length ≤ 261) (h0 : 0 ≤ k) (hk : k ≤ 255) :
      Fits ⟨.waitingForSync, rx, k⟩
  | header1 (rx : List Byte) (k : ℤ) (hrx : rx.length = 1) (h0 : 0 ≤ k) (hk : k ≤ 255) :
      Fits ⟨.header1, rx, k⟩
  | header2 (rx : List Byte) (k : ℤ) (hrx : rx.length = 2) (h0 : 0 ≤ k) (hk : k ≤ 255) :
      Fits ⟨.header2, rx, k⟩
  | body (rx : List Byte) (k : ℤ) (hrx : rx.length + k ≤ 258) (h0 : 0 ≤ k) (hk : k ≤ 255) :
      Fits ⟨.body, rx, k⟩
  | escape (rx : List Byte) (k : ℤ) (hrx : rx.length + k ≤ 258) (h0 : 0 ≤ k) (hk : k ≤ 255) :
      Fits ⟨.escape, rx, k⟩
  | fcs1 (rx : List Byte) (hrx : rx.length ≤ 258) : Fits ⟨.fcs1, rx, 0⟩
  | fcs2 (rx : List Byte) (hrx : rx.length ≤ 259) : Fits ⟨.fcs2, rx, 0⟩
  | endFlag (rx : List Byte) (hrx : rx.length ≤ 261) : Fits ⟨.endFlag, rx, 0⟩

theorem Fits.bounded {s : Rx} (h : s.Fits) : s.Bounded := by
  cases h with
  | waiting rx k hrx h0 hk => exact ⟨hrx, h0, hk⟩
  | header1 rx k hrx h0 hk => exact ⟨by simp only [hrx]; omega, h0, hk⟩
  | header2 rx k hrx h0 hk => exact ⟨by simp only [hrx]; omega, h0, hk⟩
  | body rx k hrx h0 hk => exact ⟨by dsimp only; omega, h0, hk⟩
  | escape rx k hrx h0 hk => exact ⟨by dsimp only; omega, h0, hk⟩
  | fcs1 rx hrx => exact ⟨by dsimp only; omega, le_rfl, by norm_num⟩
  | fcs2 rx hrx => exact ⟨by dsimp only; omega, le_rfl, by norm_num⟩
  | endFlag rx hrx => exact ⟨hrx, le_rfl, by norm_num⟩

theorem Bounded.waiting {s : Rx} (h : s.Bounded) :
    ({ s with rxState := .waitingForSync } : Rx).Fits :=
  .waiting s.rxInProgress s.byteCount h.1 h.2.1 h.2.2

theorem Bounded.restart {s : Rx} (h : s.Bounded) : s.restart.Fits :=
  .header1 [frameChar] s.byteCount rfl h.2.1 h.2.2

/-- A payload byte with the counter above zero. -/
theorem Fits.pushBody (st : DataTransmission) {rx : List Byte} {k : ℤ} (hrx : rx.length + k ≤ 258)
    (hpos : 0 < k) (hk : k ≤ 255) (b : Byte) : ((⟨st, rx, k⟩ : Rx).pushBody b).Fits := by
  rw [Rx.pushBody]
  dsimp only
  split
  · rename_i h0
    rw [h0]
    exact .fcs1 _ (by simp only [List.length_append, List.length_singleton]; omega)
  · refine .body _ _ ?_ (by omega) (by omega)
    simp only [List.length_append, List.length_singleton]
    omega

end Rx

/-- `validateRx` leaves the buffer alone and loads the counter from a byte of it. -/
theorem validateRx_bounded {s : Rx} (h : s.Bounded) : (validateRx s).1.Bounded := by
  have hbyte : ({ s with byteCount := (s.rxInProgress.getD 2 0).toNat } : Rx).Bounded := by
    have := (s.rxInProgress.getD 2 0).isLt
    exact ⟨h.1, by dsimp only; omega, by dsimp only; omega⟩
  rw [validateRx]
  dsimp only
  split
  · exact h
  split
  · exact hbyte
  · exact hbyte

theorem finishFrame_fits {s : Rx} (h : s.Bounded) : (finishFrame s).1.Fits := by
  have hv := validateRx_bounded h
  rw [finishFrame]
  dsimp only
  split
  · have hstrip : (((validateRx s).1.rxInProgress.drop 3).take
        (((validateRx s).1.rxInProgress.drop 3).length - 3)).length ≤ 261 := by
      have := hv.1
      rw [List.length_take, List.length_drop]
      omega
    split
    · exact .waiting _ _ hstrip hv.2.1 hv.2.2
    · exact .waiting _ _ hstrip hv.2.1 hv.2.2
  · exact .waiting _ _ hv.1 hv.2.1 hv.2.2

/-- Every step but an overrun keeps the bounds of the phases. -/
theorem Rx.Fits.step {s : Rx} (h : s.Fits) {b : Byte} (hb : ¬ s.Overruns b) :
    (updateRxFSM s b).1.Fits := by
  have hs := h.bounded
  cases h with
  | waiting rx k hrx h0 hk =>
    simp only [updateRxFSM]
    split
    · exact hs.restart
    · exact .waiting rx k hrx h0 hk
  | header1 rx k hrx h0 hk => exact .header2 _ _ (by simp [hrx]) h0 hk
  | header2 rx k hrx h0 hk =>
    have := b.isLt
    refine .body _ _ ?_ (by omega) (by omega)
    simp only [List.length_append, List.length_singleton, hrx]
    omega
  | body rx k hrx h0 hk =>
    simp only [updateRxFSM]
    split
    · exact .escape rx k hrx h0 hk
    split
    · exact hs.restart
    · rename_i he hf
      have hne : k ≠ 0 := fun hz => hb ⟨Or.inl ⟨rfl, he, hf⟩, hz⟩
      exact .pushBody .body hrx (by omega) hk b
  | escape rx k hrx h0 hk =>
    simp only [updateRxFSM]
    split
    · rename_i hx
      have hne : k ≠ 0 := fun hz => hb ⟨Or.inr ⟨rfl, hx⟩, hz⟩
      exact .pushBody .escape hrx (by omega) hk _
    split
    · exact hs.restart
    · exact hs.waiting
  | fcs1 rx hrx => exact .fcs2 _ (by simp only [List.length_append, List.length_singleton]; omega)
  | fcs2 rx hrx =>
    refine .endFlag _ ?_
    simp only [List.length_append, List.length_cons, List.length_nil]
    omega
  | endFlag rx hrx =>
    simp only [updateRxFSM]
    split
    · exact hs.waiting
    · exact finishFrame_fits hs

theorem byteCount_of_overruns {s : Rx} {b : Byte} (h : s.Overruns b) :
    (updateRxFSM s b).1.byteCount = -1 := by
  obtain ⟨⟨hs, he, hf⟩ | ⟨hs, hx⟩, h0⟩ := h
  · simp [updateRxFSM, hs, he, hf, Rx.pushBody, h0]
  · simp [updateRxFSM, hs, hx, Rx.pushBody, h0]

theorem fits_run {bs : List Byte}
    (h : ∀ pre b, pre ++ [b] <+: bs → ¬ (run updateRxFSM Rx.init pre).Overruns b) :
    (run updateRxFSM Rx.init bs).Fits := by
  induction bs using List.reverseRecOn with
  | nil => exact .waiting [] 0 (by simp) le_rfl (by norm_num)
  | append_singleton bs b ih =>
    rw [run_concat]
    refine (ih fun pre x hpre => h pre x ?_).step (h bs b List.prefix_rfl)
    exact hpre.trans (List.prefix_append bs [b])

/-- The receive state stays within the limits of one frame throughout a stream exactly
when no payload byte arrives with the counter at zero. -/
theorem receive_bounded_iff (bs : List Byte) :
    (∀ pre, pre <+: bs → (run updateRxFSM Rx.init pre).Bounded) ↔
      ∀ pre b, pre ++ [b] <+: bs → ¬ (run updateRxFSM Rx.init pre).Overruns b := by
  constructor
  · intro h pre b hpre hover
    have hneg := (h (pre ++ [b]) hpre).2.1
    rw [run_concat, byteCount_of_overruns hover] at hneg
    omega
  · intro h pre hpre
    exact (fits_run fun p b hp => h p b (hp.trans hpre)).bounded

/-- After a header with length byte zero the payload is never complete: the buffer takes
as many bytes as are sent. -/
theorem zero_length_run (v : Byte) (p : Packet) (hp : p ≠ []) :
    run updateRxFSM Rx.init ([frameChar, v, 0] ++ esc p) =
      ⟨.body, [frameChar, v, 0] ++ p, -p.length⟩ := by
  have hpos : 0 < p.length := List.length_pos_iff.mpr hp
  have hphase : bodyPhase (0 - (p.length : ℤ)) = .body := by
    rw [bodyPhase, if_neg (by omega)]
  have hhead := header_run 0 v 0
  have hbody := body_run [frameChar, v, 0] 0 p hp (Or.inr le_rfl)
  have hrun := (hhead.append hbody).2
  rw [hphase, zero_sub] at hrun
  exact hrun

theorem receive_buffer_unbounded (n : ℕ) :
    ∃ bs, n < (run updateRxFSM Rx.init bs).rxInProgress.length := by
  have hne : List.replicate (n + 1) (0 : Byte) ≠ [] := by simp
  refine ⟨[frameChar, 0x01#8, 0] ++ esc (List.replicate (n + 1) 0), ?_⟩
  rw [zero_length_run 0x01#8 (List.replicate (n + 1) 0) hne]
  simp only [List.length_append, List.length_replicate]
  omega

/-- A header that announces no payload, followed by one payload byte. -/
theorem receive_overruns_zero_length :
    (run updateRxFSM Rx.init [0x7E#8, 0x01#8, 0x00#8, 0xAA#8]).byteCount = -1 ∧
      ¬ ∀ pre, pre <+: [0x7E#8, 0x01#8, 0x00#8, 0xAA#8] →
        (run updateRxFSM Rx.init pre).Bounded := by
  have hcount : (run updateRxFSM Rx.init [0x7E#8, 0x01#8, 0x00#8, 0xAA#8]).byteCount = -1 := by
    decide
  refine ⟨hcount, fun h => ?_⟩
  have hneg := (h _ List.prefix_rfl).2.1
  rw [hcount] at hneg
  omega

end MctpSerial.MctpFramer
