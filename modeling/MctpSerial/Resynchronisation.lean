import MctpSerial.StreamDecoding

/-!
# Falling out of step with the frame flags

Opening and closing flags are the same byte. A receiver that meets an opening
flag in the middle of a header or a trailer takes it as data and later takes the
closing flag as an opening one. `slip_run` shows that a frame without special
bytes then leaves it in `MCTPSER_HEADER1`, one flag off, from where the next such
frame does the same: no number of good frames brings it back.
-/
namespace MctpSerial.MctpFramer
open StreamTransducers

/-- Bytes that are neither flags nor escapes. -/
def Plain (w : List Byte) : Prop := ∀ x ∈ w, x ≠ frameChar ∧ x ≠ escapeChar

instance (w : List Byte) : Decidable (Plain w) :=
  inferInstanceAs (Decidable (∀ x ∈ w, x ≠ frameChar ∧ x ≠ escapeChar))

theorem Plain.clean {w : List Byte} (h : Plain w) : frameChar ∉ w :=
  fun hm => (h frameChar hm).1 rfl

theorem Plain.esc_eq {w : List Byte} (h : Plain w) : esc w = w := by
  induction w with
  | nil => rfl
  | cons x w ih =>
    obtain ⟨hf, he⟩ := h x List.mem_cons_self
    rw [esc_cons, escByte_eq_self hf he, ih fun y hy => h y (List.mem_cons_of_mem _ hy)]
    rfl

/-- The packet handed over by a flag that meets the receiver in this state. -/
def Rx.flagAnswer (s : Rx) : Option Packet := (updateRxFSM s frameChar).2

/-- Waiting bytes up to a flag, which is taken as the start of a frame. -/
theorem waiting_to_header1 {s : Rx} (h : s.rxState = .waitingForSync) {w : List Byte}
    (hw : frameChar ∉ w) :
    Silent updateRxFSM s (w ++ [frameChar]) s.restart :=
  (waiting_gap h hw).append (.single (updateRxFSM_flag (.waiting h)))

private theorem end_to_waiting (rx : List Byte) (k : ℤ) {b : Byte} (hb : b ≠ frameChar) :
    updateRxFSM ⟨.endFlag, rx, k⟩ b = (⟨.waitingForSync, rx, k⟩, none) := by
  simp [updateRxFSM, hb]

/-- A receiver about to read a checksum takes three bytes without looking for a flag
among the first two, and waits if the third is none. -/
theorem fcs1_slip (rx : List Byte) (k : ℤ) (a b c : Byte) (w : List Byte)
    (hc : c ≠ frameChar) (hw : frameChar ∉ w) :
    ∃ t : Rx, t.rxState = .header1 ∧
      Silent updateRxFSM ⟨.fcs1, rx, k⟩ ([a, b] ++ (c :: w) ++ [frameChar]) t := by
  have hend : Silent updateRxFSM ⟨.endFlag, rx ++ [a, b, frameChar], k⟩ (c :: w ++ [frameChar])
      (⟨.waitingForSync, rx ++ [a, b, frameChar], k⟩ : Rx).restart :=
    .cons (end_to_waiting _ k hc) (waiting_to_header1 rfl hw)
  have hrun := (trailer_run rx k a b).append hend
  rw [← List.append_assoc] at hrun
  exact ⟨_, rfl, hrun⟩

/-- A frame of plain bytes that reaches a receiver out of step leaves it one flag off,
and only its opening flag can be answered. -/
theorem slip_run {s : Rx} (hs : ¬ s.InStep) {n : Byte} {w : List Byte}
    (hplain : Plain (n :: w)) (hlen : 3 ≤ w.length) (hshort : w.length ≤ 120) :
    ∃ t : Rx, t.rxState = .header1 ∧
      Runs updateRxFSM s (frameChar :: 0x01#8 :: n :: w ++ [frameChar])
        (s.flagAnswer :: List.replicate (w.length + 3) none) t := by
  obtain ⟨hn, _⟩ := hplain n List.mem_cons_self
  have hclean : frameChar ∉ n :: w := hplain.clean
  have hwclean : frameChar ∉ w := fun hm => hclean (List.mem_cons_of_mem _ hm)
  have hrest : frameChar ∉ 0x01#8 :: n :: w := by
    simpa [show frameChar ≠ 0x01#8 by decide] using hclean
  have hcount : (0x01#8 :: n :: w ++ [frameChar]).length = w.length + 3 := by simp
  have htail {u t : Rx} (h : updateRxFSM s frameChar = (u, s.flagAnswer))
      (h' : Silent updateRxFSM u (0x01#8 :: n :: w ++ [frameChar]) t) :
      Runs updateRxFSM s (frameChar :: 0x01#8 :: n :: w ++ [frameChar])
        (s.flagAnswer :: List.replicate (w.length + 3) none) t := by
    rw [← hcount]
    exact .cons h h'
  obtain ⟨st, rx, k⟩ := s
  cases st with
  | waitingForSync => exact absurd (Or.inl rfl) hs
  | body => exact absurd (Or.inr (Or.inl rfl)) hs
  | escape => exact absurd (Or.inr (Or.inr rfl)) hs
  | header1 =>
    -- the version byte is read as a length of one, so the checksum is expected after `n`
    obtain ⟨a, b, c, w', rfl⟩ : ∃ a b c w', w = a :: b :: c :: w' := by
      match w, hlen with
      | a :: b :: c :: w', _ => exact ⟨a, b, c, w', rfl⟩
    have hc : c ≠ frameChar := (hplain c (by simp)).1
    obtain ⟨t, ht, hr⟩ := fcs1_slip (rx ++ [frameChar] ++ [0x01#8] ++ [n]) 0 a b c w' hc
      (fun hm => hwclean (by simp [hm]))
    refine ⟨t, ht, htail rfl (.cons rfl (.cons ?_ hr))⟩
    have hne := (hplain n List.mem_cons_self).2
    simp [updateRxFSM, hn, hne, Rx.pushBody]
  | header2 =>
    -- the flag is read as a length of 126, which the frame does not fill
    have hbody := body_run (rx ++ [frameChar]) 126 (0x01#8 :: n :: w) (by simp)
      (Or.inl (by simp only [List.length_cons]; omega))
    have hplain' : Plain (0x01#8 :: n :: w) := by
      intro x hx
      rcases List.mem_cons.mp hx with rfl | hx
      · decide
      · exact hplain x hx
    rw [hplain'.esc_eq] at hbody
    have hphase : bodyPhase (126 - ((0x01#8 :: n :: w).length : ℤ)) = .body := by
      simp only [bodyPhase, List.length_cons]
      rw [if_neg (by omega)]
    rw [hphase] at hbody
    exact ⟨_, rfl, htail rfl (hbody.append (.single (updateRxFSM_flag (Or.inr (Or.inl rfl)))))⟩
  | fcs1 =>
    refine ⟨_, rfl, htail rfl (.cons rfl (.cons (end_to_waiting _ k hn)
      (waiting_to_header1 rfl hwclean)))⟩
  | fcs2 =>
    refine ⟨_, rfl, htail rfl (.cons (end_to_waiting _ k (by decide))
      (waiting_to_header1 rfl hclean))⟩
  | endFlag =>
    have hwait : (updateRxFSM ⟨.endFlag, rx, k⟩ frameChar).1.rxState = .waitingForSync := by
      simp only [updateRxFSM, ne_eq, not_true_eq_false, if_false, finishFrame]
      repeat' split
      all_goals rfl
    exact ⟨_, rfl, htail rfl (waiting_to_header1 hwait hrest)⟩

/-- A five-byte message whose frame has no special byte between its flags. -/
def probe : Packet := [1, 1, 1, 1, 1]

/-- A second such message. -/
def probe' : Packet := [2, 1, 1, 1, 1]

theorem buildWire_probe :
    buildWire probe = frameChar :: 0x01#8 :: 0x05#8 :: [1, 1, 1, 1, 1, 0xBD, 0xAF] ++ [frameChar] := by
  decide +kernel

theorem buildWire_probe' :
    buildWire probe' = frameChar :: 0x01#8 :: 0x05#8 :: [2, 1, 1, 1, 1, 0xA0, 0x63] ++ [frameChar] := by
  decide +kernel

/-- Either probe keeps a receiver out of step out of step, and gets nothing out of it
but a packet that was already complete. -/
theorem probe_slip {s : Rx} (hs : ¬ s.InStep) {m : Packet} (hm : m = probe ∨ m = probe') :
    (run updateRxFSM s (buildWire m)).rxState = .header1 ∧
      delivered s (buildWire m) = s.flagAnswer.toList := by
  have slip (w : List Byte) (hw : buildWire m = frameChar :: 0x01#8 :: 0x05#8 :: w ++ [frameChar])
      (hplain : Plain (0x05#8 :: w)) (hlen : w.length = 7) :
      (run updateRxFSM s (buildWire m)).rxState = .header1 ∧
        delivered s (buildWire m) = s.flagAnswer.toList := by
    obtain ⟨t, ht, hr⟩ := slip_run hs hplain (by omega) (by omega)
    rw [← hw] at hr
    refine ⟨by rw [hr.2, ht], ?_⟩
    rw [delivered, hr.emitted_eq]
    cases s.flagAnswer with
    | none => simp [List.reduceOption_cons_of_none, List.reduceOption_replicate_none]
    | some p => simp [List.reduceOption_cons_of_some, List.reduceOption_replicate_none]
  rcases hm with rfl | rfl
  · exact slip _ buildWire_probe (by decide) rfl
  · exact slip _ buildWire_probe' (by decide) rfl

theorem not_inStep_of_header1 {s : Rx} (h : s.rxState = .header1) : ¬ s.InStep := by
  simp [Rx.InStep, h]

theorem flagAnswer_header1 {s : Rx} (h : s.rxState = .header1) : s.flagAnswer = none :=
  updateRxFSM_quiet (Or.inl (by simp [h]))

/-- One flag off, a stream of probes is lost completely. -/
theorem probes_lost {s : Rx} (h : s.rxState = .header1) (n : ℕ) :
    delivered s ((List.replicate n probe).flatMap buildWire) = [] := by
  induction n generalizing s with
  | zero => rfl
  | succ n ih =>
    obtain ⟨hrun, hdel⟩ := probe_slip (not_inStep_of_header1 h) (Or.inl rfl)
    rw [delivered, List.replicate_succ, List.flatMap_cons, emitted_append, ← delivered, hdel,
      flagAnswer_header1 h]
    exact ih hrun

/-- From any state out of step, a stream of probes yields at most one packet. -/
theorem probes_out_of_step {s : Rx} (hs : ¬ s.InStep) (n : ℕ) :
    (delivered s ((List.replicate n probe).flatMap buildWire)).length ≤ 1 := by
  cases n with
  | zero => simp [delivered, emitted, trace, List.reduceOption]
  | succ n =>
    obtain ⟨hrun, hdel⟩ := probe_slip hs (Or.inl rfl)
    have hrest := probes_lost hrun n
    rw [delivered, List.replicate_succ, List.flatMap_cons, emitted_append, ← delivered, hdel,
      ← delivered, hrest, List.append_nil]
    cases s.flagAnswer <;> simp

/-- All but the first `K` messages of any well-formed stream are delivered, in order. -/
def Resynchronises (s : Rx) (K : ℕ) : Prop :=
  ∀ ms : List Packet, (∀ m ∈ ms, Sendable m) →
    (ms.drop K).Sublist (delivered s (ms.flatMap buildWire))

theorem inStep_of_resynchronises {s : Rx} {K : ℕ} (h : Resynchronises s K) : s.InStep := by
  by_contra hs
  have hsend : ∀ m ∈ List.replicate (K + 2) probe, Sendable m := by
    intro m hm
    rw [List.eq_of_mem_replicate hm]
    exact ⟨by decide, by decide⟩
  have hlen := (h _ hsend).length_le
  have hle := probes_out_of_step hs (K + 2)
  simp only [List.drop_replicate, List.length_replicate] at hlen
  omega

theorem resynchronises_of_inStep {s : Rx} (h : s.InStep) (K : ℕ) : Resynchronises s K := by
  intro ms hms
  rw [buildWires_run h ms hms]
  exact List.drop_sublist K ms

/-- Whatever the bound, zero included, the loss after a disturbance stays within it exactly
when the disturbance leaves the receiver in a state in which a flag starts a frame. -/
theorem resynchronises_iff_inStep (noise : List Byte) (K : ℕ) :
    Resynchronises (run updateRxFSM Rx.init noise) K ↔ (run updateRxFSM Rx.init noise).InStep :=
  ⟨inStep_of_resynchronises, fun h => resynchronises_of_inStep h K⟩

/-- A single stray flag defeats every bound. -/
theorem no_resynchronisation_bound :
    ¬ ∃ K, ∀ noise : List Byte, Resynchronises (run updateRxFSM Rx.init noise) K := by
  rintro ⟨K, h⟩
  exact absurd (inStep_of_resynchronises (h [frameChar])) (by decide)

end MctpSerial.MctpFramer
