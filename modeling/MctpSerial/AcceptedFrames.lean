import MctpSerial.StreamDecoding

/-!
# What the receiver accepts

`Tracks` ties the receive buffer to the bytes consumed since the last delivery: in
every phase but waiting, the buffer is the unescaped form of a suffix of them.
Each byte keeps the relation or completes a frame, so that any stream whatsoever
splits into accepted frames, in delivery order, with other bytes between them.
-/
namespace MctpSerial.MctpFramer
open StreamTransducers

/-- The phase invariant of the receive state machine. -/
inductive Tracks : List Byte → Rx → Prop
  | waiting (xs rx : List Byte) (k : ℤ) : Tracks xs ⟨.waitingForSync, rx, k⟩
  | header1 (pre : List Byte) (k : ℤ) : Tracks (pre ++ [frameChar]) ⟨.header1, [frameChar], k⟩
  | header2 (pre : List Byte) (v : Byte) (k : ℤ) :
      Tracks (pre ++ [frameChar, v]) ⟨.header2, [frameChar, v], k⟩
  | body (pre : List Byte) (v n : Byte) (q : Packet) (hq : n.toNat = 0 ∨ q.length < n.toNat) :
      Tracks (pre ++ ([frameChar, v, n] ++ esc q))
        ⟨.body, [frameChar, v, n] ++ q, (n.toNat : ℤ) - q.length⟩
  | escape (pre : List Byte) (v n : Byte) (q : Packet) (hq : n.toNat = 0 ∨ q.length < n.toNat) :
      Tracks (pre ++ ([frameChar, v, n] ++ esc q ++ [escapeChar]))
        ⟨.escape, [frameChar, v, n] ++ q, (n.toNat : ℤ) - q.length⟩
  | fcs1 (pre : List Byte) (v n : Byte) (q : Packet) (hq : n.toNat = q.length) (hne : q ≠ []) :
      Tracks (pre ++ ([frameChar, v, n] ++ esc q)) ⟨.fcs1, [frameChar, v, n] ++ q, 0⟩
  | fcs2 (pre : List Byte) (v n : Byte) (q : Packet) (a : Byte) (hq : n.toNat = q.length)
      (hne : q ≠ []) :
      Tracks (pre ++ ([frameChar, v, n] ++ esc q ++ [a]))
        ⟨.fcs2, [frameChar, v, n] ++ q ++ [a], 0⟩
  | endFlag (pre : List Byte) (v n : Byte) (q : Packet) (a b : Byte) (hq : n.toNat = q.length)
      (hne : q ≠ []) :
      Tracks (pre ++ ([frameChar, v, n] ++ esc q ++ [a, b]))
        ⟨.endFlag, [frameChar, v, n] ++ q ++ [a, b, frameChar], 0⟩

namespace Tracks

theorem waiting_of {s : Rx} (h : s.rxState = .waitingForSync) (xs : List Byte) : Tracks xs s := by
  obtain ⟨st, rx, k⟩ := s
  cases h
  exact .waiting xs rx k

theorem restart (xs : List Byte) (s : Rx) : Tracks (xs ++ [frameChar]) s.restart :=
  .header1 xs s.byteCount

/-- A payload byte in either of its forms. -/
theorem pushBody (pre : List Byte) (v n : Byte) (q : Packet) (st : DataTransmission)
    (hq : n.toNat = 0 ∨ q.length < n.toNat) (x : Byte) :
    Tracks (pre ++ ([frameChar, v, n] ++ esc q ++ escByte x))
      ((⟨st, [frameChar, v, n] ++ q, (n.toNat : ℤ) - q.length⟩ : Rx).pushBody x) := by
  have hlen : (n.toNat : ℤ) - q.length - 1 = (n.toNat : ℤ) - (q ++ [x]).length := by
    simp only [List.length_append, List.length_singleton]
    omega
  have hesc : [frameChar, v, n] ++ esc q ++ escByte x = [frameChar, v, n] ++ esc (q ++ [x]) := by
    simp [esc]
  rw [Rx.pushBody, hlen, hesc, List.append_assoc _ q]
  split
  · rename_i h0
    rw [h0]
    exact .fcs1 pre v n (q ++ [x]) (by omega) (by simp)
  · rename_i h0
    refine .body pre v n (q ++ [x]) ?_
    simp only [List.length_append, List.length_singleton] at h0 ⊢
    omega

end Tracks

/-- What a delivery says about the bytes consumed before its closing flag. -/
structure Completes (xs : List Byte) (p : Packet) (gap : List Byte) (v a b : Byte) : Prop where
  bytes : xs = gap ++ wireFrame v p a b
  accepts : Accepts v p a b
  length_le : p.length ≤ 255

private theorem Tracks.step_flag {xs : List Byte} {s : Rx} (hs : s.InStep) {P : Prop} :
    ((updateRxFSM s frameChar).2 = none ∧
      Tracks (xs ++ [frameChar]) (updateRxFSM s frameChar).1) ∨ P := by
  rw [updateRxFSM_flag hs]
  exact Or.inl ⟨rfl, .restart xs s⟩

private theorem Tracks.step_end {pre : List Byte} {v n : Byte} {q : Packet} {a b : Byte}
    (hq : n.toNat = q.length) :
    let s : Rx := ⟨.endFlag, [frameChar, v, n] ++ q ++ [a, b, frameChar], 0⟩
    let xs := pre ++ ([frameChar, v, n] ++ esc q ++ [a, b]) ++ [frameChar]
    ((updateRxFSM s frameChar).2 = none ∧ Tracks xs (updateRxFSM s frameChar).1) ∨
      ∃ p gap v a b, (updateRxFSM s frameChar).2 = some p ∧
        (updateRxFSM s frameChar).1.rxState = .waitingForSync ∧ Completes xs p gap v a b := by
  intro s xs
  obtain ⟨hverdict, hwait⟩ := finishFrame_frame 0 frameChar v n q a b frameChar hq
  have hfin : updateRxFSM s frameChar = finishFrame s := by simp [s, updateRxFSM]
  rw [hfin]
  by_cases hacc : Accepts v q a b
  · have hn : n = BitVec.ofNat 8 q.length := by
      rw [← hq, BitVec.ofNat_toNat, BitVec.setWidth_eq]
    refine Or.inr ⟨q, pre, v, a, b, hverdict.trans (if_pos hacc), hwait, ?_, hacc, ?_⟩
    · simp [xs, wireFrame, hn]
    · have := n.isLt
      omega
  · exact Or.inl ⟨hverdict.trans (if_neg hacc), .waiting_of hwait _⟩

/-- One byte keeps the relation or completes a frame. -/
theorem Tracks.step {xs : List Byte} {s : Rx} (h : Tracks xs s) (b : Byte) :
    ((updateRxFSM s b).2 = none ∧ Tracks (xs ++ [b]) (updateRxFSM s b).1) ∨
      ∃ p gap v a c, (updateRxFSM s b).2 = some p ∧
        (updateRxFSM s b).1.rxState = .waitingForSync ∧ Completes (xs ++ [b]) p gap v a c := by
  cases h with
  | waiting xs rx k =>
    by_cases hb : b = frameChar
    · subst hb
      exact Tracks.step_flag (Or.inl rfl)
    · exact Or.inl ⟨by simp [updateRxFSM, hb], by simpa [updateRxFSM, hb] using .waiting _ rx k⟩
  | header1 pre k => exact Or.inl ⟨rfl, by simpa [updateRxFSM] using .header2 pre b k⟩
  | header2 pre v k =>
    exact Or.inl ⟨rfl, by simpa [updateRxFSM, esc] using Tracks.body pre v b [] (by simp; omega)⟩
  | body pre v n q hq =>
    by_cases he : b = escapeChar
    · subst he
      exact Or.inl ⟨by simp [updateRxFSM], by simpa [updateRxFSM] using Tracks.escape pre v n q hq⟩
    by_cases hf : b = frameChar
    · subst hf
      exact Tracks.step_flag (Or.inr (Or.inl rfl))
    · have hp := Tracks.pushBody pre v n q .body hq b
      rw [escByte_eq_self hf he, ← List.append_assoc] at hp
      exact Or.inl ⟨by simp [updateRxFSM, he, hf], by simpa [updateRxFSM, he, hf] using hp⟩
  | fcs1 pre v n q hq hne =>
    exact Or.inl ⟨rfl, by simpa [updateRxFSM] using Tracks.fcs2 pre v n q b hq hne⟩
  | fcs2 pre v n q a hq hne =>
    exact Or.inl ⟨rfl, by simpa [updateRxFSM] using Tracks.endFlag pre v n q a b hq hne⟩
  | endFlag pre v n q a c hq hne =>
    by_cases hb : b = frameChar
    · subst hb
      exact Tracks.step_end hq
    · exact Or.inl ⟨by simp [updateRxFSM, hb], .waiting_of (by simp [updateRxFSM, hb]) _⟩
  | escape pre v n q hq =>
    by_cases hx : b = escapeChar - 0x20#8 ∨ b = frameChar - 0x20#8
    · have hp := Tracks.pushBody pre v n q .escape hq (b + 0x20#8)
      have hesc : escByte (b + 0x20#8) = [escapeChar, b] := by
        rcases hx with rfl | rfl <;> decide
      rw [hesc] at hp
      exact Or.inl ⟨by simp [updateRxFSM, hx], by simpa [updateRxFSM, hx] using hp⟩
    by_cases hf : b = frameChar
    · subst hf
      exact Tracks.step_flag (Or.inr (Or.inr rfl))
    · exact Or.inl ⟨by simp [updateRxFSM, hx, hf],
        .waiting_of (by simp [updateRxFSM, hx, hf]) _⟩

/-- An accepted frame with the bytes skipped before it. -/
structure Delivery where
  gap : List Byte
  version : Byte
  packet : Packet
  hi : Byte
  lo : Byte
  accepts : Accepts version packet hi lo
  length_le : packet.length ≤ 255

namespace Delivery

def wire (d : Delivery) : List Byte := wireFrame d.version d.packet d.hi d.lo

def bytes (d : Delivery) : List Byte := d.gap ++ d.wire

/-- The packet is the answer to the last byte of its frame. -/
def answers (d : Delivery) : List (Option Packet) :=
  List.replicate (d.bytes.length - 1) none ++ [some d.packet]

end Delivery

/-- A stream read so far: accepted frames, then bytes the receiver still tracks. -/
structure Parsed (xs : List Byte) (s : Rx) where
  deliveries : List Delivery
  tail : List Byte
  bytes : xs = deliveries.flatMap Delivery.bytes ++ tail
  answers : trace updateRxFSM Rx.init xs =
    deliveries.flatMap Delivery.answers ++ List.replicate tail.length none
  tracks : Tracks tail s

private theorem trace_concat (xs : List Byte) (b : Byte) :
    trace updateRxFSM Rx.init (xs ++ [b]) =
      trace updateRxFSM Rx.init xs ++ [(updateRxFSM (run updateRxFSM Rx.init xs) b).2] := by
  rw [trace_append]
  rfl

theorem Parsed.step {xs : List Byte} (h : Nonempty (Parsed xs (run updateRxFSM Rx.init xs)))
    (b : Byte) :
    Nonempty (Parsed (xs ++ [b]) (updateRxFSM (run updateRxFSM Rx.init xs) b).1) := by
  obtain ⟨ds, tail, hbytes, hanswers, htracks⟩ := h
  rcases htracks.step b with ⟨hnone, hkeep⟩ | ⟨p, gap, v, a, c, hsome, hwait, hdone⟩
  · refine ⟨ds, tail ++ [b], by rw [hbytes, List.append_assoc], ?_, hkeep⟩
    rw [trace_concat, hanswers, hnone, List.length_append, List.length_singleton,
      List.replicate_succ', List.append_assoc]
  · let d : Delivery := ⟨gap, v, p, a, c, hdone.accepts, hdone.length_le⟩
    have hd : d.bytes = tail ++ [b] := hdone.bytes.symm
    refine ⟨ds ++ [d], [], ?_, ?_, .waiting_of hwait _⟩
    · simp [hbytes, hd]
    · have hlen : d.bytes.length - 1 = tail.length := by simp [hd]
      rw [trace_concat, hanswers, hsome]
      simp [Delivery.answers, hlen, d]

theorem parsed (xs : List Byte) : Nonempty (Parsed xs (run updateRxFSM Rx.init xs)) := by
  induction xs using List.reverseRecOn with
  | nil => exact ⟨[], [], rfl, rfl, .waiting [] [] 0⟩
  | append_singleton xs b ih =>
    rw [run_concat]
    exact Parsed.step ih b

theorem reduceOption_answers (ds : List Delivery) :
    (ds.flatMap Delivery.answers).reduceOption = ds.map Delivery.packet := by
  induction ds with
  | nil => rfl
  | cons d ds ih =>
    rw [List.flatMap_cons, List.reduceOption_append, ih, Delivery.answers,
      List.reduceOption_append, List.reduceOption_replicate_none]
    rfl

theorem Parsed.delivered_eq {xs : List Byte} {s : Rx} (h : Parsed xs s) :
    delivered Rx.init xs = h.deliveries.map Delivery.packet := by
  rw [delivered, emitted, h.answers, List.reduceOption_append, List.reduceOption_replicate_none,
    List.append_nil, reduceOption_answers]

/-- Whatever a framer has received before, it delivers packets of legal length only. -/
theorem sendable_of_delivered {noise bytes : List Byte} {p : Packet}
    (h : p ∈ delivered (run updateRxFSM Rx.init noise) bytes) : Sendable p := by
  obtain ⟨hparsed⟩ := parsed (noise ++ bytes)
  have hall : p ∈ delivered Rx.init (noise ++ bytes) := by
    rw [delivered, emitted_append]
    exact List.mem_append_right _ h
  rw [hparsed.delivered_eq, List.mem_map] at hall
  obtain ⟨d, -, rfl⟩ := hall
  exact ⟨d.accepts.1, d.length_le⟩

private theorem byte_split (a b : Byte) :
    (joinFcs a b >>> 8).setWidth 8 = a ∧ (joinFcs a b &&& 0xff#16).setWidth 8 = b := by
  have ha := a.isLt
  have hb := b.isLt
  have hjoin : (joinFcs a b).toNat = a.toNat * 256 + b.toNat := by
    simp only [joinFcs, BitVec.toNat_add, BitVec.toNat_shiftLeft, BitVec.toNat_setWidth,
      Nat.shiftLeft_eq]
    omega
  have hand : (a.toNat * 256 + b.toNat) &&& 255 = (a.toNat * 256 + b.toNat) % 256 :=
    Nat.and_two_pow_sub_one_eq_mod _ 8
  constructor
  · apply BitVec.eq_of_toNat_eq
    simp only [BitVec.toNat_setWidth, BitVec.toNat_ushiftRight, Nat.shiftRight_eq_div_pow, hjoin]
    omega
  · apply BitVec.eq_of_toNat_eq
    simp only [BitVec.toNat_setWidth, BitVec.toNat_and, BitVec.toNat_ofNat, hjoin]
    norm_num [hand]
    omega

/-- An accepted frame of version one is what the encoder makes of its packet. -/
theorem wireFrame_eq_buildWire {p : Packet} {a b : Byte} (h : Accepts 0x01#8 p a b)
    (hle : p.length ≤ 255) : wireFrame 0x01#8 p a b = buildWire p := by
  have hjoin : joinFcs a b = msgFcs p := h.2.trans (msgFcs_eq hle).symm
  obtain ⟨ha, hb⟩ := byte_split a b
  rw [hjoin] at ha hb
  rw [buildWire_eq, fcsHi, fcsLo, ha, hb]

theorem getElem?_trace_some {xs : List Byte} {k : ℕ} {p : Packet}
    (h : (trace updateRxFSM Rx.init xs)[k]? = some (some p)) :
    ∃ b, xs.take (k + 1) = xs.take k ++ [b] ∧
      (updateRxFSM (run updateRxFSM Rx.init (xs.take k)) b).2 = some p := by
  have hk : k < xs.length := by
    have := (List.getElem?_eq_some_iff.mp h).1
    simpa using this
  refine ⟨xs[k], (List.take_concat_get' xs k hk).symm, ?_⟩
  have hsplit : xs = xs.take k ++ xs[k] :: xs.drop (k + 1) := by
    rw [List.cons_getElem_drop_succ, List.take_append_drop]
  rw [hsplit, trace_append, List.getElem?_append_right (by simp)] at h
  simpa [trace, Nat.min_eq_left hk.le] using h

/-- The receiver accepts only well-formed frames: each delivery is answered to the
last byte of one, frames of version one are those of the encoder, and the frames of
a stream follow one another without overlap in delivery order. -/
theorem receiver_accepts_only_frames (bs : List Byte) :
    (∀ k p, (trace updateRxFSM Rx.init bs)[k]? = some (some p) →
      ∃ pre v a b, bs.take (k + 1) = pre ++ wireFrame v p a b ∧
        5 ≤ p.length ∧ p.length ≤ 255 ∧
        joinFcs a b = calcFcs initFcs (v :: BitVec.ofNat 8 p.length :: p) (p.length + 2 : ℕ) ∧
        (v = 0x01#8 → wireFrame v p a b = buildWire p)) ∧
    ∃ (ds : List Delivery) (tail : List Byte),
      bs = ds.flatMap Delivery.bytes ++ tail ∧
      trace updateRxFSM Rx.init bs =
        ds.flatMap Delivery.answers ++ List.replicate tail.length none ∧
      delivered Rx.init bs = ds.map Delivery.packet := by
  constructor
  · intro k p hk
    obtain ⟨b, htake, hanswer⟩ := getElem?_trace_some hk
    obtain ⟨ds, tail, hbytes, _, htracks⟩ := parsed (bs.take k)
    rcases htracks.step b with ⟨hnone, _⟩ | ⟨p', gap, v, a, c, hsome, _, hdone⟩
    · rw [hnone] at hanswer
      cases hanswer
    · obtain rfl : p' = p := Option.some.inj (hsome.symm.trans hanswer)
      refine ⟨ds.flatMap Delivery.bytes ++ gap, v, a, c, ?_, hdone.accepts.1, hdone.length_le,
        hdone.accepts.2, ?_⟩
      · rw [htake, hbytes, List.append_assoc, hdone.bytes, List.append_assoc]
      · rintro rfl
        exact wireFrame_eq_buildWire hdone.accepts hdone.length_le
  · obtain ⟨hparsed⟩ := parsed bs
    exact ⟨hparsed.deliveries, hparsed.tail, hparsed.bytes, hparsed.answers, hparsed.delivered_eq⟩

end MctpSerial.MctpFramer
