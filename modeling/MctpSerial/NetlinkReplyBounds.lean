import MctpSerial.NetlinkReplies

/-!
# Reads outside a netlink reply

The loops over attributes stay inside the message they are given. The loops over messages
do so only while every message they step over, rounded up to a multiple of four, lies in the
reply: a remainder below zero is cast to a huge `size_t`, and the next header is read behind
the reply. The flags of a link are read without looking at the length of its message.
-/
namespace MctpSerial.MctpNetlink
open MemoryWalks

section
variable (o : ByteOrder) (m : Memory)

/-- `NLMSG_OK` holds at `hdr`, with `rem` bytes of the reply left. -/
def MessageAt (hdr rem : ℕ) : Prop :=
  headerSize ≤ rem ∧ headerSize ≤ m.number o hdr 4 ∧ m.number o hdr 4 ≤ rem

instance (hdr rem : ℕ) : Decidable (MessageAt o m hdr rem) :=
  inferInstanceAs (Decidable (_ ∧ _ ∧ _))

def IsNewlink (hdr : ℕ) : Prop := m.number o (hdr + 4) 2 = rtmNewlink

instance (hdr : ℕ) : Decidable (IsNewlink o m hdr) := inferInstanceAs (Decidable (_ = _))

/-- `RTA_OK` holds at `rta`, with `len` bytes left. -/
def AttributeFits (rta : ℕ) (len : ℤ) : Prop :=
  (rtattrSize : ℤ) ≤ len ∧ rtattrSize ≤ m.number o rta 2 ∧ (m.number o rta 2 : ℤ) ≤ len

instance (rta : ℕ) (len : ℤ) : Decidable (AttributeFits o m rta len) :=
  inferInstanceAs (Decidable (_ ∧ _ ∧ _))

/-- One of the attributes that stand one behind the other in `len` bytes from `rta` on. -/
inductive AttributeIn : (rta : ℕ) → (len : ℤ) → (p : ℕ) → Prop
  | here {rta : ℕ} {len : ℤ} : AttributeFits o m rta len → AttributeIn rta len rta
  | next {rta p : ℕ} {len : ℤ} : AttributeFits o m rta len →
      AttributeIn (rta + align (m.number o rta 2)) (len - align (m.number o rta 2)) p →
      AttributeIn rta len p

/-- An attribute of the given type, with one that has the property `P` in its payload. -/
def Nests (type : ℕ) (P : ℕ → Prop) (rta : ℕ) : Prop :=
  m.number o (rta + 2) 2 = type ∧
    ∃ p, AttributeIn o m (rta + rtattrSize) ((m.number o rta 2 : ℤ) - rtattrSize) p ∧ P p

/-- An `IFLA_MCTP_NET` with four bytes of payload or more, or with one. -/
def UsableNet (rta : ℕ) : Prop :=
  m.number o (rta + 2) 2 = iflaMctpNet ∧
    (rtattrSize + 4 ≤ m.number o rta 2 ∨ m.number o rta 2 = rtattrSize + 1)

/-- The network id that such an attribute stands for. -/
def netIdAt (rta : ℕ) : Option (BitVec 32) :=
  if m.number o (rta + 2) 2 = iflaMctpNet then
    if rtattrSize + 4 ≤ m.number o rta 2 then
      some (BitVec.ofNat 32 (m.number o (rta + rtattrSize) 4))
    else if m.number o rta 2 = rtattrSize + 1 then
      some (BitVec.ofNat 32 (m.number o (rta + rtattrSize) 1))
    else none
  else none

/-- A link message that has a network id for `getMctpInterfaceNetId` in it. -/
def CarriesNetId (hdr : ℕ) : Prop :=
  IsNewlink o m hdr ∧ ∃ p, AttributeIn o m (hdr + headerSize + ifinfomsgSize)
    ((m.number o hdr 4 : ℤ) - (headerSize + ifinfomsgSize : ℕ)) p ∧
      Nests o m iflaAfSpec (Nests o m afMctp (UsableNet o m)) p

/-- Every message before the first with the property `ends` lies in the reply when its
length is rounded up, and that first one has `need` bytes of the reply. -/
inductive MessagesFit (ends : ℕ → Prop) (need : ℕ) : (hdr rem : ℕ) → Prop
  | stop {hdr rem : ℕ} : ¬MessageAt o m hdr rem → MessagesFit ends need hdr rem
  | last {hdr rem : ℕ} : MessageAt o m hdr rem → ends hdr → need ≤ rem →
      MessagesFit ends need hdr rem
  | step {hdr rem : ℕ} : MessageAt o m hdr rem → ¬ends hdr →
      align (m.number o hdr 4) ≤ rem →
      MessagesFit ends need (hdr + align (m.number o hdr 4)) (rem - align (m.number o hdr 4)) →
      MessagesFit ends need hdr rem

end

/-! ## Attributes -/

theorem le_align {len : ℕ} (h : len < 2 ^ 32 - 3) : len ≤ align len ∧ align len ≤ len + 3 := by
  simp only [align]
  omega

section
variable {o : ByteOrder} {m : Memory} {n : ℕ} {α : Type}

theorem attribute_align (rta : ℕ) : m.number o rta 2 ≤ align (m.number o rta 2) := by
  have hlt := m.number_lt o rta 2
  have halign := @le_align (m.number o rta 2)
  omega

theorem rtaOk_runs {rta : ℕ} {len : ℤ} (hn : (rta : ℤ) + len ≤ n) :
    (rtaOk o m rta len).Runs n (decide (AttributeFits o m rta len)) := by
  by_cases hlen : len < rtattrSize
  · have hfits : ¬AttributeFits o m rta len := fun h => Int.not_le.mpr hlen h.1
    simp [rtaOk, hlen, hfits]
  · have hlen' : (rtattrSize : ℤ) ≤ len := Int.not_lt.mp hlen
    have hread : rta + 1 < n := by
      simp only [rtattrSize] at hlen'
      omega
    simp [rtaOk, hlen, rtaLen, AttributeFits, hread, hlen']

section
variable {rta : ℕ} (hn : rta + rtattrSize ≤ n)
include hn

theorem rtaLen_runs : (rtaLen o m rta).Runs n (m.number o rta 2) := by
  simp only [rtattrSize] at hn
  simp only [rtaLen, Walk.runs_load, and_true]
  omega

theorem rtaType_runs : (rtaType o m rta).Runs n (m.number o (rta + 2) 2) := by
  simp only [rtattrSize] at hn
  simp only [rtaType, Walk.runs_load, and_true]
  omega

theorem rtaPayload_runs : (rtaPayload o m rta).Runs n ((m.number o rta 2 : ℤ) - rtattrSize) := by
  rw [rtaPayload, (rtaLen_runs hn).bind_iff, Walk.runs_pure]

end

/-- The first attribute, or one behind it. -/
theorem exists_attributeIn {P : ℕ → Prop} {rta : ℕ} {len : ℤ} :
    (∃ p, AttributeIn o m rta len p ∧ P p) ↔ AttributeFits o m rta len ∧ (P rta ∨
      ∃ p, AttributeIn o m (rta + align (m.number o rta 2)) (len - align (m.number o rta 2)) p ∧
        P p) := by
  constructor
  · rintro ⟨p, hp, hP⟩
    cases hp with
    | here hfits => exact ⟨hfits, .inl hP⟩
    | next hfits hnext => exact ⟨hfits, .inr ⟨p, hnext, hP⟩⟩
  · rintro ⟨hfits, hP | ⟨p, hnext, hP⟩⟩
    · exact ⟨rta, .here hfits, hP⟩
    · exact ⟨p, .next hfits hnext, hP⟩

section
variable {body : ℕ → Walk (Option α)} {fuel rta : ℕ} {len : ℤ} (hn : (rta : ℤ) + len ≤ n)
include hn

/-- A turn in which the body continues. -/
theorem attributeTurns_next {r : Option α} (hfits : AttributeFits o m rta len)
    (hbody : (body rta).Runs n none) : (attributeTurns o m body (fuel + 1) rta len).Runs n r ↔
      (attributeTurns o m body fuel (rta + align (m.number o rta 2))
        (len - align (m.number o rta 2))).Runs n r := by
  have hread : rta + rtattrSize ≤ n := by
    have hlen := hfits.1
    omega
  simp only [attributeTurns, (rtaOk_runs hn).bind_iff, hfits, decide_true, if_true,
    hbody.bind_iff, (rtaLen_runs hread).bind_iff]

theorem attributeTurns_found {a : α} (hfits : AttributeFits o m rta len)
    (hbody : (body rta).Runs n (some a)) :
    (attributeTurns o m body (fuel + 1) rta len).Runs n (some a) := by
  simp only [attributeTurns, (rtaOk_runs hn).bind_iff, hfits, decide_true, if_true,
    hbody.bind_iff, Walk.runs_pure]

theorem attributeTurns_stop (hfits : ¬AttributeFits o m rta len) :
    (attributeTurns o m body (fuel + 1) rta len).Runs n none := by
  simp [attributeTurns, (rtaOk_runs hn).bind_iff, hfits]

end

/-- On every attribute that lies in the first `n` bytes the body ends without reading more,
and returns a value just when the attribute has the property `P`. -/
def Decides (o : ByteOrder) (m : Memory) (n : ℕ) (body : ℕ → Walk (Option α)) (P : ℕ → Prop) :
    Prop :=
  ∀ rta, rtattrSize ≤ m.number o rta 2 → rta + m.number o rta 2 ≤ n →
    ∃ r, (body rta).Runs n r ∧ (r.isSome ↔ P rta)

theorem attributeTurns_decides {body : ℕ → Walk (Option α)} {P : ℕ → Prop}
    (hbody : Decides o m n body P) (fuel rta : ℕ) (len : ℤ) (hfuel : len.toNat < fuel)
    (hn : (rta : ℤ) + len ≤ n) :
    ∃ r, (attributeTurns o m body fuel rta len).Runs n r ∧
      (r.isSome ↔ ∃ p, AttributeIn o m rta len p ∧ P p) := by
  induction fuel generalizing rta len with
  | zero => omega
  | succ fuel ih =>
    rw [exists_attributeIn]
    by_cases hfits : AttributeFits o m rta len
    · obtain ⟨hlen, hsize, hle⟩ := id hfits
      obtain ⟨r, hr, hP⟩ := hbody rta hsize (by omega)
      cases r with
      | some a => exact ⟨some a, attributeTurns_found hn hfits hr, by simp [hfits, ← hP]⟩
      | none =>
        have hP' : ¬P rta := by simp [← hP]
        have halign := attribute_align (o := o) (m := m) rta
        simp only [rtattrSize] at hlen hsize
        simp only [attributeTurns_next hn hfits hr, hfits, hP', false_or, true_and]
        exact ih _ _ (by omega) (by omega)
    · exact ⟨none, attributeTurns_stop hn hfits, by simp [hfits]⟩

theorem forAttributes_decides {body : ℕ → Walk (Option α)} {P : ℕ → Prop}
    (hbody : Decides o m n body P) {rta : ℕ} {len : ℤ} (hn : (rta : ℤ) + len ≤ n) :
    ∃ r, (forAttributes o m body rta len).Runs n r ∧
      (r.isSome ↔ ∃ p, AttributeIn o m rta len p ∧ P p) :=
  attributeTurns_decides hbody _ rta len (Nat.lt_succ_self _) hn

theorem inNest_decides {type : ℕ} {body : ℕ → Walk (Option α)} {P : ℕ → Prop}
    (hbody : Decides o m n body P) : Decides o m n (inNest o m type body) (Nests o m type P) := by
  intro rta hsize hn
  have hread : rta + rtattrSize ≤ n := by omega
  simp only [inNest, Nests, (rtaType_runs hread).bind_iff]
  by_cases ht : m.number o (rta + 2) 2 = type
  · simp only [ht, if_true, (rtaPayload_runs hread).bind_iff, true_and]
    exact forAttributes_decides hbody (by push_cast; omega)
  · exact ⟨none, by simp [ht], by simp [ht]⟩

theorem mctpAttribute_runs {rta : ℕ} (hsize : rtattrSize ≤ m.number o rta 2)
    (hn : rta + m.number o rta 2 ≤ n) : (mctpAttribute o m rta).Runs n (netIdAt o m rta) := by
  have hread : rta + rtattrSize ≤ n := by omega
  simp only [mctpAttribute, netIdAt, (rtaType_runs hread).bind_iff]
  by_cases ht : m.number o (rta + 2) 2 = iflaMctpNet
  · simp only [ht, if_true, (rtaPayload_runs hread).bind_iff]
    have hfixed : rtattrSize = 4 := rfl
    by_cases hfour : rtattrSize + 4 ≤ m.number o rta 2
    · have hpayload : (4 : ℤ) ≤ (m.number o rta 2 : ℤ) - rtattrSize := by omega
      have hlast : rta + rtattrSize + 3 < n := by omega
      rw [if_pos hpayload, if_pos hfour]
      simp [hlast]
    · have hpayload : ¬(4 : ℤ) ≤ (m.number o rta 2 : ℤ) - rtattrSize := by omega
      rw [if_neg hpayload, if_neg hfour]
      by_cases hone : m.number o rta 2 = rtattrSize + 1
      · have hlast : rta + rtattrSize < n := by omega
        have hpayload' : (m.number o rta 2 : ℤ) - rtattrSize = 1 := by omega
        rw [if_pos hpayload', if_pos hone]
        simp [hlast]
      · have hpayload' : ¬(m.number o rta 2 : ℤ) - rtattrSize = 1 := by omega
        rw [if_neg hpayload', if_neg hone, Walk.runs_pure]
  · simp [ht]

theorem mctpAttribute_decides : Decides o m n (mctpAttribute o m) (UsableNet o m) := by
  intro rta hsize hn
  refine ⟨netIdAt o m rta, mctpAttribute_runs hsize hn, ?_⟩
  simp only [netIdAt, UsableNet]
  split_ifs <;> simp_all

theorem linkAttribute_decides :
    Decides o m n (linkAttribute o m) (Nests o m iflaAfSpec (Nests o m afMctp (UsableNet o m))) :=
  inNest_decides (inNest_decides mctpAttribute_decides)

/-! ## Messages -/

theorem sizeT_natCast {len : ℕ} (h : len < 2 ^ 64) : sizeT len = len := by
  simp only [sizeT]
  omega

theorem nlmsgOk_runs {hdr rem : ℕ} (hn : hdr + rem = n) (hlt : n < 2 ^ 64) :
    (nlmsgOk o m hdr (sizeT rem)).Runs n (decide (MessageAt o m hdr rem)) := by
  rw [sizeT_natCast (by omega)]
  by_cases hrem : rem < headerSize
  · have hat : ¬MessageAt o m hdr rem := fun h => Nat.not_le.mpr hrem h.1
    simp [nlmsgOk, hrem, hat]
  · have hrem' : headerSize ≤ rem := Nat.not_lt.mp hrem
    have hread : hdr + 3 < n := by
      simp only [headerSize] at hrem'
      omega
    simp [nlmsgOk, hrem, nlmsgLen, MessageAt, hread, hrem']

theorem nlmsgLen_runs {hdr rem : ℕ} (hn : hdr + rem = n) (hat : MessageAt o m hdr rem) :
    (nlmsgLen o m hdr).Runs n (m.number o hdr 4) := by
  have hrem := hat.1
  simp only [headerSize] at hrem
  simp only [nlmsgLen, Walk.runs_load, and_true]
  omega

section
variable {body : ℕ → Walk (Option α)} {fuel hdr rem : ℕ} (hlt : n < 2 ^ 64)
  (hn : hdr + rem = n)
include hlt hn

/-- A turn in which the body continues. -/
theorem forMessages_next {r : Option α} (hat : MessageAt o m hdr rem)
    (hbody : (body hdr).Runs n none) : (forMessages o m body (fuel + 1) hdr rem).Runs n r ↔
      (forMessages o m body fuel (hdr + align (m.number o hdr 4))
        (rem - align (m.number o hdr 4))).Runs n r := by
  simp only [forMessages, (nlmsgOk_runs hn hlt).bind_iff, hat, decide_true, if_true,
    hbody.bind_iff, (nlmsgLen_runs hn hat).bind_iff]

theorem forMessages_found {a : α} (hat : MessageAt o m hdr rem)
    (hbody : (body hdr).Runs n (some a)) :
    (forMessages o m body (fuel + 1) hdr rem).Runs n (some a) := by
  simp only [forMessages, (nlmsgOk_runs hn hlt).bind_iff, hat, decide_true, if_true,
    hbody.bind_iff, Walk.runs_pure]

theorem forMessages_stop (hat : ¬MessageAt o m hdr rem) :
    (forMessages o m body (fuel + 1) hdr rem).Runs n none := by
  simp [forMessages, (nlmsgOk_runs hn hlt).bind_iff, hat]

end

/-- With a remainder below zero the next header is read, and it stands behind the reply. -/
theorem not_runs_of_negative {body : ℕ → Walk (Option α)} {fuel hdr : ℕ} {len : ℤ}
    {r : Option α} (hdr_le : n ≤ hdr) (hneg : len < 0) (hge : -3 ≤ len) :
    ¬(forMessages o m body fuel hdr len).Runs n r := by
  cases fuel with
  | zero => simp [forMessages]
  | succ fuel =>
    have hsize : ¬sizeT len < headerSize := by
      simp only [sizeT, headerSize]
      omega
    have hread : ¬hdr + 3 < n := by omega
    simp [forMessages, nlmsgOk, hsize, nlmsgLen, hread]

/-- What the body of a loop over messages does at every message in the first `n` bytes: it
returns just when the message has the property `ends`, and stays inside just when `need`
bytes are left. -/
structure EndsAt (o : ByteOrder) (m : Memory) (n : ℕ) (body : ℕ → Walk (Option α))
    (ends : ℕ → Prop) (need : ℕ) : Prop where
  goesOn {hdr rem : ℕ} : hdr + rem = n → MessageAt o m hdr rem → ¬ends hdr →
    (body hdr).Runs n none
  returns {hdr rem : ℕ} : hdr + rem = n → MessageAt o m hdr rem → ends hdr → need ≤ rem →
    ∃ a, (body hdr).Runs n (some a)
  leaves {hdr rem : ℕ} {r : Option α} : hdr + rem = n → MessageAt o m hdr rem → ends hdr →
    rem < need → ¬(body hdr).Runs n r

section
variable {body : ℕ → Walk (Option α)} {ends : ℕ → Prop} {need : ℕ}

theorem messagesFit_of_runs (hbody : EndsAt o m n body ends need) (hlt : n < 2 ^ 32 - 3)
    {fuel hdr rem : ℕ} {r : Option α} (hn : hdr + rem = n)
    (hr : (forMessages o m body fuel hdr rem).Runs n r) :
    MessagesFit o m ends need hdr rem := by
  induction fuel generalizing hdr rem with
  | zero => simp [forMessages] at hr
  | succ fuel ih =>
    by_cases hat : MessageAt o m hdr rem
    · by_cases hends : ends hdr
      · by_cases hneed : need ≤ rem
        · exact .last hat hends hneed
        · simp only [forMessages, (nlmsgOk_runs hn (by omega)).bind_iff, hat, decide_true,
            if_true, Walk.runs_bind] at hr
          obtain ⟨_, hbodyr, -⟩ := hr
          exact absurd hbodyr (hbody.leaves hn hat hends (Nat.not_le.mp hneed))
      · have hr := (forMessages_next (by omega) hn hat (hbody.goesOn hn hat hends)).mp hr
        have halign := @le_align (m.number o hdr 4)
        obtain ⟨-, -, hle⟩ := id hat
        by_cases hfit : align (m.number o hdr 4) ≤ rem
        · rw [← Int.ofNat_sub hfit] at hr
          exact .step hat hends hfit (ih (by omega) hr)
        · exact absurd hr (not_runs_of_negative (by omega) (by omega) (by omega))
    · exact .stop hat

theorem runs_of_messagesFit (hbody : EndsAt o m n body ends need) (hlt : n < 2 ^ 32 - 3)
    {hdr rem : ℕ} (hn : hdr + rem = n) (hfit : MessagesFit o m ends need hdr rem) :
    ∃ fuel r, (forMessages o m body fuel hdr rem).Runs n r := by
  induction hfit with
  | stop hat =>
    exact ⟨1, none, forMessages_stop (by omega) hn hat⟩
  | last hat hends hneed =>
    obtain ⟨a, ha⟩ := hbody.returns hn hat hends hneed
    exact ⟨1, some a, forMessages_found (by omega) hn hat ha⟩
  | step hat hends hle _ ih =>
    obtain ⟨fuel, r, hr⟩ := ih (by omega)
    rw [Int.ofNat_sub hle] at hr
    exact ⟨fuel + 1, r, (forMessages_next (by omega) hn hat (hbody.goesOn hn hat hends)).mpr hr⟩

end

/-! ## The bodies -/

section
variable {body : ℕ → Walk (Option α)} {hdr rem : ℕ} (hn : hdr + rem = n)
  (hat : MessageAt o m hdr rem)
include hn hat

theorem nlmsgType_runs : (nlmsgType o m hdr).Runs n (m.number o (hdr + 4) 2) := by
  have hrem := hat.1
  simp only [headerSize] at hrem
  simp only [nlmsgType, Walk.runs_load, and_true]
  omega

theorem inLink_runs_of_newlink (hlink : IsNewlink o m hdr) {r : Option α} :
    (inLink o m body hdr).Runs n r ↔ (body hdr).Runs n r := by
  have htype : m.number o (hdr + 4) 2 = rtmNewlink := hlink
  have herror : rtmNewlink ≠ nlmsgError := by decide
  simp only [inLink, (nlmsgType_runs hn hat).bind_iff, htype, herror, ne_eq, not_true_eq_false,
    if_false]

theorem inLink_runs_of_not_newlink (hlink : ¬IsNewlink o m hdr) :
    (inLink o m body hdr).Runs n none := by
  have htype : m.number o (hdr + 4) 2 ≠ rtmNewlink := hlink
  simp [inLink, (nlmsgType_runs hn hat).bind_iff, htype]

end

theorem linkFlags_runs {hdr : ℕ} {r : Option (BitVec 32)} : (linkFlags o m hdr).Runs n r ↔
    hdr + headerSize + 8 + 3 < n ∧
      some (BitVec.ofNat 32 (m.number o (hdr + headerSize + 8) 4)) = r := by
  simp [linkFlags, ifiFlags]

/-- The bytes of a message up to the end of `ifi_flags`. -/
def flagsEnd : ℕ := headerSize + 12

theorem flags_endsAt :
    EndsAt o m n (inLink o m (linkFlags o m)) (IsNewlink o m) flagsEnd where
  goesOn hn hat hlink := inLink_runs_of_not_newlink hn hat hlink
  returns hn hat hlink hneed := by
    simp only [flagsEnd] at hneed
    refine ⟨_, (inLink_runs_of_newlink hn hat hlink).mpr (linkFlags_runs.mpr ⟨?_, rfl⟩)⟩
    omega
  leaves hn hat hlink hneed := by
    rw [inLink_runs_of_newlink hn hat hlink, linkFlags_runs]
    simp only [flagsEnd] at hneed
    omega

/-- In a reply that is not too long, the length of the attributes survives its conversion. -/
theorem linkNetId_runs (hlt : n < 2 ^ 31) {hdr rem : ℕ} (hn : hdr + rem = n)
    (hat : MessageAt o m hdr rem) {r : Option (BitVec 32)} : (linkNetId o m hdr).Runs n r ↔
      (forAttributes o m (linkAttribute o m) (hdr + headerSize + ifinfomsgSize)
        ((m.number o hdr 4 : ℤ) - (headerSize + ifinfomsgSize : ℕ))).Runs n r := by
  obtain ⟨-, -, hle⟩ := id hat
  have hheader : headerSize = 16 := rfl
  have hifi : ifinfomsgSize = 16 := rfl
  have hint : ((m.number o hdr 4 : ℤ) - (headerSize + ifinfomsgSize : ℕ)).bmod (2 ^ 32) =
      (m.number o hdr 4 : ℤ) - (headerSize + ifinfomsgSize : ℕ) :=
    Int.bmod_eq_of_le (by omega) (by omega)
  rw [linkNetId, (nlmsgLen_runs hn hat).bind_iff, hint]

/-- The attributes of a link message are walked to their end inside the reply. -/
theorem linkNetId_decides (hlt : n < 2 ^ 31) {hdr rem : ℕ} (hn : hdr + rem = n)
    (hat : MessageAt o m hdr rem) : ∃ r, (linkNetId o m hdr).Runs n r ∧
      (r.isSome ↔ ∃ p, AttributeIn o m (hdr + headerSize + ifinfomsgSize)
        ((m.number o hdr 4 : ℤ) - (headerSize + ifinfomsgSize : ℕ)) p ∧
          Nests o m iflaAfSpec (Nests o m afMctp (UsableNet o m)) p) := by
  have hle := hat.2.2
  simp only [linkNetId_runs hlt hn hat]
  exact forAttributes_decides linkAttribute_decides (by omega)

theorem netId_endsAt (hlt : n < 2 ^ 31) :
    EndsAt o m n (inLink o m (linkNetId o m)) (CarriesNetId o m) 0 where
  goesOn {hdr rem} hn hat hcarries := by
    by_cases hlink : IsNewlink o m hdr
    · obtain ⟨r, hr, hsome⟩ := linkNetId_decides hlt hn hat
      rw [inLink_runs_of_newlink hn hat hlink]
      cases r with
      | none => exact hr
      | some a => exact absurd ⟨hlink, hsome.mp rfl⟩ hcarries
    · exact inLink_runs_of_not_newlink hn hat hlink
  returns {hdr rem} hn hat hcarries _ := by
    obtain ⟨r, hr, hsome⟩ := linkNetId_decides hlt hn hat
    obtain ⟨a, rfl⟩ := Option.isSome_iff_exists.mp (hsome.mpr hcarries.2)
    exact ⟨a, (inLink_runs_of_newlink hn hat hcarries.1).mpr hr⟩
  leaves _ _ _ hneed := absurd hneed (Nat.not_lt_zero _)

/-! ## The queries -/

/-- With enough turns the query ends, and it reads nothing behind the reply. -/
def StaysInside (query : ℕ → Walk Answer) (len : ℕ) : Prop :=
  ∃ fuel a, (query fuel).Runs len a

theorem loop_staysInside_iff {body : ℕ → Walk (Option α)} {ends : ℕ → Prop} {need len : ℕ}
    (hbody : EndsAt o m len body ends need) (hlen : len ≤ 8192) (f : Option α → Answer) :
    StaysInside (fun fuel => forMessages o m body fuel 0 len >>= fun r => pure (f r)) len ↔
      MessagesFit o m ends need 0 len := by
  constructor
  · rintro ⟨fuel, a, ha⟩
    rw [Walk.runs_bind] at ha
    obtain ⟨r, hr, -⟩ := ha
    exact messagesFit_of_runs hbody (by omega) (Nat.zero_add len) hr
  · intro hfit
    obtain ⟨fuel, r, hr⟩ := runs_of_messagesFit hbody (by omega) (Nat.zero_add len) hfit
    exact ⟨fuel, f r, Walk.runs_bind.mpr ⟨r, hr, Walk.runs_pure.mpr rfl⟩⟩

theorem getInterfaceFlags_staysInside_iff {len : ℕ} (hlen : len ≤ 8192)
    {outFlags : BitVec 32} :
    StaysInside (fun fuel => getInterfaceFlags o m fuel (.received len) outFlags) len ↔
      MessagesFit o m (IsNewlink o m) flagsEnd 0 len :=
  loop_staysInside_iff flags_endsAt hlen (Answer.ofLoop outFlags)

theorem getMctpInterfaceNetId_staysInside_iff {len : ℕ} (hlen : len ≤ 8192) {ifname : String}
    {outNet : BitVec 32} :
    StaysInside (fun fuel => getMctpInterfaceNetId o m fuel ifname (.received len) outNet) len ↔
      MessagesFit o m (CarriesNetId o m) 0 0 len :=
  loop_staysInside_iff (netId_endsAt (by omega)) hlen (Answer.ofLoop outNet)

end

/-- Both queries end inside a reply of up to 8192 bytes exactly when every message they step
over lies in the reply with its length rounded up to a multiple of four, and the message
whose flags are read has 28 bytes of the reply. -/
theorem queries_stay_inside_iff (o : ByteOrder) (m : Memory) (len : ℕ) (hlen : len ≤ 8192)
    (ifname : String) (out : BitVec 32) :
    (StaysInside (fun fuel => getInterfaceFlags o m fuel (.received len) out) len ↔
      MessagesFit o m (IsNewlink o m) flagsEnd 0 len) ∧
    (StaysInside (fun fuel => getMctpInterfaceNetId o m fuel ifname (.received len) out) len ↔
      MessagesFit o m (CarriesNetId o m) 0 0 len) :=
  ⟨getInterfaceFlags_staysInside_iff hlen, getMctpInterfaceNetId_staysInside_iff hlen⟩

/-- A link message without attributes, as it stands in the buffer of the query. -/
def bareLink : Memory := .overlay ([32, 0, 0, 0, 16, 0] ++ List.replicate 26 0) fun _ => 0

theorem bareLink_not_carriesNetId : ¬CarriesNetId .little bareLink 0 := by
  rintro ⟨-, p, hp, -⟩
  cases hp with
  | here hfits => exact absurd hfits (by decide)
  | next hfits _ => exact absurd hfits (by decide)

theorem queries_stay_inside_bareLink :
    StaysInside (fun fuel => getInterfaceFlags .little bareLink fuel (.received 32) 0) 32 ∧
    StaysInside (fun fuel =>
      getMctpInterfaceNetId .little bareLink fuel "mctp0" (.received 32) 0) 32 := by
  obtain ⟨hflags, hnet⟩ := queries_stay_inside_iff .little bareLink 32 (by decide) "mctp0" 0
  constructor
  · rw [hflags]
    exact .last (by decide) (by decide) (by decide)
  · rw [hnet]
    exact .step (by decide) bareLink_not_carriesNetId (by decide) (.stop (by decide))

/-- A message of 17 bytes that is no link, in a reply of 17 bytes. -/
def oddMessage : Memory := .overlay ([17, 0, 0, 0, 3, 0] ++ List.replicate 11 0) fun _ => 0

/-- A link message that ends with its header, in a reply of 16 bytes. -/
def cutLink : Memory := .overlay ([16, 0, 0, 0, 16, 0] ++ List.replicate 10 0) fun _ => 0

theorem queries_leave_reply :
    ¬StaysInside (fun fuel => getInterfaceFlags .little cutLink fuel (.received 16) 0) 16 ∧
    ¬StaysInside (fun fuel =>
      getMctpInterfaceNetId .little oddMessage fuel "mctp0" (.received 17) 0) 17 := by
  rw [getInterfaceFlags_staysInside_iff (by decide),
    getMctpInterfaceNetId_staysInside_iff (by decide)]
  constructor
  · intro hfit
    cases hfit with
    | stop hat => exact hat (by decide)
    | last _ _ hneed => exact absurd hneed (by decide)
    | step _ hlink _ _ => exact hlink (by decide)
  · intro hfit
    cases hfit with
    | stop hat => exact hat (by decide)
    | last _ hcarries _ => exact absurd hcarries.1 (by decide)
    | step _ _ hle _ => exact absurd hle (by decide)

end MctpSerial.MctpNetlink
