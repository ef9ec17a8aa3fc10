import MctpSerial.AttributeForests

/-!
# Requests and the size of their buffers

All requests but one append attributes whose sizes are fixed, and have room enough for them.
`setMctpInterfaceName` appends a name that it does not measure against its buffer: with 476
bytes and more the name is copied over the end, and its length is cut to 16 bits at last.
-/
namespace MctpSerial.MctpNetlink
open MemoryWalks

/-! ## The calls -/

inductive Call where
  | setMctpInterfaceName (oldname : String) (newname : List (BitVec 8))
  | setMctpInterfaceNetId (ifname : String) (net : BitVec 32)
  | setMctpInterfaceStatus (ifname : String) (up : Bool)
  | setMctpLocalEid (ifname : String) (eid : BitVec 8)
  | deleteMctpLocalEid (ifname : String) (eid : BitVec 8)
  | addMctpRoute (ifname : String) (destEid : BitVec 8)
  | removeMctpRoute (ifname : String) (destEid : BitVec 8)

namespace Call

def perform (o : ByteOrder) (host : Host) : Call → Outcome
  | setMctpInterfaceName oldname newname =>
    MctpNetlink.setMctpInterfaceName o oldname newname host
  | setMctpInterfaceNetId ifname net => MctpNetlink.setMctpInterfaceNetId o ifname net host
  | setMctpInterfaceStatus ifname up => MctpNetlink.setMctpInterfaceStatus o ifname up host
  | setMctpLocalEid ifname eid => MctpNetlink.setMctpLocalEid o ifname eid host
  | deleteMctpLocalEid ifname eid => MctpNetlink.deleteMctpLocalEid o ifname eid host
  | addMctpRoute ifname destEid => MctpNetlink.addMctpRoute o ifname destEid host
  | removeMctpRoute ifname destEid => MctpNetlink.removeMctpRoute o ifname destEid host

/-- The name that an interface is given has room in the buffer, where a buffer is made. -/
def NameFits (host : Host) : Call → Prop
  | setMctpInterfaceName _ newname =>
    host.ifindex ≠ 0 → host.opening = .opened → newname.length ≤ 475
  | _ => True

end Call

/-- All that has been done to a buffer was inside it, and no length was cut. -/
def Draft.InBounds (d : Draft) : Prop := ∀ e ∈ d.effects, e.Within d.capacity

/-- All that a request does to its buffer. -/
def Outcome.InBounds (r : Outcome) : Prop := ∀ d, r.draft = some d → d.InBounds

/-! ## Drafts with room -/

/-- A draft of the given size and length, in bounds so far. -/
structure Draft.Ready (o : ByteOrder) (capacity n : ℕ) (d : Draft) : Prop where
  capacity : d.capacity = capacity
  nlmsgLen : d.nlmsgLen o = n
  inBounds : d.InBounds

section
variable {o : ByteOrder} {capacity n : ℕ} {d d' : Draft}

theorem Draft.InBounds.appends {k : ℕ} (h : d.InBounds) (happ : Appends k d d') : d'.InBounds := by
  obtain ⟨es, hes, hall⟩ := happ.effects
  intro e he
  rw [happ.capacity]
  rw [hes] at he
  rcases List.mem_append.mp he with he | he
  · exact h e he
  · exact (hall e he).1

theorem Draft.blank_inBounds (capacity : ℕ) : (Draft.blank capacity).InBounds :=
  fun _ he => absurd he List.not_mem_nil

namespace Draft.Ready

/-- A field of a header, behind `nlmsg_len`. -/
theorem store (h : d.Ready o capacity n) {p : ℕ} {bs : List (BitVec 8)} (hp : 4 ≤ p)
    (hcap : p + bs.length ≤ capacity) : (d.store p bs).Ready o capacity n := by
  have happ : Appends 4 d (d.store p bs) :=
    (Appends.refl 4 d).store (Or.inl hp) (by rw [h.capacity]; exact hcap)
  have hagree : (d.store p bs).mem.AgreeOn d.mem 0 4 := Memory.agreeOn_write _ _ (Or.inl hp)
  refine ⟨h.capacity, ?_, h.inBounds.appends happ⟩
  rw [Draft.nlmsgLen, hagree.number o le_rfl le_rfl]
  exact h.nlmsgLen

theorem nlmsghdr {size : ℕ} (flags type : ℕ) (h4 : 4 ∣ size)
    (hcap : nlmsgLength size ≤ capacity) (hlt : capacity < 2 ^ 32) :
    (nlmsghdr o size flags type (blank capacity)).Ready o capacity (nlmsgLength size) := by
  have hfixed : nlmsgLength size = size + 16 := rfl
  have happ : Appends 4 (blank capacity) ((blank capacity).setNlmsgLen o (nlmsgLength size)) :=
    (Appends.refl 4 _).setNlmsgLen (by omega) (by omega) hcap (by change 4 ≤ capacity; omega)
  have hlen : ((blank capacity).setNlmsgLen o (nlmsgLength size)).Ready o capacity
      (nlmsgLength size) :=
    ⟨rfl, nlmsgLen_setNlmsgLen _ (by omega), (blank_inBounds capacity).appends happ⟩
  exact (hlen.store (by decide) (by simp; omega)).store (by decide) (by simp; omega)

/-- A field of what stands behind `nlmsghdr`, 16 bytes at most. -/
theorem field (h : d.Ready o capacity n) (hcap : 32 ≤ capacity) (k size v : ℕ)
    (hk : k + size ≤ 16 := by decide) :
    (d.store (headerSize + k) (o.encode size v)).Ready o capacity n := by
  have hfixed : headerSize = 16 := rfl
  exact h.store (by omega) (by rw [ByteOrder.length_encode]; omega)

theorem setIfiFlags (h : d.Ready o capacity n) (hcap : 32 ≤ capacity) (flags : BitVec 32) :
    (setIfiFlags o flags d).Ready o capacity n :=
  h.field hcap 8 4 _

theorem setIfiChange (h : d.Ready o capacity n) (hcap : 32 ≤ capacity) (change : BitVec 32) :
    (setIfiChange o change d).Ready o capacity n :=
  h.field hcap 12 4 _

theorem ifinfomsg (h : d.Ready o capacity n) (hcap : 32 ≤ capacity) (family : ℕ)
    (index : BitVec 32) : (ifinfomsg o family index d).Ready o capacity n :=
  (h.field hcap 0 1 _).field hcap 4 4 _

theorem ifaddrmsg (h : d.Ready o capacity n) (hcap : 32 ≤ capacity)
    (family prefixlen scope : ℕ) (index : BitVec 32) :
    (ifaddrmsg o family prefixlen scope index d).Ready o capacity n :=
  (((h.field hcap 0 1 _).field hcap 1 1 _).field hcap 4 4 _).field hcap 3 1 _

theorem rtmsg (h : d.Ready o capacity n) (hcap : 32 ≤ capacity)
    (family table protocol scope type dstLen : ℕ) :
    (rtmsg o family table protocol scope type dstLen d).Ready o capacity n :=
  (((((h.field hcap 0 1 _).field hcap 4 1 _).field hcap 5 1 _).field hcap 6 1 _).field hcap 7 1
    _).field hcap 1 1 _

/-- A forest that has room behind the headers. -/
theorem build (h : d.Ready o capacity n) {f : Forest} (h4 : 4 ∣ n) (hpos : 4 ≤ n)
    (hrep : f.Representable) (hcap : n + f.size ≤ capacity) (hlt : capacity < 2 ^ 32) :
    (build o f d).Ready o capacity (n + f.size) := by
  have hbuilt := build_built h.nlmsgLen h4 hpos hrep (by rw [h.capacity]; exact hcap) (by omega)
  exact ⟨hbuilt.appends.capacity.trans h.capacity, hbuilt.nlmsgLen,
    h.inBounds.appends hbuilt.appends⟩

end Draft.Ready

/-! ## The requests -/

theorem request_inBounds_iff {ifname : String} {host : Host} {r : Outcome} :
    (request ifname host r).InBounds ↔
      (host.ifindex ≠ 0 → host.opening = .opened → r.InBounds) := by
  rw [request]
  split
  · rename_i hindex
    simp [Outcome.InBounds, hindex]
  · rename_i hindex
    split
    · rename_i hopened
      exact ⟨fun h _ _ => h, fun h => h hindex hopened⟩
    · rename_i hfailed
      simp only [Outcome.InBounds, reduceCtorEq, false_implies, implies_true, true_iff]
      exact fun _ hopened => absurd hopened hfailed

theorem send_inBounds_iff {host : Host} : (d.send o host).InBounds ↔ d.InBounds := by
  simp [Draft.send, Outcome.InBounds]

theorem tryMasks_inBounds (acks : ℕ → Ack) (mi : ℕ) (masks : List (BitVec 32))
    (h : d.Ready o capacity n) (hcap : 32 ≤ capacity) :
    (tryMasks o acks mi masks d).InBounds := by
  induction masks generalizing mi d with
  | nil =>
    intro d' hd'
    rw [← Option.some.inj hd']
    exact h.inBounds
  | cons mask masks ih =>
    have hmask := h.setIfiChange hcap mask
    rw [tryMasks]
    dsimp only
    split
    · intro d' hd'
      rw [← Option.some.inj hd']
      exact hmask.inBounds
    · exact ih (mi + 1) hmask

end

section
variable {o : ByteOrder} {host : Host}

/-- The headers of a link message. -/
theorem link_ready {capacity : ℕ} (hcap : 32 ≤ capacity) (hlt : capacity < 2 ^ 32)
    (index : BitVec 32) :
    (ifinfomsg o afUnspec index (nlmsghdr o ifinfomsgSize (nlmFRequest ||| nlmFAck) rtmNewlink
      (.blank capacity))).Ready o capacity 32 :=
  (Draft.Ready.nlmsghdr _ _ (by decide) hcap hlt).ifinfomsg hcap afUnspec index

/-- A number of four bytes, as the leaf of a forest. -/
theorem nlaPut_word (type v : ℕ) (d : Draft) :
    nlaPut o type (o.encode 4 v) 4 d = nlaPut o type (o.encode 4 v) (o.encode 4 v).length d := by
  rw [ByteOrder.length_encode]
  rfl

theorem Outcome.InBounds.cerr {r : Outcome} (h : r.InBounds) (cerr : List String) :
    ({ r with cerr } : Outcome).InBounds := h

/-- The nests of `setMctpInterfaceNetId`. -/
def netForest (o : ByteOrder) (net : BitVec 32) : Forest :=
  .nest iflaAfSpec (.nest afMctp (.leaf iflaMctpNet (o.encode 4 net.toNat) .nil) .nil) .nil

theorem setMctpInterfaceNetId_inBounds (ifname : String) (net : BitVec 32) :
    (setMctpInterfaceNetId o ifname net host).InBounds := by
  have hrep : (netForest o net).Representable := by
    simp [netForest, Forest.Representable, Forest.size, align, rtattrSize, iflaAfSpec, afMctp,
      iflaMctpNet, nlaFNested]
  have hsize : (netForest o net).size = 16 := by
    simp [netForest, Forest.size, align, rtattrSize]
  rw [setMctpInterfaceNetId, request_inBounds_iff]
  intro _ _
  dsimp only
  rw [nlaPut_word]
  have hready := (((link_ready (by decide) (by decide) host.ifindex).setIfiFlags (by decide)
    (if host.flags.found then host.flags.out else 0)).build (o := o) (by decide) (by decide) hrep
      (by rw [hsize]; decide) (by decide) : Draft.Ready o 512 _ _)
  exact (tryMasks_inBounds host.acks 0 _ hready (by decide)).cerr _

theorem setMctpInterfaceStatus_inBounds (ifname : String) (up : Bool) :
    (setMctpInterfaceStatus o ifname up host).InBounds := by
  rw [setMctpInterfaceStatus, request_inBounds_iff]
  intro _ _
  rw [send_inBounds_iff]
  exact (((link_ready (by decide) (by decide) host.ifindex).setIfiFlags (by decide) _).setIfiChange
    (by decide) iffUp).inBounds

theorem localEid_inBounds {type : ℕ} (ifname : String) (eid : BitVec 8) :
    (localEid o type ifname eid host).InBounds := by
  let f : Forest := .leaf ifaLocal [eid] (.leaf ifaAddress [eid] .nil)
  have hrep : f.Representable := by
    simp [f, Forest.Representable, rtattrSize, ifaLocal, ifaAddress]
  have hsize : f.size = 16 := by simp [f, Forest.size, align, rtattrSize]
  rw [localEid, request_inBounds_iff]
  intro _ _
  rw [send_inBounds_iff]
  have hheader := (Draft.Ready.nlmsghdr (o := o) (nlmFRequest ||| nlmFAck) type
    (show 4 ∣ ifaddrmsgSize by decide) (show _ ≤ 256 by decide) (by decide)).ifaddrmsg (by decide)
      afMctp 0 0 host.ifindex
  exact (hheader.build (by decide) (by decide) hrep (by rw [hsize]; decide) (by decide)).inBounds

theorem mctpRoute_inBounds {flags type : ℕ} (ifname : String) (destEid : BitVec 8) :
    (mctpRoute o flags type ifname destEid host).InBounds := by
  let f : Forest := .leaf rtaDst [destEid] (.leaf rtaOif (o.encode 4 host.ifindex.toNat) .nil)
  have hrep : f.Representable := by
    simp [f, Forest.Representable, rtattrSize, rtaDst, rtaOif]
  have hsize : f.size = 16 := by simp [f, Forest.size, align, rtattrSize]
  rw [mctpRoute, request_inBounds_iff]
  intro _ _
  dsimp only
  rw [send_inBounds_iff, addAttribute, addAttribute, nlaPut_word]
  have hheader := (Draft.Ready.nlmsghdr (o := o) flags type (show 4 ∣ rtmsgSize by decide)
    (show _ ≤ 512 by decide) (by decide)).rtmsg (by decide) afMctp rtTableMain rtprotBoot
      rtScopeUniverse rtnUnicast 0
  exact (hheader.build (by decide) (by decide) hrep (by rw [hsize]; decide) (by decide)).inBounds

/-! ## The name of an interface -/

theorem nlaPut_capacity (type : ℕ) (data : List (BitVec 8)) (datalen : ℤ) (d : Draft) :
    (nlaPut o type data datalen d).capacity = d.capacity := by
  simp only [nlaPut, Draft.setNlmsgLen, Draft.setRtaLen, Draft.copy, Draft.store, Draft.record]
  split <;> rfl

theorem mem_nlaPut_rtaLen (type : ℕ) (data : List (BitVec 8)) (datalen : ℤ) (d : Draft) :
    .rtaLen (rtaLength datalen % 2 ^ 16).toNat data.length ∈
      (nlaPut o type data datalen d).effects := by
  simp only [nlaPut, Draft.setNlmsgLen, Draft.setRtaLen, Draft.copy, Draft.store, Draft.record]
  split <;> simp

theorem mem_nlaPut_stored (type : ℕ) (data : List (BitVec 8)) {datalen : ℤ} (h : 0 < datalen)
    (d : Draft) : .stored (align (d.nlmsgLen o) + rtattrSize) (data.take datalen.toNat).length ∈
      (nlaPut o type data datalen d).effects := by
  simp [nlaPut, Draft.setNlmsgLen, Draft.setRtaLen, Draft.copy, Draft.store, Draft.record, h]

/-- The name with its zero, as it is appended behind the headers of a link message. -/
theorem nameAttribute_inBounds_iff {d : Draft} (h : d.Ready o 512 32)
    (newname : List (BitVec 8)) :
    (addAttribute o iflaIfname (newname ++ [0]) ((newname.length : ℤ).bmod (2 ^ 32) + 1)
      d).InBounds ↔ newname.length ≤ 475 := by
  have hfixed : rtattrSize = 4 := rfl
  have hlen : (newname ++ [0]).length = newname.length + 1 := by simp
  rw [addAttribute]
  constructor
  · intro hbounds
    have hrta := hbounds _ (mem_nlaPut_rtaLen _ _ _ _)
    rw [Effect.Within, rtaLength, hlen] at hrta
    -- A length that has not been cut to 16 bits has not been cut to 32 bits either.
    have hcast : (newname.length : ℤ).bmod (2 ^ 32) = newname.length :=
      Int.bmod_eq_of_le (by omega) (by omega)
    have hstored := hbounds _ (mem_nlaPut_stored _ _ (by rw [hcast]; omega) _)
    rw [Effect.Within, nlaPut_capacity, h.capacity, h.nlmsgLen, hcast, List.length_take, hlen,
      align_of_dvd (by decide) (by decide)] at hstored
    omega
  · intro hname
    have hcast : (newname.length : ℤ).bmod (2 ^ 32) + 1 = (newname ++ [0]).length := by
      rw [Int.bmod_eq_of_le (by omega) (by omega), hlen, Nat.cast_add, Nat.cast_one]
    let f : Forest := .leaf iflaIfname (newname ++ [0]) .nil
    have hrep : f.Representable := ⟨by decide, by omega, trivial⟩
    have hsize : 32 + f.size ≤ 512 := by
      simp only [f, Forest.size, align, hlen, hfixed]
      omega
    rw [hcast]
    exact (h.build (by decide) (by decide) hrep hsize (by decide)).inBounds

theorem setMctpInterfaceName_inBounds_iff (oldname : String) (newname : List (BitVec 8)) :
    (setMctpInterfaceName o oldname newname host).InBounds ↔
      (host.ifindex ≠ 0 → host.opening = .opened → newname.length ≤ 475) := by
  have hready := (link_ready (o := o) (by decide) (by decide) host.ifindex).setIfiChange
    (show 32 ≤ 512 by decide) 0
  rw [setMctpInterfaceName, request_inBounds_iff]
  dsimp only
  rw [send_inBounds_iff, nameAttribute_inBounds_iff hready]

end

/-- Every store of a request is inside its buffer, `nlmsg_len` does not exceed it, and every
`rta_len` counts its payload, unless an interface is given a name of 476 bytes or more. -/
theorem requests_in_bounds_iff (o : ByteOrder) (host : Host) (call : Call) :
    (call.perform o host).InBounds ↔ call.NameFits host := by
  cases call with
  | setMctpInterfaceName oldname newname => exact setMctpInterfaceName_inBounds_iff oldname newname
  | setMctpInterfaceNetId ifname net =>
    exact iff_of_true (setMctpInterfaceNetId_inBounds ifname net) trivial
  | setMctpInterfaceStatus ifname up =>
    exact iff_of_true (setMctpInterfaceStatus_inBounds ifname up) trivial
  | setMctpLocalEid ifname eid => exact iff_of_true (localEid_inBounds ifname eid) trivial
  | deleteMctpLocalEid ifname eid => exact iff_of_true (localEid_inBounds ifname eid) trivial
  | addMctpRoute ifname destEid => exact iff_of_true (mctpRoute_inBounds ifname destEid) trivial
  | removeMctpRoute ifname destEid => exact iff_of_true (mctpRoute_inBounds ifname destEid) trivial

/-- An interface that is there, and a kernel that accepts everything. -/
def willingHost : Host where
  ifindex := 4
  opening := .opened
  flags := ⟨true, iffUp, []⟩
  acks := fun _ => .received nlmsgError 0 ""

/-- A name of 476 bytes, of which the zero is stored behind the buffer. -/
theorem rename_leaves_buffer :
    ¬((Call.setMctpInterfaceName "mctpserial0" (List.replicate 476 0x61#8)).perform .little
      willingHost).InBounds := by
  intro h
  have hname := (setMctpInterfaceName_inBounds_iff _ _).mp h (by decide) rfl
  rw [List.length_replicate] at hname
  omega

end MctpSerial.MctpNetlink
