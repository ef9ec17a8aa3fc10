import MctpSerial.NetlinkReplyBounds

/-!
# Finding the network id in a reply

A well-formed reply is a sequence of messages, and the attributes of a link message form a
tree: `IFLA_AF_SPEC` holds address families, and `AF_MCTP` holds the attributes of MCTP. The
walk over the bytes of a reply finds the first usable `IFLA_MCTP_NET` of the tree, in the
order of the document, and leaves the output alone when there is none.
-/
namespace MctpSerial.MctpNetlink
open MemoryWalks

/-! ## Well-formed replies -/

/-- An attribute, with the padding up to the next multiple of four. -/
structure Attribute where
  type : BitVec 16
  payload : List (BitVec 8)
  padding : List (BitVec 8)
  short : padding.length < 4
  aligned : 4 ∣ payload.length + padding.length

namespace Attribute

/-- The header and the payload; `rta_len` counts just these. -/
def content (o : ByteOrder) (a : Attribute) : List (BitVec 8) :=
  o.encode 2 (rtattrSize + a.payload.length) ++ o.encode 2 a.type.toNat ++ a.payload

def bytes (o : ByteOrder) (a : Attribute) : List (BitVec 8) := a.content o ++ a.padding

/-- Four bytes of payload or more, or exactly one. -/
def usable (a : Attribute) : Bool := decide (4 ≤ a.payload.length ∨ a.payload.length = 1)

/-- The native value of the first four bytes of the payload, or its only byte. -/
def netId (o : ByteOrder) (a : Attribute) : BitVec 32 :=
  if 4 ≤ a.payload.length then BitVec.ofNat 32 (o.value (a.payload.take 4))
  else (a.payload.headD 0).setWidth 32

end Attribute

/-- Bytes that are filled by attributes, one behind the other. The padding of the last one
need not be complete. -/
inductive Filled (o : ByteOrder) : List (BitVec 8) → List Attribute → Prop
  | nil : Filled o [] []
  | last (a : Attribute) (k : ℕ) : Filled o (a.content o ++ a.padding.take k) [a]
  | cons (a : Attribute) {bs : List (BitVec 8)} {as : List Attribute} :
      Filled o bs as → Filled o (a.bytes o ++ bs) (a :: as)

/-- An attribute of `IFLA_AF_SPEC`: if it is `AF_MCTP`, it holds the attributes of MCTP. -/
structure FamilyAttribute (o : ByteOrder) extends Attribute where
  nets : List Attribute
  filled : type.toNat = afMctp → Filled o payload nets

/-- An attribute of a link: if it is `IFLA_AF_SPEC`, it holds address families. -/
structure LinkAttribute (o : ByteOrder) extends Attribute where
  families : List (FamilyAttribute o)
  filled : type.toNat = iflaAfSpec → Filled o payload (families.map (·.toAttribute))

/-- A message: if it is `RTM_NEWLINK`, it holds an `ifinfomsg` and attributes. `header` has
what stands in `nlmsghdr` behind the type. -/
structure Message (o : ByteOrder) where
  type : BitVec 16
  header : List (BitVec 8)
  body : List (BitVec 8)
  attributes : List (LinkAttribute o)
  header_length : header.length = 10
  aligned : 4 ∣ body.length
  filled : type.toNat = rtmNewlink → ifinfomsgSize ≤ body.length ∧
    Filled o (body.drop ifinfomsgSize) (attributes.map (·.toAttribute))

def Message.bytes {o : ByteOrder} (msg : Message o) : List (BitVec 8) :=
  o.encode 4 (headerSize + msg.body.length) ++ o.encode 2 msg.type.toNat ++ msg.header ++ msg.body

/-- The messages that fill the received bytes. -/
structure Reply (o : ByteOrder) where
  messages : List (Message o)
  fits : (messages.flatMap Message.bytes).length ≤ 8192

namespace Reply
variable {o : ByteOrder}

def bytes (reply : Reply o) : List (BitVec 8) := reply.messages.flatMap Message.bytes

/-- The attributes `IFLA_MCTP_NET` in `AF_MCTP` in `IFLA_AF_SPEC` of a link message, in the
order of the document. -/
def netAttributes (reply : Reply o) : List Attribute :=
  (reply.messages.filter fun msg => msg.type.toNat = rtmNewlink).flatMap fun msg =>
    (msg.attributes.filter fun link => link.type.toNat = iflaAfSpec).flatMap fun link =>
      (link.families.filter fun family => family.type.toNat = afMctp).flatMap fun family =>
        family.nets.filter fun net => net.type.toNat = iflaMctpNet

end Reply

/-! ## Attributes in memory -/

section
variable {o : ByteOrder} {m : Memory} {n : ℕ} {α β : Type}

namespace Attribute

theorem length_content (a : Attribute) :
    (a.content o).length = rtattrSize + a.payload.length := by
  simp only [content, List.length_append, ByteOrder.length_encode, rtattrSize]

/-- The padded attribute is what `RTA_ALIGN` makes of its length. -/
theorem align_length (a : Attribute) (hlt : (a.content o).length < 2 ^ 16) :
    align (a.content o).length = (a.content o).length + a.padding.length := by
  obtain ⟨k, hk⟩ := a.aligned
  have hshort := a.short
  rw [length_content] at hlt ⊢
  simp only [align, rtattrSize] at hlt ⊢
  omega

variable {a : Attribute} {p : ℕ} (hm : m.Holds p (a.content o))
include hm

theorem number_len (hlt : (a.content o).length < 2 ^ 16) :
    m.number o p 2 = (a.content o).length := by
  rw [content, List.append_assoc, Memory.holds_append] at hm
  rw [length_content] at hlt ⊢
  exact hm.1.number hlt

theorem number_type : m.number o (p + 2) 2 = a.type.toNat := by
  rw [content, List.append_assoc, Memory.holds_append, Memory.holds_append] at hm
  obtain ⟨-, htype, -⟩ := hm
  rw [ByteOrder.length_encode] at htype
  exact htype.number a.type.isLt

theorem holds_payload : m.Holds (p + rtattrSize) a.payload := by
  rw [content, Memory.holds_append] at hm
  simpa [rtattrSize] using hm.2

end Attribute

/-- At every place where the attribute stands in the first `n` bytes, the body ends inside
them with the given value. -/
def Yields (o : ByteOrder) (m : Memory) (n : ℕ) (body : ℕ → Walk (Option α)) (a : Attribute)
    (r : Option α) : Prop :=
  ∀ p, m.Holds p (a.content o) → p + (a.content o).length ≤ n → (body p).Runs n r

section
variable {a : Attribute} {rta len : ℕ} (hlt : n < 2 ^ 16) (hm : m.Holds rta (a.content o))
  (hle : (a.content o).length ≤ len) (hn : rta + len ≤ n)
include hlt hm hle hn

theorem Attribute.fits : AttributeFits o m rta len := by
  have hcontent := a.length_content (o := o)
  simp only [AttributeFits, a.number_len hm (by omega)]
  omega

/-- A turn at an attribute in front of the others, in which the body continues. -/
theorem Attribute.turn_next {body : ℕ → Walk (Option α)} {fuel : ℕ} {r : Option α}
    (hbody : Yields o m n body a none) :
    (attributeTurns o m body (fuel + 1) rta len).Runs n r ↔
      (attributeTurns o m body fuel (rta + (a.bytes o).length)
        (len - (a.bytes o).length)).Runs n r := by
  rw [attributeTurns_next (by omega) (a.fits hlt hm hle hn) (hbody rta hm (by omega)),
    a.number_len hm (by omega), a.align_length (by omega), bytes, List.length_append]

theorem Attribute.turn_found {body : ℕ → Walk (Option α)} {fuel : ℕ} {v : α}
    (hbody : Yields o m n body a (some v)) :
    (attributeTurns o m body (fuel + 1) rta len).Runs n (some v) :=
  attributeTurns_found (by omega) (a.fits hlt hm hle hn) (hbody rta hm (by omega))

end

/-- Behind the first attribute comes its padding with the others, or a part of its padding. -/
theorem Filled.cons_cases {bs : List (BitVec 8)} {a : Attribute} {as : List Attribute}
    (h : Filled o bs (a :: as)) : ∃ tail, bs = a.content o ++ tail ∧
      ((as = [] ∧ tail.length ≤ a.padding.length) ∨
        ∃ rest, Filled o rest as ∧ tail = a.padding ++ rest) := by
  cases h with
  | last _ k => exact ⟨_, rfl, .inl ⟨rfl, List.length_take_le' k a.padding⟩⟩
  | cons _ h => exact ⟨_, List.append_assoc _ _ _, .inr ⟨_, h, rfl⟩⟩

/-- The loop over attributes returns what the first of them to yield a value yields. -/
theorem attributeTurns_finds {body : ℕ → Walk (Option α)} {view : β → Attribute}
    {find : β → Option α} (hlt : n < 2 ^ 16) {xs : List β}
    (hbody : ∀ x ∈ xs, Yields o m n body (view x) (find x)) {bs : List (BitVec 8)}
    (hfilled : Filled o bs (xs.map view)) {fuel rta : ℕ} (hm : m.Holds rta bs)
    (hn : rta + bs.length ≤ n) (hfuel : bs.length ≤ fuel) :
    (attributeTurns o m body (fuel + 1) rta bs.length).Runs n (xs.findSome? find) := by
  induction xs generalizing bs fuel rta with
  | nil =>
    cases hfilled
    exact attributeTurns_stop (by omega) fun hfits => absurd hfits.1 (by decide)
  | cons x xs ih =>
    have hx := hbody x (by simp)
    have hfixed : rtattrSize = 4 := rfl
    have hcontent := (view x).length_content (o := o)
    obtain ⟨tail, rfl, htail⟩ := hfilled.cons_cases
    rw [Memory.holds_append] at hm
    have hlen : ((view x).content o ++ tail).length = ((view x).content o).length + tail.length :=
      List.length_append
    rw [List.findSome?_cons]
    cases hfind : find x with
    | some v =>
      rw [hfind] at hx
      exact (view x).turn_found hlt hm.1 (by omega) hn hx
    | none =>
      rw [hfind] at hx
      rw [(view x).turn_next hlt hm.1 (by omega) hn hx]
      have hbytes : ((view x).bytes o).length =
          ((view x).content o).length + (view x).padding.length :=
        List.length_append
      obtain ⟨fuel, rfl⟩ := Nat.exists_eq_succ_of_ne_zero (show fuel ≠ 0 by omega)
      obtain ⟨hxs, hshort⟩ | ⟨rest, hrest, rfl⟩ := htail
      · rw [List.map_eq_nil_iff.mp hxs]
        refine attributeTurns_stop (by omega) fun hfits => ?_
        have hpos := hfits.1
        omega
      · rw [Memory.holds_append, Nat.add_assoc, ← hbytes] at hm
        have hlen' : ((view x).padding ++ rest).length = (view x).padding.length + rest.length :=
          List.length_append
        have hrem : (((view x).content o ++ ((view x).padding ++ rest)).length : ℤ) -
            ((view x).bytes o).length = rest.length := by
          omega
        rw [hrem]
        exact ih (fun y hy => hbody y (by simp [hy])) hrest hm.2.2 (by omega) (by omega)

theorem forAttributes_finds {body : ℕ → Walk (Option α)} {view : β → Attribute}
    {find : β → Option α} (hlt : n < 2 ^ 16) {xs : List β}
    (hbody : ∀ x ∈ xs, Yields o m n body (view x) (find x)) {bs : List (BitVec 8)}
    (hfilled : Filled o bs (xs.map view)) {rta : ℕ} (hm : m.Holds rta bs)
    (hn : rta + bs.length ≤ n) :
    (forAttributes o m body rta bs.length).Runs n (xs.findSome? find) :=
  attributeTurns_finds hlt hbody hfilled hm hn (Nat.le_of_eq (Int.toNat_natCast _).symm)

/-! ## The bodies on attributes -/

namespace Attribute

/-- What the innermost body makes of an attribute. -/
def found (o : ByteOrder) (a : Attribute) : Option (BitVec 32) :=
  if a.type.toNat = iflaMctpNet ∧ a.usable then some (a.netId o) else none

theorem netIdAt_eq_found {a : Attribute} {p : ℕ} (hm : m.Holds p (a.content o))
    (hlt : (a.content o).length < 2 ^ 16) : netIdAt o m p = a.found o := by
  have hpayload := a.holds_payload hm
  rw [netIdAt, a.number_type hm, a.number_len hm hlt, a.length_content, found]
  by_cases ht : a.type.toNat = iflaMctpNet
  · by_cases hfour : 4 ≤ a.payload.length
    · have hbytes := hpayload.bytesAt_take hfour
      simp [ht, usable, netId, hfour, Memory.number, hbytes]
    · by_cases hone : a.payload.length = 1
      · obtain ⟨b, hb⟩ := List.length_eq_one_iff.mp hone
        have hbytes := hpayload.bytesAt_take (Nat.le_of_eq hone.symm)
        simp [ht, usable, netId, Memory.number, hbytes, hb]
      · simp [ht, usable, hfour, hone]
  · simp [ht]

end Attribute

theorem mctpAttribute_yields (hlt : n < 2 ^ 16) (a : Attribute) :
    Yields o m n (mctpAttribute o m) a (a.found o) := by
  intro p hm hn
  have hlen := a.number_len hm (by omega)
  have hcontent := a.length_content (o := o)
  rw [← a.netIdAt_eq_found hm (by omega)]
  exact mctpAttribute_runs (by omega) (by omega)

theorem inNest_yields {type : ℕ} {body : ℕ → Walk (Option α)} {view : β → Attribute}
    {find : β → Option α} (hlt : n < 2 ^ 16) {a : Attribute} {xs : List β}
    (hbody : ∀ x ∈ xs, Yields o m n body (view x) (find x))
    (hfilled : a.type.toNat = type → Filled o a.payload (xs.map view)) :
    Yields o m n (inNest o m type body) a
      (if a.type.toNat = type then xs.findSome? find else none) := by
  intro p hm hn
  have hcontent := a.length_content (o := o)
  have hread : p + rtattrSize ≤ n := by omega
  rw [inNest, (rtaType_runs hread).bind_iff, a.number_type hm]
  by_cases ht : a.type.toNat = type
  · have hpayload : (m.number o p 2 : ℤ) - rtattrSize = a.payload.length := by
      rw [a.number_len hm (by omega)]
      omega
    rw [if_pos ht, if_pos ht, (rtaPayload_runs hread).bind_iff, hpayload]
    exact forAttributes_finds hlt hbody (hfilled ht) (a.holds_payload hm) (by omega)
  · rw [if_neg ht, if_neg ht, Walk.runs_pure]

def FamilyAttribute.found (family : FamilyAttribute o) : Option (BitVec 32) :=
  if family.type.toNat = afMctp then family.nets.findSome? (Attribute.found o) else none

def LinkAttribute.found (link : LinkAttribute o) : Option (BitVec 32) :=
  if link.type.toNat = iflaAfSpec then link.families.findSome? FamilyAttribute.found else none

theorem familyAttribute_yields (hlt : n < 2 ^ 16) (family : FamilyAttribute o) :
    Yields o m n (familyAttribute o m) family.toAttribute family.found := by
  have hfilled : family.type.toNat = afMctp →
      Filled o family.payload (family.nets.map fun net => net) := by
    simpa only [List.map_id'] using family.filled
  exact inNest_yields hlt (fun net _ => mctpAttribute_yields hlt net) hfilled

theorem linkAttribute_yields (hlt : n < 2 ^ 16) (link : LinkAttribute o) :
    Yields o m n (linkAttribute o m) link.toAttribute link.found :=
  inNest_yields hlt (fun family _ => familyAttribute_yields hlt family) link.filled

/-! ## Messages in memory -/

namespace Message

def found (msg : Message o) : Option (BitVec 32) :=
  if msg.type.toNat = rtmNewlink then msg.attributes.findSome? LinkAttribute.found else none

theorem length_bytes (msg : Message o) : msg.bytes.length = headerSize + msg.body.length := by
  simp only [bytes, List.length_append, ByteOrder.length_encode, msg.header_length, headerSize]

theorem align_length (msg : Message o) (hlt : msg.bytes.length < 2 ^ 16) :
    align msg.bytes.length = msg.bytes.length := by
  obtain ⟨k, hk⟩ := msg.aligned
  rw [length_bytes] at hlt ⊢
  simp only [align, headerSize] at hlt ⊢
  omega

variable {msg : Message o} {p : ℕ} (hm : m.Holds p msg.bytes)
include hm

theorem number_len (hlt : msg.bytes.length < 2 ^ 16) : m.number o p 4 = msg.bytes.length := by
  simp only [bytes, List.append_assoc, Memory.holds_append] at hm
  rw [length_bytes] at hlt ⊢
  exact hm.1.number (by omega)

theorem number_type : m.number o (p + 4) 2 = msg.type.toNat := by
  simp only [bytes, List.append_assoc, Memory.holds_append, ByteOrder.length_encode] at hm
  exact hm.2.1.number msg.type.isLt

theorem holds_body : m.Holds (p + headerSize) msg.body := by
  simp only [bytes, List.append_assoc, Memory.holds_append, ByteOrder.length_encode,
    msg.header_length] at hm
  exact hm.2.2.2

variable {rem : ℕ} (hlt : n < 2 ^ 16) (hn : p + rem = n) (hle : msg.bytes.length ≤ rem)
include hlt hn hle

theorem messageAt : MessageAt o m p rem := by
  have hbytes := msg.length_bytes
  simp only [MessageAt, number_len hm (by omega)]
  omega

/-- The body of the loop over messages returns what the attributes of a link have. -/
theorem inLink_runs : (inLink o m (linkNetId o m) p).Runs n msg.found := by
  have hat := messageAt hm hlt hn hle
  have hbytes := msg.length_bytes
  by_cases hlink : msg.type.toNat = rtmNewlink
  · obtain ⟨hifi, hfilled⟩ := msg.filled hlink
    have hnew : IsNewlink o m p := (number_type hm).trans hlink
    have hlen : (m.number o p 4 : ℤ) - (headerSize + ifinfomsgSize : ℕ) =
        (msg.body.drop ifinfomsgSize).length := by
      rw [number_len hm (by omega), List.length_drop]
      omega
    have hbody := holds_body hm
    rw [← List.take_append_drop ifinfomsgSize msg.body, Memory.holds_append,
      List.length_take_of_le hifi] at hbody
    rw [inLink_runs_of_newlink hn hat hnew, linkNetId_runs (by omega) hn hat, hlen, found,
      if_pos hlink]
    refine forAttributes_finds hlt (fun link _ => linkAttribute_yields hlt link) hfilled hbody.2 ?_
    rw [List.length_drop]
    omega
  · have hnew : ¬IsNewlink o m p := fun h => hlink ((number_type hm).symm.trans h)
    rw [found, if_neg hlink]
    exact inLink_runs_of_not_newlink hn hat hnew

end Message

/-- The loop over messages returns what the first link to have a network id has. -/
theorem forMessages_finds (hlt : n < 2 ^ 16) {msgs : List (Message o)} {fuel hdr : ℕ}
    (hm : m.Holds hdr (msgs.flatMap Message.bytes))
    (hn : hdr + (msgs.flatMap Message.bytes).length = n) (hfuel : msgs.length < fuel) :
    (forMessages o m (inLink o m (linkNetId o m)) fuel hdr
      (msgs.flatMap Message.bytes).length).Runs n (msgs.findSome? Message.found) := by
  obtain ⟨fuel, rfl⟩ := Nat.exists_eq_succ_of_ne_zero (Nat.ne_of_gt (Nat.zero_lt_of_lt hfuel))
  induction msgs generalizing hdr fuel with
  | nil => exact forMessages_stop (by omega) hn fun hat => absurd hat.1 (by simp [headerSize])
  | cons msg msgs ih =>
    rw [List.flatMap_cons] at hm hn ⊢
    rw [Memory.holds_append] at hm
    rw [List.length_append] at hn ⊢
    have hat := Message.messageAt hm.1 hlt hn (Nat.le_add_right _ _)
    have hbody := Message.inLink_runs hm.1 hlt hn (Nat.le_add_right _ _)
    rw [List.findSome?_cons]
    cases hfound : msg.found with
    | some v =>
      rw [hfound] at hbody
      exact forMessages_found (by omega) hn hat hbody
    | none =>
      rw [hfound] at hbody
      rw [forMessages_next (by omega) hn hat hbody, Message.number_len hm.1 (by omega),
        msg.align_length (by omega)]
      rw [List.length_cons] at hfuel
      obtain ⟨fuel, rfl⟩ := Nat.exists_eq_succ_of_ne_zero (show fuel ≠ 0 by omega)
      have hrem : ((msg.bytes.length + (msgs.flatMap Message.bytes).length : ℕ) : ℤ) -
          msg.bytes.length = (msgs.flatMap Message.bytes).length := by
        omega
      rw [hrem]
      exact ih hm.2 (by omega) fuel (by omega)

/-! ## The first usable attribute -/

private theorem map_find?_filter_flatMap {γ δ ε : Type} (l : List γ) (q : γ → Bool)
    (g : γ → List δ) (u : δ → Bool) (f : δ → ε) :
    (((l.filter q).flatMap g).find? u).map f =
      l.findSome? fun x => if q x then ((g x).find? u).map f else none := by
  induction l with
  | nil => rfl
  | cons x l ih =>
    rw [List.findSome?_cons, ← ih]
    by_cases hq : q x
    · rw [List.filter_cons_of_pos hq, List.flatMap_cons, List.find?_append, if_pos hq]
      cases (g x).find? u <;> rfl
    · rw [List.filter_cons_of_neg hq, if_neg hq]

private theorem map_find?_filter {δ ε : Type} (l : List δ) (q u : δ → Bool) (f : δ → ε) :
    ((l.filter q).find? u).map f =
      l.findSome? fun x => if q x ∧ u x then some (f x) else none := by
  induction l with
  | nil => rfl
  | cons x l ih =>
    rw [List.findSome?_cons, ← ih]
    by_cases hq : q x <;> by_cases hu : u x <;> simp [hq, hu]

/-- The search through the tree finds the first usable attribute of the document. -/
theorem Reply.findSome?_found (reply : Reply o) : reply.messages.findSome? Message.found =
    (reply.netAttributes.find? Attribute.usable).map (Attribute.netId o) := by
  simp only [netAttributes, map_find?_filter_flatMap, map_find?_filter, decide_eq_true_eq]
  rfl

theorem Reply.mem_netAttributes {reply : Reply o} {net : Attribute} :
    net ∈ reply.netAttributes ↔
      ∃ msg ∈ reply.messages, msg.type.toNat = rtmNewlink ∧
        ∃ link ∈ msg.attributes, link.type.toNat = iflaAfSpec ∧
          ∃ family ∈ link.families, family.type.toNat = afMctp ∧
            net ∈ family.nets ∧ net.type.toNat = iflaMctpNet := by
  simp only [netAttributes, List.mem_flatMap, List.mem_filter, decide_eq_true_eq, and_assoc]

theorem Answer.found_ofLoop (out : BitVec 32) (r : Option (BitVec 32)) :
    (Answer.ofLoop out r).found = r.isSome := by
  cases r <;> rfl

/-- The query over the bytes of a well-formed reply, whatever the buffer holds behind them. -/
theorem getMctpInterfaceNetId_runs (reply : Reply o) (buffer : Memory) {fuel : ℕ}
    (hfuel : reply.messages.length < fuel) (ifname : String) (outNet : BitVec 32) :
    (getMctpInterfaceNetId o (.overlay reply.bytes buffer) fuel ifname
      (.received reply.bytes.length) outNet).Runs reply.bytes.length (Answer.ofLoop outNet
        ((reply.netAttributes.find? Attribute.usable).map (Attribute.netId o))) := by
  have hlt : reply.bytes.length < 2 ^ 16 := Nat.lt_of_le_of_lt reply.fits (by decide)
  have hloop := forMessages_finds hlt (Memory.holds_overlay reply.bytes buffer)
    (Nat.zero_add _) hfuel
  rw [reply.findSome?_found] at hloop
  rw [getMctpInterfaceNetId]
  exact Walk.runs_bind.mpr ⟨_, hloop, Walk.runs_pure.mpr rfl⟩

end

/-- The query returns true exactly when some link message has an `IFLA_AF_SPEC` with an
`AF_MCTP` with a usable `IFLA_MCTP_NET`; the output is then the value of the first one, and
otherwise what it was before. -/
theorem getMctpInterfaceNetId_finds_first (o : ByteOrder) (reply : Reply o) (buffer : Memory)
    (fuel : ℕ) (hfuel : reply.messages.length < fuel) (ifname : String) (outNet : BitVec 32) :
    ∃ answer, (getMctpInterfaceNetId o (.overlay reply.bytes buffer) fuel ifname
        (.received reply.bytes.length) outNet).result = some answer ∧
      (answer.found = true ↔
        ∃ msg ∈ reply.messages, msg.type.toNat = rtmNewlink ∧
          ∃ link ∈ msg.attributes, link.type.toNat = iflaAfSpec ∧
            ∃ family ∈ link.families, family.type.toNat = afMctp ∧
              ∃ net ∈ family.nets, net.type.toNat = iflaMctpNet ∧
                (4 ≤ net.payload.length ∨ net.payload.length = 1)) ∧
      (answer.found = true → ∃ net, reply.netAttributes.find? Attribute.usable = some net ∧
        answer.out = net.netId o) ∧
      (answer.found = false → answer.out = outNet) := by
  refine ⟨_, (getMctpInterfaceNetId_runs reply buffer hfuel ifname outNet).2, ?_, ?_⟩
  · rw [Answer.found_ofLoop, Option.isSome_map, List.find?_isSome]
    constructor
    · rintro ⟨net, hmem, husable⟩
      obtain ⟨msg, hmsg, hnew, link, hlink, hspec, family, hfamily, hmctp, hnet, htype⟩ :=
        Reply.mem_netAttributes.mp hmem
      exact ⟨msg, hmsg, hnew, link, hlink, hspec, family, hfamily, hmctp, net, hnet, htype,
        of_decide_eq_true husable⟩
    · rintro ⟨msg, hmsg, hnew, link, hlink, hspec, family, hfamily, hmctp, net, hnet, htype,
        husable⟩
      exact ⟨net, Reply.mem_netAttributes.mpr ⟨msg, hmsg, hnew, link, hlink, hspec, family,
        hfamily, hmctp, hnet, htype⟩, decide_eq_true husable⟩
  · cases hfind : reply.netAttributes.find? Attribute.usable with
    | some net => exact ⟨fun _ => ⟨net, rfl, rfl⟩, fun h => Bool.noConfusion h⟩
    | none => exact ⟨fun h => Bool.noConfusion h, fun _ => rfl⟩

/-- Two network attributes of MCTP: one of two bytes, which is no use, and the number 8. -/
def sampleNets : List Attribute :=
  [⟨1, [7, 7], [0, 0], by decide, by decide⟩, ⟨1, [8, 0, 0, 0], [], by decide, by decide⟩]

/-- The address family that holds them. -/
def sampleFamily : FamilyAttribute .little where
  type := 45
  payload := sampleNets.flatMap (Attribute.bytes .little)
  padding := []
  short := by decide
  aligned := by decide
  nets := sampleNets
  filled _ := .cons _ (.cons _ .nil)

/-- The attribute of the link that holds the address family. -/
def sampleLink : LinkAttribute .little where
  type := 26
  payload := sampleFamily.bytes .little
  padding := []
  short := by decide
  aligned := by decide
  families := [sampleFamily]
  filled _ := .cons _ .nil

/-- An error message and a link message. -/
def sampleReply : Reply .little where
  messages := [
    { type := 2, header := List.replicate 10 0, body := List.replicate 20 0, attributes := [],
      header_length := by decide, aligned := by decide,
      filled := fun h => absurd h (by decide) },
    { type := 16, header := List.replicate 10 0,
      body := List.replicate 16 0 ++ sampleLink.bytes .little, attributes := [sampleLink],
      header_length := by decide, aligned := by decide,
      filled := fun _ => ⟨by decide, .cons _ .nil⟩ }]
  fits := by decide

theorem getMctpInterfaceNetId_sampleReply :
    ∃ answer, (getMctpInterfaceNetId .little (.overlay sampleReply.bytes fun _ => 0) 3 "mctp0"
        (.received sampleReply.bytes.length) 0).result = some answer ∧
      answer.found = true ∧ answer.out = 8 := by
  obtain ⟨answer, hresult, hfound, hfirst, -⟩ :=
    getMctpInterfaceNetId_finds_first .little sampleReply (fun _ => 0) 3 (by decide) "mctp0" 0
  have hyes : answer.found = true := by
    rw [hfound]
    exact ⟨_, .tail _ (.head _), rfl, sampleLink, .head _, rfl, sampleFamily, .head _, rfl,
      _, .tail _ (.head _), rfl, .inl (by decide)⟩
  obtain ⟨net, hnet, hout⟩ := hfirst hyes
  refine ⟨answer, hresult, hyes, hout.trans ?_⟩
  obtain rfl : _ = net := Option.some.inj hnet
  decide

end MctpSerial.MctpNetlink
