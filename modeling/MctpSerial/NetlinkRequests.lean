import MctpSerial.NetlinkReplies

/-!
# The requests sent over netlink

A request is built in a buffer of fixed size: the headers first, then attributes, each put
behind the end that `nlmsg_len` gives. None of the functions that append knows the size of
the buffer. A draft keeps a record of all that has been done to it, so that what is stored,
and where, can be compared with the size afterwards.
-/
namespace MctpSerial.MctpNetlink
open MemoryWalks

/-! ## Drafts -/

/-- What has been done to a request buffer. -/
inductive Effect where
  /-- So many bytes have been stored from `p` on. -/
  | stored (p count : ℕ)
  /-- `rta_len` has been set to `len`, for a payload of the given size. -/
  | rtaLen (len payload : ℕ)
  /-- `nlmsg_len` has been set to `len`. -/
  | nlmsgLen (len : ℕ)
  deriving DecidableEq

/-- A request buffer with its size. Stores behind the end of the buffer take effect here,
and are recorded like any other. -/
structure Draft where
  capacity : ℕ
  mem : Memory
  effects : List Effect

namespace Draft

/-- A new buffer, after `memset`. -/
def blank (capacity : ℕ) : Draft := ⟨capacity, fun _ => 0, []⟩

def record (d : Draft) (e : Effect) : Draft := { d with effects := d.effects ++ [e] }

def store (d : Draft) (p : ℕ) (bs : List (BitVec 8)) : Draft :=
  { d with mem := d.mem.write p bs }.record (.stored p bs.length)

@[simp] theorem record_mem (d : Draft) (e : Effect) : (d.record e).mem = d.mem := rfl

@[simp] theorem store_mem (d : Draft) (p : ℕ) (bs : List (BitVec 8)) :
    (d.store p bs).mem = d.mem.write p bs := rfl

/-- A call of `memcpy` for a length that is not zero or less. -/
def copy (d : Draft) (p : ℕ) (data : List (BitVec 8)) (datalen : ℤ) : Draft :=
  if 0 < datalen then d.store p (data.take datalen.toNat) else d

section
variable (o : ByteOrder)

/-- The field `nlmsg_len`. -/
def nlmsgLen (d : Draft) : ℕ := d.mem.number o 0 4

/-- The field `rta_len` of the attribute at `rta`. -/
def rtaLen (d : Draft) (rta : ℕ) : ℕ := d.mem.number o rta 2

/-- An assignment to `nlmsg_len`, which has 32 bits. -/
def setNlmsgLen (d : Draft) (len : ℤ) : Draft :=
  (d.store 0 (o.encode 4 (len % 2 ^ 32).toNat)).record (.nlmsgLen (len % 2 ^ 32).toNat)

/-- An assignment to `rta_len`, which has 16 bits. -/
def setRtaLen (d : Draft) (rta : ℕ) (len : ℤ) (payload : ℕ) : Draft :=
  (d.store rta (o.encode 2 (len % 2 ^ 16).toNat)).record (.rtaLen (len % 2 ^ 16).toNat payload)

/-- An assignment to `rta_type`. -/
def setRtaType (d : Draft) (rta type : ℕ) : Draft := d.store (rta + 2) (o.encode 2 type)

/-- What `sendmsg` is given. -/
def message (d : Draft) : List (BitVec 8) := d.mem.bytesAt 0 (d.nlmsgLen o)

end

end Draft

/-! ## Appending attributes -/

def nlaFNested : ℕ := 0x8000

/-- `RTA_LENGTH`. -/
def rtaLength (len : ℤ) : ℤ := rtattrSize + len

section
variable (o : ByteOrder)

/-- `nlaPut`. No data stands for a null pointer. `cur` is an `int`, but becomes unsigned
again in `NLMSG_ALIGN`. -/
def nlaPut (attrtype : ℕ) (data : List (BitVec 8)) (datalen : ℤ) (d : Draft) : Draft :=
  let cur := d.nlmsgLen o
  let rta := align cur
  let d := d.setRtaType o rta attrtype
  let d := d.setRtaLen o rta (rtaLength datalen) data.length
  let d := d.copy (rta + rtattrSize) data datalen
  d.setNlmsgLen o (align cur + align (d.rtaLen o rta))

/-- `nlaNestStart`, with the place of the nest. -/
def nlaNestStart (attrtype : ℕ) (d : Draft) : Draft × ℕ :=
  let cur := d.nlmsgLen o
  let rta := align cur
  let d := d.setRtaType o rta (attrtype ||| nlaFNested)
  let d := d.setRtaLen o rta (rtaLength 0) 0
  (d.setNlmsgLen o (align cur + rtaLength 0), cur)

/-- `nlaNestEnd`. The payload of a nest is all that stands behind its header. -/
def nlaNestEnd (start : ℕ) (d : Draft) : Draft :=
  let rta := align start
  let behind := (d.nlmsgLen o : ℤ) - (align start + rtaLength 0)
  let nestedLen := behind.bmod (2 ^ 32)
  let d := d.setRtaLen o rta (rtaLength nestedLen) behind.toNat
  d.setNlmsgLen o (align start + align (d.rtaLen o rta))

def addAttribute (attrtype : ℕ) (data : List (BitVec 8)) (datalen : ℤ) (d : Draft) : Draft :=
  nlaPut o attrtype data datalen d

/-! ## Headers -/

def afUnspec : ℕ := 0

def nlmFRequest : ℕ := 1
def nlmFAck : ℕ := 4
def nlmFExcl : ℕ := 0x200
def nlmFCreate : ℕ := 0x400

def rtmNewaddr : ℕ := 20
def rtmDeladdr : ℕ := 21
def rtmNewroute : ℕ := 24
def rtmDelroute : ℕ := 25

def iflaIfname : ℕ := 3
def ifaAddress : ℕ := 1
def ifaLocal : ℕ := 2
def rtaDst : ℕ := 1
def rtaOif : ℕ := 4

def rtTableMain : ℕ := 254
def rtprotBoot : ℕ := 3
def rtScopeUniverse : ℕ := 0
def rtnUnicast : ℕ := 1
def iffUp : BitVec 32 := 1

/-- The sizes of `ifaddrmsg` and `rtmsg`. -/
def ifaddrmsgSize : ℕ := 8
def rtmsgSize : ℕ := 12

/-- `NLMSG_LENGTH`. -/
def nlmsgLength (len : ℕ) : ℕ := len + headerSize

/-- The fields of `nlmsghdr` that a request sets; `size` is that of the header behind it. -/
def nlmsghdr (size flags type : ℕ) (d : Draft) : Draft :=
  ((d.setNlmsgLen o (nlmsgLength size)).store 6 (o.encode 2 flags)).store 4 (o.encode 2 type)

/-- `ifi_family` and `ifi_index`. -/
def ifinfomsg (family : ℕ) (index : BitVec 32) (d : Draft) : Draft :=
  (d.store headerSize (o.encode 1 family)).store (headerSize + 4) (o.encode 4 index.toNat)

def setIfiFlags (flags : BitVec 32) (d : Draft) : Draft :=
  d.store (headerSize + 8) (o.encode 4 flags.toNat)

def setIfiChange (change : BitVec 32) (d : Draft) : Draft :=
  d.store (headerSize + 12) (o.encode 4 change.toNat)

def ifaddrmsg (family prefixlen scope : ℕ) (index : BitVec 32) (d : Draft) : Draft :=
  (((d.store headerSize (o.encode 1 family)).store (headerSize + 1) (o.encode 1 prefixlen)).store
    (headerSize + 4) (o.encode 4 index.toNat)).store (headerSize + 3) (o.encode 1 scope)

def rtmsg (family table protocol scope type dstLen : ℕ) (d : Draft) : Draft :=
  (((((d.store headerSize (o.encode 1 family)).store (headerSize + 4) (o.encode 1 table)).store
    (headerSize + 5) (o.encode 1 protocol)).store (headerSize + 6) (o.encode 1 scope)).store
      (headerSize + 7) (o.encode 1 type)).store (headerSize + 1) (o.encode 1 dstLen)

end

/-! ## Sending -/

/-- How `openNetlink` ends. -/
inductive Opening where
  | opened
  | socketFailed (error : String)
  | bindFailed (error : String)

/-- What `openNetlink` prints. -/
def Opening.cerr : Opening → List String
  | .opened => []
  | .socketFailed error => openNetlinkErrors (.socketFailed error)
  | .bindFailed error => openNetlinkErrors (.bindFailed error)

/-- How the kernel answers one message: the type of the reply, and the error in it with the
text that `strerror` has for it. -/
inductive Ack where
  | sendmsgFailed (error : String)
  | recvFailed (error : String)
  | received (type : ℕ) (error : ℤ) (text : String)

/-- What a request meets: the index that the name of the interface has, the socket, the flags
of the interface, and the answers to the messages in the order in which they are sent. -/
structure Host where
  ifindex : BitVec 32
  opening : Opening
  flags : Answer
  acks : ℕ → Ack

/-- What a request returns and prints, the buffer as it leaves it, and the messages sent. -/
structure Outcome where
  ok : Bool
  cerr : List String
  draft : Option Draft
  sent : List (List (BitVec 8))

/-- `sendNetlinkMessage`. -/
def sendNetlinkMessage : Ack → Bool × List String
  | .sendmsgFailed error => (false, ["sendmsg failed: " ++ error ++ "\n"])
  | .recvFailed error => (false, ["recv ack failed: " ++ error ++ "\n"])
  | .received type error text =>
    if type = nlmsgError ∧ error ≠ 0 then (false, ["netlink error: " ++ text ++ "\n"])
    else (true, [])

/-- The beginning that all requests share. -/
def request (ifname : String) (host : Host) (transact : Outcome) : Outcome :=
  if host.ifindex = 0 then ⟨false, ["interface not found: " ++ ifname ++ "\n"], none, []⟩
  else
    match host.opening with
    | .opened => transact
    | failed => ⟨false, failed.cerr, none, []⟩

section
variable (o : ByteOrder)

/-- The end of the requests that send one message. -/
def Draft.send (host : Host) (d : Draft) : Outcome :=
  let (ok, cerr) := sendNetlinkMessage (host.acks 0)
  ⟨ok, cerr, some d, [d.message o]⟩

/-- The loop over the values of `ifi_change`, from turn `mi` on. -/
def tryMasks (acks : ℕ → Ack) : (mi : ℕ) → List (BitVec 32) → Draft → Outcome
  | _, [], d => ⟨false, [], some d, []⟩
  | mi, mask :: masks, d =>
    let d := setIfiChange o mask d
    let (ok, cerr) := sendNetlinkMessage (acks mi)
    if ok then ⟨true, cerr, some d, [d.message o]⟩
    else
      let rest := tryMasks acks (mi + 1) masks d
      ⟨rest.ok, cerr ++ rest.cerr, rest.draft, d.message o :: rest.sent⟩

/-! ## The requests -/

/-- `setMctpInterfaceName`. The name is followed by a zero, and its size is cast to `int`. -/
def setMctpInterfaceName (oldname : String) (newname : List (BitVec 8)) (host : Host) : Outcome :=
  request oldname host <|
    let d := Draft.blank 512
    let d := nlmsghdr o ifinfomsgSize (nlmFRequest ||| nlmFAck) rtmNewlink d
    let d := ifinfomsg o afUnspec host.ifindex d
    let d := setIfiChange o 0 d
    let d := addAttribute o iflaIfname (newname ++ [0])
      ((newname.length : ℤ).bmod (2 ^ 32) + 1) d
    d.send o host

/-- `setMctpInterfaceNetId`. The flags are zero if they cannot be had. -/
def setMctpInterfaceNetId (ifname : String) (net : BitVec 32) (host : Host) : Outcome :=
  request ifname host <|
    let d := Draft.blank 512
    let d := nlmsghdr o ifinfomsgSize (nlmFRequest ||| nlmFAck) rtmNewlink d
    let d := ifinfomsg o afUnspec host.ifindex d
    let curFlags := if host.flags.found then host.flags.out else 0
    let d := setIfiFlags o curFlags d
    let (d, startAfspec) := nlaNestStart o iflaAfSpec d
    let (d, startAf) := nlaNestStart o afMctp d
    let d := nlaPut o iflaMctpNet (o.encode 4 net.toNat) 4 d
    let d := nlaNestEnd o startAf d
    let d := nlaNestEnd o startAfspec d
    let r := tryMasks o host.acks 0 [0, curFlags ||| iffUp, 0xFFFFFFFF#32] d
    { r with cerr := host.flags.cerr ++ r.cerr }

def setMctpInterfaceStatus (ifname : String) (up : Bool) (host : Host) : Outcome :=
  request ifname host <|
    let d := Draft.blank 256
    let d := nlmsghdr o ifinfomsgSize (nlmFRequest ||| nlmFAck) rtmNewlink d
    let d := ifinfomsg o afUnspec host.ifindex d
    let d := setIfiFlags o (if up then iffUp else 0) d
    let d := setIfiChange o iffUp d
    d.send o host

/-- What `setMctpLocalEid` and `deleteMctpLocalEid` share. -/
def localEid (type : ℕ) (ifname : String) (eid : BitVec 8) (host : Host) : Outcome :=
  request ifname host <|
    let d := Draft.blank 256
    let d := nlmsghdr o ifaddrmsgSize (nlmFRequest ||| nlmFAck) type d
    let d := ifaddrmsg o afMctp 0 0 host.ifindex d
    let d := addAttribute o ifaLocal [eid] 1 d
    let d := addAttribute o ifaAddress [eid] 1 d
    d.send o host

def setMctpLocalEid : String → BitVec 8 → Host → Outcome := localEid o rtmNewaddr

def deleteMctpLocalEid : String → BitVec 8 → Host → Outcome := localEid o rtmDeladdr

/-- What `addMctpRoute` and `removeMctpRoute` share. -/
def mctpRoute (flags type : ℕ) (ifname : String) (destEid : BitVec 8) (host : Host) : Outcome :=
  request ifname host <|
    let d := Draft.blank 512
    let d := nlmsghdr o rtmsgSize flags type d
    let d := rtmsg o afMctp rtTableMain rtprotBoot rtScopeUniverse rtnUnicast 0 d
    let d := addAttribute o rtaDst [destEid] 1 d
    let d := addAttribute o rtaOif (o.encode 4 host.ifindex.toNat) 4 d
    d.send o host

def addMctpRoute : String → BitVec 8 → Host → Outcome :=
  mctpRoute o (nlmFRequest ||| nlmFCreate ||| nlmFExcl ||| nlmFAck) rtmNewroute

def removeMctpRoute : String → BitVec 8 → Host → Outcome :=
  mctpRoute o (nlmFRequest ||| nlmFAck) rtmDelroute

end

end MctpSerial.MctpNetlink
