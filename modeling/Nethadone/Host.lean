import Mathlib.Data.Multiset.Filter
import Nethadone.Daemon
import Nethadone.Fatal
import Nethadone.Qdisc

/-!
# What the process asks of its host

`createQdiscs` of `handlers/qdisc.go` and `Initialize` and `ApplyPolicies`
of `handlers/bpf.go`, request by request. The host is the kernel with its
traffic control objects, the BPF loader, the compiler and the file system;
it is a parameter, and answers each request as it likes (`Host`). What the
process relies on is `Host.Lawful`.

A request is made in one of two ways. Most end the process when they are
refused (`must`); the deletions are logged or dropped, and the process goes
on (`attempt`). The objects belong to the kernel and outlive the process,
so a start finds whatever an earlier one has left.
-/

namespace Nethadone

open Fatal

/-! ## Traffic control objects -/

structure Handle where
  major : BitVec 16
  minor : BitVec 16
deriving DecidableEq, Repr

/-- `netlink.HANDLE_ROOT`. -/
def Handle.root : Handle := ⟨0xffff, 0xffff⟩

/-- `netlink.HANDLE_CLSACT`. -/
def Handle.clsact : Handle := ⟨0xffff, 0xfff1⟩

/-- `core.BuildHandle(tc.HandleRoot, direction)`. -/
def Handle.ofDirection (direction : BitVec 16) : Handle := ⟨0xffff, direction⟩

def handleMinIngress : BitVec 16 := 0xfff2

def handleMinEgress : BitVec 16 := 0xfff3

/-- The two places of an interface where a tree of objects can be rooted. -/
inductive Hook where
  | root
  | clsact
deriving DecidableEq, Repr

/-- The tree that an object with this parent is in. -/
def Handle.hook (parent : Handle) : Hook :=
  if parent = Handle.root then .root
  else if parent.major = 0xffff then .clsact
  else .root

inductive BpfProgram where
  | udpDnsSniff
  | trafficMon
  | throttle (P : Program)
  | foreign (id : Nat)
deriving DecidableEq

structure Bpf where
  prog : BpfProgram
  flags : Nat
  name : Option Text
  classID : Option Handle
deriving DecidableEq

inductive TcKind where
  | htb (defcls : BitVec 16)
  | htbClass (rate ceil : Int)
  | prio
  | netem (latency jitter : Int)
  | clsact
  | filter (info : Nat) (bpf : Option Bpf)
  | other (kind : Text)
deriving DecidableEq

/-- An object as it was asked for. -/
structure TcObject where
  handle : Handle
  parent : Handle
  kind : TcKind
deriving DecidableEq

namespace TcObject

def hook (o : TcObject) : Hook := o.parent.hook

/-- The root of its tree. -/
def IsTop (o : TcObject) : Prop := o.parent = Handle.root ∨ o.parent = Handle.clsact

instance (o : TcObject) : Decidable o.IsTop :=
  inferInstanceAs (Decidable (o.parent = Handle.root ∨ o.parent = Handle.clsact))

def isFilter (o : TcObject) : Bool :=
  match o.kind with
  | .filter _ _ => true
  | _ => false

def isClass (o : TcObject) : Bool :=
  match o.kind with
  | .htbClass _ _ => true
  | _ => false

/-- The test in the loop of `cleanupThrottler`. -/
def isThrottle (o : TcObject) : Bool :=
  match o.kind with
  | .filter _ (some bpf) => bpf.name == some "throttle".toList
  | _ => false

end TcObject

/-! ## The host -/

/-- What is asked for besides traffic control objects. -/
inductive Work where
  | createTemp
  | render
  | clang
  | getTcnl
  | loadDnspkt
  | loadTrafficmon
  | loadSpec
  | loadAndAssign
deriving DecidableEq

inductive Request where
  | qdiscDel (link : Int) (parent : Handle)
  | add (link : Int) (o : TcObject)
  | filterDelete (link : Int) (o : TcObject)
  | work (w : Work)

abbrev Place := Int × Hook

abbrev Trees := Place → Multiset TcObject

/-- `κ` is all that the answers can depend on. `send` says whether the request was
accepted; `trees` are the objects configured by someone, without those the
kernel makes up itself; `index` is the number of an interface. -/
structure Host (κ : Type) where
  send : κ → Request → Bool × κ
  interfaceByName : κ → Text → Option Int
  listFilters : κ → Int → Handle → Option (List TcObject)
  trees : κ → Trees
  index : Text → Int

/-- A refused request changes no object. With the qdisc at a hook goes everything
below it, and a second one is not put over it. -/
structure Host.Lawful {κ : Type} (H : Host κ) : Prop where
  refused : ∀ {k r k'}, H.send k r = (false, k') → H.trees k' = H.trees k
  worked : ∀ {k w k'}, H.send k (.work w) = (true, k') → H.trees k' = H.trees k
  qdiscDel : ∀ {k link parent k'}, H.send k (.qdiscDel link parent) = (true, k') →
    H.trees k' = Function.update (H.trees k) (link, parent.hook) 0
  add : ∀ {k link o k'}, H.send k (.add link o) = (true, k') →
    H.trees k' = Function.update (H.trees k) (link, o.hook) (o ::ₘ H.trees k (link, o.hook))
  occupied : ∀ {k link o k'}, H.send k (.add link o) = (true, k') → o.IsTop →
    H.trees k (link, o.hook) = 0
  filterDelete : ∀ {k link o k'}, H.send k (.filterDelete link o) = (true, k') →
    H.trees k' = Function.update (H.trees k) (link, o.hook) ((H.trees k (link, o.hook)).erase o)
  listFilters : ∀ {k link parent fs}, H.listFilters k link parent = some fs →
    (fs : Multiset TcObject)
      = (H.trees k (link, parent.hook)).filter fun o => o.isFilter = true ∧ o.parent = parent
  interface : ∀ {k name i}, H.interfaceByName k name = some i → i = H.index name

/-! ## The objects of the program -/

/-- `htb default 10` at the root. -/
def rootQdisc : TcObject := ⟨⟨1, 0⟩, Handle.root, .htb 0x10⟩

def rootClass : TcObject := ⟨⟨1, 1⟩, ⟨1, 0⟩, .htbClass (100 * mBit) (100 * mBit)⟩

def bpfQdisc : TcObject := ⟨⟨0xffff, 0⟩, Handle.clsact, .clsact⟩

def LeafClass.classObject (c : LeafClass) : TcObject :=
  ⟨⟨1, c.handle⟩, ⟨1, 1⟩, .htbClass c.rate c.ceil⟩

def LeafClass.qdiscObject (c : LeafClass) : TcObject :=
  ⟨⟨c.handle, 0⟩, ⟨1, c.handle⟩,
    match c.kind with
    | .netem => .netem c.latency c.jitter
    | .prio => .prio⟩

def dnsSniffer (direction : BitVec 16) : TcObject :=
  ⟨⟨0, 0⟩, Handle.ofDirection direction, .filter 0x300 (some ⟨.udpDnsSniff, 1, none, none⟩)⟩

def trafficMonitor (direction : BitVec 16) : TcObject :=
  ⟨⟨0, 0⟩, Handle.ofDirection direction, .filter 0x300 (some ⟨.trafficMon, 1, none, none⟩)⟩

def throttler (P : Program) : TcObject :=
  ⟨⟨0, 1⟩, ⟨1, 0⟩,
    .filter 0x300 (some ⟨.throttle P, 1, some "throttle".toList, some ⟨1, 0⟩⟩)⟩

/-! ## The requests, in order -/

structure Interfaces where
  wanInterface : Text
  lanInterface : Text

namespace Host

variable {κ : Type} (H : Host κ)

/-- A request whose failure the process survives. -/
def attempt (r : Request) : Prog κ Bool := modifyGet fun k => H.send k r

/-- A request whose failure ends the process. -/
def must (r : Request) : Prog κ Unit := do
  unless ← H.attempt r do failure

def getInterface (name : Text) : Prog κ Int := do
  match H.interfaceByName (← get) name with
  | some i => pure i
  | none => failure

def getFilters (link : Int) (parent : Handle) : Prog κ (List TcObject) := do
  match H.listFilters (← get) link parent with
  | some fs => pure fs
  | none => failure

def recreateBpfQdisc (iface : Int) : Prog κ Unit := do
  let _ ← H.attempt (.qdiscDel iface Handle.clsact)
  H.must (.add iface bpfQdisc)

def createLeafQdiscs (leaves : List LeafConfig) : Prog κ Unit :=
  (Nethadone.createLeafQdiscs leaves).forM fun c => do
    H.must (.add c.iface c.classObject)
    H.must (.add c.iface c.qdiscObject)

def createQdiscs (cfg : Config) (ifs : Interfaces) : Prog κ Unit := do
  let lan ← H.getInterface ifs.lanInterface
  let _ ← H.attempt (.qdiscDel lan Handle.root)
  H.must (.add lan rootQdisc)
  H.must (.add lan rootClass)
  H.createLeafQdiscs (generateQdiscLeafNodes cfg lan)
  H.recreateBpfQdisc lan
  let wan ← H.getInterface ifs.wanInterface
  H.recreateBpfQdisc wan

def rebuildBpf (rules : List IpPolicy) : Prog κ Program := do
  H.must (.work .render)
  H.must (.work .clang)
  match compile rules with
  | some P => pure P
  | none => failure

/-- A deletion that fails is passed over. -/
def cleanupThrottler (iface : Int) : Prog κ Unit := do
  H.must (.work .getTcnl)
  let tfilt ← H.getFilters iface ⟨1, 0⟩
  tfilt.forM fun tobj => do
    if tobj.isThrottle then
      let _ ← H.attempt (.filterDelete iface tobj)

def reattachThrottler (P : Program) (ifname : Text) : Prog κ Unit := do
  H.must (.work .getTcnl)
  let iface ← H.getInterface ifname
  H.cleanupThrottler iface
  H.must (.work .loadSpec)
  H.must (.work .loadAndAssign)
  H.must (.add iface (throttler P))

def applyPolicies (ifs : Interfaces) (ipPolicies : List IpPolicy) : Prog κ Unit := do
  H.must (.work .createTemp)
  H.must (.work .createTemp)
  let P ← H.rebuildBpf ipPolicies
  H.reattachThrottler P ifs.lanInterface

/-- `attachDnsSniffer` and `attachTrafficMonitor`, which differ in the filter. -/
def attachFilter (ifname : Text) (filter : TcObject) : Prog κ Unit := do
  H.must (.work .getTcnl)
  let iface ← H.getInterface ifname
  H.must (.add iface filter)

def attachDnsSniffer (ifname : Text) (direction : BitVec 16) : Prog κ Unit :=
  H.attachFilter ifname (dnsSniffer direction)

def attachTrafficMonitor (ifname : Text) (direction : BitVec 16) : Prog κ Unit :=
  H.attachFilter ifname (trafficMonitor direction)

def handlersInitialize (cfg : Config) (ifs : Interfaces) : Prog κ Unit := do
  H.createQdiscs cfg ifs
  H.must (.work .loadDnspkt)
  H.must (.work .loadTrafficmon)
  H.attachDnsSniffer ifs.wanInterface handleMinEgress
  H.attachDnsSniffer ifs.wanInterface handleMinIngress
  H.attachTrafficMonitor ifs.lanInterface handleMinEgress
  H.applyPolicies ifs initialRules

end Host

end Nethadone
