import Mathlib.Algebra.Group.Nat.Defs
import VmManager.Data.GoMap

/-! The virtual networks: the addressing of a network, the leases its VMs hold and the manager that
owns the networks of one process. An IPv4 address is its number. A network object outlives its name:
a goroutine that looked it up keeps it after it was deleted, closed. -/
namespace VmManager

namespace Network

abbrev Addr := Nat

def minPrefixBits : Nat := 16
def maxPrefixBits : Nat := 29

def linkLocalFirst : Addr := 0xa9fe0000
def linkLocalLast : Addr := 0xa9feffff

structure Prefix where
  addr : Addr
  bits : Nat
deriving DecidableEq, Repr

structure Spec where
  name : String
  cidr : Prefix
  gatewayIP : Option Addr := none
  dnsSearchDomain : String := ""
  enableIMDS : Bool := false
  enableHostAlias : Bool := false
deriving DecidableEq, Repr

structure Layout where
  network : Addr
  gateway : Addr
  host : Addr
  broadcast : Addr
deriving DecidableEq, Repr

def isAlnum (c : Char) : Bool := ('a' ≤ c && c ≤ 'z') || ('0' ≤ c && c ≤ '9')

def validName (name : String) : Bool :=
  let cs := name.toList
  cs.length ≤ 63 && cs.head?.any isAlnum && cs.getLast?.any isAlnum &&
    cs.all fun c => isAlnum c || c == '-'

def resolve (spec : Spec) : Except String Layout := do
  if !validName spec.name then
    throw ("invalid request: name \"" ++ spec.name ++ "\" must be a DNS label")
  if spec.cidr.bits < minPrefixBits ∨ spec.cidr.bits > maxPrefixBits then
    throw "invalid request: cidr must be between /16 and /29"
  let size := 2 ^ (32 - spec.cidr.bits)
  let network := spec.cidr.addr / size * size
  let broadcast := network + size - 1
  if network ≤ linkLocalLast ∧ linkLocalFirst ≤ broadcast then
    throw "invalid request: cidr overlaps the link-local range reserved for IMDS"
  let host := broadcast - 1
  match spec.gatewayIP with
  | none => pure { network, gateway := network + 1, host, broadcast }
  | some gateway =>
    if network < gateway ∧ gateway < host then pure { network, gateway, host, broadcast }
    else throw "invalid request: gateway must be a host address of the network other than the host alias"

def Layout.pool (l : Layout) : List Addr :=
  ((List.range (l.broadcast - l.network - 1)).map fun i => l.network + 1 + i).filter fun ip =>
    ip != l.gateway && ip != l.host

structure State where
  spec : Spec
  leases : GoMap String Addr
deriving DecidableEq

structure Net where
  spec : Spec
  layout : Layout
  leases : GoMap String Addr := ∅
  closed : Bool := false

def fnv32a (name : String) : Nat :=
  name.toUTF8.toList.foldl (fun h b => (Nat.xor h b.toNat * 16777619) % 2 ^ 32) 2166136261

def macFor (name : String) (ip : Addr) : List Nat :=
  [0x02, fnv32a name % 256, ip / 2 ^ 24 % 256, ip / 2 ^ 16 % 256, ip / 2 ^ 8 % 256, ip % 256]

def imdsIP : Addr := 0xa9fea9fe
def loopback : Addr := 0x7f000001
def mtu : Nat := 1500

structure Configuration where
  mtu : Nat
  subnet : Prefix
  gatewayIP : Addr
  gatewayMacAddress : List Nat
  gatewayVirtualIPs : List Addr
  dhcpStaticLeases : GoMap Addr (List Nat)
  nat : GoMap Addr Addr
  dnsSearchDomains : List String

/-- Every address of the pool has its MAC; the library would lease the host alias and the broadcast
address to a MAC it does not know, so both have one too. -/
def staticLeases (spec : Spec) (l : Layout) : GoMap Addr (List Nat) :=
  let static : GoMap Addr (List Nat) := l.pool.foldl (fun m ip => m.insert ip (macFor spec.name ip)) ∅
  (static.insert l.host (macFor spec.name l.host)).insert l.broadcast (macFor spec.name l.broadcast)

def configuration (spec : Spec) (l : Layout) : Configuration where
  mtu := mtu
  subnet := ⟨l.network, spec.cidr.bits⟩
  gatewayIP := l.gateway
  gatewayMacAddress := macFor spec.name l.gateway
  gatewayVirtualIPs := l.host :: if spec.enableIMDS then [imdsIP] else []
  dhcpStaticLeases := staticLeases spec l
  nat := if spec.enableHostAlias then AList.insert l.host loopback ∅ else ∅
  dnsSearchDomains := if spec.dnsSearchDomain = "" then [] else [spec.dnsSearchDomain]

def Prefix.poolSize (p : Prefix) : Nat := 2 ^ (32 - p.bits) - 4

structure Attachment where
  vmID : String
  mac : List Nat
  ip : Addr

namespace Net

def attachment (n : Net) (vmID : String) (ip : Addr) : Attachment :=
  { vmID, mac := macFor n.spec.name ip, ip }

def freeAddr (n : Net) : Option Addr := n.layout.pool.find? fun ip => !(n.leases.entries.any fun l => l.2 == ip)

def attach (n : Net) (vmID : String) : Except String (Addr × Net) :=
  if vmID = "" then .error "invalid request: vm id is empty"
  else if n.closed then .error ("conflict: network " ++ n.spec.name ++ " is closed")
  else match n.leases.get vmID with
    | some ip => .ok (ip, n)
    | none => match n.freeAddr with
      | none => .error ("conflict: network " ++ n.spec.name ++ " has no free address")
      | some ip => .ok (ip, { n with leases := n.leases.insert vmID ip })

def detach (n : Net) (vmID : String) : Net := { n with leases := n.leases.erase vmID }

def state (n : Net) : State := ⟨n.spec, n.leases⟩

end Net

def parseLeases (l : Layout) (leases : GoMap String Addr) : Except String (GoMap String Addr) :=
  if leases.entries.any fun e => e.1 == "" then .error "invalid request: lease has an empty vm id"
  else if leases.entries.any fun e => !l.pool.contains e.2 then
    .error "invalid request: lease is outside the pool"
  else if (leases.entries.map fun e => e.2).Nodup then .ok leases
  else .error "invalid request: lease held by two vms"

def newNetwork (spec : Spec) (leases : GoMap String Addr) : Except String Net := do
  let layout ← resolve spec
  let restored ← parseLeases layout leases
  pure { spec, layout, leases := restored }

structure Manager where
  byName : GoMap String Nat := ∅
  heap : Nat → Option Net := fun _ => none
  next : Nat := 0

namespace Manager

def get (m : Manager) (name : String) : Option Nat := m.byName.get name

def net (m : Manager) (ref : Nat) : Option Net := m.heap ref

def set (m : Manager) (ref : Nat) (n : Net) : Manager :=
  { m with heap := Function.update m.heap ref (some n) }

def find (m : Manager) (name : String) : Option Net := (m.get name).bind m.net

def add (m : Manager) (spec : Spec) (leases : GoMap String Addr) : Except String Manager :=
  if (m.byName.get spec.name).isSome then .error ("conflict: network \"" ++ spec.name ++ "\" already exists")
  else do
    let n ← newNetwork spec leases
    pure { byName := m.byName.insert spec.name m.next, heap := Function.update m.heap m.next (some n),
           next := m.next + 1 }

def restore (m : Manager) : List State → Except String Manager
  | [] => .ok m
  | st :: states => match m.add st.spec st.leases with
    | .ok m' => m'.restore states
    | .error err => .error ("restore network \"" ++ st.spec.name ++ "\": " ++ err)

/-- The first half of `Delete`, under the manager's lock: the network of the name, unless VMs are
attached to it. -/
def check (m : Manager) (name : String) : Except String Nat :=
  match m.get name with
  | none => .error ("not found: network \"" ++ name ++ "\"")
  | some ref => match m.net ref with
    | none => .error ("not found: network \"" ++ name ++ "\"")
    | some n =>
      if n.leases.entries ≠ [] then
        .error ("conflict: network \"" ++ name ++ "\" has " ++ toString n.leases.entries.length ++
          " attached VMs")
      else .ok ref

def delete (m : Manager) (name : String) (ref : Nat) : Manager :=
  match m.net ref with
  | none => m
  | some n => { m.set ref { n with closed := true } with byName := m.byName.erase name }

def attach (m : Manager) (ref : Nat) (vmID : String) : Manager :=
  match m.net ref with
  | none => m
  | some n => match n.attach vmID with
    | .error _ => m
    | .ok (_, n') => m.set ref n'

def detach (m : Manager) (ref : Nat) (vmID : String) : Manager :=
  match m.net ref with
  | none => m
  | some n => m.set ref (n.detach vmID)

def leaseOf (m : Manager) (name vmID : String) : Option (Nat × Addr) := do
  let ref ← m.get name
  let n ← m.net ref
  let ip ← n.leases.get vmID
  pure (ref, ip)

def states (m : Manager) : List State :=
  (m.byName.keys.insertionSort (· ≤ ·)).filterMap fun name => (m.find name).map Net.state

end Manager

end Network

end VmManager
