import VmManager.Vm.Lifecycle

/-! The rest of the service: networks and their metadata servers, the guest's attestation requests,
Load with reattaching, and Close. At the end the machine that interleaves all of it. -/
namespace VmManager.Vm
open Encoding Attest Interleaving

/-- `ServeIMDS`; the listener cannot be opened on a closed network or one without metadata service. -/
def serveIMDS (name : String) : GoE Unit := do
  let running ← ExceptT.lift (Proc.step fun _ _ s =>
    if (s.imds.byName.get name).isSome then some (.net (.running name), true)
    else some (.read, false))
  if running then pure ()
  else
    let n ← getNetwork name
    ExceptT.mk <| Proc.step fun _ i s => match i, s.nets.net n with
      | .ok, some net =>
        if net.closed ∨ !net.spec.enableIMDS then some (.read, .error ("listen imds on " ++ name))
        else some (.read, .ok ())
      | .err text, _ => some (.read, .error text)
      | _, _ => none
    ExceptT.lift <| Proc.step fun _ _ s =>
      if (s.imds.byName.get name).isSome then some (.net (.running name), ())
      else some (.net (.serve name n), ())

def addNetwork (spec : Network.Spec) (leases : GoMap String Network.Addr) : GoE Unit :=
  ExceptT.mk <| Proc.step fun _ i s => match i with
  | .ok => if s.netMu ≠ none then none else match s.nets.add spec leases with
    | .ok _ => some (.net (.add spec leases), .ok ())
    | .error err => some (.read, .error err)
  | .err text => some (.read, .error text)
  | _ => none

/-- `Networks.Delete` up to the check of the leases; from there it holds the manager's lock. -/
def checkNetwork (name : String) : GoE Nat := ExceptT.mk <| Proc.step fun _ i s => match i with
  | .ok => if s.netMu ≠ none then none else match s.nets.check name with
    | .ok n => some (.net (.check name n), .ok n)
    | .error err => some (.net (.keep name), .error err)
  | .err text => some (.net (.keep name), .error text)
  | _ => none

def removeNetwork (name : String) : GoE Unit := do
  let n ← checkNetwork name
  ExceptT.mk <| Proc.step fun _ i _ => match i with
    | .ok => some (.net (.delete name n true), .ok ())
    | .err text => some (.net (.delete name n false), .error text)
    | _ => none

def createNetwork (spec : Network.Spec) : GoE Unit := do
  let spec := { spec with enableIMDS := true }
  addNetwork spec ∅
  match ← ExceptT.lift (serveIMDS spec.name).run with
  | .ok () => persistNetworks
  | .error err =>
    let _ ← ExceptT.lift (removeNetwork spec.name).run
    throw err

def shutServer : Option Nat → Go Unit
  | some k => perform (.net (.shutdown k))
  | none => pure ()

def deleteNetwork (name : String) : GoE Unit := do
  let users ← ExceptT.lift (look fun s =>
    (s.vms.entries.filter fun x => (s.record x.2).spec.network == name).map fun x =>
      (s.record x.2).spec.name)
  if users ≠ [] then
    throw ("conflict: network \"" ++ name ++ "\" is used by vm " ++
      ", ".intercalate (users.insertionSort (· ≤ ·)))
  else
    removeNetwork name
    let srv ← ExceptT.lift (Proc.step fun _ _ s =>
      some (.net (.unserve name (s.imds.byName.get name)), s.imds.byName.get name))
    ExceptT.lift (shutServer srv)
    persistNetworks

def openForward (e n : Nat) (ip : Network.Addr) : GoE Nat := ExceptT.mk <|
  Proc.step fun _ i s => match i, s.nets.net n with
  | .ok, some net =>
    if ip < net.layout.network ∨ net.layout.broadcast < ip then
      some (.read, .error ("invalid request: not an address of " ++ net.spec.name))
    else if net.closed then some (.read, .error ("conflict: network " ++ net.spec.name ++ " is closed"))
    else some (.forward (.opened e s.forwards.next), .ok s.forwards.next)
  | .err text, _ => some (.read, .error text)
  | _, _ => none

def forwardTo (e : Nat) (network : String) (ip : Network.Addr) : GoE Unit := do
  let n ← getNetwork network
  let k ← openForward e n ip
  perform (.forward (.register e k))

def noAddress (id : String) (r : VM) : String :=
  "conflict: vm " ++ id ++ " has no address (" ++ r.state.name ++ ")"

def forward (id : String) (port : Int) : GoE Unit := do
  if port < 1 ∨ port > 65535 then throw ("invalid request: port " ++ toString port ++ " out of range")
  else
    let e ← lookupEntry id
    let r ← record e
    match r.ip with
    | none => throw (noAddress id r)
    | some ip =>
      if r.state = .deleting then throw (noAddress id r) else forwardTo e r.spec.network ip

structure Instance where
  id : String
  name : String
  hostname : String
  region : String
  zone : String
  sshAuthorizedKeys : List String
  kubernetesVersion : String
  metadata : List (String × String)
  userData : Bytes
  userDataReleased : Bool

namespace System

def instanceOf (s : System) (e : Nat) : Instance :=
  let r := s.record e
  { id := r.id, name := r.spec.name, hostname := r.spec.hostname, region := r.spec.region
    zone := r.spec.zone, sshAuthorizedKeys := r.sshPublicKey :: r.spec.sshAuthorizedKeys
    kubernetesVersion := r.spec.kubernetesVersion, metadata := r.spec.metadata
    userData := (s.entries e).userData, userDataReleased := r.attestation.userDataReleased }

/-- The entries `LookupByIP` may return: it takes the first match of a map without order. -/
def lookupByIP (s : System) (addr : Network.Addr) : List Nat :=
  (s.vms.entries.map fun x => x.2).filter fun e =>
    (s.record e).ip == some addr && (s.record e).state != .deleting

end System

def resolveInstance (source : Network.Addr) : Go (Option String) := Proc.step fun _ i s =>
  match i with
  | .pick k => match s.lookupByIP source with
    | [] => some (.read, none)
    | es => es[k]?.map fun e => (.read, some (s.instanceOf e).id)
  | _ => none

def imdsNonce (source : Network.Addr) : Go Unit := do
  match ← resolveInstance source with
  | none => pure ()
  | some id =>
    Proc.step fun _ i _ => match i with
      | .text nonce => some (.attest (.issue id nonce), ())
      | _ => none
    Proc.step fun _ _ s => match s.vms.get id with
      | some e => some (.update e .nonceIssued, ())
      | none => some (.read, ())

def exportReport (id : String) (data : Bytes) : Go Unit := Proc.step fun _ i _ => match i with
  | .ok => some (.metrics (.store id data), ())
  | .err _ => some (.read, ())
  | _ => none

def imdsReport (source : Network.Addr) (data : Bytes) : Go Unit := do
  match ← resolveInstance source with
  | none => pure ()
  | some id =>
    let stored ← Proc.step fun _ _ s => match s.vms.get id with
      | some _ => if s.writable then some (.host (.writeReport id data), true)
        else some (.host .writeFailed, false)
      | none => some (.read, false)
    if stored then exportReport id data

def policyFor (cfg : Config) (s : System) (id : String) : Except PolicyError Policy :=
  match s.vms.get id with
  | none => .error (.other ("not found: vm \"" ++ id ++ "\""))
  | some e =>
    let r := s.record e
    match cfg.images (some r.spec.image) with
    | .error err => .error (.noPolicy ("no attestation policy: image " ++ r.spec.image ++ " of vm " ++
        id ++ ": " ++ err))
    | .ok img => match img.policy with
      | .error err => .error (.noPolicy ("no attestation policy: image " ++ img.ref ++ " " ++ err))
      | .ok p => .ok { p with kubernetesVersion := r.spec.kubernetesVersion }

def concurrent (cfg : Config) (id : String) : Access Go where
  now := Proc.step fun _ _ s => some (.attest (.submit id), s.clock)
  consume vmID nonce := Proc.step fun _ _ s =>
    let ok := (s.verifier.nonces.consume s.clock vmID nonce).1
    some (.attest (.consume vmID nonce ok), ok)
  policyFor vmID := look fun s => policyFor cfg s vmID
  pinned vmID := look fun s => s.verifier.pinned vmID
  enroll vmID stage fingerprint := Proc.step fun _ _ s =>
    let ok := (s.verifier.enroll vmID stage fingerprint).1
    some (.attest (.enroll vmID stage fingerprint ok), ok)
  store vmID stage r := perform (.attest (.store vmID stage r))

def imdsQuote (cfg : Config) (source : Network.Addr) (req : QuoteRequest) : Go Unit := do
  match ← resolveInstance source with
  | none => pure ()
  | some id =>
    match ← submitQuote (concurrent cfg id) cfg.tpm2 cfg.crypto cfg.attest id req with
    | .error _ => perform (.attest .submitDone)
    | .ok res =>
      let details ← Proc.step fun _ _ s =>
        let r := s.verifier.result id req.stage
        some (.attest (.details id req.stage r), (r, s.clock))
      let q : Quote :=
        { verified := res.verified, message := res.message, time := details.2
          akFingerprint := (details.1.map fun r => r.akFingerprint).getD []
          pcrs := (details.1.map fun r => r.pcrs).getD []
          learned := (details.1.map fun r => r.learned).getD [] }
      Proc.step fun _ i s => match i, s.vms.get id with
        | .console c, some e => some (.update e (.quoteRecorded req.stage q c), ())
        | .console _, none => some (.attest .submitDone, ())
        | _, _ => none

def attachTPM (tpm : Option Nat) : Go (Option Nat) := Proc.step fun _ i _ => match i with
  | .ok => some (.read, tpm)
  | .err _ => some (.read, none)
  | _ => none

/-- `Runtime.Attach`: the process the handle names, running or ended, or an error. An error may also
mean that it runs and does not answer. -/
def attachQemu (q : Nat) : GoE Unit := ExceptT.mk <| Proc.step fun _ i s => match i with
  | .ok => if q < s.nextQemu then some (.read, .ok ()) else none
  | .err text => some (.read, .error text)
  | _ => none

def resumeStop (p : Nat) (state : State) : Go Unit := do
  if state = .stopping then Proc.spawn fun _ _ _ _ => some (.read, (), [.resumeStop p])

def reattachOpened (e : Nat) (r : VM) (h : Processes) : GoE Unit := do
  let n ← getNetwork r.spec.network
  let _ ← attachNetwork e n r.id
  let tpm ← attachTPM h.tpm
  match ← ExceptT.lift (attachQemu h.qemu).run with
  | .error err =>
    stopTPM tpm
    throw err
  | .ok () =>
    subscribe e r.phase r.cid
    let p ← ExceptT.lift (Proc.step fun _ _ s =>
      some (.reattach e r.phase ⟨h.qemu, tpm⟩, s.nextProc))
    supervise e p
    resumeStop p r.state

def reattach (e : Nat) : GoE Unit := do
  let r ← record e
  match r.processes with
  | none => throw "no process handles recorded"
  | some h =>
    openVolume e
    match ← ExceptT.lift (reattachOpened e r h).run with
    | .ok () => pure ()
    | .error err =>
      closeVolume e
      throw err

def reattachLive (e : Nat) (live : Bool) : Go Unit := do
  if live then
    match ← (reattach e).run with
    | .ok () => pure ()
    | .error err => perform (.update e (.reattachFailed err))

def loadOne (id : String) : Go Unit := do
  let found ← Proc.step fun _ _ s => match s.disk.get id with
    | none => some (.loadSkip id, none)
    | some r =>
      if r.id = id then some (.loadEntry id r, some (s.nextEntry, r.loaded.state.live))
      else some (.loadSkip id, none)
  match found with
  | none => pure ()
  | some (e, live) =>
    reattachLive e live
    perform (.update e .resaved)

def loadAll : List String → Go Unit
  | [] => pure ()
  | id :: rest => do
    loadOne id
    loadAll rest

def restoreAll : List Network.State → GoE Unit
  | [] => pure ()
  | st :: rest => do
    addNetwork st.spec st.leases
    restoreAll rest

def serveAll : List Network.State → GoE Unit
  | [] => pure ()
  | st :: rest => do
    serveIMDS st.spec.name
    serveAll rest

def load : GoE Unit := do
  let states ← ExceptT.lift (Proc.step fun _ _ s =>
    some (.loadNetworks s.host.networksFile, s.host.networksFile))
  restoreAll states
  serveAll states
  let ids ← ExceptT.lift (Proc.step fun _ _ s =>
    let ids := s.disk.keys.insertionSort (· ≤ ·)
    some (.loadDirs ids, ids))
  loadAll ids
  perform .loaded

def closeStop (e owner : Nat) : Go Unit := do
  lock e
  let r ← record e
  let _ ← (stop r.id).run
  unlock e
  perform (.shutdown (.stopEnd owner e))

def cancelAndWait : Go Unit := do
  perform (.shutdown .cancel)
  Proc.step fun _ _ s => if s.close.wg = 0 then some (.read, ()) else none

def stopAll (entries : List Nat) : Go Unit := do
  Proc.spawn fun t _ _ _ =>
    some (.shutdown (.stopsBegin entries), (), entries.map fun e => .closeStop e t)
  Proc.step fun t _ s => if s.close.stops t = [] then some (.read, ()) else none
  cancelAndWait

def waitStarts : List Nat → Go Unit
  | [] => pure ()
  | e :: rest => do
    lock e
    unlock e
    waitStarts rest

def detachOne (e : Nat) : Go Unit := do
  let (proc, cid) ← look fun s => ((s.entries e).proc.map s.procs, (s.record e).cid)
  match proc with
  | none => pure ()
  | some pr =>
    perform (.shutdown (.detachQemu pr.handles.qemu))
    if pr.phase = .boot then perform (.notify (.unsubscribe .detach cid))

def detachEach : List Nat → Go Unit
  | [] => pure ()
  | e :: rest => do
    detachOne e
    detachEach rest

def detachAll (entries : List Nat) : Go Unit := do
  waitStarts entries
  cancelAndWait
  detachEach entries

def endAll (cfg : Config) (entries : List Nat) : Go Unit :=
  if cfg.detachOnClose then detachAll entries else stopAll entries

def shutEach : List Nat → Go Unit
  | [] => pure ()
  | k :: rest => do
    perform (.net (.shutdown k))
    shutEach rest

def closeServers : Go Unit := do
  let servers ← Proc.step fun _ _ s =>
    let ks := s.imds.byName.entries.map fun x => x.2
    some (.net (.closeServers ks), ks)
  shutEach servers

def close (cfg : Config) : Go Unit := do
  let entries ← Proc.step fun _ _ s =>
    let entries := s.vms.entries.map fun x => x.2
    some (.shutdown (.begins entries), entries)
  endAll cfg entries
  closeServers
  perform (.shutdown (.returns entries))

def ignore {α : Type} (x : GoE α) : Go Unit := do
  let _ ← x.run
  perform .returned

def answer (x : Go Unit) : Go Unit := do
  x
  perform .returned

def body (cfg : Config) : Call → Program
  | .create spec => (ignore (create cfg spec)).toProg
  | .start id => (ignore (start id)).toProg
  | .stop id => (ignore (stop id)).toProg
  | .reboot id => (ignore (reboot id)).toProg
  | .delete id => (ignore (delete id)).toProg
  | .close => (close cfg).toProg
  | .createNetwork spec => (ignore (createNetwork spec)).toProg
  | .deleteNetwork name => (ignore (deleteNetwork name)).toProg
  | .forward id port => (ignore (forward id port)).toProg
  | .nonce _ source => (answer (imdsNonce source)).toProg
  | .quote _ source req => (answer (imdsQuote cfg source req)).toProg
  | .report _ source data => (answer (imdsReport source data)).toProg
  | .deliver n => (perform (.notify (.deliver n))).toProg
  | .waitFor e w => (waitFor e w).toProg
  | .run e p due => (run cfg e p due).toProg
  | .closeStop e owner => (closeStop e owner).toProg
  | .resumeStop p => (stopProcess p).toProg
  | .load => (ignore load).toProg

def Servers.listens (imds : Servers) (n : Nat) : Bool :=
  (List.range imds.next).any fun k => (imds.all k).net == n && !(imds.all k).isShut

/-- Requests of the API come once Load has returned, metadata requests through the server of a
network. The other goroutines are started by the service. -/
def accepts (c : Call) (s : System) : Bool :=
  match c with
  | .create _ | .start _ | .stop _ | .reboot _ | .delete _ | .close | .createNetwork _
  | .deleteNetwork _ | .forward .. => s.serving
  | .nonce n _ | .quote n _ _ | .report n _ _ => s.imds.listens n
  | _ => false

/-- A new vm-manager begins with Load, and the listener handles every message on its own. -/
def Outside.starts (s : System) : Outside → List Call
  | .start => [.load]
  | .message q port status ready =>
    [.deliver { cid := (s.qemus q).cid, port, sender := q, status, ready }]
  | _ => []

def outside (x : Outside) (n : Nat) (s : System) : Option (System × List Call) :=
  (s.outside n x).map fun s' => (s'.noting x s, x.starts s)

def service (cfg : Config) : Machine System Answer Call Op Outside where
  body := body cfg
  effect := System.effect
  accepts := accepts
  env := outside
  halts
    | .crash => true
    | _ => false

end VmManager.Vm
