import VmManager.Attest.Policy
import VmManager.Network.Manager

/-! The VM record and what a caller asks for in Create: states, phases, the attestation summary of the
current boot and the validation of a specification. Times are nanoseconds of the clock. -/
namespace VmManager.Vm
open Encoding Attest

inductive State where
  | creating | installing | booting | attesting | ready | running | stopping | stopped | failed
  | deleting
deriving DecidableEq, Repr

namespace State

def name : State → String
  | creating => "creating" | installing => "installing" | booting => "booting"
  | attesting => "attesting" | ready => "ready" | running => "running" | stopping => "stopping"
  | stopped => "stopped" | failed => "failed" | deleting => "deleting"

def live : State → Bool
  | installing | booting | attesting | ready | running | stopping => true
  | _ => false

end State

inductive Phase where
  | install | boot
deriving DecidableEq, Repr

inductive WaitFor where
  | none | installed | attested | ready
  | unknown (text : String)
deriving DecidableEq, Repr

structure Spec where
  name : String
  image : String := ""
  kubernetesVersion : String := ""
  cpus : Int := 1
  memoryMiB : Int := 1024
  diskGiB : Int := 10
  network : String
  userData : Bytes := []
  sshAuthorizedKeys : List String := []
  hostname : String := ""
  metadata : List (String × String) := []
  region : String := ""
  zone : String := ""
  requireAttestation : Bool := false
  waitFor : WaitFor := .none
deriving DecidableEq, Repr

structure Quote where
  verified : Bool
  message : String
  time : Nat
  akFingerprint : Text := []
  pcrs : List (Nat × Text) := []
  learned : List Nat := []
deriving DecidableEq, Repr

structure Attestation where
  required : Bool := false
  userDataReleased : Bool := false
  nonceIssuedAt : Option Nat := none
  initrd : Option Quote := none
  ready : Option Quote := none
deriving DecidableEq, Repr

structure Processes where
  qemu : Nat
  tpm : Option Nat
deriving DecidableEq, Repr

/-- The persisted record. `serial` is not in the source: it numbers the VMs ever allocated, which tells
a VM from a later one that drew the same id. -/
structure VM where
  serial : Nat
  id : String
  spec : Spec
  state : State
  phase : Phase := .install
  ip : Option Network.Addr := none
  mac : List Nat := []
  cid : Nat
  machineID : String
  booted : Bool := false
  status : String := ""
  sshPublicKey : String := ""
  attestation : Attestation
  createdAt : Nat
  installedAt : Option Nat := none
  bootedAt : Option Nat := none
  readyAt : Option Nat := none
  lastError : String := ""
  processes : Option Processes := none
deriving DecidableEq, Repr

def maxCPUs : Int := 256
def minMemoryMiB : Int := 256
def maxDiskGiB : Int := 4096
def maxNameLen : Nat := 63

def validLabel (name : String) : Bool :=
  let cs := name.toList
  cs.head?.any Network.isAlnum && cs.getLast?.any Network.isAlnum &&
    cs.all fun c => Network.isAlnum c || c == '-'

namespace Spec

def problems (s : Spec) : List String :=
  let check (ok : Bool) (problem : String) : List String := if ok then [] else [problem]
  check (s.name.length ≤ maxNameLen && validLabel s.name)
      "name must be a DNS label (lowercase letters, digits, dashes)" ++
    check (s.hostname.length ≤ maxNameLen && validLabel s.hostname)
      "hostname must be a DNS label" ++
    check (1 ≤ s.cpus && s.cpus ≤ maxCPUs) "cpus must be 1..256" ++
    check (minMemoryMiB ≤ s.memoryMiB) "memoryMiB must be at least 256" ++
    check (1 ≤ s.diskGiB && s.diskGiB ≤ maxDiskGiB) "diskGiB must be 1..4096" ++
    check (s.network != "") "network is required" ++
    check (match s.waitFor with | .unknown _ => false | _ => true)
      "waitFor must be none, installed, attested or ready" ++
    (s.metadata.filter fun m => m.1 == "" || m.1.toList.any fun c =>
      c == '/' || c == ' ' || c == '\t' || c == '\n').map (fun m => "metadata key \"" ++ m.1 ++
        "\" must not be empty or contain slashes or spaces") ++
    check (s.sshAuthorizedKeys.all fun k => k.toList.all fun c => c != '\n' && c != '\r')
      "ssh authorized keys must be single lines"

def validate (s : Spec) : Except String Unit :=
  if s.problems = [] then .ok () else .error ("invalid request: " ++ "; ".intercalate s.problems)

def applyDefaults (s : Spec) (region : String) : Spec :=
  { s with
    hostname := if s.hostname = "" then s.name else s.hostname
    region := if s.region = "" then region else s.region
    zone := if s.zone = "" then s.network else s.zone }

end Spec

/-- A catalogued image; `policy` is what parsing and validating its policy.json gives, or the reason it
has none. -/
structure Image where
  ref : String
  kubernetesVersions : List String := []
  policy : Except String Policy := .error "has no policy.json"

/-- `resolveImage`: pins the image to its full reference and the version to one the image offers. -/
def resolveImage (images : Option String → Except String Image) (spec : Spec) : Except String (Spec × Image) :=
  match images (if spec.image = "" then none else some spec.image) with
  | .error err => .error ("invalid request: image \"" ++ spec.image ++ "\": " ++ err)
  | .ok img =>
    let spec := { spec with image := img.ref }
    if spec.kubernetesVersion = "" then
      .ok ({ spec with kubernetesVersion := img.kubernetesVersions.headD "" }, img)
    else if img.kubernetesVersions.contains spec.kubernetesVersion then .ok (spec, img)
    else .error ("invalid request: kubernetes version \"" ++ spec.kubernetesVersion ++
      "\" is not available for image " ++ img.ref ++ " (available: " ++
      ", ".intercalate img.kubernetesVersions ++ ")")

end VmManager.Vm
