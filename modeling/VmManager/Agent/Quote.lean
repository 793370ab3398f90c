import Mathlib.Algebra.Group.Nat.Defs
import Mathlib.Data.Nat.Bits
import VmManager.Attest.Verdict
import VmManager.Data.GoMap
import VmManager.Interleaving.Sequential

/-! The guest half of the attestation: the agent has the TPM of its VM make the attestation key, read
the PCRs and quote them. What the TPM and go-tpm do is a parameter. -/
namespace VmManager.Agent
open Encoding Tpmquote Attest Interleaving

def algSHA256 : UInt16 := 0x000b
def bankAlg : UInt16 := algSHA256
def akHandle : UInt32 := 0x81010002
def ekHandle : UInt32 := 0x81010001
def defaultDevice : String := "/dev/tpmrm0"
def defaultFirmwareLog : String := "/sys/kernel/security/tpm0/binary_bios_measurements"
def defaultUserspaceLog : String := "/run/log/systemd/tpm2-measure.log"
def maxEventLogBytes : Nat := 4 * 2 ^ 20

structure Failure where
  text : String
  handle : Bool := false

def Failure.wrap (context : String) (f : Failure) : Failure := { f with text := context ++ f.text }

abbrev Go (σ α : Type) := Sequential σ Failure α

deriving instance DecidableEq for ObjectAttributes

structure OtherAttributes where
  stClear : Bool := false
  userWithAuth : Bool := false
  adminWithPolicy : Bool := false
  noDA : Bool := false
  encryptedDuplication : Bool := false
  x509Sign : Bool := false
deriving DecidableEq

structure Area extends Public where
  nameAlg : UInt16
  otherAttributes : OtherAttributes
  /-- The hash of an ECDSA scheme, or go-tpm's error. -/
  schemeHash : Except String UInt16

structure Template where
  type : UInt16
  nameAlg : UInt16
  objectAttributes : ObjectAttributes
  otherAttributes : OtherAttributes
  eccDetail : ECCDetail
  schemeHash : UInt16

def akTemplate : Template where
  type := algECC
  nameAlg := algSHA256
  objectAttributes :=
    { fixedTPM := true, fixedParent := true, sensitiveDataOrigin := true, restricted := true
      signEncrypt := true, decrypt := false }
  otherAttributes := { userWithAuth := true, noDA := true }
  eccDetail := ⟨eccNistP256, algECDSA⟩
  schemeHash := algSHA256

inductive Hierarchy where
  | owner | endorsement

inductive Primary where
  | eccSRK | rsaEK

structure Object where
  handle : UInt32
  name : Bytes

structure ReadPublicResponse where
  bytes : Bytes
  contents : Except String Area
  name : Bytes

structure PCRReadResponse where
  selectionOut : List PCRSelection
  digests : List Bytes

structure QuoteResponse where
  quoted : Bytes
  signature : Signature

/-- The commands of a TPM whose states are `σ`. A command may fail and may change the state. -/
structure TPM (σ : Type) where
  readPublic : UInt32 → σ → Except Failure ReadPublicResponse × σ
  createPrimary : Hierarchy → Primary → σ → Except Failure (Object × Bytes) × σ
  create : Object → Template → σ → Except Failure (Bytes × Bytes) × σ
  load : Object → Bytes → Bytes → σ → Except Failure Object × σ
  evictControl : Hierarchy → Object → UInt32 → σ → Except Failure Unit × σ
  flushContext : UInt32 → σ → Except Failure Unit × σ
  pcrRead : List PCRSelection → σ → Except Failure PCRReadResponse × σ
  /-- The scheme is left to the key. -/
  quote : Object → Bytes → List PCRSelection → σ → Except Failure QuoteResponse × σ

structure GoTPM extends TPM2 where
  marshalSignature : Signature → Bytes
  attributesText : ObjectAttributes → OtherAttributes → String

section keys
variable {σ : Type} (G : GoTPM) (tpm : TPM σ)

def matchesAKTemplate (pub : Area) : Except String Unit := do
  let want := akTemplate
  require (pub.type = want.type)
    ("type " ++ toString pub.type ++ ", want " ++ toString want.type)
  require (pub.nameAlg = want.nameAlg)
    ("name algorithm " ++ toString pub.nameAlg ++ ", want " ++ toString want.nameAlg)
  require (pub.objectAttributes = want.objectAttributes ∧ pub.otherAttributes = want.otherAttributes)
    ("attributes " ++ G.attributesText pub.objectAttributes pub.otherAttributes ++ ", want " ++
      G.attributesText want.objectAttributes want.otherAttributes)
  let got ← pub.eccDetail.mapError fun err => "ecc parameters: " ++ err
  require (got.curveID = want.eccDetail.curveID)
    ("curve " ++ toString got.curveID ++ ", want " ++ toString want.eccDetail.curveID)
  require (got.scheme = want.eccDetail.scheme)
    ("scheme " ++ toString got.scheme ++ ", want " ++ toString want.eccDetail.scheme)
  let gotHash ← pub.schemeHash.mapError fun err => "scheme details: " ++ err
  require (gotHash = want.schemeHash)
    ("scheme hash " ++ toString gotHash ++ ", want " ++ toString want.schemeHash)

structure AK where
  object : Object
  pub : Area
  publicBytes : Bytes

def readAK : Go σ AK := do
  let rsp ← (Sequential.command (tpm.readPublic akHandle)).mapError
    (Failure.wrap "read public 0x81010002: ")
  let pub ← .ofExcept (rsp.contents.mapError fun err => ⟨"decode public 0x81010002: " ++ err, false⟩)
  .ofExcept ((matchesAKTemplate G pub).mapError fun err =>
    ⟨"persistent object is not the vm-manager attestation key at 0x81010002: " ++ err, false⟩)
  pure { object := ⟨akHandle, rsp.name⟩, pub, publicBytes := G.marshal pub.toPublic }

def flush (h : UInt32) : Go σ Unit := .command (tpm.flushContext h)

def createAK : Go σ Unit := do
  let (srk, _) ← (Sequential.command (tpm.createPrimary .owner .eccSRK)).mapError
    (Failure.wrap "create srk: ")
  Sequential.deferring (flush tpm srk.handle) do
    let created ← (Sequential.command (tpm.create srk akTemplate)).mapError
      (Failure.wrap "create ak: ")
    let loaded ← (Sequential.command (tpm.load srk created.1 created.2)).mapError
      (Failure.wrap "load ak: ")
    Sequential.deferring (flush tpm loaded.handle) <|
      (Sequential.command (tpm.evictControl .owner loaded akHandle)).mapError
        (Failure.wrap "persist ak at 0x81010002: ")

def ensureAK : Go σ AK :=
  tryCatch (readAK G tpm) fun err => do
    if !err.handle then throw err
    createAK tpm
    readAK G tpm

def ekPublic : Go σ Bytes :=
  tryCatch
    (do
      let rsp ← Sequential.command (tpm.readPublic ekHandle)
      pure rsp.bytes)
    fun err => do
      if !err.handle then throw (err.wrap "read public 0x81010001: ")
      let (ek, pub) ← (Sequential.command (tpm.createPrimary .endorsement .rsaEK)).mapError
        (Failure.wrap "create ek: ")
      Sequential.deferring (flush tpm ek.handle) (pure pub)

end keys

section pcrs

def pcClientCompatible (pcrs : List Nat) : Bytes :=
  (List.range (max 3 (pcrs.max?.getD 0 / 8 + 1))).map fun k =>
    UInt8.ofNat (Nat.ofBits fun bit : Fin 8 => decide (k * 8 + bit.val ∈ pcrs))

def selection (alg : UInt16) (pcrs : List Nat) : List PCRSelection := [⟨alg, pcClientCompatible pcrs⟩]

def selected (sel : List PCRSelection) (alg : UInt16) : List Nat :=
  sel.flatMap fun s => if s.hash ≠ alg then [] else selectedIndexes s.pcrSelect

def without (pcrs : List Nat) (known : GoMap Nat Bytes) : List Nat := pcrs.filter fun p => (known.get p).isNone

def listText (l : List Nat) : String := "[" ++ " ".intercalate (l.map toString) ++ "]"

variable {σ : Type} (tpm : TPM σ)

/-- The rounds of `readPCRs`, with the values read and the indexes that remain. The first argument
bounds the rounds; Go has no bound. -/
def readRounds (alg : UInt16) : Nat → GoMap Nat Bytes → List Nat → Go σ (GoMap Nat Bytes)
  | _, values, [] => pure values
  | 0, _, _ :: _ => .forever
  | rounds + 1, values, i :: rest => do
    let remaining := i :: rest
    let rsp ← Sequential.command (tpm.pcrRead (selection alg remaining))
    let got := selected rsp.selectionOut alg
    if got.length = 0 ∨ got.length ≠ rsp.digests.length then
      throw ⟨"pcr read of " ++ listText remaining ++ " returned " ++ toString got.length ++
        " selections and " ++ toString rsp.digests.length ++ " digests", false⟩
    let values := (got.zip rsp.digests).foldl (fun m e => m.insert e.1 e.2) values
    readRounds alg rounds values (without remaining values)

def readPCRs (rounds : Nat) (alg : UInt16) (pcrs : List Nat) : Go σ (GoMap Nat Bytes) :=
  readRounds tpm alg rounds ∅ pcrs

def hexPCRs (values : GoMap Nat Bytes) : List (String × Text) :=
  values.entries.map fun e => (toString e.1, encodeToString e.2)

end pcrs

def decodeNonce (nonce : Text) : Except String Bytes :=
  if nonce = [] then .error "empty nonce"
  else match decodeString nonce with
    | none => .error "nonce is not hex"
    | some raw => .ok raw

def stageSelection (stage : Stage) : Except String (List Nat) :=
  match stage with
  | .initrd => .ok [0, 1, 2, 3, 4, 5, 6, 7, 11]
  | .ready => .ok [0, 1, 2, 3, 4, 5, 6, 7, 11, 13]
  | stage => .error ("unknown stage \"" ++ stage.name ++ "\"")

section build
variable {σ : Type}

inductive LogFile where
  | missing
  | closed (err : String)
  | broken (err : String)
  | data (b : Bytes)

structure Host (σ : Type) where
  isSocket : String → Bool
  /-- The device, or the socket of a swtpm. -/
  openDevice : Bool → String → Except String (TPM σ)
  log : String → LogFile

structure Options (σ : Type) where
  tpm : Option (TPM σ) := none
  device : String := ""
  firmwareLog : String := ""
  userspaceLog : String := ""

def orDefault (v dflt : String) : String := if v = "" then dflt else v

variable (G : GoTPM) (host : Host σ) (opts : Options σ)

def openTPM : Except Failure (TPM σ) :=
  match opts.tpm with
  | some tpm => .ok tpm
  | none =>
    let dev := orDefault opts.device defaultDevice
    (host.openDevice (host.isSocket dev) dev).mapError fun err =>
      ⟨"open tpm " ++ dev ++ ": " ++ err, false⟩

def readOptional (path : String) : Except Failure Bytes :=
  match host.log path with
  | .missing => .ok []
  | .closed err | .broken err => .error ⟨"read event log " ++ path ++ ": " ++ err, false⟩
  | .data b =>
    if maxEventLogBytes < b.length then
      .error ⟨"read event log " ++ path ++ ": larger than " ++ toString maxEventLogBytes ++ " bytes",
        false⟩
    else .ok b

structure BuiltRequest extends QuoteRequest where
  ekPub : Bytes
  eventLog : Bytes := []
  userspaceLog : Bytes := []

def attachLogs (req : BuiltRequest) : Except Failure BuiltRequest :=
  if host.isSocket (orDefault opts.device defaultDevice) then .ok req
  else do
    let eventLog ← readOptional host (orDefault opts.firmwareLog defaultFirmwareLog)
    let userspaceLog ← readOptional host (orDefault opts.userspaceLog defaultUserspaceLog)
    pure { req with eventLog, userspaceLog }

def buildWith (tpm : TPM σ) (ak : AK) (rounds : Nat) (stage : Stage) (nonce : Text)
    (qualifying : Bytes) (pcrs : List Nat) : Go σ BuiltRequest := do
  let ekPub ← (ekPublic tpm).mapError (Failure.wrap "endorsement key: ")
  let values ← (readPCRs tpm rounds bankAlg pcrs).mapError (Failure.wrap "read pcrs: ")
  let rsp ← (Sequential.command (tpm.quote ak.object qualifying (selection bankAlg pcrs))).mapError
    (Failure.wrap "quote: ")
  .ofExcept <| attachLogs host opts
    { stage, nonce, akPub := ak.publicBytes, ekPub, quote := rsp.quoted
      signature := G.marshalSignature rsp.signature, pcrs := [(bank, hexPCRs values)] }

def build (rounds : Nat) (stage : Stage) (nonce : Text) : Go σ BuiltRequest := do
  let pcrs ← .ofExcept ((stageSelection stage).mapError fun err => ⟨err, false⟩)
  let qualifying ← .ofExcept ((decodeNonce nonce).mapError fun err => ⟨err, false⟩)
  let tpm ← .ofExcept (openTPM host opts)
  let ak ← (ensureAK G tpm).mapError (Failure.wrap "attestation key: ")
  buildWith G host opts tpm ak rounds stage nonce qualifying pcrs

end build

end VmManager.Agent
