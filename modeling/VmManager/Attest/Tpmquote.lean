import Mathlib.Data.List.Sort
import VmManager.Encoding.Hex

/-! Parsing and checking a TPM 2.0 quote. The decoders of go-tpm and the signature and hash functions
of the Go library are parameters; what vm-manager itself decides about their results is spelled out:
the magic, the attestation type, the one selected PCR bank, the attributes and algorithm of the
attestation key, the nonce and the digest over the PCR values. -/
namespace VmManager.Tpmquote
open Encoding

def require {ε : Type} (c : Prop) [Decidable c] (err : ε) : Except ε Unit :=
  if c then .ok () else .error err

theorem mapError_eq_ok_iff {ε δ α : Type} {x : Except ε α} {f : ε → δ} {a : α} :
    x.mapError f = .ok a ↔ x = .ok a := by
  cases x <;> simp [Except.mapError]

theorem require_eq_ok_iff {ε : Type} {c : Prop} [Decidable c] {err : ε} {u : Unit} :
    require c err = .ok u ↔ c := by
  unfold require
  split <;> simp_all

theorem bind_eq_ok_iff {ε α β : Type} {x : Except ε α} {f : α → Except ε β} {b : β} :
    (x >>= f) = .ok b ↔ ∃ a, x = .ok a ∧ f a = .ok b := by
  cases x <;> simp [bind, Except.bind]

inductive Hash where
  | sha1 | sha256 | sha384 | sha512 | sha3_256 | sha3_384 | sha3_512
deriving DecidableEq, Repr

namespace Hash

def size : Hash → Nat
  | sha1 => 20
  | sha256 | sha3_256 => 32
  | sha384 | sha3_384 => 48
  | sha512 | sha3_512 => 64

def name : Hash → String
  | sha1 => "SHA-1" | sha256 => "SHA-256" | sha384 => "SHA-384" | sha512 => "SHA-512"
  | sha3_256 => "SHA3-256" | sha3_384 => "SHA3-384" | sha3_512 => "SHA3-512"

end Hash

def tpmGeneratedValue : Nat := 0xff544347
def attestQuote : UInt16 := 0x8018
def algRSA : UInt16 := 0x0001
def algRSASSA : UInt16 := 0x0014
def algRSAPSS : UInt16 := 0x0016
def algECDSA : UInt16 := 0x0018
def algECC : UInt16 := 0x0023
def eccNistP256 : UInt16 := 0x0003

structure PCRSelection where
  hash : UInt16
  pcrSelect : Bytes

structure QuoteInfo where
  pcrSelect : List PCRSelection
  pcrDigest : Bytes

/-- A decoded TPMS_ATTEST; `attested` is the quote member of its union or go-tpm's error. -/
structure Attest where
  type : UInt16
  extraData : Bytes
  attested : Except String QuoteInfo

structure ECDSASignature where
  hash : UInt16
  signatureR : Bytes
  signatureS : Bytes

structure RSASignature where
  hash : UInt16
  sig : Bytes

structure Signature where
  sigAlg : UInt16
  ecdsa : Except String ECDSASignature
  rsassa : Except String RSASignature
  rsapss : Except String RSASignature

structure ObjectAttributes where
  fixedTPM : Bool
  fixedParent : Bool
  sensitiveDataOrigin : Bool
  restricted : Bool
  signEncrypt : Bool
  decrypt : Bool

structure ECCDetail where
  curveID : UInt16
  scheme : UInt16

structure RSADetail where
  keyBits : Nat
  scheme : UInt16

/-- A decoded TPMT_PUBLIC. `unique` stands for the key itself and the members nothing here reads. -/
structure Public where
  type : UInt16
  objectAttributes : ObjectAttributes
  eccDetail : Except String ECCDetail
  rsaDetail : Except String RSADetail
  unique : Bytes

inductive PublicKey where
  | ecdsa (key : Bytes)
  | rsa (key : Bytes)

structure TPM2 where
  unmarshalAttest : Bytes → Except String Attest
  unmarshalSignature : Bytes → Except String Signature
  unmarshalPublic : Bytes → Except String Public
  /-- A TPM2B_PUBLIC, whose contents decode on their own. -/
  unmarshalPublic2B : Bytes → Except String (Except String Public)
  marshal : Public → Bytes
  pub : Public → Except String PublicKey
  hash : UInt16 → Option Hash

structure Crypto where
  sum : Hash → Bytes → Bytes
  sum_length : ∀ h b, (sum h b).length = h.size
  available : Hash → Bool
  ecdsaVerify : Bytes → Bytes → Nat → Nat → Bool
  verifyPKCS1v15 : Bytes → Hash → Bytes → Bytes → Bool
  verifyPSS : Bytes → Hash → Bytes → Bytes → Bool

inductive Sentinel where
  | malformed | magic | type | akAttributes | akAlgorithm | signature | nonce | pcrDigest | pcrValue
  | bank
deriving DecidableEq, Repr

def Sentinel.text : Sentinel → String
  | malformed => "malformed quote"
  | magic => "quote magic is not TPM_GENERATED_VALUE"
  | type => "attestation is not a quote"
  | akAttributes => "attestation key attributes"
  | akAlgorithm => "unsupported attestation key"
  | signature => "signature does not verify"
  | nonce => "nonce mismatch"
  | pcrDigest => "pcr digest mismatch"
  | pcrValue => "pcr value"
  | bank => "unsupported pcr bank"

structure Error where
  sentinel : Sentinel
  text : String

def Sentinel.wrap (s : Sentinel) (detail : String) : Error := ⟨s, s.text ++ ": " ++ detail⟩
def Sentinel.error (s : Sentinel) : Error := ⟨s, s.text⟩

def hexPadded (w n : Nat) : String :=
  let digits := Nat.toDigits 16 n
  String.ofList (List.replicate (w - digits.length) '0' ++ digits)

structure Quote where
  attest : Bytes
  signature : Signature
  pub : Public
  akFingerprint : Text
  extraData : Bytes
  bank : String
  pcrs : List Nat
  pcrDigest : Bytes
  hash : Hash

def bankName : Hash → Option String
  | .sha1 => some "sha1"
  | .sha256 => some "sha256"
  | .sha384 => some "sha384"
  | .sha512 => some "sha512"
  | _ => none

def bankHash (bank : String) : Except Error Hash :=
  match [Hash.sha1, .sha256, .sha384, .sha512].find? fun h => bankName h == some bank with
  | some h => .ok h
  | none => .error (Sentinel.bank.wrap ("\"" ++ bank ++ "\""))

def selectedIndexes (sel : Bytes) : List Nat :=
  sel.zipIdx.flatMap fun e =>
    (List.range 8).filterMap fun bit =>
      if e.1.toNat.testBit bit then some (e.2 * 8 + bit) else none

section
variable (T : TPM2) (C : Crypto)

def decodeSelections : List PCRSelection → String → List Nat → Except Error (String × List Nat)
  | [], bank, pcrs =>
    if bank = "" then .error (Sentinel.malformed.wrap "quote selects no pcr") else .ok (bank, pcrs)
  | s :: rest, bank, pcrs =>
    let idx := selectedIndexes s.pcrSelect
    if idx = [] then decodeSelections rest bank pcrs
    else if bank ≠ "" then
      .error (Sentinel.malformed.wrap "quote selects more than one pcr bank")
    else match T.hash s.hash with
      | none => .error (Sentinel.bank.wrap ("pcr bank 0x" ++ hexPadded 4 s.hash.toNat))
      | some h => match bankName h with
        | none => .error (Sentinel.bank.wrap h.name)
        | some name => decodeSelections rest name idx

def decodeSelection (sel : List PCRSelection) : Except Error (String × List Nat) :=
  decodeSelections T sel "" []

def parsePublic (akPub : Bytes) : Except Error Public :=
  match T.unmarshalPublic akPub with
  | .ok pub => .ok pub
  | .error err => match T.unmarshalPublic2B akPub with
    | .error _ => .error (Sentinel.malformed.wrap ("ak_pub: " ++ err))
    | .ok (.error err2) => .error (Sentinel.malformed.wrap ("ak_pub: " ++ err2))
    | .ok (.ok pub) => .ok pub

def missingAttributes (a : ObjectAttributes) : List String :=
  [("fixedParent", a.fixedParent), ("fixedTPM", a.fixedTPM), ("restricted", a.restricted),
    ("sensitiveDataOrigin", a.sensitiveDataOrigin), ("sign", a.signEncrypt)].filterMap
      fun e => if e.2 then none else some e.1

def checkAlgorithm (pub : Public) : Except Error Unit :=
  if pub.type = algECC then do
    let p ← pub.eccDetail.mapError Sentinel.malformed.wrap
    require (p.curveID = eccNistP256) (Sentinel.akAlgorithm.wrap
      ("ecc curve 0x" ++ hexPadded 4 p.curveID.toNat ++ ", want P-256"))
    require (p.scheme = algECDSA) (Sentinel.akAlgorithm.wrap
      ("ecc scheme 0x" ++ hexPadded 4 p.scheme.toNat ++ ", want ECDSA"))
  else if pub.type = algRSA then do
    let p ← pub.rsaDetail.mapError Sentinel.malformed.wrap
    require (p.keyBits = 2048) (Sentinel.akAlgorithm.wrap
      ("rsa " ++ toString p.keyBits ++ " bits, want 2048"))
    require (p.scheme = algRSASSA ∨ p.scheme = algRSAPSS) (Sentinel.akAlgorithm.wrap
      ("rsa scheme 0x" ++ hexPadded 4 p.scheme.toNat ++ ", want RSASSA or RSAPSS"))
  else .error (Sentinel.akAlgorithm.wrap ("type 0x" ++ hexPadded 4 pub.type.toNat))

def checkAK (pub : Public) : Except Error Unit := do
  let missing := missingAttributes pub.objectAttributes
  require (missing = [])
    (Sentinel.akAttributes.wrap ("[" ++ " ".intercalate missing ++ "] not set"))
  require (pub.objectAttributes.decrypt = false) (Sentinel.akAttributes.wrap "decrypt is set")
  checkAlgorithm pub

def signatureAlg (pub : Public) (sig : Signature) : Except Error UInt16 :=
  if sig.sigAlg = algECDSA then
    if pub.type ≠ algECC then
      .error (Sentinel.signature.wrap "ecdsa signature from a non-ecc key")
    else match sig.ecdsa with
      | .error err => .error (Sentinel.malformed.wrap ("signature: " ++ err))
      | .ok s => .ok s.hash
  else if sig.sigAlg = algRSASSA ∨ sig.sigAlg = algRSAPSS then
    if pub.type ≠ algRSA then
      .error (Sentinel.signature.wrap "rsa signature from a non-rsa key")
    else match if sig.sigAlg = algRSAPSS then sig.rsapss else sig.rsassa with
      | .error err => .error (Sentinel.malformed.wrap ("signature: " ++ err))
      | .ok s => .ok s.hash
  else .error (Sentinel.signature.wrap ("scheme 0x" ++ hexPadded 4 sig.sigAlg.toNat))

def signatureHash (pub : Public) (sig : Signature) : Except Error Hash := do
  let alg ← signatureAlg pub sig
  match T.hash alg with
  | some h =>
    if C.available h then pure h
    else throw (Sentinel.signature.wrap ("signature hash 0x" ++ hexPadded 4 alg.toNat))
  | none => throw (Sentinel.signature.wrap ("signature hash 0x" ++ hexPadded 4 alg.toNat))

def fingerprint (pub : Public) : Text := encodeToString (C.sum .sha256 (T.marshal pub))

def bigEndian (b : Bytes) : Nat := b.foldl (fun n x => 256 * n + x.toNat) 0

def parse (quote sig akPub : Bytes) : Except Error Quote := do
  require (4 ≤ quote.length)
    (Sentinel.malformed.wrap ("attest is " ++ toString quote.length ++ " bytes"))
  let magic := bigEndian (quote.take 4)
  require (magic = tpmGeneratedValue) (Sentinel.magic.wrap ("got 0x" ++ hexPadded 8 magic))
  let att ← (T.unmarshalAttest quote).mapError fun err => Sentinel.malformed.wrap ("attest: " ++ err)
  require (att.type = attestQuote)
    (Sentinel.type.wrap ("type 0x" ++ hexPadded 4 att.type.toNat))
  let info ← att.attested.mapError fun err => Sentinel.malformed.wrap ("quote info: " ++ err)
  let (bank, pcrs) ← decodeSelection T info.pcrSelect
  let signature ← (T.unmarshalSignature sig).mapError fun err =>
    Sentinel.malformed.wrap ("signature: " ++ err)
  let pub ← parsePublic T akPub
  checkAK pub
  let hash ← signatureHash T C pub signature
  pure { attest := quote, signature, pub, akFingerprint := fingerprint T C pub,
         extraData := att.extraData, bank, pcrs, pcrDigest := info.pcrDigest, hash }

def verifySignature (q : Quote) : Except Error Unit :=
  match T.pub q.pub with
  | .error err => .error (Sentinel.akAlgorithm.wrap err)
  | .ok pub =>
    let digest := C.sum q.hash q.attest
    if q.signature.sigAlg = algECDSA then
      match pub, q.signature.ecdsa with
      | .ecdsa key, .ok s =>
        if C.ecdsaVerify key digest (bigEndian s.signatureR) (bigEndian s.signatureS) then .ok ()
        else .error Sentinel.signature.error
      | _, _ => .error (Sentinel.signature.wrap "ecdsa signature with a non-ecc key")
    else if q.signature.sigAlg = algRSASSA then
      match pub, q.signature.rsassa with
      | .rsa key, .ok s =>
        if C.verifyPKCS1v15 key q.hash digest s.sig then .ok () else .error Sentinel.signature.error
      | _, _ => .error (Sentinel.signature.wrap "rsassa signature with a non-rsa key")
    else if q.signature.sigAlg = algRSAPSS then
      match pub, q.signature.rsapss with
      | .rsa key, .ok s =>
        if C.verifyPSS key q.hash digest s.sig then .ok () else .error Sentinel.signature.error
      | _, _ => .error (Sentinel.signature.wrap "rsapss signature with a non-rsa key")
    else .error (Sentinel.signature.wrap ("scheme 0x" ++ hexPadded 4 q.signature.sigAlg.toNat))

def verifyNonce (extraData : Bytes) (nonce : Text) : Except Error Unit :=
  match decodeString nonce with
  | none => .error (Sentinel.nonce.wrap "nonce is not hex")
  | some want => if want.length = 0 ∨ extraData ≠ want then .error Sentinel.nonce.error else .ok ()

abbrev PCRValues := List (Nat × Bytes)

def digestInput (values : PCRValues) : List Nat → Except Error Bytes
  | [] => .ok []
  | i :: rest => match values.lookup i with
    | none => .error (Sentinel.pcrValue.wrap ("no value for pcr " ++ toString i))
    | some v =>
      if v.length = 0 then .error (Sentinel.pcrValue.wrap ("no value for pcr " ++ toString i))
      else (digestInput values rest).map (v ++ ·)

def pcrDigest (h : Hash) (selection : List Nat) (values : PCRValues) : Except Error Bytes :=
  (digestInput values (selection.insertionSort (· ≤ ·))).map (C.sum h)

def checkLengths (bank : String) (size : Nat) (values : PCRValues) : List Nat → Except Error Unit
  | [] => .ok ()
  | i :: rest => match values.lookup i with
    | none => checkLengths bank size values rest
    | some v =>
      if v.length ≠ size then
        .error (Sentinel.pcrValue.wrap ("pcr " ++ toString i ++ " has " ++ toString v.length ++
          " bytes, " ++ bank ++ " needs " ++ toString size))
      else checkLengths bank size values rest

def verifyPCRs (q : Quote) (values : PCRValues) : Except Error Unit := do
  let bank ← bankHash q.bank
  checkLengths q.bank bank.size values q.pcrs
  let got ← pcrDigest C q.hash q.pcrs values
  require (got = q.pcrDigest) Sentinel.pcrDigest.error

end

end VmManager.Tpmquote
