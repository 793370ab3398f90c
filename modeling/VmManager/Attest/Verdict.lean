import VmManager.Attest.Checks

/-! When `SubmitQuote` says verified: exactly for the acceptable requests, in every state of the
verifier. At the end a real quote that is accepted. -/
namespace VmManager.Attest
open Encoding Tpmquote List
variable {policyFor : String → Except PolicyError Policy} {q : Quote} {vmID : String} {res : Result} {v : Verifier}
  {now i : Nat}

section
variable {T : TPM2} {C : Crypto} {opts : Options} {req : QuoteRequest} {policy : Policy}

def MeetsGolden (policy : Policy) (req : QuoteRequest) (i : Nat) (otherwise : Prop) : Prop :=
  (∃ text, policy.recorded i = some text ∧ decodeString text = sent req i) ∨ (policy.recorded i = none ∧ otherwise)

/-- Everything `SubmitQuote` asks for, as conditions on the request, the policy and the state of the
verifier. -/
structure Acceptable (T : TPM2) (C : Crypto) (opts : Options) (now : Nat)
    (policyFor : String → Except PolicyError Policy) (v : Verifier) (vmID : String)
    (req : QuoteRequest) (policy : Policy) (q : Quote) : Prop extends Examined T C req q where
  nonce : v.nonces.Consumable now vmID req.nonce
  stage : req.stage = .initrd ∨ req.stage = .ready
  lookup : policyFor vmID = .ok policy
  pin : v.pinned vmID = some q.akFingerprint ∨ (v.pinned vmID = none ∧ req.stage = .initrd)
  uki : (policy.pcr11.lookup (phaseFor req.stage)).bind decodeString = sent req pcrUKI
  firmware : ∀ i ∈ [0, 2, 3, 4, 6, 7], MeetsGolden policy req i (opts.learnGolden = true)
  sysext : req.stage = .ready → (∃ text, policy.pcr13.lookup policy.kubernetesVersion = some text ∧
      decodeString text = sent req pcrSysext) ∨
    (policy.pcr13.lookup policy.kubernetesVersion = none ∧ MeetsGolden policy req pcrSysext True)

private theorem spelled_iff {text : Text} {b v : Bytes} (hb : decodeString text = some b)
    (i : Nat) (hv : sent req i = some v) :
    toLower text = encodeToString v ↔ decodeString text = sent req i := by
  rw [encodeToString_eq_toLower_iff hb, hb, hv, Option.some.injEq]
  exact eq_comm

private theorem golden_iff (hval : policy.validate = .ok ()) {v : Bytes}
    (hv : sent req i = some v) (otherwise : Prop) : MeetsExpected (encodeToString v) otherwise
        ((policy.goldenValue i).map fun want => (want, "")) ↔
      MeetsGolden policy req i otherwise := by
  unfold Policy.goldenValue MeetsGolden
  cases hr : policy.recorded i with
  | none => simp [MeetsExpected]
  | some text =>
    obtain ⟨b, hb⟩ := Policy.recorded_of_validate hval hr
    simp [MeetsExpected, spelled_iff hb i hv]

private theorem agrees_iff (hval : policy.validate = .ok ()) {v : Bytes}
    (hi : i ∈ q.pcrs) (hv : sent req i = some v) (hne : i ≠ pcrSysext) : Agrees opts policy (recordedPCRs req q) i ↔
      MeetsGolden policy req i (opts.learnGolden = true) := by
  rw [← golden_iff hval hv]
  unfold Agrees Policy.expected
  simp [lookup_recordedPCRs hi, hv, hne]

private theorem agrees_sysext_iff (opts : Options) (hval : policy.validate = .ok ()) {v : Bytes}
    (hi : pcrSysext ∈ q.pcrs) (hv : sent req pcrSysext = some v) : Agrees opts policy (recordedPCRs req q) pcrSysext ↔
      (∃ text, policy.pcr13.lookup policy.kubernetesVersion = some text ∧ decodeString text = sent req pcrSysext) ∨
      (policy.pcr13.lookup policy.kubernetesVersion = none ∧
        MeetsGolden policy req pcrSysext True) := by
  rw [← golden_iff hval hv]
  unfold Agrees Policy.expected
  cases hk : policy.pcr13.lookup policy.kubernetesVersion with
  | none => simp [lookup_recordedPCRs hi, hv]
  | some text =>
    -- `validate` refuses an entry without a version, so the version is not empty here.
    have hne : policy.kubernetesVersion ≠ "" := Policy.version_ne_empty hval hk
    obtain ⟨b, hb⟩ := Policy.pcr13_of_validate hval hk
    have hs := spelled_iff hb pcrSysext hv
    simp [MeetsExpected, lookup_recordedPCRs hi, hv, hne, hs]

theorem comparedPCRs_subset (stage : Stage) : comparedPCRs stage ⊆ requiredPCRs stage := by
  unfold comparedPCRs requiredPCRs
  split <;> decide

theorem judge_examined_iff (hval : policy.validate = .ok ())
    (he : Examined T C req q) (hres : res.pcrs = recordedPCRs req q) :
    (∃ res', judge opts policy req.stage q res = .ok res') ↔
      (policy.pcr11.lookup (phaseFor req.stage)).bind decodeString = sent req pcrUKI ∧
      (∀ i ∈ [0, 2, 3, 4, 6, 7], MeetsGolden policy req i (opts.learnGolden = true)) ∧ (req.stage = .ready →
        (∃ text, policy.pcr13.lookup policy.kubernetesVersion = some text ∧ decodeString text = sent req pcrSysext) ∨
        (policy.pcr13.lookup policy.kubernetesVersion = none ∧
          MeetsGolden policy req pcrSysext True)) := by
  have hsent : ∀ i ∈ requiredPCRs req.stage, i ∈ q.pcrs ∧ ∃ v, sent req i = some v := by
    intro i hi
    obtain ⟨v, hv, -⟩ := he.values i (he.covered i hi)
    exact ⟨he.covered i hi, v, hv⟩
  have huki : toLower ((policy.pcr11.lookup (phaseFor req.stage)).getD []) =
      ((recordedPCRs req q).lookup pcrUKI).getD [] ↔
        (policy.pcr11.lookup (phaseFor req.stage)).bind decodeString = sent req pcrUKI := by
    obtain ⟨text, b, ht, hb⟩ := Policy.pcr11_of_validate hval req.stage
    obtain ⟨hi, v, hv⟩ := hsent pcrUKI (by unfold requiredPCRs; split <;> decide)
    have hs := spelled_iff hb pcrUKI hv
    simp [ht, lookup_recordedPCRs hi, hv, hs]
  have hfirmware : ∀ i ∈ goldenFirmwarePCRs, (Agrees opts policy (recordedPCRs req q) i ↔
      MeetsGolden policy req i (opts.learnGolden = true)) := by
    intro i hi
    have hreq : i ∈ requiredPCRs req.stage := by
      apply comparedPCRs_subset
      unfold comparedPCRs
      split
      · exact mem_append_left _ hi
      · exact hi
    obtain ⟨hq, v, hv⟩ := hsent i hreq
    refine agrees_iff hval hq hv ?_
    rintro rfl
    revert hi
    decide
  rw [judge_eq_ok_iff, hres, huki]
  refine and_congr_right fun _ => ?_
  by_cases hr : req.stage = .ready
  · obtain ⟨hq, v, hv⟩ := hsent pcrSysext (by rw [hr]; decide)
    have hsysext := agrees_sysext_iff opts hval hq hv
    simp only [comparedPCRs, hr, if_true, forall_mem_append, mem_singleton, forall_eq, true_implies, hsysext]
    exact and_congr_left fun _ => forall₂_congr hfirmware
  · simp only [comparedPCRs, hr, if_false, false_implies, and_true]
    exact forall₂_congr hfirmware

theorem pin_iff (v : Verifier) (vmID : String) (stage : Stage) (fingerprint : Text) :
    (∀ p, v.pinned vmID = some p → p = fingerprint) ∧ (v.enroll vmID stage fingerprint).1 = true ↔
      v.pinned vmID = some fingerprint ∨ (v.pinned vmID = none ∧ stage = .initrd) := by
  unfold Verifier.pinned Verifier.enroll Verifier.stateLocked
  cases hv : v.vms vmID with
  | none => by_cases hs : stage = .initrd <;> simp [hs]
  | some st =>
    by_cases hak : st.ak = []
    · by_cases hs : stage = .initrd <;> simp [hak, hs]
    · simp [hak]

def verdict (T : TPM2) (C : Crypto) (opts : Options) (now : Nat)
    (policyFor : String → Except PolicyError Policy) (v : Verifier) (vmID : String)
    (req : QuoteRequest) : Except String QuoteResult :=
  ((submitQuote (alone now policyFor) T C opts vmID req).run v).1

def Verified (r : Except String QuoteResult) : Prop := ∃ message, r = .ok { verified := true, message := message }

def accepted : Except String QuoteResult → Bool
  | .ok r => r.verified
  | .error _ => false

theorem verified_iff_accepted (r : Except String QuoteResult) :
    Verified r ↔ accepted r = true := by
  cases r with
  | error err => simp [Verified, accepted]
  | ok r =>
    obtain ⟨verified, message⟩ := r
    simp [Verified, accepted]

theorem reject_not_verified {stage : Stage} :
    ¬ Verified (reject (alone now policyFor) vmID stage res v).1 := by
  rintro ⟨message, h⟩
  cases h

theorem conclude_verified_iff : Verified (conclude (alone now policyFor) vmID req q res v).1 ↔
      (v.enroll vmID req.stage q.akFingerprint).1 = true := by
  unfold conclude
  cases he : v.enroll vmID req.stage q.akFingerprint with
  | mk ok v' =>
    have hrun : (alone now policyFor).enroll vmID req.stage q.akFingerprint v = (ok, v') := he
    simp only [bind, StateT.bind, hrun]
    cases ok with
    | true => exact iff_of_true ⟨_, rfl⟩ rfl
    | false =>
      refine iff_of_false ?_ (by simp)
      have hpin : (alone now policyFor).pinned vmID v' = (v'.pinned vmID, v') := rfl
      simp only [Bool.false_eq_true, if_false, StateT.bind, bind, hpin]
      cases v'.pinned vmID <;> exact reject_not_verified

theorem verdict_verified_iff_checks : Verified (verdict T C opts now policyFor v vmID req) ↔
      (v.nonces.consume now vmID req.nonce).1 = true ∧ req.stage.valid = true ∧
        ∃ policy, policyFor vmID = .ok policy ∧ ∃ q res, examine T C req { time := now } = .ok (q, res) ∧
          (∀ p, v.pinned vmID = some p → p = q.akFingerprint) ∧ (∃ res', judge opts policy req.stage q res = .ok res') ∧
          (v.enroll vmID req.stage q.akFingerprint).1 = true := by
  unfold verdict submitQuote
  cases hc : v.nonces.consume now vmID req.nonce with
  | mk ok nonces =>
    have hnow : (alone now policyFor).now v = (now, v) := rfl
    have hconsume : (alone now policyFor).consume vmID req.nonce v =
        (ok, { v with nonces := nonces }) := by
      simp only [alone, hc]
    have hpolicy : (alone now policyFor).policyFor vmID { v with nonces := nonces } =
        (policyFor vmID, { v with nonces := nonces }) := rfl
    have hpin : (alone now policyFor).pinned vmID { v with nonces := nonces } =
        (v.pinned vmID, { v with nonces := nonces }) := rfl
    have henroll : ∀ stage fp, (Verifier.enroll { v with nonces := nonces } vmID stage fp).1 =
        (v.enroll vmID stage fp).1 := by
      intro stage fp
      unfold Verifier.enroll Verifier.stateLocked
      dsimp only
      split
      · rfl
      · split <;> rfl
    simp only [StateT.run, bind, StateT.bind, hnow, hconsume]
    cases ok with
    | false => simpa using reject_not_verified
    | true =>
      cases hs : req.stage.valid with
      | false => simpa using reject_not_verified
      | true =>
        simp only [Bool.not_true, Bool.false_eq_true, if_false, StateT.bind, bind, hpolicy, true_and]
        cases hp : policyFor vmID with
        | error err =>
          cases err with
          | noPolicy text => simpa using reject_not_verified
          | other text => exact iff_of_false (by rintro ⟨_, ⟨⟩⟩) (by simp)
        | ok policy =>
          cases hx : examine T C req { time := now } with
          | error res => simpa using reject_not_verified
          | ok r =>
            obtain ⟨q, res⟩ := r
            have hpinned : (v.pinned vmID).any (fun p => p != q.akFingerprint) = false ↔
                ∀ p, v.pinned vmID = some p → p = q.akFingerprint := by
              cases v.pinned vmID <;> simp
            simp only [StateT.bind, bind, hpin, Except.ok.injEq, Prod.mk.injEq, and_assoc,
              exists_and_left, exists_eq_left', ← hpinned]
            cases (v.pinned vmID).any fun p => p != q.akFingerprint with
            | true => simpa using reject_not_verified
            | false =>
              cases hj : judge opts policy req.stage q res with
              | error res' => simpa using reject_not_verified
              | ok res' => simp [conclude_verified_iff, henroll]

theorem stage_valid_iff (stage : Stage) : stage.valid = true ↔ stage = .initrd ∨ stage = .ready := by
  cases stage <;> simp [Stage.valid]

/-- The verdict, exactly: for every state of the verifier and every request, with policies that
`validate` accepts, a call says verified if and only if the request is acceptable. -/
theorem verdict_verified_iff (T : TPM2) (C : Crypto) (opts : Options) (now : Nat)
    (policyFor : String → Except PolicyError Policy) (v : Verifier) (vmID : String) (req : QuoteRequest)
    (hval : ∀ policy, policyFor vmID = .ok policy → policy.validate = .ok ()) :
    Verified (verdict T C opts now policyFor v vmID req) ↔
      ∃ policy q, Acceptable T C opts now policyFor v vmID req policy q := by
  rw [verdict_verified_iff_checks, Nonce.Store.consume_eq_true_iff, stage_valid_iff]
  constructor
  · rintro ⟨hnonce, hstage, policy, hpolicy, q, res, hx, hpinned, hjudge, henroll⟩
    obtain ⟨he, rfl⟩ := examine_eq_ok_iff.1 hx
    obtain ⟨huki, hfirmware, hsysext⟩ := (judge_examined_iff (hval policy hpolicy) he rfl).1 hjudge
    exact ⟨policy, q, { he with
      nonce := hnonce, stage := hstage, lookup := hpolicy
      pin := (pin_iff v vmID req.stage q.akFingerprint).1 ⟨hpinned, henroll⟩
      uki := huki, firmware := hfirmware, sysext := hsysext }⟩
  · rintro ⟨policy, q, ha⟩
    have hpin := (pin_iff v vmID req.stage q.akFingerprint).2 ha.pin
    exact ⟨ha.nonce, ha.stage, policy, ha.lookup, q, _, examine_eq_ok_iff.2 ⟨ha.toExamined, rfl⟩, hpin.1,
      (judge_examined_iff (hval policy ha.lookup) ha.toExamined rfl).2
        ⟨ha.uki, ha.firmware, ha.sysext⟩, hpin.2⟩

end

namespace Sample

def bytesOf : Nat → Nat → Bytes
  | 0, _ => []
  | len + 1, n => UInt8.ofNat (n / 256 ^ len % 256) :: bytesOf len n

/-- A quote over PCRs 0 to 7 and 11 signed by a P-256 key, with the digests SHA-256 gives. PCR `i`
holds 32 times the byte `i`. -/
structure SampleQuote where
  nonce : Nat
  x : Nat
  y : Nat
  akDigest : Nat
  attestDigest : Nat
  r : Nat
  s : Nat

def pcrDigest : Bytes := bytesOf 32 0xb7490bd46e04e8d76db3fe104be6e631fc4a23455a7928aae88cf0c495ffe44f

namespace SampleQuote
variable (a : SampleQuote)

def key : Bytes := bytesOf 32 a.x ++ bytesOf 32 a.y

def akPub : Bytes :=
  bytesOf 22 0x0023000b00050472000000100018000b000300100020 ++ bytesOf 32 a.x ++ bytesOf 2 0x0020 ++ bytesOf 32 a.y

def attest : Bytes :=
  bytesOf 10 0xff54434780180022000b ++ bytesOf 32 a.akDigest ++ bytesOf 2 0x0020 ++
    bytesOf 32 a.nonce ++ bytesOf 25 0x000000000001e2400000000100000000010000000020240101 ++
    bytesOf 12 0x00000001000b03ff08000020 ++ pcrDigest

def signature : Bytes := bytesOf 6 0x0018000b0020 ++ bytesOf 32 a.r ++ bytesOf 2 0x0020 ++ bytesOf 32 a.s

end SampleQuote

def quote1 : SampleQuote where
  nonce := 0x78377b525757b494427f89014f97d79928f3938d14eb51e20fb5dec9834eb304
  x := 0x4c4fcbcc6e5b2acd7e2b53a3d17f5bbc7d39f37707f0db687652b2040d827547
  y := 0xbe8a5a92508c6bd3a32a629edc964d79720a18ec7375425a0464c1de8b176c8a
  akDigest := 0xc3f0abf62da57b060407219c270853c5c699ecaa40e81dab09f8fc115b14f24c
  attestDigest := 0x8ddebcb8a8315e9a7f960b11b21fe69ca608ac0b517b174850c2f19138ba79d9
  r := 0x7640617e32ab1669d633b7c1edb758002f6966a33e0bd13f6556b739204d2129
  s := 0xab34da765bcfcbca344aebe93dbbe704360a8a0f65cbcc2d9e8e4725ac19b8a3

def quote2 : SampleQuote where
  nonce := 0xe889d30b85421e8cc830d15f3b5008c1896600e9a9129e09bd301483cefe8981
  x := 0xf75bae85228fe2f4268de5ee97ab573b25a75be6ced0ad1c70f25e31fbca5181
  y := 0x716c35e48d33c69301a94c6cb1412e84190a7838168867f6091bcfcf8d215709
  akDigest := 0x2857a3fa67791fb33f5f4772836969db70442c6a5029791d47ad98b7162474c7
  attestDigest := 0x8894804e7d8d0a133a3876a77d5ec6afd8af0e49357c58a4b105250fde5768dd
  r := 0xc0e7d9113804af675d9141ab1d6c3b0fba10423c76a2e01e99916bca4d7e3431
  s := 0xe7a92e782e6a0f750b54be51f5e396d920d8861db932a55d245d8afa948ca574

def quote3 : SampleQuote :=
  { quote1 with
    nonce := 0x6861c4fd4fdb8e4f35d0ccf987b19a747e7bdc000575464d79bdcfdd3f629721
    attestDigest := 0xf08762b591fa475dd1b5d447754b80b23470eef32263061e704ffdb69d04cfac
    r := 0xbf88a242407031def72ea7afed7efd289943a364e18e71ade47b668745d483fb
    s := 0x2410d08f6b9680f0fba9a3a16d1b6620608efae879df365045ca8fbcf9f6fc82 }

def quotes : List SampleQuote := [quote1, quote2, quote3]

def pcrIndexes : List Nat := [0, 1, 2, 3, 4, 5, 6, 7, 11]

def pcrValue (i : Nat) : Bytes := replicate 32 (UInt8.ofNat i)

def digests : List (Bytes × Bytes) :=
  (pcrIndexes.flatMap pcrValue, pcrDigest) :: quotes.flatMap fun a =>
    [(a.attest, bytesOf 32 a.attestDigest), (a.akPub, bytesOf 32 a.akDigest)]

def sum (h : Hash) (b : Bytes) : Bytes :=
  match h, digests.find? fun e => e.1 == b with
  | .sha256, some e => e.2
  | h, _ => replicate h.size 0

theorem sum_length (h : Hash) (b : Bytes) : (sum h b).length = h.size := by
  have hall : ∀ e ∈ digests, e.2.length = Hash.sha256.size := by decide +kernel
  unfold sum
  split
  · rename_i e he
    exact hall e (mem_of_find?_eq_some he)
  · simp

def crypto : Crypto where
  sum := sum
  sum_length := sum_length
  available _ := true
  ecdsaVerify key digest r s := quotes.any fun a =>
    key == a.key && digest == bytesOf 32 a.attestDigest && r == a.r && s == a.s
  verifyPKCS1v15 _ _ _ _ := false
  verifyPSS _ _ _ _ := false

def publicOf (a : SampleQuote) : Public where
  type := algECC
  objectAttributes := ⟨true, true, true, true, true, false⟩
  eccDetail := .ok ⟨eccNistP256, algECDSA⟩
  rsaDetail := .error "not an RSA key"
  unique := a.key

def attestOf (a : SampleQuote) : Attest where
  type := attestQuote
  extraData := bytesOf 32 a.nonce
  attested := .ok ⟨[⟨0x000b, [0xff, 0x08, 0x00]⟩], pcrDigest⟩

def signatureOf (a : SampleQuote) : Signature where
  sigAlg := algECDSA
  ecdsa := .ok ⟨0x000b, bytesOf 32 a.r, bytesOf 32 a.s⟩
  rsassa := .error "not an RSASSA signature"
  rsapss := .error "not an RSAPSS signature"

def decode {α : Type} (encode : SampleQuote → Bytes) (value : SampleQuote → α) (b : Bytes) : Except String α :=
  match quotes.find? fun a => encode a == b with
  | some a => .ok (value a)
  | none => .error "unexpected EOF"

def tpm2 : TPM2 where
  unmarshalAttest := decode SampleQuote.attest attestOf
  unmarshalSignature := decode SampleQuote.signature signatureOf
  unmarshalPublic := decode SampleQuote.akPub publicOf
  unmarshalPublic2B _ := .error "unexpected EOF"
  marshal pub := bytesOf 22 0x0023000b00050472000000100018000b000300100020 ++
    pub.unique.take 32 ++ bytesOf 2 0x0020 ++ pub.unique.drop 32
  pub pub := .ok (.ecdsa pub.unique)
  hash alg := if alg = 0x000b then some .sha256 else none

def nonceOf (a : SampleQuote) : Text := encodeToString (bytesOf 32 a.nonce)

def request (a : SampleQuote) (stage : Stage) : QuoteRequest where
  stage := stage
  nonce := nonceOf a
  akPub := a.akPub
  quote := a.attest
  signature := a.signature
  pcrs := [("sha256", pcrIndexes.map fun i => (toString i, encodeToString (pcrValue i)))]

def policy : Policy where
  pcr11 := [phaseInitrd, phaseReady].map fun phase => (phase, encodeToString (pcrValue 11))
  golden := [("sha256", goldenFirmwarePCRs.map fun i : Nat => (↑i, encodeToString (pcrValue i)))]

end Sample
open Sample

theorem verdict_verified_sample :
    let v : Verifier := { nonces := Nonce.Store.issue {} 1000 "vm1" (nonceOf quote1) }
    let policyFor : String → Except PolicyError Policy := fun _ => .ok Sample.policy
    let req := request quote1 .initrd
    Sample.policy.validate = .ok () ∧
      Verified (verdict tpm2 crypto {} 2000 policyFor v "vm1" req) ∧
      ∃ policy q, Acceptable tpm2 crypto {} 2000 policyFor v "vm1" req policy q := by
  intro v policyFor req
  have hval : Sample.policy.validate = .ok () := by decide +kernel
  have haccepted : accepted (verdict tpm2 crypto {} 2000 policyFor v "vm1" req) = true := by
    decide +kernel
  have hverified := (verified_iff_accepted _).2 haccepted
  refine ⟨hval, hverified, (verdict_verified_iff _ _ _ _ policyFor v "vm1" req ?_).1 hverified⟩
  intro policy hpolicy
  obtain rfl := Except.ok.inj hpolicy
  exact hval

end VmManager.Attest
