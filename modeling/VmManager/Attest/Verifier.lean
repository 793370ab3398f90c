import VmManager.Attest.Nonce
import VmManager.Attest.Policy

/-! The quote verifier. `submitQuote` is written once, over whatever gives it the verifier's critical
sections: run alone it is a function of the verifier's state, and as a goroutine it is interleaved
with other calls between those sections. -/
namespace VmManager.Attest
open Encoding Tpmquote Function

structure QuoteRequest where
  stage : Stage
  nonce : Text
  akPub : Bytes
  quote : Bytes
  signature : Bytes
  /-- PCR values in hexadecimal, by bank and by the index written in decimal. -/
  pcrs : List (String × List (String × Text))
deriving DecidableEq

structure QuoteResult where
  verified : Bool
  message : String
deriving DecidableEq, Repr

structure Result where
  verified : Bool := false
  message : String := ""
  time : Nat
  akFingerprint : Text := []
  pcrs : List (Nat × Text) := []
  learned : List Nat := []
deriving DecidableEq, Repr

inductive PolicyError where
  | noPolicy (text : String)
  | other (text : String)
deriving DecidableEq, Repr

structure Options where
  learnGolden : Bool := false
  firmware : Option Firmware := none

structure VMState where
  /-- The pinned fingerprint, empty until an initrd quote verified. -/
  ak : Text := []
  results : Stage → Option Result := fun _ => none

structure Verifier where
  nonces : Nonce.Store := {}
  vms : String → Option VMState := fun _ => none

namespace Verifier

def stateLocked (v : Verifier) (vmID : String) : VMState := (v.vms vmID).getD {}

def pinned (v : Verifier) (vmID : String) : Option Text :=
  match v.vms vmID with
  | none => none
  | some st => if st.ak = [] then none else some st.ak

def set (v : Verifier) (vmID : String) (st : VMState) : Verifier :=
  { v with vms := update v.vms vmID (some st) }

def enroll (v : Verifier) (vmID : String) (stage : Stage) (fingerprint : Text) : Bool × Verifier :=
  let st := v.stateLocked vmID
  if st.ak = [] ∧ stage = .initrd then (true, v.set vmID { st with ak := fingerprint })
  else if st.ak = [] then (false, v.set vmID st)
  else (st.ak == fingerprint, v.set vmID st)

def store (v : Verifier) (vmID : String) (stage : Stage) (r : Result) : Verifier :=
  let st := v.stateLocked vmID
  v.set vmID { st with results := update st.results stage (some r) }

def result (v : Verifier) (vmID : String) (stage : Stage) : Option Result :=
  (v.vms vmID).bind fun st => st.results stage

/-- The first critical section of `Forget`; the nonces go in a second one. -/
def forgetState (v : Verifier) (vmID : String) : Verifier :=
  { v with vms := update v.vms vmID none }

section
variable (v : Verifier) (vmID vmID' : String) (stage stage' : Stage) (r : Result)

theorem pinned_store : (v.store vmID stage r).pinned vmID' = v.pinned vmID' := by
  by_cases h : vmID' = vmID
  · subst h
    cases hv : v.vms vmID' <;> simp [store, set, pinned, stateLocked, hv]
  · simp [store, set, pinned, h]

theorem pinned_forgetState :
    (v.forgetState vmID).pinned vmID' = if vmID' = vmID then none else v.pinned vmID' := by
  by_cases h : vmID' = vmID <;> simp [forgetState, pinned, h]

theorem result_store : (v.store vmID stage r).result vmID' stage' =
    if vmID' = vmID ∧ stage' = stage then some r else v.result vmID' stage' := by
  by_cases h : vmID' = vmID
  · subst h
    by_cases hs : stage' = stage
    · simp [store, set, result, hs]
    · cases hv : v.vms vmID' <;> simp [store, set, result, stateLocked, hv, hs]
  · simp [store, set, result, h]

variable {v vmID stage} {fingerprint : Text}

theorem pinned_enroll_of_ne (h : vmID' ≠ vmID) :
    (v.enroll vmID stage fingerprint).2.pinned vmID' = v.pinned vmID' := by
  unfold enroll
  dsimp only
  split
  · simp [set, pinned, h]
  · split <;> simp [set, pinned, h]

theorem result_enroll :
    (v.enroll vmID stage fingerprint).2.result vmID' stage' = v.result vmID' stage' := by
  have hset : ∀ ak, (v.set vmID { v.stateLocked vmID with ak := ak }).result vmID' stage' =
      v.result vmID' stage' := by
    by_cases h : vmID' = vmID
    · subst h
      cases hv : v.vms vmID' <;> simp [set, result, stateLocked, hv]
    · simp [set, result, h]
  unfold enroll
  dsimp only
  split
  · exact hset fingerprint
  · split <;> exact hset _

theorem enroll_true (hne : fingerprint ≠ []) (h : (v.enroll vmID stage fingerprint).1 = true) :
    (v.enroll vmID stage fingerprint).2.pinned vmID = some fingerprint ∧
      (v.pinned vmID = some fingerprint ∨ (v.pinned vmID = none ∧ stage = .initrd)) := by
  unfold enroll at h ⊢
  by_cases hak : (v.stateLocked vmID).ak = []
  · by_cases hst : stage = .initrd
    · refine ⟨by simp [hak, hst, set, pinned, hne], .inr ⟨?_, hst⟩⟩
      cases hv : v.vms vmID with
      | none => simp [pinned, hv]
      | some st => simpa [pinned, hv, stateLocked] using hak
    · simp [hak, hst] at h
  · have heq : (v.stateLocked vmID).ak = fingerprint := by simpa [hak] using h
    cases hv : v.vms vmID with
    | none => simp [stateLocked, hv] at hak
    | some st =>
      have hst : v.stateLocked vmID = st := by simp [stateLocked, hv]
      rw [hst] at hak heq
      simp [hst, heq, hne, set, pinned, hv]

theorem enroll_false (h : (v.enroll vmID stage fingerprint).1 = false) :
    (v.enroll vmID stage fingerprint).2.pinned vmID = v.pinned vmID := by
  have hset : (v.set vmID (v.stateLocked vmID)).pinned vmID = v.pinned vmID := by
    cases hv : v.vms vmID <;> simp [set, pinned, stateLocked, hv]
  unfold enroll at h ⊢
  by_cases hak : (v.stateLocked vmID).ak = []
  · by_cases hst : stage = .initrd
    · simp [hak, hst] at h
    · simpa [hak, hst] using hset
  · simpa [hak] using hset

end

end Verifier

def decodePCRs (bankValues : List (String × Text)) : List Nat → Except String PCRValues
  | [] => .ok []
  | i :: rest => match bankValues.lookup (toString i) with
    | none => .error ("pcrs." ++ bank ++ " lacks index " ++ toString i ++ " which the quote covers")
    | some hexValue => match decodeString hexValue with
      | none => .error ("pcrs." ++ bank ++ "[" ++ toString i ++ "] is not hex")
      | some b => (decodePCRs bankValues rest).map fun values => (i, b) :: values

def hexPCRs (values : PCRValues) : List (Nat × Text) := values.map fun e => (e.1, encodeToString e.2)

def missingPCRs (covered need : List Nat) : List Nat := (need.filter fun i => !covered.contains i).insertionSort (· ≤ ·)

def indexList (idx : List Nat) : String :=
  ",".intercalate ((idx.insertionSort (· ≤ ·)).map toString)

def pinMismatch (ak enrolled : Text) : String :=
  "ak " ++ short ak ++ " is not the key enrolled for this vm (" ++ short enrolled ++ ")"

def Options.firmwareVerdict (opts : Options) : Option Firmware → String
  | none => ""
  | some recorded => match opts.firmware with
    | none => ""
    | some booted =>
      if recorded.sameBuild booted then
        "; the firmware is the build the golden values were recorded for (" ++ booted.text ++ ")"
      else "; the golden values were recorded for firmware " ++ recorded.text ++
        ", this server boots " ++ booted.text ++ ": record them again for this firmware"

structure Comparison where
  mismatched : List String := []
  unknown : List String := []
  learned : List (Nat × String) := []
  sysext : String := ""
  firmwareMismatch : Bool := false

def compare (opts : Options) (policy : Policy) (pcrs : List (Nat × Text)) (c : Comparison)
    (index : Nat) : Comparison :=
  let got := (pcrs.lookup index).getD []
  match policy.expected index with
  | none =>
    if opts.learnGolden || index == pcrSysext then
      { c with learned := c.learned ++ [(index, toString index ++ "=" ++ String.ofList got)] }
    else { c with unknown := c.unknown ++ [toString index] }
  | some (want, kubernetes) =>
    if want ≠ got ∧ kubernetes ≠ "" then
      { c with mismatched := c.mismatched ++ ["pcr " ++ toString index ++ " expected " ++
          String.ofList want ++ " for kubernetes " ++ kubernetes ++ ", got " ++ String.ofList got] }
    else if want ≠ got then
      { c with
        mismatched := c.mismatched ++ ["pcr " ++ toString index ++ " expected " ++
          String.ofList want ++ ", got " ++ String.ofList got]
        firmwareMismatch := c.firmwareMismatch || index != pcrSysext }
    else if kubernetes ≠ "" then { c with sysext := kubernetes }
    else c

def comparedPCRs (stage : Stage) : List Nat :=
  if stage = .ready then goldenFirmwarePCRs ++ [pcrSysext] else goldenFirmwarePCRs

section
variable (T : TPM2) (C : Crypto) (opts : Options)

/-- From the parser to the coverage check: everything that needs neither the pin nor the policy. On a
rejection the result carries its reason and what was filled in before. -/
def examine (req : QuoteRequest) (res : Result) : Except Result (Quote × Result) := do
  let q ← (parse T C req.quote req.signature req.akPub).mapError fun err =>
    { res with message := "quote: " ++ err.text }
  let res := { res with akFingerprint := q.akFingerprint }
  (verifySignature T C q).mapError fun err => { res with message := "signature: " ++ err.text }
  (verifyNonce q.extraData req.nonce).mapError fun _ =>
    { res with message := "nonce: quote qualifying data does not match the nonce" }
  require (q.bank = bank)
    { res with message := "quote selects pcr bank " ++ q.bank ++ ", want " ++ bank }
  let values ← (decodePCRs ((req.pcrs.lookup bank).getD []) q.pcrs).mapError fun err =>
    { res with message := err }
  (verifyPCRs C q values).mapError fun err => { res with message := "pcr digest: " ++ err.text }
  let res := { res with pcrs := hexPCRs values }
  let missing := missingPCRs q.pcrs (requiredPCRs req.stage)
  require (missing = [])
    { res with message := "quote covers pcrs " ++ indexList q.pcrs ++ " but stage " ++
      req.stage.name ++ " also needs " ++ indexList missing }
  pure (q, res)

def verifiedMessage (q : Quote) (phase : String) (c : Comparison) : String :=
  "verified: ak " ++ short q.akFingerprint ++ ", pcr 11 phase " ++ phase ++
    (if c.sysext ≠ "" then ", pcr 13 kubernetes " ++ c.sysext else "") ++
    (if c.learned ≠ [] then
      "; accepted without golden value: " ++ " ".intercalate (c.learned.map Prod.snd) else "")

def judge (policy : Policy) (stage : Stage) (q : Quote) (res : Result) : Except Result Result := do
  let phase := phaseFor stage
  let want := toLower ((policy.pcr11.lookup phase).getD [])
  let got := (res.pcrs.lookup pcrUKI).getD []
  require (want = got)
    { res with message :=
      "pcr 11 mismatch for phase " ++ phase ++ ": expected " ++ String.ofList want ++ ", got " ++
        String.ofList got }
  let c := (comparedPCRs stage).foldl (compare opts policy res.pcrs) {}
  let res := { res with learned := c.learned.map Prod.fst }
  require (c.mismatched = [])
    { res with message := "golden mismatch: " ++ "; ".intercalate c.mismatched ++
      (if c.firmwareMismatch then opts.firmwareVerdict policy.goldenFirmware else "") }
  require (c.unknown = [])
    { res with message := "no golden value for pcr " ++ ",".intercalate c.unknown ++
      " in the image policy: record one with `vm-manager image golden` or run with " ++
      "--attestation-learn-golden" }
  pure { res with verified := true, message := verifiedMessage q phase c }

end

/-- The clock, the policy provider and the critical sections a call of `SubmitQuote` goes through. -/
structure Access (m : Type → Type) where
  now : m Nat
  consume : String → Text → m Bool
  policyFor : String → m (Except PolicyError Policy)
  pinned : String → m (Option Text)
  enroll : String → Stage → Text → m Bool
  store : String → Stage → Result → m Unit

section
variable {m : Type → Type} [Monad m] (A : Access m) (T : TPM2) (C : Crypto) (opts : Options)

def reject (vmID : String) (stage : Stage) (res : Result) : m (Except String QuoteResult) := do
  A.store vmID stage res
  pure (.ok { verified := false, message := res.message })

def conclude (vmID : String) (req : QuoteRequest) (q : Quote) (res : Result) :
    m (Except String QuoteResult) := do
  if ← A.enroll vmID req.stage q.akFingerprint then
    A.store vmID req.stage res
    pure (.ok { verified := true, message := res.message })
  else
    let res := { res with verified := false }
    match ← A.pinned vmID with
    | some pinned =>
      reject A vmID req.stage { res with message := pinMismatch q.akFingerprint pinned }
    | none =>
      reject A vmID req.stage { res with message :=
        "no ak enrolled for this vm: an initrd-stage quote must verify first" }

def submitQuote (vmID : String) (req : QuoteRequest) : m (Except String QuoteResult) := do
  let res : Result := { time := ← A.now }
  if !(← A.consume vmID req.nonce) then
    reject A vmID req.stage { res with message := "unknown or expired nonce" }
  else if !req.stage.valid then
    reject A vmID req.stage { res with message := "unknown stage \"" ++ req.stage.name ++ "\"" }
  else match ← A.policyFor vmID with
  | .error (.noPolicy text) => reject A vmID req.stage { res with message := text }
  | .error (.other text) => pure (.error ("attestation policy for vm " ++ vmID ++ ": " ++ text))
  | .ok policy => match examine T C req res with
    | .error res => reject A vmID req.stage res
    | .ok (q, res) => do
      let pinned ← A.pinned vmID
      if pinned.any fun p => p != q.akFingerprint then
        reject A vmID req.stage
          { res with message := pinMismatch q.akFingerprint (pinned.getD []) }
      else match judge opts policy req.stage q res with
        | .error res => reject A vmID req.stage res
        | .ok res => conclude A vmID req q res

end

def alone (now : Nat) (policyFor : String → Except PolicyError Policy) :
    Access (StateM Verifier) where
  now := pure now
  consume vmID nonce := fun v =>
    let r := v.nonces.consume now vmID nonce
    (r.1, { v with nonces := r.2 })
  policyFor vmID := pure (policyFor vmID)
  pinned vmID := fun v => (v.pinned vmID, v)
  enroll vmID stage fingerprint := fun v => v.enroll vmID stage fingerprint
  store vmID stage r := fun v => ((), v.store vmID stage r)

end VmManager.Attest
