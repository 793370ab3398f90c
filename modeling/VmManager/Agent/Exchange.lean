import VmManager.Agent.Quote
import VmManager.Encoding.Split
import VmManager.Interleaving.Stepper
import VmManager.Vm.Record

/-! One run of the agent against the IMDS of its VM. The transport may lose a request or a response and
then reports an error, upon which the agent sends the same request again; a request the agent has given
up on may still be handled. A handler of the IMDS goes through the verifier, the look at the verifier's
result and the record one after the other, and others come in between. -/
namespace VmManager.Agent
open Encoding Tpmquote Attest Interleaving

structure QuoteAnswer where
  stage : Stage
  verified : Bool
  userDataReleased : Bool
  message : String
deriving DecidableEq, Repr

inductive Body where
  | text (t : Text)
  | json (answer : QuoteAnswer)

structure Response where
  status : Nat
  body : Body

section agent

def maxNonceBody : Nat := 1024
def maxErrorBody : Nat := 512

/-- An error of `attest`; `rejected` says whether it wraps ErrRejected. -/
structure AttestError where
  text : String
  rejected : Bool := false
deriving DecidableEq, Repr

def describe (status : Nat) (body : Text) : String :=
  let text := (trimSpace body).take maxErrorBody
  let text := if status = 403 ∧ text = [] then
    "the IMDS does not map this address to a VM".toList else text
  if text = [] then "HTTP " ++ toString status
  else "HTTP " ++ toString status ++ ": " ++ String.ofList text

/-- What `fetchNonce` makes of an answer. A body that is JSON does not occur. -/
def fetchNonce (resp : Response) : Except AttestError Text :=
  let body := match resp.body with
    | .text t => t.take maxNonceBody
    | .json _ => []
  if resp.status ≠ 200 then .error ⟨"fetch nonce: " ++ describe resp.status body, false⟩
  else
    let nonce := trimSpace body
    match decodeNonce nonce with
    | .error err => .error ⟨"fetch nonce: " ++ err, false⟩
    | .ok _ => .ok nonce

def postQuote (resp : Response) : Except AttestError QuoteAnswer :=
  match resp.body with
  | .text t => .error ⟨"post quote: " ++ describe resp.status (t.take maxErrorBody), false⟩
  | .json res =>
    if resp.status = 200 ∧ res.verified then .ok res
    else if resp.status = 200 ∨ resp.status = 403 then
      .error ⟨"quote rejected by the verifier: " ++ res.message, true⟩
    else .error ⟨"post quote: HTTP " ++ toString resp.status ++ ": " ++ res.message, false⟩

inductive Want where
  | nonce
  | quote (req : QuoteRequest)

inductive Phase where
  | sending (w : Want)
  | waiting (w : Want) (k : Nat)
  | backoff (w : Want)
  | done (o : Except AttestError QuoteAnswer)

structure Config where
  stage : Stage
  nonce : Text := []
  quote : Stage → Text → Except String QuoteRequest
  vmID : String
  tpm2 : TPM2
  crypto : Crypto
  options : Attest.Options := {}
  policyFor : String → Except PolicyError Policy

variable (cfg : Config)

def quoteFor (nonce : Text) : Phase :=
  match cfg.quote cfg.stage nonce with
  | .error err => .done (.error ⟨"build quote: " ++ err, false⟩)
  | .ok req => .sending (.quote req)

def attest : Phase :=
  if cfg.stage.valid = false then
    .done (.error ⟨"stage must be \"initrd\" or \"ready\"", false⟩)
  else if cfg.nonce = [] then .sending .nonce
  else quoteFor cfg cfg.nonce

def resume (w : Want) (resp : Response) : Phase :=
  match w with
  | .nonce => match fetchNonce resp with
    | .error err => .done (.error err)
    | .ok nonce => quoteFor cfg nonce
  | .quote _ => .done (postQuote resp)

end agent

section server

inductive Handling where
  | sent
  | lost
  | judged (res : QuoteResult)
  | described (res : QuoteResult) (q : Vm.Quote)
  | answered (resp : Response)

structure Exchange where
  want : Want
  handling : Handling

structure State where
  agent : Phase
  exchanges : List Exchange := []
  verifier : Verifier
  record : Vm.VM

def validate (q : QuoteRequest) : Except String Unit := do
  require (q.stage.valid = true) "invalid argument: stage must be \"initrd\" or \"ready\""
  require (q.nonce ≠ []) "invalid argument: nonce is required"
  require (¬ (q.akPub = [] ∨ q.quote = [] ∨ q.signature = []))
    "invalid argument: ak_pub, quote and signature are required"
  require (q.pcrs ≠ []) "invalid argument: pcrs is required"

inductive Refusal where
  | unknownAddress
  | malformed (err : String)
  | noNonce

def Refusal.response : Refusal → Response
  | .unknownAddress => ⟨403, .text "forbidden: client address is not a managed VM".toList⟩
  | .malformed err => ⟨400, .text ("malformed quote: " ++ err).toList⟩
  | .noNonce => ⟨500, .text "attestation unavailable".toList⟩

def answerOf (req : QuoteRequest) (res : QuoteResult) : Response :=
  ⟨if res.verified then 200 else 403, .json
    { stage := req.stage, verified := res.verified
      userDataReleased := releasesUserData req.stage res.verified, message := res.message }⟩

/-- The quote `recordingAttestor.SubmitQuote` records for an answer of the verifier. -/
def recordedQuote (v : Verifier) (vmID : String) (req : QuoteRequest) (res : QuoteResult) (now : Nat) : Vm.Quote :=
  let details := v.result vmID req.stage
  { verified := res.verified, message := res.message, time := now
    akFingerprint := (details.map fun r => r.akFingerprint).getD []
    pcrs := (details.map fun r => r.pcrs).getD []
    learned := (details.map fun r => r.learned).getD [] }

/-- A write of the record that neither is a quote of this run nor begins a new boot. -/
def Keeps : Vm.Update → Bool
  | .booting _ | .quoteRecorded .. => false
  | _ => true

inductive Move where
  | send
  | lose (k : Nat)
  | refuse (k : Nat) (r : Refusal)
  | issue (k now : Nat) (nonce : Text)
  | judge (k now status : Nat)
  | describe (k now : Nat)
  | record (k : Nat) (c : Vm.Console)
  | deliver (k : Nat)
  | cut (k : Nat) (err : String)
  | fail (k : Nat) (err : String)
  | retry
  | timeout (err : String)
  | service (now : Nat) (u : Vm.Update)

def State.put (s : State) (k : Nat) (e : Exchange) (h : Handling) : State :=
  { s with exchanges := s.exchanges.set k { e with handling := h } }

variable (cfg : Config)

def State.judge (s : State) (k now status : Nat) (e : Exchange) (req : QuoteRequest) : State :=
  match validate req with
  | .error err => s.put k e (.answered ⟨400, .text err.toList⟩)
  | .ok _ =>
    let r := (submitQuote (alone now cfg.policyFor) cfg.tpm2 cfg.crypto cfg.options cfg.vmID req).run
      s.verifier
    let s := { s with verifier := r.2 }
    match r.1 with
    | .error _ => s.put k e (.answered ⟨status, .text "quote not processed".toList⟩)
    | .ok res => s.put k e (.judged res)

def step (s : State) (mv : Move) : Option State :=
  match mv with
  | .send => match s.agent with
    | .sending w => some { s with
        agent := .waiting w s.exchanges.length, exchanges := s.exchanges ++ [⟨w, .sent⟩] }
    | _ => none
  | .lose k => match s.exchanges[k]? with
    | some ⟨w, .sent⟩ => some (s.put k ⟨w, .sent⟩ .lost)
    | _ => none
  | .refuse k r => match s.exchanges[k]? with
    | some ⟨w, .sent⟩ => some (s.put k ⟨w, .sent⟩ (.answered r.response))
    | _ => none
  | .issue k now nonce => match s.exchanges[k]? with
    | some ⟨.nonce, .sent⟩ => some { s.put k ⟨.nonce, .sent⟩ (.answered ⟨200, .text nonce⟩) with
        verifier := { s.verifier with nonces := s.verifier.nonces.issue now cfg.vmID nonce }
        record := s.record.onNonce now }
    | _ => none
  | .judge k now status => match s.exchanges[k]? with
    | some ⟨.quote req, .sent⟩ => some (s.judge cfg k now status ⟨.quote req, .sent⟩ req)
    | _ => none
  | .describe k now => match s.exchanges[k]? with
    | some ⟨.quote req, .judged res⟩ => some (s.put k ⟨.quote req, .judged res⟩
        (.described res (recordedQuote s.verifier cfg.vmID req res now)))
    | _ => none
  | .record k c => match s.exchanges[k]? with
    | some ⟨.quote req, .described res q⟩ => some
        { s.put k ⟨.quote req, .described res q⟩ (.answered (answerOf req res)) with
          record := s.record.recordQuote req.stage q c }
    | _ => none
  | .deliver k => match s.agent, s.exchanges[k]? with
    | .waiting w j, some ⟨_, .answered resp⟩ =>
      if j = k then some { s with agent := resume cfg w resp } else none
    | _, _ => none
  | .cut k err => match s.agent, s.exchanges[k]? with
    | .waiting _ j, some ⟨_, .answered _⟩ =>
      if j = k then some { s with agent := .done (.error ⟨err, false⟩) } else none
    | _, _ => none
  | .fail k _ => match s.agent with
    | .waiting w j => if j = k then some { s with agent := .backoff w } else none
    | _ => none
  | .retry => match s.agent with
    | .backoff w => some { s with agent := .sending w }
    | _ => none
  | .timeout err => match s.agent with
    | .done _ => none
    | _ =>
      let err : AttestError := ⟨"imds not reachable within the timeout: " ++ err, false⟩
      some { s with agent := .done (.error err) }
  | .service now u =>
    if Keeps u then some { s with record := s.record.update now u } else none

end server

end VmManager.Agent
