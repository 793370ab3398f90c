import VmManager.Agent.Exchange

/-! Retries and accepted quotes. Where the transport reports an error for a quote only if the IMDS never
gets it, at most one quote of a run is handled, and what was accepted stays accepted. A response that is
lost after the IMDS handled the quote makes the agent submit it again with a nonce that is used up. -/
namespace VmManager.Agent
open Encoding Attest Interleaving List
variable {e : Exchange} {k : Nat} {resp : Response} {r r' : Vm.VM} {p : Phase} {w : Want}

def Exchange.accepted (e : Exchange) : Bool :=
  match e.handling with
  | .judged res | .described res _ => res.verified
  | .answered ⟨_, .json answer⟩ => answer.verified
  | _ => false

def Exchange.live (e : Exchange) : Bool :=
  match e.want, e.handling with
  | .nonce, _ | _, .lost => false
  | .quote _, _ => true

def Exchange.answered (e : Exchange) : Bool :=
  match e.handling with
  | .answered _ => true
  | _ => false

def stored (r : Vm.VM) : Stage → Option Vm.Quote
  | .initrd => r.attestation.initrd
  | .ready => r.attestation.ready
  | .unknown _ => none

def StoredVerified (r : Vm.VM) (stage : Stage) : Prop := ∃ q, stored r stage = some q ∧ q.verified = true

/-- The transport reports an error for a quote only if it never reaches the IMDS. -/
def Reports (s : State) : Move → Prop
  | .fail k _ => ∀ e, s.exchanges[k]? = some e → e.live = false
  | _ => True

def Begins (cfg : Config) (s : State) : Prop := s.agent = attest cfg ∧ s.exchanges = []

def Exchange.Sound (r : Vm.VM) (e : Exchange) : Prop :=
  match e.want, e.handling with
  | _, .sent | _, .lost => True
  | .quote req, .judged _ => req.stage.valid = true
  | .quote req, .described res q => req.stage.valid = true ∧ q.verified = res.verified
  | .quote req, .answered resp =>
    e.accepted = true → resp.status = 200 ∧ StoredVerified r req.stage
  | .nonce, .answered resp => ∃ t, resp.body = .text t
  | .nonce, _ => False

/-- At most one quote is live, and none while the agent is about to send. -/
structure Once (s : State) : Prop where
  one : ∀ (k k' : Nat) (e e' : Exchange), s.exchanges[k]? = some e → s.exchanges[k']? = some e' →
    e.live = true → e'.live = true → k = k'
  waits : ∀ w k, s.agent = .waiting w k → (∃ e, s.exchanges[k]? = some e ∧ e.want = w) ∧
    ∀ (k' : Nat) (e' : Exchange), s.exchanges[k']? = some e' → e'.live = true → k' = k
  idle : ∀ w, s.agent = .sending w ∨ s.agent = .backoff w →
    ∀ (k : Nat) (e : Exchange), s.exchanges[k]? = some e → e.live = false
  sound : ∀ (k : Nat) (e : Exchange), s.exchanges[k]? = some e → e.Sound s.record
  rejected : ∀ err, s.agent = .done (.error err) → err.rejected = true →
    ∃ (k : Nat) (e : Exchange), s.exchanges[k]? = some e ∧ e.live = true ∧ e.answered = true ∧ e.accepted = false

theorem Exchange.Sound.live_of_accepted {r : Vm.VM} (h : e.Sound r) (ha : e.accepted = true) : e.live = true := by
  obtain ⟨w, h'⟩ := e
  cases w with
  | quote req => cases h' <;> simp_all [Exchange.accepted, Exchange.live]
  | nonce =>
    cases h' with
    | answered resp =>
      obtain ⟨status, body⟩ := resp
      obtain ⟨t, ht⟩ := h
      cases ht
      cases ha
    | sent => cases ha
    | lost => cases ha
    | judged res => exact h.elim
    | described res q => exact h.elim

theorem Exchange.Sound.mono (h : e.Sound r)
    (hkeep : e.accepted = true → ∀ stage, StoredVerified r stage → StoredVerified r' stage) : e.Sound r' := by
  obtain ⟨w, h'⟩ := e
  cases w with
  | nonce => cases h' <;> exact h
  | quote req =>
    cases h' with
    | answered resp => exact fun hacc => ⟨(h hacc).1, hkeep hacc _ (h hacc).2⟩
    | _ => exact h

theorem Exchange.Sound.of_stored (h : e.Sound r)
    (hstored : ∀ stage, stored r' stage = stored r stage) : e.Sound r' :=
  h.mono fun _ stage ⟨q, hq, hv⟩ => ⟨q, (hstored stage).trans hq, hv⟩

theorem stored_update {u : Vm.Update} (h : Keeps u = true) (r : Vm.VM) (now : Nat) (stage : Stage) :
    stored (r.update now u) stage = stored r stage := by
  have hf := r.passing_frame now (u := u)
  cases u with
  | booting | quoteRecorded => cases h
  | notified | nonceIssued | exited =>
    cases stage with
    | initrd => exact (hf rfl).initrd
    | ready => exact (hf rfl).ready
    | unknown => rfl
  | _ => cases stage <;> rfl

theorem stored_recordQuote (r : Vm.VM) {stage : Stage} (h : stage.valid = true) (q : Vm.Quote)
    (c : Vm.Console) : stored (r.recordQuote stage q c) stage = some q := by
  cases stage with
  | initrd => rfl
  | ready => rfl
  | unknown text => cases h

theorem fetchNonce_error {err : AttestError} (h : fetchNonce resp = .error err) :
    err.rejected = false := by
  unfold fetchNonce at h
  dsimp only at h
  split at h
  · cases h
    rfl
  · split at h <;> cases h
    rfl

namespace Once
variable {cfg : Config} {s : State}

theorem put (h : Once s) {e new : Exchange} {r : Vm.VM} {v : Verifier} (hk : s.exchanges[k]? = some e)
    (hans : e.answered = false) (hwant : new.want = e.want) (hlive : new.live = true → e.live = true)
    (hnew : new.Sound r) (hothers : ∀ (j : Nat) (e' : Exchange), j ≠ k → s.exchanges[j]? = some e' → e'.Sound r) :
    Once { s with exchanges := s.exchanges.set k new, record := r, verifier := v } := by
  have hlen : k < s.exchanges.length := (List.getElem?_eq_some_iff.1 hk).1
  have hself : (s.exchanges.set k new)[k]? = some new := by simp [hlen]
  -- every exchange was there before, with the same index and live if it is live now
  have hold : ∀ (j : Nat) (e' : Exchange), (s.exchanges.set k new)[j]? = some e' → e'.live = true →
      ∃ e₀, s.exchanges[j]? = some e₀ ∧ e₀.live = true := by
    intro j e' hj hl
    by_cases hjk : k = j
    · subst hjk
      rw [hself] at hj
      cases hj
      exact ⟨e, hk, hlive hl⟩
    · rw [getElem?_set_ne hjk] at hj
      exact ⟨e', hj, hl⟩
  constructor
  · intro i j e₁ e₂ hi hj hl₁ hl₂
    obtain ⟨e₁', hi, hl₁⟩ := hold i e₁ hi hl₁
    obtain ⟨e₂', hj, hl₂⟩ := hold j e₂ hj hl₂
    exact h.one i j e₁' e₂' hi hj hl₁ hl₂
  · intro w j hw
    obtain ⟨⟨e₀, hj, he₀⟩, hall⟩ := h.waits w j hw
    constructor
    · by_cases hjk : k = j
      · subst hjk
        rw [hk] at hj
        cases hj
        exact ⟨new, hself, hwant.trans he₀⟩
      · exact ⟨e₀, (getElem?_set_ne hjk).trans hj, he₀⟩
    · intro j' e' hj' hl
      obtain ⟨e₁, hj', hl⟩ := hold j' e' hj' hl
      exact hall j' e₁ hj' hl
  · intro w hw j e' hj
    by_contra hl
    obtain ⟨e₀, hj, hl⟩ := hold j e' hj (by simpa using hl)
    rw [h.idle w hw j e₀ hj] at hl
    cases hl
  · intro j e' hj
    by_cases hjk : k = j
    · subst hjk
      rw [hself] at hj
      cases hj
      exact hnew
    · rw [getElem?_set_ne hjk] at hj
      exact hothers j e' (Ne.symm hjk) hj
  · intro err hdone hrej
    obtain ⟨j, e', hj, hl, ha, hacc⟩ := h.rejected err hdone hrej
    have hjk : k ≠ j := by
      rintro rfl
      rw [hk] at hj
      cases hj
      rw [hans] at ha
      cases ha
    exact ⟨j, e', (getElem?_set_ne hjk).trans hj, hl, ha, hacc⟩

theorem goes (h : Once s)
    (hwaits : ∀ w k, p ≠ .waiting w k)
    (hidle : ∀ w, p = .sending w ∨ p = .backoff w →
      ∀ (k : Nat) (e : Exchange), s.exchanges[k]? = some e → e.live = false)
    (hrejected : ∀ err, p = .done (.error err) → err.rejected = true →
      ∃ (k : Nat) (e : Exchange), s.exchanges[k]? = some e ∧ e.live = true ∧ e.answered = true ∧
        e.accepted = false) : Once { s with agent := p } where
  one := h.one
  waits w k hw := absurd hw (hwaits w k)
  idle := hidle
  sound := h.sound
  rejected := hrejected

theorem send (h : Once s) (hs : s.agent = .sending w) :
    Once { s with
      agent := .waiting w s.exchanges.length, exchanges := s.exchanges ++ [⟨w, .sent⟩] } := by
  -- nothing was live before
  have hlast : ∀ (k : Nat) (e : Exchange), (s.exchanges ++ [⟨w, .sent⟩])[k]? = some e →
      e.live = true → k = s.exchanges.length := by
    intro k e hk hl
    by_cases hlt : k < s.exchanges.length
    · rw [getElem?_append_left hlt] at hk
      rw [h.idle w (.inl hs) k e hk] at hl
      cases hl
    · have hbound := (List.getElem?_eq_some_iff.1 hk).1
      simp only [length_append, length_cons, length_nil] at hbound
      omega
  constructor
  · intro i j e₁ e₂ hi hj hl₁ hl₂
    rw [hlast i e₁ hi hl₁, hlast j e₂ hj hl₂]
  · intro w' k hw
    cases hw
    exact ⟨⟨⟨w, .sent⟩, getElem?_concat_length, rfl⟩, hlast⟩
  · intro w' hw
    rcases hw with hw | hw <;> cases hw
  · intro k e hk
    rw [getElem?_append] at hk
    split at hk
    · exact h.sound k e hk
    · have he := mem_singleton.1 (mem_of_getElem? hk)
      subst he
      cases w <;> exact trivial
  · intro err hdone
    cases hdone

theorem sound_of_ne (h : Once s) {k j : Nat} {e e' : Exchange} (r : Vm.VM) (hk : s.exchanges[k]? = some e)
    (hl : e.live = true) (hjk : j ≠ k) (hj : s.exchanges[j]? = some e') : e'.Sound r := by
  have hsound := h.sound j e' hj
  refine hsound.mono fun hacc => ?_
  exact absurd (h.one j k e' e hj hk (hsound.live_of_accepted hacc) hl) hjk

theorem judge (h : Once s) {k now status : Nat} {req : QuoteRequest} (hk : s.exchanges[k]? = some ⟨.quote req, .sent⟩) :
    Once (s.judge cfg k now status ⟨.quote req, .sent⟩ req) := by
  have hothers : ∀ (j : Nat) (e' : Exchange), j ≠ k → s.exchanges[j]? = some e' → e'.Sound s.record :=
    fun j e' _ hj => h.sound j e' hj
  unfold State.judge
  cases hv : validate req with
  | error err =>
    exact h.put hk rfl rfl (fun _ => rfl) (fun hacc => by cases hacc) hothers
  | ok u =>
    have hstage : req.stage.valid = true := by
      unfold validate at hv
      obtain ⟨_, hvalid, -⟩ := Tpmquote.bind_eq_ok_iff.1 hv
      exact Tpmquote.require_eq_ok_iff.1 hvalid
    dsimp only
    split
    · exact h.put hk rfl rfl (fun _ => rfl) (fun hacc => by cases hacc) hothers
    · exact h.put hk rfl rfl (fun _ => rfl) hstage hothers

theorem deliver (h : Once s)
    (hw : s.agent = .waiting w k) (hk : s.exchanges[k]? = some e) (hr : e.handling = .answered resp) :
    Once { s with agent := resume cfg w resp } := by
  obtain ⟨⟨e₀, hk₀, hwant⟩, hall⟩ := h.waits w k hw
  rw [hk] at hk₀
  cases hk₀
  cases w with
  | nonce =>
    -- the agent has sent no quote yet
    have hnone : ∀ (j : Nat) (e' : Exchange), s.exchanges[j]? = some e' → e'.live = false := by
      intro j e' hj
      by_contra hl
      obtain rfl := hall j e' hj (by simpa using hl)
      rw [hk] at hj
      cases hj
      simp [Exchange.live, hwant] at hl
    have hquote : ∀ nonce, Once { s with agent := quoteFor cfg nonce } := by
      intro nonce
      unfold quoteFor
      split
      · apply h.goes (fun _ _ => by simp) (fun _ _ => hnone)
        intro err herr hrej
        cases herr
        cases hrej
      · exact h.goes (fun _ _ => by simp) (fun _ _ => hnone) fun err herr => by cases herr
    cases hf : fetchNonce resp with
    | error err =>
      have hresume : resume cfg .nonce resp = .done (.error err) := by simp [resume, hf]
      rw [hresume]
      apply h.goes (fun _ _ => by simp) (fun _ _ => hnone)
      intro err' herr hrej
      cases herr
      rw [fetchNonce_error hf] at hrej
      cases hrej
    | ok nonce =>
      have hresume : resume cfg .nonce resp = quoteFor cfg nonce := by simp [resume, hf]
      rw [hresume]
      exact hquote nonce
  | quote req =>
    apply h.goes
    · intro w' k' hp
      cases hp
    · intro w' hp
      rcases hp with hp | hp <;> cases hp
    · intro err hp hrej
      have hpost : postQuote resp = .error err := by injection hp
      obtain ⟨want, handling⟩ := e
      cases hwant
      cases hr
      refine ⟨k, _, hk, rfl, rfl, ?_⟩
      by_contra hacc
      have hacc : Exchange.accepted ⟨.quote req, .answered resp⟩ = true := by simpa using hacc
      obtain ⟨hstatus, -⟩ := h.sound k _ hk hacc
      obtain ⟨status, body⟩ := resp
      cases body with
      | text t => cases hacc
      | json answer =>
        have hverified : answer.verified = true := hacc
        have hstatus : status = 200 := hstatus
        simp [postQuote, hverified, hstatus] at hpost

theorem begins (hs : Begins cfg s) : Once s := by
  obtain ⟨hagent, hnil⟩ := hs
  have hnone : ∀ (k : Nat) (e : Exchange), s.exchanges[k]? ≠ some e := by simp [hnil]
  constructor
  · exact fun k _ e _ hk => absurd hk (hnone k e)
  · intro w k hw
    rw [hw] at hagent
    unfold attest quoteFor at hagent
    split at hagent
    · cases hagent
    split at hagent
    · cases hagent
    · split at hagent <;> cases hagent
  · exact fun w _ k e hk => absurd hk (hnone k e)
  · exact fun k e hk => absurd hk (hnone k e)
  · intro err hdone hrej
    rw [hdone] at hagent
    unfold attest quoteFor at hagent
    split at hagent
    · cases hagent
      cases hrej
    · split at hagent
      · cases hagent
      split at hagent <;> cases hagent
      cases hrej

theorem step (h : Once s) {mv : Move} {s' : State} (hk : Reports s mv)
    (hs : Agent.step cfg s mv = some s') : Once s' := by
  have hothers : ∀ (k j : Nat) (e' : Exchange), j ≠ k → s.exchanges[j]? = some e' →
      e'.Sound s.record := fun _ j e' _ hj => h.sound j e' hj
  cases mv with simp only [Agent.step] at hs
  | send =>
    split at hs <;> cases hs
    exact h.send ‹_›
  | lose k =>
    split at hs <;> cases hs
    rename_i w hx
    refine h.put hx rfl rfl ?_ ?_ (hothers k)
    · cases w <;> exact fun hl => by cases hl
    · cases w <;> exact trivial
  | refuse k r =>
    split at hs <;> cases hs
    rename_i w hx
    refine h.put hx rfl rfl ?_ ?_ (hothers k)
    · cases w <;> exact fun hl => hl
    · cases w with
      | nonce => cases r <;> exact ⟨_, rfl⟩
      | quote req => cases r <;> exact fun hacc => by cases hacc
  | issue k now nonce =>
    split at hs <;> cases hs
    rename_i hx
    refine h.put hx rfl rfl (fun hl => hl) ⟨nonce, rfl⟩ ?_
    exact fun j e' _ hj => (h.sound j e' hj).of_stored (stored_update (u := .nonceIssued) rfl s.record now)
  | judge k now status =>
    split at hs <;> cases hs
    rename_i req hx
    exact h.judge hx
  | describe k now =>
    split at hs <;> cases hs
    rename_i req res hx
    exact h.put hx rfl rfl (fun hl => hl) ⟨h.sound k _ hx, rfl⟩ (hothers k)
  | record k c =>
    split at hs <;> cases hs
    rename_i req res q hx
    obtain ⟨hstage, hq⟩ := h.sound k _ hx
    refine h.put hx rfl rfl (fun hl => hl) ?_ fun j e' hjk hj => h.sound_of_ne _ hx rfl hjk hj
    intro hacc
    have hverified : res.verified = true := hacc
    refine ⟨by simp [answerOf, hverified], q, stored_recordQuote _ hstage q c, ?_⟩
    rw [hq, hverified]
  | deliver k =>
    split at hs
    · rename_i w j w' resp hw hx
      split at hs
      · rename_i hjk
        subst hjk
        cases hs
        exact h.deliver hw hx rfl
      · cases hs
    · cases hs
  | cut k err =>
    split at hs
    · split at hs <;> cases hs
      apply h.goes (fun _ _ => by simp) (fun _ hp => by simp at hp)
      intro err' herr hrej
      cases herr
      cases hrej
    · cases hs
  | fail k err =>
    split at hs
    · rename_i w j hw
      split at hs
      · rename_i hjk
        subst hjk
        cases hs
        refine h.goes (fun _ _ => by simp) (fun _ _ i e hi => ?_) fun err herr => by cases herr
        by_contra hl
        obtain rfl := (h.waits w j hw).2 i e hi (by simpa using hl)
        exact hl (hk e hi)
      · cases hs
    · cases hs
  | retry =>
    split at hs <;> cases hs
    rename_i w hw
    exact h.goes (fun _ _ => by simp) (fun _ _ => h.idle w (.inr hw)) fun err herr => by cases herr
  | timeout err =>
    split at hs <;> cases hs
    apply h.goes (fun _ _ => by simp) (fun _ hp => by simp at hp)
    intro err' herr hrej
    cases herr
    cases hrej
  | service now u =>
    split at hs <;> cases hs
    exact { h with sound := fun k e hk =>
      (h.sound k e hk).of_stored (stored_update ‹_› s.record now) }

end Once

/-- What was accepted stays accepted, if the transport reports an error for a quote only where the IMDS
never gets it. -/
theorem accepted_quote_kept (cfg : Config) {s : State}
    (h : Reached (step cfg) (Begins cfg) Reports s) {k : Nat} {e : Exchange} {req : QuoteRequest}
    (hk : s.exchanges[k]? = some e) (hreq : e.want = .quote req) (hacc : e.accepted = true) :
    (∀ err, s.agent = .done (.error err) → err.rejected = false) ∧
      (e.answered = true → ∃ q, stored s.record req.stage = some q ∧ q.verified = true) := by
  have honce : Once s := h.invariant (I := Once) (fun _ hs => Once.begins hs)
    (fun _ _ _ hs hk hstep => hs.step hk hstep)
  have hsound := honce.sound k e hk
  constructor
  · intro err hdone
    by_contra hrej
    obtain ⟨j, e', hj, hl, -, hnot⟩ := honce.rejected err hdone (by simpa using hrej)
    obtain rfl := honce.one k j e e' hk hj (hsound.live_of_accepted hacc) hl
    rw [hk] at hj
    cases hj
    rw [hacc] at hnot
    cases hnot
  · intro hans
    obtain ⟨want, handling⟩ := e
    cases hreq
    cases handling with
    | answered resp => exact (hsound hacc).2
    | _ => cases hans

namespace Sample
open Attest.Sample

def config : Config where
  stage := .initrd
  quote stage nonce := if nonce = nonceOf quote1 then .ok (request quote1 stage) else .error "no quote"
  vmID := "vm1"
  tpm2 := tpm2
  crypto := crypto
  policyFor _ := .ok policy

def start : State where
  agent := attest config
  verifier := {}
  record :=
    { serial := 0, id := "vm1", spec := { name := "vm1", network := "default" }, state := .booting
      cid := 3, machineID := "", attestation := { required := true }, createdAt := 0 }

def asks : List Move := [.send, .issue 0 1000 (nonceOf quote1), .deliver 0, .send]

def handles (k now : Nat) : List Move := [.judge k now 500, .describe k now, .record k {}]

def reportsCheck (s : State) : Move → Bool
  | .fail k _ => (s.exchanges[k]?).all fun e => !e.live
  | _ => true

theorem reports_of_check (s : State) (mv : Move) (h : reportsCheck s mv = true) : Reports s mv := by
  cases mv with
  | fail k err =>
    intro e he
    simpa [reportsCheck, he] using h
  | _ => exact trivial

def requestLost : List Move :=
  asks ++ [.lose 1, .fail 1 "connection reset", .retry, .send] ++ handles 2 2000 ++ [.deliver 2]

def responseLost : List Move :=
  asks ++ handles 1 2000 ++ [.fail 1 "connection reset", .retry, .send] ++ handles 2 3000 ++
    [.deliver 2]

def acceptedAt (s : State) (k : Nat) : Bool :=
  match s.exchanges[k]? with
  | some ⟨.quote req, h⟩ =>
    req.stage == .initrd && Exchange.accepted ⟨.quote req, h⟩ && Exchange.answered ⟨.quote req, h⟩
  | _ => false

theorem acceptedAt_eq_true {s : State} (h : acceptedAt s k = true) :
    ∃ e req, s.exchanges[k]? = some e ∧ e.want = .quote req ∧ req.stage = .initrd ∧
      e.accepted = true ∧ e.answered = true := by
  unfold acceptedAt at h
  split at h
  · rename_i req handling hk
    simp only [Bool.and_eq_true, beq_iff_eq] at h
    exact ⟨_, req, hk, rfl, h.1.1, h.1.2, h.2⟩
  · cases h

def isRejected : Phase → Bool
  | .done (.error err) => err.rejected
  | _ => false

theorem isRejected_eq_true (h : isRejected p = true) :
    ∃ err, p = .done (.error err) ∧ err.rejected = true := by
  unfold isRejected at h
  split at h
  · exact ⟨_, rfl, h⟩
  · cases h

end Sample
open Sample

theorem accepted_quote_kept_after_loss : ∃ s, Reached (step config) (Begins config) Reports s ∧
      (∀ err, s.agent = .done (.error err) → err.rejected = false) ∧
      ∃ q, stored s.record .initrd = some q ∧ q.verified = true := by
  have hrun : (execAll (step config) reportsCheck start requestLost).any
      (fun s => acceptedAt s 2) = true := by decide +kernel
  obtain ⟨s, hs, hacc⟩ := (Option.any_eq_true _ _).1 hrun
  have hreached : Reached (step config) (Begins config) Reports s :=
    (Reached.start ⟨rfl, rfl⟩).execAll reports_of_check hs
  obtain ⟨e, req, hk, hreq, hstage, hacc, hans⟩ := acceptedAt_eq_true hacc
  have hkept := accepted_quote_kept config hreached hk hreq hacc
  rw [hstage] at hkept
  exact ⟨s, hreached, hkept.1, hkept.2 hans⟩

theorem retry_undoes_accepted_quote : ∃ s, Reached (step config) (Begins config) (fun _ _ => True) s ∧
      (∃ e, s.exchanges[1]? = some e ∧ e.accepted = true) ∧
      (∃ err, s.agent = .done (.error err) ∧ err.rejected = true) ∧
      ∃ q, stored s.record .initrd = some q ∧ q.verified = false := by
  have hrun : (execAll (step config) (fun _ _ => true) start responseLost).any
      (fun s => acceptedAt s 1 && isRejected s.agent &&
        (stored s.record .initrd).any fun q => !q.verified) = true := by decide +kernel
  obtain ⟨s, hs, hundone⟩ := (Option.any_eq_true _ _).1 hrun
  simp only [Bool.and_eq_true] at hundone
  obtain ⟨⟨hacc, hrej⟩, hstored⟩ := hundone
  obtain ⟨e, -, hk, -, -, hacc, -⟩ := acceptedAt_eq_true hacc
  obtain ⟨q, hq, hverified⟩ := (Option.any_eq_true _ _).1 hstored
  exact ⟨s, (Reached.start ⟨rfl, rfl⟩).execAll (fun _ _ _ => trivial) hs, ⟨e, hk, hacc⟩,
    isRejected_eq_true hrej, q, hq, by simpa using hverified⟩

end VmManager.Agent
