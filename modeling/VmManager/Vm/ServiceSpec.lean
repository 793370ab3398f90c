import VmManager.Vm.LifecycleSpec
import VmManager.Attest.Checks

/-! The rest of the service against the outline, and with it the guard of every operation in every
run. -/
namespace VmManager.Vm
open Encoding Attest Interleaving Interleaving.Outline List Option Vm.System Op
variable {cfg : Config} {s s' s₀ : System} {t e p n : Nat} {P Q : System → Prop} {x : Outside} {m : Move}
  {ev : Event} {I : System → Prop} {stage : Stage} {h : Processes} {es : List Nat} {res : Result} {α : Type}
  {c : Call} {o : Op} {name id : String} {source ip : Network.Addr} {data : Bytes} {req : QuoteRequest}
  {states : List Network.State}

section Networks
variable [Firm t P]

theorem serveIMDS_spec :
    MeetsE cfg t P (serveIMDS name) (fun _ => P) P := by
  refine .bindE (.liftE (quiet_rule (R := fun _ => P) fun _ hp hf => ?_))
    fun running => ?_
  · split at hf <;> cases hf
    · rename_i hreg
      exact ⟨isSome_iff_ne_none.1 hreg, rfl, hp⟩
    · exact ⟨trivial, rfl, hp⟩
  refine .ite (fun _ => .pureE) fun _ => ?_
  refine .bindE getNetwork_spec fun n => ?_
  refine .bindE (fail_rule (keep_rule fun _ _ hf => ?_) fun _ _ hp => hp.1) fun _ => ?_
  · split at hf
    · split at hf <;> cases hf <;> exact ⟨trivial, rfl⟩
    · cases hf
      exact ⟨trivial, rfl⟩
    · cases hf
  · refine .liftE (quiet_rule fun _ hp hf => ?_)
    split at hf <;> cases hf
    · rename_i hreg
      exact ⟨isSome_iff_ne_none.1 hreg, rfl, hp.1⟩
    · rename_i hfree
      exact ⟨⟨by simpa using hfree, hp.2⟩, rfl, hp.1⟩

theorem addNetwork_spec (hP : ∀ s, P s → s.serving = true) (spec : Network.Spec) :
    MeetsE cfg t P (addNetwork spec ∅) (fun _ => P) P := by
  refine keep_rule fun {s i o a} _ hp hf => ?_
  split at hf
  · split at hf
    · cases hf
    rename_i hmu
    split at hf <;> cases hf
    · rename_i m hm
      exact ⟨⟨by simpa using hmu, .inl ⟨hP s hp, rfl⟩, m, hm⟩, rfl⟩
    · exact ⟨trivial, rfl⟩
  · cases hf
    exact ⟨trivial, rfl⟩
  · cases hf

end Networks

section Administration

structure Removing (t : Nat) (name : String) (n : Nat) (s : System) : Prop where
  netMu : s.netMu = some t
  get : s.nets.get name = some n
  serving : s.serving = true

instance {name : String} {n : Nat} : Firm t (Removing t name n) where
  keeps s s' _ hk h := by
    obtain ⟨hm, hb⟩ := hk.netMu h.netMu
    refine ⟨hm, ?_, hk.later.serving h.serving⟩
    rw [Network.Manager.get, hb]
    exact h.get

theorem checkNetwork_spec : MeetsE cfg t (fun s => s.serving = true) (checkNetwork name)
      (fun n => Removing t name n) fun s => s.serving = true := by
  refine step_rule fun hi hp hf => ?_
  split at hf
  · split at hf
    · cases hf
    rename_i hmu
    split at hf <;> cases hf
    · rename_i n hn
      exact ⟨⟨by simpa using hmu, hp, hn⟩, rfl, (Network.Manager.check_ok hn).1, hp⟩
    · exact ⟨trivial, hp⟩
  · cases hf
    exact ⟨trivial, hp⟩
  · cases hf

theorem removeNetwork_spec : MeetsE cfg t (fun s => s.serving = true) (removeNetwork name)
      (fun _ s => s.serving = true) fun s => s.serving = true := by
  refine .bindE checkNetwork_spec fun n => step_rule fun {s i o a} hi hp hf => ?_
  have hg : ∀ clean, (net (.delete name n clean)).Guard cfg s t :=
    fun _ => ⟨hp.netMu, hp.serving, hp.get⟩
  split at hf <;> cases hf <;> exact ⟨hg _, hp.serving⟩

theorem createNetwork_spec {spec : Network.Spec} :
    MeetsE cfg t (fun s => s.serving = true) (createNetwork spec)
      (fun _ s => s.serving = true) fun s => s.serving = true := by
  refine .bindE (addNetwork_spec (fun _ hp => hp) _) fun _ => ?_
  refine .bindE (.liftE serveIMDS_spec) fun r => ?_
  cases r with
  | ok => exact persistNetworks_spec fun _ hp => hp
  | error err =>
    refine .bindE (.liftE removeNetwork_spec) fun r => throw_rule fun _ _ hp => ?_
    cases r <;> exact hp

theorem shutServer_spec [Firm t P] {srv : Option Nat} :
    Meets cfg t P (shutServer srv) fun _ => P := by
  cases srv with
  | none => exact .pure'
  | some k => exact perform_quiet rfl fun _ _ _ => trivial

theorem deleteNetwork_spec : MeetsE cfg t (fun s => s.serving = true) (deleteNetwork name)
      (fun _ s => s.serving = true) fun s => s.serving = true := by
  refine .bindE (.liftE (look_rule (R := fun _ s => s.serving = true)
    fun _ _ hp => hp)) fun users => ?_
  refine .ite (fun _ => .throwE) fun _ => ?_
  refine .bindE removeNetwork_spec fun _ => ?_
  refine .bindE (.liftE (quiet_rule (R := fun _ s => s.serving = true)
    fun _ hp hf => ?_)) fun srv => ?_
  · cases hf
    exact ⟨rfl, rfl, hp⟩
  refine .bindE (.liftE shutServer_spec) fun _ => ?_
  exact persistNetworks_spec fun _ hp => hp

def Opened (t e k : Nat) (s : System) : Prop := ∃ l, s.acts t = .forward (.opened e k) :: l

theorem Opened.stable {k : Nat} : (outline cfg).Stable t (Opened t e k) := by
  intro s s' _ hr h
  obtain ⟨l, hl⟩ := h
  exact ⟨l, (Rely.own hr).1.trans hl⟩

theorem openForward_spec :
    MeetsE cfg t (fun s => s.Alive e) (openForward e n ip)
      (Opened t e) fun _ => True := by
  refine step_rule fun {s i o a} _ ha hf => ?_
  split at hf
  · split at hf
    · cases hf
      exact ⟨trivial, trivial⟩
    · split at hf
      · cases hf
        exact ⟨trivial, trivial⟩
      · cases hf
        refine ⟨⟨ha, rfl⟩, s.acts t, ?_⟩
        rw [acts_effect, if_pos ⟨rfl, rfl⟩]
  · cases hf
    exact ⟨trivial, trivial⟩
  · cases hf

theorem forwardTo_spec {network : String} :
    MeetsE cfg t (fun s => s.Alive e) (forwardTo e network ip)
      (fun _ _ => True) fun _ => True := by
  refine .bindE (fail_rule getNetwork_spec fun _ _ _ => trivial) fun n => ?_
  refine .bindE (use_rule (fun _ _ hp => hp.1) openForward_spec) fun k => .liftE ?_
  refine stable_step Opened.stable fun _ hp hf => ?_
  cases hf
  exact ⟨hp, trivial⟩

theorem forward_spec {port : Int} : MeetsE cfg t (fun s => s.serving = true)
    (forward id port) (fun _ _ => True) fun _ => True := by
  refine .ite (fun _ => throw_rule fun _ _ _ => trivial) fun _ => ?_
  refine .bindE (fail_rule lookupEntry_spec fun _ _ _ => trivial) fun e => ?_
  refine .bindE (.liftE (record_spec fun s hp => hp.2.1)) fun r => ?_
  cases r.ip with
  | none => exact throw_rule fun _ _ _ => trivial
  | some ip =>
    refine .ite (fun _ => throw_rule fun _ _ _ => trivial) fun _ => ?_
    exact use_rule (fun _ _ hp => hp.1.2.1) forwardTo_spec

end Administration

section Requests
variable [Firm t P]

theorem resolveInstance_spec :
    Meets cfg t P (resolveInstance source) fun _ => P := by
  refine quiet_rule fun _ hp hf => ?_
  split at hf
  · split at hf
    · cases hf
      exact ⟨trivial, rfl, hp⟩
    · obtain ⟨_, _, hf⟩ := map_eq_some_iff.1 hf
      cases hf
      exact ⟨trivial, rfl, hp⟩
  · cases hf

theorem imdsNonce_spec :
    Meets cfg t P (imdsNonce source) fun _ => P := by
  refine .bind resolveInstance_spec fun id => ?_
  cases id with
  | none => exact .pure'
  | some id =>
    refine .bind (quiet_rule (R := fun _ => P) fun _ hp hf => ?_) fun _ =>
      quiet_rule fun hi hp hf => ?_
    · split at hf <;> cases hf
      exact ⟨trivial, rfl, hp⟩
    · split at hf <;> cases hf
      · rename_i e he
        obtain ⟨ha, rfl⟩ := hi.vms id e he
        exact ⟨⟨ha, he⟩, rfl, hp⟩
      · exact ⟨trivial, rfl, hp⟩

theorem exportReport_spec :
    Meets cfg t P (exportReport id data) fun _ => P := by
  refine quiet_rule fun _ hp hf => ?_
  split at hf <;> cases hf <;> exact ⟨trivial, rfl, hp⟩

theorem imdsReport_spec :
    Meets cfg t P (imdsReport source data) fun _ => P := by
  refine .bind resolveInstance_spec fun id => ?_
  cases id with
  | none => exact .pure'
  | some id =>
    refine .bind (quiet_rule (R := fun _ => P) fun hi hp hf => ?_) fun stored =>
      .ite (fun _ => exportReport_spec) fun _ => .pure'
    split at hf
    · rename_i e he
      obtain ⟨-, rfl⟩ := hi.vms id e he
      split at hf <;> cases hf
      · exact ⟨⟨‹_›, e, rfl, he⟩, rfl, hp⟩
      · rename_i hw
        exact ⟨by simpa [Guard, HostOp.Guard] using hw, rfl, hp⟩
    · cases hf
      exact ⟨trivial, rfl, hp⟩

end Requests

section Quote
variable {l : List Op}

structure Quoting (t : Nat) (id : String) (l : List Op) (s : System) : Prop where
  acts : s.acts t = l
  submitting : s.submitting.get t = some id

theorem Quoting.stable : (outline cfg).Stable t (Quoting t id l) := fun _ _ _ hr h =>
  ⟨(Rely.own hr).1.trans h.acts, (Rely.own hr).2.trans h.submitting⟩

theorem Quoting.attest (h : Quoting t id l s) {o : AttestOp} (ho : ∀ m, o.onSubmitting t m = m) :
    Quoting t id (.attest o :: l) (s.effect t (.attest o)) := by
  refine ⟨?_, ?_⟩
  · rw [acts_effect, if_pos ⟨rfl, rfl⟩, h.acts]
  · change (o.onSubmitting t s.submitting).get t = some id
    rw [ho]
    exact h.submitting

theorem Quoting.look_rule (f : System → α) :
    Meets cfg t (Quoting t id l) (look f) fun _ => Quoting t id l := by
  refine stable_step Quoting.stable fun _ hp hf => ?_
  cases hf
  exact ⟨trivial, by rw [acts_effect, if_neg (by simp [isRead])]; exact hp.acts, hp.submitting⟩

/-- The verdict the goroutine has stored: a quote is verified only after the whole sequence of
checks. -/
def Stored (t : Nat) (id : String) (stage : Stage) (res : QuoteResult) (s : System) : Prop :=
  ∃ r rest, s.acts t = .attest (.store id stage r) :: rest ∧ res.verified = r.verified ∧
    res.message = r.message ∧ (r.verified = true → ∃ nonce, rest = System.accepted id stage nonce r)

def Submitted (t : Nat) (id : String) (stage : Stage) : Except String QuoteResult → System → Prop
  | .error _ => fun _ => True
  | .ok res => fun s => s.submitting.get t = some id ∧ Stored t id stage res s

theorem Submitted.stable (r : Except String QuoteResult) :
    (outline cfg).Stable t (Submitted t id stage r) := by
  intro s s' _ hr h
  cases r with
  | error => trivial
  | ok res => exact ⟨(Rely.own hr).2.trans h.1, by rw [Stored, (Rely.own hr).1]; exact h.2⟩

def Assembled (t : Nat) (id : String) (stage : Stage) (q : Quote) (s : System) : Prop :=
  s.submitting.get t = some id ∧ s.Assembled t id stage q

theorem Assembled.stable {q : Quote} :
    (outline cfg).Stable t (Assembled t id stage q) := fun _ _ _ hr h =>
  ⟨(Rely.own hr).2.trans h.1, by rw [System.Assembled, (Rely.own hr).1]; exact h.2⟩

theorem reject_spec (hv : res.verified = false) :
    Meets cfg t (Quoting t id l) (reject (concurrent cfg id) id stage res)
      (Submitted t id stage) := by
  refine .bind (Q := fun _ => Submitted t id stage (.ok ⟨false, res.message⟩)) ?_
    fun _ => .pure'
  refine stable_step Quoting.stable fun {s i o a} _ hp hf => ?_
  cases hf
  have hno : ∀ {p : Prop}, res.verified = true → p := fun h => nomatch hv.symm.trans h
  refine ⟨⟨hp.submitting, hno⟩, hp.submitting, res, s.acts t, ?_, hv.symm, rfl, hno⟩
  rw [acts_effect, if_pos ⟨rfl, rfl⟩]

theorem conclude_spec {req : QuoteRequest} {q : Tpmquote.Quote} {nonce : Text}
    (hst : req.stage.valid = true) (hv : res.verified = true)
    (hak : res.akFingerprint = q.akFingerprint) (hne : q.akFingerprint ≠ []) : (outline cfg).Triple t
      (Quoting t id [.attest (.consume id nonce true), .attest (.submit id)])
      (conclude (concurrent cfg id) id req q res) (Submitted t id req.stage) := by
  refine .bind (stable_step (R := fun ok => Quoting t id
    [.attest (.enroll id req.stage q.akFingerprint ok), .attest (.consume id nonce true),
      .attest (.submit id)]) Quoting.stable fun {s i o a} _ hp hf => ?_) fun ok => ?_
  · cases hf
    exact ⟨⟨hp.submitting, ⟨nonce, hp.acts⟩, hst, rfl, hne⟩, hp.attest fun _ => rfl⟩
  cases ok with
  | true =>
    refine .bind (Q := fun _ => Submitted t id req.stage (.ok ⟨true, res.message⟩)) ?_
      fun _ => .pure'
    refine stable_step Quoting.stable fun {s i o a} _ hp hf => ?_
    cases hf
    have hacc : s.acts t = System.accepted id req.stage nonce res := by
      rw [hp.acts, System.accepted, hak]
    refine ⟨⟨hp.submitting, fun _ => ⟨nonce, hacc⟩⟩, hp.submitting, res, _, ?_, hv.symm, rfl, fun _ => ⟨nonce, rfl⟩⟩
    rw [acts_effect, if_pos ⟨rfl, rfl⟩, hacc]
  | false =>
    refine .bind (Quoting.look_rule _) fun pin => ?_
    cases pin <;> exact reject_spec rfl

theorem submitQuote_spec : Meets cfg t (fun s => s.acts t = [])
      (submitQuote (concurrent cfg id) cfg.tpm2 cfg.crypto cfg.attest id req)
      (Submitted t id req.stage) := by
  have hnil : (outline cfg).Stable t fun s => s.acts t = [] :=
    fun _ _ _ hr h => (Rely.own hr).1.trans h
  refine .bind (stable_step (R := fun _ => Quoting t id [.attest (.submit id)]) hnil
    fun _ hp hf => ?_) fun now => ?_
  · cases hf
    refine ⟨hp, ?_, (GoMap.get_insert ..).trans (if_pos rfl)⟩
    rw [acts_effect, if_pos ⟨rfl, rfl⟩, hp]
  refine .bind (stable_step (R := fun ok => Quoting t id
    [.attest (.consume id req.nonce ok), .attest (.submit id)]) Quoting.stable
    fun _ hp hf => ?_) fun ok => ?_
  · cases hf
    exact ⟨⟨hp.acts, hp.submitting, rfl⟩, hp.attest fun _ => rfl⟩
  refine .ite (fun _ => reject_spec rfl) fun hok => ?_
  obtain rfl : ok = true := by simpa using hok
  refine .ite (fun _ => reject_spec rfl) fun hst => ?_
  have hst : req.stage.valid = true := by simpa using hst
  refine .bind (Quoting.look_rule _) fun policy => ?_
  match policy with
  | .error (.noPolicy text) => exact reject_spec rfl
  | .error (.other text) => exact .pure Quoting.stable fun _ _ _ => trivial
  | .ok policy =>
    have hrej := @examine_rejects cfg.tpm2 cfg.crypto req { time := now }
    have hacc := @examine_eq_ok_iff cfg.tpm2 cfg.crypto req { time := now }
    cases hx : examine cfg.tpm2 cfg.crypto req { time := now } with
    | error res => exact reject_spec (hrej res hx)
    | ok x =>
      obtain ⟨q, res⟩ := x
      have hres : res.verified = false ∧ res.akFingerprint = q.akFingerprint := by
        rw [(hacc.1 hx).2]
        exact ⟨rfl, rfl⟩
      refine .bind (Quoting.look_rule _) fun pinned => ?_
      refine .ite (fun _ => reject_spec hres.1) fun _ => ?_
      cases hj : judge cfg.attest policy req.stage q res with
      | error res' =>
        exact reject_spec ((judge_rejects req.stage q res res' hj).trans hres.1)
      | ok res' =>
        obtain ⟨hv, hak⟩ := judge_accepts hj
        have hne : q.akFingerprint ≠ [] := by
          rw [parse_fingerprint (hacc.1 hx).1.parsed]
          exact fingerprint_ne_nil q.pub
        exact conclude_spec hst hv (hak.trans hres.2) hne

theorem imdsQuote_spec :
    Meets cfg t (fun s => s.acts t = []) (imdsQuote cfg source req) fun _ _ => True := by
  have hnil : (outline cfg).Stable t fun s => s.acts t = [] :=
    fun _ _ _ hr h => (Rely.own hr).1.trans h
  refine .bind (stable_step (R := fun _ s => s.acts t = []) hnil fun {s i o a} _ hp hf => ?_)
    fun id => ?_
  · have hread : o = .read → o.Guard cfg s t ∧ (s.effect t o).acts t = [] := by
      rintro rfl
      exact ⟨trivial, by rw [acts_effect, if_neg (by simp [isRead])]; exact hp⟩
    refine hread ?_
    split at hf
    · split at hf
      · cases hf
        rfl
      · obtain ⟨_, _, hf⟩ := map_eq_some_iff.1 hf
        cases hf
        rfl
    · cases hf
  cases id with
  | none => exact .pure hnil fun _ _ _ => trivial
  | some id =>
    refine .bind submitQuote_spec fun r => ?_
    cases r with
    | error err =>
      refine stable_step (Submitted.stable _) fun _ hp hf => ?_
      cases hf
      exact ⟨trivial, trivial⟩
    | ok res =>
      refine .bind (stable_step (R := fun d => Assembled t id req.stage
        { verified := res.verified, message := res.message, time := d.2
          akFingerprint := (d.1.map fun r => r.akFingerprint).getD []
          pcrs := (d.1.map fun r => r.pcrs).getD []
          learned := (d.1.map fun r => r.learned).getD [] })
        (Submitted.stable _) fun _ hp hf => ?_) fun details => ?_
      · cases hf
        obtain ⟨hsub, r, rest, hacts, hv, hm, hacc⟩ := hp
        refine ⟨⟨hsub, rfl, r, rest, hacts⟩, hsub, r, _, rest, ?_, hv, hm, rfl, rfl, rfl, hacc⟩
        rw [acts_effect, if_pos ⟨rfl, rfl⟩, hacts]
      · refine stable_step Assembled.stable fun hi hp hf => ⟨?_, trivial⟩
        split at hf <;> cases hf
        · rename_i e he
          obtain ⟨ha, rfl⟩ := hi.vms id e he
          exact ⟨ha, he, hp⟩
        · trivial

end Quote

section Load
variable {ids : Option (List String)}

structure Reattaching (t e : Nat) (ids : Option (List String)) (r : VM) (s : System) : Prop where
  loads : s.Loads t ids (some e)
  newest : s.Newest t e
  reads : s.Reads e r
  processes : (s.record e).processes = r.processes
  phase : (s.record e).phase = r.phase
  cid : (s.record e).cid = r.cid

namespace Reattaching
variable {r : VM}

instance : Firm t (Reattaching t e ids r) where
  keeps s s' hi hk h := by
    have hl := Firm.keeps (P := fun s => s.Loads t ids (some e)) s s' hi hk h.loads
    obtain ⟨h1, h2⟩ := hk.loadingRecord e h.loads.2.2.1 hl.2.2.1
    exact ⟨hl, Firm.keeps (P := fun s => s.Newest t e) s s' hi hk h.newest,
      Lasting.later (P := fun s => s.Reads e r) s s' hi hk.later h.reads, h1.trans h.processes, h2.trans h.phase,
      (hk.cid e h.reads.1 (.inr (.inr h.loads.2.2.1))).trans h.cid⟩

theorem inCharge (h : Reattaching t e ids r s) : s.InCharge t e := .inr ⟨h.loads.1, h.loads.2.2.1⟩

end Reattaching

structure Regained (t e : Nat) (ids : Option (List String)) (r : VM) (s : System) : Prop where
  reattaching : Reattaching t e ids r s
  lease : s.lease e ≠ none

structure Reattachable (t e : Nat) (ids : Option (List String)) (r : VM) (s : System) : Prop where
  reattaching : Reattaching t e ids r s
  equipped : s.Equipped e r.phase

instance {r : VM} : Firm t (Regained t e ids r) where
  keeps s s' hi hk h := by
    refine ⟨Firm.keeps s s' hi hk h.reattaching, ?_⟩
    rw [hk.lease e h.reattaching.inCharge]
    exact h.lease

instance {r : VM} : Firm t (Reattachable t e ids r) where
  keeps s s' hi hk h := ⟨Firm.keeps s s' hi hk h.reattaching, hk.equipped h.reattaching.inCharge h.equipped⟩

theorem System.Newest.effect (hi : Inv s) (hg : o.Guard cfg s t) (hadds : o.adds = false)
    (hl : (s.effect t o).loader = s.loader) (h : s.Newest t e) : (s.effect t o).Newest t e := by
  obtain ⟨hnext, hback⟩ := hi.made_of_not_adds hg hadds
  have hlater := hi.later hg
  exact ⟨hl.trans h.loader, (hlater.ident e h.alive).1, h.next.trans hnext.symm,
    fun e' ha hne => hlater.acts t _ (h.others e' (hback e' ha) hne)⟩

theorem Reattaching.attached (hi : Inv s)
    (h : Reattaching t e ids r s) (hg : (net (.attach e n id ip)).Guard cfg s t) :
    Regained t e ids r (s.effect t (.net (.attach e n id ip))) := by
  obtain ⟨h1, h2, h3, h4⟩ := h.loads
  refine ⟨⟨⟨h1, h2, h3, fun hids => (h4 hids).of_keeps (hi.restored_effect hg h1)⟩,
    h.newest.effect hi hg rfl rfl, h.reads, h.processes, h.phase, h.cid⟩, ?_⟩
  have hlease : (s.effect t (.net (.attach e n id ip))).lease e = some (n, ip) := Function.update_self ..
  rw [hlease]
  simp

theorem Regained.subscribed {r : VM} (hi : Inv s) (h : Regained t e ids r s)
    (hg : (Op.notify (.subscribe e r.cid)).Guard cfg s t) :
    Reattachable t e ids r (s.effect t (.notify (.subscribe e r.cid))) :=
  ⟨{ h.reattaching with newest := h.reattaching.newest.effect hi hg rfl rfl }, h.lease,
    fun _ => s.notify.starting_subscribe_self e r.cid⟩

theorem Regained.subscribe_spec [hQ : Lasting Q] {r : VM} :
    Meets cfg t (fun s => Regained t e ids r s ∧ Q s) (subscribe e r.phase r.cid)
      fun _ s => Reattachable t e ids r s ∧ Q s := by
  cases hph : r.phase with
  | install =>
    exact ret_rule fun s _ hp => ⟨⟨hp.1.reattaching, hp.1.lease, by rw [hph]; simp⟩, hp.2⟩
  | boot =>
    have hg : ∀ s, Regained t e ids r s → (Op.notify (.subscribe e r.cid)).Guard cfg s t :=
      fun s hp => ⟨.inr ⟨hp.reattaching.loads.1, hp.reattaching.loads.2.2.1⟩, hp.reattaching.cid⟩
    exact perform_rule (fun s _ hp => hg s hp.1) fun s hi hp =>
      ⟨hp.1.subscribed hi (hg s hp.1), hQ.later s _ hi (hi.later (hg s hp.1)) hp.2⟩

theorem System.Loads.alive (hi : Inv s) (h : s.Loads t ids (some e)) : s.Alive e := ((hi.entry e).loading h.2.2.1).1

theorem Reattachable.reattaches {r : VM} {tpm : Option Nat} (hi : Inv s)
    (hr : Reattachable t e ids r s) (hproc : r.processes = some h) (hq : h.qemu < s.nextQemu) :
    (Op.reattach e r.phase ⟨h.qemu, tpm⟩).Guard cfg s t ∧ let s' := s.effect t (.reattach e r.phase ⟨h.qemu, tpm⟩)
      s'.Loads t ids none ∧ s'.Newest t e ∧ s'.Follows t e s.nextProc := by
  obtain ⟨hre, heq⟩ := hr
  obtain ⟨h1, h2, h3, h4⟩ := hre.loads
  have hg : (Op.reattach e r.phase ⟨h.qemu, tpm⟩).Guard cfg s t :=
    ⟨h1, h3, hre.phase, ⟨h, hre.processes.trans hproc, rfl, hq⟩, heq⟩
  have ha := (hi.later hg).ident e (hre.loads.alive hi)
  refine ⟨hg, ⟨h1, h2, rfl, h4⟩, hre.newest.effect hi hg rfl rfl, ⟨?_, ?_⟩, ⟨ha.1, nofun⟩, Nat.lt_succ_self _, ?_⟩
  all_goals simp [effect, apply, addProc, hq]

theorem attachTPM_spec [Firm t P] {tpm : Option Nat} :
    Meets cfg t P (attachTPM tpm) fun _ => P := by
  refine quiet_rule fun _ hp hf => ?_
  split at hf <;> cases hf <;> exact ⟨trivial, rfl, hp⟩

theorem attachQemu_spec [Firm t P] {q : Nat} : MeetsE cfg t P (attachQemu q)
    (fun _ s => P s ∧ q < s.nextQemu) P := by
  refine quiet_rule fun _ hp hf => ?_
  split at hf
  · split at hf <;> cases hf
    exact ⟨trivial, rfl, hp, ‹_›⟩
  · cases hf
    exact ⟨trivial, rfl, hp⟩
  · cases hf

theorem resumeStop_spec [Firm t P] {state : State} (hP : ∀ s, Inv s → P s → P (s.effect t .read)) :
    Meets cfg t P (resumeStop p state) fun _ => P := by
  refine .ite (fun _ => spawn_rule fun {s n i o a l} hi hp hf => ?_) fun _ => .pure'
  cases hf
  refine ⟨trivial, fun j c hj => ?_, hP s hi hp⟩
  cases j with
  | zero =>
    cases hj
    trivial
  | succ j => simp at hj

theorem reattachOpened_spec {r : VM} (hproc : r.processes = some h) :
    MeetsE cfg t (Reattaching t e ids r) (reattachOpened e r h)
      (fun _ s => s.Loads t ids none ∧ s.Newest t e) (Reattaching t e ids r) := by
  refine .bindE getNetwork_spec fun n => ?_
  refine .bindE (fail_rule (attachNetwork_rule (e := e) (R := fun _ => Regained t e ids r)
    (fun s _ hp => ?_) fun s ip hi hp hg => hp.1.attached hi hg) fun _ _ hp => hp.1) fun _ => ?_
  · obtain ⟨hre, hcalled⟩ := hp
    exact ⟨hre.inCharge, ⟨hre.reads.1, by rw [hre.reads.2.2]; exact hcalled⟩, hre.reads.2.1⟩
  refine .bindE (.liftE attachTPM_spec) fun tpm => ?_
  refine .bindE (.liftE attachQemu_spec) fun x => ?_
  cases x with
  | error err =>
    exact .bindE (.liftE stopTPM_spec) fun _ => throw_rule fun _ _ hp =>
      hp.reattaching
  | ok =>
    refine .bindE (.liftE Regained.subscribe_spec) fun _ => ?_
    refine .bindE (.liftE (step_rule
      (R := fun p s => s.Loads t ids none ∧ s.Newest t e ∧ s.Follows t e p)
      fun {s i o a} hi hp hf => ?_)) fun p => ?_
    · cases hf
      exact hp.1.reattaches hi hproc hp.2
    refine .bindE (.liftE (supervise_spec (Q := fun s => s.Loads t ids none ∧ s.Newest t e)
      (fun _ _ hp => hp.2.2) fun _ _ hi hp hg => ⟨hp.1, hp.2.1.effect hi hg rfl rfl⟩)) fun _ => ?_
    exact .liftE (resumeStop_spec fun s hi hp =>
      ⟨hp.1, hp.2.effect hi (show read.Guard cfg s t from trivial) rfl rfl⟩)

theorem reattach_spec : MeetsE cfg t (fun s => s.Loads t ids (some e) ∧ s.Newest t e) (reattach e)
      (fun _ s => s.Loads t ids none ∧ s.Newest t e)
        fun s => s.Loads t ids (some e) ∧ s.Newest t e := by
  refine .bindE (.liftE (look_rule (R := Reattaching t e ids)
    fun s hi hp => ⟨hp.1, hp.2, ⟨hp.2.alive, rfl, rfl⟩, rfl, rfl, rfl⟩)) fun r => ?_
  cases hproc : r.processes with
  | none => exact throw_rule fun _ _ hp => ⟨hp.loads, hp.newest⟩
  | some h =>
    refine .bindE (fail_rule (openVolume_spec fun _ _ hp => hp.newest.alive)
      fun _ _ hp => ⟨hp.loads, hp.newest⟩) fun _ => ?_
    refine .bindE (.liftE (reattachOpened_spec hproc)) fun x => ?_
    cases x with
    | ok => exact retE_rule fun _ _ hp => hp
    | error err =>
      refine .bindE (.liftE (perform_quiet rfl fun _ _ hp => hp.newest.alive))
        fun _ => throw_rule fun _ _ hp => ⟨hp.loads, hp.newest⟩

theorem reattachLive_spec {live : Bool} :
    Meets cfg t (fun s => s.Loads t ids (if live then some e else none) ∧ s.Newest t e)
      (reattachLive e live) fun _ s => s.Loads t ids none ∧ s.Newest t e := by
  cases live with
  | false => exact ret_rule fun _ _ hp => hp
  | true =>
    refine .bind reattach_spec fun r => ?_
    cases r with
    | ok => exact ret_rule fun _ _ hp => hp
    | error err =>
      have hg : ∀ s, Inv s → s.Loads t ids (some e) ∧ s.Newest t e →
          (update e (.reattachFailed err)).Guard cfg s t :=
        fun s hi hp => ⟨hp.2.alive, hp.1.1, hp.1.2.2.1⟩
      exact perform_rule hg fun s hi hp =>
        ⟨⟨hp.1.1, hp.1.2.1, rfl, hp.1.2.2.2⟩, hp.2.effect hi (hg s hi hp) rfl rfl⟩

def Visiting (t : Nat) (rest : List String) : Option (Nat × Bool) → System → Prop
  | none => fun s => s.Loads t (some rest) none ∧ s.WrittenBack t
  | some (e, live) => fun s =>
      s.Loads t (some rest) (if live then some e else none) ∧ s.Newest t e

instance {rest : List String} {x : Option (Nat × Bool)} : Firm t (Visiting t rest x) := by
  rcases x with _ | ⟨e, live⟩ <;> unfold Visiting <;> infer_instance

theorem loadOne_spec {rest : List String} :
    Meets cfg t (fun s => s.Loads t (some (id :: rest)) none ∧ s.WrittenBack t)
      (loadOne id) fun _ s => s.Loads t (some rest) none ∧ s.WrittenBack t := by
  refine .bind (step_rule (R := Visiting t rest) fun {s i o a} hi hp hf => ?_) fun found => ?_
  · obtain ⟨⟨h1, h2, h3, h4⟩, -, hall⟩ := hp
    have hres : s.Restored := h4 nofun
    have hskip : (loadSkip id).Guard cfg s t ∧
        Visiting t rest none (s.effect t (.loadSkip id)) := by
      have hg : (loadSkip id).Guard cfg s t := ⟨h1, h3, ⟨rest, h2⟩, hall⟩
      refine ⟨hg, ⟨h1, by simp [effect, apply, h2], h3, fun _ => hres⟩, h1, fun e ha => ?_⟩
      exact (hi.later hg).acts t _ (hall e ((hi.made_of_not_adds hg rfl).2 e ha))
    split at hf
    · cases hf
      exact hskip
    · rename_i r hr
      split at hf <;> cases hf
      · rename_i hid
        have hg : (loadEntry id r).Guard cfg s t := ⟨h1, h3, hr, hid, ⟨rest, h2⟩, hres, hall⟩
        refine ⟨hg, ⟨h1, by simp [effect, apply, h2], rfl, fun _ => hres⟩, h1, ?_, rfl,
          fun e ha hne => ?_⟩
        · have he : (s.effect t (.loadEntry id r)).record s.nextEntry = r.loaded := by
            simp [effect, apply, addEntry, System.record]
          rw [Alive, he, VM.loaded_serial]
          exact hi.disk id r hr
        · have hold := (hi.alive_of_effect hg ha).resolve_right fun hx => hne hx.2
          exact (hi.later hg).acts t _ (hall e hold)
      · exact hskip
  rcases found with _ | ⟨e, live⟩
  · exact ret_rule fun _ _ hp => hp
  · refine .bind reattachLive_spec fun _ => ?_
    have hg : ∀ s, s.Loads t (some rest) none ∧ s.Newest t e →
        (update e .resaved).Guard cfg s t := fun s hp => ⟨hp.2.alive, hp.1.1, hp.1.2.2.1⟩
    refine perform_rule (fun s _ hp => hg s hp) fun s hi hp => ?_
    have hkept := hp.2.effect hi (hg s hp) rfl rfl
    refine ⟨Firm.quiet (P := fun s => s.Loads t (some rest) none) hi (hg s hp) rfl hp.1, hkept.loader, fun e' ha => ?_⟩
    by_cases he : e' = e
    · rw [he, acts_effect, if_pos ⟨rfl, rfl⟩]
      exact mem_cons_self
    · exact hkept.others e' ha he

theorem loadAll_spec {l : List String} :
    Meets cfg t (fun s => s.Loads t (some l) none ∧ s.WrittenBack t) (loadAll l)
      fun _ s => s.Loads t (some []) none ∧ s.WrittenBack t := by
  induction l with
  | nil => exact .pure'
  | cons id rest ih => exact .bind loadOne_spec fun _ => ih

structure Restoring (t : Nat) (rest : List Network.State) (s : System) : Prop where
  loads : s.Loads t none none
  left : ∀ st ∈ rest, st ∈ s.host.networksFile
  held : ∀ st ∈ s.host.networksFile, st ∈ rest ∨ s.Holds st

instance {rest : List Network.State} : Firm t (Restoring t rest) where
  keeps s s' hi hk h := by
    obtain ⟨hfile, hkeep⟩ := hk.restored h.loads.1
    refine ⟨Firm.keeps (P := fun s => s.Loads t none none) s s' hi hk h.loads,
      fun st hst => ?_, fun st hst => (h.held st (hfile ▸ hst)).imp_right (hkeep st)⟩
    rw [hfile]
    exact h.left st hst

theorem Restoring.added {st : Network.State} {rest : List Network.State} (hi : Inv s)
    (h : Restoring t (st :: rest) s) (hg : (net (.add st.spec st.leases)).Guard cfg s t) :
    Restoring t rest (s.effect t (.net (.add st.spec st.leases))) := by
  have hq : Restoring t (st :: rest) (s.effect t (.net (.add st.spec st.leases))) := Firm.quiet hi hg rfl h
  refine ⟨hq.loads, (forall_mem_cons.1 hq.left).2, fun st' hst' => ?_⟩
  rcases hq.held st' hst' with hmem | hheld
  · rcases mem_cons.1 hmem with rfl | hmem
    · obtain ⟨-, -, m, hm⟩ := hg
      have hnets : (s.effect t (.net (.add st'.spec st'.leases))).nets = m := by
        simp [effect, apply, NetOp.onNets, hm, Except.toOption]
      refine .inr ?_
      rw [System.Holds, hnets]
      refine ⟨?_, fun id ip hl => ⟨s.nets.next, Network.Manager.leaseOf_added hm hl⟩⟩
      rw [Network.Manager.get_add hm, if_pos rfl]
      simp
    · exact .inl hmem
  · exact .inr hheld

theorem restoreAll_spec :
    MeetsE cfg t (Restoring t states) (restoreAll states)
      (fun _ => Restoring t []) fun _ => True := by
  induction states with
  | nil => exact retE_rule fun _ _ hp => hp
  | cons st rest ih =>
    refine .bindE (step_rule (R := Post (fun _ => Restoring t rest) fun _ => True)
      fun {s i o a} hi hp hf => ?_) fun _ => ih
    split at hf
    · split at hf
      · cases hf
      rename_i hmu
      split at hf <;> cases hf
      · rename_i m hm
        have hg : (net (.add st.spec st.leases)).Guard cfg s t :=
          ⟨by simpa using hmu, .inr ⟨hp.loads.1, hp.loads.2.1, hp.left st mem_cons_self⟩, m, hm⟩
        exact ⟨hg, hp.added hi hg⟩
      · exact ⟨trivial, trivial⟩
    · cases hf
      exact ⟨trivial, trivial⟩
    · cases hf

theorem serveAll_spec [Firm t P] :
    MeetsE cfg t P (serveAll states) (fun _ => P) P := by
  induction states with
  | nil => exact .pureE
  | cons st rest ih => exact .bindE serveIMDS_spec fun _ => ih

theorem load_spec : MeetsE cfg t (fun s => s.Loads t none none) load
    (fun _ _ => True) (fun _ => True) := by
  refine .bindE (.liftE (step_rule (R := Restoring t) fun {s i o a} hi hp hf => ?_))
    fun states => ?_
  · cases hf
    exact ⟨⟨hp.1, rfl⟩, hp, fun _ hst => hst, fun _ hst => .inl hst⟩
  refine .bindE restoreAll_spec fun _ => ?_
  refine .bindE (fail_rule serveAll_spec fun _ _ _ => trivial) fun _ => ?_
  refine .bindE (.liftE (step_rule
    (R := fun ids s => s.Loads t (some ids) none ∧ s.WrittenBack t) fun {s i o a} hi hp hf => ?_))
    fun ids => ?_
  · cases hf
    obtain ⟨⟨h1, h2, h3, -⟩, -, hheld⟩ := hp
    have hg : (loadDirs (s.disk.keys.insertionSort (· ≤ ·))).Guard cfg s t := ⟨h1, h2, rfl⟩
    refine ⟨hg, ⟨h1, rfl, h3, fun _ st hst => (hheld st hst).resolve_left not_mem_nil⟩, h1, fun e ha => ?_⟩
    exact absurd ((hi.made_of_not_adds hg rfl).2 e ha) (hi.unlisted (by rw [h1]; simp) h2 e)
  refine .bindE (.liftE loadAll_spec) fun _ => ?_
  exact .liftE (perform_rule (Q := fun _ => True) (fun s _ hp =>
    ⟨hp.1.1, hp.1.2.2.1, hp.1.2.1, hp.1.2.2.2 (by simp), hp.2.2⟩) fun _ _ _ => trivial)

end Load

section Close

structure LockedLate (t e : Nat) (s : System) : Prop where
  locked : Locked t e s
  closing : s.closing = true
  late : (s.entries e).late = true

instance : Firm t (LockedLate t e) where
  keeps s s' hi hk h :=
    ⟨Firm.keeps s s' hi hk h.locked, hk.later.closing h.closing, (hk.steady e h.locked.opMu).late.trans h.late⟩

namespace LockedLate

theorem of_lock (hi : Inv s) (hc : s.closing = true) (hg : (Op.lock e).Guard cfg s t) :
    LockedLate t e (s.effect t (.lock e)) :=
  ⟨.of_lock hi hg, hc, by simpa [effect, apply, modifyEntry] using hc⟩

theorem visited (h : LockedLate t e s) : s.Visited e fun _ => True :=
  ⟨h.closing, h.late, fun _ q hq => ⟨h.locked.covered q hq, trivial⟩⟩

theorem visited_none (h : LockedLate t e s) (hp : (s.entries e).proc = none) : s.Visited e fun _ => False :=
  ⟨h.closing, h.late, fun _ q hq => absurd hq (h.locked.covered.none hp q)⟩

theorem visited_gone (hi : Inv s) (h : LockedLate t e s) (hp : ¬ s.Present e) : s.Visited e fun _ => False :=
  ⟨h.closing, h.late, fun ho q hq => absurd hq (((hi.entry e).gone ho h.locked.alive hp).2.1 q)⟩

end LockedLate

structure Stopping (t e p : Nat) (s : System) : Prop where
  locked : LockedLate t e s
  proc : (s.entries e).proc = some p ∨ (s.entries e).proc = none ∨ s.Visited e fun _ => False

instance : Firm t (Stopping t e p) where
  keeps s s' hi hk h := by
    refine ⟨Firm.keeps s s' hi hk h.locked, ?_⟩
    have hs := hk.steady e h.locked.locked.opMu
    rcases h.proc with hp | hp | hv
    · rcases hs.proc with hx | hx
      · exact .inl (hx.trans hp)
      · exact .inr (.inl hx)
    · rcases hs.proc with hx | hx
      · exact .inr (.inl (hx.trans hp))
      · exact .inr (.inl hx)
    · exact .inr (.inr (hk.later.visited e _ hv))

theorem stop_closing : MeetsE cfg t (fun s => LockedLate t e s ∧ s.Names e id) (stop id)
      (fun _ s => LockedLate t e s ∧ s.Visited e fun _ => False)
        (fun s => LockedLate t e s ∧ s.Visited e fun _ => False) := by
  refine stop_rule (L := fun e' s => (LockedLate t e s ∧ s.Alive e') ∧
      (e' = e ∨ s.Visited e fun _ => False)) (R := Stopping t e) ?_ ?_ (fun _ _ hl => hl.1.2)
    ?_ ?_ ?_
  · exact fun s hi hp hn => ⟨hp.1, hp.1.visited_gone hi fun hx => by
      rw [Present, hp.2.2, hn] at hx
      cases hx⟩
  · intro s e' hi hp he'
    refine ⟨⟨hp.1, (hi.vms id e' he').1⟩, ?_⟩
    by_cases hee : e' = e
    · exact .inl hee
    · refine .inr (hp.1.visited_gone hi fun hx => ?_)
      rw [Present, hp.2.2, he'] at hx
      exact hee (some.inj hx)
  · rintro s e' hi ⟨⟨hl, -⟩, rfl | hv⟩ hidle
    · rcases hidle with hd | hp
      · exact ⟨hl, hl.visited_gone hi (hl.locked.gone hd)⟩
      · exact ⟨hl, hl.visited_none hp⟩
    · exact ⟨hl, hv⟩
  · rintro s e' p - ⟨⟨hl, -⟩, rfl | hv⟩ hp
    · exact ⟨hl, .inl hp⟩
    · exact ⟨hl, .inr (.inr hv)⟩
  · rintro s p hi ⟨hl, hp | hp | hv⟩ hdone
    · cases ((hi.entry e).proc p hp).2.2.symm.trans hdone
    · exact ⟨hl, hl.visited_none hp⟩
    · exact ⟨hl, hv⟩

theorem closeStop_spec {owner : Nat} :
    Meets cfg t (fun s => s.closing = true ∧ s.Alive e) (closeStop e owner)
      fun _ _ => True := by
  refine .bind (lock_rule
    (fun _ hi hp => settled_of_serving hi (hi.closing hp.1) hp.2)
    fun s hi hp hg => LockedLate.of_lock hi hp.1 hg) fun _ => ?_
  refine .bind (record_spec fun s hp => hp.locked.alive) fun r => ?_
  refine .bind (use_rule (fun _ _ hp => ⟨hp.1, hp.2.names⟩) stop_closing) fun x => ?_
  refine .bind (unlock_rule (Q := fun s => s.Visited e fun _ => False) fun s _ hp => ?_)
    fun _ => ?_
  · cases x <;> exact ⟨hp.1.locked, hp.2⟩
  · exact perform_rule (Q := fun _ => True) (fun _ _ hp => hp) fun _ _ _ => trivial

theorem cancelAndWait_spec [Firm t P] : Meets cfg t P cancelAndWait fun _ => P := by
  refine .bind (perform_quiet rfl fun _ _ _ => trivial) fun _ =>
    quiet_rule fun _ hp hf => ?_
  split at hf <;> cases hf
  exact ⟨trivial, rfl, hp⟩

/-- What Close knows of an entry it is done with: a QEMU that is left was detached. -/
def Ended (cfg : Config) (t e : Nat) (s : System) : Prop :=
  ∃ R : Nat → Prop, s.Visited e R ∧ ∀ q, R q → cfg.detachOnClose = true ∧ .shutdown (.detachQemu q) ∈ s.acts t

instance : Lasting (Ended cfg t e) where
  later := by
    rintro s s' - hl ⟨R, hv, hR⟩
    exact ⟨R, hl.visited e R hv, fun q hq => ⟨(hR q hq).1, hl.acts t _ (hR q hq).2⟩⟩

theorem waitStarts_spec [Lasting P] (hP : ∀ s, P s → s.closing = true ∧ ∀ e ∈ es, s.Alive e) :
    Meets cfg t P (waitStarts es) fun _ s =>
      P s ∧ ∀ e ∈ es, s.Visited e fun _ => True := by
  induction es generalizing P with
  | nil => exact ret_rule fun _ _ hp => ⟨hp, nofun⟩
  | cons e rest ih =>
    refine .bind (lock_rule (Q := fun s => LockedLate t e s ∧ P s)
      (fun s hi hp => ?_) fun s hi hp hg => ?_) fun _ => ?_
    · obtain ⟨hc, ha⟩ := hP s hp
      exact settled_of_serving hi (hi.closing hc) (ha e (mem_cons_self ..))
    · exact ⟨.of_lock hi (hP s hp).1 hg, Lasting.later s _ hi (hi.later hg) hp⟩
    refine .bind (unlock_rule (Q := fun s => P s ∧ s.Visited e fun _ => True)
      fun s _ hp => ⟨hp.1.locked, hp.2, hp.1.visited⟩) fun _ => ?_
    refine .weaken (fun _ => Firm.stable) (fun _ s _ hp => ⟨hp.1.1, ?_⟩) (ih fun s hp =>
      ⟨(hP s hp.1).1, fun e' he' => (hP s hp.1).2 e' (mem_cons_of_mem _ he')⟩)
    simpa using ⟨hp.1.2, hp.2⟩

def Seen (e : Nat) : Option Process → System → Prop
  | none => fun s => s.Visited e fun _ => False
  | some pr => fun s => s.Visited e fun q => q = pr.handles.qemu

instance {pr : Option Process} : Lasting (Seen e pr) := by
  cases pr <;> unfold Seen <;> infer_instance

theorem seen_of_visited (hv : s.Visited e fun _ => True) :
    Seen e ((s.entries e).proc.map s.procs) s := by
  cases hp : (s.entries e).proc with
  | none =>
    refine ⟨hv.1, hv.2.1, fun ho q hq => ?_⟩
    obtain ⟨p, hp', -⟩ := (hv.2.2 ho q hq).1
    cases hp.symm.trans hp'
  | some p =>
    refine ⟨hv.1, hv.2.1, fun ho q hq => ⟨(hv.2.2 ho q hq).1, ?_⟩⟩
    obtain ⟨p', hp', hpq⟩ := (hv.2.2 ho q hq).1
    obtain rfl := some.inj (hp.symm.trans hp')
    exact hpq.symm

theorem detachOne_spec [Lasting P] (hd : cfg.detachOnClose = true) (hP : ∀ s, P s → s.Visited e fun _ => True) :
    Meets cfg t P (detachOne e) fun _ s => P s ∧ Ended cfg t e s := by
  refine .bind (look_rule (R := fun (x : Option Process × Nat) s => P s ∧ Seen e x.1 s)
    fun s _ hp => ⟨hp, seen_of_visited (hP s hp)⟩) fun x => ?_
  obtain ⟨pr, cid⟩ := x
  cases pr with
  | none => exact ret_rule fun _ _ hp => ⟨hp.1, _, hp.2, nofun⟩
  | some pr =>
    refine .bind (perform_rule (Q := fun s => P s ∧ Ended cfg t e s) (fun _ _ _ => trivial)
      fun s hi hp => ?_) fun _ => ?_
    · have hl : Later s (s.effect t (.shutdown (.detachQemu pr.handles.qemu))) :=
        hi.later (show (shutdown (.detachQemu pr.handles.qemu)).Guard cfg s t from trivial)
      refine ⟨Lasting.later s _ hi hl hp.1, _, hl.visited e _ hp.2, ?_⟩
      rintro q rfl
      rw [acts_effect, if_pos ⟨rfl, rfl⟩]
      exact ⟨hd, mem_cons_self ..⟩
    · exact .ite (fun _ => perform_quiet rfl fun s _ hp => (hP s hp.1).1)
        fun _ => .pure'

theorem detachEach_spec [Lasting P] (hd : cfg.detachOnClose = true)
    (hP : ∀ s, P s → ∀ e ∈ es, s.Visited e fun _ => True) :
    Meets cfg t P (detachEach es) fun _ s => P s ∧ ∀ e ∈ es, Ended cfg t e s := by
  induction es generalizing P with
  | nil => exact ret_rule fun _ _ hp => ⟨hp, nofun⟩
  | cons e rest ih =>
    refine .bind (detachOne_spec hd fun s hp => hP s hp e (mem_cons_self ..)) fun _ => ?_
    refine .weaken (fun _ => Firm.stable) (fun _ s _ hp => ⟨hp.1.1, ?_⟩) (ih fun s hp e' he' =>
      hP s hp.1 e' (mem_cons_of_mem _ he'))
    simpa using ⟨hp.1.2, hp.2⟩

structure Begun (es : List Nat) (s : System) : Prop where
  closing : s.closing = true
  alive : ∀ e ∈ es, s.Alive e
  all : ∀ e, s.Present e → e ∈ es

instance {es : List Nat} : Lasting (Begun es) where
  later _ _ _ hl h := ⟨hl.closing h.closing, fun e he => (hl.ident e (h.alive e he)).1,
    fun e hp => h.all e (hl.known h.closing e hp)⟩

theorem detachAll_spec (hd : cfg.detachOnClose = true) (es : List Nat) :
    Meets cfg t (Begun es) (detachAll es) fun _ s =>
      Begun es s ∧ ∀ e ∈ es, Ended cfg t e s := by
  refine .bind (waitStarts_spec fun s hp => ⟨hp.closing, hp.alive⟩) fun _ => ?_
  refine .bind cancelAndWait_spec fun _ => ?_
  exact .weaken (fun _ => Firm.stable) (fun _ s _ hp => ⟨hp.1.1, hp.2⟩)
    (detachEach_spec hd fun s hp => hp.2)

def StopsLeft (t : Nat) (es : List Nat) (s : System) : Prop :=
  ∀ e ∈ es, e ∈ s.close.stops t ∨ s.Visited e fun _ => False

instance {es : List Nat} : Firm t (StopsLeft t es) where
  keeps s s' _ hk h e he := by
    rcases h e he with hs | hv
    · exact hk.stops e hs
    · exact .inr (hk.later.visited e _ hv)

theorem stopAll_spec : Meets cfg t (Begun es) (stopAll es) fun _ s =>
    Begun es s ∧ ∀ e ∈ es, Ended cfg t e s := by
  refine .bind (spawn_rule (R := fun _ s => Begun es s ∧ StopsLeft t es s)
    fun {s n i o a l} hi hp hf => ?_) fun _ => ?_
  · cases hf
    have hg : (shutdown (.stopsBegin es)).Guard cfg s t := trivial
    refine ⟨hg, fun j c hj => ?_, Lasting.later s _ hi (hi.later hg) hp, fun e he => .inl ?_⟩
    · rw [getElem?_map, map_eq_some_iff] at hj
      obtain ⟨e, he, rfl⟩ := hj
      exact ⟨hp.closing, hp.alive e (mem_of_getElem? he)⟩
    · simpa [effect, apply, CloseOp.apply] using he
  refine .bind (quiet_rule (R := fun _ s => Begun es s ∧ ∀ e ∈ es, Ended cfg t e s)
    fun _ hp hf => ?_) fun _ => cancelAndWait_spec
  split at hf <;> cases hf
  rename_i hnil
  refine ⟨trivial, rfl, hp.1, fun e he => ?_⟩
  rcases hp.2 e he with hs | hv
  · rw [hnil] at hs
    cases hs
  · exact ⟨_, hv, by simp⟩

theorem shutEach_spec [Firm t P] (l : List Nat) :
    Meets cfg t P (shutEach l) fun _ => P := by
  induction l with
  | nil => exact .pure'
  | cons k rest ih => exact .bind (perform_quiet rfl fun _ _ _ => trivial) fun _ => ih

theorem closeServers_spec [Firm t P] : Meets cfg t P closeServers fun _ => P := by
  refine .bind (quiet_rule (R := fun _ => P) fun _ hp hf => ?_) shutEach_spec
  cases hf
  exact ⟨rfl, rfl, hp⟩

theorem close_spec : Meets cfg t (fun s => s.serving = true) (close cfg)
    fun _ _ => True := by
  refine .bind (step_rule (R := Begun) fun {s i o es} hi hp hf => ?_) fun es => ?_
  · cases hf
    refine ⟨⟨hp, rfl⟩, rfl, fun e he => ?_, fun e he => ?_⟩
    · obtain ⟨x, hx, rfl⟩ := List.mem_map.1 he
      exact (hi.vms x.1 x.2 (GoMap.get_eq_some_iff.2 hx)).1
    · exact List.mem_map.2 ⟨_, GoMap.get_eq_some_iff.1 he, rfl⟩
  refine .bind (Q := fun _ s => Begun es s ∧ ∀ e ∈ es, Ended cfg t e s) ?_ fun _ => ?_
  · exact .ite (fun hd => detachAll_spec hd es) fun _ => stopAll_spec
  refine .bind closeServers_spec fun _ => ?_
  refine perform_rule (Q := fun _ => True) (fun s _ hp => ⟨hp.1.closing, fun e he => ?_⟩)
    fun _ _ _ => trivial
  obtain ⟨R, hv, hR⟩ := hp.2 e (hp.1.all e he)
  exact ⟨hv.1, hv.2.1, fun ho q hq => ⟨(hv.2.2 ho q hq).1, hR q (hv.2.2 ho q hq).2⟩⟩

end Close

theorem ignore_spec {x : GoE α} {R : Except String α → System → Prop}
    [∀ r, Firm t (R r)] (h : Meets cfg t P x.run R) : (outline cfg).Sat t P (ignore x).toProg :=
  Triple.toProg (R := fun _ _ => True) (Triple.bind h fun _ =>
    use_rule (fun _ _ _ => trivial) returned_spec)

theorem answer_spec {x : Go Unit} [Firm t Q] (h : Meets cfg t P x fun _ => Q) :
    (outline cfg).Sat t P (answer x).toProg :=
  Triple.toProg (Triple.bind h fun _ => returned_spec)

theorem body_spec : (outline cfg).Sat t (fun s => c.Pre s t) (body cfg c) := by
  cases c with
  | create spec => exact ignore_spec create_spec
  | start id => exact ignore_spec start_spec
  | stop id => exact ignore_spec (stop_spec (P := fun s => s.serving = true))
  | reboot id => exact ignore_spec reboot_spec
  | delete id => exact ignore_spec delete_spec
  | close => exact Triple.toProg close_spec
  | createNetwork spec => exact ignore_spec createNetwork_spec
  | deleteNetwork name => exact ignore_spec deleteNetwork_spec
  | forward id port => exact ignore_spec forward_spec
  | nonce n source => exact answer_spec (imdsNonce_spec (P := fun _ => True))
  | quote n source req => exact answer_spec imdsQuote_spec
  | report n source data => exact answer_spec (imdsReport_spec (P := fun _ => True))
  | deliver n =>
    exact Triple.toProg (perform_quiet (P := fun s => s.Sent n) (o := .notify (.deliver n)) rfl
      fun _ _ hp => hp)
  | waitFor e w => exact Triple.toProg waitFor_spec
  | run e p due => exact Triple.toProg run_spec
  | closeStop e owner => exact Triple.toProg closeStop_spec
  | resumeStop p => exact Triple.toProg (stopProcess_spec (P := fun _ => True) (Q := fun _ => True)
      fun _ _ _ _ => trivial)
  | load => exact ignore_spec load_spec

theorem outside_cases {l : List Call} (h : outside x n s = some (s', l)) :
    ∃ s₁, s.outside n x = some s₁ ∧ s' = s₁.noting x s ∧ l = x.starts s := by
  simp only [outside, map_eq_some_iff, Prod.mk.injEq] at h
  obtain ⟨s₁, hx, h1, h2⟩ := h
  exact ⟨s₁, hx, h1.symm, h2.symm⟩

theorem outside_start (h : s.outside n .start = some s') :
    s.up = false ∧ s' = { s with up := true, loader := some n } := by
  simp only [System.outside] at h
  split at h
  · cases h
  rename_i hup
  exact ⟨by simpa using hup, (some.inj h).symm⟩

inductive OutsideSplit (s : System) : Outside → System → Prop where
  | crash (hup : s.up = true) : OutsideSplit s .crash s.forget
  | other {x : Outside} {qemus : Nat → Qemu} {clock : Nat} {writable up : Bool} {loader : Option Nat} (hne : x ≠ .crash)
      (ho : OutsideStep s (System.noting { s with qemus, clock, writable, up, loader } x s)) :
      OutsideSplit s x { s with qemus, clock, writable, up, loader }

theorem outside_split (h : s.outside n x = some s') : OutsideSplit s x s' := by
  by_cases hx : x = .crash
  · subst hx
    simp only [System.outside] at h
    split at h <;> cases h
    exact .crash ‹_›
  · have ho := outside_step h hx
    obtain ⟨_, _, _, _, _, rfl, -⟩ := outside_eq h hx
    exact .other hx ho

theorem outside_pre {n j : Nat} {l : List Call} (hi : Inv s)
    (hx : outside x n s = some (s', l)) (hj : l[j]? = some c) : c.Pre s' (n + j) := by
  obtain ⟨s₁, hs₁, rfl, rfl⟩ := outside_cases hx
  cases x with
  | start =>
    cases j with
    | zero =>
      cases hj
      obtain ⟨hup, rfl⟩ := outside_start hs₁
      obtain ⟨h1, h2⟩ := hi.loader (hi.down hup).2.1
      exact ⟨rfl, h1, h2, fun h => absurd rfl h⟩
    | succ j => simp [Outside.starts] at hj
  | message q port status ready =>
    cases j with
    | zero =>
      cases hj
      exact mem_cons_self
    | succ j => simp [Outside.starts] at hj
  | _ => simp [Outside.starts] at hj

theorem Unused.acts (hu : Unused n s) : s.acts n = [] := by
  rw [System.acts, filterMap_eq_nil_iff]
  intro x hx
  cases x with
  | did t o m =>
    have hne : t ≠ n := (hu t o m hx).ne
    simp [hne]
  | outside => rfl

theorem accepts_pre (hc : accepts c s = true) (hu : Unused n s) :
    c.Pre s n := by
  cases c with
  | create | start | stop | reboot | delete | close | createNetwork | deleteNetwork
  | forward => exact hc
  | quote => exact hu.acts
  | nonce | report => trivial
  | waitFor | run | closeStop | resumeStop | load | deliver => cases hc

theorem outside_unused {l : List Call} (hx : outside x n s = some (s', l))
    (hu : Unused n s) : Unused (n + l.length) s' := by
  obtain ⟨s₁, -, rfl, -⟩ := outside_cases hx
  intro t o m hm
  rcases mem_cons.1 hm with hm | hm
  · cases hm
  · exact Nat.lt_add_right _ (hu t o m hm)

theorem outside_rely {l : List Call} (hx : outside x n s = some (s', l)) (hne : x ≠ .crash) : Rely cfg t s s' := by
  obtain ⟨s₁, hs₁, rfl, -⟩ := outside_cases hx
  exact .outside hs₁ hne

theorem outside_inv {l : List Call} (hi : Inv s) (hx : outside x n s = some (s', l)) : Inv s' := by
  obtain ⟨s₁, hs₁, rfl, -⟩ := outside_cases hx
  exact (hi.outside hs₁).hist _

theorem outline_sound_from (cfg : Config) (hi : Inv s₀) (hu : Unused 0 s₀) :
    (outline cfg).Sound s₀ where
  start := hi
  body c t := body_spec
  effect_inv s t o hi hg := Inv.effect hi hg
  effect_rely s t t' o _ hg ht := Rely.op ht hg
  env_inv s x n s' l hi hx := outside_inv hi hx
  env_rely s x n s' l t _ hx hh _ := outside_rely hx (by rintro rfl; cases hh)
  env_unused s x n s' l _ hx hu := outside_unused hx hu
  env_pre s x n s' l j c hi hx _ hj := outside_pre hi hx hj
  accepts_pre s c n _ hc hu := accepts_pre hc hu
  unused_start := hu
  unused_mono s m n hmn hu t o k hk := (hu t o k hk).trans_le hmn

theorem outline_sound : (outline cfg).Sound {} :=
  outline_sound_from cfg .start fun _ _ _ h => absurd h not_mem_nil

/-! What follows for runs: the guards hold at every step, so an invariant needs to be checked only
against guarded operations and outside events. -/
section Runs
variable {K : System → Event → Prop} {pool pool' : Pool}

abbrev Runs (cfg : Config) (K : System → Event → Prop) := (service cfg).Run (ι := Answer) K {}

theorem Runs.inv (h : Runs cfg K pool) : Inv pool.shared := (outline_sound.holds h).inv

inductive StepOf (cfg : Config) (s : System) : Event → System → Prop where
  | op {t : Nat} {o : Op} (hg : o.Guard cfg s t) : StepOf cfg s (.op t o) (s.effect t o)
  | call {c : Call} : StepOf cfg s (.call c) s
  | env {x : Outside} {n : Nat} {s' : System} (hx : s.outside n x = some s') :
      StepOf cfg s (.env x) (s'.noting x s)

theorem StepOf.of_op (h : StepOf cfg s (.op t o) s') :
    o.Guard cfg s t ∧ s' = s.effect t o := by
  cases h with
  | op hg => exact ⟨hg, rfl⟩

theorem stepOf (hO : (outline cfg).Sound s₀) (h : (service cfg).Run K s₀ pool)
    (hm : (service cfg).step pool m = some (ev, pool')) : StepOf cfg pool.shared ev pool'.shared := by
  have hg := ((hO.holds h).step hO hm).1
  cases m with
  | go t i =>
    obtain ⟨_, _, _, _, -, -, rfl, rfl⟩ := Machine.step_go hm
    exact .op hg
  | call c =>
    obtain ⟨-, rfl, rfl⟩ := Machine.step_call hm
    exact .call
  | env x =>
    obtain ⟨_, _, hx, rfl, rfl⟩ := Machine.step_env hm
    obtain ⟨s₁, hs₁, rfl, -⟩ := outside_cases hx
    exact .env hs₁

theorem Runs.step (h : Runs cfg K pool)
    (hm : (service cfg).step pool m = some (ev, pool')) : StepOf cfg pool.shared ev pool'.shared :=
  stepOf outline_sound h hm

theorem invariant_from (hO : (outline cfg).Sound s₀) (h₀ : I s₀)
    (hop : ∀ s t o, Inv s → I s → o.Guard cfg s t → K s (.op t o) → I (s.effect t o))
    (henv : ∀ s x n s', Inv s → I s → K s (.env x) → s.outside n x = some s' →
      I (s'.noting x s))
    (h : (service cfg).Run K s₀ pool) : I pool.shared := by
  refine Machine.Path.invariant h₀ (fun s t o hI hk => ?_) (fun s x n s' l hI hk hx => ?_)
    (hO.guarded h)
  · exact hop s t o hk.1 hI hk.2.1 hk.2.2
  · obtain ⟨s₁, hs₁, rfl, -⟩ := outside_cases hx
    exact henv s x n s₁ hk.1 hI hk.2.2 hs₁

theorem Runs.invariant (h₀ : I {})
    (hop : ∀ s t o, Inv s → I s → o.Guard cfg s t → K s (.op t o) → I (s.effect t o))
    (henv : ∀ s x n s', Inv s → I s → K s (.env x) → s.outside n x = some s' →
      I (s'.noting x s))
    (h : Runs cfg K pool) : I pool.shared :=
  invariant_from outline_sound h₀ hop henv h

end Runs

end VmManager.Vm
