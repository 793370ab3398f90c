import VmManager.Vm.Enrolment

/-! A recorded quote and the submission it is about. The verdict comes from the call itself, the details
are looked up in the verifier afterwards, so two submissions for one stage can be mixed in one record. -/
namespace VmManager.Vm
open Encoding Attest Interleaving Vm.System List GoMap
variable {cfg : Config} {s s' : System} {t t' e : Nat} {op : Op} {id : String} {stage : Stage} {d : Option Result}
  {q : Quote}

def Quote.Of (q : Quote) (r : Result) : Prop :=
  q.verified = r.verified ∧ q.message = r.message ∧ q.akFingerprint = r.akFingerprint ∧
    q.pcrs = r.pcrs ∧ q.learned = r.learned

instance {q : Quote} {r : Result} : Decidable (q.Of r) := inferInstanceAs (Decidable (_ ∧ _))

def Happening.submits (id : String) (stage : Stage) (q : Quote) : Happening → Bool
  | .did _ (.attest (.store id' stage' r)) _ => id' = id ∧ stage' = stage ∧ q.Of r
  | _ => false

def Attestation.quote (a : Attestation) : Stage → Option Quote
  | .initrd => a.initrd
  | .ready => a.ready
  | .unknown _ => none

def VM.Unmixed (hist : List Happening) (r : VM) : Prop :=
  ∀ stage q, r.attestation.quote stage = some q → ∃ x ∈ hist, x.submits r.id stage q = true

theorem VM.quote_update {r : VM} {now : Nat} {u : Update} (h : (r.update now u).attestation.quote stage = some q) :
    r.attestation.quote stage = some q ∨ ∃ c, u = .quoteRecorded stage q c := by
  have hf := r.passing_frame now (u := u)
  cases u with
  | booting => cases stage <;> cases h
  | quoteRecorded stage' q' c =>
    cases stage' with
    | initrd =>
      cases stage with
      | initrd => cases h; exact .inr ⟨c, rfl⟩
      | _ => exact .inl h
    | ready =>
      cases stage with
      | ready => cases h; exact .inr ⟨c, rfl⟩
      | _ => exact .inl h
    | unknown => exact .inl h
  | notified | nonceIssued | exited =>
    left
    cases stage with
    | initrd => exact (hf rfl).initrd.symm.trans h
    | ready => exact (hf rfl).ready.symm.trans h
    | unknown => exact h
  | _ => exact .inl h

namespace VM.Unmixed
variable {hist : List Happening} {r : VM} {x : Happening}

theorem cons (h : r.Unmixed hist) : r.Unmixed (x :: hist) := fun stage q hq => by
  obtain ⟨y, hy, hs⟩ := h stage q hq
  exact ⟨y, mem_cons_of_mem _ hy, hs⟩

theorem loaded (h : r.Unmixed hist) : r.loaded.Unmixed hist := by
  unfold VM.loaded
  split
  · exact h
  · exact h

end VM.Unmixed

namespace System

theorem result_effect (s : System) (t : Nat) (op : Op) (id : String) (stage : Stage) :
    (s.effect t op).verifier.result id stage = s.verifier.result id stage ∨
      (∃ r, op = .attest (.store id stage r)) ∨ op = .attest (.forgetState id) := by
  cases op with
  | attest o =>
    cases o with
    | store id' stage' r =>
      by_cases h : id = id' ∧ stage = stage'
      · obtain ⟨rfl, rfl⟩ := h
        exact .inr (.inl ⟨r, rfl⟩)
      · exact .inl ((Verifier.result_store ..).trans (if_neg h))
    | enroll id' stage' fingerprint ok => exact .inl (Verifier.result_enroll ..)
    | forgetState id' =>
      by_cases h : id = id'
      · exact .inr (.inr (by rw [h]))
      · simp [effect, apply, AttestOp.onVerifier, Verifier.forgetState, Verifier.result, h]
    | _ => exact .inl rfl
  | _ => exact .inl rfl

def Awaits (s : System) (t : Nat) (id : String) (stage : Stage) (r : Result) : Prop :=
  s.submitting.get t = some id ∧ ∃ rest, s.acts t = .attest (.store id stage r) :: rest

def Looked (s : System) (t : Nat) (id : String) (stage : Stage) (r : Result) (d : Option Result) : Prop :=
  s.submitting.get t = some id ∧ ∃ rest, s.acts t = .attest (.details id stage d) :: .attest (.store id stage r) :: rest

theorem awaits_effect {r : Result} (h : (s.effect t op).Awaits t' id stage r) :
    s.Awaits t' id stage r ∨ (t' = t ∧ op = .attest (.store id stage r)) := by
  obtain ⟨hsub, rest, hacts⟩ := h
  rw [acts_effect] at hacts
  split at hacts
  · rename_i hself
    cases hacts
    exact .inr ⟨hself.1.symm, rfl⟩
  · rcases submitting_effect hsub with hsub | ⟨rfl, rfl⟩
    · exact .inl ⟨hsub, rest, hacts⟩
    · rename_i hother
      exact absurd ⟨rfl, rfl⟩ hother

theorem looked_effect {r : Result} (h : (s.effect t op).Looked t' id stage r d) : s.Looked t' id stage r d ∨
      (t' = t ∧ op = .attest (.details id stage d) ∧ s.Awaits t id stage r) := by
  obtain ⟨hsub, rest, hacts⟩ := h
  rw [acts_effect] at hacts
  split at hacts
  · rename_i hself
    obtain ⟨rfl, -⟩ := hself
    injection hacts with hop hacts
    subst hop
    exact .inr ⟨rfl, rfl, hsub, rest, hacts⟩
  · rcases submitting_effect hsub with hsub | ⟨rfl, rfl⟩
    · exact .inl ⟨hsub, rest, hacts⟩
    · rename_i hother
      exact absurd ⟨rfl, rfl⟩ hother

end System

/-- No submission for a stage is stored while another for it waits to be looked up, and Create draws ids
that are new to the service. -/
def Separate (s : System) : Event → Prop
  | .op t (.attest (.store id stage _)) => ∀ t' r, t' ≠ t → ¬ s.Awaits t' id stage r
  | .op _ o => o.FreshId s
  | _ => True

theorem Separate.freshId (h : Separate s (.op t op)) : op.FreshId s := by
  cases op with
  | allocate => exact h
  | _ => trivial

structure Unmixed (s : System) : Prop where
  distinct : s.Distinct
  stored : ∀ t id stage r, s.Awaits t id stage r → s.verifier.result id stage = some r ∨ s.Gone id
  looked : ∀ t id stage r d, s.Looked t id stage r d → d = some r ∨ s.Gone id
  records : s.Records (VM.Unmixed s.hist)

namespace Unmixed

theorem stored_effect (h : Unmixed s) (hi : Inv s) (hg : op.Guard cfg s t)
    (hk : Separate s (.op t op)) {r : Result} (hw : (s.effect t op).Awaits t' id stage r) :
    (s.effect t op).verifier.result id stage = some r ∨ (s.effect t op).Gone id := by
  rcases awaits_effect hw with hold | ⟨-, rfl⟩
  swap
  · exact .inl ((Verifier.result_store ..).trans (if_pos ⟨rfl, rfl⟩))
  have hgone : s.Gone id → (s.effect t op).Gone id := fun hx => hx.later hi (hi.later hg)
  rcases h.stored t' id stage r hold with hres | hx
  swap
  · exact .inr (hgone hx)
  rcases s.result_effect t op id stage with hsame | ⟨r', rfl⟩ | rfl
  · exact .inl (hsame.trans hres)
  · have hself : t' = t := by
      by_contra hne
      exact hk t' r hne hold
    subst hself
    obtain ⟨-, rest, hacts⟩ := hw
    rw [acts_effect, if_pos ⟨rfl, rfl⟩] at hacts
    cases hacts
    exact .inl ((Verifier.result_store ..).trans (if_pos ⟨rfl, rfl⟩))
  · obtain ⟨e, hid, hv, -, hp⟩ := hg
    exact .inr (hgone ⟨e, ⟨hv.2.1, hid⟩, hp⟩)

theorem looked_effect (h : Unmixed s) (hi : Inv s) (hg : op.Guard cfg s t) {r : Result}
    (hl : (s.effect t op).Looked t' id stage r d) :
    d = some r ∨ (s.effect t op).Gone id := by
  have hgone : s.Gone id → (s.effect t op).Gone id := fun hx => hx.later hi (hi.later hg)
  rcases System.looked_effect hl with hold | ⟨rfl, rfl, hw⟩
  · exact (h.looked t' id stage r d hold).imp_right hgone
  · obtain ⟨-, hd, -⟩ := hg
    exact (h.stored t' id stage r hw).imp (fun hres => hd.trans hres) hgone

theorem recorded (h : Unmixed s) {c : Console} (hg : (Op.update e (.quoteRecorded stage q c)).Guard cfg s t) :
    ∃ x ∈ s.hist, x.submits (s.record e).id stage q = true := by
  obtain ⟨ha, hp, hsub, r, d, rest, hacts, hver, hmsg, hak, hpcrs, hlearned, -⟩ := hg
  have hd : d = some r := by
    rcases h.looked t _ stage r d ⟨hsub, rest, hacts⟩ with hd | hgone
    · exact hd
    · exact absurd hp (hgone.not_present h.distinct ha)
  subst hd
  have hmem : Op.attest (.store (s.record e).id stage r) ∈ s.acts t := by
    rw [hacts]
    exact mem_cons_of_mem _ (mem_cons_self ..)
  obtain ⟨n, hn⟩ := (mem_acts rfl).1 hmem
  exact ⟨_, hn, decide_eq_true ⟨rfl, rfl, hver, hmsg, hak, hpcrs, hlearned⟩⟩

theorem effect (h : Unmixed s) (hi : Inv s) (hg : op.Guard cfg s t) (hk : Separate s (.op t op)) :
    Unmixed (s.effect t op) := by
  refine ⟨h.distinct.effect hi hg hk.freshId, fun t' id stage r => h.stored_effect hi hg hk,
    fun t' id stage r d => h.looked_effect hi hg, ?_⟩
  have hold : s.Records (VM.Unmixed (s.log t op :: s.hist)) :=
    ⟨fun e ha => (h.records.1 e ha).cons, fun id r hr => (h.records.2 id r hr).cons⟩
  refine hold.effect hi hg (fun id m cid spec _ stage q hq => ?_) (fun r hr => hr.loaded)
    fun e u hw ha hr stage q hq => ?_
  · cases stage <;> cases hq
  · rw [VM.update_id]
    rcases VM.quote_update hq with hq | ⟨c, rfl⟩
    · exact hr stage q hq
    · rcases Op.writes_cases hw with rfl | ⟨phase, hs, rfl, hu⟩ | ⟨_, _, _, _, -, hu⟩
      · obtain ⟨x, hx, hsub⟩ := h.recorded hg
        exact ⟨x, mem_cons_of_mem _ hx, hsub⟩
      · cases phase <;> cases hu
      · cases hu

theorem outside {x : Outside} {n : Nat} (h : Unmixed s) (hx : s.outside n x = some s') :
    Unmixed (s'.noting x s) := by
  have hold : s.Records (VM.Unmixed (.outside x :: s.hist)) :=
    ⟨fun e ha => (h.records.1 e ha).cons, fun id r hr => (h.records.2 id r hr).cons⟩
  have hrec : Records (s'.noting x s)
      (VM.Unmixed (.outside x :: s.hist)) := hold.outside hx
  rcases outside_split hx with _ | ⟨-, ho⟩
  · exact ⟨h.distinct.outside hx, fun _ _ _ _ hw => absurd hw.1 get_empty_ne,
      fun _ _ _ _ _ hl => absurd hl.1 get_empty_ne, hrec⟩
  · exact ⟨h.distinct.outside hx, fun t id stage r hw => (h.stored t id stage r hw).imp_right ho.gone,
      fun t id stage r d hl => (h.looked t id stage r d hl).imp_right ho.gone, hrec⟩

theorem initial : Unmixed {} :=
  ⟨.initial, fun _ _ _ _ hw => absurd hw.1 get_empty_ne,
    fun _ _ _ _ _ hl => absurd hl.1 get_empty_ne, .initial⟩

end Unmixed

theorem recorded_quote_unmixed (cfg : Config) {pool : Pool}
    (h : Runs cfg Separate pool) : pool.shared.Records (VM.Unmixed pool.shared.hist) :=
  (Runs.invariant (I := Unmixed) .initial (fun _ _ _ hi hI hg hk => hI.effect hi hg hk)
    (fun _ _ _ _ _ hI _ hx => hI.outside hx) h).records

/-- No other request is being submitted where one is stored. -/
def Alone (s : System) : Event → Prop
  | .op t (.attest (.store ..)) => ∀ t' id, s.submitting.get t' = some id → t' = t
  | .op _ o => o.FreshId s
  | _ => True

instance : ∀ ev, Decidable (Alone s ev)
  | .call _ | .env _ => .isTrue trivial
  | .op _ o => by
    induction o using Op.casesOn with
    | attest o => induction o using AttestOp.casesOn <;> delta Alone <;> infer_instance
    | _ => delta Alone; infer_instance

theorem Alone.separate {ev : Event} (h : Alone s ev) : Separate s ev := by
  unfold Alone at h
  split at h
  · exact fun t' _ hne hw => hne (h t' _ hw.1)
  · unfold Separate
    split <;> simp_all
  · unfold Separate
    split <;> simp_all
open Sample

theorem recorded_quote_unmixed_attested :
    ∃ pool, Runs config Separate pool ∧
      ((pool.shared.record 0).serial ≠ 0 ∧ (pool.shared.record 0).attested = true ∧
        Accepts pool.shared.hist "01" 6 .initrd (fingerprint Attest.Sample.quote1) ∧
        Accepts pool.shared.hist "01" 8 .initrd (fingerprint Attest.Sample.quote3)) ∧
      (pool.shared.record 0).Unmixed pool.shared.hist := by
  refine (Runs.witness (K := Alone) (attested ++ asksNonce 7 Attest.Sample.quote3 ++
      submits 8 Attest.Sample.quote3 .initrd ++ records 8) (by decide +kernel)
    fun _ hrun hp => ?_).imp fun _ h => h.imp_left fun hrun => hrun.mono fun _ _ => Alone.separate
  exact (recorded_quote_unmixed config (hrun.mono fun _ _ => Alone.separate)).1 0 hp.1

theorem interleaved_submissions_mix :
    ∃ pool, Runs config (fun _ _ => True) pool ∧ (pool.shared.record 0).serial = 1 ∧
      ∃ q, (pool.shared.record 0).attestation.initrd = some q ∧ q.verified = true ∧ q.akFingerprint = [] ∧
        ¬ ∃ x ∈ pool.shared.hist, x.submits (pool.shared.record 0).id .initrd q = true := by
  obtain ⟨pool, hrun, hserial, hany⟩ := Runs.sample (K := fun _ _ => True) (z := {})
    (P := fun p => (p.shared.record 0).serial = 1 ∧
      (p.shared.record 0).attestation.initrd.any (fun q => decide (q.verified = true ∧ q.akFingerprint = [] ∧
        ¬ ∃ x ∈ p.shared.hist, x.submits (p.shared.record 0).id .initrd q = true)) = true)
    (attestedBoot ++ asksNonce 5 Attest.Sample.quote1 ++
      [.call (.quote 0 guest (Attest.Sample.request Attest.Sample.quote1 .initrd)),
        .go 6 (.pick 0)] ++ oks 6 6 ++
      [.call (.quote 0 guest (Attest.Sample.request Attest.Sample.quote1 .initrd)),
        .go 7 (.pick 0)] ++ oks 7 3 ++ oks 6 1 ++ records 6) (by decide +kernel)
  obtain ⟨q, hq, hp⟩ := (Option.any_eq_true _ _).1 hany
  exact ⟨pool, hrun, hserial, q, hq, of_decide_eq_true hp⟩

end VmManager.Vm
