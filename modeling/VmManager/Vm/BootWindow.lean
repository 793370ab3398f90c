import VmManager.Vm.Attesting
import VmManager.Vm.Release

/-! Attestation and the boundaries of boots. The record is reset after Runtime.Start has created the
QEMU of a boot, and neither the nonces nor the calls in progress are tied to a boot; where a boot starts
with nothing left over from the one before, each of its releases belongs to it. -/
namespace VmManager.Vm
open Encoding Attest Interleaving List GoMap Vm.System
variable {cfg : Config} {s s' : System} {t t' e n : Nat} {op op' : Op} {id : String} {x : Outside}
  {pool : Pool} {ev : Event} {c : Console} {q : Quote}

def Happening.startsBoot (e : Nat) : Happening → Bool
  | .did _ (.runtimeStart e' .boot _ (some _)) _ => e' == e
  | _ => false

/-- The history of the current boot of `e`: since its QEMU was created, or since vm-manager was
restarted when that was later. -/
def thisBoot (e : Nat) (hist : List Happening) : List Happening := since (fun x => x.startsBoot e || x.isCrash) hist

namespace System

def RecentBy (s : System) (t e : Nat) (op : Op) : Prop := ∃ n, Happening.did t op n ∈ thisBoot e s.hist

def Recent (s : System) (e : Nat) (op : Op) : Prop := ∃ t, s.RecentBy t e op

def About (s : System) (e : Nat) (id : String) : Prop := s.Alive e → (s.record e).id = id

theorem About.of_effect (hi : Inv s) (hg : op.Guard cfg s t) (h : (s.effect t op).About e id) :
    s.About e id := by
  intro ha
  obtain ⟨ha', hid, -⟩ := (hi.later hg).ident e ha
  exact hid.symm.trans (h ha')

end System

def Op.startsBoot (e : Nat) (op : Op) : Prop := ∃ cid q, op = .runtimeStart e .boot cid (some q)

theorem System.log_startsBoot (h : ¬ op.startsBoot e) : (s.log t op).startsBoot e = false := by
  cases op with
  | runtimeStart e' phase cid q =>
    cases phase with
    | install => rfl
    | boot =>
      cases q with
      | none => rfl
      | some q =>
        refine beq_eq_false_iff_ne.2 fun he => h ?_
        subst he
        exact ⟨cid, q, rfl⟩
  | _ => rfl

theorem thisBoot_effect (h : ¬ op.startsBoot e) : thisBoot e (s.effect t op).hist = s.log t op :: thisBoot e s.hist :=
  since_cons_of_neg (by rw [log_startsBoot h]; rfl)

theorem System.RecentBy.effect (hb : ¬ op.startsBoot e) (h : s.RecentBy t' e op') :
    (s.effect t op).RecentBy t' e op' := by
  obtain ⟨n, hn⟩ := h
  exact ⟨n, by rw [thisBoot_effect hb]; exact mem_cons_of_mem _ hn⟩

theorem System.RecentBy.self (hb : ¬ op.startsBoot e) : (s.effect t op).RecentBy t e op :=
  ⟨_, by rw [thisBoot_effect hb]; exact mem_cons_self ..⟩

theorem System.RecentBy.outside (hx : x ≠ .crash) (h : s.RecentBy t' e op') :
    RecentBy (s'.noting x s) t' e op' := by
  obtain ⟨n, hn⟩ := h
  refine ⟨n, mem_since_cons ?_ hn⟩
  cases x with
  | crash => exact absurd rfl hx
  | _ => rfl

def CallsRecent (s : System) : Prop :=
  ∀ e t id, s.About e id → s.submitting.get t = some id → s.RecentBy t e (.attest (.submit id))

structure NoncesRecent (s : System) : Prop where
  outstanding : ∀ e id nonce, s.About e id → nonce ∈ s.verifier.nonces.outstanding id →
    s.Recent e (.attest (.issue id nonce))
  used : ∀ e t id nonce, s.About e id → s.submitting.get t = some id →
    .attest (.consume id nonce true) ∈ s.acts t → s.Recent e (.attest (.issue id nonce))

/-- No call of SubmitQuote for the VM is in progress when its QEMU is started. -/
def Op.NoCalls (s : System) : Op → Prop
  | .runtimeStart e .boot _ (some _) => ∀ t, s.submitting.get t ≠ some (s.record e).id
  | _ => True

def Op.NoNonces (s : System) : Op → Prop
  | .runtimeStart e .boot _ (some _) => s.verifier.nonces.outstanding (s.record e).id = []
  | _ => True

theorem CallsRecent.effect (h : CallsRecent s) (hi : Inv s) (hg : op.Guard cfg s t)
    (hk : op.NoCalls s) : CallsRecent (s.effect t op) := by
  intro e t' id hab hsub
  have hold := hab.of_effect hi hg
  by_cases hb : op.startsBoot e
  · obtain ⟨cid, q, rfl⟩ := hb
    obtain rfl := hold hg.1.2.1
    exact absurd hsub (hk t')
  · rcases submitting_effect hsub with hsub | ⟨rfl, rfl⟩
    · exact (h e t' id hold hsub).effect hb
    · exact .self hb

theorem NoncesRecent.effect (h : NoncesRecent s) (hi : Inv s) (hg : op.Guard cfg s t)
    (hc : op.NoCalls s) (hn : op.NoNonces s) : NoncesRecent (s.effect t op) := by
  refine ⟨fun e id nonce hab hout => ?_, fun e t' id nonce hab hsub hcons => ?_⟩
  all_goals have hold := hab.of_effect hi hg
  all_goals by_cases hb : op.startsBoot e
  · obtain ⟨cid, q, rfl⟩ := hb
    obtain rfl := hold hg.1.2.1
    have hout : nonce ∈ s.verifier.nonces.outstanding (s.record e).id := hout
    have hnil : s.verifier.nonces.outstanding (s.record e).id = [] := hn
    rw [hnil] at hout
    exact absurd hout not_mem_nil
  · rcases outstanding_effect hout with hout | rfl
    · obtain ⟨t₀, hrec⟩ := h.outstanding e id nonce hold hout
      exact ⟨t₀, hrec.effect hb⟩
    · exact ⟨t, .self hb⟩
  · obtain ⟨cid, q, rfl⟩ := hb
    obtain rfl := hold hg.1.2.1
    exact absurd hsub (hc t')
  · have hissued : s.Recent e (.attest (.issue id nonce)) → (s.effect t op).Recent e (.attest (.issue id nonce)) :=
      fun ⟨t₀, hrec⟩ => ⟨t₀, hrec.effect hb⟩
    rcases submitting_acts_effect hg hsub hcons with ⟨hsub, hcons⟩ | ⟨-, hop⟩
    · exact hissued (h.used e t' id nonce hold hsub hcons)
    · subst hop
      have hcan := (Nonce.Store.consume_eq_true_iff ..).1 hg.2.2.symm
      exact hissued (h.outstanding e id nonce hold (Nonce.Store.mem_outstanding_of_consumable hcan))

theorem CallsRecent.outside (h : CallsRecent s)
    (hx : s.outside n x = some s') : CallsRecent (s'.noting x s) := by
  rcases outside_split hx with _ | ⟨hne⟩
  · exact fun _ _ _ _ hsub => absurd hsub get_empty_ne
  · exact fun e t id hab hsub => (h e t id hab hsub).outside hne

theorem NoncesRecent.outside (h : NoncesRecent s)
    (hx : s.outside n x = some s') : NoncesRecent (s'.noting x s) := by
  rcases outside_split hx with _ | ⟨hne⟩
  · exact ⟨fun e id nonce _ hout => absurd hout not_mem_nil, fun _ _ _ _ _ hsub => absurd hsub get_empty_ne⟩
  · refine ⟨fun e id nonce hab hout => ?_, fun e t id nonce hab hsub hcons => ?_⟩
    · obtain ⟨t₀, hrec⟩ := h.outstanding e id nonce hab hout
      exact ⟨t₀, hrec.outside hne⟩
    · obtain ⟨t₀, hrec⟩ := h.used e t id nonce hab hsub hcons
      exact ⟨t₀, hrec.outside hne⟩

/-- The quote that goroutine `t` is about to record for `e` belongs to the current boot: the call began
in it, and the nonce it used was issued in it. -/
def FreshlyQuoted (s : System) (t e : Nat) : Prop :=
  s.RecentBy t e (.attest (.submit (s.record e).id)) ∧
    ∃ nonce, .attest (.consume (s.record e).id nonce true) ∈ s.acts t ∧
      s.Recent e (.attest (.issue (s.record e).id nonce))

/-- The QEMU of an installed boot is started only while its VM has no nonce left and no call in
progress. -/
def BootsClean (s : System) : Event → Prop
  | .op _ o => o.NoCalls s ∧ o.NoNonces s
  | _ => True

theorem Runs.recent (h : Runs cfg BootsClean pool) :
    CallsRecent pool.shared ∧ NoncesRecent pool.shared := by
  refine Runs.invariant (I := fun s => CallsRecent s ∧ NoncesRecent s) ⟨?_, ?_, ?_⟩
    (fun s t o hi hI hg hk => ⟨hI.1.effect hi hg hk.1, hI.2.effect hi hg hk.1 hk.2⟩)
    (fun s x n s' _ hI _ hx => ⟨hI.1.outside hx, hI.2.outside hx⟩) h
  · exact fun _ _ _ _ hsub => absurd hsub get_empty_ne
  · exact fun e id nonce _ hout => absurd hout not_mem_nil
  · exact fun _ _ _ _ _ hsub => absurd hsub get_empty_ne

theorem quoteRecorded_accepted {stage : Stage}
    (hg : (Op.update e (.quoteRecorded stage q c)).Guard cfg s t) (hv : q.verified = true) :
    s.submitting.get t = some (s.record e).id ∧ ∃ nonce r d, s.acts t = .attest (.details (s.record e).id stage d) ::
        .attest (.store (s.record e).id stage r) ::
          System.accepted (s.record e).id stage nonce r := by
  obtain ⟨-, -, hsub, r, d, rest, hacts, hver, -, -, -, -, hacc⟩ := hg
  obtain ⟨nonce, rfl⟩ := hacc (hver ▸ hv)
  exact ⟨hsub, nonce, r, d, hacts⟩

theorem FreshlyQuoted.of_guard (hc : CallsRecent s) (hn : NoncesRecent s)
    (hg : (Op.update e (.quoteRecorded .initrd q c)).Guard cfg s t) (hv : q.verified = true) :
    FreshlyQuoted s t e := by
  obtain ⟨hsub, nonce, r, d, hacts⟩ := quoteRecorded_accepted hg hv
  have hmem : Op.attest (.consume (s.record e).id nonce true) ∈ s.acts t := by
    rw [hacts]
    simp [System.accepted]
  have hab : s.About e (s.record e).id := fun _ => rfl
  exact ⟨hc e t _ hab hsub, nonce, hmem, hn.used e t _ nonce hab hsub hmem⟩

theorem attested_per_boot (cfg : Config) {pool : Pool}
    (h : Runs cfg BootsClean pool) (m : Move) (ev : Event)
    (pool' : Pool) (hm : (service cfg).step pool m = some (ev, pool')) :
    (∀ t e q c, ev = .op t (.update e (.quoteRecorded .initrd q c)) → q.verified = true →
        FreshlyQuoted pool.shared t e) ∧
      ∀ e, pool.shared.Alive e → pool'.shared.Alive e → (pool.shared.record e).spec.requireAttestation = true →
        (pool.shared.record e).attestation.userDataReleased = false →
        (pool'.shared.record e).attestation.userDataReleased = true →
        ∃ t q c, ev = .op t (.update e (.quoteRecorded .initrd q c)) ∧ q.verified = true := by
  have hst := h.step hm
  refine ⟨fun t e q c hev hv => ?_, fun e ha ha' hreq h0 h1 => ?_⟩
  · subst hev
    obtain ⟨hc, hn⟩ := h.recent
    exact .of_guard hc hn hst.of_op.1 hv
  · rcases ReleasesAt.of_step h.inv hst ha ha' h0 h1 with hq | ⟨_, _, _, hno⟩
    · exact hq
    · nomatch hreq.symm.trans hno

instance : Decidable (op.NoCalls s) := by
  unfold Op.NoCalls
  split <;> infer_instance

instance : Decidable (op.NoNonces s) := by
  unfold Op.NoNonces
  split <;> infer_instance

instance : ∀ ev, Decidable (BootsClean s ev)
  | .op .. | .call _ | .env _ => by delta BootsClean; infer_instance

namespace Sample

def stops (t : Nat) : List Move :=
  [.call (.stop "01"), .env (.exit 1 ⟨0, ""⟩)] ++ oks t 3 ++ [.go 4 (.exited {})] ++ oks 4 6 ++
    oks t 2

def startsQemu (t : Nat) : List Move := [.call (.start "01")] ++ oks t 10

end Sample
open Sample

theorem attested_per_boot_second : ∃ pool ev pool', Runs config BootsClean pool ∧
      (service config).step pool (.go 11 (.console {})) = some (ev, pool') ∧
      ((pool.shared.hist.filter (·.startsBoot 0)).length = 2 ∧
        (pool.shared.record 0).attestation.userDataReleased = false ∧
        (pool'.shared.record 0).attestation.userDataReleased = true) ∧
      ∀ t e q c, ev = .op t (.update e (.quoteRecorded .initrd q c)) → q.verified = true →
        FreshlyQuoted pool.shared t e :=
  Runs.witnessStep (attested ++ oks 6 1 ++ stops 7 ++ startsQemu 8 ++ oks 8 4 ++
      asksNonce 10 Attest.Sample.quote3 ++ submits 11 Attest.Sample.quote3 .initrd)
    (.go 11 (.console {})) (by decide +kernel) fun _ ev pool' hrun hm _ =>
      (attested_per_boot config hrun _ ev pool' hm).1

def Happening.issues : Happening → Bool
  | .did _ (.attest (.issue _ _)) _ => true
  | _ => false

theorem old_nonce_releases : ∃ pool, Runs config (fun _ _ => True) pool ∧
      (pool.shared.record 0).spec.requireAttestation = true ∧
      (pool.shared.record 0).attestation.userDataReleased = true ∧
      (∃ x ∈ thisBoot 0 pool.shared.hist, x.verifiesInitrd 1 = true) ∧
      ¬ ∃ x ∈ thisBoot 0 pool.shared.hist, x.issues = true :=
  Runs.sample (attestedBoot ++ asksNonce 5 Attest.Sample.quote1 ++ stops 6 ++
    startsQemu 7 ++ oks 7 3 ++ submits 9 Attest.Sample.quote1 .initrd ++
    records 9) (by decide +kernel)

/-- A verified initrd quote was recorded for `e` in its current boot, by a call that began in it. -/
def QuotedThisBoot (s : System) (e : Nat) : Prop :=
  ∃ t q c, q.verified = true ∧ s.RecentBy t e (.update e (.quoteRecorded .initrd q c)) ∧
    s.RecentBy t e (.attest (.submit (s.record e).id))

/-- A VM that needs attestation has no released user-data and no call in progress when its QEMU is
started. -/
def Op.Sealed (s : System) : Op → Prop
  | .runtimeStart e .boot _ (some _) => (s.record e).spec.requireAttestation = true →
      (s.record e).attestation.userDataReleased = false
  | _ => True

def BootsSealed (s : System) : Event → Prop
  | .op _ o => o.NoCalls s ∧ o.Sealed s
  | _ => True

structure BootSealed (s : System) : Prop where
  started : ∀ x ∈ s.hist, ∀ e, x.startsBoot e = true → e < s.nextEntry
  released : ∀ e, s.Alive e → (s.record e).spec.requireAttestation = true → (∃ x ∈ s.hist, x.startsBoot e = true) →
    (s.record e).attestation.userDataReleased = true → QuotedThisBoot s e

theorem QuotedThisBoot.effect (hi : Inv s) (hg : op.Guard cfg s t) (ha : s.Alive e)
    (hb : ¬ op.startsBoot e) (h : QuotedThisBoot s e) : QuotedThisBoot (s.effect t op) e := by
  obtain ⟨t', q, c, hv, hrec, hsub⟩ := h
  refine ⟨t', q, c, hv, hrec.effect hb, ?_⟩
  rw [(hi.ident hg ha).1]
  exact hsub.effect hb

namespace BootSealed

theorem started_effect (h : BootSealed s) (hi : Inv s) (hg : op.Guard cfg s t) :
    ∀ x ∈ (s.effect t op).hist, ∀ e, x.startsBoot e = true → e < (s.effect t op).nextEntry := by
  intro x hx e hs
  have hle : s.nextEntry ≤ (s.effect t op).nextEntry := by
    rw [Inv.nextEntry_effect]
    exact Nat.le_add_right _ _
  rcases mem_cons.1 hx with rfl | hx
  · by_cases hb : op.startsBoot e
    · obtain ⟨cid, q, rfl⟩ := hb
      exact (hi.alive_lt hg.1.2.1).trans_le hle
    · cases (log_startsBoot hb).symm.trans hs
  · exact (h.started x hx e hs).trans_le hle

theorem effect (h : BootSealed s) (hc : CallsRecent s) (hi : Inv s) (hg : op.Guard cfg s t)
    (hk : op.Sealed s) : BootSealed (s.effect t op) := by
  refine ⟨h.started_effect hi hg, fun e ha hreq hst hrel => ?_⟩
  have hnew : ∀ {x : Nat}, x = s.nextEntry → (∃ y ∈ (s.effect t op).hist, y.startsBoot x = true) →
      op.adds = true → False := by
    rintro x rfl ⟨y, hy, hs⟩ hadd
    rcases mem_cons.1 hy with rfl | hy
    · cases op with
      | allocate | loadEntry => cases hs
      | _ => cases hadd
    · exact absurd (h.started y hy _ hs) (lt_irrefl _)
  have hold : s.Alive e := (hi.alive_of_effect hg ha).resolve_right fun ⟨hadd, he⟩ => hnew he hst hadd
  have hspec : (s.record e).spec.requireAttestation = true := by
    rw [← ((hi.later hg).ident e hold).2.2]
    exact hreq
  by_cases hb : op.startsBoot e
  · obtain ⟨cid, q, rfl⟩ := hb
    cases (hk hspec).symm.trans hrel
  have hst : ∃ x ∈ s.hist, x.startsBoot e = true := by
    obtain ⟨x, hx, hs⟩ := hst
    rcases mem_cons.1 hx with rfl | hx
    · cases (log_startsBoot hb).symm.trans hs
    · exact ⟨x, hx, hs⟩
  cases h0 : (s.record e).attestation.userDataReleased with
  | true => exact (h.released e hold hspec hst h0).effect hi hg hold hb
  | false =>
    rcases ReleasesAt.of_op hi hg hold h0 hrel with ⟨t', q, c, heq, hv⟩ | ⟨_, _, _, hno⟩
    · cases heq
      refine ⟨t, q, c, hv, .self hb, ?_⟩
      rw [(hi.ident hg hold).1]
      exact (hc e t _ (fun _ => rfl) (quoteRecorded_accepted hg hv).1).effect hb
    · cases hspec.symm.trans hno

theorem outside (h : BootSealed s) (hx : s.outside n x = some s') :
    BootSealed (s'.noting x s) := by
  have hhist : ∀ y ∈ Happening.outside x :: s.hist, ∀ e, y.startsBoot e = true → y ∈ s.hist := by
    intro y hy e hs
    rcases mem_cons.1 hy with rfl | hy
    · cases hs
    · exact hy
  have hnext : s'.nextEntry = s.nextEntry := nextEntry_outside hx
  refine ⟨fun y hy e hs => ?_, fun e ha hreq hst hrel => ?_⟩
  · change e < s'.nextEntry
    rw [hnext]
    exact h.started y (hhist y hy e hs) e hs
  rcases outside_split hx with _ | ⟨hne⟩
  · exact absurd rfl ha
  · obtain ⟨y, hy, hs⟩ := hst
    obtain ⟨t, q, c, hv, hq, hsub⟩ := h.released e ha hreq ⟨y, hhist y hy e hs, hs⟩ hrel
    exact ⟨t, q, c, hv, hq.outside hne, hsub.outside hne⟩

end BootSealed

theorem Runs.bootSealed (h : Runs cfg BootsSealed pool) :
    CallsRecent pool.shared ∧ BootSealed pool.shared := by
  refine Runs.invariant (I := fun s => CallsRecent s ∧ BootSealed s) ⟨?_, ?_, ?_⟩
    (fun s t o hi hI hg hk => ⟨hI.1.effect hi hg hk.1, hI.2.effect hI.1 hi hg hk.2⟩)
    (fun s x n s' _ hI _ hx => ⟨hI.1.outside hx, hI.2.outside hx⟩) h
  · exact fun _ _ _ _ hsub => absurd hsub get_empty_ne
  · exact fun _ hx => absurd hx not_mem_nil
  · exact fun _ ha => absurd rfl ha

theorem System.alive_of_lookupByIP (hi : Inv s) {addr : Network.Addr} (h : e ∈ s.lookupByIP addr) :
    s.Alive e := by
  obtain ⟨x, hx, rfl⟩ := mem_map.1 (mem_filter.1 h).1
  exact (hi.vms x.1 x.2 (get_eq_some_iff.2 hx)).1

theorem boot_window_closed (cfg : Config) {pool : Pool}
    (h : Runs cfg BootsSealed pool) (addr : Network.Addr) : ∀ e ∈ pool.shared.lookupByIP addr,
      (pool.shared.record e).spec.requireAttestation = true → (∃ x ∈ pool.shared.hist, x.startsBoot e = true) →
      (pool.shared.instanceOf e).userDataReleased = true → QuotedThisBoot pool.shared e :=
  fun e he hreq hst hrel =>
    h.bootSealed.2.released e (alive_of_lookupByIP h.inv he) hreq hst hrel

instance : Decidable (op.Sealed s) := by
  unfold Op.Sealed
  split <;> infer_instance

instance : ∀ ev, Decidable (BootsSealed s ev)
  | .op .. | .call _ | .env _ => by delta BootsSealed; infer_instance

theorem boot_window_closed_second :
    ∃ pool, Runs config BootsSealed pool ∧ ((pool.shared.hist.filter (·.startsBoot 0)).length = 2 ∧
      0 ∈ pool.shared.lookupByIP guest ∧ (pool.shared.record 0).spec.requireAttestation = true ∧
      (∃ x ∈ pool.shared.hist, x.startsBoot 0 = true) ∧ (pool.shared.instanceOf 0).userDataReleased = true) ∧
      QuotedThisBoot pool.shared 0 :=
  Runs.witness (attestedBoot ++ stops 5 ++ startsQemu 6 ++
      oks 6 4 ++ asksNonce 8 Attest.Sample.quote1 ++ submits 9 Attest.Sample.quote1 .initrd ++
      records 9) (by decide +kernel) fun _ hrun hp =>
    boot_window_closed config hrun _ 0 hp.2.1 hp.2.2.1 hp.2.2.2.1 hp.2.2.2.2

theorem boot_window_open : ∃ pool, Runs config (fun _ _ => True) pool ∧ 0 ∈ pool.shared.lookupByIP guest ∧
      (pool.shared.record 0).spec.requireAttestation = true ∧ (∃ x ∈ pool.shared.hist, x.startsBoot 0 = true) ∧
      (pool.shared.instanceOf 0).userDataReleased = true ∧ thisBoot 0 pool.shared.hist = [] :=
  Runs.sample (attested ++ stops 7 ++ startsQemu 8) (by decide +kernel)

end VmManager.Vm
