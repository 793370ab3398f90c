import VmManager.Vm.Attesting
import VmManager.Vm.Release

/-! The attestation key of a VM. The verifier pins the key of the first verified initrd quote and keeps
the pin in memory only: within one vm-manager all verified quotes of a VM are by one key, but a restart
forgets it. -/
namespace VmManager.Vm
open Encoding Attest Interleaving List Vm.System
variable {cfg : Config} {s s' : System} {t t' e n : Nat} {op : Op} {id : String} {pool : Pool}
  {K : System → Event → Prop} {p : Happening → Bool} {stage : Stage}

/-- A quote for `id` passed the pin check: the call, its stage and its key. -/
def Happening.enrols (id : String) : Happening → Option (Nat × Stage × Text)
  | .did t (.attest (.enroll id' stage fingerprint true)) _ =>
    if id' = id then some (t, stage, fingerprint) else none
  | _ => none

def Happening.verifies (id : String) : Happening → Option (Nat × Stage × Text)
  | .did t (.attest (.store id' stage r)) _ =>
    if id' = id ∧ r.verified = true then some (t, stage, r.akFingerprint) else none
  | _ => none

def Happening.forgets (id : String) : Happening → Bool
  | .did _ (.attest (.forgetState id')) _ => id' == id
  | _ => false

def sinceDelete (id : String) (hist : List Happening) : List Happening := since (Happening.forgets id) hist

def sinceForget (id : String) (hist : List Happening) : List Happening :=
  since (fun x => x.forgets id || x.isCrash) hist

/-- The pinned key and the pin checks that were passed: the first was an initrd quote's, and all were
with the one key. -/
def Enrolled (hist : List Happening) (id : String) : Option Text → Prop
  | none => ∀ x ∈ hist, x.enrols id = none
  | some fingerprint =>
    (∃ later x t earlier, hist = later ++ x :: earlier ∧
      x.enrols id = some (t, .initrd, fingerprint) ∧ ∀ y ∈ earlier, y.enrols id = none) ∧
    ∀ x ∈ hist, ∀ t stage fingerprint', x.enrols id = some (t, stage, fingerprint') → fingerprint' = fingerprint

namespace Enrolled
variable {hist : List Happening} {x : Happening} {pin : Option Text} {fingerprint : Text}

theorem cons (h : Enrolled hist id pin) (hx : x.enrols id = none) : Enrolled (x :: hist) id pin := by
  cases pin with
  | none =>
    intro y hy
    rcases mem_cons.1 hy with rfl | hy
    · exact hx
    · exact h y hy
  | some fingerprint =>
    obtain ⟨⟨later, y, t, earlier, rfl, hy, hfirst⟩, hall⟩ := h
    refine ⟨⟨x :: later, y, t, earlier, rfl, hy, hfirst⟩, fun z hz t' stage fp hzf => ?_⟩
    rcases mem_cons.1 hz with rfl | hz
    · cases hx.symm.trans hzf
    · exact hall z hz t' stage fp hzf

theorem cons_same (h : Enrolled hist id (some fingerprint)) (hx : x.enrols id = some (t, stage, fingerprint)) :
    Enrolled (x :: hist) id (some fingerprint) := by
  obtain ⟨⟨later, y, t', earlier, rfl, hy, hfirst⟩, hall⟩ := h
  refine ⟨⟨x :: later, y, t', earlier, rfl, hy, hfirst⟩, fun z hz t'' stage' fp hzf => ?_⟩
  rcases mem_cons.1 hz with rfl | hz
  · rw [hx] at hzf
    cases hzf
    rfl
  · exact hall z hz t'' stage' fp hzf

theorem first (h : Enrolled hist id none) (hx : x.enrols id = some (t, .initrd, fingerprint)) :
    Enrolled (x :: hist) id (some fingerprint) := by
  refine ⟨⟨[], x, t, hist, rfl, hx, h⟩, fun z hz t' stage fp hzf => ?_⟩
  rcases mem_cons.1 hz with rfl | hz
  · rw [hx] at hzf
    cases hzf
    rfl
  · cases (h z hz).symm.trans hzf

theorem nil : Enrolled [] id none := fun _ hx => absurd hx not_mem_nil

end Enrolled

theorem System.log_enrols (h : ∀ stage fingerprint, op ≠ .attest (.enroll id stage fingerprint true)) :
    (s.log t op).enrols id = none := by
  cases op with
  | attest o =>
    cases o with
    | enroll id' stage fingerprint ok =>
      cases ok with
      | false => rfl
      | true =>
        refine if_neg fun hid => ?_
        subst hid
        exact h stage fingerprint rfl
    | _ => rfl
  | _ => rfl

theorem Enrolled.effect {pin : Option Text} (hg : op.Guard cfg s t)
    (hp : p (s.log t op) = (s.log t op).forgets id)
    (hkey : ∀ stage fingerprint, op = .attest (.enroll id stage fingerprint true) →
      pin = some fingerprint ∨ (pin = none ∧ stage = .initrd))
    (h : Enrolled (since p s.hist) id pin) :
    ∃ pin', Enrolled (since p (s.effect t op).hist) id pin' ∧
      ((s.effect t op).verifier.pinned id = pin' ∨
        (pin' = pin ∧ (s.effect t op).verifier.pinned id = s.verifier.pinned id)) := by
  change ∃ pin', Enrolled (since p (s.log t op :: s.hist)) id pin' ∧ _
  by_cases hf : op = .attest (.forgetState id)
  · subst hf
    rw [since_cons_of_pos (hp.trans (beq_self_eq_true id))]
    exact ⟨none, .nil, .inl ((Verifier.pinned_forgetState ..).trans (if_pos rfl))⟩
  have hcut : p (s.log t op) = false := by
    rw [hp]
    cases op with
    | attest o =>
      cases o with
      | forgetState id' =>
        refine beq_eq_false_iff_ne.2 fun hid => hf ?_
        rw [hid]
      | _ => rfl
    | _ => rfl
  rw [since_cons_of_neg hcut]
  by_cases hen : ∃ stage fingerprint, op = .attest (.enroll id stage fingerprint true)
  · obtain ⟨stage, fingerprint, rfl⟩ := hen
    have hlog : (s.log t (.attest (.enroll id stage fingerprint true))).enrols id =
        some (t, stage, fingerprint) := if_pos rfl
    refine ⟨some fingerprint, ?_, .inl (pinned_of_enroll hg).1⟩
    rcases hkey stage fingerprint rfl with rfl | ⟨rfl, rfl⟩
    · exact h.cons_same hlog
    · exact h.first hlog
  · push Not at hen
    rcases pinned_effect hg id with hsame | ⟨fingerprint, rfl, -⟩ | ⟨rfl, -⟩
    · exact ⟨pin, h.cons (log_enrols hen), .inr ⟨rfl, hsame⟩⟩
    · exact absurd rfl (hen .initrd fingerprint)
    · exact absurd rfl hf

theorem Enrolled.outside {x : Outside} {hist : List Happening} {pin : Option Text} (hp : p (.outside x) = false)
    (h : Enrolled (since p hist) id pin) : Enrolled (since p (.outside x :: hist)) id pin := by
  rw [since_cons_of_neg hp]
  exact h.cons rfl

theorem Runs.enrolled (h : Runs cfg K pool) (id : String) :
    Enrolled (sinceForget id pool.shared.hist) id (pool.shared.verifier.pinned id) := by
  refine Runs.invariant (I := fun s => Enrolled (sinceForget id s.hist) id (s.verifier.pinned id))
    .nil (fun s t o _ hI hg _ => ?_) (fun s x n s' _ hI _ hx => ?_) h
  · obtain ⟨pin, hen, hpin⟩ := hI.effect hg (p := fun x => x.forgets id || x.isCrash) (Bool.or_false _)
      fun stage fingerprint hop => by
        subst hop
        exact (pinned_of_enroll hg).2
    rcases hpin with rfl | ⟨rfl, hsame⟩
    · exact hen
    · rw [hsame]
      exact hen
  · rcases outside_split hx with _ | ⟨hne⟩
    · exact .nil
    · have hcut : ((Happening.outside x).forgets id || (Happening.outside x).isCrash) = false := by
        cases x with
        | crash => exact absurd rfl hne
        | _ => rfl
      exact Enrolled.outside (p := fun x => x.forgets id || x.isCrash) hcut hI

def Accepts (hist : List Happening) (id : String) (t : Nat) (stage : Stage) (fingerprint : Text) : Prop :=
  (∃ x ∈ hist, x.verifies id = some (t, stage, fingerprint)) ∧ ∃ x ∈ hist, x.enrols id = some (t, stage, fingerprint)

/-- All verified quotes are by one key; an initrd quote enrolled it, and no ready quote passed the pin
check before. -/
structure OneKey (hist : List Happening) (id : String) : Prop where
  same : ∀ t stage fingerprint t' stage' fingerprint', Accepts hist id t stage fingerprint →
    Accepts hist id t' stage' fingerprint' → fingerprint = fingerprint'
  enrolment : ∀ t stage fingerprint, Accepts hist id t stage fingerprint →
    ∃ later x t₀ earlier, hist = later ++ x :: earlier ∧
      x.enrols id = some (t₀, .initrd, fingerprint) ∧ (∀ y ∈ earlier, y.enrols id = none) ∧
      (stage = .ready → ∃ y ∈ later, y.enrols id = some (t, .ready, fingerprint))

theorem Enrolled.oneKey {hist : List Happening} {pin : Option Text} (h : Enrolled hist id pin) :
    OneKey hist id := by
  cases pin with
  | none =>
    have hno : ∀ t stage fingerprint, ¬ Accepts hist id t stage fingerprint := by
      rintro t stage fingerprint ⟨-, x, hx, hen⟩
      cases (h x hx).symm.trans hen
    exact ⟨fun t stage fp _ _ _ ha => absurd ha (hno t stage fp), fun t stage fp ha => absurd ha (hno t stage fp)⟩
  | some pin =>
    obtain ⟨⟨later, x, t₀, earlier, rfl, hx, hfirst⟩, hall⟩ := h
    have hpin : ∀ t stage fingerprint, Accepts (later ++ x :: earlier) id t stage fingerprint →
        fingerprint = pin := by
      rintro t stage fingerprint ⟨-, y, hy, hen⟩
      exact hall y hy t stage fingerprint hen
    refine ⟨fun t stage fp t' stage' fp' ha ha' => ?_, fun t stage fp ha => ?_⟩
    · rw [hpin t stage fp ha, hpin t' stage' fp' ha']
    · obtain rfl := hpin t stage fp ha
      refine ⟨later, x, t₀, earlier, rfl, hx, hfirst, fun hst => ?_⟩
      subst hst
      obtain ⟨-, y, hy, hen⟩ := ha
      refine ⟨y, ?_, hen⟩
      rcases mem_append.1 hy with hy | hy
      · exact hy
      · rcases mem_cons.1 hy with rfl | hy
        · rw [hx] at hen
          cases hen
        · cases (hfirst y hy).symm.trans hen

theorem Runs.verified_enrols (h : Runs cfg K pool) : ∀ x ∈ pool.shared.hist, ∀ a, x.verifies id = some a →
      ∃ y ∈ pool.shared.hist, y.enrols id = some a := by
  refine Runs.invariant (I := fun s => ∀ x ∈ s.hist, ∀ a, x.verifies id = some a →
    ∃ y ∈ s.hist, y.enrols id = some a) (fun _ hx => absurd hx not_mem_nil)
    (fun s t o _ hI hg _ x hx a hv => ?_) (fun s x n s' _ hI _ _ y hy a hv => ?_) h
  · rcases mem_cons.1 hx with rfl | hx
    · cases o with
      | attest o =>
        cases o with
        | store id' stage r =>
          simp only [log, Happening.verifies] at hv
          split at hv
          · rename_i hid
            obtain ⟨rfl, hver⟩ := hid
            cases hv
            obtain ⟨nonce, hacts⟩ := hg.2 hver
            have hmem : Op.attest (.enroll id' stage r.akFingerprint true) ∈ s.acts t := by
              rw [hacts]
              exact mem_cons_self ..
            obtain ⟨n, hn⟩ := (mem_acts rfl).1 hmem
            exact ⟨_, mem_cons_of_mem _ hn, if_pos rfl⟩
          · cases hv
        | _ => cases hv
      | _ => cases hv
    · obtain ⟨y, hy, hen⟩ := hI x hx a hv
      exact ⟨y, mem_cons_of_mem _ hy, hen⟩
  · rcases mem_cons.1 hy with rfl | hy
    · cases hv
    · obtain ⟨z, hz, hen⟩ := hI y hy a hv
      exact ⟨z, mem_cons_of_mem _ hz, hen⟩

theorem one_key_per_vm (cfg : Config) {pool : Pool}
    (h : Runs cfg (fun _ _ => True) pool) (id : String) : (∀ x ∈ pool.shared.hist, ∀ a, x.verifies id = some a →
        ∃ y ∈ pool.shared.hist, y.enrols id = some a) ∧
      OneKey (sinceForget id pool.shared.hist) id :=
  ⟨h.verified_enrols, (h.enrolled id).oneKey⟩

instance {hist : List Happening} {stage : Stage} {fingerprint : Text} :
    Decidable (Accepts hist id t stage fingerprint) :=
  inferInstanceAs (Decidable (_ ∧ _))

namespace Sample

def fingerprint (a : Attest.Sample.SampleQuote) : Text := encodeToString (Attest.Sample.bytesOf 32 a.akDigest)

end Sample
open Sample

theorem one_key_per_vm_attested : ∃ pool, Runs config (fun _ _ => True) pool ∧
      (Accepts (sinceForget "01" pool.shared.hist) "01" 6 .initrd (Sample.fingerprint Attest.Sample.quote1) ∧
        Accepts (sinceForget "01" pool.shared.hist) "01" 8 .initrd (Sample.fingerprint Attest.Sample.quote3)) ∧
      OneKey (sinceForget "01" pool.shared.hist) "01" :=
  Runs.witness (Sample.attested ++ asksNonce 7 Attest.Sample.quote3 ++
      submits 8 Attest.Sample.quote3 .initrd) (by decide +kernel) fun _ hrun _ => (one_key_per_vm config hrun "01").2

namespace VM

def attested (r : VM) : Bool := r.attestation.initrd.any fun q => q.verified

theorem attested_update {r : VM} {now : Nat} {u : Update} (h : (r.update now u).attested = true) :
    r.attested = true ∨ ∃ q c, u = .quoteRecorded .initrd q c ∧ q.verified = true := by
  have hf := r.passing_frame now (u := u)
  cases u with
  | booting => cases h
  | quoteRecorded stage q c =>
    cases stage with
    | initrd => exact .inr ⟨q, c, rfl, h⟩
    | _ => exact .inl h
  | notified | nonceIssued | exited =>
    rw [attested, (hf rfl).initrd] at h
    exact .inl h
  | _ => exact .inl h

theorem attested_loaded (r : VM) : r.loaded.attested = r.attested := by
  unfold loaded
  split <;> rfl

end VM

def System.Secured (s : System) (id : String) : Prop :=
  (∃ x ∈ sinceDelete id s.hist, x.enrols id ≠ none) ∨ s.Gone id

theorem System.Secured.effect (hi : Inv s) (hg : op.Guard cfg s t) (h : s.Secured id) :
    (s.effect t op).Secured id := by
  rcases h with ⟨x, hx, hen⟩ | hgone
  swap
  · exact .inr (hgone.later hi (hi.later hg))
  cases hcut : (s.log t op).forgets id with
  | false =>
    refine .inl ⟨x, ?_, hen⟩
    change x ∈ since (Happening.forgets id) (s.log t op :: s.hist)
    rw [since_cons_of_neg hcut]
    exact mem_cons_of_mem _ hx
  | true =>
    obtain ⟨id', rfl⟩ : ∃ id', op = .attest (.forgetState id') := by
      cases op with
      | attest o =>
        cases o with
        | forgetState id' => exact ⟨id', rfl⟩
        | _ => cases hcut
      | _ => cases hcut
    obtain rfl : id' = id := beq_iff_eq.1 hcut
    have hforsakes : s.Forsakes t id' := hg
    obtain ⟨e, hid, hv, -, hp⟩ := hforsakes
    have hgone : s.Gone id' := ⟨e, ⟨hv.2.1, hid⟩, hp⟩
    exact .inr (hgone.later hi (hi.later hg))

theorem System.Secured.of_enroll {fingerprint : Text} (s : System) (t : Nat) (id : String) (stage : Stage) :
    (s.effect t (.attest (.enroll id stage fingerprint true))).Secured id := by
  have hcut : (s.log t (.attest (.enroll id stage fingerprint true))).forgets id = false := rfl
  refine .inl ⟨s.log t (.attest (.enroll id stage fingerprint true)), ?_, ?_⟩
  · change _ ∈ since (Happening.forgets id) (_ :: s.hist)
    rw [since_cons_of_neg hcut]
    exact mem_cons_self ..
  · have hlog : (s.log t (.attest (.enroll id stage fingerprint true))).enrols id =
        some (t, stage, fingerprint) := if_pos rfl
    rw [hlog]
    exact Option.some_ne_none _

structure KeysKept (s : System) : Prop where
  distinct : s.Distinct
  calls : ∀ t id stage fingerprint, s.submitting.get t = some id →
    .attest (.enroll id stage fingerprint true) ∈ s.acts t → s.Secured id
  records : s.Records fun r => r.attested = true → s.Secured r.id

namespace KeysKept

theorem calls_effect (h : KeysKept s) (hi : Inv s) (hg : op.Guard cfg s t)
    {fingerprint : Text} (hsub : (s.effect t op).submitting.get t' = some id)
    (hen : .attest (.enroll id stage fingerprint true) ∈ (s.effect t op).acts t') :
    (s.effect t op).Secured id := by
  rcases submitting_acts_effect hg hsub hen with ⟨hsub, hen⟩ | ⟨-, hop⟩
  · exact (h.calls t' id stage fingerprint hsub hen).effect hi hg
  · subst hop
    exact .of_enroll s t id stage

theorem effect (h : KeysKept s) (hi : Inv s) (hg : op.Guard cfg s t) (hf : op.FreshId s) :
    KeysKept (s.effect t op) := by
  refine ⟨h.distinct.effect hi hg hf, fun t' id stage fp => h.calls_effect hi hg, ?_⟩
  have hold : s.Records fun r => r.attested = true → (s.effect t op).Secured r.id :=
    ⟨fun e ha hat => (h.records.1 e ha hat).effect hi hg, fun id r hr hat => (h.records.2 id r hr hat).effect hi hg⟩
  refine hold.effect hi hg (fun id m cid spec _ hat => ?_) (fun r hr => ?_)
    fun e u hw ha hr hat => ?_
  · cases hat
  · rw [VM.attested_loaded, VM.loaded_id]
    exact hr
  · rw [VM.update_id]
    rcases VM.attested_update hat with hat | ⟨q, c, rfl, hv⟩
    · exact hr hat
    · rcases Op.writes_cases hw with rfl | ⟨phase, hs, rfl, hu⟩ | ⟨_, _, _, _, -, hu⟩
      · have hquote := hg
        obtain ⟨-, -, hsub, r, d, rest, hacts, hver, -, -, -, -, hacc⟩ := hquote
        obtain ⟨nonce, rfl⟩ := hacc (hver ▸ hv)
        have hmem : Op.attest (.enroll (s.record e).id .initrd r.akFingerprint true) ∈ s.acts t := by
          rw [hacts]
          simp [System.accepted]
        exact (h.calls t _ _ _ hsub hmem).effect hi hg
      · cases phase <;> cases hu
      · cases hu

end KeysKept

/-- A quote for a VM whose key the verifier does not have, though one was enrolled since the VM's last
Delete, is an initrd quote by that key. -/
def Op.SameKey (s : System) : Op → Prop
  | .attest (.enroll id stage fingerprint _) => s.verifier.pinned id = none →
      ∀ x ∈ sinceDelete id s.hist, ∀ a ∈ x.enrols id, stage = .initrd ∧ a.2.2 = fingerprint
  | _ => True

/-- The quotes judged after a restart are as `SameKey` says, Create draws ids that are new to the service,
and vm-manager does not end while a deleted VM has a record with a verified initrd quote on disk. -/
def KeepsKeys (s : System) : Event → Prop
  | .env .crash => ∀ x ∈ s.disk.entries, x.2.attested = true →
      ∀ e < s.nextEntry, s.Alive e → (s.record e).id = x.2.id → s.Present e
  | .op _ o => o.FreshId s ∧ o.SameKey s
  | _ => True

theorem KeysKept.outside {x : Outside} (h : KeysKept s) (hi : Inv s) (hk : KeepsKeys s (.env x))
    (hx : s.outside n x = some s') : KeysKept (s'.noting x s) := by
  have hist : ∀ {s'' : System} {id}, s''.hist = .outside x :: s.hist → (s.Gone id → s''.Secured id) →
      s.Secured id → s''.Secured id := by
    rintro s'' id hhist hgone (⟨y, hy, hen⟩ | hg)
    · refine .inl ⟨y, ?_, hen⟩
      rw [sinceDelete, hhist, since_cons_of_neg rfl]
      exact mem_cons_of_mem _ hy
    · exact hgone hg
  refine ⟨h.distinct.outside hx, ?_, ?_⟩
  all_goals rcases outside_split hx with _ | ⟨-, ho⟩
  · exact fun _ _ _ _ hsub => absurd hsub GoMap.get_empty_ne
  · exact fun t id stage fp hsub hen => hist rfl (fun hg => .inr (ho.gone hg)) (h.calls t id stage fp hsub hen)
  · refine ⟨fun _ ha => absurd rfl ha, fun id r hr hat => hist rfl (fun hg => ?_) (h.records.2 id r hr hat)⟩
    obtain ⟨e, hn, hp⟩ := hg
    exact absurd (hk ⟨id, r⟩ (GoMap.get_eq_some_iff.1 hr) hat e (hi.alive_lt hn.1) hn.1 hn.2) hp
  · exact ⟨fun e ha hat => hist rfl (fun hg => .inr (ho.gone hg)) (h.records.1 e ha hat),
      fun id r hr hat => hist rfl (fun hg => .inr (ho.gone hg)) (h.records.2 id r hr hat)⟩

theorem KeysKept.initial : KeysKept {} := ⟨.initial, fun _ _ _ _ hsub => absurd hsub GoMap.get_empty_ne, .initial⟩

theorem Runs.keysKept (h : Runs cfg KeepsKeys pool) : KeysKept pool.shared :=
  Runs.invariant (I := KeysKept) .initial (fun _ _ _ hi hI hg hk => hI.effect hi hg hk.1)
    (fun _ _ _ _ hi hI hk hx => hI.outside hi hk hx) h

theorem Enrolled.key {pin : Option Text} {fingerprint : Text} (h : Enrolled (sinceDelete id s.hist) id pin)
    (hpin : s.verifier.pinned id = none ∨ s.verifier.pinned id = pin)
    (hk : (Op.attest (.enroll id stage fingerprint true)).SameKey s)
    (hold : s.verifier.pinned id = some fingerprint ∨ (s.verifier.pinned id = none ∧ stage = .initrd)) :
    pin = some fingerprint ∨ (pin = none ∧ stage = .initrd) := by
  rcases hold with hold | ⟨hnone, rfl⟩
  · rcases hpin with hnone | hpin
    · cases hnone.symm.trans hold
    · exact .inl (hpin.symm.trans hold)
  · cases pin with
    | none => exact .inr ⟨rfl, rfl⟩
    | some key =>
      -- the key was forgotten in a restart, and the first quote after it is by the same one
      obtain ⟨⟨later, x, t, earlier, heq, hx, -⟩, -⟩ := h
      have hmem : x ∈ sinceDelete id s.hist := by
        rw [heq]
        exact mem_append_right _ (mem_cons_self ..)
      obtain ⟨-, rfl⟩ := hk hnone x hmem _ hx
      exact .inl rfl

theorem Runs.enrolled_across (h : Runs cfg KeepsKeys pool) (id : String) :
    ∃ pin, Enrolled (sinceDelete id pool.shared.hist) id pin ∧
      (pool.shared.verifier.pinned id = none ∨ pool.shared.verifier.pinned id = pin) := by
  refine Runs.invariant (I := fun s => ∃ pin, Enrolled (sinceDelete id s.hist) id pin ∧
      (s.verifier.pinned id = none ∨ s.verifier.pinned id = pin))
    ⟨none, .nil, .inl rfl⟩ (fun s t o _ hI hg hk => ?_) (fun s x n s' _ hI hk hx => ?_) h
  · obtain ⟨pin, hen, hpin⟩ := hI
    obtain ⟨pin', hen', hpin'⟩ := hen.effect hg (p := Happening.forgets id) rfl fun stage fingerprint hop => by
      subst hop
      exact hen.key hpin hk.2 (pinned_of_enroll hg).2
    refine ⟨pin', hen', ?_⟩
    rcases hpin' with rfl | ⟨rfl, hsame⟩
    · exact .inr rfl
    · rw [hsame]
      exact hpin
  · obtain ⟨pin, hen, hpin⟩ := hI
    refine ⟨pin, .outside rfl hen, ?_⟩
    rcases outside_split hx with _ | _
    · exact .inl rfl
    · exact hpin

def Recognised (s : System) (ev : Event) : Prop :=
  ∀ t id fingerprint, ev = .op t (.attest (.enroll id .ready fingerprint false)) →
    s.verifier.pinned id = none → ∀ e, s.Present e → (s.record e).id = id →
      (s.record e).attested = false ∧ ∀ r, s.disk.get id = some r → r.attested = false

/-- In every run that meets `KeepsKeys` the verified quotes of a VM until it is deleted are by one key,
across restarts, and the key of its record is known. -/
theorem pinned_key_survives (cfg : Config) {pool : Pool}
    (h : Runs cfg KeepsKeys pool) : (∀ id, OneKey (sinceDelete id pool.shared.hist) id) ∧
      ∀ m ev pool', (service cfg).step pool m = some (ev, pool') → KeepsKeys pool.shared ev →
        Recognised pool.shared ev := by
  refine ⟨fun id => ?_, fun m ev pool' _ hk t id fp hev hpin e hp hid => ?_⟩
  · obtain ⟨pin, hen, -⟩ := h.enrolled_across id
    exact hen.oneKey
  subst hev
  have ha : pool.shared.Alive e := (h.inv.vms _ e hp).1
  have hsec : ¬ pool.shared.Secured id := by
    rintro (⟨x, hx, hen⟩ | hgone)
    · obtain ⟨a, hen⟩ := Option.ne_none_iff_exists'.1 hen
      cases (hk.2 hpin x hx a hen).1
    · subst hid
      exact hgone.not_present h.keysKept.distinct ha hp
  refine ⟨?_, fun r hr => ?_⟩
  · by_contra hat
    exact hsec (hid ▸ h.keysKept.records.1 e ha (by simpa using hat))
  · by_contra hat
    exact hsec (h.numbered.key id r hr ▸ h.keysKept.records.2 id r hr (by simpa using hat))

instance : Decidable (op.SameKey s) := by
  unfold Op.SameKey
  split <;> infer_instance

instance : ∀ ev, Decidable (KeepsKeys s ev)
  | .op .. | .call _ => by delta KeepsKeys; infer_instance
  | .env x => by induction x using Outside.casesOn <;> delta KeepsKeys <;> infer_instance

namespace Sample

def restarts (t : Nat) : List Move := [.env .crash, .env .start] ++ oks t 22

end Sample

theorem pinned_key_survives_restarted : ∃ pool, Runs config KeepsKeys pool ∧
      (Accepts (sinceDelete "01" pool.shared.hist) "01" 6 .initrd (Sample.fingerprint Attest.Sample.quote1) ∧
        (∃ x ∈ sinceDelete "01" pool.shared.hist, x.isCrash = true) ∧
        Accepts (sinceForget "01" pool.shared.hist) "01" 10 .initrd (Sample.fingerprint Attest.Sample.quote3)) ∧
      OneKey (sinceDelete "01" pool.shared.hist) "01" :=
  Runs.witness (Sample.attested ++ Sample.restarts 7 ++
      asksNonce 9 Attest.Sample.quote3 ++ submits 10 Attest.Sample.quote3 .initrd ++ Sample.records 10)
    (by decide +kernel) fun _ hrun _ => (pinned_key_survives config hrun).1 "01"

theorem restart_loses_key : ∃ pool, Runs config (fun _ _ => True) pool ∧
      Accepts (sinceDelete "01" pool.shared.hist) "01" 6 .initrd
        (Sample.fingerprint Attest.Sample.quote1) ∧
      Accepts (sinceDelete "01" pool.shared.hist) "01" 10 .initrd
        (Sample.fingerprint Attest.Sample.quote2) ∧
      Sample.fingerprint Attest.Sample.quote1 ≠ Sample.fingerprint Attest.Sample.quote2 :=
  Runs.sample (Sample.attested ++ Sample.restarts 7 ++ asksNonce 9 Attest.Sample.quote2 ++
    submits 10 Attest.Sample.quote2 .initrd) (by decide +kernel)

end VmManager.Vm
