import VmManager.Vm.Coherence

/-! When user-data is released to a guest. The flag of a record has a cause in the history: a verified
initrd quote since the last start of the installed boot, or no attestation being asked for. -/
namespace VmManager.Vm
open Encoding Attest Interleaving Vm.System List VM
variable {cfg : Config} {s s' : System} {t e n : Nat} {op : Op} {u : Update}

def Happening.boots (n : Nat) : Happening → Bool
  | .did _ (.track _ .boot _) m => m == n
  | _ => false

def Happening.verifiesInitrd (n : Nat) : Happening → Bool
  | .did _ (.update _ (.quoteRecorded .initrd q _)) m => m == n && q.verified
  | _ => false

/-- The history, newest first, back to the last start of the installed boot of VM number `n`. -/
def sinceBoot (n : Nat) (hist : List Happening) : List Happening := since (Happening.boots n) hist

structure ReleaseCaused (hist : List Happening) (r : VM) : Prop where
  required : r.spec.requireAttestation = true → r.attestation.userDataReleased = true →
    ∃ x ∈ sinceBoot r.serial hist, x.verifiesInitrd r.serial = true
  unrequired : r.spec.requireAttestation = false → (∃ x ∈ hist, x.boots r.serial = true) →
    r.attestation.userDataReleased = true

namespace ReleaseCaused
variable {hist : List Happening} {r r' : VM} {x : Happening}

theorem cons (h : ReleaseCaused hist r) (hx : x.boots r.serial = false) :
    ReleaseCaused (x :: hist) r := by
  refine ⟨fun hreq hrel => ?_, fun hreq hb => h.unrequired hreq ?_⟩
  · obtain ⟨y, hy, hv⟩ := h.required hreq hrel
    exact ⟨y, mem_since_cons hx hy, hv⟩
  · obtain ⟨y, hy, hb⟩ := hb
    rcases mem_cons.1 hy with rfl | hy
    · cases hx.symm.trans hb
    · exact ⟨y, hy, hb⟩

theorem congr (h : ReleaseCaused hist r) (h1 : r'.serial = r.serial) (h2 : r'.spec = r.spec)
    (h3 : r'.attestation.userDataReleased = r.attestation.userDataReleased) : ReleaseCaused hist r' :=
  ⟨by rw [h1, h2, h3]; exact h.required, by rw [h1, h2, h3]; exact h.unrequired⟩

end ReleaseCaused

namespace VM
variable (r : VM) (now : Nat)

def releases : Update → Bool
  | .quoteRecorded stage q _ => releasesUserData stage q.verified
  | _ => false

theorem update_released (hu : ∀ h, u ≠ .booting h) : (r.update now u).attestation.userDataReleased =
      (r.attestation.userDataReleased || releases u) := by
  have hf := r.passing_frame now (u := u)
  cases u with
  | booting h => exact absurd rfl (hu h)
  | notified | nonceIssued | exited => exact (hf rfl).released.trans (Bool.or_false _).symm
  | quoteRecorded stage q c => cases stage <;> rfl
  | _ => simp [update, releases]

end VM

structure Released (s : System) : Prop where
  writable : s.writable = true
  caused : s.Records (ReleaseCaused s.hist)
  numbered : ∀ x ∈ s.hist, ∀ n, x.boots n = true → n < s.nextSerial

theorem System.writable_effect (s : System) (t : Nat) (op : Op) :
    (s.effect t op).writable = s.writable := by
  cases op with
  | _ => rfl

theorem System.writable_outside {x : Outside} (hx : s.outside n x = some s')
    (hd : ∀ w, x ≠ .disk w) : s'.writable = s.writable := by
  cases x with
  | exit | message | crash | start =>
    simp only [System.outside] at hx
    split at hx <;> cases hx
    rfl
  | tick => cases hx; rfl
  | disk w => exact absurd rfl (hd w)

theorem System.nextEntry_outside {x : Outside} (hx : s.outside n x = some s') :
    s'.nextEntry = s.nextEntry := by
  rcases outside_split hx with _ | _
  · rfl
  · rfl

theorem System.nextSerial_outside {x : Outside} (hx : s.outside n x = some s') :
    s'.nextSerial = s.nextSerial := by
  rcases outside_split hx with _ | _
  · rfl
  · rfl

theorem System.log_boots (hb : ∀ e h, op ≠ .track e .boot h) (n : Nat) :
    (s.log t op).boots n = false := by
  cases op with
  | track e phase h => cases phase with
    | install => rfl
    | boot => exact absurd rfl (hb e h)
  | _ => rfl

theorem VM.eq_of_releases (h : releases u = true) :
    ∃ q c, u = .quoteRecorded .initrd q c ∧ q.verified = true := by
  cases u with
  | quoteRecorded stage q c =>
    obtain ⟨hv, hst⟩ := Bool.and_eq_true_iff.1 h
    obtain rfl : stage = .initrd := by simpa using hst
    exact ⟨q, c, rfl, hv⟩
  | _ => cases h

theorem ReleaseCaused.update {hist : List Happening} {now : Nat} (h : ReleaseCaused (s.log t op :: hist) (s.record e))
    (hb : ∀ e h, op ≠ .track e .boot h) (hu : ∀ h, u ≠ .booting h) (hrel : releases u = true → op = .update e u) :
    ReleaseCaused (s.log t op :: hist) ((s.record e).update now u) := by
  have hr := update_released (s.record e) now hu
  constructor
  · intro hreq hset
    rw [update_spec] at hreq
    rw [update_serial]
    rw [hr, Bool.or_eq_true] at hset
    rcases hset with hset | hset
    · exact h.required hreq hset
    · obtain ⟨q, c, rfl, hv⟩ := eq_of_releases hset
      obtain rfl := hrel hset
      refine ⟨s.log t (.update e (.quoteRecorded .initrd q c)), self_mem_since (log_boots hb _), ?_⟩
      simp [log, Op.entry?, Happening.verifiesInitrd, hv]
  · intro hreq hbt
    rw [update_spec] at hreq
    rw [update_serial] at hbt
    rw [hr, h.unrequired hreq hbt, Bool.true_or]

namespace Released

theorem numbered_effect (h : Released s) (hn : Numbered s) (hg : op.Guard cfg s t) :
    ∀ x ∈ (s.effect t op).hist, ∀ n, x.boots n = true → n < (s.effect t op).nextSerial := by
  intro x hx n hb
  refine lt_of_lt_of_le ?_ (Inv.nextSerial_effect s t op)
  rcases mem_cons.1 hx with rfl | hx
  · by_cases ht : ∃ e h, op = .track e .boot h
    · obtain ⟨e, hs, rfl⟩ := ht
      obtain rfl : (s.record e).serial = n := beq_iff_eq.1 hb
      exact hn.fresh _ _ (named_mem hg.2.1)
    · push Not at ht
      cases (log_boots ht n).symm.trans hb
  · exact h.numbered x hx n hb

theorem booted {h : Processes} (hI : Released s) (hi : Inv s) (hn : Numbered s)
    (hg : (Op.track e .boot h).Guard cfg s t) : (s.effect t (.track e .boot h)).Records
      (ReleaseCaused (s.log t (.track e .boot h) :: s.hist)) := by
  have hself : ReleaseCaused (s.log t (.track e .boot h) :: s.hist)
      ((s.effect t (.track e .boot h)).record e) := by
    rw [s.track_record]
    refine ⟨fun hreq hset => ?_, fun hreq _ => ?_⟩
    · change (!(s.record e).spec.requireAttestation) = true at hset
      change (s.record e).spec.requireAttestation = true at hreq
      rw [hreq] at hset
      cases hset
    · change (s.record e).spec.requireAttestation = false at hreq
      change (!(s.record e).spec.requireAttestation) = true
      rw [hreq]
      rfl
  have hother : ∀ r : VM, r.serial ≠ (s.record e).serial →
      (s.log t (.track e .boot h)).boots r.serial = false := fun r hne =>
    beq_eq_false_iff_ne.2 hne.symm
  have hd : ∀ id r, (s.effect t (.track e .boot h)).disk.get id = some r →
      r = (s.effect t (.track e .boot h)).record e ∨ (s.disk.get id = some r ∧ id ≠ (s.record e).id) := by
    intro id r hr
    simp only [effect, apply, updateRec, addProc, hI.writable,
      Update.started, Update.saves, Bool.and_self, if_true, GoMap.get_insert] at hr
    split at hr
    · rw [← Option.some.inj hr, s.track_record]
      simp [System.record, Update.started]
    · right
      refine ⟨hr, ?_⟩
      rename_i hne
      simpa [System.record, update] using hne
  constructor
  · intro e' ha'
    by_cases he : e' = e
    · exact he ▸ hself
    · have hold := (hi.alive_of_effect hg ha').resolve_right fun hx => by cases hx.1
      rw [(hi.same hg he).record]
      exact (hI.caused.1 e' hold).cons
        (hother _ fun heq => he (hn.entry e' e hold hg.2.1 heq))
  · intro id r hr
    rcases hd id r hr with rfl | ⟨hold, hne⟩
    · exact hself
    · exact (hI.caused.2 id r hold).cons (hother _ fun heq =>
        hne (hn.unique _ _ _ (named_disk hold) (heq ▸ named_mem hg.2.1)))

theorem effect (h : Released s) (hi : Inv s) (hn : Numbered s) (hg : op.Guard cfg s t) :
    Released (s.effect t op) := by
  refine ⟨(writable_effect s t op).trans h.writable, ?_, h.numbered_effect hn hg⟩
  by_cases hb : ∃ e hs, op = .track e .boot hs
  · obtain ⟨e, hs, rfl⟩ := hb
    exact h.booted hi hn hg
  push Not at hb
  have hold : s.Records (ReleaseCaused (s.log t op :: s.hist)) :=
    ⟨fun e ha => (h.caused.1 e ha).cons (log_boots hb _),
      fun id r hr => (h.caused.2 id r hr).cons (log_boots hb _)⟩
  refine hold.effect hi hg (fun id m cid spec _ => ⟨nofun, fun _ hx => ?_⟩) (fun r hr => ?_)
    fun e u hw _ hr => hr.update hb (fun hs hu => ?_) fun hrel => ?_
  · obtain ⟨x, hx, hbx⟩ := hx
    rcases mem_cons.1 hx with rfl | hx
    · cases (log_boots hb _).symm.trans hbx
    · exact absurd (h.numbered x hx _ hbx) (lt_irrefl _)
  · unfold loaded
    split
    · exact hr.congr rfl rfl rfl
    · exact hr
  · subst hu
    rcases Op.writes_cases hw with rfl | ⟨phase, hs', rfl, hu⟩ | ⟨_, _, _, _, -, hu⟩
    · exact hg.2
    · cases phase with
      | install => cases hu
      | boot => exact hb _ _ rfl
    · cases hu
  · obtain ⟨q, c, rfl, -⟩ := eq_of_releases hrel
    rcases Op.writes_cases hw with rfl | ⟨phase, hs', rfl, hu⟩ | ⟨_, _, _, _, -, hu⟩
    · rfl
    · cases phase <;> cases hu
    · cases hu

theorem outside {x : Outside} (h : Released s) (hx : s.outside n x = some s')
    (hd : ∀ w, x ≠ .disk w) : Released (s'.noting x s) := by
  have hwritable : s'.writable = s.writable := writable_outside hx hd
  have hserial : s'.nextSerial = s.nextSerial := nextSerial_outside hx
  refine ⟨hwritable.trans h.writable, ?_, fun y hy n hb => ?_⟩
  · refine Records.outside ?_ hx
    exact ⟨fun e ha => (h.caused.1 e ha).cons rfl, fun id r hr => (h.caused.2 id r hr).cons rfl⟩
  · rcases mem_cons.1 hy with rfl | hy
    · cases hb
    · exact hserial ▸ h.numbered y hy n hb

theorem initial : Released {} := ⟨rfl, Records.initial, fun _ hx => absurd hx not_mem_nil⟩

end Released

def diskHolds : Event → Bool
  | .env (.disk _) => false
  | _ => true

abbrev DiskHolds (_ : System) (ev : Event) : Prop := diskHolds ev = true

theorem Runs.released {pool : Pool} (h : Runs cfg DiskHolds pool) :
    Released pool.shared := by
  refine (Runs.invariant (I := fun s => Numbered s ∧ Released s)
    ⟨Numbered.initial, Released.initial⟩ (fun s t o hi hI hg _ => ?_)
    (fun s x n s' _ hI hk hx => ?_) h).2
  · exact ⟨hI.1.effect hi hg, hI.2.effect hi hI.1 hg⟩
  · exact ⟨hI.1.outside hx, hI.2.outside hx fun w hw => by subst hw; cases hk⟩

def ReleasesAt (s : System) (e : Nat) (ev : Event) : Prop :=
  (∃ t q c, ev = .op t (.update e (.quoteRecorded .initrd q c)) ∧ q.verified = true) ∨
    ∃ t h, ev = .op t (.track e .boot h) ∧ (s.record e).spec.requireAttestation = false

theorem ReleasesAt.of_op (hi : Inv s) (hg : op.Guard cfg s t) (ha : s.Alive e)
    (h : (s.record e).attestation.userDataReleased = false)
    (h' : ((s.effect t op).record e).attestation.userDataReleased = true) :
    ReleasesAt s e (.op t op) := by
  rw [hi.record_effect hg fun _ => (hi.alive_lt ha).ne] at h'
  cases hw : op.writes s e with
  | none =>
    rw [hw] at h'
    cases h.symm.trans h'
  | some u =>
    rw [hw] at h'
    by_cases hb : ∃ hs, u = .booting hs
    · obtain ⟨hs, rfl⟩ := hb
      rcases Op.writes_cases hw with rfl | ⟨phase, hs', rfl, hu⟩ | ⟨_, _, _, _, -, hu⟩
      · exact hg.2.elim
      · cases phase with
        | install => cases hu
        | boot => exact .inr ⟨t, hs', rfl, (Bool.not_eq_true' _).mp h'⟩
      · cases hu
    · push Not at hb
      have hrel : releases u = true := by
        simpa [update_released _ _ hb, h] using h'
      obtain ⟨q, c, rfl, hv⟩ := eq_of_releases hrel
      rcases Op.writes_cases hw with rfl | ⟨phase, hs', rfl, hu⟩ | ⟨_, _, _, _, -, hu⟩
      · exact .inl ⟨t, q, c, rfl, hv⟩
      · cases phase <;> cases hu
      · cases hu

theorem ReleasesAt.of_step {ev : Event} (hi : Inv s) (hst : StepOf cfg s ev s')
    (ha : s.Alive e) (ha' : s'.Alive e) (h : (s.record e).attestation.userDataReleased = false)
    (h' : (s'.record e).attestation.userDataReleased = true) : ReleasesAt s e ev := by
  cases hst with
  | op hg => exact .of_op hi hg ha h h'
  | call => cases h.symm.trans h'
  | env hx =>
    rcases outside_split hx with _ | _
    · exact absurd rfl ha'
    · cases h.symm.trans h'

theorem release_caused (cfg : Config) {pool : Pool}
    (h : Runs cfg DiskHolds pool) : pool.shared.Records (ReleaseCaused pool.shared.hist) ∧
      ∀ m ev pool', (service cfg).step pool m = some (ev, pool') → ∀ e, pool.shared.Alive e → pool'.shared.Alive e →
          (pool.shared.record e).attestation.userDataReleased = false →
          (pool'.shared.record e).attestation.userDataReleased = true → ReleasesAt pool.shared e ev :=
  ⟨h.released.caused, fun _ _ _ hm _ ha ha' h0 h1 => .of_step h.inv (h.step hm) ha ha' h0 h1⟩

namespace Sample

/-- A VM of goroutine 2 that needs attestation; its installer ends and goroutine 3 starts the installed
boot, which goroutine 4 follows. -/
def attestedBoot : List Move :=
  withNetwork ++ creates 2 { name := "one", network := "a", requireAttestation := true } "01" ++
    oks 2 2 ++ [.env (.exit 0 ⟨0, ""⟩), .go 3 (.exited {})] ++ oks 3 16

def guest : Network.Addr := 0x0a000002

def asksNonce (t : Nat) (a : Attest.Sample.SampleQuote) : List Move :=
  [.call (.nonce 0 guest), .go t (.pick 0), .go t (.text (Attest.Sample.nonceOf a)), .go t .ok]

def submits (t : Nat) (a : Attest.Sample.SampleQuote) (stage : Stage) : List Move :=
  [.call (.quote 0 guest (Attest.Sample.request a stage)), .go t (.pick 0)] ++ oks t 7

def records (t : Nat) : List Move := [.go t (.console {})]

def attested : List Move :=
  attestedBoot ++ asksNonce 5 Attest.Sample.quote1 ++ submits 6 Attest.Sample.quote1 .initrd ++ records 6

end Sample

theorem release_caused_attested : ∃ pool, Runs Sample.config DiskHolds pool ∧
      ((pool.shared.record 0).serial ≠ 0 ∧ (pool.shared.record 0).spec.requireAttestation = true ∧
        (pool.shared.record 0).attestation.userDataReleased = true) ∧
      ReleaseCaused pool.shared.hist (pool.shared.record 0) :=
  Runs.witness Sample.attested (by decide +kernel) fun _ hrun hp =>
    (release_caused Sample.config hrun).1.1 0 hp.1

end VmManager.Vm
