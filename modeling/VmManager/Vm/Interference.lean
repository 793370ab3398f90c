import VmManager.Vm.Preservation

/-! What a goroutine can rely on while others run. `Later` holds of every step, `Steady` of an entry
whose lock the goroutine holds, and the rest of the tokens it owns: the process it supervises, the
Load it runs, the quote it submits. -/
namespace VmManager.Vm
open Encoding Attest Interleaving Option Function Vm.System List VM GoMap
variable {cfg : Config} {s s' : System} {t t' e p n : Nat} {op : Op} {u : Update} {x : Outside}

def Op.quiet : Op → Bool
  | .unlock _ | .update _ .deleting | .update _ (.reassigned _) | .update _ (.reattachFailed _)
  | .remove _ | .runtimeStart .. | .track .. | .reattach .. | .supervise _ _ | .exited .. | .shutdown (.stopsBegin _) | .loadDirs _
  | .loadSkip _ | .loadEntry _ _ | .loaded | .net (.attach ..) | .net (.detach ..) | .net (.check ..)
  | .net (.delete ..) | .notify (.subscribe ..) => false
  | _ => true

theorem Op.foreign {P : Prop} (hq : t' ≠ t ∨ op.quiet = true) {token : Option Nat}
    (h : token = some t) (hn : op.quiet = false) (h' : token = some t') : P := by
  have htt : t' = t := some.inj (h'.symm.trans h)
  rcases hq with hq | hq
  · exact absurd htt hq
  · cases hn.symm.trans hq

/-- What a step leaves as it was of an entry whose lock is held. -/
structure Steady (s s' : System) (e : Nat) : Prop where
  opMu : (s'.entries e).opMu = (s.entries e).opMu
  late : (s'.entries e).late = (s.entries e).late
  owner : (s'.entries e).owner = (s.entries e).owner
  proc : (s'.entries e).proc = (s.entries e).proc ∨ (s'.entries e).proc = none
  unsettled : ∀ q, s'.Unsettled e q → s.Unsettled e q ∧ (s.Tracked e q → s'.Tracked e q)
  deleting : (s'.record e).state = .deleting ↔ (s.record e).state = .deleting
  installed : (s.record e).installedAt ≠ none → (s'.record e).installedAt ≠ none
  present : s'.Present e → s.Present e
  kept : s'.overtaken = false → s.Present e → s'.Present e
  overtaken : s'.overtaken = false → s.overtaken = false

theorem SameEntry.steady (h : SameEntry s s' e) : Steady s s' e where
  opMu := h.opMu
  late := h.late
  owner := h.owner
  proc := .inl h.proc
  unsettled q hu := by
    refine ⟨h.unsettled q hu, ?_⟩
    rintro ⟨p, hp, hq⟩
    exact ⟨p, h.proc ▸ hp, by rw [(h.procs p hp).2.2.2.1]; exact hq⟩
  deleting := by rw [h.record]
  installed := by rw [h.record]; exact id
  present := h.present.1
  kept _ := h.present.2
  overtaken := h.overtaken

theorem VM.update_installed (r : VM) (now : Nat) (u : Update) (h : r.installedAt ≠ none) :
    (r.update now u).installedAt ≠ none := by
  cases u with
  | notified n c => rw [VM.update, (onNotify_same r now n c).installedAt]; exact h
  | nonceIssued => rw [VM.update, (onNonce_same r now).installedAt]; exact h
  | exited phase timedOut exit timeout c =>
    rw [VM.update, onExit_installedAt]
    split
    · simp
    · exact h
  | _ => exact h

namespace Steady

theorem update (h : Inv s) (hg : (Op.update e u).Guard cfg s t') (hu : u.deletes = false) :
    Steady s (s.effect t' (.update e u)) e := by
  have he := s.update_entry t' e u
  have hr := s.update_record t' e u
  have hv : (s.effect t' (.update e u)).Present e ↔ s.Present e := by
    rw [Present, hr, update_id]; rfl
  refine ⟨by rw [he], by rw [he], by rw [he], .inl (by rw [he]), ?_, ?_, ?_, hv.1, fun _ => hv.2,
    fun ho => (Bool.or_eq_false_iff.1 ho).1⟩
  · rintro q ⟨ha, hq⟩
    rw [Alive, hr, update_serial] at ha
    refine ⟨⟨ha, hq⟩, ?_⟩
    rintro ⟨p, hp, hpq⟩
    exact ⟨p, by rw [he]; exact hp, hpq⟩
  · rw [hr, hg.2.deleting_iff (h.entry e) hu]
  · rw [hr]; exact (s.record e).update_installed s.clock u

theorem exited {exit : ExitStatus} {timeout : String} {c : Console}
    (hg : (Op.exited e p exit timeout c).Guard cfg s t') :
    Steady s (s.effect t' (.exited e p exit timeout c)) e := by
  have he := s.exited_entry t' e p exit timeout c
  have hr := s.exited_record t' e p exit timeout c
  have hv : (s.effect t' (.exited e p exit timeout c)).Present e ↔ s.Present e := by
    rw [Present, hr, update_id]; rfl
  refine ⟨by rw [he], by rw [he], by rw [he], .inr (by rw [he]), ?_, ?_, ?_, hv.1, fun _ => hv.2, id⟩
  · intro q hu
    obtain ⟨hu, hq⟩ := s.unsettled_of_exited t' e hu
    refine ⟨hu, ?_⟩
    rintro ⟨p', hp', hq'⟩
    rw [hg.2.1.1] at hp'
    obtain rfl := some.inj hp'
    exact absurd hq'.symm hq
  · rw [hr]; exact onExit_deleting_iff ..
  · rw [hr]; exact (s.record e).update_installed s.clock _

end Steady

theorem Inv.steady (h : Inv s) (hg : op.Guard cfg s t') (hq : t' ≠ t ∨ op.quiet = true)
    (hm : (s.entries e).opMu = some t) : Steady s (s.effect t' op) e := by
  by_cases hc : op.Concerns s e
  swap
  · exact (h.same hg hc).steady
  have hother : ∀ {P : Prop}, op.quiet = false → (s.entries e).opMu = some t' → P :=
    fun hn ht => Op.foreign hq hm hn ht
  cases op with
  | lock e' => cases hc; cases hm.symm.trans hg.1
  | unlock e' => cases hc; exact hother rfl hg.1
  | update e' u =>
    cases hc
    cases hd : u.deletes with
    | false => exact .update h hg hd
    | true => cases u with
      | deleting => exact hother rfl hg.2.1
      | _ => cases hd
  | allocate | loadEntry =>
    cases hc
    rw [h.freshEntry _ le_rfl] at hm
    cases hm
  | remove id =>
    cases hc
    obtain ⟨e', hid, hvac, hk, -⟩ := hg
    have hget : ∀ id', GoMap.get (s.vms.erase (s.record e).id) id' = some e → s.vms.get id' = some e := by
      intro id' hx
      rw [get_erase] at hx
      split at hx
      · cases hx
      · exact hx
    refine ⟨rfl, rfl, rfl, .inl rfl, fun q hu => ⟨hu, fun ht => ht⟩, Iff.rfl, fun hi => hi,
      fun hp => hget _ hp, fun ho hp => ?_, fun ho => ho⟩
    have hp' : s.vms.get (s.record e').id = some e' := hk ho
    rw [hid] at hp'
    obtain rfl := some.inj (hp'.symm.trans hp)
    exact hother rfl hvac.1
  | runtimeStart e' phase cid q => cases hc; exact hother rfl hg.1.1
  | track e' phase hs => cases hc; exact hother rfl hg.1
  | reattach e' phase hs =>
    cases hc
    cases hm.symm.trans ((h.entry e).loading hg.2.1).2.2.1
  | exited e' p exit timeout c => cases hc; exact .exited hg
  | _ => exact hc.elim

theorem Steady.covered (h : Steady s s' e) (hc : s.Covered e) : s'.Covered e := fun q hu =>
  (h.unsettled q hu).2 (hc q (h.unsettled q hu).1)

theorem System.acts_effect (s : System) (t t' : Nat) (op : Op) : (s.effect t op).acts t' =
      if t = t' ∧ op.isRead = false then op :: s.acts t' else s.acts t' := by
  simp only [acts, effect, log, filterMap_cons]
  split <;> split <;> simp_all

structure Later (s s' : System) : Prop where
  ident : ∀ e, s.Alive e → s'.Alive e ∧ (s'.record e).id = (s.record e).id ∧ (s'.record e).spec = (s.record e).spec
  installed : ∀ e, s.Alive e → (s.record e).installedAt ≠ none → (s'.record e).installedAt ≠ none
  notLoading : ∀ e, s.Alive e → s.loading ≠ some e → s'.loading ≠ some e
  serving : s.serving = true → s'.serving = true
  closing : s.closing = true → s'.closing = true
  overtaken : s'.overtaken = false → s.overtaken = false
  qemu : ∀ q, q < s.nextQemu → q < s'.nextQemu ∧ (s'.qemus q).entry = (s.qemus q).entry ∧
    (s'.qemus q).phase = (s.qemus q).phase ∧ ∀ x, (s.qemus q).exit = some x → (s'.qemus q).exit = some x
  proc : ∀ p, p < s.nextProc → p < s'.nextProc ∧ (s'.procs p).entry = (s.procs p).entry ∧
    (s'.procs p).phase = (s.procs p).phase ∧ (s'.procs p).handles = (s.procs p).handles ∧
    ((s.procs p).done = true → (s'.procs p).done = true)
  dropped : ∀ p, p < s.nextProc → (∀ e, (s.entries e).proc ≠ some p) → ∀ e, (s'.entries e).proc ≠ some p
  present : ∀ e, s.Alive e → s'.Present e → s.Present e
  known : s.closing = true → ∀ e, s'.Present e → s.Present e
  visited : ∀ e (P : Nat → Prop), s.Visited e P → s'.Visited e P
  acts : ∀ t o, o ∈ s.acts t → o ∈ s'.acts t
  hist : ∀ x ∈ s.hist, x ∈ s'.hist
  called : ∀ n name, s.Called n name → s'.Called n name

namespace Inv

theorem overtaken_mono (s : System) (t : Nat) (op : Op) (ho : (s.effect t op).overtaken = false) :
    s.overtaken = false := by
  cases op with
  | lock | update => exact (Bool.or_eq_false_iff.1 ho).1
  | _ => exact ho

theorem closing_mono (s : System) (t : Nat) (op : Op) (hc : s.closing = true) :
    (s.effect t op).closing = true := by
  cases op with
  | shutdown o => cases o <;> first | rfl | exact hc
  | _ => exact hc

theorem serving_mono (s : System) (t : Nat) (op : Op) (hs : s.serving = true) :
    (s.effect t op).serving = true := by
  cases op with
  | loaded => rfl
  | _ => exact hs

theorem qemu_mono (hg : op.Guard cfg s t) {q : Nat} (hq : q < s.nextQemu) :
    q < (s.effect t op).nextQemu ∧ ((s.effect t op).qemus q).entry = (s.qemus q).entry ∧
      ((s.effect t op).qemus q).phase = (s.qemus q).phase ∧
      ∀ x, (s.qemus q).exit = some x → ((s.effect t op).qemus q).exit = some x := by
  cases op with
  | runtimeStart e phase cid q' =>
    cases q' with
    | none => exact ⟨hq, rfl, rfl, fun _ h => h⟩
    | some q' =>
      have hq' : q' = s.nextQemu := hg.2.2.2.2.1 q' rfl
      have hne : q ≠ q' := by omega
      simp only [System.effect, System.apply, elim_some, update_of_ne hne]
      exact ⟨by omega, trivial, trivial, fun _ h => h⟩
  | exited e p exit timeout c =>
    by_cases hne : q = (s.procs p).handles.qemu
    · subst hne
      simp only [System.effect, System.apply, updateRec, dropProc, update_self]
      exact ⟨hq, trivial, trivial, fun _ h => h⟩
    · simp only [System.effect, System.apply, updateRec, dropProc, update_of_ne hne]
      exact ⟨hq, trivial, trivial, fun _ h => h⟩
  | _ => exact ⟨hq, rfl, rfl, fun _ h => h⟩

theorem proc_mono (s : System) (t : Nat) (op : Op) (hp : p < s.nextProc) :
    p < (s.effect t op).nextProc ∧ ((s.effect t op).procs p).entry = (s.procs p).entry ∧
      ((s.effect t op).procs p).phase = (s.procs p).phase ∧ ((s.effect t op).procs p).handles = (s.procs p).handles ∧
      ((s.procs p).done = true → ((s.effect t op).procs p).done = true) := by
  cases op with
  | track | reattach =>
    simp only [System.effect, System.apply, updateRec, addProc, update_of_ne hp.ne]
    exact ⟨Nat.lt_succ_of_lt hp, trivial, trivial, trivial, fun h => h⟩
  | supervise p' | timedOut p' | closeDone p' =>
    by_cases hne : p = p'
    · subst hne
      simp [System.effect, System.apply, modifyProc, hp]
    · simp [System.effect, System.apply, modifyProc, update_of_ne hne, hp]
  | _ => exact ⟨hp, rfl, rfl, rfl, fun h => h⟩

variable (h : Inv s) (hg : op.Guard cfg s t)
include h hg

theorem notLoading_mono (ha : s.Alive e) (hl : s.loading ≠ some e) : (s.effect t op).loading ≠ some e := by
  cases hload : op.isLoad with
  | false =>
    rcases (loading_effect hg hload).2.2.2 with hx | hx
    · rw [hx]; exact hl
    · rw [hx]; simp
  | true =>
    cases op with
    | loadEntry id r =>
      have hlt := h.alive_lt ha
      simp only [System.effect, System.apply]
      split
      · exact fun hx => absurd (some.inj hx) (by omega)
      · simp
    | loadDirs | loadSkip | loaded => exact hl
    | _ => cases hload

theorem installed_mono (ha : s.Alive e)
    (hi : (s.record e).installedAt ≠ none) : ((s.effect t op).record e).installedAt ≠ none := by
  rw [h.record_effect hg fun _ => (h.alive_lt ha).ne]
  cases op.writes s e with
  | none => exact hi
  | some u => exact (s.record e).update_installed s.clock u hi

theorem dropped_mono (hp : p < s.nextProc) (hd : ∀ e, (s.entries e).proc ≠ some p) (e : Nat) :
    ((s.effect t op).entries e).proc ≠ some p := by
  rcases h.proc_effect hg e with hx | ⟨-, -, hx⟩ | ⟨-, hx⟩
  · rw [hx]; exact hd e
  · rw [hx]; exact fun hx => absurd (some.inj hx) hp.ne'
  · rw [hx]; nofun

theorem present_mono (ha : s.Alive e) (hp : (s.effect t op).Present e) : s.Present e := by
  by_cases hc : op.Concerns s e
  swap
  · exact (h.same hg hc).present.1 hp
  have hid := (h.ident hg ha).1
  rw [Present, hid] at hp
  cases op with
  | allocate | loadEntry => exact absurd hc (h.alive_lt ha).ne
  | remove id =>
    change GoMap.get (s.vms.erase id) (s.record e).id = some e at hp
    rw [get_erase] at hp
    split at hp
    · cases hp
    · exact hp
  | lock | unlock | update | track | reattach | exited | runtimeStart => exact hp
  | _ => exact hc.elim

theorem known_mono (hc : s.closing = true) (hp : (s.effect t op).Present e) : s.Present e := by
  have ha : s.Alive e := by
    refine (h.alive_of_effect hg ((h.effect hg).vms _ _ hp).1).resolve_right fun hadd => ?_
    cases op with
    | allocate => cases hc.symm.trans hg.2.1
    | loadEntry => cases (h.serving (h.closing hc)).symm.trans hg.1
    | _ => cases hadd.1
  exact h.present_mono hg ha hp

theorem unsettled_effect {q : Nat} (hu : (s.effect t op).Unsettled e q) :
    s.Unsettled e q ∨ ∃ phase cid, op = .runtimeStart e phase cid (some q) := by
  by_cases hc : op.Concerns s e
  swap
  · exact .inl ((h.same hg hc).unsettled q hu)
  have hnew : op.adds = true → False := by
    intro hadd
    cases op with
    | allocate | loadEntry =>
      cases hc
      have hlt : (s.qemus q).entry < s.nextEntry := h.qemuEntry q hu.2.2
      exact absurd hu.2.1 hlt.ne
    | _ => cases hadd
  have ha := (h.alive_of_effect hg hu.1).resolve_right fun hx => hnew hx.1
  cases op with
  | runtimeStart e' phase cid q' =>
    cases hc
    cases q' with
    | none => exact .inl hu
    | some q' =>
      by_cases hq : q = q'
      · exact .inr ⟨phase, cid, by rw [hq]⟩
      · obtain ⟨-, h1, h2⟩ := hu
        simp only [System.effect, System.apply, elim_some, update_of_ne hq] at h1 h2
        exact .inl ⟨ha, h1, h2⟩
  | exited e' p exit timeout c => cases hc; exact .inl (s.unsettled_of_exited t e hu).1
  | allocate | loadEntry => exact (hnew rfl).elim
  | lock | unlock | update | track | reattach | remove => exact .inl ⟨ha, hu.2⟩
  | _ => exact hc.elim

theorem tracked_effect {q : Nat} (ht : s.Tracked e q) : (s.effect t op).Tracked e q ∨
      ∃ p exit timeout c, op = .exited e p exit timeout c ∧ (s.procs p).handles.qemu = q := by
  obtain ⟨p, hp, hq⟩ := ht
  rcases h.proc_effect hg e with hx | ⟨-, hnone, -⟩ | ⟨⟨p', exit, timeout, c, rfl⟩, -⟩
  · refine .inl ⟨p, hx.trans hp, ?_⟩
    rw [(proc_mono s t op ((h.entry e).proc p hp).1).2.2.2.1]
    exact hq
  · cases hp.symm.trans hnone
  · obtain rfl : p' = p := some.inj (hg.2.1.1.symm.trans hp)
    exact .inr ⟨p', exit, timeout, c, rfl, hq⟩

theorem late_mono (hc : s.closing = true) (hl : (s.entries e).late = true) :
    ((s.effect t op).entries e).late = true := by
  by_cases hc' : op.Concerns s e
  swap
  · exact (h.same hg hc').late.trans hl
  cases op with
  | lock => cases hc'; simpa [System.effect, System.apply, modifyEntry] using hc
  | unlock | reattach => cases hc'; simpa [System.effect, System.apply, modifyEntry, addProc] using hl
  | update => cases hc'; rw [s.update_entry]; exact hl
  | track => cases hc'; rw [s.track_entry]; exact hl
  | exited => cases hc'; rw [s.exited_entry]; exact hl
  | allocate | loadEntry =>
    cases hc'
    rw [h.freshEntry _ le_rfl] at hl
    cases hl
  | remove | runtimeStart => exact hl
  | _ => exact hc'.elim

theorem visited_mono {P : Nat → Prop} (hv : s.Visited e P) : (s.effect t op).Visited e P := by
  obtain ⟨hcl, hlate, hu⟩ := hv
  refine ⟨closing_mono s t op hcl, h.late_mono hg hcl hlate, fun ho q hq => ?_⟩
  have ho := overtaken_mono s t op ho
  rcases h.unsettled_effect hg hq with hold | ⟨phase, cid, rfl⟩
  · obtain ⟨ht, hP⟩ := hu ho q hold
    rcases h.tracked_effect hg ht with ht | ⟨p, exit, timeout, c, rfl, hpq⟩
    · exact ⟨ht, hP⟩
    · exact absurd hpq.symm (s.unsettled_of_exited t e hq).2
  · cases (hg.2.2.2.1 hcl hlate).symm.trans ho

theorem nets_mono : s.nets.Keeps (s.effect t op).nets := by
  have hrefl := Network.Manager.Keeps.refl s.nets
  cases op with
  | net o =>
    cases o with
    | attach e n id ip => exact s.nets.keeps_attach n id
    | detach e n id => exact s.nets.keeps_detach n id
    | add spec leases =>
      obtain ⟨-, -, m, hm⟩ := hg
      simpa [System.effect, System.apply, NetOp.onNets, hm, Except.toOption] using h.nets.keeps_add hm
    | delete name n clean => exact s.nets.keeps_delete name n
    | _ => exact hrefl
  | _ => exact hrefl

theorem later : Later s (s.effect t op) where
  ident _ ha := ⟨h.alive_effect hg ha, (h.ident hg ha).1, (h.ident hg ha).2.2⟩
  installed _ := h.installed_mono hg
  notLoading _ := h.notLoading_mono hg
  serving := serving_mono s t op
  closing := closing_mono s t op
  overtaken := overtaken_mono s t op
  qemu _ := qemu_mono hg
  proc _ := proc_mono s t op
  dropped _ := h.dropped_mono hg
  present _ := h.present_mono hg
  known hc _ := h.known_mono hg hc
  visited _ _ := h.visited_mono hg
  acts t' o ho := by
    rw [acts_effect]
    split
    · exact mem_cons_of_mem _ ho
    · exact ho
  hist _ := mem_cons_of_mem _
  called n name := by
    rintro ⟨net, hn, hname⟩
    obtain ⟨net', hn', hs⟩ := h.nets_mono hg n net hn
    exact ⟨net', hn', hs ▸ hname⟩

end Inv

structure OutsideStep (s s' : System) : Prop where
  entries : s'.entries = s.entries
  vms : s'.vms = s.vms
  procs : s'.procs = s.procs
  nextEntry : s'.nextEntry = s.nextEntry
  nextProc : s'.nextProc = s.nextProc
  nextQemu : s'.nextQemu = s.nextQemu
  close : s'.close = s.close
  overtaken : s'.overtaken = s.overtaken
  loading : s'.loading = s.loading
  pendingLoad : s'.pendingLoad = s.pendingLoad
  serving : s'.serving = s.serving
  verifier : s'.verifier = s.verifier
  metrics : s'.metrics = s.metrics
  forwards : s'.forwards = s.forwards
  nets : s'.nets = s.nets
  netMu : s'.netMu = s.netMu
  lease : s'.lease = s.lease
  notify : s'.notify = s.notify
  host : s'.host = s.host
  acts : ∀ t, s'.acts t = s.acts t
  hist : ∀ x ∈ s.hist, x ∈ s'.hist
  qemu : ∀ q, (s'.qemus q).entry = (s.qemus q).entry ∧ (s'.qemus q).phase = (s.qemus q).phase ∧
    (s'.qemus q).settled = (s.qemus q).settled ∧ ∀ x, (s.qemus q).exit = some x → (s'.qemus q).exit = some x

theorem System.outside_step (hx : s.outside n x = some s')
    (hne : x ≠ .crash) : OutsideStep s (s'.noting x s) := by
  obtain ⟨_, _, _, _, _, rfl, hq, -⟩ := outside_eq hx hne
  exact ⟨rfl, rfl, rfl, rfl, rfl, rfl, rfl, rfl, rfl, rfl, rfl, rfl, rfl, rfl, rfl, rfl, rfl, rfl, rfl,
    fun _ => rfl, fun _ => mem_cons_of_mem _, fun q => (hq q).2⟩

theorem System.loader_outside (hx : s.outside n x = some s')
    (hne : x ≠ .crash) (hup : s.up = true) : s'.loader = s.loader := by
  obtain ⟨_, _, _, _, _, rfl, -, -, ⟨-, rfl⟩ | ⟨hdown, -⟩⟩ := outside_eq hx hne
  · rfl
  · cases hdown.symm.trans hup

theorem Inv.up_of_loader (h : Inv s) (hl : s.loader = some t) : s.up = true := by
  by_contra hup
  rw [Bool.not_eq_true] at hup
  cases hl.symm.trans (h.down hup).2.1

namespace OutsideStep

theorem same (h : OutsideStep s s') (e : Nat) : SameEntry s s' e := by
  refine .of_entry (by rw [h.entries]) (fun q h1 h2 => ?_) (fun p _ => ?_) h.vms (fun hc => ?_)
    (fun ho => h.overtaken ▸ ho) fun hl => h.loading ▸ hl
  · obtain ⟨h3, -, h4, -⟩ := h.qemu q
    exact ⟨h3 ▸ h1, h4 ▸ h2⟩
  · rw [SameProc, h.procs, h.nextProc]
    simp
  · rw [closing, h.close]
    exact hc

theorem later (h : OutsideStep s s') : Later s s' where
  ident e ha := by
    rw [Alive, (h.same e).record]
    exact ⟨ha, rfl, rfl⟩
  installed e _ := by rw [(h.same e).record]; exact id
  notLoading e _ := by rw [h.loading]; exact id
  serving := by rw [h.serving]; exact id
  closing := by rw [closing, closing, h.close]; exact id
  overtaken := by rw [h.overtaken]; exact id
  qemu q hq := by
    obtain ⟨h1, h2, -, h4⟩ := h.qemu q
    exact ⟨h.nextQemu ▸ hq, h1, h2, h4⟩
  proc p hp := by rw [h.procs, h.nextProc]; exact ⟨hp, rfl, rfl, rfl, id⟩
  dropped p _ hd e := by rw [h.entries]; exact hd e
  present e _ := (h.same e).present.1
  known _ e := (h.same e).present.1
  visited e P hv := by
    obtain ⟨hcl, hlate, hu⟩ := hv
    have hs := h.same e
    refine ⟨hs.closing hcl, hs.late.trans hlate, fun ho q hq => ?_⟩
    obtain ⟨hq', ht⟩ := hs.steady.unsettled q hq
    exact ⟨ht (hu (hs.overtaken ho) q hq').1, (hu (hs.overtaken ho) q hq').2⟩
  acts t o := by rw [h.acts]; exact id
  hist := h.hist
  called n name := by rw [Called, Called, h.nets]; exact id

end OutsideStep

namespace Inv

theorem supervisor_effect (s : System) (t : Nat) (op : Op) (hp : p < s.nextProc) (hne : ∀ k, op ≠ .supervise p k) :
    ((s.effect t op).procs p).supervisor = (s.procs p).supervisor := by
  cases op with
  | track | reattach =>
    simp [System.effect, System.apply, updateRec, addProc, update_of_ne hp.ne]
  | supervise p' k =>
    have hpp : p ≠ p' := by rintro rfl; exact hne k rfl
    simp [System.effect, System.apply, modifyProc, update_of_ne hpp]
  | timedOut p' | closeDone p' =>
    by_cases hpp : p = p'
    · subst hpp
      simp [System.effect, System.apply, modifyProc]
    · simp [System.effect, System.apply, modifyProc, update_of_ne hpp]
  | _ => rfl

theorem supervises (h : Inv s) (hg : op.Guard cfg s t') (hq : t' ≠ t ∨ op.quiet = true)
    (hs : s.Supervises t e p) : (s.effect t' op).Supervises t e p := by
  obtain ⟨hp, hsup⟩ := hs
  have hlt := ((h.entry e).proc p hp).1
  have hother : ∀ {P : Prop}, op.quiet = false → (s.procs p).supervisor = some t' → P :=
    fun hn ht => Op.foreign hq hsup hn ht
  refine ⟨?_, ?_⟩
  · rcases h.proc_effect hg e with hx | ⟨-, hnone, -⟩ | ⟨⟨p', exit, timeout, c, rfl⟩, -⟩
    · exact hx.trans hp
    · cases hp.symm.trans hnone
    · have hpp : p' = p := some.inj (hg.2.1.1.symm.trans hp)
      exact hother rfl (hpp ▸ hg.2.1.2)
  · rw [supervisor_effect s t' op hlt]
    · exact hsup
    · rintro k rfl
      obtain ⟨e', -, hs'⟩ := hg
      exact hother rfl hs'

theorem loads (hg : op.Guard cfg s t') (hq : t' ≠ t ∨ op.quiet = true) (hl : s.loader = some t) :
    (s.effect t' op).loader = some t ∧ (s.effect t' op).pendingLoad = s.pendingLoad ∧
      (s.effect t' op).loading = s.loading := by
  have hother : ∀ {P : Prop}, op.quiet = false → s.loader = some t' → P :=
    fun hn ht => Op.foreign hq hl hn ht
  cases op with
  | loadDirs | loadSkip | loadEntry | loaded | reattach => exact hother rfl hg.1
  | update e u =>
    cases u with
    | reattachFailed => exact hother rfl hg.2.1
    | _ => exact ⟨hl, rfl, rfl⟩
  | _ => exact ⟨hl, rfl, rfl⟩

theorem made_of_not_adds (h : Inv s) (hg : op.Guard cfg s t) (hadds : op.adds = false) :
    (s.effect t op).nextEntry = s.nextEntry ∧ ∀ e, (s.effect t op).Alive e → s.Alive e := by
  refine ⟨?_, fun e ha => ?_⟩
  · cases op with
    | allocate | loadEntry => cases hadds
    | _ => rfl
  · have hor := h.alive_of_effect hg ha
    rw [hadds] at hor
    exact hor.resolve_right fun hx => absurd hx.1 nofun

theorem made (h : Inv s) (hg : op.Guard cfg s t') (hq : t' ≠ t ∨ op.quiet = true) (hl : s.loader = some t) :
    (s.effect t' op).nextEntry = s.nextEntry ∧ ∀ e, (s.effect t' op).Alive e → s.Alive e := by
  cases hadds : op.adds with
  | false => exact h.made_of_not_adds hg hadds
  | true =>
    cases op with
    | allocate => cases hl.symm.trans (h.serving hg.1)
    | loadEntry => exact Op.foreign hq hl rfl hg.1
    | _ => cases hadds

theorem loading_record (h : Inv s) (hg : op.Guard cfg s t) (hl : s.loading = some e)
    (hl' : (s.effect t op).loading = some e) : ((s.effect t op).record e).processes = (s.record e).processes ∧
      ((s.effect t op).record e).phase = (s.record e).phase := by
  obtain ⟨ha, hp, hm, -⟩ := (h.entry e).loading hl
  rw [h.record_effect hg fun _ => (h.alive_lt ha).ne]
  cases hw : op.writes s e with
  | none => exact ⟨rfl, rfl⟩
  | some u =>
    rcases Op.writes_cases hw with rfl | ⟨phase, hs, rfl, -⟩ | ⟨p, exit, timeout, c, rfl, -⟩
    · cases u with
      | volume | leased | deleting => cases hm.symm.trans hg.2.1
      | installing | booting | exited => exact hg.2.elim
      | reassigned | failed | handoffClosed => cases hm.symm.trans hg.2.1.1
      | reattachFailed => cases hl'
      | nonceIssued =>
        have hs := (s.record e).onNonce_same s.clock
        exact ⟨hs.processes, hs.phase⟩
      | notified n c =>
        have hs := (s.record e).onNotify_same s.clock n c
        exact ⟨hs.processes, hs.phase⟩
      | stopping | overdue | quoteRecorded | resaved => exact ⟨rfl, rfl⟩
    · cases hm.symm.trans hg.1
    · cases hp.symm.trans hg.2.1.1

end Inv

namespace System

theorem submitting_effect_ne (s : System) (op : Op) (ht : t' ≠ t) :
    (s.effect t' op).submitting.get t = s.submitting.get t := by
  have herase : GoMap.get (s.submitting.erase t') t = s.submitting.get t := by
    rw [get_erase, if_neg ht.symm]
  cases op with
  | update e u => cases u <;> first | rfl | exact herase
  | attest o =>
    cases o with
    | submit id =>
      change GoMap.get (s.submitting.insert t' id) t = _
      rw [get_insert, if_neg ht.symm]
    | submitDone => exact herase
    | _ => rfl
  | _ => rfl

end System

theorem Inv.owns (h : Inv s) (hg : op.Guard cfg s t') (hq : t' ≠ t ∨ op.quiet = true)
    (ho : (s.entries e).owner = some t) :
    ((s.effect t' op).entries e).owner = some t ∧ (s.Kept e → (s.effect t' op).Kept e) := by
  obtain ⟨hp, -, hst⟩ := (h.entry e).owner t ho
  by_cases hc : op.Concerns s e
  swap
  · have hs := h.same hg hc
    exact ⟨hs.owner.trans ho, fun hk hov => hs.present.2 (hk (hs.overtaken hov))⟩
  have hother : ∀ {P : Prop}, op.quiet = false → (s.entries e).owner = some t' → P :=
    fun hn ht => Op.foreign hq ho hn ht
  cases op with
  | lock e' | unlock e' =>
    cases hc
    refine ⟨by simpa [System.effect, System.apply, modifyEntry] using ho, fun hk hov => ?_⟩
    have hpres := hk (overtaken_mono s t' _ hov)
    simpa [Present, System.record, System.effect, System.apply, modifyEntry] using
      hpres
  | update e' u =>
    cases hc
    refine ⟨by rw [s.update_entry]; exact ho, fun hk hov => ?_⟩
    rw [Present, s.update_record, update_id]
    exact hk (overtaken_mono s t' _ hov)
  | allocate | loadEntry =>
    cases hc
    rw [h.freshEntry _ le_rfl] at ho
    cases ho
  | remove id =>
    cases hc
    refine ⟨ho, fun hk hov => ?_⟩
    obtain ⟨e', hid, -, hk', hst'⟩ := hg
    have hp' : s.vms.get (s.record e').id = some e' := hk' hov
    rw [hid] at hp'
    obtain rfl := some.inj (hp'.symm.trans (hk hov))
    rcases hst' with hdel | hown
    · rcases hst with hcr | ⟨-, hovt⟩
      · cases hcr.symm.trans hdel
      · cases hovt.symm.trans hov
    · exact hother rfl hown
  | runtimeStart => exact ⟨ho, fun hk => hk⟩
  | track e' phase hs =>
    cases hc
    have hready := hg.2.2.2.2.1
    cases phase with
    | install => exact hother rfl hready
    | boot => cases ho.symm.trans hready.1
  | reattach e' phase hs =>
    cases hc
    cases ho.symm.trans ((h.entry e).loading hg.2.1).2.2.2.1
  | exited e' p exit timeout c => cases hc; cases hp.symm.trans hg.2.1.1
  | _ => exact hc.elim

theorem Inv.stops (h : Inv s) (hg : op.Guard cfg s t') (hq : t' ≠ t ∨ op.quiet = true) (he : e ∈ s.close.stops t) :
    e ∈ (s.effect t' op).close.stops t ∨ (s.effect t' op).Visited e fun _ => False := by
  cases op with
  | shutdown o =>
    cases o with
    | stopsBegin es =>
      have hne : t ≠ t' := by
        rintro rfl
        rcases hq with hq | hq
        · exact hq rfl
        · cases hq
      exact .inl (by simpa [System.effect, System.apply, CloseOp.apply, update_of_ne hne] using he)
    | stopEnd owner e' =>
      by_cases hee : e = e'
      · subst hee
        exact .inr (h.visited_mono hg hg)
      · left
        by_cases ho : t = owner
        · subst ho
          simpa [System.effect, System.apply, CloseOp.apply, List.mem_erase_of_ne hee] using he
        · simpa [System.effect, System.apply, CloseOp.apply, update_of_ne ho] using he
    | _ => exact .inl he
  | supervise => exact .inl he
  | _ => exact .inl he

theorem Inv.inCharge_unique (h : Inv s) (h1 : s.InCharge t e) (h2 : s.InCharge t' e) : t' = t := by
  rcases h1 with h1 | ⟨h1, hl⟩
  · rcases h2 with h2 | ⟨-, hl⟩
    · exact some.inj (h2.symm.trans h1)
    · cases h1.symm.trans ((h.entry e).loading hl).2.2.1
  · rcases h2 with h2 | ⟨h2, -⟩
    · cases h2.symm.trans ((h.entry e).loading hl).2.2.1
    · exact some.inj (h2.symm.trans h1)

theorem Inv.inCharge_lt (h : Inv s) (hc : s.InCharge t e) : e < s.nextEntry := by
  by_contra hlt
  have hold := h.freshEntry e (Nat.le_of_not_lt hlt)
  rcases hc with hm | ⟨-, hl⟩
  · rw [hold] at hm
    cases hm
  · exact hlt (h.alive_lt ((h.entry e).loading hl).1)

theorem Inv.lease_effect (h : Inv s) (hg : op.Guard cfg s t') (hq : t' ≠ t ∨ op.quiet = true)
    (hc : s.InCharge t e) : (s.effect t' op).lease e = s.lease e := by
  have hown : ∀ e', op.quiet = false → s.InCharge t' e' → e ≠ e' := by
    rintro e' hn hc' rfl
    rcases hq with hq | hq
    · exact hq (h.inCharge_unique hc hc')
    · cases hn.symm.trans hq
  have hnew : e ≠ s.nextEntry := (h.inCharge_lt hc).ne
  cases op with
  | net o =>
    cases o with
    | attach e' n id ip => exact update_of_ne (hown e' rfl hg.2.1) _ _
    | detach e' n id => exact update_of_ne (hown e' rfl (.inl hg.2.2.1.1)) _ _
    | _ => rfl
  | allocate | loadEntry => exact update_of_ne hnew _ _
  | _ => rfl

namespace Listener
variable (l : Listener)

@[simp] theorem starting_unsubscribe (cid : Nat) : (l.unsubscribe cid).starting = l.starting := by
  unfold unsubscribe
  split <;> rfl

@[simp] theorem starting_deliver (n : Notification) : (l.deliver n).starting = l.starting := by
  unfold deliver
  split
  · split <;> rfl
  · rfl

@[simp] theorem starting_receive (p : Nat) : (l.receive p).starting = l.starting := by
  unfold receive
  split <;> rfl

@[simp] theorem starting_startedFor (e q : Nat) : (l.startedFor e q).starting = l.starting := by
  unfold startedFor
  split <;> rfl

@[simp] theorem starting_handOver (e : Nat) : (l.handOver e).starting = l.starting := by
  unfold handOver
  split <;> rfl

@[simp] theorem starting_readFor (e p : Nat) (phase : Phase) :
    (l.readFor e p phase).starting = l.starting := by
  cases phase with
  | install => rfl
  | boot => exact l.starting_handOver e

theorem starting_subscribe (e cid e' : Nat) (hne : e' ≠ e) :
    (l.subscribe e cid).starting e' = l.starting e' := by
  unfold subscribe
  split <;> exact update_of_ne hne _ _

end Listener

theorem Inv.starting_effect (h : Inv s) (hg : op.Guard cfg s t') (hq : t' ≠ t ∨ op.quiet = true)
    (hc : s.InCharge t e) : (s.effect t' op).notify.starting e = s.notify.starting e := by
  cases op with
  | notify o =>
    cases o with
    | subscribe e' cid =>
      refine s.notify.starting_subscribe e' cid e ?_
      rintro rfl
      rcases hq with hq | hq
      · exact hq (h.inCharge_unique hc (hg.1.imp_left fun hv => hv.1))
      · cases hq
    | unsubscribe _ cid => exact congrFun (s.notify.starting_unsubscribe cid) e
    | deliver n => exact congrFun (s.notify.starting_deliver n) e
    | receive p n => exact congrFun (s.notify.starting_receive p) e
    | hangUp p => rfl
  | runtimeStart e' phase cid q =>
    cases q with
    | none => rfl
    | some q => cases phase <;> simp [System.effect, System.apply]
  | track e' phase hs => exact congrFun (s.notify.starting_readFor e' s.nextProc phase) e
  | reattach e' phase hs => cases phase <;> simp [System.effect, System.apply, addProc]
  | _ => rfl

theorem Inv.netMu_effect (hg : op.Guard cfg s t') (hq : t' ≠ t ∨ op.quiet = true) (hm : s.netMu = some t) :
    (s.effect t' op).netMu = some t ∧ (s.effect t' op).nets.byName = s.nets.byName := by
  cases op with
  | net o =>
    cases o with
    | attach e n id ip => exact ⟨hm, s.nets.attach_byName n id⟩
    | detach e n id => exact ⟨hm, s.nets.detach_byName n id⟩
    | add | check => cases hm.symm.trans hg.1
    | delete name n clean => exact Op.foreign hq hm rfl hg.1
    | _ => exact ⟨hm, rfl⟩
  | _ => exact ⟨hm, rfl⟩

theorem Inv.restored_effect (h : Inv s) (hg : op.Guard cfg s t') (hl : s.loader = some t) :
    (s.effect t' op).host.networksFile = s.host.networksFile ∧
      ∀ st, s.Holds st → (s.effect t' op).Holds st := by
  have hserv : ∀ {P : Prop}, s.serving = true → P := by
    intro P hs; cases hl.symm.trans (h.serving hs)
  cases op with
  | net o =>
    cases o with
    | attach e n id ip =>
      refine ⟨rfl, fun st hst => ⟨?_, fun id' ip' hx => ?_⟩⟩
      · change (s.nets.attach n id).byName.get st.spec.name ≠ none
        rw [Network.Manager.attach_byName]
        exact hst.1
      · obtain ⟨ref, href⟩ := hst.2 id' ip' hx
        exact ⟨ref, Network.Manager.leaseOf_attach href n id⟩
    | detach => exact hserv hg.1
    | add spec leases =>
      obtain ⟨-, -, m, hm⟩ := hg
      have hnets : (s.effect t' (.net (.add spec leases))).nets = m := by
        simp [System.effect, System.apply, NetOp.onNets, hm, Except.toOption]
      refine ⟨rfl, fun st hst => ?_⟩
      rw [Holds, hnets]
      refine ⟨?_, fun id' ip' hx => ?_⟩
      · rw [Network.Manager.get_add hm]
        split
        · simp
        · exact hst.1
      · obtain ⟨ref, href⟩ := hst.2 id' ip' hx
        exact ⟨ref, h.nets.leaseOf_add hm href⟩
    | check | delete => exact hserv hg.2.1
    | _ => exact ⟨rfl, fun _ => id⟩
  | host o =>
    cases o with
    | writeNetworks => exact hserv hg.1
    | _ => exact ⟨rfl, fun _ => id⟩
  | _ => exact ⟨rfl, fun _ h => h⟩

theorem VM.update_cid (r : VM) (now : Nat) {u : Update} (hu : ∀ cid, u ≠ .reassigned cid) :
    (r.update now u).cid = r.cid := by
  have hf := r.passing_frame now (u := u)
  cases u with
  | reassigned cid => exact absurd rfl (hu cid)
  | notified | nonceIssued | exited => exact (hf rfl).cid
  | _ => rfl

theorem Inv.cid_effect (h : Inv s) (hg : op.Guard cfg s t) (ha : s.Alive e)
    (hne : ∀ cid, op ≠ .update e (.reassigned cid)) :
    ((s.effect t op).record e).cid = (s.record e).cid := by
  rw [h.record_effect hg fun _ => (h.alive_lt ha).ne]
  cases hw : op.writes s e with
  | none => rfl
  | some u =>
    refine (s.record e).update_cid s.clock fun cid hu => ?_
    subst hu
    rcases Op.writes_cases hw with rfl | ⟨phase, hs, -, hu⟩ | ⟨p, exit, timeout, c, -, hu⟩
    · exact hne cid rfl
    · cases phase <;> cases hu
    · cases hu

theorem Inv.cid_kept (h : Inv s) (hg : op.Guard cfg s t') (hq : t' ≠ t ∨ op.quiet = true) (ha : s.Alive e)
    (hc : (s.entries e).opMu = some t ∨ (s.entries e).proc ≠ none ∨ s.loading = some e)
    : ((s.effect t' op).record e).cid = (s.record e).cid := by
  refine h.cid_effect hg ha fun cid hop => ?_
  subst hop
  obtain ⟨-, ⟨hmu, -, hproc, -⟩, -⟩ := hg
  rcases hc with hc | hc | hl
  · exact Op.foreign hq hc rfl hmu
  · exact hc hproc
  · cases hmu.symm.trans ((h.entry e).loading hl).2.2.1

/-- What goroutine `t` keeps over a step of another, or over a quiet one of its own. -/
structure Keeps (t : Nat) (s s' : System) : Prop where
  inv : Inv s'
  later : Later s s'
  steady : ∀ e, (s.entries e).opMu = some t → Steady s s' e
  supervises : ∀ e p, s.Supervises t e p → s'.Supervises t e p
  loads : s.loader = some t → s'.loader = some t ∧ s'.pendingLoad = s.pendingLoad ∧ s'.loading = s.loading
  made : s.loader = some t → s'.nextEntry = s.nextEntry ∧ ∀ e, s'.Alive e → s.Alive e
  loadingRecord : ∀ e, s.loading = some e → s'.loading = some e →
    (s'.record e).processes = (s.record e).processes ∧ (s'.record e).phase = (s.record e).phase
  cid : ∀ e, s.Alive e → ((s.entries e).opMu = some t ∨ (s.entries e).proc ≠ none ∨
    s.loading = some e) → (s'.record e).cid = (s.record e).cid
  owns : ∀ e, (s.entries e).owner = some t → (s'.entries e).owner = some t ∧ (s.Kept e → s'.Kept e)
  stops : ∀ e, e ∈ s.close.stops t → e ∈ s'.close.stops t ∨ s'.Visited e fun _ => False
  lease : ∀ e, s.InCharge t e → s'.lease e = s.lease e
  starting : ∀ e, s.InCharge t e → s'.notify.starting e = s.notify.starting e
  netMu : s.netMu = some t → s'.netMu = some t ∧ s'.nets.byName = s.nets.byName
  restored : s.loader = some t → s'.host.networksFile = s.host.networksFile ∧ ∀ st, s.Holds st → s'.Holds st

theorem OutsideStep.keeps (h' : Inv s') (ho : OutsideStep s s')
    (hl : s.loader = some t → s'.loader = some t) : Keeps t s s' where
  inv := h'
  later := ho.later
  steady e _ := (ho.same e).steady
  supervises e p hs := ⟨(ho.same e).proc.trans hs.1, by rw [ho.procs]; exact hs.2⟩
  loads hload := ⟨hl hload, ho.pendingLoad, ho.loading⟩
  made _ := ⟨ho.nextEntry, fun e ha => by rw [Alive, (ho.same e).record] at ha; exact ha⟩
  loadingRecord e _ _ := by rw [(ho.same e).record]; exact ⟨rfl, rfl⟩
  cid e _ _ := by rw [(ho.same e).record]
  owns e hown := by
    have hs := ho.same e
    exact ⟨hs.owner.trans hown, fun hk hov => hs.present.2 (hk (hs.overtaken hov))⟩
  stops e he := .inl (by rw [ho.close]; exact he)
  lease _ _ := by rw [ho.lease]
  starting _ _ := by rw [ho.notify]
  netMu hm := ⟨ho.netMu.trans hm, by rw [ho.nets]⟩
  restored _ := ⟨by rw [ho.host], fun st => by rw [Holds, Holds, ho.nets]; exact id⟩

theorem Inv.keeps (h : Inv s) (hg : op.Guard cfg s t') (hq : t' ≠ t ∨ op.quiet = true) :
    Keeps t s (s.effect t' op) where
  inv := h.effect hg
  later := h.later hg
  steady _ := h.steady hg hq
  supervises _ _ := h.supervises hg hq
  loads := loads hg hq
  made hl := h.made hg hq hl
  loadingRecord _ := h.loading_record hg
  cid _ := h.cid_kept hg hq
  owns _ := h.owns hg hq
  stops _ := h.stops hg hq
  lease _ := h.lease_effect hg hq
  starting _ := h.starting_effect hg hq
  netMu := netMu_effect hg hq
  restored := h.restored_effect hg

end VmManager.Vm
