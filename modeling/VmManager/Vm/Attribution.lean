import VmManager.Vm.BootWindow
import VmManager.Vm.Routing

/-! READY=1 and the boot that sent it. A notification is routed by the CID its connection came from, in a
goroutine of its own, so it is the guest's whose process reads it as long as it is delivered while the
subscription of that CID is the one its QEMU was started for. -/
namespace VmManager.Vm
open Encoding Attest Interleaving Function Vm.System List Option Listener
variable {cfg : Config} {s s' : System} {t t' e p : Nat} {op : Op} {n : Notification} {phase : Phase}
  {ev : Event} {hs : Processes}

structure Listener.Passes (l l' : Listener) : Prop where
  qemu : ∀ ch, (l'.chans ch).qemu = (l.chans ch).qemu
  queue : ∀ ch, ∀ n ∈ (l'.chans ch).queue, n ∈ (l.chans ch).queue

namespace Listener
variable (l : Listener)

theorem chans_modify (ch : Nat) (f : Channel → Channel) (c : Nat) :
    (l.modify ch f).chans c = if c = ch then f (l.chans ch) else l.chans c := update_apply ..

theorem passes_refl : l.Passes l := ⟨fun _ => rfl, fun _ _ h => h⟩

theorem passes_modify (ch : Nat) {f : Channel → Channel} (hq : ∀ c, (f c).qemu = c.qemu)
    (hm : ∀ c, ∀ n ∈ (f c).queue, n ∈ c.queue) : l.Passes (l.modify ch f) := by
  refine ⟨fun c => ?_, fun c n hn => ?_⟩
  · rw [l.chans_modify]
    split
    · rename_i heq
      rw [hq, heq]
    · rfl
  · rw [l.chans_modify] at hn
    split at hn
    · rename_i heq
      rw [heq]
      exact hm _ n hn
    · exact hn

theorem passes_unsubscribe (cid : Nat) : l.Passes (l.unsubscribe cid) := by
  unfold unsubscribe
  split
  · rename_i ch _
    have hp := l.passes_modify ch (f := fun c => { c with closed := true }) (fun _ => rfl)
      fun _ _ h => h
    exact ⟨hp.qemu, hp.queue⟩
  · exact l.passes_refl

theorem passes_receive (p : Nat) : l.Passes (l.receive p) := by
  unfold receive
  split
  · exact l.passes_modify _ (fun _ => rfl) fun _ _ h => mem_of_mem_tail h
  · exact l.passes_refl

theorem passes_handOver (e : Nat) : l.Passes (l.handOver e) := by
  unfold handOver
  split
  · exact l.passes_modify _ (fun _ => rfl) fun _ _ h => h
  · exact l.passes_refl

theorem deliver_queue (n : Notification) (ch : Nat) : ((l.deliver n).chans ch).qemu = (l.chans ch).qemu ∧
    ∀ m ∈ ((l.deliver n).chans ch).queue, m ∈ (l.chans ch).queue ∨
      (m = n ∧ l.subs.get n.cid = some ch) := by
  unfold deliver
  split
  · rename_i ch' hsub
    split
    · rw [l.chans_modify]
      split
      · rename_i heq
        subst heq
        refine ⟨rfl, fun m hm => ?_⟩
        exact (mem_append.1 hm).imp_right fun hx => ⟨mem_singleton.1 hx, hsub⟩
      · exact ⟨rfl, fun _ h => .inl h⟩
    · exact ⟨rfl, fun _ h => .inl h⟩
  · exact ⟨rfl, fun _ h => .inl h⟩

theorem startedFor_chans {e ch : Nat} (h : l.starting e = some ch) (q c : Nat) :
    (l.startedFor e q).chans c = if c = ch then { l.chans ch with qemu := some q } else l.chans c := by
  unfold startedFor
  rw [h]
  exact l.chans_modify ..

end Listener

/-- A message is delivered only while the subscription of its CID, if there is one, is the one its QEMU was
started for. -/
def DeliversInTime (s : System) : Event → Prop
  | .op _ (.notify (.deliver n)) =>
    ∀ ch, s.notify.subs.get n.cid = some ch → (s.notify.chans ch).qemu = some n.sender
  | ev => SubscribesFree s ev

theorem DeliversInTime.free (h : DeliversInTime s ev) :
    SubscribesFree s ev := by
  unfold DeliversInTime at h
  split at h
  · trivial
  · exact h

/-- Every message in a channel was sent by the QEMU its subscription was made for, and that is the QEMU of
the process that reads it. `drew` is the QEMU each goroutine has started and not tracked, `qemu` the one of
each process and `Sent` what the guests have sent. -/
structure Mailed (l : Listener) (sub : Nat → Option (Nat × Nat)) (drew : Nat → Option Nat)
    (qemu : Nat → Nat) (Sent : Notification → Prop) : Prop where
  sent : ∀ ch, ∀ n ∈ (l.chans ch).queue, (l.chans ch).qemu = some n.sender ∧ Sent n
  owned : ∀ p ch, l.inbox p = some ch → (l.chans ch).qemu = some (qemu p)
  drawn : ∀ t e cid ch, sub t = some (e, cid) → l.starting e = some ch → (l.chans ch).qemu = drew t

namespace Mailed
variable {l l' : Listener} {sub sub' : Nat → Option (Nat × Nat)} {drew drew' : Nat → Option Nat}
  {qemu qemu' : Nat → Nat} {Sent Sent' : Notification → Prop} {np cid q : Nat}

theorem passes (h : Mailed l sub drew qemu Sent) (hf : l.Fewer l') (hp : l.Passes l')
    (hsub : ∀ t x, sub' t = some x → sub t = some x ∧ drew' t = drew t)
    (hqemu : ∀ p ch, l.inbox p = some ch → qemu' p = qemu p) (hsent : ∀ n, Sent n → Sent' n) :
    Mailed l' sub' drew' qemu' Sent' := by
  refine ⟨fun ch n hn => ?_, fun p ch hin => ?_, fun t e cid ch hs hst => ?_⟩
  · obtain ⟨hq, hn⟩ := h.sent ch n (hp.queue ch n hn)
    exact ⟨(hp.qemu ch).trans hq, hsent n hn⟩
  · have hin := hf.inbox p ch hin
    rw [hp.qemu, hqemu p ch hin]
    exact h.owned p ch hin
  · obtain ⟨hs, hd⟩ := hsub t _ hs
    rw [hf.starting] at hst
    rw [hp.qemu, hd]
    exact h.drawn t e cid ch hs hst

theorem deliver (h : Mailed l sub drew qemu Sent) (hn : Sent n)
    (hk : ∀ ch, l.subs.get n.cid = some ch → (l.chans ch).qemu = some n.sender) :
    Mailed (l.deliver n) sub drew qemu Sent := by
  have hf := l.fewer_deliver n
  refine ⟨fun ch m hm => ?_, fun p ch hin => ?_, fun t e cid ch hs hst => ?_⟩
  · obtain ⟨hq, hqueue⟩ := l.deliver_queue n ch
    rw [hq]
    rcases hqueue m hm with hold | ⟨rfl, hsub⟩
    · exact h.sent ch m hold
    · exact ⟨hk ch hsub, hn⟩
  · rw [(l.deliver_queue n ch).1]
    exact h.owned p ch (hf.inbox p ch hin)
  · rw [hf.starting] at hst
    rw [(l.deliver_queue n ch).1]
    exact h.drawn t e cid ch hs hst

theorem subscribe (h : Mailed l sub drew qemu Sent) (hr : Routed l sub np)
    (hfree : l.subs.get cid = none) (hmine : sub' t = some (e, cid)) (hdrew : drew t = none)
    (hother : ∀ t' ≠ t, sub' t' = sub t') (halone : ∀ t' ≠ t, ∀ cid', sub t' ≠ some (e, cid')) :
    Mailed (l.subscribe e cid) sub' drew qemu Sent := by
  rw [l.subscribe_new e cid hfree]
  have hold : ∀ ch, ch < l.nextChan → update l.chans l.nextChan { start := some e } ch = l.chans ch :=
    fun ch hlt => update_of_ne hlt.ne _ _
  refine ⟨fun ch n hn => ?_, fun p ch hin => ?_, fun t' e' cid' ch hs hst => ?_⟩
  · change n ∈ (update l.chans l.nextChan { start := some e } ch).queue at hn
    change (update l.chans l.nextChan { start := some e } ch).qemu = _ ∧ _
    rw [update_apply] at hn ⊢
    split at hn
    · cases hn
    rename_i hne
    rw [if_neg hne]
    exact h.sent ch n hn
  · change (update l.chans l.nextChan { start := some e } ch).qemu = _
    rw [hold ch (hr.reads p ch hin).2]
    exact h.owned p ch hin
  · change (update l.chans l.nextChan { start := some e } ch).qemu = _
    change update l.starting e (some l.nextChan) e' = some ch at hst
    by_cases ht : t' = t
    · subst ht
      cases hmine.symm.trans hs
      rw [update_self] at hst
      cases hst
      rw [update_self, hdrew]
    · rw [hother t' ht] at hs
      have hne : e' ≠ e := by
        rintro rfl
        exact halone t' ht cid' hs
      rw [update_of_ne hne] at hst
      obtain ⟨ch', hst', hlt, -⟩ := hr.begun t' e' cid' hs
      cases hst.symm.trans hst'
      rw [hold ch hlt]
      exact h.drawn t' e' cid' ch hs hst

theorem startedFor (h : Mailed l sub drew qemu Sent) (hr : Routed l sub np)
    (hmine : sub t = some (e, cid)) (hnone : drew t = none) (hdrew : drew' t = some q)
    (hother : ∀ t' ≠ t, drew' t' = drew t') (halone : ∀ t' ≠ t, ∀ cid', sub t' ≠ some (e, cid')) :
    Mailed (l.startedFor e q) sub drew' qemu Sent := by
  obtain ⟨c, hc, -, hno⟩ := hr.begun t e cid hmine
  have hf := l.fewer_startedFor e q
  have hwas : (l.chans c).qemu = none := (h.drawn t e cid c hmine hc).trans hnone
  refine ⟨fun ch n hn => ?_, fun p ch hin => ?_, fun t' e' cid' ch hs hst => ?_⟩
  · rw [l.startedFor_chans hc] at hn ⊢
    split at hn
    · cases (h.sent c n hn).1.symm.trans hwas
    · rename_i hne
      rw [if_neg hne]
      exact h.sent ch n hn
  · have hin := hf.inbox p ch hin
    have hne : ch ≠ c := by
      rintro rfl
      exact hno p hin
    rw [l.startedFor_chans hc, if_neg hne]
    exact h.owned p ch hin
  · rw [hf.starting] at hst
    rw [l.startedFor_chans hc]
    by_cases ht : t' = t
    · subst ht
      cases hmine.symm.trans hs
      cases hst.symm.trans hc
      rw [if_pos rfl, hdrew]
    · have hne : ch ≠ c := by
        rintro rfl
        cases hr.apart t' t e' e cid' cid ch hs hmine hst hc
        exact halone t' ht cid' hs
      rw [if_neg hne, hother t' ht]
      exact h.drawn t' e' cid' ch hs hst

theorem readFor (h : Mailed l sub drew qemu Sent) (hr : Routed l sub np) (hmine : sub t = some (e, cid))
    (hdrew : drew t = some q) (hnew : qemu' np = q) (hold : ∀ p < np, qemu' p = qemu p)
    (hsub : ∀ t' x, sub' t' = some x → sub t' = some x ∧ t' ≠ t) (hother : ∀ t' ≠ t, drew' t' = drew t') :
    Mailed (l.readFor e np .boot) sub' drew' qemu' Sent := by
  obtain ⟨c, hc, -, -⟩ := hr.begun t e cid hmine
  have hp := l.passes_handOver e
  refine ⟨fun ch n hn => ?_, fun p ch hin => ?_, fun t' e' cid' ch hs hst => ?_⟩
  · obtain ⟨hq, hn⟩ := h.sent ch n (hp.queue ch n hn)
    exact ⟨(hp.qemu ch).trans hq, hn⟩
  · refine (hp.qemu ch).trans ?_
    change update l.inbox np (l.starting e) p = some ch at hin
    rw [update_apply] at hin
    split at hin
    · rename_i heq
      rw [heq, hnew, ← hdrew]
      exact h.drawn t e cid ch hmine hin
    · rw [hold p (hr.reads p ch hin).1]
      exact h.owned p ch hin
  · obtain ⟨hs, ht⟩ := hsub t' _ hs
    rw [l.starting_readFor] at hst
    rw [hother t' ht]
    exact (hp.qemu ch).trans (h.drawn t' e' cid' ch hs hst)

end Mailed

theorem Start.qemu_enter {st : Start} (hop : op.routes = false)
    (hr : ∀ e phase cid q, op ≠ .runtimeStart e phase cid q) : (st.enter op).qemu = st.qemu := by
  cases op with
  | notify o =>
    cases o with
    | subscribe => cases hop
    | unsubscribe why cid => cases why <;> rfl
    | _ => rfl
  | host o => cases o <;> rfl
  | update e u => cases u <;> rfl
  | track | reattach => cases hop
  | runtimeStart e phase cid q => exact absurd rfl (hr e phase cid q)
  | _ => rfl

def System.drew (s : System) (t : Nat) : Option Nat := (s.books t).start.qemu

def System.qemuOf (s : System) (p : Nat) : Nat := (s.procs p).handles.qemu

structure Attributed (s : System) : Prop where
  routing : Routing s
  mailed : Mailed s.notify s.sub s.drew s.qemuOf s.Sent
  received : ∀ t p n l, s.deeds t = .notify (.receive p n) :: l → p < s.nextProc ∧ n.sender = s.qemuOf p ∧ s.Sent n

namespace Attributed

theorem received_later (hl : Later s s') (h : p < s.nextProc ∧ n.sender = s.qemuOf p ∧ s.Sent n) :
    p < s'.nextProc ∧ n.sender = s'.qemuOf p ∧ s'.Sent n := by
  obtain ⟨hlt, hsender, hsent⟩ := h
  obtain ⟨hlt', -, -, hh, -⟩ := hl.proc p hlt
  rw [qemuOf, hh]
  exact ⟨hlt', hsender, hl.hist _ hsent⟩

theorem received_effect (h : Attributed s) (hi : Inv s) (hg : op.Guard cfg s t)
    {l : List Op} (hd : (s.effect t op).deeds t' = .notify (.receive p n) :: l) :
    p < (s.effect t op).nextProc ∧ n.sender = (s.effect t op).qemuOf p ∧ (s.effect t op).Sent n := by
  refine received_later (hi.later hg) ?_
  rw [s.deeds_effect] at hd
  split at hd
  · cases hd
    -- The message at the front of the channel it reads.
    obtain ⟨hfront, -⟩ := hg
    rw [front, bind_eq_some_iff] at hfront
    obtain ⟨ch, hin, hhead⟩ := hfront
    obtain ⟨hsender, hsent⟩ := h.mailed.sent ch n (mem_of_head? hhead)
    have howned := h.mailed.owned p ch hin
    rw [hsender] at howned
    exact ⟨(h.routing.routed.reads p ch hin).1, some.inj howned, hsent⟩
  · exact h.received t' p n l hd

theorem qemuOf_kept (h : Attributed s) (hl : Later s s') (ch : Nat) (hin : s.notify.inbox p = some ch) :
    s'.qemuOf p = s.qemuOf p := by
  rw [qemuOf, (hl.proc p (h.routing.routed.reads p ch hin).1).2.2.2.1, qemuOf]

theorem mailed_passes (h : Attributed s) (hi : Inv s) (hg : op.Guard cfg s t) (hop : op.routes = false)
    (hr : ∀ e phase cid q, op ≠ .runtimeStart e phase cid q) (hp : s.notify.Passes (s.effect t op).notify) :
    Mailed (s.effect t op).notify (s.effect t op).sub (s.effect t op).drew (s.effect t op).qemuOf
      (s.effect t op).Sent := by
  have hl := hi.later hg
  refine h.mailed.passes (fewer_of_routes hop) hp (fun t' x hx => ⟨sub_of_routes hop hx, ?_⟩)
    (fun p ch => h.qemuOf_kept hl ch) fun n => hl.hist _
  exact books_field (fun b => b.start.qemu) t (Start.qemu_enter hop hr) t'

theorem mailed_reads (e : Nat) (phase : Phase) {l : Listener} {drew : Nat → Option Nat} {q : Nat}
    (h : Routed l s.sub s.nextProc) (hm : Mailed l s.sub drew s.qemuOf s.Sent)
    (hst : phase = .boot → ∃ cid, s.sub t = some (e, cid)) (hdrew : phase = .boot → drew t = some q)
    (hl : Later s s') (hsub : s'.sub t = none) (hother : ∀ t' ≠ t, s'.sub t' = s.sub t')
    (hdrew' : ∀ t' ≠ t, s'.drew t' = drew t') (hnew : s'.qemuOf s.nextProc = q) :
    Mailed (l.readFor e s.nextProc phase) s'.sub s'.drew s'.qemuOf s'.Sent := by
  have hold : ∀ p < s.nextProc, s'.qemuOf p = s.qemuOf p := fun p hp => by
    rw [qemuOf, (hl.proc p hp).2.2.2.1, qemuOf]
  have hkeep : ∀ t' x, s'.sub t' = some x → s.sub t' = some x ∧ t' ≠ t := by
    intro t' x hx
    have ht : t' ≠ t := by
      rintro rfl
      cases hsub.symm.trans hx
    exact ⟨hother t' ht ▸ hx, ht⟩
  cases phase with
  | install =>
    exact hm.passes l.fewer_refl l.passes_refl
      (fun t' x hx => ⟨(hkeep t' x hx).1, hdrew' t' (hkeep t' x hx).2⟩)
      (fun p ch hin => hold p (h.reads p ch hin).1) fun n => hl.hist _
  | boot =>
    obtain ⟨cid, hs⟩ := hst rfl
    have hr := hm.readFor h hs (hdrew rfl) hnew hold hkeep hdrew'
    exact ⟨fun ch n hn => ⟨(hr.sent ch n hn).1, hl.hist _ (hr.sent ch n hn).2⟩, hr.owned, hr.drawn⟩

theorem runtimeStart {cid : Nat} {q : Option Nat} (h : Attributed s) (hi : Inv s)
    (hg : (Op.runtimeStart e phase cid q).Guard cfg s t)
    (hb : (s.books t).Allows (.runtimeStart e phase cid q)) : Mailed (s.effect t (.runtimeStart e phase cid q)).notify
      (s.effect t (.runtimeStart e phase cid q)).sub (s.effect t (.runtimeStart e phase cid q)).drew
      (s.effect t (.runtimeStart e phase cid q)).qemuOf (s.effect t (.runtimeStart e phase cid q)).Sent := by
  have hl := hi.later hg
  have hsub : ∀ t' x, (s.effect t (.runtimeStart e phase cid q)).sub t' = some x → s.sub t' = some x :=
    fun t' x hx => sub_of_routes rfl hx
  have hmine : (s.effect t (.runtimeStart e phase cid q)).drew t = q := by
    rw [drew, s.books_effect]
    rfl
  have hother : ∀ t' ≠ t, (s.effect t (.runtimeStart e phase cid q)).drew t' = s.drew t' := fun t' ht => by
    rw [drew, s.books_other _ ht, drew]
  cases phase with
  | install =>
    have hnotify : (s.effect t (.runtimeStart e .install cid q)).notify = s.notify := by cases q <;> rfl
    rw [hnotify]
    refine h.mailed.passes s.notify.fewer_refl s.notify.passes_refl (fun t' x hx => ?_)
      (fun p ch => h.qemuOf_kept hl ch) fun n => hl.hist _
    have hold := hsub t' x hx
    refine ⟨hold, hother t' ?_⟩
    rintro rfl
    cases hb.2.symm.trans hold
  | boot =>
    cases q with
    | none =>
      refine h.mailed.passes s.notify.fewer_refl s.notify.passes_refl (fun t' x hx => ⟨hsub t' x hx, ?_⟩)
        (fun p ch => h.qemuOf_kept hl ch) fun n => hl.hist _
      by_cases ht : t' = t
      · subst ht
        exact hmine.trans hb.1.symm
      · exact hother t' ht
    | some q =>
      have hm := h.mailed.startedFor h.routing.routed hb.2 hb.1 hmine hother
        fun t' ht cid' => h.routing.alone hi (.inl hg.1.1) ht
      exact hm.passes (fewer_refl _) (passes_refl _)
        (fun t' x hx => ⟨hsub t' x hx, rfl⟩)
        (fun p ch hin => h.qemuOf_kept hl ch ((s.notify.fewer_startedFor e q).inbox p ch hin))
        fun n => hl.hist _

theorem reattach (h : Attributed s) (hi : Inv s)
    (hg : (Op.reattach e phase hs).Guard cfg s t) (hb : (s.books t).Allows (.reattach e phase hs)) :
    Mailed (s.effect t (.reattach e phase hs)).notify (s.effect t (.reattach e phase hs)).sub
      (s.effect t (.reattach e phase hs)).drew (s.effect t (.reattach e phase hs)).qemuOf
      (s.effect t (.reattach e phase hs)).Sent := by
  obtain ⟨-, hnone, hst⟩ := hb
  have hl := hi.later hg
  have hsub : (s.effect t (.reattach e phase hs)).sub t = none := by
    rw [sub, s.books_effect]
    rfl
  have hbooks : ∀ t' ≠ t, (s.effect t (.reattach e phase hs)).books t' = s.books t' :=
    fun t' ht => s.books_other _ ht
  have hother : ∀ t' ≠ t, (s.effect t (.reattach e phase hs)).sub t' = s.sub t' := fun t' ht => by
    rw [sub, hbooks t' ht, sub]
  have hdrew : ∀ t' ≠ t, (s.effect t (.reattach e phase hs)).drew t' = s.drew t' := fun t' ht => by
    rw [drew, hbooks t' ht, drew]
  have hnew : (s.effect t (.reattach e phase hs)).qemuOf s.nextProc = hs.qemu := by
    simp [qemuOf, effect, apply, addProc]
  cases phase with
  | install =>
    exact mailed_reads e .install h.routing.routed h.mailed (by simp) (by simp) hl hsub hother hdrew hnew
  | boot =>
    obtain ⟨cid, hs', -⟩ := hst
    have hr := h.routing.routed.fewer (s.notify.fewer_startedFor e hs.qemu) (fun _ _ hx => hx) le_rfl
    have hm : Mailed (s.notify.startedFor e hs.qemu) s.sub (update s.drew t (some hs.qemu))
        s.qemuOf s.Sent :=
      h.mailed.startedFor h.routing.routed hs' hnone (update_self ..)
        (fun t' ht => update_of_ne ht _ _)
        fun t' ht cid' => h.routing.alone hi (.inr ⟨hg.1, hg.2.1⟩) ht
    exact mailed_reads e .boot hr hm (fun _ => ⟨cid, hs'⟩) (fun _ => update_self ..) hl hsub hother
      (fun t' ht => (hdrew t' ht).trans (update_of_ne ht _ _).symm) hnew

theorem track (h : Attributed s) (hi : Inv s)
    (hg : (Op.track e phase hs).Guard cfg s t) (hb : (s.books t).Allows (.track e phase hs)) :
    Mailed (s.effect t (.track e phase hs)).notify (s.effect t (.track e phase hs)).sub
      (s.effect t (.track e phase hs)).drew (s.effect t (.track e phase hs)).qemuOf
      (s.effect t (.track e phase hs)).Sent := by
  obtain ⟨-, -, hfits⟩ := hb
  have hsub : (s.effect t (.track e phase hs)).sub t = none := by
    rw [sub, s.books_effect]
    rfl
  have hnew : (s.effect t (.track e phase hs)).qemuOf s.nextProc = hs.qemu := by
    simp [qemuOf, effect, apply, addProc, updateRec]
  refine mailed_reads e phase h.routing.routed h.mailed (fun hph => ?_) (fun _ => hfits.qemu) (hi.later hg) hsub
    (fun t' ht => ?_) (fun t' ht => ?_) hnew
  · subst hph
    obtain ⟨cid, hs', -⟩ := hfits.subscribed
    exact ⟨cid, hs'⟩
  · rw [sub, s.books_other _ ht, sub]
  · rw [drew, s.books_other _ ht, drew]

theorem effect (h : Attributed s) (hi : Inv s) (hg : op.Guard cfg s t) (hb : (s.books t).Allows op)
    (hk : DeliversInTime s (.op t op)) : Attributed (s.effect t op) := by
  refine ⟨h.routing.effect hi hg hb hk.free, ?_, fun t' p n l => h.received_effect hi hg⟩
  have hl := hi.later hg
  cases op with
  | notify o =>
    cases o with
    | subscribe e cid =>
      have hmine : (s.effect t (.notify (.subscribe e cid))).sub t = some (e, cid) := by
        rw [sub, s.books_effect]
        rfl
      have hm := h.mailed.subscribe h.routing.routed hk hmine hb.2
        (fun t' ht => by rw [sub, s.books_other _ ht, sub])
        fun t' ht cid' => h.routing.alone hi (hg.1.imp_left fun hv => hv.1) ht
      refine hm.passes (fewer_refl _) (passes_refl _) (fun t' x hx => ⟨hx, ?_⟩)
        (fun p ch hin => ?_) fun n => hl.hist _
      · exact books_field (fun b => b.start.qemu) t rfl t'
      · rw [s.notify.subscribe_new e cid hk] at hin
        exact h.qemuOf_kept hl ch hin
    | deliver n =>
      refine (h.mailed.deliver hg hk).passes (fewer_refl _) (passes_refl _)
        (fun t' x hx => ⟨sub_of_routes rfl hx, ?_⟩)
        (fun p ch hin => h.qemuOf_kept hl ch ((s.notify.fewer_deliver n).inbox p ch hin)) fun n => hl.hist _
      exact books_field (fun b => b.start.qemu) t rfl t'
    | unsubscribe why cid => exact h.mailed_passes hi hg rfl (by simp) (s.notify.passes_unsubscribe cid)
    | receive p n => exact h.mailed_passes hi hg rfl (by simp) (s.notify.passes_receive p)
    | hangUp p => exact h.mailed_passes hi hg rfl (by simp) ⟨fun _ => rfl, fun _ _ hn => hn⟩
  | runtimeStart e phase cid q => exact h.runtimeStart hi hg hb
  | track e phase hs => exact h.track hi hg hb
  | reattach e phase hs => exact h.reattach hi hg hb
  | _ => exact h.mailed_passes hi hg rfl (by simp) s.notify.passes_refl

theorem initial : Attributed {} :=
  ⟨.initial, ⟨fun _ _ hn => absurd hn not_mem_nil, fun _ _ hin => absurd hin nofun,
    fun _ _ _ _ hs => absurd hs nofun⟩, fun _ _ _ _ hd => absurd hd nofun⟩

theorem outside (cfg : Config) {x : Outside} {n : Nat} (h : Attributed s) (hi : Inv s)
    (hx : s.outside n x = some s') : Attributed (s'.noting x s) := by
  refine ⟨h.routing.outside cfg hi hx, ?_, fun t p n l hd => ?_⟩
  · rcases outside_split hx with _ | ⟨hne, ho⟩
    · exact ⟨fun _ _ hn => absurd hn not_mem_nil, fun _ _ hin => absurd hin nofun,
        fun _ _ _ _ hs => absurd hs nofun⟩
    have hl := ho.later
    have hn := ho.notify
    refine h.mailed.passes (hn ▸ s.notify.fewer_refl) (hn ▸ s.notify.passes_refl) (fun t y hy => ?_)
      (fun p ch => h.qemuOf_kept hl ch) fun n => hl.hist _
    rw [sub, s.books_outside _ hne] at hy
    rw [drew, s.books_outside _ hne]
    exact ⟨hy, rfl⟩
  · rcases outside_split hx with _ | ⟨hne, ho⟩
    · cases hd
    · rw [s.deeds_outside _ hne] at hd
      exact received_later ho.later (h.received t p n l hd)

end Attributed

theorem VM.becomes_ready (r : VM) (now : Nat) (u : Update) (hr : r.state ≠ .ready)
    (hu : (r.update now u).state = .ready) : ∃ n c, u = .notified n c ∧ n.ready = true := by
  cases u with
  | notified n c =>
    refine ⟨n, c, rfl, ?_⟩
    change (r.onNotify now n c).state = .ready at hu
    by_contra hn
    unfold onNotify at hu
    simp only [hn, false_and, if_false] at hu
    split at hu <;> exact hr hu
  | nonceIssued =>
    rcases r.onNonce_state now with hs | ⟨-, hs⟩
    · exact absurd (hs.symm.trans hu) hr
    · cases hs.symm.trans hu
  | exited phase timedOut exit timeout c =>
    rcases r.onExit_cases now phase timedOut exit timeout c with ⟨hs, he⟩ | ⟨hs, he⟩ | ⟨hs, he | he⟩ <;>
      simp [update, he, hs] at hu
  | volume | leased | reassigned | quoteRecorded | resaved => exact absurd hu hr
  | _ => cases hu

theorem ready_is_of_tracked_boot (cfg : Config) {pool pool' : Pool}
    {m : Move} {ev : Event} (h : Runs cfg DeliversInTime pool)
    (hm : (service cfg).step pool m = some (ev, pool'))
    (hs : (pool.shared.record e).state = .booting ∨ (pool.shared.record e).state = .attesting ∨
      (pool.shared.record e).state = .running)
    (hr : (pool'.shared.record e).state = .ready) : ∃ t n c p, ev = .op t (.update e (.notified n c)) ∧ n.ready = true ∧
      (pool.shared.entries e).proc = some p ∧ n.sender = (pool.shared.procs p).handles.qemu ∧
      .outside (.message n.sender n.port n.status true) ∈ pool.shared.hist := by
  have hattr : Attributed pool.shared :=
    Runs.invariant (I := Attributed) .initial (fun _ _ _ hi hI hg hk => hI.effect hi hg hk.1 hk.2)
      (fun _ _ _ _ hi hI _ hx => hI.outside cfg hi hx) h.booked
  have hi := h.inv
  have hnr : (pool.shared.record e).state ≠ .ready := by
    rcases hs with hs | hs | hs <;> rw [hs] <;> exact nofun
  have hold : e ≠ pool.shared.nextEntry := by
    rintro rfl
    rw [System.record, hi.freshEntry _ le_rfl] at hs
    rcases hs with hs | hs | hs <;> cases hs
  have hcur := (h.live.step hm).1
  have hstep := h.step hm
  generalize pool'.shared = s₂ at hstep hr
  cases hstep with
  | call => exact absurd hr hnr
  | @env x n s' hx =>
    rcases outside_split hx with _ | _
    · cases hr
    · exact absurd hr hnr
  | @op t o hg =>
    rw [hi.record_effect hg fun _ => hold] at hr
    cases hw : o.writes pool.shared e with
    | none =>
      rw [hw] at hr
      exact absurd hr hnr
    | some u =>
      rw [hw] at hr
      obtain ⟨n, c, rfl, hready⟩ := VM.becomes_ready _ _ u hnr hr
      rcases Op.writes_cases hw with rfl | ⟨phase, hs, -, hu⟩ | ⟨p, exit, timeout, c', -, hu⟩
      · obtain ⟨-, p, hsup, -, l, hl⟩ := hg
        rw [hcur t _ rfl] at hl
        obtain ⟨-, hsender, hsent⟩ := hattr.received t p n l hl
        rw [Sent, hready] at hsent
        exact ⟨t, n, c, p, rfl, hready, hsup.1, hsender, hsent⟩
      · cases phase <;> cases hu
      · cases hu

def handledSender : Event → Option Nat
  | .op _ (.update _ (.notified n _)) => some n.sender
  | _ => none

instance (ev : Event) : Decidable (SubscribesFree s ev) := by
  unfold SubscribesFree
  split <;> infer_instance

instance (ev : Event) : Decidable (DeliversInTime s ev) := by
  unfold DeliversInTime
  split <;> infer_instance

namespace Sample

def reported : List Move :=
  attestedBoot ++ [.env (.message 1 512 "" true), .go 5 .ok, .go 4 (.notify {})]

/-- The report of QEMU 1 is delivered after the VM was stopped and started again, and the supervisor of
QEMU 2 has read it. -/
def reportedLate : List Move :=
  attestedBoot ++ [.env (.message 1 512 "" true)] ++ stops 6 ++ startsQemu 7 ++ oks 7 3 ++
    [.go 5 .ok, .go 8 (.notify {})]

end Sample
open Sample

theorem ready_is_of_tracked_boot_reported : ∃ pool ev pool', Runs config DeliversInTime pool ∧
    (service config).step pool (.go 4 .ok) = some (ev, pool') ∧
    ((pool.shared.record 0).state = .booting ∧ (pool'.shared.record 0).state = .ready) ∧
    ∃ t n c p, ev = .op t (.update 0 (.notified n c)) ∧ n.ready = true ∧
      (pool.shared.entries 0).proc = some p ∧ n.sender = (pool.shared.procs p).handles.qemu ∧
      .outside (.message n.sender n.port n.status true) ∈ pool.shared.hist :=
  Runs.witnessStep reported (.go 4 .ok) (by decide +kernel) fun _ _ _ hrun hm hp =>
    ready_is_of_tracked_boot config hrun hm (.inl hp.1) hp.2

theorem ready_of_earlier_boot : ∃ pool ev pool', Runs config (fun _ _ => True) pool ∧
    (service config).step pool (.go 8 .ok) = some (ev, pool') ∧
    (pool.shared.record 0).state = .booting ∧ (pool'.shared.record 0).state = .ready ∧ handledSender ev = some 1 ∧
    (pool.shared.entries 0).proc.map (fun p => (pool.shared.procs p).handles.qemu) = some 2 :=
  Runs.sampleStep reportedLate (.go 8 .ok) (by decide +kernel)

end VmManager.Vm
