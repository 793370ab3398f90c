import VmManager.Vm.Forwards

/-! Which channel a process start has subscribed to and which one each process reads. As long as no CID is
subscribed twice at a time, every channel has one start or one reader. -/
namespace VmManager.Vm
open Encoding Attest Interleaving Function Vm.System Option Nat GoMap
variable {cfg : Config} {s s' : System} {t t' e p cid : Nat} {op : Op} {x : Nat × Nat}

theorem Keeps.inCharge (hk : Keeps t s s') (h : s.InCharge t e) : s'.InCharge t e := by
  rcases h with hmu | ⟨hl, hle⟩
  · exact .inl ((hk.steady e hmu).opMu.trans hmu)
  · obtain ⟨h1, -, h3⟩ := hk.loads hl
    exact .inr ⟨h1, h3.trans hle⟩

theorem Inv.inCharge_kept (hi : Inv s) (hg : op.Guard cfg s t) (h : s.InCharge t' e) :
    (s.effect t op).InCharge t' e ∨ (t' = t ∧ (op = .unlock e ∨
      (∃ err, op = .update e (.reattachFailed err)) ∨ ∃ phase hs, op = .reattach e phase hs)) := by
  rcases h with hmu | ⟨hl, hle⟩
  · exact (opMu_kept hi hg hmu).imp .inl fun hx => ⟨hx.2, .inl hx.1⟩
  by_cases ht : t' = t
  swap
  · exact .inl ((hi.keeps hg (.inl (Ne.symm ht))).inCharge (.inr ⟨hl, hle⟩))
  subst ht
  have hsame : (s.effect t' op).loader = s.loader ∧ (s.effect t' op).loading = s.loading →
      (s.effect t' op).InCharge t' e := fun hx => .inr ⟨hx.1.trans hl, hx.2.trans hle⟩
  cases op with
  | loaded => cases hle.symm.trans hg.2.1
  | loadEntry => cases hle.symm.trans hg.2.1
  | reattach e' phase hs =>
    obtain rfl : e = e' := some.inj (hle.symm.trans hg.2.1)
    exact .inr ⟨rfl, .inr (.inr ⟨phase, hs, rfl⟩)⟩
  | update e' u =>
    cases u with
    | reattachFailed err =>
      obtain rfl : e = e' := some.inj (hle.symm.trans hg.2.2)
      exact .inr ⟨rfl, .inr (.inl ⟨err, rfl⟩)⟩
    | _ => exact .inl (hsame ⟨rfl, rfl⟩)
  | _ => exact .inl (hsame ⟨rfl, rfl⟩)

structure Listener.Fewer (l l' : Listener) : Prop where
  subs : ∀ cid ch, l'.subs.get cid = some ch → l.subs.get cid = some ch
  inbox : ∀ p ch, l'.inbox p = some ch → l.inbox p = some ch
  starting : l'.starting = l.starting
  nextChan : l'.nextChan = l.nextChan

namespace Listener
variable (l : Listener)

theorem fewer_refl : l.Fewer l := ⟨fun _ _ h => h, fun _ _ h => h, rfl, rfl⟩

theorem fewer_modify (ch : Nat) (f : Channel → Channel) : l.Fewer (l.modify ch f) :=
  ⟨fun _ _ h => h, fun _ _ h => h, rfl, rfl⟩

theorem get_unsubscribe (cid cid' : Nat) :
    (l.unsubscribe cid).subs.get cid' = if cid' = cid then none else l.subs.get cid' := by
  unfold unsubscribe
  split
  · exact get_erase ..
  · rename_i hnone
    split
    · rename_i heq
      rw [heq, hnone]
    · rfl

theorem fewer_unsubscribe (cid : Nat) : l.Fewer (l.unsubscribe cid) := by
  refine ⟨fun cid' ch h => ?_, fun p ch h => ?_, l.starting_unsubscribe cid, ?_⟩
  · rw [l.get_unsubscribe] at h
    split at h
    · cases h
    · exact h
  · unfold unsubscribe at h
    split at h <;> exact h
  · unfold unsubscribe
    split <;> rfl

theorem fewer_deliver (n : Notification) : l.Fewer (l.deliver n) := by
  unfold deliver
  split
  · split
    · exact l.fewer_modify ..
    · exact l.fewer_refl
  · exact l.fewer_refl

theorem fewer_receive (p : Nat) : l.Fewer (l.receive p) := by
  unfold receive
  split
  · exact l.fewer_modify ..
  · exact l.fewer_refl

theorem fewer_hangUp (p : Nat) : l.Fewer (l.hangUp p) := by
  refine ⟨fun _ _ h => h, fun p' ch h => ?_, rfl, rfl⟩
  change update l.inbox p none p' = some ch at h
  rw [update_apply] at h
  split at h
  · cases h
  · exact h

theorem fewer_startedFor (e q : Nat) : l.Fewer (l.startedFor e q) := by
  unfold startedFor
  split
  · exact l.fewer_modify ..
  · exact l.fewer_refl

theorem fewer_handOver (e : Nat) : l.Fewer (l.handOver e) := by
  unfold handOver
  split
  · exact l.fewer_modify ..
  · exact l.fewer_refl

theorem subscribe_new (e cid : Nat) (h : l.subs.get cid = none) : l.subscribe e cid =
    { l with
      subs := l.subs.insert cid l.nextChan
      chans := update l.chans l.nextChan { start := some e }
      nextChan := l.nextChan + 1
      starting := update l.starting e (some l.nextChan) } := by
  unfold subscribe
  rw [h]

end Listener

/-- A channel has one start in progress or one reader. `sub` is the subscription each goroutine has for a
start and `np` the number of the next process. -/
structure Routed (l : Listener) (sub : Nat → Option (Nat × Nat)) (np : Nat) : Prop where
  subs : ∀ cid ch, l.subs.get cid = some ch → ch < l.nextChan
  reads : ∀ p ch, l.inbox p = some ch → p < np ∧ ch < l.nextChan
  once : ∀ p p' ch, l.inbox p = some ch → l.inbox p' = some ch → p = p'
  begun : ∀ t e cid, sub t = some (e, cid) → ∃ ch, l.starting e = some ch ∧ ch < l.nextChan ∧ ∀ p, l.inbox p ≠ some ch
  apart : ∀ t t' e e' cid cid' ch, sub t = some (e, cid) → sub t' = some (e', cid') →
    l.starting e = some ch → l.starting e' = some ch → e = e'

namespace Routed
variable {l l' : Listener} {sub sub' : Nat → Option (Nat × Nat)} {np np' : Nat}

theorem initial : Routed {} (fun _ => none) np :=
  ⟨fun _ _ h => absurd h get_empty_ne, fun _ _ h => absurd h nofun,
    fun _ _ _ h => absurd h nofun, fun _ _ _ h => absurd h nofun, fun _ _ _ _ _ _ _ h => absurd h nofun⟩

theorem fewer (h : Routed l sub np) (hl : l.Fewer l')
    (hsub : ∀ t x, sub' t = some x → sub t = some x) (hnp : np ≤ np') : Routed l' sub' np' := by
  refine ⟨fun cid ch hc => ?_, fun p ch hp => ?_, fun p p' ch hp hp' => ?_, fun t e cid hs => ?_,
    fun t t' e e' cid cid' ch hs hs' hst hst' => ?_⟩
  · rw [hl.nextChan]
    exact h.subs cid ch (hl.subs cid ch hc)
  · obtain ⟨hlt, hch⟩ := h.reads p ch (hl.inbox p ch hp)
    rw [hl.nextChan]
    exact ⟨hlt.trans_le hnp, hch⟩
  · exact h.once p p' ch (hl.inbox p ch hp) (hl.inbox p' ch hp')
  · obtain ⟨ch, hst, hch, hno⟩ := h.begun t e cid (hsub t _ hs)
    rw [hl.starting, hl.nextChan]
    exact ⟨ch, hst, hch, fun p hp => hno p (hl.inbox p ch hp)⟩
  · rw [hl.starting] at hst hst'
    exact h.apart t t' e e' cid cid' ch (hsub t _ hs) (hsub t' _ hs') hst hst'

theorem subscribe (h : Routed l sub np) (hfree : l.subs.get cid = none)
    (hmine : sub' t = some (e, cid)) (hother : ∀ t' ≠ t, sub' t' = sub t')
    (halone : ∀ t' ≠ t, ∀ cid', sub t' ≠ some (e, cid')) : Routed (l.subscribe e cid) sub' np := by
  rw [l.subscribe_new e cid hfree]
  have hnew : ∀ p, l.inbox p ≠ some l.nextChan := fun p hp => (h.reads p _ hp).2.ne rfl
  have hst : update l.starting e (some l.nextChan) e = some l.nextChan := update_self ..
  have hold : ∀ t' e' cid', t' ≠ t → sub' t' = some (e', cid') → sub t' = some (e', cid') ∧
      update l.starting e (some l.nextChan) e' = l.starting e' := by
    intro t' e' cid' ht hs
    rw [hother t' ht] at hs
    refine ⟨hs, update_of_ne ?_ _ _⟩
    rintro rfl
    exact halone t' ht cid' hs
  refine ⟨fun cid' ch hc => ?_, fun p ch hp => ?_, h.once, fun t' e' cid' hs => ?_,
    fun t₁ t₂ e₁ e₂ c₁ c₂ ch hs₁ hs₂ hst₁ hst₂ => ?_⟩
  · change GoMap.get (l.subs.insert cid l.nextChan) cid' = some ch at hc
    rw [get_insert] at hc
    split at hc
    · cases hc
      exact lt_succ_self _
    · exact (h.subs cid' ch hc).trans (lt_succ_self _)
  · exact ⟨(h.reads p ch hp).1, (h.reads p ch hp).2.trans (lt_succ_self _)⟩
  · by_cases ht : t' = t
    · subst ht
      cases hmine.symm.trans hs
      exact ⟨l.nextChan, hst, lt_succ_self _, hnew⟩
    · obtain ⟨hs, hkeep⟩ := hold t' e' cid' ht hs
      obtain ⟨ch, hc, hlt, hno⟩ := h.begun t' e' cid' hs
      exact ⟨ch, hkeep.trans hc, hlt.trans (lt_succ_self _), hno⟩
  · -- The new channel is above every old one.
    have hbelow : ∀ t' e' cid', t' ≠ t → sub' t' = some (e', cid') →
        update l.starting e (some l.nextChan) e' ≠ some l.nextChan := by
      intro t' e' cid' ht hs hx
      obtain ⟨hs, hkeep⟩ := hold t' e' cid' ht hs
      obtain ⟨ch, hc, hlt, -⟩ := h.begun t' e' cid' hs
      rw [hkeep, hc] at hx
      exact hlt.ne (some.inj hx)
    by_cases h₁ : t₁ = t <;> by_cases h₂ : t₂ = t
    · subst h₁ h₂
      cases hs₁.symm.trans hs₂
      rfl
    · subst h₁
      cases hmine.symm.trans hs₁
      cases hst.symm.trans hst₁
      exact absurd hst₂ (hbelow t₂ e₂ c₂ h₂ hs₂)
    · subst h₂
      cases hmine.symm.trans hs₂
      cases hst.symm.trans hst₂
      exact absurd hst₁ (hbelow t₁ e₁ c₁ h₁ hs₁)
    · obtain ⟨hs₁, hk₁⟩ := hold t₁ e₁ c₁ h₁ hs₁
      obtain ⟨hs₂, hk₂⟩ := hold t₂ e₂ c₂ h₂ hs₂
      exact h.apart t₁ t₂ e₁ e₂ c₁ c₂ ch hs₁ hs₂ (hk₁ ▸ hst₁) (hk₂ ▸ hst₂)

theorem readFor (h : Routed l sub np) (hmine : sub t = some (e, cid)) (hdone : sub' t = none)
    (hother : ∀ t' ≠ t, sub' t' = sub t') (halone : ∀ t' ≠ t, ∀ cid', sub t' ≠ some (e, cid')) :
    Routed (l.readFor e np .boot) sub' (np + 1) := by
  obtain ⟨c, hc, hlt, hno⟩ := h.begun t e cid hmine
  have hf := l.fewer_handOver e
  have hin : ∀ p, (l.readFor e np .boot).inbox p = if p = np then some c else l.inbox p := by
    intro p
    change update l.inbox np (l.starting e) p = _
    rw [update_apply, hc]
  have hst : (l.readFor e np .boot).starting = l.starting := l.starting_readFor e np .boot
  have hnext : (l.readFor e np .boot).nextChan = l.nextChan := hf.nextChan
  have hold : ∀ t' e' cid', sub' t' = some (e', cid') → sub t' = some (e', cid') ∧ e' ≠ e := by
    intro t' e' cid' hs
    have ht : t' ≠ t := by
      rintro rfl
      cases hdone.symm.trans hs
    rw [hother t' ht] at hs
    refine ⟨hs, ?_⟩
    rintro rfl
    exact halone t' ht cid' hs
  refine ⟨fun cid' ch hs => hnext ▸ h.subs cid' ch (hf.subs cid' ch hs), fun p ch hp => ?_,
    fun p p' ch hp hp' => ?_, fun t' e' cid' hs => ?_, fun t₁ t₂ e₁ e₂ c₁ c₂ ch hs₁ hs₂ hst₁ hst₂ => ?_⟩
  · rw [hin] at hp
    rw [hnext]
    split at hp
    · rename_i heq
      cases hp
      exact ⟨heq ▸ lt_succ_self _, hlt⟩
    · exact ⟨(h.reads p ch hp).1.trans (lt_succ_self _), (h.reads p ch hp).2⟩
  · rw [hin] at hp hp'
    split at hp <;> split at hp'
    · rename_i h₁ h₂
      rw [h₁, h₂]
    · cases hp
      exact absurd hp' (hno p')
    · cases hp'
      exact absurd hp (hno p)
    · exact h.once p p' ch hp hp'
  · obtain ⟨hs, hne⟩ := hold t' e' cid' hs
    obtain ⟨ch, hch, hlt', hno'⟩ := h.begun t' e' cid' hs
    rw [hst, hnext]
    refine ⟨ch, hch, hlt', fun p hp => ?_⟩
    rw [hin] at hp
    split at hp
    · cases hp
      exact hne (h.apart t' t e' e cid' cid c hs hmine hch hc)
    · exact hno' p hp
  · rw [hst] at hst₁ hst₂
    exact h.apart t₁ t₂ e₁ e₂ c₁ c₂ ch (hold t₁ e₁ c₁ hs₁).1 (hold t₂ e₂ c₂ hs₂).1 hst₁ hst₂

end Routed

def Op.routes : Op → Bool
  | .notify (.subscribe ..) | .track .. | .reattach .. => true
  | _ => false

theorem Start.sub_enter {st : Start} (h : (st.enter op).sub = some x) :
    st.sub = some x ∨ ∃ e cid, op = .notify (.subscribe e cid) ∧ x = (e, cid) := by
  cases op with
  | notify o =>
    cases o with
    | subscribe e cid => exact .inr ⟨e, cid, rfl, (some.inj h).symm⟩
    | unsubscribe why cid =>
      cases why with
      | start e => cases h
      | _ => exact .inl h
    | _ => exact .inl h
  | host o => cases o <;> exact .inl h
  | update e u => cases u <;> exact .inl h
  | track | reattach => cases h
  | _ => exact .inl h

namespace System

def sub (s : System) (t : Nat) : Option (Nat × Nat) := (s.books t).start.sub

theorem sub_cases (h : (s.effect t op).sub t' = some x) :
    s.sub t' = some x ∨ (t' = t ∧ ∃ e cid, op = .notify (.subscribe e cid) ∧ x = (e, cid)) := by
  rcases s.books_cases t op t' with ⟨rfl, hb⟩ | ⟨-, hb⟩
  · rw [sub, hb] at h
    exact (Start.sub_enter h).imp_right fun hx => ⟨rfl, hx⟩
  · rw [sub, hb] at h
    exact .inl h

theorem sub_of_routes (hop : op.routes = false) (h : (s.effect t op).sub t' = some x) : s.sub t' = some x := by
  refine (sub_cases h).resolve_right fun ⟨_, _, _, hx, _⟩ => ?_
  subst hx
  cases hop

theorem fewer_of_routes (hop : op.routes = false) : s.notify.Fewer (s.effect t op).notify := by
  cases op with
  | notify o =>
    cases o with
    | subscribe => cases hop
    | unsubscribe why cid => exact s.notify.fewer_unsubscribe cid
    | deliver n => exact s.notify.fewer_deliver n
    | receive p n => exact s.notify.fewer_receive p
    | hangUp p => exact s.notify.fewer_hangUp p
  | runtimeStart e phase cid q =>
    cases q with
    | none => exact s.notify.fewer_refl
    | some q =>
      cases phase with
      | install => exact s.notify.fewer_refl
      | boot => exact s.notify.fewer_startedFor e q
  | track | reattach => cases hop
  | _ => exact s.notify.fewer_refl

theorem nextProc_of_routes (hop : op.routes = false) : (s.effect t op).nextProc = s.nextProc := by
  cases op with
  | track | reattach => cases hop
  | _ => rfl

end System

def SubscribesFree (s : System) : Event → Prop
  | .op _ (.notify (.subscribe _ cid)) => s.notify.subs.get cid = none
  | _ => True

structure Routing (s : System) : Prop where
  routed : Routed s.notify s.sub s.nextProc
  charge : ∀ t e cid, s.sub t = some (e, cid) → s.InCharge t e

namespace Routing

theorem alone (h : Routing s) (hi : Inv s) (hc : s.InCharge t e) (hne : t' ≠ t) : s.sub t' ≠ some (e, cid) :=
  fun hs => hne (hi.inCharge_unique hc (h.charge t' e cid hs))

theorem charge_effect (h : Routing s) (hi : Inv s) (hg : op.Guard cfg s t)
    (hb : (s.books t).Allows op) (hs : (s.effect t op).sub t' = some (e, cid)) :
    (s.effect t op).InCharge t' e := by
  have hnone : (s.books t).start = {} → s.sub t' = some (e, cid) → t' ≠ t := by
    rintro hst hold rfl
    rw [sub, hst] at hold
    cases hold
  rcases sub_cases hs with hold | ⟨rfl, e', cid', rfl, hx⟩
  · rcases hi.inCharge_kept hg (h.charge t' e cid hold) with hc | ⟨rfl, rfl | ⟨err, rfl⟩ | ⟨phase, hs', rfl⟩⟩
    · exact hc
    · exact absurd rfl (hnone hb.2 hold)
    · exact absurd rfl (hnone (hb.2 rfl) hold)
    · rw [sub, s.books_effect] at hs
      cases hs
  · cases hx
    have hc : s.InCharge t' e := hg.1.imp_left fun hv => hv.1
    exact (hi.inCharge_kept hg hc).resolve_right fun hx => by
      rcases hx with ⟨-, hx | ⟨err, hx⟩ | ⟨phase, hs', hx⟩⟩ <;> cases hx

theorem reads {l' : Listener} (h : Routing s) (hi : Inv s) {phase : Phase} (hc : s.InCharge t e)
    (hst : (s.books t).start.Subscribed e phase) (hf : s.notify.Fewer l') (hsub : s'.sub t = none)
    (hother : ∀ t' ≠ t, s'.sub t' = s.sub t') (hnp : s'.nextProc = s.nextProc + 1) :
    Routed (l'.readFor e s.nextProc phase) s'.sub s'.nextProc := by
  rw [hnp]
  cases phase with
  | install =>
    refine h.routed.fewer hf (fun t' x hx => ?_) (le_succ _)
    by_cases ht : t' = t
    · subst ht
      cases hsub.symm.trans hx
    · exact hother t' ht ▸ hx
  | boot =>
    obtain ⟨cid, hs, -⟩ := hst
    exact (h.routed.fewer hf (fun _ _ hx => hx) le_rfl).readFor hs hsub hother
      fun t' ht cid' => h.alone hi hc ht

theorem effect (h : Routing s) (hi : Inv s) (hg : op.Guard cfg s t) (hb : (s.books t).Allows op)
    (hk : SubscribesFree s (.op t op)) : Routing (s.effect t op) := by
  refine ⟨?_, fun t' e cid hs => h.charge_effect hi hg hb hs⟩
  have hother : ∀ t' ≠ t, (s.effect t op).sub t' = s.sub t' := fun t' ht => by
    rw [sub, s.books_other op ht, sub]
  by_cases hop : op.routes = false
  · refine h.routed.fewer (fewer_of_routes hop) (fun t' x hx => sub_of_routes hop hx) ?_
    rw [nextProc_of_routes hop]
  have hmine : (s.effect t op).sub t = ((s.books t).start.enter op).sub := by
    rw [sub, s.books_effect]
    rfl
  cases op with
  | notify o =>
    cases o with
    | subscribe e cid =>
      have hc : s.InCharge t e := hg.1.imp_left fun hv => hv.1
      exact h.routed.subscribe hk hmine hother fun t' ht cid' => h.alone hi hc ht
    | _ => exact absurd rfl hop
  | track e phase hs => exact h.reads hi (.inl hg.1) hb.2.2.subscribed s.notify.fewer_refl hmine hother rfl
  | reattach e phase hs =>
    have hc : s.InCharge t e := .inr ⟨hg.1, hg.2.1⟩
    have hr := h.reads hi hc hb.2.2 (s.notify.fewer_startedFor e hs.qemu) hmine hother rfl
    cases phase with
    | install => exact h.reads hi hc hb.2.2 s.notify.fewer_refl hmine hother rfl
    | boot => exact hr
  | _ => exact absurd rfl hop

theorem congr (h : Routing s) (hl : s'.notify = s.notify) (hsub : s'.sub = s.sub)
    (hnp : s'.nextProc = s.nextProc) (hc : ∀ t e, s.InCharge t e → s'.InCharge t e) : Routing s' := by
  refine ⟨?_, fun t e cid hs => hc t e (h.charge t e cid (hsub ▸ hs))⟩
  rw [hl, hsub, hnp]
  exact h.routed

theorem outside (cfg : Config) {x : Outside} {n : Nat} (h : Routing s) (hi : Inv s) (hx : s.outside n x = some s') :
    Routing (s'.noting x s) := by
  rcases outside_split hx with _ | ⟨hne, ho⟩
  · exact ⟨.initial, fun _ _ _ hs => absurd hs nofun⟩
  · refine h.congr ho.notify (funext fun t => ?_) ho.nextProc fun t e hc => ?_
    · rw [sub, s.books_outside _ hne, sub]
    · have hr : Rely cfg t s _ := .outside hx hne
      exact (hr.keeps hi).inCharge hc

theorem initial : Routing {} := ⟨.initial, fun _ _ _ hs => absurd hs nofun⟩

end Routing

end VmManager.Vm
