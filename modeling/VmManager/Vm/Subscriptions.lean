import VmManager.Vm.Attribution

/-! The subscription of an installed boot. It is made by the start, handed to the process that is tracked,
and ended by the supervisor of a process that has ended; as long as no CID is subscribed twice at a time it
is the process's alone. -/
namespace VmManager.Vm
open Encoding Attest Interleaving Option Function Vm.System Listener GoMap
variable {cfg : Config} {s s' : System} {t t' e p np k : Nat} {op : Op} {st : Start} {b : Books}

/-- Every open subscription has a channel of its own, and one that no process reads yet is a start's. -/
structure Exclusive (l : Listener) (sub : Nat → Option (Nat × Nat)) : Prop where
  opened : ∀ cid ch, l.subs.get cid = some ch → (l.chans ch).closed = false
  single : ∀ cid cid' ch, l.subs.get cid = some ch → l.subs.get cid' = some ch → cid = cid'
  made : ∀ cid ch e, l.subs.get cid = some ch → (l.chans ch).start = some e →
    l.starting e = some ch ∧ ∃ t, sub t = some (e, cid)

structure Listener.Quiet (l l' : Listener) : Prop where
  closed : ∀ ch, (l'.chans ch).closed = (l.chans ch).closed
  start : ∀ ch, (l'.chans ch).start = (l.chans ch).start
  subs : l'.subs = l.subs
  starting : l'.starting = l.starting

namespace Listener
variable (l : Listener)

theorem quiet_refl : l.Quiet l := ⟨fun _ => rfl, fun _ => rfl, rfl, rfl⟩

theorem quiet_modify (ch : Nat) {f : Channel → Channel} (hc : ∀ c, (f c).closed = c.closed)
    (hs : ∀ c, (f c).start = c.start) : l.Quiet (l.modify ch f) := by
  refine ⟨fun c => ?_, fun c => ?_, rfl, rfl⟩
  all_goals
    rw [l.chans_modify]
    split
    · rename_i heq
      simp only [hc, hs, heq]
    · rfl

theorem quiet_deliver (n : Notification) : l.Quiet (l.deliver n) := by
  unfold deliver
  split
  · split
    · exact l.quiet_modify _ (fun _ => rfl) fun _ => rfl
    · exact l.quiet_refl
  · exact l.quiet_refl

theorem quiet_receive (p : Nat) : l.Quiet (l.receive p) := by
  unfold receive
  split
  · exact l.quiet_modify _ (fun _ => rfl) fun _ => rfl
  · exact l.quiet_refl

theorem quiet_hangUp (p : Nat) : l.Quiet (l.hangUp p) := ⟨fun _ => rfl, fun _ => rfl, rfl, rfl⟩

theorem quiet_startedFor (e q : Nat) : l.Quiet (l.startedFor e q) := by
  unfold startedFor
  split
  · exact l.quiet_modify _ (fun _ => rfl) fun _ => rfl
  · exact l.quiet_refl

theorem get_subscribe (e cid cid' : Nat) (h : l.subs.get cid = none) :
    (l.subscribe e cid).subs.get cid' = if cid' = cid then some l.nextChan else l.subs.get cid' := by
  rw [l.subscribe_new e cid h]
  exact get_insert ..

theorem unsubscribe_chans {cid ch : Nat} (h : l.subs.get cid = some ch) (c : Nat) :
    (l.unsubscribe cid).chans c = if c = ch then { l.chans ch with closed := true } else l.chans c := by
  unfold unsubscribe
  rw [h]
  exact l.chans_modify ch (fun c => { c with closed := true }) c

theorem handOver_chans {e ch : Nat} (h : l.starting e = some ch) (c : Nat) :
    (l.handOver e).chans c = if c = ch then { l.chans ch with start := none } else l.chans c := by
  unfold handOver
  rw [h]
  exact l.chans_modify ..

theorem handOver_subs (e : Nat) : (l.handOver e).subs = l.subs := by
  unfold handOver
  split <;> rfl

end Listener

namespace Exclusive
variable {l l' : Listener} {sub sub' : Nat → Option (Nat × Nat)} {cid : Nat}

theorem initial : Exclusive {} sub :=
  ⟨fun _ _ h => absurd h get_empty_ne, fun _ _ _ h => absurd h get_empty_ne,
    fun _ _ _ h => absurd h get_empty_ne⟩

theorem quiet (h : Exclusive l sub) (hl : l.Quiet l') (hsub : ∀ t x, sub t = some x → sub' t = some x) :
    Exclusive l' sub' := by
  refine ⟨fun cid ch hc => ?_, fun cid cid' ch hc hc' => ?_, fun cid ch e hc hst => ?_⟩
  · rw [hl.subs] at hc
    rw [hl.closed]
    exact h.opened cid ch hc
  · rw [hl.subs] at hc hc'
    exact h.single cid cid' ch hc hc'
  · rw [hl.subs] at hc
    rw [hl.start] at hst
    rw [hl.starting]
    obtain ⟨h1, t, ht⟩ := h.made cid ch e hc hst
    exact ⟨h1, t, hsub t _ ht⟩

theorem subscribe (h : Exclusive l sub) (hr : Routed l sub np)
    (hfree : l.subs.get cid = none) (hmine : sub' t = some (e, cid)) (hnone : sub t = none)
    (hother : ∀ t' ≠ t, sub' t' = sub t') (halone : ∀ t' ≠ t, ∀ cid', sub t' ≠ some (e, cid')) :
    Exclusive (l.subscribe e cid) sub' := by
  have hnew : ∀ cid' ch, l.subs.get cid' = some ch → ch ≠ l.nextChan := fun cid' ch hc =>
    (hr.subs cid' ch hc).ne
  have hchan : ∀ ch, (l.subscribe e cid).chans ch =
      if ch = l.nextChan then { start := some e } else l.chans ch := by
    intro ch
    rw [l.subscribe_new e cid hfree]
    exact update_apply ..
  have hstart : ∀ e', (l.subscribe e cid).starting e' =
      if e' = e then some l.nextChan else l.starting e' := by
    intro e'
    rw [l.subscribe_new e cid hfree]
    exact update_apply ..
  refine ⟨fun c ch hc => ?_, fun c c' ch hc hc' => ?_, fun c ch e' hc hst => ?_⟩
  · rw [l.get_subscribe e cid c hfree] at hc
    rw [hchan]
    split at hc
    · cases hc
      rw [if_pos rfl]
    · rw [if_neg (hnew c ch hc)]
      exact h.opened c ch hc
  · rw [l.get_subscribe e cid _ hfree] at hc hc'
    split at hc <;> split at hc'
    · rename_i h₁ h₂
      rw [h₁, h₂]
    · cases hc
      exact absurd rfl (hnew c' _ hc')
    · cases hc'
      exact absurd rfl (hnew c _ hc)
    · exact h.single c c' ch hc hc'
  · rw [l.get_subscribe e cid c hfree] at hc
    rw [hchan] at hst
    rw [hstart]
    split at hc
    · rename_i heq
      cases hc
      rw [if_pos rfl] at hst
      cases hst
      rw [if_pos rfl, heq]
      exact ⟨rfl, t, hmine⟩
    · rw [if_neg (hnew c ch hc)] at hst
      obtain ⟨h1, t', ht'⟩ := h.made c ch e' hc hst
      have hne : t' ≠ t := by
        rintro rfl
        cases hnone.symm.trans ht'
      have hee : e' ≠ e := by
        rintro rfl
        exact halone t' hne c ht'
      rw [if_neg hee]
      exact ⟨h1, t', (hother t' hne).trans ht'⟩

theorem unsubscribe (h : Exclusive l sub)
    (hsub : ∀ t e cid', cid' ≠ cid → sub t = some (e, cid') → sub' t = some (e, cid')) :
    Exclusive (l.unsubscribe cid) sub' := by
  have hget : ∀ c ch, (l.unsubscribe cid).subs.get c = some ch → c ≠ cid ∧ l.subs.get c = some ch := by
    intro c ch hc
    rw [l.get_unsubscribe] at hc
    split at hc
    · cases hc
    rename_i hne
    exact ⟨hne, hc⟩
  have hchan : ∀ c ch, c ≠ cid → l.subs.get c = some ch → (l.unsubscribe cid).chans ch = l.chans ch := by
    intro c ch hne hc
    cases hcid : l.subs.get cid with
    | none =>
      unfold Listener.unsubscribe
      rw [hcid]
    | some ch' =>
      rw [l.unsubscribe_chans hcid, if_neg]
      rintro rfl
      exact hne (h.single c cid ch hc hcid)
  refine ⟨fun c ch hc => ?_, fun c c' ch hc hc' => ?_, fun c ch e hc hst => ?_⟩
  · obtain ⟨hne, hc⟩ := hget c ch hc
    rw [hchan c ch hne hc]
    exact h.opened c ch hc
  · exact h.single c c' ch (hget c ch hc).2 (hget c' ch hc').2
  · obtain ⟨hne, hc⟩ := hget c ch hc
    rw [hchan c ch hne hc] at hst
    rw [l.starting_unsubscribe]
    obtain ⟨h1, t, ht⟩ := h.made c ch e hc hst
    exact ⟨h1, t, hsub t e c hne ht⟩

theorem readFor (h : Exclusive l sub) (hr : Routed l sub np) (hmine : sub t = some (e, cid))
    (hother : ∀ t' ≠ t, sub' t' = sub t') : Exclusive (l.readFor e np .boot) sub' := by
  obtain ⟨c₀, hc₀, -, -⟩ := hr.begun t e cid hmine
  have hget : ∀ c, (l.readFor e np .boot).subs.get c = l.subs.get c := fun c => by
    change (l.handOver e).subs.get c = _
    rw [l.handOver_subs]
  have hchan : ∀ ch, (l.readFor e np .boot).chans ch =
      if ch = c₀ then { l.chans c₀ with start := none } else l.chans ch := fun ch =>
    l.handOver_chans hc₀ ch
  refine ⟨fun c ch hc => ?_, fun c c' ch hc hc' => ?_, fun c ch e' hc hst => ?_⟩
  · rw [hget] at hc
    rw [hchan]
    split
    · rename_i heq
      exact h.opened c c₀ (heq ▸ hc)
    · exact h.opened c ch hc
  · rw [hget] at hc hc'
    exact h.single c c' ch hc hc'
  · rw [hget] at hc
    rw [hchan] at hst
    split at hst
    · cases hst
    rename_i hne
    rw [l.starting_readFor]
    obtain ⟨h1, t', ht'⟩ := h.made c ch e' hc hst
    refine ⟨h1, t', (hother t' ?_).trans ht'⟩
    rintro rfl
    cases hmine.symm.trans ht'
    exact hne (some.inj (h1.symm.trans hc₀))

end Exclusive

theorem Inv.proc_from (hi : Inv s) (hg : op.Guard cfg s t)
    (hp : ((s.effect t op).entries e).proc = some p) : (s.entries e).proc = some p ∨
      (p = s.nextProc ∧ ((∃ phase hs, op = .track e phase hs) ∨ ∃ phase hs, op = .reattach e phase hs)) := by
  rcases hi.proc_effect hg e with hx | ⟨hop, -, hx⟩ | ⟨-, hx⟩
  · exact .inl (hx ▸ hp)
  · exact .inr ⟨some.inj (hp.symm.trans hx), hop⟩
  · cases hp.symm.trans hx

namespace System

def Listens (s : System) (e p : Nat) : Prop :=
  ∃ ch, s.notify.inbox p = some ch ∧ s.notify.subs.get (s.record e).cid = some ch

def Begun (s : System) (t e cid : Nat) : Prop := s.Alive e ∧
  (∃ ch, s.notify.starting e = some ch ∧ s.notify.subs.get cid = some ch) ∧
  ((s.books t).start.moved = false → (s.record e).cid = cid)

def Left (s : System) (p : Nat) : Prop :=
  (s.qemus (s.qemuOf p)).exit ≠ none ∧ ∃ t, (s.procs p).supervisor = some t ∧ (s.books t).left = some p

def Minds (s : System) (t k : Nat) : Prop :=
  (s.books t).start.tpm = some k ∨ .host (.stopTPM k) ∈ s.deeds t ∨
    ∃ e phase hs, .track e phase hs ∈ s.deeds t ∧ hs.tpm = some k

end System

structure Owning (s : System) : Prop where
  routing : Routing s
  exclusive : Exclusive s.notify s.sub
  known : ∀ e p, (s.entries e).proc = some p → s.Alive e ∧ s.qemuOf p < s.nextQemu
  begun : s.closing = false → ∀ t e cid, s.sub t = some (e, cid) → s.Begun t e cid
  heard : s.closing = false → ∀ e p, (s.entries e).proc = some p → (s.procs p).phase = .boot → s.Listens e p ∨ s.Left p
  minded : ∀ t id k, .host (.startTPM id k) ∈ s.deeds t → s.Minds t k

namespace System

theorem subs_kept {cid ch : Nat} (hk : SubscribesFree s (.op t op))
    (h : s.notify.subs.get cid = some ch) (hne : ∀ why, op ≠ .notify (.unsubscribe why cid)) :
    (s.effect t op).notify.subs.get cid = some ch := by
  cases op with
  | notify o =>
    cases o with
    | subscribe e c =>
      have hfree : s.notify.subs.get c = none := hk
      refine (s.notify.get_subscribe e c cid hfree).trans ?_
      rw [if_neg, h]
      rintro rfl
      cases hfree.symm.trans h
    | unsubscribe why c =>
      refine (s.notify.get_unsubscribe c cid).trans ?_
      rw [if_neg, h]
      rintro rfl
      exact hne why rfl
    | deliver n =>
      change (s.notify.deliver n).subs.get cid = some ch
      rw [(s.notify.quiet_deliver n).subs, h]
    | receive p n =>
      change (s.notify.receive p).subs.get cid = some ch
      rw [(s.notify.quiet_receive p).subs, h]
    | hangUp p => exact h
  | runtimeStart e phase c q =>
    cases q with
    | none => exact h
    | some q =>
      cases phase with
      | install => exact h
      | boot =>
        change (s.notify.startedFor e q).subs.get cid = some ch
        rw [(s.notify.quiet_startedFor e q).subs, h]
  | track e phase hs =>
    cases phase with
    | install => exact h
    | boot =>
      change (s.notify.handOver e).subs.get cid = some ch
      rw [s.notify.handOver_subs, h]
  | reattach e phase hs =>
    cases phase with
    | install => exact h
    | boot =>
      change ((s.notify.startedFor e hs.qemu).handOver e).subs.get cid = some ch
      rw [handOver_subs, (s.notify.quiet_startedFor e hs.qemu).subs, h]
  | _ => exact h

theorem inbox_kept {ch : Nat} (hlt : p < s.nextProc) (h : s.notify.inbox p = some ch)
    (hne : op ≠ .notify (.hangUp p)) : (s.effect t op).notify.inbox p = some ch := by
  have hread : ∀ (l : Listener) (e : Nat) (phase : Phase), l.inbox p = some ch →
      (l.readFor e s.nextProc phase).inbox p = some ch := by
    intro l e phase hl
    cases phase with
    | install => exact hl
    | boot => exact (update_of_ne hlt.ne _ _).trans hl
  have hstarted : ∀ e q, (s.notify.startedFor e q).inbox p = some ch := by
    intro e q
    unfold startedFor
    split <;> exact h
  cases op with
  | notify o =>
    cases o with
    | subscribe e c =>
      change (s.notify.subscribe e c).inbox p = some ch
      unfold Listener.subscribe
      split <;> exact h
    | unsubscribe why c =>
      change (s.notify.unsubscribe c).inbox p = some ch
      unfold Listener.unsubscribe
      split <;> exact h
    | deliver n =>
      change (s.notify.deliver n).inbox p = some ch
      unfold deliver
      split
      · split <;> exact h
      · exact h
    | receive p' n =>
      change (s.notify.receive p').inbox p = some ch
      unfold receive
      split <;> exact h
    | hangUp p' =>
      refine (update_of_ne ?_ _ _).trans h
      rintro rfl
      exact hne rfl
  | runtimeStart e phase c q =>
    cases q with
    | none => exact h
    | some q =>
      cases phase with
      | install => exact h
      | boot => exact hstarted e q
  | track e phase hs => exact hread s.notify e phase h
  | reattach e phase hs =>
    cases phase with
    | install => exact h
    | boot => exact hread _ e .boot (hstarted e hs.qemu)
  | _ => exact h

theorem starting_kept (hop : ∀ e cid, op ≠ .notify (.subscribe e cid)) :
    (s.effect t op).notify.starting = s.notify.starting := by
  by_cases hr : op.routes = false
  · exact (fewer_of_routes hr).starting
  cases op with
  | notify o =>
    cases o with
    | subscribe e cid => exact absurd rfl (hop e cid)
    | _ => exact absurd rfl hr
  | track e phase hs => exact s.notify.starting_readFor e s.nextProc phase
  | reattach e phase hs =>
    cases phase with
    | install => rfl
    | boot =>
      exact ((s.notify.startedFor e hs.qemu).starting_readFor e s.nextProc .boot).trans
        (s.notify.starting_startedFor e hs.qemu)
  | _ => exact absurd rfl hr

end System

namespace Owning

theorem start_apart {cid : Nat} (h : Owning s) (hi : Inv s) (hcl : s.closing = false)
    (hs : s.sub t = some (e, cid)) : (∀ e' p, (s.entries e').proc = some p → s.Listens e' p → (s.record e').cid ≠ cid) ∧
      ∀ t' e', s.sub t' = some (e', cid) → t' = t := by
  obtain ⟨-, ⟨ch, hst, hsub⟩, -⟩ := h.begun hcl t e cid hs
  obtain ⟨ch₁, hst₁, -, hno⟩ := h.routing.routed.begun t e cid hs
  obtain rfl := some.inj (hst.symm.trans hst₁)
  refine ⟨fun e' p _ hl hcid => ?_, fun t' e' hs' => ?_⟩
  · obtain ⟨ch₂, hin, hsub₂⟩ := hl
    rw [hcid, hsub] at hsub₂
    cases hsub₂
    exact hno p hin
  · obtain ⟨-, ⟨ch₂, hst₂, hsub₂⟩, -⟩ := h.begun hcl t' e' cid hs'
    cases hsub.symm.trans hsub₂
    obtain rfl := h.routing.routed.apart t' t e' e cid cid ch hs' hs hst₂ hst
    exact hi.inCharge_unique (h.routing.charge t e' cid hs) (h.routing.charge t' e' cid hs')

theorem exit_apart {cid : Nat} (h : Owning s) (hcl : s.closing = false)
    (hg : s.Leaves t p cid) (hleft : (s.books t).left = none) :
    (∀ e' p', (s.entries e').proc = some p' → s.Listens e' p' → (s.record e').cid = cid → p' = p) ∧
      ∀ t' e', s.sub t' ≠ some (e', cid) := by
  obtain ⟨e, ⟨hproc, hsup⟩, hph, -, hcid⟩ := hg
  have hl : s.Listens e p := by
    rcases h.heard hcl e p hproc hph with hl | ⟨-, t', ht', hl⟩
    · exact hl
    · cases hsup.symm.trans ht'
      cases hleft.symm.trans hl
  obtain ⟨ch, hin, hsub⟩ := hl
  rw [hcid] at hsub
  refine ⟨fun e' p' hp' hl' hcid' => ?_, fun t' e' hs' => ?_⟩
  · obtain ⟨ch', hin', hsub'⟩ := hl'
    rw [hcid', hsub] at hsub'
    cases hsub'
    exact h.routing.routed.once p' p ch hin' hin
  · obtain ⟨-, ⟨ch', hst', hsub'⟩, -⟩ := h.begun hcl t' e' cid hs'
    cases hsub.symm.trans hsub'
    obtain ⟨ch₁, hst₁, -, hno⟩ := h.routing.routed.begun t' e' cid hs'
    cases hst'.symm.trans hst₁
    exact hno p hin

theorem start_keeps {cid ch : Nat} (h : Owning s) (hi : Inv s) (hg : op.Guard cfg s t)
    (hb : (s.books t).Allows op) (hk : SubscribesFree s (.op t op)) (hcl : s.closing = false)
    (hs : s.sub t' = some (e, cid)) (hs' : (s.effect t op).sub t' = some (e, cid))
    (hsub : s.notify.subs.get cid = some ch) : (s.effect t op).notify.subs.get cid = some ch := by
  refine subs_kept hk hsub fun why hop => ?_
  subst hop
  cases why with
  | start e₂ =>
    obtain rfl := (h.start_apart hi hcl hb).2 t' e hs
    rw [sub, s.books_effect] at hs'
    cases hs'
  | exit p => exact (h.exit_apart hcl hg hb).2 t' e hs
  | detach => cases hcl.symm.trans hg

theorem closing_old (s : System) (t : Nat) (op : Op) (h : (s.effect t op).closing = false) :
    s.closing = false := by
  by_contra hn
  have hc : s.closing = true := by simpa using hn
  cases (Inv.closing_mono s t op hc).symm.trans h

theorem moved_enter (hop : op.routes = false) (hs : st.sub ≠ none)
    (hs' : (st.enter op).sub ≠ none) (hm : (st.enter op).moved = false) :
    st.moved = false ∧ ∀ e cid, op ≠ .update e (.reassigned cid) := by
  cases op with
  | notify o =>
    cases o with
    | subscribe => cases hop
    | unsubscribe why cid =>
      cases why with
      | start e => exact absurd rfl hs'
      | _ => exact ⟨hm, nofun⟩
    | _ => exact ⟨hm, nofun⟩
  | host o => cases o <;> exact ⟨hm, nofun⟩
  | update e u =>
    cases u with
    | reassigned cid =>
      have hm : st.sub.isSome = false := hm
      exact absurd (not_isSome_iff_eq_none.1 (by simpa using hm)) hs
    | _ => exact ⟨hm, nofun⟩
  | track | reattach => cases hop
  | _ => exact ⟨hm, nofun⟩

theorem begun_old {cid : Nat} (h : Owning s) (hi : Inv s) (hg : op.Guard cfg s t)
    (hb : (s.books t).Allows op) (hk : SubscribesFree s (.op t op)) (hcl : s.closing = false)
    (hs : s.sub t' = some (e, cid)) (hs' : (s.effect t op).sub t' = some (e, cid)) :
    (s.effect t op).Begun t' e cid := by
  obtain ⟨ha, ⟨ch, hst, hsub⟩, hmoved⟩ := h.begun hcl t' e cid hs
  have hc := h.routing.charge t' e cid hs
  refine ⟨hi.alive_effect hg ha, ⟨ch, ?_, h.start_keeps hi hg hb hk hcl hs hs' hsub⟩, fun hm => ?_⟩
  · by_cases ht : t' = t
    · subst ht
      rw [starting_kept, hst]
      rintro e₂ cid₂ rfl
      cases hs.symm.trans hb.1
    · rw [(hi.keeps hg (.inl (Ne.symm ht))).starting e hc, hst]
  · by_cases ht : t' = t
    · subst ht
      rw [s.books_effect] at hm
      have hroutes : op.routes = false := by
        by_contra hn
        cases op with
        | notify o =>
          cases o with
          | subscribe => cases hs.symm.trans hb.1
          | _ => exact hn rfl
        | track | reattach =>
          rw [sub, s.books_effect] at hs'
          cases hs'
        | _ => exact hn rfl
      have hs₀ : (s.books t').start.sub ≠ none := by
        rw [show (s.books t').start.sub = some (e, cid) from hs]
        simp
      have hs₁ : ((s.books t').start.enter op).sub ≠ none := by
        rw [sub, s.books_effect] at hs'
        rw [show ((s.books t').start.enter op).sub = some (e, cid) from hs']
        simp
      obtain ⟨hm, hop⟩ := moved_enter hroutes hs₀ hs₁ hm
      exact (hi.cid_effect hg ha (hop e)).trans (hmoved hm)
    · rw [s.books_other op ht] at hm
      refine ((hi.keeps hg (.inl (Ne.symm ht))).cid e ha ?_).trans (hmoved hm)
      exact hc.imp_right fun hx => .inr hx.2

theorem begun_effect {cid : Nat} (h : Owning s) (hi : Inv s) (hg : op.Guard cfg s t) (hb : (s.books t).Allows op)
    (hk : SubscribesFree s (.op t op)) (hcl : s.closing = false) (hs : (s.effect t op).sub t' = some (e, cid)) :
    (s.effect t op).Begun t' e cid := by
  rcases sub_cases hs with hold | ⟨rfl, e', cid', rfl, hx⟩
  · exact h.begun_old hi hg hb hk hcl hold hs
  · cases hx
    obtain ⟨hc, hcid⟩ := hg
    have hfree : s.notify.subs.get cid = none := hk
    have ha : s.Alive e := hc.elim (fun hv => hv.2.1) fun hl => ((hi.entry e).loading hl.2).1
    refine ⟨ha, ⟨s.notify.nextChan, ?_, ?_⟩, fun _ => hcid⟩
    · change (s.notify.subscribe e cid).starting e = some s.notify.nextChan
      rw [s.notify.subscribe_new e cid hfree]
      exact update_self ..
    · refine (s.notify.get_subscribe e cid cid hfree).trans ?_
      rw [if_pos rfl]

theorem known_effect (h : Owning s) (hi : Inv s) (hg : op.Guard cfg s t)
    (hp : ((s.effect t op).entries e).proc = some p) :
    (s.effect t op).Alive e ∧ (s.effect t op).qemuOf p < (s.effect t op).nextQemu := by
  have hl := hi.later hg
  rcases hi.proc_from hg hp with hold | ⟨rfl, ⟨phase, hs, rfl⟩ | ⟨phase, hs, rfl⟩⟩
  · obtain ⟨ha, hq⟩ := h.known e p hold
    rw [qemuOf, (hl.proc p ((hi.entry e).proc p hold).1).2.2.2.1]
    exact ⟨hi.alive_effect hg ha, (hl.qemu _ hq).1⟩
  · refine ⟨hi.alive_effect hg hg.2.1, ?_⟩
    have hnew : (s.effect t (.track e phase hs)).qemuOf s.nextProc = hs.qemu := by
      simp [qemuOf, System.effect, System.apply, addProc, updateRec]
    rw [hnew]
    exact hg.2.2.2.2.2.2.2.2.1
  · refine ⟨hi.alive_effect hg ((hi.entry e).loading hg.2.1).1, ?_⟩
    have hnew : (s.effect t (.reattach e phase hs)).qemuOf s.nextProc = hs.qemu := by
      simp [qemuOf, System.effect, System.apply, addProc]
    rw [hnew]
    obtain ⟨-, -, -, ⟨h', -, -, hlt⟩, -⟩ := hg
    exact hlt

theorem listens_new (h : Owning s) (hi : Inv s) (hg : op.Guard cfg s t) (hb : (s.books t).start.Subscribed e .boot)
    (hk : SubscribesFree s (.op t op)) (hcl : s.closing = false)
    (hop : (∃ hs, op = .track e .boot hs) ∨ ∃ hs, op = .reattach e .boot hs) :
    (s.effect t op).Listens e s.nextProc := by
  obtain ⟨cid, hsub, hmoved⟩ := hb
  obtain ⟨ha, ⟨ch, hst, hget⟩, hcid⟩ := h.begun hcl t e cid hsub
  have hin : (s.effect t op).notify.inbox s.nextProc = some ch := by
    rcases hop with ⟨hs, rfl⟩ | ⟨hs, rfl⟩
    · exact (update_self ..).trans hst
    · refine (update_self ..).trans ?_
      rw [s.notify.starting_startedFor, hst]
  have hre : ∀ c, op ≠ .update e (.reassigned c) := by
    rcases hop with ⟨hs, rfl⟩ | ⟨hs, rfl⟩ <;> simp
  have hun : ∀ why, op ≠ .notify (.unsubscribe why cid) := by
    rcases hop with ⟨hs, rfl⟩ | ⟨hs, rfl⟩ <;> simp
  refine ⟨ch, hin, ?_⟩
  rw [hi.cid_effect hg ha hre, hcid hmoved]
  exact subs_kept hk hget hun

theorem listens_effect (h : Owning s) (hi : Inv s) (hg : op.Guard cfg s t) (hb : (s.books t).Allows op)
    (hk : SubscribesFree s (.op t op)) (hcl : s.closing = false) (hp : (s.entries e).proc = some p)
    (hl : s.Listens e p) :
    (s.effect t op).Listens e p ∨ (s.effect t op).Left p := by
  have hlt := ((hi.entry e).proc p hp).1
  have ha := (h.known e p hp).1
  have hcid : ((s.effect t op).record e).cid = (s.record e).cid := by
    refine hi.cid_effect hg ha fun c hop => ?_
    subst hop
    cases hp.symm.trans hg.2.1.2.2.1
  obtain ⟨ch, hin, hsub⟩ := hl
  have hhang : op ≠ .notify (.hangUp p) := by
    rintro rfl
    have hended : s.notify.ended p = true := hg.1
    rw [ended, hin] at hended
    simp [h.exclusive.opened _ ch hsub] at hended
  by_cases hun : ∃ why, op = .notify (.unsubscribe why (s.record e).cid)
  · obtain ⟨why, rfl⟩ := hun
    cases why with
    | start e' => exact absurd rfl ((h.start_apart hi hcl hb).1 e p hp ⟨ch, hin, hsub⟩)
    | exit p' =>
      obtain rfl := (h.exit_apart hcl hg hb).1 e p hp ⟨ch, hin, hsub⟩ rfl
      obtain ⟨e', ⟨-, hsup⟩, -, hexit, -⟩ := hg
      refine .inr ⟨hexit, t, hsup, ?_⟩
      rw [s.books_effect]
      rfl
    | detach => cases hcl.symm.trans hg
  · refine .inl ⟨ch, inbox_kept hlt hin hhang, ?_⟩
    rw [hcid]
    exact subs_kept hk hsub fun why hop => hun ⟨why, hop⟩

theorem leaves_kept (h : b.left = some p) (hb : b.Allows op)
    (hex : ∀ e exit timeout c, op ≠ .exited e p exit timeout c) : (b.enter op).left = some p := by
  cases op with
  | notify o =>
    cases o with
    | unsubscribe why cid =>
      cases why with
      | exit p' => cases h.symm.trans hb
      | _ => exact h
    | _ => exact h
  | exited e p' exit timeout c =>
    rcases hb with hb | hb
    · cases h.symm.trans hb
    · cases h.symm.trans hb
      exact absurd rfl (hex e exit timeout c)
  | _ => exact h

theorem left_effect (h : Owning s) (hi : Inv s) (hg : op.Guard cfg s t) (hb : (s.books t).Allows op)
    (hp : (s.entries e).proc = some p) (hp' : ((s.effect t op).entries e).proc = some p)
    (hl : s.Left p) : (s.effect t op).Left p := by
  obtain ⟨hexit, t', hsup, hleft⟩ := hl
  have hlater := hi.later hg
  have hlt := ((hi.entry e).proc p hp).1
  refine ⟨?_, t', ?_, ?_⟩
  · rw [qemuOf, (hlater.proc p hlt).2.2.2.1]
    obtain ⟨x, hx⟩ := ne_none_iff_exists'.1 hexit
    have hx' := (hlater.qemu _ (h.known e p hp).2).2.2.2 x hx
    exact fun hn => by cases hx'.symm.trans hn
  · rw [Inv.supervisor_effect s t op hlt, hsup]
    rintro k rfl
    obtain ⟨-, -, hsup'⟩ := hg
    cases hsup.symm.trans hsup'
    cases hleft.symm.trans hb
  · by_cases ht : t' = t
    · subst ht
      rw [s.books_effect]
      refine leaves_kept hleft hb ?_
      rintro e' exit timeout c rfl
      obtain ⟨-, ⟨hproc, -⟩, -⟩ := hg
      have hee : e' = e := by rw [← ((hi.entry e').proc p hproc).2.1, ((hi.entry e).proc p hp).2.1]
      rw [hee, s.exited_entry] at hp'
      cases hp'
    · rw [s.books_other op ht, hleft]

theorem heard_effect (h : Owning s) (hi : Inv s) (hg : op.Guard cfg s t) (hb : (s.books t).Allows op)
    (hk : SubscribesFree s (.op t op)) (hcl : s.closing = false)
    (hp : ((s.effect t op).entries e).proc = some p) (hph : ((s.effect t op).procs p).phase = .boot) :
    (s.effect t op).Listens e p ∨ (s.effect t op).Left p := by
  rcases hi.proc_from hg hp with hold | ⟨rfl, ⟨phase, hs, rfl⟩ | ⟨phase, hs, rfl⟩⟩
  · rw [((hi.later hg).proc p ((hi.entry e).proc p hold).1).2.2.1] at hph
    rcases h.heard hcl e p hold hph with hl | hl
    · exact h.listens_effect hi hg hb hk hcl hold hl
    · exact .inr (h.left_effect hi hg hb hold hp hl)
  · have hphase : phase = .boot := by
      simpa [System.effect, System.apply, addProc, updateRec] using hph
    subst hphase
    exact .inl (h.listens_new hi hg hb.2.2.subscribed hk hcl (.inl ⟨hs, rfl⟩))
  · have hphase : phase = .boot := by
      simpa [System.effect, System.apply, addProc] using hph
    subst hphase
    exact .inl (h.listens_new hi hg hb.2.2 hk hcl (.inr ⟨hs, rfl⟩))

theorem sub_stays (hop : op.routes = false) (hun : ∀ e cid, op ≠ .notify (.unsubscribe (.start e) cid)) :
    (s.effect t op).sub t' = s.sub t' := by
  refine books_field (fun b => b.start.sub) t ?_ t'
  cases op with
  | notify o =>
    cases o with
    | subscribe => cases hop
    | unsubscribe why cid =>
      cases why with
      | start e => exact absurd rfl (hun e cid)
      | _ => rfl
    | _ => rfl
  | host o => cases o <;> rfl
  | update e u => cases u <;> rfl
  | track | reattach => cases hop
  | _ => rfl

theorem exclusive_reads {l : Listener} {phase : Phase} (hx : Exclusive l s.sub) (hr : Routed l s.sub s.nextProc)
    (hst : (s.books t).start.Subscribed e phase) (hother : ∀ t' ≠ t, s'.sub t' = s.sub t') :
    Exclusive (l.readFor e s.nextProc phase) s'.sub := by
  cases phase with
  | install =>
    refine hx.quiet l.quiet_refl fun t' x hs => ?_
    have ht : t' ≠ t := by
      rintro rfl
      cases hs.symm.trans hst
    rw [hother t' ht, hs]
  | boot =>
    obtain ⟨cid, hs, -⟩ := hst
    exact hx.readFor hr hs hother

theorem exclusive_effect (h : Owning s) (hi : Inv s) (hg : op.Guard cfg s t)
    (hb : (s.books t).Allows op) (hk : SubscribesFree s (.op t op)) :
    Exclusive (s.effect t op).notify (s.effect t op).sub := by
  have hother : ∀ t' ≠ t, (s.effect t op).sub t' = s.sub t' := fun t' ht => by
    rw [sub, s.books_other op ht, sub]
  have hquiet : op.routes = false → (∀ e cid, op ≠ .notify (.unsubscribe (.start e) cid)) →
      s.notify.Quiet (s.effect t op).notify → Exclusive (s.effect t op).notify (s.effect t op).sub :=
    fun hr hun hl => h.exclusive.quiet hl fun t' x hs => (sub_stays hr hun).trans hs
  cases op with
  | notify o =>
    cases o with
    | subscribe e cid =>
      have hmine : (s.effect t (.notify (.subscribe e cid))).sub t = some (e, cid) := by
        rw [sub, s.books_effect]
        rfl
      exact h.exclusive.subscribe h.routing.routed hk hmine hb.1 hother
        fun t' ht cid' => h.routing.alone hi (hg.1.imp_left fun hv => hv.1) ht
    | unsubscribe why cid =>
      refine h.exclusive.unsubscribe fun t' e cid' hne hs => ?_
      by_cases ht : t' = t
      swap
      · exact (hother t' ht).trans hs
      subst ht
      cases why with
      | start e' =>
        cases hs.symm.trans hb
        exact absurd rfl hne
      | _ => exact (sub_stays rfl fun _ _ hx => by cases hx).trans hs
    | deliver n => exact hquiet rfl (by simp) (s.notify.quiet_deliver n)
    | receive p n => exact hquiet rfl (by simp) (s.notify.quiet_receive p)
    | hangUp p => exact hquiet rfl (by simp) (s.notify.quiet_hangUp p)
  | runtimeStart e phase cid q =>
    refine hquiet rfl (by simp) ?_
    cases q with
    | none => exact s.notify.quiet_refl
    | some q =>
      cases phase with
      | install => exact s.notify.quiet_refl
      | boot => exact s.notify.quiet_startedFor e q
  | track e phase hs =>
    exact exclusive_reads h.exclusive h.routing.routed hb.2.2.subscribed hother
  | reattach e phase hs =>
    cases phase with
    | install => exact exclusive_reads h.exclusive h.routing.routed hb.2.2 hother
    | boot =>
      have hr := h.routing.routed.fewer (s.notify.fewer_startedFor e hs.qemu) (fun _ _ hx => hx) le_rfl
      have hx := h.exclusive.quiet (s.notify.quiet_startedFor e hs.qemu) fun _ _ hx => hx
      exact exclusive_reads hx hr hb.2.2 hother
  | _ => exact hquiet rfl (by simp) s.notify.quiet_refl

theorem tpm_enter (hst : b.start = st) (h : st.tpm = some k)
    (hb : b.Allows op) : (st.enter op).tpm = some k ∨ op = .host (.stopTPM k) ∨
      ∃ e phase hs, op = .track e phase hs ∧ hs.tpm = some k := by
  subst hst
  cases op with
  | host o =>
    cases o with
    | startTPM => cases h.symm.trans hb
    | stopTPM k' =>
      rcases hb with hb | hb
      · cases h.symm.trans hb
      · cases h.symm.trans hb
        exact .inr (.inl rfl)
    | _ => exact .inl h
  | notify o =>
    cases o with
    | unsubscribe why cid => cases why <;> exact .inl h
    | _ => exact .inl h
  | update e u => cases u <;> exact .inl h
  | track e phase hs => exact .inr (.inr ⟨e, phase, hs, rfl, hb.2.2.tpm ▸ h⟩)
  | reattach => cases h.symm.trans hb.1
  | _ => exact .inl h

theorem minded_effect {id : String} (h : Owning s) (hb : (s.books t).Allows op)
    (hd : .host (.startTPM id k) ∈ (s.effect t op).deeds t') : (s.effect t op).Minds t' k := by
  have hdone : op.isRead = false → op ∈ (s.effect t op).deeds t := fun hr => by
    rw [s.deeds_effect, if_pos ⟨rfl, hr⟩]
    exact List.mem_cons_self
  rcases mem_deeds_cases hd with hold | ⟨rfl, rfl⟩
  swap
  · refine .inl ?_
    rw [s.books_effect]
    rfl
  rcases h.minded t' id k hold with htpm | hstop | ⟨e, phase, hs, htrack, htpm⟩
  · by_cases ht : t' = t
    · subst ht
      rw [Minds, s.books_effect]
      rcases tpm_enter rfl htpm hb with htpm | rfl | ⟨e, phase, hs, rfl, hx⟩
      · exact .inl htpm
      · exact .inr (.inl (hdone rfl))
      · exact .inr (.inr ⟨e, phase, hs, hdone rfl, hx⟩)
    · refine .inl ?_
      rw [s.books_other op ht, htpm]
  · exact .inr (.inl (mem_deeds_effect hstop))
  · exact .inr (.inr ⟨e, phase, hs, mem_deeds_effect htrack, htpm⟩)

theorem effect (h : Owning s) (hi : Inv s) (hg : op.Guard cfg s t) (hb : (s.books t).Allows op)
    (hk : SubscribesFree s (.op t op)) : Owning (s.effect t op) where
  routing := h.routing.effect hi hg hb hk
  exclusive := h.exclusive_effect hi hg hb hk
  known _ _ := h.known_effect hi hg
  begun hcl _ _ _ := h.begun_effect hi hg hb hk (closing_old s t op hcl)
  heard hcl _ _ := h.heard_effect hi hg hb hk (closing_old s t op hcl)
  minded _ _ _ := h.minded_effect hb

theorem blank (he : ∀ e, (s.entries e).proc = none) (hl : s.notify = {}) (hd : ∀ t, s.deeds t = []) :
    Owning s := by
  have hsub : s.sub = fun _ => none := by
    funext t
    rw [sub, System.books, hd]
    rfl
  refine ⟨⟨?_, fun t e cid hs => ?_⟩, ?_, fun e p hp => ?_, fun _ t e cid hs => ?_, fun _ e p hp => ?_,
    fun t id k hx => ?_⟩
  · rw [hl, hsub]
    exact .initial
  · rw [hsub] at hs
    cases hs
  · rw [hl]
    exact .initial
  · cases (he e).symm.trans hp
  · rw [hsub] at hs
    cases hs
  · cases (he e).symm.trans hp
  · rw [hd] at hx
    cases hx

theorem initial : Owning {} := blank (fun _ => rfl) rfl fun _ => rfl

theorem outside (cfg : Config) {x : Outside} {n : Nat} (h : Owning s) (hi : Inv s)
    (hx : s.outside n x = some s') : Owning (s'.noting x s) := by
  have hbooks := s.books_outside (x := x) s'
  have hdeeds := s.deeds_outside (x := x) s'
  have hsub : x ≠ .crash → sub (s'.noting x s) = s.sub :=
    fun hne => funext fun t => by rw [sub, hbooks hne, sub]
  have hrouting := h.routing.outside cfg hi hx
  rcases outside_split hx with _ | ⟨hne, ho⟩
  · exact blank (fun _ => rfl) rfl fun _ => rfl
  refine ⟨hrouting, ?_, h.known, fun hcl t e cid hs => ?_, fun hcl e p hp hph => ?_, fun t id k hd => ?_⟩
  · rw [hsub hne]
    exact h.exclusive
  · rw [hsub hne] at hs
    rw [System.Begun, hbooks hne]
    exact h.begun hcl t e cid hs
  · refine (h.heard hcl e p hp hph).imp_right ?_
    rintro ⟨hexit, t, hsup, hleft⟩
    obtain ⟨y, hy⟩ := ne_none_iff_exists'.1 hexit
    refine ⟨fun hn => ?_, t, hsup, (hbooks hne t).symm ▸ hleft⟩
    cases ((ho.qemu _).2.2.2 y hy).symm.trans hn
  · rw [hdeeds hne] at hd
    rw [Minds, hbooks hne, hdeeds hne]
    exact h.minded t id k hd

end Owning

theorem Runs.owning {pool : Pool} (h : Runs cfg SubscribesFree pool) : Owning pool.shared :=
  Runs.invariant (I := Owning) .initial (fun _ _ _ hi hI hg hk => hI.effect hi hg hk.1 hk.2)
    (fun _ _ _ _ hi hI _ hx => hI.outside cfg hi hx) h.booked

theorem Runs.allows {K : System → Event → Prop} {pool pool' : Pool}
    {m : Move} (h : Runs cfg K pool)
    (hm : (service cfg).step pool m = some (.op t op, pool')) : (pool.shared.books t).Allows op :=
  ((books_sound.holds h).step books_sound hm).1

/-- How a goroutine goes on once `startProcess` of an entry has returned an error: Create discards the VM,
the handoff and Start record the failure or give up the lock. -/
def Op.afterStart : Op → Option Nat
  | .update e (.failed _) | .release e _ | .unlock e => some e
  | _ => none

theorem Op.afterStart_spec (hop : op.afterStart = some e) (hg : op.Guard cfg s t)
    (hb : (s.books t).Allows op) : (s.entries e).opMu = some t ∧ (s.books t).start = {} := by
  cases op with
  | update e' u =>
    cases u with
    | failed err =>
      cases hop
      exact ⟨hg.2.1.1, hb.2 rfl⟩
    | _ => cases hop
  | release e' ks =>
    cases hop
    exact ⟨hg.2.1, hb.2⟩
  | unlock e' =>
    cases hop
    exact ⟨hg.1, hb.2⟩
  | _ => cases hop

theorem boot_owns_subscription (cfg : Config) {pool : Pool}
    (h : Runs cfg SubscribesFree pool) : (pool.shared.closing = false → ∀ e p, (pool.shared.entries e).proc = some p →
      (pool.shared.procs p).phase = .boot → (pool.shared.qemus (pool.shared.procs p).handles.qemu).exit = none →
      ∃ ch, pool.shared.notify.subs.get (pool.shared.record e).cid = some ch ∧
        pool.shared.notify.inbox p = some ch ∧ (pool.shared.notify.chans ch).closed = false ∧
        (∀ cid, pool.shared.notify.subs.get cid = some ch → cid = (pool.shared.record e).cid) ∧
        (∀ p', pool.shared.notify.inbox p' = some ch → p' = p) ∧
        ∀ t e' cid, pool.shared.sub t = some (e', cid) → pool.shared.notify.starting e' ≠ some ch) ∧
    ∀ m t o e pool', (service cfg).step pool m = some (.op t o, pool') → o.afterStart = some e →
      (∀ cid ch, pool.shared.notify.subs.get cid = some ch → (pool.shared.notify.chans ch).start ≠ some e) ∧
      ∀ id k, .host (.startTPM id k) ∈ pool.shared.deeds t → .host (.stopTPM k) ∈ pool.shared.deeds t ∨
          ∃ e' phase hs, .track e' phase hs ∈ pool.shared.deeds t ∧ hs.tpm = some k := by
  have hown := h.owning
  have hr := hown.routing.routed
  refine ⟨fun hcl e p hp hph hexit => ?_, fun m t o e pool' hm ho => ?_⟩
  · rcases hown.heard hcl e p hp hph with ⟨ch, hin, hsub⟩ | ⟨hleft, -⟩
    swap
    · exact absurd hexit hleft
    refine ⟨ch, hsub, hin, hown.exclusive.opened _ ch hsub,
      fun cid hc => hown.exclusive.single cid _ ch hc hsub, fun p' hp' => hr.once p' p ch hp' hin, ?_⟩
    intro t e' cid hs hst
    obtain ⟨ch', hst', -, hno⟩ := hr.begun t e' cid hs
    cases hst.symm.trans hst'
    exact hno p hin
  · have hg : o.Guard cfg pool.shared t := by
      have hstep := h.step hm
      generalize pool'.shared = s₂ at hstep
      cases hstep with
      | op hg => exact hg
    obtain ⟨hmu, hstart⟩ := Op.afterStart_spec ho hg (h.allows hm)
    refine ⟨fun cid ch hsub hx => ?_, fun id k hk => ?_⟩
    · obtain ⟨-, t', hs⟩ := hown.exclusive.made cid ch e hsub hx
      obtain rfl := h.inv.inCharge_unique (.inl hmu) (hown.routing.charge t' e cid hs)
      rw [sub, hstart] at hs
      cases hs
    · refine (hown.minded t id k hk).resolve_left fun hx => ?_
      rw [hstart] at hx
      cases hx

namespace Sample

/-- The installer of the first VM has ended, and QEMU finds its CID in use; before the subscription moves,
a second VM is made, gets that CID and boots, and then the first start goes on. -/
def sharesCID : List Move :=
  withNetwork ++ creates 2 { name := "one", network := "a" } "01" ++ oks 2 2 ++
    [.env (.exit 0 ⟨0, ""⟩), .go 3 (.exited {})] ++ oks 3 11 ++
    [.go 3 (.err "unable to set guest cid"), .go 3 .ok] ++
    creates 4 { name := "two", network := "a" } "02" ++ oks 4 2 ++
    [.env (.exit 1 ⟨0, ""⟩), .go 5 (.exited {})] ++ oks 5 16 ++ oks 3 1

end Sample
open Sample

theorem boot_owns_subscription_boot : ∃ pool, Runs config SubscribesFree pool ∧
    (pool.shared.closing = false ∧ (pool.shared.entries 0).proc = some 1 ∧ (pool.shared.procs 1).phase = .boot ∧
      (pool.shared.qemus (pool.shared.procs 1).handles.qemu).exit = none) ∧
    ∃ ch, pool.shared.notify.subs.get (pool.shared.record 0).cid = some ch ∧
      pool.shared.notify.inbox 1 = some ch ∧ (pool.shared.notify.chans ch).closed = false := by
  refine Runs.witness attestedBoot (by decide +kernel) fun pool hrun hp => ?_
  obtain ⟨ch, hsub, hin, hopen, -⟩ :=
    (boot_owns_subscription config hrun).1 hp.1 0 1 hp.2.1 hp.2.2.1 hp.2.2.2
  exact ⟨ch, hsub, hin, hopen⟩

theorem boot_without_subscription : ∃ pool, Runs config (fun _ _ => True) pool ∧
    pool.shared.closing = false ∧ (pool.shared.entries 1).proc = some 2 ∧ (pool.shared.procs 2).phase = .boot ∧
    (pool.shared.qemus (pool.shared.procs 2).handles.qemu).exit = none ∧
    pool.shared.notify.subs.get (pool.shared.record 1).cid = none :=
  Runs.sample sharesCID (by decide +kernel)

end VmManager.Vm
