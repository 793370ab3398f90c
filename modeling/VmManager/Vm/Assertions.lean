import VmManager.Vm.Interference

/-! The outline of the service. Between two steps of a goroutine the others and the outside move, which
is `Rely`. An assertion is firm if it survives that; it is lasting if no step of anyone ends it. -/
namespace VmManager.Vm
open Encoding Attest Interleaving Vm.System
variable {cfg : Config} {s s' : System} {t e p : Nat} {P Q : System → Prop} {ξ : Type} {phase : Phase} {o : Op}

/-- What may happen between two steps of goroutine `t`. -/
inductive Rely (cfg : Config) (t : Nat) (s : System) : System → Prop where
  | op {t' : Nat} {o : Op} (ht : t' ≠ t) (hg : o.Guard cfg s t') : Rely cfg t s (s.effect t' o)
  | outside {x : Outside} {n : Nat} {s' : System} (hx : s.outside n x = some s') (hne : x ≠ .crash) :
      Rely cfg t s (s'.noting x s)

namespace System

def Loads (s : System) (t : Nat) (ids : Option (List String)) (at? : Option Nat) : Prop :=
  s.loader = some t ∧ s.pendingLoad = ids ∧ s.loading = at? ∧ (ids ≠ none → s.Restored)

structure Newest (s : System) (t e : Nat) : Prop where
  loader : s.loader = some t
  alive : s.Alive e
  next : e + 1 = s.nextEntry
  others : ∀ e', s.Alive e' → e' ≠ e → .update e' .resaved ∈ s.acts t

def WrittenBack (s : System) (t : Nat) : Prop := s.loader = some t ∧ s.Resaved t

def Settled (s : System) (e : Nat) : Prop := s.Alive e ∧ s.loading ≠ some e

def Follows (s : System) (t e p : Nat) : Prop :=
  s.Supervises t e p ∧ s.Settled e ∧ p < s.nextProc ∧ (s.procs p).handles.qemu < s.nextQemu

end System

def Call.Pre (s : System) (t : Nat) : Call → Prop
  | .create _ | .start _ | .stop _ | .reboot _ | .delete _ | .close | .createNetwork _
  | .deleteNetwork _ | .forward .. => s.serving = true
  | .quote _ _ _ => s.acts t = []
  | .run e p _ => s.Follows t e p
  | .closeStop e _ => s.closing = true ∧ s.Alive e
  | .load => s.Loads t none none
  | .deliver n => s.Sent n
  | _ => True

def Unused (n : Nat) (s : System) : Prop := ∀ t o m, .did t o m ∈ s.hist → t < n

def outline (cfg : Config) : Outline (service cfg) where
  inv := Inv
  guard t o s := o.Guard cfg s t
  pre c t s := c.Pre s t
  rely := Rely cfg
  unused := Unused

abbrev Meets (cfg : Config) (t : Nat) (P : System → Prop) (x : Go α) (R : α → System → Prop) : Prop :=
  (outline cfg).Triple t P x R

abbrev MeetsE {ξ : Type} (cfg : Config) (t : Nat) (P : System → Prop) (x : ExceptT ξ Go α) (R : α → System → Prop)
    (E : System → Prop) : Prop := Meets cfg t P x.run (Outline.Post R E)

/-- No step ends the assertion. -/
class Lasting (P : System → Prop) : Prop where
  later : ∀ s s', Inv s → Later s s' → P s → P s'

/-- Neither the others nor a quiet step of the goroutine itself end the assertion. -/
class Firm (t : Nat) (P : System → Prop) : Prop where
  keeps : ∀ s s', Inv s → Keeps t s s' → P s → P s'

instance (priority := low) [Lasting P] : Firm t P where
  keeps s s' h hk := Lasting.later s s' h hk.later

instance {p : Prop} : Lasting fun _ => p where
  later _ _ _ _ hp := hp

instance [Lasting P] [Lasting Q] : Lasting fun s => P s ∧ Q s where
  later s s' h hl hp := ⟨Lasting.later s s' h hl hp.1, Lasting.later s s' h hl hp.2⟩

instance [Lasting P] [Lasting Q] : Lasting fun s => P s ∨ Q s where
  later s s' h hl hp := hp.imp (Lasting.later s s' h hl) (Lasting.later s s' h hl)

instance [Firm t P] [Firm t Q] : Firm t fun s => P s ∧ Q s where
  keeps s s' h hk hp := ⟨Firm.keeps s s' h hk hp.1, Firm.keeps s s' h hk hp.2⟩

instance {es : List Nat} {R : Nat → System → Prop} [∀ e, Lasting (R e)] :
    Lasting fun s => ∀ e ∈ es, R e s where
  later s s' h hl hp e he := Lasting.later s s' h hl (hp e he)

instance {ξ α : Type} {R : α → System → Prop} {r : Except ξ α} [∀ a, Firm t (R a)] [Firm t P] :
    Firm t (Outline.Post R P r) where
  keeps s s' h hk hp := by
    cases r with
    | ok a => exact Firm.keeps (P := R a) s s' h hk hp
    | error err => exact Firm.keeps (P := P) s s' h hk hp

theorem Inv.hist (h : Inv s) (l : List Happening) : Inv { s with hist := l } :=
  { h with entry := fun e => (h.entry e).of_same (.of_entry rfl (fun _ h1 h2 => ⟨h1, h2⟩)
      (fun _ _ => ⟨le_rfl, rfl, rfl, rfl, rfl⟩) rfl (fun h => h) (fun h => h) fun h => h) }

theorem Rely.keeps (h : Inv s) (hr : Rely cfg t s s') : Keeps t s s' := by
  cases hr with
  | op ht hg => exact h.keeps hg (.inl ht)
  | @outside x n s₁ hx hne =>
    refine OutsideStep.keeps ((h.outside hx).hist _) (outside_step hx hne) fun hl => ?_
    exact (loader_outside hx hne (h.up_of_loader hl)).trans hl

theorem Rely.own (hr : Rely cfg t s s') :
    s'.acts t = s.acts t ∧ s'.submitting.get t = s.submitting.get t := by
  cases hr with
  | op ht hg =>
    rw [acts_effect, if_neg fun hx => ht hx.1]
    exact ⟨rfl, s.submitting_effect_ne _ ht⟩
  | outside hx hne =>
    obtain ⟨_, _, _, _, _, rfl, -⟩ := outside_eq hx hne
    exact ⟨rfl, rfl⟩

theorem Firm.stable [hf : Firm t P] : (outline cfg).Stable t P :=
  fun s s' h hr => hf.keeps s s' h (Rely.keeps h hr)

theorem Firm.quiet [hf : Firm t P] (hi : Inv s) (hg : o.Guard cfg s t)
    (hq : o.quiet = true) (hp : P s) : P (s.effect t o) :=
  hf.keeps s _ hi (hi.keeps hg (.inr hq)) hp

section
variable {α : Type} {R : α → System → Prop}

theorem Unused.effect {m n : Nat} (hu : Unused n s) (ht : t < n) (hn : n ≤ m) :
    Unused m (s.effect t o) := by
  intro t' o' k hm
  rcases List.mem_cons.1 hm with hx | hx
  · cases hx
    exact ht.trans_le hn
  · exact (hu t' o' k hx).trans_le hn

theorem spawn_rule [Firm t P] {f : Nat → Nat → Answer → System → Option (Op × α × List Call)}
    (h : ∀ {s n i o a l}, Inv s → P s → f t n i s = some (o, a, l) → o.Guard cfg s t ∧
      (∀ j (c : Call), l[j]? = some c → c.Pre (s.effect t o) (n + j)) ∧ R a (s.effect t o)) :
    Meets cfg t P (Proc.spawn f) R := by
  refine Outline.Triple.spawn Firm.stable fun hi hu ht hp hf => ?_
  obtain ⟨hg, hl, hr⟩ := h hi hp hf
  exact ⟨hg, Unused.effect hu ht (Nat.le_add_right _ _), hl, hr⟩

theorem stable_step (hst : (outline cfg).Stable t P) {f : Nat → Answer → System → Option (Op × α)}
    (h : ∀ {s i o a}, Inv s → P s → f t i s = some (o, a) → o.Guard cfg s t ∧ R a (s.effect t o)) :
    Meets cfg t P (Proc.step f) R :=
  Outline.Triple.step hst (fun _ hu ht _ _ => Unused.effect hu ht le_rfl) h

theorem step_rule [Firm t P] {f : Nat → Answer → System → Option (Op × α)}
    (h : ∀ {s i o a}, Inv s → P s → f t i s = some (o, a) → o.Guard cfg s t ∧ R a (s.effect t o)) :
    Meets cfg t P (Proc.step f) R :=
  stable_step Firm.stable h

theorem quiet_rule [Firm t P] [∀ a, Firm t (R a)] {f : Nat → Answer → System → Option (Op × α)}
    (h : ∀ {s i o a}, Inv s → P s → f t i s = some (o, a) → o.Guard cfg s t ∧ o.quiet = true ∧ R a s) :
    Meets cfg t P (Proc.step f) R := by
  refine step_rule fun hi hp hf => ?_
  obtain ⟨hg, hq, hr⟩ := h hi hp hf
  exact ⟨hg, Firm.quiet hi hg hq hr⟩

theorem look_rule [Firm t P] [∀ a, Firm t (R a)] {f : System → α}
    (h : ∀ s, Inv s → P s → R (f s) s) : Meets cfg t P (look f) R := by
  refine quiet_rule fun {s i o a} hi hp hf => ?_
  cases hf
  exact ⟨trivial, rfl, h s hi hp⟩

theorem manager_rule [Firm t P] [∀ a, Firm t (R a)] {f : System → α}
    (h : ∀ s, Inv s → P s → R (f s) s) : Meets cfg t P (withManager f) R := by
  refine quiet_rule fun {s i o a} hi hp hf => ?_
  split at hf <;> cases hf
  exact ⟨trivial, rfl, h s hi hp⟩

theorem perform_rule [Firm t P] (hg : ∀ s, Inv s → P s → o.Guard cfg s t) (h : ∀ s, Inv s → P s → Q (s.effect t o)) :
    Meets cfg t P (perform o) fun _ => Q := by
  refine step_rule fun {s i o' a} hi hp hf => ?_
  cases hf
  exact ⟨hg s hi hp, h s hi hp⟩

theorem perform_quiet [Firm t P] (hq : o.quiet = true)
    (hg : ∀ s, Inv s → P s → o.Guard cfg s t) : Meets cfg t P (perform o) fun _ => P :=
  perform_rule hg fun s hi hp => Firm.quiet hi (hg s hi hp) hq hp

theorem ret_rule [Firm t P] {a : α} (h : ∀ s, Inv s → P s → R a s) : Meets cfg t P (pure a) R :=
  Outline.Triple.pure Firm.stable h

theorem retE_rule [Firm t P] {a : α} (h : ∀ s, Inv s → P s → R a s) :
    MeetsE cfg t P (pure a : ExceptT ξ Go α) R Q :=
  Outline.Triple.strengthen Firm.stable h Outline.Triple.pureE

theorem throw_rule [Firm t P] {err : ξ} (h : ∀ s, Inv s → P s → Q s) :
    MeetsE cfg t P (throw err : ExceptT ξ Go α) R Q :=
  Outline.Triple.strengthen Firm.stable h Outline.Triple.throwE

theorem result_rule [Firm t P] (r : Except ξ α) : Meets cfg t P (pure r) (Outline.Post (fun _ => P) P) :=
  ret_rule fun _ _ hp => by cases r <;> exact hp

theorem use_rule [Firm t P] {x : Go α} (h : ∀ s, Inv s → P s → Q s)
    (hx : Meets cfg t Q x R) : Meets cfg t P x R :=
  Outline.Triple.strengthen Firm.stable h hx

theorem fail_rule {x : Go (Except ξ α)} {E : System → Prop} [∀ a, Firm t (R a)] [Firm t E]
    (hx : Meets cfg t P x (Outline.Post R E)) (h : ∀ s, Inv s → E s → Q s) :
    Meets cfg t P x (Outline.Post R Q) := by
  refine Outline.Triple.weaken (fun _ => Firm.stable) (fun r s hi hr => ?_) hx
  cases r with
  | ok a => exact hr
  | error err => exact h s hi hr

theorem keep_rule [Firm t P] {f : Nat → Answer → System → Option (Op × Except ξ α)}
    (h : ∀ {s i o a}, Inv s → P s → f t i s = some (o, a) → o.Guard cfg s t ∧ o.quiet = true) :
    Meets cfg t P (Proc.step f) (Outline.Post (fun _ => P) P) := by
  refine quiet_rule fun {s i o a} hi hp hf => ?_
  obtain ⟨hg, hq⟩ := h hi hp hf
  cases a <;> exact ⟨hg, hq, hp⟩

end

namespace System

instance : Lasting fun s => s.serving = true := ⟨fun _ _ _ hl => hl.serving⟩

instance : Lasting fun s => s.closing = true := ⟨fun _ _ _ hl => hl.closing⟩

instance : Lasting fun s => s.Alive e := ⟨fun _ _ _ hl ha => (hl.ident e ha).1⟩

instance : Lasting fun s => s.Settled e := ⟨fun _ _ _ hl hs => ⟨(hl.ident e hs.1).1, hl.notLoading e hs.1 hs.2⟩⟩

instance {R : Nat → Prop} : Lasting fun s => s.Visited e R := ⟨fun _ _ _ hl => hl.visited e R⟩

instance {n : Notification} : Lasting fun s => s.Sent n := ⟨fun _ _ _ hl => hl.hist _⟩

instance {q : Nat} : Lasting fun s => q < s.nextQemu := ⟨fun _ _ _ hl hq => (hl.qemu q hq).1⟩

def Names (s : System) (e : Nat) (id : String) : Prop := s.Alive e ∧ (s.record e).id = id

instance {id : String} : Lasting fun s => s.Names e id :=
  ⟨fun _ _ _ hl hs => ⟨(hl.ident e hs.1).1, (hl.ident e hs.1).2.1.trans hs.2⟩⟩

def Reads (s : System) (e : Nat) (r : VM) : Prop := s.Alive e ∧ (s.record e).id = r.id ∧ (s.record e).spec = r.spec

instance {r : VM} : Lasting fun s => s.Reads e r :=
  ⟨fun _ _ _ hl hs =>
    have hid := hl.ident e hs.1
    ⟨hid.1, hid.2.1.trans hs.2.1, hid.2.2.trans hs.2.2⟩⟩

theorem Reads.names {r : VM} (h : s.Reads e r) : s.Names e r.id := ⟨h.1, h.2.1⟩

instance {n : Nat} {name : String} : Lasting fun s => s.Called n name := ⟨fun _ _ _ hl => hl.called n name⟩

def Joins (s : System) (e n : Nat) : Prop := s.Alive e ∧ s.Called n (s.record e).spec.network

instance {n : Nat} : Lasting fun s => s.Joins e n :=
  ⟨fun _ _ _ hl hs => by
    obtain ⟨ha, -, hspec⟩ := hl.ident e hs.1
    exact ⟨ha, by rw [hspec]; exact hl.called n _ hs.2⟩⟩

def Installed (s : System) (e : Nat) : Prop := s.Alive e ∧ (s.record e).installedAt ≠ none

instance : Lasting fun s => s.Installed e := ⟨fun _ _ _ hl hs => ⟨(hl.ident e hs.1).1, hl.installed e hs.1 hs.2⟩⟩

theorem Yields.releases (h : s.Yields t e) {id : String} (hid : s.Names e id) : s.Releases t id := ⟨e, hid.2, h⟩

theorem settled_of_serving (hi : Inv s) (hs : s.serving = true) (ha : s.Alive e) : s.Settled e := by
  have hnone := (hi.loader (hi.serving hs)).2
  exact ⟨ha, by rw [hnone]; simp⟩

def Dropped (s : System) (p : Nat) : Prop := p < s.nextProc ∧ ∀ e, (s.entries e).proc ≠ some p

instance : Lasting fun s => s.Dropped p := ⟨fun _ _ _ hl hs => ⟨(hl.proc p hs.1).1, hl.dropped p hs.1 hs.2⟩⟩

theorem Restored.of_keeps (hk : s'.host.networksFile = s.host.networksFile ∧
    ∀ st, s.Holds st → s'.Holds st) (h : s.Restored) : s'.Restored := fun st hst =>
  hk.2 st (h st (hk.1 ▸ hst))

instance {ids : Option (List String)} {at? : Option Nat} : Firm t fun s => s.Loads t ids at? where
  keeps _ _ _ hk hs := by
    obtain ⟨h1, h2, h3⟩ := hk.loads hs.1
    exact ⟨h1, h2.trans hs.2.1, h3.trans hs.2.2.1, fun hids => (hs.2.2.2 hids).of_keeps (hk.restored hs.1)⟩

instance : Firm t fun s => s.Newest t e where
  keeps s s' _ hk h := by
    obtain ⟨hnext, hback⟩ := hk.made h.loader
    refine ⟨(hk.loads h.loader).1, (hk.later.ident e h.alive).1, h.next.trans hnext.symm,
      fun e' ha hne => hk.later.acts t _ (h.others e' (hback e' ha) hne)⟩

instance : Firm t fun s => s.WrittenBack t where
  keeps s s' _ hk h := by
    obtain ⟨-, hback⟩ := hk.made h.1
    exact ⟨(hk.loads h.1).1, fun e' ha => hk.later.acts t _ (h.2 e' (hback e' ha))⟩

instance : Firm t fun s => s.Follows t e p where
  keeps s s' h hk hs := by
    obtain ⟨h1, h2, h3, h4⟩ := hs
    obtain ⟨hp, -, -, hh, -⟩ := hk.later.proc p h3
    refine ⟨hk.supervises e p h1, Lasting.later (P := fun s => s.Settled e) s s' h hk.later h2, hp, ?_⟩
    rw [hh]
    exact (hk.later.qemu _ h4).1

end System

structure Locked (t e : Nat) (s : System) : Prop where
  opMu : (s.entries e).opMu = some t
  alive : s.Alive e
  covered : s.Covered e
  gone : (s.record e).state = .deleting → ¬ s.Present e

structure Owned (t e : Nat) (s : System) : Prop where
  owner : (s.entries e).owner = some t
  settled : s.Settled e
  kept : s.Kept e
  serving : s.serving = true

structure Startable (t e : Nat) (phase : Phase) (s : System) : Prop where
  vacant : s.Vacant t e
  ready : s.Ready t e phase
  kept : s.Kept e
  inTime : s.InTime e
  gone : (s.record e).state = .deleting → ¬ s.Present e
  serving : phase = .install → s.serving = true

structure Attached (t e : Nat) (phase : Phase) (n : Nat) (ip : Network.Addr) (s : System) : Prop where
  startable : Startable t e phase s
  lease : s.lease e = some (n, ip)

structure Prepared (t e : Nat) (phase : Phase) (s : System) : Prop where
  startable : Startable t e phase s
  equipped : s.Equipped e phase

structure AtCID (t e cid : Nat) (s : System) : Prop where
  opMu : (s.entries e).opMu = some t
  alive : s.Alive e
  cid : (s.record e).cid = cid

structure Started (t e : Nat) (phase : Phase) (q : Nat) (s : System) : Prop where
  opMu : (s.entries e).opMu = some t
  alive : s.Alive e
  proc : (s.entries e).proc = none
  only : ∀ q', s.Unsettled e q' → q' = q
  ready : s.Ready t e phase
  kept : s.Kept e
  inTime : s.InTime e
  gone : (s.record e).state = .deleting → ¬ s.Present e
  lt : q < s.nextQemu
  entry : (s.qemus q).entry = e
  equipped : s.Equipped e phase
  phase : (s.qemus q).phase = phase

structure Deleting (t e : Nat) (p : Option Nat) (s : System) : Prop where
  opMu : (s.entries e).opMu = some t
  alive : s.Alive e
  covered : s.Covered e
  deleting : (s.record e).state = .deleting
  kept : s.Kept e
  proc : (s.entries e).proc = p ∨ (s.entries e).proc = none
  serving : s.serving = true

/-- The assertion is about an entry whose lock the goroutine holds, and lasts as long as the entry is
steady. -/
class Held (t : outParam Nat) (e : outParam Nat) (P : System → Prop) : Prop where
  opMu : ∀ s, P s → (s.entries e).opMu = some t
  steady : ∀ s s', Inv s → Steady s s' e → Later s s' → P s → P s'

theorem Held.firm [hP : Held t e P] : Firm t P where
  keeps s s' hi hk hp := hP.steady s s' hi (hk.steady e (hP.opMu s hp)) hk.later hp

instance [Held t e P] [Lasting Q] : Held t e fun s => P s ∧ Q s where
  opMu s hp := Held.opMu s hp.1
  steady s s' hi hs hl hp := ⟨Held.steady s s' hi hs hl hp.1, Lasting.later s s' hi hl hp.2⟩

namespace Steady
variable (hs : Steady s s' e)
include hs

theorem vacant (hl : Later s s') (h : s.Vacant t e) : s'.Vacant t e := by
  refine ⟨hs.opMu.trans h.1, (hl.ident e h.2.1).1, ?_, fun q hq => ?_⟩
  · rcases hs.proc with hp | hp
    · rw [hp]; exact h.2.2.1
    · exact hp
  · exact h.2.2.2 q (hs.unsettled q hq).1

theorem ready (h : s.Ready t e phase) : s'.Ready t e phase := by
  cases phase with
  | install => exact hs.owner.trans h
  | boot =>
    exact ⟨hs.owner.trans h.1, hs.installed h.2.1, fun hd => h.2.2 (hs.deleting.1 hd)⟩

theorem keeps (h : s.Kept e) : s'.Kept e := fun ho => hs.kept ho (h (hs.overtaken ho))

theorem gone (h : (s.record e).state = .deleting → ¬ s.Present e) :
    (s'.record e).state = .deleting → ¬ s'.Present e := fun hd hp =>
  h (hs.deleting.1 hd) (hs.present hp)

theorem inTime (hi : Inv s) (h : s.InTime e) : s'.InTime e := by
  intro _ hl
  rw [hs.late] at hl
  have ho := h ((hi.entry e).late hl) hl
  by_contra hn
  cases (hs.overtaken (Bool.eq_false_iff.2 hn)).symm.trans ho

end Steady

theorem Keeps.equipped (hk : Keeps t s s') (hc : s.InCharge t e) (h : s.Equipped e phase) : s'.Equipped e phase := by
  rw [Equipped, hk.lease e hc, hk.starting e hc]
  exact h

instance : Held t e (Locked t e) where
  opMu _ h := h.opMu
  steady _ _ _ hs hl h := ⟨hs.opMu.trans h.opMu, (hl.ident e h.alive).1, hs.covered h.covered, hs.gone h.gone⟩

instance : Firm t (Locked t e) := Held.firm

instance : Firm t (Owned t e) where
  keeps s s' hi hk h :=
    ⟨(hk.owns e h.owner).1, Lasting.later (P := fun s => s.Settled e) s s' hi hk.later h.settled,
      (hk.owns e h.owner).2 h.kept, hk.later.serving h.serving⟩

instance {phase : Phase} : Held t e (Startable t e phase) where
  opMu _ h := h.vacant.1
  steady _ _ hi hs hl h :=
    ⟨hs.vacant hl h.vacant, hs.ready h.ready, hs.keeps h.kept, hs.inTime hi h.inTime, hs.gone h.gone,
      fun hph => hl.serving (h.serving hph)⟩

instance {phase : Phase} : Firm t (Startable t e phase) := Held.firm

instance {phase : Phase} {n : Nat} {ip : Network.Addr} : Firm t (Attached t e phase n ip) where
  keeps s s' hi hk h := ⟨Firm.keeps s s' hi hk h.startable, (hk.lease e (.inl h.startable.vacant.1)).trans h.lease⟩

instance {phase : Phase} : Firm t (Prepared t e phase) where
  keeps s s' hi hk h := ⟨Firm.keeps s s' hi hk h.startable, hk.equipped (.inl h.startable.vacant.1) h.equipped⟩

instance {cid : Nat} : Firm t (AtCID t e cid) where
  keeps _ _ _ hk h :=
    ⟨(hk.steady e h.opMu).opMu.trans h.opMu, (hk.later.ident e h.alive).1, (hk.cid e h.alive (.inl h.opMu)).trans h.cid⟩

instance {phase : Phase} {q : Nat} : Firm t (Started t e phase q) where
  keeps s s' hi hk h := by
    have hs := hk.steady e h.opMu
    obtain ⟨hlt, hentry, hphase, -⟩ := hk.later.qemu q h.lt
    refine ⟨hs.opMu.trans h.opMu, (hk.later.ident e h.alive).1, ?_,
      fun q' hq' => h.only q' (hs.unsettled q' hq').1, hs.ready h.ready, hs.keeps h.kept,
      hs.inTime hi h.inTime, hs.gone h.gone, hlt, hentry.trans h.entry,
      hk.equipped (.inl h.opMu) h.equipped, hphase.trans h.phase⟩
    rcases hs.proc with hp | hp
    · exact hp.trans h.proc
    · exact hp

instance {p : Option Nat} : Held t e (Deleting t e p) where
  opMu _ h := h.opMu
  steady s s' _ hs hl h := by
    refine ⟨hs.opMu.trans h.opMu, (hl.ident e h.alive).1, hs.covered h.covered,
      hs.deleting.2 h.deleting, hs.keeps h.kept, ?_, hl.serving h.serving⟩
    rcases hs.proc with hp | hp
    · rw [hp]; exact h.proc
    · exact .inr hp

instance {p : Option Nat} : Firm t (Deleting t e p) := Held.firm

theorem System.Covered.none (h : s.Covered e) (hp : (s.entries e).proc = none) (q : Nat) :
    ¬ s.Unsettled e q := by
  intro hu
  obtain ⟨p, hp', -⟩ := h q hu
  cases hp.symm.trans hp'

theorem Startable.locked (h : Startable t e phase s) : Locked t e s :=
  ⟨h.vacant.1, h.vacant.2.1, fun q hq => absurd hq (h.vacant.2.2.2 q), h.gone⟩

theorem Deleting.vacant (h : Deleting t e none s) : s.Vacant t e :=
  have hp : (s.entries e).proc = none := h.proc.elim id id
  ⟨h.opMu, h.alive, hp, h.covered.none hp⟩

theorem Locked.startable (hi : Inv s) (h : Locked t e s) (hp : (s.entries e).proc = none)
    (hd : (s.record e).state ≠ .deleting) (hins : (s.record e).installedAt ≠ none)
    (hc : s.closing = false) : Startable t e .boot s := by
  have howner : (s.entries e).owner = none := by
    by_contra hn
    obtain ⟨t', ht'⟩ := Option.ne_none_iff_exists'.1 hn
    exact hins ((hi.entry e).owner t' ht').2.1
  refine ⟨⟨h.opMu, h.alive, hp, h.covered.none hp⟩, ⟨howner, hins, hd⟩, fun ho => ?_,
    fun hx => (nomatch hc.symm.trans hx), h.gone, nofun⟩
  by_contra hn
  rcases ((hi.entry e).gone ho h.alive hn).2.2 with hx | hx
  · exact hd hx
  · exact hx howner

theorem Locked.of_lock (hi : Inv s) (hg : (Op.lock e).Guard cfg s t) :
    Locked t e (s.effect t (.lock e)) := by
  have hk := hi.keeps (t := t) hg (.inr rfl)
  obtain ⟨hm, ha, -⟩ := hg
  refine ⟨by simp [effect, apply, modifyEntry], (hk.later.ident e ha).1, ?_, ?_⟩
  · rintro q ⟨-, hq⟩
    obtain ⟨p, hp, hpq⟩ := (hi.entry e).covered hm q ⟨ha, hq⟩
    exact ⟨p, by simpa [effect, apply, modifyEntry] using hp, hpq⟩
  · intro hd hp
    refine (hi.entry e).deleting ?_ hm (hk.later.present e ha hp)
    simpa [effect, apply, modifyEntry, System.record] using hd

theorem Owned.startable (hi : Inv s) (h : Owned t e s) (hg : (Op.lock e).Guard cfg s t) :
    Startable t e .install (s.effect t (.lock e)) := by
  have hl := Locked.of_lock hi hg
  have hown : Owned t e (s.effect t (.lock e)) := Firm.quiet hi hg rfl h
  have hp : ((s.effect t (.lock e)).entries e).proc = none := by
    simpa [effect, apply, modifyEntry] using ((hi.entry e).owner t h.owner).1
  refine ⟨⟨hl.opMu, hl.alive, hp, hl.covered.none hp⟩, hown.owner, hown.kept, fun hc _ => ?_, hl.gone,
    fun _ => hown.serving⟩
  have hc' : s.closing = true := hc
  simp [effect, apply, h.owner, hc']

theorem lock_rule [Firm t P] (hP : ∀ s, Inv s → P s → s.Settled e)
    (hQ : ∀ s, Inv s → P s → (Op.lock e).Guard cfg s t → Q (s.effect t (.lock e))) :
    Meets cfg t P (lock e) fun _ => Q := by
  refine step_rule fun {s i o a} hi hp hf => ?_
  split at hf <;> cases hf
  rename_i hm
  have hg : (Op.lock e).Guard cfg s t := ⟨hm, hP s hi hp⟩
  exact ⟨hg, hQ s hi hp hg⟩

theorem unlock_rule [Firm t P] [hQ : Lasting Q] (h : ∀ s, Inv s → P s → Locked t e s ∧ Q s) :
    Meets cfg t P (unlock e) fun _ => Q := by
  have hg : ∀ s, Inv s → P s → (Op.unlock e).Guard cfg s t := fun s hi hp =>
    have hl := (h s hi hp).1
    ⟨hl.opMu, hl.covered, hl.gone⟩
  exact perform_rule hg fun s hi hp => hQ.later s _ hi (hi.later (hg s hi hp)) (h s hi hp).2

end VmManager.Vm
