import VmManager.Interleaving.Monitor
import VmManager.Vm.ServiceSpec

/-! What a goroutine owes to the networks, to networks.json and to the metadata servers, read off what
it has done. The programs settle it before they return; that is their shape and needs nothing of the
state they run in. -/
namespace VmManager.Vm
open Encoding Attest Interleaving Interleaving.Monitor List Vm.System Option
open Interleaving.Outline (Post)
variable {K : System → Event → Prop} {pool : Pool} {f : Nat → Answer → System → Option (Op × α)} {o : Op}
  {P : Books → Prop} {c : Prop} {phase : Phase} {cid tpm q : Nat} {name err : String}
  {source : Network.Addr} {es ks : List Nat} {req : QuoteRequest} {states : List Network.State}

/-- What a goroutine has of a process it starts and has not tracked. -/
structure Start where
  /-- The swtpm it has started and not told to stop. -/
  tpm : Option Nat := none
  /-- The entry and the CID of the subscription it has made and not ended. -/
  sub : Option (Nat × Nat) := none
  /-- The record has moved to another CID since. -/
  moved : Bool := false
  qemu : Option Nat := none

namespace Start

def begun (e tpm cid : Nat) (moved : Bool) : Phase → Start
  | .install => { tpm := some tpm }
  | .boot => { tpm := some tpm, sub := some (e, cid), moved := moved }

def Subscribed (st : Start) (e : Nat) : Phase → Prop
  | .install => st.sub = none
  | .boot => ∃ cid, st.sub = some (e, cid) ∧ st.moved = false

def enter (st : Start) : Op → Start
  | .host (.startTPM _ tpm) => { st with tpm := some tpm }
  | .host (.stopTPM _) => { st with tpm := none }
  | .notify (.subscribe e cid) => { st with sub := some (e, cid), moved := false }
  | .notify (.unsubscribe (.start _) _) => { st with sub := none, moved := false }
  | .update _ (.reassigned _) => { st with moved := st.sub.isSome }
  | .runtimeStart _ _ _ q => { st with qemu := q }
  | .track .. | .reattach .. => {}
  | _ => st

structure Fits (st : Start) (e : Nat) (phase : Phase) (h : Processes) : Prop where
  tpm : st.tpm = h.tpm
  qemu : st.qemu = some h.qemu
  subscribed : st.Subscribed e phase

end Start

structure Books where
  /-- It has made an entry and not recorded a lease for it. -/
  creating : Bool := false
  /-- It has changed the networks and not written networks.json since. -/
  dirty : Bool := false
  /-- The networks it has added and not seen a metadata server for. -/
  unserved : List String := []
  /-- It has given up a network it added, or did not get one torn down cleanly. -/
  gaveUp : Bool := false
  /-- The metadata servers it has taken out of the service. -/
  retired : List Nat := []
  /-- It has given back a lease. -/
  released : Bool := false
  /-- It has removed the directory of a VM. -/
  wiped : Bool := false
  /-- The port forwards in its hands: it has opened them and not put them into the list of an entry, or
  taken them from one and not closed them. -/
  holding : List Nat := []
  /-- The process start it is at. -/
  start : Start := {}
  /-- The process whose subscription it has ended and that is still its entry's. -/
  left : Option Nat := none
  /-- It runs Load and is not done. -/
  loading : Bool := false

def ForwardOp.left (ks : List Nat) : ForwardOp → List Nat
  | .opened _ k => k :: ks
  | .register _ k | .close k => ks.erase k

def Update.endsStart : Update → Bool
  | .failed _ | .reattachFailed _ => true
  | _ => false

namespace Books

def withStart (b : Books) (st : Start) : Books := { b with start := st }

def served (b : Books) (name : String) : Books :=
  { b with unserved := b.unserved.filter fun x => x != name }

def forsaken (b : Books) (name : String) : Books :=
  { b.served name with gaveUp := b.gaveUp || b.unserved.contains name }

/-- What a goroutine owes to the networks and the forwards after an operation. -/
def note (b : Books) : Op → Books
  | .allocate .. => { b with creating := true }
  | .update _ (.leased ..) => { b with creating := false }
  | .net (.attach ..) => { b with dirty := b.dirty || b.creating }
  | .net (.detach ..) => { b with dirty := true, released := true }
  | .net (.add spec _) =>
    { b with dirty := b.dirty || !b.loading, unserved := spec.name :: b.unserved }
  | .net (.serve name _) | .net (.running name) => b.served name
  | .net (.keep name) => b.forsaken name
  | .net (.delete name _ clean) =>
    { b.forsaken name with dirty := true, gaveUp := (b.forsaken name).gaveUp || !clean }
  | .net (.unserve _ srv) => { b with retired := srv.toList ++ b.retired }
  | .net (.closeServers ks) => { b with retired := ks ++ b.retired }
  | .host (.writeNetworks _) | .host .writeFailed => { b with dirty := false }
  | .removeDir _ => { b with wiped := true }
  | .release _ ks => { b with holding := ks }
  | .forward o => { b with holding := o.left b.holding }
  | .loadNetworks _ => { b with loading := true }
  | .loaded => { b with loading := false }
  | _ => b

def leaves (b : Books) : Op → Option Nat
  | .notify (.unsubscribe (.exit p) _) => some p
  | .exited .. => none
  | _ => b.left

def enter (b : Books) (o : Op) : Books :=
  { b.note o with start := b.start.enter o, left := b.leaves o }

def Settled (b : Books) : Prop := b.loading = true ∨ (b.unserved = [] ∧ (b.gaveUp = true ∨ b.dirty = false))

def Through (b : Books) : Prop := b.Settled ∧ b.holding = []

def Allows (b : Books) : Op → Prop
  | .returned => b.Through
  | .loaded => b.unserved = [] ∧ b.dirty = false
  | .lock _ | .host (.writeFile _) | .host (.writeUserData ..) => b.wiped = false
  | .update _ u => b.wiped = false ∧ (u.endsStart = true → b.start = {})
  | .track e phase h => b.wiped = false ∧ (phase = .install → b.released = false) ∧ b.start.Fits e phase h
  | .reattach e phase _ => b.start.tpm = none ∧ b.start.qemu = none ∧ b.start.Subscribed e phase
  | .supervise .. => b.left = none
  | .exited _ p _ _ _ => b.left = none ∨ b.left = some p
  | .host (.startTPM ..) => b.start.tpm = none
  | .host (.stopTPM tpm) => b.start.tpm = none ∨ b.start.tpm = some tpm
  | .notify (.subscribe ..) => b.start.sub = none ∧ b.start.qemu = none
  | .notify (.unsubscribe (.start e) cid) => b.start.sub = some (e, cid)
  | .notify (.unsubscribe (.exit _) _) => b.left = none
  | .runtimeStart e .boot cid _ => b.start.qemu = none ∧ b.start.sub = some (e, cid)
  | .runtimeStart _ .install _ _ => b.start.qemu = none ∧ b.start.sub = none
  | .net (.shutdown k) => k ∈ b.retired
  | .deleteReturns .. => b.holding = []
  | .unlock _ | .release .. => b.holding = [] ∧ b.start = {}
  | _ => True

structure Plain (b : Books) : Prop where
  creating : b.creating = false
  released : b.released = false
  wiped : b.wiped = false
  holding : b.holding = []
  start : b.start = {}
  left : b.left = none

end Books

def Call.Books : Call → Books → Prop
  | .waitFor _ _ => Books.Through
  | _ => fun b => b = {}

def books : Monitor Call Op Books where
  init := {}
  next := Books.enter
  allows := Books.Allows
  pre := Call.Books

def Op.plain : Op → Bool
  | .returned | .loaded | .loadNetworks _ | .allocate .. | .removeDir _ | .release .. => false
  | .forward _ | .notify (.subscribe ..) | .notify (.unsubscribe (.start _) _) => false
  | .notify (.unsubscribe (.exit _) _) => false
  | .runtimeStart .. | .track .. | .reattach .. => false
  | .net (.attach ..) | .net (.check ..) => true
  | .net _ => false
  | .host (.writeNetworks _) | .host .writeFailed | .host (.startTPM ..) => false
  | _ => true

theorem Books.Plain.enter {b : Books} (hb : b.Plain) (ho : o.plain = true) :
    b.Allows o ∧ b.enter o = b := by
  obtain ⟨hc, hr, hw, hf, hs, hl⟩ := hb
  cases o with
  | net o =>
    cases o with
    | attach =>
      have hd : (b.dirty || b.creating) = b.dirty := by rw [hc, Bool.or_false]
      exact ⟨trivial, congrArg (fun d => { b with dirty := d }) hd⟩
    | check => exact ⟨trivial, rfl⟩
    | _ => cases ho
  | host o =>
    cases o with
    | writeNetworks | writeFailed | startTPM => cases ho
    | writeFile | writeUserData => exact ⟨hw, rfl⟩
    | stopTPM tpm =>
      have ht : b.start.tpm = none := by rw [hs]
      exact ⟨.inl ht, congrArg (fun x => { b with start.tpm := x }) ht.symm⟩
    | _ => exact ⟨trivial, rfl⟩
  | update e u =>
    refine ⟨⟨hw, fun _ => hs⟩, ?_⟩
    cases u with
    | leased => exact congrArg (fun c => { b with creating := c }) hc.symm
    | reassigned =>
      have hm : b.start.sub.isSome = b.start.moved := by rw [hs]; rfl
      exact congrArg (fun m => { b with start.moved := m }) hm
    | _ => rfl
  | notify o =>
    cases o with
    | subscribe => cases ho
    | unsubscribe why cid =>
      cases why with
      | detach => exact ⟨trivial, rfl⟩
      | _ => cases ho
    | _ => exact ⟨trivial, rfl⟩
  | lock => exact ⟨hw, rfl⟩
  | unlock => exact ⟨⟨hf, hs⟩, rfl⟩
  | deleteReturns => exact ⟨hf, rfl⟩
  | supervise => exact ⟨hl, rfl⟩
  | exited => exact ⟨.inl hl, congrArg (fun l => { b with left := l }) hl.symm⟩
  | returned | loaded | loadNetworks | allocate | removeDir | release | forward | runtimeStart
  | track | reattach => cases ho
  | _ => exact ⟨trivial, rfl⟩

variable {b : Books} {α β : Type} {e p n t : Nat} {id : String}

def Calm (b : Books) (x : Go α) : Prop := books.Leads b x fun _ b' => b' = b

namespace Calm

theorem pure {a : α} : Calm b (Pure.pure a : Go α) := Leads.pure rfl

theorem bind {x : Go α} {f : α → Go β} (hx : Calm b x) (hf : ∀ a, Calm b (f a)) : Calm b (x >>= f) :=
  Leads.bind hx fun a _ hb => hb ▸ hf a

theorem bindE {x : GoE α} {f : α → GoE β} (hx : Calm b x.run) (hf : ∀ a, Calm b (f a).run) :
    Calm b (x >>= f).run := by
  have hbind : Calm b (x.run >>= ExceptT.bindCont f) := by
    refine bind hx fun r => ?_
    cases r with
    | ok a => exact hf a
    | error err => exact pure
  exact hbind

theorem pureE {a : α} : Calm b (Pure.pure a : GoE α).run := pure

theorem throwE {err : String} : Calm b (throw err : GoE α).run := pure

theorem liftE {x : Go α} (hx : Calm b x) : Calm b (ExceptT.lift x : GoE α).run := by
  have hbind : Calm b (x >>= fun a => (Pure.pure (Except.ok a) : Go (Except String α))) := bind hx fun _ => pure
  exact hbind

theorem ite [Decidable c] {x y : Go α} (hx : Calm b x) (hy : Calm b y) : Calm b (if c then x else y) :=
  Leads.ite (fun _ => hx) fun _ => hy

theorem iteE [Decidable c] {x y : GoE α} (hx : Calm b x.run) (hy : Calm b y.run) :
    Calm b (if c then x else y).run := by
  split
  · exact hx
  · exact hy

theorem step (h : ∀ {t i s o a}, f t i s = some (o, a) → b.Allows o ∧ b.enter o = b) : Calm b (Proc.step f) :=
  Leads.step h

theorem read (h : ∀ {t i s o a}, f t i s = some (o, a) → o = .read) : Calm b (Proc.step f) := by
  refine step fun hf => ?_
  rw [h hf]
  exact ⟨trivial, rfl⟩

theorem plain (hb : b.Plain) (h : ∀ {t i s o a}, f t i s = some (o, a) → o.plain = true) : Calm b (Proc.step f) :=
  step fun hf => hb.enter (h hf)

theorem perform (h : b.Allows o ∧ b.enter o = b) : Calm b (perform o) := by
  refine step fun hf => ?_
  cases hf
  exact h

theorem look {f : System → α} : Calm b (look f) := read (by grind)

theorem withManager {f : System → α} : Calm b (withManager f) := read (by grind)

theorem leads {x : Go α} (hx : Calm b x) {Q : α → Books → Prop} (h : ∀ a, Q a b) : books.Leads b x Q :=
  .weaken hx fun a _ hb => hb ▸ h a

theorem post {x : GoE α} (hx : Calm b x.run) : books.Leads b x.run (Post (fun _ b' => b' = b) fun b' => b' = b) :=
  hx.leads fun r => by cases r <;> rfl

theorem of_post {x : GoE α} (hx : books.Leads b x.run (Post (fun _ b' => b' = b) fun b' => b' = b)) : Calm b x.run :=
  .total hx

theorem before {x : Go α} {f : α → Go β} {Q : β → Books → Prop} (hx : Calm b x)
    (hf : ∀ a, books.Leads b (f a) Q) : books.Leads b (x >>= f) Q :=
  .bind hx fun a _ hb => hb ▸ hf a

theorem beforeE {x : GoE α} {f : α → GoE β} {Q : β → Books → Prop}
    (hx : Calm b x.run) (hP : P b) (hf : ∀ a, books.Leads b (f a).run (Post Q P)) :
    books.Leads b (x >>= f).run (Post Q P) := by
  refine .bindE (Q := fun _ b' => b' = b) (hx.leads fun r => ?_) fun a _ hb => hb ▸ hf a
  cases r with
  | ok => rfl
  | error => exact hP

theorem beforeL {x : Go α} {f : α → GoE β} {Q : β → Books → Prop} (hx : Calm b x)
    (hf : ∀ a, books.Leads b (f a).run (Post Q P)) : books.Leads b (ExceptT.lift x >>= f).run (Post Q P) :=
  .bindE (.liftE hx) fun a _ hb => hb ▸ hf a

end Calm

/-! The programs that owe nothing, whatever the books. -/
section Calm

theorem getNetwork_calm : Calm b (getNetwork name).run := Calm.withManager

theorem lookupEntry_calm : Calm b (lookupEntry id).run := Calm.look

theorem acquireVolume_calm : Calm b (acquireVolume id).run := .read (by grind)

theorem createVolume_calm : Calm b (createVolume id).run := by
  refine .step fun hf => ?_
  split at hf
  · split at hf <;> cases hf
    exact ⟨trivial, rfl⟩
  · cases hf
    exact ⟨trivial, rfl⟩
  · cases hf

theorem closeVolume_calm : Calm b (closeVolume e) := Calm.perform ⟨trivial, rfl⟩

theorem deleteVolume_calm : Calm b (deleteVolume id) := by
  refine .step fun hf => ?_
  split at hf <;> cases hf <;> exact ⟨trivial, rfl⟩

theorem openVolume_calm : Calm b (openVolume e).run := by
  refine .bindE (.liftE .look) fun isOpen => .iteE .pureE ?_
  refine .bindE (.liftE .look) fun r => .bindE acquireVolume_calm fun _ => ?_
  exact .liftE (.perform ⟨trivial, rfl⟩)

theorem awaitExit_calm {p : Nat} : Calm b (awaitExit p).run := .read (by grind [map_eq_some_iff])

theorem stopProcess_calm {p : Nat} : Calm b (stopProcess p) := by
  refine .bind (.bind awaitExit_calm fun r => ?_) fun _ => .read (by grind)
  cases r with
  | ok => exact .pure
  | error err => exact .bind awaitExit_calm fun _ => .pure

theorem stopIfRunning_calm {p : Option Nat} : Calm b (stopIfRunning p) := by
  cases p with
  | none => exact .pure
  | some p => exact stopProcess_calm

theorem attachTPM_calm {tpm : Option Nat} : Calm b (attachTPM tpm) := .read (by grind)

theorem attachQemu_calm : Calm b (attachQemu q).run := .read (by grind)

theorem resumeStop_calm {p : Nat} {state : State} : Calm b (resumeStop p state) := by
  refine .ite (.spawn fun hf => ?_) .pure
  cases hf
  refine ⟨trivial, fun c hc => ?_, rfl⟩
  rw [mem_singleton.1 hc]
  exact rfl

theorem resolveInstance_calm : Calm b (resolveInstance source) := .read (by grind [map_eq_some_iff])

end Calm

/-! The start of a process, which fills the books until it is tracked or given up. -/
section Start

theorem subscribe_books (hs : b.start.sub = none) (hq : b.start.qemu = none) :
    books.Leads b (subscribe e phase cid) fun _ b' =>
      b' = match phase with
        | .install => b
        | .boot => b.enter (.notify (.subscribe e cid)) := by
  refine .ite (fun hph => .step fun hf => ?_) fun hph => .pure ?_
  · subst hph
    cases hf
    exact ⟨⟨hs, hq⟩, rfl⟩
  · cases phase with
    | install => rfl
    | boot => exact absurd rfl hph

theorem abandonStart_books {moved : Bool} :
    books.Leads (b.withStart (.begun e tpm cid moved phase)) (abandonStart e phase tpm cid) fun _ b' =>
      b' = b.withStart {} := by
  refine .bind (Q := fun _ b' => b' = b.withStart { Start.begun e tpm cid moved phase with tpm := none })
    (.step fun hf => ?_) fun _ b₁ hb₁ => ?_
  · cases hf
    cases phase <;> exact ⟨.inr rfl, rfl⟩
  subst hb₁
  refine .ite (fun hph => .step fun hf => ?_) fun hph => .pure ?_
  · subst hph
    cases hf
    exact ⟨rfl, rfl⟩
  · cases phase with
    | install => rfl
    | boot => exact absurd rfl hph

theorem startFailed_books
    {R : Processes → Books → Prop} : books.Leads (b.withStart (.begun e tpm cid false phase))
      (startFailed e phase tpm cid err).run (Post R fun b' => b' = b.withStart {}) :=
  .bindE (.liftE abandonStart_books) fun _ _ hb => .throwE hb

theorem runtimeStart_books :
    books.Leads (b.withStart (.begun e tpm cid false phase)) (runtimeStart e phase cid) fun r b' =>
      b' = match r with
        | .ok q => b.withStart { Start.begun e tpm cid false phase with qemu := some q }
        | .error _ => b.withStart (.begun e tpm cid false phase) := by
  refine .step fun hf => ?_
  split at hf <;> cases hf <;> cases phase <;> exact ⟨⟨rfl, rfl⟩, rfl⟩

theorem Start.fits_begun :
    Fits { Start.begun e tpm cid false phase with qemu := some q } e phase ⟨q, some tpm⟩ := by
  cases phase with
  | install => exact ⟨rfl, rfl, rfl⟩
  | boot => exact ⟨rfl, rfl, cid, rfl, rfl⟩

variable (hw : b.wiped = false)
include hw

theorem nextCID_books :
    books.Leads (b.withStart (.begun e tpm cid false phase)) (nextCID e phase tpm cid err).run
      (Post (fun next b' => b' = b.withStart (.begun e tpm next false phase))
        fun b' => b' = b.withStart {}) := by
  refine .bindE (Q := fun _ b' => b' = b.withStart (.begun e tpm cid true phase))
    (.liftE (.step fun hf => ?_)) fun r b₁ hb₁ => ?_
  · cases hf
    refine ⟨⟨hw, nofun⟩, ?_⟩
    cases phase <;> rfl
  subst hb₁
  cases r with
  | error rerr =>
    exact .bindE (.liftE abandonStart_books) fun _ _ hb =>
      .throwE hb
  | ok next =>
    cases phase with
    | install => exact .pureE rfl
    | boot =>
      refine .bindE (Q := fun _ b' => b' = b.withStart { tpm := some tpm })
        (.liftE (.step fun hf => ?_)) fun _ b₂ hb₂ => ?_
      · cases hf
        exact ⟨rfl, rfl⟩
      subst hb₂
      refine .bindE (Q := fun _ b' => b' = b.withStart (.begun e tpm next false .boot))
        (.liftE (.step fun hf => ?_)) fun _ b₃ hb₃ => .pureE hb₃
      cases hf
      exact ⟨⟨rfl, rfl⟩, rfl⟩

theorem startQemu_books (e tpm retries cid : Nat) (phase : Phase) :
    books.Leads (b.withStart (.begun e tpm cid false phase)) (startQemu e phase tpm retries cid).run
      (Post (fun h b' => ∃ st : Start, st.Fits e phase h ∧ b' = b.withStart st)
        fun b' => b' = b.withStart {}) := by
  induction retries generalizing cid with
  | zero =>
    refine .bindE (.liftE runtimeStart_books) fun r b₁ hb₁ => ?_
    subst hb₁
    cases r with
    | ok q => exact .pureE ⟨_, Start.fits_begun, rfl⟩
    | error err => exact startFailed_books
  | succ retries ih =>
    refine .bindE (.liftE runtimeStart_books) fun r b₁ hb₁ => ?_
    subst hb₁
    cases r with
    | ok q => exact .pureE ⟨_, Start.fits_begun, rfl⟩
    | error err =>
      refine .ite (fun _ => ?_) fun _ => startFailed_books
      refine .bindE (nextCID_books hw) fun next b₂ hb₂ => ?_
      subst hb₂
      exact ih next

end Start

/-! The programs that make no VM and give none up. -/
section Plain

theorem Books.plain : Books.Plain {} := ⟨rfl, rfl, rfl, rfl, rfl, rfl⟩

variable (hb : b.Plain)
include hb
attribute [local grind] Op.plain

theorem perform_plain (ho : o.plain = true) : Calm b (perform o) := Calm.perform (hb.enter ho)

theorem lock_plain : Calm b (lock e) := .plain hb (by grind)

theorem attachNetwork_plain : Calm b (attachNetwork e n id).run := .plain hb (by grind)

theorem stopTPM_plain {tpm : Option Nat} : Calm b (stopTPM tpm) := by
  cases tpm with
  | none => exact .pure
  | some tpm => exact perform_plain hb rfl

theorem supervise_plain {p : Nat} : Calm b (supervise e p) := by
  refine .spawn fun hf => ?_
  cases hf
  refine ⟨hb.left, fun c hc => ?_, rfl⟩
  rw [mem_singleton.1 hc]
  exact rfl

theorem withStart_plain : b.withStart {} = b := by
  rw [← hb.start]
  rfl

theorem withLeft_plain : { b with left := none } = b := by
  rw [← hb.left]

theorem startProcess_books : books.Leads b (startProcess e phase).run
    (Post (fun h b' => ∃ st : Start, st.Fits e phase h ∧ b' = b.withStart st) fun b' => b' = b) := by
  refine Calm.beforeL Calm.look fun r => Calm.beforeE getNetwork_calm rfl fun n => ?_
  refine Calm.beforeE (attachNetwork_plain hb) rfl fun _ => ?_
  refine .bindE (Q := fun tpm b' => b' = b.withStart { tpm := some tpm })
    (.step fun {t i s o a} hf => ?_) fun tpm b₁ hb₁ => ?_
  · split at hf <;> cases hf
    · have ht : b.start.tpm = none := by rw [hb.start]
      have hst : { b.start with tpm := some s.host.nextTPM } = { tpm := some s.host.nextTPM } := by
        rw [hb.start]
      exact ⟨ht, congrArg b.withStart hst⟩
    · exact ⟨trivial, rfl⟩
  subst hb₁
  refine .bindE (Q := fun _ b' => b' = b.withStart (.begun e tpm r.cid false phase))
    (.liftE ?_) fun _ b₂ hb₂ => ?_
  · cases phase with
    | install => exact .pure rfl
    | boot => exact subscribe_books rfl rfl
  · subst hb₂
    have hstart := startQemu_books hb.wiped e tpm maxCIDRetries r.cid phase
    rw [withStart_plain hb] at hstart
    exact hstart

theorem track_books {e : Nat} {phase : Phase} {h : Processes} {st : Start} (hst : st.Fits e phase h) :
    books.Leads (b.withStart st) (track e phase h) fun _ b' => b' = b := by
  refine .step fun hf => ?_
  cases hf
  exact ⟨⟨hb.wiped, fun _ => hb.released, hst⟩, withStart_plain hb⟩

theorem startBoot_plain : Calm b (startBoot e).run := by
  refine .of_post (.bindE (startProcess_books hb) fun h b₁ hb₁ => ?_)
  obtain ⟨st, hst, rfl⟩ := hb₁
  refine .bindE (.liftE (track_books hb hst)) fun p b₂ hb₂ => ?_
  subst hb₂
  exact .liftE (supervise_plain hb)

theorem boot_plain : Calm b (boot e) := by
  refine .bind (lock_plain hb) fun _ => .bind (.plain hb (by grind)) fun ok => ?_
  cases ok with
  | true =>
    refine .bind (.bind (startBoot_plain hb) fun r => ?_) fun _ => perform_plain hb rfl
    cases r with
    | ok => exact .pure
    | error err => exact perform_plain hb rfl
  | false => exact perform_plain hb rfl

theorem onTimeout_plain {p : Nat} {c : Console} :
    Calm b (onTimeout cfg e p c) := .plain hb (by grind)

theorem onExit_plain {p : Nat} {exit : ExitStatus} {c : Console} :
    Calm b (onExit cfg e p exit c) := by
  refine .bind .look fun pr => .bind (stopTPM_plain hb) fun _ => ?_
  -- The subscription of an installed boot ends before its process does.
  refine Leads.bind (Q := fun _ b' => ∃ l, (l = none ∨ l = some p) ∧ b' = { b with left := l })
    (Leads.ite (fun _ => ?_) fun _ => Leads.pure ⟨_, .inl hb.left, rfl⟩) fun _ b₁ hb₁ => ?_
  · refine Leads.bind Calm.look fun r b₁ hb₁ => Leads.step fun hf => ?_
    subst hb₁
    cases hf
    exact ⟨hb.left, _, .inr rfl, rfl⟩
  obtain ⟨l, hl, rfl⟩ := hb₁
  refine .bind (Q := fun _ b' => b' = b) (.step fun hf => ?_)
    fun installed b₂ hb₂ => ?_
  · cases hf
    exact ⟨hl, withLeft_plain hb⟩
  subst hb₂
  exact Calm.bind (perform_plain hb rfl) fun _ => Calm.ite (boot_plain hb) Calm.pure

theorem startLocked_plain : Calm b (startLocked id e).run := by
  refine .bindE .look fun _ => .bindE openVolume_calm fun _ => ?_
  refine .bindE (.liftE (startBoot_plain hb)) fun r => ?_
  cases r with
  | ok => exact .pureE
  | error err => exact .bindE (.liftE (perform_plain hb rfl)) fun _ => .throwE

theorem start_plain : Calm b (start id).run := by
  refine .bindE lookupEntry_calm fun e => .bindE (.liftE (lock_plain hb)) fun _ => ?_
  refine .bindE (.liftE (startLocked_plain hb)) fun r => ?_
  exact .bindE (.liftE (perform_plain hb rfl)) fun _ => .pure

theorem stop_plain : Calm b (stop id).run :=
  .bindE lookupEntry_calm fun _ => .bindE (.plain hb (by grind)) fun _ => .liftE stopProcess_calm

theorem closeStop_plain {owner : Nat} : Calm b (closeStop e owner) := by
  refine .bind (lock_plain hb) fun _ => .bind .look fun r => ?_
  refine .bind (stop_plain hb) fun _ => .bind (perform_plain hb rfl) fun _ => ?_
  exact perform_plain hb rfl

theorem cancelAndWait_plain : Calm b cancelAndWait :=
  .bind (perform_plain hb rfl) fun _ => .read (by grind)

theorem stopAll_plain : Calm b (stopAll es) := by
  refine .bind (.spawn fun hf => ?_) fun _ =>
    .bind (.read (by grind)) fun _ => cancelAndWait_plain hb
  cases hf
  refine ⟨trivial, fun c hc => ?_, rfl⟩
  obtain ⟨e, -, rfl⟩ := List.mem_map.1 hc
  exact rfl

theorem waitStarts_plain : Calm b (waitStarts es) := by
  induction es with
  | nil => exact .pure
  | cons e rest ih =>
    exact .bind (lock_plain hb) fun _ => .bind (perform_plain hb rfl) fun _ => ih

theorem detachEach_plain : Calm b (detachEach es) := by
  induction es with
  | nil => exact .pure
  | cons e rest ih =>
    refine .bind (.bind .look fun x => ?_) fun _ => ih
    obtain ⟨proc, cid⟩ := x
    cases proc with
    | none => exact .pure
    | some pr =>
      exact .bind (perform_plain hb rfl) fun _ => .ite (perform_plain hb rfl) .pure

theorem endAll_plain : Calm b (endAll cfg es) :=
  .ite (.bind (waitStarts_plain hb) fun _ =>
    .bind (cancelAndWait_plain hb) fun _ => detachEach_plain hb) (stopAll_plain hb)

theorem reattachOpened_plain {r : VM} {h : Processes} :
    Calm b (reattachOpened e r h).run := by
  refine .bindE getNetwork_calm fun n => .bindE (attachNetwork_plain hb) fun _ => ?_
  refine .bindE (.liftE attachTPM_calm) fun tpm => ?_
  refine .bindE (.liftE attachQemu_calm) fun x => ?_
  cases x with
  | error err => exact .bindE (.liftE (stopTPM_plain hb)) fun _ => .throwE
  | ok =>
    have hsub : b.start.sub = none := by rw [hb.start]
    have htpm : b.start.tpm = none := by rw [hb.start]
    have hqemu : b.start.qemu = none := by rw [hb.start]
    refine .of_post (.bindE (.liftE (subscribe_books hsub hqemu))
      fun _ b₁ hb₁ => ?_)
    refine .bindE (Q := fun _ b' => b' = b) (.liftE (.step fun hf => ?_))
      fun p b₂ hb₂ => ?_
    · cases hf
      subst hb₁
      cases r.phase with
      | install => exact ⟨⟨htpm, hqemu, hsub⟩, withStart_plain hb⟩
      | boot => exact ⟨⟨htpm, hqemu, r.cid, rfl, rfl⟩, withStart_plain hb⟩
    subst hb₂
    exact (Calm.bindE (Calm.liftE (supervise_plain hb)) fun _ =>
      .liftE resumeStop_calm).post

theorem reattachLive_plain {live : Bool} : Calm b (reattachLive e live) := by
  refine .ite (.bind (.bindE (.liftE .look) fun r => ?_) fun x => ?_) .pure
  · cases r.processes with
    | none => exact .throwE
    | some h =>
      refine .bindE openVolume_calm fun _ => ?_
      refine .bindE (.liftE (reattachOpened_plain hb)) fun x => ?_
      cases x with
      | ok => exact .pureE
      | error err => exact .bindE (.liftE closeVolume_calm) fun _ => .throwE
  · cases x with
    | ok => exact .pure
    | error err => exact perform_plain hb rfl

theorem loadAll_plain {ids : List String} : Calm b (loadAll ids) := by
  induction ids with
  | nil => exact .pure
  | cons id rest ih =>
    refine .bind (.bind (.plain hb (by grind)) fun found => ?_) fun _ => ih
    rcases found with _ | ⟨e, live⟩
    · exact .pure
    · exact .bind (reattachLive_plain hb) fun _ => perform_plain hb rfl

theorem imdsNonce_plain : Calm b (imdsNonce source) := by
  refine .bind resolveInstance_calm fun x => ?_
  cases x with
  | none => exact .pure
  | some id =>
    exact .bind (.plain hb (by grind)) fun _ => .plain hb (by grind)

theorem submitQuote_plain :
    Calm b (submitQuote (concurrent cfg id) cfg.tpm2 cfg.crypto cfg.attest id req) := by
  have hnow : Calm b (concurrent cfg id).now := .plain hb (by grind)
  have hconsume : Calm b ((concurrent cfg id).consume id req.nonce) := .plain hb (by grind)
  have henroll : ∀ fingerprint, Calm b ((concurrent cfg id).enroll id req.stage fingerprint) :=
    fun _ => .plain hb (by grind)
  have hrej : ∀ res, Calm b (reject (concurrent cfg id) id req.stage res) :=
    fun res => .bind (perform_plain hb rfl) fun _ => .pure
  refine .bind hnow fun now => .bind hconsume fun ok => .ite (hrej _) ?_
  refine .ite (hrej _) (.bind .look fun policy => ?_)
  match policy with
  | .error (.noPolicy text) => exact hrej _
  | .error (.other text) => exact .pure
  | .ok policy =>
    cases examine cfg.tpm2 cfg.crypto req { time := now } with
    | error res => exact hrej res
    | ok x =>
      refine .bind .look fun pinned => .ite (hrej _) ?_
      cases judge cfg.attest policy req.stage x.1 x.2 with
      | error res => exact hrej res
      | ok res =>
        refine .bind (henroll _) fun ok => .ite ?_ (.bind .look fun pin => ?_)
        · exact .bind (perform_plain hb rfl) fun _ => .pure
        · cases pin <;> exact hrej _

theorem imdsQuote_plain :
    Calm b (imdsQuote cfg source req) := by
  refine .bind resolveInstance_calm fun x => ?_
  cases x with
  | none => exact .pure
  | some id =>
    refine .bind (submitQuote_plain hb) fun r => ?_
    cases r with
    | error err => exact perform_plain hb rfl
    | ok res =>
      exact .bind (.plain hb (by grind)) fun _ => .plain hb (by grind)

end Plain

structure Books.Free (b : Books) : Prop where
  unserved : b.unserved = []
  holding : b.holding = []
  start : b.start = {}

structure Books.Clean (b : Books) : Prop extends b.Free where
  dirty : b.dirty = false

theorem Books.Clean.through (h : b.Clean) : b.Through := ⟨.inr ⟨h.unserved, .inr h.dirty⟩, h.holding⟩

theorem Books.clean : Books.Clean {} := ⟨⟨rfl, rfl, rfl⟩, rfl⟩

/-! The programs that change the networks. -/
section Networks

theorem persistNetworks_books :
    books.Leads b persistNetworks.run fun _ b' => b' = { b with dirty := false } := by
  refine Calm.before Calm.withManager fun states => Leads.step fun hf => ?_
  split at hf <;> cases hf <;> exact ⟨trivial, rfl⟩

theorem serveIMDS_books :
    books.Leads b (serveIMDS name).run (Post (fun _ b' => b' = b.served name) fun b' => b' = b) := by
  refine .bindE (Q := fun running b' => b' = if running then b.served name else b)
    (.liftE (.step fun hf => ?_)) fun running b' hb' => ?_
  · split at hf <;> cases hf <;> exact ⟨trivial, rfl⟩
  cases running with
  | true => exact .pureE hb'
  | false =>
    obtain rfl : b' = b := hb'
    refine Calm.beforeE getNetwork_calm rfl fun n => ?_
    refine Calm.beforeE (Calm.step fun hf => ?_) rfl fun _ =>
      .liftE (.step fun hf => ?_)
    · split at hf
      · split at hf <;> cases hf <;> exact ⟨trivial, rfl⟩
      · cases hf
        exact ⟨trivial, rfl⟩
      · cases hf
    · split at hf <;> cases hf <;> exact ⟨trivial, rfl⟩

theorem addNetwork_books (spec : Network.Spec) (leases : GoMap String Network.Addr) :
    books.Leads b (addNetwork spec leases).run
      (Post (fun _ b' => b' = b.enter (.net (.add spec leases))) fun b' => b' = b) := by
  refine .step fun hf => ?_
  split at hf
  · split at hf
    · cases hf
    split at hf <;> cases hf <;> exact ⟨trivial, rfl⟩
  · cases hf
    exact ⟨trivial, rfl⟩
  · cases hf

theorem removeNetwork_books : books.Leads b (removeNetwork name).run (Post
      (fun _ b' => b' = b.enter (.net (.delete name 0 true)))
      fun b' => b' = b.enter (.net (.delete name 0 false)) ∨ b' = b.forsaken name) := by
  refine .bindE (Q := fun _ b' => b' = b) (.step fun hf => ?_)
    fun n b' hb' => .step fun hf => ?_
  · split at hf
    · split at hf
      · cases hf
      split at hf <;> cases hf
      · exact ⟨trivial, rfl⟩
      · exact ⟨trivial, .inr rfl⟩
    · cases hf
      exact ⟨trivial, .inr rfl⟩
    · cases hf
  · subst hb'
    split at hf <;> cases hf
    · exact ⟨trivial, rfl⟩
    · exact ⟨trivial, .inl rfl⟩

theorem createNetwork_books {spec : Network.Spec} :
    books.Leads {} (createNetwork spec).run fun _ b => b.Through := by
  have hsrv : [spec.name].filter (fun x => x != spec.name) = [] := by simp
  refine .total (.bindE (Q := fun _ b => b = { dirty := true, unserved := [spec.name] }) ?_
    fun _ b hb => ?_)
  · refine .weaken (addNetwork_books _ ∅) fun r b hb => ?_
    cases r with
    | ok => exact hb
    | error err => exact hb ▸ Books.clean.through
  subst hb
  refine .bindE (.liftE serveIMDS_books) fun r b hb => ?_
  cases r with
  | ok =>
    obtain rfl : b = _ := hb
    refine .weaken persistNetworks_books fun r b hb => ?_
    have hset : b.Through := by
      rw [hb]
      exact ⟨.inr ⟨hsrv, .inr rfl⟩, rfl⟩
    cases r <;> exact hset
  | error err =>
    obtain rfl : b = _ := hb
    refine .bindE (.liftE removeNetwork_books) fun r b hb => .throwE ?_
    cases r with
    | ok =>
      obtain rfl : b = _ := hb
      exact ⟨.inr ⟨hsrv, .inl (by simp [Books.enter, Books.note, Books.forsaken])⟩, rfl⟩
    | error err =>
      rcases hb with rfl | rfl
      · exact ⟨.inr ⟨hsrv, .inl (by simp [Books.enter, Books.note, Books.forsaken])⟩, rfl⟩
      · exact ⟨.inr ⟨hsrv, .inl (by simp [Books.forsaken])⟩, rfl⟩

theorem deleteNetwork_books :
    books.Leads {} (deleteNetwork name).run fun _ b => b.Through := by
  refine Leads.total (Calm.beforeL Calm.look fun users => ?_)
  refine Leads.ite (fun _ => Leads.throwE Books.clean.through) fun _ => ?_
  refine .bindE (Q := fun _ b => b.unserved = [] ∧ b.holding = []) ?_ fun _ b hb => ?_
  · refine .weaken removeNetwork_books fun r b hb => ?_
    cases r with
    | ok =>
      obtain rfl : b = _ := hb
      exact ⟨rfl, rfl⟩
    | error err =>
      rcases hb with rfl | rfl
      · exact ⟨.inr ⟨rfl, .inl (by simp [Books.enter, Books.note])⟩, rfl⟩
      · exact Books.clean.through
  refine .bindE (Q := fun srv b => (b.unserved = [] ∧ b.holding = []) ∧ ∀ k, srv = some k → k ∈ b.retired)
    (.liftE (.step fun hf => ?_)) fun srv b hb => ?_
  · cases hf
    refine ⟨trivial, hb, fun k hk => ?_⟩
    rw [hk]
    exact mem_cons_self
  refine .bindE (Q := fun _ b => b.unserved = [] ∧ b.holding = []) (.liftE ?_) fun _ b hb => ?_
  · cases srv with
    | none => exact .pure hb.1
    | some k =>
      refine .step fun hf => ?_
      cases hf
      exact ⟨hb.2 k rfl, hb.1⟩
  · refine .weaken persistNetworks_books fun r b' hb' => ?_
    have hset : b'.Through := by
      rw [hb']
      exact ⟨.inr ⟨hb.1, .inr rfl⟩, hb.2⟩
    cases r <;> exact hset

end Networks

/-! Create and Delete. -/
section Machines

theorem unlock_free (hb : b.Free) : Calm b (unlock e) := Calm.perform ⟨⟨hb.holding, hb.start⟩, rfl⟩

theorem closeForwards_books :
    books.Leads { b with holding := ks } (closeForwards ks) fun _ b' =>
      b' = { b with holding := [] } := by
  induction ks with
  | nil => exact .pure rfl
  | cons k ks ih =>
    refine .bind (Q := fun _ b' => b' = { b with holding := ks })
      (.step fun hf => ?_) fun _ b' hb' => ?_
    · cases hf
      refine ⟨trivial, ?_⟩
      change { b with holding := (k :: ks).erase k } = _
      rw [erase_cons_head]
    · subst hb'
      exact ih

theorem teardown_books (hb : b.Free) : books.Leads b (teardown e) fun _ b' => b'.Free := by
  refine Calm.before Calm.look fun r => ?_
  refine Leads.bind (Q := fun ks b' => b' = { b with holding := ks })
    (.step fun hf => ?_) fun ks b₁ hb₁ => ?_
  · cases hf
    exact ⟨⟨hb.holding, hb.start⟩, rfl⟩
  subst hb₁
  refine Leads.bind closeForwards_books fun _ b₂ hb₂ => ?_
  subst hb₂
  refine Leads.bind (Q := fun _ b' => b'.Free) (Calm.before Calm.withManager fun n => ?_)
    fun _ b₃ hb₃ => Calm.before deleteVolume_calm fun _ => Leads.step fun hf => ?_
  · cases n with
    | none => exact .pure ⟨hb.unserved, rfl, hb.start⟩
    | some n =>
      refine .step fun hf => ?_
      cases hf
      exact ⟨trivial, hb.unserved, rfl, hb.start⟩
  · split at hf <;> cases hf <;> exact ⟨trivial, hb₃.unserved, hb₃.holding, hb₃.start⟩

theorem persistNetworks_clean (hb : b.Free) : books.Leads b persistNetworks.run fun _ b' => b'.Clean :=
  .weaken persistNetworks_books fun _ b' hb' => by
    rw [hb']
    exact ⟨⟨hb.unserved, hb.holding, hb.start⟩, rfl⟩

theorem discard_books (hb : b.Free) : books.Leads b (discard e) fun _ b' => b'.Clean := by
  refine Calm.before Calm.look fun r => Leads.bind (teardown_books hb) fun _ b₁ hb₁ => ?_
  refine Calm.before (Calm.perform ⟨trivial, rfl⟩) fun _ => ?_
  exact Leads.bind (persistNetworks_clean hb₁) fun _ b₂ hb₂ => Leads.pure hb₂

structure Books.Making (b : Books) : Prop extends b.Free where
  released : b.released = false
  wiped : b.wiped = false
  left : b.left = none

theorem provision_books (hb : b.Making) : books.Leads b (provision e n).run
      (Post (fun _ b' => b'.Plain ∧ b'.Clean) Books.Free) := by
  have hfree := hb.toFree
  refine Calm.beforeL Calm.look fun r => ?_
  refine Calm.beforeE (Calm.step fun hf => ?_) hfree fun pub => ?_
  · split at hf <;> cases hf
    · exact ⟨hb.wiped, rfl⟩
    · exact ⟨trivial, rfl⟩
  refine Calm.beforeE (Calm.step fun hf => ?_) hfree fun _ => ?_
  · split at hf
    · cases hf
      exact ⟨trivial, rfl⟩
    · split at hf <;> cases hf
      · exact ⟨hb.wiped, rfl⟩
      · exact ⟨trivial, rfl⟩
  refine Calm.beforeE (Calm.step fun hf => ?_) hfree fun _ => ?_
  · split at hf <;> cases hf
    · exact ⟨hb.wiped, rfl⟩
    · exact ⟨trivial, rfl⟩
  refine Calm.beforeE createVolume_calm hfree fun _ => ?_
  refine Calm.beforeL (Calm.perform ⟨⟨hb.wiped, nofun⟩, rfl⟩) fun _ => ?_
  refine .bindE (Q := fun _ b' => b'.Making) (.step fun hf => ?_) fun ip b₇ hb₇ => ?_
  · split at hf
    · split at hf <;> cases hf
      · exact ⟨trivial, ⟨hb.unserved, hb.holding, hb.start⟩, hb.released, hb.wiped, hb.left⟩
      · exact ⟨trivial, hfree⟩
    · cases hf
      exact ⟨trivial, hfree⟩
    · cases hf
  refine .bindE (Q := fun _ b' => b'.unserved = [] ∧ b'.Plain) (.liftE (.step
    fun hf => ?_)) fun _ b₈ hb₈ => ?_
  · cases hf
    exact ⟨⟨hb₇.wiped, nofun⟩, hb₇.unserved, rfl, hb₇.released, hb₇.wiped, hb₇.holding, hb₇.start, hb₇.left⟩
  · obtain ⟨hs, hp⟩ := hb₈
    refine Leads.weaken persistNetworks_books fun r b' hb' => ?_
    have hfree : b'.Free := by
      rw [hb']
      exact ⟨hs, hp.holding, hp.start⟩
    cases r with
    | error err => exact hfree
    | ok =>
      refine ⟨?_, hfree, by rw [hb']⟩
      rw [hb']
      exact { hp with }

theorem launch_books (hb : b.Making) :
    books.Leads b (launch e n).run fun _ b' => b'.Clean := by
  refine Calm.before (Calm.step fun hf => ?_) fun _ => ?_
  · split at hf <;> cases hf
    exact ⟨hb.wiped, rfl⟩
  refine .bind (Q := Post (fun h b' => ∃ (b₀ : Books) (st : Start), b₀.Plain ∧ b₀.Clean ∧
    st.Fits e .install h ∧ b' = b₀.withStart st) Books.Free) ?_ fun r b₂ hb₂ => ?_
  · refine .bindE (provision_books hb) fun _ b₂ hb₂ => ?_
    refine .weaken (startProcess_books hb₂.1) fun r b' hb' => ?_
    cases r with
    | ok h =>
      obtain ⟨st, hst, hb'⟩ := hb'
      exact ⟨b₂, st, hb₂.1, hb₂.2, hst, hb'⟩
    | error err =>
      obtain rfl : b' = b₂ := hb'
      exact hb₂.2.toFree
  cases r with
  | error err =>
    refine .bind (discard_books hb₂) fun _ b₃ hb₃ => ?_
    exact .bind ((unlock_free hb₃.toFree).leads fun _ => hb₃) fun _ b₄ hb₄ => .pure hb₄
  | ok h =>
    obtain ⟨b₀, st, hp, hc, hst, rfl⟩ := hb₂
    refine .bind (track_books hp hst) fun p b₃ hb₃ => ?_
    subst hb₃
    refine Calm.before (supervise_plain hp) fun _ => ?_
    exact Leads.bind ((unlock_free hc.toFree).leads fun _ => hc) fun _ b₅ hb₅ => Leads.pure hb₅

theorem create_books {spec : Spec} :
    books.Leads {} (create cfg spec).run fun _ b => b.Through := by
  have hclean := Books.clean.through
  refine Leads.total (Calm.beforeE Calm.pure hclean fun _ => Calm.beforeE Calm.pure hclean fun x => ?_)
  refine Calm.beforeE getNetwork_calm hclean fun n => ?_
  refine .bindE (Q := fun _ b => b = { creating := true }) (.step fun hf => ?_)
    fun e b₁ hb₁ => ?_
  · split at hf
    · cases hf
      exact ⟨trivial, hclean⟩
    split at hf
    · cases hf
      exact ⟨trivial, hclean⟩
    split at hf
    · split at hf
      · cases hf
      split at hf <;> cases hf
      · exact ⟨trivial, rfl⟩
      · exact ⟨trivial, hclean⟩
    · cases hf
      exact ⟨trivial, hclean⟩
    · cases hf
  subst hb₁
  refine .bindE (Q := fun _ b => b.Through) ?_ fun _ b₂ hb₂ => .liftE (.goto hb₂)
  refine .weaken (launch_books ⟨⟨rfl, rfl, rfl⟩, rfl, rfl, rfl⟩) fun r b hb => ?_
  cases r <;> exact hb.through

theorem waitFor_books {w : WaitFor} (hb : b.Through) :
    books.Leads b (waitFor e w) fun _ _ => True := by
  have hret : books.Leads b (perform .returned) fun _ _ => True := by
    refine .step fun hf => ?_
    cases hf
    exact ⟨hb, trivial⟩
  refine Calm.before Calm.look fun r => Leads.ite (fun _ => hret) fun _ => ?_
  exact Calm.before (Calm.read (by grind)) fun again => .ite (fun _ => Leads.goto hb) fun _ => hret

theorem deleteLocked_books :
    books.Leads {} (deleteLocked id e).run fun _ b => b.Clean := by
  refine Leads.total (Calm.beforeE (Calm.step fun hf => ?_) Books.clean fun proc => ?_)
  · split at hf
    · cases hf
      exact ⟨trivial, rfl⟩
    · split at hf <;> cases hf
      · exact ⟨trivial, rfl⟩
      · exact ⟨⟨rfl, by simp⟩, rfl⟩
  refine Calm.beforeL stopIfRunning_calm fun _ => ?_
  refine Leads.bindE (Leads.liftE (teardown_books Books.clean.toFree)) fun _ b₁ hb₁ => ?_
  refine Calm.beforeL (Calm.perform ⟨trivial, rfl⟩) fun _ => ?_
  refine Calm.beforeL (Calm.perform ⟨trivial, rfl⟩) fun _ => ?_
  refine Calm.beforeL (Calm.perform ⟨trivial, rfl⟩) fun _ => ?_
  refine Calm.beforeL (Calm.perform ⟨trivial, rfl⟩) fun _ => ?_
  refine .bindE (.liftE (persistNetworks_clean hb₁)) fun r b₂ hb₂ => ?_
  refine Calm.beforeL (Calm.perform ⟨hb₂.holding, rfl⟩) fun _ => ?_
  cases r <;> exact Leads.pure hb₂

theorem delete_books : books.Leads {} (delete id).run fun _ b => b.Clean := by
  refine Leads.total (Calm.beforeE lookupEntry_calm Books.clean fun e => ?_)
  refine Calm.beforeL (lock_plain Books.plain) fun _ => ?_
  refine .bindE (.liftE deleteLocked_books) fun r b₁ hb₁ => ?_
  refine Calm.beforeL (unlock_free hb₁.toFree) fun _ => ?_
  cases r <;> exact Leads.pure hb₁

end Machines

/-! Load and Close. -/
section Service

structure Books.Restoring (b : Books) (names : List String) : Prop where
  plain : b.Plain
  loading : b.loading = true
  dirty : b.dirty = false
  unserved : ∀ x ∈ b.unserved, x ∈ names

theorem restoreAll_books {names : List String}
    (hn : ∀ st ∈ states, st.spec.name ∈ names) (hb : b.Restoring names) : books.Leads b (restoreAll states).run
      (Post (fun _ b' => b'.Restoring names) Books.Through) := by
  induction states generalizing b with
  | nil => exact .pureE hb
  | cons st rest ih =>
    refine .bindE (Q := fun _ b' => b'.Restoring names) ?_
      fun _ b' hb' => ih (forall_mem_cons.1 hn).2 hb'
    refine .weaken (addNetwork_books st.spec st.leases) fun r b' hb' => ?_
    cases r with
    | ok =>
      obtain rfl : b' = _ := hb'
      refine ⟨{ hb.plain with }, hb.loading, ?_, fun x hx => ?_⟩
      · change (b.dirty || !b.loading) = false
        rw [hb.dirty, hb.loading]
        rfl
      · rcases mem_cons.1 hx with rfl | hx
        · exact hn st mem_cons_self
        · exact hb.unserved x hx
    | error err =>
      obtain rfl : b' = b := hb'
      exact ⟨.inl hb.loading, hb.plain.holding⟩

theorem serveAll_books (hb : b.Restoring (states.map fun st => st.spec.name)) :
    books.Leads b (serveAll states).run (Post (fun _ b' => b'.Restoring []) Books.Through) := by
  induction states generalizing b with
  | nil => exact .pureE hb
  | cons st rest ih =>
    refine .bindE (Q := fun _ b' => b'.Restoring (rest.map fun st => st.spec.name)) ?_
      fun _ b' hb' => ih hb'
    refine .weaken serveIMDS_books fun r b' hb' => ?_
    cases r with
    | ok =>
      obtain rfl : b' = _ := hb'
      refine ⟨{ hb.plain with }, hb.loading, hb.dirty, fun x hx => ?_⟩
      obtain ⟨hx, hne⟩ := mem_filter.1 hx
      have hne : x ≠ st.spec.name := by simpa using hne
      exact (mem_cons.1 (hb.unserved x hx)).resolve_left hne
    | error err =>
      obtain rfl : b' = b := hb'
      exact ⟨.inl hb.loading, hb.plain.holding⟩

theorem load_books : books.Leads {} load.run fun _ b => b.Through := by
  refine .total (.bindE (Q := fun states b => b.Restoring (states.map fun st => st.spec.name))
    (.liftE (.step fun hf => ?_)) fun states b₁ hb₁ => ?_)
  · cases hf
    exact ⟨trivial, ⟨rfl, rfl, rfl, rfl, rfl, rfl⟩, rfl, rfl, fun x hx => absurd hx not_mem_nil⟩
  refine Leads.bindE (restoreAll_books
    (fun st hst => List.mem_map.2 ⟨st, hst, rfl⟩) hb₁) fun _ b₂ hb₂ => ?_
  refine Leads.bindE (serveAll_books hb₂) fun _ b₃ hb₃ => ?_
  refine Calm.beforeL (Calm.step fun hf => ?_) fun ids => ?_
  · cases hf
    exact hb₃.plain.enter rfl
  refine Calm.beforeL (loadAll_plain hb₃.plain) fun _ => ?_
  have hnil : b₃.unserved = [] := eq_nil_iff_forall_not_mem.2 fun x hx => not_mem_nil (hb₃.unserved x hx)
  refine .liftE (.step fun hf => ?_)
  cases hf
  exact ⟨⟨hnil, hb₃.dirty⟩, .inr ⟨hnil, .inr hb₃.dirty⟩, hb₃.plain.holding⟩

theorem shutEach_books (hb : ∀ k ∈ ks, k ∈ b.retired) : Calm b (shutEach ks) := by
  induction ks with
  | nil => exact .pure
  | cons k rest ih =>
    refine .bind (Calm.perform ⟨hb k mem_cons_self, rfl⟩) fun _ => ?_
    exact ih (forall_mem_cons.1 hb).2

theorem close_books : books.Leads {} (close cfg) fun _ _ => True := by
  refine Calm.before (Calm.step fun hf => ?_) fun es => ?_
  · cases hf
    exact ⟨trivial, rfl⟩
  refine Calm.before (endAll_plain Books.plain) fun _ => ?_
  refine Leads.bind (Q := fun _ _ => True) (Leads.bind (Q := fun ks b => ∀ k ∈ ks, k ∈ b.retired)
    (.step fun hf => ?_) fun ks b₃ hb₃ => ?_) fun _ b₄ _ => ?_
  · cases hf
    exact ⟨trivial, fun k hk => mem_append_left _ hk⟩
  · exact (shutEach_books hb₃).leads fun _ => trivial
  · refine Leads.step fun hf => ?_
    cases hf
    exact ⟨trivial, trivial⟩

theorem run_books {p : Nat} {due : Bool} :
    books.Leads {} (run cfg e p due) fun _ _ => True := by
  refine Calm.before (Calm.step fun hf => ?_) fun wake => ?_
  · split at hf
    · split at hf <;> cases hf
      exact ⟨trivial, rfl⟩
    · rw [map_eq_some_iff] at hf
      obtain ⟨_, -, hf⟩ := hf
      cases hf
      exact ⟨trivial, rfl⟩
    · split at hf
      · cases hf
      split at hf
      · cases hf
        exact ⟨trivial, rfl⟩
      · split at hf <;> cases hf
        exact ⟨trivial, rfl⟩
    · split at hf <;> cases hf
      exact ⟨trivial, rfl⟩
    · cases hf
  have hend : Calm {} (perform (.shutdown .superviseEnd)) := perform_plain Books.plain rfl
  cases wake with
  | ctxDone => exact hend.leads fun _ => trivial
  | exited exit c =>
    exact (Calm.bind (onExit_plain Books.plain) fun _ => hend).leads fun _ => trivial
  | notify n c => exact Calm.before (perform_plain Books.plain rfl) fun _ => Leads.goto rfl
  | hungUp => exact .goto rfl
  | due c => exact Calm.before (onTimeout_plain Books.plain) fun _ => Leads.goto rfl

end Service

theorem ignore_books {x : GoE α} (h : books.Leads {} x.run fun _ b => b.Through) :
    books.Obeys {} (ignore x).toProg := by
  refine Leads.toProg (Leads.bind h fun r b hb => Leads.step fun hf => ?_)
  cases hf
  exact ⟨hb, trivial⟩

theorem answer_books {x : Go Unit} (h : Calm {} x) : books.Obeys {} (answer x).toProg := by
  refine Leads.toProg (Calm.before h fun _ => Leads.step fun hf => ?_)
  cases hf
  exact ⟨Books.clean.through, trivial⟩

theorem imdsReport_books {data : Bytes} : Calm {} (imdsReport source data) := by
  refine .bind resolveInstance_calm fun x => ?_
  cases x with
  | none => exact .pure
  | some id =>
    refine .bind (.step fun hf => ?_) fun stored =>
      .ite (.step fun hf => ?_) .pure
    · split at hf
      · split at hf <;> cases hf <;> exact ⟨trivial, rfl⟩
      · cases hf
        exact ⟨trivial, rfl⟩
    · split at hf <;> cases hf <;> exact ⟨trivial, rfl⟩

theorem forwardTo_books {network : String} {ip : Network.Addr} :
    Calm {} (forwardTo e network ip).run := by
  refine .bindE getNetwork_calm fun n => .of_post ?_
  refine .bindE (Q := fun k b => b = { holding := [k] }) (.step fun hf => ?_)
    fun k b hb => .liftE (.step fun hf => ?_)
  · split at hf
    · split at hf
      · cases hf
        exact ⟨trivial, rfl⟩
      · split at hf <;> cases hf <;> exact ⟨trivial, rfl⟩
    · cases hf
      exact ⟨trivial, rfl⟩
    · cases hf
  · cases hf
    subst hb
    refine ⟨trivial, ?_⟩
    change ({ holding := [k].erase k } : Books) = {}
    rw [erase_cons_head]

theorem forward_books {port : Int} : Calm {} (forward id port).run := by
  refine .iteE .throwE ?_
  refine .bindE lookupEntry_calm fun e => .bindE (.liftE .look) fun r => ?_
  cases r.ip with
  | none => exact .throwE
  | some ip => exact .iteE .throwE forwardTo_books

theorem body_books {c : Call} (hb : books.pre c b) : books.Obeys b (body cfg c) := by
  have hclean : ∀ {x : GoE Unit}, Calm {} x.run → books.Obeys {} (ignore x).toProg :=
    fun hx => ignore_books (hx.leads fun _ => Books.clean.through)
  by_cases hw : ∃ e w, c = .waitFor e w
  · obtain ⟨e, w, rfl⟩ := hw
    exact Leads.toProg (waitFor_books hb)
  obtain rfl : b = {} := by
    cases c with
    | waitFor e w => exact absurd ⟨e, w, rfl⟩ hw
    | _ => exact hb
  cases c with
  | waitFor e w => exact absurd ⟨e, w, rfl⟩ hw
  | create spec => exact ignore_books create_books
  | start id => exact hclean (start_plain Books.plain)
  | stop id => exact hclean (stop_plain Books.plain)
  | reboot id =>
    exact hclean (.bindE (stop_plain Books.plain) fun _ => start_plain Books.plain)
  | delete id => exact ignore_books (.weaken delete_books fun _ _ h => h.through)
  | close => exact Leads.toProg close_books
  | createNetwork spec => exact ignore_books createNetwork_books
  | deleteNetwork name => exact ignore_books deleteNetwork_books
  | forward id port => exact hclean forward_books
  | nonce n source => exact answer_books (imdsNonce_plain Books.plain)
  | quote n source req => exact answer_books (imdsQuote_plain Books.plain)
  | report n source data => exact answer_books imdsReport_books
  | deliver n =>
    exact Leads.toProg
      ((perform_plain Books.plain (o := .notify (.deliver n)) rfl).leads fun _ => trivial)
  | run e p due => exact Leads.toProg run_books
  | closeStop e owner =>
    exact Leads.toProg ((closeStop_plain Books.plain).leads fun _ => trivial)
  | resumeStop p => exact Leads.toProg (stopProcess_calm.leads fun _ => trivial)
  | load => exact ignore_books load_books

namespace System
variable (s : System)

/-- What goroutine `t` has done, besides looking, since vm-manager last ended; newest first. -/
def deeds (t : Nat) : List Op :=
  (since Happening.isCrash s.hist).filterMap fun
    | .did t' op _ => if t' = t ∧ op.isRead = false then some op else none
    | .outside _ => none

theorem deeds_effect (t t' : Nat) (o : Op) : (s.effect t o).deeds t' =
    if t = t' ∧ o.isRead = false then o :: s.deeds t' else s.deeds t' := by
  have hcut : since Happening.isCrash (s.effect t o).hist =
      s.log t o :: since Happening.isCrash s.hist := since_cons_of_neg rfl
  simp only [deeds, hcut, log, filterMap_cons]
  split <;> split <;> simp_all

theorem deeds_outside {x : Outside} (s' : System) (hx : x ≠ .crash) (t : Nat) :
    deeds (s'.noting x s) t = s.deeds t := by
  have hcut : (Happening.outside x).isCrash = false := by
    cases x with
    | crash => exact absurd rfl hx
    | _ => rfl
  simp only [deeds, since_cons_of_neg hcut, filterMap_cons]

theorem mem_acts_of_deeds {t : Nat} (h : o ∈ s.deeds t) : o ∈ s.acts t := by
  obtain ⟨x, hx, heq⟩ := mem_filterMap.1 h
  exact mem_filterMap.2 ⟨x, since_subset hx, heq⟩

theorem mem_deeds_effect {s : System} {t t' : Nat} {op o : Op} (h : o ∈ s.deeds t') : o ∈ (s.effect t op).deeds t' := by
  rw [deeds_effect]
  split
  · exact mem_cons_of_mem op h
  · exact h

theorem mem_deeds_cases {s : System} {t t' : Nat} {op o : Op} (h : o ∈ (s.effect t op).deeds t') :
    o ∈ s.deeds t' ∨ (t' = t ∧ op = o) := by
  rw [deeds_effect] at h
  split at h
  · rename_i ht
    rcases mem_cons.1 h with rfl | h
    · exact .inr ⟨ht.1.symm, rfl⟩
    · exact .inl h
  · exact .inl h

theorem mem_deeds_of_ne {s : System} {t t' : Nat} {op o : Op} (h : o ∈ (s.effect t op).deeds t')
    (hne : op ≠ o) : o ∈ s.deeds t' :=
  (mem_deeds_cases h).resolve_right fun hx => hne hx.2

def books (t : Nat) : Books := (s.deeds t).foldr (fun o b => b.enter o) {}

theorem books_effect (t : Nat) (o : Op) : (s.effect t o).books t = (s.books t).enter o := by
  rw [books, deeds_effect]
  split
  · rfl
  · rename_i hread
    cases o with
    | read => rfl
    | _ => exact absurd ⟨rfl, rfl⟩ hread

theorem books_other {t t' : Nat} (o : Op) (h : t' ≠ t) : (s.effect t o).books t' = s.books t' := by
  rw [books, deeds_effect, if_neg fun hx => h hx.1.symm, books]

theorem books_outside {x : Outside} (s' : System) (hx : x ≠ .crash) (t : Nat) :
    books (s'.noting x s) t = s.books t := by
  rw [books, s.deeds_outside s' hx, books]

end System

theorem Unused.deeds {s : System} {n : Nat} (hu : Unused n s) : s.deeds n = [] := by
  refine eq_nil_iff_forall_not_mem.2 fun o ho => ?_
  have hacts := s.mem_acts_of_deeds ho
  rw [hu.acts] at hacts
  exact absurd hacts not_mem_nil

theorem books_tracks : books.Tracks (service cfg) System.books Unused where
  next s t o := s.books_effect t o
  other s t o t' h := s.books_other o h
  fresh s n t hu hn := by
    have hu : Unused t s := fun t' o k hk => (hu t' o k hk).trans_le hn
    rw [System.books, hu.deeds]
    rfl
  grows s n n' t o hu ht hn := hu.effect ht hn

theorem books_sound : (books.outline (service cfg) System.books Unused).Sound {} := by
  refine Monitor.sound books_tracks (fun c b hb => body_books hb)
    (fun s x n s' l hx => ?_) (fun s c hc => ?_) (fun _ _ _ h => absurd h not_mem_nil)
    fun s m n hmn hu t o k hk => (hu t o k hk).trans_le hmn
  · refine ⟨fun hh t => ?_, fun hu => outside_unused hx hu, fun c hc => ?_⟩
    · obtain ⟨s₁, -, rfl, -⟩ := outside_cases hx
      refine s.books_outside s₁ (fun hcrash => ?_) t
      subst hcrash
      cases hh
    · obtain ⟨s₁, -, -, rfl⟩ := outside_cases hx
      cases x with
      | start | message =>
        rw [mem_singleton.1 hc]
        exact ⟨rfl, rfl⟩
      | _ => exact absurd hc not_mem_nil
  · cases c with
    | waitFor => cases hc
    | _ => exact rfl

def Allowed (s : System) : Event → Prop
  | .op t o => (s.books t).Allows o
  | _ => True

theorem Runs.booked {cfg : Config} (h : Runs cfg K pool) :
    Runs cfg (fun s ev => Allowed s ev ∧ K s ev) pool := by
  refine Machine.Run.mono (fun s ev hev => ⟨?_, hev.2.2⟩) (books_sound.run h)
  cases ev with
  | op t o => exact hev.2.1
  | _ => trivial

structure Current (p : Pool) : Prop where
  live : ∀ t pr, p.threads[t]? = some pr → pr = .done ∨ p.shared.acts t = p.shared.deeds t
  fresh : ∀ t, p.threads.length ≤ t → p.shared.acts t = [] ∧ p.shared.deeds t = []

namespace Current
variable {cfg : Config} {p p' : Pool}

theorem effect {rest : Program} {l : List Program}
    (h : Current p) (ht : t < p.threads.length) (hcur : p.shared.acts t = p.shared.deeds t) :
    Current ⟨p.shared.effect t o, p.threads.set t rest ++ l⟩ := by
  have hkeep : ∀ t', t' ≠ t → (p.shared.effect t o).acts t' = p.shared.acts t' ∧
      (p.shared.effect t o).deeds t' = p.shared.deeds t' := by
    intro t' hne
    rw [acts_effect, deeds_effect, if_neg fun hx => hne hx.1.symm, if_neg fun hx => hne hx.1.symm]
    exact ⟨rfl, rfl⟩
  have hfresh : ∀ t', p.threads.length ≤ t' →
      (p.shared.effect t o).acts t' = [] ∧ (p.shared.effect t o).deeds t' = [] := by
    intro t' hle
    obtain ⟨ha, hd⟩ := hkeep t' (by omega)
    rw [ha, hd]
    exact h.fresh t' hle
  refine ⟨fun t' pr hpr => ?_, fun t' hle => hfresh t' (by simp at hle; omega)⟩
  change pr = .done ∨ (p.shared.effect t o).acts t' = (p.shared.effect t o).deeds t'
  by_cases hlt : t' < p.threads.length
  · by_cases hne : t' = t
    · subst hne
      rw [acts_effect, deeds_effect, hcur]
      exact .inr rfl
    · have hpr : (p.threads.set t rest ++ l)[t']? = some pr := hpr
      rw [getElem?_append_left (by simpa using hlt), getElem?_set_ne (Ne.symm hne)] at hpr
      obtain ⟨ha, hd⟩ := hkeep t' hne
      rw [ha, hd]
      exact h.live t' pr hpr
  · obtain ⟨ha, hd⟩ := hfresh t' (by omega)
    rw [ha, hd]
    exact .inr rfl

theorem step {m : Move} {ev : Event} (h : Current p)
    (hm : (service cfg).step p m = some (ev, p')) :
    (∀ t o, ev = .op t o → p.shared.acts t = p.shared.deeds t) ∧ Current p' := by
  cases m with
  | go t i =>
    obtain ⟨pr, o, rest, l, hpr, hres, rfl, rfl⟩ := Machine.step_go hm
    have hlt : t < p.threads.length := (List.getElem?_eq_some_iff.1 hpr).1
    have hcur : p.shared.acts t = p.shared.deeds t := by
      rcases h.live t pr hpr with rfl | hcur
      · cases hres
      · exact hcur
    exact ⟨fun t' o' heq => by cases heq; exact hcur, h.effect hlt hcur⟩
  | call c =>
    obtain ⟨-, rfl, rfl⟩ := Machine.step_call hm
    refine ⟨fun _ _ heq => (by cases heq), fun t pr hpr => ?_, fun t hle => h.fresh t ?_⟩
    · by_cases hlt : t < p.threads.length
      · exact h.live t pr ((getElem?_append_left hlt).symm.trans hpr)
      · obtain ⟨ha, hd⟩ := h.fresh t (by omega)
        exact .inr (ha.trans hd.symm)
    · have hle : (p.threads ++ [(service cfg).body c]).length ≤ t := hle
      simp at hle
      omega
  | env x =>
    obtain ⟨s', l, hx, rfl, rfl⟩ := Machine.step_env hm
    obtain ⟨s₁, -, rfl, rfl⟩ := outside_cases hx
    refine ⟨fun _ _ heq => (by cases heq), ?_⟩
    by_cases hcrash : x = .crash
    · subst hcrash
      refine ⟨fun t pr hpr => .inl ?_, fun t hle => ⟨(h.fresh t ?_).1, rfl⟩⟩
      · have hmem := mem_of_getElem? hpr
        simp [service, Outside.starts] at hmem
        exact hmem.2
      · simpa [service, Outside.starts] using hle
    · have hh : (service cfg).halts x = false := by
        cases x with
        | crash => exact absurd rfl hcrash
        | _ => rfl
      simp only [hh]
      refine ⟨fun t pr hpr => ?_, fun t hle => ?_⟩
      · rw [p.shared.deeds_outside s₁ hcrash]
        by_cases hlt : t < p.threads.length
        · exact h.live t pr ((getElem?_append_left hlt).symm.trans hpr)
        · obtain ⟨ha, hd⟩ := h.fresh t (by omega)
          exact .inr (ha.trans hd.symm)
      · rw [p.shared.deeds_outside s₁ hcrash]
        refine h.fresh t (le_trans ?_ hle)
        simp

end Current

theorem Runs.live {cfg : Config} (h : Runs cfg K pool) : Current pool := by
  induction h with
  | start => exact ⟨fun _ _ hpr => absurd hpr nofun, fun _ _ => ⟨rfl, rfl⟩⟩
  | step _ hm _ ih => exact (ih.step hm).2

theorem Runs.current {cfg : Config} (h : Runs cfg K pool) :
    Runs cfg (fun s ev => (∀ t o, ev = .op t o → s.acts t = s.deeds t) ∧ K s ev) pool := by
  induction h with
  | start => exact .start
  | step h hm hev ih => exact Machine.Run.step ih hm ⟨((Runs.live h).step hm).1, hev⟩

end VmManager.Vm
