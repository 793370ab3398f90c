import VmManager.Vm.Coherence

/-! What Close and Delete rule out and what they wait for. Create takes opMu without looking again at
whether the service closes or the VM was deleted meanwhile; in the runs in which no Create is overtaken
like that, nothing is started too late and nothing is left behind. -/
namespace VmManager.Vm
open Encoding Attest Interleaving Vm.System Option Bool
variable {cfg : Config} {s s' : System} {t e : Nat} {op : Op} {ev : Event}
  {pool : Pool}

structure Orderly (cfg : Config) (s : System) (ev : Event) (s' : System) : Prop where
  closing : ∀ t e phase cid q, ev = .op t (.runtimeStart e phase cid q) → s.closing = true →
    (s.entries e).opMu = some t ∧ (s.entries e).late = false
  deleting : ∀ t e phase cid q, ev = .op t (.runtimeStart e phase cid q) → (s.record e).state ≠ .deleting
  stays : ∀ e, s.Alive e → s'.Alive e → (s.record e).state = .deleting → (s'.record e).state = .deleting
  deleted : ∀ t e id, ev = .op t (.deleteReturns e id) → ∀ q, (s.qemus q).entry = e → (s.qemus q).exit ≠ none
  closed : ∀ t es, ev = .op t (.shutdown (.returns es)) → ∀ e q, s.Alive e →
    (s.qemus q).entry = e → (s.qemus q).exit = none → cfg.detachOnClose = true ∧
      .shutdown (.detachQemu q) ∈ s.acts t ∧ ∃ h, (s.record e).processes = some h ∧ h.qemu = q

def System.SettledEnded (s : System) : Prop := ∀ q, (s.qemus q).settled = true → (s.qemus q).exit ≠ none

theorem System.SettledEnded.effect (h : s.SettledEnded) (hg : op.Guard cfg s t) :
    (s.effect t op).SettledEnded := by
  intro q hq
  cases op with
  | runtimeStart e phase cid q' =>
    cases q' with
    | none => exact h q hq
    | some q' =>
      by_cases hqq : q = q'
      · subst hqq
        simp [effect, apply] at hq
      · simp only [effect, apply, Option.elim_some, Function.update_of_ne hqq] at hq ⊢
        exact h q hq
  | exited e p exit timeout c =>
    by_cases hqq : q = (s.procs p).handles.qemu
    · subst hqq
      simp [effect, apply, updateRec, dropProc, hg.2.2]
    · simp only [effect, apply, updateRec, dropProc, Function.update_of_ne hqq] at hq ⊢
      exact h q hq
  | _ => exact h q hq

theorem Inv.deleting_stays (hi : Inv s) (ho : s.overtaken = false) (hg : op.Guard cfg s t)
    (ha : s.Alive e) (hd : (s.record e).state = .deleting) :
    ((s.effect t op).record e).state = .deleting := by
  refine hi.deleting_mono hg ha (fun phase h hop => ?_) hd
  subst hop
  obtain ⟨-, -, -, -, -, hk, -⟩ := hg
  exact hk ho

theorem Orderly.of_op (hi : Inv s) (ho : s.overtaken = false) (hset : s.SettledEnded)
    (hh : ∀ e, s.Handled e) (hg : op.Guard cfg s t) : Orderly cfg s (.op t op) (s.effect t op) where
  closing := by
    rintro t' e phase cid q heq hc
    cases heq
    obtain ⟨⟨hm, -⟩, -, -, hin, -⟩ := hg
    refine ⟨hm, ?_⟩
    by_contra hl
    cases (hin hc (by simpa using hl)).symm.trans ho
  deleting := by
    rintro t' e phase cid q heq hd
    cases heq
    obtain ⟨-, hready, -⟩ := hg
    cases phase with
    | boot => exact hready.2.2 hd
    | install =>
      rcases ((hi.entry e).owner t hready).2.2 with hx | ⟨-, hx⟩
      · cases hx.symm.trans hd
      · cases hx.symm.trans ho
  stays e ha _ hd := hi.deleting_stays ho hg ha hd
  deleted := by
    rintro t' e id heq q hq
    cases heq
    refine hset q ?_
    by_contra hs
    exact hg.1.2.2.2 q ⟨hg.1.2.1, hq, by simpa using hs⟩
  closed := by
    rintro t' es heq e q ha hq hx
    cases heq
    have hu : s.Unsettled e q := ⟨ha, hq, by
      by_contra hs
      exact hset q (by simpa using hs) hx⟩
    have hp : s.Present e := by
      by_contra hn
      exact ((hi.entry e).gone ho ha hn).2.1 q hu
    obtain ⟨⟨p, hp, hpq⟩, hd, hact⟩ := (hg.2 e hp).2.2 ho q hu
    obtain ⟨-, h, hproc, hhq⟩ := hh e p hp
    exact ⟨hd, hact, h, hproc, hhq.trans hpq⟩

theorem Orderly.of_other (hev : ∀ t o, ev ≠ .op t o)
    (hr : ∀ e, s.Alive e → s'.Alive e → s'.record e = s.record e) : Orderly cfg s ev s' where
  closing t e phase cid q h := absurd h (hev _ _)
  deleting t e phase cid q h := absurd h (hev _ _)
  stays e ha ha' hd := by rw [hr e ha ha']; exact hd
  deleted t e id h := absurd h (hev _ _)
  closed t es h := absurd h (hev _ _)

theorem Orderly.of_step (hi : Inv s) (ho : s.overtaken = false)
    (hset : s.SettledEnded) (hh : ∀ e, s.Handled e) (hst : StepOf cfg s ev s') :
    Orderly cfg s ev s' := by
  cases hst with
  | op hg => exact .of_op hi ho hset hh hg
  | call => exact .of_other (fun _ _ h => by cases h) fun _ _ _ => rfl
  | env hx =>
    refine .of_other (fun _ _ h => by cases h) fun e _ ha' => ?_
    rcases outside_split hx with _ | _
    · exact absurd rfl ha'
    · rfl

namespace Sample

def allocated : List Move :=
  withNetwork ++ [.call (.create { name := "one", network := "a" })] ++ oks 2 1 ++
    [.go 2 (.ids "01" "machine")]

def provisioned : List Move := oks 2 2 ++ [.go 2 (.ids "key" "")] ++ oks 2 12

def deletedFirst : List Move :=
  allocated ++ [.call (.delete "01")] ++ oks 3 17 ++ provisioned

end Sample
open Sample

end VmManager.Vm
