import VmManager.Vm.Forwards

/-! What the service keeps of a VM in memory besides its entry: its last report and the count of them,
the key and the results of the verifier, and the nonces. Delete clears the three stores one after the
other, once it has removed the VM. -/
namespace VmManager.Vm
open Encoding Attest Interleaving List Function Vm.System Option GoMap
variable {cfg : Config} {s s' : System} {t t' e : Nat} {op o : Op} {id : String}

structure System.Forgotten (s : System) (id : String) : Prop where
  report : s.metrics.get id = none
  key : s.verifier.pinned id = none
  results : ∀ stage, s.verifier.result id stage = none
  nonces : s.verifier.nonces.outstanding id = []

def System.Clear (s : System) : Op → Prop
  | .metrics (.forget id) => s.metrics.get id = none
  | .attest (.forgetState id) => s.verifier.vms id = none
  | .attest (.forgetNonces id) => s.verifier.nonces.outstanding id = []
  | _ => True

def Op.fills (id : String) : Op → Bool
  | .metrics (.store id' _) | .attest (.issue id' _) | .attest (.enroll id' _ _ _)
  | .attest (.store id' _ _) => id' == id
  | _ => false

/-- Metadata requests put something into the stores only for a VM that the service knows at that moment,
and Create draws ids that are new to the service. -/
def Op.ForKnown (s : System) (o : Op) : Prop := ∀ id, o.fills id = true → s.vms.get id ≠ none

def Op.forKnown (s : System) : Op → Bool
  | .metrics (.store id _) | .attest (.issue id _) | .attest (.enroll id _ _ _)
  | .attest (.store id _ _) => (s.vms.get id).isSome
  | _ => true

def ForgetsFully (s : System) : Event → Prop
  | .op _ o => o.FreshId s ∧ o.ForKnown s
  | _ => True

theorem enroll_set (v : Verifier) (vmID : String) (stage : Stage) (fingerprint : Text) :
    ∃ st, (v.enroll vmID stage fingerprint).2 = v.set vmID st := by
  unfold Verifier.enroll
  dsimp only
  split
  · exact ⟨_, rfl⟩
  · split <;> exact ⟨_, rfl⟩

namespace System

theorem metrics_stays (h : s.metrics.get id = none) (hop : op.fills id = false) :
    (s.effect t op).metrics.get id = none := by
  cases op with
  | metrics o =>
    cases o with
    | store id' data =>
      have hne : id' ≠ id := beq_eq_false_iff_ne.1 hop
      change GoMap.get (s.metrics.insert id' _) id = none
      rw [get_insert, if_neg hne.symm]
      exact h
    | forget id' =>
      change GoMap.get (s.metrics.erase id') id = none
      rw [get_erase, h, ite_self]
  | _ => exact h

theorem state_stays (h : s.verifier.vms id = none) (hop : op.fills id = false) :
    (s.effect t op).verifier.vms id = none := by
  cases op with
  | attest o =>
    cases o with
    | enroll id' stage fingerprint ok =>
      have hne : id' ≠ id := beq_eq_false_iff_ne.1 hop
      obtain ⟨st, hst⟩ := enroll_set s.verifier id' stage fingerprint
      change (s.verifier.enroll id' stage fingerprint).2.vms id = none
      rw [hst]
      exact (update_of_ne hne.symm _ _).trans h
    | store id' stage r =>
      have hne : id' ≠ id := beq_eq_false_iff_ne.1 hop
      exact (update_of_ne hne.symm _ _).trans h
    | forgetState id' =>
      change update s.verifier.vms id' none id = none
      rw [update_apply, h, ite_self]
    | _ => exact h
  | _ => exact h

theorem nonces_stay (h : s.verifier.nonces.outstanding id = []) (hop : op.fills id = false) :
    (s.effect t op).verifier.nonces.outstanding id = [] := by
  refine eq_nil_iff_forall_not_mem.2 fun n hn => ?_
  have hold : n ∈ s.verifier.nonces.outstanding id := by
    cases op with
    | attest o =>
      cases o with
      | issue id' nonce =>
        have hne : id' ≠ id := beq_eq_false_iff_ne.1 hop
        exact (Nonce.Store.outstanding_issue hn).resolve_right fun hx => hne hx.1.symm
      | consume => exact Nonce.Store.outstanding_consume hn
      | forgetNonces => exact Nonce.Store.outstanding_forget hn
      | enroll id' stage fingerprint ok =>
        obtain ⟨st, hst⟩ := enroll_set s.verifier id' stage fingerprint
        change n ∈ (s.verifier.enroll id' stage fingerprint).2.nonces.outstanding id at hn
        rw [hst] at hn
        exact hn
      | _ => exact hn
    | _ => exact hn
  rw [h] at hold
  cases hold

theorem Clear.effect (ho : o ∈ forgets id) (h : s.Clear o) (hop : op.fills id = false) :
    (s.effect t op).Clear o := by
  simp only [forgets, mem_cons, not_mem_nil, or_false] at ho
  rcases ho with rfl | rfl | rfl
  · exact nonces_stay h hop
  · exact state_stays h hop
  · exact metrics_stays h hop

theorem Clear.congr (ho : o ∈ forgets id) (h : s.Clear o) (hm : s'.metrics = s.metrics)
    (hv : s'.verifier = s.verifier) : s'.Clear o := by
  simp only [forgets, mem_cons, not_mem_nil, or_false] at ho
  rcases ho with rfl | rfl | rfl
  · rw [Clear, hv]
    exact h
  · rw [Clear, hv]
    exact h
  · rw [Clear, hm]
    exact h

theorem clear_of_forgets (ho : o ∈ forgets id) : (s.effect t o).Clear o := by
  simp only [forgets, mem_cons, not_mem_nil, or_false] at ho
  rcases ho with rfl | rfl | rfl
  · change (update s.verifier.nonces.byVM id [] id).map Prod.fst = []
    rw [update_self, map_nil]
  · exact update_self ..
  · change GoMap.get (s.metrics.erase id) id = none
    rw [get_erase, if_pos rfl]

theorem gone_of_forgets (ho : o ∈ forgets id) (hg : o.Guard cfg s t) : s.Gone id := by
  have hforsakes : s.Forsakes t id := by
    simp only [forgets, mem_cons, not_mem_nil, or_false] at ho
    rcases ho with rfl | rfl | rfl <;> exact hg
  obtain ⟨e, hid, hv, -, hp⟩ := hforsakes
  exact ⟨e, ⟨hv.2.1, hid⟩, hp⟩

theorem forgotten_of_clear (h : ∀ o ∈ forgets id, s.Clear o) : s.Forgotten id := by
  have hstate : s.verifier.vms id = none := h (.attest (.forgetState id)) (mem_cons_of_mem _ mem_cons_self)
  exact {
    report := h (.metrics (.forget id)) (.tail _ (.tail _ (.head _)))
    key := by rw [Verifier.pinned, hstate]
    results := fun stage => by rw [Verifier.result, hstate, bind_none]
    nonces := h (.attest (.forgetNonces id)) mem_cons_self }

theorem Gone.not_filled (h : s.Gone id) (hd : s.Distinct) (hi : Inv s) (hk : op.ForKnown s) :
    op.fills id = false := by
  by_contra hf
  obtain ⟨e, he⟩ := ne_none_iff_exists'.1 (hk id (by simpa using hf))
  obtain ⟨ha, hid⟩ := hi.vms id e he
  subst hid
  exact h.not_present hd ha he

end System

structure Forgets (s : System) : Prop where
  distinct : s.Distinct
  clear : ∀ t id, ∀ o ∈ forgets id, o ∈ s.deeds t → s.Gone id ∧ s.Clear o
  all : ∀ t e id, .deleteReturns e id ∈ s.deeds t → ∀ o ∈ forgets id, o ∈ s.deeds t

namespace Forgets

theorem effect (h : Forgets s) (hi : Inv s) (hg : op.Guard cfg s t) (hcur : s.acts t = s.deeds t)
    (hk : ForgetsFully s (.op t op)) : Forgets (s.effect t op) where
  distinct := h.distinct.effect hi hg hk.1
  clear t' id o ho hmem := by
    rcases mem_deeds_cases hmem with hmem | ⟨rfl, rfl⟩
    · obtain ⟨hgone, hclear⟩ := h.clear t' id o ho hmem
      have hfills := hgone.not_filled h.distinct hi hk.2
      exact ⟨hgone.later hi (hi.later hg), hclear.effect ho hfills⟩
    · have hgone := gone_of_forgets ho hg
      exact ⟨hgone.later hi (hi.later hg), clear_of_forgets ho⟩
  all t' e id hmem o ho := by
    refine mem_deeds_effect ?_
    rcases mem_deeds_cases hmem with hmem | ⟨rfl, rfl⟩
    · exact h.all t' e id hmem o ho
    · obtain ⟨-, -, -, -, hforgets, -⟩ := hg
      rw [← hcur]
      exact hforgets o ho

theorem outside {x : Outside} {n : Nat} (h : Forgets s) (hx : s.outside n x = some s') :
    Forgets (s'.noting x s) := by
  have hdist := h.distinct.outside hx
  rcases outside_split hx with _ | ⟨hne, ho⟩
  · exact ⟨hdist, fun _ _ _ _ hmem => absurd hmem not_mem_nil, fun _ _ _ hmem => absurd hmem not_mem_nil⟩
  · refine ⟨hdist, fun t id o hmem hdid => ?_, fun t e id hdid o hmem => ?_⟩
    · rw [s.deeds_outside _ hne] at hdid
      obtain ⟨hgone, hclear⟩ := h.clear t id o hmem hdid
      exact ⟨ho.gone hgone, hclear.congr hmem ho.metrics ho.verifier⟩
    · rw [s.deeds_outside _ hne] at hdid ⊢
      exact h.all t e id hdid o hmem

theorem initial : Forgets {} :=
  ⟨.initial, fun _ _ _ _ hmem => absurd hmem not_mem_nil, fun _ _ _ hmem => absurd hmem not_mem_nil⟩

end Forgets

theorem delete_forgets (cfg : Config) {pool : Pool}
    (h : Runs cfg ForgetsFully pool) (hd : .deleteReturns e id ∈ pool.shared.deeds t) :
    pool.shared.Forgotten id := by
  have hf : Forgets pool.shared :=
    Runs.invariant (I := Forgets) .initial
      (fun _ t o hi hI hg hk => hI.effect hi hg (hk.1 t o rfl) hk.2)
      (fun _ _ _ _ _ hI _ hx => hI.outside hx) h.current
  exact forgotten_of_clear fun o ho => (hf.clear t id o ho (hf.all t e id hd o ho)).2

theorem Op.forKnown_iff {o : Op} : o.forKnown s = true ↔ o.ForKnown s := by
  unfold Op.forKnown Op.ForKnown
  split <;> simp_all [Op.fills, isSome_iff_ne_none]

instance (o : Op) : Decidable (o.ForKnown s) := decidable_of_iff _ Op.forKnown_iff

instance : ∀ ev, Decidable (ForgetsFully s ev)
  | .op .. | .call _ | .env _ => by delta ForgetsFully; infer_instance

namespace Sample

/-- A VM whose installer failed; a nonce request and a report of its guest are admitted, and the report
is on disk. -/
def admitted : List Move :=
  withNetwork ++ creates 2 { name := "one", network := "a" } "01" ++ oks 2 2 ++
    [.env (.exit 0 ⟨1, ""⟩), .go 3 (.exited {})] ++ oks 3 5 ++
    [.call (.nonce 0 guest), .go 4 (.pick 0)] ++ [.call (.report 0 guest [0x7b, 0x7d]), .go 5 (.pick 0), .go 5 .ok]

def answered : List Move :=
  [.go 4 (.text (Attest.Sample.nonceOf Attest.Sample.quote1))] ++ oks 4 2 ++ oks 5 2

end Sample
open Sample

theorem delete_forgets_answered :
    ∃ pool, Runs config ForgetsFully pool ∧ .deleteReturns 0 "01" ∈ pool.shared.deeds 6 ∧
      pool.shared.Forgotten "01" :=
  Runs.witness (admitted ++ answered ++ [.call (.delete "01")] ++ oks 6 18) (by decide +kernel)
    fun _ hrun hd => delete_forgets config hrun hd

theorem delete_remembers : ∃ pool, Runs config (fun _ _ => True) pool ∧
      (.deleteReturns 0 "01" ∈ pool.shared.deeds 6 ∧
        (∀ t ∈ [4, 5, 6], (pool.shared.deeds t).head? = some .returned) ∧
        (pool.shared.metrics.get "01").isSome = true ∧ pool.shared.verifier.nonces.outstanding "01" ≠ []) ∧
      ¬ pool.shared.Forgotten "01" :=
  Runs.witness (admitted ++ [.call (.delete "01")] ++ oks 6 18 ++ answered) (by decide +kernel)
    fun _ _ hp hforgotten => hp.2.2.2 hforgotten.nonces

end VmManager.Vm
