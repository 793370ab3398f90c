import VmManager.Vm.Deletion

/-! Port forwards. A forward that is open stands in the list of its entry, or it is in the hands of one
goroutine: the Forward call that opened it, or the teardown that took the list under opMu. -/
namespace VmManager.Vm
open Encoding Attest Interleaving List Function Vm.System Op
variable {cfg : Config} {s s' : System} {t t' e k : Nat} {op o : Op} {id : String} {l : List Op}

theorem Forwards.take_registered (f : Forwards) (e e' : Nat) :
    (f.take e).registered e' = if e' = e then [] else f.registered e' := update_apply ..

theorem Forwards.take_released (f : Forwards) (e e' : Nat) :
    (f.take e).released e' = if e' = e then true else f.released e' := update_apply ..

def Op.forwarding : Op → Bool
  | .release .. | .forward _ => true
  | _ => false

theorem System.forwards_other (hop : op.forwarding = false) : (s.effect t op).forwards = s.forwards ∧
      ∀ t', ((s.effect t op).books t').holding = (s.books t').holding := by
  have hheld : ((s.books t).enter op).holding = (s.books t).holding := by
    cases op with
    | release | forward => cases hop
    | update e u => cases u <;> rfl
    | net o => cases o <;> rfl
    | host o => cases o <;> rfl
    | _ => rfl
  refine ⟨?_, books_field (fun b => b.holding) t hheld⟩
  cases op with
  | release | forward => cases hop
  | _ => rfl

/-- A forward is put into the list of its entry before a teardown takes the list. -/
def RegistersInTime (s : System) : Event → Prop
  | .op _ (.forward (.register e _)) => s.forwards.released e = false
  | _ => True

structure Forwarding (s : System) : Prop where
  opened : ∀ t e k, .forward (.opened e k) ∈ s.deeds t → k < s.forwards.next ∧ s.forwards.owner k = e
  opener : ∀ t t' e e' k, .forward (.opened e k) ∈ s.deeds t → .forward (.opened e' k) ∈ s.deeds t' → t = t'
  listed : ∀ e, ∀ k ∈ s.forwards.registered e, k < s.forwards.next ∧ s.forwards.owner k = e
  held : ∀ t, ∀ k ∈ (s.books t).holding, k < s.forwards.next ∧ (.forward (.opened (s.forwards.owner k) k) ∈ s.deeds t ∨
      (s.entries (s.forwards.owner k)).opMu = some t)
  kept : ∀ k < s.forwards.next, s.forwards.closed k = false →
    k ∈ s.forwards.registered (s.forwards.owner k) ∨ ∃ t, k ∈ (s.books t).holding
  taken : ∀ t e ks, .release e ks ∈ s.deeds t → s.forwards.released e = true
  released : ∀ e, s.forwards.released e = true → s.forwards.registered e = []
  deleted : ∀ t e id, .deleteReturns e id ∈ s.deeds t → s.forwards.released e = true ∧
    ∀ t', ∀ k ∈ (s.books t').holding, s.forwards.owner k = e → .forward (.opened e k) ∈ s.deeds t'

namespace Forwarding

theorem held_mono (h : Forwarding s) (hi : Inv s) (hg : op.Guard cfg s t)
    (hb : (s.books t).Allows op) (hk : k ∈ (s.books t').holding) :
    .forward (.opened (s.forwards.owner k) k) ∈ (s.effect t op).deeds t' ∨
      ((s.effect t op).entries (s.forwards.owner k)).opMu = some t' := by
  rcases (h.held t' k hk).2 with hopened | hmu
  · exact .inl (mem_deeds_effect hopened)
  · rcases opMu_kept hi hg hmu with hmu | ⟨rfl, rfl⟩
    · exact .inr hmu
    · have hnil : (s.books t').holding = [] := hb.1
      rw [hnil] at hk
      cases hk

theorem other (h : Forwarding s) (hi : Inv s) (hg : op.Guard cfg s t) (hb : (s.books t).Allows op)
    (hcur : s.acts t = s.deeds t) (hop : op.forwarding = false) : Forwarding (s.effect t op) := by
  obtain ⟨hf, hheld⟩ := forwards_other (s := s) (t := t) hop
  have hold : ∀ {o : Op} {t' : Nat}, o.forwarding = true → o ∈ (s.effect t op).deeds t' →
      o ∈ s.deeds t' := by
    intro o t' ho hmem
    rcases mem_deeds_cases hmem with hmem | ⟨-, rfl⟩
    · exact hmem
    · cases ho.symm.trans hop
  refine ⟨fun t' e k hmem => ?_, fun t₁ t₂ e e' k h₁ h₂ => ?_, ?_, fun t' k hk => ?_, fun k hk hc => ?_,
    fun t' e ks hmem => ?_, ?_, fun t' e id hmem => ?_⟩
  · rw [hf]
    exact h.opened t' e k (hold rfl hmem)
  · exact h.opener t₁ t₂ e e' k (hold rfl h₁) (hold rfl h₂)
  · rw [hf]
    exact h.listed
  · rw [hheld] at hk
    rw [hf]
    exact ⟨(h.held t' k hk).1, h.held_mono hi hg hb hk⟩
  · rw [hf] at hk hc ⊢
    refine (h.kept k hk hc).imp_right fun ⟨t', ht'⟩ => ⟨t', ?_⟩
    rw [hheld]
    exact ht'
  · rw [hf]
    exact h.taken t' e ks (hold rfl hmem)
  · rw [hf]
    exact h.released
  · have hnow : s.forwards.released e = true ∧ ∀ t', ∀ k ∈ (s.books t').holding,
        s.forwards.owner k = e → .forward (.opened e k) ∈ s.deeds t' := by
      rcases mem_deeds_cases hmem with hmem | ⟨rfl, rfl⟩
      · exact h.deleted t' e id hmem
      obtain ⟨⟨hmu, -⟩, -, -, -, -, ks, hks⟩ := hg
      rw [hcur] at hks
      refine ⟨h.taken t' e ks hks, fun t₂ k hk howner => ?_⟩
      have hclaim := (h.held t₂ k hk).2
      rw [howner] at hclaim
      refine hclaim.resolve_right fun hmu₂ => ?_
      cases Option.some.inj (hmu₂.symm.trans hmu)
      have hnil : (s.books t').holding = [] := hb
      rw [hnil] at hk
      cases hk
    rw [hf]
    refine ⟨hnow.1, fun t₂ k hk howner => mem_deeds_effect ?_⟩
    rw [hheld] at hk
    exact hnow.2 t₂ k hk howner

theorem release {ks : List Nat} (h : Forwarding s) (hi : Inv s)
    (hg : (release e ks).Guard cfg s t) (hb : (s.books t).Allows (.release e ks)) :
    Forwarding (s.effect t (.release e ks)) := by
  have hks : ks = s.forwards.registered e := hg.2.2
  have hnil : (s.books t).holding = [] := hb.1
  have hf : (s.effect t (.release e ks)).forwards = s.forwards.take e := rfl
  have hmine : ∀ t' k, k ∈ ((s.effect t (.release e ks)).books t').holding →
      (t' = t ∧ k ∈ s.forwards.registered e) ∨ k ∈ (s.books t').holding := by
    intro t' k hk
    rcases s.books_cases t (.release e ks) t' with ⟨rfl, hbt⟩ | ⟨-, hbt⟩
    · rw [hbt] at hk
      exact .inl ⟨rfl, hks ▸ hk⟩
    · rw [hbt] at hk
      exact .inr hk
  refine ⟨fun t' e' k hmem => h.opened t' e' k (mem_deeds_of_ne hmem nofun),
    fun t₁ t₂ e₁ e₂ k h₁ h₂ =>
      h.opener t₁ t₂ e₁ e₂ k (mem_deeds_of_ne h₁ nofun) (mem_deeds_of_ne h₂ nofun),
    fun e' k hk => ?_, fun t' k hk => ?_, fun k hk hc => ?_, fun t' e' ks' hmem => ?_, fun e' hr => ?_,
    fun t' e' id hmem => ?_⟩
  · rw [hf, Forwards.take_registered] at hk
    split at hk
    · cases hk
    · exact h.listed e' k hk
  · rcases hmine t' k hk with ⟨rfl, hlist⟩ | hold
    · obtain ⟨hlt, howner⟩ := h.listed e k hlist
      have hmu := (opMu_kept hi hg hg.2.1).resolve_right fun hx => nomatch hx.1
      exact ⟨hlt, .inr ((congrArg (fun x => (entries _ x).opMu) howner).trans hmu)⟩
    · exact ⟨(h.held t' k hold).1, h.held_mono hi hg hb hold⟩
  · rw [hf, Forwards.take_registered]
    rcases h.kept k hk hc with hlist | ⟨t', hold⟩
    · split
      · rename_i howner
        have howner : s.forwards.owner k = e := howner
        rw [howner] at hlist
        refine .inr ⟨t, ?_⟩
        rw [books_effect]
        exact hks ▸ hlist
      · exact .inl hlist
    · have hne : t' ≠ t := by
        rintro rfl
        rw [hnil] at hold
        cases hold
      refine .inr ⟨t', ?_⟩
      rw [s.books_other _ hne]
      exact hold
  · rw [hf, Forwards.take_released]
    split
    · rfl
    · rename_i he
      refine h.taken t' e' ks' (mem_deeds_of_ne hmem fun hx => he ?_)
      cases hx
      rfl
  · rw [hf, Forwards.take_released] at hr
    rw [hf, Forwards.take_registered]
    split
    · rfl
    · rename_i he
      rw [if_neg he] at hr
      exact h.released e' hr
  · obtain ⟨hr, hopen⟩ := h.deleted t' e' id (mem_deeds_of_ne hmem nofun)
    refine ⟨?_, fun t₂ k hk howner => mem_deeds_effect ?_⟩
    · rw [hf, Forwards.take_released, hr, ite_self]
    · rcases hmine t₂ k hk with ⟨rfl, hlist⟩ | hold
      · have he : e = e' := (h.listed e k hlist).2.symm.trans howner
        rw [he, h.released e' hr] at hlist
        cases hlist
      · exact hopen t₂ k hold howner

theorem opens (h : Forwarding s) (hi : Inv s) (hg : (Op.forward (.opened e k)).Guard cfg s t)
    (hb : (s.books t).Allows (.forward (.opened e k))) :
    Forwarding (s.effect t (.forward (.opened e k))) := by
  obtain rfl : k = s.forwards.next := hg.2
  have hnew : (s.effect t (.forward (.opened e s.forwards.next))).forwards =
      (ForwardOp.opened e s.forwards.next).apply s.forwards := rfl
  have howner : ∀ k < s.forwards.next,
      ((ForwardOp.opened e s.forwards.next).apply s.forwards).owner k = s.forwards.owner k :=
    fun k hk => update_of_ne hk.ne _ _
  have hmine : ((ForwardOp.opened e s.forwards.next).apply s.forwards).owner s.forwards.next = e := update_self ..
  have hdid : .forward (.opened e s.forwards.next) ∈
      (s.effect t (.forward (.opened e s.forwards.next))).deeds t := by
    rw [deeds_effect, if_pos ⟨rfl, rfl⟩]
    exact mem_cons_self
  have hheld : ∀ t' k, k ∈ ((s.effect t (.forward (.opened e s.forwards.next))).books t').holding →
      (t' = t ∧ k = s.forwards.next) ∨ k ∈ (s.books t').holding := by
    intro t' k hk
    rcases s.books_cases t (.forward (.opened e s.forwards.next)) t' with ⟨rfl, hbt⟩ | ⟨-, hbt⟩
    · rw [hbt] at hk
      exact (mem_cons.1 hk).imp_left fun hx => ⟨rfl, hx⟩
    · rw [hbt] at hk
      exact .inr hk
  have hkeep : ∀ t' k, k ∈ (s.books t').holding →
      k ∈ ((s.effect t (.forward (.opened e s.forwards.next))).books t').holding := by
    intro t' k hk
    rcases s.books_cases t (.forward (.opened e s.forwards.next)) t' with ⟨rfl, hbt⟩ | ⟨-, hbt⟩
    · rw [hbt]
      exact mem_cons_of_mem _ hk
    · rw [hbt]
      exact hk
  refine ⟨fun t' e' k hmem => ?_, fun t₁ t₂ e₁ e₂ k h₁ h₂ => ?_, fun e' k hk => ?_, fun t' k hk => ?_,
    fun k hk hc => ?_, fun t' e' ks hmem => h.taken t' e' ks (mem_deeds_of_ne hmem nofun),
    h.released, fun t' e' id hmem => ?_⟩
  · rcases mem_deeds_cases hmem with hold | ⟨-, hx⟩
    · obtain ⟨hlt, ho⟩ := h.opened t' e' k hold
      exact ⟨hlt.trans (Nat.lt_succ_self _), (howner k hlt).trans ho⟩
    · cases hx
      exact ⟨Nat.lt_succ_self _, hmine⟩
  · rcases mem_deeds_cases h₁ with old₁ | ⟨rfl, hx₁⟩ <;>
      rcases mem_deeds_cases h₂ with old₂ | ⟨rfl, hx₂⟩
    · exact h.opener t₁ t₂ e₁ e₂ k old₁ old₂
    · cases hx₂
      exact absurd (h.opened t₁ e₁ _ old₁).1 (lt_irrefl _)
    · cases hx₁
      exact absurd (h.opened t₂ e₂ _ old₂).1 (lt_irrefl _)
    · rfl
  · obtain ⟨hlt, ho⟩ := h.listed e' k hk
    exact ⟨hlt.trans (Nat.lt_succ_self _), (howner k hlt).trans ho⟩
  · rw [hnew]
    rcases hheld t' k hk with ⟨rfl, rfl⟩ | hold
    · rw [hmine]
      exact ⟨Nat.lt_succ_self _, .inl hdid⟩
    · have hlt := (h.held t' k hold).1
      rw [howner k hlt]
      exact ⟨hlt.trans (Nat.lt_succ_self _), h.held_mono hi hg hb hold⟩
  · rw [hnew] at hk hc ⊢
    by_cases hne : k = s.forwards.next
    · subst hne
      refine .inr ⟨t, ?_⟩
      rw [books_effect]
      exact mem_cons_self
    · have hlt : k < s.forwards.next := lt_of_le_of_ne (Nat.le_of_lt_succ hk) hne
      rw [howner k hlt]
      have hc : update s.forwards.closed s.forwards.next false k = false := hc
      rw [update_of_ne hne] at hc
      exact (h.kept k hlt hc).imp_right fun ⟨t', ht'⟩ => ⟨t', hkeep t' k ht'⟩
  · obtain ⟨hr, hopen⟩ := h.deleted t' e' id (mem_deeds_of_ne hmem nofun)
    refine ⟨hr, fun t₂ k hk ho => ?_⟩
    rw [hnew] at ho
    rcases hheld t₂ k hk with ⟨rfl, rfl⟩ | hold
    · rw [← hmine.symm.trans ho]
      exact hdid
    · rw [howner k (h.held t₂ k hold).1] at ho
      exact mem_deeds_effect (hopen t₂ k hold ho)

theorem erase {f : ForwardOp} (hf : ∀ ks, f.left ks = ks.erase k) (t' k' : Nat) :
    (k' ∈ ((s.effect t (.forward f)).books t').holding → k' ∈ (s.books t').holding) ∧
      (k' ≠ k → k' ∈ (s.books t').holding → k' ∈ ((s.effect t (.forward f)).books t').holding) := by
  rcases s.books_cases t (.forward f) t' with ⟨rfl, hbt⟩ | ⟨-, hbt⟩
  · rw [hbt, show ((s.books t').enter (.forward f)).holding = f.left (s.books t').holding from rfl, hf]
    exact ⟨mem_of_mem_erase, fun hne hk => (mem_erase_of_ne hne).2 hk⟩
  · rw [hbt]
    exact ⟨fun hk => hk, fun _ hk => hk⟩

theorem registers (h : Forwarding s) (hi : Inv s) (hg : (Op.forward (.register e k)).Guard cfg s t)
    (hb : (s.books t).Allows (.forward (.register e k))) (hcur : s.acts t = s.deeds t)
    (hr : s.forwards.released e = false) : Forwarding (s.effect t (.forward (.register e k))) := by
  have hopened : .forward (.opened e k) ∈ s.deeds t := by
    obtain ⟨l, hl⟩ := hg
    rw [← hcur, hl]
    exact mem_cons_self
  obtain ⟨hlt, howner⟩ := h.opened t e k hopened
  have hlist : ∀ e', (s.effect t (.forward (.register e k))).forwards.registered e' =
      if e' = e then s.forwards.registered e ++ [k] else s.forwards.registered e' :=
    fun e' => update_apply ..
  refine ⟨fun t' e' k' hmem => h.opened t' e' k' (mem_deeds_of_ne hmem nofun),
    fun t₁ t₂ e₁ e₂ k' h₁ h₂ =>
      h.opener t₁ t₂ e₁ e₂ k' (mem_deeds_of_ne h₁ nofun) (mem_deeds_of_ne h₂ nofun),
    fun e' k' hk => ?_, fun t' k' hk => ?_, fun k' hk hc => ?_,
    fun t' e' ks hmem => h.taken t' e' ks (mem_deeds_of_ne hmem nofun), fun e' hr' => ?_,
    fun t' e' id hmem => ?_⟩
  · rw [hlist] at hk
    split at hk
    · rename_i he
      subst he
      rcases mem_append.1 hk with hk | hk
      · exact h.listed e' k' hk
      · cases mem_singleton.1 hk
        exact ⟨hlt, howner⟩
    · exact h.listed e' k' hk
  · have hold := (erase (k := k) (fun _ => rfl) t' k').1 hk
    exact ⟨(h.held t' k' hold).1, h.held_mono hi hg hb hold⟩
  · rw [hlist]
    rcases h.kept k' hk hc with hreg | ⟨t', hold⟩
    · left
      split
      · rename_i he
        exact mem_append_left _ (he ▸ hreg)
      · exact hreg
    · by_cases hne : k' = k
      · subst hne
        left
        split
        · exact mem_append_right _ mem_cons_self
        · exact absurd howner ‹_›
      · exact .inr ⟨t', (erase (k := k) (fun _ => rfl) t' k').2 hne hold⟩
  · have hne : e' ≠ e := by
      rintro rfl
      cases hr.symm.trans hr'
    rw [hlist, if_neg hne]
    exact h.released e' hr'
  · obtain ⟨hrel, hopen⟩ := h.deleted t' e' id (mem_deeds_of_ne hmem nofun)
    refine ⟨hrel, fun t₂ k' hk ho => mem_deeds_effect ?_⟩
    exact hopen t₂ k' ((erase (k := k) (fun _ => rfl) t₂ k').1 hk) ho

theorem closes (h : Forwarding s) (hi : Inv s) (hg : (Op.forward (.close k)).Guard cfg s t)
    (hb : (s.books t).Allows (.forward (.close k))) : Forwarding (s.effect t (.forward (.close k))) := by
  refine ⟨fun t' e' k' hmem => h.opened t' e' k' (mem_deeds_of_ne hmem nofun),
    fun t₁ t₂ e₁ e₂ k' h₁ h₂ =>
      h.opener t₁ t₂ e₁ e₂ k' (mem_deeds_of_ne h₁ nofun) (mem_deeds_of_ne h₂ nofun),
    h.listed, fun t' k' hk => ?_, fun k' hk hc => ?_,
    fun t' e' ks hmem => h.taken t' e' ks (mem_deeds_of_ne hmem nofun), h.released, fun t' e' id hmem => ?_⟩
  · have hold := (erase (k := k) (fun _ => rfl) t' k').1 hk
    exact ⟨(h.held t' k' hold).1, h.held_mono hi hg hb hold⟩
  · have hc : update s.forwards.closed k true k' = false := hc
    have hne : k' ≠ k := by
      rintro rfl
      rw [update_self] at hc
      cases hc
    rw [update_of_ne hne] at hc
    exact (h.kept k' hk hc).imp_right fun ⟨t', hold⟩ =>
      ⟨t', (erase (k := k) (fun _ => rfl) t' k').2 hne hold⟩
  · obtain ⟨hrel, hopen⟩ := h.deleted t' e' id (mem_deeds_of_ne hmem nofun)
    refine ⟨hrel, fun t₂ k' hk ho => mem_deeds_effect ?_⟩
    exact hopen t₂ k' ((erase (k := k) (fun _ => rfl) t₂ k').1 hk) ho

theorem effect (h : Forwarding s) (hi : Inv s) (hg : op.Guard cfg s t) (hb : (s.books t).Allows op)
    (hcur : s.acts t = s.deeds t) (hk : RegistersInTime s (.op t op)) :
    Forwarding (s.effect t op) := by
  cases op with
  | release e ks => exact h.release hi hg hb
  | forward o =>
    cases o with
    | opened e k => exact h.opens hi hg hb
    | register e k => exact h.registers hi hg hb hcur hk
    | close k => exact h.closes hi hg hb
  | _ => exact h.other hi hg hb hcur rfl

theorem congr (h : Forwarding s) (hdeeds : ∀ t, s'.deeds t = s.deeds t)
    (hf : s'.forwards = s.forwards) (hent : s'.entries = s.entries) : Forwarding s' := by
  have hbooks : ∀ t, s'.books t = s.books t := fun t => by rw [System.books, hdeeds, System.books]
  constructor <;> simp only [hdeeds, hbooks, hf, hent]
  · exact h.opened
  · exact h.opener
  · exact h.listed
  · exact h.held
  · exact h.kept
  · exact h.taken
  · exact h.released
  · exact h.deleted

theorem none (hdeeds : ∀ t, s.deeds t = []) (hf : s.forwards = {}) : Forwarding s := by
  have hbooks : ∀ t, s.books t = {} := fun t => by rw [System.books, hdeeds]; rfl
  constructor <;> simp [hdeeds, hbooks, hf]

theorem outside {x : Outside} {n : Nat} (h : Forwarding s) (hx : s.outside n x = some s') :
    Forwarding (s'.noting x s) := by
  rcases outside_split hx with _ | ⟨hne, ho⟩
  · exact none (fun _ => rfl) rfl
  · exact h.congr (s.deeds_outside _ hne) ho.forwards ho.entries

end Forwarding

theorem forwards_end_with_vm (cfg : Config) {pool : Pool} (h : Runs cfg RegistersInTime pool)
    (ho : .forward (.opened e k) ∈ pool.shared.deeds t) (hr : (pool.shared.deeds t).head? = some .returned)
    (hd : .deleteReturns e id ∈ pool.shared.deeds t') : pool.shared.forwards.closed k = true := by
  have hf : Forwarding pool.shared :=
    Runs.invariant (I := Forwarding) (.none (fun _ => rfl) rfl)
      (fun _ t o hi hI hg hk => hI.effect hi hg hk.1 (hk.2.1 t o rfl) hk.2.2)
      (fun _ _ _ _ _ hI _ hx => hI.outside hx) h.current.booked
  obtain ⟨hlt, howner⟩ := hf.opened t e k ho
  obtain ⟨hreleased, hopen⟩ := hf.deleted t' e id hd
  by_contra hc
  rcases hf.kept k hlt (by simpa using hc) with hlist | ⟨t₂, hheld⟩
  · rw [howner, hf.released e hreleased] at hlist
    cases hlist
  · have hsame := hf.opener t t₂ e e k ho (hopen t₂ k hheld howner)
    rw [← hsame, (h.accounts.returned t hr).2] at hheld
    cases hheld

instance (ev : Event) : Decidable (RegistersInTime s ev) := by
  unfold RegistersInTime
  split <;> infer_instance

namespace Sample

/-- A VM whose installer failed, and the first steps of a Forward to its guest. -/
def forwarding (n : Nat) : List Move :=
  withNetwork ++ creates 2 { name := "one", network := "a" } "01" ++ oks 2 2 ++
    [.env (.exit 0 ⟨1, ""⟩), .go 3 (.exited {})] ++ oks 3 5 ++ [.call (.forward "01" 22)] ++ oks 4 n

end Sample
open Sample

theorem forwards_end_with_vm_registered : ∃ pool, Runs config RegistersInTime pool ∧
      (.forward (.opened 0 0) ∈ pool.shared.deeds 4 ∧ (pool.shared.deeds 4).head? = some .returned ∧
        .deleteReturns 0 "01" ∈ pool.shared.deeds 5) ∧ pool.shared.forwards.closed 0 = true :=
  Runs.witness (forwarding 6 ++ [.call (.delete "01")] ++ oks 5 19) (by decide +kernel)
    fun _ hrun hp => forwards_end_with_vm config hrun hp.1 hp.2.1 hp.2.2

theorem forward_survives_delete : ∃ pool, Runs config (fun _ _ => True) pool ∧
      .forward (.opened 0 0) ∈ pool.shared.deeds 4 ∧
      (pool.shared.deeds 4).head? = some .returned ∧ .deleteReturns 0 "01" ∈ pool.shared.deeds 5 ∧
      (pool.shared.deeds 5).head? = some .returned ∧ pool.shared.forwards.closed 0 = false :=
  Runs.sample (forwarding 4 ++ [.call (.delete "01")] ++ oks 5 18 ++ oks 4 2) (by decide +kernel)

end VmManager.Vm
