import Mathlib.Data.List.Nodup
import VmManager.Attest.Nonce

/-! The contract of the nonce store over whole histories of calls, newest first. The map of a VM has no
order, so which of several equally old nonces makes room for a new one is left open; the function
`Store.issue` is one of the choices. -/
namespace VmManager.Nonce
open Encoding List Function Nat Prod
variable {nonce : Text} {after : List Event} {t now : Nat} {e : Text × Nat}

inductive Setting where
  | ttl (d : Int)
  | maxPerVM (n : Int)

def Setting.apply (s : Store) : Setting → Store
  | .ttl d => if 0 < d then { s with ttl := d.toNat } else s
  | .maxPerVM n => if 0 < n then { s with maxPerVM := n.toNat } else s

def Store.new (opts : List Setting) : Store := opts.foldl Setting.apply {}

inductive Event where
  | issue (now : Nat) (vmID : String) (nonce : Text)
  | issueFailed (vmID : String)
  | consume (now : Nat) (vmID : String) (nonce : Text) (ok : Bool)
  | forget (vmID : String)
deriving DecidableEq

def Earliest (issued : Issued) (e : Text × Nat) : Prop := e ∈ issued ∧ ∀ x ∈ issued, e.2 ≤ x.2

inductive MakesRoom (maxPerVM : Nat) : Issued → Issued → Prop where
  | done {issued : Issued} (h : issued.length < maxPerVM) : MakesRoom maxPerVM issued issued
  | drop {issued issued' : Issued} {e : Text × Nat} (h : maxPerVM ≤ issued.length)
      (he : Earliest issued e) (hr : MakesRoom maxPerVM (delete issued e.1) issued') : MakesRoom maxPerVM issued issued'

inductive Step (s : Store) : Event → Store → Prop where
  | issue {now : Nat} {vmID : String} {nonce : Text} {issued : Issued}
      (h : MakesRoom s.maxPerVM ((s.sweep now).byVM vmID) issued) :
      Step s (.issue now vmID nonce) { s.sweep now with
        byVM := update (s.sweep now).byVM vmID ((nonce, now) :: delete issued nonce) }
  | issueFailed {vmID : String} : Step s (.issueFailed vmID) s
  | consume {now : Nat} {vmID : String} {nonce : Text} :
      Step s (.consume now vmID nonce (s.consume now vmID nonce).1) (s.consume now vmID nonce).2
  | forget {vmID : String} : Step s (.forget vmID) (s.forget vmID)

inductive Run (opts : List Setting) : List Event → Store → Prop where
  | start : Run opts [] (.new opts)
  | step {hist : List Event} {s s' : Store} {ev : Event} (h : Run opts hist s) (hs : Step s ev s') :
      Run opts (ev :: hist) s'

def Event.reading : Event → Option Nat
  | .issue now _ _ | .consume now _ _ _ => some now
  | _ => none

def Event.drawn : Event → Option Text
  | .issue _ _ nonce => some nonce
  | _ => none

def Event.issuedTo (vmID : String) : Event → Option (Text × Nat)
  | .issue now vm nonce => if vm = vmID then some (nonce, now) else none
  | _ => none

def issues (vmID : String) (hist : List Event) : Issued := hist.filterMap (Event.issuedTo vmID)

def Increasing (hist : List Event) : Prop := (hist.filterMap Event.reading).Pairwise (· > ·)

def Distinct (hist : List Event) : Prop := (hist.filterMap Event.drawn).Nodup

/-- The nonce was issued to the VM at that time and neither accepted nor forgotten in the calls after
that. -/
def Kept (hist after : List Event) (vmID : String) (nonce : Text) (t : Nat) : Prop :=
  (∃ before, hist = after ++ .issue t vmID nonce :: before) ∧ .forget vmID ∉ after ∧
    ∀ now, .consume now vmID nonce true ∉ after

variable {opts : List Setting} {hist : List Event} {s s' : Store} {ev : Event} {vm : String}
  {issued issued' : Issued} {maxPerVM : Nat}

theorem Store.new_byVM (opts : List Setting) (vmID : String) : (Store.new opts).byVM vmID = [] := by
  have hall : ∀ s : Store, s.byVM vmID = [] → (opts.foldl Setting.apply s).byVM vmID = [] := by
    induction opts with
    | nil => exact fun _ h => h
    | cons o opts ih =>
      intro s hs
      apply ih
      cases o <;> simp only [Setting.apply] <;> split <;> exact hs
  exact hall {} rfl

theorem delete_sublist (issued : Issued) (nonce : Text) : (delete issued nonce).Sublist issued := filter_sublist

namespace MakesRoom

theorem sublist (h : MakesRoom maxPerVM issued issued') : issued'.Sublist issued := by
  induction h with
  | done => exact .refl _
  | drop _ _ _ ih => exact ih.trans (delete_sublist _ _)

theorem length_lt (h : MakesRoom maxPerVM issued issued') : issued'.length < maxPerVM := by
  induction h with
  | done h => exact h
  | drop _ _ _ ih => exact ih

theorem dropped (h : MakesRoom maxPerVM issued issued') (hkeys : (issued.map fst).Nodup)
    (htimes : issued.Pairwise fun x y => x.2 > y.2) (he : e ∈ issued)
    (hne : e ∉ issued') : maxPerVM ≤ (issued.filter fun x => e.2 < x.2).length + 1 := by
  induction h with
  | done => exact absurd he hne
  | @drop issued issued' e₀ hlen hfirst hroom ih =>
    have hsub := delete_sublist issued e₀.1
    by_cases heq : e.1 = e₀.1
    · have heq : e = e₀ := inj_on_of_nodup_map hkeys he hfirst.1 heq
      subst heq
      have hnewer : (issued.erase e).Sublist (issued.filter fun x => e.2 < x.2) := by
        have hfilter : (issued.erase e).filter (fun x => decide (e.2 < x.2)) = issued.erase e := by
          refine filter_eq_self.2 fun x hx => decide_eq_true ?_
          have hmem := mem_of_mem_erase hx
          have hle := hfirst.2 x hmem
          have hother : x ≠ e := fun h => by
            subst h
            exact (Nodup.of_map _ hkeys).not_mem_erase hx
          have hne : x.2 ≠ e.2 := fun h => hother
            (inj_on_of_nodup_map (f := snd)
              ((pairwise_map.2 htimes).imp Nat.ne_of_gt) hmem he h)
          omega
        rw [← hfilter]
        exact (erase_sublist).filter _
      have hl := hnewer.length_le
      rw [length_erase_of_mem he] at hl
      omega
    · have hl := ih (hkeys.sublist (hsub.map _)) (htimes.sublist hsub) (mem_delete.2 ⟨he, heq⟩) hne
      have hm := (hsub.filter fun x => decide (e.2 < x.2)).length_le
      omega

end MakesRoom

theorem scan_earliest (rest : Issued) (e : Text × Nat) :
    Earliest (e :: rest) (rest.foldl (fun best x => if x.2 < best.2 then x else best) e) := by
  induction rest generalizing e with
  | nil => exact ⟨mem_cons_self, fun x hx => by rw [mem_singleton.1 hx]; exact Nat.le_refl _⟩
  | cons x rest ih =>
    obtain ⟨hmem, hle⟩ := ih (if x.2 < e.2 then x else e)
    rw [foldl_cons]
    have hhead := hle _ mem_cons_self
    have hmin : (if x.2 < e.2 then x else e).2 ≤ e.2 ∧ (if x.2 < e.2 then x else e).2 ≤ x.2 := by
      split <;> omega
    constructor
    · rcases mem_cons.1 hmem with heq | hmem
      · rw [heq]
        split <;> simp
      · simp [hmem]
    · intro y hy
      rcases mem_cons.1 hy with rfl | hy
      · exact Nat.le_trans hhead hmin.1
      · rcases mem_cons.1 hy with rfl | hy
        · exact Nat.le_trans hhead hmin.2
        · exact hle y (mem_cons_of_mem _ hy)

theorem makesRoom_makeRoom (hmax : 0 < maxPerVM) (rounds : Nat) (issued : Issued)
    (hlen : issued.length ≤ rounds) : MakesRoom maxPerVM issued (makeRoom maxPerVM rounds issued) := by
  induction rounds generalizing issued with
  | zero => exact .done (by omega)
  | succ rounds ih =>
    simp only [makeRoom]
    split
    · rename_i hfull
      cases issued with
      | nil =>
        simp only [length_nil] at hfull
        omega
      | cons e rest =>
        have hfirst := scan_earliest rest e
        refine .drop hfull hfirst (ih _ ?_)
        have hless : (delete (e :: rest) (oldest (e :: rest))).length < (e :: rest).length := by
          refine length_filter_lt_length_iff_exists.2 ⟨_, hfirst.1, ?_⟩
          simp [oldest]
        exact le_of_lt_succ (Nat.lt_of_lt_of_le hless hlen)
    · exact .done (by omega)

theorem Store.issue_step (s : Store) (hmax : 0 < s.maxPerVM) (now : Nat) (vmID : String)
    (nonce : Text) : Step s (.issue now vmID nonce) (s.issue now vmID nonce) :=
  .issue (makesRoom_makeRoom hmax _ _ (Nat.le_refl _))

theorem sweep_sublist (s : Store) (now : Nat) (vmID : String) :
    ((s.sweep now).byVM vmID).Sublist (s.byVM vmID) := filter_sublist

theorem lookup_mem (hkeys : (issued.map fst).Nodup) :
    issued.lookup nonce = some t ↔ (nonce, t) ∈ issued := by
  induction issued with
  | nil => simp
  | cons e issued ih =>
    obtain ⟨n, t'⟩ := e
    rw [map_cons, nodup_cons] at hkeys
    rw [lookup_cons, mem_cons, ← ih hkeys.2, Prod.mk.injEq]
    split
    · rename_i heq
      have heq : nonce = n := beq_iff_eq.1 heq
      subst heq
      have hnot : issued.lookup nonce ≠ some t := fun h =>
        hkeys.1 (mem_map.2 ⟨_, (ih hkeys.2).1 h, rfl⟩)
      simp [hnot, eq_comm]
    · rename_i hne
      have hne : nonce ≠ n := beq_eq_false_iff_ne.1 hne
      simp [hne]

theorem mem_consume {vmID : String} (h : e ∈ (s.consume now vmID nonce).2.byVM vm) :
    e ∈ s.byVM vm ∧ (vm = vmID → e.1 ≠ nonce) := by
  have h := (sweep_sublist _ now vm).subset h
  by_cases hvm : vm = vmID
  · subst hvm
    simp only [update_self] at h
    exact ⟨(mem_delete.1 h).1, fun _ => (mem_delete.1 h).2⟩
  · simp only [update_of_ne hvm] at h
    exact ⟨h, fun heq => absurd heq hvm⟩

theorem Step.byVM (h : Step s ev s') (vm : String) :
    (s'.byVM vm).Sublist (s.byVM vm) ∨ ∃ now nonce issued, ev = .issue now vm nonce ∧
      MakesRoom s.maxPerVM ((s.sweep now).byVM vm) issued ∧
      s'.byVM vm = (nonce, now) :: delete issued nonce := by
  cases h with
  | @issue now vmID nonce issued h =>
    by_cases hvm : vm = vmID
    · subst hvm
      exact .inr ⟨now, nonce, issued, rfl, h, update_self ..⟩
    · left
      simp only [update_of_ne hvm]
      exact sweep_sublist s now vm
  | issueFailed => exact .inl (.refl _)
  | @consume now vmID nonce =>
    refine .inl ((sweep_sublist _ now vm).trans ?_)
    by_cases hvm : vm = vmID
    · subst hvm
      simp only [update_self]
      exact delete_sublist _ _
    · simp only [update_of_ne hvm]
      exact .refl _
  | @forget vmID =>
    left
    by_cases hvm : vm = vmID
    · simp [Store.forget, hvm]
    · simp [Store.forget, hvm]

theorem Step.params (h : Step s ev s') : s'.ttl = s.ttl ∧ s'.maxPerVM = s.maxPerVM := by
  cases h <;> exact ⟨rfl, rfl⟩

theorem Step.consumed {ok : Bool} (h : Step s (.consume now vm nonce ok) s') :
    ok = (s.consume now vm nonce).1 ∧ s' = (s.consume now vm nonce).2 := by
  generalize hev : Event.consume now vm nonce ok = ev at h
  cases h with
  | consume =>
    simp only [Event.consume.injEq] at hev
    obtain ⟨rfl, rfl, rfl, hok⟩ := hev
    exact ⟨hok, rfl⟩
  | _ => cases hev

structure Sound (opts : List Setting) (hist : List Event) (s : Store) : Prop where
  ttl : s.ttl = (Store.new opts).ttl
  maxPerVM : s.maxPerVM = (Store.new opts).maxPerVM
  keys : ∀ vm, ((s.byVM vm).map fst).Nodup
  bound : ∀ vm, (s.byVM vm).length ≤ s.maxPerVM
  kept : ∀ vm nonce t, (nonce, t) ∈ s.byVM vm → ∃ after, Kept hist after vm nonce t
  accepted : ∀ now vm nonce, .consume now vm nonce true ∈ hist → ∃ t, .issue t vm nonce ∈ hist

theorem Kept.cons (h : Kept hist after vm nonce t)
    (hf : ev ≠ .forget vm) (hc : ∀ now, ev ≠ .consume now vm nonce true) :
    Kept (ev :: hist) (ev :: after) vm nonce t := by
  obtain ⟨⟨before, hbefore⟩, hforget, hconsume⟩ := h
  refine ⟨⟨before, by rw [hbefore]; rfl⟩, fun hx => ?_, fun now hx => ?_⟩
  · rcases mem_cons.1 hx with heq | hx
    · exact hf heq.symm
    · exact hforget hx
  · rcases mem_cons.1 hx with heq | hx
    · exact hc now heq.symm
    · exact hconsume now hx

namespace Sound

theorem start (opts : List Setting) : Sound opts [] (.new opts) where
  ttl := rfl
  maxPerVM := rfl
  keys vm := by
    rw [Store.new_byVM]
    exact nodup_nil
  bound vm := by
    rw [Store.new_byVM]
    exact Nat.zero_le _
  kept vm nonce t h := by
    rw [Store.new_byVM] at h
    cases h
  accepted _ _ _ h := by cases h

theorem kept_step (h : Sound opts hist s) (hs : Step s ev s')
    (hmem : (nonce, t) ∈ s'.byVM vm) : ∃ after, Kept (ev :: hist) after vm nonce t := by
  have hgo : (nonce, t) ∈ s.byVM vm → ev ≠ .forget vm →
      (∀ now, ev ≠ .consume now vm nonce true) → ∃ after, Kept (ev :: hist) after vm nonce t := by
    intro hold hf hc
    obtain ⟨after, hkept⟩ := h.kept vm nonce t hold
    exact ⟨ev :: after, hkept.cons hf hc⟩
  rcases hs.byVM vm with hsub | ⟨now, n, issued, rfl, hroom, heq⟩
  · refine hgo (hsub.subset hmem) (fun hev => ?_) fun now hev => ?_
    · subst hev
      cases hs
      simp [Store.forget] at hmem
    · subst hev
      rw [hs.consumed.2] at hmem
      exact (mem_consume hmem).2 rfl rfl
  · rw [heq] at hmem
    rcases mem_cons.1 hmem with hnew | hold
    · cases hnew
      exact ⟨[], ⟨hist, rfl⟩, not_mem_nil, fun _ => not_mem_nil⟩
    · have hold := hroom.sublist.subset (mem_delete.1 hold).1
      exact hgo ((sweep_sublist s now vm).subset hold) (by simp) (by simp)

theorem accepts (h : Sound opts hist s) (hs : Step s (.consume now vm nonce true) s') :
    ∃ t after, Kept hist after vm nonce t ∧ now ≤ t + (Store.new opts).ttl := by
  obtain ⟨t, hlook, hage⟩ := (s.consume_eq_true_iff _ _ _).1 hs.consumed.1.symm
  obtain ⟨after, hkept⟩ := h.kept _ _ _ ((lookup_mem (h.keys _)).1 hlook)
  refine ⟨t, after, hkept, ?_⟩
  rw [h.ttl] at hage
  omega

theorem step (h : Sound opts hist s) (hs : Step s ev s') : Sound opts (ev :: hist) s' where
  ttl := hs.params.1.trans h.ttl
  maxPerVM := hs.params.2.trans h.maxPerVM
  keys vm := by
    rcases hs.byVM vm with hsub | ⟨now, nonce, issued, -, hroom, heq⟩
    · exact (h.keys vm).sublist (hsub.map _)
    · rw [heq, map_cons, nodup_cons]
      constructor
      · intro hmem
        obtain ⟨e, he, heq⟩ := mem_map.1 hmem
        exact (mem_delete.1 he).2 heq
      · have hsub := (delete_sublist issued nonce).trans
          (hroom.sublist.trans (sweep_sublist s now vm))
        exact (h.keys vm).sublist (hsub.map _)
  bound vm := by
    rw [hs.params.2]
    rcases hs.byVM vm with hsub | ⟨now, nonce, issued, -, hroom, heq⟩
    · exact Nat.le_trans hsub.length_le (h.bound vm)
    · have hlt := hroom.length_lt
      have hle := (delete_sublist issued nonce).length_le
      rw [heq, length_cons]
      omega
  kept _ _ _ hmem := h.kept_step hs hmem
  accepted now vm nonce hx := by
    rcases mem_cons.1 hx with rfl | hx
    · obtain ⟨t, after, ⟨⟨before, hbefore⟩, -⟩, -⟩ := h.accepts hs
      exact ⟨t, by simp [hbefore]⟩
    · obtain ⟨t, ht⟩ := h.accepted now vm nonce hx
      exact ⟨t, mem_cons_of_mem _ ht⟩

end Sound

theorem Run.sound (h : Run opts hist s) : Sound opts hist s := by
  induction h with
  | start => exact .start opts
  | step _ hs ih => exact ih.step hs

theorem Run.earlier {after before : List Event} (h : Run opts (after ++ before) s) :
    ∃ s', Run opts before s' := by
  induction after generalizing s with
  | nil => exact ⟨s, h⟩
  | cons ev after ih =>
    cases h with
    | step h _ => exact ih h

theorem issues_cons_sublist (ev : Event) (hist : List Event) (vm : String) :
    (issues vm hist).Sublist (issues vm (ev :: hist)) :=
  (sublist_cons_self ev hist).filterMap _

theorem issues_issue (hist : List Event) (now : Nat) (vm : String) (nonce : Text) :
    issues vm (.issue now vm nonce :: hist) = (nonce, now) :: issues vm hist :=
  filterMap_cons_some (if_pos rfl)

theorem issues_append (after before : List Event) (vm : String) :
    issues vm (after ++ before) = issues vm after ++ issues vm before := filterMap_append

theorem times_sublist (hist : List Event) (vm : String) :
    ((issues vm hist).map snd).Sublist (hist.filterMap Event.reading) := by
  induction hist with
  | nil => exact .refl _
  | cons ev hist ih =>
    cases ev with
    | issue now vm' nonce =>
      by_cases hvm : vm' = vm
      · subst hvm
        rw [issues_issue]
        exact ih.cons_cons now
      · have hskip : issues vm (.issue now vm' nonce :: hist) = issues vm hist :=
          filterMap_cons_none (if_neg hvm)
        rw [hskip]
        exact ih.trans (sublist_cons_self ..)
    | consume => exact ih.trans (sublist_cons_self ..)
    | issueFailed | forget => exact ih

theorem Increasing.issues (h : Increasing hist) (vm : String) : (issues vm hist).Pairwise fun x y => x.2 > y.2 :=
  pairwise_map.1 (List.Pairwise.sublist (times_sublist hist vm) h)

theorem Increasing.tail (h : Increasing (ev :: hist)) : Increasing hist :=
  List.Pairwise.sublist ((sublist_cons_self ev hist).filterMap _) h

theorem Distinct.tail (h : Distinct (ev :: hist)) : Distinct hist :=
  Nodup.sublist ((sublist_cons_self ev hist).filterMap _) h

theorem newer_le (hinc : Increasing hist) (h : Kept hist after vm nonce t) (hsub : issued.Sublist (issues vm hist)) :
    (issued.filter fun x => t < x.2).length ≤ (issues vm after).length := by
  obtain ⟨⟨before, rfl⟩, -⟩ := h
  have horder := hinc.issues vm
  rw [issues_append, issues_issue] at horder hsub
  have hnone : ((nonce, t) :: issues vm before).filter (fun x => decide (t < x.2)) = [] := by
    refine filter_eq_nil_iff.2 fun x hx => ?_
    rw [decide_eq_true_eq]
    rcases mem_cons.1 hx with rfl | hx
    · exact Nat.lt_irrefl t
    · have hold := rel_of_pairwise_cons (pairwise_append.1 horder).2.1 hx
      omega
  have hle := (hsub.filter fun x => decide (t < x.2)).length_le
  rw [filter_append, hnone, append_nil] at hle
  exact Nat.le_trans hle (length_filter_le _ _)

structure Complete (opts : List Setting) (hist : List Event) (s : Store) : Prop where
  ordered : ∀ vm, (s.byVM vm).Sublist (issues vm hist)
  available : ∀ vm nonce t after, Kept hist after vm nonce t → (issues vm after).length < (Store.new opts).maxPerVM →
    (nonce, t) ∈ s.byVM vm ∨ ∃ r ∈ hist.filterMap Event.reading, t + (Store.new opts).ttl < r

namespace Complete

theorem start (opts : List Setting) : Complete opts [] (.new opts) where
  ordered vm := by
    rw [Store.new_byVM]
    exact nil_sublist _
  available vm nonce t after h := by
    obtain ⟨⟨before, hbefore⟩, -⟩ := h
    simp at hbefore

theorem ordered_step (h : Complete opts hist s) (hs : Step s ev s') (vm : String) :
    (s'.byVM vm).Sublist (issues vm (ev :: hist)) := by
  rcases hs.byVM vm with hsub | ⟨now, nonce, issued, rfl, hroom, heq⟩
  · exact hsub.trans ((h.ordered vm).trans (issues_cons_sublist ev hist vm))
  · rw [heq, issues_issue]
    have hsub := (delete_sublist issued nonce).trans
      (hroom.sublist.trans (sweep_sublist s now vm))
    exact (hsub.trans (h.ordered vm)).cons_cons _

theorem swept {now t : Nat} (hmem : (nonce, t) ∈ s.byVM vm)
    (hout : (nonce, t) ∉ (s.sweep now).byVM vm) : t + s.ttl < now := by
  by_contra hle
  refine hout (mem_filter.2 ⟨hmem, decide_eq_true ?_⟩)
  omega

theorem available_step (h : Complete opts hist s) (hsound : Sound opts hist s) (hs : Step s ev s')
    (hinc : Increasing hist) (hd : Distinct (ev :: hist)) (hkept : Kept hist after vm nonce t) (hf : ev ≠ .forget vm)
    (hc : ∀ now, ev ≠ .consume now vm nonce true) (hfew : (issues vm (ev :: after)).length < (Store.new opts).maxPerVM)
    (hmem : (nonce, t) ∈ s.byVM vm) :
    (nonce, t) ∈ s'.byVM vm ∨ ∃ now, ev.reading = some now ∧ t + s.ttl < now := by
  cases hs with
  | @issue now vmID n issued hroom =>
    by_cases hin : (nonce, t) ∈ (s.sweep now).byVM vm
    swap
    · exact .inr ⟨now, rfl, swept hmem hin⟩
    left
    by_cases hvm : vm = vmID
    swap
    · simpa only [update_of_ne hvm] using hin
    subst hvm
    simp only [update_self]
    have hsub := sweep_sublist s now vm
    have hstay : (nonce, t) ∈ issued := by
      by_contra hout
      have hdrop := hroom.dropped ((hsound.keys vm).sublist (hsub.map _))
        ((hinc.issues vm).sublist (hsub.trans (h.ordered vm))) hin hout
      have hnewer := newer_le hinc hkept (hsub.trans (h.ordered vm))
      rw [issues_issue, length_cons] at hfew
      rw [hsound.maxPerVM] at hdrop
      dsimp only at hdrop
      omega
    refine mem_cons_of_mem _ (mem_delete.2 ⟨hstay, fun heq => ?_⟩)
    obtain ⟨⟨before, rfl⟩, -⟩ := hkept
    refine (nodup_cons.1 hd).1 (mem_filterMap.2 ⟨.issue t vm nonce, by simp, ?_⟩)
    exact congrArg some heq
  | issueFailed => exact .inl hmem
  | @consume now vmID n =>
    by_cases hvm : vm = vmID ∧ nonce = n
    · obtain ⟨rfl, rfl⟩ := hvm
      refine .inr ⟨now, rfl, ?_⟩
      by_contra hage
      have hlook := (lookup_mem (hsound.keys vm)).2 hmem
      have hok := (s.consume_eq_true_iff now vm nonce).2 ⟨t, hlook, by omega⟩
      exact hc now (by rw [hok])
    · have hstay : (nonce, t) ∈ update s.byVM vmID (delete (s.byVM vmID) n) vm := by
        by_cases heq : vm = vmID
        · subst heq
          rw [update_self]
          exact mem_delete.2 ⟨hmem, fun h => hvm ⟨rfl, h⟩⟩
        · rw [update_of_ne heq]
          exact hmem
      by_cases hin : (nonce, t) ∈ (s.consume now vmID n).2.byVM vm
      · exact .inl hin
      · exact .inr ⟨now, rfl, swept (s := { s with
          byVM := update s.byVM vmID (delete (s.byVM vmID) n) }) hstay hin⟩
  | @forget vmID =>
    left
    have hne : vm ≠ vmID := fun heq => hf (by rw [heq])
    simp only [Store.forget, update_of_ne hne]
    exact hmem

theorem step (h : Complete opts hist s) (hsound : Sound opts hist s) (hs : Step s ev s')
    (hinc : Increasing hist) (hd : Distinct (ev :: hist)) : Complete opts (ev :: hist) s' where
  ordered := h.ordered_step hs
  available vm nonce t after hkept hfew := by
    obtain ⟨⟨before, hbefore⟩, hforget, hconsume⟩ := hkept
    cases after with
    | nil =>
      obtain ⟨rfl, rfl⟩ := cons.inj hbefore
      rcases hs.byVM vm with hsub | ⟨now, n, issued, hev, -, heq⟩
      · cases hs
        simp
      · cases hev
        rw [heq]
        exact .inl mem_cons_self
    | cons ev' after =>
      obtain ⟨rfl, hhist⟩ := cons.inj hbefore
      have hkept : Kept hist after vm nonce t := ⟨⟨before, hhist⟩, fun hx => hforget (mem_cons_of_mem _ hx),
        fun now hx => hconsume now (mem_cons_of_mem _ hx)⟩
      have hfewer : (issues vm after).length < (Store.new opts).maxPerVM :=
        Nat.lt_of_le_of_lt (issues_cons_sublist ev after vm).length_le hfew
      have hlater : (∃ r ∈ hist.filterMap Event.reading, t + (Store.new opts).ttl < r) →
          ∃ r ∈ (ev :: hist).filterMap Event.reading, t + (Store.new opts).ttl < r := by
        rintro ⟨r, hr, hlt⟩
        exact ⟨r, ((sublist_cons_self ev hist).filterMap _).subset hr, hlt⟩
      rcases h.available vm nonce t after hkept hfewer with hmem | hold
      · refine (h.available_step hsound hs hinc hd hkept (fun heq => hforget (heq ▸ mem_cons_self))
          (fun now heq => hconsume now (heq ▸ mem_cons_self)) hfew hmem).imp_right ?_
        rintro ⟨now, hread, hlt⟩
        rw [hsound.ttl] at hlt
        exact ⟨now, mem_filterMap.2 ⟨ev, mem_cons_self, hread⟩, hlt⟩
      · exact .inr (hlater hold)

end Complete

theorem Run.complete (h : Run opts hist s) (hinc : Increasing hist) (hd : Distinct hist) :
    Complete opts hist s := by
  induction h with
  | start => exact .start opts
  | step h hs ih => exact (ih hinc.tail hd.tail).step h.sound hs hinc.tail hd

theorem Distinct.alone {after before : List Event} {t t' : Nat} {vm' : String}
    (h : Distinct (after ++ .issue t vm nonce :: before)) :
    .issue t' vm' nonce ∉ after ∧ .issue t' vm' nonce ∉ before := by
  have hdrawn : (after.filterMap Event.drawn ++ nonce :: before.filterMap Event.drawn).Nodup := by
    have h : ((after ++ .issue t vm nonce :: before).filterMap Event.drawn).Nodup := h
    rw [filterMap_append] at h
    exact h
  have hmem : ∀ l : List Event, .issue t' vm' nonce ∈ l → nonce ∈ l.filterMap Event.drawn :=
    fun l hl => mem_filterMap.2 ⟨_, hl, rfl⟩
  rw [nodup_append] at hdrawn
  constructor
  · intro hx
    exact hdrawn.2.2 _ (hmem after hx) _ mem_cons_self rfl
  · intro hx
    exact (nodup_cons.1 hdrawn.2.1).1 (hmem before hx)

theorem Run.accepts_once (h : Run opts (.consume now vm nonce true :: hist) s)
    (hd : Distinct hist) (now' : Nat) (vm' : String) : .consume now' vm' nonce true ∉ hist := by
  intro hx
  cases h with
  | @step _ s₀ _ _ h hs =>
    obtain ⟨t, after, ⟨⟨before, rfl⟩, -, hconsume⟩, -⟩ := h.sound.accepts hs
    have hbefore : ∀ t', .issue t' vm' nonce ∉ before := fun t' => (hd.alone).2
    have hlast : .consume now' vm' nonce true ∉ Event.issue t vm nonce :: before := by
      intro hx
      obtain ⟨s₁, hrun⟩ := h.earlier
      rcases mem_cons.1 hx with heq | hx
      · cases heq
      · cases hrun with
        | step hrun _ =>
          obtain ⟨t', ht'⟩ := hrun.sound.accepted _ _ _ hx
          exact hbefore t' ht'
    have hafter := (mem_append.1 hx).resolve_right hlast
    obtain ⟨t', ht'⟩ := h.sound.accepted _ _ _ hx
    rcases mem_append.1 ht' with hin | hin
    · exact (hd.alone).1 hin
    · rcases mem_cons.1 hin with heq | hin
      · cases heq
        exact hconsume now' hafter
      · exact hbefore t' hin

/-- After any calls: no VM has more than `maxPerVM` nonces outstanding; a nonce `Consume` accepts was
issued to the VM, neither forgotten nor accepted since, is not older than the time to live and was never
accepted before; and if the clock readings strictly increase, `Consume` accepts every nonce that was
issued to the VM, was neither forgotten nor accepted since, is not older than the time to live and was
followed by fewer than `maxPerVM` others. -/
theorem nonce_contract (opts : List Setting) {hist : List Event} {s : Store} (h : Run opts hist s)
    (hd : Distinct hist) : (∀ vmID, (s.byVM vmID).length ≤ (Store.new opts).maxPerVM) ∧
    (∀ now vmID nonce earlier, hist = .consume now vmID nonce true :: earlier →
      (∃ t after, Kept earlier after vmID nonce t ∧ now ≤ t + (Store.new opts).ttl) ∧
        ∀ now' vmID', .consume now' vmID' nonce true ∉ earlier) ∧
    (Increasing hist → ∀ now vmID nonce ok earlier, hist = .consume now vmID nonce ok :: earlier →
      (∃ t after, Kept earlier after vmID nonce t ∧ now ≤ t + (Store.new opts).ttl ∧
        (issues vmID after).length < (Store.new opts).maxPerVM) → ok = true) := by
  refine ⟨fun vmID => ?_, ?_, ?_⟩
  · rw [← h.sound.maxPerVM]
    exact h.sound.bound vmID
  · rintro now vmID nonce earlier rfl
    refine ⟨?_, h.accepts_once hd.tail⟩
    cases h with
    | step h hs => exact h.sound.accepts hs
  · rintro hinc now vmID nonce ok earlier rfl ⟨t, after, hkept, hage, hfew⟩
    cases h with
    | @step _ s₀ _ _ h hs =>
      rw [hs.consumed.1]
      refine (s₀.consume_eq_true_iff _ _ _).2 ⟨t, (lookup_mem (h.sound.keys _)).2 ?_, ?_⟩
      · rcases (h.complete hinc.tail hd.tail).available vmID nonce t after hkept hfew with hmem |
          ⟨r, hr, hlt⟩
        · exact hmem
        · have hbefore : now > r := rel_of_pairwise_cons hinc hr
          omega
      · rw [h.sound.ttl]
        omega

theorem nonce_contract_second : ∃ s, Run [.maxPerVM 2, .ttl 0]
    [.consume 5 "01" ['b'] true, .issue 4 "01" ['c'], .issue 3 "01" ['b'], .issue 2 "01" ['a']] s ∧
    (s.byVM "01").length ≤ 2 := by
  have hissued : ∃ s, Run [.maxPerVM 2, .ttl 0]
      [.issue 4 "01" ['c'], .issue 3 "01" ['b'], .issue 2 "01" ['a']] s :=
    ⟨_, .step (.step (.step .start (Store.issue_step _ (by decide) 2 "01" ['a']))
      (Store.issue_step _ (by decide) 3 "01" ['b'])) (Store.issue_step _ (by decide) 4 "01" ['c'])⟩
  obtain ⟨s, hrun⟩ := hissued
  have hrun := hrun.step (.consume : Step s (.consume 5 "01" ['b'] _) _)
  have hcontract := nonce_contract _ hrun (by decide : Nodup [['c'], ['b'], ['a']])
  have hkept : Kept [.issue 4 "01" ['c'], .issue 3 "01" ['b'], .issue 2 "01" ['a']]
      [.issue 4 "01" ['c']] "01" ['b'] 3 := ⟨⟨_, rfl⟩, by simp, by simp⟩
  have hok := hcontract.2.2 (by decide : List.Pairwise (· > ·) [5, 4, 3, 2]) _ _ _ _ _ rfl
    ⟨3, _, hkept, by decide, by decide⟩
  rw [hok] at hrun
  exact ⟨_, hrun, hcontract.1 "01"⟩

end VmManager.Nonce
