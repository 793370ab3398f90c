import VmManager.Vm.Records

/-! What the steps of the service do to the verifier and to the calls of SubmitQuote in progress. -/
namespace VmManager.Vm
open Encoding Attest Interleaving List
variable {cfg : Config} {s s' : System} {t t' e : Nat} {op op' : Op} {id : String}

namespace System

theorem mem_acts (hop : op.isRead = false) :
    op ∈ s.acts t ↔ ∃ n, Happening.did t op n ∈ s.hist := by
  simp only [acts, mem_filterMap]
  constructor
  · rintro ⟨x, hx, heq⟩
    cases x with
    | did t' op' n =>
      simp only at heq
      split at heq
      · rename_i h
        obtain ⟨rfl, -⟩ := h
        cases heq
        exact ⟨n, hx⟩
      · cases heq
    | outside => cases heq
  · rintro ⟨n, hx⟩
    exact ⟨_, hx, if_pos ⟨rfl, hop⟩⟩

theorem mem_acts_effect (h : op' ∈ (s.effect t op).acts t') : op' ∈ s.acts t' ∨ (t' = t ∧ op' = op) := by
  rw [acts_effect] at h
  split at h
  · rename_i hself
    rcases mem_cons.1 h with rfl | h
    · exact .inr ⟨hself.1.symm, rfl⟩
    · exact .inl h
  · exact .inl h

theorem submitting_effect (h : (s.effect t op).submitting.get t' = some id) :
    s.submitting.get t' = some id ∨ (t' = t ∧ op = .attest (.submit id)) := by
  have herase : GoMap.get (s.submitting.erase t) t' = some id → s.submitting.get t' = some id := by
    intro h
    rw [GoMap.get_erase] at h
    split at h
    · cases h
    · exact h
  cases op with
  | update e u =>
    simp only [effect, apply] at h
    split at h
    · exact .inl (herase h)
    · exact .inl h
  | attest o =>
    cases o with
    | submit id' =>
      simp only [effect, apply, AttestOp.onSubmitting, GoMap.get_insert] at h
      split at h
      · cases h
        exact .inr ⟨‹_›, rfl⟩
      · exact .inl h
    | submitDone => exact .inl (herase h)
    | _ => exact .inl h
  | _ => exact .inl h

theorem submitting_acts_effect (hg : op.Guard cfg s t)
    (hsub : (s.effect t op).submitting.get t' = some id) (h : op' ∈ (s.effect t op).acts t') :
    (s.submitting.get t' = some id ∧ op' ∈ s.acts t') ∨ (t' = t ∧ op' = op) := by
  rcases mem_acts_effect h with hold | hnew
  swap
  · exact .inr hnew
  rcases submitting_effect hsub with hsub | ⟨ht, hop⟩
  · exact .inl ⟨hsub, hold⟩
  · subst ht hop
    have hnil : s.acts t' = [] := hg
    rw [hnil] at hold
    exact absurd hold not_mem_nil

theorem outstanding_effect {nonce : Text} (h : nonce ∈ (s.effect t op).verifier.nonces.outstanding id) :
    nonce ∈ s.verifier.nonces.outstanding id ∨ op = .attest (.issue id nonce) := by
  cases op with
  | attest o =>
    cases o with
    | issue id' nonce' =>
      rcases Nonce.Store.outstanding_issue h with h | ⟨rfl, rfl⟩
      · exact .inl h
      · exact .inr rfl
    | consume id' nonce' ok => exact .inl (Nonce.Store.outstanding_consume h)
    | enroll id' stage fingerprint ok =>
      refine .inl ?_
      simp only [effect, apply, AttestOp.onVerifier, Verifier.enroll] at h
      split at h
      · exact h
      · split at h <;> exact h
    | forgetNonces id' => exact .inl (Nonce.Store.outstanding_forget h)
    | _ => exact .inl h
  | _ => exact .inl h

theorem pinned_effect (hg : op.Guard cfg s t) (id : String) :
    (s.effect t op).verifier.pinned id = s.verifier.pinned id ∨
      (∃ fingerprint, op = .attest (.enroll id .initrd fingerprint true) ∧ s.verifier.pinned id = none ∧
        (s.effect t op).verifier.pinned id = some fingerprint) ∨
      (op = .attest (.forgetState id) ∧ (s.effect t op).verifier.pinned id = none) := by
  cases op with
  | attest o =>
    cases o with
    | store id' stage r => exact .inl (Verifier.pinned_store ..)
    | enroll id' stage fingerprint ok =>
      by_cases hid : id = id'
      swap
      · exact .inl (Verifier.pinned_enroll_of_ne _ hid)
      subst hid
      obtain ⟨-, -, -, hok, hne⟩ := hg
      cases ok with
      | false => exact .inl (Verifier.enroll_false hok.symm)
      | true =>
        obtain ⟨hpin, hold | ⟨hold, rfl⟩⟩ := Verifier.enroll_true hne hok.symm
        · exact .inl (hpin.trans hold.symm)
        · exact .inr (.inl ⟨fingerprint, rfl, hold, hpin⟩)
    | forgetState id' =>
      have hpin : (s.effect t (.attest (.forgetState id'))).verifier.pinned id =
          if id = id' then none else s.verifier.pinned id := Verifier.pinned_forgetState ..
      by_cases hid : id = id'
      · subst hid
        rw [if_pos rfl] at hpin
        exact .inr (.inr ⟨rfl, hpin⟩)
      · rw [if_neg hid] at hpin
        exact .inl hpin
    | _ => exact .inl rfl
  | _ => exact .inl rfl

theorem pinned_of_enroll {stage : Stage} {fingerprint : Text}
    (hg : (Op.attest (.enroll id stage fingerprint true)).Guard cfg s t) :
    (s.effect t (.attest (.enroll id stage fingerprint true))).verifier.pinned id = some fingerprint ∧
      (s.verifier.pinned id = some fingerprint ∨
        (s.verifier.pinned id = none ∧ stage = .initrd)) := by
  obtain ⟨-, -, -, hok, hne⟩ := hg
  exact Verifier.enroll_true hne hok.symm

end System

end VmManager.Vm
