import Mathlib.Data.List.Infix
import VmManager.Encoding.Split
import VmManager.Vm.Record
import VmManager.Interleaving.Stepper

/-! The last error of one boot, while quotes, notifications and the time-out are recorded and the console
of the run grows. A verified quote takes back the rejection that it replaces by comparing the last error
with the text recomputed from the console, so a line of a failing vTPM that appears in between leaves the
rejection standing. The console is in ASCII here, a byte a character. -/
namespace VmManager.Vm
open Encoding Attest Interleaving VM

def vtpmMarkers : List Text :=
  ["Failed to measure data for event".toList, "tpm tpm0: Operation Timed out".toList]

def consoleScanBytes : Nat := 4 * 2 ^ 20

def maxTokenSize : Nat := 2 ^ 20

/-- The first line among the first `limit` bytes that contains one of `subs`, trimmed. The scanner stops
at a line that is too long for it. -/
def firstLineContaining (console : Text) (subs : List Text) (limit : Nat) : Text :=
  let lines := ((console.take limit).splitOn '\n').takeWhile fun line => line.length < maxTokenSize
  match lines.find? fun line => subs.any fun sub => decide (sub <:+: line) with
  | some line => trimSpace line
  | none => []

def Console.ofText (console : Text) : Console where
  stall := String.ofList (firstLineContaining console vtpmMarkers consoleScanBytes)

/-- One boot: the record, the console of the run, and the error its time-out wrote. -/
structure BootRun where
  record : VM
  console : Text := []
  overdue : Option String := none

namespace BootRun

inductive Move where
  | nonce (now : Nat)
  | quote (now : Nat) (stage : Stage) (q : Quote)
  | notify (now : Nat) (n : Notification)
  | timeOut (now : Nat) (timeout : String)
  | write (text : Text)

def shown (s : BootRun) : Console := .ofText s.console

def step (s : BootRun) : Move → Option BootRun
  | .nonce now => some { s with record := s.record.update now .nonceIssued }
  | .quote now stage q => some { s with record := s.record.update now (.quoteRecorded stage q s.shown) }
  | .notify now n => some { s with record := s.record.update now (.notified n s.shown) }
  | .timeOut now timeout =>
    if s.record.state = .booting ∨ s.record.state = .attesting then
      let r := s.record.update now (.overdue timeout s.shown)
      some { s with record := r, overdue := some r.lastError }
    else some s
  | .write text => some { s with console := s.console ++ text }

def Starts (s : BootRun) : Prop := s.overdue = none ∧ ∃ r now h, s.record = update r now (.booting h)

def Unrejected (s : BootRun) : Prop :=
  (∀ q, s.record.attestation.initrd = some q → q.verified = true) ∧
    ∀ q, s.record.attestation.ready = some q → q.verified = true

def Repaired (s : BootRun) : Prop :=
  s.record.lastError = "" ∨ s.overdue = some s.record.lastError

def rejection (s : BootRun) (stage : Stage) (q : Quote) : String :=
  withVTPMFailure s.shown (stage.name ++ " attestation rejected: " ++ q.message)

structure StatesFirst (s : BootRun) : Prop where
  initrd : ∀ q, s.record.attestation.initrd = some q → q.verified = false → s.record.lastError = s.rejection .initrd q
  ready : (∀ q, s.record.attestation.initrd = some q → q.verified = true) →
    ∀ q, s.record.attestation.ready = some q → q.verified = false → s.record.lastError = s.rejection .ready q
  none : s.Unrejected → s.record.lastError = ""

/-- While the last error states a rejection, the console gets no text that changes the first line of a
failing vTPM. -/
def KeepsStall (s : BootRun) : Move → Prop
  | .write text =>
    s.record.lastError ≠ "" → s.record.lastError = attestationError s.shown s.record.attestation →
      firstLineContaining (s.console ++ text) vtpmMarkers consoleScanBytes =
        firstLineContaining s.console vtpmMarkers consoleScanBytes
  | _ => True

def Explained (s : BootRun) : Prop := s.Repaired ∨ s.record.lastError = attestationError s.shown s.record.attestation

section Lemmas
variable {s s' : BootRun}

theorem attestationError_unrejected (h : s.Unrejected) :
    attestationError s.shown s.record.attestation = "" := by
  unfold attestationError
  cases hi : s.record.attestation.initrd with
  | none =>
    cases hr : s.record.attestation.ready with
    | none => rfl
    | some q => simp [h.2 q hr]
  | some p =>
    cases hr : s.record.attestation.ready with
    | none => simp [h.1 p hi]
    | some q => simp [h.1 p hi, h.2 q hr]

theorem statesFirst_of_eq (h : s.record.lastError = attestationError s.shown s.record.attestation) :
    s.StatesFirst where
  initrd q hq hv := by
    rw [h, attestationError, hq]
    simp [hv, rejection]
  ready hi q hq hv := by
    rw [h, attestationError, hq]
    cases hp : s.record.attestation.initrd with
    | none => simp [hv, rejection]
    | some p => simp [hi p hp, hv, rejection]
  none hu := h.trans (attestationError_unrejected hu)

theorem explained_starts (h : s.Starts) : s.Explained := by
  obtain ⟨-, r, now, p, hr⟩ := h
  exact .inl (.inl (by rw [hr]; rfl))

theorem lastError_recordQuote (r : VM) (stage : Stage) (q : Quote) (c : Console) : (r.recordQuote stage q c).lastError =
        attestationError c (r.recordQuote stage q c).attestation ∨
      (q.verified = true ∧ r.lastError ≠ attestationError c r.attestation ∧
        (r.recordQuote stage q c).lastError = r.lastError) := by
  by_cases h : (!q.verified || r.lastError == attestationError c r.attestation) = true
  · refine .inl ?_
    simp only [recordQuote, if_pos h]
    rfl
  · refine .inr ⟨?_, ?_, ?_⟩
    · simp only [Bool.or_eq_true, not_or, Bool.not_eq_true', Bool.not_eq_false] at h
      exact h.1
    · simp only [Bool.or_eq_true, not_or, beq_iff_eq] at h
      exact h.2
    · simp only [recordQuote, if_neg h]

theorem attestationError_onNonce (r : VM) (now : Nat) (c : Console) :
    attestationError c (r.onNonce now).attestation = attestationError c r.attestation := by
  simp only [onNonce]
  split <;> rfl

theorem lastError_onNonce (r : VM) (now : Nat) : (r.onNonce now).lastError = r.lastError := by
  simp only [onNonce]
  split <;> rfl

theorem lastError_onNotify (r : VM) (now : Nat) (n : Notification) (c : Console) :
    (r.onNotify now n c).attestation = r.attestation ∧
      ((r.onNotify now n c).lastError = attestationError c r.attestation ∨
        (r.onNotify now n c).lastError = r.lastError ∧ (r.onNotify now n c).state = r.state) := by
  unfold onNotify
  by_cases hs : n.status = ""
  · simp only [hs, if_true]
    split
    · exact ⟨rfl, .inl rfl⟩
    · exact ⟨rfl, .inr ⟨rfl, rfl⟩⟩
  · simp only [hs, if_false]
    split
    · exact ⟨rfl, .inl rfl⟩
    · exact ⟨rfl, .inr ⟨rfl, rfl⟩⟩

theorem explained_quote (h : s.Explained) (now : Nat) (stage : Stage) (q : Quote) :
    Explained { s with record := s.record.update now (.quoteRecorded stage q s.shown) } := by
  rcases lastError_recordQuote s.record stage q s.shown with hstated | ⟨-, hne, hkept⟩
  · exact .inr hstated
  · have hrepaired : s.Repaired := h.resolve_right hne
    refine .inl ?_
    unfold Repaired
    simp only [update]
    rw [hkept]
    exact hrepaired

theorem explained_write (h : s.Explained) {text : Text} (hk : s.KeepsStall (.write text)) :
    Explained { s with console := s.console ++ text } := by
  by_cases hempty : s.record.lastError = ""
  · exact .inl (.inl hempty)
  · rcases h with hrepaired | hstated
    · exact .inl hrepaired
    · have hshown : shown { s with console := s.console ++ text } = s.shown := by
        unfold shown Console.ofText
        rw [hk hempty hstated]
      exact .inr (by rw [hshown]; exact hstated)

theorem explained_step (h : s.Explained) {mv : Move} (hk : s.KeepsStall mv) (hs : s.step mv = some s') :
    s'.Explained := by
  cases mv with
  | nonce now =>
    cases hs
    unfold Explained Repaired
    simp only [update, lastError_onNonce]
    rw [show shown { s with record := s.record.onNonce now } = s.shown from rfl, attestationError_onNonce]
    exact h
  | quote now stage q =>
    cases hs
    exact explained_quote h now stage q
  | notify now n =>
    cases hs
    obtain ⟨hatt, hstated | ⟨hkept, -⟩⟩ := lastError_onNotify s.record now n s.shown
    · exact .inr (hstated.trans (by rw [← hatt]; rfl))
    · unfold Explained Repaired
      simp only [update, hkept, hatt]
      exact h
  | timeOut now timeout =>
    simp only [step] at hs
    split at hs
    · cases hs
      exact .inl (.inr rfl)
    · cases hs
      exact h
  | write text =>
    cases hs
    exact explained_write h hk

theorem explained_reached {K : BootRun → Move → Prop} (hK : ∀ s mv, K s mv → s.KeepsStall mv)
    (h : Reached step Starts K s) : s.Explained :=
  h.invariant (fun _ => explained_starts) fun _ _ _ he hk => explained_step he (hK _ _ hk)

end Lemmas

end BootRun

open BootRun in
theorem rejections_cleared {s s' : BootRun} {mv : Move} (h : Reached step Starts KeepsStall s)
    (hk : s.KeepsStall mv) (hs : s.step mv = some s') :
    (∀ now stage q, mv = .quote now stage q → q.verified = true → s'.Unrejected → s'.Repaired) ∧
      (∀ now stage q, mv = .quote now stage q → q.verified = false → s'.StatesFirst) ∧
      ∀ now n, mv = .notify now n → s.record.state ≠ .ready → s'.record.state = .ready →
        s'.StatesFirst := by
  have hexplained : s'.Explained := explained_reached (fun _ _ hk => hk) (h.step hk hs)
  refine ⟨?_, ?_, ?_⟩
  · intro now stage q hmv hv hnone
    rcases hexplained with hrepaired | hstated
    · exact hrepaired
    · exact .inl (hstated.trans (attestationError_unrejected hnone))
  · intro now stage q hmv hv
    subst hmv
    cases hs
    apply statesFirst_of_eq
    rcases lastError_recordQuote s.record stage q s.shown with hstated | ⟨htrue, -, -⟩
    · exact hstated
    · nomatch hv.symm.trans htrue
  · intro now n hmv hbefore hready
    subst hmv
    cases hs
    obtain ⟨hatt, hstated | ⟨-, hstate⟩⟩ := lastError_onNotify s.record now n s.shown
    · exact statesFirst_of_eq (hstated.trans (by rw [← hatt]; rfl))
    · exact absurd (hstate.symm.trans hready) hbefore

namespace BootRun

def keepsStallCheck (s : BootRun) : Move → Bool
  | .write text => s.record.lastError == "" ||
    firstLineContaining (s.console ++ text) vtpmMarkers consoleScanBytes ==
      firstLineContaining s.console vtpmMarkers consoleScanBytes
  | _ => true

theorem keepsStall_of_check (s : BootRun) (mv : Move) (h : s.keepsStallCheck mv = true) :
    s.KeepsStall mv := by
  cases mv with
  | write text =>
    simp only [keepsStallCheck, Bool.or_eq_true, beq_iff_eq] at h
    intro hne _
    exact h.resolve_left hne
  | nonce | quote | notify | timeOut => trivial

namespace Sample

def begun : BootRun where
  record := update
    { serial := 0, id := "vm1", state := .installing, cid := 3, machineID := "", createdAt := 0
      spec := { name := "vm1", network := "default", requireAttestation := true }
      attestation := {} } 0 (.booting ⟨1, none⟩)

theorem begun_starts : begun.Starts := ⟨rfl, _, _, _, rfl⟩

def rejects : List Move :=
  [.write "Linux version\n".toList, .nonce 1,
    .quote 2 .initrd { verified := false, message := "pcr 11 mismatch", time := 2 }]

def repair : Quote := { verified := true, message := "", time := 5 }

def stalls : List Move := rejects ++ [.write "tpm tpm0: Operation Timed out\n".toList, .nonce 4]

end Sample

end BootRun

open BootRun in
theorem rejections_cleared_repaired : ∃ s s', Reached step Starts KeepsStall s ∧
      s.record.lastError = "initrd attestation rejected: pcr 11 mismatch" ∧
      s.step (.quote 5 .initrd Sample.repair) = some s' ∧ s'.Repaired := by
  have hrun : (execAll step keepsStallCheck Sample.begun Sample.rejects).any (fun s =>
      s.record.lastError = "initrd attestation rejected: pcr 11 mismatch" ∧
        s.record.attestation.ready = none) = true := by decide +kernel
  obtain ⟨s, hs, hstated⟩ := (Option.any_eq_true _ _).1 hrun
  simp only [decide_eq_true_eq] at hstated
  have hreached : Reached step Starts KeepsStall s := (Reached.start Sample.begun_starts).execAll keepsStall_of_check hs
  have hkeeps : s.KeepsStall (.quote 5 .initrd Sample.repair) := trivial
  refine ⟨s, _, hreached, hstated.1, rfl, (rejections_cleared hreached hkeeps rfl).1 _ _ _ rfl rfl ⟨?_, ?_⟩⟩
  · intro q hq
    cases hq
    rfl
  · intro q hq
    nomatch hstated.2.symm.trans hq

open BootRun in
theorem rejection_outlives_repair : ∃ s s', Reached step Starts (fun _ _ => True) s ∧
      s.step (.quote 5 .initrd Sample.repair) = some s' ∧ s'.Unrejected ∧ s'.overdue = none ∧
      s'.record.lastError = "initrd attestation rejected: pcr 11 mismatch" := by
  have hrun : (execAll step (fun _ _ => true) Sample.begun Sample.stalls).any (fun s =>
      s.overdue = none ∧ s.record.attestation.ready = none ∧
        (s.record.recordQuote .initrd Sample.repair s.shown).lastError =
          "initrd attestation rejected: pcr 11 mismatch") = true := by decide +kernel
  obtain ⟨s, hs, hstated⟩ := (Option.any_eq_true _ _).1 hrun
  simp only [decide_eq_true_eq] at hstated
  refine ⟨s, _, (Reached.start Sample.begun_starts).execAll (fun _ _ _ => trivial) hs, rfl, ⟨?_, ?_⟩,
    hstated.1, hstated.2.2⟩
  · intro q hq
    cases hq
    rfl
  · intro q hq
    nomatch hstated.2.1.symm.trans hq

end VmManager.Vm
