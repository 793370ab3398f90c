import VmManager.Attest.Verifier

/-! What each check of the verifier establishes about a request: the nonce, the digest over the PCR
values, the coverage, and the comparison with the policy. -/
namespace VmManager.Tpmquote
open Encoding List Option
variable {u : Unit} {i : Nat} {res res' : Result} {stage : Stage}

theorem verifyNonce_eq_ok_iff {extraData : Bytes} {nonce : Text} :
    verifyNonce extraData nonce = .ok u ↔ decodeString nonce = some extraData ∧ extraData ≠ [] := by
  unfold verifyNonce
  cases hd : decodeString nonce with
  | none => simp
  | some want =>
    by_cases he : extraData = want
    · subst he
      simp
    · simp [he, Ne.symm he]

theorem checkLengths_eq_ok_iff {bank : String} {size : Nat} {values : PCRValues} {l : List Nat}
    : checkLengths bank size values l = .ok u ↔
      ∀ i ∈ l, ∀ v, values.lookup i = some v → v.length = size := by
  induction l with
  | nil => simp [checkLengths]
  | cons i rest ih =>
    cases hv : values.lookup i with
    | none => simp [checkLengths, hv, ih]
    | some v =>
      by_cases hs : v.length = size
      · simp [checkLengths, hv, hs, ih]
      · simp [checkLengths, hv, hs]

theorem digestInput_eq_ok_iff {values : PCRValues} {l : List Nat} {b : Bytes} :
    digestInput values l = .ok b ↔ (∀ i ∈ l, ∃ v, values.lookup i = some v ∧ v ≠ []) ∧
      b = l.flatMap fun i => (values.lookup i).getD [] := by
  induction l generalizing b with
  | nil => simp [digestInput, eq_comm]
  | cons i rest ih =>
    cases hv : values.lookup i with
    | none => simp [digestInput, hv]
    | some v =>
      by_cases hn : v = []
      · simp [digestInput, hv, hn]
      · cases hr : digestInput values rest with
        | error err =>
          have hne : ¬ ∀ j ∈ rest, ∃ w, values.lookup j = some w ∧ w ≠ [] := by
            intro hall
            have := (ih (b := rest.flatMap fun i => (values.lookup i).getD [])).2 ⟨hall, rfl⟩
            simp [hr] at this
          simp only [digestInput, hv, hr, length_eq_zero_iff, hn, if_false, Except.map,
            mem_cons, forall_eq_or_imp, reduceCtorEq, false_iff, not_and]
          exact fun hall => absurd hall.2 hne
        | ok r =>
          obtain ⟨hall, rfl⟩ := ih.1 hr
          simp only [digestInput, hv, hr, length_eq_zero_iff, hn, if_false, Except.map,
            Except.ok.injEq, mem_cons, forall_eq_or_imp, flatMap_cons, getD_some]
          constructor
          · rintro rfl
            exact ⟨⟨⟨v, rfl, hn⟩, hall⟩, rfl⟩
          · rintro ⟨-, rfl⟩
            rfl

variable {C : Crypto} {q : Quote} {values : PCRValues}

theorem bankHash_sha256 : bankHash "sha256" = .ok .sha256 := rfl

theorem verifyPCRs_eq_ok_iff (hbank : q.bank = "sha256")
    (hall : ∀ i ∈ q.pcrs, ∃ v, values.lookup i = some v) : verifyPCRs C q values = .ok u ↔
      (∀ i ∈ q.pcrs, ∀ v, values.lookup i = some v → v.length = Hash.sha256.size) ∧
        C.sum q.hash ((q.pcrs.insertionSort (· ≤ ·)).flatMap fun i => (values.lookup i).getD []) =
          q.pcrDigest := by
  unfold verifyPCRs pcrDigest
  rw [hbank, bankHash_sha256]
  simp only [bind_eq_ok_iff, Except.ok.injEq, exists_eq_left', checkLengths_eq_ok_iff, require_eq_ok_iff]
  constructor
  · rintro ⟨_, hlen, got, hgot, hq⟩
    refine ⟨hlen, ?_⟩
    cases hd : digestInput values (q.pcrs.insertionSort (· ≤ ·)) with
    | error err => simp [hd, Except.map] at hgot
    | ok b =>
      simp only [hd, Except.map, Except.ok.injEq] at hgot
      rw [← (digestInput_eq_ok_iff.1 hd).2, hgot, hq]
  · rintro ⟨hlen, hq⟩
    have hd : digestInput values (q.pcrs.insertionSort (· ≤ ·)) =
        .ok ((q.pcrs.insertionSort (· ≤ ·)).flatMap fun i => (values.lookup i).getD []) := by
      refine digestInput_eq_ok_iff.2 ⟨fun i hi => ?_, rfl⟩
      have hi : i ∈ q.pcrs := (mem_insertionSort _).1 hi
      obtain ⟨v, hv⟩ := hall i hi
      refine ⟨v, hv, ?_⟩
      have hl := hlen i hi v hv
      rintro rfl
      simp [Hash.size] at hl
    exact ⟨(), hlen, _, by rw [hd]; rfl, hq⟩

end VmManager.Tpmquote

namespace VmManager.Attest
open Encoding Tpmquote List Option

def sent (req : QuoteRequest) (i : Nat) : Option Bytes :=
  (((req.pcrs.lookup bank).getD []).lookup (toString i)).bind decodeString

theorem decodePCRs_eq_ok_iff {bankValues : List (String × Text)} {l : List Nat}
    {values : PCRValues} : decodePCRs bankValues l = .ok values ↔
      (∀ i ∈ l, ∃ v, (bankValues.lookup (toString i)).bind decodeString = some v) ∧
        values = l.map fun i => (i, ((bankValues.lookup (toString i)).bind decodeString).getD []) := by
  induction l generalizing values with
  | nil => simp [decodePCRs, eq_comm]
  | cons i rest ih =>
    cases ht : bankValues.lookup (toString i) with
    | none =>
      simp only [decodePCRs, ht, mem_cons, forall_eq_or_imp, bind_none, reduceCtorEq, exists_const, false_and]
    | some text =>
      cases hd : decodeString text with
      | none =>
        simp only [decodePCRs, ht, hd, mem_cons, forall_eq_or_imp, bind_some, reduceCtorEq, exists_const, false_and]
      | some b =>
        simp only [decodePCRs, ht, hd, mem_cons, forall_eq_or_imp, bind_some,
          some.injEq, exists_eq', true_and, map_cons, getD_some]
        cases hr : decodePCRs bankValues rest with
        | error err =>
          simp only [Except.map, reduceCtorEq, false_iff, not_and]
          intro hall
          have := ih.2 ⟨hall, rfl⟩
          simp [hr] at this
        | ok r =>
          obtain ⟨hall, rfl⟩ := ih.1 hr
          simp only [Except.map, Except.ok.injEq]
          constructor
          · rintro rfl
            exact ⟨hall, rfl⟩
          · rintro ⟨-, rfl⟩
            rfl

theorem lookup_map_self {β : Type} (f : Nat → β) {l : List Nat} (hi : i ∈ l) :
    (l.map fun j => (j, f j)).lookup i = some (f i) := by
  induction l with
  | nil => cases hi
  | cons j rest ih =>
    by_cases hij : i = j
    · simp [hij]
    · have : i ∈ rest := by simpa [hij] using hi
      simp [lookup_cons, beq_false_of_ne hij, ih this]

theorem missingPCRs_eq_nil_iff {covered need : List Nat} :
    missingPCRs covered need = [] ↔ ∀ i ∈ need, i ∈ covered := by
  have hlen : ∀ l : List Nat, l.insertionSort (· ≤ ·) = [] ↔ l = [] := by
    intro l
    rw [← length_eq_zero_iff, length_insertionSort, length_eq_zero_iff]
  simp [missingPCRs, hlen]

section
variable {T : TPM2} {C : Crypto} {opts : Options} {req : QuoteRequest} {policy : Policy}

/-- What the checks between the policy lookup and the pin establish of a quote. -/
structure Examined (T : TPM2) (C : Crypto) (req : QuoteRequest) (q : Quote) : Prop where
  parsed : parse T C req.quote req.signature req.akPub = .ok q
  signed : verifySignature T C q = .ok ()
  fresh : decodeString req.nonce = some q.extraData ∧ q.extraData ≠ []
  bank : q.bank = "sha256"
  values : ∀ i ∈ q.pcrs, ∃ v, sent req i = some v ∧ v.length = Hash.sha256.size
  digest : C.sum q.hash ((q.pcrs.insertionSort (· ≤ ·)).flatMap fun i => (sent req i).getD []) = q.pcrDigest
  covered : ∀ i ∈ requiredPCRs req.stage, i ∈ q.pcrs

theorem fingerprint_ne_nil (pub : Public) : fingerprint T C pub ≠ [] := by
  have hlen : (fingerprint T C pub).length = 64 := by
    rw [fingerprint, encodeToString_length, C.sum_length]
    rfl
  intro h
  rw [h] at hlen
  cases hlen

theorem parse_fingerprint {quote sig akPub : Bytes} {q : Quote}
    (h : parse T C quote sig akPub = .ok q) : q.akFingerprint = fingerprint T C q.pub := by
  unfold parse at h
  simp only [bind_eq_ok_iff] at h
  obtain ⟨_, -, _, -, _, -, _, -, _, -, _, -, _, -, _, -, _, -, _, -, hq⟩ := h
  cases hq
  rfl

def recordedPCRs (req : QuoteRequest) (q : Quote) : List (Nat × Text) :=
  hexPCRs (q.pcrs.map fun i => (i, (sent req i).getD []))

theorem lookup_recordedPCRs {q : Quote} (hi : i ∈ q.pcrs) :
    (recordedPCRs req q).lookup i = some (encodeToString ((sent req i).getD [])) := by
  unfold recordedPCRs hexPCRs
  rw [List.map_map]
  exact lookup_map_self (fun j => encodeToString ((sent req j).getD [])) hi

private theorem flatMap_sent (values : PCRValues) (l : List Nat)
    (h : ∀ i ∈ l, values.lookup i = some ((sent req i).getD [])) :
    (l.insertionSort (· ≤ ·)).flatMap (fun i => (values.lookup i).getD []) =
      (l.insertionSort (· ≤ ·)).flatMap fun i => (sent req i).getD [] := by
  apply flatMap_congr
  intro i hi
  rw [h i ((mem_insertionSort _).1 hi), getD_some]

theorem examine_eq_ok_iff {q : Quote} : examine T C req res = .ok (q, res') ↔ Examined T C req q ∧
      res' = { res with akFingerprint := q.akFingerprint, pcrs := recordedPCRs req q } := by
  unfold examine
  simp only [bind_eq_ok_iff, mapError_eq_ok_iff, require_eq_ok_iff, verifyNonce_eq_ok_iff,
    decodePCRs_eq_ok_iff, missingPCRs_eq_nil_iff]
  have hlook : ∀ (q : Quote), ∀ i ∈ q.pcrs,
      (q.pcrs.map fun j => (j, (sent req j).getD [])).lookup i = some ((sent req i).getD []) :=
    fun q i hi => lookup_map_self (fun j => (sent req j).getD []) hi
  constructor
  · rintro ⟨q', hp, _, hs, _, hn, _, hb, values, ⟨hall, rfl⟩, _, hv, _, hc, hq⟩
    simp only [pure, Except.pure, Except.ok.injEq, Prod.mk.injEq] at hq
    obtain ⟨rfl, rfl⟩ := hq
    have hv := (verifyPCRs_eq_ok_iff hb fun i hi => ⟨_, hlook q' i hi⟩).1 hv
    refine ⟨⟨hp, hs, hn, hb, fun i hi => ?_, ?_, hc⟩, rfl⟩
    · obtain ⟨v, hsent⟩ := hall i hi
      have hl := hlook q' i hi
      rw [show sent req i = some v from hsent, getD_some] at hl
      exact ⟨v, hsent, hv.1 i hi v hl⟩
    · rw [← flatMap_sent _ _ (hlook q')]
      exact hv.2
  · rintro ⟨he, rfl⟩
    refine ⟨q, he.parsed, (), he.signed, (), he.fresh, (), he.bank, _, ⟨fun i hi => ?_, rfl⟩, (),
      (verifyPCRs_eq_ok_iff he.bank fun i hi => ⟨_, hlook q i hi⟩).2 ⟨fun i hi v hl => ?_, ?_⟩, (), he.covered, rfl⟩
    · obtain ⟨v, hv, -⟩ := he.values i hi
      exact ⟨v, hv⟩
    · obtain ⟨w, hw, hlen⟩ := he.values i hi
      have hlook := hlook q i hi
      rw [hw, getD_some, hl] at hlook
      rw [some.inj hlook, hlen]
    · rw [flatMap_sent _ _ (hlook q)]
      exact he.digest

def MeetsExpected (got : Text) (otherwise : Prop) : Option (Text × String) → Prop
  | none => otherwise
  | some e => e.1 = got

def Agrees (opts : Options) (policy : Policy) (pcrs : List (Nat × Text)) (i : Nat) : Prop :=
  MeetsExpected ((pcrs.lookup i).getD []) (opts.learnGolden = true ∨ i = pcrSysext)
    (policy.expected i)

theorem compare_clean_iff {pcrs : List (Nat × Text)} {c : Comparison} :
    (compare opts policy pcrs c i).mismatched = [] ∧ (compare opts policy pcrs c i).unknown = [] ↔
      (c.mismatched = [] ∧ c.unknown = []) ∧ Agrees opts policy pcrs i := by
  unfold compare Agrees MeetsExpected
  cases he : policy.expected i with
  | none =>
    by_cases hl : opts.learnGolden || i == pcrSysext
    · have hl' := hl
      simp only [Bool.or_eq_true, beq_iff_eq] at hl'
      simp [hl, hl']
    · have hl' := hl
      simp only [Bool.or_eq_true, beq_iff_eq] at hl'
      simp [hl, hl']
  | some e =>
    obtain ⟨want, kubernetes⟩ := e
    by_cases hw : want = (pcrs.lookup i).getD [] <;> by_cases hk : kubernetes = "" <;>
      simp [hw, hk]

theorem compareAll_clean_iff (pcrs : List (Nat × Text)) (l : List Nat) (c : Comparison) :
    (l.foldl (compare opts policy pcrs) c).mismatched = [] ∧ (l.foldl (compare opts policy pcrs) c).unknown = [] ↔
      (c.mismatched = [] ∧ c.unknown = []) ∧ ∀ i ∈ l, Agrees opts policy pcrs i := by
  induction l generalizing c with
  | nil => simp
  | cons i rest ih =>
    simp only [foldl_cons, ih, compare_clean_iff, mem_cons, forall_eq_or_imp, and_assoc]

theorem judge_eq_ok_iff {q : Quote} {res : Result} :
    (∃ res', judge opts policy stage q res = .ok res') ↔ toLower ((policy.pcr11.lookup (phaseFor stage)).getD []) =
          (res.pcrs.lookup pcrUKI).getD [] ∧
        ∀ i ∈ comparedPCRs stage, Agrees opts policy res.pcrs i := by
  have hclean : _ ↔ _ ∧ ∀ i ∈ comparedPCRs stage, Agrees opts policy res.pcrs i :=
    compareAll_clean_iff res.pcrs (comparedPCRs stage) {}
  simp only [true_and, and_self] at hclean
  unfold judge
  simp only [bind_eq_ok_iff, require_eq_ok_iff]
  constructor
  · rintro ⟨res', _, hw, _, hm, _, hu, -⟩
    exact ⟨hw, hclean.1 ⟨hm, hu⟩⟩
  · rintro ⟨hw, ha⟩
    obtain ⟨hm, hu⟩ := hclean.2 ha
    exact ⟨_, (), hw, (), hm, (), hu, rfl⟩

def Fails {ε α : Type} (P : ε → Prop) (x : Except ε α) : Prop := ∀ err, x = .error err → P err

namespace Fails
variable {ε α β : Type} {P : ε → Prop}

theorem bind {x : Except ε α} {f : α → Except ε β} (hx : Fails P x) (hf : ∀ a, Fails P (f a)) :
    Fails P (x >>= f) := by
  intro err h
  cases x with
  | error e =>
    cases h
    exact hx _ rfl
  | ok a => exact hf a err h

theorem require {c : Prop} [Decidable c] {err : ε} (h : P err) : Fails P (require c err) := by
  intro err' h'
  unfold Tpmquote.require at h'
  split at h' <;> cases h'
  exact h

theorem mapError {δ : Type} {x : Except δ α} {g : δ → ε} (h : ∀ e, P (g e)) :
    Fails P (x.mapError g) := by
  intro err h'
  cases x <;> cases h'
  exact h _

theorem pure {a : α} : Fails P (pure a) := nofun

end Fails

theorem examine_rejects (res : Result) :
    Fails (fun r => r.verified = res.verified) (examine T C req res) := by
  refine .bind (.mapError fun _ => rfl) fun q => .bind (.mapError fun _ => rfl) fun _ => ?_
  refine .bind (.mapError fun _ => rfl) fun _ => .bind (.require rfl) fun _ => ?_
  refine .bind (.mapError fun _ => rfl) fun values => .bind (.mapError fun _ => rfl) fun _ => ?_
  exact .bind (.require rfl) fun _ => .pure

theorem judge_rejects (stage : Stage) (q : Quote) (res : Result) :
    Fails (fun r => r.verified = res.verified) (judge opts policy stage q res) := by
  refine .bind (.require rfl) fun _ => .bind (.require rfl) fun _ => ?_
  exact .bind (.require rfl) fun _ => .pure

theorem judge_accepts {q : Quote} (h : judge opts policy stage q res = .ok res') :
    res'.verified = true ∧ res'.akFingerprint = res.akFingerprint := by
  unfold judge at h
  simp only [bind_eq_ok_iff, require_eq_ok_iff] at h
  obtain ⟨_, -, _, -, _, -, hr⟩ := h
  cases hr
  exact ⟨rfl, rfl⟩

end

end VmManager.Attest
