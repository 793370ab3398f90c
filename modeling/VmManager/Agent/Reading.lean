import Mathlib.Data.Finset.Card
import VmManager.Agent.Quote

/-! How often `readPCRs` asks, against a TPM that answers what it likes. It goes on until an answer fails or
all indexes have been named. An answer with indexes nobody asked for passes the count check and changes
nothing, so the same read is sent again. -/
namespace VmManager.Agent
open Encoding Tpmquote Attest Interleaving List Option GoMap

variable {alg : UInt16} {answers : Nat → Except Failure PCRReadResponse} {pcrs remaining : List Nat}
  {values : GoMap Nat Bytes} {rsp : PCRReadResponse} {k n rounds : Nat}

def scripted (answers : Nat → Except Failure PCRReadResponse) : TPM Nat where
  readPublic _ k := (.error ⟨"not in the script", false⟩, k)
  createPrimary _ _ k := (.error ⟨"not in the script", false⟩, k)
  create _ _ k := (.error ⟨"not in the script", false⟩, k)
  load _ _ _ k := (.error ⟨"not in the script", false⟩, k)
  evictControl _ _ _ k := (.error ⟨"not in the script", false⟩, k)
  flushContext _ k := (.error ⟨"not in the script", false⟩, k)
  pcrRead _ k := (answers k, k + 1)
  quote _ _ _ k := (.error ⟨"not in the script", false⟩, k)

/-- The answer passes the check of `readPCRs`: it names an index, and has as many digests as indexes. -/
def Counted (alg : UInt16) (rsp : PCRReadResponse) : Prop :=
  ¬ ((selected rsp.selectionOut alg).length = 0 ∨ (selected rsp.selectionOut alg).length ≠ rsp.digests.length)

def digestOf (alg : UInt16) (rsp : PCRReadResponse) (i : Nat) : Option Bytes :=
  ((selected rsp.selectionOut alg).zip rsp.digests).reverse.lookup i

def lastDigest (alg : UInt16) (answers : Nat → Except Failure PCRReadResponse) (i : Nat) : Nat → Option Bytes
  | 0 => none
  | n + 1 => match answers n with
    | .ok rsp => (digestOf alg rsp i).or (lastDigest alg answers i n)
    | .error _ => lastDigest alg answers i n

def unread (alg : UInt16) (answers : Nat → Except Failure PCRReadResponse) (pcrs : List Nat) (k : Nat) : List Nat :=
  pcrs.filter fun i => (lastDigest alg answers i k).isNone

/-- One of the answers `k` to `n - 1` fails, or together they name all the indexes. -/
def Settles (alg : UInt16) (answers : Nat → Except Failure PCRReadResponse) (pcrs : List Nat) (k n : Nat) : Prop :=
  (∃ j, k ≤ j ∧ j < n ∧ ∀ rsp, answers j = .ok rsp → ¬ Counted alg rsp) ∨
    ∀ i ∈ pcrs, ∃ j, k ≤ j ∧ j < n ∧ ∃ rsp, answers j = .ok rsp ∧ i ∈ selected rsp.selectionOut alg

structure Round (alg : UInt16) (answers : Nat → Except Failure PCRReadResponse) (pcrs : List Nat) (k : Nat)
    (values : GoMap Nat Bytes) (remaining : List Nat) : Prop where
  values : ∀ i, values.get i = lastDigest alg answers i k
  remaining : remaining = unread alg answers pcrs k
  counted : ∀ j < k, ∃ rsp, answers j = .ok rsp ∧ Counted alg rsp

def merge (alg : UInt16) (rsp : PCRReadResponse) (values : GoMap Nat Bytes) : GoMap Nat Bytes :=
  ((selected rsp.selectionOut alg).zip rsp.digests).foldl (fun m e => m.insert e.1 e.2) values

theorem get_merge (i : Nat) : (merge alg rsp values).get i = (digestOf alg rsp i).or (values.get i) := by
  unfold merge digestOf
  generalize (selected rsp.selectionOut alg).zip rsp.digests = l
  induction l generalizing values with
  | nil => rfl
  | cons e l ih =>
    obtain ⟨j, digest⟩ := e
    rw [foldl_cons, ih, reverse_cons, lookup_append, get_insert, lookup_cons]
    by_cases hi : i = j
    · simp [hi]
    · simp [hi, beq_false_of_ne hi]

theorem get_merge_of_mem (hc : Counted alg rsp) {i : Nat} (hi : i ∈ selected rsp.selectionOut alg) :
    (merge alg rsp values).get i ≠ none := by
  have hlen : (selected rsp.selectionOut alg).length = rsp.digests.length := by
    by_contra hne
    exact hc (.inr hne)
  have hmem : i ∈ ((selected rsp.selectionOut alg).zip rsp.digests).reverse.map Prod.fst := by
    rw [map_reverse, mem_reverse, map_fst_zip hlen.le]
    exact hi
  rw [get_merge, digestOf]
  intro hnone
  obtain ⟨e, he, rfl⟩ := List.mem_map.1 hmem
  have := lookup_eq_none_iff.1 (or_eq_none_iff.1 hnone).1 e he
  simp at this

theorem round_zero : Round alg answers pcrs 0 ∅ pcrs where
  values _ := get_empty _
  remaining := (filter_eq_self.2 fun _ _ => rfl).symm
  counted _ hj := absurd hj (Nat.not_lt_zero _)

theorem Round.next (h : Round alg answers pcrs k values remaining) (hok : answers k = .ok rsp) (hc : Counted alg rsp) :
    Round alg answers pcrs (k + 1) (merge alg rsp values) (without remaining (merge alg rsp values)) := by
  have hvalues : ∀ i, (merge alg rsp values).get i = lastDigest alg answers i (k + 1) := by
    intro i
    rw [get_merge, h.values, lastDigest, hok]
  refine ⟨hvalues, ?_, ?_⟩
  · rw [h.remaining, without, unread, unread, List.filter_filter]
    apply filter_congr
    intro i _
    -- an index with a digest keeps one
    rw [hvalues]
    simp only [lastDigest, hok]
    cases digestOf alg rsp i with
    | none => simp
    | some d => rfl
  · intro j hj
    rcases Nat.lt_succ_iff_lt_or_eq.1 hj with hj | rfl
    · exact h.counted j hj
    · exact ⟨rsp, hok, hc⟩

theorem exec_readRounds_nil (rounds : Nat) :
    (readRounds (scripted answers) alg rounds values []).exec k = some (.ok values, k) := by
  cases rounds <;> rfl

theorem exec_readRounds_error {err : Failure} (hne : remaining ≠ []) (herr : answers k = .error err) :
    (readRounds (scripted answers) alg (rounds + 1) values remaining).exec k = some (.error err, k + 1) := by
  obtain ⟨i, rest, rfl⟩ := exists_cons_of_ne_nil hne
  rw [readRounds, Sequential.exec_bind, Sequential.exec_command]
  simp [scripted, herr]

theorem exec_readRounds_uncounted (rounds : Nat) (values : GoMap Nat Bytes) (hne : remaining ≠ [])
    (hok : answers k = .ok rsp) (hc : ¬ Counted alg rsp) :
    ∃ err, (readRounds (scripted answers) alg (rounds + 1) values remaining).exec k =
      some (.error err, k + 1) := by
  obtain ⟨i, rest, rfl⟩ := exists_cons_of_ne_nil hne
  rw [readRounds, Sequential.exec_bind, Sequential.exec_command]
  simp only [scripted, hok, bind_some]
  rw [if_pos (not_not.1 hc), Sequential.exec_bind]
  exact ⟨_, rfl⟩

theorem exec_readRounds_counted (hne : remaining ≠ []) (hok : answers k = .ok rsp) (hc : Counted alg rsp) :
    (readRounds (scripted answers) alg (rounds + 1) values remaining).exec k =
      (readRounds (scripted answers) alg rounds (merge alg rsp values)
        (without remaining (merge alg rsp values))).exec (k + 1) := by
  obtain ⟨i, rest, rfl⟩ := exists_cons_of_ne_nil hne
  rw [readRounds, Sequential.exec_bind, Sequential.exec_command]
  simp only [scripted, hok, bind_some]
  rw [if_neg hc]
  rfl

theorem readRounds_right {vs : GoMap Nat Bytes} (h : Round alg answers pcrs k values remaining)
    (hexec : (readRounds (scripted answers) alg rounds values remaining).exec k = some (.ok vs, n)) :
    Round alg answers pcrs n vs [] := by
  by_cases hne : remaining = []
  · subst hne
    rw [exec_readRounds_nil] at hexec
    cases hexec
    exact h
  induction rounds generalizing k values remaining with
  | zero =>
    obtain ⟨i, rest, rfl⟩ := exists_cons_of_ne_nil hne
    cases hexec
  | succ rounds ih =>
    cases ha : answers k with
    | error err =>
      rw [exec_readRounds_error hne ha] at hexec
      cases hexec
    | ok rsp =>
      by_cases hc : Counted alg rsp
      · rw [exec_readRounds_counted hne ha hc] at hexec
        by_cases hlast : without remaining (merge alg rsp values) = []
        · rw [hlast, exec_readRounds_nil] at hexec
          cases hexec
          exact hlast ▸ h.next ha hc
        · exact ih (h.next ha hc) hexec hlast
      · obtain ⟨err, herr⟩ := exec_readRounds_uncounted rounds values hne ha hc
        rw [herr] at hexec
        cases hexec

theorem mem_selected_of_digestOf {i : Nat} (h : digestOf alg rsp i ≠ none) : i ∈ selected rsp.selectionOut alg := by
  by_contra hi
  refine h (lookup_eq_none_iff.2 fun e he => bne_iff_ne.2 ?_)
  rintro rfl
  exact hi (of_mem_zip (mem_reverse.1 he)).1

theorem Settles.later (h : Settles alg answers remaining k n) (hok : answers k = .ok rsp) (hc : Counted alg rsp) :
    Settles alg answers (without remaining (merge alg rsp values)) (k + 1) n := by
  rcases h with ⟨j, hkj, hjn, hfail⟩ | hall
  · refine .inl ⟨j, Nat.lt_of_le_of_ne hkj ?_, hjn, hfail⟩
    rintro rfl
    exact hfail rsp hok hc
  · refine .inr fun i hi => ?_
    obtain ⟨hrem, hnone⟩ := mem_filter.1 hi
    obtain ⟨j, hkj, hjn, rsp', hok', hsel⟩ := hall i hrem
    refine ⟨j, Nat.lt_of_le_of_ne hkj ?_, hjn, rsp', hok', hsel⟩
    rintro rfl
    cases hok.symm.trans hok'
    exact get_merge_of_mem hc hsel (isNone_iff_eq_none.1 hnone)

theorem readRounds_returns (h : Settles alg answers remaining k n) (hrounds : n ≤ k + rounds) (hk : k ≤ n) :
    ∃ r m, (readRounds (scripted answers) alg rounds values remaining).exec k = some (r, m) ∧ m ≤ n := by
  by_cases hne : remaining = []
  · subst hne
    exact ⟨_, _, exec_readRounds_nil _, hk⟩
  have hlt : k < n := by
    obtain ⟨i, hi⟩ := exists_mem_of_ne_nil _ hne
    rcases h with ⟨j, hkj, hjn, -⟩ | hall
    · omega
    · obtain ⟨j, hkj, hjn, -⟩ := hall i hi
      omega
  induction rounds generalizing k values remaining with
  | zero => omega
  | succ rounds ih =>
    cases ha : answers k with
    | error err => exact ⟨_, _, exec_readRounds_error hne ha, hlt⟩
    | ok rsp =>
      by_cases hc : Counted alg rsp
      · rw [exec_readRounds_counted hne ha hc]
        have hlater : Settles alg answers (without remaining (merge alg rsp values)) (k + 1) n := h.later ha hc
        by_cases hlast : without remaining (merge alg rsp values) = []
        · rw [hlast]
          exact ⟨_, _, exec_readRounds_nil _, hlt⟩
        · obtain ⟨i, hi⟩ := exists_mem_of_ne_nil _ hlast
          refine ih hlater (by omega) hlt hlast ?_
          rcases hlater with ⟨j, hkj, hjn, -⟩ | hall
          · omega
          · obtain ⟨j, hkj, hjn, -⟩ := hall i hi
            omega
      · obtain ⟨err, herr⟩ := exec_readRounds_uncounted rounds values hne ha hc
        exact ⟨_, _, herr, hlt⟩

theorem readRounds_settles {r : Except Failure (GoMap Nat Bytes)} (hnone : ∀ i ∈ remaining, values.get i = none)
    (hexec : (readRounds (scripted answers) alg rounds values remaining).exec k = some (r, n)) :
    Settles alg answers remaining k (k + rounds) := by
  by_cases hne : remaining = []
  · subst hne
    exact .inr fun i hi => by cases hi
  induction rounds generalizing k values remaining with
  | zero =>
    obtain ⟨i, rest, rfl⟩ := exists_cons_of_ne_nil hne
    cases hexec
  | succ rounds ih =>
    cases ha : answers k with
    | error err =>
      refine .inl ⟨k, le_rfl, by omega, fun rsp hok => ?_⟩
      rw [ha] at hok
      cases hok
    | ok rsp =>
      by_cases hc : Counted alg rsp
      · rw [exec_readRounds_counted hne ha hc] at hexec
        have hrest : Settles alg answers (without remaining (merge alg rsp values)) (k + 1) (k + 1 + rounds) := by
          by_cases hlast : without remaining (merge alg rsp values) = []
          · rw [hlast]
            exact .inr fun i hi => by cases hi
          · exact ih (fun i hi => isNone_iff_eq_none.1 (mem_filter.1 hi).2) hexec hlast
        rcases hrest with ⟨j, hkj, hjn, hfail⟩ | hall
        · exact .inl ⟨j, by omega, by omega, hfail⟩
        · refine .inr fun i hi => ?_
          by_cases hread : (merge alg rsp values).get i = none
          · obtain ⟨j, hkj, hjn, hnames⟩ := hall i (mem_filter.2 ⟨hi, isNone_iff_eq_none.2 hread⟩)
            exact ⟨j, by omega, by omega, hnames⟩
          · rw [get_merge, hnone i hi, or_none] at hread
            exact ⟨k, le_rfl, by omega, rsp, ha, mem_selected_of_digestOf hread⟩
      · refine .inl ⟨k, le_rfl, by omega, fun rsp' hok => ?_⟩
        cases ha.symm.trans hok
        exact hc

theorem pcr_reads_bounded (alg : UInt16) (answers : Nat → Except Failure PCRReadResponse) (pcrs : List Nat) :
    ((∀ rounds, pcrs.toFinset.card ≤ rounds → ∃ r n,
      (readPCRs (scripted answers) rounds alg pcrs).exec 0 = some (r, n) ∧ n ≤ pcrs.toFinset.card) ↔
      Settles alg answers pcrs 0 pcrs.toFinset.card) ∧
    ∀ rounds values n, (readPCRs (scripted answers) rounds alg pcrs).exec 0 = some (.ok values, n) →
      ∀ i ∈ pcrs, ∃ d, lastDigest alg answers i n = some d ∧ values.get i = some d := by
  refine ⟨⟨fun h => ?_, fun h rounds hrounds => ?_⟩, fun rounds values n hexec i hi => ?_⟩
  · obtain ⟨r, n, hexec, -⟩ := h _ le_rfl
    have hsettles := readRounds_settles (fun _ _ => get_empty _) hexec
    rwa [Nat.zero_add] at hsettles
  · exact readRounds_returns h (by omega) (Nat.zero_le _)
  · have hround := readRounds_right round_zero hexec
    have hsome : lastDigest alg answers i n ≠ none := by
      intro hnone
      have hmem : i ∈ unread alg answers pcrs n := mem_filter.2 ⟨hi, by rw [hnone]; rfl⟩
      rw [← hround.remaining] at hmem
      cases hmem
    obtain ⟨d, hd⟩ := ne_none_iff_exists'.1 hsome
    exact ⟨d, hd, (hround.values i).trans hd⟩

namespace ReadingSample

def only (i : Nat) : PCRReadResponse := ⟨selection bankAlg [i], [[UInt8.ofNat i]]⟩

def late (k : Nat) : Except Failure PCRReadResponse := .ok (only (if k < 2 then 5 else 0))

theorem other_forever (rounds k : Nat) (values : GoMap Nat Bytes) (h : values.get 0 = none) :
    (readRounds (scripted fun _ => .ok (only 5)) bankAlg rounds values [0]).exec k = none := by
  induction rounds generalizing k values with
  | zero => rfl
  | succ rounds ih =>
    have hget : (merge bankAlg (only 5) values).get 0 = none := by
      rw [get_merge, h]
      decide
    have hrest : without [0] (merge bankAlg (only 5) values) = [0] := by simp [without, hget]
    have hc : Counted bankAlg (only 5) := by
      unfold Counted
      decide
    rw [exec_readRounds_counted (cons_ne_nil 0 []) rfl hc, hrest]
    exact ih (k + 1) _ hget

end ReadingSample

theorem pcr_reads_unbounded :
    (∀ rounds, (readPCRs (scripted fun _ => .ok (ReadingSample.only 5)) rounds bankAlg [0]).exec 0 = none) ∧
    ((readPCRs (scripted ReadingSample.late) 3 bankAlg [0]).exec 0).map (·.2) = some 3 :=
  ⟨fun rounds => ReadingSample.other_forever rounds 0 ∅ (get_empty _), by decide +kernel⟩

end VmManager.Agent
