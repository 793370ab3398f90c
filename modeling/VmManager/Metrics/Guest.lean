import Mathlib.Data.Char
import Mathlib.Data.Finset.Card
import Mathlib.Data.List.Induction
import Mathlib.Data.List.Lex
import VmManager.Encoding.Split
import VmManager.Metrics.Report

/-! The collector of guest reports. A report is taken entry by entry; the counters of a VM go on from one
report to the next until the VM is forgotten. -/
namespace VmManager.Metrics
open Encoding List Option GoMap Function

inductive Drop where
  | limit
  | unsupported
  | duplicate
deriving DecidableEq, Repr

def dropReasons : List Drop := [.limit, .unsupported, .duplicate]

def sampleSize : Nat := 10

section store
variable {F : Type} (g : Golib F)

/-- The series within one report: its name and its labels in order, each after a NUL. -/
def Series.key (s : Series F) : Text :=
  s.name ++ (s.labels.keys.insertionSort (· ≤ ·)).flatMap fun k =>
    '\x00' :: (k ++ '=' :: (s.labels.get k).getD [])

structure Report (F : Type) where
  timestamp : Text := []
  metrics : List (Entry F)

structure Intake (F : Type) where
  series : List (Series F) := []
  seen : List Text := []
  dropped : Drop → Nat := fun _ => 0

namespace Intake

def verdict (max : Nat) (st : Intake F) (e : Entry F) : Except Drop (Series F) :=
  match convert g e with
  | none => .error .unsupported
  | some s =>
    if max ≤ st.series.length then .error .limit
    else if s.key ∈ st.seen then .error .duplicate
    else .ok s

def add (max : Nat) (st : Intake F) (e : Entry F) : Intake F :=
  match st.verdict g max e with
  | .ok s => { st with series := st.series ++ [s], seen := s.key :: st.seen }
  | .error d => { st with dropped := update st.dropped d (st.dropped d + 1) }

end Intake

def intake (max : Nat) (es : List (Entry F)) : Intake F := es.foldl (Intake.add g max) {}

/-- The state of one VM's last upload. The counters are carried over from the report before. -/
structure GuestReport (F : Type) where
  receivedAt : Nat
  generatedAt : Option Nat
  families : Nat
  entries : Nat
  series : List (Series F)
  dropped : Drop → Nat
  sample : List (Entry F)
  uploads : Nat
  droppedTotal : Drop → Nat

abbrev Collector (F : Type) := GoMap Text (GuestReport F)

namespace Collector

def uploads (c : Collector F) (id : Text) : Nat := ((c.get id).map GuestReport.uploads).getD 0

def droppedTotal (c : Collector F) (id : Text) : Drop → Nat := ((c.get id).map GuestReport.droppedTotal).getD fun _ => 0

def store (max now : Nat) (c : Collector F) (id : Text) (r : Report F) : Collector F :=
  let st := intake g max r.metrics
  c.insert id
    { receivedAt := now
      generatedAt := g.parseTime r.timestamp
      families := (r.metrics.map Entry.name).dedup.length
      entries := r.metrics.length
      series := st.series
      dropped := st.dropped
      sample := r.metrics.take sampleSize
      uploads := c.uploads id + 1
      droppedTotal := fun d => c.droppedTotal id d + st.dropped d }

def forget (c : Collector F) (id : Text) : Collector F := c.erase id

end Collector

inductive Action where
  | store (id : Text) (raw : Bytes) (now : Nat)
  | forget (id : Text)

def Collector.act (parse : Bytes → Option (Report F)) (max : Nat) (c : Collector F) : Action → Collector F
  | .store id raw now => match parse raw with
    | some r => c.store g max now id r
    | none => c
  | .forget id => c.forget id

def accepted (parse : Bytes → Option (Report F)) (id : Text) (rs : List (Report F)) : Action → List (Report F)
  | .store id' raw _ => if id' = id then rs ++ (parse raw).toList else rs
  | .forget id' => if id' = id then [] else rs

end store

section key
variable {F : Type} {g : Golib F} {s s' : Series F}

def Series.pairs (s : Series F) : List (Text × Text) :=
  (s.labels.keys.insertionSort (· ≤ ·)).map fun k => (k, (s.labels.get k).getD [])

theorem Series.key_eq (s : Series F) :
    s.key = s.name ++ (s.pairs.map fun x => x.1 ++ '=' :: x.2).flatMap fun y => '\x00' :: y := by
  simp [key, pairs, flatMap_map, comp_def]

theorem Series.mem_pairs {l v : Text} : (l, v) ∈ s.pairs ↔ s.labels.get l = some v := by
  have hkey : l ∈ s.labels.keys.insertionSort (· ≤ ·) ↔ s.labels.get l ≠ none :=
    (perm_insertionSort (· ≤ ·) s.labels.keys).mem_iff.trans mem_keys_iff
  constructor
  · intro h
    obtain ⟨k, hk, hx⟩ := List.mem_map.1 h
    cases hx
    obtain ⟨v, hv⟩ := ne_none_iff_exists'.1 (hkey.1 hk)
    rw [hv]
    rfl
  · intro h
    refine List.mem_map.2 ⟨l, hkey.2 (by rw [h]; simp), ?_⟩
    rw [h]
    rfl

def Series.Alike (s s' : Series F) : Prop := s.name = s'.name ∧ ∀ l, s.labels.get l = s'.labels.get l

theorem Series.Alike.symm (h : s.Alike s') : s'.Alike s := ⟨h.1.symm, fun l => (h.2 l).symm⟩

theorem Series.Alike.trans {s'' : Series F} (h : s.Alike s') (h' : s'.Alike s'') : s.Alike s'' :=
  ⟨h.1.trans h'.1, fun l => (h.2 l).trans (h'.2 l)⟩

theorem Series.Alike.pairs (h : s.Alike s') : s.pairs = s'.pairs := by
  have hsort : s.labels.keys.insertionSort (· ≤ ·) = s'.labels.keys.insertionSort (· ≤ ·) :=
    insertionSort_keys _ fun l => by rw [h.2 l]
  rw [Series.pairs, hsort, Series.pairs]
  exact map_congr_left fun l _ => by rw [h.2 l]

theorem Series.Alike.key (h : s.Alike s') : s.key = s'.key := by
  rw [Series.key_eq, Series.key_eq, h.1, h.pairs]

/-- No NUL is in the name, the label names or the label values, and no equals sign in a label name. -/
structure Series.Separable (s : Series F) : Prop where
  name : '\x00' ∉ s.name
  label : ∀ l v, s.labels.get l = some v → '\x00' ∉ l ∧ '=' ∉ l ∧ '\x00' ∉ v

theorem Series.Separable.alike (h : s.Separable) (h' : s'.Separable) (hkey : s.key = s'.key) :
    s.Alike s' := by
  have hfree : ∀ s : Series F, s.Separable →
      ∀ y ∈ s.name :: s.pairs.map fun x => x.1 ++ '=' :: x.2, '\x00' ∉ y := by
    intro s h y hy
    rcases mem_cons.1 hy with rfl | hy
    · exact h.name
    · obtain ⟨⟨l, v⟩, hx, rfl⟩ := List.mem_map.1 hy
      obtain ⟨hl, -, hv⟩ := h.label l v (mem_pairs.1 hx)
      simp [hl, hv]
  rw [key_eq, key_eq] at hkey
  obtain ⟨hname, hparts⟩ := join_inj (hfree s h) (hfree s' h') hkey
  have hsub : ∀ s s' : Series F, s.Separable → s'.Separable →
      (s.pairs.map fun x => x.1 ++ '=' :: x.2) = (s'.pairs.map fun x => x.1 ++ '=' :: x.2) →
      ∀ l v, s.labels.get l = some v → s'.labels.get l = some v := by
    intro s s' h h' hparts l v hv
    have hmem : l ++ '=' :: v ∈ s'.pairs.map fun x => x.1 ++ '=' :: x.2 :=
      hparts ▸ List.mem_map.2 ⟨(l, v), mem_pairs.2 hv, rfl⟩
    obtain ⟨⟨l', v'⟩, hx, heq⟩ := List.mem_map.1 hmem
    have hv' := mem_pairs.1 hx
    obtain ⟨rfl, rfl⟩ := cut_inj (h'.label l' v' hv').2.1 (h.label l v hv).2.1 heq
    exact hv'
  refine ⟨hname, fun l => ext fun v => ⟨?_, ?_⟩⟩
  · exact hsub s s' h h' hparts l v
  · exact hsub s' s h' h hparts.symm l v

structure NulFree (g : Golib F) (e : Entry F) : Prop where
  object : '\x00' ∉ e.object
  fields : ∀ key v, e.fields.get key = some v → '\x00' ∉ labelString g v
  value : '\x00' ∉ labelString g e.value

theorem NulFree.separable {e : Entry F} (h : NulFree g e) (hs : convert g e = some s) : s.Separable := by
  obtain ⟨k, value, str, hkind, -, rfl⟩ := convert_cases hs
  have hbound : ∀ v : Text, '\x00' ∉ v → '\x00' ∉ boundLabel v := fun v hv hm =>
    (boundLabel_subset hm).elim hv (by decide)
  refine ⟨metricName_ne_nul k e.name, fun l v hl => ⟨fun hm => ?_, fun hm => ?_, ?_⟩⟩
  · exact absurd (labelsOf_runes hl hm) (by decide)
  · exact absurd (labelsOf_runes hl hm) (by decide)
  · rcases labelsOf_cases hl with ⟨-, rfl⟩ | ⟨key, x, hx, -, rfl⟩ | ⟨rfl, -, rfl⟩
    · exact hbound _ h.object
    · exact hbound _ (h.fields key x hx)
    · rw [kindOf_info hkind]
      exact hbound _ h.value

end key

section accounting
variable {F : Type} {g : Golib F} {max : Nat} {es : List (Entry F)} {e e' : Entry F} {s : Series F}

def Kept (g : Golib F) (max : Nat) (es : List (Entry F)) (e : Entry F) (s : Series F) : Prop :=
  ∃ pre post, es = pre ++ e :: post ∧ (intake g max pre).verdict g max e = .ok s

theorem intake_concat (g : Golib F) (max : Nat) (es : List (Entry F)) (e : Entry F) :
    intake g max (es ++ [e]) = (intake g max es).add g max e := by
  rw [intake, foldl_append]
  rfl

theorem kept_concat : Kept g max (es ++ [e]) e' s ↔
    Kept g max es e' s ∨ (e' = e ∧ (intake g max es).verdict g max e = .ok s) := by
  constructor
  · rintro ⟨pre, post, heq, hv⟩
    rcases eq_nil_or_concat post with rfl | ⟨post, x, rfl⟩
    · obtain ⟨rfl, hx⟩ := append_inj' heq rfl
      cases hx
      exact .inr ⟨rfl, hv⟩
    · rw [concat_eq_append, ← cons_append, ← append_assoc] at heq
      exact .inl ⟨pre, post, (append_inj' heq rfl).1, hv⟩
  · rintro (⟨pre, post, rfl, hv⟩ | ⟨rfl, hv⟩)
    · exact ⟨pre, post ++ [e], by simp, hv⟩
    · exact ⟨es, [], rfl, hv⟩

theorem Intake.verdict_ok {st : Intake F} (h : st.verdict g max e = .ok s) :
    convert g e = some s ∧ st.series.length < max ∧ s.key ∉ st.seen := by
  unfold verdict at h
  split at h
  · cases h
  rename_i s' hs'
  split at h
  · cases h
  split at h <;> cases h
  exact ⟨hs', by omega, ‹_›⟩

structure Intake.Sound (g : Golib F) (max : Nat) (es : List (Entry F)) (st : Intake F) : Prop where
  kept : ∀ s, s ∈ st.series ↔ ∃ e, Kept g max es e s
  seen : ∀ k, k ∈ st.seen ↔ ∃ s ∈ st.series, s.key = k
  apart : st.series.Pairwise fun s s' => s.key ≠ s'.key
  bound : st.series.length ≤ max
  total : es.length = st.series.length + (dropReasons.map st.dropped).sum

theorem Intake.sum_dropped (f : Drop → Nat) (d : Drop) :
    (dropReasons.map (update f d (f d + 1))).sum = (dropReasons.map f).sum + 1 := by
  cases d <;> simp [dropReasons] <;> omega

theorem intake_sound (g : Golib F) (max : Nat) (es : List (Entry F)) :
    (intake g max es).Sound g max es := by
  induction es using reverseRecOn with
  | nil =>
    refine ⟨fun s => ⟨fun h => absurd h not_mem_nil, ?_⟩, fun k => ?_, .nil, Nat.zero_le _, rfl⟩
    · rintro ⟨e, pre, post, h, -⟩
      exact absurd h.symm (by simp)
    · exact ⟨fun h => absurd h not_mem_nil, fun ⟨s, hs, _⟩ => absurd hs not_mem_nil⟩
  | append_singleton es e ih =>
    rw [intake_concat]
    have hkept : ∀ s, (∃ e', Kept g max (es ++ [e]) e' s) ↔
        s ∈ (intake g max es).series ∨ (intake g max es).verdict g max e = .ok s := by
      intro s
      rw [ih.kept]
      constructor
      · rintro ⟨e', h⟩
        exact (kept_concat.1 h).imp (fun h => ⟨e', h⟩) fun h => h.2
      · rintro (⟨e', h⟩ | h)
        · exact ⟨e', kept_concat.2 (.inl h)⟩
        · exact ⟨e, kept_concat.2 (.inr ⟨rfl, h⟩)⟩
    unfold Intake.add
    cases hv : (intake g max es).verdict g max e with
    | ok s =>
      obtain ⟨-, hlt, hfresh⟩ := Intake.verdict_ok hv
      refine ⟨fun s' => ?_, fun k => ?_, ?_, ?_, ?_⟩
      · rw [hkept, hv]
        simp [eq_comm]
      · rw [mem_cons, ih.seen]
        simp only [mem_append, mem_singleton]
        constructor
        · rintro (rfl | ⟨s', hs', hk⟩)
          · exact ⟨s, .inr rfl, rfl⟩
          · exact ⟨s', .inl hs', hk⟩
        · rintro ⟨s', hs' | rfl, hk⟩
          · exact .inr ⟨s', hs', hk⟩
          · exact .inl hk.symm
      · refine pairwise_append.2 ⟨ih.apart, pairwise_singleton _ _, fun s₁ h₁ s₂ h₂ => ?_⟩
        rw [mem_singleton.1 h₂]
        exact fun hk => hfresh ((ih.seen s.key).2 ⟨s₁, h₁, hk⟩)
      · simp
        omega
      · have htotal := ih.total
        simp only [length_append, length_singleton]
        omega
    | error d =>
      refine ⟨fun s' => ?_, ih.seen, ih.apart, ih.bound, ?_⟩
      · rw [hkept, hv]
        simp
      · have htotal := ih.total
        have hsum := Intake.sum_dropped (intake g max es).dropped d
        simp only [length_append, length_singleton]
        omega

theorem Kept.convert (h : Kept g max es e s) : e ∈ es ∧ Metrics.convert g e = some s := by
  obtain ⟨pre, post, rfl, hv⟩ := h
  exact ⟨by simp, (Intake.verdict_ok hv).1⟩

theorem counters_run (g : Golib F) (parse : Bytes → Option (Report F)) (max : Nat) (moves : List Action)
    (id : Text) : (moves.foldl (Collector.act g parse max) ∅).uploads id = (moves.foldl (accepted parse id) []).length ∧
    ∀ d, (moves.foldl (Collector.act g parse max) ∅).droppedTotal id d =
      ((moves.foldl (accepted parse id) []).map fun r => (intake g max r.metrics).dropped d).sum := by
  induction moves using reverseRecOn with
  | nil => exact ⟨rfl, fun _ => rfl⟩
  | append_singleton moves a ih =>
    rw [foldl_append, foldl_append]
    simp only [foldl_cons, foldl_nil]
    cases a with
    | store id' raw now =>
      cases hp : parse raw with
      | none => simpa [Collector.act, accepted, hp] using ih
      | some r =>
        simp only [Collector.act, accepted, hp]
        by_cases hid : id' = id
        · subst hid
          simp only [Collector.uploads, Collector.droppedTotal, Collector.store, get_insert,
            if_true, map_some, getD_some, toList_some, length_append,
            length_singleton, map_append, map_cons, map_nil, sum_append, sum_singleton] at ih ⊢
          exact ⟨congrArg (· + 1) ih.1, fun d => congrArg (· + _) (ih.2 d)⟩
        · rw [if_neg hid]
          simp only [Collector.uploads, Collector.droppedTotal, Collector.store, get_insert,
            if_neg (Ne.symm hid)] at ih ⊢
          exact ih
    | forget id' =>
      unfold Collector.act accepted Collector.forget
      dsimp only
      by_cases hid : id' = id
      · subst hid
        simp [Collector.uploads, Collector.droppedTotal, get_erase]
      · rw [if_neg hid]
        simp only [Collector.uploads, Collector.droppedTotal, get_erase, if_neg (Ne.symm hid)] at ih ⊢
        exact ih

def keysOf (g : Golib F) (es : List (Entry F)) : Finset Text := ((es.filterMap (Metrics.convert g)).map Series.key).toFinset

theorem mem_keysOf {k : Text} : k ∈ keysOf g es ↔ ∃ e ∈ es, ∃ s, Metrics.convert g e = some s ∧ s.key = k := by
  simp only [keysOf, List.mem_toFinset, List.mem_map, mem_filterMap]
  constructor
  · rintro ⟨s, ⟨e, he, hs⟩, hk⟩
    exact ⟨e, he, s, hs, hk⟩
  · rintro ⟨e, he, s, hs, hk⟩
    exact ⟨s, ⟨e, he, hs⟩, hk⟩

theorem keysOf_concat_none (h : Metrics.convert g e = none) : keysOf g (es ++ [e]) = keysOf g es := by
  simp [keysOf, h]

theorem keysOf_concat_some (h : Metrics.convert g e = some s) :
    keysOf g (es ++ [e]) = insert s.key (keysOf g es) := by
  ext k
  simp [keysOf, h]

theorem intake_keys (g : Golib F) (max : Nat) (es : List (Entry F)) :
    (intake g max es).series.length = min max (keysOf g es).card ∧
    ((keysOf g es).card ≤ max → ∀ k, k ∈ (intake g max es).seen ↔ k ∈ keysOf g es) := by
  induction es using reverseRecOn with
  | nil => exact ⟨by simp [intake, keysOf], fun _ k => by simp [intake, keysOf]⟩
  | append_singleton es e ih =>
    obtain ⟨hlen, hseen⟩ := ih
    rw [intake_concat, Intake.add, Intake.verdict]
    cases hc : Metrics.convert g e with
    | none =>
      rw [keysOf_concat_none hc]
      exact ⟨hlen, hseen⟩
    | some s =>
      rw [keysOf_concat_some hc]
      dsimp only
      have hcard := Finset.card_le_card (Finset.subset_insert s.key (keysOf g es))
      by_cases hmax : max ≤ (intake g max es).series.length
      · rw [if_pos hmax]
        dsimp only
        refine ⟨by omega, fun hle k => ?_⟩
        have hsame : insert s.key (keysOf g es) = keysOf g es :=
          (Finset.eq_of_subset_of_card_le (Finset.subset_insert _ _) (by omega)).symm
        rw [hsame, hseen (by omega)]
      · rw [if_neg hmax]
        have hkeys := hseen (by omega)
        by_cases hk : s.key ∈ (intake g max es).seen
        · rw [if_pos hk, Finset.insert_eq_of_mem ((hkeys _).1 hk)]
          exact ⟨hlen, hseen⟩
        · rw [if_neg hk, Finset.card_insert_of_notMem fun hm => hk ((hkeys _).2 hm)]
          refine ⟨by simp; omega, fun _ k => ?_⟩
          simp [hkeys]

theorem verdict_eq (hc : Metrics.convert g e = some s) : (intake g max es).verdict g max e =
    if max ≤ (keysOf g es).card then .error .limit else if s.key ∈ keysOf g es then .error .duplicate else .ok s := by
  obtain ⟨hlen, hseen⟩ := intake_keys g max es
  rw [Intake.verdict, hc]
  dsimp only
  by_cases hmax : max ≤ (keysOf g es).card
  · rw [if_pos (by omega), if_pos hmax]
  · rw [if_neg (by omega), if_neg hmax]
    simp only [hseen (by omega)]

/-- Up to `max` different keys, entries of the same key have the same name and labels; after that no entry has the
name and labels of one from before. -/
def ToldApart (g : Golib F) (max : Nat) (es : List (Entry F)) : Prop :=
  ∀ pre e mid e' post s s', es = pre ++ e :: mid ++ e' :: post → Metrics.convert g e = some s →
    Metrics.convert g e' = some s' → (keysOf g pre).card < max →
    if (keysOf g (pre ++ e :: mid)).card < max then s.key = s'.key → s.Alike s' else ¬ s.Alike s'

theorem Kept.append (h : Kept g max es e s) (es' : List (Entry F)) : Kept g max (es ++ es') e s := by
  obtain ⟨pre, post, rfl, hv⟩ := h
  exact ⟨pre, post ++ es', by simp, hv⟩

theorem Kept.key_inj {s' : Series F} (h : Kept g max es e s) (h' : Kept g max es e' s') (hkey : s.key = s'.key) :
    s = s' := by
  have hs := intake_sound g max es
  have hnodup : ((intake g max es).series.map Series.key).Nodup := pairwise_map.2 hs.apart
  exact inj_on_of_nodup_map hnodup ((hs.kept s).2 ⟨e, h⟩) ((hs.kept s').2 ⟨e', h'⟩) hkey

theorem exists_kept (hlt : (keysOf g es).card < max) {k : Text} (hk : k ∈ keysOf g es) :
    ∃ e s, Kept g max es e s ∧ s.key = k := by
  have hs := intake_sound g max es
  obtain ⟨s, hmem, hkey⟩ := (hs.seen k).1 (((intake_keys g max es).2 (by omega) k).2 hk)
  obtain ⟨e, he⟩ := (hs.kept s).1 hmem
  exact ⟨e, s, he, hkey⟩

theorem Kept.card_lt (h : Kept g max es e s) :
    ∃ pre post, es = pre ++ e :: post ∧ Metrics.convert g e = some s ∧ (keysOf g pre).card < max := by
  obtain ⟨pre, post, rfl, hv⟩ := h
  obtain ⟨hc, hlt, -⟩ := Intake.verdict_ok hv
  have hlen := (intake_keys g max pre).1
  exact ⟨pre, post, rfl, hc, by omega⟩

def ExactDuplicates (g : Golib F) (max : Nat) (es : List (Entry F)) : Prop :=
  ∀ pre e post, es = pre ++ e :: post → ((intake g max pre).verdict g max e = .error .duplicate ↔
    ∃ s e' s', Metrics.convert g e = some s ∧ Kept g max pre e' s' ∧ s'.Alike s)

theorem ToldApart.exactDuplicates (h : ToldApart g max es) : ExactDuplicates g max es := by
  rintro pre e post rfl
  cases hc : Metrics.convert g e with
  | none => simp [Intake.verdict, hc]
  | some s =>
    rw [verdict_eq hc]
    constructor
    · intro hdup
      split at hdup
      · cases hdup
      split at hdup
      · rename_i hmax hkey
        obtain ⟨e', s', hkept, hk⟩ := exists_kept (Nat.lt_of_not_le hmax) hkey
        obtain ⟨pre', mid, rfl, hc', hlt⟩ := hkept.card_lt
        have hsame := h pre' e' mid e post s' s rfl hc' hc hlt
        rw [if_pos (by omega)] at hsame
        exact ⟨s, e', s', rfl, hkept, hsame hk⟩
      · cases hdup
    · rintro ⟨_, e', s', hs, hkept, halike⟩
      cases hs
      obtain ⟨pre', mid, rfl, hc', hlt⟩ := hkept.card_lt
      have hsame := h pre' e' mid e post s' s rfl hc' hc hlt
      by_cases hmax : (keysOf g (pre' ++ e' :: mid)).card < max
      · rw [if_neg (by omega), if_pos (mem_keysOf.2 ⟨e', by simp, s', hc', halike.key⟩)]
      · rw [if_neg hmax] at hsame
        exact absurd halike hsame

theorem ExactDuplicates.toldApart (h : ExactDuplicates g max es) : ToldApart g max es := by
  rintro pre e mid e' post s s' rfl hc hc' hlt
  -- whatever became of the first of the two, one of its name and labels was kept
  obtain ⟨x, t, hkept, halike⟩ : ∃ x t, Kept g max (pre ++ e :: mid) x t ∧ t.Alike s := by
    by_cases hk : s.key ∈ keysOf g pre
    · have hdup : (intake g max pre).verdict g max e = .error .duplicate := by
        rw [verdict_eq hc, if_neg (by omega), if_pos hk]
      obtain ⟨_, x, t, hs, hkept, halike⟩ := (h pre e (mid ++ e' :: post) (by simp)).1 hdup
      cases hs.symm.trans hc
      exact ⟨x, t, hkept.append _, halike⟩
    · refine ⟨e, s, ⟨pre, mid, rfl, ?_⟩, rfl, fun _ => rfl⟩
      rw [verdict_eq hc, if_neg (by omega), if_neg hk]
  have hiff := h (pre ++ e :: mid) e' post rfl
  rw [verdict_eq hc'] at hiff
  split
  · rename_i hmax
    intro hkey
    rw [if_neg (by omega), if_pos (mem_keysOf.2 ⟨e, by simp, s, hc, hkey⟩)] at hiff
    obtain ⟨_, y, t', hs', hkept', halike'⟩ := hiff.1 rfl
    cases hs'.symm.trans hc'
    obtain rfl := hkept.key_inj hkept' (halike.key.trans (hkey.trans halike'.key.symm))
    exact halike.symm.trans halike'
  · rename_i hmax
    rw [if_pos (by omega)] at hiff
    exact fun hsame => absurd (hiff.2 ⟨s', x, t, hc', hkept, halike.trans hsame⟩) (by simp)

theorem report_accounting (g : Golib F) (parse : Bytes → Option (Report F)) (max : Nat) :
    (∀ es, ExactDuplicates g max es ↔ ToldApart g max es) ∧
    (∀ e e' s s', NulFree g e → NulFree g e' → Metrics.convert g e = some s → Metrics.convert g e' = some s' →
      s.key = s'.key → s.Alike s') ∧
    (∀ es, (intake g max es).series.length ≤ max ∧
      es.length = (intake g max es).series.length + (dropReasons.map (intake g max es).dropped).sum) ∧
    ∀ (moves : List Action) (id : Text), (moves.foldl (Collector.act g parse max) ∅).uploads id =
        (moves.foldl (accepted parse id) []).length ∧
      ∀ d, (moves.foldl (Collector.act g parse max) ∅).droppedTotal id d =
        ((moves.foldl (accepted parse id) []).map fun r => (intake g max r.metrics).dropped d).sum :=
  ⟨fun _ => ⟨ExactDuplicates.toldApart, ToldApart.exactDuplicates⟩,
    fun _ _ _ _ h h' hs hs' hkey => (h.separable hs).alike (h'.separable hs') hkey,
    fun es => ⟨(intake_sound g max es).bound, (intake_sound g max es).total⟩, counters_run g parse max⟩

end accounting

namespace Sample

def texts (fields : List (String × String)) : Entry Nat where
  name := "io.systemd.Unit.Load".toList
  fields := fields.foldl (fun m x => m.insert x.1.toList (.string x.2.toList)) ∅
  value := .number 7

def reason : Except Drop (Series Nat) → Option Drop
  | .ok _ => none
  | .error d => some d

theorem of_reason {r : Except Drop (Series Nat)} {d : Drop} (h : reason r = some d) : r = .error d := by
  cases r with
  | ok s => cases h
  | error d' => exact congrArg Except.error (some.inj h)

end Sample
open Sample

theorem duplicate_of_other_labels : ∃ e e' s s', convert golib e = some s ∧
    convert golib e' = some s' ∧ (intake golib 9 [e]).series = [s] ∧ ¬ s.Alike s' ∧
    (intake golib 9 [e]).verdict golib 9 e' = .error .duplicate ∧
    (intake golib 1 [e]).verdict golib 1 e = .error .limit := by
  let e := texts [("a", "x\x00b=y")]
  let e' := texts [("a", "x"), ("b", "y")]
  have hx : ((convert golib e).map fun s => s.labels.get "b".toList) = some none := by
    decide +kernel
  have hx' : ((convert golib e').map fun s => s.labels.get "b".toList) = some (some ['y']) := by
    decide +kernel
  obtain ⟨s, hs, hl⟩ := map_eq_some_iff.1 hx
  obtain ⟨s', hs', hl'⟩ := map_eq_some_iff.1 hx'
  refine ⟨e, e', s, s', hs, hs', ?_, fun ha => ?_, of_reason (by decide +kernel),
    of_reason (by decide +kernel)⟩
  · have hv : ({} : Intake Nat).verdict golib 9 e = .ok s := by
      rw [Intake.verdict, hs]
      rfl
    change (Intake.add golib 9 {} e).series = [s]
    rw [Intake.add, hv]
    rfl
  · have hsame := ha.2 "b".toList
    rw [hl, hl'] at hsame
    cases hsame

end VmManager.Metrics
