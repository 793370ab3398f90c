import VmManager.Metrics.Guest

/-! What one Collect call emits: the collector's own metrics of every VM, and the series of the last reports,
grouped by name with the union of their labels. -/
namespace VmManager.Metrics
open Encoding List GoMap Option
variable {n : Text} {now max : Nat}

/-- A metric of a Collect call; a label that is not listed, or is empty, is absent. -/
structure Metric (F : Type) where
  name : Text
  labels : List (Text × Text)
  kind : Kind
  value : F

namespace Metric
variable {F : Type}

def label (m : Metric F) (l : Text) : Text := (m.labels.lookup l).getD []

def Same (m m' : Metric F) : Prop := m.name = m'.name ∧ ∀ l, m.label l = m'.label l

end Metric

def Drop.text : Drop → Text
  | .limit => "limit".toList
  | .unsupported => "unsupported".toList
  | .duplicate => "duplicate".toList

def ageName : Text := guestPrefix ++ "report_age_seconds".toList
def seriesName : Text := guestPrefix ++ "report_series".toList
def droppedName : Text := guestPrefix ++ "report_series_dropped_total".toList
def uploadsName : Text := guestPrefix ++ "reports_total".toList

def ownNames : List Text := [ageName, seriesName, uploadsName, droppedName]

structure Family (F : Type) where
  help : Text
  kind : Kind
  labels : GoMap Text Unit := ∅
  items : List (Text × Series F) := []

section collect
variable {F : Type} (g : Golib F)

def ownMetrics (now : Nat) (id : Text) (rep : GuestReport F) : List (Metric F) :=
  [⟨ageName, [(labelVM, id)], .gauge, g.seconds (now - rep.receivedAt)⟩,
    ⟨seriesName, [(labelVM, id)], .gauge, g.ofNat rep.series.length⟩,
    ⟨uploadsName, [(labelVM, id)], .counter, g.ofNat rep.uploads⟩] ++
  dropReasons.map fun d =>
    ⟨droppedName, [(labelVM, id), ("reason".toList, d.text)], .counter, g.ofNat (rep.droppedTotal d)⟩

def familyFor (families : GoMap Text (Family F)) (x : Text × Series F) : Family F :=
  (families.get x.2.name).getD
    { help := "Guest systemd-report family ".toList ++ x.2.family ++ ".".toList, kind := x.2.kind }

def Family.add (f : Family F) (x : Text × Series F) : Family F :=
  { f with
    labels := x.2.labels.keys.foldl (fun m k => m.insert k ()) f.labels
    items := f.items ++ [x] }

def addSeries (families : GoMap Text (Family F)) (x : Text × Series F) : GoMap Text (Family F) :=
  families.insert x.2.name ((familyFor families x).add x)

def Family.metric (name : Text) (f : Family F) (x : Text × Series F) : Metric F :=
  let keys := f.labels.keys.insertionSort (· ≤ ·)
  { name
    labels := (labelVM, x.1) :: keys.map fun k => (k, (x.2.labels.get k).getD [])
    kind := if f.kind = .counter then .counter else .gauge
    value := x.2.value }

def Family.metrics (name : Text) (f : Family F) : List (Metric F) :=
  (f.items.map (f.metric name)).filter fun m =>
    g.accepts m.name (m.labels.map Prod.fst) (m.labels.map Prod.snd)

namespace Collector
variable (c : Collector F)

def ids : List Text := c.keys.insertionSort (· ≤ ·)

def listed : List (Text × Series F) :=
  c.ids.flatMap fun id => (((c.get id).map GuestReport.series).getD []).map fun s => (id, s)

def families : GoMap Text (Family F) := c.listed.foldl addSeries ∅

def own (now : Nat) : List (Metric F) := c.ids.flatMap fun id => ((c.get id).map (ownMetrics g now id)).getD []

def derived : List (Metric F) :=
  (c.families.keys.insertionSort (· ≤ ·)).flatMap fun name =>
    ((c.families.get name).map (Family.metrics g name)).getD []

def collect (now : Nat) : List (Metric F) := c.own g now ++ c.derived g

end Collector

end collect

section families
variable {F : Type} {g : Golib F} {xs : List (Text × Series F)} {fs : GoMap Text (Family F)}

structure Family.Holds (xs : List (Text × Series F)) (n : Text) (f : Family F) : Prop where
  items : f.items = xs.filter fun x => x.2.name = n
  labels : ∀ l, l ∈ f.labels.keys ↔ ∃ x ∈ f.items, l ∈ x.2.labels.keys

structure Grouped (xs : List (Text × Series F)) (fs : GoMap Text (Family F)) : Prop where
  holds : ∀ n f, fs.get n = some f → f.Holds xs n
  absent : ∀ n, fs.get n = none → ∀ x ∈ xs, x.2.name ≠ n

theorem mem_foldl_keys (ks : List Text) (m : GoMap Text Unit) (l : Text) :
    l ∈ (ks.foldl (fun m k => m.insert k ()) m).keys ↔ l ∈ m.keys ∨ l ∈ ks := by
  rw [mem_keys_iff, get_foldl_insert fun _ => (), mem_keys_iff]
  split <;> simp [*]

theorem Grouped.familyFor (h : Grouped xs fs) (x : Text × Series F) :
    (familyFor fs x).Holds xs x.2.name := by
  unfold Metrics.familyFor
  cases hf : fs.get x.2.name with
  | some f => exact h.holds _ f hf
  | none =>
    refine ⟨(filter_eq_nil_iff.2 fun y hy => ?_).symm, fun l => ?_⟩
    · simpa using h.absent _ hf y hy
    · simp

theorem Family.Holds.add {f : Family F} {x : Text × Series F} (h : f.Holds xs x.2.name) :
    (f.add x).Holds (xs ++ [x]) x.2.name := by
  refine ⟨?_, fun l => ?_⟩
  · rw [Family.add, h.items, filter_append, filter_singleton]
    simp
  · rw [Family.add, mem_foldl_keys, h.labels]
    simp only [mem_append, mem_singleton, or_and_right, exists_or, exists_eq_left]

theorem Grouped.addSeries (h : Grouped xs fs) (x : Text × Series F) :
    Grouped (xs ++ [x]) (addSeries fs x) := by
  refine ⟨fun n f hf => ?_, fun n hf y hy => ?_⟩
  · rw [Metrics.addSeries, get_insert] at hf
    split at hf
    · rename_i hn
      cases hf
      rw [hn]
      exact (h.familyFor x).add
    · rename_i hn
      obtain ⟨hitems, hlabels⟩ := h.holds n f hf
      refine ⟨?_, hlabels⟩
      rw [hitems, filter_append, filter_singleton]
      simp [Ne.symm hn]
  · rw [Metrics.addSeries, get_insert] at hf
    split at hf
    · cases hf
    rename_i hn
    rcases mem_append.1 hy with hy | hy
    · exact h.absent n hf y hy
    · rw [mem_singleton.1 hy]
      exact Ne.symm hn

theorem grouped_families (c : Collector F) : Grouped c.listed c.families := by
  unfold Collector.families
  induction c.listed using reverseRecOn with
  | nil => exact ⟨fun _ _ hf => absurd hf get_empty_ne, fun _ _ _ hx => absurd hx not_mem_nil⟩
  | append_singleton xs x ih =>
    rw [foldl_append]
    exact ih.addSeries x

end families

section labels
variable {F : Type} {g : Golib F} {m m' : Metric F}

theorem Family.label_metric {n l : Text} (f : Family F) (x : Text × Series F) :
    (f.metric n x).label l = if l = labelVM then x.1
      else if l ∈ f.labels.keys then (x.2.labels.get l).getD [] else [] := by
  have hkeys : l ∈ f.labels.keys.insertionSort (· ≤ ·) ↔ l ∈ f.labels.keys :=
    (perm_insertionSort (· ≤ ·) f.labels.keys).mem_iff
  rw [Metric.label, Family.metric, lookup_cons]
  by_cases hl : l = labelVM
  · simp [hl]
  · have hlookup : ∀ ks : List Text, (ks.map fun k => (k, (x.2.labels.get k).getD [])).lookup l =
        if l ∈ ks then some ((x.2.labels.get l).getD []) else none := by
      intro ks
      induction ks with
      | nil => rfl
      | cons k ks ih =>
        rw [map_cons, lookup_cons, ih]
        by_cases hk : l = k
        · simp [hk]
        · have hb : (l == k) = false := by simpa using hk
          rw [hb]
          simp [hk]
    rw [if_neg hl, hlookup]
    simp only [hkeys]
    have hb : (l == labelVM) = false := by simpa using hl
    rw [hb]
    dsimp only
    split <;> rfl

/-- A series whose labels other than object are all there, and which is not named like one of the collector's
own families. -/
structure Series.Proper (s : Series F) : Prop where
  name : s.name ∉ ownNames
  vm : s.labels.get labelVM = none
  object : s.labels.get labelObject ≠ none
  filled : ∀ l v, s.labels.get l = some v → l ≠ labelObject → v ≠ []

theorem Series.Proper.alike {s s' : Series F} (h : s.Proper) (h' : s'.Proper) (hname : s.name = s'.name)
    (hl : ∀ l, (s.labels.get l).getD [] = (s'.labels.get l).getD []) : s.Alike s' := by
  refine ⟨hname, fun l => ?_⟩
  have heq := hl l
  by_cases ho : l = labelObject
  · subst ho
    obtain ⟨v, hv⟩ := ne_none_iff_exists'.1 h.object
    obtain ⟨v', hv'⟩ := ne_none_iff_exists'.1 h'.object
    rw [hv, hv'] at heq ⊢
    exact congrArg some heq
  · cases hv : s.labels.get l with
    | none =>
      cases hv' : s'.labels.get l with
      | none => rfl
      | some v' =>
        rw [hv, hv'] at heq
        exact absurd heq.symm (h'.filled l v' hv' ho)
    | some v =>
      cases hv' : s'.labels.get l with
      | none =>
        rw [hv, hv'] at heq
        exact absurd heq (h.filled l v hv ho)
      | some v' =>
        rw [hv, hv'] at heq
        exact congrArg some heq

theorem Family.Holds.apart {f : Family F} {xs : List (Text × Series F)} (h : f.Holds xs n)
    {x y : Text × Series F} (hx : x ∈ f.items) (hy : y ∈ f.items) (hpx : x.2.Proper) (hpy : y.2.Proper)
    (hne : x.1 = y.1 → x.2.key ≠ y.2.key) : ¬ (f.metric n x).Same (f.metric n y) := by
  rintro ⟨-, hsame⟩
  have hname : ∀ z ∈ f.items, z.2.name = n := fun z hz => by
    rw [h.items] at hz
    simpa using (mem_filter.1 hz).2
  have hvm := hsame labelVM
  refine hne hvm (hpx.alike hpy ((hname x hx).trans (hname y hy).symm) fun l => ?_).key
  by_cases hl : l = labelVM
  · rw [hl, hpx.vm, hpy.vm]
  have hlabel := hsame l
  rw [f.label_metric, f.label_metric, if_neg hl, if_neg hl] at hlabel
  by_cases hk : l ∈ f.labels.keys
  · rw [if_pos hk, if_pos hk] at hlabel
    exact hlabel
  · have hnone : ∀ z ∈ f.items, z.2.labels.get l = none := fun z hz => by
      by_contra hz'
      exact hk ((h.labels l).2 ⟨z, hz, mem_keys_iff.2 hz'⟩)
    rw [hnone x hx, hnone y hy]

end labels

section unique
variable {F : Type} {g : Golib F} {c : Collector F}

structure Collector.Sound (c : Collector F) : Prop where
  proper : ∀ id rep, c.get id = some rep → ∀ s ∈ rep.series, s.Proper
  apart : ∀ id rep, c.get id = some rep → rep.series.Pairwise fun s s' => s.key ≠ s'.key

theorem ids_nodup (c : Collector F) : c.ids.Nodup := ((perm_insertionSort (· ≤ ·) _).nodup_iff).2 c.keys_nodup

theorem mem_listed {x : Text × Series F} (h : x ∈ c.listed) :
    ∃ rep, c.get x.1 = some rep ∧ x.2 ∈ rep.series := by
  obtain ⟨id, -, hx⟩ := mem_flatMap.1 h
  obtain ⟨s, hs, rfl⟩ := List.mem_map.1 hx
  cases hrep : c.get id with
  | none =>
    rw [hrep] at hs
    cases hs
  | some rep =>
    rw [hrep] at hs
    exact ⟨rep, rfl, hs⟩

namespace Collector.Sound

theorem listed_proper (h : c.Sound) {x : Text × Series F} (hx : x ∈ c.listed) : x.2.Proper := by
  obtain ⟨rep, hrep, hs⟩ := mem_listed hx
  exact h.proper x.1 rep hrep x.2 hs

theorem listed_apart (h : c.Sound) : c.listed.Pairwise fun x y => x.1 = y.1 → x.2.key ≠ y.2.key := by
  refine pairwise_flatMap.2 ⟨fun id _ => pairwise_map.2 ?_, (ids_nodup c).imp fun {a b} hab => ?_⟩
  · cases hrep : c.get id with
    | none => exact .nil
    | some rep =>
      have hkeys : rep.series.Pairwise fun s s' => id = id → s.key ≠ s'.key :=
        (h.apart id rep hrep).imp fun hkey _ => hkey
      exact hkeys
  · intro x hx y hy hxy
    obtain ⟨s, -, rfl⟩ := List.mem_map.1 hx
    obtain ⟨s', -, rfl⟩ := List.mem_map.1 hy
    exact absurd hxy hab

theorem family_apart (h : c.Sound) {f : Family F} (hf : c.families.get n = some f) :
    (f.metrics g n).Pairwise fun m m' => ¬ m.Same m' := by
  have hh := (grouped_families c).holds n f hf
  have hmem : ∀ x ∈ f.items, x ∈ c.listed := fun x hx => by
    rw [hh.items] at hx
    exact (mem_filter.1 hx).1
  have hitems : f.items.Pairwise fun x y => x.1 = y.1 → x.2.key ≠ y.2.key := by
    rw [hh.items]
    exact h.listed_apart.sublist filter_sublist
  refine (pairwise_map.2 ?_).sublist filter_sublist
  exact hitems.imp_of_mem fun {x y} hx hy hne =>
    hh.apart hx hy (h.listed_proper (hmem x hx)) (h.listed_proper (hmem y hy)) hne

theorem family_name {f : Family F} {m : Metric F} (hm : m ∈ f.metrics g n) : m.name = n := by
  obtain ⟨x, -, rfl⟩ := List.mem_map.1 (mem_of_mem_filter hm)
  rfl

theorem mem_derived {m : Metric F} (hm : m ∈ c.derived g) :
    ∃ n f, c.families.get n = some f ∧ m ∈ f.metrics g n := by
  obtain ⟨n, -, hm⟩ := mem_flatMap.1 hm
  cases hf : c.families.get n with
  | none =>
    rw [hf] at hm
    cases hm
  | some f =>
    rw [hf] at hm
    exact ⟨n, f, hf, hm⟩

theorem derived_name (h : c.Sound) {m : Metric F} (hm : m ∈ c.derived g) : m.name ∉ ownNames := by
  obtain ⟨n, f, hf, hm⟩ := mem_derived hm
  have hh := (grouped_families c).holds n f hf
  obtain ⟨x, hx, rfl⟩ := List.mem_map.1 (mem_of_mem_filter hm)
  rw [hh.items] at hx
  obtain ⟨hx, hn⟩ := mem_filter.1 hx
  have hn : x.2.name = n := by simpa using hn
  rw [← hn]
  exact (h.listed_proper hx).name

theorem derived_apart (h : c.Sound) : (c.derived g).Pairwise fun m m' => ¬ m.Same m' := by
  have hnames : (c.families.keys.insertionSort (· ≤ ·)).Nodup :=
    ((perm_insertionSort (· ≤ ·) _).nodup_iff).2 c.families.keys_nodup
  refine pairwise_flatMap.2 ⟨fun n _ => ?_, hnames.imp fun {a b} hab => ?_⟩
  · cases hf : c.families.get n with
    | none => exact .nil
    | some f => exact h.family_apart hf
  · intro m hm m' hm' hsame
    have hname : ∀ n m, m ∈ ((c.families.get n).map (Family.metrics g n)).getD [] → m.name = n := by
      intro n m hm
      cases hf : c.families.get n with
      | none =>
        rw [hf] at hm
        cases hm
      | some f =>
        rw [hf] at hm
        exact family_name hm
    rw [← hname a m hm, ← hname b m' hm'] at hab
    exact hab hsame.1

end Collector.Sound

theorem Drop.text_inj {d d' : Drop} (h : d.text = d'.text) : d = d' := by
  cases d <;> cases d' <;> first | rfl | exact absurd h (by decide)

theorem mem_ownMetrics {id : Text} {rep : GuestReport F} {m : Metric F}
    (hm : m ∈ ownMetrics g now id rep) : m.name ∈ ownNames ∧ m.label labelVM = id := by
  rcases mem_append.1 hm with hm | hm
  · simp only [mem_cons, not_mem_nil, or_false] at hm
    rcases hm with rfl | rfl | rfl <;> exact ⟨by simp [ownNames], by simp [Metric.label]⟩
  · obtain ⟨d, -, rfl⟩ := List.mem_map.1 hm
    exact ⟨by simp [ownNames], by simp [Metric.label]⟩

theorem ownMetrics_apart (now : Nat) (id : Text) (rep : GuestReport F) :
    (ownMetrics g now id rep).Pairwise fun m m' => ¬ m.Same m' := by
  have hnames : ∀ (n n' : Text) (l l' : List (Text × Text)) (k k' : Kind) (v v' : F), n ≠ n' →
      ¬ (Metric.mk n l k v).Same ⟨n', l', k', v'⟩ := fun n n' _ _ _ _ _ _ hne h => hne h.1
  have hreason : ∀ d : Drop, (Metric.mk droppedName [(labelVM, id), ("reason".toList, d.text)] .counter
      (g.ofNat (rep.droppedTotal d))).label "reason".toList = d.text := fun d => by
    have hne : ("reason".toList == labelVM) = false := by decide
    rfl
  refine pairwise_append.2 ⟨?_, pairwise_map.2 ?_, fun m hm m' hm' => ?_⟩
  · refine .cons (fun m hm => ?_) (.cons (fun m hm => ?_) (pairwise_singleton _ _))
    · rcases mem_cons.1 hm with rfl | hm
      · exact hnames _ _ _ _ _ _ _ _ (by decide)
      · rw [mem_singleton.1 hm]
        exact hnames _ _ _ _ _ _ _ _ (by decide)
    · rw [mem_singleton.1 hm]
      exact hnames _ _ _ _ _ _ _ _ (by decide)
  · have hnodup : dropReasons.Nodup := by decide
    refine hnodup.imp fun {d d'} hd hsame => hd (Drop.text_inj ?_)
    exact hsame.2 "reason".toList
  · obtain ⟨d, -, rfl⟩ := List.mem_map.1 hm'
    simp only [mem_cons, not_mem_nil, or_false] at hm
    rcases hm with rfl | rfl | rfl <;> exact hnames _ _ _ _ _ _ _ _ (by decide)

theorem mem_own {m : Metric F} (hm : m ∈ c.own g now) : m.name ∈ ownNames := by
  obtain ⟨id, -, hm⟩ := mem_flatMap.1 hm
  cases hrep : c.get id with
  | none =>
    rw [hrep] at hm
    cases hm
  | some rep =>
    rw [hrep] at hm
    exact (mem_ownMetrics hm).1

theorem own_apart (c : Collector F) (now : Nat) : (c.own g now).Pairwise fun m m' => ¬ m.Same m' := by
  refine pairwise_flatMap.2 ⟨fun id _ => ?_, (ids_nodup c).imp fun {a b} hab => ?_⟩
  · cases hrep : c.get id with
    | none => exact .nil
    | some rep => exact ownMetrics_apart now id rep
  · intro m hm m' hm' hsame
    have hvm : ∀ id m, m ∈ ((c.get id).map (ownMetrics g now id)).getD [] → m.label labelVM = id := by
      intro id m hm
      cases hrep : c.get id with
      | none =>
        rw [hrep] at hm
        cases hm
      | some rep =>
        rw [hrep] at hm
        exact (mem_ownMetrics hm).2
    rw [← hvm a m hm, ← hvm b m' hm'] at hab
    exact hab (hsame.2 labelVM)

theorem Collector.Sound.collect_apart (h : c.Sound) (now : Nat) :
    (c.collect g now).Pairwise fun m m' => ¬ m.Same m' := by
  refine pairwise_append.2 ⟨own_apart c now, h.derived_apart, fun m hm m' hm' hsame => ?_⟩
  have hname := mem_own hm
  rw [hsame.1] at hname
  exact h.derived_name hm' hname

def ownGauges : List Text :=
  ["report_age_seconds".toList, "report_series".toList, "reports_total".toList, "report_series_dropped_total".toList]

def ownCounters : List Text :=
  ["reports_total".toList, "report_series_dropped_total".toList, "reports".toList, "report_series_dropped".toList]

/-- An entry that is not named like one of the collector's own families, and whose fields and string are not empty. -/
structure Entry.Proper (g : Golib F) (e : Entry F) : Prop where
  gauge : kindFor e = some .gauge → familyName g e.name ∉ ownGauges
  counter : kindFor e = some .counter → familyName g e.name ∉ ownCounters
  fields : ∀ key v, e.fields.get key = some v → labelString g v ≠ []
  value : kindFor e = some .info → labelString g e.value ≠ []

theorem ownNames_eq : ownNames = ownGauges.map (guestPrefix ++ ·) := rfl

theorem append_mem_ownNames {t : Text} (h : guestPrefix ++ t ∈ ownNames) : t ∈ ownGauges := by
  rw [ownNames_eq] at h
  obtain ⟨u, hu, heq⟩ := List.mem_map.1 h
  exact append_cancel_left heq ▸ hu

theorem Entry.Proper.name {e : Entry F} {k : Kind} (h : e.Proper g) (hk : kindFor e = some k) :
    metricName g k e.name ∉ ownNames := by
  have htotal : ∀ t : Text, "_total".toList <:+ guestPrefix ++ t → t ∈ ownGauges → t ∈ ownCounters := by
    have hall : ∀ t ∈ ownGauges, "_total".toList <:+ guestPrefix ++ t → t ∈ ownCounters := by decide
    exact fun t hs ht => hall t ht hs
  have hadd : ∀ t : Text, t ++ "_total".toList ∈ ownGauges → t ∈ ownCounters := by
    intro t ht
    have hall : ∀ u ∈ ownGauges, "_total".toList <:+ u → u.take (u.length - 6) ∈ ownCounters := by decide
    have := hall _ ht (suffix_append _ _)
    rwa [length_append, show "_total".toList.length = 6 from rfl, Nat.add_sub_cancel, take_left] at this
  intro hname
  unfold metricName at hname
  cases k with
  | gauge => exact h.gauge hk (append_mem_ownNames hname)
  | counter =>
    dsimp only at hname
    split at hname
    · exact h.counter hk (htotal _ (isSuffixOf_iff_suffix.1 ‹_›) (append_mem_ownNames hname))
    · rw [append_assoc] at hname
      exact h.counter hk (hadd _ (append_mem_ownNames hname))
  | info =>
    have hall : ∀ t ∈ ownNames, ¬ "_info".toList <:+ t := by decide
    exact hall _ hname (suffix_append _ _)

theorem boundLabel_ne_nil {v : Text} (h : v ≠ []) : boundLabel v ≠ [] := by
  unfold boundLabel
  split
  · exact h
  · simp

theorem Entry.Proper.series {e : Entry F} {s : Series F} (h : e.Proper g) (hs : convert g e = some s) :
    s.Proper := by
  obtain ⟨k, value, str, hkind, -, rfl⟩ := convert_cases hs
  have hk := kindFor_of_kindOf hkind
  refine ⟨h.name hk, ?_, ?_, fun l v hl hne => ?_⟩
  · by_contra hn
    obtain ⟨v, hv⟩ := ne_none_iff_exists'.1 hn
    rcases labelsOf_cases hv with ⟨hl, -⟩ | ⟨key, x, -, hl, -⟩ | ⟨-, hl, -⟩
    · exact absurd hl (by decide)
    · exact (labelName_free key).1 hl.symm
    · exact absurd hl (by decide)
  · rw [labelsOf_object]
    simp
  · rcases labelsOf_cases hl with ⟨hl, -⟩ | ⟨key, x, hx, -, rfl⟩ | ⟨rfl, -, rfl⟩
    · exact absurd hl hne
    · exact boundLabel_ne_nil (h.fields key x hx)
    · rw [kindOf_info hkind]
      exact boundLabel_ne_nil (h.value hk)

def ProperUpload (g : Golib F) (parse : Bytes → Option (Report F)) : Action → Prop
  | .store _ raw _ => ∀ r, parse raw = some r → ∀ e ∈ r.metrics, e.Proper g
  | .forget _ => True

theorem Collector.Sound.act {parse : Bytes → Option (Report F)} {a : Action} (h : c.Sound)
    (ha : ProperUpload g parse a) : (c.act g parse max a).Sound := by
  cases a with
  | forget id =>
    have hold : ∀ id' rep, (c.forget id).get id' = some rep → c.get id' = some rep := by
      intro id' rep hrep
      rw [Collector.forget, get_erase] at hrep
      split at hrep
      · cases hrep
      · exact hrep
    exact ⟨fun id' rep hrep => h.proper id' rep (hold id' rep hrep),
      fun id' rep hrep => h.apart id' rep (hold id' rep hrep)⟩
  | store id raw now =>
    unfold Collector.act
    dsimp only
    cases hp : parse raw with
    | none => exact h
    | some r =>
      have hs := intake_sound g max r.metrics
      have hcases : ∀ id' rep, (c.store g max now id r).get id' = some rep →
          rep.series = (intake g max r.metrics).series ∨ c.get id' = some rep := by
        intro id' rep hrep
        rw [Collector.store, get_insert] at hrep
        split at hrep
        · cases hrep
          exact .inl rfl
        · exact .inr hrep
      refine ⟨fun id' rep hrep s hmem => ?_, fun id' rep hrep => ?_⟩
      · rcases hcases id' rep hrep with heq | hold
        · rw [heq] at hmem
          obtain ⟨e, he⟩ := (hs.kept s).1 hmem
          obtain ⟨hin, hc⟩ := he.convert
          exact (ha r hp e hin).series hc
        · exact h.proper id' rep hold s hmem
      · rcases hcases id' rep hrep with heq | hold
        · rw [heq]
          exact hs.apart
        · exact h.apart id' rep hold

theorem Collector.Sound.run {parse : Bytes → Option (Report F)} {moves : List Action}
    (ha : ∀ a ∈ moves, ProperUpload g parse a) : (moves.foldl (Collector.act g parse max) ∅).Sound := by
  have hall : ∀ c : Collector F, c.Sound → (moves.foldl (Collector.act g parse max) c).Sound := by
    induction moves with
    | nil => exact fun c hc => hc
    | cons a moves ih =>
      intro c hc
      exact ih (forall_mem_cons.1 ha).2 _ (hc.act (ha a mem_cons_self))
  exact hall ∅ ⟨fun _ _ hrep => absurd hrep get_empty_ne, fun _ _ hrep => absurd hrep get_empty_ne⟩

theorem guest_metrics_unique (g : Golib F) (parse : Bytes → Option (Report F)) (max now : Nat)
    (moves : List Action) (ha : ∀ a ∈ moves, ProperUpload g parse a) :
    ((moves.foldl (Collector.act g parse max) ∅).collect g now).Pairwise (fun m m' => ¬ m.Same m') ∧
    ∀ m ∈ (moves.foldl (Collector.act g parse max) ∅).derived g, m.name ∉ ownNames := by
  have hs : (moves.foldl (Collector.act g parse max) ∅).Sound := .run ha
  exact ⟨hs.collect_apart now, fun m hm => hs.derived_name hm⟩

end unique

namespace Sample
variable {m m' : Metric Nat}

def parse (rs : List (Report Nat)) (raw : Bytes) : Option (Report Nat) := rs[raw.length]?

def uploaded (es : List (Entry Nat)) : Collector Nat :=
  [Action.store "01".toList [] 0].foldl (Collector.act golib (parse [{ metrics := es }]) 9) ∅

def proper (e : Entry Nat) : Bool :=
  (kindFor e ≠ some .gauge || !ownGauges.contains (familyName golib e.name)) &&
    (kindFor e ≠ some .counter || !ownCounters.contains (familyName golib e.name)) &&
    e.fields.entries.all (fun x => !(labelString golib x.2).isEmpty) &&
    (kindFor e ≠ some .info || !(labelString golib e.value).isEmpty)

theorem of_proper {e : Entry Nat} (h : proper e = true) : e.Proper golib := by
  simp only [proper, Bool.and_eq_true, Bool.or_eq_true, List.all_eq_true, decide_eq_true_eq] at h
  obtain ⟨⟨⟨hgauge, hcounter⟩, hfields⟩, hvalue⟩ := h
  refine ⟨fun hk => ?_, fun hk => ?_, fun key v hv => ?_, fun hk => ?_⟩
  · simpa using hgauge.resolve_left (not_not.2 hk)
  · simpa using hcounter.resolve_left (not_not.2 hk)
  · simpa using hfields ⟨key, v⟩ (get_eq_some_iff.1 hv)
  · simpa using hvalue.resolve_left (not_not.2 hk)

def reports : List (Report Nat) :=
  [{ metrics := [texts [("a", "x")], texts [("a", "y"), ("b", "x")], entry "vm" "a.b" 1 2,
      { name := "report.entries".toList, object := "x".toList, value := .string "on".toList }] },
    { metrics := [texts [("a", "x")], texts [], entry "vm" "a.b" 1 2] }]

def uploads : List Action := [.store "01".toList [] 0, .store "02".toList [0] 1, .store "01".toList [0] 2,
  .forget "01".toList, .store "01".toList [] 3]

def same (m m' : Metric Nat) : Bool :=
  m.name == m'.name && (m.labels ++ m'.labels).all fun x => m.label x.1 == m'.label x.1

def twins : List (Metric Nat) → Bool
  | [m, m'] => same m m'
  | _ => false

theorem of_same (h : same m m' = true) : m.Same m' := by
  simp only [same, Bool.and_eq_true, beq_iff_eq, List.all_eq_true, mem_append] at h
  refine ⟨h.1, fun l => ?_⟩
  by_cases hl : ∃ x, (x ∈ m.labels ∨ x ∈ m'.labels) ∧ x.1 = l
  · obtain ⟨x, hx, rfl⟩ := hl
    exact h.2 x hx
  · have hnone : ∀ ls : List (Text × Text), (∀ x ∈ ls, x.1 ≠ l) → ls.lookup l = none := fun ls hls =>
      lookup_eq_none_iff.2 fun x hx => by simpa using Ne.symm (hls x hx)
    rw [Metric.label, Metric.label, hnone m.labels fun x hx hxl => hl ⟨x, .inl hx, hxl⟩,
      hnone m'.labels fun x hx hxl => hl ⟨x, .inr hx, hxl⟩]

end Sample
open Sample

theorem guest_metrics_unique_two :
    (∀ a ∈ uploads, ProperUpload golib (parse reports) a) ∧
    let c := uploads.foldl (Collector.act golib (parse reports) 9) ∅
    (c.derived golib).length = 7 ∧ (c.collect golib 5).Pairwise fun m m' => ¬ m.Same m' := by
  have hproper : ∀ r ∈ reports, ∀ e ∈ r.metrics, e.Proper golib := fun r hr e he => by
    have hall : ∀ r ∈ reports, ∀ e ∈ r.metrics, proper e = true := by decide +kernel
    exact of_proper (hall r hr e he)
  have hupload : ∀ a ∈ uploads, ProperUpload golib (parse reports) a := by
    intro a _
    cases a with
    | store id raw now => exact fun r hr => hproper r (mem_of_getElem? hr)
    | forget id => trivial
  exact ⟨hupload, by decide +kernel, (guest_metrics_unique golib _ 9 5 _ hupload).1⟩

theorem guest_metrics_clash :
    (∃ es, ∃ m ∈ (uploaded es).own golib 5, ∃ m' ∈ (uploaded es).derived golib,
      m'.name ∈ ownNames ∧ m.Same m') ∧
    ∃ es m m', (uploaded es).derived golib = [m, m'] ∧ m.Same m' := by
  constructor
  · have hx : (((uploaded [{ name := "report.series".toList, value := .number 5 }]).own
        golib 5).any fun m => ((uploaded
          [{ name := "report.series".toList, value := .number 5 }]).derived golib).any fun m' =>
            ownNames.contains m'.name && same m m') = true := by decide +kernel
    obtain ⟨m, hm, hx⟩ := List.any_eq_true.1 hx
    obtain ⟨m', hm', hx⟩ := List.any_eq_true.1 hx
    obtain ⟨hname, hsame⟩ := (Bool.and_eq_true _ _).mp hx
    exact ⟨_, m, hm, m', hm', contains_iff_mem.1 hname, of_same hsame⟩
  · have hx : twins ((uploaded [texts [("a", "")], texts []]).derived golib) =
        true := by decide +kernel
    generalize hd : (uploaded [texts [("a", "")], texts []]).derived golib = ms at hx
    obtain _ | ⟨m, _ | ⟨m', _ | ⟨_, _⟩⟩⟩ := ms
    case cons.cons.nil => exact ⟨_, m, m', hd, of_same hx⟩
    all_goals cases hx

end VmManager.Metrics
