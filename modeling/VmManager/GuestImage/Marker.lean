import Mathlib.Data.List.Dedup
import Mathlib.Data.String.Basic
import VmManager.GuestImage.Pull

/-! The marker of an image directory is truthful. `clear` removes entries in the order of their names,
so it removes the marker before any file only if every file's name comes after the marker's. -/
namespace VmManager.GuestImage
open Interleaving List Option GoMap

namespace Dir
variable {d d' : Dir} {p q : Path} {c : Content} {e : String}

theorem get_write (h : write d p c = some d') : d'.get q = if q = p then some c else d.get q := by
  unfold write at h
  split at h <;> cases h
  exact get_insert ..

theorem get_removeSome (gone : List Path) : (removeSome d e gone).get p =
    if p ∈ gone ∧ p.head? = some e then none else d.get p := by
  rw [removeSome, get_foldl_erase]
  simp only [mem_filter, decide_eq_true_eq]

theorem get_removeAll : (removeAll d e).get p = if p.head? = some e then none else d.get p := by
  rw [removeAll, get_removeSome]
  by_cases hp : d.get p = none
  · simp [hp]
  · simp [mem_keys_iff.2 hp]

theorem named_removeSome {gone : List Path} (h : d.get [] = none) :
    (removeSome d e gone).get [] = none := by
  rw [get_removeSome, if_neg (fun hh => by cases hh.2)]
  exact h

theorem mem_list : e ∈ list d ↔ ∃ p, d.get p ≠ none ∧ p.head? = some e := by
  simp only [list, mem_insertionSort, mem_dedup, mem_filterMap, mem_keys_iff]

theorem head_list (he : e ∈ list d) (hle : ∀ e' ∈ list d, e ≤ e') : (list d).head? = some e := by
  have hsorted : (list d).Pairwise (· ≤ ·) := pairwise_insertionSort _ _
  cases hl : list d with
  | nil => rw [hl] at he; cases he
  | cons x xs =>
    rw [hl] at he hle hsorted
    have hx : e ≤ x := hle x mem_cons_self
    rcases mem_cons.1 he with rfl | hxs
    · rfl
    · have hx' : x ≤ e := (pairwise_cons.1 hsorted).1 e hxs
      rw [head?_cons, le_antisymm hx hx']

end Dir

variable {unmarshal : Bytes → Option Marker} {registry : String → Option Manifest}

structure Copying (registry : String → Option Manifest) (d : Dir) (a : Artifact) (left : List Layer)
    (m : Manifest) : Prop where
  known : registry a.digest = some m
  ordinary : m.Ordinary
  left_subset : left ⊆ m.layers
  unmarked : d.get [markerFile] = none
  after : ∀ p, d.get p ≠ none → ∀ e ∈ p.head?, markerFile < e
  done : ∀ l ∈ m.layers, l ∉ left → d.get (pathOf l.title) = some (.layer l.content)

structure Clearing (d : Dir) (es : List String) : Prop where
  entries : ∀ p, d.get p ≠ none → ∃ e ∈ es, p.head? = some e
  marker_first : d.get [markerFile] ≠ none → es.head? = some markerFile

def Known (registry : String → Option Manifest) (a : Artifact) : Prop := ∃ m, registry a.digest = some m ∧ m.Ordinary

def PhaseInv (registry : String → Option Manifest) (d : Dir) : Phase → Prop
  | .idle => True
  | .checking a => Known registry a
  | .listing a => Known registry a
  | .clearing a es => Known registry a ∧ Clearing d es
  | .copying a left => ∃ m, Copying registry d a left m
  | .marking a => ∃ m, Copying registry d a [] m

structure Inv (unmarshal : Bytes → Option Marker) (registry : String → Option Manifest) (s : System) :
    Prop where
  named : s.dir.get [] = none
  marked : ∀ mk, readMarker unmarshal s.dir = some mk → ∃ m, registry mk.digest = some m ∧ m.Ordinary ∧ Complete s.dir m
  ordered : s.dir.get [markerFile] ≠ none → ∀ p, s.dir.get p ≠ none → ∀ e ∈ p.head?, markerFile ≤ e
  phase : PhaseInv registry s.dir s.phase

theorem readMarker_unmarked {d : Dir} (h : d.get [markerFile] = none) : readMarker unmarshal d = none := by
  rw [readMarker, h]

theorem Manifest.Ordinary.path_ne {m : Manifest} (h : m.Ordinary) {l : Layer} (hl : l ∈ m.layers) :
    pathOf l.title ≠ [markerFile] := by
  intro heq
  have hlt := h.after l hl markerFile (by rw [heq]; rfl)
  exact lt_irrefl _ hlt

namespace Copying
variable {d d' : Dir} {a : Artifact} {left : List Layer} {m : Manifest} {l : Layer}

theorem write {bytes : Bytes} {left' : List Layer} (h : Copying registry d a left m) (hl : l ∈ left)
    (hw : Dir.write d (pathOf l.title) (.layer bytes) = some d') (hsub : left' ⊆ left)
    (hother : ∀ l' ∈ left, l' ∉ left' → l' = l) (hdone : l ∉ left' → bytes = l.content) :
    Copying registry d' a left' m where
  known := h.known
  ordinary := h.ordinary
  left_subset := fun _ hx => h.left_subset (hsub hx)
  unmarked := by
    rw [Dir.get_write hw, if_neg (Ne.symm (h.ordinary.path_ne (h.left_subset hl)))]
    exact h.unmarked
  after := by
    intro p hp e he
    rw [Dir.get_write hw] at hp
    split at hp
    · subst p
      exact h.ordinary.after l (h.left_subset hl) e he
    · exact h.after p hp e he
  done := by
    intro l' hl' hnot
    rw [Dir.get_write hw]
    by_cases heq : l' = l
    · subst heq
      rw [if_pos rfl, hdone hnot]
    · have hne : pathOf l'.title ≠ pathOf l.title := fun hpath =>
        heq (inj_on_of_nodup_map h.ordinary.distinct hl' (h.left_subset hl) hpath)
      rw [if_neg hne]
      exact h.done l' hl' fun hin => heq (hother l' hin hnot)

theorem mark {c : Content} (h : Copying registry d a [] m)
    (hw : Dir.write d [markerFile] c = some d') : Complete d' m := by
  intro l hl
  rw [Dir.get_write hw, if_neg (h.ordinary.path_ne hl)]
  exact h.done l hl not_mem_nil

end Copying

namespace Clearing
variable {d : Dir} {e : String} {es : List String}

theorem list (hnamed : d.get [] = none)
    (hordered : d.get [markerFile] ≠ none → ∀ p, d.get p ≠ none → ∀ e ∈ p.head?, markerFile ≤ e) :
    Clearing d (Dir.list d) where
  entries := by
    intro p hp
    cases p with
    | nil => exact absurd hnamed hp
    | cons e p => exact ⟨e, Dir.mem_list.2 ⟨e :: p, hp, rfl⟩, rfl⟩
  marker_first := by
    intro hmarked
    refine Dir.head_list (Dir.mem_list.2 ⟨[markerFile], hmarked, rfl⟩) fun e he => ?_
    obtain ⟨p, hp, hhead⟩ := Dir.mem_list.1 he
    exact hordered hmarked p hp e hhead

theorem unmarked (h : Clearing d (e :: es)) : (Dir.removeAll d e).get [markerFile] = none := by
  rw [Dir.get_removeAll]
  split
  · rfl
  · rename_i hne
    by_contra hmarked
    have hfirst : some e = some markerFile := h.marker_first hmarked
    exact hne hfirst.symm

theorem remove (h : Clearing d (e :: es)) : Clearing (Dir.removeAll d e) es where
  entries := by
    intro p hp
    rw [Dir.get_removeAll] at hp
    split at hp
    · exact absurd rfl hp
    · rename_i hne
      obtain ⟨e', he', hhead⟩ := h.entries p hp
      rcases mem_cons.1 he' with rfl | he'
      · exact absurd hhead hne
      · exact ⟨e', he', hhead⟩
  marker_first := fun hmarked => absurd h.unmarked hmarked

theorem copying {m : Manifest} {a : Artifact} (h : Clearing d []) (hm : registry a.digest = some m)
    (hordinary : m.Ordinary) : Copying registry d a m.layers m := by
  have hempty : ∀ p, d.get p = none := by
    intro p
    by_contra hp
    obtain ⟨e, he, -⟩ := h.entries p hp
    cases he
  exact {
    known := hm
    ordinary := hordinary
    left_subset := fun _ hx => hx
    unmarked := hempty _
    after := fun p hp => absurd (hempty p) hp
    done := fun l hl hnot => absurd hl hnot }

end Clearing

namespace Inv
variable {s s' : System} {mv : Move} {out : Outcome} {d : Dir} {a : Artifact}

theorem of_unmarked {phase : Phase} (hnamed : d.get [] = none) (hmarked : d.get [markerFile] = none)
    (hphase : PhaseInv registry d phase) : Inv unmarshal registry ⟨d, phase⟩ where
  named := hnamed
  marked := by
    intro mk hmk
    cases (readMarker_unmarked hmarked).symm.trans hmk
  ordered := fun h => absurd hmarked h
  phase := hphase

theorem ended (h : Inv unmarshal registry s) : Inv unmarshal registry { s with phase := .idle } :=
  ⟨h.named, h.marked, h.ordered, trivial⟩

theorem removeSome {e : String} {es : List String} (h : Inv unmarshal registry s)
    (hc : Clearing s.dir (e :: es)) (gone : List Path) :
    Inv unmarshal registry ⟨Dir.removeSome s.dir e gone, .idle⟩ := by
  have hnamed : (Dir.removeSome s.dir e gone).get [] = none := Dir.named_removeSome h.named
  by_cases hmarked : (Dir.removeSome s.dir e gone).get [markerFile] = none
  · exact of_unmarked hnamed hmarked trivial
  have hkept : ∀ p, (Dir.removeSome s.dir e gone).get p ≠ none →
      (Dir.removeSome s.dir e gone).get p = s.dir.get p := by
    intro p hp
    rw [Dir.get_removeSome] at hp ⊢
    split at hp
    · exact absurd rfl hp
    · rw [if_neg ‹_›]
  have hold : s.dir.get [markerFile] ≠ none := hkept _ hmarked ▸ hmarked
  have he : e = markerFile := some.inj (hc.marker_first hold)
  refine ⟨hnamed, fun mk hmk => ?_, fun _ p hp => h.ordered hold p (hkept p hp ▸ hp), trivial⟩
  rw [readMarker, hkept _ hmarked] at hmk
  obtain ⟨m, hm, hordinary, hcomplete⟩ := h.marked mk hmk
  refine ⟨m, hm, hordinary, fun l hl => ?_⟩
  have hhead : (pathOf l.title).head? ≠ some e := fun hh =>
    lt_irrefl markerFile (hordinary.after l hl markerFile (he ▸ hh))
  rw [Dir.get_removeSome, if_neg (fun hh => hhead hh.2)]
  exact hcomplete l hl

theorem mark {c : Content} {m : Manifest} (h : Inv unmarshal registry s)
    (hc : Copying registry s.dir a [] m) (hw : Dir.write s.dir [markerFile] c = some d)
    (hmk : ∀ bytes, c ≠ .layer bytes) (hdigest : ∀ mk, c = .marker mk → mk.digest = a.digest) :
    Inv unmarshal registry ⟨d, .idle⟩ where
  named := by
    rw [Dir.get_write hw, if_neg (fun hh => by cases hh)]
    exact h.named
  marked := by
    intro mk hread
    have hget : d.get [markerFile] = some c := by rw [Dir.get_write hw, if_pos rfl]
    rw [readMarker, hget] at hread
    cases c with
    | layer bytes => exact absurd rfl (hmk bytes)
    | marker mk' =>
      cases hread
      exact ⟨m, (hdigest mk rfl).symm ▸ hc.known, hc.ordinary, hc.mark hw⟩
    | torn => cases hread
  ordered := by
    intro _ p hp e he
    rw [Dir.get_write hw] at hp
    split at hp
    · subst p
      cases he
      exact le_refl _
    · exact le_of_lt (hc.after p hp e he)
  phase := trivial

theorem write {l : Layer} {bytes : Bytes} {left left' : List Layer} (h : Inv unmarshal registry s)
    (hc : ∃ m, Copying registry s.dir a left m) (hl : l ∈ left)
    (hw : Dir.write s.dir (pathOf l.title) (.layer bytes) = some d) (hsub : left' ⊆ left)
    (hother : ∀ l' ∈ left, l' ∉ left' → l' = l) (hdone : l ∉ left' → bytes = l.content) :
    Inv unmarshal registry ⟨d, .copying a left'⟩ := by
  obtain ⟨m, hm⟩ := hc
  have hcopy := hm.write hl hw hsub hother hdone
  have hnamed : d.get [] = none := by
    rw [Dir.get_write hw]
    split
    · rename_i hroot
      have hblocked : Dir.Blocked s.dir [] := Or.inl rfl
      rw [Dir.write, ← hroot, if_pos hblocked] at hw
      cases hw
    · exact h.named
  exact of_unmarked hnamed hcopy.unmarked ⟨m, hcopy⟩

theorem moved {phase : Phase} (h : Inv unmarshal registry s) (hphase : PhaseInv registry s.dir phase) :
    Inv unmarshal registry { s with phase } :=
  ⟨h.named, h.marked, h.ordered, hphase⟩

theorem step (h : Inv unmarshal registry s) (hk : Steady registry s mv)
    (hs : step unmarshal registry s mv = some (s', out)) : Inv unmarshal registry s' := by
  have hphase := h.phase
  unfold GuestImage.step at hs
  split at hs
  · -- pull
    obtain ⟨m, hm, hs⟩ := map_eq_some_iff.1 hs
    split at hs <;> cases hs
    · exact h.moved trivial
    · exact h.moved ⟨m, hm, hk m hm⟩
  · -- check
    rename_i heq
    rw [heq] at hphase
    split at hs <;> cases hs
    · exact h.moved trivial
    · exact h.moved hphase
  · -- readDir
    rename_i heq
    rw [heq] at hphase
    cases hs
    exact h.moved ⟨hphase, .list h.named h.ordered⟩
  · -- remove
    rename_i heq
    rw [heq] at hphase
    cases hs
    exact of_unmarked (Dir.named_removeSome h.named) hphase.2.unmarked ⟨hphase.1, hphase.2.remove⟩
  · -- removeFails
    rename_i heq
    rw [heq] at hphase
    cases hs
    exact h.removeSome hphase.2 _
  · -- copy
    rename_i heq
    rw [heq] at hphase
    obtain ⟨m, hm, hs⟩ := map_eq_some_iff.1 hs
    cases hs
    obtain ⟨⟨m', hm', hordinary⟩, hclear⟩ := hphase
    have hsame := hk _ (by rw [heq]; rfl)
    rw [hsame] at hm
    cases hm.symm.trans hm'
    exact h.moved ⟨m, hclear.copying hm hordinary⟩
  · -- fetch
    rename_i heq
    rw [heq] at hphase
    simp only [bind_eq_bind, bind_eq_some_iff, Option.pure_def, some.injEq] at hs
    obtain ⟨l, hl, d, hw, hs⟩ := hs
    cases hs
    exact h.write hphase (mem_of_getElem? hl) hw (fun _ hx => hx) (fun l' hl' hnot => absurd hl' hnot)
      (fun hnot => absurd (mem_of_getElem? hl) hnot)
  · -- fetched
    rename_i heq
    rw [heq] at hphase
    simp only [bind_eq_bind, bind_eq_some_iff, Option.pure_def, some.injEq] at hs
    obtain ⟨l, hl, d, hw, hs⟩ := hs
    cases hs
    refine h.write hphase (mem_of_getElem? hl) hw (eraseIdx_subset ..) (fun l' hl' hnot => ?_)
      (fun _ => rfl)
    obtain ⟨j, hj⟩ := mem_iff_getElem?.1 hl'
    by_contra hne
    refine hnot (mem_eraseIdx_iff_getElem?.2 ⟨j, fun hji => hne ?_, hj⟩)
    rw [hji, hl] at hj
    exact (some.inj hj).symm
  · -- copied
    rename_i heq
    rw [heq] at hphase
    cases hs
    exact h.moved hphase
  · cases hs
    exact h.ended
  · -- writeMarker
    rename_i heq
    rw [heq] at hphase
    simp only [bind_eq_bind, bind_eq_some_iff, Option.pure_def, some.injEq] at hs
    obtain ⟨d, hw, hs⟩ := hs
    cases hs
    obtain ⟨m, hm⟩ := hphase
    exact h.mark hm hw (fun _ hc => by cases hc) (fun _ hc => by cases hc; rfl)
  · -- tearMarker
    rename_i heq
    rw [heq] at hphase
    simp only [bind_eq_bind, bind_eq_some_iff, Option.pure_def, some.injEq] at hs
    obtain ⟨d, hw, hs⟩ := hs
    cases hs
    obtain ⟨m, hm⟩ := hphase
    exact h.mark hm hw (fun _ hc => by cases hc) (fun _ hc => by cases hc)
  · cases hs
  · cases hs
    exact h.ended
  · cases hs
    exact h.ended
  · cases hs

end Inv

theorem Pulls.inv {s : System} (h : Pulls unmarshal registry (Steady registry) s) :
    Inv unmarshal registry s := by
  refine Reached.invariant (fun s hs => ?_) (fun s mv s' hinv hk hs => ?_) h
  · obtain ⟨dir, phase⟩ := s
    cases hs.1
    exact .of_unmarked hs.2.1 hs.2.2 trivial
  · obtain ⟨x, hx, rfl⟩ := map_eq_some_iff.1 hs
    exact hinv.step hk hx

theorem Inv.truthful {s : System} (h : Inv unmarshal registry s) :
    Truthful unmarshal registry s.dir := by
  intro mk hmk
  obtain ⟨m, hm, -, hcomplete⟩ := h.marked mk hmk
  exact ⟨m, hm, hcomplete⟩

theorem readMarker_of_returned {s s' : System} {mv : Move} {r : Result}
    (hs : step unmarshal registry s mv = some (s', some (.ok r))) :
    (readMarker unmarshal s'.dir).map Marker.digest = some r.digest := by
  unfold step at hs
  split at hs
  case h_1 =>
    obtain ⟨m, -, hs⟩ := map_eq_some_iff.1 hs
    split at hs <;> cases hs
  case h_2 =>
    split at hs <;> cases hs
    rename_i hmatch
    exact hmatch.2
  case h_6 =>
    obtain ⟨m, -, hs⟩ := map_eq_some_iff.1 hs
    cases hs
  case h_11 =>
    simp only [bind_eq_bind, bind_eq_some_iff, Option.pure_def, some.injEq] at hs
    obtain ⟨d, hw, hs⟩ := hs
    cases hs
    rw [readMarker, Dir.get_write hw, if_pos rfl]
    rfl
  case h_7 | h_8 | h_12 =>
    simp [bind_eq_some_iff] at hs
  all_goals cases hs

/-- In any sequence of Pulls of ordinary artifacts, each under a reference that does not move while it is
pulled, with failures and deaths anywhere: a digest in the marker is that of a manifest whose files are all
there; and a Pull that returns without an error, skipped or not, leaves the whole image. -/
theorem pull_marker_truthful {s : System} (h : Pulls unmarshal registry (Steady registry) s) :
    Truthful unmarshal registry s.dir ∧
    ∀ mv s' r, Steady registry s mv → step unmarshal registry s mv = some (s', some (.ok r)) →
      ∃ m, registry r.digest = some m ∧ Complete s'.dir m := by
  refine ⟨h.inv.truthful, fun mv s' r hk hs => ?_⟩
  obtain ⟨mk, hmk, hdigest⟩ := map_eq_some_iff.1 (readMarker_of_returned hs)
  rw [← hdigest]
  exact (h.inv.step hk hs).truthful mk hmk

namespace Sample

def first : Manifest := ⟨guestImageType, [⟨"sha256:a", ".cmdline", [1]⟩, ⟨"sha256:b", "base.raw", [2]⟩]⟩
def second : Manifest := ⟨guestImageType, [⟨"sha256:c", "base.raw", [3]⟩]⟩

def manifests (digest : String) : Option Manifest :=
  if digest = "sha256:1" then some first else if digest = "sha256:2" then some second else none

def fetches (digest : String) (n : Nat) : List Move :=
  [.pull "r:1" digest, .check true, .readDir, .copy digest] ++ replicate n (.fetched 0) ++
    [.copied, .writeMarker 0]

/-- The second Pull dies after it has removed one entry, and the first one is asked for again. -/
def interrupted : List Move :=
  fetches "sha256:1" 2 ++ [.pull "r:2" "sha256:2", .check true, .readDir, .remove, .die,
    .pull "r:1" "sha256:1"]

def resumed : List Move :=
  fetches "sha256:2" 1 ++ [.pull "r:1" "sha256:2", .check false, .readDir, .removeFails [] "denied",
    .pull "r:1" "sha256:2"]

end Sample
open Sample

theorem pull_marker_truthful_skipped : ∃ s s', Pulls (fun _ => none) manifests
      (Steady manifests) s ∧
    step (fun _ => none) manifests s (.check true) =
      some (s', some (.ok ⟨"sha256:2", 1, false⟩)) ∧
    ∃ m, manifests "sha256:2" = some m ∧ Complete s'.dir m := by
  have hrun : ((execAll (advance (fun _ => none) manifests)
        (fun s mv => decide (Steady manifests s mv)) {} resumed).bind fun s =>
      step (fun _ => none) manifests s (.check true)).map (fun y => y.2) =
        some (some (.ok ⟨"sha256:2", 1, false⟩)) := by
    decide +kernel
  obtain ⟨⟨s', out⟩, hlast, hout⟩ := map_eq_some_iff.1 hrun
  obtain ⟨s, hx, hs⟩ := bind_eq_some_iff.1 hlast
  cases hout
  have hpulls : Pulls (fun _ => none) manifests (Steady manifests) s :=
    Reached.execAll (fun _ _ hok => of_decide_eq_true hok) (.start ⟨rfl, rfl, rfl⟩) hx
  exact ⟨s, s', hpulls, hs, (pull_marker_truthful hpulls).2 (.check true) _ _ trivial hs⟩

theorem pull_marker_stale : ∃ s s', Pulls (fun _ => none) manifests (fun _ _ => True) s ∧
    ¬ Truthful (fun _ => none) manifests s.dir ∧ step (fun _ => none) manifests s (.check true) =
      some (s', some (.ok ⟨"sha256:1", 2, false⟩)) ∧ ¬ Complete s'.dir first := by
  have hrun : ((execAll (advance (fun _ => none) manifests) (fun _ _ => true) {}
        interrupted).bind fun s =>
      (step (fun _ => none) manifests s (.check true)).map fun y => (s, y)).map
        (fun z => ((readMarker (fun _ => none) z.1.dir).map Marker.digest, z.1.dir.get [".cmdline"],
          z.2.1.dir.get [".cmdline"], z.2.2)) =
        some (some "sha256:1", none, none, some (.ok ⟨"sha256:1", 2, false⟩)) := by
    decide +kernel
  obtain ⟨⟨s, s', out⟩, hlast, heq⟩ := map_eq_some_iff.1 hrun
  obtain ⟨z, hx, hs⟩ := bind_eq_some_iff.1 hlast
  obtain ⟨y, hs, hpair⟩ := map_eq_some_iff.1 hs
  cases hpair
  simp only [Prod.mk.injEq] at heq
  obtain ⟨hmarker, hbefore, hafter, rfl⟩ := heq
  have hpulls : Pulls (fun _ => none) manifests (fun _ _ => True) s :=
    Reached.execAll (fun _ _ _ => trivial) (.start ⟨rfl, rfl, rfl⟩) hx
  have hmissing : ∀ d : Dir, d.get [".cmdline"] = none → ¬ Complete d first := by
    intro d hd hcomplete
    have hfile := hcomplete ⟨"sha256:a", ".cmdline", [1]⟩ mem_cons_self
    have hpath : pathOf ".cmdline" = [".cmdline"] := by decide +kernel
    rw [hpath, hd] at hfile
    cases hfile
  refine ⟨s, s', hpulls, fun htrue => ?_, hs, hmissing _ hafter⟩
  obtain ⟨mk, hmk, hdigest⟩ := map_eq_some_iff.1 hmarker
  obtain ⟨m, hm, hcomplete⟩ := htrue mk hmk
  rw [hdigest] at hm
  cases hm
  exact hmissing _ hbefore hcomplete

end VmManager.GuestImage
