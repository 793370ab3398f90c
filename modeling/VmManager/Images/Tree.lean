import VmManager.Images.Catalog

/-! Directory trees: the files below a directory, and what reading a path without a link on it leads to. -/
namespace VmManager.Images
open Encoding List

namespace Node
variable {data : Text}

def lstat : List Text → Node → Option Node
  | [], n => some n
  | name :: rest, n => match n.follow with
    | some (.dir entries) => match entries.lookup name with
      | some m => m.lstat rest
      | none => none
    | _ => none

def isLink : Node → Bool
  | .link _ => true
  | _ => false

def isFile : Node → Bool
  | .file _ => true
  | _ => false

mutual

/-- The regular files below, as `filepath.WalkDir` finds them: a link is not entered. -/
def files : Node → List (List Text)
  | .file _ => [[]]
  | .dir entries => filesIn entries
  | _ => []

def filesIn : List (Text × Node) → List (List Text)
  | [] => []
  | (name, n) :: entries => n.files.map (name :: ·) ++ filesIn entries

end

inductive Ordered : Node → Prop
  | file (data : Text) : Ordered (.file data)
  | dir {entries : List (Text × Node)} (names : entries.Pairwise fun x y => x.1 < y.1)
      (below : ∀ e ∈ entries, e.2.Ordered) : Ordered (.dir entries)
  | link {n : Node} (target : n.Ordered) : Ordered (.link (some n))
  | dangling : Ordered (.link none)
  | other : Ordered .other

inductive Plain : Node → Prop
  | file (data : Text) : Plain (.file data)
  | dir {entries : List (Text × Node)} (inhabited : entries ≠ []) (below : ∀ e ∈ entries, e.2.Plain) :
      Plain (.dir entries)

section tree
variable {n m : Node} {entries : List (Text × Node)} {name : Text} {path : List Text}

theorem stat_eq_lstat (path : List Text) (n : Node) : n.stat path = (n.lstat path).bind follow := by
  induction path generalizing n with
  | nil => rfl
  | cons name rest ih =>
    simp only [stat, lstat]
    cases n.follow with
    | none => rfl
    | some k =>
      cases k with
      | dir entries =>
        cases hm : entries.lookup name with
        | none => simp [hm]
        | some m => simp [hm, ih m]
      | _ => rfl

theorem follow_of_not_link (h : n.isLink = false) : n.follow = some n := by
  cases n with
  | link t => cases h
  | _ => rfl

theorem Ordered.follow (h : n.Ordered) (hm : n.follow = some m) : m.Ordered := by
  induction h with
  | file data => cases hm; exact .file data
  | dir names below _ => cases hm; exact .dir names below
  | link _ ih => exact ih hm
  | dangling => cases hm
  | other => cases hm; exact .other

theorem mem_of_lookup (h : entries.lookup name = some m) : (name, m) ∈ entries := by
  obtain ⟨before, after, rfl, -⟩ := lookup_eq_some_iff.1 h
  simp

theorem Ordered.lstat (h : n.Ordered) (hm : n.lstat path = some m) : m.Ordered := by
  induction path generalizing n with
  | nil =>
    cases hm
    exact h
  | cons name rest ih =>
    simp only [Node.lstat] at hm
    split at hm
    · rename_i entries hn
      split at hm
      · rename_i k hk
        cases h.follow hn with
        | dir names below => exact ih (below _ (mem_of_lookup hk)) hm
      · cases hm
    · cases hm

theorem lstat_cons (h : n.lstat [name] = some m) : n.lstat (name :: path) = m.lstat path := by
  simp only [Node.lstat] at h ⊢
  split at h
  · split at h
    · cases h
      rfl
    · cases h
  · cases h

theorem filesIn_eq (entries : List (Text × Node)) :
    filesIn entries = entries.flatMap fun e => e.2.files.map (e.1 :: ·) := by
  induction entries with
  | nil => rfl
  | cons e entries ih => rw [flatMap_cons, ← ih, filesIn]

theorem mem_filesIn : path ∈ filesIn entries ↔ ∃ e ∈ entries, ∃ rest ∈ e.2.files, e.1 :: rest = path := by
  simp [filesIn_eq]

theorem lookup_of_mem (names : entries.Pairwise fun x y => x.1 < y.1) (h : (name, m) ∈ entries) :
    entries.lookup name = some m := by
  obtain ⟨before, after, rfl⟩ := append_of_mem h
  refine lookup_eq_some_iff.2 ⟨before, after, rfl, fun e he => ?_⟩
  have hlt : e.1 < name := (pairwise_append.1 names).2.2 e he (name, m) (by simp)
  simpa using hlt.ne'

theorem readFile_cons (path : List Text) :
    (Node.dir entries).readFile (name :: path) = (entries.lookup name).bind fun m => m.readFile path := by
  simp only [readFile, stat, follow]
  cases entries.lookup name with
  | none => rfl
  | some m => rfl

theorem Ordered.nodup_files (h : n.Ordered) : n.files.Nodup := by
  induction h with
  | file data => simp [files]
  | dir names below ih =>
    rw [files, filesIn_eq, nodup_flatMap]
    refine ⟨fun e he => (ih e he).map fun _ _ h => (cons.inj h).2, names.imp fun {x y} hxy p hx hy => ?_⟩
    obtain ⟨_, _, rfl⟩ := mem_map.1 hx
    obtain ⟨_, _, heq⟩ := mem_map.1 hy
    exact hxy.ne (cons.inj heq).1.symm
  | _ => simp [files]

theorem Ordered.readFile_of_mem (h : n.Ordered) (hp : path ∈ n.files) : ∃ data, n.readFile path = some data := by
  induction h generalizing path with
  | file data =>
    rw [files, mem_singleton] at hp
    exact ⟨data, by rw [hp]; rfl⟩
  | @dir entries names below ih =>
    obtain ⟨e, he, rest, hrest, rfl⟩ := mem_filesIn.1 hp
    obtain ⟨data, hdata⟩ := ih e he hrest
    refine ⟨data, ?_⟩
    rw [readFile_cons, lookup_of_mem names he, Option.bind_some, hdata]
  | _ => simp [files] at hp

theorem mem_files_of_readFile (h : n.readFile path = some data)
    (hlink : ∀ q, q <+: path → ∀ m, n.lstat q = some m → m.isLink = false) : path ∈ n.files := by
  induction path generalizing n with
  | nil =>
    have hn := follow_of_not_link (hlink [] nil_prefix n rfl)
    cases n with
    | file d => simp [files]
    | _ => simp [readFile, stat, hn] at h
  | cons name rest ih =>
    have hn := follow_of_not_link (hlink [] nil_prefix n rfl)
    cases n with
    | dir entries =>
      rw [readFile_cons] at h
      obtain ⟨m, hm, hread⟩ := Option.bind_eq_some_iff.1 h
      refine mem_filesIn.2 ⟨(name, m), mem_of_lookup hm, rest, ih hread fun q hq k hk => ?_, rfl⟩
      refine hlink (name :: q) ((prefix_cons_inj name).2 hq) k ?_
      simp only [lstat, follow, hm]
      exact hk
    | _ => simp [readFile, stat, hn] at h

theorem Ordered.not_link_of_mem_files (h : n.Ordered) (hp : path ∈ n.files) {q : List Text} (hq : q <+: path)
    (hm : n.lstat q = some m) : m.isLink = false := by
  induction h generalizing path q with
  | file data =>
    rw [files, mem_singleton] at hp
    rw [hp, prefix_nil] at hq
    rw [hq] at hm
    cases hm
    rfl
  | @dir entries names below ih =>
    obtain ⟨e, he, rest, hrest, rfl⟩ := mem_filesIn.1 hp
    cases q with
    | nil =>
      cases hm
      rfl
    | cons name q =>
      obtain ⟨rfl, hrestq⟩ := cons_prefix_cons.1 hq
      simp only [Node.lstat, Node.follow, lookup_of_mem names he] at hm
      exact ih e he hrest hrestq hm
  | _ => simp [files] at hp

theorem Plain.files_ne_nil (h : n.Plain) : n.files ≠ [] := by
  induction h with
  | file data => simp [files]
  | @dir entries inhabited below ih =>
    obtain ⟨e, he⟩ := exists_mem_of_ne_nil entries inhabited
    obtain ⟨rest, hrest⟩ := exists_mem_of_ne_nil _ (ih e he)
    exact ne_nil_of_mem (mem_filesIn.2 ⟨e, he, rest, hrest, rfl⟩)

theorem Plain.isLink (h : n.Plain) : n.isLink = false := by
  cases h with
  | file data => rfl
  | dir _ _ => rfl

theorem Plain.lstat (h : n.Plain) (hm : n.lstat path = some m) : m.Plain := by
  induction path generalizing n with
  | nil =>
    cases hm
    exact h
  | cons name rest ih =>
    cases h with
    | file data => cases hm
    | @dir entries _ below =>
      simp only [Node.lstat, Node.follow] at hm
      split at hm
      · rename_i k hk
        exact ih (below _ (mem_of_lookup hk)) hm
      · cases hm

theorem Plain.mem_files (h : n.Plain) (hread : n.readFile path = some data) : path ∈ n.files :=
  mem_files_of_readFile hread fun _ _ _ hm => (h.lstat hm).isLink

theorem isDir_of_mem_files (h : name :: path ∈ n.files) : n.isDir = true := by
  cases n with
  | dir entries => rfl
  | _ => simp [files] at h

theorem isDir_of_readFile (h : n.readFile (name :: path) = some data) :
    (n.stat []).any isDir = true := by
  simp only [readFile, stat] at h
  rw [stat]
  split at h
  · rename_i hstat
    split at hstat
    · rename_i hn
      rw [hn]
      rfl
    · cases hstat
  · cases h

theorem Plain.follow (h : n.Plain) : n.follow = some n := by
  cases h with
  | file data => rfl
  | dir _ _ => rfl

theorem Plain.isFile (h : n.Plain) (hdir : n.isDir = false) : ∃ data, n = .file data := by
  cases h with
  | file data => exact ⟨data, rfl⟩
  | dir _ _ => cases hdir

end tree

end Node

structure Tree where
  root : Node
  ordered : root.Ordered

end VmManager.Images
