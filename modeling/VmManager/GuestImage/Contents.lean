import VmManager.Images.Tree

/-! The files a guest image artifact carries, and what the catalog finds in a copy made of them. The catalog
follows every link it meets, the listing of a tree follows none. -/
namespace VmManager.GuestImage
open Encoding Images List Option
variable {sysupdate : List (Text × Node)} {rest : List Text} {n : Node}

def roothashSuffix : Text := ".roothash".toList
def repartSuffix : Text := ".repart.d".toList

section contents
variable (d : Node)

def fileExists (name : Text) : Bool := (d.stat [name]).any Node.isFile

/-- The regular files under an entry of the directory; a missing entry has none. -/
def walk (sub : Text) : List (List Text) :=
  match d.lstat [sub] with
  | some n => n.files.map (sub :: ·)
  | none => []

def stemOf (e : Text × Node) : Option Text :=
  if e.2.isDir then none
  else (cutSuffix ukiSuffix e.1).filter fun stem => (d.stat [stem ++ diskSuffix]).isSome

def stems : List Text := (d.readDir.getD []).filterMap (stemOf d)

def stemFiles (stem : Text) : List (List Text) :=
  [[stem ++ ukiSuffix], [stem ++ diskSuffix]] ++
    ([stem ++ roothashSuffix, stem ++ policySuffix].filter (fileExists d)).map ([·]) ++ walk d (stem ++ repartSuffix)

def contents : Option (List (List Text)) :=
  if stems d = [] then none
  else if fileExists d policyFile then
    some ((stems d).flatMap (stemFiles d) ++ [policyFile] :: walk d sysupdateDirName)
  else none

end contents

/-- A directory that holds exactly the given files, with what they hold in the original. -/
structure Copy (d t : Tree) (files : List (List Text)) : Prop where
  plain : t.root.Plain
  holds : ∀ path, path ∈ t.root.files ↔ path ∈ files
  same : ∀ path ∈ files, t.root.readFile path = d.root.readFile path

def sumsPath : List Text := [sysupdateDirName, kubernetesComponent, sumsFile]

/-- A sysupdate directory is no link and has a file below it, and no link is on the way to sums that name a version of
Kubernetes. -/
structure Carried (lib : Golib) (d : Tree) : Prop where
  tree : ∀ entries, d.root.stat [sysupdateDirName] = some (.dir entries) →
    d.root.lstat [sysupdateDirName] = some (.dir entries) ∧ Node.filesIn entries ≠ []
  sums : ∀ data, d.root.readFile sumsPath = some data → (∃ line ∈ data.splitOn '\n', versionOfLine lib line ≠ none) →
    ∀ path, path ≠ [] → path <+: sumsPath → ∀ n, d.root.lstat path = some n → n.isLink = false

def Catalogued (d : Tree) : Prop := ∃ stem ∈ stems d.root, splitStem stem ≠ none

/-! Which part of the listing a file comes from is told by the end of its first name. -/
section names

def suffixes : List Text := [ukiSuffix, diskSuffix, roothashSuffix, policySuffix, repartSuffix]

theorem getLast?_stem {stem suffix : Text} (h : suffix ∈ suffixes) :
    (stem ++ suffix).getLast? = suffix.getLast? := by
  refine getLast?_append_of_ne_nil stem ?_
  revert suffix
  decide

theorem stem_suffix_inj {stem stem' suffix suffix' : Text} (h : suffix ∈ suffixes) (h' : suffix' ∈ suffixes)
    (heq : stem ++ suffix = stem' ++ suffix') : stem = stem' ∧ suffix = suffix' := by
  have hends : ∀ x ∈ suffixes, ∀ y ∈ suffixes, x.getLast? = y.getLast? → x = y := by decide
  have hlast := congrArg getLast? heq
  rw [getLast?_stem h, getLast?_stem h'] at hlast
  obtain rfl := hends suffix h suffix' h' hlast
  exact ⟨append_cancel_right heq, rfl⟩

theorem stem_suffix_ne_sysupdate {stem suffix : Text} (h : suffix ∈ suffixes) :
    stem ++ suffix ≠ sysupdateDirName := by
  have hends : ∀ x ∈ suffixes, x.getLast? ≠ sysupdateDirName.getLast? := by decide
  intro heq
  exact hends suffix h (by rw [← heq, getLast?_stem h])

theorem stem_suffix_ne_policyFile {stem suffix : Text} (h : suffix ∈ suffixes) :
    stem ++ suffix ≠ policyFile := by
  have hends : ∀ x ∈ suffixes, x.getLast? = policyFile.getLast? → x = policySuffix := by decide
  intro heq
  have hpolicy := hends suffix h (by rw [← heq, getLast?_stem h])
  have hlen := congrArg length heq
  rw [length_append, hpolicy, show policySuffix.length = 12 from rfl, show policyFile.length = 11 from rfl] at hlen
  omega

end names

section listing
variable {d : Node} {stem sub : Text} {path : List Text} {files : List (List Text)}

theorem cutSuffix_eq_some {suffix t : Text} : cutSuffix suffix t = some stem ↔ t = stem ++ suffix := by
  unfold cutSuffix
  rw [ite_none_right_eq_some, isSuffixOf_iff_suffix, some.injEq]
  constructor
  · rintro ⟨⟨stem', rfl⟩, h⟩
    simpa using h
  · rintro rfl
    exact ⟨suffix_append stem suffix, by simp⟩

theorem mem_walk : path ∈ walk d sub ↔ ∃ n, d.lstat [sub] = some n ∧ ∃ rest ∈ n.files, sub :: rest = path := by
  unfold walk
  cases d.lstat [sub] with
  | none => simp
  | some n => simp

theorem head_of_mem_stemFiles (h : path ∈ stemFiles d stem) :
    ∃ suffix ∈ suffixes, ∃ rest, path = (stem ++ suffix) :: rest := by
  rcases mem_append.1 h with h | h
  · have hname : path = [stem ++ ukiSuffix] ∨ path = [stem ++ diskSuffix] ∨
        path = [stem ++ roothashSuffix] ∨ path = [stem ++ policySuffix] := by
      grind
    rcases hname with rfl | rfl | rfl | rfl
    · exact ⟨ukiSuffix, by simp [suffixes], [], rfl⟩
    · exact ⟨diskSuffix, by simp [suffixes], [], rfl⟩
    · exact ⟨roothashSuffix, by simp [suffixes], [], rfl⟩
    · exact ⟨policySuffix, by simp [suffixes], [], rfl⟩
  · obtain ⟨n, -, rest, -, rfl⟩ := mem_walk.1 h
    exact ⟨repartSuffix, by simp [suffixes], rest, rfl⟩

theorem contents_eq (h : contents d = some files) : fileExists d policyFile = true ∧
    files = (stems d).flatMap (stemFiles d) ++ [policyFile] :: walk d sysupdateDirName := by
  unfold contents at h
  split at h
  · cases h
  split at h
  · exact ⟨‹_›, (some.inj h).symm⟩
  · cases h

theorem mem_contents (h : contents d = some files) : path ∈ files ↔
    (∃ stem ∈ stems d, path ∈ stemFiles d stem) ∨ path = [policyFile] ∨ path ∈ walk d sysupdateDirName := by
  rw [(contents_eq h).2]
  simp

theorem stem_of_mem_contents (h : contents d = some files) {suffix : Text} (hs : suffix ∈ suffixes)
    (hp : (stem ++ suffix) :: rest ∈ files) : stem ∈ stems d := by
  rcases (mem_contents h).1 hp with ⟨stem', hstem, hmem⟩ | heq | hmem
  · obtain ⟨suffix', hs', rest', heq⟩ := head_of_mem_stemFiles hmem
    rw [(stem_suffix_inj hs hs' (cons.inj heq).1).1]
    exact hstem
  · exact absurd (cons.inj heq).1 (stem_suffix_ne_policyFile hs)
  · obtain ⟨n, -, rest', -, heq⟩ := mem_walk.1 hmem
    exact absurd (cons.inj heq).1.symm (stem_suffix_ne_sysupdate hs)

theorem sysupdate_of_mem_contents (h : contents d = some files)
    (hp : sysupdateDirName :: rest ∈ files) : sysupdateDirName :: rest ∈ walk d sysupdateDirName := by
  rcases (mem_contents h).1 hp with ⟨stem', hstem, hmem⟩ | heq | hmem
  · obtain ⟨suffix', hs', rest', heq⟩ := head_of_mem_stemFiles hmem
    exact absurd (cons.inj heq).1.symm (stem_suffix_ne_sysupdate hs')
  · exact absurd (cons.inj heq).1 (by decide)
  · exact hmem

end listing

section nodup
variable {d : Node} {entries : List (Text × Node)}

theorem readDir_ordered (hd : d.Ordered) (h : d.follow = some (.dir entries)) : d.readDir = some entries := by
  cases hd.follow h with
  | dir names _ =>
    have hsorted : entries.Pairwise fun x y => x.1 ≤ y.1 := names.imp le_of_lt
    simp only [Node.readDir, h, hsorted.insertionSort_eq]

theorem mem_stems (hd : d.Ordered) (h : d.follow = some (.dir entries)) {stem : Text} : stem ∈ stems d ↔
    (∃ n, (stem ++ ukiSuffix, n) ∈ entries ∧ n.isDir = false) ∧ (d.stat [stem ++ diskSuffix]).isSome := by
  rw [stems, readDir_ordered hd h]
  simp only [getD_some, mem_filterMap, stemOf, ite_none_left_eq_some, filter_eq_some_iff,
    cutSuffix_eq_some, Prod.exists]
  constructor
  · rintro ⟨name, n, hmem, hdir, rfl, hdisk⟩
    exact ⟨⟨n, hmem, by simpa using hdir⟩, hdisk⟩
  · rintro ⟨⟨n, hmem, hdir⟩, hdisk⟩
    exact ⟨_, n, hmem, by simpa using hdir, rfl, hdisk⟩

theorem stems_pairwise (hd : d.Ordered) (h : d.follow = some (.dir entries)) :
    (stems d).Pairwise fun x y => x ++ ukiSuffix < y ++ ukiSuffix := by
  have hname : ∀ e stem, stemOf d e = some stem → e.1 = stem ++ ukiSuffix := by
    intro e stem hstem
    unfold stemOf at hstem
    split at hstem
    · cases hstem
    · exact cutSuffix_eq_some.1 (filter_eq_some_iff.1 hstem).1
  cases hd.follow h with
  | dir names _ =>
    rw [stems, readDir_ordered hd h, getD_some, pairwise_filterMap]
    refine names.imp fun {x y} hxy stem hstem stem' hstem' => ?_
    rw [← hname x stem hstem, ← hname y stem' hstem']
    exact hxy

theorem nodup_walk (hd : d.Ordered) (sub : Text) : (walk d sub).Nodup := by
  unfold walk
  cases hn : d.lstat [sub] with
  | none => exact nodup_nil
  | some n => exact (hd.lstat hn).nodup_files.map fun _ _ h => (cons.inj h).2

theorem nodup_stemFiles (hd : d.Ordered) (stem : Text) : (stemFiles d stem).Nodup := by
  have hne : ∀ x ∈ suffixes, ∀ y ∈ suffixes, x ≠ y → ∀ r r' : List Text, (stem ++ x) :: r ≠ (stem ++ y) :: r' :=
    fun x _ y _ hxy r r' heq => hxy (append_cancel_left (cons.inj heq).1)
  have hopt : ∀ path ∈ ([stem ++ roothashSuffix, stem ++ policySuffix].filter (fileExists d)).map ([·]),
      path = [stem ++ roothashSuffix] ∨ path = [stem ++ policySuffix] := by
    intro path hpath
    obtain ⟨name, hname, rfl⟩ := List.mem_map.1 hpath
    have hname := mem_of_mem_filter hname
    simpa using hname
  refine nodup_append.2 ⟨nodup_append.2 ⟨?_, ?_, ?_⟩, nodup_walk hd _, ?_⟩
  · simpa using hne ukiSuffix (by decide) diskSuffix (by decide) (by decide) [] []
  · refine Nodup.map (fun _ _ h => (cons.inj h).1) (Nodup.filter _ ?_)
    simpa using hne roothashSuffix (by decide) policySuffix (by decide) (by decide) [] []
  · intro path hpath other hother
    have hfirst : path = [stem ++ ukiSuffix] ∨ path = [stem ++ diskSuffix] := by simpa using hpath
    rcases hfirst with rfl | rfl <;> rcases hopt other hother with rfl | rfl <;>
      exact hne _ (by decide) _ (by decide) (by decide) _ _
  · intro path hpath other hother
    obtain ⟨n, -, rest, -, rfl⟩ := mem_walk.1 hother
    have hfirst : path = [stem ++ ukiSuffix] ∨ path = [stem ++ diskSuffix] ∨
        path = [stem ++ roothashSuffix] ∨ path = [stem ++ policySuffix] := by
      rcases mem_append.1 hpath with hpath | hpath
      · have hpath : path = [stem ++ ukiSuffix] ∨ path = [stem ++ diskSuffix] := by simpa using hpath
        tauto
      · exact .inr (.inr (hopt path hpath))
    rcases hfirst with rfl | rfl | rfl | rfl <;> exact hne _ (by decide) _ (by decide) (by decide) _ _

theorem nodup_contents (hd : d.Ordered) (h : d.follow = some (.dir entries)) {files : List (List Text)}
    (hc : contents d = some files) : files.Nodup := by
  rw [(contents_eq hc).2]
  refine nodup_append.2 ⟨nodup_flatMap.2 ⟨fun stem _ => nodup_stemFiles hd stem, ?_⟩, ?_, ?_⟩
  · refine (stems_pairwise hd h).imp fun {stem stem'} hlt path hpath hpath' => ?_
    obtain ⟨suffix, hs, rest, rfl⟩ := head_of_mem_stemFiles hpath
    obtain ⟨suffix', hs', rest', heq⟩ := head_of_mem_stemFiles hpath'
    rw [(stem_suffix_inj hs hs' (cons.inj heq).1).1] at hlt
    exact lt_irrefl _ hlt
  · refine nodup_cons.2 ⟨fun hmem => ?_, nodup_walk hd _⟩
    obtain ⟨n, -, rest, -, heq⟩ := mem_walk.1 hmem
    exact absurd (cons.inj heq).1 (by decide)
  · intro path hpath other hother
    obtain ⟨stem, -, hmem⟩ := mem_flatMap.1 hpath
    obtain ⟨suffix, hs, rest, rfl⟩ := head_of_mem_stemFiles hmem
    rcases mem_cons.1 hother with rfl | hother
    · exact fun heq => stem_suffix_ne_policyFile hs (cons.inj heq).1
    · obtain ⟨n, -, rest', -, rfl⟩ := mem_walk.1 hother
      exact fun heq => stem_suffix_ne_sysupdate hs (cons.inj heq).1

end nodup

section refresh
variable (lib : Golib) (d : Node)

def imageAt (stem : Text) : Option Image :=
  (splitStem stem).map fun p =>
    { id := p.1, version := p.2, uki := stem ++ ukiSuffix, disk := stem ++ diskSuffix
      sysupdateDir := sysupdateDir d
      kubernetesVersions := kubernetesVersions lib d
      policy := (policySource lib d p.1 p.2).map Prod.snd }

theorem imageOf_eq (e : Text × Node) : imageOf lib d e = (stemOf d e).bind (imageAt lib d) := by
  unfold imageOf stemOf
  split
  · rfl
  · cases hstem : cutSuffix ukiSuffix e.1 with
    | none => rfl
    | some stem =>
      simp only [filter_some]
      rw [cutSuffix_eq_some.1 hstem]
      by_cases hdisk : (d.stat [stem ++ diskSuffix]).isSome = true
      · cases hsplit : splitStem stem with
        | none => simp [imageAt, hdisk, hsplit]
        | some p => simp [imageAt, hdisk, hsplit]
      · cases hsplit : splitStem stem with
        | none => simp [hdisk]
        | some p => simp [hdisk]

theorem refresh_eq : refresh lib d =
    d.readDir.map fun _ => lib.sort.sort Image.before ((stems d).filterMap (imageAt lib d)) := by
  unfold refresh stems
  cases d.readDir with
  | none => rfl
  | some entries =>
    simp only [map_some, getD_some, filterMap_filterMap]
    rw [funext (imageOf_eq lib d)]

theorem splitStem_eq {stem id version : Text} (h : splitStem stem = some (id, version)) :
    id ++ '_' :: version = stem := by
  unfold splitStem at h
  split at h
  · rename_i rest hrest
    split at h <;> cases h
    have hrev := takeWhile_append_dropWhile (p := (· ≠ '_')) (l := stem.reverse)
    rw [hrest] at hrev
    have hstem := congrArg reverse hrev
    simpa using hstem
  · cases h

end refresh

section copy
variable {d t : Tree} {files : List (List Text)}

theorem fileExists_of_readFile {name data : Text} (h : n.readFile [name] = some data) :
    fileExists n name = true := by
  unfold Node.readFile at h
  unfold fileExists
  split at h
  · rename_i hstat
    rw [hstat]
    rfl
  · cases h

theorem root_of_contents (hc : contents n = some files) : ∃ entries, n.follow = some (.dir entries) := by
  have hread : n.readDir ≠ none := by
    intro hnone
    simp [contents, stems, hnone] at hc
  unfold Node.readDir at hread
  split at hread
  · rename_i entries hn
    exact ⟨entries, hn⟩
  · exact absurd rfl hread

theorem kubernetesVersions_none {lib : Golib} (h : n.readFile sumsPath = none) : kubernetesVersions lib n = [] := by
  unfold kubernetesVersions
  rw [show n.readFile [sysupdateDirName, kubernetesComponent, sumsFile] = none from h]

theorem kubernetesVersions_eq_nil {lib : Golib} {data : Text} (h : n.readFile sumsPath = some data) :
    kubernetesVersions lib n = [] ↔ ∀ line ∈ data.splitOn '\n', versionOfLine lib line = none := by
  unfold kubernetesVersions
  rw [show n.readFile [sysupdateDirName, kubernetesComponent, sumsFile] = some data from h, ← filterMap_eq_nil_iff]
  dsimp only
  constructor
  · intro hnil
    exact (hnil ▸ lib.sort.perm (fun v w => decide (compareVersions v w > 0)) _).symm.eq_nil
  · intro hnil
    rw [hnil]
    exact (lib.sort.perm _ _).eq_nil

namespace Copy

theorem readFile_eq (copy : Copy d t files) {path : List Text}
    (hmem : ∀ data, d.root.readFile path = some data → path ∈ files) :
    t.root.readFile path = d.root.readFile path := by
  by_cases hpath : path ∈ files
  · exact copy.same path hpath
  · have ht : t.root.readFile path = none := by
      refine eq_none_iff_forall_ne_some.2 fun data hdata => hpath ?_
      exact (copy.holds path).1 (copy.plain.mem_files hdata)
    have hd : d.root.readFile path = none := eq_none_iff_forall_ne_some.2 fun data hdata => hpath (hmem data hdata)
    rw [ht, hd]

theorem readFile_of_mem (copy : Copy d t files) {path : List Text} (hmem : path ∈ files) :
    ∃ data, t.root.readFile path = some data :=
  t.ordered.readFile_of_mem ((copy.holds path).2 hmem)

variable (copy : Copy d t files) (hc : contents d.root = some files)
include copy hc

theorem root_eq : ∃ entries, t.root = .dir entries := by
  have hpolicy : [policyFile] ∈ t.root.files := (copy.holds _).2 ((mem_contents hc).2 (.inr (.inl rfl)))
  cases ht : t.root with
  | dir entries => exact ⟨entries, rfl⟩
  | _ => simp [ht, Node.files] at hpolicy

theorem stems_eq : stems t.root = stems d.root := by
  obtain ⟨entries, hd⟩ := root_of_contents hc
  obtain ⟨entries', ht⟩ := copy.root_eq hc
  have htf : t.root.follow = some (.dir entries') := by rw [ht]; rfl
  have hmem : ∀ stem, stem ∈ stems t.root ↔ stem ∈ stems d.root := by
    intro stem
    constructor
    · intro hstem
      obtain ⟨⟨n, hn, hdir⟩, -⟩ := (mem_stems t.ordered htf).1 hstem
      have hplain : n.Plain := by
        cases ht ▸ copy.plain with
        | dir _ below => exact below _ hn
      obtain ⟨data, rfl⟩ := hplain.isFile hdir
      have hfile : [stem ++ ukiSuffix] ∈ t.root.files := by
        rw [ht, Node.files]
        exact Node.mem_filesIn.2 ⟨_, hn, [], by simp [Node.files], rfl⟩
      exact stem_of_mem_contents hc (by decide) ((copy.holds _).1 hfile)
    · intro hstem
      have hlisted : ∀ suffix ∈ [ukiSuffix, diskSuffix], ∃ data, t.root.readFile [stem ++ suffix] = some data := by
        intro suffix hsuffix
        refine copy.readFile_of_mem ((mem_contents hc).2 (.inl ⟨stem, hstem, ?_⟩))
        have hsuffix : suffix = ukiSuffix ∨ suffix = diskSuffix := by simpa using hsuffix
        rcases hsuffix with rfl | rfl <;> simp [stemFiles]
      refine (mem_stems t.ordered htf).2 ⟨?_, ?_⟩
      · obtain ⟨data, hread⟩ := hlisted ukiSuffix (by simp)
        rw [ht, Node.readFile_cons] at hread
        obtain ⟨n, hn, hread⟩ := bind_eq_some_iff.1 hread
        refine ⟨n, Node.mem_of_lookup hn, ?_⟩
        cases n with
        | dir _ => cases hread
        | _ => rfl
      · obtain ⟨data, hread⟩ := hlisted diskSuffix (by simp)
        unfold Node.readFile at hread
        split at hread
        · rename_i hstat
          rw [hstat]
          rfl
        · cases hread
  -- Both lists are in the order of the UKIs, so they are told apart by their members only.
  have hinj : Function.Injective fun stem : Text => stem ++ ukiSuffix := fun _ _ h => append_cancel_right h
  refine hinj.list_map (SortedLT.eq_of_mem_iff ?_ ?_ fun name => ?_)
  · exact (pairwise_map.2 (stems_pairwise t.ordered htf)).sortedLT
  · exact (pairwise_map.2 (stems_pairwise d.ordered hd)).sortedLT
  · simp only [List.mem_map, hmem]

theorem policySource_eq (lib : Golib)
    {stem id version : Text} (hstem : stem ∈ stems d.root) (hsplit : splitStem stem = some (id, version)) :
    policySource lib t.root id version = policySource lib d.root id version := by
  have hown : t.root.readFile [perImagePolicy id version] = d.root.readFile [perImagePolicy id version] := by
    refine copy.readFile_eq fun data hdata => (mem_contents hc).2 (.inl ⟨stem, hstem, ?_⟩)
    have hname : perImagePolicy id version = stem ++ policySuffix := by
      rw [← splitStem_eq hsplit]
      simp [perImagePolicy]
    rw [hname] at hdata ⊢
    simp [stemFiles, fileExists_of_readFile hdata]
  have hshared : t.root.readFile [policyFile] = d.root.readFile [policyFile] :=
    copy.same _ ((mem_contents hc).2 (.inr (.inl rfl)))
  simp only [policySource, readJSON, hown, hshared]

theorem kubernetesVersions_eq {lib : Golib}
    (hk : Carried lib d) : kubernetesVersions lib t.root = kubernetesVersions lib d.root := by
  by_cases hmem : sumsPath ∈ files
  · unfold kubernetesVersions
    rw [show t.root.readFile [sysupdateDirName, kubernetesComponent, sumsFile] = _ from copy.same _ hmem]
  · have ht : t.root.readFile sumsPath = none :=
      eq_none_iff_forall_ne_some.2 fun data hdata => hmem ((copy.holds _).1 (copy.plain.mem_files hdata))
    rw [kubernetesVersions_none ht]
    cases hdata : d.root.readFile sumsPath with
    | none => rw [kubernetesVersions_none hdata]
    | some data =>
      refine ((kubernetesVersions_eq_nil hdata).2 fun line hline => ?_).symm
      by_contra hne
      obtain ⟨entries, hd⟩ := root_of_contents hc
      have hread : (entries.lookup sysupdateDirName).bind
          (Node.readFile [kubernetesComponent, sumsFile]) = some data := by
        rw [← hdata, ← Node.readFile_cons]
        simp only [Node.readFile, Node.stat, hd, Node.follow, sumsPath]
      obtain ⟨n, hn, hread⟩ := bind_eq_some_iff.1 hread
      have hlstat : ∀ q, d.root.lstat (sysupdateDirName :: q) = n.lstat q := by
        intro q
        simp only [Node.lstat, hd, hn]
      refine hmem ((mem_contents hc).2 (.inr (.inr (mem_walk.2 ⟨n, hlstat [], _, ?_, rfl⟩))))
      refine Node.mem_files_of_readFile hread fun q hq m hm => ?_
      exact hk.sums data hdata ⟨line, hline, hne⟩ (sysupdateDirName :: q) (by simp) ((prefix_cons_inj _).2 hq) m
        (by rw [hlstat, hm])

theorem isDir_iff (sub : Text) :
    (t.root.stat [sub]).any Node.isDir = true ↔ ∃ name rest, sub :: name :: rest ∈ files := by
  obtain ⟨entries, ht⟩ := copy.root_eq hc
  have hstat : t.root.stat [sub] = (entries.lookup sub).bind (Node.stat []) := by
    simp only [ht, Node.stat, Node.follow]
    cases entries.lookup sub with
    | none => rfl
    | some n => rfl
  rw [hstat]
  constructor
  · intro h
    obtain ⟨m, hm, hdir⟩ := (Option.any_eq_true _ _).1 h
    obtain ⟨n, hn, hfollow⟩ := bind_eq_some_iff.1 hm
    have hplain : n.Plain := by
      cases ht ▸ copy.plain with
      | dir _ below => exact below _ (Node.mem_of_lookup hn)
    rw [Node.stat, hplain.follow, some.injEq] at hfollow
    subst hfollow
    obtain ⟨path, hpath⟩ := exists_mem_of_ne_nil _ hplain.files_ne_nil
    have hmem : sub :: path ∈ files := by
      refine (copy.holds _).1 ?_
      rw [ht, Node.files]
      exact Node.mem_filesIn.2 ⟨_, Node.mem_of_lookup hn, path, hpath, rfl⟩
    cases n with
    | dir es =>
      obtain ⟨e, _, rest, _, rfl⟩ := Node.mem_filesIn.1 hpath
      exact ⟨e.1, rest, hmem⟩
    | _ => cases hdir
  · rintro ⟨name, rest, hmem⟩
    obtain ⟨data, hread⟩ := copy.readFile_of_mem hmem
    rw [ht, Node.readFile_cons] at hread
    obtain ⟨n, hn, hread⟩ := bind_eq_some_iff.1 hread
    rw [hn]
    exact Node.isDir_of_readFile hread

end Copy

theorem isDir_of_mem_contents (hc : contents d.root = some files) {name : Text}
    (hmem : sysupdateDirName :: name :: rest ∈ files) : ∃ entries, d.root.lstat [sysupdateDirName] = some (.dir entries) ∧
      name :: rest ∈ Node.filesIn entries := by
  obtain ⟨n, hn, path, hpath, heq⟩ := mem_walk.1 (sysupdate_of_mem_contents hc hmem)
  rw [(cons.inj heq).2] at hpath
  have hdir := Node.isDir_of_mem_files hpath
  cases n with
  | dir es => exact ⟨es, hn, hpath⟩
  | _ => cases hdir

theorem Carried.isDir_iff {lib : Golib} (hk : Carried lib d) (hc : contents d.root = some files) :
    (d.root.stat [sysupdateDirName]).any Node.isDir = true ↔
      ∃ name rest, sysupdateDirName :: name :: rest ∈ files := by
  constructor
  · intro h
    obtain ⟨m, hm, hdir⟩ := (Option.any_eq_true _ _).1 h
    cases m with
    | dir es =>
      obtain ⟨hn, hne⟩ := hk.tree es hm
      obtain ⟨path, hpath⟩ := exists_mem_of_ne_nil _ hne
      obtain ⟨e, _, rest, _, rfl⟩ := Node.mem_filesIn.1 hpath
      exact ⟨e.1, rest, (mem_contents hc).2 (.inr (.inr (mem_walk.2 ⟨_, hn, _, hpath, rfl⟩)))⟩
    | _ => cases hdir
  · rintro ⟨name, rest, hmem⟩
    obtain ⟨es, hn, -⟩ := isDir_of_mem_contents hc hmem
    rw [Node.stat_eq_lstat, hn]
    rfl

theorem Copy.sysupdateDir_eq (copy : Copy d t files) (hc : contents d.root = some files) {lib : Golib}
    (hk : Carried lib d) : sysupdateDir t.root = sysupdateDir d.root := by
  unfold sysupdateDir
  rw [Bool.eq_iff_iff.2 ((copy.isDir_iff hc sysupdateDirName).trans (hk.isDir_iff hc).symm)]

theorem Copy.refresh_eq (copy : Copy d t files) (hc : contents d.root = some files) {lib : Golib}
    (hk : Catalogued d → Carried lib d) : refresh lib t.root = refresh lib d.root := by
  obtain ⟨entries, hd⟩ := root_of_contents hc
  obtain ⟨entries', ht⟩ := copy.root_eq hc
  have htf : t.root.follow = some (.dir entries') := by rw [ht]; rfl
  have himages : (stems t.root).filterMap (imageAt lib t.root) = (stems d.root).filterMap (imageAt lib d.root) := by
    rw [copy.stems_eq hc]
    refine filterMap_congr fun stem hstem => ?_
    unfold imageAt
    cases hsplit : splitStem stem with
    | none => rfl
    | some p =>
      have hk := hk ⟨stem, hstem, by simp [hsplit]⟩
      simp only [map_some, copy.sysupdateDir_eq hc hk, copy.kubernetesVersions_eq hc hk,
        copy.policySource_eq hc lib hstem hsplit]
  rw [GuestImage.refresh_eq, GuestImage.refresh_eq, himages, readDir_ordered t.ordered htf, readDir_ordered d.ordered hd]
  rfl

theorem sysupdate_of_refresh {lib : Golib} {images : List Image} (hd : refresh lib n = some images)
    {img : Image} (himg : img ∈ images) :
    img.sysupdateDir = sysupdateDir n ∧ img.kubernetesVersions = kubernetesVersions lib n := by
  rw [refresh_eq] at hd
  obtain ⟨_, -, rfl⟩ := map_eq_some_iff.1 hd
  obtain ⟨stem, -, himg⟩ := mem_filterMap.1 ((lib.sort.perm _ _).mem_iff.1 himg)
  obtain ⟨p, -, rfl⟩ := map_eq_some_iff.1 himg
  exact ⟨rfl, rfl⟩

theorem Copy.carried (copy : Copy d t files) (hc : contents d.root = some files) {lib : Golib}
    (h : refresh lib t.root = refresh lib d.root) (himage : Catalogued d) : Carried lib d := by
  obtain ⟨hdir, hversions⟩ : sysupdateDir t.root = sysupdateDir d.root ∧
      kubernetesVersions lib t.root = kubernetesVersions lib d.root := by
    obtain ⟨entries, hd⟩ := root_of_contents hc
    obtain ⟨stem, hstem, hsplit⟩ := himage
    obtain ⟨p, hp⟩ := ne_none_iff_exists'.1 hsplit
    have hrefresh := GuestImage.refresh_eq lib d.root
    rw [readDir_ordered d.ordered hd, map_some] at hrefresh
    have hmem := (lib.sort.perm Image.before _).mem_iff.2
      (mem_filterMap.2 ⟨stem, hstem, show imageAt lib d.root stem = some _ by rw [imageAt, hp]; rfl⟩)
    have hdimg := sysupdate_of_refresh hrefresh hmem
    have htimg := sysupdate_of_refresh (h.trans hrefresh) hmem
    exact ⟨htimg.1.symm.trans hdimg.1, htimg.2.symm.trans hdimg.2⟩
  refine ⟨fun entries hstat => ?_, fun data hdata hline path hne hpath n hn => ?_⟩
  · have hisDir : (t.root.stat [sysupdateDirName]).any Node.isDir = true := by
      by_contra hnot
      simp [sysupdateDir, hnot, hstat, Node.isDir] at hdir
    obtain ⟨name, rest, hmem⟩ := (copy.isDir_iff hc sysupdateDirName).1 hisDir
    obtain ⟨es, hn, hfile⟩ := isDir_of_mem_contents hc hmem
    rw [Node.stat_eq_lstat, hn] at hstat
    cases hstat
    exact ⟨hn, ne_nil_of_mem hfile⟩
  · obtain ⟨line, hline, hversion⟩ := hline
    have hread : t.root.readFile sumsPath ≠ none := by
      intro hnone
      rw [kubernetesVersions_none hnone] at hversions
      exact hversion ((kubernetesVersions_eq_nil hdata).1 hversions.symm line hline)
    obtain ⟨data', hdata'⟩ := ne_none_iff_exists'.1 hread
    have hwalk := sysupdate_of_mem_contents hc ((copy.holds _).1 (copy.plain.mem_files hdata'))
    obtain ⟨m, hm, rest, hrest, heq⟩ := mem_walk.1 hwalk
    cases path with
    | nil => exact absurd rfl hne
    | cons name q =>
      obtain ⟨rfl, hq⟩ := cons_prefix_cons.1 hpath
      exact (d.ordered.lstat hm).not_link_of_mem_files ((cons.inj heq).2 ▸ hrest) hq ((Node.lstat_cons hm).symm.trans hn)

/-- The catalog finds in a directory that holds exactly the listed files what it finds in the original, and no file is
listed twice, exactly when it finds no image or the sysupdate tree is carried. -/
theorem copy_keeps_catalog (lib : Golib) {d t : Tree} {files : List (List Text)}
    (hc : contents d.root = some files) (copy : Copy d t files) :
    (refresh lib t.root = refresh lib d.root ∧ files.Nodup) ↔ (Catalogued d → Carried lib d) := by
  obtain ⟨entries, hd⟩ := root_of_contents hc
  exact ⟨fun h => copy.carried hc h.1, fun hk => ⟨copy.refresh_eq hc hk, nodup_contents d.ordered hd hc⟩⟩

end copy

namespace Sample
open Images.Sample (golib)

def imageDir (disk : Node) (sysupdate : List (Text × Node)) : Node :=
  .dir ([("os_1.efi".toList, .file "uki".toList), ("os_1.raw".toList, disk),
    (policyFile, .file "policy".toList)] ++ sysupdate)

def sysupdateTree : Node :=
  .dir [(kubernetesComponent, .dir [(sumsFile, .file "sum kubernetes_1.30.0.raw".toList)])]

theorem sysupdateTree_ordered : sysupdateTree.Ordered :=
  .dir (by decide) fun e he => by
    rw [mem_singleton.1 he]
    exact .dir (by decide) fun e he => by
      rw [mem_singleton.1 he]
      exact .file _

theorem imageDir_ordered {disk : Node} (hdisk : disk.Ordered)
    (hs : sysupdate = [] ∨ ∃ n : Node, n.Ordered ∧ sysupdate = [(sysupdateDirName, n)]) :
    (imageDir disk sysupdate).Ordered := by
  have hfiles : ∀ e ∈ [("os_1.efi".toList, .file "uki".toList), ("os_1.raw".toList, disk),
      (policyFile, .file "policy".toList)], e.2.Ordered := by
    simp [hdisk, Node.Ordered.file]
  have hnames : ["os_1.efi".toList, "os_1.raw".toList, policyFile, sysupdateDirName].Pairwise (· < ·) := by
    decide +kernel
  rcases hs with rfl | ⟨n, hn, rfl⟩
  · have hthree : ["os_1.efi".toList, "os_1.raw".toList, policyFile].Pairwise (· < ·) := hnames.take (i := 3)
    exact .dir (pairwise_map.1 hthree) hfiles
  · refine .dir (pairwise_map.1 hnames) fun e he => ?_
    rcases mem_append.1 he with he | he
    · exact hfiles e he
    · rw [mem_singleton.1 he]
      exact hn

def original : Tree := ⟨imageDir (.link (some (.file "disk".toList))) [(sysupdateDirName, sysupdateTree)],
  imageDir_ordered (.link (.file _)) (.inr ⟨_, sysupdateTree_ordered, rfl⟩)⟩

def pulled : Tree := ⟨imageDir (.file "disk".toList) [(sysupdateDirName, sysupdateTree)],
  imageDir_ordered (.file _) (.inr ⟨_, sysupdateTree_ordered, rfl⟩)⟩

def linked : Tree := ⟨imageDir (.file "disk".toList) [(sysupdateDirName, .link (some sysupdateTree))],
  imageDir_ordered (.file _) (.inr ⟨_, .link sysupdateTree_ordered, rfl⟩)⟩

def pulledLinked : Tree := ⟨imageDir (.file "disk".toList) [], imageDir_ordered (.file _) (.inl rfl)⟩

theorem sysupdateTree_plain : sysupdateTree.Plain :=
  .dir (by simp) fun e he => by
    rw [mem_singleton.1 he]
    exact .dir (by simp) fun e he => by
      rw [mem_singleton.1 he]
      exact .file _

theorem imageDir_plain (hs : ∀ e ∈ sysupdate, e.2.Plain) :
    (imageDir (.file "disk".toList) sysupdate).Plain := by
  refine .dir (by simp) fun e he => ?_
  rcases mem_append.1 he with he | he
  · have hfiles : ∀ e ∈ [("os_1.efi".toList, Node.file "uki".toList), ("os_1.raw".toList, .file "disk".toList),
        (policyFile, .file "policy".toList)], e.2.Plain := by
      simp [Node.Plain.file]
    exact hfiles e he
  · exact hs e he

def imageFiles : List (List Text) := [["os_1.efi".toList], ["os_1.raw".toList], [policyFile]]

end Sample
open Sample

theorem copy_keeps_catalog_pulled : contents original.root = some (imageFiles ++ [sumsPath]) ∧
    refresh VmManager.Images.Sample.golib pulled.root =
      refresh VmManager.Images.Sample.golib original.root := by
  have hc : contents original.root = some (imageFiles ++ [sumsPath]) := by decide +kernel
  have hk : Carried VmManager.Images.Sample.golib original := by
    refine ⟨fun entries hn => ?_, fun data _ _ path hne hpath n hn => ?_⟩
    · cases hn
      exact ⟨rfl, by decide⟩
    · simp only [sumsPath, prefix_cons_iff, prefix_nil] at hpath
      rcases hpath with rfl | ⟨_, rfl, rfl | ⟨_, rfl, rfl | ⟨_, rfl, rfl⟩⟩⟩
      · exact absurd rfl hne
      all_goals
        cases hn
        rfl
  have hcopy : Copy original pulled (imageFiles ++ [sumsPath]) :=
    ⟨imageDir_plain fun e he => by rw [mem_singleton.1 he]; exact sysupdateTree_plain,
      fun path => by rw [show pulled.root.files = imageFiles ++ [sumsPath] by decide +kernel],
      by decide +kernel⟩
  exact ⟨hc, ((copy_keeps_catalog VmManager.Images.Sample.golib hc hcopy).2 fun _ => hk).1⟩

theorem copy_loses_sysupdate : contents linked.root = some imageFiles ∧
    Copy linked pulledLinked imageFiles ∧
    refresh VmManager.Images.Sample.golib pulledLinked.root ≠
      refresh VmManager.Images.Sample.golib linked.root := by
  refine ⟨by decide +kernel, ⟨imageDir_plain (by simp), fun path => ?_, by decide +kernel⟩, by decide +kernel⟩
  rw [show pulledLinked.root.files = imageFiles by decide +kernel]

end VmManager.GuestImage
