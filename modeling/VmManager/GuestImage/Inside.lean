import VmManager.Encoding.Split
import VmManager.Imds.Sysupdate

/-! Where the files of an artifact go. A layer title that passes the checks of `artifactFiles` and is not the
dot that stands for the directory itself is a list of names, so joining it to a directory only goes down. -/
namespace VmManager.GuestImage
open Encoding List Bool
open Imds (join)
variable {dir e name : String} {es rest : List String} {rooted : Bool}

def Named (e : String) : Prop := e ≠ "" ∧ e ≠ "." ∧ e ≠ ".." ∧ '/' ∉ e.toList

def cleaned (name : String) : List String := ((elements name).foldl (cleanElement (isAbs name)) []).reverse

def written (rooted : Bool) (es : List String) : String :=
  if rooted then "/" ++ "/".intercalate es else if es = [] then "." else "/".intercalate es

theorem clean_eq_written (name : String) : clean name = written (isAbs name) (cleaned name) := rfl

def Below (dir path : String) : Prop :=
  ∃ rest, rest ≠ [] ∧ (∀ e ∈ rest, Named e) ∧ path = written (isAbs dir) (cleaned dir ++ rest)

/-- What the stack of `clean` looks like: names, and under them the steps up that are left. -/
def Climbs (es : List String) : Prop :=
  ∃ names k, es = names ++ replicate k ".." ∧ ∀ e ∈ names, Named e

theorem cleanElement_climbs (h : Climbs es) (he : '/' ∉ e.toList) :
    Climbs (cleanElement rooted es e) := by
  obtain ⟨names, k, rfl, hnames⟩ := h
  unfold cleanElement
  by_cases hskip : e = "" ∨ e = "."
  · rw [if_pos hskip]
    exact ⟨names, k, rfl, hnames⟩
  rw [if_neg hskip]
  by_cases hup : e = ".."
  · rw [if_pos hup]
    cases names with
    | cons last names =>
      -- a name is taken back
      have hlast : last ≠ ".." := (hnames last mem_cons_self).2.2.1
      rw [cons_append]
      dsimp only
      rw [if_neg hlast]
      exact ⟨names, k, rfl, (forall_mem_cons.1 hnames).2⟩
    | nil =>
      cases k with
      | zero =>
        cases rooted with
        | true => exact ⟨[], 0, rfl, hnames⟩
        | false => exact ⟨[], 1, rfl, hnames⟩
      | succ k => exact ⟨[], k + 2, rfl, hnames⟩
  · rw [if_neg hup]
    refine ⟨e :: names, k, rfl, ?_⟩
    intro x hx
    rcases mem_cons.1 hx with rfl | hx
    · exact ⟨fun h => hskip (.inl h), fun h => hskip (.inr h), hup, he⟩
    · exact hnames x hx

theorem foldl_climbs (rooted : Bool) (h : Climbs es) (hrest : ∀ e ∈ rest, '/' ∉ e.toList) :
    Climbs (rest.foldl (cleanElement rooted) es) := by
  induction rest generalizing es with
  | nil => exact h
  | cons e rest ih =>
    exact ih (cleanElement_climbs h (hrest e mem_cons_self))
      (forall_mem_cons.1 hrest).2

theorem slash_not_mem_elements (h : e ∈ elements name) : '/' ∉ e.toList := by
  obtain ⟨t, ht, rfl⟩ := mem_map.1 h
  rw [String.toList_ofList]
  exact not_mem_of_mem_splitOn ht

theorem cleaned_eq (name : String) : ∃ names k, cleaned name = replicate k ".." ++ names ∧
    ∀ e ∈ names, Named e := by
  have hstart : Climbs [] := ⟨[], 0, rfl, nofun⟩
  have hslash : ∀ e ∈ elements name, '/' ∉ e.toList := fun _ he => slash_not_mem_elements he
  obtain ⟨names, k, hes, hnames⟩ := foldl_climbs (isAbs name) hstart hslash
  refine ⟨names.reverse, k, ?_, fun e he => hnames e (mem_reverse.1 he)⟩
  rw [cleaned, hes, reverse_append, reverse_replicate]

theorem foldl_named (hrest : ∀ e ∈ rest, Named e) :
    rest.foldl (cleanElement rooted) es = rest.reverse ++ es := by
  induction rest generalizing es with
  | nil => rfl
  | cons e rest ih =>
    obtain ⟨hempty, hdot, hup, -⟩ := hrest e mem_cons_self
    have hpush : cleanElement rooted es e = e :: es := by simp [cleanElement, hempty, hdot, hup]
    rw [foldl_cons, hpush, ih (forall_mem_cons.1 hrest).2]
    simp

theorem elements_intercalate (hne : rest ≠ []) (hrest : ∀ e ∈ rest, '/' ∉ e.toList) :
    elements ("/".intercalate rest) = rest := by
  have hmem : ∀ l ∈ rest.map String.toList, '/' ∉ l := by
    intro l hl
    obtain ⟨e, he, rfl⟩ := mem_map.1 hl
    exact hrest e he
  have hslash : "/".toList = ['/'] := rfl
  rw [elements, String.toList_intercalate, hslash, splitOn_intercalate _ hmem (by simpa using hne), map_map]
  exact (map_congr_left fun e _ => String.ofList_toList).trans (map_id rest)

theorem elements_append (dir name : String) :
    elements (dir ++ "/" ++ name) = elements dir ++ elements name := by
  have htext : (dir ++ "/" ++ name).toList = dir.toList ++ '/' :: name.toList := by simp
  rw [elements, htext, splitOn_append_cons_self, map_append]
  rfl

theorem isAbs_append (hdir : dir ≠ "") (name : String) : isAbs (dir ++ "/" ++ name) = isAbs dir := by
  cases hl : dir.toList with
  | nil => exact absurd (String.toList_eq_nil_iff.1 hl) hdir
  | cons c cs => simp [isAbs, hl]

theorem join_eq_written (dir : String) (hname : name ≠ "") (habs : isAbs name = false) :
    join dir name =
      written (isAbs dir) ((elements name).foldl (cleanElement (isAbs dir)) (cleaned dir).reverse).reverse := by
  by_cases hdir : dir = ""
  · subst hdir
    rw [join, if_neg (fun h => hname h.2), if_pos rfl, clean_eq_written, cleaned, habs]
    rfl
  · rw [join, if_neg (fun h => hdir h.1), if_neg hdir, clean_eq_written, cleaned, isAbs_append hdir,
      elements_append, foldl_append, cleaned, reverse_reverse]

theorem fileName_eq_ok {l : Layer} (h : fileName l = .ok name) : name = l.title ∧ name ≠ "" ∧
    isAbs name = false ∧ name = clean name ∧ ['.', '.'].isPrefixOf name.toList = false := by
  unfold fileName at h
  split at h
  · cases h
  rename_i hempty
  split at h
  · cases h
  rename_i hchecks
  obtain rfl := Except.ok.inj h
  rw [not_eq_true, or_eq_false_iff, or_eq_false_iff, bne_eq_false_iff_eq] at hchecks
  exact ⟨rfl, hempty, hchecks.1.1, hchecks.1.2, hchecks.2⟩

theorem elements_named (habs : isAbs name = false) (hclean : name = clean name)
    (hup : ['.', '.'].isPrefixOf name.toList = false) (hdot : name ≠ ".") :
    elements name ≠ [] ∧ ∀ e ∈ elements name, Named e := by
  obtain ⟨names, k, hcleaned, hnames⟩ := cleaned_eq name
  have htext : name = written false (cleaned name) := by rw [← habs, ← clean_eq_written, ← hclean]
  have hne : cleaned name ≠ [] := by
    intro hnil
    rw [hnil] at htext
    exact hdot htext
  rw [written, if_neg Bool.false_ne_true, if_neg hne] at htext
  cases k with
  | succ k =>
    -- a step up that is left stands first
    rw [hcleaned, replicate_succ, cons_append] at htext
    have hslash : "/".toList = ['/'] := rfl
    have hfirst : ['.', '.'] <+: name.toList := by
      rw [htext, String.toList_intercalate, hslash, map_cons, intercalate_cons]
      exact prefix_append ..
    exact absurd ( isPrefixOf_iff_prefix.2 hfirst) (by rw [hup]; exact Bool.false_ne_true)
  | zero =>
    have hcleaned : cleaned name = names := hcleaned
    have helements : elements name = names := by
      rw [htext, hcleaned]
      exact elements_intercalate (hcleaned ▸ hne) fun e he => (hnames e he).2.2.2
    rw [helements]
    exact ⟨hcleaned ▸ hne, hnames⟩

theorem join_named (dir : String) (hname : name ≠ "") (habs : isAbs name = false)
    (hnamed : ∀ e ∈ elements name, Named e) :
    join dir name = written (isAbs dir) (cleaned dir ++ elements name) := by
  rw [join_eq_written dir hname habs, foldl_named hnamed, reverse_append, reverse_reverse, reverse_reverse]

def Left (e : String) : Prop := e ≠ "" ∧ e ≠ "." ∧ '/' ∉ e.toList

theorem Climbs.left (h : Climbs es) : ∀ e ∈ es, Left e := by
  obtain ⟨names, k, rfl, hnames⟩ := h
  intro e he
  rcases mem_append.1 he with he | he
  · exact ⟨(hnames e he).1, (hnames e he).2.1, (hnames e he).2.2.2⟩
  · rw [eq_of_mem_replicate he]
    exact ⟨by decide, by decide, by decide⟩

theorem climbs_cleaned (dir : String) : Climbs (cleaned dir).reverse := by
  obtain ⟨names, k, hcleaned, hnames⟩ := cleaned_eq dir
  refine ⟨names.reverse, k, ?_, fun e he => hnames e (mem_reverse.1 he)⟩
  rw [hcleaned, reverse_append, reverse_replicate]

theorem elements_written (hes : ∀ e ∈ es, Left e) :
    elements (written rooted es) = (if rooted then [""] else []) ++
      if es = [] then [if rooted then "" else "."] else es := by
  have hparts : es ≠ [] → elements ("/".intercalate es) = es := by
    intro hne
    exact elements_intercalate hne fun e he => (hes e he).2.2
  cases rooted with
  | false =>
    by_cases hnil : es = []
    · subst hnil
      decide
    · simpa [written, hnil] using hparts hnil
  | true =>
    have happend := elements_append "" ("/".intercalate es)
    have hempty : elements "" = [""] := by decide
    rw [hempty] at happend
    by_cases hnil : es = []
    · subst hnil
      decide
    · rw [hparts hnil] at happend
      simpa [written, hnil] using happend

theorem written_inj {es' : List String} (hes : ∀ e ∈ es, Left e) (hes' : ∀ e ∈ es', Left e)
    (h : written rooted es = written rooted es') : es = es' := by
  have heq := congrArg elements h
  rw [elements_written hes, elements_written hes', append_cancel_left_eq] at heq
  have hmarker : ¬ Left (if rooted then "" else ".") := by
    intro hl
    cases rooted with
    | true => exact hl.1 rfl
    | false => exact hl.2.1 rfl
  by_cases hnil : es = []
  · by_cases hnil' : es' = []
    · rw [hnil, hnil']
    · rw [if_pos hnil, if_neg hnil'] at heq
      exact absurd (hes' _ (heq ▸ mem_singleton_self _)) hmarker
  · by_cases hnil' : es' = []
    · rw [if_neg hnil, if_pos hnil'] at heq
      exact absurd (hes _ (heq ▸ mem_singleton_self _)) hmarker
    · rwa [if_neg hnil, if_neg hnil'] at heq

theorem isAbs_written (hes : ∀ e ∈ es, Left e) : isAbs (written rooted es) = rooted := by
  cases rooted with
  | true => simp [isAbs, written]
  | false =>
    rw [eq_false_iff]
    intro habs
    obtain ⟨t, ht⟩ : ∃ t, (written false es).toList = '/' :: t := by
      cases hl : (written false es).toList with
      | nil => simp [isAbs, hl] at habs
      | cons c t => exact ⟨t, by simpa [isAbs, hl] using habs⟩
    have hmem : "" ∈ elements (written false es) := by
      rw [elements, ht, splitOn_cons_eq_if_modifyHead, if_pos BEq.rfl]
      exact mem_cons_self
    rw [elements_written hes, if_neg Bool.false_ne_true, nil_append] at hmem
    split at hmem
    · exact absurd hmem (by decide)
    · exact (hes "" hmem).1 rfl

theorem Named.left (h : Named e) : Left e := ⟨h.1, h.2.1, h.2.2.2⟩

theorem left_append (dir : String) (hrest : ∀ e ∈ rest, Named e) : ∀ e ∈ cleaned dir ++ rest, Left e := by
  intro e he
  rcases mem_append.1 he with he | he
  · exact (climbs_cleaned dir).left e (mem_reverse.2 he)
  · exact (hrest e he).left

theorem ne_directory (dir : String) (hne : rest ≠ []) (hrest : ∀ e ∈ rest, Named e) :
    written (isAbs dir) (cleaned dir ++ rest) ≠ clean dir := by
  intro h
  have hleft : ∀ e ∈ cleaned dir, Left e := fun e he => (climbs_cleaned dir).left e (mem_reverse.2 he)
  have heq := written_inj (left_append dir hrest) hleft (h.trans (clean_eq_written dir))
  exact hne (append_right_eq_self.1 heq)

theorem cleanElement_up (rooted : Bool) (es : List String) :
    (cleanElement rooted es "..").length ≤ es.length ∨ cleanElement rooted es ".." = ".." :: es := by
  cases es with
  | nil => cases rooted <;> simp [cleanElement]
  | cons last es => by_cases hl : last = ".." <;> simp [cleanElement, hl]

theorem ne_parent (dir : String) (hne : rest ≠ []) (hrest : ∀ e ∈ rest, Named e) :
    written (isAbs dir) (cleaned dir ++ rest) ≠ join dir ".." := by
  intro h
  have hup : elements ".." = [".."] := by decide
  rw [join_eq_written dir (by decide) (by decide), hup] at h
  have hclimbs : Climbs (cleanElement (isAbs dir) (cleaned dir).reverse "..") :=
    cleanElement_climbs (climbs_cleaned dir) (by decide)
  have heq := written_inj (left_append dir hrest) (fun e he => hclimbs.left e (mem_reverse.1 he)) h
  have hstack : rest.reverse ++ (cleaned dir).reverse =
      cleanElement (isAbs dir) (cleaned dir).reverse ".." := by
    rw [← reverse_append, heq, reverse_reverse]
  rcases cleanElement_up (isAbs dir) (cleaned dir).reverse with hless | hmore
  · rw [← hstack, length_append, length_reverse] at hless
    have hpos : 0 < rest.length := length_pos_iff.2 hne
    omega
  · rw [hmore] at hstack
    have hlast : rest.reverse = [".."] := append_cancel_right (hstack.trans singleton_append.symm)
    have hmem : ".." ∈ rest := mem_reverse.1 (hlast ▸ mem_singleton_self _)
    exact (hrest ".." hmem).2.2.1 rfl

theorem titles_of_mapM {ls : List Layer} {files : List String} (h : ls.mapM fileName = .ok files) :
    files = ls.map Layer.title ∧ ∀ l ∈ ls, fileName l = .ok l.title := by
  induction ls generalizing files with
  | nil =>
    cases h
    exact ⟨rfl, fun _ hl => by cases hl⟩
  | cons l ls ih =>
    rw [mapM_cons] at h
    cases hl : fileName l with
    | error err =>
      rw [hl] at h
      cases h
    | ok first =>
      cases hls : ls.mapM fileName with
      | error err =>
        rw [hl, hls] at h
        cases h
      | ok others =>
        rw [hl, hls] at h
        obtain rfl : first :: others = files := Except.ok.inj h
        obtain ⟨rfl, htitles⟩ := ih hls
        obtain rfl := (fileName_eq_ok hl).1
        refine ⟨rfl, fun x hx => ?_⟩
        rcases mem_cons.1 hx with rfl | hx
        · exact hl
        · exact htitles x hx

theorem join_dot (dir : String) : join dir "." = clean dir := by
  have hdot : elements "." = ["."] := by decide
  rw [join_eq_written dir (by decide) (by decide), hdot, clean_eq_written]
  simp [cleanElement]

theorem artifactFiles_below (m : Manifest) (files : List String) (dir : String)
    (h : artifactFiles m = .ok files) :
    (∀ name ∈ files,
      Below dir (join dir name) ∧ join dir name ≠ clean dir ∧ join dir name ≠ join dir ".." ∧
        isAbs (join dir name) = isAbs dir) ↔ ∀ l ∈ m.layers, l.title ≠ "." := by
  unfold artifactFiles at h
  split at h
  · cases h
  obtain ⟨rfl, htitles⟩ := titles_of_mapM h
  rw [forall_mem_map]
  constructor
  · intro hbelow l hl htitle
    obtain ⟨-, hdir, -⟩ := hbelow l hl
    exact hdir (htitle ▸ join_dot dir)
  · intro hdot l hl
    obtain ⟨-, hempty, habs, hclean, hup⟩ := fileName_eq_ok (htitles l hl)
    obtain ⟨hne, hnamed⟩ := elements_named habs hclean hup (hdot l hl)
    rw [join_named dir hempty habs hnamed]
    exact ⟨⟨_, hne, hnamed, rfl⟩, ne_directory dir hne hnamed, ne_parent dir hne hnamed,
      isAbs_written (left_append dir hnamed)⟩

theorem artifactFiles_below_sample :
    join "../images" "sysupdate/k8s.raw" = "../images/sysupdate/k8s.raw" ∧
    Below "../images" (join "../images" "sysupdate/k8s.raw") :=
  ⟨by decide +kernel, ((artifactFiles_below
    ⟨guestImageType, [⟨"sha256:1", ".hidden..efi", []⟩, ⟨"sha256:2", "sysupdate/k8s.raw", []⟩]⟩
    [".hidden..efi", "sysupdate/k8s.raw"] "../images" (by decide +kernel)).2 (by decide +kernel)
    "sysupdate/k8s.raw" (by decide)).1⟩

theorem artifactFiles_names_directory :
    artifactFiles ⟨guestImageType, [⟨"sha256:1", ".", []⟩]⟩ = .ok ["."] ∧
    join "/var/lib/images" "." = "/var/lib/images" := by
  decide +kernel

end VmManager.GuestImage
