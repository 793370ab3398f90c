import Mathlib.Algebra.Order.Floor.Div
import Mathlib.Data.List.TakeWhile
import Mathlib.GroupTheory.GroupAction.Ring
import VmManager.Encoding.Options
import VmManager.Images.Versions

/-! The arguments for a QEMU before 9.2, which knows reconnect=<seconds> in place of reconnect-ms=. The values of
-netdev are rewritten as text, by a regular expression whose match takes the separators with it. -/
namespace VmManager.Runtime.Compat
open Encoding Images List

structure Version where
  major : Nat
  minor : Nat
deriving DecidableEq

def Version.less (v o : Version) : Bool := v.major < o.major || (v.major == o.major && v.minor < o.minor)

def reconnectMSSince : Version := ⟨9, 2⟩

def reconnectMS : Text := "reconnect-ms=".toList
def reconnect : Text := "reconnect=".toList
def netdevFlag : Text := "-netdev".toList

def groupEnd : Text → Option Text
  | [] => some []
  | ',' :: _ => some [',']
  | _ => none

def matchOption (t : Text) : Option (Text × Text) :=
  if reconnectMS.isPrefixOf t then
    let rest := t.drop reconnectMS.length
    if rest.takeWhile isDigit = [] then none
    else (groupEnd (rest.dropWhile isDigit)).map fun e => (rest.takeWhile isDigit, e)
  else none

def wrap (n : Int) : Int := n.bmod (2 ^ 64)

def seconds (digits : Text) : Nat := (max 1 ((wrap ((atoi digits).1 + 999)).tdiv 1000)).toNat

def itoa (n : Nat) : Text := Nat.toDigits 10 n

/-- The text with the matches replaced, from a position on that `(^|,)` matches up to if `free`: the start of
the text or behind a comma. The comma at the end of a match is part of it, so the next position is not free.
`skip` characters are still part of the match before. -/
def replaceFrom (free : Bool) : Nat → Text → Text
  | _, [] => []
  | skip + 1, _ :: t => replaceFrom false skip t
  | 0, c :: t => match (if free then matchOption (c :: t) else none) with
    | some (digits, e) => reconnect ++ itoa (seconds digits) ++ e ++
        replaceFrom false (reconnectMS.length + digits.length + e.length - 1) t
    | none => c :: replaceFrom (c = ',') 0 t

def replaceAll (t : Text) : Text := replaceFrom true 0 t

def rewriteArgs : List Text → List Text
  | a :: b :: args => if a = netdevFlag then a :: rewriteArgs (replaceAll b :: args) else a :: rewriteArgs (b :: args)
  | args => args
termination_by args => args.length

def compatArgs (args : List Text) (v : Version) : List Text :=
  if v.less reconnectMSSince then rewriteArgs args else args

/-! What the rewriting is for, on the options of a value. -/

def millis (o : Text) : Option Text :=
  match matchOption o with
  | some (digits, []) => some digits
  | _ => none

def rewriteOption (o : Text) : Text :=
  match millis o with
  | some digits => reconnect ++ itoa (max 1 (digitsValue digits ⌈/⌉ 1000))
  | none => o

/-- The pattern matches nowhere behind a literal comma of the option. -/
def Plain (o : Text) : Prop := ∀ s, ',' :: s <:+ o → matchOption s = none

/-- The pattern matches whole options only, no option reconnect-ms=N follows another one, and the numbers fit. -/
structure Rewritable (opts : List Text) : Prop where
  before : ∀ o ∈ opts, Plain o
  behind : ∀ o ∈ opts, ∀ digits e, matchOption o = some (digits, e) → e = []
  apart : opts.IsChain fun o o' => (millis o).isSome → millis o' = none
  fits : ∀ o ∈ opts, ∀ digits, millis o = some digits → digitsValue digits + 999 ≤ maxInt

section scan
variable {o t u w tail digits : Text} {opts : List Text} {free : Bool}

theorem comma_not_digit : isDigit ',' = false := by decide

def Ends (tail : Text) : Prop := tail = [] ∨ ∃ u, tail = ',' :: u

theorem prefix_escape (hw : ',' ∉ w) (htail : Ends tail) :
    w <+: escape ',' o ++ tail ↔ w <+: o := by
  induction w generalizing o with
  | nil => simp
  | cons c w ih =>
    have hc : c ≠ ',' := fun heq => hw (heq ▸ mem_cons_self)
    have hw' : ',' ∉ w := fun hm => hw (mem_cons_of_mem c hm)
    cases o with
    | nil =>
      rcases htail with rfl | ⟨u, rfl⟩
      · simp
      · simp [hc]
    | cons d o =>
      by_cases hd : d = ','
      · subst hd
        simp [hc]
      · rw [escape_cons_of_ne hd, cons_append, cons_prefix_cons, cons_prefix_cons, ih hw']

theorem takeWhile_escape (htail : Ends tail) :
    (escape ',' o ++ tail).takeWhile isDigit = o.takeWhile isDigit := by
  induction o with
  | nil =>
    rcases htail with rfl | ⟨u, rfl⟩
    · rfl
    · simp [comma_not_digit]
  | cons c o ih =>
    by_cases hc : c = ','
    · subst hc
      simp [comma_not_digit]
    · rw [escape_cons_of_ne hc, cons_append, takeWhile_cons, takeWhile_cons, ih]

theorem dropWhile_escape (htail : Ends tail) :
    (escape ',' o ++ tail).dropWhile isDigit = escape ',' (o.dropWhile isDigit) ++ tail := by
  induction o with
  | nil =>
    rcases htail with rfl | ⟨u, rfl⟩
    · rfl
    · simp [comma_not_digit]
  | cons c o ih =>
    by_cases hc : c = ','
    · subst hc
      simp [comma_not_digit]
    · rw [escape_cons_of_ne hc, cons_append, dropWhile_cons, dropWhile_cons, ih]
      split
      · rfl
      · rw [escape_cons_of_ne hc, cons_append]

theorem notMem_reconnectMS : ',' ∉ reconnectMS := by decide

theorem matchOption_escape (htail : Ends tail) : matchOption (escape ',' o ++ tail) =
    (matchOption o).map fun m => (m.1, if m.2 = [] then tail.take 1 else m.2) := by
  by_cases hpre : reconnectMS <+: o
  · obtain ⟨r, rfl⟩ := hpre
    have htext : escape ',' (reconnectMS ++ r) ++ tail = reconnectMS ++ (escape ',' r ++ tail) := by
      rw [escape_append, escape_of_notMem notMem_reconnectMS, append_assoc]
    rw [htext]
    simp only [matchOption, isPrefixOf_iff_prefix, prefix_append, if_true, drop_left,
      takeWhile_escape htail, dropWhile_escape htail]
    by_cases hds : r.takeWhile isDigit = []
    · simp [hds]
    · simp only [if_neg hds]
      cases hrest : r.dropWhile isDigit with
      | nil =>
        rcases htail with rfl | ⟨u, rfl⟩
        · simp [groupEnd]
        · simp [groupEnd]
      | cons c rest =>
        by_cases hc : c = ','
        · subst hc
          simp [groupEnd]
        · simp [escape_cons_of_ne hc, groupEnd, hc]
  · have hpre' : ¬ reconnectMS <+: escape ',' o ++ tail := fun h => hpre ((prefix_escape notMem_reconnectMS htail).1 h)
    simp [matchOption, hpre, hpre']

theorem matchOption_escape_none (htail : Ends tail) : matchOption (escape ',' o ++ tail) = none ↔ matchOption o = none := by
  rw [matchOption_escape htail, Option.map_eq_none_iff]

theorem prefix_of_matchOption {m : Text × Text} (h : matchOption t = some m) : reconnectMS <+: t := by
  unfold matchOption at h
  split at h
  · exact isPrefixOf_iff_prefix.1 ‹_›
  · cases h

theorem millis_eq_some (h : millis o = some digits) :
    o = reconnectMS ++ digits ∧ matchOption o = some (digits, []) ∧ digits ≠ [] ∧ ∀ c ∈ digits, isDigit c = true := by
  unfold millis at h
  split at h <;> cases h
  rename_i ds hm
  have hmatch := hm
  unfold matchOption at hm
  split at hm
  · rename_i hpre
    obtain ⟨r, rfl⟩ := isPrefixOf_iff_prefix.1 hpre
    simp only [drop_left] at hm
    split at hm
    · cases hm
    rename_i hne
    obtain ⟨e, he, heq⟩ := Option.map_eq_some_iff.1 hm
    cases heq
    have hrest : r.dropWhile isDigit = [] := by
      cases hd : r.dropWhile isDigit with
      | nil => rfl
      | cons c rest =>
        rw [hd] at he
        unfold groupEnd at he
        split at he
        · cases ‹_ :: _ = []›
        · cases he
        · cases he
    have hr := takeWhile_append_dropWhile (p := isDigit) (l := r)
    rw [hrest, append_nil] at hr
    exact ⟨by rw [hr], hmatch, hne, fun c hc => mem_takeWhile_imp hc⟩
  · cases hm

theorem notMem_of_millis (h : millis o = some digits) : ',' ∉ o := by
  obtain ⟨heq, -, -, hdigits⟩ := millis_eq_some h
  rw [heq, mem_append]
  rintro (h | h)
  · exact notMem_reconnectMS h
  · exact absurd (hdigits ',' h) (by simp [comma_not_digit])

theorem replaceFrom_skip (skip : Nat) (t : Text) : replaceFrom false skip t = replaceFrom false 0 (t.drop skip) := by
  induction skip generalizing t with
  | zero => rfl
  | succ skip ih =>
    cases t with
    | nil => simp [replaceFrom]
    | cons c t => rw [replaceFrom, ih, drop_succ_cons]

theorem replaceFrom_comma (free : Bool) (t : Text) :
    replaceFrom free 0 (',' :: t) = ',' :: replaceFrom true 0 t := by
  cases free <;> rfl

theorem replaceFrom_of_none (h : free = true → matchOption t = none) :
    replaceFrom free 0 t = replaceFrom false 0 t := by
  cases t with
  | nil => rfl
  | cons c t =>
    cases free with
    | false => rfl
    | true =>
      rw [replaceFrom, replaceFrom, h rfl]
      rfl

theorem replaceFrom_some {m : Text × Text} (h : matchOption t = some m) : ∃ v, replaceFrom true 0 t = reconnect ++ v := by
  cases t with
  | nil => cases h
  | cons c t =>
    rw [replaceFrom]
    simp only [if_true, h, append_assoc]
    exact ⟨_, rfl⟩

theorem replaceFrom_ends (htail : Ends tail) : replaceFrom free 0 tail = replaceFrom false 0 tail := by
  rcases htail with rfl | ⟨u, rfl⟩
  · rfl
  · rw [replaceFrom_comma, replaceFrom_comma]

theorem Plain.of_cons {c : Char} (h : Plain (c :: o)) : Plain o := fun s hs => h s (hs.trans (suffix_cons c o))

theorem plain_of_notMem (h : ',' ∉ o) : Plain o := fun _ hs => absurd (hs.subset mem_cons_self) h

theorem replaceFrom_pass (htail : Ends tail) (hplain : Plain o) (hfree : free = true → matchOption o = none) :
    replaceFrom free 0 (escape ',' o ++ tail) = escape ',' o ++ replaceFrom false 0 tail := by
  induction o generalizing free with
  | nil => exact replaceFrom_ends htail
  | cons c o ih =>
    by_cases hc : c = ','
    · subst hc
      rw [escape_sep, cons_append, cons_append, replaceFrom_comma, replaceFrom_comma,
        ih hplain.of_cons fun _ => hplain o suffix_rfl]
      rfl
    · rw [replaceFrom_of_none fun hf => (matchOption_escape_none htail).2 (hfree hf), escape_cons_of_ne hc, cons_append,
        replaceFrom]
      simp only [hc, decide_false, Bool.false_eq_true, if_false]
      rw [ih hplain.of_cons fun h => absurd h Bool.false_ne_true]
      rfl

theorem not_prefix_reconnect (t : Text) : ¬ reconnectMS <+: reconnect ++ t := by
  intro hp
  have hten : "reconnect-".toList <+: reconnect ++ t :=
    (show "reconnect-".toList <+: reconnectMS by decide).trans hp
  have heq : "reconnect-".toList = (reconnect ++ t).take 10 := prefix_iff_eq_take.1 hten
  rw [take_left' (by rfl)] at heq
  exact absurd heq (by decide)

theorem matchOption_reconnect (t : Text) : matchOption (reconnect ++ t) = none := by
  simp [matchOption, not_prefix_reconnect]

theorem plain_of_pass (htail : Ends tail) (h : replaceFrom free 0 (escape ',' o ++ tail) = escape ',' o ++ u) :
    Plain o ∧ (free = true → matchOption o = none) ∧ replaceFrom false 0 tail = u := by
  induction o generalizing free with
  | nil => exact ⟨plain_of_notMem (by simp), fun _ => rfl, (replaceFrom_ends htail).symm.trans h⟩
  | cons c o ih =>
    by_cases hc : c = ','
    · subst hc
      rw [escape_sep, cons_append, cons_append, cons_append, cons_append, replaceFrom_comma, replaceFrom_comma] at h
      obtain ⟨hplain, hnone, htail'⟩ := ih (cons.inj (cons.inj h).2).2
      refine ⟨fun s hs => ?_, fun _ => ?_, htail'⟩
      · rcases suffix_cons_iff.1 hs with heq | hs
        · rw [(cons.inj heq).2]
          exact hnone rfl
        · exact hplain s hs
      · cases hm : matchOption (',' :: o) with
        | none => rfl
        | some m =>
          obtain ⟨r, hr⟩ := prefix_of_matchOption hm
          exact absurd (cons.inj hr).1 (by decide)
    · have hfree : free = true → matchOption (c :: o) = none := by
        rintro rfl
        cases hm : matchOption (c :: o) with
        | none => rfl
        | some m =>
          obtain ⟨r, hr⟩ := prefix_of_matchOption hm
          have hmatch := matchOption_escape (o := c :: o) htail
          rw [hm] at hmatch
          obtain ⟨v, hv⟩ := replaceFrom_some hmatch
          rw [hv, ← hr, escape_append, escape_of_notMem notMem_reconnectMS, append_assoc] at h
          exact absurd ⟨_, h.symm⟩ (not_prefix_reconnect v)
      rw [replaceFrom_of_none fun hf => (matchOption_escape_none htail).2 (hfree hf), escape_cons_of_ne hc, cons_append,
        cons_append, replaceFrom] at h
      simp only [hc, decide_false, Bool.false_eq_true, if_false] at h
      obtain ⟨hplain, -, htail'⟩ := ih (cons.inj h).2
      refine ⟨fun s hs => ?_, hfree, htail'⟩
      rcases suffix_cons_iff.1 hs with heq | hs
      · exact absurd (cons.inj heq).1.symm hc
      · exact hplain s hs

theorem replaceFrom_match (htail : Ends tail) (ho : millis o = some digits) :
    replaceFrom true 0 (escape ',' o ++ tail) =
      reconnect ++ itoa (seconds digits) ++ tail.take 1 ++ replaceFrom false 0 (tail.drop 1) := by
  obtain ⟨heq, hm, -, -⟩ := millis_eq_some ho
  have hmatch : matchOption (escape ',' o ++ tail) = some (digits, tail.take 1) := by
    rw [matchOption_escape htail, hm]
    rfl
  cases htext : escape ',' o ++ tail with
  | nil =>
    rw [htext] at hmatch
    cases hmatch
  | cons c t =>
    have hdrop : t.drop (reconnectMS.length + digits.length + (tail.take 1).length - 1) = tail.drop 1 := by
      rw [escape_of_notMem (notMem_of_millis ho), heq] at htext
      have hlen : (reconnectMS ++ digits).length = reconnectMS.length + digits.length := length_append
      have hpos : 0 < reconnectMS.length := by decide
      rw [← drop_succ_cons (a := c), ← htext, ← hlen]
      have hsucc : (reconnectMS ++ digits).length + (tail.take 1).length - 1 + 1 =
          (reconnectMS ++ digits).length + (tail.take 1).length := by omega
      rw [hsucc, drop_length_add_append]
      rcases htail with rfl | ⟨u, rfl⟩
      · rfl
      · rfl
    rw [htext] at hmatch
    rw [replaceFrom]
    simp only [if_true, hmatch]
    rw [replaceFrom_skip, hdrop]

end scan

section options
variable {o x t digits : Text} {opts args : List Text} {free : Bool}

theorem itoa_digit {n : Nat} {c : Char} (h : c ∈ itoa n) : c ≠ ',' := by
  have hd := Nat.isDigit_of_mem_toDigits (by decide) (by decide) h
  intro heq
  rw [heq] at hd
  exact absurd hd (by decide)

theorem atoi_digits (hne : digits ≠ []) (hd : ∀ c ∈ digits, isDigit c = true) :
    (atoi digits).1 = min (digitsValue digits) maxInt := by
  cases digits with
  | nil => exact absurd rfl hne
  | cons c ds =>
    have hc := hd c mem_cons_self
    have hminus : c ≠ '-' := fun heq => by rw [heq] at hc; exact absurd hc (by decide)
    have hplus : c ≠ '+' := fun heq => by rw [heq] at hc; exact absurd hc (by decide)
    have hunsigned : unsigned (c :: ds) = c :: ds := by
      unfold unsigned
      split
      · exact absurd (cons.inj ‹_›).1 hplus
      · exact absurd (cons.inj ‹_›).1 hminus
      · rfl
    have hall : (c :: ds).all isDigit = true := List.all_eq_true.2 hd
    simp only [atoi, hunsigned, hall, hminus, head?_cons, reduceCtorEq, Bool.true_eq_false, or_self, if_false,
      Option.some.injEq]
    split <;> simp only <;> omega

theorem seconds_eq_iff (ho : millis o = some digits) :
    seconds digits = max 1 (digitsValue digits ⌈/⌉ 1000) ↔ digitsValue digits + 999 ≤ maxInt := by
  obtain ⟨-, -, hne, hd⟩ := millis_eq_some ho
  have hmax : maxInt = 2 ^ 63 - 1 := rfl
  rw [seconds, atoi_digits hne hd, Nat.ceilDiv_eq_add_pred_div]
  by_cases hfits : digitsValue digits + 999 ≤ maxInt
  · have hwrap : wrap (min (digitsValue digits) maxInt + 999) = digitsValue digits + 999 := by
      rw [wrap, Int.bmod_eq_of_le (by omega) (by omega)]
      omega
    rw [hwrap, Int.tdiv_eq_ediv_of_nonneg (by omega)]
    exact ⟨fun _ => hfits, fun _ => by omega⟩
  · have hwrap : wrap (min (digitsValue digits) maxInt + 999) ≤ 0 := by
      unfold wrap
      rw [Int.bmod_def]
      split <;> omega
    have hdiv := Int.tdiv_nonneg (Int.neg_nonneg_of_nonpos hwrap) (show (0 : Int) ≤ 1000 by decide)
    rw [Int.neg_tdiv] at hdiv
    exact ⟨fun heq => by omega, fun h => absurd h hfits⟩

theorem notMem_rewriteOption (ho : millis o = some digits) : ',' ∉ rewriteOption o := by
  rw [rewriteOption, ho, mem_append]
  rintro (h | h)
  · exact absurd h (by decide)
  · exact itoa_digit h rfl

theorem escape_rewriteOption (ho : millis o = some digits) : escape ',' (rewriteOption o) = rewriteOption o :=
  escape_of_notMem (notMem_rewriteOption ho)

theorem itoa_injective {m n : Nat} (h : itoa m = itoa n) : m = n := by
  have hread : ∀ n, Nat.ofDigitChars 10 (itoa n) 0 = n := fun n => Nat.ofDigitChars_toDigits (by decide) (by decide)
  rw [← hread m, h, hread]

theorem append_ends_inj {tail tail' : Text} (hx : ',' ∉ x) (ho : ',' ∉ o) (htail : Ends tail) (htail' : Ends tail')
    (h : x ++ tail = o ++ tail') : x = o ∧ tail = tail' := by
  have hend : ∀ {x tail : Text}, ',' ∉ x → Ends tail → (x ++ tail).takeWhile (· ≠ ',') = x := by
    intro x tail hx htail
    rw [takeWhile_append_of_pos fun c hc => decide_eq_true (ne_of_mem_of_not_mem hc hx)]
    rcases htail with rfl | ⟨u, rfl⟩ <;> simp
  obtain rfl : x = o := by rw [← hend hx htail, h, hend ho htail']
  exact ⟨rfl, append_cancel_left h⟩

theorem Rewritable.tail (h : Rewritable (o :: opts)) : Rewritable opts where
  before x hx := h.before x (mem_cons_of_mem o hx)
  behind x hx := h.behind x (mem_cons_of_mem o hx)
  apart := h.apart.of_cons
  fits x hx := h.fits x (mem_cons_of_mem o hx)

theorem Rewritable.matchOption_none (h : Rewritable opts) (hmem : o ∈ opts) (ho : millis o = none) :
    matchOption o = none := by
  cases hm : matchOption o with
  | none => rfl
  | some m =>
    obtain ⟨digits, e⟩ := m
    obtain rfl := h.behind o hmem digits e hm
    rw [millis, hm] at ho
    cases ho

theorem replaceFrom_render (h : Rewritable (o :: opts)) (hfree : free = true ∨ millis o = none) :
    replaceFrom free 0 (render ',' (o :: opts)) = render ',' ((o :: opts).map rewriteOption) := by
  induction opts generalizing o free with
  | nil =>
    have htext : render ',' [o] = escape ',' o ++ [] := by simp [render_cons]
    have hends : Ends [] := .inl rfl
    cases ho : millis o with
    | some digits =>
      have hfree := hfree.resolve_right (by simp [ho])
      have hs := (seconds_eq_iff ho).2 (h.fits o mem_cons_self digits ho)
      rw [hfree, htext, replaceFrom_match hends ho, hs, map_singleton, render_cons, escape_rewriteOption ho]
      simp [rewriteOption, ho, replaceFrom]
    | none =>
      rw [htext, replaceFrom_pass hends (h.before o mem_cons_self) fun _ => h.matchOption_none mem_cons_self ho]
      simp [rewriteOption, ho, replaceFrom, render_cons]
  | cons x opts ih =>
    have hends : Ends (',' :: render ',' (x :: opts)) := .inr ⟨_, rfl⟩
    rw [render_cons_cons, map_cons, map_cons, render_cons_cons, ← map_cons]
    cases ho : millis o with
    | some digits =>
      have hfree := hfree.resolve_right (by simp [ho])
      have hs := (seconds_eq_iff ho).2 (h.fits o mem_cons_self digits ho)
      have hx : millis x = none := (isChain_cons_cons.1 h.apart).1 (by simp [ho])
      rw [hfree, replaceFrom_match hends ho, hs, escape_rewriteOption ho, drop_succ_cons, drop_zero,
        ih h.tail (.inr hx)]
      simp [rewriteOption, ho]
    | none =>
      rw [replaceFrom_pass hends (h.before o mem_cons_self) fun _ => h.matchOption_none mem_cons_self ho,
        replaceFrom_comma, ih h.tail (.inl rfl)]
      simp [rewriteOption, ho]

theorem scan_option {tail tail' : Text} (htail : Ends tail) (htail' : Ends tail')
    (h : replaceFrom free 0 (escape ',' o ++ tail) = escape ',' (rewriteOption o) ++ tail') :
    Plain o ∧ (millis o = none ∧ (free = true → matchOption o = none) ∧ replaceFrom false 0 tail = tail' ∨
      ∃ digits, millis o = some digits ∧ free = true ∧ digitsValue digits + 999 ≤ maxInt ∧
        tail.take 1 ++ replaceFrom false 0 (tail.drop 1) = tail') := by
  cases ho : millis o with
  | none =>
    rw [rewriteOption, ho] at h
    obtain ⟨hplain, hnone, hrest⟩ := plain_of_pass htail h
    exact ⟨hplain, .inl ⟨rfl, hnone, hrest⟩⟩
  | some digits =>
    have hcomma := notMem_of_millis ho
    rw [escape_rewriteOption ho, rewriteOption, ho, append_assoc] at h
    refine ⟨plain_of_notMem hcomma, .inr ⟨digits, rfl, ?_⟩⟩
    cases free with
    | false =>
      rw [replaceFrom_pass htail (plain_of_notMem hcomma) fun hf => absurd hf Bool.false_ne_true,
        escape_of_notMem hcomma, (millis_eq_some ho).1, append_assoc] at h
      exact absurd ⟨_, h⟩ (not_prefix_reconnect _)
    | true =>
      rw [replaceFrom_match htail ho, append_assoc, append_assoc] at h
      have hends : Ends (tail.take 1 ++ replaceFrom false 0 (tail.drop 1)) := by
        rcases htail with rfl | ⟨u, rfl⟩
        · exact .inl rfl
        · exact .inr ⟨_, rfl⟩
      obtain ⟨hnum, hrest⟩ := append_ends_inj (fun hc => itoa_digit hc rfl) (fun hc => itoa_digit hc rfl) hends htail'
        (append_cancel_left h)
      exact ⟨rfl, (seconds_eq_iff ho).1 (itoa_injective hnum), hrest⟩

theorem scan_options (h : replaceFrom free 0 (render ',' (o :: opts)) = render ',' ((o :: opts).map rewriteOption)) :
    (∀ x ∈ o :: opts, Plain x) ∧
    ((o :: opts).IsChain fun x y => (millis x).isSome → millis y = none) ∧
    (∀ x ∈ o :: opts, ∀ digits, millis x = some digits → digitsValue digits + 999 ≤ maxInt) ∧
    (free = false → millis o = none) ∧
    (free = true → (∀ x ∈ o :: opts, millis x = none) → ∀ x ∈ o :: opts, matchOption x = none) := by
  induction opts generalizing o free with
  | nil =>
    have htext : ∀ o, render ',' [o] = escape ',' o ++ [] := fun o => by simp [render_cons]
    rw [map_singleton, htext, htext] at h
    obtain ⟨hplain, hopt⟩ := scan_option (.inl rfl) (.inl rfl) h
    simp only [mem_singleton, forall_eq, List.IsChain.singleton, true_and]
    rcases hopt with ⟨ho, hnone, -⟩ | ⟨digits, ho, rfl, hfits, -⟩
    · exact ⟨hplain, fun ds hds => by simp [ho] at hds, fun _ => ho, fun hfree _ => hnone hfree⟩
    · refine ⟨hplain, fun ds hds => ?_, fun hf => absurd hf.symm Bool.false_ne_true, fun _ hno => by simp [ho] at hno⟩
      obtain rfl : digits = ds := Option.some.inj (ho.symm.trans hds)
      exact hfits
  | cons y opts ih =>
    rw [map_cons, map_cons, render_cons_cons, render_cons_cons, ← map_cons] at h
    obtain ⟨hplain, hopt⟩ := scan_option (.inr ⟨_, rfl⟩) (.inr ⟨_, rfl⟩) h
    simp only [mem_cons (a := _) (b := o), forall_eq_or_imp, isChain_cons_cons]
    rcases hopt with ⟨ho, hnone, hrest⟩ | ⟨digits, ho, rfl, hfits, hrest⟩
    · rw [replaceFrom_comma] at hrest
      obtain ⟨hbefore, hapart, hfits, -, hall⟩ := ih (cons.inj hrest).2
      exact ⟨⟨hplain, hbefore⟩, ⟨fun hs => by simp [ho] at hs, hapart⟩, ⟨fun ds hds => by simp [ho] at hds, hfits⟩,
        fun _ => ho, fun hfree hno => ⟨hnone hfree, hall rfl hno.2⟩⟩
    · obtain ⟨hbefore, hapart, hfits', hy, -⟩ := ih (cons.inj hrest).2
      refine ⟨⟨hplain, hbefore⟩, ⟨fun _ => hy rfl, hapart⟩, ⟨fun ds hds => ?_, hfits'⟩,
        fun hf => absurd hf.symm Bool.false_ne_true, fun _ hno => by simp [ho] at hno⟩
      obtain rfl : digits = ds := Option.some.inj (ho.symm.trans hds)
      exact hfits

theorem rewriteOption_cases (x : Text) : rewriteOption x = x ∨ ∃ n, rewriteOption x = reconnect ++ itoa n := by
  cases hx : millis x with
  | none => exact .inl (by rw [rewriteOption, hx])
  | some digits => exact .inr ⟨_, by rw [rewriteOption, hx]⟩

theorem head?_reconnect (t : Text) : (reconnect ++ t).head? = some 'r' := rfl

theorem head?_rewriteOption (h : x.head? ≠ some ',') : (rewriteOption x).head? ≠ some ',' := by
  rcases rewriteOption_cases x with heq | ⟨n, heq⟩
  · rw [heq]
    exact h
  · rw [heq, head?_reconnect]
    decide

theorem rewriteOption_ne_nil (h : x ≠ []) : rewriteOption x ≠ [] := by
  rcases rewriteOption_cases x with heq | ⟨n, heq⟩
  · rw [heq]
    exact h
  · rw [heq]
    exact fun hnil => absurd (head?_reconnect (itoa n)) (by rw [hnil]; decide)

theorem proper_map (h : Proper ',' opts) : Proper ',' (opts.map rewriteOption) := by
  fun_induction Proper ',' opts with
  | case1 => trivial
  | case2 x => exact head?_rewriteOption h
  | case3 x y l ih => exact ⟨rewriteOption_ne_nil h.1, head?_rewriteOption h.2.1, ih h.2.2⟩

theorem options_replaceAll (h : Rewritable (options ',' t)) :
    options ',' (replaceAll t) = (options ',' t).map rewriteOption := by
  have hproper := proper_options ',' t
  have htext := render_options ',' t
  cases hopts : options ',' t with
  | nil => exact absurd hopts (options_ne_nil ',' t)
  | cons o os =>
    rw [hopts] at h hproper htext
    have hall : replaceAll t = render ',' ((o :: os).map rewriteOption) := by
      rw [← replaceFrom_render h (.inl rfl), htext]
      rfl
    rw [hall, map_cons]
    exact options_render _ (proper_map hproper)

theorem millis_rewriteOption (o : Text) : millis (rewriteOption o) = none := by
  cases ho : millis o with
  | none => rw [rewriteOption, ho]; exact ho
  | some digits =>
    rw [rewriteOption, ho, millis, matchOption_reconnect]

theorem Rewritable.map (h : Rewritable opts) : Rewritable (opts.map rewriteOption) where
  before x hx := by
    obtain ⟨o, ho, rfl⟩ := List.mem_map.1 hx
    cases hm : millis o with
    | none =>
      rw [rewriteOption, hm]
      exact h.before o ho
    | some digits =>
      exact plain_of_notMem (notMem_rewriteOption hm)
  behind x hx digits e hm := by
    obtain ⟨o, ho, rfl⟩ := List.mem_map.1 hx
    cases hmo : millis o with
    | none =>
      rw [rewriteOption, hmo] at hm
      exact h.behind o ho digits e hm
    | some ds =>
      rw [rewriteOption, hmo] at hm
      cases hm
  apart := (pairwise_map.2 (pairwise_of_forall fun _ y _ => millis_rewriteOption y)).isChain
  fits x hx digits hm := by
    obtain ⟨o, ho, rfl⟩ := List.mem_map.1 hx
    rw [millis_rewriteOption] at hm
    cases hm

theorem rewriteOption_idem (o : Text) : rewriteOption (rewriteOption o) = rewriteOption o := by
  rw [rewriteOption, millis_rewriteOption]

theorem replaceAll_idem (h : Rewritable (options ',' t)) : replaceAll (replaceAll t) = replaceAll t := by
  have hopts := options_replaceAll h
  have hagain : Rewritable (options ',' (replaceAll t)) := by
    rw [hopts]
    exact h.map
  refine @options_inj _ _ ',' _ _ ?_
  rw [options_replaceAll hagain, hopts, List.map_map]
  exact map_congr_left fun o _ => rewriteOption_idem o

theorem rewritable_of_exact (h : options ',' (replaceAll t) = (options ',' t).map rewriteOption)
    (hidem : replaceAll (replaceAll t) = replaceAll t) : Rewritable (options ',' t) := by
  have htext := render_options ',' t
  have hout := render_options ',' (replaceAll t)
  cases hopts : options ',' t with
  | nil => exact absurd hopts (options_ne_nil ',' t)
  | cons o os =>
    rw [hopts] at h htext
    rw [h] at hout
    have hfirst : replaceFrom true 0 (render ',' (o :: os)) = render ',' ((o :: os).map rewriteOption) := by
      rw [htext, hout]
      rfl
    have hsecond : replaceFrom true 0 (render ',' ((o :: os).map rewriteOption)) =
        render ',' (((o :: os).map rewriteOption).map rewriteOption) := by
      rw [List.map_map, show rewriteOption ∘ rewriteOption = rewriteOption from funext rewriteOption_idem, hout]
      exact hidem
    obtain ⟨hbefore, hapart, hfits, -, -⟩ := scan_options hfirst
    have hnone : ∀ x ∈ (o :: os).map rewriteOption, matchOption x = none :=
      (scan_options hsecond).2.2.2.2 rfl fun x hx => by
        obtain ⟨y, -, rfl⟩ := List.mem_map.1 (show x ∈ (o :: os).map rewriteOption from hx)
        exact millis_rewriteOption y
    refine ⟨hbefore, fun x hx digits e hm => ?_, hapart, hfits⟩
    -- an option that is no reconnect-ms=N is left by the first pass and so met by the second one
    have hx' := hnone _ (List.mem_map_of_mem hx)
    cases ho : millis x with
    | none =>
      rw [rewriteOption, ho, hm] at hx'
      cases hx'
    | some ds =>
      rw [(millis_eq_some ho).2.1] at hm
      cases hm
      rfl

theorem replaceFrom_eq_or_mem (free : Bool) (t : Text) : replaceFrom free 0 t = t ∨ '=' ∈ replaceFrom free 0 t := by
  induction t generalizing free with
  | nil => exact .inl rfl
  | cons c t ih =>
    rw [replaceFrom]
    split
    · exact .inr (by simp [show '=' ∈ reconnect by decide])
    · rcases ih (decide (c = ',')) with heq | hmem
      · exact .inl (by rw [heq])
      · exact .inr (mem_cons_of_mem c hmem)

theorem replaceAll_eq_flag : replaceAll t = netdevFlag ↔ t = netdevFlag := by
  constructor
  · intro heq
    rcases replaceFrom_eq_or_mem true t with hsame | hmem
    · exact hsame.symm.trans heq
    · rw [← replaceAll, heq] at hmem
      exact absurd hmem (by decide)
  · intro heq
    rw [heq]
    decide

def ArgsRewritable (args : List Text) : Prop :=
  ∀ i t, args[i]? = some netdevFlag → args[i + 1]? = some t → Rewritable (options ',' t)

theorem length_rewriteArgs (args : List Text) : (rewriteArgs args).length = args.length := by
  fun_induction rewriteArgs args with
  | case1 b args ih => simp [ih]
  | case2 a b args hne ih => simp [ih]
  | case3 args => rfl

theorem rewriteArgs_spec (args : List Text) : (rewriteArgs args)[0]? = args[0]? ∧
    ∀ i, (rewriteArgs args)[i + 1]? =
      (args[i + 1]?).map fun b => if args[i]? = some netdevFlag then replaceAll b else b := by
  fun_induction rewriteArgs args with
  | case1 b args ih =>
    refine ⟨rfl, fun i => ?_⟩
    cases i with
    | zero => simpa using ih.1
    | succ i =>
      rw [List.getElem?_cons_succ, ih.2 i]
      cases i with
      | zero => simp [replaceAll_eq_flag]
      | succ i => simp
  | case2 a b args hne ih =>
    refine ⟨rfl, fun i => ?_⟩
    cases i with
    | zero => simpa [hne] using ih.1
    | succ i =>
      rw [List.getElem?_cons_succ, ih.2 i]
      simp
  | case3 args hargs =>
    refine ⟨rfl, fun i => ?_⟩
    cases args with
    | nil => rfl
    | cons a args =>
      cases args with
      | nil => rfl
      | cons b args => exact absurd rfl (hargs a b args)

theorem flag_rewriteArgs (args : List Text) (i : Nat) :
    (rewriteArgs args)[i]? = some netdevFlag ↔ args[i]? = some netdevFlag := by
  cases i with
  | zero => rw [(rewriteArgs_spec args).1]
  | succ i =>
    rw [(rewriteArgs_spec args).2 i]
    cases args[i + 1]? with
    | none => simp
    | some b =>
      by_cases ha : args[i]? = some netdevFlag
      · simp [ha, replaceAll_eq_flag]
      · simp [ha]

theorem rewriteArgs_idem : rewriteArgs (rewriteArgs args) = rewriteArgs args ↔
    ∀ i t, args[i]? = some netdevFlag → args[i + 1]? = some t → replaceAll (replaceAll t) = replaceAll t := by
  have hagain : ∀ i, (rewriteArgs (rewriteArgs args))[i + 1]? = (args[i + 1]?).map fun b =>
      if args[i]? = some netdevFlag then replaceAll (replaceAll b) else b := by
    intro i
    simp only [(rewriteArgs_spec _).2 i, flag_rewriteArgs, Option.map_map]
    refine congrArg (fun f => args[i + 1]?.map f) (funext fun b => ?_)
    by_cases ha : args[i]? = some netdevFlag <;> simp [ha]
  constructor
  · intro h i t hi ht
    have hsame := hagain i
    rw [h, (rewriteArgs_spec args).2 i, ht] at hsame
    simpa [hi] using hsame.symm
  · intro h
    refine ext_getElem? fun i => ?_
    cases i with
    | zero => rw [(rewriteArgs_spec _).1]
    | succ i =>
      rw [hagain, (rewriteArgs_spec args).2 i]
      cases hb : args[i + 1]? with
      | none => rfl
      | some b =>
        by_cases ha : args[i]? = some netdevFlag
        · simp [ha, h i b ha hb]
        · simp [ha]

theorem compatArgs_exact (args : List Text) (v : Version) :
    (v.less reconnectMSSince = false → compatArgs args v = args) ∧
    (v.less reconnectMSSince = true → (((compatArgs args v).length = args.length ∧
      (compatArgs args v)[0]? = args[0]? ∧
      (∀ i, args[i]? ≠ some netdevFlag → (compatArgs args v)[i + 1]? = args[i + 1]?) ∧
      (∀ i t, args[i]? = some netdevFlag → args[i + 1]? = some t →
        ∃ t', (compatArgs args v)[i + 1]? = some t' ∧ options ',' t' = (options ',' t).map rewriteOption) ∧
      compatArgs (compatArgs args v) v = compatArgs args v) ↔ ArgsRewritable args)) := by
  constructor
  · intro hv
    simp [compatArgs, hv]
  · intro hv
    have hargs : ∀ args, compatArgs args v = rewriteArgs args := fun args => by simp [compatArgs, hv]
    have hvalue : ∀ i t, args[i]? = some netdevFlag → args[i + 1]? = some t →
        (rewriteArgs args)[i + 1]? = some (replaceAll t) := by
      intro i t hi ht
      rw [(rewriteArgs_spec args).2 i, ht]
      simp [hi]
    rw [hargs, hargs, rewriteArgs_idem]
    constructor
    · rintro ⟨-, -, -, hopts, hidem⟩ i t hi ht
      obtain ⟨t', ht', heq⟩ := hopts i t hi ht
      rw [hvalue i t hi ht] at ht'
      cases ht'
      exact rewritable_of_exact heq (hidem i t hi ht)
    · intro h
      refine ⟨length_rewriteArgs args, (rewriteArgs_spec args).1, fun i hi => ?_, fun i t hi ht => ?_,
        fun i t hi ht => replaceAll_idem (h i t hi ht)⟩
      · rw [(rewriteArgs_spec args).2 i]
        simp [hi]
      · exact ⟨replaceAll t, hvalue i t hi ht, options_replaceAll (h i t hi ht)⟩

end options

namespace Sample

def old : Version := ⟨8, 2⟩

def args : List Text :=
  [netdevFlag, "stream,addr.path=/run/a,,b.sock,reconnect-ms=1500,id=net0".toList, "-no-reboot".toList]

theorem rewritable_of_forall {opts : List Text}
    (h : ∀ o ∈ opts, (∀ s ∈ o.tails, s.head? = some ',' → matchOption s.tail = none) ∧
      (matchOption o).all (fun m => m.2 = []) = true ∧
      (millis o).all (fun digits => digitsValue digits + 999 ≤ maxInt) = true)
    (hapart : opts.IsChain fun o o' => (millis o).isSome → millis o' = none) : Rewritable opts where
  before o ho s hs := (h o ho).1 (',' :: s) (mem_tails _ _ |>.2 hs) rfl
  behind o ho digits e hm := by simpa [hm] using (h o ho).2.1
  apart := hapart
  fits o ho digits hm := by simpa [hm] using (h o ho).2.2

theorem args_rewritable : ArgsRewritable args := by
  intro i t hi ht
  match i with
  | 0 =>
    cases ht
    exact rewritable_of_forall (by decide +kernel) (by decide +kernel)
  | 1 => exact absurd hi (by decide)
  | 2 => exact absurd hi (by decide)
  | i + 3 => cases hi

end Sample
open Sample

theorem compatArgs_exact_old : compatArgs args old =
      [netdevFlag, "stream,addr.path=/run/a,,b.sock,reconnect=2,id=net0".toList, "-no-reboot".toList] ∧
    compatArgs (compatArgs args old) old = compatArgs args old :=
  ⟨by decide +kernel, (((compatArgs_exact args old).2 (by decide)).2 args_rewritable).2.2.2.2⟩

theorem compatArgs_inexact :
    (∃ t ∈ compatArgs [netdevFlag, "stream,addr.path=/a,,reconnect-ms=5,id=net0".toList] old,
      options ',' t = ["stream".toList, "addr.path=/a,reconnect=1".toList, "id=net0".toList]) ∧
    compatArgs [netdevFlag, "stream,reconnect-ms=1,reconnect-ms=2".toList] old =
      [netdevFlag, "stream,reconnect=1,reconnect-ms=2".toList] ∧
    compatArgs [netdevFlag, "stream,reconnect=1,reconnect-ms=2".toList] old =
      [netdevFlag, "stream,reconnect=1,reconnect=1".toList] ∧
    compatArgs [netdevFlag, "stream,reconnect-ms=9223372036854775000".toList] old =
      [netdevFlag, "stream,reconnect=1".toList] := by
  decide +kernel

end VmManager.Runtime.Compat
