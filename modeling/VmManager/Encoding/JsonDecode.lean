import Mathlib.Algebra.Group.Int.Defs
import Mathlib.Data.Char
import Mathlib.Data.List.Lex
import Mathlib.Data.List.Sort
import VmManager.Encoding.Json

/-! Go values from JSON, as encoding/json decodes them. A member of an object belongs to the field that has its
name, in whatever case it is spelled; a field that is met again is decoded into as it is by then, so maps and
structs are merged. Null empties a map and leaves a string as it is, and a value of another type is an error.
A map is its entries, each key once. -/
namespace VmManager.Encoding.Json
open List Option Function Nat Prod

section names

/-- One character for all that differ in case only; beyond ASCII, those that have an ASCII one among them. -/
def foldChar (c : Char) : Char :=
  if c = Char.ofNat 0x17F then 'S' else if c = Char.ofNat 0x212A then 'K' else c.toUpper

def foldName (t : Text) : Text := t.map foldChar

def names (name : String) (key : Text) : Bool := foldName key = foldName name.toList

theorem toNat_toUpper (c : Char) :
    c.toUpper.toNat = if 97 ≤ c.toNat ∧ c.toNat ≤ 122 then c.toNat - 32 else c.toNat := by
  unfold Char.toUpper
  split
  · rename_i h
    have h₁ : 97 ≤ c.val.toNat := h.1
    have h₂ : c.val.toNat ≤ 122 := h.2
    have hshift : ('A'.val - 'a'.val).toNat = 4294967264 := by decide
    rw [if_pos ⟨h₁, h₂⟩]
    change (c.val + ('A'.val - 'a'.val)).toNat = c.val.toNat - 32
    rw [UInt32.toNat_add]
    omega
  · rename_i h
    rw [if_neg fun h' => h ⟨h'.1, h'.2⟩]

end names

section maps
variable {κ ν : Type} [DecidableEq κ]

def assign (m : List (κ × ν)) (k : κ) (v : ν) : List (κ × ν) := (k, v) :: m.filter fun e => e.1 ≠ k

def without (m : List (κ × ν)) (k : κ) : List (κ × ν) := m.filter fun e => e.1 ≠ k

def ofEntries (entries : List (κ × ν)) : List (κ × ν) := entries.foldl (fun m e => assign m e.1 e.2) []

def intoString (old : Text) : Json → Option Text
  | .str s => some s.unquote
  | .null => some old
  | _ => none

def intoMap (key : Text → Option κ) (elem : Json → Option ν) (old : List (κ × ν)) : Json → Option (List (κ × ν))
  | .null => some []
  | .obj members => members.foldlM (fun m e => (key e.1.unquote).bind fun k =>
      (elem e.2).map fun v => assign m k v) old
  | _ => none

/-- What a field holds after the members of a struct, if it is `zero` before them. Members of the other fields
do not touch it. -/
def field {α : Type} (name : String) (into : α → Json → Option α) (zero : α) (members : List (Literal × Json)) :
    Option α :=
  (members.filter fun m => names name m.1.unquote).foldlM (fun a m => into a m.2) zero

def rawMessages (members : List (Literal × Json)) : List (Text × Json) :=
  ofEntries (members.map fun m => (m.1.unquote, m.2))

def rawMembers (doc : List (Text × Json)) : List (Literal × Json) :=
  (doc.insertionSort fun x y => x.1 ≤ y.1).map fun e => (.quote e.1, e.2.escapeHTML)

end maps

section integers

def itoa (n : Int) : Text := if n < 0 then '-' :: toDigits 10 n.natAbs else toDigits 10 n.natAbs

def digits (t : Text) : Option Nat :=
  if t ≠ [] ∧ t.all Char.isDigit then some (ofDigitChars 10 t 0) else none

def parseInt (t : Text) : Option Int :=
  let n : Option Int := match t with
    | '-' :: t => (digits t).map fun n : Nat => -(n : Int)
    | '+' :: t => (digits t).map fun n : Nat => (n : Int)
    | t => (digits t).map fun n : Nat => (n : Int)
  n.filter fun n => -2 ^ 63 ≤ n ∧ n < 2 ^ 63

theorem digits_toDigits (n : Nat) : digits (toDigits 10 n) = some n := by
  have hne : toDigits 10 n ≠ [] := toDigits_ne_nil
  have hall : (toDigits 10 n).all Char.isDigit = true :=
    List.all_eq_true.2 fun c hc => isDigit_of_mem_toDigits (by decide) (by decide) hc
  rw [digits, if_pos ⟨hne, hall⟩, ofDigitChars_toDigits (by decide) (by decide)]

theorem parseInt_itoa {n m : Int} (h : parseInt (itoa n) = some m) : m = n := by
  have hread := digits_toDigits n.natAbs
  unfold itoa at h
  split at h
  · simp only [parseInt, hread, map_some, filter_eq_some_iff] at h
    have hm := h.1
    simp only [some.injEq] at hm
    omega
  · have hdigit : ∀ c ∈ (toDigits 10 n.natAbs).head?, c.isDigit = true := fun c hc =>
      isDigit_of_mem_toDigits (by decide) (by decide) (mem_of_mem_head? hc)
    generalize toDigits 10 n.natAbs = t at h hread hdigit
    have hplain : parseInt t = ((digits t).map fun n : Nat => (n : Int)).filter
        fun n => -2 ^ 63 ≤ n ∧ n < 2 ^ 63 := by
      unfold parseInt
      split
      · exact absurd (hdigit _ rfl) (by decide)
      · exact absurd (hdigit _ rfl) (by decide)
      · rfl
    rw [hplain, hread, map_some, filter_eq_some_iff] at h
    have hm := h.1
    simp only [some.injEq] at hm
    omega

end integers

section entries
variable {κ ν : Type} [DecidableEq κ] {m entries : List (κ × ν)} {k k' : κ} {v : ν}

theorem mem_assign {e : κ × ν} : e ∈ assign m k v ↔ e = (k, v) ∨ (e ∈ m ∧ e.1 ≠ k) := by
  simp [assign]

theorem nodup_without (h : (m.map fst).Nodup) : ((without m k).map fst).Nodup :=
  h.sublist (filter_sublist.map _)

theorem nodup_assign (h : (m.map fst).Nodup) : ((assign m k v).map fst).Nodup := by
  rw [assign, map_cons, nodup_cons]
  refine ⟨fun hmem => ?_, nodup_without h⟩
  obtain ⟨e, he, hk⟩ := List.mem_map.1 hmem
  exact absurd hk (by simpa using (mem_filter.1 he).2)

theorem nodup_ofEntries (entries : List (κ × ν)) : ((ofEntries entries).map fst).Nodup := by
  have hfold : ∀ m : List (κ × ν), (m.map fst).Nodup →
      ((entries.foldl (fun m e => assign m e.1 e.2) m).map fst).Nodup := by
    induction entries with
    | nil => exact fun m hm => hm
    | cons e entries ih => exact fun m hm => ih _ (nodup_assign hm)
  exact hfold [] nodup_nil

theorem mem_of_mem_ofEntries {e : κ × ν} (h : e ∈ ofEntries entries) : e ∈ entries := by
  have hfold : ∀ m : List (κ × ν), e ∈ entries.foldl (fun m e => assign m e.1 e.2) m → e ∈ m ∨ e ∈ entries := by
    clear h
    induction entries with
    | nil => exact fun m hm => .inl hm
    | cons x entries ih =>
      intro m hm
      rcases ih _ hm with hm | hm
      · rcases mem_assign.1 hm with rfl | ⟨hm, -⟩
        · exact .inr mem_cons_self
        · exact .inl hm
      · exact .inr (mem_cons_of_mem x hm)
  exact (hfold [] h).resolve_left nofun

theorem ofEntries_of_nodup (h : (entries.map fst).Nodup) : ofEntries entries = entries.reverse := by
  have hfold : ∀ m : List (κ × ν), (∀ e ∈ entries, ∀ e' ∈ m, e'.1 ≠ e.1) →
      entries.foldl (fun m e => assign m e.1 e.2) m = entries.reverse ++ m := by
    induction entries with
    | nil => exact fun m _ => rfl
    | cons e entries ih =>
      intro m hm
      rw [map_cons, nodup_cons] at h
      have hkeep : assign m e.1 e.2 = e :: m := by
        rw [assign, filter_eq_self.2]
        intro e' he'
        simpa using hm e mem_cons_self e' he'
      rw [foldl_cons, hkeep, ih h.2]
      · simp
      · intro x hx e' he'
        rcases mem_cons.1 he' with rfl | he'
        · intro heq
          exact h.1 (heq ▸ List.mem_map_of_mem hx)
        · exact hm x (mem_cons_of_mem e hx) e' he'
  rw [ofEntries, hfold [] fun _ _ _ => nofun, append_nil]

theorem lookup_eq_some_iff_mem (h : (m.map fst).Nodup) : m.lookup k = some v ↔ (k, v) ∈ m := by
  induction m with
  | nil => simp
  | cons e m ih =>
    obtain ⟨key, value⟩ := e
    rw [map_cons, nodup_cons] at h
    rw [lookup_cons]
    by_cases hk : k = key
    · subst hk
      have hnot : (k, v) ∉ m := fun hmem => h.1 (List.mem_map.2 ⟨(k, v), hmem, rfl⟩)
      simp [hnot, eq_comm]
    · have hbeq : (k == key) = false := by simpa using hk
      simp [hbeq, ih h.2, hk]

theorem filter_assign (P : κ → Bool) : (assign m k v).filter (fun e => P e.1) =
    if P k then assign (m.filter fun e => P e.1) k v else m.filter fun e => P e.1 := by
  by_cases hk : P k = true
  · rw [if_pos hk, assign, assign, filter_cons, if_pos hk, List.filter_filter, List.filter_filter]
    simp only [Bool.and_comm]
  · rw [if_neg hk, assign, filter_cons, if_neg hk, List.filter_filter]
    refine filter_congr fun e _ => ?_
    by_cases he : e.1 = k
    · simp [he, hk]
    · simp [he]

theorem filter_without_of_not {P : κ → Bool} (hk : P k = false) :
    (without m k).filter (fun e => P e.1) = m.filter fun e => P e.1 := by
  rw [without, List.filter_filter]
  refine filter_congr fun e _ => ?_
  by_cases he : e.1 = k
  · simp [he, hk]
  · simp [he]

theorem filter_ofEntries (entries : List (κ × ν)) (P : κ → Bool) :
    (ofEntries entries).filter (fun e => P e.1) = ofEntries (entries.filter fun e => P e.1) := by
  have hfold : ∀ m : List (κ × ν), (entries.foldl (fun m e => assign m e.1 e.2) m).filter (fun e => P e.1) =
      (entries.filter fun e => P e.1).foldl (fun m e => assign m e.1 e.2) (m.filter fun e => P e.1) := by
    induction entries with
    | nil => exact fun m => rfl
    | cons e entries ih =>
      intro m
      rw [foldl_cons, ih, filter_assign, filter_cons]
      split <;> rfl
  exact hfold []

theorem without_assign (h : k ≠ k') : without (assign m k v) k' = assign (without m k') k v := by
  rw [without, assign, assign, filter_cons, if_pos (by simpa using h), without, List.filter_filter, List.filter_filter]
  simp only [Bool.and_comm]

theorem without_comm : without (without m k) k' = without (without m k') k := by
  simp only [without, List.filter_filter, Bool.and_comm]

end entries

section spelling
variable {κ ν : Type} [DecidableEq κ]

theorem escapeHTML_obj (members : List (Literal × Json)) :
    (Json.obj members).escapeHTML = .obj (members.map fun m => (m.1.escapeHTML, m.2.escapeHTML)) := by
  rw [escapeHTML, respell, respellMembers_eq]
  rfl

theorem intoString_escapeHTML (old : Text) (j : Json) : intoString old j.escapeHTML = intoString old j := by
  cases j with
  | str s => simp [escapeHTML, respell, intoString]
  | _ => rfl

theorem intoMap_escapeHTML {key : Text → Option κ} {elem : Json → Option ν}
    (helem : ∀ j, elem j.escapeHTML = elem j) (old : List (κ × ν)) (j : Json) :
    intoMap key elem old j.escapeHTML = intoMap key elem old j := by
  cases j with
  | obj members => simp [escapeHTML_obj, intoMap, foldlM_map, helem]
  | _ => rfl

theorem field_escapeHTML {α : Type} {name : String} {into : α → Json → Option α} {zero : α}
    (hinto : ∀ a j, into a j.escapeHTML = into a j) (members : List (Literal × Json)) :
    field name into zero (members.map fun m => (m.1.escapeHTML, m.2.escapeHTML)) = field name into zero members := by
  simp [field, List.filter_map, comp_def, foldlM_map, hinto]

end spelling

section documents
variable {α : Type} {name : String} {into : α → Json → Option α} {zero : α} {doc : List (Text × Json)} {key : Text}
  {v : Json}

theorem filter_rawMembers (doc : List (Text × Json)) (P : Text → Bool) :
    ((rawMembers doc).filter fun m => P m.1.unquote).Perm
      ((doc.filter fun e => P e.1).map fun e => (.quote e.1, e.2.escapeHTML)) := by
  rw [rawMembers, List.filter_map]
  simp only [comp_def, unquote_quote]
  exact ((perm_insertionSort _ doc).filter _).map _

theorem nodup_rawMessages (members : List (Literal × Json)) : ((rawMessages members).map fst).Nodup :=
  nodup_ofEntries _

theorem filter_rawMessages {members : List (Literal × Json)} {P : Text → Bool}
    (h : ((members.filter fun m => P m.1.unquote).map fun m => m.1.unquote).Nodup) :
    (rawMessages members).filter (fun e => P e.1) =
      ((members.filter fun m => P m.1.unquote).map fun m => (m.1.unquote, m.2)).reverse := by
  have hmap : (members.map fun m => (m.1.unquote, m.2)).filter (fun e => P e.1) =
      (members.filter fun m => P m.1.unquote).map fun m => (m.1.unquote, m.2) := by
    rw [List.filter_map]
    rfl
  rw [rawMessages, filter_ofEntries, hmap, ofEntries_of_nodup]
  rwa [List.map_map]

theorem insertionSort_eq {l l' : List (Text × Json)} (h : (l.map fst).Nodup)
    (hl' : l'.Pairwise fun x y => x.1 ≤ y.1) (hperm : l.Perm l') : (l.insertionSort fun x y => x.1 ≤ y.1) = l' := by
  refine Perm.eq_of_pairwise ?_ (pairwise_insertionSort _ l) hl' ((perm_insertionSort _ l).trans hperm)
  intro x y hx hy hxy hyx
  have hx := (mem_insertionSort _).1 hx
  exact inj_on_of_nodup_map h hx (hperm.mem_iff.2 hy) (le_antisymm hxy hyx)

theorem filter_rawMembers_eq (h : (doc.map fst).Nodup) (P : Text → Bool) :
    (rawMembers doc).filter (fun m => P m.1.unquote) = rawMembers (doc.filter fun e => P e.1) := by
  rw [rawMembers, List.filter_map, rawMembers]
  simp only [comp_def, unquote_quote]
  congr 1
  refine (insertionSort_eq (h.sublist (filter_sublist.map _)) ?_ ?_).symm
  · exact (pairwise_insertionSort _ doc).filter _
  · exact ((perm_insertionSort _ doc).filter _).symm

theorem field_rawMembers (h : (doc.map fst).Nodup) : field name into zero (rawMembers doc) =
    (rawMembers (doc.filter fun e => names name e.1)).foldlM (fun a m => into a m.2) zero := by
  rw [field, filter_rawMembers_eq h]

theorem field_rawMembers_assign_of_not (h : (doc.map fst).Nodup) (hkey : names name key = false) :
    field name into zero (rawMembers (assign doc key v)) = field name into zero (rawMembers doc) := by
  rw [field_rawMembers (nodup_assign h), field_rawMembers h, filter_assign, if_neg (by simp [hkey])]

theorem field_rawMembers_without_of_not (h : (doc.map fst).Nodup) (hkey : names name key = false) :
    field name into zero (rawMembers (without doc key)) = field name into zero (rawMembers doc) := by
  rw [field_rawMembers (nodup_without h), field_rawMembers h, filter_without_of_not hkey]

theorem field_rawMembers_assign (h : (doc.map fst).Nodup) (hkey : names name key = true)
    (hlast : ∀ t, names name t = true → t ≤ key) : field name into zero (rawMembers (assign doc key v)) =
      (field name into zero (rawMembers (without doc key))).bind fun a => into a v.escapeHTML := by
  have hdoc := nodup_assign (k := key) (v := v) h
  have hfilter : (assign doc key v).filter (fun e => names name e.1) =
      (key, v) :: (without doc key).filter fun e => names name e.1 := by
    rw [assign, filter_cons, if_pos hkey, without]
  have hsort : (((key, v) :: (without doc key).filter fun e => names name e.1).insertionSort fun x y => x.1 ≤ y.1) =
      (((without doc key).filter fun e => names name e.1).insertionSort fun x y => x.1 ≤ y.1) ++ [(key, v)] := by
    refine insertionSort_eq ?_ (pairwise_append.2 ⟨pairwise_insertionSort _ _, pairwise_singleton _ _, ?_⟩) ?_
    · rw [← hfilter]
      exact hdoc.sublist (filter_sublist.map _)
    · intro x hx y hy
      rw [mem_singleton.1 hy]
      exact hlast x.1 (mem_filter.1 ((mem_insertionSort _).1 hx)).2
    · exact ((perm_insertionSort _ _).symm.cons _).trans (perm_append_singleton _ _).symm
  rw [field_rawMembers hdoc, field_rawMembers (nodup_without h), hfilter, rawMembers, hsort, map_append, foldlM_append]
  simp [rawMembers]

end documents

end VmManager.Encoding.Json
