import Mathlib.Data.List.Chain
import VmManager.Encoding.JsonText

/-! JSON values. A tree has the literals as they are spelled and the members of an object in their order, so
it is the text up to white space; that is what a `json.RawMessage` keeps of it when it is written again. What is
written indented is read back. -/
namespace VmManager.Encoding
open List Option

inductive Json where
  | null
  | bool (b : Bool)
  | num (n : Json.Number)
  | str (s : Json.Literal)
  | arr (items : List Json)
  | obj (members : List (Json.Literal × Json))

namespace Json

theorem values_induction {P : Json → Prop} (null : P .null) (bool : ∀ b, P (.bool b)) (num : ∀ n, P (.num n))
    (str : ∀ s, P (.str s)) (arr : ∀ items, (∀ j ∈ items, P j) → P (.arr items))
    (obj : ∀ members, (∀ m ∈ members, P m.2) → P (.obj members)) (j : Json) : P j := by
  refine @Json.rec P (fun items => ∀ j ∈ items, P j) (fun members => ∀ m ∈ members, P m.2) (fun m => P m.2)
    null bool num str arr obj nofun ?_ nofun ?_ (fun _ _ h => h) j
  · intro j items hj hitems
    exact forall_mem_cons.2 ⟨hj, hitems⟩
  · intro m members hm hmembers
    exact forall_mem_cons.2 ⟨hm, hmembers⟩

section writing

def separated (close : Token) : List (List Token) → List Token
  | [] => [close]
  | [ts] => ts ++ [close]
  | ts :: rest => ts ++ .comma :: separated close rest

mutual

def tokens : Json → List Token
  | .null => [.null]
  | .bool b => [.bool b]
  | .num n => [.num n]
  | .str s => [.str s]
  | .arr items => .lbracket :: separated .rbracket (itemTokens items)
  | .obj members => .lbrace :: separated .rbrace (memberTokens members)

def itemTokens : List Json → List (List Token)
  | [] => []
  | j :: items => j.tokens :: itemTokens items

def memberTokens : List (Literal × Json) → List (List Token)
  | [] => []
  | (k, j) :: members => (.str k :: .colon :: j.tokens) :: memberTokens members

end

def marshalIndent (j : Json) : Text := indent false 0 j.tokens

mutual

def respell (f : Literal → Literal) : Json → Json
  | .str s => .str (f s)
  | .arr items => .arr (respellItems f items)
  | .obj members => .obj (respellMembers f members)
  | j => j

def respellItems (f : Literal → Literal) : List Json → List Json
  | [] => []
  | j :: items => j.respell f :: respellItems f items

def respellMembers (f : Literal → Literal) : List (Literal × Json) → List (Literal × Json)
  | [] => []
  | (k, j) :: members => (f k, j.respell f) :: respellMembers f members

end

/-- The value as `json.Marshal` writes a raw message. -/
def escapeHTML (j : Json) : Json := j.respell Literal.escapeHTML

/-- The value with every string spelled in one way, so that equal values are equal trees. -/
def canonical (j : Json) : Json := j.respell fun s => .quote s.unquote

mutual

def depth : Json → Nat
  | .arr items => depthItems items + 1
  | .obj members => depthMembers members + 1
  | _ => 0

def depthItems : List Json → Nat
  | [] => 0
  | j :: items => max j.depth (depthItems items)

def depthMembers : List (Literal × Json) → Nat
  | [] => 0
  | (_, j) :: members => max j.depth (depthMembers members)

end

end writing

section reading
variable {α : Type}

def sequence (part : List Token → Option (α × List Token)) (close : Token) :
    Nat → List Token → Option (List α × List Token)
  | 0, _ => none
  | n + 1, ts => match part ts with
    | some (a, t :: rest) =>
      if t = close then some ([a], rest)
      else if t = .comma then (sequence part close n rest).map fun r => (a :: r.1, r.2)
      else none
    | _ => none

def elements (part : List Token → Option (α × List Token)) (close : Token) : List Token → Option (List α × List Token)
  | [] => none
  | t :: ts => if t = close then some ([], ts) else sequence part close (ts.length + 1) (t :: ts)

def member (part : List Token → Option (α × List Token)) : List Token → Option ((Literal × α) × List Token)
  | .str k :: .colon :: ts => (part ts).map fun r => ((k, r.1), r.2)
  | _ => none

def value : Nat → List Token → Option (Json × List Token)
  | _, .null :: ts => some (.null, ts)
  | _, .bool b :: ts => some (.bool b, ts)
  | _, .num n :: ts => some (.num n, ts)
  | _, .str s :: ts => some (.str s, ts)
  | d + 1, .lbracket :: ts => (elements (value d) .rbracket ts).map fun r => (.arr r.1, r.2)
  | d + 1, .lbrace :: ts => (elements (member (value d)) .rbrace ts).map fun r => (.obj r.1, r.2)
  | _, _ => none

def maxNestingDepth : Nat := 10000

def parse (t : Text) : Option Json :=
  match scan t.length t with
  | some ts => match value maxNestingDepth ts with
    | some (j, []) => some j
    | _ => none
  | none => none

end reading

section lists
variable {items : List Json} {members : List (Literal × Json)} {f : Literal → Literal} {d : Nat}

theorem itemTokens_eq (items : List Json) : itemTokens items = items.map tokens := by
  induction items with
  | nil => rfl
  | cons j items ih => rw [itemTokens, ih, map_cons]

theorem memberTokens_eq (members : List (Literal × Json)) :
    memberTokens members = members.map fun m => .str m.1 :: .colon :: m.2.tokens := by
  induction members with
  | nil => rfl
  | cons m members ih => rw [memberTokens, ih, map_cons]

theorem respellItems_eq (f : Literal → Literal) (items : List Json) :
    respellItems f items = items.map (respell f) := by
  induction items with
  | nil => rfl
  | cons j items ih => rw [respellItems, ih, map_cons]

theorem respellMembers_eq (f : Literal → Literal) (members : List (Literal × Json)) :
    respellMembers f members = members.map fun m => (f m.1, m.2.respell f) := by
  induction members with
  | nil => rfl
  | cons m members ih => rw [respellMembers, ih, map_cons]

theorem depthItems_le_iff : depthItems items ≤ d ↔ ∀ j ∈ items, j.depth ≤ d := by
  induction items with
  | nil => simp [depthItems]
  | cons j items ih => rw [depthItems, Nat.max_le, ih, forall_mem_cons]

theorem depthMembers_le_iff : depthMembers members ≤ d ↔ ∀ m ∈ members, m.2.depth ≤ d := by
  induction members with
  | nil => simp [depthMembers]
  | cons m members ih => rw [depthMembers, Nat.max_le, ih, forall_mem_cons]

theorem depth_arr_le_iff : (Json.arr items).depth ≤ d + 1 ↔ ∀ j ∈ items, j.depth ≤ d := by
  rw [depth, Nat.add_le_add_iff_right, depthItems_le_iff]

theorem depth_obj_le_iff : (Json.obj members).depth ≤ d + 1 ↔ ∀ m ∈ members, m.2.depth ≤ d := by
  rw [depth, Nat.add_le_add_iff_right, depthMembers_le_iff]

end lists

section spelling
variable {f g : Literal → Literal}

theorem respell_respell (h : ∀ s, f (g s) = f s) (j : Json) : (j.respell g).respell f = j.respell f := by
  induction j using values_induction with
  | null => rfl
  | bool b => rfl
  | num n => rfl
  | str s => simp [respell, h]
  | arr items ih => simpa [respell, respellItems_eq] using ih
  | obj members ih =>
    have hmembers : ∀ k j, (k, j) ∈ members → (j.respell g).respell f = j.respell f :=
      fun k j hm => ih (k, j) hm
    simpa [respell, respellMembers_eq, h] using hmembers

@[simp] theorem depth_respell (f : Literal → Literal) (j : Json) : (j.respell f).depth = j.depth := by
  induction j using values_induction with
  | null => rfl
  | bool b => rfl
  | num n => rfl
  | str s => rfl
  | arr items ih =>
    have hle : ∀ d, depthItems (respellItems f items) ≤ d ↔ depthItems items ≤ d := by
      intro d
      rw [depthItems_le_iff, depthItems_le_iff, respellItems_eq, List.forall_mem_map]
      exact forall₂_congr fun j hj => by rw [ih j hj]
    rw [respell, depth, depth, eq_of_forall_ge_iff hle]
  | obj members ih =>
    have hle : ∀ d, depthMembers (respellMembers f members) ≤ d ↔ depthMembers members ≤ d := by
      intro d
      rw [depthMembers_le_iff, depthMembers_le_iff, respellMembers_eq, List.forall_mem_map]
      exact forall₂_congr fun m hm => by rw [ih m hm]
    rw [respell, depth, depth, eq_of_forall_ge_iff hle]

@[simp] theorem depth_escapeHTML (j : Json) : j.escapeHTML.depth = j.depth := depth_respell _ j

@[simp] theorem escapeHTML_twice (j : Json) : j.escapeHTML.escapeHTML = j.escapeHTML :=
  respell_respell escapeHTML_escapeHTML j

@[simp] theorem canonical_escapeHTML (j : Json) : j.escapeHTML.canonical = j.canonical :=
  respell_respell (fun s => by rw [unquote_escapeHTML]) j

end spelling

section apart

theorem apart_punct {xs ys : List Token} {t : Token} (hx : Apart xs) (hy : Apart ys) (ht : t.isNum = false) :
    Apart (xs ++ t :: ys) := by
  induction xs with
  | nil => exact hy.cons fun y _ h => by simp [ht] at h
  | cons x xs ih =>
    have htail : Apart (xs ++ t :: ys) := ih hx.of_cons
    refine htail.cons fun y hhead => ?_
    cases xs with
    | nil =>
      cases hhead
      simp [ht]
    | cons x' xs =>
      cases hhead
      exact (isChain_cons_cons.1 hx).1

theorem apart_separated {close : Token} (hclose : close.isNum = false) {parts : List (List Token)}
    (h : ∀ ts ∈ parts, Apart ts) : Apart (separated close parts) := by
  induction parts with
  | nil => exact .singleton _
  | cons ts rest ih =>
    have hts : Apart ts := h ts mem_cons_self
    cases rest with
    | nil => exact apart_punct hts .nil hclose
    | cons us rest => exact apart_punct hts (ih (forall_mem_cons.1 h).2) rfl

theorem apart_tokens (j : Json) : Apart j.tokens := by
  induction j using values_induction with
  | null => exact .singleton _
  | bool b => exact .singleton _
  | num n => exact .singleton _
  | str s => exact .singleton _
  | arr items ih =>
    rw [tokens, itemTokens_eq]
    refine apart_punct .nil (apart_separated rfl ?_) rfl
    rwa [List.forall_mem_map]
  | obj members ih =>
    rw [tokens, memberTokens_eq]
    refine apart_punct .nil (apart_separated rfl ?_) rfl
    rw [List.forall_mem_map]
    intro m hm
    exact apart_punct .nil (apart_punct .nil (ih m hm) rfl) rfl

end apart

section roundtrip
variable {α : Type} {part : List Token → Option (α × List Token)} {write : α → List Token} {close : Token}
  {xs : List α} {ts rest : List Token}

theorem sequence_separated (hclose : close ≠ .comma) (hne : xs ≠ [])
    (hpart : ∀ x ∈ xs, ∀ rest, part (write x ++ rest) = some (x, rest)) {n : Nat} (hn : xs.length ≤ n) :
    sequence part close n (separated close (xs.map write) ++ rest) = some (xs, rest) := by
  induction xs generalizing n with
  | nil => exact absurd rfl hne
  | cons x xs ih =>
    have hx := hpart x mem_cons_self
    cases n with
    | zero => simp at hn
    | succ n =>
      cases xs with
      | nil => simp [separated, sequence, hx]
      | cons y ys =>
        have htail := ih (cons_ne_nil y ys) (forall_mem_cons.1 hpart).2 (by simpa using hn)
        rw [map_cons] at htail
        simp [separated, sequence, hx, hclose.symm, htail]

theorem length_le_separated (close : Token) (parts : List (List Token)) :
    parts.length ≤ (separated close parts).length := by
  induction parts with
  | nil => simp
  | cons ts parts ih =>
    cases parts with
    | nil => simp [separated]
    | cons us parts =>
      simp only [separated, length_append, length_cons] at ih ⊢
      omega

theorem elements_separated (hclose : close ≠ .comma) (hpart : ∀ x ∈ xs, ∀ rest, part (write x ++ rest) = some (x, rest))
    (hhead : ∀ x ∈ xs, ∃ t ts, write x = t :: ts ∧ t ≠ close) :
    elements part close (separated close (xs.map write) ++ rest) = some (xs, rest) := by
  cases xs with
  | nil => simp [separated, elements]
  | cons x xs =>
    have hlength := length_le_separated close ((x :: xs).map write)
    rw [length_map] at hlength
    have hseq : ∀ n, (x :: xs).length ≤ n →
        sequence part close n (separated close ((x :: xs).map write) ++ rest) = some (x :: xs, rest) :=
      fun n hn => sequence_separated hclose (cons_ne_nil x xs) hpart hn
    obtain ⟨t, ts, hwrite, ht⟩ := hhead x mem_cons_self
    have hcons : ∃ us, separated close ((x :: xs).map write) = t :: us := by
      cases xs with
      | nil => exact ⟨_, by simp only [map_cons, map_nil, separated, hwrite, cons_append]; rfl⟩
      | cons y xs => exact ⟨_, by simp only [map_cons, separated, hwrite, cons_append]; rfl⟩
    obtain ⟨us, hus⟩ := hcons
    rw [hus] at hlength hseq ⊢
    rw [cons_append, elements, if_neg ht]
    refine hseq _ ?_
    simp only [length_cons, length_append] at hlength ⊢
    omega

theorem tokens_head (j : Json) :
    ∃ t ts, j.tokens = t :: ts ∧ t ≠ .rbracket ∧ t ≠ .rbrace := by
  cases j <;> exact ⟨_, _, rfl, by simp, by simp⟩

theorem value_tokens {d : Nat} {j : Json} (h : j.depth ≤ d) (rest : List Token) :
    value d (j.tokens ++ rest) = some (j, rest) := by
  induction d generalizing j rest with
  | zero => cases j <;> first | rfl | simp [depth] at h
  | succ d ih =>
    cases j with
    | arr items =>
      rw [depth_arr_le_iff] at h
      have hread : elements (value d) .rbracket (separated .rbracket (items.map tokens) ++ rest) = some (items, rest) :=
        elements_separated (by simp) (fun x hx rest => ih (h x hx) rest)
          (fun x _ => (tokens_head x).imp fun t ⟨ts, ht, hne, _⟩ => ⟨ts, ht, hne⟩)
      simp [tokens, itemTokens_eq, value, hread]
    | obj members =>
      rw [depth_obj_le_iff] at h
      have hread : elements (member (value d)) .rbrace
          (separated .rbrace (members.map fun m => .str m.1 :: .colon :: m.2.tokens) ++ rest) = some (members, rest) :=
        elements_separated (by simp) (fun m hm rest => by simp [member, ih (h m hm) rest])
          (fun m _ => ⟨_, _, rfl, by simp⟩)
      simp [tokens, memberTokens_eq, value, hread]
    | _ => rfl

theorem parse_marshalIndent {j : Json} (h : j.depth ≤ maxNestingDepth) {tail : Text}
    (htail : ∀ c ∈ tail, isSpace c = true) : parse (j.marshalIndent ++ tail) = some j := by
  have hscan := scans_indent (apart_tokens j) htail false 0 _ le_rfl
  have hvalue := value_tokens h []
  rw [append_nil] at hvalue
  rw [parse, marshalIndent, hscan]
  simp [hvalue]

theorem sequence_forall {P : α → Prop} (hpart : ∀ ts x rest, part ts = some (x, rest) → P x) {n : Nat}
    (h : sequence part close n ts = some (xs, rest)) : ∀ x ∈ xs, P x := by
  induction n generalizing ts xs with
  | zero => cases h
  | succ n ih =>
    rw [sequence] at h
    split at h
    · rename_i x t us hx
      have hPx := hpart _ _ _ hx
      split at h
      · cases h
        simpa using hPx
      · split at h
        · obtain ⟨⟨ys, rest'⟩, hseq, heq⟩ := map_eq_some_iff.1 h
          cases heq
          exact forall_mem_cons.2 ⟨hPx, ih hseq⟩
        · cases h
    · cases h

theorem elements_forall {P : α → Prop} (hpart : ∀ ts x rest, part ts = some (x, rest) → P x)
    (h : elements part close ts = some (xs, rest)) : ∀ x ∈ xs, P x := by
  cases ts with
  | nil => cases h
  | cons t ts =>
    rw [elements] at h
    split at h
    · cases h
      simp
    · exact sequence_forall hpart h

theorem depth_of_value {d : Nat} {j : Json} (h : value d ts = some (j, rest)) : j.depth ≤ d := by
  induction d generalizing ts j rest with
  | zero =>
    cases ts with
    | nil => cases h
    | cons t ts => cases t <;> cases h <;> exact le_rfl
  | succ d ih =>
    cases ts with
    | nil => cases h
    | cons t ts =>
      cases t with
      | lbracket =>
        obtain ⟨⟨items, rest'⟩, helements, heq⟩ := map_eq_some_iff.1 h
        cases heq
        exact depth_arr_le_iff.2 (elements_forall (fun ts j rest hj => ih hj) helements)
      | lbrace =>
        obtain ⟨⟨members, rest'⟩, helements, heq⟩ := map_eq_some_iff.1 h
        cases heq
        refine depth_obj_le_iff.2 (elements_forall (fun ts m rest hm => ?_) helements)
        unfold member at hm
        split at hm
        · obtain ⟨⟨j, rest'⟩, hj, heq⟩ := map_eq_some_iff.1 hm
          cases heq
          exact ih hj
        · cases hm
      | _ => cases h <;> exact Nat.zero_le _

theorem depth_of_parse {t : Text} {j : Json} (h : parse t = some j) : j.depth ≤ maxNestingDepth := by
  unfold parse at h
  split at h
  · split at h <;> cases h
    exact depth_of_value ‹_›
  · cases h

end roundtrip

end Json

end VmManager.Encoding
