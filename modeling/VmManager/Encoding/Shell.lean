import Mathlib.Data.List.TakeWhile
import VmManager.Encoding.Hex
import VmManager.Encoding.Split

/-! The words of a POSIX shell command line. Outside quotes a blank ends a word; single quotes keep every
byte up to the next one, and a backslash keeps the byte after it. A byte remembers whether it was quoted:
expansions, operators, reserved words and comments come from the other bytes only. Where a byte outside
quotes could begin one of them the split gives no answer. -/
namespace VmManager.Encoding.Shell
open List

inductive Role where
  | blank
  | quote
  | escape
  | plain
  | active

def role (b : UInt8) : Role :=
  if b = 0x20 ∨ b = 0x09 then .blank
  else if b = 0x27 then .quote
  else if b = 0x5c then .escape
  else if (0x30 ≤ b ∧ b ≤ 0x39) ∨ (0x41 ≤ b ∧ b ≤ 0x5a) ∨ (0x61 ≤ b ∧ b ≤ 0x7a) ∨ (0x2b ≤ b ∧ b ≤ 0x2f) ∨
    b = 0x3a ∨ b = 0x40 ∨ b = 0x5f ∨ 0x80 ≤ b then .plain
  else .active

structure Piece where
  byte : UInt8
  quoted : Bool
deriving DecidableEq, Repr

/-- Where the reader is: outside quotes, in single quotes, or after a backslash. Without a word it is
between words; an empty word is one that only quotes began. -/
inductive State where
  | outside (word : Option (List Piece))
  | quoted (word : List Piece)
  | escaped (word : Option (List Piece))

def add (word : Option (List Piece)) (b : UInt8) (isQuoted : Bool) : List Piece := word.getD [] ++ [⟨b, isQuoted⟩]

def words : State → Bytes → Option (List (List Piece))
  | .outside word, [] => some word.toList
  | .quoted _, [] | .escaped _, [] => none
  | .outside word, b :: bs => match role b with
    | .blank => (words (.outside none) bs).map (word.toList ++ ·)
    | .quote => words (.quoted (word.getD [])) bs
    | .escape => words (.escaped word) bs
    | .plain => words (.outside (some (add word b false))) bs
    | .active => none
  | .quoted word, b :: bs =>
    if b = 0x27 then words (.outside (some word)) bs else words (.quoted (add (some word) b true)) bs
  | .escaped word, b :: bs =>
    if b = 0x0a then words (.outside word) bs else words (.outside (some (add word b true))) bs

def split (line : Bytes) : Option (List (List Piece)) := words (.outside none) (line.takeWhile (· ≠ 0))

/-- The arguments of a command line with nothing in it to expand, without the quotes. -/
def arguments (line : Bytes) : Option (List Bytes) :=
  (split line).bind fun ws =>
    if ws.all (·.all (·.quoted)) then some (ws.map (·.map (·.byte))) else none

def literal (w : Bytes) : List Piece := w.map (⟨·, true⟩)

def quote (w : Bytes) : Bytes :=
  0x27 :: (w.flatMap fun b => if b = 0x27 then [0x27, 0x5c, 0x27, 0x27] else [b]) ++ [0x27]

theorem words_body (word : List Piece) (w rest : Bytes) : words (.quoted word)
        ((w.flatMap fun b => if b = 0x27 then [0x27, 0x5c, 0x27, 0x27] else [b]) ++ 0x27 :: rest) =
      words (.outside (some (word ++ literal w))) rest := by
  induction w generalizing word with
  | nil => simp [words, literal]
  | cons b w ih =>
    have hnext : word ++ literal (b :: w) = word ++ [⟨b, true⟩] ++ literal w := by simp [literal]
    rw [hnext, ← ih, flatMap_cons, append_assoc]
    by_cases hb : b = 0x27
    · -- the quote ends, the escaped one is a byte of the word, and the next one begins again
      subst hb
      simp [words, role, add]
    · simp [words, hb, add]

theorem words_quote (word : Option (List Piece)) (w rest : Bytes) : words (.outside word) (quote w ++ rest) =
      words (.outside (some (word.getD [] ++ literal w))) rest := by
  have hbody := words_body (word.getD []) w rest
  simpa [quote, words, role] using hbody

theorem words_quotes (w : List Piece) (ws : List Bytes) :
    words (.outside (some w)) (ws.flatMap fun x => 0x20 :: quote x) = some (w :: ws.map literal) := by
  induction ws generalizing w with
  | nil => simp [words]
  | cons x ws ih =>
    have hword := words_quote none x (ws.flatMap fun x => 0x20 :: quote x)
    rw [Option.getD_none, nil_append, ih] at hword
    simp [words, role, hword]

theorem not_mem_quote {w : Bytes} (h : 0 ∉ w) : 0 ∉ quote w := by
  intro hmem
  simp only [quote, cons_append, mem_cons, mem_append, mem_flatMap, not_mem_nil, or_false] at hmem
  rcases hmem with h0 | ⟨b, hb, hmem⟩ | h0
  · exact absurd h0 (by decide)
  · split at hmem
    · exact absurd hmem (by decide)
    · exact h (mem_singleton.1 hmem ▸ hb)
  · exact absurd h0 (by decide)

theorem split_quotes (ws : List Bytes) (h : ∀ w ∈ ws, 0 ∉ w) :
    split ([0x20].intercalate (ws.map quote)) = some (ws.map literal) := by
  cases ws with
  | nil => rfl
  | cons w ws =>
    have hline : [0x20].intercalate ((w :: ws).map quote) =
        quote w ++ ws.flatMap fun x => 0x20 :: quote x := by
      rw [map_cons, intercalate_cons, flatMap_map]
    have hzero : (quote w ++ ws.flatMap fun x => 0x20 :: quote x).takeWhile (· ≠ 0) =
        quote w ++ ws.flatMap fun x => 0x20 :: quote x := by
      rw [takeWhile_eq_self_iff]
      intro b hb
      rw [decide_eq_true_iff]
      rintro rfl
      rcases mem_append.1 hb with hb | hb
      · exact not_mem_quote (h w mem_cons_self) hb
      · obtain ⟨x, hx, hb⟩ := mem_flatMap.1 hb
        rcases mem_cons.1 hb with hb | hb
        · exact absurd hb (by decide)
        · exact not_mem_quote (h x (mem_cons_of_mem w hx)) hb
    rw [split, hline, hzero, words_quote, words_quotes]
    rfl

theorem arguments_of_split {line : Bytes} {ws : List Bytes} (h : split line = some (ws.map literal)) :
    arguments line = some ws := by
  have hall : (ws.map literal).all (·.all (·.quoted)) = true := by simp [literal]
  have hbytes : (ws.map literal).map (·.map (·.byte)) = ws := by
    rw [map_map]
    refine (map_congr_left fun w _ => ?_).trans (map_id ws)
    rw [Function.comp_apply, literal, map_map]
    exact map_id w
  rw [arguments, h, Option.bind_some, if_pos hall, hbytes]

end VmManager.Encoding.Shell
