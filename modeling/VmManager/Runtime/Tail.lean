import VmManager.Data.Slice
import VmManager.Encoding.Hex

/-! The end of what a process wrote: kept in memory while it writes, or read from its log. -/
namespace VmManager.Runtime
open Encoding Slice List

def spaces : List Bytes :=
  [[0x09], [0x0a], [0x0b], [0x0c], [0x0d], [0x20], [0xc2, 0x85], [0xc2, 0xa0], [0xe1, 0x9a, 0x80],
    [0xe2, 0x80, 0x80], [0xe2, 0x80, 0x81], [0xe2, 0x80, 0x82], [0xe2, 0x80, 0x83], [0xe2, 0x80, 0x84],
    [0xe2, 0x80, 0x85], [0xe2, 0x80, 0x86], [0xe2, 0x80, 0x87], [0xe2, 0x80, 0x88], [0xe2, 0x80, 0x89],
    [0xe2, 0x80, 0x8a], [0xe2, 0x80, 0xa8], [0xe2, 0x80, 0xa9], [0xe2, 0x80, 0xaf], [0xe2, 0x81, 0x9f],
    [0xe3, 0x80, 0x80]]

def strip (ps : List Bytes) : Nat → Bytes → Bytes
  | 0, bs => bs
  | n + 1, bs => match ps.find? (·.isPrefixOf bs) with
    | some p => strip ps n (bs.drop p.length)
    | none => bs

def trimSpace (bs : Bytes) : Bytes :=
  let front := strip spaces bs.length bs
  (strip (spaces.map reverse) front.length front.reverse).reverse

def defaultTailBytes : Nat := 8 * 1024

structure Tail where
  buf : Window UInt8 := .nil
  limit : Nat

def tailLimit (limit : Int) : Nat := if limit ≤ 0 then defaultTailBytes else limit.toNat

def newTail (limit : Int) : Tail := { limit := tailLimit limit }

/-- `Write`; `spare` is the room a new array gets, which is the allocator's choice. -/
def Tail.write (spare : Nat → Bytes) (t : Tail) (p : Bytes) : Tail :=
  if t.limit ≤ p.length then
    { t with buf := t.buf.clear.append (p.drop (p.length - t.limit)) (spare t.limit) }
  else
    let excess := t.buf.len + p.length - t.limit
    let buf := if 0 < excess then t.buf.dropFront excess else t.buf
    { t with buf := buf.append p (spare (buf.len + p.length)) }

def Tail.string (t : Tail) : Bytes := trimSpace t.buf.elems

/-- `TailFile`; no content is a file that is missing or cannot be read. -/
def tailFile (file : Option Bytes) (limit : Int) : Bytes :=
  match file with
  | none => []
  | some content =>
    let size := content.length
    let offset := size - tailLimit limit
    trimSpace ((content.drop offset).take (size - offset))

def lastBytes (n : Nat) (bs : Bytes) : Bytes := bs.drop (bs.length - n)

/-- The part is left when the spaces at either end are taken away, and only they. -/
def Trims (bs part : Bytes) : Prop :=
  (∃ front back : List Bytes, (∀ c ∈ front ++ back, c ∈ spaces) ∧
    bs = front.flatten ++ part ++ back.flatten) ∧ ∀ p ∈ spaces, ¬ p <+: part ∧ ¬ p <:+ part

section strip

theorem strip_eq (ps : List Bytes) (bs : Bytes) {n : Nat} (hps : ∀ p ∈ ps, p ≠ []) (hn : bs.length ≤ n) :
    (∃ cut : List Bytes, (∀ c ∈ cut, c ∈ ps) ∧ bs = cut.flatten ++ strip ps n bs) ∧
      ∀ p ∈ ps, ¬ p <+: strip ps n bs := by
  induction n generalizing bs with
  | zero =>
    obtain rfl : bs = [] := length_eq_zero_iff.1 (by omega)
    exact ⟨⟨[], nofun, rfl⟩, fun p hp h => hps p hp (prefix_nil.1 h)⟩
  | succ n ih =>
    rw [strip]
    cases hf : ps.find? (·.isPrefixOf bs) with
    | none =>
      refine ⟨⟨[], nofun, rfl⟩, fun p hp h => ?_⟩
      exact absurd ( isPrefixOf_iff_prefix.2 h) (by simpa using find?_eq_none.1 hf p hp)
    | some p =>
      have hp : p ∈ ps := mem_of_find?_eq_some hf
      have hfound : p.isPrefixOf bs = true := find?_some (p := fun q => isPrefixOf q bs) hf
      obtain ⟨rest, rfl⟩ := isPrefixOf_iff_prefix.1 hfound
      have hpos : 0 < p.length := length_pos_iff.2 (hps p hp)
      rw [length_append] at hn
      dsimp only
      rw [drop_left]
      obtain ⟨⟨cut, hcut, hbs⟩, hend⟩ := ih rest (by omega)
      refine ⟨⟨p :: cut, fun c hc => ?_, ?_⟩, hend⟩
      · rcases mem_cons.1 hc with rfl | hc
        · exact hp
        · exact hcut c hc
      · rw [flatten_cons, append_assoc, ← hbs]

theorem trimSpace_trims (bs : Bytes) : Trims bs (trimSpace bs) := by
  obtain ⟨⟨front, hfront, hbs⟩, hstart⟩ := strip_eq spaces bs (by decide) (Nat.le_refl bs.length)
  generalize hmid : strip spaces bs.length bs = mid at hbs hstart
  have htrim : trimSpace bs = (strip (spaces.map reverse) mid.length mid.reverse).reverse := by
    rw [← hmid]
    rfl
  obtain ⟨⟨back, hback, hrev⟩, hend⟩ := strip_eq (spaces.map reverse) mid.reverse
    (by decide) (Nat.le_of_eq length_reverse)
  have hmid : mid = trimSpace bs ++ (back.map reverse).reverse.flatten := by
    rw [htrim, ← reverse_flatten, ← reverse_append, ← hrev, reverse_reverse]
  refine ⟨⟨front, (back.map reverse).reverse, ?_, ?_⟩, ?_⟩
  · intro c hc
    rcases mem_append.1 hc with hc | hc
    · exact hfront c hc
    · obtain ⟨x, hx, rfl⟩ := mem_map.1 (mem_reverse.1 hc)
      obtain ⟨y, hy, rfl⟩ := mem_map.1 (hback x hx)
      rwa [reverse_reverse]
  · rw [append_assoc, ← hmid]
    exact hbs
  · intro p hp
    refine ⟨fun h => hstart p hp (h.trans ?_), fun h => ?_⟩
    · rw [hmid]
      exact prefix_append ..
    · rw [htrim, ← reverse_prefix, reverse_reverse] at h
      exact hend p.reverse (mem_map_of_mem hp) h

end strip

section tail
variable {spare : Nat → Bytes} {t : Tail} {n : Nat} {out : Bytes}

theorem lastBytes_append_of_le {p : Bytes} (h : n ≤ p.length) : lastBytes n (out ++ p) = lastBytes n p := by
  have hlen : (out ++ p).length - n = out.length + (p.length - n) := by
    rw [length_append]
    omega
  rw [lastBytes, hlen, ← drop_drop, drop_left, lastBytes]

theorem lastBytes_append_of_lt {p : Bytes} (h : p.length < n) :
    lastBytes n (out ++ p) = out.drop (out.length + p.length - n) ++ p := by
  rw [lastBytes, length_append, drop_append_of_le_length (by omega)]

theorem lastBytes_lastBytes_append (p : Bytes) :
    lastBytes n (lastBytes n out ++ p) = lastBytes n (out ++ p) := by
  have hlen : (lastBytes n out).length = out.length - (out.length - n) := length_drop
  by_cases h : n ≤ p.length
  · rw [lastBytes_append_of_le h, lastBytes_append_of_le h]
  · rw [lastBytes_append_of_lt (by omega), lastBytes_append_of_lt (by omega), hlen, lastBytes, drop_drop]
    congr 2
    omega

theorem elems_write (t : Tail) (p : Bytes) :
    (t.write spare p).buf.elems = lastBytes t.limit (t.buf.elems ++ p) := by
  unfold Tail.write
  split
  · rename_i h
    rw [lastBytes_append_of_le h, lastBytes, Window.elems_append, Window.elems_clear, nil_append]
  · rename_i h
    rw [lastBytes_append_of_lt (Nat.lt_of_not_le h), Window.length_elems, Window.elems_append]
    split
    · rw [Window.elems_dropFront]
    · rename_i hover
      rw [Nat.eq_zero_of_not_pos hover, drop_zero]

theorem limit_write (t : Tail) (p : Bytes) : (t.write spare p).limit = t.limit := by
  unfold Tail.write
  split <;> rfl

theorem elems_writes (writes : List Bytes) (h : t.buf.elems = lastBytes t.limit out) :
    (writes.foldl (Tail.write spare) t).buf.elems = lastBytes t.limit (out ++ writes.flatten) := by
  induction writes generalizing t out with
  | nil => simpa using h
  | cons p writes ih =>
    have hstep : (t.write spare p).buf.elems = lastBytes (t.write spare p).limit (out ++ p) := by
      rw [limit_write, elems_write, h, lastBytes_lastBytes_append]
    rw [foldl_cons, ih hstep, limit_write, append_assoc, flatten_cons]

end tail

theorem tail_agrees (spare : Nat → Bytes) (limit : Int) (writes : List Bytes) :
    (writes.foldl (Tail.write spare) (newTail limit)).string = tailFile (some writes.flatten) limit ∧
    Trims (lastBytes (tailLimit limit) writes.flatten)
      (writes.foldl (Tail.write spare) (newTail limit)).string ∧
    (writes.foldl (Tail.write spare) (newTail limit)).buf.elems = lastBytes (tailLimit limit) writes.flatten ∧
    (writes.foldl (Tail.write spare) (newTail limit)).buf.len ≤ tailLimit limit := by
  have hstart : (newTail limit).buf.elems = lastBytes (newTail limit).limit [] := by
    rw [lastBytes, drop_nil]
    rfl
  have helems : (writes.foldl (Tail.write spare) (newTail limit)).buf.elems =
      lastBytes (tailLimit limit) writes.flatten := elems_writes writes hstart
  refine ⟨?_, ?_, helems, ?_⟩
  · rw [Tail.string, helems, tailFile, lastBytes, take_of_length_le]
    exact Nat.le_of_eq length_drop
  · rw [Tail.string, helems]
    exact trimSpace_trims _
  · rw [← Window.length_elems, helems, lastBytes, length_drop]
    omega

end VmManager.Runtime
