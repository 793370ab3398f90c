import VmManager.Varlink.Framing

/-! The size limit of replies. It is tested between two reads, on what is buffered without a NUL. A longer
message is refused when a read ends inside it beyond the limit; when the read that goes beyond the limit
also brings its NUL, the message is accepted. A message as long as the limit and one read more always has a
read that ends there. -/
namespace VmManager.Varlink
open List
variable {ρ : Type} {decode : List UInt8 → Except String ρ} {c : Conn} {script : List Recv}
  {body tail : List UInt8} {x : Recv} {r : ρ}

def readChunk : Nat := 64 * 2 ^ 10

def tooLong : String := "varlink: reply exceeds " ++ toString maxMessageSize ++ " bytes"

def Conn.replies (decode : List UInt8 → Except String ρ) (c : Conn) (script : List Recv) : Nat → List (Except String ρ)
  | 0 => []
  | n + 1 => match c.receive decode script with
    | some (.ok reply, c', rest) => .ok reply.1 :: replies decode c' rest n
    | some (.error err, _, _) => [.error err]
    | none => []

/-- What they should return: the messages in order, up to one above the limit. -/
def limited (decode : List UInt8 → Except String ρ) : List Sent → List (Except String ρ)
  | [] => []
  | m :: ms =>
    if m.body.length ≤ maxMessageSize then decode m.body :: limited decode ms else [.error tooLong]

structure Chunks (ms : List Sent) (script : List Recv) : Prop where
  clean : ∀ x ∈ script, x.Clean
  short : ∀ x ∈ script, x.bytes.length ≤ readChunk
  bytes : delivered script = stream ms

def IsReply (decode : List UInt8 → Except String ρ) (m : Sent) : Prop := 0 ∉ m.body ∧ ∃ r, decode m.body = .ok r

/-- The first reply above the limit, if there is one, is above it by one read or more. -/
def Definite : List Sent → Prop
  | [] => True
  | m :: ms =>
    if m.body.length ≤ maxMessageSize then Definite ms else maxMessageSize + readChunk ≤ m.body.length

namespace Conn

theorem rbuf_read (hx : x.Clean) : (c.read x).2.rbuf = c.rbuf ++ x.bytes := by
  rw [read_clean hx]

theorem read_delivered (hx : x.Clean) (script : List Recv) :
    (c.read x).2.rbuf ++ delivered script = c.rbuf ++ delivered (x :: script) := by
  rw [rbuf_read hx, append_assoc]
  rfl

theorem receive_read (hidx : c.rbuf.findIdx? (· == 0) = none) (hfits : c.rbuf.length ≤ maxMessageSize) (hx : x.Clean) :
    c.receive decode (x :: script) = (c.read x).2.receive decode script := by
  have hread : c.read x = (none, (c.read x).2) := by rw [read_clean hx]
  rw [Conn.receive, hidx]
  simp only [if_neg (Nat.not_lt.2 hfits)]
  rw [hread]

theorem receive_tooLong (hidx : c.rbuf.findIdx? (· == 0) = none) (hlong : maxMessageSize < c.rbuf.length) :
    c.receive decode script = some (.error tooLong, c, script) := by
  unfold tooLong
  cases script <;>
  · rw [Conn.receive, hidx]
    rw [if_pos hlong]

theorem receive_consume (script : List Recv) (hidx : c.rbuf.findIdx? (· == 0) = some body.length)
    (hbuf : c.rbuf = body ++ 0 :: tail) (hdec : decode body = .ok r) :
    ∃ files c', c.receive decode script = some (.ok (r, files), c', script) ∧ c'.rbuf = tail := by
  have htake : c.rbuf.take body.length = body := by
    rw [hbuf]
    exact take_left
  have hshift : Slice.shift (body.length + 1) c.rbuf = tail := by
    rw [Slice.shift_eq, hbuf, ← drop_drop, drop_left]
    exact drop_one
  have hreceive : c.receive decode script =
      some ((c.consume decode body.length).1, (c.consume decode body.length).2, script) := by
    unfold Conn.receive
    rw [hidx]
  rw [hreceive, Conn.consume, htake, hdec]
  exact ⟨_, _, rfl, hshift⟩

theorem receive_buffered {tail' : List UInt8} (hidx : c.rbuf.findIdx? (· == 0) = some body.length)
    (hrbuf : c.rbuf = body ++ 0 :: tail') (hdec : decode body = .ok r)
    (hbytes : c.rbuf ++ delivered script = body ++ 0 :: tail) (hbuf : c.rbuf.length ≤ body.length + readChunk) :
    ∃ files c' rest, c.receive decode script = some (.ok (r, files), c', rest) ∧
      c'.rbuf ++ delivered rest = tail ∧ c'.rbuf.length ≤ readChunk ∧ rest <:+ script := by
  obtain ⟨files, c', hreceive, hleft⟩ := receive_consume script hidx hrbuf hdec
  refine ⟨files, c', script, hreceive, ?_, ?_, suffix_refl script⟩
  · rw [hrbuf, append_assoc] at hbytes
    rw [hleft]
    exact (cons.inj (append_cancel_left hbytes)).2
  · rw [hrbuf, length_append, length_cons] at hbuf
    rw [hleft]
    omega

theorem receive_short (hclean : ∀ x ∈ script, x.Clean) (hchunk : ∀ x ∈ script, x.bytes.length ≤ readChunk)
    (h0 : 0 ∉ body) (hsize : body.length ≤ maxMessageSize) (hdec : decode body = .ok r)
    (hbytes : c.rbuf ++ delivered script = body ++ 0 :: tail) (hbuf : c.rbuf.length ≤ body.length + readChunk) :
    ∃ files c' rest, c.receive decode script = some (.ok (r, files), c', rest) ∧
      c'.rbuf ++ delivered rest = tail ∧ c'.rbuf.length ≤ readChunk ∧ rest <:+ script := by
  induction script generalizing c with
  | nil =>
    rcases buffered h0 hbytes with ⟨tail', hrbuf, hidx⟩ | ⟨-, -, hne⟩
    · exact receive_buffered hidx hrbuf hdec hbytes hbuf
    · exact absurd rfl hne
  | cons x script ih =>
    rcases buffered h0 hbytes with ⟨tail', hrbuf, hidx⟩ | ⟨hpart, hidx, -⟩
    · exact receive_buffered hidx hrbuf hdec hbytes hbuf
    · obtain ⟨hx, hclean⟩ := forall_mem_cons.1 hclean
      obtain ⟨hlen, hchunk⟩ := forall_mem_cons.1 hchunk
      have hmore : (c.read x).2.rbuf.length ≤ body.length + readChunk := by
        rw [rbuf_read hx, length_append]
        omega
      obtain ⟨files, c', rest, hreceive, hleft, hshort, hsuffix⟩ := ih hclean hchunk
        ((read_delivered hx script).trans hbytes) hmore
      refine ⟨files, c', rest, ?_, hleft, hshort, hsuffix.trans (suffix_cons x script)⟩
      rw [receive_read hidx (by omega) hx, hreceive]

theorem receive_long (decode : List UInt8 → Except String ρ) (hclean : ∀ x ∈ script, x.Clean)
    (hchunk : ∀ x ∈ script, x.bytes.length ≤ readChunk) (h0 : 0 ∉ body)
    (hsize : maxMessageSize + readChunk ≤ body.length) (hbytes : c.rbuf ++ delivered script = body ++ 0 :: tail)
    (hbuf : c.rbuf.length ≤ maxMessageSize + readChunk) :
    ∃ c' rest, c.receive decode script = some (.error tooLong, c', rest) := by
  induction script generalizing c with
  | nil =>
    rcases buffered h0 hbytes with ⟨tail', hrbuf, -⟩ | ⟨-, -, hne⟩
    · rw [hrbuf, length_append, length_cons] at hbuf
      omega
    · exact absurd rfl hne
  | cons x script ih =>
    rcases buffered h0 hbytes with ⟨tail', hrbuf, -⟩ | ⟨-, hidx, -⟩
    · rw [hrbuf, length_append, length_cons] at hbuf
      omega
    · by_cases hlong : maxMessageSize < c.rbuf.length
      · exact ⟨c, x :: script, receive_tooLong hidx hlong⟩
      · obtain ⟨hx, hclean⟩ := forall_mem_cons.1 hclean
        obtain ⟨hlen, hchunk⟩ := forall_mem_cons.1 hchunk
        have hmore : (c.read x).2.rbuf.length ≤ maxMessageSize + readChunk := by
          rw [rbuf_read hx, length_append]
          omega
        obtain ⟨c', rest, hreceive⟩ := ih hclean hchunk ((read_delivered hx script).trans hbytes) hmore
        exact ⟨c', rest, (receive_read hidx (Nat.not_lt.1 hlong) hx).trans hreceive⟩

theorem replies_eq_limited {ms : List Sent} (hclean : ∀ x ∈ script, x.Clean)
    (hchunk : ∀ x ∈ script, x.bytes.length ≤ readChunk) (hreply : ∀ m ∈ ms, IsReply decode m)
    (hdef : Definite ms) (hbytes : c.rbuf ++ delivered script = stream ms)
    (hbuf : c.rbuf.length ≤ readChunk) : c.replies decode script ms.length = limited decode ms := by
  induction ms generalizing c script with
  | nil => rfl
  | cons m ms ih =>
    obtain ⟨h0, r, hdec⟩ := hreply m mem_cons_self
    rw [stream_cons] at hbytes
    rw [length_cons, replies, limited]
    rw [Definite] at hdef
    by_cases hshort : m.body.length ≤ maxMessageSize
    · rw [if_pos hshort] at hdef
      obtain ⟨files, c', rest, hreceive, hleft, hsmall, hsuffix⟩ := receive_short hclean hchunk h0 hshort
        hdec hbytes (by omega)
      have hrest := ih (fun x hx => hclean x (hsuffix.subset hx)) (fun x hx => hchunk x (hsuffix.subset hx))
        (forall_mem_cons.1 hreply).2 hdef hleft hsmall
      rw [hreceive, if_pos hshort, hdec]
      exact congrArg (_ :: ·) hrest
    · rw [if_neg hshort] at hdef
      obtain ⟨c', rest, hreceive⟩ := receive_long decode hclean hchunk h0 hdef hbytes (by omega)
      rw [hreceive, if_neg hshort]

theorem findIdx_whole (h0 : 0 ∉ body) (h : c.rbuf = body ++ [0]) : c.rbuf.findIdx? (· == 0) = some body.length := by
  rcases buffered h0 ((append_nil _).trans h) with ⟨tail, -, hfound⟩ | ⟨-, -, hne⟩
  · exact hfound
  · exact absurd rfl hne

theorem receive_pieces (decode : List UInt8 → Except String ρ) {before : List Recv} (hclean : ∀ x ∈ before, x.Clean) (h0 : 0 ∉ c.rbuf ++ delivered before)
    (hsize : (c.rbuf ++ delivered before).length ≤ maxMessageSize) (script : List Recv) :
    ∃ c' : Conn, c.receive decode (before ++ script) = c'.receive decode script ∧
      c'.rbuf = c.rbuf ++ delivered before := by
  induction before generalizing c with
  | nil => exact ⟨c, rfl, (append_nil _).symm⟩
  | cons x before ih =>
    have hx := hclean x mem_cons_self
    have hnext := read_delivered (c := c) hx before
    obtain ⟨c', hreceive, hrbuf⟩ := ih (forall_mem_cons.1 hclean).2 (hnext ▸ h0) (hnext ▸ hsize)
    have hidx : c.rbuf.findIdx? (· == 0) = none := by
      refine findIdx?_eq_none_iff.2 fun b hb => beq_eq_false_iff_ne.2 ?_
      rintro rfl
      exact h0 (mem_append_left _ hb)
    rw [length_append] at hsize
    exact ⟨c', (receive_read hidx (by omega) hx).trans hreceive, hrbuf.trans hnext⟩

end Conn

/-- A cut that accepts as much as any: the message byte by byte up to the limit, then the rest with its NUL. -/
def pieces (body : List UInt8) : List Recv :=
  ((body.take maxMessageSize).map fun b => { bytes := [b] }) ++ [{ bytes := body.drop maxMessageSize ++ [0] }]

theorem clean_of_bytes {bs : List UInt8} (h : bs ≠ []) : ({ bytes := bs } : Recv).Clean := by
  refine ⟨h, fun m hm => ?_, rfl, rfl, rfl⟩
  cases hm

theorem delivered_singles (bs : List UInt8) : delivered (bs.map fun b => { bytes := [b] }) = bs := by
  rw [delivered, flatMap_map, flatMap_singleton']

theorem chunk_singles {bs : List UInt8} (h : x ∈ bs.map fun b => ({ bytes := [b] } : Recv)) :
    x.Clean ∧ x.bytes.length ≤ readChunk := by
  obtain ⟨b, -, rfl⟩ := mem_map.1 h
  exact ⟨clean_of_bytes (cons_ne_nil b []), show 1 ≤ readChunk by decide⟩

theorem delivered_pieces (body : List UInt8) : delivered (pieces body) = body ++ [0] := by
  have happend : delivered (pieces body) = delivered ((body.take maxMessageSize).map fun b => { bytes := [b] }) ++
      delivered [{ bytes := body.drop maxMessageSize ++ [0] }] := flatMap_append
  rw [happend, delivered_singles, delivered, flatMap_singleton, ← append_assoc, take_append_drop]

theorem chunk_pieces (hsize : body.length < maxMessageSize + readChunk) (h : x ∈ pieces body) :
    x.Clean ∧ x.bytes.length ≤ readChunk := by
  rcases mem_append.1 h with h | h
  · exact chunk_singles h
  · obtain rfl := mem_singleton.1 h
    refine ⟨clean_of_bytes (concat_ne_nil _ _), ?_⟩
    have hpos : 0 < readChunk := by decide
    rw [length_append, length_drop, length_singleton]
    omega

theorem receive_whole (hrbuf : c.rbuf = []) (h0 : 0 ∉ body) (hdec : decode body = .ok r) (script : List Recv) :
    ∃ files c', c.receive decode (pieces body ++ script) = some (.ok (r, files), c', script) ∧ c'.rbuf = [] := by
  have hnul : 0 ∉ body.take maxMessageSize := fun h => h0 (mem_of_mem_take h)
  have hbefore : c.rbuf ++ delivered ((body.take maxMessageSize).map fun b => { bytes := [b] }) =
      body.take maxMessageSize := by rw [hrbuf, nil_append, delivered_singles]
  have hfits : (body.take maxMessageSize).length ≤ maxMessageSize := length_take_le _ _
  obtain ⟨c₁, hreceive, hfirst⟩ := Conn.receive_pieces decode (fun _ hx => (chunk_singles hx).1)
    (by rwa [hbefore]) (by rwa [hbefore]) ({ bytes := body.drop maxMessageSize ++ [0] } :: script)
  have hlast : ({ bytes := body.drop maxMessageSize ++ [0] } : Recv).Clean := clean_of_bytes (concat_ne_nil _ _)
  have hwhole : (c₁.read { bytes := body.drop maxMessageSize ++ [0] }).2.rbuf = body ++ [0] := by
    rw [Conn.rbuf_read hlast, hfirst, hbefore, ← append_assoc, take_append_drop]
  have hidx : c₁.rbuf.findIdx? (· == 0) = none := by
    rw [hfirst, hbefore]
    refine findIdx?_eq_none_iff.2 fun b hb => beq_eq_false_iff_ne.2 ?_
    rintro rfl
    exact hnul hb
  obtain ⟨files, c', hdone, hempty⟩ := Conn.receive_consume script (Conn.findIdx_whole h0 hwhole) hwhole hdec
  refine ⟨files, c', ?_, hempty⟩
  rw [pieces, append_assoc, singleton_append, hreceive, Conn.receive_read hidx (by rw [hfirst, hbefore]; exact hfits)
    hlast, hdone]

theorem indefinite_accepted {ms : List Sent} (hreply : ∀ m ∈ ms, IsReply decode m) (h : ¬ Definite ms) :
    ∃ script, Chunks ms script ∧
      ∀ c : Conn, c.rbuf = [] → c.replies decode script ms.length ≠ limited decode ms := by
  induction ms with
  | nil => exact absurd trivial h
  | cons m ms ih =>
    obtain ⟨h0, r, hdec⟩ := hreply m mem_cons_self
    rw [Definite] at h
    have hcons : ∀ script, m.body.length < maxMessageSize + readChunk → Chunks ms script →
        Chunks (m :: ms) (pieces m.body ++ script) := by
      intro script hsize hrest
      refine ⟨fun x hx => ?_, fun x hx => ?_, ?_⟩
      · exact (mem_append.1 hx).elim (fun hx => (chunk_pieces hsize hx).1) (hrest.clean x)
      · exact (mem_append.1 hx).elim (fun hx => (chunk_pieces hsize hx).2) (hrest.short x)
      · have happend : delivered (pieces m.body ++ script) = delivered (pieces m.body) ++ delivered script :=
          flatMap_append
        rw [happend, delivered_pieces, hrest.bytes, stream_cons, append_assoc, singleton_append]
    by_cases hshort : m.body.length ≤ maxMessageSize
    · rw [if_pos hshort] at h
      obtain ⟨script, hchunks, hdiffer⟩ := ih (forall_mem_cons.1 hreply).2 h
      have hpos : 0 < readChunk := by decide
      refine ⟨pieces m.body ++ script, hcons script (by omega) hchunks, fun c hc heq => ?_⟩
      obtain ⟨files, c', hreceive, hc'⟩ := receive_whole hc h0 hdec script
      rw [length_cons, Conn.replies, hreceive, limited, if_pos hshort] at heq
      exact hdiffer c' hc' (cons.inj heq).2
    · rw [if_neg hshort, Nat.not_le] at h
      have hrest : Chunks ms ((stream ms).map fun b => { bytes := [b] }) :=
        ⟨fun _ hx => (chunk_singles hx).1, fun _ hx => (chunk_singles hx).2, delivered_singles _⟩
      refine ⟨_, hcons _ h hrest, fun c hc heq => ?_⟩
      obtain ⟨files, c', hreceive, -⟩ := receive_whole hc h0 hdec ((stream ms).map fun b => { bytes := [b] })
      rw [length_cons, Conn.replies, hreceive, limited, if_neg hshort] at heq
      cases (cons.inj heq).1

theorem size_limit_independent (decode : List UInt8 → Except String ρ) (ms : List Sent)
    (hreply : ∀ m ∈ ms, IsReply decode m) :
    ((∀ script, Chunks ms script → ({} : Conn).replies decode script ms.length = limited decode ms) ∧
    ∀ script script', Chunks ms script → Chunks ms script' →
      ({} : Conn).replies decode script ms.length = ({} : Conn).replies decode script' ms.length) ↔
    Definite ms := by
  constructor
  · rintro ⟨hall, -⟩
    by_contra hdef
    obtain ⟨script, hchunks, hdiffer⟩ := indefinite_accepted hreply hdef
    exact hdiffer {} rfl (hall script hchunks)
  · intro hdef
    have hall : ∀ script, Chunks ms script →
        ({} : Conn).replies decode script ms.length = limited decode ms := by
      intro script h
      exact Conn.replies_eq_limited h.clean h.short hreply hdef h.bytes (Nat.zero_le _)
    refine ⟨hall, fun script script' h h' => ?_⟩
    rw [hall script h, hall script' h']

namespace LimitSample

def accept (_ : List UInt8) : Except String Unit := .ok ()

def blanks (n : Nat) : List UInt8 := replicate n 0x20

def above : Sent := ⟨blanks (maxMessageSize + 1), []⟩

def full (k : Nat) : List Recv := replicate k { bytes := blanks readChunk }

def together : List Recv := full 256 ++ [{ bytes := [0x20, 0] }]
def apart : List Recv := full 256 ++ [{ bytes := [0x20] }, { bytes := [0] }]

theorem findIdx?_blanks (n : Nat) : (blanks n).findIdx? (· == 0) = none := by
  refine findIdx?_eq_none_iff.2 fun b hb => ?_
  rw [eq_of_mem_replicate hb]
  decide

theorem delivered_full (k : Nat) : delivered (full k) = blanks (k * readChunk) := by
  induction k with
  | zero => rw [Nat.zero_mul]; rfl
  | succ k ih =>
    have hcons : full (k + 1) = { bytes := blanks readChunk } :: full k := replicate_succ
    have hdel : delivered (full (k + 1)) = blanks readChunk ++ delivered (full k) := by rw [hcons]; rfl
    rw [hdel, ih, blanks, blanks, blanks, replicate_append_replicate, Nat.succ_mul, Nat.add_comm]

theorem clean_full {k : Nat} (h : x ∈ full k) : x.Clean ∧ x.bytes.length ≤ readChunk := by
  rw [eq_of_mem_replicate h]
  refine ⟨clean_of_bytes ?_, Nat.le_of_eq length_replicate⟩
  decide

theorem full_size : 256 * readChunk = maxMessageSize := by decide

theorem receive_full (script : List Recv) : ∃ c' : Conn,
    ({} : Conn).receive accept (full 256 ++ script) = c'.receive accept script ∧ c'.rbuf = blanks maxMessageSize := by
  have hbytes : ({} : Conn).rbuf ++ delivered (full 256) = blanks maxMessageSize := by
    rw [← full_size, ← delivered_full]
    exact nil_append _
  rw [← hbytes]
  refine Conn.receive_pieces _ (fun x hx => (clean_full hx).1) (fun h => ?_) ?_ script
  · rw [hbytes] at h
    exact absurd (eq_of_mem_replicate h) (by decide)
  · exact Nat.le_of_eq (by rw [hbytes, blanks, length_replicate])

theorem blanks_succ (n : Nat) : blanks (n + 1) = blanks n ++ [0x20] := replicate_succ'

theorem above_body : above.body = blanks maxMessageSize ++ [0x20] := blanks_succ maxMessageSize

theorem chunks_above {last : List Recv} (hclean : ∀ x ∈ last, x.Clean)
    (hshort : ∀ x ∈ last, x.bytes.length ≤ readChunk) (hlast : delivered last = [0x20, 0]) :
    Chunks [above] (full 256 ++ last) where
  clean x hx := (mem_append.1 hx).elim (fun h => (clean_full h).1) (hclean x)
  short x hx := (mem_append.1 hx).elim (fun h => (clean_full h).2) (hshort x)
  bytes := by
    have happend : delivered (full 256 ++ last) = delivered (full 256) ++ delivered last := flatMap_append
    rw [happend, hlast, delivered_full, full_size, stream_cons, above_body, append_assoc]
    rfl

theorem receive_together : ∃ files c' rest,
    ({} : Conn).receive accept together = some (.ok ((), files), c', rest) := by
  obtain ⟨c, hreceive, hrbuf⟩ := receive_full [{ bytes := [0x20, 0] }]
  have hx : ({ bytes := [0x20, 0] } : Recv).Clean := clean_of_bytes nofun
  have hidx : c.rbuf.findIdx? (· == 0) = none := by rw [hrbuf]; exact findIdx?_blanks _
  have hlen : c.rbuf.length = maxMessageSize := by rw [hrbuf]; exact length_replicate
  have hwhole : (c.read { bytes := [0x20, 0] }).2.rbuf = above.body ++ [0] := by
    rw [Conn.rbuf_read hx, hrbuf, above_body, append_assoc]
    rfl
  have hend := Conn.findIdx_whole (fun h => absurd (eq_of_mem_replicate h) (by decide)) hwhole
  have haccept : accept above.body = .ok () := rfl
  obtain ⟨files, c', hdone, -⟩ := Conn.receive_consume [] hend hwhole haccept
  exact ⟨files, c', [], hreceive.trans ((Conn.receive_read hidx (Nat.le_of_eq hlen) hx).trans hdone)⟩

theorem receive_apart : ∃ c' rest,
    ({} : Conn).receive accept apart = some (.error tooLong, c', rest) := by
  obtain ⟨c, hreceive, hrbuf⟩ := receive_full [{ bytes := [0x20] }, { bytes := [0] }]
  have hx : ({ bytes := [0x20] } : Recv).Clean := clean_of_bytes nofun
  have hidx : c.rbuf.findIdx? (· == 0) = none := by rw [hrbuf]; exact findIdx?_blanks _
  have hlen : c.rbuf.length = maxMessageSize := by rw [hrbuf]; exact length_replicate
  have hpart : (c.read { bytes := [0x20] }).2.rbuf = blanks (maxMessageSize + 1) := by
    rw [Conn.rbuf_read hx, hrbuf]
    exact (blanks_succ maxMessageSize).symm
  have hlong : maxMessageSize < (c.read { bytes := [0x20] }).2.rbuf.length := by
    rw [hpart, blanks, length_replicate]
    omega
  have hnone : (c.read { bytes := [0x20] }).2.rbuf.findIdx? (· == 0) = none := by
    rw [hpart]
    exact findIdx?_blanks _
  exact ⟨_, _, hreceive.trans ((Conn.receive_read hidx (Nat.le_of_eq hlen) hx).trans
    (Conn.receive_tooLong hnone hlong))⟩

end LimitSample
open LimitSample

theorem size_limit_independent_braces :
    ({} : Conn).replies accept [{ bytes := [123] }, { bytes := [125, 0] }] 1 = [.ok ()] :=
  ((size_limit_independent accept [⟨[123, 125], []⟩]
    (fun m hm => by rw [mem_singleton.1 hm]; exact ⟨by decide, (), rfl⟩)).2 (by simp [Definite, maxMessageSize])).1
    _ ⟨by simp [clean_of_bytes], by simp [readChunk], rfl⟩

theorem size_limit_by_timing : Chunks [above] together ∧
    Chunks [above] apart ∧
    ({} : Conn).replies accept together 1 = [.ok ()] ∧
    ({} : Conn).replies accept apart 1 = [.error tooLong] := by
  refine ⟨chunks_above ?_ ?_ rfl, chunks_above ?_ ?_ rfl, ?_, ?_⟩
  · simp [clean_of_bytes]
  · simp [readChunk]
  · simp [clean_of_bytes]
  · simp [readChunk]
  · obtain ⟨files, c', rest, hreceive⟩ := receive_together
    rw [Conn.replies, hreceive]
    rfl
  · obtain ⟨c', rest, hreceive⟩ := receive_apart
    rw [Conn.replies, hreceive]

end VmManager.Varlink
