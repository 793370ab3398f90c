import Mathlib.Data.List.Perm.Basic
import VmManager.Varlink.Conn

/-! However the kernel cuts the stream, `receive` finds the messages and gives each the descriptors it
was sent with; and no descriptor is lost or closed twice. -/
namespace VmManager.Varlink
open List Option
variable {ρ : Type} {decode : List UInt8 → Except String ρ} {c c' : Conn} {x : Recv} {before script rest : List Recv}
  {p : Nat} {res : Except String (ρ × List Int)} {ms past left : List Sent} {body tail : List UInt8} {r : ρ}

theorem marks_append (start : Nat) (a b : List Recv) :
    marks start (a ++ b) = marks start a ++ marks (start + (delivered a).length) b := by
  induction a generalizing start with
  | nil => rfl
  | cons x a ih =>
    simp only [cons_append, marks, ih, delivered, flatMap_cons, length_append, append_assoc, Nat.add_assoc]

namespace Conn

theorem collectRights_clean (last : Nat) (c : Conn) (msgs : List Control)
    (h : ∀ m ∈ msgs, ∀ err, m ≠ .malformed err) : collectRights last c msgs =
      (none, { c with
        rights := c.rights ++ (msgs.filterMap Control.batch).map fun fds => ⟨last, fds⟩
        received := c.received ++ (msgs.filterMap Control.batch).flatten }) := by
  induction msgs generalizing c with
  | nil => simp [collectRights]
  | cons m msgs ih =>
    have hrest := fun c => ih c (forall_mem_cons.1 h).2
    cases m with
    | rights fds => simp [collectRights, addRights, hrest, Control.batch]
    | other => exact hrest c
    | malformed err => exact absurd rfl (h _ mem_cons_self err)

theorem read_clean (hx : x.Clean) : c.read x = (none, { c with
    rbuf := c.rbuf ++ x.bytes
    rights := c.rights ++ x.batches.map fun fds => ⟨c.pos + c.rbuf.length + x.bytes.length - 1, fds⟩
    received := c.received ++ x.batches.flatten }) := by
  have hpos : 0 < x.bytes.length := length_pos_iff.2 hx.some
  simp only [read, readOob, hx.badOob, collectRights_clean _ _ _ hx.oob, hx.truncated, hx.err, hpos,
    if_true, map_none, Bool.false_eq_true, if_false, Recv.batches]

/-- What the connection holds after the results `before` of which the first `p` bytes are consumed. -/
structure After (c : Conn) (before : List Recv) (p : Nat) : Prop where
  rbuf : c.rbuf = (delivered before).drop p
  pos : c.pos = p
  le : p ≤ (delivered before).length
  rights : c.rights = (marks 0 before).filter fun b => decide (p ≤ b.last)

theorem After.read (h : c.After before p) (hx : x.Clean) :
    ∃ c', c.read x = (none, c') ∧ c'.After (before ++ [x]) p := by
  have hpos : 0 < x.bytes.length := length_pos_iff.2 hx.some
  have hbytes : delivered (before ++ [x]) = delivered before ++ x.bytes := by
    simp [delivered]
  refine ⟨_, read_clean hx, ?_, h.pos, ?_, ?_⟩
  · rw [hbytes, drop_append_of_le_length h.le, h.rbuf]
  · rw [hbytes, length_append]
    exact Nat.le_add_right_of_le h.le
  · have hstart : c.pos + c.rbuf.length = (delivered before).length := by
      rw [h.pos, h.rbuf, length_drop]
      have hle := h.le
      omega
    have hnew : ∀ b ∈ x.batches.map (fun fds => (⟨(delivered before).length + x.bytes.length - 1,
        fds⟩ : RightsBatch)), decide (p ≤ b.last) = true := by
      intro b hb
      obtain ⟨fds, -, rfl⟩ := List.mem_map.1 hb
      have hle := h.le
      exact decide_eq_true (by dsimp only; omega)
    rw [marks_append, filter_append, h.rights, hstart, Nat.zero_add, marks, marks, append_nil, filter_eq_self.2 hnew]

def filesOf (bs : List RightsBatch) (p stop : Nat) : List Int :=
  (bs.filter fun b => decide (p ≤ b.last ∧ b.last ≤ stop)).flatMap fun b =>
    b.fds.filter fun fd => decide (0 ≤ fd)

theorem After.consume (h : c.After before p)
    (hbuf : c.rbuf = body ++ 0 :: tail) (hdec : decode body = .ok r) : ∃ c', c.consume decode body.length =
        (.ok (r, filesOf (marks 0 before) p (p + body.length)), c') ∧
      c'.After before (p + body.length + 1) := by
  have htake : c.rbuf.take body.length = body := by
    rw [hbuf]
    exact take_left
  have hlen : (delivered before).length - p = body.length + (tail.length + 1) := by
    have hlen := congrArg length hbuf
    rwa [h.rbuf, length_drop, length_append, length_cons] at hlen
  have hfiles : (c.rights.filter fun b => !decide (b.last > c.pos + body.length)) =
      (marks 0 before).filter fun b => decide (p ≤ b.last ∧ b.last ≤ p + body.length) := by
    rw [h.rights, List.filter_filter, h.pos]
    congr 1
    funext b
    rw [Bool.eq_iff_iff]
    simp only [Bool.and_eq_true, Bool.not_eq_true', decide_eq_false_iff_not, decide_eq_true_eq]
    omega
  have hkept : Slice.compact (fun b => decide (b.last > c.pos + body.length)) c.rights =
      (marks 0 before).filter fun b => decide (p + body.length + 1 ≤ b.last) := by
    rw [Slice.compact_eq, h.rights, List.filter_filter, h.pos]
    congr 1
    funext b
    rw [Bool.eq_iff_iff]
    simp only [Bool.and_eq_true, decide_eq_true_eq]
    omega
  have heq : c.consume decode body.length =
      (.ok (r, filesOf (marks 0 before) p (p + body.length)), ({ c with
        rbuf := Slice.shift (body.length + 1) c.rbuf
        pos := c.pos + body.length + 1 }.takeFiles (c.pos + body.length)).2) := by
    simp only [Conn.consume, htake, hdec, takeFiles, hfiles, filesOf]
  refine ⟨_, heq, ?_, ?_, ?_, hkept⟩
  · change Slice.shift (body.length + 1) c.rbuf = _
    rw [Slice.shift_eq, h.rbuf, drop_drop]
    congr 1
  · change c.pos + body.length + 1 = _
    rw [h.pos]
  · have hle := h.le
    omega

theorem buffered {rbuf rest body tail : List UInt8} (h0 : 0 ∉ body) (h : rbuf ++ rest = body ++ 0 :: tail) :
    (∃ tail', rbuf = body ++ 0 :: tail' ∧ rbuf.findIdx? (· == 0) = some body.length) ∨
      (rbuf.length ≤ body.length ∧ rbuf.findIdx? (· == 0) = none ∧ rest ≠ []) := by
  have hnone : ∀ part : List UInt8, (∀ b ∈ part, b ∈ body) → part.findIdx? (· == 0) = none := by
    intro part hpart
    refine findIdx?_eq_none_iff.2 fun b hb => ?_
    rw [beq_eq_false_iff_ne]
    rintro rfl
    exact h0 (hpart 0 hb)
  rcases append_eq_append_iff.1 h with ⟨more, hbody, hrest⟩ | ⟨more, hrbuf, hmore⟩
  · right
    refine ⟨?_, hnone rbuf fun b hb => ?_, ?_⟩
    · rw [hbody, length_append]
      omega
    · rw [hbody]
      exact mem_append_left _ hb
    · rw [hrest]
      simp
  · cases more with
    | nil =>
      rw [append_nil] at hrbuf
      right
      refine ⟨Nat.le_of_eq (by rw [hrbuf]), hnone rbuf fun b hb => hrbuf ▸ hb, ?_⟩
      rw [nil_append] at hmore
      rw [← hmore]
      nofun
    | cons b more =>
      obtain ⟨rfl, -⟩ := cons.inj hmore
      left
      rw [hrbuf, findIdx?_append, hnone body fun _ hb => hb]
      simp [findIdx?_cons]

theorem After.receive (h : c.After before p) (hclean : ∀ x ∈ script, x.Clean) (h0 : 0 ∉ body)
    (hsize : body.length ≤ maxMessageSize) (hdec : decode body = .ok r)
    (hbytes : (delivered (before ++ script)).drop p = body ++ 0 :: tail) : ∃ used rest c', script = used ++ rest ∧
      c.receive decode script = some (.ok (r, filesOf (marks 0 (before ++ used)) p (p + body.length)), c', rest) ∧
      c'.After (before ++ used) (p + body.length + 1) := by
  induction script generalizing c before with
  | nil =>
    have hsplit : c.rbuf ++ [] = body ++ 0 :: tail := by
      rw [append_nil, h.rbuf, ← hbytes, append_nil]
    rcases buffered h0 hsplit with ⟨tail', hbuf, hidx⟩ | ⟨-, -, hne⟩
    · obtain ⟨c', hconsume, hafter⟩ := h.consume hbuf hdec
      refine ⟨[], [], c', rfl, ?_, ?_⟩
      · rw [Conn.receive, hidx]
        simp only [hconsume, append_nil]
      · rwa [append_nil]
    · exact absurd rfl hne
  | cons x script ih =>
    have hsplit : c.rbuf ++ delivered (x :: script) = body ++ 0 :: tail := by
      rw [h.rbuf, ← hbytes, ← drop_append_of_le_length h.le]
      simp [delivered]
    rcases buffered h0 hsplit with ⟨tail', hbuf, hidx⟩ | ⟨hshort, hidx, -⟩
    · obtain ⟨c', hconsume, hafter⟩ := h.consume hbuf hdec
      refine ⟨[], x :: script, c', rfl, ?_, ?_⟩
      · rw [Conn.receive, hidx]
        simp only [hconsume, append_nil]
      · rwa [append_nil]
    · obtain ⟨c₁, hread, hafter⟩ := h.read (hclean x mem_cons_self)
      obtain ⟨used, rest, c', hscript, hreceive, hlast⟩ := ih hafter
        (forall_mem_cons.1 hclean).2 (by rw [← hbytes]; simp)
      refine ⟨x :: used, rest, c', by rw [hscript]; rfl, ?_, by simpa using hlast⟩
      have hfits : ¬ c.rbuf.length > maxMessageSize := by omega
      rw [Conn.receive, hidx]
      simp only [if_neg hfits, hread, hreceive, append_assoc, singleton_append]

end Conn

theorem stream_cons (m : Sent) (ms : List Sent) : stream (m :: ms) = m.body ++ 0 :: stream ms := by
  simp [stream]

theorem Cut.files {m : Sent} (h : Cut ms script) (hms : ms = past ++ m :: left) :
    Conn.filesOf (marks 0 script) (stream past).length ((stream past).length + m.body.length) =
      m.batches.flatten := by
  have hrule := h.rule past m left hms
  have hvalid : ∀ fds ∈ m.batches, fds.filter (fun fd => decide (0 ≤ fd)) = fds := by
    intro fds hfds
    refine filter_eq_self.2 fun fd hfd => decide_eq_true ?_
    exact h.valid m (by rw [hms]; simp) fds hfds fd hfd
  rw [Conn.filesOf, ← flatMap_id', ← hrule, flatMap_map]
  refine flatMap_congr fun b hb => ?_
  refine hvalid b.fds ?_
  rw [← hrule]
  exact List.mem_map_of_mem hb

theorem Conn.receive_keeps {I : Conn → Prop} (hread : ∀ c x, I c → I (c.read x).2)
    (hconsume : ∀ c i, I c → I (c.consume decode i).2)
    (h : I c) (hr : c.receive decode script = some (res, c', rest)) : I c' := by
  induction script generalizing c with
  | nil =>
    rw [Conn.receive] at hr
    split at hr
    · cases hr
      exact hconsume _ _ h
    · split at hr <;> cases hr
      exact h
  | cons x script ih =>
    rw [Conn.receive] at hr
    split at hr
    · cases hr
      exact hconsume _ _ h
    · split at hr
      · cases hr
        exact h
      · have hc := hread c x h
        split at hr
        · rename_i heq
          cases hr
          rwa [heq] at hc
        · rename_i heq
          rw [heq] at hc
          exact ih hc hr

def Conn.Balanced (c : Conn) : Prop :=
  (∀ fd ∈ c.received, 0 ≤ fd) → c.received.Perm (c.handed ++ (c.closed ++ c.rights.flatMap fun b => b.fds))

namespace Conn.Balanced

theorem addRights (h : c.Balanced) (last : Nat) (fds : List Int) : (c.addRights last fds).Balanced := by
  intro hvalid
  have hold := h fun fd hfd => hvalid fd (mem_append_left _ hfd)
  simp only [Conn.addRights, flatMap_append, flatMap_cons, flatMap_nil, append_nil, ← append_assoc]
  rw [append_assoc c.handed]
  exact hold.append_right fds

theorem collectRights (h : c.Balanced) (last : Nat) (msgs : List Control) :
    (Conn.collectRights last c msgs).2.Balanced := by
  induction msgs generalizing c with
  | nil => exact h
  | cons m msgs ih =>
    cases m with
    | rights fds => exact ih (h.addRights last fds)
    | other => exact ih h
    | malformed err => exact h

theorem read (h : c.Balanced) (x : Recv) : (c.read x).2.Balanced := by
  have hoob : (c.readOob x).2.Balanced := by
    simp only [Conn.readOob]
    split
    · exact h
    · exact h.collectRights _ _
  unfold Conn.read
  split
  · rename_i heq
    rwa [heq] at hoob
  · rename_i heq
    rw [heq] at hoob
    split <;> exact hoob

theorem takeFiles (h : c.Balanced) (stop : Nat) : (c.takeFiles stop).2.Balanced := by
  intro hvalid
  have hold := h hvalid
  have hin : ∀ b ∈ c.rights, b.fds.filter (fun fd => decide (0 ≤ fd)) = b.fds := by
    intro b hb
    refine filter_eq_self.2 fun fd hfd => decide_eq_true (hvalid fd (hold.mem_iff.2 ?_))
    exact mem_append_right _ (mem_append_right _ (mem_flatMap.2 ⟨b, hb, hfd⟩))
  have hfiles : (c.takeFiles stop).1 = (c.rights.filter fun b => !decide (b.last > stop)).flatMap fun b => b.fds :=
    flatMap_congr fun b hb => hin b (mem_of_mem_filter hb)
  have hsplit : (c.rights.flatMap fun b => b.fds).Perm ((c.takeFiles stop).1 ++
      (Slice.compact (fun b => decide (b.last > stop)) c.rights).flatMap fun b => b.fds) := by
    rw [hfiles, Slice.compact_eq, ← flatMap_append]
    refine Perm.flatMap_right _ ?_
    exact (perm_append_comm.trans (filter_append_perm _ _)).symm
  change c.received.Perm ((c.handed ++ (c.takeFiles stop).1) ++ (c.closed ++ _))
  refine hold.trans ?_
  rw [append_assoc]
  refine Perm.append_left _ ((hsplit.append_left c.closed).trans ?_)
  rw [← append_assoc, ← append_assoc]
  exact Perm.append_right _ perm_append_comm

theorem consume (h : c.Balanced) (i : Nat) : (c.consume decode i).2.Balanced := by
  unfold Conn.consume
  split
  · exact h
  · exact takeFiles (c := { c with rbuf := Slice.shift (i + 1) c.rbuf, pos := c.pos + i + 1 }) h _

theorem receive (h : c.Balanced) (hr : c.receive decode script = some (res, c', rest)) : c'.Balanced :=
  receive_keeps (fun _ x hc => hc.read x) (fun _ i hc => hc.consume i) h hr

theorem shutdown (h : c.Balanced) (cause : String) : (c.shutdown cause).Balanced := by
  unfold Conn.shutdown
  split
  · exact h
  · intro hvalid
    simpa using h hvalid

end Conn.Balanced

/-- The states of a connection: messages are received while it is open, an error breaks it, and it may
be closed between two of them. -/
inductive Reached (decode : List UInt8 → Except String ρ) : Conn → Prop where
  | start : Reached decode {}
  | receive {c c' : Conn} {script rest : List Recv} {reply : ρ × List Int} (h : Reached decode c)
      (hopen : c.err = none) (hr : c.receive decode script = some (.ok reply, c', rest)) : Reached decode c'
  | broken {c c' : Conn} {script rest : List Recv} {err : String} (h : Reached decode c)
      (hopen : c.err = none) (hr : c.receive decode script = some (.error err, c', rest)) :
      Reached decode (c'.shutdown err)
  | close {c : Conn} {cause : String} (h : Reached decode c) : Reached decode (c.shutdown cause)

theorem Conn.collectRights_err (last : Nat) (c : Conn) (msgs : List Control) :
    (collectRights last c msgs).2.err = c.err := by
  induction msgs generalizing c with
  | nil => rfl
  | cons m msgs ih =>
    cases m with
    | rights fds => exact ih (c.addRights last fds)
    | other => exact ih c
    | malformed err => rfl

theorem Conn.read_err (c : Conn) (x : Recv) : (c.read x).2.err = c.err := by
  have hoob : (c.readOob x).2.err = c.err := by
    simp only [readOob]
    split
    · rfl
    · exact collectRights_err ..
  unfold read
  split
  · rename_i heq
    rwa [heq] at hoob
  · rename_i heq
    rw [heq] at hoob
    split <;> exact hoob

theorem Conn.receive_open (h : c.err = none) (hr : c.receive decode script = some (res, c', rest)) : c'.err = none := by
  refine receive_keeps (I := fun c => c.err = none) (fun c x hc => (c.read_err x).trans hc)
    (fun c i hc => ?_) h hr
  unfold consume
  split <;> exact hc

theorem Reached.settled (h : Reached decode c) : c.Balanced ∧ (c.err ≠ none → c.rights = []) := by
  have hshut : ∀ {c : Conn} (cause : String), c.err = none → (c.shutdown cause).rights = [] := by
    intro c cause hopen
    rw [Conn.shutdown, hopen]
    rfl
  induction h with
  | start => exact ⟨fun _ => Perm.refl _, fun _ => rfl⟩
  | receive _ hopen hr ih =>
    exact ⟨ih.1.receive hr, fun hdown => absurd (Conn.receive_open hopen hr) hdown⟩
  | broken _ hopen hr ih =>
    exact ⟨(ih.1.receive hr).shutdown _, fun _ => hshut _ (Conn.receive_open hopen hr)⟩
  | @close c cause _ ih =>
    refine ⟨ih.1.shutdown _, fun hdown => ?_⟩
    by_cases hopen : c.err = none
    · exact hshut cause hopen
    · have hsame : c.shutdown cause = c := by
        rw [Conn.shutdown, if_pos (isSome_iff_ne_none.2 hopen)]
      rw [hsame]
      exact ih.2 hopen

namespace Sample

def messages : List Sent := [⟨[7], [[3]]⟩, ⟨[8, 9], [[4, 5]]⟩]

def results : List Recv := [
  { bytes := [7], oob := [.rights [3]] }, { bytes := [0, 8], oob := [.other, .rights [4, 5]] }, { bytes := [9, 0] }]

theorem cut : Cut messages results where
  clean := by
    intro x hx
    simp only [results, mem_cons, not_mem_nil, or_false] at hx
    rcases hx with rfl | rfl | rfl <;> constructor <;> simp
  bytes := by decide
  valid := by decide
  rule := by
    intro before m after h
    match before, h with
    | [], h =>
      cases h
      decide
    | [_], h =>
      cases h
      decide
    | _ :: _ :: _, h => simp [messages] at h

end Sample
open Sample

end VmManager.Varlink
