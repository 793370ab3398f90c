import VmManager.Encoding.Hex
import VmManager.Interleaving.Stepper
import VmManager.Runtime.Qmp

/-! The bytes the QMP client sends. Requests are written one after the other on one connection, without a
separator, and the server takes a request to end where its braces close. A write that fails may have sent a part
of the request. -/
namespace VmManager.Runtime.Qmp
open Encoding Interleaving List Option Function
variable {q q' : QMP} {bytes : Nat}

/-- Where the server is in a text: how many braces and brackets are open, and whether it is in a string. -/
structure Lex where
  depth : Nat := 0
  quoted : Bool := false
  escaped : Bool := false
deriving DecidableEq, Repr

def Lex.feed (l : Lex) (c : Char) : Lex :=
  if l.escaped then { l with escaped := false }
  else if l.quoted then
    if c = '\\' then { l with escaped := true } else if c = '"' then { l with quoted := false } else l
  else if c = '"' then { l with quoted := true }
  else if c = '\x7b' ∨ c = '[' then { l with depth := l.depth + 1 }
  else if c = '\x7d' ∨ c = ']' then { l with depth := l.depth - 1 }
  else l

def messagesFrom (l : Lex) (acc : Text) : Text → List Text × Text
  | [] => ([], acc)
  | c :: t =>
    if 0 < l.depth ∧ (l.feed c).depth = 0 then
      ((acc ++ [c]) :: (messagesFrom (l.feed c) [] t).1, (messagesFrom (l.feed c) [] t).2)
    else messagesFrom (l.feed c) (acc ++ [c]) t

def messages (t : Text) : List Text × Text := messagesFrom {} [] t

structure Balanced (t : Text) : Prop where
  returns : ∀ n, t.foldl Lex.feed ⟨n + 1, false, false⟩ = ⟨n + 1, false, false⟩
  inside : ∀ n p, p <+: t → 0 < (p.foldl Lex.feed ⟨n + 1, false, false⟩).depth

/-- What is used of json.Marshal: a string as JSON, and the arguments of each call if it has any. -/
structure Marshal where
  quote : String → Text
  arguments : Nat → Option Text
  quote_balanced : ∀ s, Balanced (quote s)
  arguments_balanced : ∀ t a, arguments t = some a → Balanced a

def Marshal.request (m : Marshal) (t : Nat) (command : String) (id : Nat) : Text :=
  '\x7b' :: ("\"execute\":".toList ++ m.quote command ++
    (match m.arguments t with
      | some a => ",\"arguments\":".toList ++ a
      | none => []) ++
    ",\"id\":".toList ++ Nat.toDigits 10 id) ++ ['\x7d']

/-- The client, the bytes it has sent and the requests that were sent as a whole. -/
structure Wire where
  q : QMP := {}
  sent : Text := []
  whole : List (Nat × Text) := []

section wire
variable (m : Marshal)

def Wire.write (w : Wire) (t : Nat) (request : Text) (bytes : Nat) : Wire :=
  { w with
    sent := w.sent ++ request.take bytes
    whole := if request.length ≤ bytes then w.whole ++ [(t, request)] else w.whole }

def Wire.writes (w : Wire) (bytes : Nat) : Move → Option (Nat × Text × Nat)
  | .go t c => match w.q.calls t with
    | some call => match call.phase, c with
      | .encoded r, .ok => some (t, m.request t call.command r.id, (m.request t call.command r.id).length)
      | .encoded r, .err _ => some (t, m.request t call.command r.id, bytes)
      | _, _ => none
    | none => none
  | _ => none

def wireStep (w : Wire) (mv : Move × Nat) : Option Wire :=
  (w.q.step mv.1).map fun q' => match w.writes m mv.2 mv.1 with
    | some (t, request, bytes) => { w.write t request bytes with q := q' }
    | none => { w with q := q' }

/-- A write that fails has sent nothing of its request, or all of it. -/
def NoPart (w : Wire) (mv : Move × Nat) : Prop :=
  ∀ t request bytes, w.writes m mv.2 mv.1 = some (t, request, bytes) → bytes = 0 ∨ request.length ≤ bytes

end wire

section frame
variable {l : Lex} {acc t rest : Text}

theorem messagesFrom_append (h : ∀ p, p <+: t → 0 < (p.foldl Lex.feed l).depth) :
    messagesFrom l acc (t ++ rest) = messagesFrom (t.foldl Lex.feed l) (acc ++ t) rest := by
  induction t generalizing l acc with
  | nil => simp
  | cons c t ih =>
    have hc : 0 < (l.feed c).depth := h [c] (by simp)
    rw [cons_append, messagesFrom, if_neg (by omega), ih fun p hp => h (c :: p) (by simpa using hp)]
    simp

theorem Balanced.append {t' : Text} (h : Balanced t) (h' : Balanced t') : Balanced (t ++ t') where
  returns n := by rw [foldl_append, h.returns, h'.returns]
  inside n p hp := by
    obtain ⟨q, hq⟩ := hp
    rcases append_eq_append_iff.1 hq with ⟨a, ha, -⟩ | ⟨a, ha, ha'⟩
    · exact h.inside n p ⟨a, ha.symm⟩
    · rw [ha, foldl_append, h.returns]
      exact h'.inside n a ⟨q, ha'.symm⟩

def isBrace (c : Char) : Bool := c = '\x7b' || c = '[' || c = '\x7d' || c = ']'

theorem feed_of_noBrace {c : Char} (h : isBrace c = false) (l : Lex) (n : Nat) :
    Lex.feed { l with depth := n } c = { l.feed c with depth := n } := by
  have hopen : ¬ (c = '\x7b' ∨ c = '[') := by
    rintro (rfl | rfl) <;> cases h
  have hclose : ¬ (c = '\x7d' ∨ c = ']') := by
    rintro (rfl | rfl) <;> cases h
  unfold Lex.feed
  split
  · rfl
  · split
    · split
      · rfl
      · split <;> rfl
    · split <;> rfl

theorem foldl_of_noBrace (h : ∀ c ∈ t, isBrace c = false) (l : Lex) (n : Nat) :
    t.foldl Lex.feed { l with depth := n } = { t.foldl Lex.feed l with depth := n } := by
  induction t generalizing l with
  | nil => rfl
  | cons c t ih =>
    rw [foldl_cons, foldl_cons, feed_of_noBrace (h c mem_cons_self), ih (forall_mem_cons.1 h).2]

theorem balanced_of_noBrace (h : ∀ c ∈ t, isBrace c = false) (hreturns : t.foldl Lex.feed {} = {}) : Balanced t where
  returns n := by
    have hn := foldl_of_noBrace h {} (n + 1)
    rw [hreturns] at hn
    exact hn
  inside n p hp := by
    have hn := foldl_of_noBrace (fun c hc => h c (hp.subset hc)) {} (n + 1)
    rw [hn]
    exact Nat.succ_pos n

theorem balanced_toDigits (n : Nat) : Balanced (Nat.toDigits 10 n) := by
  have hdigit : ∀ c ∈ Nat.toDigits 10 n, c.isDigit = true :=
    fun c hc => Nat.isDigit_of_mem_toDigits (by decide) (by decide) hc
  have hne : ∀ c : Char, c.isDigit = true → isBrace c = false ∧ c ≠ '"' := by
    intro c hc
    refine ⟨?_, ?_⟩
    · by_contra hb
      simp only [isBrace, Bool.not_eq_false, Bool.or_eq_true, decide_eq_true_eq] at hb
      rcases hb with ((rfl | rfl) | rfl) | rfl <;> exact absurd hc (by decide)
    · rintro rfl
      exact absurd hc (by decide)
  have hfold : ∀ t : Text, (∀ c ∈ t, c.isDigit = true) → t.foldl Lex.feed {} = {} := by
    intro t ht
    induction t with
    | nil => rfl
    | cons c t ih =>
      obtain ⟨hb, hq⟩ := hne c (ht c mem_cons_self)
      have hstay : Lex.feed {} c = {} := by
        simp only [isBrace, Bool.or_eq_false_iff, decide_eq_false_iff_not] at hb
        simp [Lex.feed, hq, hb]
      rw [foldl_cons, hstay]
      exact ih (forall_mem_cons.1 ht).2
  exact balanced_of_noBrace (fun c hc => (hne c (hdigit c hc)).1) (hfold _ hdigit)

theorem messagesFrom_object (h : Balanced t) (rest : Text) : messagesFrom {} [] ('\x7b' :: t ++ ['\x7d'] ++ rest) =
      (('\x7b' :: t ++ ['\x7d']) :: (messages rest).1, (messages rest).2) := by
  have hopen : messagesFrom {} [] ('\x7b' :: (t ++ '\x7d' :: rest)) =
      messagesFrom ⟨1, false, false⟩ ['\x7b'] (t ++ '\x7d' :: rest) := rfl
  have htext : '\x7b' :: t ++ ['\x7d'] ++ rest = '\x7b' :: (t ++ '\x7d' :: rest) := by simp
  rw [htext, hopen, messagesFrom_append (h.inside 0), h.returns 0, messagesFrom, if_pos (by decide)]
  rfl

theorem messages_flatten {objects : List Text} (h : ∀ o ∈ objects, ∃ t, Balanced t ∧ o = '\x7b' :: t ++ ['\x7d']) :
    messages objects.flatten = (objects, []) := by
  induction objects with
  | nil => rfl
  | cons o objects ih =>
    obtain ⟨t, ht, rfl⟩ := h o mem_cons_self
    rw [flatten_cons, messages, messagesFrom_object ht, ih (forall_mem_cons.1 h).2]

theorem request_object (m : Marshal) (t : Nat) (command : String) (id : Nat) :
    ∃ body, Balanced body ∧ m.request t command id = '\x7b' :: body ++ ['\x7d'] := by
  have hargs : Balanced (match m.arguments t with
      | some a => ",\"arguments\":".toList ++ a
      | none => []) := by
    cases ha : m.arguments t with
    | none => exact balanced_of_noBrace nofun rfl
    | some a =>
      refine Balanced.append (balanced_of_noBrace (forall_iff_forall_mem.1 (by decide)) (by decide)) (m.arguments_balanced t a ha)
  refine ⟨_, Balanced.append (Balanced.append (Balanced.append (Balanced.append ?_ (m.quote_balanced command)) hargs)
    ?_) (balanced_toDigits id), rfl⟩
  · exact balanced_of_noBrace (forall_iff_forall_mem.1 (by decide)) (by decide)
  · exact balanced_of_noBrace (forall_iff_forall_mem.1 (by decide)) (by decide)

end frame

section wire
variable {m : Marshal} {w w' : Wire} {mv : Move × Nat}

def Phase.written : Phase → Option Ticket
  | .waiting r | .ended r => some r
  | .returned (some r) (some _) _ => some r
  | _ => none

structure Sent (m : Marshal) (w : Wire) : Prop where
  sent : w.sent = (w.whole.map Prod.snd).flatten
  objects : ∀ x ∈ w.whole, ∃ body, Balanced body ∧ x.2 = '\x7b' :: body ++ ['\x7d']
  written : ∀ t call r, w.q.calls t = some call → call.phase.written = some r →
    (t, m.request t call.command r.id) ∈ w.whole

theorem QMP.advance_calls {t : Nat} {call : Call} {phase : Phase} {c : Choice}
    (h : q.advance t call phase c = some q') : ∃ phase',
    q'.calls = update q.calls t (some { call with phase := phase' }) ∧
      ∀ r, phase'.written = some r → phase.written = some r ∨ (phase = .encoded r ∧ c = .ok) := by
  unfold QMP.advance at h
  split at h
  · split at h
    · cases h
      exact ⟨_, rfl, nofun⟩
    · cases h
      exact ⟨_, rfl, nofun⟩
  · cases h
    exact ⟨_, rfl, nofun⟩
  · cases h
    exact ⟨_, rfl, nofun⟩
  · cases h
    exact ⟨_, rfl, nofun⟩
  · cases h
    refine ⟨_, rfl, fun r hr => ?_⟩
    cases hr
    exact .inr ⟨rfl, rfl⟩
  · cases h
    exact ⟨_, rfl, nofun⟩
  · split at h <;> cases h
    refine ⟨_, rfl, fun r hr => ?_⟩
    cases hr
    exact .inl rfl
  · cases h
    exact ⟨_, rfl, nofun⟩
  · split at h <;> cases h
    refine ⟨_, rfl, fun r hr => ?_⟩
    cases hr
    exact .inl rfl
  · split at h
    · cases h
      refine ⟨_, rfl, fun r hr => ?_⟩
      cases hr
      exact .inl rfl
    · cases h
      exact ⟨_, rfl, nofun⟩
  · cases h
    exact ⟨_, rfl, nofun⟩
  · cases h

theorem QMP.dispatch_calls (q : QMP) (msg : Message) : (q.dispatch msg).calls = q.calls := by
  unfold QMP.dispatch QMP.deliver QMP.lookup
  split
  · split <;> rfl
  · split <;> rfl

theorem QMP.read_calls (h : q.read = some q') : q'.calls = q.calls := by
  unfold QMP.read at h
  split at h
  · cases h
  · cases h
  · split at h <;> cases h
    rfl
  · cases h
    rfl
  · cases h
    rfl

theorem QMP.step_written {mv : Move} (h : q.step mv = some q') {t : Nat} {call' : Call} {r : Ticket}
    (hc : q'.calls t = some call') (hr : call'.phase.written = some r) :
    ∃ call, q.calls t = some call ∧ call.command = call'.command ∧
      (call.phase.written = some r ∨ (call.phase = .encoded r ∧ mv = .go t .ok)) := by
  have hsame : q'.calls = q.calls → ∃ call, q.calls t = some call ∧ call.command = call'.command ∧
      (call.phase.written = some r ∨ (call.phase = .encoded r ∧ mv = .go t .ok)) :=
    fun heq => ⟨call', heq ▸ hc, rfl, .inl hr⟩
  cases mv with
  | execute command result =>
    cases h
    simp only [QMP.execute, update_apply] at hc
    split at hc
    · cases hc
      cases hr
    · exact ⟨call', hc, rfl, .inl hr⟩
  | go t' c =>
    obtain ⟨call, hcall, hadv⟩ := bind_eq_some_iff.1 h
    obtain ⟨phase', hcalls, hwritten⟩ := QMP.advance_calls hadv
    rw [hcalls, update_apply] at hc
    split at hc
    · rename_i ht
      subst ht
      cases hc
      refine ⟨call, hcall, rfl, (hwritten r hr).imp_right fun henc => ⟨henc.1, ?_⟩⟩
      rw [henc.2]
    · exact ⟨call', hc, rfl, .inl hr⟩
  | message msg =>
    simp only [QMP.step] at h
    split at h <;> cases h
    exact hsame (q.dispatch_calls msg)
  | eof err =>
    simp only [QMP.step] at h
    split at h <;> cases h
    exact hsame rfl
  | read => exact hsame (QMP.read_calls h)
  | takeEvent =>
    simp only [QMP.step] at h
    split at h <;> cases h
    exact hsame rfl

namespace Sent

theorem write (h : Sent m w) {t : Nat} {request : Text} (hpart : bytes = 0 ∨ request.length ≤ bytes) :
    (w.write t request bytes).sent = ((w.write t request bytes).whole.map Prod.snd).flatten ∧
    ∀ x ∈ (w.write t request bytes).whole, x ∈ w.whole ∨ x = (t, request) := by
  by_cases hlen : request.length ≤ bytes
  · have hwhole : (w.write t request bytes).whole = w.whole ++ [(t, request)] := if_pos hlen
    have hsent : (w.write t request bytes).sent = w.sent ++ request := by
      simp only [Wire.write, take_of_length_le hlen]
    rw [hwhole, hsent, h.sent]
    simp
  · have hwhole : (w.write t request bytes).whole = w.whole := if_neg hlen
    have hsent : (w.write t request bytes).sent = w.sent := by
      simp only [Wire.write, hpart.resolve_right hlen, take_zero, append_nil]
    rw [hwhole, hsent]
    exact ⟨h.sent, fun x hx => .inl hx⟩

theorem whole_subset {t : Nat} {request : Text} {x : Nat × Text} (hx : x ∈ w.whole) :
    x ∈ (w.write t request bytes).whole := by
  simp only [Wire.write]
  split
  · exact mem_append_left _ hx
  · exact hx

theorem writes_cases {bytes n : Nat} {move : Move} {t : Nat} {request : Text}
    (h : w.writes m bytes move = some (t, request, n)) : ∃ call r, w.q.calls t = some call ∧ call.phase = .encoded r ∧
      request = m.request t call.command r.id := by
  unfold Wire.writes at h
  split at h
  · split at h
    · rename_i call hcall
      split at h
      · rename_i r hphase
        cases h
        exact ⟨call, r, hcall, hphase, rfl⟩
      · rename_i r _ hphase
        cases h
        exact ⟨call, r, hcall, hphase, rfl⟩
      · cases h
    · cases h
  · cases h

theorem step (h : Sent m w) (hk : NoPart m w mv) (hstep : wireStep m w mv = some w') : Sent m w' := by
  obtain ⟨q', hq, rfl⟩ := map_eq_some_iff.1 hstep
  -- A call that has written its request is in the list already, or its write is this step's.
  have hold : ∀ t call' r, q'.calls t = some call' → call'.phase.written = some r →
      (t, m.request t call'.command r.id) ∈ w.whole ∨
      w.writes m mv.2 mv.1 = some (t, m.request t call'.command r.id, (m.request t call'.command r.id).length) := by
    intro t call' r hc hr
    obtain ⟨call, hcall, hcmd, hwritten | ⟨henc, hmv⟩⟩ := QMP.step_written hq hc hr
    · rw [← hcmd]
      exact .inl (h.written t call r hcall hwritten)
    · rw [← hcmd]
      exact .inr (by simp only [Wire.writes, hmv, hcall, henc])
  cases hwrites : w.writes m mv.2 mv.1 with
  | none =>
    refine ⟨h.sent, h.objects, fun t call' r hc hr => ?_⟩
    rcases hold t call' r hc hr with hin | hnow
    · exact hin
    · rw [hwrites] at hnow
      cases hnow
  | some x =>
    obtain ⟨t₀, request, bytes⟩ := x
    obtain ⟨hsent, hmem⟩ := h.write (t := t₀) (hk t₀ request bytes hwrites)
    refine ⟨hsent, fun x hx => ?_, fun t call' r hc hr => ?_⟩
    · rcases hmem x hx with hx | rfl
      · exact h.objects x hx
      · obtain ⟨call, r, -, -, rfl⟩ := writes_cases hwrites
        exact request_object m t₀ call.command r.id
    · rcases hold t call' r hc hr with hin | hnow
      · exact whole_subset hin
      · rw [hwrites] at hnow
        cases hnow
        simp [Wire.write]

end Sent

theorem requests_separate (m : Marshal) {w : Wire} (h : Reached (wireStep m) (· = {}) (NoPart m) w) :
    messages w.sent = (w.whole.map Prod.snd, []) ∧
    (∀ x ∈ w.whole, ∃ body, Balanced body ∧ x.2 = '\x7b' :: body ++ ['\x7d']) ∧
    ∀ t call r, w.q.calls t = some call → call.phase.written = some r →
      (t, m.request t call.command r.id) ∈ w.whole := by
  have hinv : Sent m w := by
    refine h.invariant (fun s hs => ?_) fun s mv s' hi hk hstep => hi.step hk hstep
    subst hs
    exact ⟨rfl, nofun, nofun⟩
  refine ⟨?_, hinv.objects, hinv.written⟩
  rw [hinv.sent]
  refine messages_flatten fun o ho => ?_
  obtain ⟨x, hx, rfl⟩ := List.mem_map.1 ho
  exact hinv.objects x hx

end wire

def noPart (m : Marshal) (w : Wire) (mv : Move × Nat) : Bool :=
  (w.writes m mv.2 mv.1).all fun x => x.2.2 = 0 || x.2.1.length ≤ x.2.2

theorem NoPart.of_check {m : Marshal} {w : Wire} {mv : Move × Nat} (h : noPart m w mv = true) : NoPart m w mv := by
  intro t request bytes hw
  simpa [noPart, hw] using h

namespace Sample

def plain (c : Char) : Bool := !isBrace c && c ≠ '"' && c ≠ '\\'

def quote (s : String) : Text := '"' :: s.toList.filter plain ++ ['"']

theorem quoted_foldl {t : Text} (h : ∀ c ∈ t, plain c = true) :
    t.foldl Lex.feed ⟨0, true, false⟩ = ⟨0, true, false⟩ := by
  induction t with
  | nil => rfl
  | cons c t ih =>
    have hc := h c mem_cons_self
    simp only [plain, Bool.and_eq_true, decide_eq_true_eq] at hc
    have hstay : Lex.feed ⟨0, true, false⟩ c = ⟨0, true, false⟩ := by simp [Lex.feed, hc.1.2, hc.2]
    rw [foldl_cons, hstay]
    exact ih (forall_mem_cons.1 h).2

theorem quote_balanced (s : String) : Balanced (quote s) := by
  have hplain : ∀ c ∈ s.toList.filter plain, plain c = true := fun c hc => (mem_filter.1 hc).2
  refine balanced_of_noBrace (fun c hc => ?_) ?_
  · simp only [quote, cons_append, mem_cons, mem_append, not_mem_nil, or_false] at hc
    rcases hc with rfl | hc | rfl
    · rfl
    · have hp := hplain c hc
      simp only [plain, Bool.and_eq_true, Bool.not_eq_true'] at hp
      exact hp.1.1
    · rfl
  · have hopen : ('"' :: s.toList.filter plain).foldl Lex.feed {} = ⟨0, true, false⟩ := quoted_foldl hplain
    rw [quote, foldl_append, hopen]
    decide

def marshal : Marshal where
  quote := quote
  arguments _ := none
  quote_balanced := quote_balanced
  arguments_balanced := nofun

def moves (bytes : Nat) : List (Move × Nat) :=
  [(.execute "query-status" true, 0), (.go 0 .ok, 0), (.go 0 .ok, 0), (.go 0 .ok, 0), (.go 0 (.err "i/o timeout"), bytes),
    (.execute "quit" false, 0), (.go 1 .ok, 0), (.go 1 .ok, 0), (.go 1 .ok, 0), (.go 1 .ok, 0)]

def quit : Text := "\x7b\"execute\":\"quit\",\"id\":2\x7d".toList

end Sample
open Sample

theorem requests_separate_quit : ∃ w, Reached (wireStep marshal) (· = {}) (NoPart marshal) w ∧
    w.whole = [(1, quit)] ∧ messages w.sent = ([quit], []) := by
  have hrun : (execAll (wireStep marshal) (noPart marshal) {} (moves 0)).any
      (fun w => w.whole = [(1, quit)]) = true := by decide +kernel
  obtain ⟨w, hw, hwhole⟩ := (Option.any_eq_true _ _).1 hrun
  have hwhole : w.whole = [(1, quit)] := of_decide_eq_true hwhole
  have hstart : Reached (wireStep marshal) (· = {}) (NoPart marshal) {} := .start rfl
  have hreached := hstart.execAll (fun _ _ => NoPart.of_check) hw
  have hsep := (requests_separate marshal hreached).1
  rw [hwhole] at hsep
  exact ⟨w, hreached, hwhole, hsep⟩

theorem request_swallowed :
    (execAll (wireStep marshal) (fun _ _ => true) {} (moves 5)).any (fun w =>
      w.whole = [(1, quit)] && (messages w.sent).1 = [] &&
      (w.q.calls 1).any fun call => call.phase.written.isSome) = true := by
  decide +kernel

end VmManager.Runtime.Qmp
