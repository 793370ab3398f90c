import VmManager.Encoding.Hex

/-! JSON text as the sequence of its tokens, as Go's encoding/json scans it and writes it indented. A string
literal and a number are kept as they are spelled; what a string literal means is a second step, in which
halves of surrogate pairs are put together. Indented tokens are read back. -/
namespace VmManager.Encoding.Json
open List Function
variable {ts : List Token} {rest before t : Text} {c : Char} {s : NumState}

def plain (c : Char) : Bool := 0x20 ≤ c.toNat && c ≠ '"' && c ≠ '\\'

inductive Escape where
  | quote | backslash | slash | backspace | formFeed | newline | carriageReturn | tab
deriving DecidableEq, Repr

namespace Escape

def char : Escape → Char
  | quote => '"'
  | backslash => '\\'
  | slash => '/'
  | backspace => 'b'
  | formFeed => 'f'
  | newline => 'n'
  | carriageReturn => 'r'
  | tab => 't'

def meaning : Escape → Char
  | quote => '"'
  | backslash => '\\'
  | slash => '/'
  | backspace => '\x08'
  | formFeed => '\x0c'
  | newline => '\n'
  | carriageReturn => '\r'
  | tab => '\t'

def all : List Escape := [quote, backslash, slash, backspace, formFeed, newline, carriageReturn, tab]

def ofChar (c : Char) : Option Escape := all.find? fun e => e.char = c

end Escape

abbrev HexDigit := { c : Char // (hexValue c).isSome = true }

def HexDigit.value (x : HexDigit) : Nat := (hexValue x.1).getD 0

inductive Piece where
  | char (c : Char) (h : plain c = true)
  | escape (e : Escape)
  | unicode (w x y z : HexDigit)
deriving DecidableEq, Repr

inductive Rune where
  | char (c : Char)
  | surrogate (code : Nat)
deriving DecidableEq, Repr

abbrev Literal := List Piece

namespace Piece

def text : Piece → Text
  | char c _ => [c]
  | escape e => ['\\', e.char]
  | unicode w x y z => ['\\', 'u', w.1, x.1, y.1, z.1]

def rune : Piece → Rune
  | char c _ => .char c
  | escape e => .char e.meaning
  | unicode w x y z =>
    let code := ((w.value * 16 + x.value) * 16 + y.value) * 16 + z.value
    if 0xD800 ≤ code ∧ code ≤ 0xDFFF then .surrogate code else .char (Char.ofNat code)

def hexDigitOf (n : Nat) : HexDigit := ⟨hexDigit (n % 16), by rw [hexValue_hexDigit (Nat.mod_lt n (by decide))]; rfl⟩

def ofCode (n : Nat) : Piece :=
  unicode (hexDigitOf (n / 4096)) (hexDigitOf (n / 256)) (hexDigitOf (n / 16)) (hexDigitOf n)

def markup (c : Char) : Bool := c ∈ ['<', '>', '&', Char.ofNat 0x2028, Char.ofNat 0x2029]

def escapeHTML : Piece → Piece
  | char c h => if markup c then ofCode c.toNat else char c h
  | p => p

end Piece

def replacement : Char := Char.ofNat 0xFFFD

/-- The text of runes, after the half of a pair that was read last, if any. A half without the other becomes the
replacement character. -/
def joinRunes : Option Nat → List Rune → Text
  | none, [] => []
  | some _, [] => [replacement]
  | none, .char c :: rest => c :: joinRunes none rest
  | some _, .char c :: rest => replacement :: c :: joinRunes none rest
  | none, .surrogate code :: rest => joinRunes (some code) rest
  | some hi, .surrogate lo :: rest =>
    if hi < 0xDC00 ∧ 0xDC00 ≤ lo then
      Char.ofNat (0x10000 + (hi - 0xD800) * 0x400 + (lo - 0xDC00)) :: joinRunes none rest
    else replacement :: joinRunes (some lo) rest

def quoteChar (c : Char) : Piece :=
  match [Escape.quote, .backslash, .backspace, .formFeed, .newline, .carriageReturn, .tab].find?
      fun e => e.meaning = c with
  | some e => .escape e
  | none => if h : plain c = true then (Piece.char c h).escapeHTML else .ofCode c.toNat

namespace Literal

def text (s : Literal) : Text := s.flatMap Piece.text

def unquote (s : Literal) : Text := joinRunes none (s.map Piece.rune)

def escapeHTML (s : Literal) : Literal := s.map Piece.escapeHTML

def quote (t : Text) : Literal := t.map quoteChar

end Literal

inductive InString where
  | body | esc | escU
  | escU1 (w : HexDigit)
  | escU12 (w x : HexDigit)
  | escU123 (w x y : HexDigit)
deriving DecidableEq, Repr

def HexDigit.ofChar (c : Char) : Option HexDigit := if h : (hexValue c).isSome = true then some ⟨c, h⟩ else none

def scanString : InString → Text → Option (Literal × Text)
  | _, [] => none
  | .body, c :: rest =>
    if c = '"' then some ([], rest)
    else if c = '\\' then scanString .esc rest
    else if h : plain c = true then (scanString .body rest).map fun r => (.char c h :: r.1, r.2)
    else none
  | .esc, c :: rest =>
    if c = 'u' then scanString .escU rest
    else match Escape.ofChar c with
      | some e => (scanString .body rest).map fun r => (.escape e :: r.1, r.2)
      | none => none
  | .escU, c :: rest => (HexDigit.ofChar c).bind fun w => scanString (.escU1 w) rest
  | .escU1 w, c :: rest => (HexDigit.ofChar c).bind fun x => scanString (.escU12 w x) rest
  | .escU12 w x, c :: rest => (HexDigit.ofChar c).bind fun y => scanString (.escU123 w x y) rest
  | .escU123 w x y, c :: rest => (HexDigit.ofChar c).bind fun z =>
    (scanString .body rest).map fun r => (.unicode w x y z :: r.1, r.2)

inductive NumState where
  | start | neg | zero | int | dot | frac | exp | expSign | expDigits
deriving DecidableEq, Repr

namespace NumState

def step (s : NumState) (c : Char) : Option NumState :=
  match s with
  | start => if c = '-' then some neg else if c = '0' then some zero else if c.isDigit then some int else none
  | neg => if c = '0' then some zero else if c.isDigit then some int else none
  | zero => if c = '.' then some dot else if c = 'e' ∨ c = 'E' then some exp else none
  | int => if c.isDigit then some int else if c = '.' then some dot else if c = 'e' ∨ c = 'E' then some exp
    else none
  | dot => if c.isDigit then some frac else none
  | frac => if c.isDigit then some frac else if c = 'e' ∨ c = 'E' then some exp else none
  | exp => if c = '+' ∨ c = '-' then some expSign else if c.isDigit then some expDigits else none
  | expSign | expDigits => if c.isDigit then some expDigits else none

def final : NumState → Bool
  | zero | int | frac | expDigits => true
  | _ => false

end NumState

def scanNumber : NumState → Text → Option (Text × Text)
  | s, [] => if s.final then some ([], []) else none
  | s, c :: rest => match s.step c with
    | some next => (scanNumber next rest).map fun r => (c :: r.1, r.2)
    | none => if s.final then some ([], c :: rest) else none

theorem scanNumber_self {t lit rest : Text} (h : scanNumber s t = some (lit, rest)) :
    scanNumber s lit = some (lit, []) := by
  induction t generalizing s lit with
  | nil =>
    simp only [scanNumber] at h
    split at h <;> cases h
    rw [scanNumber, if_pos ‹_›]
  | cons c t ih =>
    simp only [scanNumber] at h
    split at h
    · rename_i next hstep
      obtain ⟨⟨lit', rest'⟩, hscan, heq⟩ := Option.map_eq_some_iff.1 h
      cases heq
      simp [scanNumber, hstep, ih hscan]
    · split at h <;> cases h
      rw [scanNumber, if_pos ‹_›]

abbrev Number := { lit : Text // scanNumber .start lit = some (lit, []) }

inductive Token where
  | lbrace | rbrace | lbracket | rbracket | colon | comma
  | null
  | bool (b : Bool)
  | num (n : Number)
  | str (s : Literal)
deriving DecidableEq, Repr

namespace Token

def text : Token → Text
  | lbrace => ['\x7b']
  | rbrace => ['\x7d']
  | lbracket => ['[']
  | rbracket => [']']
  | colon => [':']
  | comma => [',']
  | null => "null".toList
  | bool true => "true".toList
  | bool false => "false".toList
  | num n => n.1
  | str s => '"' :: (Literal.text s ++ ['"'])

def isNum : Token → Bool
  | num _ => true
  | _ => false

end Token

def scanNumberToken (t : Text) : Option (Token × Text) :=
  match h : scanNumber .start t with
  | some (lit, rest) => some (.num ⟨lit, scanNumber_self h⟩, rest)
  | none => none

def scanToken : Text → Option (Token × Text)
  | [] => none
  | c :: rest => match c with
    | '\x7b' => some (.lbrace, rest)
    | '\x7d' => some (.rbrace, rest)
    | '[' => some (.lbracket, rest)
    | ']' => some (.rbracket, rest)
    | ':' => some (.colon, rest)
    | ',' => some (.comma, rest)
    | '"' => (scanString .body rest).map fun r => (.str r.1, r.2)
    | 'n' => if "ull".toList.isPrefixOf rest then some (.null, rest.drop 3) else none
    | 't' => if "rue".toList.isPrefixOf rest then some (.bool true, rest.drop 3) else none
    | 'f' => if "alse".toList.isPrefixOf rest then some (.bool false, rest.drop 4) else none
    | c => scanNumberToken (c :: rest)

def isSpace (c : Char) : Bool := c ∈ [' ', '\t', '\n', '\r']

def scan : Nat → Text → Option (List Token)
  | _, [] => some []
  | 0, _ :: _ => none
  | n + 1, c :: rest =>
    if isSpace c then scan n rest
    else match scanToken (c :: rest) with
      | some (t, rest) => (scan n rest).map (t :: ·)
      | none => none

def newline (depth : Nat) : Text := '\n' :: List.replicate (2 * depth) ' '

/-- `json.Indent` without a first indentation, and with two blanks for each level. `need` says that an array or
an object was just opened: its first line is begun once it turns out not to be empty. -/
def indent (need : Bool) (depth : Nat) : List Token → Text
  | [] => []
  | t :: ts =>
    let opened := need && t ≠ .rbrace && t ≠ .rbracket
    let depth := if opened then depth + 1 else depth
    let line := if opened then newline depth else []
    match t with
    | .lbrace | .lbracket => line ++ t.text ++ indent true depth ts
    | .comma => line ++ t.text ++ newline depth ++ indent false depth ts
    | .colon => line ++ t.text ++ ' ' :: indent false depth ts
    | .rbrace | .rbracket =>
      if need then t.text ++ indent false depth ts
      else newline (depth - 1) ++ t.text ++ indent false (depth - 1) ts
    | _ => line ++ t.text ++ indent false depth ts

section literals

theorem escape_char_ne (e : Escape) : e.char ≠ 'u' := by cases e <;> decide

@[simp] theorem ofChar_char (e : Escape) : Escape.ofChar e.char = some e := by cases e <;> decide

@[simp] theorem ofChar_val (x : HexDigit) : HexDigit.ofChar x.1 = some x := dif_pos x.2

theorem scanString_text (s : Literal) (rest : Text) :
    scanString .body (s.text ++ '"' :: rest) = some (s, rest) := by
  induction s with
  | nil => rfl
  | cons p s ih =>
    rw [Literal.text] at ih
    cases p with
    | char c h =>
      have hc : c ≠ '"' ∧ c ≠ '\\' := by
        simp only [plain, ne_eq, decide_not, Bool.and_eq_true, Bool.not_eq_true', decide_eq_false_iff_not] at h
        exact ⟨h.1.2, h.2⟩
      simp [Literal.text, Piece.text, scanString, hc, h, ih]
    | escape e => simp [Literal.text, Piece.text, scanString, escape_char_ne, ih]
    | unicode w x y z => simp [Literal.text, Piece.text, scanString, ih]

theorem hexDigitOf_value (n : Nat) : (Piece.hexDigitOf n).value = n % 16 := by
  simp [HexDigit.value, Piece.hexDigitOf, hexValue_hexDigit (Nat.mod_lt n (by decide : 0 < 16))]

theorem rune_ofCode {n : Nat} (h : n < 0xD800 ∨ (0xDFFF < n ∧ n < 0x10000)) :
    (Piece.ofCode n).rune = .char (Char.ofNat n) := by
  have hcode : ((n / 4096 % 16 * 16 + n / 256 % 16) * 16 + n / 16 % 16) * 16 + n % 16 = n := by omega
  simp only [Piece.ofCode, Piece.rune, hexDigitOf_value, hcode]
  rw [if_neg (by omega)]

theorem rune_ofCode_char (h : c.toNat < 0xD800) : (Piece.ofCode c.toNat).rune = .char c := by
  rw [rune_ofCode (.inl h), Char.ofNat_toNat]

@[simp] theorem rune_escapeHTML (p : Piece) : p.escapeHTML.rune = p.rune := by
  cases p with
  | char c h =>
    rw [Piece.escapeHTML]
    split
    · rename_i hmarkup
      refine rune_ofCode_char ?_
      simp only [Piece.markup, mem_cons, not_mem_nil, or_false, decide_eq_true_eq] at hmarkup
      rcases hmarkup with rfl | rfl | rfl | rfl | rfl <;> decide
    · rfl
  | escape e => rfl
  | unicode w x y z => rfl

theorem rune_quoteChar (c : Char) : (quoteChar c).rune = .char c := by
  unfold quoteChar
  split
  · rename_i e he
    have hmeaning := List.find?_some he
    simpa [Piece.rune] using hmeaning
  · rename_i hnone
    split
    · rw [rune_escapeHTML]
      rfl
    · rename_i hplain
      refine rune_ofCode_char ?_
      by_contra hlarge
      have hquote := List.find?_eq_none.1 hnone .quote (by simp)
      have hback := List.find?_eq_none.1 hnone .backslash (by simp)
      simp only [Escape.meaning] at hquote hback
      replace hquote : c ≠ '"' := fun h => hquote (by simp [h])
      replace hback : c ≠ '\\' := fun h => hback (by simp [h])
      refine hplain ?_
      simp only [plain, ne_eq, decide_not, Bool.and_eq_true, Bool.not_eq_true', decide_eq_false_iff_not,
        decide_eq_true_eq]
      exact ⟨⟨by omega, hquote⟩, hback⟩

theorem joinRunes_chars (t : Text) : joinRunes none (t.map .char) = t := by
  induction t with
  | nil => rfl
  | cons c t ih => rw [map_cons, joinRunes, ih]

@[simp] theorem unquote_quote (t : Text) : (Literal.quote t).unquote = t := by
  have hrunes : (Literal.quote t).map Piece.rune = t.map .char := by
    simp [Literal.quote, comp_def, rune_quoteChar]
  rw [Literal.unquote, hrunes, joinRunes_chars]

@[simp] theorem unquote_escapeHTML (s : Literal) : s.escapeHTML.unquote = s.unquote := by
  simp [Literal.unquote, Literal.escapeHTML, comp_def]

@[simp] theorem escapeHTML_escapeHTML (s : Literal) : s.escapeHTML.escapeHTML = s.escapeHTML := by
  have hpiece : ∀ p : Piece, p.escapeHTML.escapeHTML = p.escapeHTML := by
    intro p
    cases p with
    | char c h =>
      by_cases hmarkup : Piece.markup c = true
      · simp [Piece.escapeHTML, hmarkup, Piece.ofCode]
      · simp [Piece.escapeHTML, hmarkup]
    | escape e => rfl
    | unicode w x y z => rfl
  simp [Literal.escapeHTML, comp_def, hpiece]

end literals

section tokens

def Ends (t : Text) : Prop := ∀ c ∈ t.head?, ∀ s : NumState, s.step c = none

theorem scanNumber_append {lit rest : Text} (h : scanNumber s lit = some (lit, []))
    (hrest : Ends rest) : scanNumber s (lit ++ rest) = some (lit, rest) := by
  induction lit generalizing s with
  | nil =>
    have hfinal : s.final = true := by
      by_contra hf
      rw [scanNumber, if_neg hf] at h
      cases h
    cases rest with
    | nil => exact h
    | cons c rest =>
      rw [nil_append, scanNumber, hrest c rfl s]
      exact if_pos hfinal
  | cons c lit ih =>
    rw [scanNumber] at h
    rw [cons_append, scanNumber]
    cases hstep : s.step c with
    | none =>
      simp only [hstep] at h
      split at h <;> cases h
    | some next =>
      simp only [hstep] at h
      obtain ⟨⟨lit', rest'⟩, hscan, heq⟩ := Option.map_eq_some_iff.1 h
      cases heq
      simp [ih hscan]

theorem scanNumberToken_text (n : Number) (hrest : Ends rest) :
    scanNumberToken (n.1 ++ rest) = some (.num n, rest) := by
  have hscan := scanNumber_append n.2 hrest
  unfold scanNumberToken
  split
  · rename_i heq
    rw [hscan] at heq
    cases heq
    rfl
  · rename_i heq
    rw [hscan] at heq
    cases heq

theorem scanToken_number {next : NumState} (h : NumState.start.step c = some next) (rest : Text) :
    scanToken (c :: rest) = scanNumberToken (c :: rest) := by
  simp only [scanToken]
  split <;> first | rfl | cases h

theorem scanToken_text (t : Token) (h : t.isNum = true → Ends rest) :
    scanToken (t.text ++ rest) = some (t, rest) := by
  cases t with
  | num n =>
    obtain ⟨lit, hlit⟩ := n
    cases lit with
    | nil => cases hlit
    | cons c lit =>
      cases hstep : NumState.start.step c with
      | none => simp [scanNumber, hstep, NumState.final] at hlit
      | some next =>
        have hscan := scanNumberToken_text ⟨c :: lit, hlit⟩ (h rfl)
        rw [Token.text, cons_append, scanToken_number hstep]
        exact hscan
  | str s =>
    have hscan := scanString_text s rest
    simp [Token.text, scanToken, hscan]
  | bool b => cases b <;> simp [Token.text, scanToken]
  | _ => simp [Token.text, scanToken]

def Scans (t : Text) (ts : List Token) : Prop := ∀ n, t.length ≤ n → scan n t = some ts

theorem Scans.space (hspace : ∀ c ∈ before, isSpace c = true) (h : Scans t ts) : Scans (before ++ t) ts := by
  induction before with
  | nil => exact h
  | cons c before ih =>
    intro n hn
    cases n with
    | zero => simp at hn
    | succ n =>
      rw [cons_append, scan, if_pos (hspace c mem_cons_self)]
      refine ih (forall_mem_cons.1 hspace).2 n ?_
      simpa using hn

theorem text_head (t : Token) : ∃ c rest, t.text = c :: rest ∧ isSpace c = false := by
  cases t with
  | num n =>
    obtain ⟨lit, hlit⟩ := n
    cases lit with
    | nil => cases hlit
    | cons c lit =>
      refine ⟨c, lit, rfl, ?_⟩
      by_contra hspace
      simp only [isSpace, mem_cons, not_mem_nil, or_false, Bool.not_eq_false, decide_eq_true_eq]
        at hspace
      rcases hspace with rfl | rfl | rfl | rfl <;> cases hlit
  | bool b => cases b <;> exact ⟨_, _, rfl, rfl⟩
  | _ => exact ⟨_, _, rfl, rfl⟩

theorem Scans.token {t : Token} (hends : t.isNum = true → Ends rest)
    (h : Scans rest ts) : Scans (t.text ++ rest) (t :: ts) := by
  intro n hn
  have hscan := scanToken_text t hends
  obtain ⟨c, cs, htext, hc⟩ := text_head t
  rw [htext, cons_append] at hn hscan ⊢
  cases n with
  | zero => simp at hn
  | succ n =>
    have hlen : rest.length ≤ n := by
      simp only [length_cons, length_append] at hn
      omega
    simp [scan, hc, hscan, h n hlen]

theorem ends_of_space (h : isSpace c = true) (t : Text) : Ends (c :: t) := by
  simp only [isSpace, mem_cons, not_mem_nil, or_false, decide_eq_true_eq] at h
  intro d hd s
  cases hd
  rcases h with rfl | rfl | rfl | rfl <;> cases s <;> rfl

theorem Ends.space (hspace : ∀ c ∈ before, isSpace c = true) (h : Ends t) :
    Ends (before ++ t) := by
  cases before with
  | nil => exact h
  | cons c before => exact ends_of_space (hspace c mem_cons_self) _

theorem Ends.token {t : Token} (h : t.isNum = false) (rest : Text) : Ends (t.text ++ rest) := by
  intro c hc s
  cases t with
  | num n => cases h
  | bool b => cases b <;> cases hc <;> cases s <;> rfl
  | _ => cases hc; cases s <;> rfl

end tokens

section indentation

theorem newline_space (depth : Nat) : ∀ c ∈ newline depth, isSpace c = true := by
  intro c hc
  rcases mem_cons.1 hc with rfl | hc
  · rfl
  · rw [eq_of_mem_replicate hc]
    rfl

theorem indent_cons (need : Bool) (depth : Nat) (t : Token) (ts : List Token) :
    ∃ before after need' depth', (∀ c ∈ before, isSpace c = true) ∧ (∀ c ∈ after, isSpace c = true) ∧
      indent need depth (t :: ts) = before ++ (t.text ++ (after ++ indent need' depth' ts)) := by
  have hline : ∀ c ∈ if need then newline (depth + 1) else [], isSpace c = true := by
    intro c hc
    cases need with
    | true => exact newline_space (depth + 1) c hc
    | false => cases hc
  have hblank : ∀ c ∈ [' '], isSpace c = true := forall_mem_singleton.2 rfl
  let inner := if need then depth + 1 else depth
  cases t with
  | comma => exact ⟨_, newline inner, false, inner, hline, newline_space _, by cases need <;> simp [indent, inner]⟩
  | colon => exact ⟨_, [' '], false, inner, hline, hblank, by cases need <;> simp [indent, inner]⟩
  | rbrace =>
    cases need with
    | true => exact ⟨[], [], false, depth, nofun, nofun, by simp [indent]⟩
    | false => exact ⟨newline (depth - 1), [], false, depth - 1, newline_space _, nofun, by simp [indent]⟩
  | rbracket =>
    cases need with
    | true => exact ⟨[], [], false, depth, nofun, nofun, by simp [indent]⟩
    | false => exact ⟨newline (depth - 1), [], false, depth - 1, newline_space _, nofun, by simp [indent]⟩
  | lbrace => exact ⟨_, [], true, inner, hline, nofun, by cases need <;> simp [indent, inner]⟩
  | lbracket => exact ⟨_, [], true, inner, hline, nofun, by cases need <;> simp [indent, inner]⟩
  | _ => exact ⟨_, [], false, inner, hline, nofun, by cases need <;> simp [indent, inner]⟩

def Apart (ts : List Token) : Prop := ts.IsChain fun x y => ¬ (x.isNum = true ∧ y.isNum = true)

theorem scans_indent (h : Apart ts) {tail : Text} (htail : ∀ c ∈ tail, isSpace c = true)
    (need : Bool) (depth : Nat) : Scans (indent need depth ts ++ tail) ts := by
  induction ts generalizing need depth with
  | nil =>
    have hnil : Scans ([] : Text) [] := fun n _ => by cases n <;> rfl
    simpa [indent] using hnil.space htail
  | cons t ts ih =>
    obtain ⟨before, after, need', depth', hbefore, hafter, htext⟩ := indent_cons need depth t ts
    have hends : t.isNum = true → Ends (after ++ (indent need' depth' ts ++ tail)) := by
      intro hnum
      refine Ends.space hafter ?_
      cases ts with
      | nil =>
        cases tail with
        | nil => exact nofun
        | cons c tail => exact ends_of_space (htail c mem_cons_self) tail
      | cons u ts =>
        have hu : u.isNum = false := by
          have hpair := (isChain_cons_cons.1 h).1
          by_contra hu
          exact hpair ⟨hnum, by simpa using hu⟩
        obtain ⟨before', after', _, _, hbefore', -, htext'⟩ := indent_cons need' depth' u ts
        rw [htext', append_assoc, append_assoc]
        exact Ends.space hbefore' (Ends.token hu _)
    rw [htext, append_assoc, append_assoc, append_assoc]
    exact ((ih h.of_cons need' depth').space hafter |>.token hends).space hbefore

end indentation

end VmManager.Encoding.Json
