import Mathlib.Data.List.Infix
import VmManager.Encoding.Split

/-! Lists of options in one text: a separator ends an option, a doubled separator stands for itself. -/
namespace VmManager.Encoding
open List
variable {α : Type} [DecidableEq α]

def escape (sep : α) (t : List α) : List α := t.flatMap fun c => if c = sep then [sep, sep] else [c]

def onto (x : List α) : List (List α) → List (List α)
  | [] => [x]
  | y :: ys => (x ++ y) :: ys

def options (sep : α) : List α → List (List α)
  | [] => [[]]
  | [c] => if c = sep then [[], []] else [[c]]
  | c :: d :: t =>
    if c = sep then
      if d = sep then onto [sep] (options sep t) else [] :: options sep (d :: t)
    else onto [c] (options sep (d :: t))

def render (sep : α) (opts : List (List α)) : List α := [sep].intercalate (opts.map (escape sep))

/-- Options as they stand behind a separator: none begins with one, and only the last may be empty. -/
def Proper (sep : α) : List (List α) → Prop
  | [] => True
  | [x] => x.head? ≠ some sep
  | x :: y :: l => x ≠ [] ∧ x.head? ≠ some sep ∧ Proper sep (y :: l)

/-- The text does not end in a separator that a further one would double. -/
def Closed (sep : α) : List α → Bool
  | [] => true
  | [c] => c ≠ sep
  | c :: d :: t => if c = sep ∧ d = sep then Closed sep t else Closed sep (d :: t)

section onto
variable {x y : List α} {l m : List (List α)}

omit [DecidableEq α] in
@[simp] theorem onto_cons (x y : List α) (l : List (List α)) : onto x (y :: l) = (x ++ y) :: l := rfl

omit [DecidableEq α] in
theorem onto_onto (x y : List α) (l : List (List α)) : onto x (onto y l) = onto (x ++ y) l := by
  cases l with
  | nil => rfl
  | cons z l => simp

omit [DecidableEq α] in
theorem onto_append (x : List α) (h : l ≠ []) (m : List (List α)) : onto x (l ++ m) = onto x l ++ m := by
  cases l with
  | nil => exact absurd rfl h
  | cons z l => rfl

omit [DecidableEq α] in
theorem onto_ne_nil (x : List α) (l : List (List α)) : onto x l ≠ [] := by
  cases l with
  | nil => simp [onto]
  | cons z l => simp

omit [DecidableEq α] in
theorem length_onto (x : List α) (h : l ≠ []) : (onto x l).length = l.length := by
  cases l with
  | nil => exact absurd rfl h
  | cons z l => rfl

end onto

section escape
variable {sep c : α} {t v rest : List α} {opts : List (List α)}

@[simp] theorem escape_nil (sep : α) : escape sep [] = [] := rfl

@[simp] theorem escape_sep (sep : α) (t : List α) : escape sep (sep :: t) = sep :: sep :: escape sep t := by
  simp [escape]

theorem escape_cons_of_ne (h : c ≠ sep) (t : List α) : escape sep (c :: t) = c :: escape sep t := by
  simp [escape, h]

theorem escape_append (sep : α) (t v : List α) : escape sep (t ++ v) = escape sep t ++ escape sep v := by
  simp [escape]

theorem escape_of_notMem (h : sep ∉ t) : escape sep t = t := by
  induction t with
  | nil => rfl
  | cons c t ih =>
    have hc : c ≠ sep := fun heq => h (heq ▸ mem_cons_self)
    rw [escape_cons_of_ne hc, ih fun hm => h (mem_cons_of_mem c hm)]

theorem options_of_ne (h : c ≠ sep) (t : List α) : options sep (c :: t) = onto [c] (options sep t) := by
  cases t with
  | nil => simp [options, h]
  | cons d t => simp [options, h]

theorem options_doubled (sep : α) (t : List α) : options sep (sep :: sep :: t) = onto [sep] (options sep t) := by
  simp [options]

theorem options_separated (h : t.head? ≠ some sep) : options sep (sep :: t) = [] :: options sep t := by
  cases t with
  | nil => simp [options]
  | cons d t =>
    have hd : d ≠ sep := fun heq => h (by simp [heq])
    simp [options, hd]

theorem options_ne_nil (sep : α) (t : List α) : options sep t ≠ [] := by
  fun_cases options sep t with
  | case1 => simp
  | case2 => simp
  | case3 => simp
  | case4 => exact onto_ne_nil _ _
  | case5 => simp
  | case6 => exact onto_ne_nil _ _

theorem options_escape_append (sep : α) (v rest : List α) :
    options sep (escape sep v ++ rest) = onto v (options sep rest) := by
  induction v with
  | nil =>
    cases h : options sep rest with
    | nil => exact absurd h (options_ne_nil sep rest)
    | cons o os => simp [h]
  | cons c v ih =>
    by_cases hc : c = sep
    · subst hc
      rw [escape_sep, cons_append, cons_append, options_doubled, ih, onto_onto, singleton_append]
    · rw [escape_cons_of_ne hc, cons_append, options_of_ne hc, ih, onto_onto, singleton_append]

theorem options_escape (sep : α) (v : List α) : options sep (escape sep v) = [v] := by
  have h := options_escape_append sep v []
  simpa [options] using h

theorem head?_escape_append (hne : v ≠ []) (h : v.head? ≠ some sep) (rest : List α) :
    (escape sep v ++ rest).head? ≠ some sep := by
  cases v with
  | nil => exact absurd rfl hne
  | cons c v =>
    have hc : c ≠ sep := fun heq => h (congrArg some heq)
    rw [escape_cons_of_ne hc, cons_append, head?_cons]
    exact h

omit [DecidableEq α] in
theorem Proper.tail {x : List α} (h : Proper sep (x :: opts)) : Proper sep opts := by
  cases opts with
  | nil => trivial
  | cons y opts => exact h.2.2

omit [DecidableEq α] in
theorem proper_of_forall (h : ∀ x ∈ opts, x ≠ [] ∧ x.head? ≠ some sep) : Proper sep opts := by
  fun_induction Proper sep opts with
  | case1 => trivial
  | case2 x => exact (h x mem_cons_self).2
  | case3 x y l ih =>
    have hx := h x mem_cons_self
    exact ⟨hx.1, hx.2, ih (forall_mem_cons.1 h).2⟩

theorem render_cons (sep : α) (o : List α) (opts : List (List α)) :
    render sep (o :: opts) = escape sep o ++ opts.flatMap fun x => sep :: escape sep x := by
  rw [render, map_cons, intercalate_cons, flatMap_map]

theorem render_cons_cons (sep : α) (o o' : List α) (opts : List (List α)) :
    render sep (o :: o' :: opts) = escape sep o ++ sep :: render sep (o' :: opts) := by
  simp [render_cons]

theorem options_render (o : List α) (h : Proper sep opts) : options sep (render sep (o :: opts)) = o :: opts := by
  induction opts generalizing o with
  | nil => simpa [render_cons] using options_escape sep o
  | cons x opts ih =>
    have htail : (render sep (x :: opts)).head? ≠ some sep := by
      rw [render_cons]
      cases opts with
      | nil =>
        cases x with
        | nil => simp
        | cons c x => exact head?_escape_append (by simp) h _
      | cons y opts => exact head?_escape_append h.1 h.2.1 _
    rw [render_cons_cons, options_escape_append, options_separated htail, ih x h.tail]
    simp

theorem render_onto (sep c : α) (opts : List (List α)) :
    render sep (onto [c] opts) = escape sep [c] ++ render sep opts := by
  cases opts with
  | nil => simp [onto, render]
  | cons o opts => rw [onto_cons, render_cons, render_cons, escape_append, append_assoc]

theorem render_options (sep : α) (t : List α) : render sep (options sep t) = t := by
  fun_induction options sep t with
  | case1 => rfl
  | case2 => simp [render, *]
  | case3 c h => simp [render_cons, escape_cons_of_ne h]
  | case4 t ih => rw [render_onto, ih]; simp
  | case5 d t h ih =>
    cases hopts : options sep (d :: t) with
    | nil => exact absurd hopts (options_ne_nil _ _)
    | cons o os =>
      rw [hopts] at ih
      rw [render_cons_cons, ih]
      rfl
  | case6 c d t h ih => rw [render_onto, ih, escape_cons_of_ne h]; rfl

omit [DecidableEq α] in
theorem tail_onto (x : List α) (h : opts ≠ []) : (onto x opts).tail = opts.tail := by
  cases opts with
  | nil => exact absurd rfl h
  | cons y l => rfl

theorem head?_options (h : t.head? ≠ some sep) : ((options sep t).head?.bind head?) ≠ some sep := by
  cases t with
  | nil => simp [options]
  | cons c t =>
    have hc : c ≠ sep := fun heq => h (congrArg some heq)
    rw [options_of_ne hc]
    cases options sep t with
    | nil => simpa [onto] using hc
    | cons o os => simpa using hc

theorem proper_options (sep : α) (t : List α) : Proper sep (options sep t).tail := by
  fun_induction options sep t with
  | case1 => trivial
  | case2 => simp [Proper]
  | case3 => trivial
  | case4 t ih => rwa [tail_onto _ (options_ne_nil _ _)]
  | case5 d t hd ih =>
    have hhead : (options sep (d :: t)).head?.bind head? ≠ some sep := head?_options (by simpa using hd)
    cases hopts : options sep (d :: t) with
    | nil => trivial
    | cons o os =>
      rw [hopts] at ih hhead
      cases os with
      | nil => exact hhead
      | cons x os =>
        refine ⟨fun ho => ?_, hhead, ih⟩
        rw [options_of_ne hd] at hopts
        cases hrest : options sep t with
        | nil => exact options_ne_nil _ _ hrest
        | cons y ys =>
          rw [hrest, onto_cons, ho] at hopts
          exact absurd (cons.inj hopts).1 (by simp)
  | case6 c d t hc ih => rwa [tail_onto _ (options_ne_nil _ _)]

theorem options_inj (h : options sep t = options sep v) : t = v := by
  rw [← render_options sep t, h, render_options]

theorem options_append_separated (ht : Closed sep t) (h : rest.head? ≠ some sep) :
    options sep (t ++ sep :: rest) = options sep t ++ options sep rest := by
  fun_induction Closed sep t with
  | case1 => rw [nil_append, options_separated h]; rfl
  | case2 c =>
    have hc : c ≠ sep := by simpa using ht
    rw [singleton_append, options_of_ne hc, options_separated h]
    simp [options, hc]
  | case3 c d t hcd ih =>
    obtain ⟨rfl, rfl⟩ := hcd
    rw [cons_append, cons_append, options_doubled, options_doubled, ih ht, onto_append _ (options_ne_nil _ _)]
  | case4 c d t hcd ih =>
    by_cases hc : c = sep
    · have hd : d ≠ sep := fun heq => hcd ⟨hc, heq⟩
      subst hc
      have hhead : ∀ l, (d :: l).head? ≠ some c := fun l heq => hd (Option.some.inj heq)
      rw [cons_append, cons_append, options_separated (hhead _), options_separated (hhead _),
        ← cons_append, ih ht, cons_append]
    · rw [cons_append, options_of_ne hc, options_of_ne hc, ih ht, onto_append _ (options_ne_nil _ _)]

theorem length_options_append_open (ht : Closed sep t = false) (rest : List α) :
    (options sep (t ++ sep :: rest)).length + 2 = (options sep t).length + (options sep rest).length := by
  fun_induction Closed sep t with
  | case1 => cases ht
  | case2 c =>
    obtain rfl : c = sep := by simpa using ht
    rw [singleton_append, options_doubled, length_onto _ (options_ne_nil _ _)]
    simp [options, Nat.add_comm]
  | case3 c d t hcd ih =>
    obtain ⟨rfl, rfl⟩ := hcd
    rw [cons_append, cons_append, options_doubled, options_doubled, length_onto _ (options_ne_nil _ _),
      length_onto _ (options_ne_nil _ _), ih ht]
  | case4 c d t hcd ih =>
    by_cases hc : c = sep
    · have hd : d ≠ sep := fun heq => hcd ⟨hc, heq⟩
      subst hc
      have hhead : ∀ l, (d :: l).head? ≠ some c := fun l heq => hd (Option.some.inj heq)
      have hrest := ih ht
      rw [cons_append] at hrest
      rw [cons_append, cons_append, options_separated (hhead _), options_separated (hhead _), length_cons,
        length_cons]
      omega
    · rw [cons_append, options_of_ne hc, options_of_ne hc, length_onto _ (options_ne_nil _ _),
        length_onto _ (options_ne_nil _ _), ih ht]

end escape

end VmManager.Encoding
