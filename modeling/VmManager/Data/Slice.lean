import Mathlib.Data.List.Basic

/-! Go slices that are rewritten in the array they are read from. An array is the list of its elements;
a loop reads and writes it by index, and what it leaves is the front of the array. A window is a slice with
its capacity: what is appended goes into the cells behind it as long as there are enough. -/
namespace VmManager.Slice
open List
variable {α : Type}

/-- `kept := xs[:0]`, then an append for each element to keep, while the loop still reads the array. -/
def compactFrom (keep : α → Bool) : Nat → Nat → Nat → List α → List α
  | 0, _, k, arr => arr.take k
  | rounds + 1, i, k, arr => match arr[i]? with
    | some x =>
      if keep x then compactFrom keep rounds (i + 1) (k + 1) (arr.set k x)
      else compactFrom keep rounds (i + 1) k arr
    | none => arr.take k

def compact (keep : α → Bool) (xs : List α) : List α := compactFrom keep xs.length 0 0 xs

def shiftFrom (j : Nat) : Nat → Nat → List α → List α
  | 0, k, arr => arr.take k
  | rounds + 1, k, arr => match arr[k + j]? with
    | some x => shiftFrom j rounds (k + 1) (arr.set k x)
    | none => arr.take k

def shift (j : Nat) (xs : List α) : List α := shiftFrom j (xs.length - j) 0 xs

variable {keep : α → Bool} {xs arr : List α} {i k j rounds : Nat}

theorem take_set_self {x : α} (h : k < arr.length) : (arr.set k x).take (k + 1) = arr.take k ++ [x] := by
  rw [take_add_one, take_set_of_le (Nat.le_refl k), getElem?_set_self h]
  rfl

theorem drop_set {x : α} (h : k < i) : (arr.set k x).drop i = arr.drop i := drop_set_of_lt h

theorem compactFrom_eq (hk : k ≤ i) (hlen : arr.length = xs.length)
    (hdone : arr.take k = (xs.take i).filter keep) (hleft : arr.drop i = xs.drop i)
    (hrounds : i + rounds = xs.length) : compactFrom keep rounds i k arr = xs.filter keep := by
  induction rounds generalizing i k arr with
  | zero =>
    rw [compactFrom, hdone, take_of_length_le (by omega)]
  | succ rounds ih =>
    have hread : arr[i]? = xs[i]? := by
      have hhead := congrArg head? hleft
      rwa [head?_drop, head?_drop] at hhead
    have hsome : xs[i]? = some xs[i] := getElem?_eq_getElem (by omega)
    have hnext : arr.drop (i + 1) = xs.drop (i + 1) := by
      rw [← drop_drop (l := arr), ← drop_drop (l := xs), hleft]
    have htake : xs.take (i + 1) = xs.take i ++ [xs[i]] := by
      rw [take_add_one, hsome]
      rfl
    rw [compactFrom, hread, hsome]
    dsimp only
    split
    · rename_i hkeep
      refine ih (by omega) (by rw [length_set]; exact hlen) ?_ ?_ (by omega)
      · rw [take_set_self (by omega), hdone, htake, filter_append, filter_singleton, hkeep]
        rfl
      · rw [drop_set (by omega), hnext]
    · rename_i hdrop
      refine ih (by omega) hlen ?_ hnext (by omega)
      rw [hdone, htake, filter_append, filter_singleton, Bool.eq_false_iff.2 hdrop]
      exact (append_nil _).symm

theorem compact_eq (keep : α → Bool) (xs : List α) : compact keep xs = xs.filter keep :=
  compactFrom_eq (Nat.le_refl 0) rfl rfl rfl (Nat.zero_add _)

theorem shiftFrom_eq (hlen : arr.length = xs.length) (hdone : arr.take k = (xs.drop j).take k)
    (hleft : arr.drop (k + j) = xs.drop (k + j)) (hk : k + rounds = xs.length - j) :
    shiftFrom j rounds k arr = xs.drop j := by
  induction rounds generalizing k arr with
  | zero =>
    rw [shiftFrom, hdone, take_of_length_le (by rw [length_drop]; omega)]
  | succ rounds ih =>
    have hread : arr[k + j]? = xs[k + j]? := by
      have hhead := congrArg head? hleft
      rwa [head?_drop, head?_drop] at hhead
    have hsome : xs[k + j]? = some xs[k + j] := getElem?_eq_getElem (by omega)
    rw [shiftFrom, hread, hsome]
    refine ih (by rw [length_set]; exact hlen) ?_ ?_ (by omega)
    · rw [take_set_self (by omega), hdone, take_add_one (l := xs.drop j), getElem?_drop, Nat.add_comm j k, hsome]
      rfl
    · rw [drop_set (by omega), Nat.add_right_comm, ← drop_drop (l := arr), hleft, drop_drop]

theorem shift_eq (j : Nat) (xs : List α) : shift j xs = xs.drop j := shiftFrom_eq rfl rfl rfl (Nat.zero_add _)

structure Window (α : Type) where
  cells : List α
  len : Nat
  bound : len ≤ cells.length

namespace Window

def nil : Window α := ⟨[], 0, Nat.le_refl 0⟩

def elems (w : Window α) : List α := w.cells.take w.len

def clear (w : Window α) : Window α := ⟨w.cells, 0, Nat.zero_le _⟩

def dropFront (w : Window α) (n : Nat) : Window α :=
  ⟨w.cells.drop n, w.len - n, by rw [length_drop]; have := w.bound; omega⟩

/-- `append(w, xs...)`; a new array has room for `spare` beyond what it holds. -/
def append (w : Window α) (xs spare : List α) : Window α :=
  if h : w.len + xs.length ≤ w.cells.length then
    ⟨w.elems ++ xs ++ w.cells.drop (w.len + xs.length), w.len + xs.length, by
      rw [length_append, length_append, length_drop, elems, length_take]
      omega⟩
  else ⟨w.elems ++ xs ++ spare, w.len + xs.length, by
    rw [length_append, length_append, elems, length_take]
    have := w.bound
    omega⟩

theorem length_elems (w : Window α) : w.elems.length = w.len := length_take_of_le w.bound

@[simp] theorem elems_clear (w : Window α) : w.clear.elems = [] := rfl

@[simp] theorem elems_dropFront (w : Window α) (n : Nat) : (w.dropFront n).elems = w.elems.drop n := by
  rw [elems, dropFront, elems, drop_take]

@[simp] theorem elems_append (w : Window α) (xs spare : List α) :
    (w.append xs spare).elems = w.elems ++ xs := by
  have hlen : (w.elems ++ xs).length = w.len + xs.length := by
    rw [length_append, length_elems]
  unfold append
  split <;> exact take_left' hlen

end Window

end VmManager.Slice
