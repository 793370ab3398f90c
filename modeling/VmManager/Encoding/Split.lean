import Mathlib.Data.List.SplitOn

/-! Text put together with separators and taken apart again, and the white space around it. -/
namespace VmManager.Encoding
open List
variable {α : Type} {sep : α}

theorem intercalate_cons (sep : α) (x : List α) (xs : List (List α)) :
    [sep].intercalate (x :: xs) = x ++ xs.flatMap fun y => sep :: y := by
  induction xs generalizing x with
  | nil => simp
  | cons y ys ih =>
    rw [intercalate_cons_cons, ih]
    simp

theorem not_mem_of_mem_splitOn [DecidableEq α] {t x : List α} (h : x ∈ t.splitOn sep) :
    sep ∉ x := by
  induction t generalizing x with
  | nil =>
    rw [splitOn_nil, mem_singleton] at h
    simp [h]
  | cons a t ih =>
    rw [splitOn_cons_eq_if_modifyHead] at h
    split at h
    · rcases mem_cons.1 h with rfl | h
      · exact not_mem_nil
      · exact ih h
    · rename_i ha
      obtain ⟨y, ys, hy⟩ := exists_cons_of_ne_nil (splitOn_ne_nil sep t)
      rw [hy] at h ih
      rcases mem_cons.1 h with rfl | h
      · intro hmem
        rcases mem_cons.1 hmem with rfl | hmem
        · simp at ha
        · exact ih mem_cons_self hmem
      · exact ih (mem_cons_of_mem y h)

theorem join_inj [DecidableEq α] {x x' : List α} {xs xs' : List (List α)} (hx : ∀ y ∈ x :: xs, sep ∉ y)
    (hx' : ∀ y ∈ x' :: xs', sep ∉ y) (h : (x ++ xs.flatMap fun y => sep :: y) = x' ++ xs'.flatMap fun y => sep :: y) :
    x = x' ∧ xs = xs' := by
  have hsplit : splitOn sep ([sep].intercalate (x :: xs)) =
      splitOn sep ([sep].intercalate (x' :: xs')) := by
    rw [intercalate_cons, intercalate_cons, h]
  rw [splitOn_intercalate sep hx nofun, splitOn_intercalate sep hx' nofun] at hsplit
  exact cons.inj hsplit

theorem cut_inj {x x' y y' : List α} (hx : sep ∉ x) (hx' : sep ∉ x')
    (h : x ++ sep :: y = x' ++ sep :: y') : x = x' ∧ y = y' := by
  induction x generalizing x' with
  | nil =>
    cases x' with
    | nil => exact ⟨rfl, (cons.inj h).2⟩
    | cons a x' => exact absurd (cons.inj h).1 fun ha => hx' (ha ▸ mem_cons_self)
  | cons a x ih =>
    cases x' with
    | nil => exact absurd (cons.inj h).1.symm fun ha => hx (ha ▸ mem_cons_self)
    | cons b x' =>
      obtain ⟨rfl, htail⟩ := cons.inj h
      obtain ⟨rfl, hy⟩ := ih (fun hm => hx (mem_cons_of_mem a hm))
        (fun hm => hx' (mem_cons_of_mem a hm)) htail
      exact ⟨rfl, hy⟩

def isSpace (c : Char) : Bool :=
  c.val ∈ [0x09, 0x0a, 0x0b, 0x0c, 0x0d, 0x20, 0x85, 0xa0, 0x1680, 0x2028, 0x2029, 0x202f, 0x205f,
    0x3000] || (0x2000 ≤ c.val && c.val ≤ 0x200a)

def trimSpace (t : List Char) : List Char := ((t.dropWhile isSpace).reverse.dropWhile isSpace).reverse

end VmManager.Encoding
