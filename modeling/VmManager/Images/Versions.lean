import Mathlib.Data.Char
import Mathlib.Data.Nat.Find
import VmManager.Data.Sorting
import VmManager.Encoding.Hex

/-! Versions of images and how they compare. A Go string is the list of its bytes, each of them a character.
Numbers compare as numbers, a number and what is none by the number in front, and what are no numbers as text. That
is an order only as long as the three ways agree. -/
namespace VmManager.Images
open Encoding List Nat

def maxInt : Nat := 1 <<< 63 - 1

def isDigit (c : Char) : Bool := '0' ≤ c && c ≤ '9'

def digitsValue (ds : Text) : Nat := ds.foldl (fun n c => 10 * n + (c.toNat - '0'.toNat)) 0

def unsigned : Text → Text
  | '+' :: t => t
  | '-' :: t => t
  | t => t

/-- `strconv.Atoi`: the number and whether there was no error. Out of range it is the nearest number. -/
def atoi (s : Text) : Int × Bool :=
  let ds := unsigned s
  let n := digitsValue ds
  if ds = [] ∨ ds.all isDigit = false then (0, false)
  else if s.head? = some '-' then if n ≤ maxInt + 1 then (-n, true) else (-(maxInt + 1), false)
  else if n ≤ maxInt then (n, true) else (maxInt, false)

def cmpInt (a b : Int) : Int := threeWay a b

def splitNumericPrefix (s : Text) : Int × Text := ((atoi (s.takeWhile isDigit)).1, s.dropWhile isDigit)

def comparePrefixes (x y : Text) : Int :=
  let (xp, xrest) := splitNumericPrefix x
  let (yp, yrest) := splitNumericPrefix y
  if xp ≠ yp then cmpInt xp yp else -cmpInt xrest.length yrest.length

def compareComponent (x y : Text) : Int :=
  if x = y then 0
  else
    let (xn, xok) := atoi x
    let (yn, yok) := atoi y
    if xok && yok then cmpInt xn yn
    else if xok || yok then comparePrefixes x y
    else threeWay x y

def compareMissing : List Text → Int
  | [] => 0
  | y :: ys => if compareComponent [] y = 0 then compareMissing ys else compareComponent [] y

def compareFrom : List Text → List Text → Int
  | [], ys => compareMissing ys
  | x :: xs, ys =>
    if compareComponent x (ys.headD []) = 0 then compareFrom xs ys.tail
    else compareComponent x (ys.headD [])

def compareVersions (a b : Text) : Int := compareFrom (a.splitOn '.') (b.splitOn '.')

theorem compareComponent_self (x : Text) : compareComponent x x = 0 := if_pos rfl

theorem comparePrefixes_swap (x y : Text) : comparePrefixes y x = -comparePrefixes x y := by
  unfold comparePrefixes cmpInt
  dsimp only
  by_cases h : (splitNumericPrefix x).1 = (splitNumericPrefix y).1
  · rw [if_neg (by simp [h]), if_neg (by simp [h]), threeWay_swap (_ : Int)]
  · rw [if_pos (Ne.symm h), if_pos h, threeWay_swap (_ : Int)]

theorem compareComponent_swap (x y : Text) : compareComponent y x = -compareComponent x y := by
  by_cases h : x = y
  · rw [h, compareComponent_self, Int.neg_zero]
  unfold compareComponent
  rw [if_neg h, if_neg (Ne.symm h)]
  dsimp only
  cases (atoi x).2 <;> cases (atoi y).2
  · exact threeWay_swap x y
  · exact comparePrefixes_swap x y
  · exact comparePrefixes_swap x y
  · exact threeWay_swap (atoi x).1 (atoi y).1

theorem compareFrom_step (xs ys : List Text) : compareFrom xs ys =
    if compareComponent (xs.headD []) (ys.headD []) = 0 then compareFrom xs.tail ys.tail
    else compareComponent (xs.headD []) (ys.headD []) := by
  cases xs with
  | cons x xs => rfl
  | nil =>
    cases ys with
    | nil => rfl
    | cons y ys => rfl

theorem compareFrom_swap (xs ys : List Text) : compareFrom ys xs = -compareFrom xs ys := by
  have hall : ∀ n (xs ys : List Text), xs.length ≤ n → ys.length ≤ n →
      compareFrom ys xs = -compareFrom xs ys := by
    intro n
    induction n with
    | zero =>
      intro xs ys hx hy
      rw [length_eq_zero_iff.1 (le_zero.1 hx), length_eq_zero_iff.1 (le_zero.1 hy)]
      rfl
    | succ n ih =>
      intro xs ys hx hy
      rw [compareFrom_step ys xs, compareFrom_step xs ys, compareComponent_swap (xs.headD []),
        ih xs.tail ys.tail (by simp; omega) (by simp; omega)]
      simp only [Int.neg_eq_zero]
      split <;> rfl
  exact hall _ xs ys (le_max_left _ _) (le_max_right _ _)

def isNumber (x : Text) : Bool := (atoi x).2

def number (x : Text) : Int := (atoi x).1

def front (x : Text) : Int ×ₗ Int := toLex ((splitNumericPrefix x).1, -((splitNumericPrefix x).2.length : Int))

/-- The components compare as equal: the same number, a number and what is none with equal fronts, or the same text. -/
def Tied (x y : Text) : Prop :=
  if isNumber x = isNumber y then if isNumber x then number x = number y else x = y else front x = front y

/-- Where the fronts put a number between two components that are none, these are in that order as text. -/
def TextsAligned (x y z : Text) : Prop :=
  isNumber x = false → isNumber y = true → isNumber z = false → front x ≤ front y → front y ≤ front z → x ≤ z

/-- Where the fronts put one that is none between two numbers, these are in that order, and different unless all fronts
are the same. -/
def NumbersAligned (x y z : Text) : Prop :=
  isNumber x = true → isNumber y = false → isNumber z = true → front x ≤ front y → front y ≤ front z →
    number x < number z ∨ number x = number z ∧ front x = front z

def Aligned (x y z : Text) : Prop := TextsAligned x y z ∧ NumbersAligned x y z

instance (x y z : Text) : Decidable (TextsAligned x y z) := by unfold TextsAligned; infer_instance
instance (x y z : Text) : Decidable (NumbersAligned x y z) := by unfold NumbersAligned; infer_instance
instance (x y z : Text) : Decidable (Aligned x y z) := inferInstanceAs (Decidable (_ ∧ _))

section component
variable {x y z : Text}

theorem comparePrefixes_eq (x y : Text) : comparePrefixes x y = threeWay (front x) (front y) := by
  have hneg : ∀ m n : Int, -threeWay m n = threeWay (-m) (-n) := by
    intro m n
    rw [← threeWay_swap]
    exact threeWay_congr (by omega) (by omega)
  unfold comparePrefixes cmpInt front
  dsimp only
  rw [threeWay_pair, hneg]
  by_cases h : (splitNumericPrefix x).1 = (splitNumericPrefix y).1
  · rw [if_neg (not_not.2 h), if_pos (threeWay_eq_zero.2 h)]
  · rw [if_pos h, if_neg fun h0 => h (threeWay_eq_zero.1 h0)]

theorem compareComponent_eq (x y : Text) : compareComponent x y =
    if isNumber x = isNumber y then if isNumber x then threeWay (number x) (number y) else threeWay x y
    else threeWay (front x) (front y) := by
  by_cases h : x = y
  · rw [h, compareComponent_self, if_pos rfl, threeWay_self, threeWay_self, ite_self]
  unfold compareComponent isNumber number
  rw [if_neg h]
  dsimp only
  cases (atoi x).2 <;> cases (atoi y).2
  · rfl
  · exact comparePrefixes_eq x y
  · exact comparePrefixes_eq x y
  · rfl

theorem compareComponent_eq_zero : compareComponent x y = 0 ↔ Tied x y := by
  rw [compareComponent_eq, Tied]
  split
  · split <;> exact threeWay_eq_zero
  · exact threeWay_eq_zero

theorem tied_comm : Tied x y ↔ Tied y x := by
  rw [← compareComponent_eq_zero, ← compareComponent_eq_zero, compareComponent_swap x y, Int.neg_eq_zero]

theorem compareComponent_nonpos : compareComponent x y ≤ 0 ↔
    if isNumber x = isNumber y then if isNumber x then number x ≤ number y else x ≤ y else front x ≤ front y := by
  rw [compareComponent_eq]
  split
  · split <;> exact threeWay_nonpos
  · exact threeWay_nonpos

theorem compareComponent_trans (h : Aligned x y z) (h' : Aligned y z x) (h'' : Aligned z x y)
    (hxy : compareComponent x y ≤ 0) (hyz : compareComponent y z ≤ 0) : compareComponent x z ≤ 0 := by
  rw [compareComponent_nonpos] at *
  -- by which of the three are numbers; where one stands out, the other two are compared on its account
  cases hx : isNumber x <;> cases hy : isNumber y <;> cases hz : isNumber z <;>
    simp only [hx, hy, hz, if_true, if_false, Bool.false_eq_true, reduceCtorEq] at hxy hyz ⊢
  · exact hxy.trans hyz
  · by_contra hlt
    obtain rfl := le_antisymm hxy (h'.1 hy hz hx hyz (not_le.1 hlt).le)
    exact hlt hyz
  · exact h.1 hx hy hz hxy hyz
  · by_contra hlt
    rcases h''.2 hz hx hy (not_le.1 hlt).le hxy with hless | ⟨-, heq⟩
    · exact absurd hyz (not_le.2 hless)
    · exact hlt (heq ▸ hxy)
  · by_contra hlt
    obtain rfl := le_antisymm hyz (h''.1 hz hx hy (not_le.1 hlt).le hxy)
    exact hlt hxy
  · rcases h.2 hx hy hz hxy hyz with hless | ⟨heq, -⟩
    · exact hless.le
    · exact heq.le
  · by_contra hlt
    rcases h'.2 hy hz hx hyz (not_le.1 hlt).le with hless | ⟨-, heq⟩
    · exact absurd hxy (not_le.2 hless)
    · exact hlt (heq ▸ hyz)
  · exact hxy.trans hyz

theorem tied_of_cycle (h : Aligned x y z) (h' : Aligned y z x) (h'' : Aligned z x y) (hxy : compareComponent x y ≤ 0)
    (hyz : compareComponent y z ≤ 0) (hzx : compareComponent z x ≤ 0) : Tied x y := by
  have hyx : compareComponent y x ≤ 0 := compareComponent_trans h' h'' h hyz hzx
  rw [compareComponent_swap] at hyx
  exact compareComponent_eq_zero.1 (by omega)

theorem aligned_of_cycle (h : compareComponent x y ≤ 0 → compareComponent y z ≤ 0 → compareComponent z x ≤ 0 →
      Tied x y ∧ Tied y z ∧ Tied z x) : Aligned x y z := by
  rw [compareComponent_nonpos, compareComponent_nonpos, compareComponent_nonpos] at h
  unfold Tied at h
  constructor
  · intro hx hy hz hxy hyz
    simp only [hx, hy, hz, if_true, if_false, Bool.false_eq_true, reduceCtorEq] at h
    by_contra hlt
    exact hlt (h hxy hyz (not_le.1 hlt).le).2.2.ge
  · intro hx hy hz hxy hyz
    simp only [hx, hy, hz, if_true, if_false, Bool.true_eq_false, reduceCtorEq] at h
    rcases lt_or_ge (number x) (number z) with hless | hge
    · exact .inl hless
    · obtain ⟨hxy', hyz', hzx⟩ := h hxy hyz hge
      exact .inr ⟨hzx.symm, hxy'.trans hyz'⟩

end component

section lists
variable {xs ys : List Text}

theorem headD_eq_getD (xs : List Text) : xs.headD [] = xs.getD 0 [] := by cases xs <;> rfl

theorem getD_tail (xs : List Text) (i : Nat) : xs.tail.getD i [] = xs.getD (i + 1) [] := by cases xs <;> rfl

theorem compareFrom_neg : compareFrom xs ys < 0 ↔ ∃ i, (∀ j < i, Tied (xs.getD j []) (ys.getD j [])) ∧
    compareComponent (xs.getD i []) (ys.getD i []) < 0 := by
  have hall : ∀ n (xs ys : List Text), xs.length ≤ n → ys.length ≤ n → (compareFrom xs ys < 0 ↔
      ∃ i, (∀ j < i, Tied (xs.getD j []) (ys.getD j [])) ∧
        compareComponent (xs.getD i []) (ys.getD i []) < 0) := by
    intro n
    induction n with
    | zero =>
      intro xs ys hx hy
      rw [length_eq_zero_iff.1 (le_zero.1 hx), length_eq_zero_iff.1 (le_zero.1 hy)]
      simp [compareFrom, compareMissing, compareComponent_self]
    | succ n ih =>
      intro xs ys hx hy
      rw [compareFrom_step, headD_eq_getD, headD_eq_getD]
      by_cases h0 : compareComponent (xs.getD 0 []) (ys.getD 0 []) = 0
      · rw [if_pos h0, ih xs.tail ys.tail (by simp; omega) (by simp; omega)]
        simp only [getD_tail]
        constructor
        · rintro ⟨i, htied, hlt⟩
          refine ⟨i + 1, fun j hj => ?_, hlt⟩
          cases j with
          | zero => exact compareComponent_eq_zero.1 h0
          | succ j => exact htied j (lt_of_succ_lt_succ hj)
        · rintro ⟨i, htied, hlt⟩
          cases i with
          | zero => exact absurd h0 hlt.ne
          | succ i => exact ⟨i, fun j hj => htied (j + 1) (succ_lt_succ hj), hlt⟩
      · rw [if_neg h0]
        refine ⟨fun hlt => ⟨0, fun j hj => absurd hj j.not_lt_zero, hlt⟩, ?_⟩
        rintro ⟨i, htied, hlt⟩
        cases i with
        | zero => exact hlt
        | succ i => exact absurd (compareComponent_eq_zero.2 (htied 0 i.succ_pos)) h0
  exact hall _ xs ys (le_max_left _ _) (le_max_right _ _)

end lists

def component (v : Text) (i : Nat) : Text := (v.splitOn '.').getD i []

def TiedBefore (a b : Text) (i : Nat) : Prop := ∀ j < i, Tied (component a j) (component b j)

def Below (a b : Text) (i : Nat) : Prop :=
  TiedBefore a b i ∧ compareComponent (component a i) (component b i) < 0

/-- Any three of the versions are aligned at a position before which they tie, or two of them tie there as well and
are in the opposite order by a later component. -/
def Regular (vs : List Text) : Prop :=
  ∀ a ∈ vs, ∀ b ∈ vs, ∀ c ∈ vs, ∀ i, TiedBefore a b i → TiedBefore b c i → TiedBefore c a i →
    Aligned (component a i) (component b i) (component c i) ∨ ∃ j > i, Below b a j ∨ Below c b j ∨ Below a c j

section versions
variable {a b c : Text} {vs : List Text} {i : Nat}

theorem compareVersions_swap (a b : Text) : compareVersions b a = -compareVersions a b := compareFrom_swap _ _

theorem compareVersions_neg : compareVersions a b < 0 ↔ ∃ i, Below a b i := compareFrom_neg

theorem compareVersions_nonpos : compareVersions a b ≤ 0 ↔ ∀ i, ¬ Below b a i := by
  rw [← not_exists, ← compareVersions_neg, compareVersions_swap a b]
  omega

theorem TiedBefore.component_nonpos (ht : TiedBefore a b i) (h : compareVersions a b ≤ 0) :
    compareComponent (component a i) (component b i) ≤ 0 := by
  by_contra hlt
  refine compareVersions_nonpos.1 h i ⟨fun j hj => tied_comm.1 (ht j hj), ?_⟩
  rw [compareComponent_swap]
  omega

theorem TiedBefore.nonpos (ht : TiedBefore a b i) (hi : compareComponent (component a i) (component b i) ≤ 0)
    (hlater : ∀ j > i, ¬ Below b a j) : compareVersions a b ≤ 0 := by
  rw [compareVersions_nonpos]
  rintro j ⟨htj, hj⟩
  rcases lt_trichotomy j i with hlt | rfl | hgt
  · exact absurd (compareComponent_eq_zero.2 (tied_comm.1 (ht j hlt))) hj.ne
  · rw [compareComponent_swap] at hj
    omega
  · exact hlater j hgt ⟨htj, hj⟩

theorem Regular.subset {ws : List Text} (h : Regular vs) (hs : ws ⊆ vs) : Regular ws :=
  fun a ha b hb c hc => h a (hs ha) b (hs hb) c (hs hc)

theorem Regular.trans (h : Regular vs) (ha : a ∈ vs) (hb : b ∈ vs) (hc : c ∈ vs) (hab : compareVersions a b ≤ 0)
    (hbc : compareVersions b c ≤ 0) : compareVersions a c ≤ 0 := by
  by_contra hac
  have hca : compareVersions c a < 0 := by
    rw [compareVersions_swap]
    omega
  -- at the first position at which not all three tie, their components go round in a circle
  have hex : ∃ i, ¬ (Tied (component a i) (component b i) ∧ Tied (component b i) (component c i) ∧
      Tied (component c i) (component a i)) := by
    obtain ⟨i, -, hi⟩ := compareVersions_neg.1 hca
    exact ⟨i, fun hall => hi.ne (compareComponent_eq_zero.2 hall.2.2)⟩
  classical
  obtain ⟨i, hi, hbefore⟩ : ∃ i, ¬ (Tied (component a i) (component b i) ∧ Tied (component b i) (component c i) ∧
      Tied (component c i) (component a i)) ∧ ∀ j < i, Tied (component a j) (component b j) ∧
      Tied (component b j) (component c j) ∧ Tied (component c j) (component a j) :=
    ⟨Nat.find hex, Nat.find_spec hex, fun j hj => not_not.1 (Nat.find_min hex hj)⟩
  have htab : TiedBefore a b i := fun j hj => (hbefore j hj).1
  have htbc : TiedBefore b c i := fun j hj => (hbefore j hj).2.1
  have htca : TiedBefore c a i := fun j hj => (hbefore j hj).2.2
  have hlater : ¬ ∃ j > i, Below b a j ∨ Below c b j ∨ Below a c j := by
    rintro ⟨j, -, hba | hcb | hac⟩
    · exact compareVersions_nonpos.1 hab j hba
    · exact compareVersions_nonpos.1 hbc j hcb
    · exact compareVersions_nonpos.1 hca.le j hac
  have h₁ := (h a ha b hb c hc i htab htbc htca).resolve_right hlater
  have h₂ := (h b hb c hc a ha i htbc htca htab).resolve_right fun ⟨j, hj, hor⟩ => hlater ⟨j, hj, by tauto⟩
  have h₃ := (h c hc a ha b hb i htca htab htbc).resolve_right fun ⟨j, hj, hor⟩ => hlater ⟨j, hj, by tauto⟩
  have hxy := htab.component_nonpos hab
  have hyz := htbc.component_nonpos hbc
  have hzx := htca.component_nonpos hca.le
  exact hi ⟨tied_of_cycle h₁ h₂ h₃ hxy hyz hzx, tied_of_cycle h₂ h₃ h₁ hyz hzx hxy, tied_of_cycle h₃ h₁ h₂ hzx hxy hyz⟩

theorem regular_of_ordered (h : ∀ a ∈ vs, ∀ b ∈ vs, ∀ c ∈ vs, compareVersions a b ≤ 0 →
    compareVersions b c ≤ 0 → compareVersions a c ≤ 0) : Regular vs := by
  intro a ha b hb c hc i htab htbc htca
  by_contra hnot
  rw [not_or] at hnot
  obtain ⟨hnot, hlater⟩ := hnot
  refine hnot (aligned_of_cycle fun hxy hyz hzx => ?_)
  have hab := htab.nonpos hxy fun j hj hbelow => hlater ⟨j, hj, .inl hbelow⟩
  have hbc := htbc.nonpos hyz fun j hj hbelow => hlater ⟨j, hj, .inr (.inl hbelow)⟩
  have hca := htca.nonpos hzx fun j hj hbelow => hlater ⟨j, hj, .inr (.inr hbelow)⟩
  -- each two of the versions are equal, so that their components tie
  have htie : ∀ {a b : Text}, TiedBefore a b i → compareVersions a b ≤ 0 → compareVersions b a ≤ 0 →
      Tied (component a i) (component b i) := by
    intro a b ht hab hba
    have hle := ht.component_nonpos hab
    have hge := TiedBefore.component_nonpos (fun j hj => tied_comm.1 (ht j hj)) hba
    rw [compareComponent_swap] at hge
    exact compareComponent_eq_zero.1 (by omega)
  exact ⟨htie htab hab (h b hb c hc a ha hbc hca), htie htbc hbc (h c hc a ha b hb hca hab),
    htie htca hca (h a ha b hb c hc hab hbc)⟩

end versions

end VmManager.Images
