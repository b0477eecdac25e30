import Mathlib.Data.List.Basic
import Mathlib.Algebra.Order.Ring.Int
import Mathlib.Tactic.Common

/-!
# Arithmetic of `int`

A value that leaves `int` is undefined behaviour and gives `none` (`inInt`, and `natInt` where it is
never negative). A conversion to a narrower type keeps the low bits (`toShort`, `toSigned`).
-/

namespace BoardTest

/-- The value of an `int` expression. -/
def inInt (v : Int) : Option Int := if -2 ^ 31 ≤ v ∧ v < 2 ^ 31 then some v else none

/-- The value of an `int` expression whose operands keep it from being negative. -/
def natInt (n : Nat) : Option Nat := if n < 2 ^ 31 then some n else none

/-- A quotient of two `int`s is undefined for the divisor 0, and for the one that leaves `int`. -/
def quotInt (a b : Int) : Option Int :=
  if b = 0 ∨ (a = -2 ^ 31 ∧ b = -1) then none else some (a.tdiv b)

/-- `(int)n` of a wider integer. -/
def toSigned (n : Int) : Int := n.bmod (2 ^ 32)

/-- `(short)v` of an `int`. -/
def toShort (v : Int) : Int := v.bmod (2 ^ 16)

/-- The value of an `int`. -/
def IsInt (v : Int) : Prop := -2 ^ 31 ≤ v ∧ v < 2 ^ 31

/-- The value of a `short`. -/
def IsShort (v : Int) : Prop := -2 ^ 15 ≤ v ∧ v < 2 ^ 15

instance : DecidablePred IsInt := fun _ => inferInstanceAs (Decidable (_ ∧ _))

instance : DecidablePred IsShort := fun _ => inferInstanceAs (Decidable (_ ∧ _))

theorem quotInt_of_pos {a b : Int} (h : 1 ≤ b) : quotInt a b = some (a.tdiv b) := by
  rw [quotInt, if_neg]
  omega

theorem inInt_of_bounds {v : Int} (hlow : -2 ^ 31 ≤ v) (hhigh : v < 2 ^ 31) : inInt v = some v :=
  if_pos ⟨hlow, hhigh⟩

theorem inInt_natCast {n : Nat} (h : n < 2 ^ 31) : inInt n = some (n : Int) :=
  inInt_of_bounds (by omega) (by omega)

theorem inInt_eq_some_iff {v w : Int} : inInt v = some w ↔ IsInt v ∧ v = w := by
  rw [inInt, Option.ite_none_right_eq_some, Option.some_inj, IsInt]

theorem natInt_of_lt {n : Nat} (h : n < 2 ^ 31) : natInt n = some n := if_pos h

theorem natInt_of_le {n : Nat} (h : 2 ^ 31 ≤ n) : natInt n = none := if_neg (by omega)

theorem natInt_eq_some_iff {n m : Nat} : natInt n = some m ↔ n < 2 ^ 31 ∧ n = m := by
  rw [natInt, Option.ite_none_right_eq_some, Option.some_inj]

theorem toSigned_of_lt {n : Int} (hlow : -2 ^ 31 ≤ n) (hhigh : n < 2 ^ 31) : toSigned n = n :=
  Int.bmod_eq_of_le (by omega) (by omega)

theorem toSigned_le_self {n : Int} (h : 0 ≤ n) : toSigned n ≤ n := by
  rw [toSigned, Int.bmod]
  split <;> omega

/-- Above `int` the conversion takes off `2 ^ 32` at least. -/
theorem toSigned_le {n : Int} (h : 2 ^ 31 ≤ n) : toSigned n ≤ n - 2 ^ 32 := by
  rw [toSigned, Int.bmod]
  split <;> omega

theorem isShort_toShort (v : Int) : IsShort (toShort v) := by
  have hlow := Int.le_bmod (x := v) (m := 2 ^ 16) (by decide)
  have hhigh := Int.bmod_lt (x := v) (m := 2 ^ 16) (by decide)
  rw [IsShort, toShort]
  omega

theorem IsShort.isInt {v : Int} (h : IsShort v) : IsInt v := by
  obtain ⟨hlow, hhigh⟩ := h
  constructor <;> omega

theorem bind_of_eq_some {γ δ : Type*} {o : Option γ} {x : γ} (h : o = some x)
    (f : γ → Option δ) : o.bind f = f x := by
  rw [h, Option.bind_some]

theorem mapM_eq_map {γ δ : Type*} {f : γ → Option δ} {g : γ → δ} {l : List γ}
    (h : ∀ x ∈ l, f x = some (g x)) : l.mapM f = some (l.map g) := by
  induction l with
  | nil => rfl
  | cons x l ih =>
    rw [List.forall_mem_cons] at h
    simp [h.1, ih h.2]

/-- A loop that comes to its end has a value of every round. -/
theorem forall₂_of_mapM {γ δ : Type*} {f : γ → Option δ} {l : List γ} {ys : List δ}
    (h : l.mapM f = some ys) : List.Forall₂ (fun x y => f x = some y) l ys := by
  induction l generalizing ys with
  | nil =>
    obtain rfl := Option.some.inj h
    exact .nil
  | cons x l ih =>
    rw [List.mapM_cons, Option.bind_eq_bind, Option.bind_eq_some_iff] at h
    obtain ⟨y, hy, h⟩ := h
    obtain ⟨rest, hrest, h⟩ := Option.bind_eq_some_iff.mp h
    obtain rfl := Option.some.inj h
    exact .cons hy (ih hrest)

theorem exists_of_mapM {γ δ : Type*} {f : γ → Option δ} {l : List γ} {ys : List δ} {x : γ}
    (hx : x ∈ l) (h : l.mapM f = some ys) : ∃ y, f x = some y := by
  have hall := forall₂_of_mapM h
  clear h
  induction hall with
  | nil => cases hx
  | cons hy _ ih =>
    rcases List.mem_cons.mp hx with rfl | hx
    · exact ⟨_, hy⟩
    · exact ih hx

end BoardTest
