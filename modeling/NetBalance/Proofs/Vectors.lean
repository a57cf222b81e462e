import NetBalance.Linear.Matrix
import Mathlib.Algebra.BigOperators.Fin
import Mathlib.LinearAlgebra.Matrix.DotProduct

/-! # Vectors of exact numbers

    A vector is seen through the function that reads its entries.  What is
    computed entry by entry from left to right is then an operation on
    functions, and inner products are dot products. -/

namespace NetBalance

open Matrix

variable {K : Type} {m n : Nat}

theorem sumLeft_eq_sum [AddCommMonoid K] (xs : List K) : sumLeft xs = xs.sum := by
  rw [sumLeft, List.sum_eq_foldl]

namespace Linear

theorem get_eq_getElem (v : Vector K n) (i : Fin n) : v.get i = v[i.val] := rfl

theorem get_injective {u v : Vector K n} (h : u.get = v.get) : u = v := by
  ext i hi
  exact congrFun h ⟨i, hi⟩

@[simp] theorem get_ofFn (f : Fin n → K) (i : Fin n) : (Vector.ofFn f).get i = f i := by
  rw [get_eq_getElem, Vector.getElem_ofFn]

@[simp] theorem get_map {L : Type} (f : K → L) (v : Vector K n) (i : Fin n) :
    (v.map f).get i = f (v.get i) := by
  rw [get_eq_getElem, Vector.getElem_map, get_eq_getElem]

theorem get_set (v : Vector K n) (i : Fin n) (a : K) (j : Fin n) :
    (v.set i a i.isLt).get j = if i = j then a else v.get j := by
  rw [get_eq_getElem, Vector.getElem_set, get_eq_getElem]
  simp only [Fin.ext_iff]

variable [CommRing K]

theorem dot_eq (u v : Vector K n) : dot u v = u.get ⬝ᵥ v.get := by
  have hzip : u.zipWith (· * ·) v = Vector.ofFn fun i => u.get i * v.get i := by
    ext i hi
    simp [get_eq_getElem]
  rw [dot, sumLeft_eq_sum, hzip, Vector.toList_ofFn, List.sum_ofFn]
  rfl

@[simp] theorem get_addScaled (u v : Vector K n) (c : K) :
    (addScaled u c v).get = u.get + c • v.get := by
  funext i
  simp [addScaled, get_eq_getElem]

@[simp] theorem get_subScaled (u v : Vector K n) (c : K) :
    (subScaled u c v).get = u.get - c • v.get := by
  funext i
  simp [subScaled, get_eq_getElem]

end Linear

end NetBalance
