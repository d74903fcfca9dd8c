import Mathlib

/-!
# Slots — a list as a row of numbered slots

Counting arguments about objects that live in the slots of a list do not care about their order.  The rules
below say, up to order, what changes when one slot is cleared, overwritten or exchanged with another.
-/

namespace MobilityNebula.Library

open scoped List

universe u

variable {α : Type u} {xs : List α} {i j : Nat} {x y : α}

lemma perm_cons_eraseIdx (h : xs[i]? = some x) : xs ~ x :: xs.eraseIdx i := by
  rcases List.getElem?_eq_some_iff.1 h with ⟨hi, rfl⟩
  exact (List.getElem_cons_eraseIdx_perm hi).symm

lemma set_perm_cons_eraseIdx (h : xs[i]? = some x) (y : α) : xs.set i y ~ y :: xs.eraseIdx i :=
  List.set_perm_cons_eraseIdx (List.getElem?_eq_some_iff.1 h).1 y

lemma swap_perm (hx : xs[i]? = some x) (hy : xs[j]? = some y) : (xs.set i y).set j x ~ xs := by
  have hi := (List.getElem?_eq_some_iff.1 hx).1
  have hy' : (xs.set i y)[j]? = some y := by
    by_cases hij : j = i
    · rw [hij, List.getElem?_set_self hi]
    · rw [List.getElem?_set_ne (Ne.symm hij), hy]
  have hothers : (xs.set i y).eraseIdx j ~ xs.eraseIdx i :=
    ((perm_cons_eraseIdx hy').symm.trans (set_perm_cons_eraseIdx hx y)).cons_inv
  calc (xs.set i y).set j x ~ x :: (xs.set i y).eraseIdx j := set_perm_cons_eraseIdx hy' x
    _ ~ x :: xs.eraseIdx i := hothers.cons x
    _ ~ xs := (perm_cons_eraseIdx hx).symm

end MobilityNebula.Library
