import Mathlib

/-!
# Aggregates — folds that can be computed in parts

An aggregate has an initial state, adds one value at a time, and merges the states of two parts.  If merging
agrees with adding, then the states of consecutive parts merge to the state of the whole (`combine_fold`); if
moreover the order of two added values does not matter, then the values can be spread over parts in any way
(`Commutative.fold_perm`).  For aggregates that are not lawful, what holds of a part and its values is proved
over the way the part was built (`eval_invariant`).
-/

namespace MobilityNebula.Library

universe u v

structure Aggregate (α : Type u) (σ : Type v) where
  reset : σ
  lift : σ → α → σ
  combine : σ → σ → σ

namespace Aggregate

variable {α : Type u} {σ : Type v} (a : Aggregate α σ)

def fold (l : List α) : σ := l.foldl a.lift a.reset

lemma fold_append_singleton (l : List α) (x : α) : a.fold (l ++ [x]) = a.lift (a.fold l) x := by
  rw [fold, List.foldl_append]
  rfl

/-- Merging agrees with adding. -/
structure Lawful (a : Aggregate α σ) : Prop where
  combine_reset : ∀ s, a.combine s a.reset = s
  combine_lift : ∀ s t x, a.combine s (a.lift t x) = a.lift (a.combine s t) x

/-- The order of two added values does not matter. -/
def Commutative : Prop := ∀ s x y, a.lift (a.lift s x) y = a.lift (a.lift s y) x

variable {a}

lemma Lawful.combine_fold (h : a.Lawful) (s : σ) (l : List α) : a.combine s (a.fold l) = l.foldl a.lift s := by
  induction l using List.reverseRecOn with
  | nil => exact h.combine_reset s
  | append_singleton l x ih => rw [fold_append_singleton, h.combine_lift, ih, List.foldl_append]; rfl

lemma Lawful.fold_append (h : a.Lawful) (l l' : List α) : a.combine (a.fold l) (a.fold l') = a.fold (l ++ l') := by
  rw [h.combine_fold, fold, fold, List.foldl_append]

lemma Commutative.fold_perm (h : a.Commutative) {l l' : List α} (hperm : l.Perm l') : a.fold l = a.fold l' :=
  hperm.foldl_eq' (fun x _ y _ s => h s x y) a.reset

/-- How a part is built: from empty parts, by adding values and merging parts in any order. -/
inductive Parts (α : Type u) where
  | reset
  | lift (parts : Parts α) (value : α)
  | combine (parts parts' : Parts α)

def Parts.values : Parts α → List α
  | reset => []
  | lift parts value => parts.values ++ [value]
  | combine parts parts' => parts.values ++ parts'.values

def eval (a : Aggregate α σ) : Parts α → σ
  | .reset => a.reset
  | .lift parts value => a.lift (a.eval parts) value
  | .combine parts parts' => a.combine (a.eval parts) (a.eval parts')

lemma eval_invariant {P : List α → σ → Prop} (hreset : P [] a.reset)
    (hlift : ∀ l s x, P l s → P (l ++ [x]) (a.lift s x))
    (hcombine : ∀ l s l' s', P l s → P l' s' → P (l ++ l') (a.combine s s')) (parts : Parts α) :
    P parts.values (a.eval parts) := by
  induction parts with
  | reset => exact hreset
  | lift parts value ih => exact hlift _ _ value ih
  | combine parts parts' ih ih' => exact hcombine _ _ _ _ ih ih'

end Aggregate

end MobilityNebula.Library
