import Mathlib

/-!
# Pairs — nested loops over two lists

What a nested loop emits does not depend, up to order, on which of its loops is the outer one
(`pairs_swap`), nor on how its lists are cut into parts (`pairs_flatMap`).
-/

namespace MobilityNebula.Library

universe u v w

variable {α : Type u} {β : Type v} {γ : Type w} (f : α → β → List γ)

/-- What a nested loop with the body `f` emits. -/
def pairs (l : List α) (r : List β) : List γ := l.flatMap fun a => r.flatMap (f a)

lemma pairs_perm {l l' : List α} {r r' : List β} (hl : l.Perm l') (hr : r.Perm r') :
    (pairs f l r).Perm (pairs f l' r') := by
  refine (List.Perm.flatMap_right _ hl).trans ?_
  exact .flatMap_left l' fun a _ => .flatMap_right (f a) hr

lemma pairs_map {α' : Type u} {β' : Type v} (f : α → β → List γ) (g : α' → α) (h : β' → β) (l : List α')
    (r : List β') : pairs f (l.map g) (r.map h) = pairs (fun a b => f (g a) (h b)) l r := by
  rw [pairs, List.flatMap_map]
  refine List.flatMap_congr fun a _ => ?_
  rw [List.flatMap_map]

lemma pairs_swap (l : List α) (r : List β) : (pairs (fun b a => f a b) r l).Perm (pairs f l r) := by
  induction l with
  | nil => simp [pairs]
  | cons a l ih =>
    have hsplit : (pairs (fun b a => f a b) r (a :: l)).Perm (r.flatMap (f a) ++ pairs (fun b a => f a b) r l) := by
      exact (List.flatMap_append_perm r (f a) fun b => l.flatMap fun a => f a b).symm
    refine hsplit.trans ?_
    exact ih.append_left _

lemma pairs_flatMap {ι : Type u} {κ : Type v} (f : α → β → List γ) (g : ι → List α) (h : κ → List β) (xs : List ι)
    (ys : List κ) : (pairs (fun x y => pairs f (g x) (h y)) xs ys).Perm (pairs f (xs.flatMap g) (ys.flatMap h)) := by
  have hright : ∀ l : List α, (ys.flatMap fun y => pairs f l (h y)).Perm (pairs f l (ys.flatMap h)) := by
    intro l
    have hswap := pairs_swap (fun a y => (h y).flatMap (f a)) l ys
    simp only [pairs] at hswap ⊢
    simpa only [List.flatMap_assoc] using hswap
  have hleft : pairs f (xs.flatMap g) (ys.flatMap h) = xs.flatMap fun x => pairs f (g x) (ys.flatMap h) :=
    List.flatMap_assoc
  rw [hleft]
  exact .flatMap_left xs fun x _ => hright (g x)

end MobilityNebula.Library
