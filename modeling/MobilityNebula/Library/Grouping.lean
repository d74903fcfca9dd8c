import Mathlib

/-!
# Grouping — a list split by the keys of its elements

Elements with the same key form a group, and each group keeps the order of the list.  Laying the groups of
distinct keys one after the other only reorders the elements that have one of these keys
(`filter_mem_perm`).
-/

namespace MobilityNebula.Library

open List

universe u v

variable {α : Type u} {κ : Type v} [DecidableEq κ]

def group (key : α → κ) (k : κ) (l : List α) : List α := l.filter fun x => key x = k

@[simp] lemma group_nil (key : α → κ) (k : κ) : group key k [] = [] := rfl

variable {l : List α}

lemma mem_group {key : α → κ} {k : κ} {x : α} : x ∈ group key k l ↔ x ∈ l ∧ key x = k := by
  simp [group]

variable (key : α → κ)

lemma group_append (k : κ) (l l' : List α) : group key k (l ++ l') = group key k l ++ group key k l' := filter_append ..

lemma group_append_singleton_self (l : List α) (x : α) : group key (key x) (l ++ [x]) = group key (key x) l ++ [x] := by
  simp [group]

lemma group_append_singleton_of_ne {key : α → κ} {k : κ} {x : α} (hne : key x ≠ k) (l : List α) :
    group key k (l ++ [x]) = group key k l := by
  simp [group, hne]

lemma group_eq_nil_iff {key : α → κ} {k : κ} : group key k l = [] ↔ ∀ x ∈ l, key x ≠ k := by
  simp [group, filter_eq_nil_iff]

lemma group_perm (k : κ) {l' : List α} (h : l.Perm l') : (group key k l).Perm (group key k l') := h.filter _

/-- The groups of distinct keys, one after the other, are the elements with these keys. -/
lemma filter_mem_perm (l : List α) {keys : List κ} (hnodup : keys.Nodup) :
    (l.filter fun x => key x ∈ keys).Perm (keys.flatMap fun k => group key k l) := by
  induction keys with
  | nil => simp
  | cons k rest ih =>
    have hcons := nodup_cons.1 hnodup
    -- the group of the first key and the elements with the other keys exclude each other
    have hsplit := (filter_append_perm (fun x => decide (key x = k)) (l.filter fun x => key x ∈ k :: rest)).symm
    refine hsplit.trans (.append (.of_eq ?_) (.trans (.of_eq ?_) (ih hcons.2)))
    · rw [filter_filter]
      refine filter_congr fun x _ => ?_
      by_cases hx : key x = k
      · simp [hx]
      · simp [hx]
    · rw [filter_filter]
      refine filter_congr fun x _ => ?_
      by_cases hx : key x = k
      · simp [hx, hcons.1]
      · simp [hx]

lemma perm_flatMap_group {keys : List κ} (hnodup : keys.Nodup)
    (hmem : ∀ x ∈ l, key x ∈ keys) : l.Perm (keys.flatMap fun k => group key k l) := by
  have hall : (l.filter fun x => key x ∈ keys) = l := filter_eq_self.2 fun x hx => decide_eq_true (hmem x hx)
  have hperm := filter_mem_perm key l hnodup
  rwa [hall] at hperm

lemma flatMap_filter_of_nil {β : Type v} {f : α → List β} {p : α → Bool}
    (h : ∀ x ∈ l, p x = false → f x = []) : (l.filter p).flatMap f = l.flatMap f := by
  induction l with
  | nil => rfl
  | cons x l ih =>
    have hcons := forall_mem_cons.1 h
    cases hp : p x with
    | true => rw [filter_cons_of_pos hp, flatMap_cons, flatMap_cons, ih hcons.2]
    | false =>
      rw [filter_cons_of_neg (by simp [hp]), flatMap_cons, hcons.1 hp, nil_append, ih hcons.2]

end MobilityNebula.Library
