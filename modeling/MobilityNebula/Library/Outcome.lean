import Mathlib.Logic.Basic

/-!
# Outcome — computations that succeed under exactly one condition

`SucceedsIff p x Q` is a triple for a computation `x : Except ε α`: if `p` holds then `x` returns a value
with `Q`, and if `p` does not hold then `x` fails.  The rules below follow the shape of a program, so that
the condition of a sequence is the conjunction of the conditions of its parts.
-/

namespace MobilityNebula.Library

universe u

variable {ε : Type*} {α β : Type u}

structure SucceedsIff (p : Prop) (x : Except ε α) (Q : α → Prop) : Prop where
  ok : p → ∃ a, x = .ok a ∧ Q a
  error : ¬ p → ∃ e, x = .error e

namespace SucceedsIff

variable {p q : Prop} {x : Except ε α} {Q S : α → Prop} {R : β → Prop} {a : α}

lemma pure (h : Q a) : SucceedsIff True (.ok a : Except ε α) Q :=
  ⟨fun _ => ⟨a, rfl, h⟩, fun hnot => absurd trivial hnot⟩

lemma of_isOk (x : Except ε α) : SucceedsIff (x.isOk = true) x fun a => x = .ok a := by
  cases x with
  | ok a => exact ⟨fun _ => ⟨a, rfl, rfl⟩, fun hnot => absurd rfl hnot⟩
  | error e => exact ⟨nofun, fun _ => ⟨e, rfl⟩⟩

lemma congr (h : SucceedsIff p x Q) (hp : p ↔ q) : SucceedsIff q x Q :=
  ⟨fun hq => h.ok (hp.2 hq), fun hnot => h.error fun hpp => hnot (hp.1 hpp)⟩

lemma mono (h : SucceedsIff p x Q) (hQ : ∀ a, Q a → S a) : SucceedsIff p x S := by
  refine ⟨fun hp => ?_, h.error⟩
  rcases h.ok hp with ⟨a, hx, hqa⟩
  exact ⟨a, hx, hQ a hqa⟩

/-- The second part may rely on what the first one established. -/
lemma bind {k : α → Except ε β} (h : SucceedsIff p x Q)
    (hk : ∀ a, Q a → SucceedsIff q (k a) R) : SucceedsIff (p ∧ q) (x >>= k) R := by
  by_cases hp : p
  · rcases h.ok hp with ⟨a, rfl, hqa⟩
    exact (hk a hqa).congr ⟨fun hq => ⟨hp, hq⟩, fun hand => hand.2⟩
  · refine ⟨fun hand => absurd hand.1 hp, fun _ => ?_⟩
    rcases h.error hp with ⟨e, rfl⟩
    exact ⟨e, rfl⟩

/-- A computation that succeeded was allowed to. -/
lemma of_eq_ok (h : SucceedsIff p x Q) (hx : x = .ok a) : p ∧ Q a := by
  by_cases hp : p
  · rcases h.ok hp with ⟨a', hx', hqa⟩
    have heq : a' = a := Except.ok.inj (hx'.symm.trans hx)
    exact ⟨hp, heq ▸ hqa⟩
  · rcases h.error hp with ⟨e, he⟩
    rw [hx] at he
    cases he

lemma exists_ok_iff (h : SucceedsIff p x Q) : (∃ a, x = .ok a) ↔ p := by
  refine ⟨fun ⟨a, hx⟩ => (h.of_eq_ok hx).1, fun hp => ?_⟩
  rcases h.ok hp with ⟨a, hx, _⟩
  exact ⟨a, hx⟩

end SucceedsIff

lemma exists_of_bind_eq_ok {x : Except ε α} {k : α → Except ε β} {b : β} (h : x >>= k = .ok b) :
    ∃ a, x = .ok a ∧ k a = .ok b := by
  cases x with
  | error => cases h
  | ok a => exact ⟨a, rfl, h⟩

end MobilityNebula.Library
