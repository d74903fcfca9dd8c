import Mathlib

/-!
# Chunks — numbered pieces that arrive in any order

Something is cut into the pieces 1, …, k, and the pieces arrive once each, in any order.  All pieces are there
as soon as k of them are (`IsChunkSet.length_eq_iff`), which is what counting protocols rely on.  The second
half is about many such things at once, told apart by a key.
-/

namespace MobilityNebula.Library

open List

universe u

/-! ## The pieces of one thing -/

/-- Distinct pieces of 1, …, k. -/
structure IsChunkSet (k : Nat) (chunks : List Nat) : Prop where
  nodup : chunks.Nodup
  bounds : ∀ c ∈ chunks, 1 ≤ c ∧ c ≤ k

def AllChunks (k : Nat) (chunks : List Nat) : Prop := ∀ c, 1 ≤ c → c ≤ k → c ∈ chunks

namespace IsChunkSet

variable {k : Nat} {chunks : List Nat}

lemma nil (k : Nat) : IsChunkSet k [] := ⟨nodup_nil, by simp⟩

variable (h : IsChunkSet k chunks)
include h

lemma cons {c : Nat} (hnew : c ∉ chunks) (hpos : 1 ≤ c) (hle : c ≤ k) : IsChunkSet k (c :: chunks) :=
  ⟨nodup_cons.2 ⟨hnew, h.nodup⟩, forall_mem_cons.2 ⟨⟨hpos, hle⟩, h.bounds⟩⟩

lemma subperm_range : chunks.Subperm (range' 1 k) := by
  refine h.nodup.subperm fun c hc => ?_
  have hbounds := h.bounds c hc
  exact mem_range'_1.2 ⟨hbounds.1, by omega⟩

lemma length_le : chunks.length ≤ k := by
  have hle := h.subperm_range.length_le
  rwa [length_range'] at hle

lemma perm_range (hall : AllChunks k chunks) : chunks.Perm (range' 1 k) := by
  refine (perm_ext_iff_of_nodup h.nodup nodup_range').2 fun c => ?_
  constructor
  · intro hc
    exact h.subperm_range.subset hc
  · intro hc
    have hbounds := mem_range'_1.1 hc
    exact hall c hbounds.1 (by omega)

lemma length_eq_iff : chunks.length = k ↔ AllChunks k chunks := by
  constructor
  · intro hlength c hpos hle
    have hperm : chunks.Perm (range' 1 k) :=
      h.subperm_range.perm_of_length_le (by rw [length_range', hlength])
    exact hperm.symm.subset (mem_range'_1.2 ⟨hpos, by omega⟩)
  · intro hall
    rw [(h.perm_range hall).length_eq, length_range']

end IsChunkSet

/-! ## Values that only one piece changes -/

/-- Two assignments of lists to pieces that differ in one piece only. -/
lemma exists_flatMap_perm {α : Type u} {l : List Nat} (hnodup : l.Nodup) {c : Nat} (hc : c ∈ l)
    {f g : Nat → List α} (hfg : ∀ x, x ≠ c → f x = g x) :
    ∃ rest, (l.flatMap f).Perm (f c ++ rest) ∧ (l.flatMap g).Perm (g c ++ rest) := by
  have hperm := perm_cons_erase hc
  have hrest : (l.erase c).flatMap f = (l.erase c).flatMap g := by
    refine flatMap_congr fun x hx => hfg x fun heq => ?_
    rw [heq] at hx
    exact hnodup.not_mem_erase hx
  refine ⟨(l.erase c).flatMap f, hperm.flatMap_right f, ?_⟩
  rw [hrest]
  exact hperm.flatMap_right g

/-! ## The largest value of the pieces -/

/-- The largest value of a list of pieces, 0 if there is none. -/
def largest (value : Nat → Nat) (chunks : List Nat) : Nat := (chunks.map value).foldr max 0

variable (value : Nat → Nat)

lemma largest_cons (c : Nat) (chunks : List Nat) :
    largest value (c :: chunks) = max (value c) (largest value chunks) := rfl

variable {chunks : List Nat}

lemma largest_perm {chunks' : List Nat} (h : chunks.Perm chunks') : largest value chunks = largest value chunks' := by
  induction h with
  | nil => rfl
  | cons c _ ih => rw [largest_cons, largest_cons, ih]
  | swap c c' l =>
    exact max_left_comm _ _ _
  | trans _ _ ih₁ ih₂ => exact ih₁.trans ih₂

lemma le_largest {c : Nat} (hc : c ∈ chunks) : value c ≤ largest value chunks := by
  induction chunks with
  | nil => cases hc
  | cons c' rest ih =>
    rcases mem_cons.1 hc with rfl | hc
    · exact le_max_left _ _
    · exact (ih hc).trans (le_max_right _ _)

lemma largest_le {value : Nat → Nat} {bound : Nat} (h : ∀ c ∈ chunks, value c ≤ bound) :
    largest value chunks ≤ bound := by
  induction chunks with
  | nil => exact Nat.zero_le _
  | cons c rest ih =>
    have hcons := forall_mem_cons.1 h
    exact max_le hcons.1 (ih hcons.2)

/-! ## The pieces of many things -/

section Keyed

variable {κ : Type u} [DecidableEq κ] {numberOfChunks : κ → Nat} {arrived : List (κ × Nat)}

/-- Distinct pieces, each of the thing its key says. -/
structure IsArrival (numberOfChunks : κ → Nat) (arrived : List (κ × Nat)) : Prop where
  nodup : arrived.Nodup
  bounds : ∀ a ∈ arrived, 1 ≤ a.2 ∧ a.2 ≤ numberOfChunks a.1

def chunksOf (arrived : List (κ × Nat)) (key : κ) : List Nat :=
  (arrived.filter fun a => a.1 = key).map Prod.snd

lemma mem_chunksOf {key : κ} {c : Nat} : c ∈ chunksOf arrived key ↔ (key, c) ∈ arrived := by
  simp only [chunksOf, mem_map, mem_filter, decide_eq_true_eq, Prod.exists]
  constructor
  · rintro ⟨key', c', ⟨hmem, rfl⟩, rfl⟩
    exact hmem
  · intro hmem
    exact ⟨key, c, ⟨hmem, rfl⟩, rfl⟩

lemma chunksOf_cons_self (key : κ) (c : Nat) (arrived : List (κ × Nat)) :
    chunksOf ((key, c) :: arrived) key = c :: chunksOf arrived key := by
  simp [chunksOf]

lemma chunksOf_cons_of_ne {key key' : κ} (hne : key' ≠ key) (c : Nat) (arrived : List (κ × Nat)) :
    chunksOf ((key, c) :: arrived) key' = chunksOf arrived key' := by
  simp [chunksOf, Ne.symm hne]

namespace IsArrival

omit [DecidableEq κ] in
lemma nil (numberOfChunks : κ → Nat) : IsArrival numberOfChunks [] := ⟨nodup_nil, by simp⟩

omit [DecidableEq κ] in
lemma of_cons {a : κ × Nat} (h : IsArrival numberOfChunks (a :: arrived)) : IsArrival numberOfChunks arrived :=
  ⟨(nodup_cons.1 h.nodup).2, fun b hb => h.bounds b (mem_cons_of_mem _ hb)⟩

omit [DecidableEq κ] in
lemma of_append_right {later : List (κ × Nat)} (h : IsArrival numberOfChunks (later ++ arrived)) :
    IsArrival numberOfChunks arrived :=
  ⟨h.nodup.of_append_right, fun b hb => h.bounds b (mem_append_right _ hb)⟩

lemma chunkSet (h : IsArrival numberOfChunks arrived) (key : κ) :
    IsChunkSet (numberOfChunks key) (chunksOf arrived key) := by
  refine ⟨?_, fun c hc => h.bounds (key, c) (mem_chunksOf.1 hc)⟩
  refine (nodup_map_iff_inj_on (h.nodup.filter _)).2 ?_
  rintro ⟨k, c⟩ hmem ⟨k', c'⟩ hmem' heq
  have hk : k = key := by simpa using (mem_filter.1 hmem).2
  have hk' : k' = key := by simpa using (mem_filter.1 hmem').2
  rw [hk, hk']
  exact congrArg (Prod.mk key) heq

end IsArrival

end Keyed

end MobilityNebula.Library
