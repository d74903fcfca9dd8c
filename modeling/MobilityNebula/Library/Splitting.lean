import Mathlib.Tactic

/-!
# Splitting — substring search and pieces of a list

Two views of text with separators.

* `find` and `rfind` search for a needle by position, the way string views do.
* `List.splitOn` cuts at a one-element separator.  Of the pieces of a list that has the separator, the
  first (`leading`) and the last (`trailing`) are still open to one side; the others (`inner`) are not.

`splitOn_append` says what happens to the pieces when two lists are joined, and `splitOn_induction` is the
induction that follows the pieces.
-/

namespace MobilityNebula.Library

open List Option

variable {α : Type*} [DecidableEq α]

/-! ## Substring search -/

/-- The needle stands at position `i`. -/
def occursAt (needle hay : List α) (i : ℕ) : Bool := needle.isPrefixOf (hay.drop i)

/-- The first position from `pos` on at which the needle stands. -/
def find (needle hay : List α) (pos : ℕ) : Option ℕ :=
  (range' pos (hay.length + 1 - pos)).find? (occursAt needle hay)

/-- The last position inside the list at which the needle stands. -/
def rfind (needle hay : List α) : Option ℕ :=
  (range hay.length).reverse.find? (occursAt needle hay)

variable {needle hay : List α} {pos i : ℕ}

lemma find_bounds (h : find needle hay pos = some i) : pos ≤ i ∧ i ≤ hay.length := by
  have hmem := mem_of_find?_eq_some h
  have hrange := mem_range'_1.1 hmem
  omega

lemma occursAt_bounds (h : occursAt needle hay i = true) (hi : i ≤ hay.length) : i + needle.length ≤ hay.length := by
  have hle := (List.isPrefixOf_iff_prefix.1 h).length_le
  rw [length_drop] at hle
  omega

lemma find_fits (h : find needle hay pos = some i) : i + needle.length ≤ hay.length :=
  occursAt_bounds (find?_some h) (find_bounds h).2

lemma rfind_fits (h : rfind needle hay = some i) : i + needle.length ≤ hay.length := by
  refine occursAt_bounds (find?_some h) ?_
  have hmem := mem_of_find?_eq_some h
  rw [mem_reverse, mem_range] at hmem
  exact le_of_lt hmem

section OneElement

variable {d : α} {pre w rest : List α}

lemma occursAt_singleton_iff : occursAt [d] hay i = true ↔ hay[i]? = some d := by
  rw [occursAt, isPrefixOf_iff_prefix, ← head?_drop]
  cases hay.drop i with
  | nil => simp
  | cons a as => simp [eq_comm]

omit [DecidableEq α] in
lemma getElem?_ne_of_not_mem (hw : d ∉ w) : w[i]? ≠ some d := by
  intro h
  exact hw (mem_of_getElem? h)

lemma find_append_cons (hw : d ∉ w) : find [d] (pre ++ (w ++ d :: rest)) pre.length = some (pre.length + w.length) := by
  rw [find, find?_range'_eq_some]
  refine ⟨?_, ?_, ?_⟩
  · rw [occursAt_singleton_iff, getElem?_append_right (by omega)]
    simp
  · rw [mem_range'_1]
    simp only [length_append, length_cons]
    omega
  · -- before the separator every position is inside `w`
    intro j hpre hj
    have hnone : occursAt [d] (pre ++ (w ++ d :: rest)) j ≠ true := by
      rw [Ne, occursAt_singleton_iff, getElem?_append_right hpre,
        getElem?_append_left (by omega)]
      exact getElem?_ne_of_not_mem hw
    simpa using hnone

lemma find_eq_none (hw : d ∉ w) : find [d] (pre ++ w) pre.length = none := by
  rw [find, find?_eq_none]
  intro j hj
  have hrange := mem_range'_1.1 hj
  rw [occursAt_singleton_iff, getElem?_append_right hrange.1]
  exact getElem?_ne_of_not_mem hw

lemma rfind_append_cons (hw : d ∉ w) : rfind [d] (pre ++ d :: w) = some pre.length := by
  have hlength : (pre ++ d :: w).length = pre.length + 1 + w.length := by
    simp only [length_append, length_cons]
    omega
  -- the positions behind the separator are tried first, in vain
  rw [rfind, hlength, range_add, reverse_append, find?_append]
  have hbehind : ((range w.length).map (pre.length + 1 + ·)).reverse.find? (occursAt [d] (pre ++ d :: w)) = none := by
    rw [find?_eq_none]
    intro j hj
    rcases mem_map.1 (mem_reverse.1 hj) with ⟨k, _, rfl⟩
    rw [occursAt_singleton_iff, getElem?_append_right (by omega),
      show pre.length + 1 + k - pre.length = k + 1 by omega, getElem?_cons_succ]
    exact getElem?_ne_of_not_mem hw
  have hat : occursAt [d] (pre ++ d :: w) pre.length = true := by
    rw [occursAt_singleton_iff]
    simp
  rw [hbehind, range_succ, reverse_append]
  simp [hat]

lemma find_singleton_isSome_iff : (find [d] hay 0).isSome ↔ d ∈ hay := by
  constructor
  · intro h
    rcases isSome_iff_exists.1 h with ⟨i, hi⟩
    exact mem_of_getElem? (occursAt_singleton_iff.1 (find?_some hi))
  · intro h
    by_contra hnone
    rw [not_isSome_iff_eq_none, find, find?_eq_none] at hnone
    rcases mem_iff_getElem?.1 h with ⟨i, hi⟩
    have hlt : i < hay.length := (List.getElem?_eq_some_iff.1 hi).1
    exact hnone i (mem_range'_1.2 (by omega)) (occursAt_singleton_iff.2 hi)

end OneElement

/-! ## Cutting at a needle of several elements -/

section Needles

/-- The pieces between the needles, cut from left to right.  The next `skip` elements belong to a needle. -/
def pieces (needle : List α) : ℕ → List α → List (List α)
  | _, [] => [[]]
  | skip + 1, _ :: rest => pieces needle skip rest
  | 0, a :: rest =>
    if needle.isPrefixOf (a :: rest) then [] :: pieces needle (needle.length - 1) rest
    else (pieces needle 0 rest).modifyHead (a :: ·)

lemma find_eq_none_of_lt (h : hay.length < pos + needle.length) : find needle hay pos = none := by
  refine eq_none_iff_forall_ne_some.2 fun i hi => ?_
  have hbounds := find_bounds hi
  have hfits := find_fits hi
  omega

lemma find_drop (h : find needle hay pos = some i) : find needle (hay.drop pos) 0 = some (i - pos) := by
  have hbounds := find_bounds h
  have hsame : occursAt needle (hay.drop pos) = occursAt needle hay ∘ (pos + ·) := by
    funext j
    rw [Function.comp_apply, occursAt, occursAt, drop_drop]
  have hrange : range' pos (hay.length + 1 - pos) = (range' 0 (hay.length + 1 - pos)).map (pos + ·) := by
    simp [map_add_range']
  rw [find, hrange, find?_map, map_eq_some_iff] at h
  rcases h with ⟨j, hj, rfl⟩
  rw [find, length_drop, hsame, ← Nat.sub_add_comm (by omega), Nat.sub_zero, hj, Nat.add_sub_cancel_left]

lemma find_cons (needle : List α) (a : α) (rest : List α) : find needle (a :: rest) 0
      = if needle.isPrefixOf (a :: rest) then some 0 else (find needle rest 0).map (· + 1) := by
  have hnext : (fun i => occursAt needle (a :: rest) (i + 1)) = occursAt needle rest := rfl
  rw [find, find, length_cons, Nat.sub_zero, Nat.sub_zero, range'_succ, find?_cons, Nat.zero_add,
    ← map_add_range' 0 _ 1, find?_map]
  simp only [Nat.add_comm 1, Function.comp_def, hnext]
  cases hat : needle.isPrefixOf (a :: rest) with
  | true => simp [occursAt, hat]
  | false => simp [occursAt, hat]

lemma pieces_eq_drop (needle : List α) (skip : ℕ) (text : List α) :
    pieces needle skip text = pieces needle 0 (text.drop skip) := by
  induction text generalizing skip with
  | nil => simp [pieces]
  | cons a rest ih =>
    cases skip with
    | zero => rfl
    | succ skip => simpa [pieces] using ih skip

lemma pieces_ne_nil (needle : List α) (skip : ℕ) (text : List α) : pieces needle skip text ≠ [] := by
  induction text generalizing skip with
  | nil => simp [pieces]
  | cons a rest ih =>
    cases skip with
    | zero =>
      rw [pieces]
      split <;> simp [ih]
    | succ skip => exact ih skip

lemma pieces_of_find_none {text : List α} (h : find needle text 0 = none) : pieces needle 0 text = [text] := by
  induction text with
  | nil => rfl
  | cons a rest ih =>
    rw [find_cons] at h
    split at h
    case isTrue => cases h
    case isFalse hnot => simp [pieces, hnot, ih (map_eq_none_iff.1 h)]

lemma pieces_of_find_some {text : List α} (hneedle : needle ≠ []) (h : find needle text 0 = some i) :
    pieces needle 0 text = text.take i :: pieces needle 0 (text.drop (i + needle.length)) := by
  induction text generalizing i with
  | nil =>
    have hfits := find_fits h
    rw [length_nil] at hfits
    exact absurd (length_eq_zero_iff.1 (by omega)) hneedle
  | cons a rest ih =>
    rw [find_cons] at h
    split at h
    case isTrue hat =>
      rcases Nat.exists_eq_succ_of_ne_zero (mt length_eq_zero_iff.1 hneedle) with ⟨k, hk⟩
      rw [← some.inj h, pieces, if_pos hat, pieces_eq_drop, hk]
      simp
    case isFalse hnot =>
      rcases map_eq_some_iff.1 h with ⟨j, hj, rfl⟩
      rw [pieces, if_neg hnot, ih hj, Nat.add_right_comm]
      simp

lemma find_append {xs : List α} (ys : List α) (h : find needle xs 0 = some i) : find needle (xs ++ ys) 0 = some i := by
  induction xs generalizing i with
  | nil =>
    have hfits := find_fits h
    have hneedle : needle = [] := length_eq_zero_iff.1 (by rw [length_nil] at hfits; omega)
    have hi : i = 0 := by rw [length_nil] at hfits; omega
    subst hneedle hi
    cases ys with
    | nil => exact h
    | cons y ys => simp [find_cons]
  | cons a xs ih =>
    have hfits := find_fits h
    rw [find_cons] at h
    rw [cons_append, find_cons]
    split at h
    case isTrue hat =>
      have hprefix : needle <+: a :: (xs ++ ys) := (List.isPrefixOf_iff_prefix.1 hat).trans (prefix_append (a :: xs) ys)
      rw [if_pos (List.isPrefixOf_iff_prefix.2 hprefix), h]
    case isFalse hnot =>
      rcases map_eq_some_iff.1 h with ⟨j, hj, rfl⟩
      rw [if_neg, ih hj, map_some]
      -- a needle that reaches into `ys` is longer than what is left of `xs`
      intro hat
      refine hnot (List.isPrefixOf_iff_prefix.2 (prefix_of_prefix_length_le
        (List.isPrefixOf_iff_prefix.1 hat) (prefix_append (a :: xs) ys) ?_))
      omega

lemma pieces_append {xs : List α} {done : List (List α)} {last : List α} (hneedle : needle ≠ [])
    (h : pieces needle 0 xs = done ++ [last]) (ys : List α) :
    pieces needle 0 (xs ++ ys) = done ++ pieces needle 0 (last ++ ys) := by
  induction done generalizing xs with
  | nil =>
    cases hfind : find needle xs 0 with
    | none =>
      rw [pieces_of_find_none hfind] at h
      rw [(cons.inj h).1, nil_append]
    | some i =>
      rw [pieces_of_find_some hneedle hfind] at h
      exact absurd (cons.inj h).2 (pieces_ne_nil _ _ _)
  | cons w done ih =>
    cases hfind : find needle xs 0 with
    | none =>
      rw [pieces_of_find_none hfind] at h
      simpa using congrArg length h
    | some i =>
      have hfits := find_fits hfind
      rw [pieces_of_find_some hneedle hfind, cons_append, cons.injEq] at h
      rw [pieces_of_find_some hneedle (find_append ys hfind), take_append_of_le_length (by omega),
        drop_append_of_le_length hfits, ih h.2, h.1, cons_append]

end Needles

/-! ## Pieces -/

section Pieces

variable (d : α)

def leading (xs : List α) : List α := (xs.splitOn d).headD []

def trailing (xs : List α) : List α := (xs.splitOn d).getLastD []

def inner (xs : List α) : List (List α) := (xs.splitOn d).tail.dropLast

variable {d}
variable {xs ys w rest pre : List α}

lemma splitOn_append_cons (xs rest : List α) : (xs ++ d :: rest).splitOn d = xs.splitOn d ++ rest.splitOn d :=
  splitOnP_append_cons xs rest (by simp)

/-- A list without the separator is one piece; otherwise its first piece is cut off. -/
lemma splitOn_induction {motive : List α → Prop} (single : ∀ w, d ∉ w → motive w)
    (cons : ∀ w rest, d ∉ w → motive rest → motive (w ++ d :: rest)) (xs : List α) : motive xs := by
  induction hn : xs.length using Nat.strong_induction_on generalizing xs with
  | _ n ih =>
    by_cases hmem : d ∈ xs
    · rcases eq_append_cons_of_mem hmem with ⟨w, rest, rfl, hw⟩
      refine cons w rest hw (ih rest.length ?_ rest rfl)
      rw [← hn, length_append, length_cons]
      omega
    · exact single xs hmem

omit [DecidableEq α] in
lemma exists_last_separator (h : d ∈ xs) : ∃ pre w, xs = pre ++ d :: w ∧ d ∉ w := by
  rcases eq_append_cons_of_mem (mem_reverse.2 h) with ⟨w, pre, hxs, hw⟩
  refine ⟨pre.reverse, w.reverse, ?_, by simpa using hw⟩
  have hrev := congrArg reverse hxs
  simpa using hrev

lemma splitOn_first (hw : d ∉ w) : (w ++ d :: rest).splitOn d = w :: rest.splitOn d := by
  rw [splitOn_append_cons, splitOn_eq_singleton hw, singleton_append]

lemma splitOn_last (hw : d ∉ w) : (pre ++ d :: w).splitOn d = pre.splitOn d ++ [w] := by
  rw [splitOn_append_cons, splitOn_eq_singleton hw]

lemma leading_of_not_mem (h : d ∉ xs) : leading d xs = xs := by
  rw [leading, splitOn_eq_singleton h, headD_cons]

lemma trailing_of_not_mem (h : d ∉ xs) : trailing d xs = xs := by
  rw [trailing, splitOn_eq_singleton h]
  rfl

lemma inner_of_not_mem (h : d ∉ xs) : inner d xs = [] := by
  rw [inner, splitOn_eq_singleton h]
  rfl

lemma leading_first (hw : d ∉ w) : leading d (w ++ d :: rest) = w := by
  rw [leading, splitOn_first hw, headD_cons]

lemma inner_first (hw : d ∉ w) : inner d (w ++ d :: rest) = (rest.splitOn d).dropLast := by
  rw [inner, splitOn_first hw, tail_cons]

lemma trailing_last (hw : d ∉ w) : trailing d (pre ++ d :: w) = w := by
  rw [trailing, splitOn_last hw, getLastD_concat]

lemma dropLast_append_trailing (xs : List α) : (xs.splitOn d).dropLast ++ [trailing d xs] = xs.splitOn d := by
  have hne := splitOn_ne_nil d xs
  rw [trailing, getLastD_eq_getLast?, getLast?_eq_some_getLast hne, getD_some, dropLast_append_getLast hne]

lemma splitOn_of_mem (h : d ∈ xs) : xs.splitOn d = leading d xs :: (inner d xs ++ [trailing d xs]) := by
  rcases eq_append_cons_of_mem h with ⟨w, rest, rfl, hw⟩
  have htrailing : trailing d (w ++ d :: rest) = trailing d rest := by
    have hne := splitOn_ne_nil d rest
    rw [trailing, trailing, splitOn_first hw, getLastD_eq_getLast?, getLastD_eq_getLast?, getLast?_cons_of_ne_nil hne]
  rw [leading_first hw, inner_first hw, htrailing, dropLast_append_trailing, splitOn_first hw]

lemma inner_eq_nil (h : d ∈ xs)
    (hsame : (leading d xs).length = xs.length - ((trailing d xs).length + 1)) : inner d xs = [] := by
  rcases eq_append_cons_of_mem h with ⟨w, rest, rfl, hw⟩
  have hrest : d ∉ rest := by
    intro hmem
    rcases exists_last_separator hmem with ⟨pre, v, rfl, hv⟩
    have htrailing : trailing d (w ++ d :: (pre ++ d :: v)) = v := by
      rw [← cons_append, ← append_assoc]
      exact trailing_last hv
    rw [leading_first hw, htrailing] at hsame
    simp only [length_append, length_cons] at hsame
    omega
  rw [inner_first hw, splitOn_eq_singleton hrest]
  rfl

lemma splitOn_append_of_not_mem (hw : d ∉ w) (ys : List α) :
    (w ++ ys).splitOn d = (w ++ leading d ys) :: (ys.splitOn d).tail := by
  by_cases hmem : d ∈ ys
  · rcases eq_append_cons_of_mem hmem with ⟨v, rest, rfl, hv⟩
    have hwv : d ∉ w ++ v := by
      rw [mem_append]
      exact not_or_intro hw hv
    rw [← append_assoc, splitOn_first hwv, leading_first hv, splitOn_first hv, tail_cons]
  · have hwy : d ∉ w ++ ys := by
      rw [mem_append]
      exact not_or_intro hw hmem
    rw [splitOn_eq_singleton hwy, leading_of_not_mem hmem, splitOn_eq_singleton hmem, tail_cons]

lemma splitOn_append (xs ys : List α) : (xs ++ ys).splitOn d
      = (xs.splitOn d).dropLast ++ (trailing d xs ++ leading d ys) :: (ys.splitOn d).tail := by
  by_cases hmem : d ∈ xs
  · rcases exists_last_separator hmem with ⟨pre, w, rfl, hw⟩
    calc (pre ++ d :: w ++ ys).splitOn d = (pre ++ d :: (w ++ ys)).splitOn d := by rw [append_assoc, cons_append]
      _ = pre.splitOn d ++ (w ++ ys).splitOn d := splitOn_append_cons pre (w ++ ys)
      _ = pre.splitOn d ++ (w ++ leading d ys) :: (ys.splitOn d).tail := by
            rw [splitOn_append_of_not_mem hw]
      _ = ((pre ++ d :: w).splitOn d).dropLast
            ++ (trailing d (pre ++ d :: w) ++ leading d ys) :: (ys.splitOn d).tail := by
            rw [splitOn_last hw, trailing_last hw, dropLast_concat]
  · rw [splitOn_append_of_not_mem hmem, splitOn_eq_singleton hmem, trailing_of_not_mem hmem]
    rfl

end Pieces

end MobilityNebula.Library
