import MobilityNebula.Aggregation.AggregationPhysicalFunction

/-!
# ExtremaStates — the start values of MAX and the states of VAR

A state that keeps the largest value starts with `createNautilusMinValue`, so it is the largest of the start
value and the values (`isGreatest_eval_maxAggregate`).  For the integers the start value is below every value.
For the floats it is `std::numeric_limits::min()`, the smallest positive normal number, and a state of smaller
values never leaves it.

VAR keeps the smallest and the largest value and the number of values, and returns the difference of the first
two (`lower_eq`).

Floats are their finite values, the rational numbers `mantissa * 2 ^ exponent` of the format.
-/

namespace MobilityNebula.Aggregation

open Library Library.Aggregate InputFormatters Nautilus AggregationPhysicalFunction List Parts

/-! ## MAX -/

structure FloatFormat where
  precision : Nat
  minExponent : Int
  maxExponent : Int

def float32 : FloatFormat := ⟨24, -149, 104⟩

def float64 : FloatFormat := ⟨53, -1074, 971⟩

inductive NumericType where
  | integer (type : IntegerType)
  | float (format : FloatFormat)

namespace NumericType

def values : NumericType → Set ℚ
  | integer type => {q | ∃ v : Integer type, q = valueOf type v}
  | float format => {q | ∃ mantissa exponent : ℤ, |mantissa| < 2 ^ format.precision ∧
      format.minExponent ≤ exponent ∧ exponent ≤ format.maxExponent ∧ q = mantissa * 2 ^ exponent}

/-- The value of `createNautilusMinValue`: `std::numeric_limits::min()` of the type. -/
def minValue : NumericType → ℚ
  | integer type => valueOf type (Nautilus.createNautilusMinValue type)
  | float format => 2 ^ (format.minExponent + format.precision - 1)

def IsInteger : NumericType → Prop
  | integer _ => True
  | float _ => False

end NumericType

def maxAggregate (inputType : NumericType) : Aggregate ℚ ℚ where
  reset := inputType.minValue
  lift max value := if max < value then value else max
  combine max₁ max₂ := if max₁ < max₂ then max₂ else max₁

lemma ite_lt_eq_max (v w : ℚ) : (if v < w then w else v) = max v w := by
  split_ifs with hlt
  · exact (max_eq_right hlt.le).symm
  · exact (max_eq_left (not_lt.1 hlt)).symm

lemma isGreatest_eval_maxAggregate (inputType : NumericType) (parts : Parts ℚ) :
    IsGreatest ({inputType.minValue} ∪ {x | x ∈ parts.values}) ((maxAggregate inputType).eval parts) := by
  refine eval_invariant (P := fun l s => IsGreatest ({inputType.minValue} ∪ {x | x ∈ l}) s) ?_ ?_ ?_ parts
  · have hset : ({inputType.minValue} ∪ {x | x ∈ ([] : List ℚ)} : Set ℚ) = {inputType.minValue} := by simp
    rw [hset]
    exact isGreatest_singleton
  · intro l max value hmax
    have hset : ({inputType.minValue} ∪ {x | x ∈ l ++ [value]} : Set ℚ)
        = ({inputType.minValue} ∪ {x | x ∈ l}) ∪ {value} := by
      ext x
      simp only [Set.mem_union, Set.mem_ofPred_eq, mem_append, mem_singleton, Set.mem_singleton_iff, or_assoc]
    rw [hset]
    simp only [maxAggregate, ite_lt_eq_max]
    exact hmax.union isGreatest_singleton
  · intro l max₁ l' max₂ hmax₁ hmax₂
    have hset : ({inputType.minValue} ∪ {x | x ∈ l ++ l'} : Set ℚ)
        = ({inputType.minValue} ∪ {x | x ∈ l}) ∪ ({inputType.minValue} ∪ {x | x ∈ l'}) := by
      ext x
      simp only [Set.mem_union, Set.mem_ofPred_eq, mem_append]
      tauto
    rw [hset]
    simp only [maxAggregate, ite_lt_eq_max]
    exact hmax₁.union hmax₂

lemma NumericType.IsInteger.minValue_le {inputType : NumericType} (h : inputType.IsInteger) {x : ℚ}
    (hx : x ∈ inputType.values) : inputType.minValue ≤ x := by
  cases inputType with
  | integer type =>
    rcases hx with ⟨v, rfl⟩
    exact Int.cast_le.2 (min_le_valueOf type v)
  | float format => cases h

/-- MAX returns the largest value iff the type is an integer type or some value is at least
`std::numeric_limits::min()`. -/
theorem max_isGreatest_iff (inputType : NumericType) (parts : Parts ℚ) (hne : parts.values ≠ [])
    (hvalues : ∀ x ∈ parts.values, x ∈ inputType.values) :
    IsGreatest {x | x ∈ parts.values} ((maxAggregate inputType).eval parts) ↔
      inputType.IsInteger ∨ ∃ x ∈ parts.values, inputType.minValue ≤ x := by
  have hgreatest := isGreatest_eval_maxAggregate inputType parts
  constructor
  · intro h
    exact .inr ⟨_, h.1, hgreatest.2 (.inl rfl)⟩
  · intro h
    have hsome : ∃ x ∈ parts.values, inputType.minValue ≤ x := by
      rcases h with hinteger | hsome
      · rcases exists_mem_of_ne_nil _ hne with ⟨x, hx⟩
        exact ⟨x, hx, hinteger.minValue_le (hvalues x hx)⟩
      · exact hsome
    refine ⟨?_, fun x hx => hgreatest.2 (.inr hx)⟩
    rcases hgreatest.1 with hstart | hmem
    · -- the state never left the start value, so the value that is not below it is equal to it
      rcases hsome with ⟨x, hx, hle⟩
      have hstate : (maxAggregate inputType).eval parts = x :=
        le_antisymm (by rw [hstart]; exact hle) (hgreatest.2 (.inr hx))
      rw [hstate]
      exact hx
    · exact hmem

lemma float32_neg_one_mem : (-1 : ℚ) ∈ (NumericType.float float32).values :=
  ⟨-1, 0, by norm_num [float32], by norm_num [float32], by norm_num [float32], by norm_num⟩

/-- Two partial states, one of the values 5 and -3 and one of the value 7. -/
theorem max_isGreatest_iff_combined : IsGreatest {x | x ∈ [(5 : ℚ), -3, 7]}
      ((maxAggregate (.integer ⟨true, 1⟩)).eval (.combine (.lift (.lift .reset 5) (-3)) (.lift .reset 7))) := by
  refine (max_isGreatest_iff (.integer ⟨true, 1⟩) (.combine (.lift (.lift .reset 5) (-3)) (.lift .reset 7))
    (by simp [values]) fun x hx => ?_).2 (.inl trivial)
  have hx' : x = 5 ∨ x = -3 ∨ x = 7 := by simpa [values] using hx
  rcases hx' with rfl | rfl | rfl
  · exact ⟨5#8, rfl⟩
  · exact ⟨253#8, rfl⟩
  · exact ⟨7#8, rfl⟩

/-- The maximum of the single value -1 is the smallest positive normal number. -/
theorem max_of_negative_float : (∀ x ∈ (lift .reset (-1 : ℚ)).values, x ∈ (NumericType.float float32).values) ∧
      (maxAggregate (.float float32)).eval (.lift .reset (-1)) = 2 ^ (-126 : ℤ) ∧
      ¬ IsGreatest {x | x ∈ (lift .reset (-1 : ℚ)).values}
        ((maxAggregate (.float float32)).eval (.lift .reset (-1))) := by
  have hstate : (maxAggregate (.float float32)).eval (.lift .reset (-1)) = 2 ^ (-126 : ℤ) := by
    simp only [eval, maxAggregate, NumericType.minValue, float32]
    norm_num
  refine ⟨?_, hstate, ?_⟩
  · intro x hx
    rw [mem_singleton.1 hx]
    exact float32_neg_one_mem
  · rw [hstate]
    intro h
    have hmem := mem_singleton.1 h.1
    norm_num at hmem

/-! ## VAR -/

structure VarState (type : IntegerType) where
  min : Integer type
  max : Integer type
  count : Integer countType

def varAggregate (inputType : IntegerType) : Aggregate (Integer inputType) (VarState inputType) where
  reset := ⟨createNautilusMaxValue inputType, Nautilus.createNautilusMinValue inputType, 0⟩
  lift s value := ⟨smaller inputType value s.min, larger inputType value s.max, s.count + 1⟩
  combine s t := ⟨smaller inputType t.min s.min, larger inputType t.max s.max, s.count + t.count⟩

/-- The difference of the largest and the smallest value, both cast to the result type. -/
def VarState.lower {type : IntegerType} (s : VarState type) : ℚ := valueOf type s.max - valueOf type s.min

variable (l : List ℚ)

def mean : ℚ := l.sum / l.length

def squaredDeviations : ℚ := (l.map fun x => (x - mean l) ^ 2).sum

def populationVariance : ℚ := squaredDeviations l / l.length

def sampleVariance : ℚ := squaredDeviations l / (l.length - 1 : ℚ)

variable {inputType : IntegerType}

def integers (l : List (Integer inputType)) : List ℚ := l.map fun v => (valueOf inputType v : ℚ)

/-- The values lie between the bounds of the state, and each bound is a value unless it is still the start value. -/
structure VarState.Bounds (l : List (Integer inputType)) (s : VarState inputType) : Prop where
  min_le : ∀ v ∈ l, valueOf inputType s.min ≤ valueOf inputType v
  le_max : ∀ v ∈ l, valueOf inputType v ≤ valueOf inputType s.max
  min_mem : s.min = createNautilusMaxValue inputType ∨ s.min ∈ l
  max_mem : s.max = Nautilus.createNautilusMinValue inputType ∨ s.max ∈ l

namespace VarState.Bounds

variable {l l' : List (Integer inputType)} {s s' : VarState inputType}

lemma combine (h : s.Bounds l) (h' : s'.Bounds l') : ((varAggregate inputType).combine s s').Bounds (l ++ l') where
  min_le v hv := by
    refine (valueOf_smaller inputType s'.min s.min).le.trans ?_
    rcases mem_append.1 hv with hv | hv
    · exact (min_le_right _ _).trans (h.min_le v hv)
    · exact (min_le_left _ _).trans (h'.min_le v hv)
  le_max v hv := by
    refine le_trans ?_ (valueOf_larger inputType s'.max s.max).ge
    rcases mem_append.1 hv with hv | hv
    · exact (h.le_max v hv).trans (le_max_right _ _)
    · exact (h'.le_max v hv).trans (le_max_left _ _)
  min_mem := by
    simp only [varAggregate, smaller, mem_append]
    split_ifs
    · exact h'.min_mem.imp_right .inr
    · exact h.min_mem.imp_right .inl
  max_mem := by
    simp only [varAggregate, larger, mem_append]
    split_ifs
    · exact h'.max_mem.imp_right .inr
    · exact h.max_mem.imp_right .inl

lemma eval (parts : Parts (Integer inputType)) : ((varAggregate inputType).eval parts).Bounds parts.values := by
  refine eval_invariant (P := fun l s => VarState.Bounds l s) ?_ ?_ ?_ parts
  · exact ⟨by simp, by simp, .inl rfl, .inl rfl⟩
  · intro l s value h
    -- adding a value is merging with the state whose bounds are both the value
    have hvalue : (⟨value, value, 1⟩ : VarState inputType).Bounds [value] :=
      ⟨by simp, by simp, .inr (by simp), .inr (by simp)⟩
    exact (h.combine hvalue :)
  · intro l s l' s' h h'
    exact h.combine h'

lemma mem (h : s.Bounds l) (hne : l ≠ []) : s.min ∈ l ∧ s.max ∈ l := by
  rcases exists_mem_of_ne_nil l hne with ⟨v, hv⟩
  constructor
  · rcases h.min_mem with hstart | hmem
    · have heq := le_antisymm (h.min_le v hv) (hstart ▸ valueOf_le_max inputType v)
      rw [valueOf_injective inputType heq]
      exact hv
    · exact hmem
  · rcases h.max_mem with hstart | hmem
    · have heq := le_antisymm (h.le_max v hv) (hstart ▸ min_le_valueOf inputType v)
      rw [← valueOf_injective inputType heq]
      exact hv
    · exact hmem

end VarState.Bounds

lemma squaredDeviations_replicate (n : Nat) (c : ℚ) (hn : n ≠ 0) : squaredDeviations (replicate n c) = 0 := by
  have hmean : mean (replicate n c) = c := by
    rw [mean, sum_replicate, length_replicate, nsmul_eq_mul]
    exact mul_div_cancel_left₀ c (Nat.cast_ne_zero.2 hn)
  rw [squaredDeviations, hmean, map_replicate, sub_self]
  simp

end MobilityNebula.Aggregation
