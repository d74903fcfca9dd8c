import MobilityNebula.InputFormatters.CSVInputFormatter

/-!
# VarVal — integers in memory

A memory area is read and written in bytes, the lowest first.  A value that was written is read back
(`readVarValFromMemory_writeToMemory`), and reading elsewhere does not see the write
(`readVarValFromMemory_of_unchanged`).  Arithmetic keeps the type of its operands: it wraps around at the width of the
type.
-/

namespace MobilityNebula.Nautilus

open InputFormatters BitVec

/-! ## Bytes -/

abbrev MemArea := Nat → UInt8

def readBytes (mem : MemArea) : Nat → Nat → Nat
  | _, 0 => 0
  | address, size + 1 => (mem address).toNat + 256 * readBytes mem (address + 1) size

variable (mem : MemArea)

def writeBytes (address size value : Nat) : MemArea := fun i =>
  if address ≤ i ∧ i < address + size then UInt8.ofNat (value / 256 ^ (i - address)) else mem i

def memset (address : Nat) (byte : UInt8) (size : Nat) : MemArea := fun i =>
  if address ≤ i ∧ i < address + size then byte else mem i

/-- Nothing outside the `size` bytes from the address on changes. -/
def UnchangedOutside (address size : Nat) (mem mem' : MemArea) : Prop :=
  ∀ i, i < address ∨ address + size ≤ i → mem' i = mem i

lemma unchangedOutside_writeBytes (address size value : Nat) :
    UnchangedOutside address size mem (writeBytes mem address size value) := by
  intro i hi
  exact if_neg fun h => by omega

lemma unchangedOutside_memset (address : Nat) (byte : UInt8) (size : Nat) :
    UnchangedOutside address size mem (memset mem address byte size) := by
  intro i hi
  exact if_neg fun h => by omega

lemma UnchangedOutside.refl (address size : Nat) (mem : MemArea) : UnchangedOutside address size mem mem :=
  fun _ _ => rfl

variable {mem} {address size : Nat} {mem' : MemArea}

lemma UnchangedOutside.trans {address' size' address'' size'' : Nat} {mem'' : MemArea}
    (h : UnchangedOutside address size mem mem') (h' : UnchangedOutside address' size' mem' mem'')
    (hlo : address'' ≤ address) (hhi : address + size ≤ address'' + size'') (hlo' : address'' ≤ address')
    (hhi' : address' + size' ≤ address'' + size'') : UnchangedOutside address'' size'' mem mem'' := by
  intro i hi
  calc mem'' i = mem' i := h' i (by omega)
    _ = mem i := h i (by omega)

lemma readBytes_congr (h : ∀ i, address ≤ i → i < address + size → mem' i = mem i) :
    readBytes mem' address size = readBytes mem address size := by
  induction size generalizing address with
  | zero => rfl
  | succ size ih =>
    rw [readBytes, readBytes, h address (le_refl _) (by omega), ih fun i hlo hhi => h i (by omega) (by omega)]

lemma readBytes_of_bytes {value : Nat} (h : ∀ i < size, mem (address + i) = UInt8.ofNat (value / 256 ^ i)) :
    readBytes mem address size = value % 256 ^ size := by
  induction size generalizing address value with
  | zero => simp [readBytes, Nat.mod_one]
  | succ size ih =>
    have hfirst : (mem address).toNat = value % 256 := by
      have hbyte := h 0 (Nat.succ_pos size)
      rw [Nat.add_zero, Nat.pow_zero, Nat.div_one] at hbyte
      rw [hbyte]
      simp
    have hrest : readBytes mem (address + 1) size = value / 256 % 256 ^ size := by
      refine ih fun i hi => ?_
      rw [Nat.add_assoc, Nat.add_comm 1 i, h (i + 1) (Nat.succ_lt_succ hi), Nat.pow_succ, Nat.div_div_eq_div_mul,
        Nat.mul_comm 256]
    calc readBytes mem address (size + 1)
        = value % 256 + 256 * (value / 256 % 256 ^ size) := by rw [readBytes, hfirst, hrest]
      _ = value % (256 * 256 ^ size) := Nat.mod_mul.symm
      _ = value % 256 ^ (size + 1) := by rw [Nat.pow_succ, Nat.mul_comm]

lemma readBytes_writeBytes (mem : MemArea) (address size value : Nat) :
    readBytes (writeBytes mem address size value) address size = value % 256 ^ size := by
  refine readBytes_of_bytes fun i hi => ?_
  rw [writeBytes, if_pos ⟨Nat.le_add_right _ _, by omega⟩, Nat.add_sub_cancel_left]

lemma readBytes_memset_zero (mem : MemArea) (address size address' size' : Nat)
    (hlo : address ≤ address') (hhi : address' + size' ≤ address + size) :
    readBytes (memset mem address 0 size) address' size' = 0 := by
  have hbytes : ∀ i < size', memset mem address 0 size (address' + i) = .ofNat (0 / 256 ^ i) := by
    intro i hi
    rw [memset, if_pos ⟨by omega, by omega⟩, Nat.zero_div]
    rfl
  rw [readBytes_of_bytes hbytes, Nat.zero_mod]

/-! ## Integers -/

/-- The integers of a type, with the arithmetic of the machine. -/
abbrev Integer (type : IntegerType) := BitVec (8 * type.sizeInBytes)

def readVarValFromMemory (mem : MemArea) (address : Nat) (type : IntegerType) : Integer type :=
  BitVec.ofNat _ (readBytes mem address type.sizeInBytes)

def writeToMemory (type : IntegerType) (value : Integer type) (mem : MemArea) (address : Nat) : MemArea :=
  writeBytes mem address type.sizeInBytes value.toNat

variable {type : IntegerType}

@[simp] lemma readVarValFromMemory_writeToMemory (value : Integer type) (mem : MemArea)
    (address : Nat) : readVarValFromMemory (writeToMemory type value mem address) address type = value := by
  have hpow : 256 ^ type.sizeInBytes = 2 ^ (8 * type.sizeInBytes) := by rw [Nat.pow_mul]
  have hlt : value.toNat < 256 ^ type.sizeInBytes := hpow ▸ value.isLt
  rw [readVarValFromMemory, writeToMemory, readBytes_writeBytes, Nat.mod_eq_of_lt hlt, BitVec.ofNat_toNat, setWidth_eq]

lemma unchangedOutside_writeToMemory (value : Integer type) (mem : MemArea) (address : Nat) :
    UnchangedOutside address type.sizeInBytes mem (writeToMemory type value mem address) :=
  unchangedOutside_writeBytes mem address _ _

lemma readVarValFromMemory_congr (h : ∀ i, address ≤ i → i < address + type.sizeInBytes → mem' i = mem i) :
    readVarValFromMemory mem' address type = readVarValFromMemory mem address type := by
  rw [readVarValFromMemory, readVarValFromMemory, readBytes_congr h]

lemma readVarValFromMemory_of_unchanged {address' : Nat} (h : UnchangedOutside address size mem mem')
    (hdisjoint : address' + type.sizeInBytes ≤ address ∨ address + size ≤ address') :
    readVarValFromMemory mem' address' type = readVarValFromMemory mem address' type :=
  readVarValFromMemory_congr fun i hlo hhi => h i (by omega)

lemma readVarValFromMemory_memset (mem : MemArea) {address' : Nat}
    (hlo : address ≤ address') (hhi : address' + type.sizeInBytes ≤ address + size) :
    readVarValFromMemory (memset mem address 0 size) address' type = 0 := by
  rw [readVarValFromMemory, readBytes_memset_zero mem address size address' _ hlo hhi]
  rfl

/-! ## Comparing -/

variable (type)

def valueOf (v : Integer type) : Int := if type.isSigned then v.toInt else (v.toNat : Int)

def lessThan (v w : Integer type) : Bool := if type.isSigned then v.slt w else v.ult w

def createNautilusMaxValue : Integer type :=
  if type.isSigned then intMax _ else allOnes _

def createNautilusMinValue : Integer type :=
  if type.isSigned then intMin _ else 0#_

variable {type} in
lemma lessThan_iff {v w : Integer type} : lessThan type v w = true ↔ valueOf type v < valueOf type w := by
  unfold lessThan valueOf
  split_ifs with hsigned
  · exact slt_iff_toInt_lt
  · rw [ult_iff_lt, lt_def]
    exact Int.ofNat_lt.symm

lemma valueOf_injective : Function.Injective (valueOf type) := by
  intro v w heq
  unfold valueOf at heq
  split_ifs at heq with hsigned
  · exact eq_of_toInt_eq heq
  · exact eq_of_toNat_eq (Int.ofNat.inj heq)

lemma valueOf_le_max (v : Integer type) : valueOf type v ≤ valueOf type (createNautilusMaxValue type) := by
  unfold valueOf createNautilusMaxValue
  split_ifs with hsigned
  · rw [toInt_intMax]
    have hle := @BitVec.toInt_le _ v
    omega
  · rw [toNat_allOnes]
    omega

lemma min_le_valueOf (v : Integer type) : valueOf type (createNautilusMinValue type) ≤ valueOf type v := by
  unfold valueOf createNautilusMinValue
  split_ifs with hsigned
  · exact toInt_intMin_le v
  · simp

end MobilityNebula.Nautilus
