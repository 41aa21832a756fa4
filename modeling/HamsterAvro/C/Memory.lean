import HamsterAvro.Wire.Reader
import Mathlib.Data.List.GetD
import Mathlib.Data.List.TakeWhile
import Mathlib.Tactic.NormNum

/-!
# Bytes in memory

Addresses are numbers and `0` is the null pointer. A memory holds a byte at each address; a 4-byte
`int`, an 8-byte `size_t` and an 8-byte pointer are stored least significant byte first. A
`CString` is what a non-null `char *` points to, up to its terminator; a `Block` is a pointer
together with the bytes it leads to.
-/

namespace HamsterAvro.C
open HamsterAvro.Wire

abbrev Addr := Nat

/-- The largest value of an `int`. -/
abbrev intMax : Nat := 2 ^ 31 - 1

/-! ### Strings -/

/-- The characters of a C string: no byte of it is the terminator. -/
structure CString where
  bytes : Bytes
  nulFree : 0 ∉ bytes
  deriving DecidableEq

theorem CString.bytes_injective : Function.Injective CString.bytes := by
  rintro ⟨a, _⟩ ⟨b, _⟩ rfl
  rfl

/-- A pointer and the bytes it leads to. -/
structure Block where
  addr : Addr
  bytes : Bytes
  deriving DecidableEq

/-- The C string a pointer to these bytes denotes: everything before the first zero byte. -/
def Block.cString (b : Block) : CString where
  bytes := b.bytes.takeWhile (· ≠ 0)
  nulFree h := by simpa using List.mem_takeWhile_imp h

/-- The characters of a byte string up to its first zero byte. -/
def CString.ofBytes (bs : Bytes) : CString where
  bytes := bs.takeWhile (· ≠ 0)
  nulFree h := by simpa using List.mem_takeWhile_imp h

theorem CString.bytes_ofBytes {bs : Bytes} (h : 0 ∉ bs) : (CString.ofBytes bs).bytes = bs :=
  List.takeWhile_eq_self_iff.mpr fun x hx => by simpa using ne_of_mem_of_not_mem hx h

theorem CString.bytes_ofBytes_eq_iff {bs : Bytes} : (CString.ofBytes bs).bytes = bs ↔ 0 ∉ bs := by
  constructor
  · intro h
    rw [← h]
    exact (CString.ofBytes bs).nulFree
  · exact bytes_ofBytes

theorem CString.length_ofBytes_le (bs : Bytes) : (CString.ofBytes bs).bytes.length ≤ bs.length :=
  (List.takeWhile_prefix _).length_le

/-- Characters are lost from a byte string with a zero byte in it. -/
theorem CString.length_ofBytes_lt {bs : Bytes} (h : 0 ∈ bs) :
    (CString.ofBytes bs).bytes.length < bs.length := by
  refine lt_of_le_of_ne (length_ofBytes_le bs) fun hlength => ?_
  have hall : (CString.ofBytes bs).bytes = bs := (List.takeWhile_prefix _).eq_of_length hlength
  exact (CString.ofBytes bs).nulFree (hall.symm ▸ h)

/-- Of bytes with a terminator after them, the C string is what comes before the first zero byte. -/
theorem Block.cString_append {b : Block} {data : Bytes} (h : b.bytes = data ++ [0]) :
    b.cString = .ofBytes data := by
  apply CString.bytes_injective
  simp only [Block.cString, CString.ofBytes, h, List.takeWhile_append]
  by_cases hall : (data.takeWhile (· ≠ 0)).length = data.length
  · rw [if_pos hall, (List.takeWhile_prefix _).eq_of_length hall]
    simp
  · rw [if_neg hall]

theorem Block.cString_eq {b : Block} {s : CString} (h : b.bytes = s.bytes ++ [0]) : b.cString = s := by
  rw [cString_append h]
  exact CString.bytes_injective (CString.bytes_ofBytes s.nulFree)

/-- A string of `n` equal characters. -/
def CString.fill (n : Nat) (b : UInt8) (hb : b ≠ 0) : CString where
  bytes := List.replicate n b
  nulFree h := hb (List.eq_of_mem_replicate h).symm

@[simp] theorem CString.length_fill (n : Nat) (b : UInt8) (hb : b ≠ 0) :
    (CString.fill n b hb).bytes.length = n :=
  List.length_replicate

/-! ### Little-endian numbers -/

def leBytes : Nat → Nat → Bytes
  | 0, _ => []
  | k + 1, n => UInt8.ofNat n :: leBytes k (n / 256)

def leNat : Bytes → Nat
  | [] => 0
  | b :: bs => b.toNat + 256 * leNat bs

@[simp] theorem length_leBytes (k n : Nat) : (leBytes k n).length = k := by
  induction k generalizing n with
  | zero => rfl
  | succ k ih => rw [leBytes, List.length_cons, ih]

theorem leNat_leBytes (k n : Nat) : leNat (leBytes k n) = n % 256 ^ k := by
  induction k generalizing n with
  | zero => rw [leBytes, leNat, pow_zero, Nat.mod_one]
  | succ k ih =>
    unfold leBytes leNat
    rw [ih, UInt8.toNat_ofNat', pow_succ' 256 k, Nat.mod_mul]

theorem take_leBytes {j k : Nat} (h : j ≤ k) (n : Nat) : (leBytes k n).take j = leBytes j n := by
  induction j generalizing k n with
  | zero => rw [List.take_zero, leBytes]
  | succ j ih =>
    obtain ⟨k, rfl⟩ : ∃ i, k = i + 1 := ⟨k - 1, by omega⟩
    rw [leBytes, List.take_succ_cons, ih (by omega), leBytes]

/-- The bytes past the significant ones are zero. -/
theorem getD_leBytes_eq_zero {i j k n : Nat} (hn : n < 256 ^ j) (hi : j ≤ i) :
    (leBytes k n).getD i 0 = 0 := by
  induction k generalizing i j n with
  | zero => rfl
  | succ k ih =>
    cases i with
    | zero =>
      obtain rfl : j = 0 := by omega
      obtain rfl : n = 0 := by simpa using hn
      rfl
    | succ i =>
      unfold leBytes
      rw [List.getD_cons_succ]
      cases j with
      | zero =>
        obtain rfl : n = 0 := by simpa using hn
        exact ih (j := 0) (by norm_num) (Nat.zero_le _)
      | succ j =>
        refine ih (j := j) ?_ (by omega)
        rw [Nat.div_lt_iff_lt_mul (by decide), ← pow_succ]
        exact hn

/-! ### Loads and stores -/

abbrev Memory := Nat → UInt8

namespace Memory
variable (m : Memory)

def store (a : Nat) (bs : Bytes) : Memory := fun x =>
  if a ≤ x ∧ x < a + bs.length then bs.getD (x - a) 0 else m x

def load (a : Nat) (k : Nat) : Bytes := (List.range k).map fun i => m (a + i)

theorem store_outside {a x : Nat} {bs : Bytes} (h : ¬ (a ≤ x ∧ x < a + bs.length)) :
    m.store a bs x = m x :=
  if_neg h

theorem store_inside {a x : Nat} {bs : Bytes} (h : a ≤ x ∧ x < a + bs.length) :
    m.store a bs x = bs.getD (x - a) 0 :=
  if_pos h

theorem load_store {a k : Nat} {bs : Bytes} (h : k ≤ bs.length) :
    (m.store a bs).load a k = bs.take k := by
  apply List.ext_getElem
  · simp [load, h]
  · intro i hi _
    have hi : i < k := by simpa [load] using hi
    simp only [load, List.getElem_map, List.getElem_range, List.getElem_take]
    rw [store_inside m (show a ≤ a + i ∧ a + i < a + bs.length by omega), Nat.add_sub_cancel_left]
    exact List.getD_eq_getElem _ _ (by omega)

theorem load_store_disjoint {a b k : Nat} {bs : Bytes} (h : a + k ≤ b ∨ b + bs.length ≤ a) :
    (m.store b bs).load a k = m.load a k := by
  refine List.map_congr_left fun i hi => m.store_outside ?_
  rw [List.mem_range] at hi
  omega

/-- Stores of an 8-byte `size_t` and of an 8-byte pointer. -/
def storeSize (a n : Nat) : Memory := m.store a (leBytes 8 n)

def storePointer (a p : Nat) : Memory := m.store a (leBytes 8 p)

/-- The 4-byte `int` at an address. -/
def loadInt (a : Nat) : Int32 := Int32.ofNat (leNat (m.load a 4))

def loadPointer (a : Nat) : Nat := leNat (m.load a 8)

/-- An `int` read where a `size_t` was stored is its low half. -/
theorem loadInt_storeSize (a n : Nat) : (m.storeSize a n).loadInt a = Int32.ofNat n := by
  unfold loadInt storeSize
  rw [load_store _ (by simp), take_leBytes (by decide), leNat_leBytes]
  apply Int32.toBitVec.inj
  simp only [Int32.toBitVec_ofNat']
  exact BitVec.eq_of_toNat_eq (by simp)

theorem loadInt_storePointer {a b : Nat} (p : Nat) (h : a + 4 ≤ b ∨ b + 8 ≤ a) :
    (m.storePointer b p).loadInt a = m.loadInt a := by
  rw [loadInt, storePointer, load_store_disjoint _ (by simpa using h), loadInt]

theorem loadPointer_storePointer (a : Nat) {p : Nat} (hp : p < 2 ^ 64) :
    (m.storePointer a p).loadPointer a = p := by
  unfold loadPointer storePointer
  rw [load_store _ (by simp), take_leBytes (le_refl 8), leNat_leBytes]
  exact Nat.mod_eq_of_lt hp

/-- Of a small `size_t`, the four bytes past the `int` are zero. -/
theorem storeSize_high {a n x : Nat} (hn : n < 2 ^ 32) (hlow : a + 4 ≤ x) (hhigh : x < a + 8) :
    m.storeSize a n x = 0 := by
  unfold storeSize
  rw [store_inside m (by rw [length_leBytes]; omega)]
  exact getD_leBytes_eq_zero (j := 4) (by norm_num; exact hn) (by omega)

theorem storeSize_outside {a n x : Nat} (h : ¬ (a ≤ x ∧ x < a + 8)) : m.storeSize a n x = m x :=
  m.store_outside (by rwa [length_leBytes])

theorem storePointer_outside {a p x : Nat} (h : ¬ (a ≤ x ∧ x < a + 8)) : m.storePointer a p x = m x :=
  m.store_outside (by rwa [length_leBytes])

end Memory

/-! ### Narrowing -/

/-- A `size_t` that fits an `int` narrows to it without change of value. -/
theorem toInt_ofNat {n : Nat} (h : n ≤ intMax) : (Int32.ofNat n).toInt = n := by
  rw [← Int32.ofInt_eq_ofNat]
  exact Int32.toInt_ofInt_of_le (by omega) (by simp only [intMax] at h; omega)

theorem ofNat_eq_zero {n : Nat} (h : n ≤ intMax) : Int32.ofNat n = 0 ↔ n = 0 := by
  rw [← Int32.toInt_inj, toInt_ofNat h]
  exact Int.natCast_eq_zero

end HamsterAvro.C
