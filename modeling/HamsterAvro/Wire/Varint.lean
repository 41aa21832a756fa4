import HamsterAvro.Wire.Reader
import Mathlib.Tactic.NormNum

/-!
# Base-128 varints and zigzag longs

A varint is a number in groups of seven bits, least significant group first, with the high bit set on
every byte but the last. A long is the varint of its zigzag image. `Varint` and `LongWord` are the
formats (`Varint` admits padding with zero groups, `LongWord` at most ten bytes and 64 bits),
`readLong` reads the second (`readLong_reads`), and `writeLong` writes the shortest word of each
64-bit number (`longWord_writeLong`, `LongWord.longSize_le`).
-/

namespace HamsterAvro.Wire

/-! ### Varints -/

/-- `word` is a base-128 little-endian numeral of the number. -/
inductive Varint : Nat → Bytes → Prop
  | last {b : UInt8} : b.toNat < 128 → Varint b.toNat [b]
  | more {b : UInt8} {n : Nat} {word : Bytes} :
      128 ≤ b.toNat → Varint n word → Varint (b.toNat - 128 + 128 * n) (b :: word)

theorem Varint.length_pos {n : Nat} {word : Bytes} (h : Varint n word) : 0 < word.length := by
  cases h <;> simp

def varint (n : Nat) : Bytes :=
  if n < 128 then [UInt8.ofNat n] else UInt8.ofNat (n % 128 + 128) :: varint (n / 128)

theorem varint_of_lt {n : Nat} (h : n < 128) : varint n = [UInt8.ofNat n] := by
  unfold varint
  rw [if_pos h]

theorem varint_of_le {n : Nat} (h : 128 ≤ n) :
    varint n = UInt8.ofNat (n % 128 + 128) :: varint (n / 128) := by
  rw [varint, if_neg (by omega)]

theorem varint_varint (n : Nat) : Varint n (varint n) := by
  induction n using Nat.strongRecOn with
  | ind n ih =>
    by_cases h : n < 128
    · rw [varint_of_lt h]
      have hb : (UInt8.ofNat n).toNat = n := by rw [UInt8.toNat_ofNat']; omega
      have := Varint.last (b := UInt8.ofNat n) (by omega)
      rwa [hb] at this
    · rw [varint_of_le (by omega)]
      have hb : (UInt8.ofNat (n % 128 + 128)).toNat = n % 128 + 128 := by
        rw [UInt8.toNat_ofNat']; omega
      have := Varint.more (b := UInt8.ofNat (n % 128 + 128)) (by omega) (ih (n / 128) (by omega))
      rwa [hb, show n % 128 + 128 - 128 + 128 * (n / 128) = n by omega] at this

theorem varint_length_le (k : Nat) : ∀ n < 128 ^ (k + 1), (varint n).length ≤ k + 1 := by
  induction k with
  | zero => intro n h; rw [varint_of_lt (by simpa using h)]; simp
  | succ k ih =>
    intro n h
    by_cases hn : n < 128
    · rw [varint_of_lt hn]; simp
    · rw [varint_of_le (by omega), List.length_cons]
      have hdiv : n / 128 < 128 ^ (k + 1) := by
        rw [Nat.div_lt_iff_lt_mul (by decide), ← pow_succ]
        exact h
      have := ih (n / 128) hdiv
      omega

theorem lt_varint_length (k : Nat) : ∀ n, 128 ^ k ≤ n → k < (varint n).length := by
  induction k with
  | zero => exact fun n _ => (varint_varint n).length_pos
  | succ k ih =>
    intro n h
    have hbig : 128 ≤ n := le_trans (by rw [pow_succ]; exact Nat.le_mul_of_pos_left _ (by positivity)) h
    rw [varint_of_le hbig, List.length_cons]
    have hdiv : 128 ^ k ≤ n / 128 := by
      rw [Nat.le_div_iff_mul_le (by decide), ← pow_succ]
      exact h
    have := ih (n / 128) hdiv
    omega

theorem varint_length_mono {m n : Nat} (h : m ≤ n) : (varint m).length ≤ (varint n).length := by
  induction n using Nat.strongRecOn generalizing m with
  | ind n ih =>
    by_cases hm : m < 128
    · rw [varint_of_lt hm]
      exact (varint_varint n).length_pos
    · rw [varint_of_le (n := m) (by omega), varint_of_le (n := n) (by omega), List.length_cons,
        List.length_cons]
      exact Nat.succ_le_succ (ih (n / 128) (by omega) (Nat.div_le_div_right h))

/-- At most `limit` groups of a varint. -/
def readVarint : (limit : Nat) → Reader Nat
  | 0 => failure
  | limit + 1 => do
    let b ← readByte
    if b.toNat < 128 then pure b.toNat
    else do
      let n ← readVarint limit
      pure (b.toNat - 128 + 128 * n)

theorem readVarint_reads (limit : Nat) :
    Reads (readVarint limit) fun n word => Varint n word ∧ word.length ≤ limit := by
  induction limit with
  | zero =>
    refine Reads.failure.congr fun n word => ⟨False.elim, fun ⟨h, hlen⟩ => ?_⟩
    have := h.length_pos
    omega
  | succ limit ih =>
    refine (readByte_reads.bind fun b => Reads.ite (Reads.pure b.toNat) ih.map).congr fun n word => ?_
    constructor
    · intro h
      obtain ⟨b, u, v, rfl, rfl, h⟩ := h
      by_cases hb : b.toNat < 128
      · rw [if_pos hb] at h
        obtain ⟨rfl, rfl⟩ := h
        exact ⟨.last hb, by simp⟩
      · rw [if_neg hb] at h
        obtain ⟨m, rfl, hm, hlen⟩ := h
        exact ⟨.more (by omega) hm, by simpa using hlen⟩
    · intro h
      obtain ⟨h, hlen⟩ := h
      cases h with
      | @last b hb => exact ⟨b, [b], [], rfl, rfl, by rw [if_pos hb]; exact ⟨rfl, rfl⟩⟩
      | @more b m word hb hm =>
        refine ⟨b, [b], word, rfl, rfl, ?_⟩
        rw [if_neg (by omega)]
        exact ⟨m, rfl, hm, by simpa using hlen⟩

/-! ### Zigzag -/

/-- `0, -1, 1, -2, …` as `0, 1, 2, 3, …` -/
def zigzag : Int → Nat
  | .ofNat n => 2 * n
  | .negSucc n => 2 * n + 1

def unzigzag (u : Nat) : Int :=
  if u % 2 = 0 then .ofNat (u / 2) else .negSucc (u / 2)

@[simp] theorem unzigzag_zigzag (n : Int) : unzigzag (zigzag n) = n := by
  cases n with
  | ofNat n =>
    rw [zigzag, unzigzag, if_pos (by omega)]
    congr 1
    omega
  | negSucc n =>
    rw [zigzag, unzigzag, if_neg (by omega)]
    congr 1
    omega

theorem zigzag_natCast (n : Nat) : zigzag n = 2 * n := rfl

theorem zigzag_lt {n : Int} (hlow : -2 ^ 63 ≤ n) (hhigh : n < 2 ^ 63) : zigzag n < 2 ^ 64 := by
  cases n with
  | ofNat n =>
    rw [zigzag]
    have : (n : Int) < 2 ^ 63 := hhigh
    omega
  | negSucc n =>
    rw [zigzag]
    rw [Int.negSucc_eq] at hlow
    omega

/-! ### Longs -/

/-- `word` is a varint of at most ten bytes whose low 64 bits are the zigzag image of the number. -/
def LongWord (n : Int) (word : Bytes) : Prop :=
  ∃ u, Varint u word ∧ word.length ≤ 10 ∧ unzigzag (u % 2 ^ 64) = n

def writeLong (n : Int) : Bytes := varint (zigzag n)

def readLong : Reader Int := do
  let u ← readVarint 10
  pure (unzigzag (u % 2 ^ 64))

theorem readLong_reads : Reads readLong LongWord := by
  refine (readVarint_reads 10).map.congr fun n word => ?_
  constructor
  · intro h
    obtain ⟨u, rfl, hu, hlen⟩ := h
    exact ⟨u, hu, hlen, rfl⟩
  · intro h
    obtain ⟨u, hu, hlen, rfl⟩ := h
    exact ⟨u, rfl, hu, hlen⟩

theorem LongWord.length_pos {n : Int} {word : Bytes} (h : LongWord n word) : 0 < word.length := by
  obtain ⟨u, hu, -⟩ := h
  exact hu.length_pos

theorem LongWord.length_le {n : Int} {word : Bytes} (h : LongWord n word) : word.length ≤ 10 := by
  obtain ⟨u, -, hlen, -⟩ := h
  exact hlen

theorem longWord_writeLong {n : Int} (hlow : -2 ^ 63 ≤ n) (hhigh : n < 2 ^ 63) :
    LongWord n (writeLong n) := by
  have hlt := zigzag_lt hlow hhigh
  refine ⟨zigzag n, varint_varint _, varint_length_le 9 _ (by omega), ?_⟩
  rw [Nat.mod_eq_of_lt hlt, unzigzag_zigzag]

theorem writeLong_zero : writeLong 0 = [0] := by
  unfold writeLong
  rw [varint_of_lt (by decide)]
  rfl

/-- The number of bytes of the shortest word of a long. -/
def longSize (n : Int) : Nat := (writeLong n).length

theorem longSize_pos (n : Int) : 0 < longSize n := (varint_varint _).length_pos

theorem longSize_le {n k : Nat} (h : 2 * n < 128 ^ (k + 1)) : longSize n ≤ k + 1 :=
  varint_length_le k _ (by rwa [zigzag_natCast])

theorem lt_longSize {n k : Nat} (h : 128 ^ k ≤ 2 * n) : k < longSize n :=
  lt_varint_length k _ (by rwa [zigzag_natCast])

theorem longSize_mono {m n : Nat} (h : m ≤ n) : longSize m ≤ longSize n := by
  unfold longSize writeLong
  rw [zigzag_natCast, zigzag_natCast]
  exact varint_length_mono (Nat.mul_le_mul_left 2 h)

example : writeLong (-65) = [0x81, 0x01] ∧ longSize 63 = 1 ∧ longSize 8192 = 3 := by decide +kernel

/-! ### No word is shorter -/

theorem Varint.length_varint_le {n : Nat} {word : Bytes} (h : Varint n word) :
    (varint n).length ≤ word.length := by
  induction h with
  | last hb =>
    rw [varint_of_lt hb]
    exact le_refl 1
  | @more b n word hb _ ih =>
    have hlow := b.toNat_lt
    by_cases hn : b.toNat - 128 + 128 * n < 128
    · rw [varint_of_lt hn, List.length_cons]
      exact Nat.succ_le_succ (Nat.zero_le _)
    · rw [varint_of_le (by omega), List.length_cons, List.length_cons,
        show (b.toNat - 128 + 128 * n) / 128 = n by omega]
      exact Nat.succ_le_succ ih

/-- A factor of at most 128 takes one byte more. -/
theorem varint_length_le_succ {m n : Nat} (h : m ≤ 128 * n) :
    (varint m).length ≤ (varint n).length + 1 := by
  refine (varint_length_mono h).trans ?_
  by_cases hn : n = 0
  · rw [hn, Nat.mul_zero]
    exact Nat.le_succ _
  · rw [varint_of_le (n := 128 * n) (by omega), List.length_cons, Nat.mul_div_cancel_left _ (by decide)]

theorem zigzag_unzigzag (u : Nat) : zigzag (unzigzag u) = u := by
  by_cases hu : u % 2 = 0
  · rw [unzigzag, if_pos hu, zigzag]
    omega
  · rw [unzigzag, if_neg hu, zigzag]
    omega

theorem LongWord.longSize_le {n : Int} {word : Bytes} (h : LongWord n word) : longSize n ≤ word.length := by
  obtain ⟨u, hu, -, rfl⟩ := h
  unfold longSize writeLong
  rw [zigzag_unzigzag]
  exact (varint_length_mono (Nat.mod_le _ _)).trans hu.length_varint_le

/-- One count takes no more bytes than two that add up to it. -/
theorem longSize_add_le {m n : Nat} (hm : 0 < m) (hn : 0 < n) :
    longSize (m + n : Nat) ≤ longSize m + longSize n := by
  have hlarger {i j : Nat} (h : i ≤ j) (hi : 0 < i) :
      longSize (i + j : Nat) ≤ longSize i + longSize j := by
    have hpos := longSize_pos i
    have hsucc : longSize (i + j : Nat) ≤ longSize j + 1 := by
      unfold longSize writeLong
      rw [zigzag_natCast, zigzag_natCast]
      exact varint_length_le_succ (by omega)
    omega
  rcases Nat.le_total m n with h | h
  · exact hlarger h hm
  · rw [Nat.add_comm m n, Nat.add_comm (longSize m)]
    exact hlarger h hn

/-- A negative count may be one byte shorter than the positive one. -/
theorem longSize_le_neg {n : Nat} (hn : 0 < n) : longSize n ≤ longSize (-n) + 1 := by
  obtain ⟨k, rfl⟩ : ∃ k, n = k + 1 := ⟨n - 1, by omega⟩
  have hneg : zigzag (-(k + 1 : Nat)) = 2 * k + 1 := rfl
  unfold longSize writeLong
  rw [zigzag_natCast, hneg]
  exact varint_length_le_succ (by omega)

end HamsterAvro.Wire
