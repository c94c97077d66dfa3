import Mathlib.Data.List.Range
import Mathlib.Tactic.Ring

/-!
# Byte-addressed memory with little-endian words

A memory is a total map from addresses to bytes.  Multi-byte values are read
and written in little-endian order, and a loop of stores is the fold of the
single stores it performs.

The three facts everything else rests on are `readLE_writeLE_same` (a word
reads back as it was written), `readLE_congr` (a word depends on its own bytes
only) and `writeBytes_outside` (a loop of stores leaves every other byte alone).
`writeArray` is a loop that stores to consecutive words, as one map
(`writeWords_eq_writeArray`); each word of it holds its own value
(`read64_writeArray`).
-/

namespace ByteMemory

/-- A memory: every address holds a byte. -/
abbrev Mem := Nat → UInt8

/-- The little-endian value of the `n` bytes from `a` on. -/
def readLE (m : Mem) (a : Nat) : Nat → Nat
  | 0 => 0
  | n+1 => (m a).toNat + 256 * readLE m (a+1) n

/-- Byte `i` of the little-endian encoding of `v`. -/
def leByte (v i : Nat) : UInt8 := UInt8.ofNat (v / 256 ^ i)

/-- Store the low `n` bytes of `v` at `a`. -/
def writeLE (m : Mem) (a n v : Nat) : Mem :=
  fun x => if a ≤ x ∧ x < a + n then leByte v (x - a) else m x

/-- Read one 64-bit word. -/
def read64 (m : Mem) (a : Nat) : Nat := readLE m a 8

/-- Store one 64-bit word. -/
def write64 (m : Mem) (a v : Nat) : Mem := writeLE m a 8 v

/-- Run a loop of 64-bit stores, given as its `(address, value)` pairs. -/
def writeWords (m : Mem) (ws : List (Nat × Nat)) : Mem :=
  ws.foldl (fun m w => write64 m w.1 w.2) m

/-- Fill the `n` words of an array from `base` on, `f i` in word `i`. -/
def writeArray (m : Mem) (base n : Nat) (f : Nat → Nat) : Mem :=
  fun x => if base ≤ x ∧ x < base + 8 * n then leByte (f ((x - base) / 8)) ((x - base) % 8) else m x

/-- Run a loop of byte stores, given as its `(address, byte)` pairs. -/
def writeBytes (m : Mem) (bs : List (Nat × UInt8)) : Mem :=
  bs.foldl (fun m b => Function.update m b.1 b.2) m

/-- Clear the `n` bytes from `a` on. -/
def zeroRange (m : Mem) (a n : Nat) : Mem :=
  fun x => if a ≤ x ∧ x < a + n then 0 else m x

theorem leByte_toNat (v i : Nat) : (leByte v i).toNat = v / 256 ^ i % 256 := by
  simp [leByte]

/-- A value read depends only on the bytes it covers. -/
theorem readLE_congr {m m' : Mem} {a n : Nat}
    (h : ∀ x, a ≤ x → x < a + n → m x = m' x) :
    readLE m a n = readLE m' a n := by
  induction n generalizing a with
  | zero => rfl
  | succ n ih =>
      have hhead : m a = m' a := h a (Nat.le_refl a) (by omega)
      have htail : readLE m (a+1) n = readLE m' (a+1) n :=
        ih (fun x h1 h2 => h x (by omega) (by omega))
      simp only [readLE, hhead, htail]

/-- Bytes that encode `v` read back as `v`, reduced to their width. -/
theorem readLE_of_bytes {m : Mem} {a n v : Nat}
    (h : ∀ i, i < n → m (a + i) = leByte v i) :
    readLE m a n = v % 256 ^ n := by
  induction n generalizing a v with
  | zero => simp [readLE, Nat.mod_one]
  | succ n ih =>
      have hhead : (m a).toNat = v % 256 := by
        have h0 := h 0 (by omega)
        rw [Nat.add_zero] at h0
        rw [h0, leByte_toNat]
        simp
      have htail : readLE m (a+1) n = v / 256 % 256 ^ n := by
        apply ih
        intro i hi
        have hstep := h (i+1) (by omega)
        rw [show a + (i+1) = a + 1 + i by omega] at hstep
        rw [hstep, leByte, leByte, Nat.div_div_eq_div_mul, ← Nat.pow_succ']
      rw [readLE, hhead, htail, Nat.pow_succ', Nat.mod_mul]

theorem readLE_lt (m : Mem) (a n : Nat) : readLE m a n < 256 ^ n := by
  induction n generalizing a with
  | zero => exact Nat.one_pos
  | succ n ih =>
      have hbyte : (m a).toNat < 256 := (m a).toNat_lt
      have htail := ih (a + 1)
      rw [readLE, Nat.pow_succ']
      omega

/-- The byte at the high end of a value. -/
theorem readLE_succ (m : Mem) (a n : Nat) :
    readLE m a (n + 1) = readLE m a n + 256 ^ n * (m (a + n)).toNat := by
  induction n generalizing a with
  | zero => simp [readLE]
  | succ n ih =>
      rw [readLE, ih, readLE, Nat.pow_succ', show a + 1 + n = a + (n + 1) by omega]
      ring

/-- A value that was read is laid out in the bytes it was read from. -/
theorem leByte_readLE (m : Mem) (a : Nat) {n i : Nat} (hi : i < n) :
    leByte (readLE m a n) i = m (a + i) := by
  induction n generalizing a i with
  | zero => exact absurd hi (Nat.not_lt_zero i)
  | succ n ih =>
      have hbyte : (m a).toNat < 256 := (m a).toNat_lt
      cases i with
      | zero =>
          apply UInt8.toNat_inj.mp
          rw [leByte_toNat, readLE, Nat.pow_zero, Nat.div_one, Nat.add_mul_mod_self_left,
            Nat.mod_eq_of_lt hbyte, Nat.add_zero]
      | succ i =>
          rw [show a + (i + 1) = a + 1 + i by omega, ← ih (a + 1) (Nat.lt_of_succ_lt_succ hi)]
          unfold leByte
          rw [readLE, Nat.pow_succ', ← Nat.div_div_eq_div_mul]
          congr 2
          omega

/-- A stored value reads back, reduced to its width. -/
theorem readLE_writeLE_same (m : Mem) (a n v : Nat) :
    readLE (writeLE m a n v) a n = v % 256 ^ n := by
  apply readLE_of_bytes
  intro i hi
  have hin : a ≤ a + i ∧ a + i < a + n := by omega
  simp [writeLE, hin]

/-- A stored value leaves every disjoint value alone. -/
theorem readLE_writeLE_disjoint {m : Mem} {a b n k v : Nat} (h : a + n ≤ b ∨ b + k ≤ a) :
    readLE (writeLE m a n v) b k = readLE m b k := by
  apply readLE_congr
  intro x h1 h2
  have hout : ¬ (a ≤ x ∧ x < a + n) := by omega
  simp [writeLE, hout]

@[simp] theorem read64_write64_same (m : Mem) (a v : Nat) :
    read64 (write64 m a v) a = v % 2 ^ 64 := by
  rw [read64, write64, readLE_writeLE_same]
  norm_num

/-- A store leaves every byte outside its word alone. -/
theorem write64_outside {m : Mem} {a v x : Nat} (h : x < a ∨ a + 8 ≤ x) :
    write64 m a v x = m x := by
  have hout : ¬ (a ≤ x ∧ x < a + 8) := by omega
  simp [write64, writeLE, hout]

/-- A store leaves every disjoint word alone. -/
theorem read64_write64_disjoint {m : Mem} {a b v : Nat}
    (h : a + 8 ≤ b ∨ b + 8 ≤ a) :
    read64 (write64 m a v) b = read64 m b :=
  readLE_writeLE_disjoint h

@[simp] theorem writeWords_nil (m : Mem) : writeWords m [] = m := rfl

theorem writeWords_cons (m : Mem) (w : Nat × Nat) (ws : List (Nat × Nat)) :
    writeWords m (w :: ws) = writeWords (write64 m w.1 w.2) ws := rfl

/-- Filling an array leaves every byte outside it alone. -/
theorem writeArray_outside {m : Mem} {base n x : Nat} {f : Nat → Nat}
    (h : x < base ∨ base + 8 * n ≤ x) : writeArray m base n f x = m x := by
  have hout : ¬ (base ≤ x ∧ x < base + 8 * n) := by omega
  simp [writeArray, hout]

/-- Filling an array leaves every word disjoint from it alone. -/
theorem read64_writeArray_disjoint {m : Mem} {base n b : Nat} {f : Nat → Nat}
    (h : b + 8 ≤ base ∨ base + 8 * n ≤ b) : read64 (writeArray m base n f) b = read64 m b := by
  apply readLE_congr
  intro x h1 h2
  exact writeArray_outside (by omega)

/-- Word `j` of a filled array holds its own value. -/
theorem read64_writeArray {m : Mem} {base n j : Nat} {f : Nat → Nat} (hj : j < n) :
    read64 (writeArray m base n f) (base + 8 * j) = f j % 2 ^ 64 := by
  have hbytes : ∀ i, i < 8 → writeArray m base n f (base + 8 * j + i) = leByte (f j) i := by
    intro i hi
    have hin : base ≤ base + 8 * j + i ∧ base + 8 * j + i < base + 8 * n := by omega
    have hword : (base + 8 * j + i - base) / 8 = j := by omega
    have hbyte : (base + 8 * j + i - base) % 8 = i := by omega
    simp [writeArray, hin, hword, hbyte]
  rw [read64, readLE_of_bytes hbytes]
  norm_num

theorem writeWords_append (m : Mem) (us vs : List (Nat × Nat)) :
    writeWords m (us ++ vs) = writeWords (writeWords m us) vs := by
  simp [writeWords, List.foldl_append]

/-- An array written word by word is the array filled at once. -/
theorem writeWords_eq_writeArray (m : Mem) (base n : Nat) (f : Nat → Nat) :
    writeWords m ((List.range n).map fun i => (base + 8 * i, f i)) = writeArray m base n f := by
  induction n with
  | zero =>
      funext x
      exact (writeArray_outside (by omega)).symm
  | succ n ih =>
      rw [List.range_succ, List.map_append, writeWords_append, ih]
      funext x
      simp only [List.map_cons, List.map_nil, writeWords_cons, writeWords_nil, write64, writeLE,
        writeArray]
      by_cases hlast : base + 8 * n ≤ x ∧ x < base + 8 * n + 8
      · have hin : base ≤ x ∧ x < base + 8 * (n + 1) := by omega
        have hword : (x - base) / 8 = n := by omega
        have hbyte : (x - base) % 8 = x - (base + 8 * n) := by omega
        simp [hlast, hin, hword, hbyte]
      · have hsame : (base ≤ x ∧ x < base + 8 * n) ↔ (base ≤ x ∧ x < base + 8 * (n + 1)) := by
          omega
        simp [hlast, hsame]

/-- A cleared range holds zeros. -/
theorem zeroRange_inside {m : Mem} {a n x : Nat} (h1 : a ≤ x) (h2 : x < a + n) :
    zeroRange m a n x = 0 := by
  simp [zeroRange, h1, h2]

/-- Clearing a range leaves everything else alone. -/
theorem zeroRange_outside {m : Mem} {a n x : Nat} (h : x < a ∨ a + n ≤ x) :
    zeroRange m a n x = m x := by
  have hout : ¬ (a ≤ x ∧ x < a + n) := by omega
  simp [zeroRange, hout]

/-- A loop of byte stores leaves every other byte alone. -/
theorem writeBytes_outside {m : Mem} {bs : List (Nat × UInt8)} {x : Nat}
    (h : ∀ b ∈ bs, b.1 ≠ x) : writeBytes m bs x = m x := by
  induction bs generalizing m with
  | nil => rfl
  | cons b bs ih =>
      have hhead : x ≠ b.1 := fun heq => h b List.mem_cons_self heq.symm
      have htail := ih (m := Function.update m b.1 b.2)
        (fun c hc => h c (List.mem_cons_of_mem b hc))
      rw [Function.update_of_ne hhead] at htail
      exact htail

end ByteMemory
