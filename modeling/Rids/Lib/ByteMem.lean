import Mathlib.Data.Nat.Bitwise
import Mathlib.Tactic.Ring

/-!
# Byte memory: overlaid objects, integers in both byte orders, bit prefixes

A `Mem` maps addresses to bytes. Objects that share storage are views of one memory: a field is
an offset and a length. Writes overwrite a window; `exec` runs a list of them in order.

* `exec_apply_of_covered`, `exec_apply_of_not_covered` — a byte after a list of writes.
* `load` / `leBytes` and `beLoad` — unsigned integers, little and big endian; `load_store_self`,
  `load_store_of_disjoint`, `bswap32_load`.
* `BitPrefix` — two byte strings agree on their first `n` bits, most significant bit first;
  `beLoad_div_eq_iff` — that is equality of the integers after a right shift,
  `bitPrefix_128_iff` — a prefix of 128 bits splits into prefixes of four words.
-/

namespace Rids.Lib.ByteMem

/-- A byte at every address. -/
abbrev Mem := ℕ → BitVec 8

namespace Mem

/-- All bytes 0. -/
def zero : Mem := fun _ => 0

/-- The memory seen from address `off`. -/
def drop (m : Mem) (off : ℕ) : Mem := fun i => m (off + i)

/-- A byte of a dropped memory is the byte that many places on. -/
@[simp] theorem drop_apply (m : Mem) (off i : ℕ) : m.drop off i = m (off + i) := rfl

/-- Dropping twice adds the offsets. -/
theorem drop_drop (m : Mem) (off off' : ℕ) : (m.drop off).drop off' = m.drop (off + off') := by
  funext i
  rw [drop_apply, drop_apply, drop_apply, Nat.add_assoc]

/-- The first `n` bytes are equal. -/
def EqOn (n : ℕ) (m m' : Mem) : Prop := ∀ a < n, m a = m' a

instance (n : ℕ) (m m' : Mem) : Decidable (EqOn n m m') :=
  inferInstanceAs (Decidable (∀ a < n, m a = m' a))

/-- The first `n` bytes as a list. -/
def bytes (m : Mem) (n : ℕ) : List (BitVec 8) := (List.range n).map m

/-- `bytes n` are `n` bytes. -/
theorem length_bytes (m : Mem) (n : ℕ) : (m.bytes n).length = n := by
  rw [bytes, List.length_map, List.length_range]

/-- The first `n` bytes agree exactly when the memories agree below `n`. -/
theorem bytes_eq_iff {n : ℕ} {m m' : Mem} : m.bytes n = m'.bytes n ↔ EqOn n m m' := by
  simp [bytes, EqOn]

end Mem

/-! ### Writes -/

/-- A write of the first `len` bytes of `src` at `off`. -/
structure Write where
  off : ℕ
  len : ℕ
  src : Mem

namespace Write

/-- The write covers address `a`. -/
def Covers (w : Write) (a : ℕ) : Prop := w.off ≤ a ∧ a < w.off + w.len

instance (w : Write) (a : ℕ) : Decidable (w.Covers a) := inferInstanceAs (Decidable (_ ∧ _))

/-- The byte the write puts at an address it covers. -/
def byteAt (w : Write) (a : ℕ) : BitVec 8 := w.src (a - w.off)

/-- The memory after the write. -/
def run (w : Write) (m : Mem) : Mem := fun a => if w.Covers a then w.byteAt a else m a

end Write

/-- The memory after a list of writes, run from the left. -/
def exec (m : Mem) (ws : List Write) : Mem := ws.foldl (fun m w => w.run m) m

/-- No write leaves the memory as it is. -/
@[simp] theorem exec_nil (m : Mem) : exec m [] = m := rfl

/-- Writes run in the order of the list. -/
@[simp] theorem exec_cons (m : Mem) (w : Write) (ws : List Write) :
    exec m (w :: ws) = exec (w.run m) ws := rfl

/-- A byte no write covers stays. -/
theorem exec_apply_of_not_covered {m : Mem} {ws : List Write} {a : ℕ}
    (h : ∀ w ∈ ws, ¬ w.Covers a) : exec m ws a = m a := by
  induction ws generalizing m with
  | nil => rfl
  | cons w ws ih =>
    rw [List.forall_mem_cons] at h
    rw [exec_cons, ih h.2, Write.run, if_neg h.1]

/-- A byte that some write covers is what it puts there, if all writes that cover it agree. -/
theorem exec_apply_of_covered {m : Mem} {ws : List Write} {a : ℕ} {v : BitVec 8}
    (hmem : ∃ w ∈ ws, w.Covers a) (h : ∀ w ∈ ws, w.Covers a → w.byteAt a = v) :
    exec m ws a = v := by
  induction ws generalizing m with
  | nil => simp at hmem
  | cons w ws ih =>
    rw [List.forall_mem_cons] at h
    rw [exec_cons]
    by_cases hws : ∃ w' ∈ ws, w'.Covers a
    · exact ih hws h.2
    · have hw : w.Covers a := by
        obtain ⟨w', hw', hc⟩ := hmem
        rcases List.mem_cons.mp hw' with rfl | hw'
        · exact hc
        · exact absurd ⟨w', hw', hc⟩ hws
      rw [exec_apply_of_not_covered fun w' hw' hc => hws ⟨w', hw', hc⟩, Write.run, if_pos hw]
      exact h.1 hw

/-- The window a write covers: its offset and its length. -/
def Write.span (w : Write) : ℕ × ℕ := (w.off, w.len)

/-- The windows of a list share no byte. -/
def Separate (ws : List Write) : Prop :=
  (ws.map Write.span).Pairwise fun x y => x.1 + x.2 ≤ y.1 ∨ y.1 + y.2 ≤ x.1

/-- In a separate list at most one write covers an address. -/
theorem Separate.eq_of_covers {ws : List Write} (hsep : Separate ws) {w w' : Write} {a : ℕ}
    (hw : w ∈ ws) (hw' : w' ∈ ws) (hc : w.Covers a) (hc' : w'.Covers a) : w = w' := by
  induction ws with
  | nil => simp at hw
  | cons x ws ih =>
    rw [Separate, List.map_cons, List.pairwise_cons] at hsep
    obtain ⟨hx, hsep⟩ := hsep
    have hout (y : Write) (hy : y ∈ ws) (hcx : x.Covers a) (hcy : y.Covers a) : False := by
      have := hx y.span (List.mem_map_of_mem hy)
      obtain ⟨hlx, hhx⟩ := hcx
      obtain ⟨hly, hhy⟩ := hcy
      simp only [Write.span] at this
      omega
    rcases List.mem_cons.mp hw with heq | hin <;> rcases List.mem_cons.mp hw' with heq' | hin'
    · exact heq.trans heq'.symm
    · exact (hout w' hin' (heq ▸ hc) hc').elim
    · exact (hout w hin (heq' ▸ hc') hc).elim
    · exact ih hsep hin hin'

/-- After a separate list every write can be read back. -/
theorem exec_apply_of_separate {m : Mem} {ws : List Write} (hsep : Separate ws) {w : Write}
    {a : ℕ} (hw : w ∈ ws) (hc : w.Covers a) : exec m ws a = w.byteAt a := by
  refine exec_apply_of_covered ⟨w, hw, hc⟩ fun w' hw' hc' => ?_
  rw [hsep.eq_of_covers hw hw' hc hc']

/-! ### Little endian -/

/-- The little-endian integer of `n` bytes at `off`. -/
def Mem.load (m : Mem) (off : ℕ) : ℕ → ℕ
  | 0 => 0
  | n + 1 => (m off).toNat + 256 * m.load (off + 1) n

/-- The bytes of an integer, least significant first. -/
def leBytes (v : ℕ) : Mem := fun i => .ofNat 8 (v / 256 ^ i)

/-- A store of the `n` low bytes of an integer. -/
def Mem.store (m : Mem) (off n v : ℕ) : Mem := (Write.mk off n (leBytes v)).run m

/-- A load reads the bytes of its window and no others. -/
theorem load_congr {m m' : Mem} {off off' n : ℕ}
    (h : ∀ i < n, m (off + i) = m' (off' + i)) : m.load off n = m'.load off' n := by
  induction n generalizing off off' with
  | zero => rfl
  | succ n ih =>
    have hhead := h 0 (by omega)
    have htail : m.load (off + 1) n = m'.load (off' + 1) n := by
      refine ih fun i hi => ?_
      have := h (i + 1) (by omega)
      rwa [Nat.add_comm i 1, ← Nat.add_assoc, ← Nat.add_assoc] at this
    simp only [Nat.add_zero] at hhead
    rw [Mem.load, Mem.load, hhead, htail]

/-- A load of bytes 0. -/
theorem load_eq_zero {m : Mem} {off n : ℕ} (h : ∀ i < n, m (off + i) = 0) : m.load off n = 0 := by
  have hzero (off : ℕ) : Mem.zero.load off n = 0 := by
    clear h
    induction n generalizing off with
    | zero => rfl
    | succ n ih => rw [Mem.load, ih]; rfl
  rw [← hzero 0]
  exact load_congr h

/-- A load of `n` bytes is below `256 ^ n`. -/
theorem load_lt (m : Mem) (off n : ℕ) : m.load off n < 256 ^ n := by
  induction n generalizing off with
  | zero => simp [Mem.load]
  | succ n ih =>
    have hbyte := (m off).isLt
    have htail := ih (off + 1)
    rw [Mem.load, Nat.pow_succ]
    omega

/-- The low bytes of a load are a shorter load. -/
theorem load_mod_pow (m : Mem) (off : ℕ) {k n : ℕ} (h : k ≤ n) :
    m.load off n % 256 ^ k = m.load off k := by
  induction k generalizing off n with
  | zero => simp [Mem.load, Nat.mod_one]
  | succ k ih =>
    obtain ⟨n, rfl⟩ : ∃ n', n = n' + 1 := ⟨n - 1, by omega⟩
    have hbyte := (m off).isLt
    rw [Mem.load, Mem.load, ← ih (off + 1) (by omega : k ≤ n), Nat.pow_succ,
      Nat.mul_comm (256 ^ k) 256, Nat.mod_mul, Nat.add_mul_mod_self_left,
      Nat.mod_eq_of_lt hbyte, Nat.add_mul_div_left _ _ (by decide), Nat.div_eq_of_lt hbyte,
      Nat.zero_add]

/-- Loading from the little-endian bytes of a number cuts digits out of it. -/
theorem load_leBytes (v : ℕ) (k n : ℕ) :
    Mem.load (leBytes v) k n = v / 256 ^ k % 256 ^ n := by
  induction n generalizing k with
  | zero => simp [Mem.load, Nat.mod_one]
  | succ n ih =>
    have hbyte : (leBytes v k).toNat = v / 256 ^ k % 256 := by simp [leBytes]
    have hnext : v / 256 ^ (k + 1) = v / 256 ^ k / 256 := by
      rw [Nat.pow_succ, Nat.div_div_eq_div_mul]
    rw [Mem.load, ih, hbyte, hnext, Nat.pow_succ, Nat.mul_comm (256 ^ n) 256, Nat.mod_mul]

/-- A load reads back what was stored, cut to its length. -/
theorem load_store_self (m : Mem) (off n v : ℕ) :
    (m.store off n v).load off n = v % 256 ^ n := by
  have hsrc : (m.store off n v).load off n = (leBytes v).load 0 n := by
    refine load_congr fun i hi => ?_
    have hc : (Write.mk off n (leBytes v)).Covers (off + i) := ⟨by simp, by simpa using hi⟩
    rw [Mem.store, Write.run, if_pos hc, Write.byteAt, Nat.zero_add, Nat.add_sub_cancel_left]
  rw [hsrc, load_leBytes, Nat.pow_zero, Nat.div_one]

/-- After a separate list of writes a load reads back an integer that one of them wrote. -/
theorem load_exec_of_separate {m : Mem} {ws : List Write} (hsep : Separate ws) {off n v : ℕ}
    (hw : Write.mk off n (leBytes v) ∈ ws) : (exec m ws).load off n = v % 256 ^ n := by
  have hsrc : (exec m ws).load off n = (leBytes v).load 0 n := by
    refine load_congr fun i hi => ?_
    have hc : (Write.mk off n (leBytes v)).Covers (off + i) := ⟨by simp, by simpa using hi⟩
    rw [exec_apply_of_separate hsep hw hc, Write.byteAt, Nat.zero_add, Nat.add_sub_cancel_left]
  rw [hsrc, load_leBytes, Nat.pow_zero, Nat.div_one]

/-- A load reads past a store elsewhere. -/
theorem load_store_of_disjoint (m : Mem) {off n off' n' : ℕ} (v : ℕ)
    (h : off' + n' ≤ off ∨ off + n ≤ off') :
    (m.store off n v).load off' n' = m.load off' n' := by
  refine load_congr fun i hi => ?_
  have hc : ¬ (Write.mk off n (leBytes v)).Covers (off' + i) := by
    rintro ⟨hlo, hhi⟩
    simp only at hlo hhi
    omega
  rw [Mem.store, Write.run, if_neg hc]

/-! ### Fields -/

/-- An unsigned field of an object: its offset and its length in bytes. -/
structure Field where
  off : ℕ
  len : ℕ
deriving DecidableEq

/-- The two fields share no byte. -/
def Field.Disjoint (f g : Field) : Prop := f.off + f.len ≤ g.off ∨ g.off + g.len ≤ f.off

instance (f g : Field) : Decidable (f.Disjoint g) := inferInstanceAs (Decidable (_ ∨ _))

namespace Mem

/-- The value of a field. -/
def get (m : Mem) (f : Field) : ℕ := m.load f.off f.len

/-- The memory after an assignment to a field. -/
def set (m : Mem) (f : Field) (v : ℕ) : Mem := m.store f.off f.len v

/-- The memory after a copy of `n` bytes from `src` to `off`. -/
def copy (m : Mem) (off n : ℕ) (src : Mem) : Mem := (Write.mk off n src).run m

/-- Two memories that agree on a field give it one value. -/
theorem get_congr {m m' : Mem} {f : Field} (h : ∀ i < f.len, m (f.off + i) = m' (f.off + i)) :
    m.get f = m'.get f :=
  load_congr h

/-- The value of a field fits into its bytes. -/
theorem get_lt (m : Mem) (f : Field) : m.get f < 256 ^ f.len := load_lt m f.off f.len

/-- A field reads back what was stored, cut to its length. -/
theorem get_set_self (m : Mem) (f : Field) (v : ℕ) : (m.set f v).get f = v % 256 ^ f.len :=
  load_store_self m f.off f.len v

/-- A field reads back a value that fits it. -/
theorem get_set_of_lt (m : Mem) {f : Field} {v : ℕ} (h : v < 256 ^ f.len) :
    (m.set f v).get f = v := by
  rw [get_set_self, Nat.mod_eq_of_lt h]

/-- Storing into a field leaves the fields beside it as they are. -/
theorem get_set_of_disjoint (m : Mem) {f g : Field} (v : ℕ) (h : f.Disjoint g) :
    (m.set f v).get g = m.get g :=
  load_store_of_disjoint m v h.symm

/-- Storing into a field leaves the bytes outside it as they are. -/
theorem set_apply_of_not_covered (m : Mem) {f : Field} (v : ℕ) {a : ℕ}
    (h : a < f.off ∨ f.off + f.len ≤ a) : m.set f v a = m a := by
  refine if_neg ?_
  rintro ⟨hlo, hhi⟩
  simp only at hlo hhi
  omega

/-- A byte inside a copied window is the byte of the source. -/
theorem copy_apply_of_covered (m : Mem) {off n : ℕ} (src : Mem) {i : ℕ} (h : i < n) :
    m.copy off n src (off + i) = src i := by
  have hc : (Write.mk off n src).Covers (off + i) := ⟨by simp, by simpa using h⟩
  rw [copy, Write.run, if_pos hc, Write.byteAt, Nat.add_sub_cancel_left]

/-- A byte outside a copied window stays. -/
theorem copy_apply_of_not_covered (m : Mem) {off n : ℕ} (src : Mem) {a : ℕ}
    (h : a < off ∨ off + n ≤ a) : m.copy off n src a = m a := by
  refine if_neg ?_
  rintro ⟨hlo, hhi⟩
  simp only at hlo hhi
  omega

/-- A copy leaves the fields beside its window as they are. -/
theorem get_copy_of_disjoint (m : Mem) {off n : ℕ} (src : Mem) {g : Field}
    (h : (Field.mk off n).Disjoint g) : (m.copy off n src).get g = m.get g := by
  refine load_congr fun i hi => copy_apply_of_not_covered m src ?_
  rcases h with h | h <;> simp only at h <;> omega

end Mem

/-! ### Big endian -/

/-- The big-endian integer of the first `n` bytes. -/
def Mem.beLoad (m : Mem) : ℕ → ℕ
  | 0 => 0
  | n + 1 => m.beLoad n * 256 + (m n).toNat

/-- A big-endian load reads the first `n` bytes and no others. -/
theorem beLoad_congr {m m' : Mem} {n : ℕ} (h : ∀ i < n, m i = m' i) : m.beLoad n = m'.beLoad n := by
  induction n with
  | zero => rfl
  | succ n ih =>
    rw [Mem.beLoad, Mem.beLoad, ih fun i hi => h i (by omega), h n (by omega)]

/-- Four bytes in the other order. -/
def bswap32 (v : ℕ) : ℕ :=
  v % 256 * 2 ^ 24 + v / 2 ^ 8 % 256 * 2 ^ 16 + v / 2 ^ 16 % 256 * 2 ^ 8 + v / 2 ^ 24 % 256

/-- Two bytes in the other order. -/
def bswap16 (v : ℕ) : ℕ := v % 256 * 2 ^ 8 + v / 2 ^ 8 % 256

/-- The four bytes of a word change their order. -/
theorem bswap32_eq {a b c d : ℕ} (ha : a < 256) (hb : b < 256) (hc : c < 256) (hd : d < 256) :
    bswap32 (a + 2 ^ 8 * b + 2 ^ 16 * c + 2 ^ 24 * d) =
      ((a * 256 + b) * 256 + c) * 256 + d := by
  have h0 : (a + 2 ^ 8 * b + 2 ^ 16 * c + 2 ^ 24 * d) % 256 = a := by omega
  have h1 : (a + 2 ^ 8 * b + 2 ^ 16 * c + 2 ^ 24 * d) / 2 ^ 8 = b + 256 * (c + 256 * d) := by omega
  have h2 : (a + 2 ^ 8 * b + 2 ^ 16 * c + 2 ^ 24 * d) / 2 ^ 16 = c + 256 * d := by omega
  have h3 : (a + 2 ^ 8 * b + 2 ^ 16 * c + 2 ^ 24 * d) / 2 ^ 24 = d := by omega
  rw [bswap32, h0, h1, h2, h3, Nat.add_mul_mod_self_left, Nat.add_mul_mod_self_left,
    Nat.mod_eq_of_lt hb, Nat.mod_eq_of_lt hc, Nat.mod_eq_of_lt hd]
  ring

/-- A word stored in network order, loaded on a little-endian machine and swapped. -/
theorem bswap32_load (m : Mem) (off : ℕ) : bswap32 (m.load off 4) = (m.drop off).beLoad 4 := by
  have hload : m.load off 4 = (m off).toNat + 2 ^ 8 * (m (off + 1)).toNat +
      2 ^ 16 * (m (off + 2)).toNat + 2 ^ 24 * (m (off + 3)).toNat := by
    simp only [Mem.load, Nat.add_assoc, Nat.reduceAdd]
    ring
  rw [hload, bswap32_eq (m off).isLt (m (off + 1)).isLt (m (off + 2)).isLt (m (off + 3)).isLt]
  simp only [Mem.beLoad, Mem.drop_apply, Nat.add_zero, Nat.zero_mul, Nat.zero_add]

/-- A big-endian load of `n` bytes is below `256 ^ n`. -/
theorem beLoad_lt (m : Mem) (n : ℕ) : m.beLoad n < 256 ^ n := by
  induction n with
  | zero => simp [Mem.beLoad]
  | succ n ih =>
    have hbyte := (m n).isLt
    rw [Mem.beLoad, Nat.pow_succ]
    omega

/-! ### Bit prefixes -/

/-- Bit `i` of a byte string, most significant bit first. -/
def Mem.bit (m : Mem) (i : ℕ) : Bool := (m (i / 8)).getMsbD (i % 8)

/-- Two byte strings agree on their first `n` bits. -/
def BitPrefix (n : ℕ) (m m' : Mem) : Prop := ∀ i < n, m.bit i = m'.bit i

instance (n : ℕ) (m m' : Mem) : Decidable (BitPrefix n m m') :=
  inferInstanceAs (Decidable (∀ i < n, m.bit i = m'.bit i))

/-- Bit `i` of the string is bit `8 * n - 1 - i` of its integer. -/
theorem testBit_beLoad (m : Mem) (n i : ℕ) (h : i < 8 * n) :
    (m.beLoad n).testBit (8 * n - 1 - i) = m.bit i := by
  induction n with
  | zero => omega
  | succ n ih =>
    have hbyte : (m n).toNat < 2 ^ 8 := (m n).isLt
    rw [Mem.beLoad, show m.beLoad n * 256 = 2 ^ 8 * m.beLoad n by ring]
    rw [Nat.testBit_two_pow_mul_add _ hbyte]
    by_cases hi : i < 8 * n
    · rw [if_neg (by omega), show 8 * (n + 1) - 1 - i - 8 = 8 * n - 1 - i by omega, ih hi]
    · have hdiv : i / 8 = n := by omega
      have hmod : 8 * (n + 1) - 1 - i = 7 - i % 8 := by omega
      rw [if_pos (by omega), Mem.bit, hdiv, hmod, BitVec.testBit_toNat, BitVec.getMsbD,
        decide_eq_true (by omega : i % 8 < 8), Bool.true_and]

/-- **Shifted integers and bit prefixes.** -/
theorem beLoad_div_eq_iff (m m' : Mem) {n len : ℕ} (h : len ≤ 8 * n) :
    m.beLoad n / 2 ^ (8 * n - len) = m'.beLoad n / 2 ^ (8 * n - len) ↔ BitPrefix len m m' := by
  constructor
  · intro heq i hi
    have hbit := congrArg (Nat.testBit · (len - 1 - i)) heq
    simp only [Nat.testBit_div_two_pow] at hbit
    rw [show len - 1 - i + (8 * n - len) = 8 * n - 1 - i by omega,
      testBit_beLoad m n i (by omega), testBit_beLoad m' n i (by omega)] at hbit
    exact hbit
  · intro hpre
    refine Nat.eq_of_testBit_eq fun j => ?_
    rw [Nat.testBit_div_two_pow, Nat.testBit_div_two_pow]
    by_cases hj : j < len
    · have hbit := hpre (len - 1 - j) (by omega)
      rw [← testBit_beLoad m n _ (by omega), ← testBit_beLoad m' n _ (by omega)] at hbit
      rwa [show 8 * n - 1 - (len - 1 - j) = j + (8 * n - len) by omega] at hbit
    · have hpow (x : Mem) : x.beLoad n < 2 ^ (j + (8 * n - len)) := by
        refine (beLoad_lt x n).trans_le ?_
        rw [show (256 : ℕ) = 2 ^ 8 from rfl, ← Nat.pow_mul]
        exact Nat.pow_le_pow_right (by omega) (by omega)
      rw [Nat.testBit_lt_two_pow (hpow m), Nat.testBit_lt_two_pow (hpow m')]

/-- The part of a prefix of `len` bits that lies in word `w` of four bytes. -/
def wordLen (len w : ℕ) : ℕ := min 32 (len - 32 * w)

/-- A prefix of at most 128 bits is a prefix of each of four words. -/
theorem bitPrefix_128_iff (m m' : Mem) {len : ℕ} (h : len ≤ 128) :
    BitPrefix len m m' ↔ ∀ w < 4, BitPrefix (wordLen len w) (m.drop (4 * w)) (m'.drop (4 * w)) := by
  have hbit (x : Mem) (w i : ℕ) : (x.drop (4 * w)).bit i = x.bit (32 * w + i) := by
    rw [Mem.bit, Mem.bit, Mem.drop_apply]
    rw [show 4 * w + i / 8 = (32 * w + i) / 8 by omega, show i % 8 = (32 * w + i) % 8 by omega]
  constructor
  · intro hpre w _ i hi
    rw [wordLen, lt_min_iff] at hi
    rw [hbit, hbit]
    exact hpre _ (by omega)
  · intro hpre i hi
    have hword := hpre (i / 32) (by omega) (i % 32) (by rw [wordLen, lt_min_iff]; omega)
    rw [hbit, hbit, show 32 * (i / 32) + i % 32 = i by omega] at hword
    exact hword

end Rids.Lib.ByteMem
