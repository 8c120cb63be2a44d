import Mathlib.Algebra.Order.Ring.Nat
import Mathlib.Data.Nat.ModEq
import Mathlib.Tactic.Ring

/-!
# Words in files

A record of machine words is stored as a sequence of bytes, four for each word and the lowest first. A
word that has been stored can be read back, whatever follows the record (`word_encode_append`). The
same holds of words in a memory, which is a function of the address (`load_store`).
-/

namespace Words

/-- The `k` lowest bytes of a number, the lowest first. -/
def bytes : ℕ → ℕ → List UInt8
  | 0, _ => []
  | k + 1, n => UInt8.ofNat n :: bytes k (n / 256)

/-- The number that bytes stand for. -/
def value : List UInt8 → ℕ
  | [] => 0
  | b :: bs => b.toNat + 256 * value bs

@[simp]
theorem length_bytes (k n : ℕ) :
  (bytes k n).length = k
  := by
  induction k generalizing n with
  | zero => rfl
  | succ k ih => simp [bytes, ih]

/-- The bytes of a number stand for it, as far as they go. -/
theorem value_bytes (k n : ℕ) :
  value (bytes k n) = n % 256 ^ k
  := by
  induction k generalizing n with
  | zero => simp [bytes, value, Nat.mod_one]
  | succ k ih =>
      rw [bytes, value, ih, pow_succ', Nat.mod_mul]
      simp

/-- The words of a record, one after the other. -/
def encode (ws : List ℕ) : List UInt8 := ws.flatMap (bytes 4)

theorem encode_cons (w : ℕ) (ws : List ℕ) :
  encode (w :: ws) = bytes 4 w ++ encode ws
  := rfl

@[simp]
theorem length_encode (ws : List ℕ) :
  (encode ws).length = 4 * ws.length
  := by
  induction ws with
  | nil => rfl
  | cons w ws ih =>
      rw [encode_cons, List.length_append, length_bytes, ih, List.length_cons]
      ring

/-- Word `i` of a file. -/
def word (file : List UInt8) (i : ℕ) : ℕ := value ((file.drop (4 * i)).take 4)

/-- A word of a record at the beginning of a file is read back, as far as four bytes go. -/
theorem word_encode_append (ws : List ℕ) (rest : List UInt8) {i : ℕ} (hi : i < ws.length) :
  word (encode ws ++ rest) i = ws[i] % 2 ^ 32
  := by
  induction ws generalizing i with
  | nil => exact absurd hi (Nat.not_lt_zero i)
  | cons w ws ih =>
      have hlength : (bytes 4 w).length = 4 := length_bytes 4 w
      rw [word, encode_cons, List.append_assoc]
      cases i with
      | zero =>
          rw [Nat.mul_zero, List.drop_zero, List.take_left' hlength, value_bytes]
          rfl
      | succ i =>
          have hdrop : (bytes 4 w ++ (encode ws ++ rest)).drop (4 * (i + 1)) =
              (encode ws ++ rest).drop (4 * i) := by
            rw [List.drop_append, List.drop_eq_nil_of_le (by omega), hlength, List.nil_append]
            congr 1
          rw [hdrop]
          exact ih (Nat.lt_of_succ_lt_succ hi)

/-! ### Words in memory -/

/-- The word at the address `a`. -/
def load (memory : ℕ → UInt8) (a : ℕ) : ℕ :=
  value [memory a, memory (a + 1), memory (a + 2), memory (a + 3)]

/-- The words `w`, one after the other. -/
def store (w : ℕ → ℕ) : ℕ → UInt8 := fun o => (bytes 4 (w (o / 4))).getD (o % 4) 0

theorem load_congr {memory memory' : ℕ → UInt8} {a : ℕ} (h : ∀ k < 4, memory (a + k) = memory' (a + k)) :
  load memory a = load memory' a
  := by
  rw [load, load]
  have h₀ : memory a = memory' a := h 0 (by decide)
  rw [h₀, h 1 (by decide), h 2 (by decide), h 3 (by decide)]

/-- A word is read back from where its bytes are, as far as four bytes go. -/
theorem load_bytes {memory : ℕ → UInt8} {a n : ℕ}
    (h : ∀ k < 4, memory (a + k) = (bytes 4 n).getD k 0) :
  load memory a = n % 2 ^ 32
  := by
  have h₀ : memory a = (bytes 4 n).getD 0 0 := h 0 (by decide)
  rw [load, h₀, h 1 (by decide), h 2 (by decide), h 3 (by decide)]
  exact value_bytes 4 n

theorem load_store (w : ℕ → ℕ) (i : ℕ) :
  load (store w) (4 * i) = w i % 2 ^ 32
  := by
  apply load_bytes
  intro k hk
  have hdiv : (4 * i + k) / 4 = i := by omega
  have hmod : (4 * i + k) % 4 = k := by omega
  rw [store, hdiv, hmod]

end Words
