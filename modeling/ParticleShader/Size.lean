import ParticleShader.Fault

/-!
# Sizes

Counts, offsets and indices are words of 64 bits. A sum or a product that does
not fit in a word is refused, so every size that is handed out is exact.
-/

namespace ParticleShader.Size

/-- One more than the largest size. -/
def bound : Nat := Nat.pow 2 64

/-- A size that has to fit in a word. -/
def check (n : Nat) : Except Fault Nat := if n < bound then .ok n else .error .sizeOverflow

/-- The sum of two sizes. -/
def add (a b : Nat) : Except Fault Nat := check (a + b)

/-- The product of two sizes. -/
def mul (a b : Nat) : Except Fault Nat := check (a * b)

/-- The sum of a list of sizes. -/
def sum (sizes : List Nat) : Except Fault Nat := sizes.foldlM add 0

theorem check_eq_ok {n m : Nat} : check n = .ok m ↔ n < bound ∧ n = m := by
  unfold check
  split
  · simp_all
  · simp only [reduceCtorEq, false_iff]
    omega

theorem check_eq_error {n : Nat} {fault : Fault} :
    check n = .error fault ↔ fault = .sizeOverflow ∧ bound ≤ n := by
  unfold check
  split
  · rename_i hlt
    simp only [reduceCtorEq, false_iff, not_and, Nat.not_le]
    exact fun _ => hlt
  · rename_i hle
    rw [Except.error.injEq, and_iff_left (Nat.not_lt.mp hle), eq_comm]

theorem add_eq_ok {a b c : Nat} : add a b = .ok c ↔ a + b < bound ∧ a + b = c := check_eq_ok

theorem add_eq_error {a b : Nat} {fault : Fault} :
    add a b = .error fault ↔ fault = .sizeOverflow ∧ bound ≤ a + b := check_eq_error

theorem mul_eq_ok {a b c : Nat} : mul a b = .ok c ↔ a * b < bound ∧ a * b = c := check_eq_ok

theorem mul_eq_error {a b : Nat} {fault : Fault} :
    mul a b = .error fault ↔ fault = .sizeOverflow ∧ bound ≤ a * b := check_eq_error

end ParticleShader.Size
