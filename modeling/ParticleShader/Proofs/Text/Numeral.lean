import Mathlib.Data.List.TakeWhile
import ParticleShader.Text.Blank
import ParticleShader.Text.Numeral

/-!
# Counts as they are written

What is read as a count is a run of digits, behind a sign or not, and the count is the number that
the digits write: **`numeral?_eq_some`**. So a count that is written with the digits that
`Nat.toDigits` gives is read again. No digit is blank, so nothing of a written count is stripped,
and all that is stripped of a text stands in front of it or behind it (`exists_strip`).
-/

namespace ParticleShader.Text

/-! ### Digits -/

theorem digit?_eq_some {c : Char} {d : Nat} :
    digit? c = some d ↔ c.isDigit = true ∧ c.toNat - '0'.toNat = d := by
  have hdigit : '0' ≤ c ∧ c ≤ '9' ↔ c.isDigit = true := by
    simp [Char.isDigit, Char.le_def]
  unfold digit?
  rw [← hdigit]
  split
  · rename_i h
    rw [Option.some.injEq, and_iff_right h]
    rfl
  · rename_i h
    simp [h]

/-- A run of digits is read as the number that it writes behind the digits of `n`. -/
theorem digitsFrom_eq_some {n m : Nat} {cs : List Char} :
    digitsFrom n cs = some m ↔
      (∀ c ∈ cs, c.isDigit = true) ∧ Nat.ofDigitChars 10 cs n = m := by
  induction cs generalizing n with
  | nil => simp [digitsFrom, Nat.ofDigitChars]
  | cons c cs ih =>
    simp only [digitsFrom, Option.bind_eq_some_iff, digit?_eq_some, ih, Nat.ofDigitChars_cons,
      List.forall_mem_cons]
    constructor
    · rintro ⟨_, ⟨hc, rfl⟩, hcs, hm⟩
      exact ⟨⟨hc, hcs⟩, hm⟩
    · rintro ⟨⟨hc, hcs⟩, hm⟩
      exact ⟨_, ⟨hc, rfl⟩, hcs, hm⟩

theorem digits?_eq_some {n : Nat} {cs : List Char} : digits? cs = some n ↔
    cs ≠ [] ∧ (∀ c ∈ cs, c.isDigit = true) ∧ Nat.ofDigitChars 10 cs 0 = n := by
  cases cs with
  | nil => simp [digits?]
  | cons c cs => simp [digits?, digitsFrom_eq_some]

/-! ### Counts -/

/-- A sign and digits write a count below a bound. -/
structure Numeral (bound : Nat) (sign digits : List Char) (n : Nat) : Prop where
  /-- There is a `+` or no sign. -/
  sign : sign = [] ∨ sign = ['+']
  /-- There is a digit. -/
  ne_nil : digits ≠ []
  /-- There are only digits. -/
  isDigit : ∀ c ∈ digits, c.isDigit = true
  /-- They write the count. -/
  value : Nat.ofDigitChars 10 digits 0 = n
  /-- It is below the bound. -/
  lt : n < bound

/-- **What is read as a count.** -/
theorem numeral?_eq_some {bound n : Nat} {cs : List Char} : numeral? bound cs = some n ↔
    ∃ sign digits, cs = sign ++ digits ∧ Numeral bound sign digits n := by
  have hread : ∀ digits, (digits? digits).filter (· < bound) = some n ↔
      digits ≠ [] ∧ (∀ c ∈ digits, c.isDigit = true) ∧ Nat.ofDigitChars 10 digits 0 = n ∧
        n < bound := by
    intro digits
    simp [Option.filter_eq_some_iff, digits?_eq_some, and_assoc]
  unfold numeral?
  split
  · rename_i rest
    show (digits? rest).filter (· < bound) = some n ↔ _
    rw [hread]
    constructor
    · rintro ⟨hne, hdigits, hvalue, hlt⟩
      exact ⟨['+'], rest, rfl, .inr rfl, hne, hdigits, hvalue, hlt⟩
    · rintro ⟨sign, digits, hsplit, ⟨rfl | rfl, hne, hdigits, hvalue, hlt⟩⟩
      · -- the sign is no digit
        obtain rfl : '+' :: rest = digits := hsplit
        exact absurd (hdigits '+' List.mem_cons_self) (by decide)
      · obtain rfl : rest = digits := List.tail_eq_of_cons_eq hsplit
        exact ⟨hne, hdigits, hvalue, hlt⟩
  · rename_i hunsigned
    show (digits? cs).filter (· < bound) = some n ↔ _
    rw [hread]
    constructor
    · rintro ⟨hne, hdigits, hvalue, hlt⟩
      exact ⟨[], cs, rfl, .inl rfl, hne, hdigits, hvalue, hlt⟩
    · rintro ⟨sign, digits, hsplit, ⟨rfl | rfl, hne, hdigits, hvalue, hlt⟩⟩
      · obtain rfl : cs = digits := hsplit
        exact ⟨hne, hdigits, hvalue, hlt⟩
      · exact absurd hsplit (hunsigned digits)

/-- A written count below the bound is read again: it is not empty and has no sign. -/
theorem numeral?_toDigits {bound n : Nat} (h : n < bound) :
    numeral? bound (Nat.toDigits 10 n) = some n :=
  numeral?_eq_some.mpr ⟨[], Nat.toDigits 10 n, rfl, .inl rfl, Nat.toDigits_ne_nil,
    fun _ => Nat.isDigit_of_mem_toDigits (by decide) (by decide),
    Nat.ofDigitChars_toDigits (by decide) (by decide), h⟩

/-- A count that is read is below the bound. -/
theorem lt_of_numeral? {bound n : Nat} {cs : List Char} (h : numeral? bound cs = some n) :
    n < bound := by
  obtain ⟨sign, digits, -, hnumeral⟩ := numeral?_eq_some.mp h
  exact hnumeral.lt

/-! ### Blanks -/

/-- Letters and digits stand between the space and the next blank. -/
theorem not_isBlank_of_isAlphanum {c : Char} (h : c.isAlphanum) : isBlank c = false := by
  have hwithin : ∀ first last : Char, 0x20 < first.toNat → last.toNat < 0x85 →
      first.val ≤ c.val ∧ c.val ≤ last.val → 0x20 < c.toNat ∧ c.toNat < 0x85 :=
    fun _ _ hfirst hlast ⟨hlow, hhigh⟩ =>
      ⟨Nat.lt_of_lt_of_le hfirst hlow, Nat.lt_of_le_of_lt hhigh hlast⟩
  have hrange : 0x20 < c.toNat ∧ c.toNat < 0x85 := by
    have hcases : (c.isUpper || c.isLower || c.isDigit) = true := h
    rw [Bool.or_eq_true, Bool.or_eq_true] at hcases
    rcases hcases with (hupper | hlower) | hdigit
    · exact hwithin 'A' 'Z' (by decide) (by decide) (of_decide_eq_true hupper)
    · obtain ⟨hlow, hhigh⟩ := Bool.and_eq_true_iff.mp hlower
      exact hwithin 'a' 'z' (by decide) (by decide)
        ⟨of_decide_eq_true hlow, of_decide_eq_true hhigh⟩
    · obtain ⟨hlow, hhigh⟩ := Bool.and_eq_true_iff.mp hdigit
      exact hwithin '0' '9' (by decide) (by decide)
        ⟨of_decide_eq_true hlow, of_decide_eq_true hhigh⟩
  refine List.any_eq_false.mpr fun range hblank => ?_
  obtain ⟨first, last⟩ := range
  simp only [blankRanges, List.mem_cons, Prod.mk.injEq, List.not_mem_nil, or_false] at hblank
  simp only [Bool.and_eq_true, decide_eq_true_eq, not_and]
  omega

/-- A text without a blank is not changed by stripping it. -/
theorem strip_of_no_blank {cs : List Char} (h : ∀ c ∈ cs, isBlank c = false) : strip cs = cs := by
  have hkeep : ∀ cs : List Char, (∀ c ∈ cs, isBlank c = false) → cs.dropWhile isBlank = cs := by
    intro cs h
    cases cs with
    | nil => rfl
    | cons c cs => exact List.dropWhile_cons_of_neg (Bool.eq_false_iff.mp (h c List.mem_cons_self))
  unfold strip
  rw [hkeep cs h, hkeep cs.reverse fun c hc => h c (List.mem_reverse.mp hc), List.reverse_reverse]

/-- Blanks around a text make no difference to what is left of it. -/
theorem strip_append {before cs after : List Char} (hbefore : ∀ c ∈ before, isBlank c = true)
    (hafter : ∀ c ∈ after, isBlank c = true) : strip (before ++ cs ++ after) = strip cs := by
  have hreverse : ∀ c ∈ after.reverse, isBlank c = true := fun c hc =>
    hafter c (List.mem_reverse.mp hc)
  unfold strip
  rw [List.append_assoc, List.dropWhile_append_of_pos hbefore, List.dropWhile_append]
  split
  · rename_i hempty
    rw [List.isEmpty_iff.mp hempty, List.dropWhile_eq_nil_iff.mpr hafter]
  · rw [List.reverse_append, List.dropWhile_append_of_pos hreverse]

/-- All that is stripped of a text is blank. -/
theorem exists_strip (cs : List Char) : ∃ before after, cs = before ++ strip cs ++ after ∧
    (∀ c ∈ before, isBlank c = true) ∧ ∀ c ∈ after, isBlank c = true := by
  have htail : cs.dropWhile isBlank =
      strip cs ++ ((cs.dropWhile isBlank).reverse.takeWhile isBlank).reverse := by
    rw [strip, ← List.reverse_append, List.takeWhile_append_dropWhile, List.reverse_reverse]
  refine ⟨cs.takeWhile isBlank, ((cs.dropWhile isBlank).reverse.takeWhile isBlank).reverse,
    ?_, fun c hc => List.mem_takeWhile_imp hc, fun c hc => ?_⟩
  · rw [List.append_assoc, ← htail, List.takeWhile_append_dropWhile]
  · exact List.mem_takeWhile_imp (List.mem_reverse.mp hc)

end ParticleShader.Text
