/-!
Decimal digits as characters and as numbers.
-/

namespace SignalExpr.Text

/-- The number that decimal digits denote, the leading one first; zero for no digits. -/
def digitsValue (cs : List Char) : Nat :=
  cs.foldl (fun n c => 10 * n + (c.toNat - '0'.toNat)) 0

/-- The digits of a number, the leading one first. -/
def digits (n : Nat) : List Char :=
  Nat.toDigits 10 n

theorem isDigit_of_mem_digits {n : Nat} {c : Char} (h : c ∈ digits n) : c.isDigit = true :=
  Nat.isDigit_of_mem_toDigits (by decide) (by decide) h

theorem digits_ne_nil (n : Nat) : digits n ≠ [] := Nat.toDigits_ne_nil

theorem digitsValue_append_digits {zeros : List Char} (h : digitsValue zeros = 0) (n : Nat) :
    digitsValue (zeros ++ digits n) = n := by
  change Nat.ofDigitChars 10 zeros 0 = 0 at h
  change Nat.ofDigitChars 10 (zeros ++ digits n) 0 = n
  rw [Nat.ofDigitChars_append, h, digits, Nat.ofDigitChars_ten_toDigits]

theorem digitsValue_digits (n : Nat) : digitsValue (digits n) = n := by
  simpa using @digitsValue_append_digits [] rfl n

end SignalExpr.Text
