/-! Numbers are written with the digits of the core library, most significant
first and without leading zeros, zero being one digit. An integer below zero has a
sign before its digits. -/
namespace SymbolAtlas.Decimal

/-- The decimal digits of a number. -/
def digits (n : Nat) : List Char := Nat.toDigits 10 n

/-- The decimal digits of an integer, after a sign if it is negative. -/
def signedDigits : Int → List Char
  | .ofNat n => digits n
  | .negSucc n => '-' :: digits (n + 1)

theorem digits_ne_nil (n : Nat) : digits n ≠ [] := Nat.toDigits_ne_nil

/-- Decimal digits determine the number that they write. -/
theorem digits_injective {m n : Nat} (same : digits m = digits n) : m = n := by
  have value := congrArg (fun text => Nat.ofDigitChars 10 text 0) same
  simpa [digits] using value

end SymbolAtlas.Decimal
