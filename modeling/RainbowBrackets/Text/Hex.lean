import RainbowBrackets.Text.Blank

/-!
# Hexadecimal digits

* `hexDigit?`: the value of an ASCII hexadecimal digit of either case;
* `hexChar`: the lower-case digit of a value below sixteen; `hexDigit?_hexChar` reads it back.
-/

namespace RainbowBrackets

/-- The value of a hexadecimal digit. -/
def hexDigit? (c : Char) : Option Nat :=
  if '0' ≤ c ∧ c ≤ '9' then some (c.toNat - '0'.toNat)
  else if 'a' ≤ c ∧ c ≤ 'f' then some (c.toNat - 'a'.toNat + 10)
  else if 'A' ≤ c ∧ c ≤ 'F' then some (c.toNat - 'A'.toNat + 10)
  else none

/-- The lower-case hexadecimal digit of the last four bits of a number. -/
def hexChar (n : Nat) : Char := Nat.digitChar (n % 16)

theorem hexDigit?_hexChar (n : Nat) : hexDigit? (hexChar n) = some (n % 16) := by
  have h : ∀ m, m < 16 → hexDigit? (Nat.digitChar m) = some m := by decide
  exact h (n % 16) (Nat.mod_lt n (by decide))

theorem hexDigit?_lt {c : Char} {n : Nat} (h : hexDigit? c = some n) : n < 16 := by
  simp only [hexDigit?] at h
  split at h
  · rename_i hc
    have h1 : c.toNat ≤ '9'.toNat := hc.2
    have h2 : '9'.toNat = 57 := rfl
    have h3 : '0'.toNat = 48 := rfl
    simp only [Option.some.injEq] at h
    omega
  · split at h
    · rename_i hc
      have h1 : c.toNat ≤ 'f'.toNat := hc.2
      have h2 : 'f'.toNat = 102 := rfl
      have h3 : 'a'.toNat = 97 := rfl
      simp only [Option.some.injEq] at h
      omega
    · split at h
      · rename_i hc
        have h1 : c.toNat ≤ 'F'.toNat := hc.2
        have h2 : 'F'.toNat = 70 := rfl
        have h3 : 'A'.toNat = 65 := rfl
        simp only [Option.some.injEq] at h
        omega
      · cases h

end RainbowBrackets
