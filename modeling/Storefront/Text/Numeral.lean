/-!
# Whole numbers as decimal text

Digits are the ten ASCII ones. A numeral is a non-empty run of them, leading zeros allowed; a signed
numeral may start with one `+` or `-`, an unsigned one with a `+` only. Nothing else is read: no
blank, no separator, no second sign. Writing gives the digits without leading zeros, and a `-` where
the number is negative.

The bounded readers refuse a numeral whose value does not fit, rather than wrap or clamp it.
-/

namespace Storefront.Text

/-! ### Digits -/

/-- The value of an ASCII digit. -/
def digitValue (c : Char) : Nat := c.toNat - '0'.toNat

/-- The ASCII digit of a value below ten. -/
def digitChar (d : Nat) : Char := Char.ofNat ('0'.toNat + d)

/-- The number that a run of digits stands for, most significant digit first. -/
def digitsValue (digits : List Char) : Nat :=
  digits.foldl (fun n c ↦ 10 * n + digitValue c) 0

/-- The digits of a number, most significant first and without leading zeros; zero has one digit. -/
def digits (n : Nat) : List Char :=
  if n < 10 then [digitChar n] else digits (n / 10) ++ [digitChar (n % 10)]

theorem digitsValue_append_singleton (ds : List Char) (c : Char) :
    digitsValue (ds ++ [c]) = 10 * digitsValue ds + digitValue c := by
  simp [digitsValue]

theorem digitValue_digitChar {d : Nat} (h : d < 10) : digitValue (digitChar d) = d := by
  match d, h with
  | 0, _ | 1, _ | 2, _ | 3, _ | 4, _ | 5, _ | 6, _ | 7, _ | 8, _ | 9, _ => rfl

theorem isDigit_digitChar {d : Nat} (h : d < 10) : (digitChar d).isDigit = true := by
  match d, h with
  | 0, _ | 1, _ | 2, _ | 3, _ | 4, _ | 5, _ | 6, _ | 7, _ | 8, _ | 9, _ => rfl

/-- The digits of a number read back as that number. -/
@[simp] theorem digitsValue_digits (n : Nat) : digitsValue (digits n) = n := by
  induction n using Nat.strongRecOn with
  | _ n ih =>
    rw [digits]
    split
    · next h => simp [digitsValue, digitValue_digitChar h]
    · next h =>
      rw [digitsValue_append_singleton, ih (n / 10) (by omega),
        digitValue_digitChar (Nat.mod_lt _ (by decide))]
      omega

theorem digits_ne_nil (n : Nat) : digits n ≠ [] := by
  rw [digits]
  split <;> simp

theorem isDigit_of_mem_digits {n : Nat} {c : Char} (h : c ∈ digits n) : c.isDigit = true := by
  induction n using Nat.strongRecOn with
  | _ n ih =>
    rw [digits] at h
    split at h
    · next hn => rw [List.mem_singleton.1 h]; exact isDigit_digitChar hn
    · next hn =>
      rcases List.mem_append.1 h with h | h
      · exact ih (n / 10) (by omega) h
      · rw [List.mem_singleton.1 h]; exact isDigit_digitChar (Nat.mod_lt _ (by decide))

/-! ### Reading -/

/-- The value of a numeral without a sign. -/
def readDigits? (s : List Char) : Option Nat :=
  if s ≠ [] ∧ s.all Char.isDigit then some (digitsValue s) else none

/-- A text split into whether it starts with a `-`, and what follows its sign. -/
def splitSign : List Char → Bool × List Char
  | '-' :: s => (true, s)
  | '+' :: s => (false, s)
  | s => (false, s)

/-- The value of a numeral with or without a sign. -/
def readInt? (s : List Char) : Option Int :=
  let (negative, body) := splitSign s
  (readDigits? body).map fun n ↦ if negative then -(n : Int) else n

/-- The value of a signed numeral that fits sixty-four bits. -/
def readInt64? (s : String) : Option Int64 :=
  (readInt? s.toList).bind fun n ↦
    if Int64.minValue.toInt ≤ n ∧ n ≤ Int64.maxValue.toInt then some (Int64.ofInt n) else none

/-- The value of an unsigned numeral that fits sixty-four bits. A `-` is refused, even on zero. -/
def readUInt64? (s : String) : Option UInt64 :=
  let (negative, body) := splitSign s.toList
  if negative then none
  else (readDigits? body).bind fun n ↦ if n < UInt64.size then some (UInt64.ofNat n) else none

/-! ### Writing -/

/-- The numeral of an integer. -/
def writeInt (n : Int) : List Char :=
  if n < 0 then '-' :: digits n.natAbs else digits n.natAbs

/-- The numeral of a signed word. -/
def ofInt64 (n : Int64) : String := String.ofList (writeInt n.toInt)

/-- The numeral of an unsigned word. -/
def ofUInt64 (n : UInt64) : String := String.ofList (digits n.toNat)

/-- The numeral of a count. -/
def ofNat (n : Nat) : String := String.ofList (digits n)

end Storefront.Text
