import Stacktrace.Text.Basic

/-!
Whole numbers in decimal. A number is written with the fewest digits; it is read from one or more
ASCII digits, leading zeros included, and a signed one with an optional sign in front. A number of 32
bits is built up from its digits, with each product and each sum checked.
-/

namespace Stacktrace.Text

def ofNat (n : Nat) : Text := Nat.toDigits 10 n

def ofInt : Int → Text
  | .ofNat n => ofNat n
  | .negSucc n => '-' :: ofNat (n + 1)

/-- The value of one or more ASCII digits. -/
def toNat? (t : Text) : Option Nat :=
  if t ≠ [] ∧ t.all Char.isDigit then some (Nat.ofDigitChars 10 t 0) else none

/-- The value of one or more ASCII digits after an optional sign. -/
def toInt? : Text → Option Int
  | '-' :: t => (toNat? t).map fun n => -(n : Int)
  | '+' :: t => (toNat? t).map Int.ofNat
  | t => (toNat? t).map Int.ofNat

def mulUInt32? (a b : UInt32) : Option UInt32 :=
  if a.toNat * b.toNat < UInt32.size then some (a * b) else none

def addUInt32? (a b : UInt32) : Option UInt32 :=
  if a.toNat + b.toNat < UInt32.size then some (a + b) else none

/-- The number with one more digit behind its digits, if 32 bits hold it. -/
def pushDigit? (n : UInt32) (c : Char) : Option UInt32 :=
  if c.isDigit then
    (mulUInt32? n 10).bind (addUInt32? · (UInt32.ofNat (c.toNat - '0'.toNat)))
  else none

def digitsToUInt32? (t : Text) : Option UInt32 := if t = [] then none else t.foldlM pushDigit? 0

/-- The value of one or more ASCII digits after an optional plus, if 32 bits hold it. -/
def toUInt32? : Text → Option UInt32
  | '+' :: t => digitsToUInt32? t
  | t => digitsToUInt32? t

theorem toNat?_replicate_zero_append (zeros n : Nat) :
    toNat? (List.replicate zeros '0' ++ ofNat n) = some n := by
  have hne : List.replicate zeros '0' ++ Nat.toDigits 10 n ≠ [] :=
    List.append_ne_nil_of_right_ne_nil _ Nat.toDigits_ne_nil
  have hdigit : (List.replicate zeros '0' ++ Nat.toDigits 10 n).all Char.isDigit = true := by
    refine List.all_eq_true.2 fun c hc => ?_
    rcases List.mem_append.1 hc with hc | hc
    · rw [List.eq_of_mem_replicate hc]
      rfl
    · exact Nat.isDigit_of_mem_toDigits (by decide) (by decide) hc
  rw [toNat?, ofNat, if_pos ⟨hne, hdigit⟩, Nat.ofDigitChars_append,
    Nat.ofDigitChars_replicate_zero, Nat.mul_zero, Nat.ofDigitChars_ten_toDigits]

@[simp]
theorem toNat?_ofNat (n : Nat) : toNat? (ofNat n) = some n := toNat?_replicate_zero_append 0 n

end Stacktrace.Text
