import Mathlib.Data.List.Induction
import Stacktrace.Text.Decimal

/-!
# Numerals

Which texts state a number in decimal, and which number that is, said digit by digit and without
the functions that read numbers. These accept exactly the numerals (`toNat?_eq_some_iff`,
`toInt?_eq_some_iff`): zeros may stand in front, and one sign in front of these. The written form of
a number is a numeral of it (`numeral_ofInt`). Built up in 32 bits a number is there if and only if it
is less than `2 ^ 32`, however many zeros stand in front of it (`toUInt32?_of_digits`).
-/

namespace Stacktrace.Text

/-- One or more ASCII digits and the number that they state. -/
inductive Digits : Text → Nat → Prop
  | one {c : Char} (digit : c.isDigit = true) : Digits [c] (c.toNat - '0'.toNat)
  | more {t : Text} {n : Nat} {c : Char} (digits : Digits t n) (digit : c.isDigit = true) :
      Digits (t ++ [c]) (10 * n + (c.toNat - '0'.toNat))

/-- Digits after an optional sign and the number that they state. -/
inductive Numeral : Text → Int → Prop
  | plain {t : Text} {n : Nat} (digits : Digits t n) : Numeral t n
  | plus {t : Text} {n : Nat} (digits : Digits t n) : Numeral ('+' :: t) n
  | minus {t : Text} {n : Nat} (digits : Digits t n) : Numeral ('-' :: t) (-n)

theorem toNat?_singleton (c : Char) :
    toNat? [c] = if c.isDigit then some (c.toNat - '0'.toNat) else none := by
  simp [toNat?, Nat.ofDigitChars]

theorem toNat?_concat {t : Text} (ht : t ≠ []) (c : Char) : toNat? (t ++ [c]) =
    if c.isDigit then (toNat? t).map fun n => 10 * n + (c.toNat - '0'.toNat) else none := by
  by_cases hc : c.isDigit = true
  · simp [toNat?, Nat.ofDigitChars, ht, hc]
  · simp [toNat?, hc]

theorem toNat?_eq_some_iff {t : Text} {n : Nat} : toNat? t = some n ↔ Digits t n := by
  constructor
  · intro h
    induction t using List.reverseRecOn generalizing n with
    | nil => simp [toNat?] at h
    | append_singleton t c ih =>
      by_cases ht : t = []
      · rw [ht, List.nil_append, toNat?_singleton, Option.ite_none_right_eq_some] at h
        obtain ⟨hc, hn⟩ := h
        rw [ht, ← Option.some.inj hn]
        exact .one hc
      · rw [toNat?_concat ht, Option.ite_none_right_eq_some, Option.map_eq_some_iff] at h
        obtain ⟨hc, m, hm, rfl⟩ := h
        exact .more (ih hm) hc
  · intro h
    induction h with
    | one hc => rw [toNat?_singleton, if_pos hc]
    | @more t n c _ hc ih =>
      have ht : t ≠ [] := by
        rintro rfl
        simp [toNat?] at ih
      rw [toNat?_concat ht, if_pos hc, ih]
      rfl

theorem toInt?_of_digits {t : Text} {n : Nat} (h : Digits t n) : toInt? t = some (n : Int) := by
  have hread := toNat?_eq_some_iff.2 h
  rw [toInt?.eq_def]
  -- a sign in front of the digits is no digit
  split
  · simp [toNat?] at hread
  · simp [toNat?] at hread
  · rw [hread]
    rfl

theorem toInt?_eq_some_iff {t : Text} {n : Int} : toInt? t = some n ↔ Numeral t n := by
  constructor
  · intro h
    rw [toInt?.eq_def] at h
    split at h
    · next digits =>
      obtain ⟨m, hm, rfl⟩ : ∃ m, toNat? digits = some m ∧ -(m : Int) = n := by
        simpa [Option.bind_eq_some_iff] using h
      exact .minus (toNat?_eq_some_iff.1 hm)
    · obtain ⟨m, hm, rfl⟩ := Option.map_eq_some_iff.1 h
      exact .plus (toNat?_eq_some_iff.1 hm)
    · obtain ⟨m, hm, rfl⟩ := Option.map_eq_some_iff.1 h
      exact .plain (toNat?_eq_some_iff.1 hm)
  · intro h
    cases h with
    | plain digits => exact toInt?_of_digits digits
    | plus digits =>
      rw [toInt?, toNat?_eq_some_iff.2 digits]
      rfl
    | minus digits =>
      rw [toInt?, toNat?_eq_some_iff.2 digits]
      rfl

/-! ## Numbers of 32 bits -/

theorem toNat_of_isDigit {c : Char} (h : c.isDigit = true) :
    c.toNat = '0'.toNat + (c.toNat - '0'.toNat) ∧ c.toNat - '0'.toNat < 10 := by
  obtain ⟨hle, hle'⟩ : '0'.toNat ≤ c.toNat ∧ c.toNat ≤ '9'.toNat := by
    simpa [Char.isDigit, UInt32.le_iff_toNat_le] using h
  have hzero : '0'.toNat = 48 := rfl
  have hnine : '9'.toNat = 57 := rfl
  omega

theorem mulUInt32?_eq (a b : UInt32) : mulUInt32? a b =
    if a.toNat * b.toNat < UInt32.size then some (UInt32.ofNat (a.toNat * b.toNat)) else none := by
  rw [mulUInt32?, UInt32.ofNat_mul, UInt32.ofNat_toNat, UInt32.ofNat_toNat]

theorem addUInt32?_eq (a b : UInt32) : addUInt32? a b =
    if a.toNat + b.toNat < UInt32.size then some (UInt32.ofNat (a.toNat + b.toNat)) else none := by
  rw [addUInt32?, UInt32.ofNat_add, UInt32.ofNat_toNat, UInt32.ofNat_toNat]

/-- Neither step overflows if and only if the number with the new digit is in range. -/
theorem pushDigit?_ofNat {n : Nat} (hn : n < UInt32.size) {c : Char} (hc : c.isDigit = true) :
    pushDigit? (UInt32.ofNat n) c =
      if 10 * n + (c.toNat - '0'.toNat) < UInt32.size then
        some (UInt32.ofNat (10 * n + (c.toNat - '0'.toNat))) else none := by
  have hdigit := (toNat_of_isDigit hc).2
  generalize hd : c.toNat - '0'.toNat = d at hdigit ⊢
  have hten : UInt32.toNat 10 = 10 := rfl
  have hsmall : (UInt32.ofNat d).toNat = d :=
    UInt32.toNat_ofNat_of_lt' (Nat.lt_trans hdigit (by decide))
  rw [pushDigit?, if_pos hc, hd, mulUInt32?_eq, UInt32.toNat_ofNat_of_lt' hn, hten, Nat.mul_comm n]
  by_cases hmul : 10 * n < UInt32.size
  · rw [if_pos hmul, Option.bind_some, addUInt32?_eq, UInt32.toNat_ofNat_of_lt' hmul, hsmall]
  · rw [if_neg hmul, Option.bind_none,
      if_neg fun h => hmul (Nat.lt_of_le_of_lt (Nat.le_add_right _ d) h)]

theorem foldlM_pushDigit? {t : Text} {n : Nat} (h : Digits t n) :
    t.foldlM pushDigit? 0 = if n < UInt32.size then some (UInt32.ofNat n) else none := by
  induction h with
  | @one c hc =>
    have hpush := pushDigit?_ofNat (n := 0) (by decide) hc
    rw [Nat.mul_zero, Nat.zero_add] at hpush
    rw [List.foldlM_cons]
    exact (bind_pure _).trans hpush
  | @more t n c _ hc ih =>
    rw [List.foldlM_append, ih]
    by_cases hn : n < UInt32.size
    · rw [if_pos hn]
      exact (bind_pure _).trans (pushDigit?_ofNat hn hc)
    · -- a number that is out of range stays so
      rw [if_neg hn, if_neg fun h => hn (by omega)]
      rfl

theorem toUInt32?_of_digits {t : Text} {n : Nat} (h : Digits t n) :
    toUInt32? t = if n < UInt32.size then some (UInt32.ofNat n) else none := by
  have hread := toNat?_eq_some_iff.2 h
  have hne : t ≠ [] := by
    rintro rfl
    cases hread
  rw [toUInt32?.eq_def]
  split
  · simp [toNat?] at hread
  · rw [digitsToUInt32?, if_neg hne, foldlM_pushDigit? h]

/-- With the greatest number of 32 bits in the place of those that are out of range. -/
theorem toNat_getD_toUInt32? {t : Text} {n : Nat} (h : Digits t n) :
    ((toUInt32? t).getD 4294967295).toNat = min n 4294967295 := by
  have hsize : UInt32.size = 4294967295 + 1 := rfl
  rw [toUInt32?_of_digits h]
  by_cases hn : n < UInt32.size
  · rw [if_pos hn, Option.getD_some, UInt32.toNat_ofNat_of_lt' hn, Nat.min_eq_left (by omega)]
  · rw [if_neg hn, Option.getD_none, Nat.min_eq_right (by omega)]
    rfl

/-! ## Written numbers -/

theorem numeral_ofInt (n : Int) : Numeral (ofInt n) n := by
  cases n with
  | ofNat n => exact .plain (toNat?_eq_some_iff.1 (toNat?_ofNat n))
  | negSucc n => exact .minus (toNat?_eq_some_iff.1 (toNat?_ofNat (n + 1)))

theorem isDigit_or_eq_of_mem_ofInt {n : Int} {c : Char} (h : c ∈ ofInt n) :
    c.isDigit = true ∨ c = '-' := by
  have hdigits {n : Nat} (h : c ∈ ofNat n) : c.isDigit = true :=
    Nat.isDigit_of_mem_toDigits (by decide) (by decide) h
  cases n with
  | ofNat n => exact .inl (hdigits h)
  | negSucc n => exact (List.mem_cons.1 h).symm.imp_left hdigits

theorem colon_not_mem_ofInt (n : Int) : ':' ∉ ofInt n :=
  fun h => absurd (isDigit_or_eq_of_mem_ofInt h) (by decide)

theorem lineFeed_not_mem_ofInt (n : Int) : '\n' ∉ ofInt n :=
  fun h => absurd (isDigit_or_eq_of_mem_ofInt h) (by decide)

end Stacktrace.Text
