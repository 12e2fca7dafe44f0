import Mathlib.Data.List.Basic

/-!
# Numerals

The value of a string of digits in a base up to sixteen, and how a number is found at the
beginning of a text: after an optional sign, and in base sixteen an optional `0x`, it is the longest
string of digits (`scan`).  `value_toDigits` and `scan_append` are the two halves of reading back
what has been written.
-/

namespace Library

namespace Numerals

/-- The value of a digit.  Other characters have the value sixteen. -/
def digitValue (c : Char) : Nat :=
  if '0' ≤ c ∧ c ≤ '9' then c.toNat - '0'.toNat
  else if 'a' ≤ c ∧ c ≤ 'f' then c.toNat - 'a'.toNat + 10
  else if 'A' ≤ c ∧ c ≤ 'F' then c.toNat - 'A'.toNat + 10
  else 16

def isDigit (base : Nat) (c : Char) : Bool := digitValue c < base

/-- The number that a string of digits stands for. -/
def value (base : Nat) (digits : List Char) : Nat :=
  digits.foldl (fun n c => n * base + digitValue c) 0

theorem value_append_singleton (base : Nat) (digits : List Char) (c : Char) :
    value base (digits ++ [c]) = value base digits * base + digitValue c := by
  simp [value]

theorem digitValue_digitChar {d : Nat} (h : d < 16) : digitValue d.digitChar = d := by
  have hall : ∀ d < 16, digitValue (Nat.digitChar d) = d := by decide
  exact hall d h

section

variable {base : Nat} (hbase : 1 < base) (hbase' : base ≤ 16)

include hbase hbase'

theorem value_toDigits (n : Nat) : value base (base.toDigits n) = n := by
  induction n using Nat.strongRecOn with
  | ind n ih =>
      rw [Nat.toDigits_eq_if hbase]
      split
      · rename_i hn
        simp [value, digitValue_digitChar (Nat.lt_of_lt_of_le hn hbase')]
      · have hsmaller : n / base < n := Nat.div_lt_self (by omega) hbase
        have hdigit : n % base < 16 := Nat.lt_of_lt_of_le (Nat.mod_lt _ (by omega)) hbase'
        rw [value_append_singleton, ih _ hsmaller, digitValue_digitChar hdigit, Nat.mul_comm]
        exact Nat.div_add_mod n base

theorem isDigit_of_mem_toDigits (n : Nat) : ∀ c ∈ base.toDigits n, isDigit base c = true := by
  have hdigit {d : Nat} (hd : d < base) : isDigit base d.digitChar = true := by
    rw [isDigit, digitValue_digitChar (Nat.lt_of_lt_of_le hd hbase')]
    exact decide_eq_true hd
  induction n using Nat.strongRecOn with
  | ind n ih =>
      rw [Nat.toDigits_eq_if hbase]
      split
      · rename_i hn
        simpa using hdigit hn
      · have hsmaller : n / base < n := Nat.div_lt_self (by omega) hbase
        intro c hc
        rcases List.mem_append.mp hc with hc | hc
        · exact ih _ hsmaller c hc
        · rw [List.mem_singleton.mp hc]
          exact hdigit (Nat.mod_lt _ (by omega))

end

/-! ## Numbers at the beginning of a text -/

/-- A sign, and whether it is a minus. -/
def splitSign : List Char → Bool × List Char
  | [] => (false, [])
  | c :: text =>
      if c = '-' then (true, text) else if c = '+' then (false, text) else (false, c :: text)

/-- The text after `0x`. -/
def dropBase : List Char → List Char
  | c :: x :: text => if c = '0' ∧ (x = 'x' ∨ x = 'X') then text else c :: x :: text
  | text => text

/-- Whether the number at the beginning of a text is negative, its digits, and the rest. -/
def scan (base : Nat) (text : List Char) : Bool × List Char × List Char :=
  let (negative, text) := splitSign text
  let text := if base = 16 then dropBase text else text
  (negative, text.takeWhile (isDigit base), text.dropWhile (isDigit base))

/-- No digit follows, and no `x` that would make a leading zero a part of `0x`. -/
def Ends (base : Nat) (rest : List Char) : Prop :=
  ∀ c ∈ rest.head?, isDigit base c = false ∧ c ≠ 'x' ∧ c ≠ 'X'

section

variable {base : Nat} {digits rest : List Char}

theorem ne_of_isDigit (hbase : base ≤ 16) {c c' : Char} (hc : isDigit base c = true)
    (hc' : digitValue c' = 16) : c ≠ c' := by
  rintro rfl
  have hlt := of_decide_eq_true hc
  omega

theorem span_append (hdigits : ∀ c ∈ digits, isDigit base c = true) (hrest : Ends base rest) :
    (digits ++ rest).takeWhile (isDigit base) = digits ∧
      (digits ++ rest).dropWhile (isDigit base) = rest := by
  rw [List.takeWhile_append_of_pos hdigits, List.dropWhile_append_of_pos hdigits]
  cases rest with
  | nil => simp
  | cons c rest =>
      have hc := (hrest c rfl).1
      simp [hc]

theorem splitSign_append (hbase : base ≤ 16) (hdigits : ∀ c ∈ digits, isDigit base c = true)
    (hne : digits ≠ []) : splitSign (digits ++ rest) = (false, digits ++ rest) := by
  obtain ⟨c, digits, rfl⟩ := List.exists_cons_of_ne_nil hne
  have hc := hdigits c (List.mem_cons_self ..)
  rw [List.cons_append, splitSign, if_neg (ne_of_isDigit hbase hc (by decide)),
    if_neg (ne_of_isDigit hbase hc (by decide))]

/-- Without `0x` nothing is dropped. -/
theorem dropBase_append (hbase : base ≤ 16) (hdigits : ∀ c ∈ digits, isDigit base c = true)
    (hne : digits ≠ []) (hrest : Ends base rest) : dropBase (digits ++ rest) = digits ++ rest := by
  obtain ⟨c, digits, rfl⟩ := List.exists_cons_of_ne_nil hne
  have hnext : ∀ x ∈ (digits ++ rest).head?, x ≠ 'x' ∧ x ≠ 'X' := by
    cases digits with
    | nil => exact fun x hx => (hrest x hx).2
    | cons d digits =>
        rintro x ⟨⟩
        have hx := hdigits d (List.mem_cons_of_mem _ (List.mem_cons_self ..))
        exact ⟨ne_of_isDigit hbase hx (by decide), ne_of_isDigit hbase hx (by decide)⟩
  rw [List.cons_append]
  generalize digits ++ rest = text at hnext
  cases text with
  | nil => rfl
  | cons x text =>
      obtain ⟨hx, hX⟩ := hnext x rfl
      rw [dropBase, if_neg (by simp [hx, hX])]

/-- A number without sign. -/
theorem scan_append (hbase : base ≤ 16) (hdigits : ∀ c ∈ digits, isDigit base c = true)
    (hne : digits ≠ []) (hrest : Ends base rest) :
    scan base (digits ++ rest) = (false, digits, rest) := by
  obtain ⟨htake, hdrop⟩ := span_append hdigits hrest
  rw [scan, splitSign_append hbase hdigits hne]
  dsimp only
  rw [dropBase_append hbase hdigits hne hrest, ite_self, htake, hdrop]

/-- A negative number. -/
theorem scan_neg_append (hbase : base < 16) (hdigits : ∀ c ∈ digits, isDigit base c = true)
    (hrest : Ends base rest) : scan base ('-' :: (digits ++ rest)) = (true, digits, rest) := by
  obtain ⟨htake, hdrop⟩ := span_append hdigits hrest
  rw [scan, splitSign, if_pos rfl]
  dsimp only
  rw [if_neg (Nat.ne_of_lt hbase), htake, hdrop]

/-- A number in base sixteen with `0x`. -/
theorem scan_hex_append {x : Char} (hx : x = 'x' ∨ x = 'X')
    (hdigits : ∀ c ∈ digits, isDigit 16 c = true) (hrest : Ends 16 rest) :
    scan 16 ('0' :: x :: (digits ++ rest)) = (false, digits, rest) := by
  obtain ⟨htake, hdrop⟩ := span_append hdigits hrest
  rw [scan, splitSign, if_neg (by decide), if_neg (by decide)]
  dsimp only
  rw [if_pos rfl, dropBase, if_pos ⟨rfl, hx⟩, htake, hdrop]

end

end Numerals

end Library
