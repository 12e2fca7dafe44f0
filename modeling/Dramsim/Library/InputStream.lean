import Dramsim.Library.Numerals
import Mathlib.Algebra.GroupWithZero.Nat

/-!
# Input streams

A stream of characters with the flags of the C++ library.  Every extraction skips white space
first.  It fails, and sets both flags, if the stream ends there; it fails as well if a flag is
already set, and the variable then keeps its value.

An extraction that goes up to the last character sets `eof`, although it succeeds
(`readUnsigned_append`, `readWord_append`).
-/

namespace Library

open Numerals

/-- The characters that have not been read, `eofbit` and `failbit`. -/
structure InputStream where
  rest : List Char
  eof : Bool := false
  fail : Bool := false
deriving DecidableEq, Repr

namespace InputStream

/-- White space of the classic locale. -/
def isSpace (c : Char) : Bool := [' ', '\t', '\n', '\x0b', '\x0c', '\r'].contains c

def good (s : InputStream) : Bool := !s.eof && !s.fail

/-- The beginning of an extraction, and whether it can go on. -/
def sentry (s : InputStream) : Bool × InputStream :=
  if s.good then
    match s.rest.dropWhile isSpace with
    | [] => (false, { rest := [], eof := true, fail := true })
    | c :: rest => (true, { s with rest := c :: rest })
  else (false, { s with fail := true })

/-- The extraction of an unsigned integer. -/
def readUnsigned (base bits old : Nat) (s : InputStream) : Nat × InputStream :=
  match s.sentry with
  | (false, s) => (old, s)
  | (true, s) =>
      let (negative, digits, rest) := scan base s.rest
      let n := value base digits
      let s := { s with rest := rest, eof := rest.isEmpty }
      if digits = [] then (0, { s with fail := true })
      else if 2 ^ bits ≤ n then (2 ^ bits - 1, { s with fail := true })
      else (if negative then (2 ^ bits - n) % 2 ^ bits else n, s)

/-- The extraction of a string. -/
def readWord (old : List Char) (s : InputStream) : List Char × InputStream :=
  match s.sentry with
  | (false, s) => (old, s)
  | (true, s) =>
      let rest := s.rest.dropWhile fun c => !isSpace c
      (s.rest.takeWhile fun c => !isSpace c, { s with rest := rest, eof := rest.isEmpty })

/-! ## What is read -/

/-- The text ends or goes on with white space. -/
def Breaks (rest : List Char) : Prop := ∀ c ∈ rest.head?, isSpace c = true

theorem Breaks.ends {rest : List Char} (h : Breaks rest) {base : Nat} (hbase : base ≤ 16) :
    Ends base rest := by
  intro c hc
  have hspace := List.contains_iff_mem.mp (h c hc)
  have hall : [' ', '\t', '\n', '\x0b', '\x0c', '\r'].all
      (fun c => digitValue c = 16 ∧ c ≠ 'x' ∧ c ≠ 'X') = true := by
    decide
  obtain ⟨hvalue, hx⟩ := of_decide_eq_true (List.all_eq_true.mp hall c hspace)
  refine ⟨decide_eq_false ?_, hx⟩
  omega

theorem isSpace_of_isDigit {base : Nat} {c : Char} (hbase : base ≤ 16) (h : isDigit base c = true) :
    isSpace c = false := by
  cases hspace : isSpace c with
  | false => rfl
  | true =>
      have hbreaks : Breaks [c] := fun _ hc => Option.some.inj hc ▸ hspace
      exact absurd h (Bool.not_eq_true _ ▸ (hbreaks.ends hbase c rfl).1)

/-- A number that is the whole text. -/
theorem scan_digits {base : Nat} {digits : List Char} (hbase : base ≤ 16)
    (hdigits : ∀ c ∈ digits, isDigit base c = true) (hne : digits ≠ []) :
    scan base (digits.dropWhile isSpace) = (false, digits, []) := by
  have hdrop : digits.dropWhile isSpace = digits := by
    obtain ⟨c, digits, rfl⟩ := List.exists_cons_of_ne_nil hne
    rw [List.dropWhile_cons_of_neg]
    simp [isSpace_of_isDigit hbase (hdigits c (List.mem_cons_self ..))]
  have hend : Breaks [] := fun _ hc => absurd hc nofun
  have hscan := scan_append hbase hdigits hne (hend.ends hbase)
  rw [List.append_nil] at hscan
  rw [hdrop, hscan]

variable {space : List Char} (hspace : ∀ c ∈ space, isSpace c = true)

include hspace

theorem sentry_append {c : Char} (hc : isSpace c = false) (text : List Char) :
    sentry { rest := space ++ c :: text } = (true, { rest := c :: text }) := by
  have hdrop : (space ++ c :: text).dropWhile isSpace = c :: text := by
    rw [List.dropWhile_append_of_pos hspace, List.dropWhile_cons_of_neg (by simp [hc])]
  unfold sentry
  rw [if_pos (by rfl), hdrop]

theorem sentry_end :
    sentry { rest := space } = (false, { rest := [], eof := true, fail := true }) := by
  have hdrop : space.dropWhile isSpace = [] := by
    rw [← List.append_nil space, List.dropWhile_append_of_pos hspace, List.dropWhile_nil]
  unfold sentry
  rw [if_pos (by rfl), hdrop]

theorem readUnsigned_append {base bits : Nat} {text digits rest : List Char}
    (htext : ∀ c ∈ text.head?, isSpace c = false) (hscan : scan base text = (false, digits, rest))
    (hne : digits ≠ []) (hlt : value base digits < 2 ^ bits) (old : Nat) :
    readUnsigned base bits old { rest := space ++ text } =
      (value base digits, { rest := rest, eof := rest.isEmpty }) := by
  cases text with
  | nil =>
      -- no digits can be found in an empty text
      simp [scan, splitSign, dropBase] at hscan
      exact absurd hscan.1 hne
  | cons c text =>
      unfold readUnsigned
      rw [sentry_append hspace (htext c rfl)]
      dsimp only
      rw [hscan]
      dsimp only
      rw [if_neg hne, if_neg (Nat.not_le.mpr hlt)]
      rfl

theorem readWord_append {word rest : List Char} (hword : ∀ c ∈ word, isSpace c = false)
    (hne : word ≠ []) (hrest : Breaks rest) (old : List Char) :
    readWord old { rest := space ++ (word ++ rest) } =
      (word, { rest := rest, eof := rest.isEmpty }) := by
  have hpos : ∀ c ∈ word, (!isSpace c) = true := fun c hc => by rw [hword c hc]; rfl
  have htail : rest.takeWhile (fun c => !isSpace c) = [] ∧
      rest.dropWhile (fun c => !isSpace c) = rest := by
    cases rest with
    | nil => exact ⟨rfl, rfl⟩
    | cons c rest => simp [hrest c rfl]
  have htake : (word ++ rest).takeWhile (fun c => !isSpace c) = word := by
    rw [List.takeWhile_append_of_pos hpos, htail.1, List.append_nil]
  have hdrop : (word ++ rest).dropWhile (fun c => !isSpace c) = rest := by
    rw [List.dropWhile_append_of_pos hpos, htail.2]
  obtain ⟨c, word, rfl⟩ := List.exists_cons_of_ne_nil hne
  unfold readWord
  rw [List.cons_append, sentry_append hspace (hword c (List.mem_cons_self ..))]
  dsimp only
  rw [← List.cons_append, htake, hdrop]

end InputStream

end Library
