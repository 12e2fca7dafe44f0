import Mathlib.Data.List.Basic

/-!
# Lines of fields

A line is made of fields that are padded with blanks to a width and separated by a blank.
Splitting at the blanks, without the empty pieces, gives the fields back if none of them is empty
or has a blank in it (`fields_padLeft_append`, `fields_padRight_append`).
-/

namespace Library

namespace Fields

/-- A field at the right end of its column. -/
def padLeft (width : Nat) (field : List Char) : List Char :=
  List.replicate (width - field.length) ' ' ++ field

/-- A field at the left end of its column. -/
def padRight (width : Nat) (field : List Char) : List Char :=
  field ++ List.replicate (width - field.length) ' '

/-- The pieces of a line between the blanks. -/
def fields (line : List Char) : List (List Char) :=
  (line.splitOnP (· == ' ')).filter fun piece => !piece.isEmpty

/-- A field that can be found again. -/
structure IsField (field : List Char) : Prop where
  ne_nil : field ≠ []
  no_blank : ' ' ∉ field

theorem fields_cons_blank (line : List Char) : fields (' ' :: line) = fields line := by
  have hnil : ∀ c ∈ ([] : List Char), (c == ' ') = false := fun _ hc => absurd hc List.not_mem_nil
  have hsplit := List.splitOnP_append_cons_of_forall_mem hnil ' ' rfl line
  unfold fields
  rw [← List.nil_append (' ' :: line), hsplit]
  rfl

theorem fields_blanks_append (n : Nat) (line : List Char) :
    fields (List.replicate n ' ' ++ line) = fields line := by
  induction n with
  | zero => rfl
  | succ n ih => rw [List.replicate_succ, List.cons_append, fields_cons_blank, ih]

variable {field : List Char} (hfield : IsField field)

include hfield

theorem IsField.forall_ne : ∀ c ∈ field, (c == ' ') = false := by
  intro c hc
  exact beq_false_of_ne fun heq => hfield.no_blank (heq ▸ hc)

theorem fields_append_blank (line : List Char) :
    fields (field ++ ' ' :: line) = field :: fields line := by
  unfold fields
  rw [List.splitOnP_append_cons_of_forall_mem hfield.forall_ne ' ' rfl, List.filter_cons_of_pos]
  simpa using hfield.ne_nil

theorem fields_padLeft_append (width : Nat) (line : List Char) :
    fields (padLeft width field ++ ' ' :: line) = field :: fields line := by
  rw [padLeft, List.append_assoc, fields_blanks_append, fields_append_blank hfield]

theorem fields_padRight_append (width : Nat) (line : List Char) :
    fields (padRight width field ++ ' ' :: line) = field :: fields line := by
  have hblanks : List.replicate (width - field.length) ' ' ++ ' ' :: line =
      ' ' :: (List.replicate (width - field.length) ' ' ++ line) := by
    rw [← List.cons_append, ← List.replicate_succ, List.replicate_succ', List.append_assoc]
    rfl
  rw [padRight, List.append_assoc, hblanks, fields_append_blank hfield, fields_blanks_append]

/-- The last field of a line. -/
theorem fields_padLeft (width : Nat) : fields (padLeft width field) = [field] := by
  rw [padLeft, fields_blanks_append]
  unfold fields
  rw [List.splitOnP_eq_singleton hfield.forall_ne, List.filter_cons_of_pos]
  · rfl
  · simpa using hfield.ne_nil

end Fields

end Library
