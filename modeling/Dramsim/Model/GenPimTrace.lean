import Mathlib.Data.Nat.Log
import Mathlib.Data.Rat.Floor

/-!
# The generator of PIM traces

`gen_pim_trace2.py` turns a workload file into the PIM words of a trace.  The first line
of the file configures the dataflow, and each further line holds the dimensions of the
workload of one cut.  A word is built as a sum of fields, each with its power of two,
and truncated by `int` when it is written.

Numbers of the script are rationals.  `math.log` is only used on powers of two, where it
is taken as exact.
-/

namespace Dramsim

namespace GenPimTrace

/-- The dimensions of one cut, `M, K, N`. -/
structure Dims where
  M : Nat
  K : Nat
  N : Nat
deriving DecidableEq, Repr

/-- `enumerate(dims)`. -/
def Dims.enumerate (dims : Dims) : List (Nat × Nat) := [(0, dims.M), (1, dims.K), (2, dims.N)]

/-- A workload file.  Its `post_delay` is not used by the script. -/
structure Workload where
  cutV : Nat
  cutH : Nat
  tileM : Nat
  mcf : Nat
  ucf : Nat
  df : Nat
  dims : List Dims
deriving DecidableEq, Repr

/-- `int`, which truncates. -/
def int (q : ℚ) : ℤ := if q < 0 then ⌈q⌉ else ⌊q⌋

/-- `math.log(n, 2)`. -/
def log (n : Nat) : ℚ := Nat.log 2 n

variable (w : Workload)

/-- The word that configures the dataflow. -/
def cutaddr : ℚ :=
  3 * 2 ^ 5 + log w.cutV * 2 ^ 7 + log w.cutH * 2 ^ 10 + log w.mcf * 2 ^ 11 + log w.ucf * 2 ^ 14 +
    w.df * 2 ^ 17 + log w.tileM * 2 ^ 18

/-- The value that a word loads for the dimension with number `j`. -/
def dimValue (j dim : Nat) : ℚ :=
  -- GEMM interleaving
  let dim : ℚ := if w.df = 0 ∧ j = 0 then int (dim / 2) else dim
  if w.df = 1 then
    if j = 0 then max 1 (dim / w.mcf)
    else if j = 1 then max 1 (dim / w.ucf)
    else dim * w.ucf
  else dim

/-- The base row that a word loads with the dimension with number `j`. -/
def baseRow (dims : Dims) (j : Nat) : ℤ :=
  if w.df = 0 ∧ j ≠ 0 then int ((dims.K * dims.N : ℕ) / 1024) + 1
  else if w.df = 1 ∧ j ≠ 2 then int ((dims.M * dims.K : ℕ) / 1024) + 1
  else 0

/-- The word that loads a dimension of cut `i`. -/
def loadaddr (i : Nat) (dims : Dims) (j dim : Nat) : ℚ :=
  i * 2 ^ 1 + j * 2 ^ 5 + dimValue w j dim * 2 ^ 7 + baseRow w dims j * 2 ^ 39

/-- The word that launches all cuts. -/
def compaddr : ℚ := 1 + (2 ^ (w.cutV * w.cutH) - 1) * 2 ^ 1

/-- The words of `gen_pim_trace`, as `hex(int(addr))` writes them. -/
def genPimTrace : List Nat :=
  let loadaddrs := w.dims.zipIdx.flatMap fun (dims, i) =>
    dims.enumerate.map fun (j, dim) => loadaddr w i dims j dim
  (cutaddr w :: loadaddrs ++ [compaddr w]).map fun addr => (int addr).toNat

end GenPimTrace

end Dramsim
