import Dramsim.Memory.Runs
import Dramsim.Model.Cpu

/-!
# Trace replay

What a `TraceBasedCPU` submits to a memory system that accepts everything.

*Lines.*  A well-formed line is read as the transaction that it describes (`extract_line`).  The
extraction of its cycle leaves the end of the line unread; without one it has seen the end of the
file.

*Ticks.*  A CPU is about to read a line, or waits for the cycle of the line that it has read, or
will not submit anything any more (`Ahead`).  Every tick keeps this, and after any number of ticks
the submitted transactions are those of `replayed` (`submitted_ticks`).

*Faithfulness.*  A line with `READ` sets `active` to false, so it is not submitted and no line is
read after it.  At a line that ends with the file, the next tick finds the end of the file before it
looks at the transaction, so it must be due in the cycle in which it is read.  These are the only
ways in which a trace is not replayed (`trace_replay_faithful`).
-/

namespace Dramsim

variable {entries : List (TraceLine × Nat)} {space : List Char}

open Library (InputStream)
open Library.InputStream (isSpace Breaks)
open Library.Numerals (isDigit value)

/-! ## Lines -/

/-- The name of an operation. -/
def TraceOp.text : TraceOp → List Char
  | .read => ['R', 'E', 'A', 'D']
  | .write => ['W', 'R', 'I', 'T', 'E']
  | .pim => ['P', 'I', 'M']

/-- Blanks between the parts of a line. -/
structure Gap where
  chars : List Char
  ne_nil : chars ≠ []
  blank : ∀ c ∈ chars, c = ' ' ∨ c = '\t'

/-- A number of 64 bits, as it is written in a base. -/
structure Numeral (base : Nat) where
  digits : List Char
  ne_nil : digits ≠ []
  isDigit : ∀ c ∈ digits, isDigit base c = true
  lt : value base digits < 2 ^ 64

/-- A line of a trace. -/
structure TraceLine where
  /-- `0x`, if it is there. -/
  hex : List Char
  addrText : Numeral 16
  gap : Gap
  op : TraceOp
  gap₂ : Gap
  cycleText : Numeral 10
  hex_mem : hex ∈ [[], ['0', 'x'], ['0', 'X']]

namespace TraceLine

def addr (l : TraceLine) : Nat := value 16 l.addrText.digits

def cycle (l : TraceLine) : Nat := value 10 l.cycleText.digits

def text (l : TraceLine) : List Char :=
  l.hex ++ (l.addrText.digits ++
    (l.gap.chars ++ (l.op.text ++ (l.gap₂.chars ++ l.cycleText.digits))))

/-- What is extracted from a line. -/
def transaction (l : TraceLine) : TraceTransaction where
  addr := l.addr
  addedCycle := l.cycle
  isWrite := l.op = .write
  isPim := l.op = .pim
  active := l.op ≠ .read

end TraceLine

theorem Gap.isSpace (g : Gap) : ∀ c ∈ g.chars, isSpace c = true := by
  intro c hc
  rcases g.blank c hc with rfl | rfl <;> decide

theorem Gap.breaks (g : Gap) (rest : List Char) : Breaks (g.chars ++ rest) := by
  obtain ⟨c, chars, hchars⟩ := List.exists_cons_of_ne_nil g.ne_nil
  rw [hchars]
  rintro _ ⟨⟩
  exact g.isSpace c (hchars ▸ List.mem_cons_self ..)

theorem Gap.isEmpty_append (g : Gap) (rest : List Char) : (g.chars ++ rest).isEmpty = false := by
  obtain ⟨c, chars, hchars⟩ := List.exists_cons_of_ne_nil g.ne_nil
  rw [hchars]
  rfl

theorem Numeral.isSpace_head {base : Nat} (n : Numeral base) (hbase : base ≤ 16)
    (rest : List Char) : ∀ c ∈ (n.digits ++ rest).head?, isSpace c = false := by
  obtain ⟨c, digits, hdigits⟩ := List.exists_cons_of_ne_nil n.ne_nil
  rw [hdigits]
  rintro _ ⟨⟩
  exact Library.InputStream.isSpace_of_isDigit hbase (n.isDigit c (hdigits ▸ List.mem_cons_self ..))

section

variable {space rest : List Char} (hspace : ∀ c ∈ space, isSpace c = true) (hrest : Breaks rest)

include hspace hrest

/-- The address of a line, with or without `0x`. -/
theorem readUnsigned_addr (l : TraceLine) (old : Nat) :
    InputStream.readUnsigned 16 64 old { rest := space ++ (l.hex ++ (l.addrText.digits ++ rest)) } =
      (l.addr, { rest := rest, eof := rest.isEmpty }) := by
  have hends := hrest.ends (Nat.le_refl 16)
  have hscan : Library.Numerals.scan 16 (l.hex ++ (l.addrText.digits ++ rest)) =
      (false, l.addrText.digits, rest) := by
    have hhex := l.hex_mem
    simp only [List.mem_cons, List.not_mem_nil, or_false] at hhex
    rcases hhex with h | h | h <;> rw [h]
    · exact Library.Numerals.scan_append (Nat.le_refl 16) l.addrText.isDigit l.addrText.ne_nil hends
    · exact Library.Numerals.scan_hex_append (.inl rfl) l.addrText.isDigit hends
    · exact Library.Numerals.scan_hex_append (.inr rfl) l.addrText.isDigit hends
  have hhead : ∀ c ∈ (l.hex ++ (l.addrText.digits ++ rest)).head?, isSpace c = false := by
    have hhex := l.hex_mem
    simp only [List.mem_cons, List.not_mem_nil, or_false] at hhex
    rcases hhex with h | h | h <;> rw [h]
    · exact l.addrText.isSpace_head (Nat.le_refl 16) rest
    · rintro _ ⟨⟩
      decide
    · rintro _ ⟨⟩
      decide
  exact Library.InputStream.readUnsigned_append hspace hhead hscan l.addrText.ne_nil
    l.addrText.lt old

theorem readUnsigned_cycle (l : TraceLine) (old : Nat) :
    InputStream.readUnsigned 10 64 old { rest := space ++ (l.cycleText.digits ++ rest) } =
      (l.cycle, { rest := rest, eof := rest.isEmpty }) := by
  have hscan := Library.Numerals.scan_append (by decide) l.cycleText.isDigit l.cycleText.ne_nil
    (hrest.ends (by decide))
  exact Library.InputStream.readUnsigned_append hspace (l.cycleText.isSpace_head (by decide) rest)
    hscan l.cycleText.ne_nil l.cycleText.lt old

theorem readWord_op (op : TraceOp) (old : List Char) :
    InputStream.readWord old { rest := space ++ (op.text ++ rest) } =
      (op.text, { rest := rest, eof := rest.isEmpty }) := by
  have hword : op.text.all (fun c => !isSpace c) = true := by cases op <;> decide
  refine Library.InputStream.readWord_append hspace (fun c hc => ?_) ?_ hrest old
  · simpa using List.all_eq_true.mp hword c hc
  · cases op <;> exact List.cons_ne_nil _ _

/-- A line is read up to its end. -/
theorem extract_line (l : TraceLine) (trans : TraceTransaction) :
    TraceTransaction.extract { rest := space ++ (l.text ++ rest) } trans =
      ({ rest := rest, eof := rest.isEmpty }, l.transaction) := by
  have htext : space ++ (l.text ++ rest) = space ++ (l.hex ++ (l.addrText.digits ++
      (l.gap.chars ++ (l.op.text ++ (l.gap₂.chars ++ (l.cycleText.digits ++ rest)))))) := by
    simp [TraceLine.text]
  rw [htext]
  unfold TraceTransaction.extract
  rw [readUnsigned_addr hspace (l.gap.breaks _), l.gap.isEmpty_append]
  dsimp only
  rw [readWord_op l.gap.isSpace (l.gap₂.breaks _), l.gap₂.isEmpty_append]
  dsimp only
  rw [readUnsigned_cycle l.gap₂.isSpace hrest]
  obtain ⟨hex, addrText, gap, op, gap₂, cycleText, hex_mem⟩ := l
  cases op <;> rfl

end

/-- At the end of the file nothing is read. -/
theorem extract_end (hspace : ∀ c ∈ space, isSpace c = true) (trans : TraceTransaction) :
    TraceTransaction.extract { rest := space } trans =
      ({ rest := [], eof := true, fail := true },
        { addr := trans.addr, addedCycle := trans.addedCycle }) := by
  unfold TraceTransaction.extract InputStream.readUnsigned InputStream.readWord
  rw [Library.InputStream.sentry_end hspace]
  rfl

/-! ## Traces -/

/-- The line before the given ones ends with the file. -/
def endsFile (newline : Bool) (lines : List TraceLine) : Bool := lines.isEmpty && !newline

/-- The text of a trace, with or without a final newline. -/
def traceText (newline : Bool) : List TraceLine → List Char
  | [] => []
  | l :: lines => l.text ++ if endsFile newline lines then [] else '\n' :: traceText newline lines

/-- The lines of a trace with the cycles in which they are to be submitted, from some cycle on. -/
def due (first : Nat) : List TraceLine → List (TraceLine × Nat)
  | [] => []
  | l :: lines => (l, max l.cycle first) :: due (max l.cycle first + 1) lines

/-- The lines of a trace that are submitted, with the cycles. -/
def replayed (newline : Bool) (first : Nat) : List TraceLine → List (TraceLine × Nat)
  | [] => []
  | l :: lines =>
      if l.op = .read ∨ (endsFile newline lines = true ∧ first < l.cycle) then []
      else (l, max l.cycle first) :: replayed newline (max l.cycle first + 1) lines

/-- The transactions of the lines before a cycle. -/
def transactionsBefore (n : Nat) (lines : List (TraceLine × Nat)) : List (Nat × TraceOp) :=
  (lines.filter fun e => e.2 < n).map fun e => (e.1.addr, e.1.op)

theorem replayed_ge (newline : Bool) : ∀ (lines : List TraceLine) (first : Nat),
    ∀ e ∈ replayed newline first lines, first ≤ e.2
  | [], _, _, he => absurd he List.not_mem_nil
  | l :: lines, first, e, he => by
      rw [replayed] at he
      split at he
      · exact absurd he List.not_mem_nil
      · rcases List.mem_cons.mp he with rfl | he
        · exact Nat.le_max_right ..
        · have hlater := replayed_ge newline lines _ e he
          omega

/-- A memory system that accepts every transaction. -/
structure MemoryInterface.AcceptsAll {μ : Type} (mem : MemoryInterface μ) : Prop where
  transactions : ∀ m addr isWrite, mem.willAcceptTransaction m addr isWrite = true
  pims : ∀ m, mem.willAcceptPim m = true

namespace TraceBasedCPU

variable {μ : Type} {mem : MemoryInterface μ} {newline : Bool} {cpu cpu' : TraceBasedCPU μ}
  {l : TraceLine} {lines : List TraceLine}

/-- A line has been read, and the given ones follow. -/
structure Loaded (newline : Bool) (l : TraceLine) (lines : List TraceLine)
    (cpu : TraceBasedCPU μ) : Prop where
  getNext : cpu.getNext = false
  trans : cpu.trans = l.transaction
  traceFile : cpu.traceFile =
    if endsFile newline lines then { rest := [], eof := true }
    else { rest := '\n' :: traceText newline lines }

/-- What is going to be submitted. -/
inductive Ahead (newline : Bool) (cpu : TraceBasedCPU μ) : List (TraceLine × Nat) → Prop where
  /-- The next line is going to be read. -/
  | reads {space : List Char} {lines : List TraceLine} : cpu.getNext = true →
      (∀ c ∈ space, isSpace c = true) →
      cpu.traceFile = { rest := space ++ traceText newline lines } →
      Ahead newline cpu (replayed newline cpu.clk lines)
  /-- A line has been read and is not due. -/
  | waits {l : TraceLine} {lines : List TraceLine} : Loaded newline l lines cpu →
      endsFile newline lines = false → Ahead newline cpu (replayed newline cpu.clk (l :: lines))
  /-- The end of the file has been found, or a line that is never submitted. -/
  | ended : cpu.traceFile.eof = true ∨ (cpu.getNext = false ∧ cpu.trans.active = false) →
      Ahead newline cpu []

theorem Ahead.ge (h : Ahead newline cpu entries) : ∀ e ∈ entries, cpu.clk ≤ e.2 := by
  cases h with
  | reads _ _ _ => exact replayed_ge newline _ _
  | waits _ _ => exact replayed_ge newline _ _
  | ended _ => exact fun _ he => absurd he List.not_mem_nil

/-- A tick submits nothing, or the next line. -/
inductive Submits (clk : Nat) (submitted submitted' : List (Nat × TraceOp)) :
    List (TraceLine × Nat) → List (TraceLine × Nat) → Prop where
  | none {entries : List (TraceLine × Nat)} : submitted' = submitted →
      Submits clk submitted submitted' entries entries
  | next {l : TraceLine} {entries : List (TraceLine × Nat)} :
      submitted' = submitted ++ [(l.addr, l.op)] →
      Submits clk submitted submitted' ((l, clk) :: entries) entries

theorem submit_of_due (hmem : mem.AcceptsAll) (htrans : cpu.trans = l.transaction)
    (hop : l.op ≠ .read) (hdue : l.cycle ≤ cpu.clk) : ∃ m, cpu.submit mem =
      { cpu with
        getNext := true, memory := m, submitted := cpu.submitted ++ [(l.addr, l.op)] } := by
  have hnow : cpu.trans.addedCycle ≤ cpu.clk ∧ cpu.trans.active := by
    rw [htrans]
    exact ⟨hdue, decide_eq_true hop⟩
  unfold submit
  rw [if_pos hnow, htrans, hmem.transactions, hmem.pims, if_pos rfl, if_pos rfl]
  obtain ⟨hex, addrText, gap, op, gap₂, cycleText, hex_mem⟩ := l
  cases op with
  | read => exact absurd rfl hop
  | write => exact ⟨_, if_pos rfl⟩
  | pim => exact ⟨_, if_neg Bool.false_ne_true⟩

/-- The second half of a tick, when a line has been read. -/
theorem Loaded.submit (hmem : mem.AcceptsAll) (h : Loaded newline l lines cpu)
    (hcpu' : cpu' = { cpu.submit mem with clk := cpu.clk + 1 }) : ∃ entries,
      Submits cpu.clk cpu.submitted cpu'.submitted (replayed newline cpu.clk (l :: lines)) entries ∧
        Ahead newline cpu' entries := by
  by_cases hread : l.op = .read
  · have hactive : cpu.trans.active = false := by simp [h.trans, TraceLine.transaction, hread]
    have hidle : cpu.submit mem = cpu := if_neg (by simp [hactive])
    rw [hidle] at hcpu'
    subst hcpu'
    rw [replayed, if_pos (.inl hread)]
    exact ⟨[], .none rfl, .ended (.inr ⟨h.getNext, hactive⟩)⟩
  · by_cases hdue : l.cycle ≤ cpu.clk
    · obtain ⟨m, hsubmit⟩ := submit_of_due hmem h.trans hread hdue
      rw [hsubmit] at hcpu'
      subst hcpu'
      rw [replayed, if_neg (by simp [hread, Nat.not_lt.mpr hdue]), Nat.max_eq_right hdue]
      refine ⟨_, .next rfl, ?_⟩
      cases hends : endsFile newline lines with
      | true =>
          have hlines : lines = [] := by simp_all [endsFile]
          subst hlines
          exact .ended (.inl (by simp [h.traceFile, hends]))
      | false =>
          refine .reads rfl (List.forall_mem_singleton.mpr (show isSpace '\n' = true from rfl)) ?_
          simp [h.traceFile, hends]
    · have hnot : ¬ (cpu.trans.addedCycle ≤ cpu.clk ∧ cpu.trans.active) := by
        rw [h.trans]
        exact fun hnow => hdue hnow.1
      have hidle : cpu.submit mem = cpu := if_neg hnot
      rw [hidle] at hcpu'
      subst hcpu'
      cases hends : endsFile newline lines with
      | true =>
          rw [replayed, if_pos (.inr ⟨hends, Nat.not_le.mp hdue⟩)]
          exact ⟨[], .none rfl, .ended (.inl (by simp [h.traceFile, hends]))⟩
      | false =>
          have hlater : replayed newline cpu.clk (l :: lines) =
              replayed newline (cpu.clk + 1) (l :: lines) := by
            rw [replayed, replayed, Nat.max_eq_left (by omega), Nat.max_eq_left (by omega)]
            simp [hends, hread]
          rw [hlater]
          exact ⟨_, .none rfl, .waits ⟨h.getNext, h.trans, h.traceFile⟩ hends⟩

theorem submit_clk (cpu : TraceBasedCPU μ) : (cpu.submit mem).clk = cpu.clk := by
  unfold TraceBasedCPU.submit
  repeat' split
  all_goals rfl

/-- A tick after that of the memory system. -/
def advance (mem : MemoryInterface μ) (cpu : TraceBasedCPU μ) : TraceBasedCPU μ :=
  { (if !cpu.traceFile.eof then cpu.fetch.submit mem else cpu) with clk := cpu.clk + 1 }

theorem clockTick_eq (cpu : TraceBasedCPU μ) :
    cpu.clockTick mem = advance mem { cpu with memory := mem.clockTick cpu.memory } := by
  have hfetch (cpu : TraceBasedCPU μ) : cpu.fetch.clk = cpu.clk := by
    unfold fetch
    split <;> rfl
  unfold TraceBasedCPU.clockTick advance
  dsimp only
  split
  · rw [submit_clk, hfetch]
  · rfl

theorem advance_of_eof (h : cpu.traceFile.eof = true) :
    advance mem cpu = { cpu with clk := cpu.clk + 1 } := by
  unfold advance
  rw [if_neg (by simp [h])]

theorem advance_of_not_eof (h : cpu.traceFile.eof = false) :
    advance mem cpu = { cpu.fetch.submit mem with clk := cpu.clk + 1 } := by
  unfold advance
  rw [if_pos (by simp [h])]

theorem fetch_of_not (h : cpu.getNext = false) : cpu.fetch = cpu := if_neg (by simp [h])

theorem submit_of_not_active (h : cpu.trans.active = false) : cpu.submit mem = cpu :=
  if_neg (by simp [h])

/-- Reading a line. -/
theorem fetch_line (hnext : cpu.getNext = true) (hspace : ∀ c ∈ space, isSpace c = true)
    (hfile : cpu.traceFile = { rest := space ++ traceText newline (l :: lines) }) :
    Loaded newline l lines cpu.fetch ∧ cpu.fetch.clk = cpu.clk ∧
      cpu.fetch.submitted = cpu.submitted := by
  have hbreaks :
      Breaks (if endsFile newline lines then [] else '\n' :: traceText newline lines) := by
    split
    · exact fun _ hc => absurd hc nofun
    · rintro _ ⟨⟩
      decide
  have hextract := extract_line hspace hbreaks l cpu.trans
  unfold fetch
  rw [if_pos hnext, hfile, traceText, hextract]
  refine ⟨⟨rfl, rfl, ?_⟩, rfl, rfl⟩
  dsimp only
  split <;> rfl

/-- At the end of the file. -/
theorem fetch_end (hnext : cpu.getNext = true) (hspace : ∀ c ∈ space, isSpace c = true)
    (hfile : cpu.traceFile = { rest := space }) :
    cpu.fetch.traceFile.eof = true ∧ cpu.fetch.trans.active = false ∧
      cpu.fetch.submitted = cpu.submitted := by
  unfold fetch
  rw [if_pos hnext, hfile, extract_end hspace]
  exact ⟨rfl, rfl, rfl⟩

theorem Ahead.advance (hmem : mem.AcceptsAll) (h : Ahead newline cpu entries) : ∃ entries',
      Submits cpu.clk cpu.submitted (advance mem cpu).submitted entries entries' ∧
        Ahead newline (advance mem cpu) entries' := by
  cases h with
  | ended hended =>
      cases heof : cpu.traceFile.eof with
      | true =>
          rw [advance_of_eof heof]
          exact ⟨[], .none rfl, .ended (.inl heof)⟩
      | false =>
          obtain ⟨hnext, hactive⟩ := hended.resolve_left (by simp [heof])
          rw [advance_of_not_eof heof, fetch_of_not hnext, submit_of_not_active hactive]
          exact ⟨[], .none rfl, .ended (.inr ⟨hnext, hactive⟩)⟩
  | waits hloaded hends =>
      have heof : cpu.traceFile.eof = false := by simp [hloaded.traceFile, hends]
      refine hloaded.submit hmem ?_
      rw [advance_of_not_eof heof, fetch_of_not hloaded.getNext]
  | @reads space lines hnext hspace hfile =>
      have heof : cpu.traceFile.eof = false := by rw [hfile]
      rw [advance_of_not_eof heof]
      cases lines with
      | nil =>
          rw [traceText, List.append_nil] at hfile
          obtain ⟨hend, hactive, hsubmitted⟩ := fetch_end hnext hspace hfile
          rw [submit_of_not_active hactive]
          exact ⟨[], .none hsubmitted, .ended (.inl hend)⟩
      | cons l lines =>
          obtain ⟨hloaded, hclk, hsubmitted⟩ := fetch_line hnext hspace hfile
          have hstep := hloaded.submit hmem rfl
          rw [hclk, hsubmitted] at hstep
          exact hstep

/-- What a tick does. -/
theorem Ahead.clockTick (hmem : mem.AcceptsAll) (h : Ahead newline cpu entries) : ∃ entries',
      Submits cpu.clk cpu.submitted (cpu.clockTick mem).submitted entries entries' ∧
        Ahead newline (cpu.clockTick mem) entries' := by
  have hmemory : Ahead newline { cpu with memory := mem.clockTick cpu.memory } entries := by
    cases h with
    | reads hnext hspace hfile => exact .reads hnext hspace hfile
    | waits hloaded hends => exact .waits ⟨hloaded.getNext, hloaded.trans, hloaded.traceFile⟩ hends
    | ended hended => exact .ended hended
  rw [clockTick_eq]
  exact hmemory.advance hmem

/-! ## Runs -/

/-- A CPU that opens a trace file. -/
def opening (m : μ) (text : List Char) : TraceBasedCPU μ where
  memory := m
  traceFile := { rest := text }

/-- A CPU that opens a trace. -/
def start (m : μ) (newline : Bool) (lines : List TraceLine) : TraceBasedCPU μ :=
  opening m (traceText newline lines)

/-- The CPU after some ticks. -/
def ticks (mem : MemoryInterface μ) : Nat → TraceBasedCPU μ → TraceBasedCPU μ
  | 0, cpu => cpu
  | n + 1, cpu => (ticks mem n cpu).clockTick mem

theorem ticks_clk (cpu : TraceBasedCPU μ) : ∀ n, (ticks mem n cpu).clk = cpu.clk + n
  | 0 => rfl
  | n + 1 => by
      have hclk := ticks_clk cpu n
      rw [ticks, clockTick_eq]
      exact congrArg (· + 1) hclk

/-- After some ticks the first lines have been submitted, and the others are ahead. -/
theorem ahead_ticks (hmem : mem.AcceptsAll) (m : μ) (newline : Bool) (lines : List TraceLine) :
    ∀ n, ∃ past entries, replayed newline 0 lines = past ++ entries ∧ (∀ e ∈ past, e.2 < n) ∧
      (ticks mem n (start m newline lines)).submitted = past.map (fun e => (e.1.addr, e.1.op)) ∧
      Ahead newline (ticks mem n (start m newline lines)) entries
  | 0 => by
      have hspace : ∀ c ∈ ([] : List Char), isSpace c = true :=
        fun _ hc => absurd hc List.not_mem_nil
      exact ⟨[], _, rfl, fun _ he => absurd he List.not_mem_nil, rfl, .reads rfl hspace rfl⟩
  | n + 1 => by
      obtain ⟨past, entries, hsplit, hpast, hsubmitted, hahead⟩ :=
        ahead_ticks hmem m newline lines n
      obtain ⟨entries', hstep, hahead'⟩ := hahead.clockTick hmem
      have hclk : (ticks mem n (start m newline lines)).clk = n := by
        rw [ticks_clk]
        exact Nat.zero_add n
      cases hstep with
      | none hsame =>
          refine ⟨past, _, hsplit, fun e he => Nat.lt_succ_of_lt (hpast e he), ?_, hahead'⟩
          rw [ticks, hsame, hsubmitted]
      | @next l _ hnext =>
          refine ⟨past ++ [(l, n)], _, ?_, ?_, ?_, hahead'⟩
          · rw [hsplit, hclk, List.append_assoc]
            rfl
          · intro e he
            rcases List.mem_append.mp he with he | he
            · exact Nat.lt_succ_of_lt (hpast e he)
            · rw [List.mem_singleton.mp he]
              exact Nat.lt_succ_self n
          · rw [ticks, hnext, hsubmitted, List.map_append]
            rfl

/-- The submitted transactions are those of `replayed`. -/
theorem submitted_ticks (hmem : mem.AcceptsAll) (m : μ) (newline : Bool) (lines : List TraceLine)
    (n : Nat) : (ticks mem n (start m newline lines)).submitted =
      transactionsBefore n (replayed newline 0 lines) := by
  obtain ⟨past, entries, hsplit, hpast, hsubmitted, hahead⟩ := ahead_ticks hmem m newline lines n
  have hlater : ∀ e ∈ entries, ¬ e.2 < n := by
    intro e he
    have hge := hahead.ge e he
    rw [ticks_clk] at hge
    exact Nat.not_lt.mpr (Nat.le_of_add_left_le hge)
  rw [hsubmitted, hsplit, transactionsBefore, List.filter_append,
    List.filter_eq_self.mpr (fun e he => decide_eq_true (hpast e he)),
    List.filter_eq_nil_iff.mpr (fun e he => by simpa using hlater e he), List.append_nil]

end TraceBasedCPU

/-! ## Faithfulness -/

/-- The last line is due in the cycle in which it is read. -/
def LastDue (first : Nat) : List TraceLine → Prop
  | [] => True
  | l :: lines => (lines = [] → l.cycle ≤ first) ∧ LastDue (max l.cycle first + 1) lines

theorem replayed_prefix_due (newline : Bool) : ∀ (lines : List TraceLine) (first : Nat),
    replayed newline first lines <+: due first lines
  | [], _ => List.nil_prefix
  | l :: lines, first => by
      rw [replayed, due]
      split
      · exact List.nil_prefix
      · exact (List.prefix_cons_inj _).mpr (replayed_prefix_due newline lines _)

theorem replayed_eq_due_iff (newline : Bool) : ∀ (lines : List TraceLine) (first : Nat),
    replayed newline first lines = due first lines ↔
      (∀ l ∈ lines, l.op ≠ .read) ∧ (newline = true ∨ LastDue first lines)
  | [], _ => by simp [replayed, due, LastDue]
  | l :: lines, first => by
      have hlast : (endsFile newline lines = true ∧ first < l.cycle) ↔
          ¬ (newline = true ∨ (lines = [] → l.cycle ≤ first)) := by
        cases newline <;> simp [endsFile]
      have ih := replayed_eq_due_iff newline lines (max l.cycle first + 1)
      rw [replayed, due, LastDue, List.forall_mem_cons]
      split
      · rename_i hlost
        rw [hlast] at hlost
        simp only [reduceCtorEq, false_iff]
        rintro ⟨⟨hop, _⟩, hend⟩
        exact hlost.elim hop fun hnot => hnot (hend.imp_right And.left)
      · rename_i hkept
        rw [hlast, not_or, not_not] at hkept
        obtain ⟨hop, hend⟩ := hkept
        rw [List.cons.injEq, ih]
        simp only [true_and, hop, ne_eq, not_false_eq_true]
        refine and_congr_right fun _ => ?_
        constructor
        · exact fun h => h.elim .inl fun hrest => hend.imp_right fun hnow => ⟨hnow, hrest⟩
        · exact fun h => h.imp_right And.right

theorem exists_gt_times : ∀ entries : List (TraceLine × Nat), ∃ n, ∀ e ∈ entries, e.2 < n
  | [] => ⟨0, fun _ he => absurd he List.not_mem_nil⟩
  | (l, time) :: entries => by
      obtain ⟨n, hn⟩ := exists_gt_times entries
      refine ⟨max n (time + 1), fun e he => ?_⟩
      rcases List.mem_cons.mp he with rfl | he
      · exact Nat.lt_of_lt_of_le (Nat.lt_succ_self _) (Nat.le_max_right ..)
      · exact Nat.lt_of_lt_of_le (hn e he) (Nat.le_max_left ..)

theorem length_transactionsBefore {n : Nat} (h : ∀ e ∈ entries, e.2 < n) :
    (transactionsBefore n entries).length = entries.length := by
  rw [transactionsBefore, List.length_map,
    List.filter_eq_self.mpr fun e he => decide_eq_true (h e he)]

/-- A trace is replayed faithfully if and only if no line has `READ` and, unless the trace ends with
a newline, its last line is due when it is read. -/
theorem trace_replay_faithful {μ : Type} {mem : MemoryInterface μ} (hmem : mem.AcceptsAll) (m : μ)
    (newline : Bool) (lines : List TraceLine) :
    (∀ n, (TraceBasedCPU.ticks mem n (.start m newline lines)).submitted =
      transactionsBefore n (due 0 lines)) ↔
      (∀ l ∈ lines, l.op ≠ .read) ∧ (newline = true ∨ LastDue 0 lines) := by
  simp only [TraceBasedCPU.submitted_ticks hmem]
  rw [← replayed_eq_due_iff newline lines 0]
  constructor
  · intro h
    have hfirst := replayed_prefix_due newline lines 0
    obtain ⟨n, hn⟩ := exists_gt_times (due 0 lines)
    have hlength := congrArg List.length (h n)
    rw [length_transactionsBefore hn,
      length_transactionsBefore fun e he => hn e (hfirst.subset he)] at hlength
    exact hfirst.eq_of_length hlength
  · exact fun h n => congrArg (transactionsBefore n) h

/-- The numeral of a number. -/
def Numeral.ofUInt64 {base : Nat} (hbase : 1 < base) (hbase' : base ≤ 16) (n : UInt64) :
    Numeral base where
  digits := base.toDigits n.toNat
  ne_nil := Nat.toDigits_ne_nil
  isDigit := Library.Numerals.isDigit_of_mem_toDigits hbase hbase' n.toNat
  lt := (Library.Numerals.value_toDigits hbase hbase' n.toNat).trans_lt n.toNat_lt

/-- The line of a transaction. -/
def TraceLine.ofTransaction (addr : UInt64) (op : TraceOp) (cycle : UInt64) : TraceLine where
  hex := ['0', 'x']
  addrText := .ofUInt64 (Nat.le_of_ble_eq_true rfl) (Nat.le_refl 16) addr
  gap := ⟨[' '], List.cons_ne_nil _ _, fun _ hc => .inl (List.mem_singleton.mp hc)⟩
  op := op
  gap₂ := ⟨[' '], List.cons_ne_nil _ _, fun _ hc => .inl (List.mem_singleton.mp hc)⟩
  cycleText := .ofUInt64 (Nat.le_of_ble_eq_true rfl) (Nat.le_of_ble_eq_true rfl) cycle
  hex_mem := List.mem_cons_of_mem _ (List.mem_cons_self ..)

/-- A memory system without state that accepts everything. -/
def MemoryInterface.accepting : MemoryInterface Unit where
  clockTick := id
  willAcceptTransaction _ _ _ := true
  addTransaction _ _ _ := ()
  willAcceptPim _ := true
  addPim _ _ := ()

/-- A write and a kernel word, with a final newline. -/
theorem trace_replay_faithful_write :
    (fun n => (TraceBasedCPU.ticks .accepting n
      (.start () true [.ofTransaction 64 .write 3, .ofTransaction 99 .pim 2])).submitted) =
      fun n => transactionsBefore n (due 0
        [.ofTransaction 64 .write 3, .ofTransaction 99 .pim 2]) := by
  have haccepts : MemoryInterface.accepting.AcceptsAll := ⟨fun _ _ _ => rfl, fun _ => rfl⟩
  refine funext ((trace_replay_faithful haccepts () true _).mpr ⟨?_, .inl rfl⟩)
  simp [TraceLine.ofTransaction]

/-- The first line of the sample trace is never submitted, and neither is a write for cycle 5 in a
trace without a final newline. -/
theorem trace_replay_lost :
    (TraceBasedCPU.ticks .accepting 31
      (.start () true [.ofTransaction 0x2000D5C0 .read 30])).submitted = [] ∧
    transactionsBefore 31 (due 0 [.ofTransaction 0x2000D5C0 .read 30]) = [(0x2000D5C0, .read)] ∧
    (TraceBasedCPU.ticks .accepting 6
      (.start () false [.ofTransaction 64 .write 5])).submitted = [] ∧
    transactionsBefore 6 (due 0 [.ofTransaction 64 .write 5]) = [(64, .write)] := by
  decide +kernel

/-! ## The memory system of a trace -/

/-- The transaction that an operation adds. -/
def SystemOp.added : SystemOp → Option (Nat × TraceOp)
  | .addPim hexAddr => some (hexAddr, .pim)
  | .add hexAddr isWrite => some (hexAddr, if isWrite then .write else .read)
  | .tick => none

namespace TraceBasedCPU

variable {config : Config} {cpu : TraceBasedCPU (Except Exit (JedecDRAMSystem config))}

/-- The memory system is in a state that the submitted transactions lead to. -/
def Drives (cpu : TraceBasedCPU (Except Exit (JedecDRAMSystem config))) : Prop :=
  ∀ s, cpu.memory = .ok s → ∃ ops, (memorySystem config).Run ops s ∧
    ops.filterMap SystemOp.added = cpu.submitted

/-- An operation that adds a transaction. -/
theorem drives_add {m : Except Exit (JedecDRAMSystem config)} {submitted : List (Nat × TraceOp)}
    {trans : Nat × TraceOp} {f : JedecDRAMSystem config → JedecDRAMSystem config}
    (op : SystemOp) (hop : op.added = some trans)
    (hstep : ∀ s, m = .ok s → (memorySystem config).step s op (f s))
    (h : ∀ s, m = .ok s → ∃ ops, (memorySystem config).Run ops s ∧
      ops.filterMap SystemOp.added = submitted)
    {s : JedecDRAMSystem config} (hs : m.map f = .ok s) :
    ∃ ops, (memorySystem config).Run ops s ∧
      ops.filterMap SystemOp.added = submitted ++ [trans] := by
  cases m with
  | error e => cases hs
  | ok s₀ =>
      obtain ⟨ops, hrun, hops⟩ := h s₀ rfl
      cases hs
      exact ⟨_, hrun.step (hstep s₀ rfl), by simp [hops, hop]⟩

theorem Drives.submit (h : Drives cpu) : Drives (cpu.submit (.jedec config)) := by
  unfold TraceBasedCPU.submit
  split
  · split
    · split
      · rename_i haccept
        intro s hs
        refine drives_add (.add cpu.trans.addr cpu.trans.isWrite) rfl (fun s₀ hs₀ => ⟨?_, rfl⟩) h hs
        simpa [MemoryInterface.jedec, hs₀, Except.toOption] using haccept
      · exact h
    · split
      · rename_i haccept
        intro s hs
        refine drives_add (.addPim cpu.trans.addr) rfl (fun s₀ hs₀ => ⟨?_, rfl⟩) h hs
        simpa [MemoryInterface.jedec, hs₀, Except.toOption] using haccept
      · exact h
  · exact h

theorem Drives.clockTick (h : Drives cpu) : Drives (cpu.clockTick (.jedec config)) := by
  have hmemory :
      Drives { cpu with memory := (MemoryInterface.jedec config).clockTick cpu.memory } := by
    intro s hs
    obtain ⟨s₀, hs₀, htick⟩ := Library.bind_eq_ok.mp hs
    obtain ⟨ops, hrun, hops⟩ := h s₀ hs₀
    have hstep : (memorySystem config).step s₀ .tick s := htick
    exact ⟨_, hrun.step hstep, by simp [hops, SystemOp.added]⟩
  have hfetch : Drives (fetch
      { cpu with memory := (MemoryInterface.jedec config).clockTick cpu.memory }) := by
    unfold fetch
    split <;> exact hmemory
  rw [clockTick_eq]
  unfold advance
  dsimp only
  split
  · exact hfetch.submit
  · exact hmemory

/-- A trace file, whatever it holds, drives the memory system through one of its runs, in which the
submitted transactions are added in this order. -/
theorem drives_ticks (text : List Char) (n : Nat) :
    Drives (ticks (.jedec config) n (opening (.ok {}) text)) := by
  induction n with
  | zero => exact fun _ hs => ⟨[], Except.ok.inj hs ▸ .start, rfl⟩
  | succ n ih => exact ih.clockTick

end TraceBasedCPU

end Dramsim
