import Vajra.InterruptDelivery
import Vajra.SecondCore
import Vajra.ThreadSwitch

/-!
# The descriptor tables (`hal/x86_64/gdt.c`, `interrupts.c`)

`hal_interrupts_init` fills the global descriptor table, the task state segment and the interrupt
descriptor table; `schedule_next` keeps the kernel stack of the current actor in the task state
segment; the second core adds a task state segment of its own.  `InterruptDelivery` says what the
processor makes of the bytes.

`handlers_reached` is about every moment of a run: from ring 3 a program gets to the system call by
`int 0x80` and to the panic by anything else, and every event enters its stub with interrupts off, on
the kernel stack of the actor that runs.
-/

namespace Vajra

open ByteMemory InterruptDelivery StackMachine TransitionTrace

def gdtEntries : Nat := 10
def idtEntries : Nat := 256
def gdtTssSelector : Nat := 0x20
def gdtApTssSelector : Nat := 0x40
def dfStackSize : Nat := 4096
def tssSize : Nat := 104
def timerVector : Nat := 32
def keyboardVector : Nat := 33
def syscallVector : Nat := 0x80

/-- Where the linker put `idt`, `gdt`, `tss`, `tss_ap` and `df_stack`: four tables that do not overlap,
in the kernel image, and neither page tables nor ring-3 code. -/
structure DescriptorLayout (L : Layout) where
  idt : Nat
  gdt : Nat
  tss : Nat
  tssAp : Nat
  dfStack : Nat
  idt_gdt : idt + 16 * idtEntries ≤ gdt ∨ gdt + 8 * gdtEntries ≤ idt
  idt_tss : idt + 16 * idtEntries ≤ tss ∨ tss + tssSize ≤ idt
  idt_tssAp : idt + 16 * idtEntries ≤ tssAp ∨ tssAp + tssSize ≤ idt
  gdt_tss : gdt + 8 * gdtEntries ≤ tss ∨ tss + tssSize ≤ gdt
  gdt_tssAp : gdt + 8 * gdtEntries ≤ tssAp ∨ tssAp + tssSize ≤ gdt
  tss_tssAp : tss + tssSize ≤ tssAp ∨ tssAp + tssSize ≤ tss
  dfStack_aligned : dfStack % 16 = 0
  dfStack_low : dfStack + dfStackSize ≤ commonsEnd
  idt_fixed : ∀ x, idt ≤ x → x < idt + 16 * idtEntries → FixedByte L x ∧ x < bootPml4PhysBase
  gdt_fixed : ∀ x, gdt ≤ x → x < gdt + 8 * gdtEntries → FixedByte L x ∧ x < bootPml4PhysBase
  tss_fixed : ∀ x, tss ≤ x → x < tss + tssSize → FixedByte L x ∧ x < bootPml4PhysBase

variable {L : Layout}

/-! ## The source -/

/-- `idt_set_gate`. -/
def idtSetGate (idt : Nat) (m : Mem) (vector : Nat) (handler : Word) (ist dpl : Nat) : Mem :=
  let addr := handler.toNat
  let entry := idt + 16 * vector
  let m := writeLE m entry 2 (addr &&& 0xFFFF)
  let m := writeLE m (entry + 2) 2 0x18
  let m := writeLE m (entry + 4) 1 ist
  let m := writeLE m (entry + 5) 1 (0x80 ||| ((dpl &&& 0x3) <<< 5) ||| 0x0E)
  let m := writeLE m (entry + 6) 2 ((addr >>> 16) &&& 0xFFFF)
  let m := writeLE m (entry + 8) 4 ((addr >>> 32) &&& 0xFFFFFFFF)
  writeLE m (entry + 12) 4 0

/-- `hal_set_kernel_stack`. -/
def halSetKernelStack (T : DescriptorLayout L) (S : StackLayout) (slot : Int) (m : Mem) : Mem :=
  match slotOf slot with
  | none => m
  | some i => write64 m (T.tss + 4) (S.hi (some i))

/-- The low word of a task state segment's descriptor, as `hal_gdt_init` puts it together. -/
def tssDescriptorLow (base limit : Nat) : Nat :=
  let low := limit &&& 0xFFFF
  let low := low ||| ((base &&& 0xFFFFFF) <<< 16)
  let low := low ||| (0x89 <<< 40)
  let low := low ||| (((limit >>> 16) &&& 0xF) <<< 48)
  low ||| (((base >>> 24) &&& 0xFF) <<< 56)

def tssDescriptorHigh (base : Nat) : Nat := (base >>> 32) &&& 0xFFFFFFFF

def DescriptorLayout.gdtr (T : DescriptorLayout L) : TableRegister := ⟨T.gdt, 8 * gdtEntries - 1⟩

def DescriptorLayout.idtr (T : DescriptorLayout L) : TableRegister := ⟨T.idt, 16 * idtEntries - 1⟩

/-- `hal_gdt_init`, up to the `lgdt`. -/
def gdtTables (T : DescriptorLayout L) (S : StackLayout) (m : Mem) : Mem :=
  let m := write64 m T.gdt 0
  let m := write64 m (T.gdt + 8) 0x00CF9A000000FFFF
  let m := write64 m (T.gdt + 16) 0x00CF92000000FFFF
  let m := write64 m (T.gdt + 24) 0x00AF9A000000FFFF
  let m := write64 m (T.gdt + 48) 0x00CFF2000000FFFF
  let m := write64 m (T.gdt + 56) 0x00AFFA000000FFFF
  let m := writeArray m (T.tss + 36) 7 (fun _ => 0)
  let m := write64 m (T.tss + 36) (T.dfStack + dfStackSize)
  let m := writeLE m (T.tss + 102) 2 tssSize
  let m := halSetKernelStack T S 0 m
  let m := write64 m (T.gdt + 32) (tssDescriptorLow T.tss (tssSize - 1))
  write64 m (T.gdt + 40) (tssDescriptorHigh T.tss)

/-- `hal_gdt_init`; nothing is left of it if the `ltr` faults. -/
def halGdtInit (T : DescriptorLayout L) (S : StackLayout) (m : Mem) : Option Mem :=
  loadTask (gdtTables T S m) T.gdtr gdtTssSelector

/-- The gates of `hal_interrupts_init`: vector, stack and privilege level. -/
def registeredGates : List (Nat × Nat × Nat) :=
  [(0, 0, 0), (6, 0, 0), (8, 1, 0), (13, 0, 0), (14, 0, 0), (timerVector, 0, 0),
   (keyboardVector, 0, 0), (syscallVector, 0, 3)]

/-- `hal_interrupts_init`; `stub n` is the address of `isr_stub_n`. -/
def halInterruptsInit (T : DescriptorLayout L) (S : StackLayout) (stub : Nat → Word) (m : Mem) :
    Option Mem :=
  (halGdtInit T S m).map fun m =>
    registeredGates.foldl (fun m g => idtSetGate T.idt m g.1 (stub g.1) g.2.1 g.2.2) m

/-- `hal_gdt_load_ap`, on the second core. -/
def halGdtLoadAp (T : DescriptorLayout L) (rsp0 : Nat) (m : Mem) : Option Mem :=
  let m := writeArray m (T.tssAp + 36) 7 (fun _ => 0)
  let m := write64 m (T.tssAp + 4) rsp0
  let m := writeLE m (T.tssAp + 102) 2 tssSize
  let m := write64 m (T.gdt + 64) (tssDescriptorLow T.tssAp (tssSize - 1))
  let m := write64 m (T.gdt + 72) (tssDescriptorHigh T.tssAp)
  loadTask m T.gdtr gdtApTssSelector

/-- The tables of the first core. -/
def DescriptorLayout.tables (T : DescriptorLayout L) : Tables := ⟨T.gdtr, T.idtr, gdtTssSelector⟩

/-! ## The formats -/

theorem or_eq_add {a b n : Nat} (ha : a < 2 ^ n) : a ||| (b <<< n) = a + 2 ^ n * b := by
  rw [Nat.or_comm, ← Nat.shiftLeft_add_eq_or_of_lt ha, Nat.shiftLeft_eq, Nat.mul_comm b]
  exact Nat.add_comm _ _

theorem tssDescriptorLow_eq (base : Nat) :
    tssDescriptorLow base (tssSize - 1) =
      103 + 2 ^ 16 * (base % 2 ^ 24) + 2 ^ 40 * 0x89 + 2 ^ 56 * (base / 2 ^ 24 % 2 ^ 8) := by
  have h24 : base &&& 0xFFFFFF = base % 2 ^ 24 := Nat.and_two_pow_sub_one_eq_mod base 24
  have h8 : (base >>> 24) &&& 0xFF = base / 2 ^ 24 % 2 ^ 8 := by
    rw [Nat.shiftRight_eq_div_pow]
    exact Nat.and_two_pow_sub_one_eq_mod _ 8
  have hlimit : (tssSize - 1) &&& 0xFFFF = 103 := by decide
  have hzero : ((tssSize - 1) >>> 16 &&& 0xF) <<< 48 = 0 := by decide
  have hlt : base % 2 ^ 24 < 2 ^ 24 := Nat.mod_lt _ (by decide)
  have hbase : 103 ||| ((base % 2 ^ 24) <<< 16) = 103 + 2 ^ 16 * (base % 2 ^ 24) := or_eq_add (by decide)
  have haccess : (103 + 2 ^ 16 * (base % 2 ^ 24)) ||| (0x89 <<< 40) =
      103 + 2 ^ 16 * (base % 2 ^ 24) + 2 ^ 40 * 0x89 := or_eq_add (by omega)
  rw [tssDescriptorLow, h24, h8, hlimit, hzero, Nat.or_zero, hbase, haccess, or_eq_add (by omega)]

/-- **The descriptor of a task state segment says where it is**, for every address. -/
theorem tssDescriptor_base {base : Nat} (h : base < 2 ^ 64) :
    systemBase (tssDescriptorLow base (tssSize - 1)) (tssDescriptorHigh base) = base := by
  have hhigh : tssDescriptorHigh base = base / 2 ^ 32 % 2 ^ 32 := by
    rw [tssDescriptorHigh, Nat.shiftRight_eq_div_pow]
    exact Nat.and_two_pow_sub_one_eq_mod _ 32
  rw [systemBase, tssDescriptorLow_eq, hhigh]
  omega

/-- The gate that `idt_set_gate` writes, as the processor reads it. -/
def setGate (handler : Word) (ist dpl : Nat) : Gate where
  offset := handler.toNat
  selector := 0x18
  ist := ist % 8
  type := 14
  dpl := dpl % 4
  present := true

theorem gateFlags {dpl : Nat} (h : dpl < 4) :
    (0x80 ||| ((dpl &&& 0x3) <<< 5) ||| 0x0E) % 256 = 142 + 32 * dpl := by
  have hall : ∀ d < 4, (0x80 ||| ((d &&& 0x3) <<< 5) ||| 0x0E) % 256 = 142 + 32 * d := by decide
  exact hall dpl h

/-- **A gate reads back as it was set**, for every handler. -/
theorem gateAt_idtSetGate (idt : Nat) (m : Mem) (vector : Nat) (handler : Word) (ist : Nat) {dpl : Nat}
    (hdpl : dpl < 4) :
    gateAt (idtSetGate idt m vector handler ist dpl) (idt + 16 * vector) = setGate handler ist dpl := by
  have hlt := handler.isLt
  have h16 : handler.toNat &&& 0xFFFF = handler.toNat % 2 ^ 16 := Nat.and_two_pow_sub_one_eq_mod _ 16
  have hmid : (handler.toNat >>> 16) &&& 0xFFFF = handler.toNat / 2 ^ 16 % 2 ^ 16 := by
    rw [Nat.shiftRight_eq_div_pow]
    exact Nat.and_two_pow_sub_one_eq_mod _ 16
  have hhigh : (handler.toNat >>> 32) &&& 0xFFFFFFFF = handler.toNat / 2 ^ 32 % 2 ^ 32 := by
    rw [Nat.shiftRight_eq_div_pow]
    exact Nat.and_two_pow_sub_one_eq_mod _ 32
  have hflags := gateFlags hdpl
  simp (disch := omega) only [gateAt, idtSetGate, readLE_writeLE_disjoint, readLE_writeLE_same, h16, hmid,
    hhigh, Nat.pow_one, hflags, setGate, Gate.mk.injEq]
  refine ⟨by omega, by omega, by omega, by omega, by omega, ?_⟩
  rw [decide_eq_true_eq]
  omega

/-- A gate is set in its own sixteen bytes. -/
theorem idtSetGate_outside {idt : Nat} {m : Mem} {vector : Nat} (handler : Word) (ist dpl : Nat) {x : Nat}
    (hx : x < idt + 16 * vector ∨ idt + 16 * vector + 16 ≤ x) :
    idtSetGate idt m vector handler ist dpl x = m x := by
  have hout : ∀ off n, off + n ≤ 16 →
      ¬ (idt + 16 * vector + off ≤ x ∧ x < idt + 16 * vector + off + n) := by
    intro off n hoff
    omega
  have h0 : ¬ (idt + 16 * vector ≤ x ∧ x < idt + 16 * vector + 2) := hout 0 2 (by decide)
  simp only [idtSetGate, writeLE, h0, hout 2 2 (by decide), hout 4 1 (by decide), hout 5 1 (by decide),
    hout 6 2 (by decide), hout 8 4 (by decide), hout 12 4 (by decide), if_false]

/-! ## What is installed -/

theorem halSetKernelStack_slot (T : DescriptorLayout L) (S : StackLayout) (c : Slot) (m : Mem) :
    halSetKernelStack T S ((c : Nat) : Int) m = write64 m (T.tss + 4) (S.hi (some c)) := by
  rw [halSetKernelStack, slotOf_val]

theorem read64_writeLE_disjoint {m : Mem} {a b n v : Nat} (h : a + n ≤ b ∨ b + 8 ≤ a) :
    read64 (writeLE m a n v) b = read64 m b :=
  readLE_writeLE_disjoint h

/-- The access bits of a task state segment's descriptor. -/
theorem segmentOf_tss (base : Nat) :
    (segmentOf (tssDescriptorLow base (tssSize - 1))).type = 9 ∧
      (segmentOf (tssDescriptorLow base (tssSize - 1))).present = true := by
  rw [tssDescriptorLow_eq]
  simp only [segmentOf, decide_eq_true_eq]
  constructor <;> omega

/-- A descriptor in the table. -/
theorem descriptorAt_gdt (T : DescriptorLayout L) (m : Mem) {i r : Nat} (hpos : 0 < i)
    (hi : i < gdtEntries) (hr : r < 4) :
    descriptorAt m T.gdtr (8 * i + r) = some (read64 m (T.gdt + 8 * i)) := by
  have hdiv : (8 * i + r) / 8 = i := by omega
  have hlocal : (8 * i + r) / 4 % 2 = 0 := by omega
  have hgood : ¬ (i = 0 ∨ 0 = 1 ∨ T.gdtr.limit < i * 8 + 7) := by
    simp only [DescriptorLayout.gdtr, gdtEntries] at *
    omega
  rw [descriptorAt, hdiv, hlocal, if_neg hgood, Nat.mul_comm i 8]
  rfl

/-- A task state segment that has just been described can be loaded. -/
theorem loadTask_described (T : DescriptorLayout L) {m : Mem} {i base : Nat} (hpos : 0 < i)
    (hi : i + 1 < gdtEntries)
    (hlow : read64 m (T.gdt + 8 * i) = tssDescriptorLow base (tssSize - 1)) :
    loadTask m T.gdtr (8 * i) =
      some (write64 m (T.gdt + 8 * i) (tssDescriptorLow base (tssSize - 1) + 2 ^ 41)) := by
  have hdesc := descriptorAt_gdt T m (r := 0) hpos (by omega) (by decide)
  rw [Nat.add_zero] at hdesc
  obtain ⟨htype, hpresent⟩ := segmentOf_tss base
  have hdiv : 8 * i / 8 * 8 = 8 * i := by omega
  have hlimit : 8 * i + 15 ≤ T.gdtr.limit := by
    simp only [DescriptorLayout.gdtr, gdtEntries] at *
    omega
  rw [loadTask, hdesc, hlow]
  dsimp only
  rw [hdiv, if_pos ⟨htype, hpresent, hlimit⟩]
  rfl

/-- What the first core finds in its tables, whatever its kernel stack. -/
structure Installed (T : DescriptorLayout L) (stub : Nat → Word) (m : Mem) : Prop where
  code : read64 m (T.gdt + 24) = 0x00AF9A000000FFFF
  userData : read64 m (T.gdt + 48) = 0x00CFF2000000FFFF
  userCode : read64 m (T.gdt + 56) = 0x00AFFA000000FFFF
  taskLow : read64 m (T.gdt + 32) = tssDescriptorLow T.tss (tssSize - 1) + 2 ^ 41
  taskHigh : read64 m (T.gdt + 40) = tssDescriptorHigh T.tss
  ist : read64 m (T.tss + 36) = T.dfStack + dfStackSize
  gates : ∀ g ∈ registeredGates, gateAt m (T.idt + 16 * g.1) = setGate (stub g.1) g.2.1 g.2.2
  others : ∀ v < idtEntries, (∀ g ∈ registeredGates, g.1 ≠ v) →
    (gateAt m (T.idt + 16 * v)).type = 0

/-- A byte that the first core's deliveries read, the kernel stack apart. -/
def DescriptorLayout.Reads (T : DescriptorLayout L) (x : Nat) : Prop :=
  (T.gdt ≤ x ∧ x < T.gdt + 64) ∨ (T.tss + 12 ≤ x ∧ x < T.tss + tssSize) ∨
    (T.idt ≤ x ∧ x < T.idt + 16 * idtEntries)

theorem Installed.congr {T : DescriptorLayout L} {stub : Nat → Word} {m m' : Mem}
    (h : Installed T stub m) (hsame : ∀ x, T.Reads x → m' x = m x) : Installed T stub m' := by
  have hgdt : ∀ off, off + 8 ≤ 64 → read64 m' (T.gdt + off) = read64 m (T.gdt + off) :=
    fun off hoff => readLE_congr fun x h1 h2 => hsame x (.inl (by omega))
  have hgate : ∀ v < idtEntries, gateAt m' (T.idt + 16 * v) = gateAt m (T.idt + 16 * v) :=
    fun v hv => gateAt_congr fun x h1 h2 => hsame x (.inr (.inr (by omega)))
  refine ⟨?_, ?_, ?_, ?_, ?_, ?_, fun g hg => ?_, fun v hv hother => ?_⟩
  · rw [hgdt 24 (by decide), h.code]
  · rw [hgdt 48 (by decide), h.userData]
  · rw [hgdt 56 (by decide), h.userCode]
  · rw [hgdt 32 (by decide), h.taskLow]
  · rw [hgdt 40 (by decide), h.taskHigh]
  · rw [← h.ist]
    refine readLE_congr fun x h1 h2 => hsame x (.inr (.inl ?_))
    simp only [tssSize]
    omega
  · have hlt : ∀ g ∈ registeredGates, g.1 < idtEntries := by decide
    rw [hgate _ (hlt g hg), h.gates g hg]
  · rw [hgate v hv, h.others v hv hother]

/-- The gates one after the other: each reads back as set, and the others are left alone. -/
theorem setGates_spec (idt : Nat) (stub : Nat → Word) (gates : List (Nat × Nat × Nat))
    (hdistinct : (gates.map Prod.fst).Nodup) (hdpl : ∀ g ∈ gates, g.2.2 < 4) (m : Mem) :
    (∀ g ∈ gates, gateAt (gates.foldl (fun m g => idtSetGate idt m g.1 (stub g.1) g.2.1 g.2.2) m)
      (idt + 16 * g.1) = setGate (stub g.1) g.2.1 g.2.2) ∧
    ∀ x, (∀ g ∈ gates, x < idt + 16 * g.1 ∨ idt + 16 * g.1 + 16 ≤ x) →
      gates.foldl (fun m g => idtSetGate idt m g.1 (stub g.1) g.2.1 g.2.2) m x = m x := by
  induction gates generalizing m with
  | nil => exact ⟨fun g hg => absurd hg List.not_mem_nil, fun _ _ => rfl⟩
  | cons g rest ih =>
      rw [List.map_cons, List.nodup_cons] at hdistinct
      obtain ⟨hgates, hout⟩ := ih hdistinct.2 (fun g' hg' => hdpl g' (List.mem_cons_of_mem _ hg'))
        (idtSetGate idt m g.1 (stub g.1) g.2.1 g.2.2)
      refine ⟨fun g' hg' => ?_, fun x hx => ?_⟩
      · rcases List.mem_cons.mp hg' with rfl | hrest
        · rw [← gateAt_idtSetGate idt m g'.1 (stub g'.1) g'.2.1 (hdpl g' List.mem_cons_self)]
          refine gateAt_congr fun x h1 h2 => hout x fun g'' hg'' => ?_
          have hne : g''.1 ≠ g'.1 := by
            intro heq
            exact hdistinct.1 (heq ▸ List.mem_map_of_mem hg'')
          omega
        · exact hgates g' hrest
      · rw [List.foldl_cons, hout x fun g' hg' => hx g' (List.mem_cons_of_mem _ hg')]
        exact idtSetGate_outside _ _ _ (hx g List.mem_cons_self)

/-- What `hal_gdt_init` leaves: it stores in its own two tables. -/
theorem halGdtInit_spec (T : DescriptorLayout L) (S : StackLayout) (m : Mem) :
    ∃ m', halGdtInit T S m = some m' ∧
      read64 m' (T.gdt + 24) = 0x00AF9A000000FFFF ∧ read64 m' (T.gdt + 48) = 0x00CFF2000000FFFF ∧
      read64 m' (T.gdt + 56) = 0x00AFFA000000FFFF ∧
      read64 m' (T.gdt + 32) = tssDescriptorLow T.tss (tssSize - 1) + 2 ^ 41 ∧
      read64 m' (T.gdt + 40) = tssDescriptorHigh T.tss ∧
      read64 m' (T.tss + 36) = (T.dfStack + dfStackSize) % 2 ^ 64 ∧
      ∀ x, T.idt ≤ x → x < T.idt + 16 * idtEntries → m' x = m x := by
  have hgt := T.gdt_tss
  have hig := T.idt_gdt
  have hit := T.idt_tss
  simp only [gdtEntries, tssSize, idtEntries] at hgt hig hit
  have hkernel : ∀ m, halSetKernelStack T S 0 m = write64 m (T.tss + 4) (S.hi (some 0)) :=
    fun m => halSetKernelStack_slot T S 0 m
  have hlow : tssDescriptorLow T.tss (tssSize - 1) + 2 ^ 41 < 2 ^ 64 := by
    rw [tssDescriptorLow_eq]
    omega
  have hhigh : tssDescriptorHigh T.tss < 2 ^ 64 := by
    refine Nat.lt_of_le_of_lt Nat.and_le_right ?_
    decide
  have hlowRead : read64 (gdtTables T S m) (T.gdt + 32) = tssDescriptorLow T.tss (tssSize - 1) := by
    rw [gdtTables, read64_write64_disjoint (by omega), read64_write64_same, Nat.mod_eq_of_lt (by omega)]
  refine ⟨_, loadTask_described T (i := 4) (by decide) (by decide) hlowRead, ?_, ?_, ?_, ?_, ?_, ?_, ?_⟩
  · rw [read64_write64_disjoint (by omega)]
    simp (disch := omega) only [gdtTables, hkernel, read64_write64_disjoint, read64_writeLE_disjoint,
      read64_writeArray_disjoint, read64_write64_same]
    decide
  · rw [read64_write64_disjoint (by omega)]
    simp (disch := omega) only [gdtTables, hkernel, read64_write64_disjoint, read64_writeLE_disjoint,
      read64_writeArray_disjoint, read64_write64_same]
    decide
  · rw [read64_write64_disjoint (by omega)]
    simp (disch := omega) only [gdtTables, hkernel, read64_write64_disjoint, read64_writeLE_disjoint,
      read64_writeArray_disjoint, read64_write64_same]
    decide
  · exact (read64_write64_same _ _ _).trans (Nat.mod_eq_of_lt hlow)
  · rw [read64_write64_disjoint (by omega), gdtTables, read64_write64_same, Nat.mod_eq_of_lt hhigh]
  · rw [read64_write64_disjoint (by omega)]
    simp (disch := omega) only [gdtTables, hkernel, read64_write64_disjoint, read64_writeLE_disjoint,
      read64_write64_same]
  · intro x h1 h2
    simp only [idtEntries] at h2
    rw [write64_outside (by omega)]
    have harray : ∀ m, writeArray m (T.tss + 36) 7 (fun _ => 0) x = m x :=
      fun m => writeArray_outside (by omega)
    have hlimit : ∀ m, writeLE m (T.tss + 102) 2 tssSize x = m x := by
      intro m
      rw [writeLE, if_neg (by omega)]
    simp (disch := omega) only [gdtTables, hkernel, write64_outside, harray, hlimit]

/-- **`hal_interrupts_init` installs the tables.** -/
theorem halInterruptsInit_installed (T : DescriptorLayout L) (S : StackLayout) (stub : Nat → Word) {m : Mem}
    (hzero : ∀ x, T.idt ≤ x → x < T.idt + 16 * idtEntries → m x = 0)
    (hdf : T.dfStack + dfStackSize < 2 ^ 64) :
    ∃ m', halInterruptsInit T S stub m = some m' ∧ Installed T stub m' := by
  obtain ⟨m1, hinit, hcode, hdata, huser, hlow, hhigh, hist, hidt⟩ := halGdtInit_spec T S m
  have hig := T.idt_gdt
  have hit := T.idt_tss
  simp only [gdtEntries, tssSize, idtEntries] at hig hit
  have hinside : ∀ g ∈ registeredGates, g.1 < idtEntries := by decide
  obtain ⟨hgates, hout⟩ := setGates_spec T.idt stub registeredGates (by decide) (by decide) m1
  rw [halInterruptsInit, hinit, Option.map_some]
  refine ⟨_, rfl, ?_⟩
  generalize registeredGates.foldl (fun m g => idtSetGate T.idt m g.1 (stub g.1) g.2.1 g.2.2) m1 = m2
    at hgates hout ⊢
  have houter : ∀ x, x < T.idt ∨ T.idt + 16 * idtEntries ≤ x → m2 x = m1 x := by
    intro x hx
    refine hout x fun g hg => ?_
    have := hinside g hg
    simp only [idtEntries] at *
    omega
  have hgdt : ∀ a, T.gdt ≤ a → a + 8 ≤ T.gdt + 80 → read64 m2 a = read64 m1 a := by
    intro a h1 h2
    refine readLE_congr fun x h3 h4 => houter x ?_
    simp only [idtEntries]
    omega
  refine ⟨?_, ?_, ?_, ?_, ?_, ?_, hgates, fun v hv hother => gateAt_zero fun x h1 h2 => ?_⟩
  · rw [hgdt _ (by omega) (by omega), hcode]
  · rw [hgdt _ (by omega) (by omega), hdata]
  · rw [hgdt _ (by omega) (by omega), huser]
  · rw [hgdt _ (by omega) (by omega), hlow]
  · rw [hgdt _ (by omega) (by omega), hhigh]
  · rw [← Nat.mod_eq_of_lt hdf, ← hist]
    refine readLE_congr fun x h1 h2 => houter x ?_
    simp only [idtEntries]
    omega
  · have hin : T.idt ≤ x ∧ x < T.idt + 16 * idtEntries := by omega
    rw [hout x fun g hg => ?_, hidt x hin.1 hin.2, hzero x hin.1 hin.2]
    have := hother g hg
    omega

/-- **The second core's tables are its own**: its descriptor can be loaded, and nothing that the first
core reads changes. -/
theorem halGdtLoadAp_spec (T : DescriptorLayout L) (rsp0 : Nat) (m : Mem) :
    ∃ m', halGdtLoadAp T rsp0 m = some m' ∧ ∀ x, T.Reads x → m' x = m x := by
  have hgt := T.gdt_tssAp
  have hgt' := T.gdt_tss
  have hig := T.idt_gdt
  have hit := T.idt_tssAp
  have htt := T.tss_tssAp
  simp only [gdtEntries, tssSize, idtEntries] at hgt hgt' hig hit htt
  have hbound : tssDescriptorLow T.tssAp (tssSize - 1) < 2 ^ 64 := by
    rw [tssDescriptorLow_eq]
    omega
  rw [halGdtLoadAp]
  generalize hfilled : writeLE (write64 (writeArray m (T.tssAp + 36) 7 fun _ => 0) (T.tssAp + 4) rsp0)
    (T.tssAp + 102) 2 tssSize = filled
  have hlow : read64 (write64 (write64 filled (T.gdt + 64) (tssDescriptorLow T.tssAp (tssSize - 1)))
      (T.gdt + 72) (tssDescriptorHigh T.tssAp)) (T.gdt + 64) = tssDescriptorLow T.tssAp (tssSize - 1) := by
    rw [read64_write64_disjoint (by omega), read64_write64_same, Nat.mod_eq_of_lt hbound]
  refine ⟨_, loadTask_described T (i := 8) (by decide) (by decide) hlow, fun x hx => ?_⟩
  have hrange : (x < T.gdt + 64 ∨ T.gdt + 80 ≤ x) ∧ (x < T.tssAp ∨ T.tssAp + 104 ≤ x) := by
    simp only [DescriptorLayout.Reads, tssSize, idtEntries] at hx
    omega
  obtain ⟨hx1, hx2⟩ := hrange
  rw [write64_outside (by omega), write64_outside (by omega), write64_outside (by omega), ← hfilled, writeLE,
    if_neg (by omega), write64_outside (by omega), writeArray_outside (by omega)]

/-! ## Deliveries -/

/-- The vectors that have a gate, and how far it is open. -/
def Registered (v : Nat) : Prop := ∃ g ∈ registeredGates, g.1 = v

instance (v : Nat) : Decidable (Registered v) := inferInstanceAs (Decidable (∃ g ∈ registeredGates, g.1 = v))

def gateDpl (v : Nat) : Nat := if v = syscallVector then 3 else 0

/-- The stub an event gets to: its own, or that of a general protection fault, or that of a double
fault. -/
def stubOf (cpl v : Nat) (s : Source) : Nat :=
  if Registered v ∧ (s = .software → cpl ≤ gateDpl v) then v else if Doubling s v then 8 else 13

/-- The entry into a stub: a double fault has a stack of its own. -/
def stubEntry (T : DescriptorLayout L) (stub : Nat → Word) (rsp0 cpl rsp v : Nat) : HandlerEntry where
  rip := (stub v).toNat
  cs := 0x18
  cpl := 0
  stack := (if v = 8 then T.dfStack + dfStackSize else if 0 < cpl then rsp0 else rsp) / 16 * 16
  nullSs := 0 < cpl
  interruptsOff := true

section Deliveries

variable {T : DescriptorLayout L} {stub : Nat → Word} {m : Mem}

theorem Installed.leads (h : Installed T stub m) {g : Nat × Nat × Nat} (hg : g ∈ registeredGates) :
    Leads m T.tables g.1 (setGate (stub g.1) g.2.1 g.2.2) := by
  have hlt : ∀ g ∈ registeredGates, g.1 < idtEntries := by decide
  refine ⟨?_, h.gates g hg, rfl, rfl, 0x00AF9A000000FFFF, ?_, by decide, by decide, by decide, by decide⟩
  · have := hlt g hg
    simp only [DescriptorLayout.tables, DescriptorLayout.idtr, idtEntries] at *
    omega
  · have hdesc := descriptorAt_gdt T m (i := 3) (r := 0) (by decide) (by decide) (by decide)
    rw [show T.gdt + 8 * 3 = T.gdt + 24 from rfl, h.code] at hdesc
    exact hdesc

/-- The task register leads to `tss`. -/
theorem Installed.taskSegment (h : Installed T stub m) (htss : T.tss < 2 ^ 64) :
    InterruptDelivery.taskSegment m T.tables = ⟨T.tss, 103⟩ := by
  have hbase : systemBase (tssDescriptorLow T.tss (tssSize - 1) + 2 ^ 41) (tssDescriptorHigh T.tss) =
      T.tss := by
    rw [← tssDescriptor_base htss, tssDescriptor_base htss]
    have hold := tssDescriptor_base htss
    rw [systemBase, tssDescriptorLow_eq] at hold ⊢
    omega
  have hlimit : systemLimit (tssDescriptorLow T.tss (tssSize - 1) + 2 ^ 41) = 103 := by
    rw [systemLimit, tssDescriptorLow_eq]
    omega
  have hlow : read64 m (T.gdt + gdtTssSelector / 8 * 8) = _ := h.taskLow
  have hhigh : read64 m (T.gdt + gdtTssSelector / 8 * 8 + 8) = _ := h.taskHigh
  rw [InterruptDelivery.taskSegment, DescriptorLayout.tables, DescriptorLayout.gdtr]
  dsimp only
  rw [hlow, hhigh, hbase, hlimit]

/-- A registered event that may come enters its stub. -/
theorem Installed.deliver (h : Installed T stub m) (htss : T.tss < 2 ^ 64) {rsp0 : Nat}
    (hrsp0 : read64 m (T.tss + 4) = rsp0) {v : Nat} (hv : Registered v) {cpl : Nat} {s : Source}
    (hopen : s = .software → cpl ≤ gateDpl v) (rsp : Nat) :
    InterruptDelivery.deliver m T.tables cpl rsp v s = .enter (stubEntry T stub rsp0 cpl rsp v) := by
  obtain ⟨g, hg, rfl⟩ := hv
  have hopen' : s = .software → cpl ≤ (setGate (stub g.1) g.2.1 g.2.2).dpl := by
    have hdpl : ∀ g ∈ registeredGates, g.2.2 % 4 = gateDpl g.1 := by decide
    intro hs
    rw [setGate, hdpl g hg]
    exact hopen hs
  have hist : ∀ g ∈ registeredGates, g.2.1 % 8 = if g.1 = 8 then 1 else 0 := by decide
  have htask : ∀ off, off + 7 ≤ 103 → taskStack m T.tables off = some (read64 m (T.tss + off)) := by
    intro off hoff
    rw [taskStack, h.taskSegment htss, if_neg (show ¬ 103 < off + 7 by omega)]
  have hstack : gateStack m T.tables cpl rsp (setGate (stub g.1) g.2.1 g.2.2) =
      some (if g.1 = 8 then T.dfStack + dfStackSize else if 0 < cpl then rsp0 else rsp) := by
    rw [gateStack, setGate, hist g hg]
    by_cases h8 : g.1 = 8
    · rw [if_pos h8, if_pos h8]
      dsimp only
      rw [if_pos (by decide), htask 36 (by decide), h.ist]
    · rw [if_neg h8, if_neg h8]
      dsimp only
      rw [if_neg (by decide), htask 4 (by decide), hrsp0]
      split
      · rfl
      · rfl
  rw [deliver_leads (h.leads hg) hopen' hstack, gateEntry, stubEntry, setGate]
  congr 2
  exact show 24 / 4 * 4 = 24 by decide

/-- Any other is a general protection fault. -/
theorem Installed.deliver_fault (h : Installed T stub m) {cpl v : Nat} {s : Source} (hv : v < idtEntries)
    (hno : ¬ (Registered v ∧ (s = .software → cpl ≤ gateDpl v))) (rsp : Nat) :
    InterruptDelivery.deliver m T.tables cpl rsp v s = gpFault := by
  by_cases hreg : Registered v
  · have hclosed : ¬ (s = .software → cpl ≤ gateDpl v) := fun hopen => hno ⟨hreg, hopen⟩
    obtain ⟨rfl, hdpl⟩ : s = .software ∧ ¬ cpl ≤ gateDpl v := by
      by_cases hs : s = .software
      · exact ⟨hs, fun hle => hclosed fun _ => hle⟩
      · exact absurd (fun h => absurd h hs) hclosed
    obtain ⟨g, hg, rfl⟩ := hreg
    have hgate : ∀ g ∈ registeredGates, g.2.2 % 4 = gateDpl g.1 := by decide
    refine deliver_closed (h.leads hg) rsp ?_
    rw [setGate, hgate g hg]
    exact Nat.lt_of_not_le hdpl
  · exact deliver_absent (h.others v hv fun g hg heq => hreg ⟨g, hg, heq⟩) cpl rsp s

/-- **Where every event leads.** -/
theorem Installed.raised (h : Installed T stub m) (htss : T.tss < 2 ^ 64) {rsp0 : Nat}
    (hrsp0 : read64 m (T.tss + 4) = rsp0) {v : Nat} (hv : v < idtEntries) (cpl rsp : Nat) (s : Source) :
    InterruptDelivery.raised m T.tables cpl rsp v s =
      some (stubOf cpl v s, stubEntry T stub rsp0 cpl rsp (stubOf cpl v s)) := by
  by_cases hyes : Registered v ∧ (s = .software → cpl ≤ gateDpl v)
  · rw [stubOf, if_pos hyes]
    exact raised_enter (h.deliver htss hrsp0 hyes.1 hyes.2 rsp)
  · have hnot8 : ¬ (v = 8 ∧ s = .exception) := by
      rintro ⟨rfl, rfl⟩
      exact hyes ⟨by decide, nofun⟩
    have hentered : ∀ w, Registered w → InterruptDelivery.deliver m T.tables cpl rsp w .exception =
        .enter (stubEntry T stub rsp0 cpl rsp w) :=
      fun w hw => h.deliver htss hrsp0 hw (fun hs => Source.noConfusion hs) rsp
    rw [stubOf, if_neg hyes, raised_fault (h.deliver_fault hv hyes rsp) (hentered 13 (by decide))
      (hentered 8 (by decide)) hnot8]
    split
    · rfl
    · rfl

end Deliveries

/-! ## Runs -/

/-- The two cores' setup: `hal_interrupts_init`, and `hal_gdt_load_ap` if there is a second core. -/
def descriptorSetup (T : DescriptorLayout L) (S : StackLayout) (stub : Nat → Word) (ap : Option Nat)
    (m : Mem) : Option Mem :=
  (halInterruptsInit T S stub m).bind fun m =>
    match ap with
    | none => some m
    | some rsp0 => halGdtLoadAp T rsp0 m

variable {D : Type}

/-- Memory as the first core sees it at CPL 0 while the actor `c` runs: through the actor's tables, and
with the kernel stack that `schedule_next` has set for it. -/
def coreView (T : DescriptorLayout L) (S : StackLayout) (k : Kernel D) (c : Slot) : Mem := fun va =>
  match translation k.memory.ram (k.actors c).cr3 va with
  | none => 0
  | some p => halSetKernelStack T S ((c : Nat) : Int) k.memory.ram p

/-- What the first core reads is fixed. -/
theorem DescriptorLayout.reads_fixed (T : DescriptorLayout L) {x : Nat} (hx : T.Reads x) :
    FixedByte L x ∧ x < bootPml4PhysBase := by
  rcases hx with ⟨h1, h2⟩ | ⟨h1, h2⟩ | ⟨h1, h2⟩
  · refine T.gdt_fixed x h1 ?_
    simp only [gdtEntries]
    omega
  · exact T.tss_fixed x (by omega) h2
  · exact T.idt_fixed x h1 h2

theorem DescriptorLayout.tss_lt (T : DescriptorLayout L) : T.tss + tssSize ≤ commonsEnd := by
  have hlast := (T.tss_fixed (T.tss + tssSize - 1) (by simp only [tssSize]; omega)
    (by simp only [tssSize]; omega)).1.kernel.1
  simp only [tssSize] at *
  omega

/-- The actor's tables show the first core the first megabyte as it is. -/
theorem coreView_low {T : DescriptorLayout L} {S : StackLayout} {hal : Hal D} {b : Boot D}
    {tr : List (Record D)} {k : Kernel D} (hrun : RawRun L hal b tr k) (hown : OwnBuffers L hal tr)
    {c : Slot} (hlive : k.Live c) {x : Nat} (hx : x < commonsEnd) :
    coreView T S k c x = halSetKernelStack T S ((c : Nat) : Int) k.memory.ram x := by
  obtain ⟨page, _, _, _, hview⟩ := live_ring0_view hrun hown hlive
  have hsame : ring0View page (programOf L tr c) x = some x := if_pos hx
  rw [coreView, hview x, hsame]

/-- The tables are installed at every moment of a run. -/
theorem coreView_installed {T : DescriptorLayout L} {S : StackLayout} {stub : Nat → Word} {ap : Option Nat}
    {hal : Hal D} {b : Boot D} {ram : Mem}
    (hzero : ∀ x, T.idt ≤ x → x < T.idt + 16 * idtEntries → ram x = 0)
    (hboot : descriptorSetup T S stub ap ram = some b.ram) {tr : List (Record D)} {k : Kernel D}
    (hrun : RawRun L hal b tr k) (hown : OwnBuffers L hal tr) {c : Slot} (hlive : k.Live c) :
    Installed T stub (coreView T S k c) ∧ read64 (coreView T S k c) (T.tss + 4) = S.hi (some c) := by
  have hdf := T.dfStack_low
  have htss := T.tss_lt
  have hgt := T.gdt_tss
  have hit := T.idt_tss
  simp only [commonsEnd, gdtEntries, tssSize, idtEntries, dfStackSize] at hdf htss hgt hit
  obtain ⟨m, hinit, hinstalled⟩ := halInterruptsInit_installed T S stub hzero
    (by simp only [dfStackSize]; omega)
  have hb : ∀ x, T.Reads x → b.ram x = m x := by
    rw [descriptorSetup, hinit, Option.bind_some] at hboot
    cases ap with
    | none =>
        cases hboot
        exact fun x _ => rfl
    | some rsp0 =>
        obtain ⟨m', hap, hsame⟩ := halGdtLoadAp_spec T rsp0 m
        obtain rfl : m' = b.ram := Option.some.inj (hap.symm.trans hboot)
        exact hsame
  have hfixed := run_fixed (rawRun_run hrun hown)
  refine ⟨hinstalled.congr fun x hx => ?_, ?_⟩
  · obtain ⟨hbyte, hlow⟩ := T.reads_fixed hx
    have hnotcell : x < T.tss + 4 ∨ T.tss + 12 ≤ x := by
      simp only [DescriptorLayout.Reads, tssSize, idtEntries] at hx
      omega
    rw [coreView_low hrun hown hlive hbyte.kernel.1, halSetKernelStack_slot,
      write64_outside (by omega), hfixed x hbyte, bootPageDirectory, writeArray_outside, hb x hx]
    simp only [bootPml4PhysBase, pageDirPhysBase] at *
    omega
  · have hsame : read64 (coreView T S k c) (T.tss + 4) =
        read64 (halSetKernelStack T S ((c : Nat) : Int) k.memory.ram) (T.tss + 4) :=
      readLE_congr fun x h1 h2 => coreView_low hrun hown hlive (by simp only [commonsEnd]; omega)
    have hhi := S.hi_low (some c)
    simp only [commonsEnd] at hhi
    rw [hsame, halSetKernelStack_slot, read64_write64_same, Nat.mod_eq_of_lt (by omega)]

/-- **Where events lead.**  At every moment of a run in which the system calls fill buffers of their
callers, from any privilege level and for each of the 256 vectors: the stub that the event gets to, with
interrupts off, in the kernel's code segment, on the kernel stack of the actor that runs if the event comes
from ring 3 (a double fault has a stack of its own). -/
theorem handlers_reached {T : DescriptorLayout L} {S : StackLayout} {stub : Nat → Word} {ap : Option Nat}
    {hal : Hal D} {b : Boot D} {ram : Mem}
    (hzero : ∀ x, T.idt ≤ x → x < T.idt + 16 * idtEntries → ram x = 0)
    (hboot : descriptorSetup T S stub ap ram = some b.ram) {tr : List (Record D)} {k : Kernel D}
    (hrun : RawRun L hal b tr k) (hown : OwnBuffers L hal tr) {c : Slot} (hlive : k.Live c)
    (cpl rsp : Nat) {v : Nat} (hv : v < idtEntries) (s : Source) :
    raised (coreView T S k c) T.tables cpl rsp v s =
      some (stubOf cpl v s, stubEntry T stub (S.hi (some c)) cpl rsp (stubOf cpl v s)) := by
  obtain ⟨hinstalled, hstack⟩ := coreView_installed hzero hboot hrun hown hlive
  have htss := T.tss_lt
  simp only [commonsEnd, tssSize] at htss
  exact hinstalled.raised (by omega) hstack hv cpl rsp s

/-- What the processor does to enter the handler it has found. -/
def enterHandler (mmu : Mmu) (e : HandlerEntry) (c : Cpu) : Option Cpu :=
  (exec mmu ([c.ss, c.reg .rsp, c.rflags, c.cs, c.rip].map .pushImm)
    (c.set .rsp (BitVec.ofNat 64 e.stack))).map fun c' =>
      { c' with
        rip := BitVec.ofNat 64 e.rip
        cs := BitVec.ofNat 64 e.cs
        ss := if e.nullSs then 0 else c.ss
        rflags := if e.interruptsOff then c.rflags &&& (~~~ (0x200 : Word)) else c.rflags }

/-- How the three events that come back come about. -/
def Vector.source : Vector → Source
  | .timer | .keyboard => .external
  | .syscall => .software

/-- The privilege level is in the low bits of CS. -/
def privilege (c : Cpu) : Nat := (c.cs &&& 3).toNat

theorem cpl_pos_iff {c : Cpu} (hcs : c.cs = kernelCodeSel ∨ c.cs = userCodeSel) :
    0 < privilege c ↔ Ring3 c := by
  rcases hcs with hcs | hcs
  · rw [privilege, Ring3, hcs]
    decide
  · rw [privilege, Ring3, hcs]
    decide

/-- **The tables lead where the stubs' model starts.**  At every moment of such a run, and for the timer, the
keyboard and the system call, from ring 3 or ring 0: what the processor makes of the tables is the entry
`interrupt`, on the kernel stack of the actor that runs. -/
theorem interrupt_through_tables {T : DescriptorLayout L} {S : StackLayout} {stub : Nat → Word}
    {ap : Option Nat} {hal : Hal D} {b : Boot D} {ram : Mem}
    (hzero : ∀ x, T.idt ≤ x → x < T.idt + 16 * idtEntries → ram x = 0)
    (hboot : descriptorSetup T S stub ap ram = some b.ram) {tr : List (Record D)} {k : Kernel D}
    (hrun : RawRun L hal b tr k) (hown : OwnBuffers L hal tr) {c : Slot} (hlive : k.Live c)
    (hstub : ∀ v : Vector, stub v.number.toNat = S.isrStub v) (mmu : Mmu) (cpu : Cpu)
    (hcs : cpu.cs = kernelCodeSel ∨ cpu.cs = userCodeSel) (v : Vector) :
    (raised (coreView T S k c) T.tables (privilege cpu) (cpu.reg .rsp).toNat v.number.toNat v.source).bind
        (fun r => enterHandler mmu r.2 cpu) =
      interrupt mmu (BitVec.ofNat 64 (S.hi (some c))) (S.isrStub v) cpu := by
  obtain ⟨hinstalled, hstack⟩ := coreView_installed hzero hboot hrun hown hlive
  have htss := T.tss_lt
  simp only [commonsEnd, tssSize] at htss
  have hhi := S.hi_low (some c)
  simp only [commonsEnd] at hhi
  have hcpl : privilege cpu ≤ 3 := by
    rcases hcs with hcs | hcs
    · rw [privilege, hcs]
      decide
    · rw [privilege, hcs]
      decide
  have hinside : v.number.toNat < idtEntries := by
    cases v <;> decide
  have hown : stubOf (privilege cpu) v.number.toNat v.source = v.number.toNat := by
    refine if_pos ?_
    cases v with
    | timer | keyboard => exact ⟨by decide, fun hs => Source.noConfusion hs⟩
    | syscall => exact ⟨by decide, fun _ => hcpl⟩
  have hnot8 : v.number.toNat ≠ 8 := by
    cases v <;> decide
  rw [hinstalled.raised (by omega) hstack hinside, hown, Option.bind_some, enterHandler, interrupt, stubEntry]
  dsimp only
  have htop : (BitVec.ofNat 64 ((if v.number.toNat = 8 then T.dfStack + dfStackSize
      else if 0 < privilege cpu then S.hi (some c) else (cpu.reg .rsp).toNat) / 16 * 16)) =
      frameTop (BitVec.ofNat 64 (S.hi (some c))) cpu := by
    rw [if_neg hnot8, frameTop]
    by_cases hring : Ring3 cpu
    · rw [if_pos ((cpl_pos_iff hcs).mpr hring), if_pos hring, BitVec.toNat_ofNat,
        Nat.mod_eq_of_lt (by omega)]
    · rw [if_neg fun h => hring ((cpl_pos_iff hcs).mp h), if_neg hring]
  rw [htop, hstub, BitVec.ofNat_toNat, BitVec.setWidth_eq]
  simp only [cpl_pos_iff hcs, decide_eq_true_eq, if_true]
  rfl

/-! ## A machine with its tables -/

/-- Behind the page tables of the sample layout, and before the boot tables. -/
theorem sampleTables_fixed {x : Nat} (h1 : 0x77000 ≤ x) (h2 : x < 0x79000) :
    FixedByte sampleLayout x ∧ x < bootPml4PhysBase := by
  refine ⟨⟨⟨?_, ?_⟩, fun t => ?_⟩, ?_⟩
  · simp only [commonsEnd]
    omega
  · intro htext
    have hend := htext.2
    simp only [sampleLayout] at hend
    omega
  · have := tableIndex_lt t
    simp only [sampleLayout, pageSize]
    omega
  · simp only [bootPml4PhysBase]
    omega

def sampleTables : DescriptorLayout sampleLayout where
  idt := 0x77000
  gdt := 0x78000
  tss := 0x78100
  tssAp := 0x78200
  dfStack := 0x79000
  idt_gdt := by decide
  idt_tss := by decide
  idt_tssAp := by decide
  gdt_tss := by decide
  gdt_tssAp := by decide
  tss_tssAp := by decide
  dfStack_aligned := by decide
  dfStack_low := by decide
  idt_fixed x h1 h2 := sampleTables_fixed (by omega) (by simp only [idtEntries] at h2; omega)
  gdt_fixed x h1 h2 := sampleTables_fixed (by omega) (by simp only [gdtEntries] at h2; omega)
  tss_fixed x h1 h2 := sampleTables_fixed (by omega) (by simp only [tssSize] at h2; omega)

/-- The stubs 64 bytes apart. -/
def sampleStub (v : Nat) : Word := BitVec.ofNat 64 (0x22000 + 64 * v)

def sampleKernelStacks : StackLayout :=
  { sampleStacks with
    isrStub := fun v => sampleStub v.number.toNat
    kernelStacks := 0x7A000
    actors := 0x8B000
    schedulerRsp := 0x8D200
    bootLo := 0x8D300
    stacks_aligned := by decide
    boot_order := by decide
    stacks_boot := by decide
    stacks_actors := by decide
    stacks_scheduler := by decide
    boot_actors := by decide
    boot_scheduler := by decide
    actors_scheduler := by decide
    stacks_low := by decide
    actors_low := by decide
    scheduler_low := by decide }

def tablesBoot : Boot Unit :=
  { sampleBoot with
    ram := (descriptorSetup sampleTables sampleKernelStacks sampleStub (some 0x8FF00) fun _ => 0).getD
      fun _ => 0 }

theorem tablesBoot_setup :
    descriptorSetup sampleTables sampleKernelStacks sampleStub (some 0x8FF00) (fun _ => 0) =
      some tablesBoot.ram := by
  obtain ⟨m, hinit, _⟩ := halInterruptsInit_installed sampleTables sampleKernelStacks sampleStub
    (m := fun _ => 0) (fun _ _ _ => rfl) (by decide)
  obtain ⟨m', hap, _⟩ := halGdtLoadAp_spec sampleTables 0x8FF00 m
  have hsetup : descriptorSetup sampleTables sampleKernelStacks sampleStub (some 0x8FF00) (fun _ => 0) =
      some m' := by
    rw [descriptorSetup, hinit, Option.bind_some]
    exact hap
  rw [tablesBoot, hsetup, Option.getD_some]

set_option maxRecDepth 100000 in
/-- After a tick actor 2 runs: its `int 0x80` enters the stub of the system call and its `int 32`
that of a general protection fault, both on its own kernel stack. -/
theorem handlers_reached_one_tick :
    ∃ tr k, RawRun sampleLayout silentHal tablesBoot tr k ∧ OwnBuffers sampleLayout silentHal tr ∧
      k.current = some 2 ∧
      raised (coreView sampleTables sampleKernelStacks k 2) sampleTables.tables 3 0x101000 0x80 .software =
        some (128, ⟨0x24000, 0x18, 0, 0x7D000, true, true⟩) ∧
      raised (coreView sampleTables sampleKernelStacks k 2) sampleTables.tables 3 0x101000 32 .software =
        some (13, ⟨0x22340, 0x18, 0, 0x7D000, true, true⟩) := by
  have hrun : (runTrace (rawStep sampleLayout silentHal) [] (bootState sampleLayout tablesBoot)
      [.tick]).map (fun r => (r.2.current, decide (r.2.Live 2), r.1.all (storesNothing silentHal))) =
      some (some 2, true, true) := by
    decide +kernel
  obtain ⟨tr, k, htrace, hview⟩ := exists_trace_of_runTrace hrun
  simp only [Prod.mk.injEq, decide_eq_true_eq] at hview
  obtain ⟨hcur, hlive, hquiet⟩ := hview
  have hown : OwnBuffers sampleLayout silentHal tr := ownBuffers_of_storesNothing hquiet
  refine ⟨tr, k, htrace, hown, hcur, ?_, ?_⟩
  · rw [handlers_reached (fun _ _ _ => rfl) tablesBoot_setup htrace hown hlive 3 0x101000 (by decide) .software]
    decide
  · rw [handlers_reached (fun _ _ _ => rfl) tablesBoot_setup htrace hown hlive 3 0x101000 (by decide) .software]
    decide

/-- The processor in ring 3. -/
def sampleRing3 : Cpu := { sampleCpu with cs := userCodeSel, reg := fun _ => 7 }

set_option maxRecDepth 100000 in
/-- When the actors start, a system call of actor 1 is the entry that the stubs' model starts with. -/
theorem interrupt_through_tables_boot :
    (raised (coreView sampleTables sampleKernelStacks (bootState sampleLayout tablesBoot) 1)
        sampleTables.tables 3 7 Vector.syscall.number.toNat Vector.syscall.source).bind
        (fun r => enterHandler (fun _ x => some x) r.2 sampleRing3) =
      interrupt (fun _ x => some x) 0x7C000 (sampleStub Vector.syscall.number.toNat) sampleRing3 := by
  have hlive : (bootState sampleLayout tablesBoot).Live 1 := by
    decide +kernel
  have hrun : RawRun sampleLayout silentHal tablesBoot [] (bootState sampleLayout tablesBoot) := Trace.nil
  exact interrupt_through_tables (fun _ _ _ => rfl) tablesBoot_setup hrun trivial hlive (fun _ => rfl)
    (fun _ x => some x) sampleRing3 (.inr rfl) .syscall

end Vajra
