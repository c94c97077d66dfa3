import Vajra.ByteMemory

/-!
# A processor with a stack

Sixteen general registers, the five registers an interrupt return loads, a page-table base and
a byte memory behind an address translation.  `exec` runs straight-line code; an access to an
address that is not translated has no result.

A stack that is mapped to itself (`Mapped`) behaves as a list of words.  `WordsAt m a ws` says
that the words `ws` lie at `a`, lowest first; pushing registers leaves them so
(`exec_pushes`, `pushedAll_holds`), popping takes them back (`exec_pops`), and stores elsewhere do not
matter (`WordsAt.congr`).
-/

namespace StackMachine

open ByteMemory

inductive Reg where
  | rax | rbx | rcx | rdx | rsi | rdi | rbp | rsp
  | r8 | r9 | r10 | r11 | r12 | r13 | r14 | r15
  deriving DecidableEq

/-- The registers and the memory of one processor. -/
structure Cpu where
  reg : Reg → BitVec 64
  rip : BitVec 64
  cs : BitVec 64
  ss : BitVec 64
  rflags : BitVec 64
  cr3 : BitVec 64
  mem : Mem

/-- What the page tables at each base make of a virtual address. -/
abbrev Mmu := BitVec 64 → Nat → Option Nat

inductive Instr where
  | push (r : Reg)
  | pushImm (v : BitVec 64)
  | pushf
  | pop (r : Reg)
  | mov (dst src : Reg)
  | load (dst base : Reg) (disp : BitVec 64)
  | store (base : Reg) (disp : BitVec 64) (src : Reg)
  | setCr3 (src : Reg)
  | addImm (r : Reg) (v : BitVec 64)
  | orImm (r : Reg) (v : BitVec 64)
  | call (target back : BitVec 64)
  | ret
  | iretq

/-- The little-endian value of the `n` bytes from a virtual address on. -/
def readVirtual (translate : Nat → Option Nat) (m : Mem) : Nat → Nat → Option Nat
  | _, 0 => some 0
  | a, n+1 =>
      match translate a, readVirtual translate m (a+1) n with
      | some p, some rest => some ((m p).toNat + 256 * rest)
      | _, _ => none

/-- Store the low `n` bytes of `v` from a virtual address on. -/
def writeVirtual (translate : Nat → Option Nat) : Mem → Nat → Nat → Nat → Option Mem
  | m, _, 0, _ => some m
  | m, a, n+1, v =>
      match translate a with
      | some p => writeVirtual translate (Function.update m p (UInt8.ofNat v)) (a+1) n (v / 256)
      | none => none

variable (mmu : Mmu)

def Cpu.set (c : Cpu) (r : Reg) (v : BitVec 64) : Cpu :=
  { c with reg := Function.update c.reg r v }

@[simp] theorem set_reg_self (c : Cpu) (r : Reg) (v : BitVec 64) : (c.set r v).reg r = v := by
  simp only [Cpu.set, Function.update_self]

theorem set_reg_of_ne (c : Cpu) {q r : Reg} (h : q ≠ r) (v : BitVec 64) :
    (c.set r v).reg q = c.reg q := by
  simp only [Cpu.set, Function.update_of_ne h]

@[simp] theorem set_cr3 (c : Cpu) (r : Reg) (v : BitVec 64) : (c.set r v).cr3 = c.cr3 := rfl
@[simp] theorem set_mem (c : Cpu) (r : Reg) (v : BitVec 64) : (c.set r v).mem = c.mem := rfl

def Cpu.load (c : Cpu) (a : BitVec 64) : Option (BitVec 64) :=
  (readVirtual (mmu c.cr3) c.mem a.toNat 8).map (BitVec.ofNat 64)

def Cpu.store (c : Cpu) (a v : BitVec 64) : Option Cpu :=
  (writeVirtual (mmu c.cr3) c.mem a.toNat 8 v.toNat).map fun m => { c with mem := m }

def Cpu.push (c : Cpu) (v : BitVec 64) : Option Cpu :=
  (c.store mmu (c.reg .rsp - 8) v).map fun c => c.set .rsp (c.reg .rsp - 8)

/-- The word on top of the stack, and the processor without it. -/
def Cpu.pop (c : Cpu) : Option (BitVec 64 × Cpu) :=
  (c.load mmu (c.reg .rsp)).map fun v => (v, c.set .rsp (c.reg .rsp + 8))

/-- Return from an interrupt: RIP, CS, RFLAGS, RSP and SS come off the stack. -/
def Cpu.iret (c : Cpu) : Option Cpu := do
  let (rip, c) ← c.pop mmu
  let (cs, c) ← c.pop mmu
  let (rflags, c) ← c.pop mmu
  let (rsp, c) ← c.pop mmu
  let (ss, c) ← c.pop mmu
  some { c.set .rsp rsp with rip := rip, cs := cs, rflags := rflags, ss := ss }

def execInstr (c : Cpu) : Instr → Option Cpu
  | .push r => c.push mmu (c.reg r)
  | .pushImm v => c.push mmu v
  | .pushf => c.push mmu c.rflags
  | .pop r => (c.pop mmu).map fun p => p.2.set r p.1
  | .mov dst src => some (c.set dst (c.reg src))
  | .load dst base disp => (c.load mmu (c.reg base + disp)).map (c.set dst)
  | .store base disp src => c.store mmu (c.reg base + disp) (c.reg src)
  | .setCr3 src => some { c with cr3 := c.reg src }
  | .addImm r v => some (c.set r (c.reg r + v))
  | .orImm r v => some (c.set r (c.reg r ||| v))
  | .call target back => (c.push mmu back).map fun c => { c with rip := target }
  | .ret => (c.pop mmu).map fun p => { p.2 with rip := p.1 }
  | .iretq => c.iret mmu

/-- Run a block of code. -/
def exec : List Instr → Cpu → Option Cpu
  | [], c => some c
  | i :: is, c => (execInstr mmu c i).bind (exec is)

theorem exec_append (is js : List Instr) (c : Cpu) :
    exec mmu (is ++ js) c = (exec mmu is c).bind (exec mmu js) := by
  induction is generalizing c with
  | nil => rfl
  | cons i is ih =>
      rw [List.cons_append, exec, exec]
      cases execInstr mmu c i with
      | none => rfl
      | some c' => exact ih c'

/-! ## Memory that is mapped to itself -/

/-- The addresses from `lo` up to `hi` are translated to themselves. -/
def Mapped (translate : Nat → Option Nat) (lo hi : Nat) : Prop :=
  ∀ x, lo ≤ x → x < hi → translate x = some x

theorem Mapped.mono {translate : Nat → Option Nat} {lo hi lo' hi' : Nat}
    (h : Mapped translate lo hi) (hlo : lo ≤ lo') (hhi : hi' ≤ hi) : Mapped translate lo' hi' :=
  fun x h1 h2 => h x (by omega) (by omega)

theorem readVirtual_mapped {translate : Nat → Option Nat} {m : Mem} {a n : Nat}
    (h : Mapped translate a (a + n)) : readVirtual translate m a n = some (readLE m a n) := by
  induction n generalizing a with
  | zero => rfl
  | succ n ih =>
      have hhead : translate a = some a := h a (Nat.le_refl a) (by omega)
      have htail : readVirtual translate m (a+1) n = some (readLE m (a+1) n) :=
        ih (h.mono (by omega) (by omega))
      simp only [readVirtual, hhead, htail, readLE]

/-- The first byte of a value, then the others. -/
theorem writeLE_succ (m : Mem) (a n v : Nat) :
    writeLE m a (n+1) v = writeLE (Function.update m a (UInt8.ofNat v)) (a+1) n (v / 256) := by
  funext x
  unfold writeLE
  by_cases hin : a + 1 ≤ x ∧ x < a + 1 + n
  · have hwide : a ≤ x ∧ x < a + (n + 1) := by omega
    have hindex : x - a = x - (a + 1) + 1 := by omega
    rw [if_pos hin, if_pos hwide, leByte, leByte, Nat.div_div_eq_div_mul, ← Nat.pow_succ', hindex]
  · rw [if_neg hin]
    by_cases hx : x = a
    · subst hx
      have hwide : x ≤ x ∧ x < x + (n + 1) := by omega
      rw [if_pos hwide, Function.update_self, leByte, Nat.sub_self, Nat.pow_zero, Nat.div_one]
    · have hwide : ¬ (a ≤ x ∧ x < a + (n + 1)) := by omega
      rw [if_neg hwide, Function.update_of_ne hx]

theorem writeVirtual_mapped {translate : Nat → Option Nat} {m : Mem} {a n v : Nat}
    (h : Mapped translate a (a + n)) : writeVirtual translate m a n v = some (writeLE m a n v) := by
  induction n generalizing m a v with
  | zero =>
      have hnone : writeLE m a 0 v = m := by
        funext x
        have hx : ¬ (a ≤ x ∧ x < a + 0) := by omega
        rw [writeLE, if_neg hx]
      rw [hnone]
      rfl
  | succ n ih =>
      have hhead : translate a = some a := h a (Nat.le_refl a) (by omega)
      simp only [writeVirtual, hhead]
      rw [ih (h.mono (by omega) (by omega)), writeLE_succ]

variable {mmu} {c : Cpu} {lo hi : Nat}

theorem load_mapped {a : BitVec 64} (h : Mapped (mmu c.cr3) lo hi) (hlo : lo ≤ a.toNat)
    (hhi : a.toNat + 8 ≤ hi) : c.load mmu a = some (BitVec.ofNat 64 (read64 c.mem a.toNat)) := by
  rw [Cpu.load, readVirtual_mapped (h.mono hlo hhi)]
  rfl

theorem store_mapped {a v : BitVec 64} (h : Mapped (mmu c.cr3) lo hi) (hlo : lo ≤ a.toNat)
    (hhi : a.toNat + 8 ≤ hi) :
    c.store mmu a v = some { c with mem := write64 c.mem a.toNat v.toNat } := by
  rw [Cpu.store, writeVirtual_mapped (h.mono hlo hhi)]
  rfl

/-! ## Words on a stack -/

/-- The words `ws` lie at `a`, lowest first. -/
def WordsAt (m : Mem) : Nat → List (BitVec 64) → Prop
  | _, [] => True
  | a, w :: ws => read64 m a = w.toNat ∧ WordsAt m (a + 8) ws

theorem holds_append {m : Mem} {a : Nat} {vs ws : List (BitVec 64)} :
    WordsAt m a (vs ++ ws) ↔ WordsAt m a vs ∧ WordsAt m (a + 8 * vs.length) ws := by
  induction vs generalizing a with
  | nil => simp [WordsAt]
  | cons v vs ih =>
      have haddr : a + 8 * (v :: vs).length = a + 8 + 8 * vs.length := by
        rw [List.length_cons]
        omega
      rw [List.cons_append, WordsAt, WordsAt, ih, haddr, and_assoc]

/-- What a stack holds depends on its own bytes only. -/
theorem WordsAt.congr {m m' : Mem} {a : Nat} {ws : List (BitVec 64)} (h : WordsAt m a ws)
    (hsame : ∀ x, a ≤ x → x < a + 8 * ws.length → m x = m' x) : WordsAt m' a ws := by
  induction ws generalizing a with
  | nil => trivial
  | cons w ws ih =>
      rw [List.length_cons] at hsame
      obtain ⟨hword, hrest⟩ := h
      refine ⟨?_, ih hrest fun x h1 h2 => hsame x (by omega) (by omega)⟩
      rw [← hword]
      exact readLE_congr fun x h1 h2 => (hsame x h1 (by omega)).symm

/-- The stack pointer is inside a stack that is mapped to itself. -/
structure Cpu.OnStack (mmu : Mmu) (c : Cpu) (lo hi : Nat) : Prop where
  mapped : Mapped (mmu c.cr3) lo hi
  lower : lo ≤ (c.reg .rsp).toNat
  upper : (c.reg .rsp).toNat ≤ hi

def Cpu.pushed (c : Cpu) (v : BitVec 64) : Cpu :=
  { c with
    reg := Function.update c.reg .rsp (c.reg .rsp - 8)
    mem := write64 c.mem (c.reg .rsp - 8).toNat v.toNat }

/-- The first word of the list is pushed first. -/
def Cpu.pushedAll (c : Cpu) (vs : List (BitVec 64)) : Cpu := vs.foldl Cpu.pushed c

@[simp] theorem pushed_cr3 (v : BitVec 64) : (c.pushed v).cr3 = c.cr3 := rfl
@[simp] theorem pushed_cs (v : BitVec 64) : (c.pushed v).cs = c.cs := rfl
@[simp] theorem pushed_rsp (v : BitVec 64) : (c.pushed v).reg .rsp = c.reg .rsp - 8 := rfl

theorem pushed_reg (v : BitVec 64) {r : Reg} (hr : r ≠ .rsp) : (c.pushed v).reg r = c.reg r :=
  Function.update_of_ne hr _ _

/-- The stack pointer after `n` words, as a number. -/
theorem sub_words {a : BitVec 64} {n : Nat} (h : 8 * n ≤ a.toNat) :
    (a - BitVec.ofNat 64 (8 * n)).toNat = a.toNat - 8 * n := by
  have hlt := a.isLt
  rw [BitVec.toNat_sub, BitVec.toNat_ofNat]
  omega

theorem sub_word {a : BitVec 64} (h : 8 ≤ a.toNat) : (a - 8).toNat = a.toNat - 8 :=
  sub_words (n := 1) h

theorem Cpu.OnStack.pushed (h : c.OnStack mmu lo hi) (hroom : lo + 8 ≤ (c.reg .rsp).toNat)
    (v : BitVec 64) : (c.pushed v).OnStack mmu lo hi where
  mapped := h.mapped
  lower := by
    rw [pushed_rsp, sub_word (by omega)]
    omega
  upper := by
    have hupper := h.upper
    rw [pushed_rsp, sub_word (by omega)]
    omega

/-- Pushing onto a stack with room for a word. -/
theorem Cpu.OnStack.push (h : c.OnStack mmu lo hi) (hroom : lo + 8 ≤ (c.reg .rsp).toNat)
    (v : BitVec 64) : c.push mmu v = some (c.pushed v) := by
  have hupper := h.upper
  rw [Cpu.push, store_mapped h.mapped (by rw [sub_word (by omega)]; omega)
    (by rw [sub_word (by omega)]; omega)]
  rfl

theorem pushedAll_cons (v : BitVec 64) (vs : List (BitVec 64)) :
    c.pushedAll (v :: vs) = (c.pushed v).pushedAll vs := rfl

theorem pushedAll_append (vs ws : List (BitVec 64)) :
    c.pushedAll (vs ++ ws) = (c.pushedAll vs).pushedAll ws :=
  List.foldl_append

/-- Pushing changes the stack pointer and the memory. -/
theorem pushedAll_eq (vs : List (BitVec 64)) :
    c.pushedAll vs =
      { c with
        reg := Function.update c.reg .rsp (c.reg .rsp - BitVec.ofNat 64 (8 * vs.length))
        mem := (c.pushedAll vs).mem } := by
  induction vs generalizing c with
  | nil => simp [Cpu.pushedAll]
  | cons v vs ih =>
      have hsum : c.reg .rsp - BitVec.ofNat 64 (8 * (v :: vs).length)
          = c.reg .rsp - 8 - BitVec.ofNat 64 (8 * vs.length) := by
        rw [List.length_cons, BitVec.sub_sub, Nat.mul_succ, BitVec.ofNat_add, BitVec.add_comm]
        rfl
      rw [pushedAll_cons, ih, hsum]
      simp [Cpu.pushed]

theorem pushedAll_rsp (vs : List (BitVec 64)) :
    (c.pushedAll vs).reg .rsp = c.reg .rsp - BitVec.ofNat 64 (8 * vs.length) := by
  rw [pushedAll_eq]
  simp only [Function.update_self]

theorem pushedAll_reg (vs : List (BitVec 64)) {r : Reg} (hr : r ≠ .rsp) :
    (c.pushedAll vs).reg r = c.reg r := by
  rw [pushedAll_eq]
  exact Function.update_of_ne hr _ _

@[simp] theorem pushedAll_cr3 (vs : List (BitVec 64)) : (c.pushedAll vs).cr3 = c.cr3 := by
  rw [pushedAll_eq]

@[simp] theorem pushedAll_cs (vs : List (BitVec 64)) : (c.pushedAll vs).cs = c.cs := by
  rw [pushedAll_eq]

/-- Only the words pushed are written. -/
theorem pushedAll_outside (vs : List (BitVec 64)) (h : 8 * vs.length ≤ (c.reg .rsp).toNat) {x : Nat}
    (hx : x < (c.reg .rsp).toNat - 8 * vs.length ∨ (c.reg .rsp).toNat ≤ x) :
    (c.pushedAll vs).mem x = c.mem x := by
  induction vs generalizing c with
  | nil => rfl
  | cons v vs ih =>
      rw [List.length_cons] at h hx
      have hrsp : ((c.pushed v).reg .rsp).toNat = (c.reg .rsp).toNat - 8 := by
        rw [pushed_rsp, sub_word (by omega)]
      rw [pushedAll_cons, ih (by omega) (by omega)]
      exact write64_outside (by rw [sub_word (by omega)]; omega)

/-- **What was pushed last lies lowest.** -/
theorem pushedAll_holds (vs : List (BitVec 64)) (h : 8 * vs.length ≤ (c.reg .rsp).toNat) :
    WordsAt (c.pushedAll vs).mem ((c.reg .rsp).toNat - 8 * vs.length) vs.reverse := by
  induction vs generalizing c with
  | nil => trivial
  | cons v vs ih =>
      rw [List.length_cons] at h
      have hrsp : ((c.pushed v).reg .rsp).toNat = (c.reg .rsp).toNat - 8 := by
        rw [pushed_rsp, sub_word (by omega)]
      have hrest := ih (c := c.pushed v) (by omega)
      rw [List.reverse_cons, holds_append, pushedAll_cons, List.length_cons, List.length_reverse,
        show (c.reg .rsp).toNat - 8 * (vs.length + 1) = (c.reg .rsp).toNat - 8 - 8 * vs.length
          by omega]
      rw [hrsp] at hrest
      refine ⟨hrest, ?_, trivial⟩
      rw [show (c.reg .rsp).toNat - 8 - 8 * vs.length + 8 * vs.length = (c.reg .rsp).toNat - 8
        by omega]
      calc read64 ((c.pushed v).pushedAll vs).mem ((c.reg .rsp).toNat - 8)
          = read64 (c.pushed v).mem ((c.reg .rsp).toNat - 8) :=
            readLE_congr fun x h1 h2 => pushedAll_outside vs (by omega) (by omega)
        _ = v.toNat % 2 ^ 64 := by
            rw [Cpu.pushed, sub_word (by omega)]
            exact read64_write64_same _ _ _
        _ = v.toNat := Nat.mod_eq_of_lt v.isLt

theorem Cpu.OnStack.pushedAll (h : c.OnStack mmu lo hi) {vs : List (BitVec 64)}
    (hroom : lo + 8 * vs.length ≤ (c.reg .rsp).toNat) : (c.pushedAll vs).OnStack mmu lo hi := by
  have hupper := h.upper
  have hrsp : ((c.pushedAll vs).reg .rsp).toNat = (c.reg .rsp).toNat - 8 * vs.length := by
    rw [pushedAll_rsp, sub_words (by omega)]
  refine ⟨?_, ?_, ?_⟩
  · rw [pushedAll_cr3]
    exact h.mapped
  · rw [hrsp]
    omega
  · rw [hrsp]
    omega

/-- What an instruction pushes, if it is a push, and not one of the stack pointer. -/
def Cpu.pushes (c : Cpu) : Instr → Option (BitVec 64)
  | .push r => if r = .rsp then none else some (c.reg r)
  | .pushImm v => some v
  | .pushf => some c.rflags
  | _ => none

theorem pushes_pushed (v : BitVec 64) (i : Instr) : (c.pushed v).pushes i = c.pushes i := by
  cases i with
  | push r =>
      by_cases hr : r = .rsp
      · simp only [Cpu.pushes, if_pos hr]
      · simp only [Cpu.pushes, if_neg hr, pushed_reg v hr]
  | _ => rfl

theorem execInstr_pushes (h : c.OnStack mmu lo hi) (hroom : lo + 8 ≤ (c.reg .rsp).toNat) {i : Instr}
    {v : BitVec 64} (hi : c.pushes i = some v) : execInstr mmu c i = some (c.pushed v) := by
  cases i with
  | push r =>
      rw [Cpu.pushes] at hi
      split at hi
      · cases hi
      · obtain rfl := Option.some.inj hi
        exact h.push hroom _
  | pushImm w =>
      obtain rfl := Option.some.inj hi
      exact h.push hroom _
  | pushf =>
      obtain rfl := Option.some.inj hi
      exact h.push hroom _
  | _ => cases hi

/-- A block of pushes. -/
theorem exec_pushAll (is : List Instr) {vs : List (BitVec 64)} (hpush : is.map c.pushes = vs.map some)
    (h : c.OnStack mmu lo hi) (hroom : lo + 8 * vs.length ≤ (c.reg .rsp).toNat) :
    exec mmu is c = some (c.pushedAll vs) := by
  induction vs generalizing c is with
  | nil =>
      rw [List.map_nil, List.map_eq_nil_iff] at hpush
      subst hpush
      rfl
  | cons v vs ih =>
      cases is with
      | nil => cases hpush
      | cons i is =>
          rw [List.length_cons] at hroom
          rw [List.map_cons, List.map_cons, List.cons.injEq] at hpush
          obtain ⟨hi, his⟩ := hpush
          have hrest : is.map (c.pushed v).pushes = vs.map some := by
            rw [← his]
            exact List.map_congr_left fun i _ => pushes_pushed v i
          rw [exec, execInstr_pushes h (by omega) hi, Option.bind_some,
            ih is hrest (h.pushed (by omega) v) (by rw [pushed_rsp, sub_word (by omega)]; omega)]
          rfl

/-- A block of pushes of registers. -/
theorem exec_pushes (rs : List Reg) (hrsp : Reg.rsp ∉ rs) (h : c.OnStack mmu lo hi)
    (hroom : lo + 8 * rs.length ≤ (c.reg .rsp).toNat) :
    exec mmu (rs.map Instr.push) c = some (c.pushedAll (rs.map c.reg)) := by
  refine exec_pushAll _ ?_ h (by rwa [List.length_map])
  rw [List.map_map, List.map_map]
  refine List.map_congr_left fun r hr => ?_
  have hne : r ≠ .rsp := fun heq => hrsp (heq ▸ hr)
  exact if_neg hne

/-- A block of pushes of given words. -/
theorem exec_pushImms (vs : List (BitVec 64)) (h : c.OnStack mmu lo hi)
    (hroom : lo + 8 * vs.length ≤ (c.reg .rsp).toNat) :
    exec mmu (vs.map Instr.pushImm) c = some (c.pushedAll vs) := by
  refine exec_pushAll _ ?_ h hroom
  rw [List.map_map]
  rfl

/-- What pushing writes depends on the stack pointer and the memory. -/
theorem pushedAll_mem_congr {d : Cpu} (vs : List (BitVec 64)) (hrsp : c.reg .rsp = d.reg .rsp)
    (hmem : c.mem = d.mem) : (c.pushedAll vs).mem = (d.pushedAll vs).mem := by
  induction vs generalizing c d with
  | nil => exact hmem
  | cons v vs ih =>
      apply ih
      · simp only [pushed_rsp, hrsp]
      · simp only [Cpu.pushed, hrsp, hmem]

/-! ## Taking words back -/

/-- Load a list of registers, one after the other. -/
def assign (f : Reg → BitVec 64) : List Reg → List (BitVec 64) → Reg → BitVec 64
  | r :: rs, w :: ws => assign (Function.update f r w) rs ws
  | _, _ => f

/-- Registers loaded with the values of `g` have them. -/
theorem assign_map (f g : Reg → BitVec 64) (rs : List Reg) (q : Reg) :
    assign f rs (rs.map g) q = if q ∈ rs then g q else f q := by
  induction rs generalizing f with
  | nil => simp [assign]
  | cons r rs ih =>
      rw [List.map_cons, assign, ih]
      by_cases hq : q = r
      · subst hq
        simp
      · simp [hq]

/-- A register that is not loaded keeps its value. -/
theorem assign_of_not_mem (f : Reg → BitVec 64) {rs : List Reg} (ws : List (BitVec 64)) {q : Reg}
    (hq : q ∉ rs) : assign f rs ws q = f q := by
  induction rs generalizing f ws with
  | nil => rfl
  | cons r rs ih =>
      rw [List.mem_cons, not_or] at hq
      cases ws with
      | nil => rfl
      | cons w ws => rw [assign, ih _ _ hq.2, Function.update_of_ne hq.1]

theorem Cpu.OnStack.pop (h : c.OnStack mmu lo hi) (hroom : (c.reg .rsp).toNat + 8 ≤ hi)
    {w : BitVec 64} (hw : read64 c.mem (c.reg .rsp).toNat = w.toNat) :
    c.pop mmu = some (w, c.set .rsp (c.reg .rsp + 8)) := by
  rw [Cpu.pop, load_mapped h.mapped h.lower hroom, hw, BitVec.ofNat_toNat, BitVec.setWidth_eq]
  rfl

theorem add_word {a : BitVec 64} {n : Nat} (h : a.toNat + n < 2 ^ 64) :
    (a + BitVec.ofNat 64 n).toNat = a.toNat + n := by
  rw [BitVec.toNat_add, BitVec.toNat_ofNat, Nat.add_mod_mod, Nat.mod_eq_of_lt h]

theorem Cpu.OnStack.set (h : c.OnStack mmu lo hi) {r : Reg} (hr : r ≠ .rsp) (v : BitVec 64) :
    (c.set r v).OnStack mmu lo hi where
  mapped := h.mapped
  lower := by
    rw [set_reg_of_ne _ hr.symm]
    exact h.lower
  upper := by
    rw [set_reg_of_ne _ hr.symm]
    exact h.upper

theorem WordsAt.get {m : Mem} {a : Nat} {ws : List (BitVec 64)} (h : WordsAt m a ws) {i : Nat}
    (hi : i < ws.length) : read64 m (a + 8 * i) = (ws.getD i 0).toNat := by
  induction ws generalizing a i with
  | nil => simp at hi
  | cons w ws ih =>
      obtain ⟨hword, hrest⟩ := h
      cases i with
      | zero => exact hword
      | succ i =>
          rw [show a + 8 * (i + 1) = a + 8 + 8 * i by omega]
          exact ih hrest (Nat.lt_of_succ_lt_succ hi)

/-- **A block of loads from the words above the stack pointer.** -/
theorem exec_loads (ls : List (Reg × Nat)) {ws : List (BitVec 64)}
    (hls : ∀ l ∈ ls, l.1 ≠ .rsp ∧ l.2 < ws.length) (h : c.OnStack mmu lo hi) (hbound : hi < 2 ^ 64)
    (hroom : (c.reg .rsp).toNat + 8 * ws.length ≤ hi) (hws : WordsAt c.mem (c.reg .rsp).toNat ws) :
    exec mmu (ls.map fun l => .load l.1 .rsp (BitVec.ofNat 64 (8 * l.2))) c =
      some { c with reg := assign c.reg (ls.map (·.1)) (ls.map fun l => ws.getD l.2 0) } := by
  induction ls generalizing c with
  | nil => rfl
  | cons l ls ih =>
      obtain ⟨hr, hi⟩ := hls l List.mem_cons_self
      have hlower := h.lower
      have haddr : (c.reg .rsp + BitVec.ofNat 64 (8 * l.2)).toNat = (c.reg .rsp).toNat + 8 * l.2 :=
        add_word (by omega)
      have hload : c.load mmu (c.reg .rsp + BitVec.ofNat 64 (8 * l.2)) = some (ws.getD l.2 0) := by
        rw [load_mapped h.mapped (by omega) (by omega), haddr, hws.get hi, BitVec.ofNat_toNat,
          BitVec.setWidth_eq]
      have hrsp : (c.set l.1 (ws.getD l.2 0)).reg .rsp = c.reg .rsp := set_reg_of_ne _ hr.symm _
      have hrest := ih (fun q hq => hls q (List.mem_cons_of_mem _ hq)) (h.set hr (ws.getD l.2 0))
        (by rw [hrsp]; exact hroom) (by rw [hrsp]; exact hws)
      rw [List.map_cons, exec, execInstr, hload, Option.map_some, Option.bind_some, hrest]
      rfl

/-- The stack pointer moved up, the general registers otherwise replaced. -/
def Cpu.popped (c : Cpu) (rs : List Reg) (ws : List (BitVec 64)) : Cpu :=
  { c with
    reg := assign (Function.update c.reg .rsp (c.reg .rsp + BitVec.ofNat 64 (8 * rs.length))) rs ws }

/-- **A block of pops takes what the stack holds.** -/
theorem exec_pops (rs : List Reg) {ws : List (BitVec 64)} (hrsp : Reg.rsp ∉ rs)
    (hlen : ws.length = rs.length) (h : c.OnStack mmu lo hi) (hbound : hi < 2 ^ 64)
    (hroom : (c.reg .rsp).toNat + 8 * rs.length ≤ hi)
    (hws : WordsAt c.mem (c.reg .rsp).toNat ws) :
    exec mmu (rs.map Instr.pop) c = some (c.popped rs ws) := by
  induction rs generalizing c ws with
  | nil =>
      rw [List.map_nil, exec, Cpu.popped, List.length_nil, Nat.mul_zero, BitVec.add_zero,
        Function.update_eq_self]
      cases ws with
      | nil => rfl
      | cons w ws => simp at hlen
  | cons r rs ih =>
      cases ws with
      | nil => simp at hlen
      | cons w ws =>
          rw [List.mem_cons, not_or] at hrsp
          rw [List.length_cons] at hroom
          rw [List.length_cons, List.length_cons] at hlen
          obtain ⟨hr, hrs⟩ := hrsp
          obtain ⟨hword, hrest⟩ := hws
          have hnext : (c.reg .rsp + 8).toNat = (c.reg .rsp).toNat + 8 :=
            add_word (n := 8) (by omega)
          have hrsp : ((c.set .rsp (c.reg .rsp + 8)).set r w).reg .rsp = c.reg .rsp + 8 := by
            rw [set_reg_of_ne _ hr, set_reg_self]
          have hstack : ((c.set .rsp (c.reg .rsp + 8)).set r w).OnStack mmu lo hi := by
            have hlower := h.lower
            refine ⟨h.mapped, ?_, ?_⟩ <;> rw [hrsp, hnext] <;> omega
          have hregs : assign (Function.update ((c.set .rsp (c.reg .rsp + 8)).set r w).reg .rsp
                (c.reg .rsp + 8 + BitVec.ofNat 64 (8 * rs.length))) rs ws
              = assign (Function.update c.reg .rsp
                (c.reg .rsp + BitVec.ofNat 64 (8 * (r :: rs).length))) (r :: rs) (w :: ws) := by
            rw [assign, List.length_cons, Nat.mul_succ, Nat.add_comm, BitVec.ofNat_add,
              ← BitVec.add_assoc]
            congr 1
            simp only [Cpu.set, Function.update_idem, Function.update_comm hr]
            rfl
          rw [List.map_cons, exec, execInstr, h.pop (by omega) hword, Option.map_some,
            Option.bind_some, ih hrs (Nat.succ.inj hlen) hstack (by rw [hrsp, hnext]; omega)
              (by rw [hrsp, hnext]; exact hrest),
            Cpu.popped, Cpu.popped, ← hregs, hrsp]
          rfl

/-- The words above the stack pointer, and how many of them can be popped. -/
theorem Cpu.OnStack.advance (h : c.OnStack mmu lo hi) (hbound : hi < 2 ^ 64) {n : Nat}
    (hroom : (c.reg .rsp).toNat + 8 * n ≤ hi) :
    (c.set .rsp (c.reg .rsp + BitVec.ofNat 64 (8 * n))).OnStack mmu lo hi ∧
    (((c.set .rsp (c.reg .rsp + BitVec.ofNat 64 (8 * n))).reg .rsp).toNat
      = (c.reg .rsp).toNat + 8 * n) := by
  have hlower := h.lower
  have hrsp : ((c.set .rsp (c.reg .rsp + BitVec.ofNat 64 (8 * n))).reg .rsp).toNat
      = (c.reg .rsp).toNat + 8 * n := by
    rw [set_reg_self, add_word (by omega)]
  refine ⟨⟨h.mapped, ?_, ?_⟩, hrsp⟩
  · rw [hrsp]
    omega
  · rw [hrsp]
    exact hroom

/-- **An interrupt return takes the five words of its frame.** -/
theorem Cpu.OnStack.iret (h : c.OnStack mmu lo hi) (hbound : hi < 2 ^ 64)
    (hroom : (c.reg .rsp).toNat + 40 ≤ hi) {rip cs rflags rsp ss : BitVec 64}
    (hframe : WordsAt c.mem (c.reg .rsp).toNat [rip, cs, rflags, rsp, ss]) :
    c.iret mmu = some { c.set .rsp rsp with rip := rip, cs := cs, rflags := rflags, ss := ss } := by
  obtain ⟨hrip, hcs, hrflags, hrsp, hss, _⟩ := hframe
  have key : ∀ n, n < 5 → ∀ w : BitVec 64,
      read64 c.mem ((c.reg .rsp).toNat + 8 * n) = w.toNat →
      (c.set .rsp (c.reg .rsp + BitVec.ofNat 64 (8 * n))).pop mmu =
        some (w, c.set .rsp (c.reg .rsp + BitVec.ofNat 64 (8 * (n+1)))) := by
    intro n hn w hw
    obtain ⟨hstack, haddr⟩ := h.advance hbound (n := n) (by omega)
    rw [hstack.pop (w := w) (by rw [haddr]; omega) (by rw [haddr]; exact hw)]
    simp [Cpu.set, Nat.mul_succ, BitVec.ofNat_add, BitVec.add_assoc]
  have h0 := key 0 (by decide) rip hrip
  have h1 := key 1 (by decide) cs hcs
  have h2 := key 2 (by decide) rflags hrflags
  have h3 := key 3 (by decide) rsp hrsp
  have h4 := key 4 (by decide) ss hss
  have hz : c.set .rsp (c.reg .rsp + BitVec.ofNat 64 (8 * 0)) = c := by
    simp [Cpu.set]
  rw [hz] at h0
  simp [Cpu.iret, h0, h1, h2, h3, h4]
  simp [Cpu.set]

end StackMachine
