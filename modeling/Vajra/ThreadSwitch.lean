import Vajra.ActorTable
import Vajra.InterruptStubs

/-!
# One processor, many kernel stacks

The core of the machine: one processor that runs the boot context and the actors in turn, each
on its own ring-0 stack.  What compiled code does between two entries into the routines of
`InterruptStubs` is left open (`CoreStep.run`): any registers, any memory, but no byte of
another thread's kernel stack, no saved stack pointer, and nothing above the stack pointer its own
handler was entered with.  Interrupts come at any point of such code and between any two
instructions of a stub that is on its way out.

`CoreInv` carries what each thread's stack holds.  `interrupt_transparent` and
`switch_resumes` are its two consequences: an interrupted computation goes on with the registers it
had, however many interrupts and switches came in between, and a call of `hal_context_switch`
comes back like any other call.
-/

namespace Vajra

open ByteMemory StackMachine

def kernelStackSize : Nat := 4096

/-- The boot context, or the actor of a slot. -/
abbrev Thread := Option Slot

/-- Where the linker put `kernel_stacks[][]`, `actors[]` (whose first field is `rsp`) and
`scheduler_rsp`, and the boot stack: disjoint, and below 1MB. -/
structure StackLayout where
  kernelStacks : Nat
  actors : Nat
  actorSize : Nat
  schedulerRsp : Nat
  bootLo : Nat
  bootHi : Nat
  trampoline : Word
  isrStub : Vector → Word
  handler : Vector → Word
  back : Vector → Word
  stacks_aligned : kernelStacks % 16 = 0
  boot_order : bootLo ≤ bootHi
  actor_wide : 8 ≤ actorSize
  stacks_boot : kernelStacks + kernelStackSize * maxActors ≤ bootLo ∨ bootHi ≤ kernelStacks
  stacks_actors : kernelStacks + kernelStackSize * maxActors ≤ actors ∨
    actors + actorSize * maxActors ≤ kernelStacks
  stacks_scheduler : kernelStacks + kernelStackSize * maxActors ≤ schedulerRsp ∨
    schedulerRsp + 8 ≤ kernelStacks
  boot_actors : bootHi ≤ actors ∨ actors + actorSize * maxActors ≤ bootLo
  boot_scheduler : bootHi ≤ schedulerRsp ∨ schedulerRsp + 8 ≤ bootLo
  actors_scheduler : actors + actorSize * maxActors ≤ schedulerRsp ∨ schedulerRsp + 8 ≤ actors
  stacks_low : kernelStacks + kernelStackSize * maxActors ≤ commonsEnd
  actors_low : actors + actorSize * maxActors ≤ commonsEnd
  scheduler_low : schedulerRsp + 8 ≤ commonsEnd
  boot_low : bootHi ≤ commonsEnd

variable {S : StackLayout}

namespace StackLayout

/-- The low end of a thread's ring-0 stack. -/
def lo (S : StackLayout) : Thread → Nat
  | none => S.bootLo
  | some i => S.kernelStacks + kernelStackSize * i

/-- The high end: for an actor, `hal_get_kernel_stack_top(i)`. -/
def hi (S : StackLayout) : Thread → Nat
  | none => S.bootHi
  | some i => S.kernelStacks + kernelStackSize * i + kernelStackSize

/-- Where a switch saves a thread's stack pointer: `&actors[i].rsp`, or `&scheduler_rsp`. -/
def cell (S : StackLayout) : Thread → Nat
  | none => S.schedulerRsp
  | some i => S.actors + S.actorSize * i

theorem lo_le_hi (t : Thread) : S.lo t ≤ S.hi t := by
  cases t with
  | none => exact S.boot_order
  | some i => exact Nat.le_add_right _ _

/-- A slot's stack lies inside the array. -/
theorem slot_bounds (i : Slot) : S.kernelStacks ≤ S.lo (some i) ∧
    S.hi (some i) ≤ S.kernelStacks + kernelStackSize * maxActors := by
  have hi := i.isLt
  simp only [lo, StackLayout.hi, kernelStackSize, maxActors] at *
  omega

/-- A slot's saved stack pointer lies inside the table. -/
theorem cell_bounds (i : Slot) : S.actors ≤ S.cell (some i) ∧
    S.cell (some i) + 8 ≤ S.actors + S.actorSize * maxActors := by
  have hwide := S.actor_wide
  have hle : S.actorSize * ((i : Nat) + 1) ≤ S.actorSize * maxActors :=
    Nat.mul_le_mul_left _ i.isLt
  rw [Nat.mul_succ] at hle
  simp only [cell]
  omega

theorem hi_low (t : Thread) : S.hi t ≤ commonsEnd := by
  cases t with
  | none => exact S.boot_low
  | some i => exact Nat.le_trans (slot_bounds i).2 S.stacks_low

theorem cell_low (t : Thread) : S.cell t + 8 ≤ commonsEnd := by
  cases t with
  | none => exact S.scheduler_low
  | some i => exact Nat.le_trans (cell_bounds i).2 S.actors_low

/-- Two threads' stacks are disjoint. -/
theorem stack_apart {t u : Thread} (h : t ≠ u) : S.hi t ≤ S.lo u ∨ S.hi u ≤ S.lo t := by
  cases t with
  | none =>
      cases u with
      | none => exact absurd rfl h
      | some j =>
          have hj := slot_bounds (S := S) j
          have hboot := S.stacks_boot
          simp only [lo, hi] at *
          omega
  | some i =>
      cases u with
      | none =>
          have hi' := slot_bounds (S := S) i
          have hboot := S.stacks_boot
          simp only [lo, hi] at *
          omega
      | some j =>
          have hne : (i : Nat) ≠ j := fun heq => h (congrArg some (Fin.ext heq))
          simp only [lo, hi, kernelStackSize]
          omega

/-- No saved stack pointer lies on a stack. -/
theorem cell_apart (t u : Thread) : S.cell t + 8 ≤ S.lo u ∨ S.hi u ≤ S.cell t := by
  have hactors := S.stacks_actors
  have hsched := S.stacks_scheduler
  have hboot := S.boot_actors
  have hboot' := S.boot_scheduler
  cases t with
  | none =>
      cases u with
      | none =>
          simp only [cell, lo, hi]
          omega
      | some j =>
          have hj := slot_bounds (S := S) j
          simp only [cell] at *
          omega
  | some i =>
      have hi' := cell_bounds (S := S) i
      cases u with
      | none =>
          simp only [lo, hi] at *
          omega
      | some j =>
          have hj := slot_bounds (S := S) j
          omega

/-- Two threads' saved stack pointers are disjoint. -/
theorem cells_apart {t u : Thread} (h : t ≠ u) :
    S.cell t + 8 ≤ S.cell u ∨ S.cell u + 8 ≤ S.cell t := by
  have hsched := S.actors_scheduler
  cases t with
  | none =>
      cases u with
      | none => exact absurd rfl h
      | some j =>
          have hj := cell_bounds (S := S) j
          simp only [cell] at *
          omega
  | some i =>
      cases u with
      | none =>
          have hi' := cell_bounds (S := S) i
          simp only [cell] at *
          omega
      | some j =>
          have hne : (i : Nat) ≠ j := fun heq => h (congrArg some (Fin.ext heq))
          have hwide := S.actor_wide
          simp only [cell]
          rcases Nat.lt_or_gt_of_ne hne with hlt | hlt
          · have hle : S.actorSize * ((i : Nat) + 1) ≤ S.actorSize * j :=
              Nat.mul_le_mul_left _ hlt
            rw [Nat.mul_succ] at hle
            omega
          · have hle : S.actorSize * ((j : Nat) + 1) ≤ S.actorSize * i :=
              Nat.mul_le_mul_left _ hlt
            rw [Nat.mul_succ] at hle
            omega

end StackLayout

/-! ## The machine -/

/-- An interrupt that has not returned yet: the processor when it came, the stack pointer at the
first instruction of its handler, and, once the handler has returned, what is left of the stub
and what the handler left in RAX. -/
structure Activation where
  vector : Vector
  saved : Cpu
  entry : Nat
  exit : Option (List Instr)
  result : Word

/-- How a thread that does not run has given up the processor. -/
inductive Parked where
  | never
  | fresh
  | called (cpu : Cpu)

/-- The processor, the running thread, and what every thread is in the middle of, innermost
interrupt first. -/
structure Core where
  cpu : Cpu
  mmu : Mmu
  rsp0 : Word
  current : Thread
  inside : Thread → List Activation
  parked : Thread → Parked

/-- The lowest byte of its own stack that a thread inside `as` must leave alone. -/
def floor : List Activation → Option Nat
  | [] => none
  | a :: _ => some a.entry

/-- The thread runs compiled code, not the way out of a stub. -/
def Compiled : List Activation → Prop
  | [] => True
  | a :: _ => a.exit = none

/-- The running address space has 0-1MB mapped to itself. -/
def Core.Commons (s : Core) : Prop := Mapped (s.mmu s.cpu.cr3) 0 commonsEnd

/-- What the running thread's code keeps of memory: the other stacks, the saved stack pointers, and its
own stack from `limit` on. -/
structure CodeKept (S : StackLayout) (t : Thread) (limit : Option Nat) (m m' : Mem) : Prop where
  others : ∀ u, u ≠ t → ∀ x, S.lo u ≤ x → x < S.hi u → m' x = m x
  cells : ∀ u x, S.cell u ≤ x → x < S.cell u + 8 → m' x = m x
  own : ∀ f ∈ limit, ∀ x, f ≤ x → x < S.hi t → m' x = m x

/-- One step of the processor. -/
inductive CoreStep (S : StackLayout) : Core → Core → Prop
  /-- The running thread's own code: ring 3, or compiled C. -/
  | run {s : Core} (cpu : Cpu) (mmu : Mmu)
      (hcode : Compiled (s.inside s.current))
      (hring : Ring3 cpu ↔ Ring3 s.cpu)
      (hkept : CodeKept S s.current (floor (s.inside s.current)) s.cpu.mem cpu.mem)
      (hfloor : ∀ f ∈ floor (s.inside s.current), (cpu.reg .rsp).toNat ≤ f) :
      CoreStep S s { s with cpu := cpu, mmu := mmu }
  /-- An interrupt, up to the first instruction of its handler. -/
  | trap {s : Core} {i : Slot} {e : Cpu} (v : Vector)
      (hthread : s.current = some i)
      (hring : Ring3 s.cpu ↔ s.inside s.current = [])
      (hsyscall : v = .syscall → s.inside s.current = [])
      (hcommons : s.Commons)
      (hroom : S.lo s.current + 184 ≤ (frameTop s.rsp0 s.cpu).toNat)
      (hexec : (interrupt s.mmu s.rsp0 (S.isrStub v) s.cpu).bind
        (exec s.mmu (isrEntry v (S.handler v) (S.back v))) = some e) :
      CoreStep S s
        { s with
          cpu := e
          inside := Function.update s.inside s.current
            (⟨v, s.cpu, (e.reg .rsp).toNat, none, 0⟩ :: s.inside s.current) }
  /-- The `ret` of a handler. -/
  | finish {s : Core} {a : Activation} {as : List Activation} {cpu : Cpu}
      (hinside : s.inside s.current = a :: as) (hcode : a.exit = none)
      (hcommons : s.Commons)
      (hrsp : (s.cpu.reg .rsp).toNat = a.entry)
      (hexec : exec s.mmu [.ret] s.cpu = some cpu) :
      CoreStep S s
        { s with
          cpu := cpu
          inside := Function.update s.inside s.current
            ({ a with exit := some (isrExit a.vector), result := cpu.reg .rax } :: as) }
  /-- One instruction of a stub on its way out; the last one is the `iretq`. -/
  | unwind {s : Core} {a : Activation} {as : List Activation} {i : Instr} {is : List Instr}
      {cpu : Cpu}
      (hinside : s.inside s.current = a :: as) (hcode : a.exit = some (i :: is))
      (hcommons : s.Commons)
      (hexec : execInstr s.mmu s.cpu i = some cpu) :
      CoreStep S s
        { s with
          cpu := cpu
          inside := Function.update s.inside s.current
            (if is = [] then as else { a with exit := some is } :: as) }
  /-- A call of `hal_context_switch` from `schedule_next`, which has set RSP0. -/
  | switch {s : Core} {i : Slot} {cpu : Cpu}
      (hother : s.current ≠ some i)
      (hcode : Compiled (s.inside s.current))
      (hkernel : s.current = none ∨ s.inside s.current ≠ [])
      (hspawned : s.parked (some i) ≠ .never)
      (hcommons : s.Commons)
      (hnext : Mapped (s.mmu (s.cpu.reg .rdx)) 0 commonsEnd)
      (hrdi : (s.cpu.reg .rdi).toNat = S.cell s.current)
      (hrsi : (s.cpu.reg .rsi).toNat = read64 s.cpu.mem (S.cell (some i)))
      (hroom : S.lo s.current + 48 ≤ (s.cpu.reg .rsp).toNat)
      (htop : (s.cpu.reg .rsp).toNat + 8 ≤ S.hi s.current)
      (hfloor : ∀ f ∈ floor (s.inside s.current), (s.cpu.reg .rsp).toNat + 8 ≤ f)
      (hexec : exec s.mmu halContextSwitch s.cpu = some cpu) :
      CoreStep S s
        { s with
          cpu := cpu
          rsp0 := BitVec.ofNat 64 (S.hi (some i))
          current := some i
          parked := Function.update s.parked s.current (.called s.cpu) }
  /-- `actor_spawn` builds the frame of a new occupant of slot `i`. -/
  | spawn {s : Core} {i : Slot} (hother : s.current ≠ some i) :
      CoreStep S s
        { s with
          cpu :=
            { s.cpu with
              mem := write64 (spawnFrame S.trampoline (S.hi (some i)) s.cpu.mem)
                (S.cell (some i)) (spawnRsp (S.hi (some i))) }
          inside := Function.update s.inside (some i) []
          parked := Function.update s.parked (some i) .fresh }
  /-- `hal_enter_user_mode`, called by `actor_trampoline`. -/
  | enterUser {s : Core} {i : Slot} {cpu : Cpu}
      (hthread : s.current = some i) (hinside : s.inside s.current = [])
      (hring : ¬ Ring3 s.cpu)
      (hcommons : s.Commons)
      (hroom : S.lo s.current + 40 ≤ (s.cpu.reg .rsp).toNat)
      (htop : (s.cpu.reg .rsp).toNat ≤ S.hi s.current)
      (hexec : exec s.mmu halEnterUserMode s.cpu = some cpu) :
      CoreStep S s { s with cpu := cpu }

/-- The processor when `kernel_main` has started it: nobody has been spawned. -/
def powerOnCore (cpu : Cpu) (mmu : Mmu) : Core where
  cpu := cpu
  mmu := mmu
  rsp0 := 0
  current := none
  inside _ := []
  parked _ := .never

/-- The states of the processor over all interleavings. -/
inductive CoreReached (S : StackLayout) : Core → Prop
  | start (cpu : Cpu) (mmu : Mmu) : CoreReached S (powerOnCore cpu mmu)
  | step {s s' : Core} (before : CoreReached S s) (hstep : CoreStep S s s') : CoreReached S s'

/-! ## What the stacks hold -/

/-- The general registers an interrupted computation is to go on with: its own, but RAX holds the
result of a system call. -/
def Activation.target (a : Activation) : Reg → Word :=
  if a.vector = .syscall then Function.update a.saved.reg .rax a.result else a.saved.reg

/-- The frame of an interrupt. -/
def frameWords (c : Cpu) : List Word := [c.rip, c.cs, c.rflags, c.reg .rsp, c.ss]

/-- The way out of a stub: what is left of the code, and what the processor and the stack hold by
then. -/
inductive Unwinding (m : Mem) (c : Cpu) (a : Activation) : List Instr → Prop
  | result (hv : a.vector = .syscall) (hrsp : (c.reg .rsp).toNat = a.entry + 8)
      (hrax : c.reg .rax = a.result)
      (hwords : WordsAt m (a.entry + 8) (trapWords a.saved.reg a.vector a.saved)) :
      Unwinding m c a (isrExit a.vector)
  | pops (restored rest : List Reg) (hsplit : savedRegs.reverse = restored ++ rest)
      (hrsp : (c.reg .rsp).toNat = a.entry + 8 + 8 * restored.length)
      (hregs : ∀ r ∈ restored, c.reg r = a.target r)
      (hwords : WordsAt m (c.reg .rsp).toNat
        (rest.map a.target ++ [a.vector.number, 0] ++ frameWords a.saved)) :
      Unwinding m c a (rest.map .pop ++ [.addImm .rsp 16, .iretq])
  | iret (hrsp : (c.reg .rsp).toNat = a.entry + 144)
      (hregs : ∀ r, r ≠ .rsp → c.reg r = a.target r)
      (hwords : WordsAt m (c.reg .rsp).toNat (frameWords a.saved)) :
      Unwinding m c a [.iretq]

/-- Where the processor `c` is within the interrupt `a`: in compiled code below the frame, or on the way
out of the stub. -/
inductive Phase (back : Word) (m : Mem) (c : Cpu) (a : Activation) : Option (List Instr) → Prop
  | handling (hrsp : (c.reg .rsp).toNat ≤ a.entry)
      (hwords : WordsAt m a.entry (back :: trapWords a.saved.reg a.vector a.saved)) :
      Phase back m c a none
  | unwinding {is : List Instr} (h : Unwinding m c a is) : Phase back m c a (some is)

/-- The processor `c` is within the interrupt `a`, on the stack of `t`. -/
structure Inside (S : StackLayout) (t : Thread) (m : Mem) (c : Cpu) (a : Activation) : Prop where
  lower : S.lo t ≤ a.entry
  upper : a.entry + 184 ≤ S.hi t
  phase : Phase (S.back a.vector) m c a a.exit

/-- The processor `c` is within the interrupts `as`, each of which interrupted the next. -/
def Chain (S : StackLayout) (t : Thread) (m : Mem) : Cpu → List Activation → Prop
  | _, [] => True
  | c, a :: as =>
      Inside S t m c a ∧
      (as ≠ [] → a.vector ≠ .syscall ∧ a.entry + 184 ≤ (a.saved.reg .rsp).toNat) ∧
      Chain S t m a.saved as

/-- The lowest byte that what `c` does next depends on. -/
def bottom (c : Cpu) (a : Activation) : Nat :=
  if a.exit = none then a.entry else (c.reg .rsp).toNat

variable {m m' : Mem} {c : Cpu} {a : Activation} {t : Thread}

theorem Unwinding.rsp_bounds {is : List Instr} (h : Unwinding m c a is) :
    a.entry + 8 ≤ (c.reg .rsp).toNat ∧ (c.reg .rsp).toNat ≤ a.entry + 144 := by
  cases h with
  | result hv hrsp _ _ => omega
  | pops restored rest hsplit hrsp _ _ =>
      have hlen := congrArg List.length hsplit
      rw [List.length_append, List.length_reverse, show savedRegs.length = 15 from rfl] at hlen
      omega
  | iret hrsp _ _ => omega

theorem Unwinding.ne_nil {is : List Instr} (h : Unwinding m c a is) : is ≠ [] := by
  cases h with
  | result hv _ _ _ =>
      rw [hv]
      exact List.cons_ne_nil _ _
  | pops => simp
  | iret => simp

theorem Inside.bottom_bounds (h : Inside S t m c a) :
    (c.reg .rsp).toNat ≤ bottom c a ∧ bottom c a ≤ a.entry + 184 := by
  have hphase := h.phase
  unfold bottom
  cases hexit : a.exit with
  | none =>
      rw [hexit] at hphase
      cases hphase with
      | handling hrsp _ =>
          rw [if_pos rfl]
          omega
  | some is =>
      rw [hexit] at hphase
      cases hphase with
      | unwinding hun =>
          have hrsp := hun.rsp_bounds
          rw [if_neg (by simp)]
          omega

theorem Unwinding.congr {is : List Instr} (h : Unwinding m c a is)
    (hsame : ∀ x, (c.reg .rsp).toNat ≤ x → x < a.entry + 184 → m x = m' x) :
    Unwinding m' c a is := by
  cases h with
  | result hv hrsp hrax hwords =>
      apply Unwinding.result hv hrsp hrax
      apply hwords.congr
      intro x h1 h2
      rw [show (trapWords a.saved.reg a.vector a.saved).length = 22 from rfl] at h2
      exact hsame x (by omega) (by omega)
  | pops restored rest hsplit hrsp hregs hwords =>
      apply Unwinding.pops restored rest hsplit hrsp hregs
      apply hwords.congr
      intro x h1 h2
      have hlen := congrArg List.length hsplit
      rw [List.length_append, List.length_reverse, show savedRegs.length = 15 from rfl] at hlen
      simp only [List.length_append, List.length_map, List.length_cons, List.length_nil,
        frameWords] at h2
      exact hsame x h1 (by omega)
  | iret hrsp hregs hwords =>
      apply Unwinding.iret hrsp hregs
      apply hwords.congr
      intro x h1 h2
      simp only [List.length_cons, List.length_nil, frameWords] at h2
      exact hsame x h1 (by omega)

theorem Inside.congr (h : Inside S t m c a)
    (hsame : ∀ x, bottom c a ≤ x → x < S.hi t → m x = m' x) : Inside S t m' c a := by
  have hupper := h.upper
  refine ⟨h.lower, hupper, ?_⟩
  have hphase := h.phase
  unfold bottom at hsame
  cases hexit : a.exit with
  | none =>
      rw [hexit] at hphase
      rw [if_pos hexit] at hsame
      cases hphase with
      | handling hrsp hwords =>
          apply Phase.handling hrsp
          apply hwords.congr
          intro x h1 h2
          rw [show (S.back a.vector :: trapWords a.saved.reg a.vector a.saved).length = 23
            from rfl] at h2
          exact hsame x h1 (by omega)
  | some is =>
      rw [hexit] at hphase
      rw [if_neg (by simp [hexit])] at hsame
      cases hphase with
      | unwinding hun =>
          exact Phase.unwinding (hun.congr fun x h1 h2 => hsame x h1 (by omega))

/-- **What lies below the interrupted stack pointer does not matter** to the interrupted code. -/
theorem Chain.congr {as : List Activation} (h : Chain S t m c as)
    (hsame : ∀ x, (∀ a ∈ as.head?, bottom c a ≤ x) → x < S.hi t → m x = m' x) :
    Chain S t m' c as := by
  induction as generalizing c with
  | nil => trivial
  | cons a as ih =>
      obtain ⟨hin, hgap, hrest⟩ := h
      have hhead : ∀ x, bottom c a ≤ x → x < S.hi t → m x = m' x := by
        intro x h1 h2
        apply hsame x _ h2
        intro b hb
        cases hb
        exact h1
      refine ⟨hin.congr hhead, hgap, ?_⟩
      cases as with
      | nil => trivial
      | cons b bs =>
          have hgap' := (hgap (List.cons_ne_nil b bs)).2
          have hb := hrest.1.bottom_bounds
          have ha := hin.bottom_bounds
          apply ih hrest
          intro x h1 h2
          have hle := h1 b rfl
          exact hhead x (by omega) h2

/-- The outer interrupts depend on what lies above the interrupted stack pointer. -/
theorem Chain.congr_above {as : List Activation} {n : Nat} (h : Chain S t m c as)
    (hgap : as ≠ [] → n ≤ (c.reg .rsp).toNat)
    (hsame : ∀ x, n ≤ x → x < S.hi t → m x = m' x) : Chain S t m' c as := by
  cases as with
  | nil => trivial
  | cons b bs =>
      have hn := hgap (List.cons_ne_nil b bs)
      have hb := h.1.bottom_bounds
      apply h.congr
      intro x h1 h2
      have hle := h1 b rfl
      exact hsame x (by omega) h2

/-- Only the general registers of the interrupted computation count. -/
theorem Unwinding.congr_reg {c' : Cpu} {is : List Instr} (h : Unwinding m c a is)
    (hreg : c'.reg = c.reg) : Unwinding m c' a is := by
  cases h with
  | result hv hrsp hrax hwords => exact Unwinding.result hv (hreg ▸ hrsp) (hreg ▸ hrax) hwords
  | pops restored rest hsplit hrsp hregs hwords =>
      exact Unwinding.pops restored rest hsplit (hreg ▸ hrsp) (hreg ▸ hregs) (hreg ▸ hwords)
  | iret hrsp hregs hwords => exact Unwinding.iret (hreg ▸ hrsp) (hreg ▸ hregs) (hreg ▸ hwords)

theorem Chain.congr_reg {c' : Cpu} {as : List Activation} (h : Chain S t m c as)
    (hreg : c'.reg = c.reg) : Chain S t m c' as := by
  cases as with
  | nil => trivial
  | cons a as =>
      obtain ⟨⟨hlower, hupper, hphase⟩, hgap, hrest⟩ := h
      refine ⟨⟨hlower, hupper, ?_⟩, hgap, hrest⟩
      cases hexit : a.exit with
      | none =>
          rw [hexit] at hphase
          cases hphase with
          | handling hrsp hwords => exact Phase.handling (hreg ▸ hrsp) hwords
      | some is =>
          rw [hexit] at hphase
          cases hphase with
          | unwinding hun => exact Phase.unwinding (hun.congr_reg hreg)

/-- What is left of the code is the activation's own affair. -/
theorem Unwinding.with_exit {is : List Instr} (exit : Option (List Instr)) (h : Unwinding m c a is) :
    Unwinding m c { a with exit := exit } is := by
  cases h with
  | result hv hrsp hrax hwords => exact Unwinding.result hv hrsp hrax hwords
  | pops restored rest hsplit hrsp hregs hwords =>
      exact Unwinding.pops restored rest hsplit hrsp hregs hwords
  | iret hrsp hregs hwords => exact Unwinding.iret hrsp hregs hwords

/-- A thread that is switched out in the call of `hal_context_switch` it made as `c`. -/
structure Suspended (S : StackLayout) (t : Thread) (m : Mem) (c : Cpu) (as : List Activation) :
    Prop where
  room : S.lo t + 48 ≤ (c.reg .rsp).toNat
  top : (c.reg .rsp).toNat + 8 ≤ S.hi t
  cell : read64 m (S.cell t) = (c.reg .rsp).toNat - 48
  words : WordsAt m ((c.reg .rsp).toNat - 48)
    (switchWords c.reg (BitVec.ofNat 64 (read64 c.mem (c.reg .rsp).toNat)))
  stack : ∀ x, (c.reg .rsp).toNat ≤ x → x < S.hi t → m x = c.mem x
  code : Compiled as
  below : ∀ f ∈ floor as, (c.reg .rsp).toNat + 8 ≤ f
  chain : Chain S t m c as

/-- A thread whose stack holds nothing but the frame it was spawned with. -/
structure Fresh (S : StackLayout) (t : Thread) (m : Mem) (as : List Activation) : Prop where
  inside : as = []
  cell : read64 m (S.cell t) = S.hi t - 56
  words : WordsAt m (S.hi t - 56) (switchWords (fun _ => 0) S.trampoline)

/-- Two memories agree on everything a thread that does not run relies on. -/
def SameStack (S : StackLayout) (t : Thread) (m m' : Mem) : Prop :=
  (∀ x, S.lo t ≤ x → x < S.hi t → m x = m' x) ∧
    ∀ x, S.cell t ≤ x → x < S.cell t + 8 → m x = m' x

theorem Inside.lo_le_bottom (h : Inside S t m c a) : S.lo t ≤ bottom c a := by
  have hlower := h.lower
  have hphase := h.phase
  unfold bottom
  cases hexit : a.exit with
  | none =>
      rw [if_pos rfl]
      exact hlower
  | some is =>
      rw [hexit] at hphase
      cases hphase with
      | unwinding hun =>
          have hrsp := hun.rsp_bounds
          rw [if_neg (by simp)]
          omega

theorem Chain.of_sameStack {as : List Activation} (h : Chain S t m c as)
    (hsame : SameStack S t m m') : Chain S t m' c as := by
  cases as with
  | nil => trivial
  | cons a as =>
      apply h.congr
      intro x h1 h2
      have hle := h1 a rfl
      have hlo := h.1.lo_le_bottom
      exact hsame.1 x (by omega) h2

theorem Suspended.congr {as : List Activation} (h : Suspended S t m c as)
    (hsame : SameStack S t m m') : Suspended S t m' c as := by
  have hroom := h.room
  have htop := h.top
  obtain ⟨hstack, hcell⟩ := hsame
  refine ⟨hroom, htop, ?_, ?_, ?_, h.code, h.below, ?_⟩
  · rw [← h.cell]
    exact readLE_congr fun x h1 h2 => (hcell x h1 h2).symm
  · apply h.words.congr
    intro x h1 h2
    simp only [switchWords, List.length_cons, List.length_nil] at h2
    exact hstack x (by omega) (by omega)
  · intro x h1 h2
    rw [← h.stack x h1 h2]
    exact (hstack x (by omega) h2).symm
  · exact h.chain.of_sameStack ⟨hstack, hcell⟩

theorem Fresh.congr {as : List Activation} (h : Fresh S t m as) (hsame : SameStack S t m m')
    (hdeep : S.lo t + 56 ≤ S.hi t) : Fresh S t m' as := by
  obtain ⟨hstack, hcell⟩ := hsame
  refine ⟨h.inside, ?_, ?_⟩
  · rw [← h.cell]
    exact readLE_congr fun x h1 h2 => (hcell x h1 h2).symm
  · apply h.words.congr
    intro x h1 h2
    simp only [switchWords, List.length_cons, List.length_nil] at h2
    exact hstack x (by omega) (by omega)

theorem CodeKept.sameStack {limit : Option Nat} {u : Thread} (h : CodeKept S t limit m m') (hu : u ≠ t) :
    SameStack S u m m' :=
  ⟨fun x h1 h2 => (h.others u hu x h1 h2).symm, fun x h1 h2 => (h.cells u x h1 h2).symm⟩

/-- **The invariant of the processor.** -/
structure CoreInv (S : StackLayout) (s : Core) : Prop where
  rsp0 : ∀ i, s.current = some i → s.rsp0.toNat = S.hi (some i)
  boot : s.inside none = []
  running : Chain S s.current s.cpu.mem s.cpu (s.inside s.current)
  fresh : ∀ i, s.current ≠ some i → s.parked (some i) = .fresh →
    Fresh S (some i) s.cpu.mem (s.inside (some i))
  called : ∀ i c, s.current ≠ some i → s.parked (some i) = .called c →
    Suspended S (some i) s.cpu.mem c (s.inside (some i))

theorem powerOnCore_inv (cpu : Cpu) (mmu : Mmu) : CoreInv S (powerOnCore cpu mmu) where
  rsp0 i h := by cases h
  boot := rfl
  running := trivial
  fresh i _ h := by cases h
  called i c _ h := by cases h

theorem slot_deep (i : Slot) : S.lo (some i) + 56 ≤ S.hi (some i) := by
  simp only [StackLayout.lo, StackLayout.hi, kernelStackSize]
  omega

/-- A step of the running thread that leaves the others' stacks alone. -/
theorem CoreInv.of_running {s s' : Core} (h : CoreInv S s) (hcurrent : s'.current = s.current)
    (hrsp0 : s'.rsp0 = s.rsp0) (hparked : s'.parked = s.parked)
    (hinside : ∀ u, u ≠ s.current → s'.inside u = s.inside u) (hboot : s'.inside none = [])
    (hsame : ∀ u, u ≠ s.current → SameStack S u s.cpu.mem s'.cpu.mem)
    (hrunning : Chain S s.current s'.cpu.mem s'.cpu (s'.inside s.current)) : CoreInv S s' where
  rsp0 i hi := by
    rw [hrsp0]
    exact h.rsp0 i (hcurrent ▸ hi)
  boot := hboot
  running := by
    rw [hcurrent]
    exact hrunning
  fresh i hi hp := by
    rw [hcurrent] at hi
    rw [hparked] at hp
    rw [hinside _ hi.symm]
    exact (h.fresh i hi hp).congr (hsame _ hi.symm) (slot_deep i)
  called i c hi hp := by
    rw [hcurrent] at hi
    rw [hparked] at hp
    rw [hinside _ hi.symm]
    exact (h.called i c hi hp).congr (hsame _ hi.symm)

/-- The running thread's own code keeps the invariant. -/
theorem run_inv {s : Core} {cpu : Cpu} (mmu : Mmu) (h : CoreInv S s)
    (hcode : Compiled (s.inside s.current))
    (hkept : CodeKept S s.current (floor (s.inside s.current)) s.cpu.mem cpu.mem)
    (hfloor : ∀ f ∈ floor (s.inside s.current), (cpu.reg .rsp).toNat ≤ f) :
    CoreInv S { s with cpu := cpu, mmu := mmu } := by
  refine h.of_running rfl rfl rfl (fun _ _ => rfl) h.boot (fun u hu => hkept.sameStack hu) ?_
  have hrun := h.running
  show Chain S s.current cpu.mem cpu (s.inside s.current)
  cases hinside : s.inside s.current with
  | nil => trivial
  | cons a as =>
      rw [hinside] at hrun hcode hkept hfloor
      obtain ⟨hin, hgap, hrest⟩ := hrun
      have hexit : a.exit = none := hcode
      have hupper := hin.upper
      have hphase := hin.phase
      rw [hexit] at hphase
      have hown : ∀ x, a.entry ≤ x → x < S.hi s.current → s.cpu.mem x = cpu.mem x :=
        fun x h1 h2 => (hkept.own a.entry rfl x h1 h2).symm
      refine ⟨⟨hin.lower, hupper, ?_⟩, hgap, ?_⟩
      · rw [hexit]
        cases hphase with
        | handling hrsp hwords =>
            apply Phase.handling (hfloor a.entry rfl)
            apply hwords.congr
            intro x h1 h2
            rw [show (S.back a.vector :: trapWords a.saved.reg a.vector a.saved).length = 23
              from rfl] at h2
            exact hown x h1 (by omega)
      · apply hrest.congr_above fun hne => (hgap hne).2
        exact fun x h1 h2 => hown x (by omega) h2

/-- What a block of stack writes below `top` leaves alone. -/
theorem sameStack_of_outside {lo hi : Nat} (hlo : S.lo t ≤ lo) (hhi : hi ≤ S.hi t)
    (hout : ∀ x, x < lo ∨ hi ≤ x → m' x = m x) {u : Thread} (hu : u ≠ t) : SameStack S u m m' := by
  have hapart := S.stack_apart hu
  have hcell := S.cell_apart u t
  have hle := S.lo_le_hi u
  refine ⟨fun x h1 h2 => (hout x ?_).symm, fun x h1 h2 => (hout x ?_).symm⟩
  · rcases hapart with h | h
    · exact Or.inl (by omega)
    · exact Or.inr (by omega)
  · rcases hcell with h | h
    · exact Or.inl (by omega)
    · exact Or.inr (by omega)

/-- The processor's stack, in terms of the layout. -/
theorem Core.Commons.onStack {s : Core} (h : s.Commons) (t : Thread)
    (hlo : S.lo t ≤ (s.cpu.reg .rsp).toNat) (hhi : (s.cpu.reg .rsp).toNat ≤ S.hi t) :
    s.cpu.OnStack s.mmu (S.lo t) (S.hi t) :=
  ⟨h.mono (Nat.zero_le _) (S.hi_low t), hlo, hhi⟩

theorem StackLayout.hi_lt (t : Thread) : S.hi t < 2 ^ 64 := by
  have hlow := S.hi_low t
  simp only [commonsEnd] at hlow
  omega

/-- An interrupt's frame goes on the free part of the running thread's stack. -/
theorem frameTop_bounds {s : Core} {i : Slot} (h : CoreInv S s) (hthread : s.current = some i)
    (hring : Ring3 s.cpu ↔ s.inside s.current = []) :
    (frameTop s.rsp0 s.cpu).toNat ≤ S.hi s.current ∧
    ∀ a ∈ (s.inside s.current).head?, (frameTop s.rsp0 s.cpu).toNat ≤ (s.cpu.reg .rsp).toNat ∧
      (s.cpu.reg .rsp).toNat ≤ bottom s.cpu a := by
  have hrun := h.running
  have hrsp0 := h.rsp0 i hthread
  rw [frameTop_toNat]
  cases hinside : s.inside s.current with
  | nil =>
      rw [if_pos (hring.mpr hinside), hrsp0, hthread]
      refine ⟨by omega, ?_⟩
      intro a ha
      cases ha
  | cons a as =>
      rw [hinside] at hrun
      have hnot : ¬ Ring3 s.cpu := fun hr => by simp [hring.mp hr] at hinside
      have hbottom := hrun.1.bottom_bounds
      have hupper := hrun.1.upper
      rw [if_neg hnot]
      refine ⟨by omega, ?_⟩
      intro b hb
      cases hb
      exact ⟨by omega, hbottom.1⟩

/-- From ring 3 it goes to the top. -/
theorem frameTop_ring3 {s : Core} {i : Slot} (h : CoreInv S s) (hthread : s.current = some i)
    (hring : Ring3 s.cpu) : (frameTop s.rsp0 s.cpu).toNat = S.hi s.current := by
  have haligned := S.stacks_aligned
  rw [frameTop_toNat, if_pos hring, h.rsp0 i hthread, hthread]
  simp only [StackLayout.hi, kernelStackSize]
  omega

/-- An interrupt keeps the invariant. -/
theorem trap_inv {s : Core} {i : Slot} {e : Cpu} {v : Vector} (h : CoreInv S s)
    (hthread : s.current = some i) (hring : Ring3 s.cpu ↔ s.inside s.current = [])
    (hsyscall : v = .syscall → s.inside s.current = []) (hcommons : s.Commons)
    (hroom : S.lo s.current + 184 ≤ (frameTop s.rsp0 s.cpu).toNat)
    (hexec : (interrupt s.mmu s.rsp0 (S.isrStub v) s.cpu).bind
      (exec s.mmu (isrEntry v (S.handler v) (S.back v))) = some e) :
    CoreInv S
      { s with
        cpu := e
        inside := Function.update s.inside s.current
          (⟨v, s.cpu, (e.reg .rsp).toNat, none, 0⟩ :: s.inside s.current) } := by
  obtain ⟨hupper, hbelow⟩ := frameTop_bounds h hthread hring
  have hstack : (s.cpu.set .rsp (frameTop s.rsp0 s.cpu)).OnStack s.mmu (S.lo s.current)
      (S.hi s.current) := by
    refine ⟨hcommons.mono (Nat.zero_le _) (S.hi_low _), ?_, ?_⟩
    · rw [set_reg_self]
      omega
    · rw [set_reg_self]
      exact hupper
  obtain ⟨e', hexec', hentered⟩ := interruptEntry_spec s.rsp0 (S.isrStub v) (S.handler v) (S.back v) v
    hstack (S.hi_lt _) hroom
  obtain rfl : e' = e := Option.some.inj (hexec'.symm.trans hexec)
  have hsame : ∀ u, u ≠ s.current → SameStack S u s.cpu.mem e'.mem := fun u hu =>
    sameStack_of_outside (t := s.current) (by omega) hupper hentered.outside hu
  refine h.of_running rfl rfl rfl ?_ ?_ hsame ?_
  · intro u hu
    exact Function.update_of_ne hu _ _
  · show Function.update s.inside s.current _ none = []
    rw [hthread, Function.update_of_ne (by simp)]
    exact h.boot
  · show Chain S s.current e'.mem e' (Function.update s.inside s.current _ s.current)
    rw [Function.update_self]
    refine ⟨⟨?_, ?_, ?_⟩, ?_, ?_⟩
    · show S.lo s.current ≤ (e'.reg .rsp).toNat
      rw [hentered.rsp]
      omega
    · show (e'.reg .rsp).toNat + 184 ≤ S.hi s.current
      rw [hentered.rsp]
      omega
    · apply Phase.handling (Nat.le_refl _)
      show WordsAt e'.mem (e'.reg .rsp).toNat _
      rw [hentered.rsp]
      exact hentered.words
    · show s.inside s.current ≠ [] →
        v ≠ .syscall ∧ (e'.reg .rsp).toNat + 184 ≤ (s.cpu.reg .rsp).toNat
      intro hne
      obtain ⟨a, ha⟩ : ∃ a, a ∈ (s.inside s.current).head? := by
        cases hinside : s.inside s.current with
        | nil => exact absurd hinside hne
        | cons a as => exact ⟨a, rfl⟩
      have hle := (hbelow a ha).1
      refine ⟨fun hv => hne (hsyscall hv), ?_⟩
      rw [hentered.rsp]
      omega
    · have hrun := h.running
      cases hinside : s.inside s.current with
      | nil => trivial
      | cons a as =>
          rw [hinside] at hrun hbelow
          have htop := hbelow a rfl
          apply hrun.congr
          intro x h1 _
          have hle := h1 a rfl
          exact (hentered.outside x (Or.inr (by omega))).symm

/-- The way out of a stub begins with the whole frame on the stack. -/
theorem isrExit_unwinding (hrsp : (c.reg .rsp).toNat = a.entry + 8) (hrax : c.reg .rax = a.result)
    (hwords : WordsAt m (a.entry + 8) (trapWords a.saved.reg a.vector a.saved)) :
    Unwinding m c a (isrExit a.vector) := by
  by_cases hv : a.vector = .syscall
  · exact Unwinding.result hv hrsp hrax hwords
  · have hcode : isrExit a.vector = savedRegs.reverse.map .pop ++ [.addImm .rsp 16, .iretq] := by
      cases hvec : a.vector with
      | syscall => exact absurd hvec hv
      | timer | keyboard => rfl
    have htarget : a.target = a.saved.reg := if_neg hv
    rw [hcode]
    apply Unwinding.pops [] savedRegs.reverse rfl hrsp
    · intro r hr
      cases hr
    · rw [htarget, hrsp]
      exact hwords

/-- The `ret` of a handler goes back into its stub. -/
theorem finish_inv {s : Core} {a : Activation} {as : List Activation} {cpu : Cpu}
    (h : CoreInv S s) (hinside : s.inside s.current = a :: as) (hcode : a.exit = none)
    (hcommons : s.Commons) (hrsp : (s.cpu.reg .rsp).toNat = a.entry)
    (hexec : exec s.mmu [.ret] s.cpu = some cpu) :
    cpu.rip = S.back a.vector ∧
    CoreInv S
      { s with
        cpu := cpu
        inside := Function.update s.inside s.current
          ({ a with exit := some (isrExit a.vector), result := cpu.reg .rax } :: as) } := by
  have hrun := h.running
  rw [hinside] at hrun
  obtain ⟨hin, hgap, hrest⟩ := hrun
  have hlower := hin.lower
  have hupper := hin.upper
  have hlt := S.hi_lt s.current
  have hphase := hin.phase
  rw [hcode] at hphase
  cases hphase with
  | handling _ hwords =>
      obtain ⟨hback, hframe⟩ := hwords
      have hon := hcommons.onStack (S := S) s.current (by omega) (by omega)
      have hpop := hon.pop (w := S.back a.vector) (by omega) (by rw [hrsp]; exact hback)
      simp only [exec, execInstr, hpop, Option.map_some, Option.bind_some, Option.some.injEq] at hexec
      subst hexec
      have hrsp' : ((s.cpu.set .rsp (s.cpu.reg .rsp + 8)).reg .rsp).toNat = a.entry + 8 := by
        have hadd : (s.cpu.reg .rsp + 8).toNat = (s.cpu.reg .rsp).toNat + 8 :=
          add_word (n := 8) (by omega)
        rw [set_reg_self, hadd, hrsp]
      refine ⟨rfl, ?_⟩
      refine h.of_running rfl rfl rfl ?_ ?_ (fun u _ => ⟨fun _ _ _ => rfl, fun _ _ _ => rfl⟩) ?_
      · intro u hu
        exact Function.update_of_ne hu _ _
      · have hne : none ≠ s.current := fun heq => by
          rw [← heq, h.boot] at hinside
          cases hinside
        show Function.update s.inside s.current _ none = []
        rw [Function.update_of_ne hne]
        exact h.boot
      · show Chain S s.current s.cpu.mem _ (Function.update s.inside s.current _ s.current)
        rw [Function.update_self]
        refine ⟨⟨hlower, hupper, Phase.unwinding ?_⟩, hgap, hrest⟩
        exact isrExit_unwinding hrsp' rfl hframe

/-! ## One instruction on the way out -/

/-- What an instruction on the way out leaves: the next state of the way out, in the same memory but for
the saved RAX, or, behind the last one, the interrupted computation. -/
inductive Unwound (c c' : Cpu) (a : Activation) (is : List Instr) : Prop
  | more (hne : is ≠ []) (h : Unwinding c'.mem c' a is) (hcr3 : c'.cr3 = c.cr3)
      (hmem : ∀ x, x < a.entry + 8 ∨ a.entry + 184 ≤ x → c'.mem x = c.mem x)
  | done (hnil : is = []) (hregs : c'.reg = a.target) (hrip : c'.rip = a.saved.rip)
      (hcs : c'.cs = a.saved.cs) (hrflags : c'.rflags = a.saved.rflags)
      (hss : c'.ss = a.saved.ss) (hcr3 : c'.cr3 = c.cr3) (hmem : c'.mem = c.mem)

theorem mem_savedRegs {r : Reg} (h : r ≠ .rsp) : r ∈ savedRegs := by
  cases r <;> first | decide | exact absurd rfl h

theorem target_rsp (a : Activation) : a.target .rsp = a.saved.reg .rsp := by
  unfold Activation.target
  split
  · exact Function.update_of_ne (by decide) _ _
  · rfl

/-- The result of a system call replaces RAX among the saved words. -/
theorem unwind_result (hv : a.vector = .syscall) (hrax : c.reg .rax = a.result)
    (hwords : WordsAt c.mem (a.entry + 8) (trapWords a.saved.reg a.vector a.saved)) :
    WordsAt (write64 c.mem (a.entry + 8 + 112) (c.reg .rax).toNat) (a.entry + 8)
      (savedRegs.reverse.map a.target ++ [a.vector.number, 0] ++ frameWords a.saved) := by
  have hothers : savedRegs.tail.reverse.map a.target = savedRegs.tail.reverse.map a.saved.reg := by
    apply List.map_congr_left
    intro r hr
    have hne : r ≠ .rax := fun heq => absurd (heq ▸ hr) (by decide)
    rw [Activation.target, if_pos hv, Function.update_of_ne hne]
  have hresult : a.target .rax = c.reg .rax := by
    rw [Activation.target, if_pos hv, Function.update_self, hrax]
  have hlen : (savedRegs.tail.reverse.map a.saved.reg).length = 14 := rfl
  have hold : WordsAt c.mem (a.entry + 8) (savedRegs.tail.reverse.map a.saved.reg ++
      (a.saved.reg .rax :: ([a.vector.number, 0] ++ frameWords a.saved))) := hwords
  rw [holds_append, hlen] at hold
  obtain ⟨hlow, _, hhigh⟩ := hold
  show WordsAt _ _ (savedRegs.tail.reverse.map a.target ++
    (a.target .rax :: ([a.vector.number, 0] ++ frameWords a.saved)))
  rw [hothers, hresult, holds_append, hlen]
  refine ⟨?_, ?_, ?_⟩
  · apply hlow.congr
    intro x _ h2
    rw [hlen] at h2
    exact (write64_outside (by omega)).symm
  · show read64 _ (a.entry + 8 + 112) = _
    rw [read64_write64_same, Nat.mod_eq_of_lt (c.reg .rax).isLt]
  · apply hhigh.congr
    intro x h1 _
    exact (write64_outside (by omega)).symm

variable {mmu : Mmu} {lo hi : Nat} {i : Instr} {is : List Instr}

/-- **One instruction of a stub on its way out.** -/
theorem unwind_step (hun : Unwinding c.mem c a (i :: is)) (hon : c.OnStack mmu lo hi)
    (hbound : hi < 2 ^ 64) (hroom : a.entry + 184 ≤ hi) :
    ∃ c', execInstr mmu c i = some c' ∧ Unwound c c' a is := by
  generalize hcode : i :: is = code at hun
  cases hun with
  | result hv hrsp hrax hwords =>
      have hexit : isrExit a.vector =
          .store .rsp 112 .rax :: (savedRegs.reverse.map .pop ++ [.addImm .rsp 16, .iretq]) := by
        rw [hv]
        rfl
      rw [hexit, List.cons.injEq] at hcode
      obtain ⟨rfl, rfl⟩ := hcode
      have haddr : (c.reg .rsp + 112).toNat = a.entry + 8 + 112 := by
        have hadd : (c.reg .rsp + 112).toNat = (c.reg .rsp).toNat + 112 :=
          add_word (n := 112) (by omega)
        rw [hadd, hrsp]
      have hlower := hon.lower
      refine ⟨_, store_mapped hon.mapped (by omega) (by omega), ?_⟩
      rw [haddr]
      apply Unwound.more (by simp)
      · exact Unwinding.pops [] savedRegs.reverse rfl hrsp (fun r hr => by cases hr)
          (by rw [hrsp]; exact unwind_result hv hrax hwords)
      · rfl
      · intro x hx
        exact write64_outside (by omega)
  | pops restored rest hsplit hrsp hregs hwords =>
      cases rest with
      | nil =>
          simp only [List.map_nil, List.nil_append, List.cons.injEq] at hcode
          obtain ⟨rfl, rfl⟩ := hcode
          rw [List.append_nil] at hsplit
          rw [← hsplit, show savedRegs.reverse.length = 15 from rfl] at hrsp
          have hadd : (c.reg .rsp + 16).toNat = (c.reg .rsp).toNat + 16 :=
            add_word (n := 16) (by omega)
          obtain ⟨_, _, hframe⟩ := hwords
          refine ⟨_, rfl, ?_⟩
          apply Unwound.more (by simp)
          · apply Unwinding.iret
            · rw [set_reg_self, hadd, hrsp]
            · intro r hr
              rw [set_reg_of_ne _ hr]
              exact hregs r (hsplit ▸ List.mem_reverse.mpr (mem_savedRegs hr))
            · rw [set_reg_self, hadd]
              exact hframe
          · rfl
          · exact fun _ _ => rfl
      | cons r rest =>
          simp only [List.map_cons, List.cons_append, List.cons.injEq] at hcode
          obtain ⟨rfl, rfl⟩ := hcode
          have hne : r ≠ .rsp := by
            intro heq
            have hmem : r ∈ savedRegs.reverse := by simp [hsplit]
            exact absurd (heq ▸ hmem) (by decide)
          have hlen := congrArg List.length hsplit
          rw [List.length_append, List.length_reverse, show savedRegs.length = 15 from rfl,
            List.length_cons] at hlen
          have hadd : (c.reg .rsp + 8).toNat = (c.reg .rsp).toNat + 8 :=
            add_word (n := 8) (by omega)
          obtain ⟨hword, hrest⟩ := hwords
          have hpop : execInstr mmu c (.pop r)
              = some ((c.set .rsp (c.reg .rsp + 8)).set r (a.target r)) := by
            rw [execInstr, hon.pop (by omega) hword, Option.map_some]
          refine ⟨_, hpop, ?_⟩
          have hrsp' : (((c.set .rsp (c.reg .rsp + 8)).set r (a.target r)).reg .rsp).toNat
              = (c.reg .rsp).toNat + 8 := by
            rw [set_reg_of_ne _ hne.symm, set_reg_self, hadd]
          apply Unwound.more (by simp)
          · apply Unwinding.pops (restored ++ [r]) rest (by simp [hsplit])
            · rw [hrsp', List.length_append, List.length_singleton]
              omega
            · intro q hq
              by_cases hqr : q = r
              · subst hqr
                exact set_reg_self _ _ _
              · have hold : q ∈ restored := by
                  rcases List.mem_append.mp hq with h | h
                  · exact h
                  · exact absurd (List.mem_singleton.mp h) hqr
                have hqrsp : q ≠ .rsp := by
                  intro heq
                  have hmem : q ∈ savedRegs.reverse := by simp [hsplit, hold]
                  exact absurd (heq ▸ hmem) (by decide)
                rw [set_reg_of_ne _ hqr, set_reg_of_ne _ hqrsp]
                exact hregs q hold
            · rw [hrsp']
              exact hrest
          · rfl
          · exact fun _ _ => rfl
  | iret hrsp hregs hwords =>
      rw [List.cons.injEq] at hcode
      obtain ⟨rfl, rfl⟩ := hcode
      refine ⟨_, hon.iret hbound (by omega) hwords, ?_⟩
      refine Unwound.done rfl ?_ rfl rfl rfl rfl rfl rfl
      funext r
      by_cases hr : r = .rsp
      · subst hr
        rw [target_rsp]
        exact set_reg_self c .rsp (a.saved.reg .rsp)
      · rw [← hregs r hr]
        exact set_reg_of_ne c hr (a.saved.reg .rsp)

/-! ## Every step keeps the invariant -/

/-- An instruction of a stub on its way out keeps the invariant, and the last one goes on with the
interrupted computation. -/
theorem unwind_inv {s : Core} {as : List Activation} {cpu : Cpu}
    (h : CoreInv S s) (hinside : s.inside s.current = a :: as) (hcode : a.exit = some (i :: is))
    (hcommons : s.Commons) (hexec : execInstr s.mmu s.cpu i = some cpu) :
    Unwound s.cpu cpu a is ∧
    CoreInv S
      { s with
        cpu := cpu
        inside := Function.update s.inside s.current
          (if is = [] then as else { a with exit := some is } :: as) } := by
  have hrun := h.running
  rw [hinside] at hrun
  obtain ⟨hin, hgap, hrest⟩ := hrun
  have hlower := hin.lower
  have hupper := hin.upper
  have hphase := hin.phase
  rw [hcode] at hphase
  cases hphase with
  | unwinding hun =>
      have hrsp := hun.rsp_bounds
      have hon := hcommons.onStack (S := S) s.current (by omega) (by omega)
      obtain ⟨c', hexec', hstep⟩ := unwind_step hun hon (S.hi_lt _) hupper
      obtain rfl : c' = cpu := Option.some.inj (hexec'.symm.trans hexec)
      have hmem : ∀ x, x < a.entry + 8 ∨ a.entry + 184 ≤ x → c'.mem x = s.cpu.mem x := by
        cases hstep with
        | more _ _ _ hmem => exact hmem
        | done _ _ _ _ _ _ _ hmem => exact fun x _ => congrFun hmem x
      have hsame : ∀ u, u ≠ s.current → SameStack S u s.cpu.mem c'.mem := fun u hu =>
        sameStack_of_outside (t := s.current) (by omega) hupper hmem hu
      refine ⟨hstep, h.of_running rfl rfl rfl ?_ ?_ hsame ?_⟩
      · intro u hu
        exact Function.update_of_ne hu _ _
      · have hne : none ≠ s.current := fun heq => by
          rw [← heq, h.boot] at hinside
          cases hinside
        show Function.update s.inside s.current _ none = []
        rw [Function.update_of_ne hne]
        exact h.boot
      · show Chain S s.current c'.mem c' (Function.update s.inside s.current _ s.current)
        rw [Function.update_self]
        cases hstep with
        | more hne hun' _ _ =>
            rw [if_neg hne]
            refine ⟨⟨hlower, hupper, Phase.unwinding (hun'.with_exit _)⟩, hgap, ?_⟩
            apply hrest.congr_above fun hne => (hgap hne).2
            exact fun x h1 _ => (hmem x (Or.inr h1)).symm
        | done hnil hregs _ _ _ _ _ hmem' =>
            rw [if_pos hnil, hmem']
            cases as with
            | nil => trivial
            | cons b bs =>
                have hv := (hgap (List.cons_ne_nil b bs)).1
                apply hrest.congr_reg
                rw [hregs, Activation.target, if_neg hv]

/-- What a switch leaves of the memory of a thread that is not switched out by it. -/
theorem switchedOut_sameStack {u : Thread} (hu : u ≠ t) (hrdi : (c.reg .rdi).toNat = S.cell t)
    (hroom : S.lo t + 48 ≤ (c.reg .rsp).toNat) (htop : (c.reg .rsp).toNat ≤ S.hi t) :
    SameStack S u c.mem (switchedOut c) := by
  have hstack := S.stack_apart hu
  have hcells := S.cells_apart hu
  have hcell := S.cell_apart u t
  have hcell' := S.cell_apart t u
  have hle := S.lo_le_hi u
  refine ⟨fun x h1 h2 => ?_, fun x h1 h2 => ?_⟩
  · exact (switchedOut_outside (by omega) (by omega) (by rw [hrdi]; omega)).symm
  · exact (switchedOut_outside (by omega) (by omega) (by rw [hrdi]; omega)).symm

/-- **What a switch hands over**: the stack it saved holds the registers a callee has to keep. -/
theorem switchedOut_suspended {as : List Activation} (hrdi : (c.reg .rdi).toNat = S.cell t)
    (hroom : S.lo t + 48 ≤ (c.reg .rsp).toNat) (htop : (c.reg .rsp).toNat + 8 ≤ S.hi t)
    (hcode : Compiled as) (hfloor : ∀ f ∈ floor as, (c.reg .rsp).toNat + 8 ≤ f)
    (hchain : Chain S t c.mem c as) : Suspended S t (switchedOut c) c as := by
  have hlt := S.hi_lt t
  have hcell := S.cell_apart t t
  have habove : ∀ x, (c.reg .rsp).toNat ≤ x → x < S.hi t → switchedOut c x = c.mem x :=
    fun x h1 h2 => switchedOut_outside (by omega) (by omega) (by rw [hrdi]; omega)
  have hsave : read64 (switchedOut c) (S.cell t) = (c.reg .rsp).toNat - 48 := by
    rw [switchedOut, hrdi, read64_write64_same, Nat.mod_eq_of_lt (by omega)]
  refine ⟨hroom, htop, hsave, ?_, habove, hcode, hfloor, ?_⟩
  · have hwords : switchWords c.reg (BitVec.ofNat 64 (read64 c.mem (c.reg .rsp).toNat)) =
        (calleeSaved.map c.reg).reverse ++
          [BitVec.ofNat 64 (read64 c.mem (c.reg .rsp).toNat)] := rfl
    have hpushed := pushedAll_holds (c := c) (calleeSaved.map c.reg)
      (by rw [show (calleeSaved.map c.reg).length = 6 from rfl]; omega)
    rw [show (calleeSaved.map c.reg).length = 6 from rfl] at hpushed
    rw [hwords, holds_append]
    refine ⟨?_, ?_, trivial⟩
    · apply hpushed.congr
      intro x h1 h2
      rw [show (calleeSaved.map c.reg).reverse.length = 6 from rfl] at h2
      exact (write64_outside (by rw [hrdi]; omega)).symm
    · have hback : read64 c.mem (c.reg .rsp).toNat < 2 ^ 64 := readLE_lt _ _ 8
      rw [show (calleeSaved.map c.reg).reverse.length = 6 from rfl,
        show (c.reg .rsp).toNat - 48 + 8 * 6 = (c.reg .rsp).toNat by omega, BitVec.toNat_ofNat,
        Nat.mod_eq_of_lt hback]
      exact readLE_congr fun x h1 h2 => habove x h1 (by omega)
  · cases as with
    | nil => trivial
    | cons a as =>
        have hexit : a.exit = none := hcode
        have hentry := hfloor a.entry rfl
        apply hchain.congr
        intro x h1 h2
        have hle := h1 a rfl
        rw [bottom, if_pos hexit] at hle
        exact (habove x (by omega) h2).symm

/-- The words a thread that does not run would be resumed with. -/
structure Resumable (S : StackLayout) (i : Slot) (m : Mem) (regs : Reg → Word) (back : Word)
    (rsp : Nat) : Prop where
  lower : S.lo (some i) ≤ rsp
  upper : rsp + 56 ≤ S.hi (some i)
  cell : read64 m (S.cell (some i)) = rsp
  words : WordsAt m rsp (switchWords regs back)

theorem Suspended.resumable {i : Slot} {as : List Activation} (h : Suspended S (some i) m c as) :
    Resumable S i m c.reg (BitVec.ofNat 64 (read64 c.mem (c.reg .rsp).toNat))
      ((c.reg .rsp).toNat - 48) := by
  have hroom := h.room
  have htop := h.top
  exact ⟨by omega, by omega, h.cell, h.words⟩

theorem Fresh.resumable {i : Slot} {as : List Activation} (h : Fresh S (some i) m as) :
    Resumable S i m (fun _ => 0) S.trampoline (S.hi (some i) - 56) := by
  have hdeep := slot_deep (S := S) i
  exact ⟨by omega, by omega, h.cell, h.words⟩

/-- **A switch comes back where the stack it switches to says.** -/
theorem Resumable.switch {s : Core} {i : Slot} {regs : Reg → Word} {back : Word}
    {rsp : Nat} (h : Resumable S i s.cpu.mem regs back rsp) (hother : s.current ≠ some i)
    (hcommons : s.Commons) (hnext : Mapped (s.mmu (s.cpu.reg .rdx)) 0 commonsEnd)
    (hrdi : (s.cpu.reg .rdi).toNat = S.cell s.current)
    (hrsi : (s.cpu.reg .rsi).toNat = read64 s.cpu.mem (S.cell (some i)))
    (hroom : S.lo s.current + 48 ≤ (s.cpu.reg .rsp).toNat)
    (htop : (s.cpu.reg .rsp).toNat + 8 ≤ S.hi s.current) :
    exec s.mmu halContextSwitch s.cpu = some (switchedIn s.cpu regs back) ∧
      (s.cpu.reg .rsi).toNat = rsp := by
  have hlower := h.lower
  have hupper := h.upper
  have hlow := S.hi_low (some i)
  have hlt := S.hi_lt (some i)
  have hcelllow := S.cell_low s.current
  have hrsp : (s.cpu.reg .rsi).toNat = rsp := hrsi.trans h.cell
  have hsame := switchedOut_sameStack (S := S) hother.symm hrdi hroom (by omega)
  have hframe : WordsAt (switchedOut s.cpu) (s.cpu.reg .rsi).toNat (switchWords regs back) := by
    rw [hrsp]
    apply h.words.congr
    intro x h1 h2
    simp only [switchWords, List.length_cons, List.length_nil] at h2
    exact hsame.1 x (by omega) (by omega)
  refine ⟨?_, hrsp⟩
  exact halContextSwitch_spec (hcommons.onStack (S := S) s.current (by omega) (by omega))
    hroom (hcommons.mono (Nat.zero_le _) (by rw [hrdi]; exact hcelllow))
    (hnext.mono (Nat.zero_le _) (by omega)) (by omega) hframe

/-- Compiled code within an interrupt is where its stack pointer is below the frame. -/
theorem Chain.of_compiled {c' : Cpu} {as : List Activation} (h : Chain S t m c as)
    (hcode : Compiled as) (hrsp : ∀ f ∈ floor as, (c'.reg .rsp).toNat ≤ f) :
    Chain S t m c' as := by
  cases as with
  | nil => trivial
  | cons a as =>
      obtain ⟨⟨hlower, hupper, hphase⟩, hgap, hrest⟩ := h
      have hexit : a.exit = none := hcode
      refine ⟨⟨hlower, hupper, ?_⟩, hgap, hrest⟩
      rw [hexit] at hphase ⊢
      cases hphase with
      | handling _ hwords => exact Phase.handling (hrsp a.entry rfl) hwords

/-- What a thread that was spawned is resumed with. -/
theorem CoreInv.resumable {s : Core} {i : Slot} (h : CoreInv S s) (hother : s.current ≠ some i)
    (hspawned : s.parked (some i) ≠ .never) :
    ∃ regs back rsp, Resumable S i s.cpu.mem regs back rsp ∧
      ∀ cpu : Cpu, (cpu.reg .rsp).toNat = rsp + 56 → ∀ m', SameStack S (some i) s.cpu.mem m' →
        Chain S (some i) m' cpu (s.inside (some i)) := by
  cases hparked : s.parked (some i) with
  | never => exact absurd hparked hspawned
  | fresh =>
      have hfresh := h.fresh i hother hparked
      refine ⟨_, _, _, hfresh.resumable, ?_⟩
      intro cpu _ m' _
      rw [hfresh.inside]
      trivial
  | called c =>
      have hsusp := h.called i c hother hparked
      have hroom := hsusp.room
      refine ⟨_, _, _, hsusp.resumable, ?_⟩
      intro cpu hrsp m' hsame
      apply (hsusp.congr hsame).chain.of_compiled hsusp.code
      intro f hf
      have hbelow := hsusp.below f hf
      omega

/-- A switch keeps the invariant. -/
theorem switch_inv {s : Core} {i : Slot} {cpu : Cpu} (h : CoreInv S s)
    (hother : s.current ≠ some i) (hcode : Compiled (s.inside s.current))
    (hspawned : s.parked (some i) ≠ .never) (hcommons : s.Commons)
    (hnext : Mapped (s.mmu (s.cpu.reg .rdx)) 0 commonsEnd)
    (hrdi : (s.cpu.reg .rdi).toNat = S.cell s.current)
    (hrsi : (s.cpu.reg .rsi).toNat = read64 s.cpu.mem (S.cell (some i)))
    (hroom : S.lo s.current + 48 ≤ (s.cpu.reg .rsp).toNat)
    (htop : (s.cpu.reg .rsp).toNat + 8 ≤ S.hi s.current)
    (hfloor : ∀ f ∈ floor (s.inside s.current), (s.cpu.reg .rsp).toNat + 8 ≤ f)
    (hexec : exec s.mmu halContextSwitch s.cpu = some cpu) :
    CoreInv S
      { s with
        cpu := cpu
        rsp0 := BitVec.ofNat 64 (S.hi (some i))
        current := some i
        parked := Function.update s.parked s.current (.called s.cpu) } := by
  obtain ⟨regs, back, rsp, hres, hchain⟩ := h.resumable hother hspawned
  obtain ⟨hspec, hrsp⟩ := hres.switch hother hcommons hnext hrdi hrsi hroom htop
  obtain rfl := Option.some.inj (hspec.symm.trans hexec)
  have hsame : ∀ u, u ≠ s.current → SameStack S u s.cpu.mem (switchedOut s.cpu) := fun u hu =>
    switchedOut_sameStack hu hrdi hroom (by omega)
  have hlt := S.hi_lt (some i)
  have hupper := hres.upper
  constructor
  · intro j hj
    obtain rfl := Option.some.inj hj
    exact (BitVec.toNat_ofNat _ _).trans (Nat.mod_eq_of_lt hlt)
  · exact h.boot
  · apply hchain _ _ _ (hsame _ hother.symm)
    have hadd : (s.cpu.reg .rsi + 56).toNat = (s.cpu.reg .rsi).toNat + 56 :=
      add_word (n := 56) (by omega)
    show (s.cpu.reg .rsi + 56).toNat = rsp + 56
    rw [hadd, hrsp]
  · intro j hj hp
    by_cases hcur : some j = s.current
    · simp only [hcur, Function.update_self, reduceCtorEq] at hp
    · simp only [Function.update_of_ne hcur] at hp
      exact (h.fresh j (Ne.symm hcur) hp).congr (hsame _ hcur) (slot_deep j)
  · intro j c hj hp
    by_cases hcur : some j = s.current
    · simp only [hcur, Function.update_self, Parked.called.injEq] at hp
      subst hp
      have hrun := h.running
      rw [← hcur] at hrdi hroom htop hcode hfloor hrun
      exact switchedOut_suspended hrdi hroom htop hcode hfloor hrun
    · simp only [Function.update_of_ne hcur] at hp
      exact (h.called j c (Ne.symm hcur) hp).congr (hsame _ hcur)

/-- The memory `actor_spawn` leaves behind for slot `i`. -/
def spawned (S : StackLayout) (i : Slot) (m : Mem) : Mem :=
  write64 (spawnFrame S.trampoline (S.hi (some i)) m) (S.cell (some i)) (spawnRsp (S.hi (some i)))

theorem spawned_outside (i : Slot) {x : Nat}
    (hstack : x < S.lo (some i) ∨ S.hi (some i) ≤ x)
    (hcell : x < S.cell (some i) ∨ S.cell (some i) + 8 ≤ x) : spawned S i m x = m x := by
  have hdeep := slot_deep (S := S) i
  rw [spawned, write64_outside hcell]
  exact spawnFrame_outside _ _ (by omega) (by omega)

theorem spawned_fresh (i : Slot) : Fresh S (some i) (spawned S i m) [] := by
  have hdeep := slot_deep (S := S) i
  have hlt := S.hi_lt (some i)
  have hcell := S.cell_apart (some i) (some i)
  refine ⟨rfl, ?_, ?_⟩
  · rw [spawned, read64_write64_same, spawnRsp, Nat.mod_eq_of_lt (by omega)]
  · have htop : 56 ≤ S.hi (some i) := by omega
    apply (spawnFrame_holds S.trampoline m htop).congr
    intro x h1 h2
    simp only [switchWords, List.length_cons, List.length_nil] at h2
    exact (write64_outside (by omega)).symm

/-- A spawn keeps the invariant. -/
theorem spawn_inv {s : Core} {i : Slot} (h : CoreInv S s) (hother : s.current ≠ some i) :
    CoreInv S
      { s with
        cpu := { s.cpu with mem := spawned S i s.cpu.mem }
        inside := Function.update s.inside (some i) []
        parked := Function.update s.parked (some i) .fresh } := by
  have hsame : ∀ u, u ≠ some i → SameStack S u s.cpu.mem (spawned S i s.cpu.mem) := by
    intro u hu
    have hstack := S.stack_apart hu
    have hcells := S.cells_apart hu
    have hcell := S.cell_apart u (some i)
    have hcell' := S.cell_apart (some i) u
    have hle := S.lo_le_hi u
    refine ⟨fun x h1 h2 => ?_, fun x h1 h2 => ?_⟩
    · exact (spawned_outside i (by omega) (by omega)).symm
    · exact (spawned_outside i (by omega) (by omega)).symm
  constructor
  · exact h.rsp0
  · show Function.update s.inside (some i) [] none = []
    rw [Function.update_of_ne (by simp)]
    exact h.boot
  · show Chain S s.current _ _ (Function.update s.inside (some i) [] s.current)
    rw [Function.update_of_ne hother]
    exact (h.running.of_sameStack (hsame _ hother)).congr_reg rfl
  · intro j hj hp
    by_cases hij : j = i
    · subst hij
      show Fresh S (some j) _ (Function.update s.inside (some j) [] (some j))
      rw [Function.update_self]
      exact spawned_fresh j
    · have hne : (some j : Thread) ≠ some i := fun heq => hij (Option.some.inj heq)
      simp only [Function.update_of_ne hne] at hp ⊢
      exact (h.fresh j hj hp).congr (hsame _ hne) (slot_deep j)
  · intro j c hj hp
    by_cases hij : j = i
    · subst hij
      simp only [Function.update_self, reduceCtorEq] at hp
    · have hne : (some j : Thread) ≠ some i := fun heq => hij (Option.some.inj heq)
      simp only [Function.update_of_ne hne] at hp ⊢
      exact (h.called j c hj hp).congr (hsame _ hne)

/-- The way to ring 3 keeps the invariant. -/
theorem enterUser_inv {s : Core} {cpu : Cpu} (h : CoreInv S s) (hinside : s.inside s.current = [])
    (hcommons : s.Commons) (hroom : S.lo s.current + 40 ≤ (s.cpu.reg .rsp).toNat)
    (htop : (s.cpu.reg .rsp).toNat ≤ S.hi s.current)
    (hexec : exec s.mmu halEnterUserMode s.cpu = some cpu) : CoreInv S { s with cpu := cpu } := by
  have hon := hcommons.onStack (S := S) s.current (by omega) htop
  obtain ⟨c', hc', _, _, _, _, _, _, hmem⟩ := halEnterUserMode_spec hon (S.hi_lt _) hroom
  obtain rfl : c' = cpu := Option.some.inj (hc'.symm.trans hexec)
  have hsame : ∀ u, u ≠ s.current → SameStack S u s.cpu.mem c'.mem := fun u hu =>
    sameStack_of_outside (t := s.current) (by omega) htop hmem hu
  refine h.of_running rfl rfl rfl (fun _ _ => rfl) h.boot hsame ?_
  show Chain S s.current c'.mem c' (s.inside s.current)
  rw [hinside]
  trivial

/-- **Every step keeps the invariant.** -/
theorem coreStep_inv {s s' : Core} (h : CoreInv S s) (hstep : CoreStep S s s') : CoreInv S s' := by
  cases hstep with
  | run cpu mmu hcode _ hkept hfloor => exact run_inv mmu h hcode hkept hfloor
  | trap v hthread hring hsyscall hcommons hroom hexec =>
      exact trap_inv h hthread hring hsyscall hcommons hroom hexec
  | finish hinside hcode hcommons hrsp hexec =>
      exact (finish_inv h hinside hcode hcommons hrsp hexec).2
  | unwind hinside hcode hcommons hexec => exact (unwind_inv h hinside hcode hcommons hexec).2
  | switch hother hcode _ hspawned hcommons hnext hrdi hrsi hroom htop hfloor hexec =>
      exact switch_inv h hother hcode hspawned hcommons hnext hrdi hrsi hroom htop hfloor hexec
  | spawn hother => exact spawn_inv h hother
  | enterUser _ hinside _ hcommons hroom htop hexec =>
      exact enterUser_inv h hinside hcommons hroom htop hexec

/-- The invariant holds over all interleavings. -/
theorem coreReached_inv {s : Core} (h : CoreReached S s) : CoreInv S s := by
  induction h with
  | start cpu mmu => exact powerOnCore_inv cpu mmu
  | step _ hstep ih => exact coreStep_inv ih hstep

/-! ## What the threads see -/

/-- **A call of `hal_context_switch` comes back like any other call.**  Whatever ran in between, the
thread finds its return address, its stack and the registers a callee has to keep; a thread that
never ran starts in `actor_trampoline` at the top of its stack. -/
theorem switch_resumes {s s' : Core} {i : Slot} (hreach : CoreReached S s) (hstep : CoreStep S s s')
    (hother : s.current ≠ some i) (hcurrent : s'.current = some i) :
    (∀ c, s.parked (some i) = .called c →
      s'.cpu.rip = BitVec.ofNat 64 (read64 c.mem (c.reg .rsp).toNat) ∧
      s'.cpu.reg .rsp = c.reg .rsp + 8 ∧
      (∀ r ∈ calleeSaved, s'.cpu.reg r = c.reg r) ∧
      ∀ x, (c.reg .rsp).toNat ≤ x → x < S.hi (some i) → s'.cpu.mem x = c.mem x) ∧
    (s.parked (some i) = .fresh →
      s'.cpu.rip = S.trampoline ∧ (s'.cpu.reg .rsp).toNat = S.hi (some i) ∧
      ∀ r ∈ calleeSaved, s'.cpu.reg r = 0) ∧
    s.parked (some i) ≠ .never ∧ s'.cpu.cr3 = s.cpu.reg .rdx ∧
    s'.rsp0.toNat = S.hi (some i) ∧ s'.parked s.current = .called s.cpu := by
  have h := coreReached_inv hreach
  cases hstep with
  | run | trap | finish | unwind | spawn | enterUser => exact absurd hcurrent hother
  | @switch j cpu _ hcode _ hspawned hcommons hnext hrdi hrsi hroom htop hfloor hexec =>
      obtain rfl := Option.some.inj hcurrent
      have hsame := switchedOut_sameStack (S := S) hother.symm hrdi hroom (by omega)
      have hrsp0 : (BitVec.ofNat 64 (S.hi (some j))).toNat = S.hi (some j) :=
        (BitVec.toNat_ofNat _ _).trans (Nat.mod_eq_of_lt (S.hi_lt _))
      have hregs : ∀ (regs : Reg → Word) (back : Word), ∀ r ∈ calleeSaved,
          (switchedIn s.cpu regs back).reg r = regs r := by
        intro regs back r hr
        have hne : r ≠ .rsp := fun heq => absurd (heq ▸ hr) (by decide)
        simp only [switchedIn, if_neg hne, if_pos hr]
      have hlt := S.hi_lt (some j)
      have hadd : (s.cpu.reg .rsi).toNat + 56 < 2 ^ 64 →
          (s.cpu.reg .rsi + 56).toNat = (s.cpu.reg .rsi).toNat + 56 :=
        fun hsmall => add_word (n := 56) hsmall
      refine ⟨?_, ?_, hspawned, ?_, hrsp0, Function.update_self _ _ _⟩
      · intro c hparked
        have hsusp := h.called j c hother hparked
        have hroom' := hsusp.room
        have htop' := hsusp.top
        obtain ⟨hspec, hrsp⟩ := hsusp.resumable.switch hother hcommons hnext hrdi hrsi hroom htop
        obtain rfl := Option.some.inj (hspec.symm.trans hexec)
        refine ⟨rfl, ?_, hregs _ _, ?_⟩
        · apply BitVec.eq_of_toNat_eq
          have hcadd : (c.reg .rsp + 8).toNat = (c.reg .rsp).toNat + 8 :=
            add_word (n := 8) (by omega)
          show (s.cpu.reg .rsi + 56).toNat = _
          rw [hadd (by omega), hrsp, hcadd]
          omega
        · intro x h1 h2
          show switchedOut s.cpu x = c.mem x
          rw [← hsusp.stack x h1 h2]
          exact (hsame.1 x (by omega) h2).symm
      · intro hparked
        have hdeep := slot_deep (S := S) j
        obtain ⟨hspec, hrsp⟩ := (h.fresh j hother hparked).resumable.switch hother hcommons hnext
          hrdi hrsi hroom htop
        obtain rfl := Option.some.inj (hspec.symm.trans hexec)
        refine ⟨rfl, ?_, hregs _ _⟩
        show (s.cpu.reg .rsi + 56).toNat = _
        rw [hadd (by omega), hrsp]
        omega
      · obtain ⟨regs, back, rsp, hres, _⟩ := h.resumable hother hspawned
        obtain ⟨hspec, _⟩ := hres.switch hother hcommons hnext hrdi hrsi hroom htop
        obtain rfl := Option.some.inj (hspec.symm.trans hexec)
        rfl

/-- **An interrupted computation goes on with the registers it had**, at the instruction and on the stack
it was on, whatever its handler and the other threads did in between; only a system call's RAX
holds what its handler left there. -/
theorem interrupt_transparent {s s' : Core} {as : List Activation}
    (hreach : CoreReached S s) (hstep : CoreStep S s s') (hinside : s.inside s.current = a :: as)
    (hback : s'.inside s.current = as) :
    s'.current = s.current ∧ s'.cpu.rip = a.saved.rip ∧ s'.cpu.cs = a.saved.cs ∧
      s'.cpu.ss = a.saved.ss ∧ s'.cpu.rflags = a.saved.rflags ∧ s'.cpu.reg = a.target := by
  have h := coreReached_inv hreach
  have hne : ∀ b : Activation, b :: as ≠ as := fun b heq => by
    have hlen := congrArg List.length heq
    simp at hlen
  cases hstep with
  | run | switch | enterUser => exact absurd (hinside.symm.trans hback) (hne a)
  | spawn hother =>
      simp only [Function.update_of_ne hother] at hback
      exact absurd (hinside.symm.trans hback) (hne a)
  | trap =>
      have hlen := congrArg List.length hback
      simp only [Function.update_self, hinside, List.length_cons] at hlen
      omega
  | finish hinside' =>
      obtain ⟨rfl, rfl⟩ := List.cons.inj (hinside.symm.trans hinside')
      simp only [Function.update_self] at hback
      exact absurd hback (hne _)
  | unwind hinside' hcode hcommons hexec =>
      obtain ⟨rfl, rfl⟩ := List.cons.inj (hinside.symm.trans hinside')
      obtain ⟨hunwound, _⟩ := unwind_inv h hinside hcode hcommons hexec
      simp only [Function.update_self] at hback
      cases hunwound with
      | more hnil =>
          rw [if_neg hnil] at hback
          exact absurd hback (hne _)
      | done _ hregs hrip hcs hrflags hss _ _ => exact ⟨rfl, hrip, hcs, hss, hrflags, hregs⟩

/-- **How a handler is entered**: with its arguments, which for a system call are the caller's RAX, RDI, RSI
and RDX, on a stack aligned as the calling convention has it, which for an interrupt from ring 3
is the actor's own kernel stack. -/
theorem interrupt_enters {s s' : Core} (hreach : CoreReached S s) (hstep : CoreStep S s s')
    (hpush : s'.inside s.current = a :: s.inside s.current) :
    a.saved = s.cpu ∧ s'.cpu.rip = S.handler a.vector ∧ s'.cpu.cs = kernelCodeSel ∧
      (s'.cpu.reg .rsp).toNat % 16 = 8 ∧
      (Ring3 s.cpu → (s'.cpu.reg .rsp).toNat + 184 = S.hi s.current) ∧
      ∀ p ∈ handlerArgs a.vector s.cpu, s'.cpu.reg p.1 = p.2 := by
  have h := coreReached_inv hreach
  have hlen := congrArg List.length hpush
  rw [List.length_cons] at hlen
  cases hstep with
  | run | switch | enterUser =>
      change (s.inside s.current).length = (s.inside s.current).length + 1 at hlen
      omega
  | spawn hother =>
      simp only [Function.update_of_ne hother] at hlen
      omega
  | finish hinside =>
      simp only [Function.update_self, hinside, List.length_cons] at hlen
      omega
  | @unwind b bs i is _ hinside =>
      simp only [Function.update_self, hinside] at hlen
      split at hlen
      · rw [List.length_cons] at hlen
        omega
      · rw [List.length_cons, List.length_cons] at hlen
        omega
  | @trap i e v hthread hring _ hcommons hroom hexec =>
      simp only [Function.update_self] at hpush
      obtain ⟨rfl, -⟩ := List.cons.inj hpush
      obtain ⟨hupper, -⟩ := frameTop_bounds h hthread hring
      have hstack : (s.cpu.set .rsp (frameTop s.rsp0 s.cpu)).OnStack s.mmu (S.lo s.current)
          (S.hi s.current) := by
        refine ⟨hcommons.mono (Nat.zero_le _) (S.hi_low _), ?_, ?_⟩
        · rw [set_reg_self]
          omega
        · rw [set_reg_self]
          exact hupper
      obtain ⟨e', hexec', hentered⟩ := interruptEntry_spec s.rsp0 (S.isrStub v) (S.handler v)
        (S.back v) v hstack (S.hi_lt _) hroom
      obtain rfl : e' = e := Option.some.inj (hexec'.symm.trans hexec)
      have hrsp := hentered.rsp
      refine ⟨rfl, hentered.rip, hentered.cs, ?_, ?_, hentered.args⟩
      · have htop := frameTop_toNat s.rsp0 s.cpu
        show (e'.reg .rsp).toNat % 16 = 8
        omega
      · intro hr
        have htop := frameTop_ring3 h hthread hr
        show (e'.reg .rsp).toNat + 184 = S.hi s.current
        omega

/-- Once its handler has returned, a stub that is not interrupted reaches its `iretq`. -/
theorem unwind_completes {s : Core} {as : List Activation} (hreach : CoreReached S s)
    (hcommons : s.Commons) (hinside : s.inside s.current = a :: as) (hexit : a.exit = some is) :
    ∃ s1 s2 b, CoreReached S s1 ∧ CoreStep S s1 s2 ∧ s1.inside s1.current = b :: as ∧
      s2.inside s1.current = as ∧ b.saved = a.saved ∧ b.target = a.target := by
  induction is generalizing s a with
  | nil =>
      have hrun := (coreReached_inv hreach).running
      rw [hinside] at hrun
      have hphase := hrun.1.phase
      rw [hexit] at hphase
      cases hphase with
      | unwinding hun => exact absurd rfl hun.ne_nil
  | cons i is ih =>
      have h := coreReached_inv hreach
      have hrun := h.running
      rw [hinside] at hrun
      have hupper := hrun.1.upper
      have hlower := hrun.1.lower
      have hphase := hrun.1.phase
      rw [hexit] at hphase
      cases hphase with
      | unwinding hun =>
          have hrsp := hun.rsp_bounds
          have hon := hcommons.onStack (S := S) s.current (by omega) (by omega)
          obtain ⟨cpu, hexec, hunwound⟩ := unwind_step hun hon (S.hi_lt _) hupper
          have hstep := CoreStep.unwind (S := S) hinside hexit hcommons hexec
          cases hunwound with
          | done hnil =>
              refine ⟨s, _, a, hreach, hstep, hinside, ?_, rfl, rfl⟩
              simp only [Function.update_self, if_pos hnil]
          | more hne _ hcr3 _ =>
              rw [if_neg hne] at hstep
              have hcommons' : Core.Commons { s with
                  cpu := cpu
                  inside := Function.update s.inside s.current ({ a with exit := some is } :: as) } := by
                show Mapped (s.mmu cpu.cr3) 0 commonsEnd
                rw [hcr3]
                exact hcommons
              exact ih (a := { a with exit := some is }) (hreach.step hstep) hcommons'
                (Function.update_self _ _ _) rfl

/-- A ring-3 computation can be interrupted at any time: its kernel stack is empty. -/
theorem interrupt_taken {s : Core} {i : Slot} (v : Vector) (hreach : CoreReached S s)
    (hthread : s.current = some i) (hring : Ring3 s.cpu) (hinside : s.inside s.current = [])
    (hcommons : s.Commons) :
    ∃ e, Entered s.cpu e v (S.handler v) (S.back v) (S.hi s.current) ∧
      CoreStep S s
        { s with
          cpu := e
          inside := Function.update s.inside s.current
            (⟨v, s.cpu, (e.reg .rsp).toNat, none, 0⟩ :: s.inside s.current) } := by
  have h := coreReached_inv hreach
  have htop := frameTop_ring3 h hthread hring
  have hroom : S.lo s.current + 184 ≤ (frameTop s.rsp0 s.cpu).toNat := by
    rw [htop, hthread]
    simp only [StackLayout.lo, StackLayout.hi, kernelStackSize]
    omega
  have hstack : (s.cpu.set .rsp (frameTop s.rsp0 s.cpu)).OnStack s.mmu (S.lo s.current)
      (S.hi s.current) := by
    refine ⟨hcommons.mono (Nat.zero_le _) (S.hi_low _), ?_, ?_⟩ <;> rw [set_reg_self] <;> omega
  obtain ⟨e, hexec, hentered⟩ := interruptEntry_spec s.rsp0 (S.isrStub v) (S.handler v) (S.back v) v
    hstack (S.hi_lt _) hroom
  rw [htop] at hentered
  exact ⟨e, hentered, CoreStep.trap v hthread (iff_of_true hring hinside) (fun _ => hinside) hcommons
    hroom hexec⟩

/-- A handler that returns at once gives the processor back to what it interrupted. -/
theorem interrupt_round_trip {s : Core} {i : Slot} (v : Vector) (hreach : CoreReached S s)
    (hthread : s.current = some i) (hring : Ring3 s.cpu) (hinside : s.inside s.current = [])
    (hcommons : s.Commons) :
    ∃ s1 s2 b, CoreReached S s1 ∧ CoreStep S s1 s2 ∧ s1.inside s1.current = [b] ∧
      s2.inside s1.current = [] ∧ b.saved = s.cpu := by
  obtain ⟨e, hentered, htrap⟩ := interrupt_taken v hreach hthread hring hinside hcommons
  have hcommons1 : Mapped (s.mmu e.cr3) 0 commonsEnd := by
    rw [hentered.cr3]
    exact hcommons
  have hinside1 : Function.update s.inside s.current
      (⟨v, s.cpu, (e.reg .rsp).toNat, none, 0⟩ :: s.inside s.current) s.current
      = [⟨v, s.cpu, (e.reg .rsp).toNat, none, 0⟩] := by
    rw [Function.update_self, hinside]
  have hupper := S.hi_lt s.current
  have hrsp := hentered.rsp
  have hdeep : S.lo s.current + 184 ≤ S.hi s.current := by
    rw [hthread]
    simp only [StackLayout.lo, StackLayout.hi, kernelStackSize]
    omega
  have hon : e.OnStack s.mmu (S.lo s.current) (S.hi s.current) :=
    ⟨hcommons1.mono (Nat.zero_le _) (S.hi_low _), by omega, by omega⟩
  have hback : read64 e.mem (e.reg .rsp).toNat = (S.back v).toNat := by
    rw [hrsp]
    exact hentered.words.1
  have hret : exec s.mmu [.ret] e
      = some { e.set .rsp (e.reg .rsp + 8) with rip := S.back v } := by
    simp only [exec, execInstr, hon.pop (by omega) hback, Option.map_some, Option.bind_some]
  have hfinish : CoreStep S
      { s with
        cpu := e
        inside := Function.update s.inside s.current
          (⟨v, s.cpu, (e.reg .rsp).toNat, none, 0⟩ :: s.inside s.current) } _ :=
    CoreStep.finish hinside1 rfl hcommons1 rfl hret
  obtain ⟨s1, s2, b, hreach1, hstep, hin, hout, hsaved, -⟩ :=
    unwind_completes ((hreach.step htrap).step hfinish) hcommons1 (Function.update_self _ _ _) rfl
  exact ⟨s1, s2, b, hreach1, hstep, hin, hout, hsaved⟩

section SampleThreads

/-- Stacks from 384KB on, the boot stack where `start.asm` puts it. -/
def sampleStacks : StackLayout where
  kernelStacks := 0x60000
  actors := 0x72000
  actorSize := 512
  schedulerRsp := 0x75000
  bootLo := 0x80000
  bootHi := 0x8FF00
  trampoline := 0x21000
  isrStub _ := 0x22000
  handler _ := 0x23000
  back _ := 0x22040
  stacks_aligned := by decide
  boot_order := by decide
  actor_wide := by decide
  stacks_boot := by decide
  stacks_actors := by decide
  stacks_scheduler := by decide
  boot_actors := by decide
  boot_scheduler := by decide
  actors_scheduler := by decide
  stacks_low := by decide
  actors_low := by decide
  scheduler_low := by decide
  boot_low := by decide

/-- The boot processor about to switch to the actor of slot 0. -/
def sampleCpu : Cpu where
  reg
    | .rsp => 0x8FE00
    | .rdi => 0x75000
    | .rsi => 0x60FC8
    | .rdx => 0x30000
    | _ => 7
  rip := 0x20000
  cs := kernelCodeSel
  ss := 0x10
  rflags := 2
  cr3 := 0x90000
  mem _ := 0

/-- Slot `i` has been spawned. -/
def sampleSpawned (i : Slot) : Core where
  cpu := { sampleCpu with mem := spawned sampleStacks i sampleCpu.mem }
  mmu _ x := some x
  rsp0 := 0
  current := none
  inside := Function.update (fun _ => []) (some i) []
  parked := Function.update (fun _ => .never) (some i) .fresh

theorem sampleSpawned_reached : CoreReached sampleStacks (sampleSpawned 0) :=
  (CoreReached.start sampleCpu fun _ x => some x).step (CoreStep.spawn (by decide))

theorem sample_mapped (cr3 : Word) : Mapped ((sampleSpawned 0).mmu cr3) 0 commonsEnd :=
  fun _ _ _ => rfl

/-- The boot context has switched to the actor. -/
def sampleSwitched (i : Slot) : Core :=
  { sampleSpawned i with
    cpu := switchedIn (sampleSpawned i).cpu (fun _ => 0) sampleStacks.trampoline
    rsp0 := BitVec.ofNat 64 (sampleStacks.hi (some i))
    current := some i
    parked := Function.update (sampleSpawned i).parked (sampleSpawned i).current
      (.called (sampleSpawned i).cpu) }

theorem sample_switches : CoreStep sampleStacks (sampleSpawned 0) (sampleSwitched 0) := by
  have hfresh := (coreReached_inv sampleSpawned_reached).fresh 0 (by decide) rfl
  have hrsi : ((sampleSpawned 0).cpu.reg .rsi).toNat
      = read64 (sampleSpawned 0).cpu.mem (sampleStacks.cell (some 0)) := by
    rw [hfresh.cell]
    rfl
  obtain ⟨hexec, -⟩ := hfresh.resumable.switch (by decide) (sample_mapped _) (sample_mapped _) rfl
    hrsi (by decide) (by decide)
  exact CoreStep.switch (by decide) trivial (Or.inl rfl) (by simp [sampleSpawned])
    (sample_mapped _) (sample_mapped _) rfl hrsi (by decide) (by decide)
    (by intro f hf; cases hf) hexec

theorem sample_switch_resumes : (sampleSwitched 0).cpu.rip = sampleStacks.trampoline :=
  ((switch_resumes (i := 0) sampleSpawned_reached sample_switches (by decide) rfl).2.1 rfl).1

/-- The actor leaves for ring 3. -/
theorem sample_enters : ∃ s, CoreReached sampleStacks s ∧ s.current = some 0 ∧ Ring3 s.cpu ∧
    s.inside s.current = [] ∧ s.Commons := by
  have hcommons : (sampleSwitched 0).Commons := sample_mapped 0x30000
  have hon : (sampleSwitched 0).cpu.OnStack (sampleSwitched 0).mmu (sampleStacks.lo (some 0))
      (sampleStacks.hi (some 0)) := hcommons.onStack (some 0) (by decide) (by decide)
  obtain ⟨c, hexec, -, -, hcs, -, -, hcr3, -⟩ :=
    halEnterUserMode_spec hon (StackLayout.hi_lt _) (by decide)
  have hstep : CoreStep sampleStacks (sampleSwitched 0) { sampleSwitched 0 with cpu := c } :=
    CoreStep.enterUser rfl rfl (by decide) hcommons (by decide) (by decide) hexec
  refine ⟨_, (sampleSpawned_reached.step sample_switches).step hstep, rfl, ?_, rfl, ?_⟩
  · show c.cs &&& 3 = 3
    rw [hcs]
    decide
  · show Mapped ((sampleSwitched 0).mmu c.cr3) 0 commonsEnd
    exact fun _ _ _ => rfl

theorem sample_interrupt_enters : ∃ s s', CoreStep sampleStacks s s' ∧
    s'.cpu.reg .rdi = s.cpu.reg .rax := by
  obtain ⟨s, hreach, hthread, hring, hempty, hcommons⟩ := sample_enters
  obtain ⟨e, -, hstep⟩ := interrupt_taken .syscall hreach hthread hring hempty hcommons
  have hentered := interrupt_enters hreach hstep (Function.update_self _ _ _)
  exact ⟨s, _, hstep, hentered.2.2.2.2.2 (.rdi, s.cpu.reg .rax) List.mem_cons_self⟩

theorem sample_interrupt_transparent : ∃ s s' a, CoreReached sampleStacks s ∧
    CoreStep sampleStacks s s' ∧ s.inside s.current = [a] ∧ s'.cpu.reg = a.target := by
  obtain ⟨s0, hreach0, hthread, hring, hempty, hcommons⟩ := sample_enters
  obtain ⟨s, s', a, hreach, hstep, hin, hout, -⟩ :=
    interrupt_round_trip .syscall hreach0 hthread hring hempty hcommons
  exact ⟨s, s', a, hreach, hstep, hin,
    (interrupt_transparent hreach hstep hin hout).2.2.2.2.2⟩

end SampleThreads

end Vajra
