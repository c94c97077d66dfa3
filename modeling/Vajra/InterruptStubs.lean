import Vajra.AddressSpace
import Vajra.NetMessage
import Vajra.StackMachine

/-!
# The machine code of the kernel (`context_switch.asm`, `isr_stubs.asm`, `usermode.asm`)

Each routine is the list of its instructions.  A stub's `jmp` to the common part is inlined,
and its C handler is the point between `isrEntry` and `isrExit`.  `interrupt` is what the
processor does before the first instruction of a stub.

`interruptEntry_spec` says what the handler is called with and what lies above its return
address; `halContextSwitch_spec` is the whole switch.
-/

namespace Vajra

open ByteMemory StackMachine

def kernelCodeSel : Word := 0x18
def userCodeSel : Word := 0x3B
def userDataSel : Word := 0x33

/-- `hal_context_switch(old_rsp, new_rsp, new_cr3)`. -/
def halContextSwitch : List Instr :=
  [.push .rbx, .push .rbp, .push .r12, .push .r13, .push .r14, .push .r15,
   .store .rdi 0 .rsp, .mov .rsp .rsi, .setCr3 .rdx,
   .pop .r15, .pop .r14, .pop .r13, .pop .r12, .pop .rbp, .pop .rbx,
   .ret]

/-- The registers a stub saves, in the order of its pushes. -/
def savedRegs : List Reg :=
  [.rax, .rbx, .rcx, .rdx, .rsi, .rdi, .rbp, .r8, .r9, .r10, .r11, .r12, .r13, .r14, .r15]

/-- The vectors whose handlers come back: the timer, the keyboard and the system call. -/
inductive Vector where
  | timer
  | keyboard
  | syscall
  deriving DecidableEq

def Vector.number : Vector → Word
  | .timer => 32
  | .keyboard => 33
  | .syscall => 128

/-- `isr_stub_N` up to the first instruction of the handler: the dummy error code, the vector,
the registers, the arguments and the call. -/
def isrEntry (v : Vector) (handler back : Word) : List Instr :=
  [.pushImm 0, .pushImm v.number] ++ savedRegs.map .push ++
    (match v with
    | .syscall => [.load .rdi .rsp 112, .load .rsi .rsp 72, .load .rdx .rsp 80, .load .rcx .rsp 88]
    | _ => [.load .rdi .rsp 120, .load .rsi .rsp 128, .load .rdx .rsp 136]) ++
    [.call handler back]

/-- What is left of the stub when the handler has returned. -/
def isrExit (v : Vector) : List Instr :=
  (match v with
  | .syscall => [.store .rsp 112 .rax]
  | _ => []) ++
    savedRegs.reverse.map .pop ++ [.addImm .rsp 16, .iretq]

/-- `hal_enter_user_mode(entry, user_stack_top)`, less the loads of the data segments. -/
def halEnterUserMode : List Instr :=
  [.pushImm userDataSel, .push .rsi, .pushf, .pop .rax, .orImm .rax 0x200, .push .rax,
   .pushImm userCodeSel, .push .rdi, .iretq]

/-- The privilege level is 3. -/
def Ring3 (c : Cpu) : Prop := c.cs &&& 3 = 3

instance (c : Cpu) : Decidable (Ring3 c) := inferInstanceAs (Decidable (_ = _))

/-- Where the processor starts to push an interrupt's frame. -/
def frameTop (rsp0 : Word) (c : Cpu) : Word :=
  BitVec.ofNat 64 ((if Ring3 c then rsp0 else c.reg .rsp).toNat / 16 * 16)

theorem frameTop_toNat (rsp0 : Word) (c : Cpu) :
    (frameTop rsp0 c).toNat = (if Ring3 c then rsp0 else c.reg .rsp).toNat / 16 * 16 := by
  have hlt := (if Ring3 c then rsp0 else c.reg .rsp).isLt
  rw [frameTop, BitVec.toNat_ofNat, Nat.mod_eq_of_lt (by omega)]

/-- The processor's part of an interrupt through a gate to `stub`: the stack of the task state
segment when it comes from ring 3, else the current one, rounded down to 16 bytes; the frame;
the interrupt flag cleared. -/
def interrupt (mmu : Mmu) (rsp0 stub : Word) (c : Cpu) : Option Cpu :=
  (exec mmu ([c.ss, c.reg .rsp, c.rflags, c.cs, c.rip].map .pushImm)
    (c.set .rsp (frameTop rsp0 c))).map fun c' =>
      { c' with
        rip := stub
        cs := kernelCodeSel
        ss := if Ring3 c then 0 else c.ss
        rflags := c.rflags &&& (~~~ (0x200 : Word)) }

/-- The words a stub leaves above the return address of its handler, lowest first. -/
def trapWords (regs : Reg → Word) (v : Vector) (c : Cpu) : List Word :=
  savedRegs.reverse.map regs ++ [v.number, 0, c.rip, c.cs, c.rflags, c.reg .rsp, c.ss]

/-- The frame `actor_spawn` builds below the top of a new actor's kernel stack. -/
def spawnFrame (trampoline : Word) (top : Nat) (m : Mem) : Mem :=
  let m := write64 m (top - 8) trampoline.toNat
  let m := write64 m (top - 16) 0
  let m := write64 m (top - 24) 0
  let m := write64 m (top - 32) 0
  let m := write64 m (top - 40) 0
  let m := write64 m (top - 48) 0
  write64 m (top - 56) 0

/-- What `actor_spawn` leaves in `actors[i].rsp`. -/
def spawnRsp (top : Nat) : Nat := top - 56

variable {mmu : Mmu} {c : Cpu} {lo hi : Nat}

/-! ## The switch -/

/-- The words `hal_context_switch` pops: the registers a callee has to keep, and where to
return to. -/
def switchWords (regs : Reg → Word) (back : Word) : List Word :=
  [regs .r15, regs .r14, regs .r13, regs .r12, regs .rbp, regs .rbx, back]

/-- The registers a callee has to keep. -/
def calleeSaved : List Reg := [.rbx, .rbp, .r12, .r13, .r14, .r15]

theorem spawnFrame_outside (trampoline : Word) {top x : Nat} (m : Mem)
    (hx : x < top - 56 ∨ top ≤ x) (htop : 56 ≤ top) : spawnFrame trampoline top m x = m x := by
  simp only [spawnFrame]
  repeat rw [write64_outside (by omega)]

/-- **The frame of a new actor is one that a switch can return to.** -/
theorem spawnFrame_holds (trampoline : Word) {top : Nat} (m : Mem) (htop : 56 ≤ top) :
    WordsAt (spawnFrame trampoline top m) (top - 56) (switchWords (fun _ => 0) trampoline) := by
  have h8 : top - 56 + 8 = top - 48 := by omega
  have h16 : top - 48 + 8 = top - 40 := by omega
  have h24 : top - 40 + 8 = top - 32 := by omega
  have h32 : top - 32 + 8 = top - 24 := by omega
  have h40 : top - 24 + 8 = top - 16 := by omega
  have h48 : top - 16 + 8 = top - 8 := by omega
  simp only [switchWords, WordsAt, h8, h16, h24, h32, h40, h48, spawnFrame]
  refine ⟨?_, ?_, ?_, ?_, ?_, ?_, ?_, trivial⟩
  · rw [read64_write64_same]
    rfl
  · rw [read64_write64_disjoint (by omega), read64_write64_same]
    rfl
  · iterate 2 rw [read64_write64_disjoint (by omega)]
    rw [read64_write64_same]
    rfl
  · iterate 3 rw [read64_write64_disjoint (by omega)]
    rw [read64_write64_same]
    rfl
  · iterate 4 rw [read64_write64_disjoint (by omega)]
    rw [read64_write64_same]
    rfl
  · iterate 5 rw [read64_write64_disjoint (by omega)]
    rw [read64_write64_same]
    rfl
  · iterate 6 rw [read64_write64_disjoint (by omega)]
    rw [read64_write64_same, Nat.mod_eq_of_lt trampoline.isLt]

/-- The memory a switch leaves: six words on the old stack, and their address in `*old_rsp`. -/
def switchedOut (c : Cpu) : Mem :=
  write64 (c.pushedAll (calleeSaved.map c.reg)).mem (c.reg .rdi).toNat ((c.reg .rsp).toNat - 48)

theorem switchedOut_outside (h : 48 ≤ (c.reg .rsp).toNat) {x : Nat}
    (hstack : x < (c.reg .rsp).toNat - 48 ∨ (c.reg .rsp).toNat ≤ x)
    (hcell : x < (c.reg .rdi).toNat ∨ (c.reg .rdi).toNat + 8 ≤ x) :
    switchedOut c x = c.mem x := by
  rw [switchedOut, write64_outside hcell]
  exact pushedAll_outside (calleeSaved.map c.reg) h hstack

/-- The processor that comes back from a switch: on its own stack, with the registers a callee
has to keep as they were. -/
def switchedIn (c : Cpu) (regs : Reg → Word) (back : Word) : Cpu :=
  { c with
    reg := fun r =>
      if r = .rsp then c.reg .rsi + 56 else if r ∈ calleeSaved then regs r else c.reg r
    rip := back
    cr3 := c.reg .rdx
    mem := switchedOut c }

/-- **What `hal_context_switch` does**, given the words on the stack it switches to. -/
theorem halContextSwitch_spec (h : c.OnStack mmu lo hi) (hroom : lo + 48 ≤ (c.reg .rsp).toNat)
    (hcell : Mapped (mmu c.cr3) (c.reg .rdi).toNat ((c.reg .rdi).toNat + 8))
    (hnew : Mapped (mmu (c.reg .rdx)) (c.reg .rsi).toNat ((c.reg .rsi).toNat + 56))
    (hbound : (c.reg .rsi).toNat + 56 < 2 ^ 64) {regs : Reg → Word} {back : Word}
    (hframe : WordsAt (switchedOut c) (c.reg .rsi).toNat (switchWords regs back)) :
    exec mmu halContextSwitch c = some (switchedIn c regs back) := by
  have hcode : halContextSwitch = calleeSaved.map .push ++
      ([.store .rdi 0 .rsp, .mov .rsp .rsi, .setCr3 .rdx] ++
        (calleeSaved.reverse.map .pop ++ [.ret])) := rfl
  have hwords : switchWords regs back = calleeSaved.reverse.map regs ++ [back] := rfl
  rw [hwords, holds_append] at hframe
  obtain ⟨hregs, hback, _⟩ := hframe
  let pushed : Cpu :=
    { c with
      reg := Function.update c.reg .rsp (c.reg .rsp - 48)
      mem := (c.pushedAll (calleeSaved.map c.reg)).mem }
  let swapped : Cpu :=
    { c with
      reg := Function.update c.reg .rsp (c.reg .rsi)
      cr3 := c.reg .rdx
      mem := switchedOut c }
  have hpush : exec mmu (calleeSaved.map .push) c = some pushed :=
    (exec_pushes calleeSaved (by decide) h hroom).trans (congrArg some (pushedAll_eq _))
  have hswap : exec mmu [.store .rdi 0 .rsp, .mov .rsp .rsi, .setCr3 .rdx] pushed
      = some swapped := by
    have hrdi : pushed.reg .rdi + 0 = c.reg .rdi := BitVec.add_zero _
    have hrsp : (pushed.reg .rsp).toNat = (c.reg .rsp).toNat - 48 :=
      sub_words (n := 6) (by omega)
    have hstore : pushed.store mmu (pushed.reg .rdi + 0) (pushed.reg .rsp)
        = some { pushed with mem := switchedOut c } := by
      rw [hrdi, store_mapped (c := pushed) hcell (Nat.le_refl _) (Nat.le_refl _), hrsp]
      rfl
    rw [exec, execInstr, hstore]
    simp only [exec, execInstr, Option.bind_some, Cpu.set, pushed, swapped, Function.update_idem]
    rfl
  have hon : swapped.OnStack mmu (c.reg .rsi).toNat ((c.reg .rsi).toNat + 56) := by
    refine ⟨hnew, ?_, ?_⟩ <;> simp only [swapped, Function.update_self] <;> omega
  have hpop : exec mmu (calleeSaved.reverse.map .pop) swapped =
      some (swapped.popped calleeSaved.reverse (calleeSaved.reverse.map regs)) := by
    apply exec_pops _ (by decide) (List.length_map _) hon hbound
    · simp only [swapped, Function.update_self]
      exact Nat.le_add_right _ 8
    · simp only [swapped, Function.update_self]
      exact hregs
  have hpopped : ∀ r, (swapped.popped calleeSaved.reverse (calleeSaved.reverse.map regs)).reg r =
      if r = .rsp then c.reg .rsi + 48 else if r ∈ calleeSaved then regs r else c.reg r := by
    intro r
    simp only [Cpu.popped, assign_map, List.mem_reverse, swapped, Function.update_self,
      Function.update_idem]
    by_cases hr : r = .rsp
    · subst hr
      rfl
    · simp only [if_neg hr, Function.update_of_ne hr]
  have htop : ((swapped.popped calleeSaved.reverse (calleeSaved.reverse.map regs)).reg .rsp).toNat
      = (c.reg .rsi).toNat + 48 := by
    rw [hpopped, if_pos rfl]
    exact add_word (n := 48) (by omega)
  have hon' : (swapped.popped calleeSaved.reverse (calleeSaved.reverse.map regs)).OnStack mmu
      (c.reg .rsi).toNat ((c.reg .rsi).toNat + 56) := by
    refine ⟨hnew, ?_, ?_⟩ <;> rw [htop] <;> omega
  have hret : execInstr mmu (swapped.popped calleeSaved.reverse (calleeSaved.reverse.map regs)) .ret
      = some (switchedIn c regs back) := by
    rw [execInstr, hon'.pop (w := back) (by rw [htop]) (by rw [htop]; exact hback), Option.map_some]
    simp only [switchedIn, Cpu.set, Option.some.injEq, Cpu.mk.injEq]
    refine ⟨?_, trivial, rfl, rfl, rfl, rfl, rfl⟩
    funext r
    by_cases hr : r = .rsp
    · subst hr
      rw [Function.update_self, hpopped, if_pos rfl, if_pos rfl, BitVec.add_assoc]
      rfl
    · rw [Function.update_of_ne hr, hpopped, if_neg hr, if_neg hr]
  rw [hcode, exec_append, hpush, Option.bind_some, exec_append, hswap, Option.bind_some,
    exec_append, hpop, Option.bind_some, exec, hret]
  rfl

/-! ## The way into a handler -/

/-- What a handler is called with: its arguments in the registers of the calling convention. -/
def handlerArgs (v : Vector) (c : Cpu) : List (Reg × Word) :=
  match v with
  | .syscall => [(.rdi, c.reg .rax), (.rsi, c.reg .rdi), (.rdx, c.reg .rsi), (.rcx, c.reg .rdx)]
  | _ => [(.rdi, v.number), (.rsi, 0), (.rdx, c.rip)]

/-- The processor `e` at the first instruction of the handler of `v`, entered from `c` with its
frame below `top`. -/
structure Entered (c e : Cpu) (v : Vector) (handler back : Word) (top : Nat) : Prop where
  rsp : (e.reg .rsp).toNat = top - 184
  words : WordsAt e.mem (top - 184) (back :: trapWords c.reg v c)
  outside : ∀ x, x < top - 184 ∨ top ≤ x → e.mem x = c.mem x
  rip : e.rip = handler
  cs : e.cs = kernelCodeSel
  cr3 : e.cr3 = c.cr3
  args : ∀ a ∈ handlerArgs v c, e.reg a.1 = a.2
  kept : ∀ r ∈ calleeSaved, e.reg r = c.reg r

/-- The words an interrupt and its stub push, in the order of the pushes. -/
def entryWords (v : Vector) (c : Cpu) (back : Word) : List Word :=
  [c.ss, c.reg .rsp, c.rflags, c.cs, c.rip] ++ ([0, v.number] ++ savedRegs.map c.reg) ++ [back]

theorem entryWords_reverse (v : Vector) (c : Cpu) (back : Word) :
    (entryWords v c back).reverse = back :: trapWords c.reg v c := rfl

/-- The loads of the arguments, as registers and words of the frame. -/
def argLoads : Vector → List (Reg × Nat)
  | .syscall => [(.rdi, 14), (.rsi, 9), (.rdx, 10), (.rcx, 11)]
  | _ => [(.rdi, 15), (.rsi, 16), (.rdx, 17)]

theorem isrEntry_eq (v : Vector) (handler back : Word) :
    isrEntry v handler back = [(0 : Word), v.number].map .pushImm ++ (savedRegs.map .push ++
      (argLoads v).map fun l => .load l.1 .rsp (BitVec.ofNat 64 (8 * l.2))) ++
        [.call handler back] := by
  cases v <;> rfl

/-- The words the processor pushes. -/
def interruptWords (c : Cpu) : List Word := [c.ss, c.reg .rsp, c.rflags, c.cs, c.rip]

/-- The processor at the first instruction of a stub. -/
def interrupted (rsp0 stub : Word) (c : Cpu) : Cpu :=
  { (c.set .rsp (frameTop rsp0 c)).pushedAll (interruptWords c) with
    rip := stub
    cs := kernelCodeSel
    ss := if Ring3 c then 0 else c.ss
    rflags := c.rflags &&& (~~~ (0x200 : Word)) }

theorem interrupt_spec (rsp0 stub : Word) (h : (c.set .rsp (frameTop rsp0 c)).OnStack mmu lo hi)
    (hroom : lo + 40 ≤ (frameTop rsp0 c).toNat) :
    interrupt mmu rsp0 stub c = some (interrupted rsp0 stub c) ∧
      (interrupted rsp0 stub c).OnStack mmu lo hi := by
  have hfive : lo + 8 * (interruptWords c).length
      ≤ ((c.set .rsp (frameTop rsp0 c)).reg .rsp).toNat := by
    rw [set_reg_self]
    exact hroom
  have hframed := h.pushedAll hfive
  refine ⟨?_, hframed.mapped, hframed.lower, hframed.upper⟩
  unfold interrupt
  rw [show [c.ss, c.reg .rsp, c.rflags, c.cs, c.rip] = interruptWords c from rfl,
    exec_pushImms _ h hfive]
  rfl

theorem interrupted_rsp (rsp0 stub : Word) :
    (interrupted rsp0 stub c).reg .rsp = frameTop rsp0 c - 40 := by
  have hrsp := pushedAll_rsp (c := c.set .rsp (frameTop rsp0 c)) (interruptWords c)
  rw [set_reg_self] at hrsp
  exact hrsp

@[simp] theorem interrupted_cs (rsp0 stub : Word) :
    (interrupted rsp0 stub c).cs = kernelCodeSel := rfl

@[simp] theorem interrupted_cr3 (rsp0 stub : Word) : (interrupted rsp0 stub c).cr3 = c.cr3 := by
  simp only [interrupted, pushedAll_cr3, set_cr3]

theorem interrupted_reg (rsp0 stub : Word) {r : Reg} (hr : r ≠ .rsp) :
    (interrupted rsp0 stub c).reg r = c.reg r :=
  (pushedAll_reg (interruptWords c) hr).trans (set_reg_of_ne c hr _)

/-- The words a stub pushes, the last of them for the call. -/
def stubWords (v : Vector) (regs : Reg → Word) : List Word := [0, v.number] ++ savedRegs.map regs

/-- The processor before the call of the handler. -/
def beforeCall (v : Vector) (c1 c : Cpu) : Cpu :=
  { c1.pushedAll (stubWords v c1.reg) with
    reg := assign (c1.pushedAll (stubWords v c1.reg)).reg ((argLoads v).map (·.1))
      ((argLoads v).map fun l => (trapWords c.reg v c).getD l.2 0) }

theorem argLoads_bounds (v : Vector) (regs : Reg → Word) (c : Cpu) :
    ∀ l ∈ argLoads v, l.1 ≠ .rsp ∧ l.2 < (trapWords regs v c).length := by
  have hlen : (trapWords regs v c).length = 22 := rfl
  rw [hlen]
  cases v <;> decide

/-- What a stub does up to the call, on a stack whose top five words are the processor's frame. -/
theorem isrEntry_loads {c1 : Cpu} (v : Vector) (h : c1.OnStack mmu lo hi) (hbound : hi < 2 ^ 64)
    (hroom : lo + 136 ≤ (c1.reg .rsp).toNat) (htop : (c1.reg .rsp).toNat + 40 ≤ hi)
    (hwords : WordsAt (c1.pushedAll (stubWords v c1.reg)).mem ((c1.reg .rsp).toNat - 136)
      (trapWords c.reg v c)) :
    exec mmu ([(0 : Word), v.number].map .pushImm ++ (savedRegs.map .push ++
      (argLoads v).map fun l => .load l.1 .rsp (BitVec.ofNat 64 (8 * l.2)))) c1
      = some (beforeCall v c1 c) := by
  have hon2 : (c1.pushedAll [0, v.number]).OnStack mmu lo hi :=
    h.pushedAll (by simp only [List.length_cons, List.length_nil]; omega)
  have hrsp2 : ((c1.pushedAll [0, v.number]).reg .rsp).toNat = (c1.reg .rsp).toNat - 16 := by
    rw [pushedAll_rsp]
    exact sub_words (n := 2) (by omega)
  have hregs : savedRegs.map (c1.pushedAll [0, v.number]).reg = savedRegs.map c1.reg :=
    List.map_congr_left fun r hr => pushedAll_reg _ fun heq => absurd (heq ▸ hr) (by decide)
  have hroom2 : lo + 8 * savedRegs.length ≤ ((c1.pushedAll [0, v.number]).reg .rsp).toNat := by
    rw [hrsp2]
    simp only [savedRegs, List.length_cons, List.length_nil]
    omega
  have hpush : exec mmu (savedRegs.map .push) (c1.pushedAll [0, v.number])
      = some (c1.pushedAll (stubWords v c1.reg)) := by
    rw [exec_pushes _ (by decide) hon2 hroom2, hregs, stubWords, pushedAll_append]
  have hrsp3 : ((c1.pushedAll (stubWords v c1.reg)).reg .rsp).toNat = (c1.reg .rsp).toNat - 136 := by
    rw [pushedAll_rsp]
    exact sub_words (n := 17) (by omega)
  have hon3 : (c1.pushedAll (stubWords v c1.reg)).OnStack mmu lo hi :=
    h.pushedAll hroom
  rw [exec_append, exec_pushImms _ h (by simp only [List.length_cons, List.length_nil]; omega),
    Option.bind_some, exec_append, hpush, Option.bind_some]
  have hlen : (trapWords c.reg v c).length = 22 := rfl
  exact exec_loads (argLoads v) (argLoads_bounds v c.reg c) hon3 hbound
    (by rw [hrsp3, hlen]; omega) (by rw [hrsp3]; exact hwords)

/-- The memory before the call, and after it. -/
theorem beforeCall_mem (rsp0 stub : Word) (v : Vector) :
    ((interrupted rsp0 stub c).pushedAll (stubWords v (interrupted rsp0 stub c).reg)).mem =
      ((c.set .rsp (frameTop rsp0 c)).pushedAll (interruptWords c ++ stubWords v c.reg)).mem := by
  have hregs : savedRegs.map (interrupted rsp0 stub c).reg = savedRegs.map c.reg :=
    List.map_congr_left fun r hr =>
      interrupted_reg rsp0 stub fun heq => absurd (heq ▸ hr) (by decide)
  rw [pushedAll_append, stubWords, hregs]
  exact pushedAll_mem_congr _ rfl rfl

@[simp] theorem beforeCall_cr3 (v : Vector) (c1 c : Cpu) : (beforeCall v c1 c).cr3 = c1.cr3 := by
  simp only [beforeCall, pushedAll_cr3]

@[simp] theorem beforeCall_cs (v : Vector) (c1 c : Cpu) : (beforeCall v c1 c).cs = c1.cs := by
  simp only [beforeCall, pushedAll_cs]

/-- The arguments are what the loads put in their registers. -/
theorem beforeCall_args (v : Vector) (c1 c : Cpu) :
    ∀ a ∈ handlerArgs v c, a.1 ≠ .rsp ∧ (beforeCall v c1 c).reg a.1 = a.2 := by
  unfold beforeCall
  generalize (c1.pushedAll (stubWords v c1.reg)).reg = f
  cases v <;>
    simp [handlerArgs, argLoads, assign, trapWords, savedRegs, Function.update_of_ne, Vector.number]

/-- The loads leave the registers a callee has to keep alone. -/
theorem argLoads_dst (v : Vector) {r : Reg} (hr : r = .rsp ∨ r ∈ calleeSaved) :
    r ∉ (argLoads v).map (·.1) := by
  cases v <;> revert hr <;> cases r <;> decide

/-- **The way into a handler.** -/
theorem interruptEntry_spec (rsp0 stub handler back : Word) (v : Vector)
    (h : (c.set .rsp (frameTop rsp0 c)).OnStack mmu lo hi) (hbound : hi < 2 ^ 64)
    (hroom : lo + 184 ≤ (frameTop rsp0 c).toNat) :
    ∃ e, (interrupt mmu rsp0 stub c).bind (exec mmu (isrEntry v handler back)) = some e ∧
      Entered c e v handler back (frameTop rsp0 c).toNat := by
  have htop := (frameTop rsp0 c).isLt
  have hupper : (frameTop rsp0 c).toNat ≤ hi := by
    have hle := h.upper
    rw [set_reg_self] at hle
    exact hle
  have hbase : ((c.set .rsp (frameTop rsp0 c)).reg .rsp).toNat = (frameTop rsp0 c).toNat := by
    rw [set_reg_self]
  obtain ⟨hint, hon1⟩ := interrupt_spec rsp0 stub h (by omega)
  have hrsp1 : ((interrupted rsp0 stub c).reg .rsp).toNat = (frameTop rsp0 c).toNat - 40 := by
    rw [interrupted_rsp]
    exact sub_words (n := 5) (by omega)
  have hwords : WordsAt
      ((interrupted rsp0 stub c).pushedAll (stubWords v (interrupted rsp0 stub c).reg)).mem
      (((interrupted rsp0 stub c).reg .rsp).toNat - 136) (trapWords c.reg v c) := by
    have hlen : (interruptWords c ++ stubWords v c.reg).length = 22 := rfl
    have hholds := pushedAll_holds (c := c.set .rsp (frameTop rsp0 c))
      (interruptWords c ++ stubWords v c.reg) (by rw [hbase, hlen]; omega)
    rw [hbase, hlen] at hholds
    rw [beforeCall_mem, hrsp1,
      show (frameTop rsp0 c).toNat - 40 - 136 = (frameTop rsp0 c).toNat - 8 * 22 by omega]
    exact hholds
  have hloads := isrEntry_loads v hon1 hbound (by omega) (by omega) hwords
  have hkept : ∀ r, r = .rsp ∨ r ∈ calleeSaved → (beforeCall v (interrupted rsp0 stub c) c).reg r
      = ((interrupted rsp0 stub c).pushedAll (stubWords v (interrupted rsp0 stub c).reg)).reg r :=
    fun r hr => assign_of_not_mem _ _ (argLoads_dst v hr)
  have hrsp : (beforeCall v (interrupted rsp0 stub c) c).reg .rsp = frameTop rsp0 c - 176 := by
    rw [hkept _ (Or.inl rfl), pushedAll_rsp, interrupted_rsp, BitVec.sub_sub]
    rfl
  have hrsp' : ((beforeCall v (interrupted rsp0 stub c) c).reg .rsp).toNat
      = (frameTop rsp0 c).toNat - 176 := by
    rw [hrsp]
    exact sub_words (n := 22) (by omega)
  have hon : (beforeCall v (interrupted rsp0 stub c) c).OnStack mmu lo hi := by
    refine ⟨?_, ?_, ?_⟩
    · rw [beforeCall_cr3]
      exact hon1.mapped
    · rw [hrsp']
      omega
    · rw [hrsp']
      omega
  obtain ⟨called, hcalled⟩ : ∃ called, called = (beforeCall v (interrupted rsp0 stub c) c).pushed back :=
    ⟨_, rfl⟩
  have hlen : (entryWords v c back).length = 23 := rfl
  have hmem : called.mem
      = ((c.set .rsp (frameTop rsp0 c)).pushedAll (entryWords v c back)).mem := by
    have hsplit : entryWords v c back = (interruptWords c ++ stubWords v c.reg) ++ [back] := rfl
    rw [hsplit, pushedAll_append, hcalled]
    apply pushedAll_mem_congr [back]
    · rw [hrsp, pushedAll_rsp, set_reg_self]
      rfl
    · rw [beforeCall, beforeCall_mem]
  have hholds := pushedAll_holds (c := c.set .rsp (frameTop rsp0 c)) (entryWords v c back)
    (by rw [hbase, hlen]; omega)
  rw [hbase, hlen, ← hmem, entryWords_reverse] at hholds
  refine ⟨{ called with rip := handler }, ?_, ?_⟩
  · rw [hint, Option.bind_some, isrEntry_eq, exec_append, hloads, Option.bind_some, exec,
      execInstr, hon.push (by omega), hcalled]
    rfl
  · refine ⟨?_, hholds, ?_, rfl, ?_, ?_, ?_, ?_⟩
    · show (called.reg .rsp).toNat = _
      rw [hcalled, pushed_rsp, sub_word (by omega), hrsp']
      omega
    · intro x hx
      show called.mem x = _
      rw [hmem, pushedAll_outside _ (by rw [hbase, hlen]; omega) (by rw [hbase, hlen]; omega)]
      rfl
    · show called.cs = _
      rw [hcalled, pushed_cs, beforeCall_cs, interrupted_cs]
    · show called.cr3 = _
      rw [hcalled, pushed_cr3, beforeCall_cr3, interrupted_cr3]
    · intro a ha
      obtain ⟨hne, harg⟩ := beforeCall_args v (interrupted rsp0 stub c) c a ha
      show called.reg a.1 = _
      rw [hcalled, pushed_reg back hne, harg]
    · intro r hr
      have hne : r ≠ .rsp := fun heq => absurd (heq ▸ hr) (by decide)
      show called.reg r = _
      rw [hcalled, pushed_reg back hne, hkept r (Or.inr hr), pushedAll_reg _ hne,
        interrupted_reg _ _ hne]

/-! ## The way to ring 3 -/

/-- **What `hal_enter_user_mode` does**: ring 3 at the entry point, on the stack it was given, with
interrupts on. -/
theorem halEnterUserMode_spec (h : c.OnStack mmu lo hi) (hbound : hi < 2 ^ 64)
    (hroom : lo + 40 ≤ (c.reg .rsp).toNat) :
    ∃ c', exec mmu halEnterUserMode c = some c' ∧ c'.rip = c.reg .rdi ∧ c'.reg .rsp = c.reg .rsi ∧
      c'.cs = userCodeSel ∧ c'.ss = userDataSel ∧ c'.rflags = c.rflags ||| 0x200 ∧
      c'.cr3 = c.cr3 ∧ ∀ x, x < (c.reg .rsp).toNat - 40 ∨ (c.reg .rsp).toNat ≤ x →
        c'.mem x = c.mem x := by
  have hupper := h.upper
  -- SS and RSP, then RFLAGS by way of RAX
  let c2 := c.pushedAll [userDataSel, c.reg .rsi]
  have hon2 : c2.OnStack mmu lo hi :=
    h.pushedAll (by simp only [List.length_cons, List.length_nil]; omega)
  have hrsp2 : (c2.reg .rsp).toNat = (c.reg .rsp).toNat - 16 := by
    rw [show c2.reg .rsp = _ from pushedAll_rsp _]
    exact sub_words (n := 2) (by omega)
  have hwords2 : WordsAt c2.mem ((c.reg .rsp).toNat - 16) [c.reg .rsi, userDataSel] :=
    pushedAll_holds (c := c) [userDataSel, c.reg .rsi] (by
      simp only [List.length_cons, List.length_nil]
      omega)
  let p := c2.pushed c2.rflags
  have hrspp : (p.reg .rsp).toNat = (c.reg .rsp).toNat - 24 := by
    rw [show p.reg .rsp = c2.reg .rsp - 8 from rfl, sub_word (by omega), hrsp2]
    omega
  have hpop : p.pop mmu = some (c2.rflags, p.set .rsp (p.reg .rsp + 8)) := by
    apply (hon2.pushed (by omega) _).pop
    · rw [hrspp]
      omega
    · show read64 (write64 c2.mem (c2.reg .rsp - 8).toNat c2.rflags.toNat) (c2.reg .rsp - 8).toNat = _
      rw [read64_write64_same, Nat.mod_eq_of_lt c2.rflags.isLt]
  let c4 := ((p.set .rsp (p.reg .rsp + 8)).set .rax c2.rflags).set .rax (c2.rflags ||| 0x200)
  have hrsp4 : c4.reg .rsp = c2.reg .rsp := by
    rw [set_reg_of_ne _ (by decide), set_reg_of_ne _ (by decide), set_reg_self]
    exact BitVec.sub_add_cancel _ _
  have hon4 : c4.OnStack mmu lo hi := by
    refine ⟨hon2.mapped, ?_, ?_⟩ <;> rw [hrsp4] <;> omega
  have hwords4 : WordsAt c4.mem ((c.reg .rsp).toNat - 16) [c.reg .rsi, userDataSel] := by
    apply hwords2.congr
    intro x h1 _
    exact (write64_outside (by rw [sub_word (by omega), hrsp2]; omega)).symm
  -- RFLAGS, CS and RIP, and the return
  let c5 := c4.pushedAll [c2.rflags ||| 0x200, userCodeSel, c.reg .rdi]
  have hrsp5 : (c5.reg .rsp).toNat = (c.reg .rsp).toNat - 40 := by
    have hsub : (c2.reg .rsp - BitVec.ofNat 64 (8 * 3)).toNat = (c2.reg .rsp).toNat - 8 * 3 :=
      sub_words (by omega)
    rw [show c5.reg .rsp = c4.reg .rsp - BitVec.ofNat 64 (8 * 3) from pushedAll_rsp _, hrsp4, hsub,
      hrsp2]
    omega
  have hon5 : c5.OnStack mmu lo hi :=
    hon4.pushedAll (by rw [hrsp4, hrsp2]; simp only [List.length_cons, List.length_nil]; omega)
  have hlow : WordsAt c5.mem ((c.reg .rsp).toNat - 40) [c.reg .rdi, userCodeSel, c2.rflags ||| 0x200] := by
    have hholds := pushedAll_holds (c := c4) [c2.rflags ||| 0x200, userCodeSel, c.reg .rdi] (by
        rw [hrsp4, hrsp2]
        simp only [List.length_cons, List.length_nil]
        omega)
    rw [hrsp4, hrsp2] at hholds
    exact hholds
  have hframe : WordsAt c5.mem (c5.reg .rsp).toNat
      [c.reg .rdi, userCodeSel, c2.rflags ||| 0x200, c.reg .rsi, userDataSel] := by
    rw [hrsp5]
    change WordsAt _ _ ([c.reg .rdi, userCodeSel, c2.rflags ||| 0x200] ++ [c.reg .rsi, userDataSel])
    rw [holds_append]
    refine ⟨hlow, ?_⟩
    rw [show (c.reg .rsp).toNat - 40
        + 8 * [c.reg .rdi, userCodeSel, c2.rflags ||| 0x200].length = (c.reg .rsp).toNat - 16 by
      simp only [List.length_cons, List.length_nil]
      omega]
    apply hwords4.congr
    intro x h1 _
    refine (pushedAll_outside _ ?_ ?_).symm
    · rw [hrsp4, hrsp2]
      simp only [List.length_cons, List.length_nil]
      omega
    · rw [hrsp4, hrsp2]
      exact Or.inr h1
  have hexec2 : exec mmu [.pushImm userDataSel, .push .rsi] c = some c2 :=
    exec_pushAll _ rfl h (by simp only [List.length_cons, List.length_nil]; omega)
  have hexec4 : exec mmu [.pushf, .pop .rax, .orImm .rax 0x200] c2 = some c4 := by
    have hrax : ((p.set .rsp (p.reg .rsp + 8)).set .rax c2.rflags).reg .rax = c2.rflags :=
      set_reg_self _ _ _
    rw [exec, execInstr, hon2.push (by omega), Option.bind_some, exec, execInstr,
      show c2.pushed c2.rflags = p from rfl, hpop, Option.map_some, Option.bind_some, exec,
      execInstr, hrax]
    rfl
  have hexec5 : exec mmu [.push .rax, .pushImm userCodeSel, .push .rdi] c4 = some c5 := by
    have hrax : c4.reg .rax = c2.rflags ||| 0x200 := set_reg_self _ _ _
    have hrdi : c4.reg .rdi = c.reg .rdi := rfl
    refine exec_pushAll _ ?_ hon4 ?_
    · rw [← hrax, ← hrdi]
      rfl
    · rw [hrsp4, hrsp2]
      simp only [List.length_cons, List.length_nil]
      omega
  have hcode : exec mmu halEnterUserMode c = c5.iret mmu := by
    have hsplit : halEnterUserMode = [.pushImm userDataSel, .push .rsi] ++
      ([.pushf, .pop .rax, .orImm .rax 0x200] ++
        ([.push .rax, .pushImm userCodeSel, .push .rdi] ++ [.iretq])) := rfl
    rw [hsplit, exec_append, hexec2, Option.bind_some, exec_append, hexec4, Option.bind_some,
      exec_append, hexec5, Option.bind_some, exec, execInstr]
    cases c5.iret mmu <;> rfl
  rw [hcode, hon5.iret hbound (by omega) hframe]
  refine ⟨_, rfl, rfl, ?_, rfl, rfl, rfl, rfl, ?_⟩
  · show (c5.set .rsp (c.reg .rsi)).reg .rsp = c.reg .rsi
    exact set_reg_self c5 .rsp (c.reg .rsi)
  · intro x hx
    show c5.mem x = c.mem x
    have h5 : c5.mem x = c4.mem x := by
      apply pushedAll_outside
      · rw [hrsp4, hrsp2]
        simp only [List.length_cons, List.length_nil]
        omega
      · rw [hrsp4, hrsp2]
        simp only [List.length_cons, List.length_nil]
        omega
    have h4 : c4.mem x = c2.mem x :=
      write64_outside (by rw [sub_word (by omega), hrsp2]; omega)
    have h2 : c2.mem x = c.mem x := by
      apply pushedAll_outside <;> simp only [List.length_cons, List.length_nil] <;> omega
    rw [h5, h4, h2]

end Vajra
