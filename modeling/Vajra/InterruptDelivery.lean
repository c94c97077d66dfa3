import Vajra.ByteMemory

/-!
# Interrupts and exceptions in long mode

How a 64-bit x86 processor gets from an event to the first instruction of a handler: the gate in the
interrupt descriptor table, the code segment in the global descriptor table, the stack in the task
state segment, and what happens when one of them is not in order.  The tables are bytes of a memory, as
the processor sees it.
-/

namespace InterruptDelivery

open ByteMemory

/-- A table register. -/
structure TableRegister where
  base : Nat
  limit : Nat

/-- The tables a processor has loaded; `task` is the selector of its task state segment. -/
structure Tables where
  gdtr : TableRegister
  idtr : TableRegister
  task : Nat

/-- A gate, with its system bit in `type`. -/
structure Gate where
  offset : Nat
  selector : Nat
  ist : Nat
  type : Nat
  dpl : Nat
  present : Bool
  deriving DecidableEq

def gateAt (m : Mem) (a : Nat) : Gate where
  offset := readLE m a 2 + 2 ^ 16 * readLE m (a + 6) 2 + 2 ^ 32 * readLE m (a + 8) 4
  selector := readLE m (a + 2) 2
  ist := readLE m (a + 4) 1 % 8
  type := readLE m (a + 5) 1 % 32
  dpl := readLE m (a + 5) 1 / 32 % 4
  present := readLE m (a + 5) 1 / 128 = 1

/-- The access bits of a descriptor, with its system bit in `type`. -/
structure Segment where
  type : Nat
  dpl : Nat
  present : Bool
  long : Bool
  big : Bool
  deriving DecidableEq

def segmentOf (d : Nat) : Segment where
  type := d / 2 ^ 40 % 32
  dpl := d / 2 ^ 45 % 4
  present := d / 2 ^ 47 % 2 = 1
  long := d / 2 ^ 53 % 2 = 1
  big := d / 2 ^ 54 % 2 = 1

/-- A code segment of 64-bit code. -/
def Segment.Code64 (s : Segment) : Prop := 24 ≤ s.type ∧ s.long = true ∧ s.big = false

instance (s : Segment) : Decidable s.Code64 := inferInstanceAs (Decidable (_ ∧ _))

def Segment.conforming (s : Segment) : Bool := s.type / 4 % 2 = 1

/-- The descriptor of a selector that is neither null nor local nor beyond the table. -/
def descriptorAt (m : Mem) (gdtr : TableRegister) (selector : Nat) : Option Nat :=
  if selector / 8 = 0 ∨ selector / 4 % 2 = 1 ∨ gdtr.limit < selector / 8 * 8 + 7 then none
  else some (read64 m (gdtr.base + selector / 8 * 8))

/-- The base and the limit of a 64-bit system segment, from the two words of its descriptor. -/
def systemBase (low high : Nat) : Nat :=
  low / 2 ^ 16 % 2 ^ 24 + 2 ^ 24 * (low / 2 ^ 56 % 2 ^ 8) + 2 ^ 32 * (high % 2 ^ 32)

def systemLimit (low : Nat) : Nat := low % 2 ^ 16 + 2 ^ 16 * (low / 2 ^ 48 % 2 ^ 4)

/-- `ltr`: the descriptor has to be that of an available 64-bit task state segment, and is marked
busy. -/
def loadTask (m : Mem) (gdtr : TableRegister) (selector : Nat) : Option Mem :=
  match descriptorAt m gdtr selector with
  | none => none
  | some d =>
      if (segmentOf d).type = 9 ∧ (segmentOf d).present ∧ selector / 8 * 8 + 15 ≤ gdtr.limit then
        some (write64 m (gdtr.base + selector / 8 * 8) (d + 2 ^ 41))
      else none

/-- Where the task register's segment lies, and how long it is. -/
def taskSegment (m : Mem) (t : Tables) : TableRegister where
  base := systemBase (read64 m (t.gdtr.base + t.task / 8 * 8)) (read64 m (t.gdtr.base + t.task / 8 * 8 + 8))
  limit := systemLimit (read64 m (t.gdtr.base + t.task / 8 * 8))

/-- What has happened: `int n`, an interrupt line, or an exception. -/
inductive Source where
  | software
  | external
  | exception
  deriving DecidableEq

/-- The state in which a handler's frame is pushed. -/
structure HandlerEntry where
  rip : Nat
  cs : Nat
  cpl : Nat
  /-- the address the frame ends at -/
  stack : Nat
  /-- SS has been loaded with a null selector -/
  nullSs : Bool
  interruptsOff : Bool
  deriving DecidableEq

inductive Delivery where
  | enter (e : HandlerEntry)
  | fault (vector : Nat)
  deriving DecidableEq

def gpFault : Delivery := .fault 13

/-- A stack of the task state segment. -/
def taskStack (m : Mem) (t : Tables) (off : Nat) : Option Nat :=
  if (taskSegment m t).limit < off + 7 then none else some (read64 m ((taskSegment m t).base + off))

/-- One attempt to get to the handler of `v` from privilege level `cpl` with the stack at `rsp`. -/
def deliver (m : Mem) (t : Tables) (cpl rsp v : Nat) (s : Source) : Delivery :=
  if t.idtr.limit < 16 * v + 15 then gpFault
  else
    let g := gateAt m (t.idtr.base + 16 * v)
    if g.type ≠ 14 ∧ g.type ≠ 15 then gpFault
    else if s = .software ∧ g.dpl < cpl then gpFault
    else if ¬ g.present then .fault 11
    else
      match descriptorAt m t.gdtr g.selector with
      | none => gpFault
      | some d =>
          let code := segmentOf d
          if ¬ code.Code64 ∨ cpl < code.dpl then gpFault
          else if ¬ code.present then .fault 11
          else
            let cpl' := if code.conforming then cpl else code.dpl
            let stack :=
              if g.ist ≠ 0 then taskStack m t (36 + 8 * (g.ist - 1))
              else if cpl' < cpl then taskStack m t (4 + 8 * cpl')
              else some rsp
            match stack with
            | none => .fault 10
            | some stack =>
                .enter {
                  rip := g.offset
                  cs := g.selector / 4 * 4 + cpl'
                  cpl := cpl'
                  stack := stack / 16 * 16
                  nullSs := cpl' < cpl
                  interruptsOff := g.type = 14 }

/-- The exceptions that make a double fault when another fault comes while one of them is
delivered. -/
def Doubling (s : Source) (v : Nat) : Prop :=
  s = .exception ∧ (v = 0 ∨ v = 10 ∨ v = 11 ∨ v = 12 ∨ v = 13 ∨ v = 14)

instance (s : Source) (v : Nat) : Decidable (Doubling s v) := inferInstanceAs (Decidable (_ ∧ _))

/-- The handler the processor gets to, with its vector; it shuts down if it gets to none. -/
def raised (m : Mem) (t : Tables) (cpl rsp v : Nat) (s : Source) : Option (Nat × HandlerEntry) :=
  let double :=
    match deliver m t cpl rsp 8 .exception with
    | .enter e => some (8, e)
    | .fault _ => none
  match deliver m t cpl rsp v s with
  | .enter e => some (v, e)
  | .fault f =>
      if v = 8 ∧ s = .exception then none
      else if Doubling s v then double
      else
        match deliver m t cpl rsp f .exception with
        | .enter e => some (f, e)
        | .fault _ => double

/-! ## What it rests on -/

/-- A gate depends on its sixteen bytes. -/
theorem gateAt_congr {m m' : Mem} {a : Nat} (h : ∀ x, a ≤ x → x < a + 16 → m x = m' x) :
    gateAt m a = gateAt m' a := by
  have hread : ∀ off n, off + n ≤ 16 → readLE m (a + off) n = readLE m' (a + off) n :=
    fun off n hoff => readLE_congr fun x h1 h2 => h x (by omega) (by omega)
  have h0 : readLE m a 2 = readLE m' a 2 := hread 0 2 (by decide)
  simp only [gateAt, h0, hread 2 2 (by decide), hread 4 1 (by decide), hread 5 1 (by decide),
    hread 6 2 (by decide), hread 8 4 (by decide)]

/-- A gate of zeros is no gate. -/
theorem gateAt_zero {m : Mem} {a : Nat} (h : ∀ x, a ≤ x → x < a + 16 → m x = 0) :
    (gateAt m a).type = 0 := by
  have hbyte : readLE m (a + 5) 1 = 0 := by
    simp only [readLE, h (a + 5) (by omega) (by omega)]
    rfl
  simp only [gateAt, hbyte]

/-- A gate that is in order, to a 64-bit code segment of ring 0. -/
structure Leads (m : Mem) (t : Tables) (v : Nat) (g : Gate) : Prop where
  inside : 16 * v + 15 ≤ t.idtr.limit
  gate : gateAt m (t.idtr.base + 16 * v) = g
  interrupt : g.type = 14
  present : g.present = true
  code : ∃ d, descriptorAt m t.gdtr g.selector = some d ∧ (segmentOf d).Code64 ∧
    (segmentOf d).dpl = 0 ∧ (segmentOf d).present = true ∧ (segmentOf d).conforming = false

/-- The stack of an entry through the gate `g` from privilege level `cpl`. -/
def gateStack (m : Mem) (t : Tables) (cpl rsp : Nat) (g : Gate) : Option Nat :=
  if g.ist ≠ 0 then taskStack m t (36 + 8 * (g.ist - 1))
  else if 0 < cpl then taskStack m t 4
  else some rsp

/-- The entry through such a gate. -/
def gateEntry (cpl stack : Nat) (g : Gate) : HandlerEntry where
  rip := g.offset
  cs := g.selector / 4 * 4
  cpl := 0
  stack := stack / 16 * 16
  nullSs := 0 < cpl
  interruptsOff := true

/-- **A gate in order is taken**, unless a program asks for one that is not open to it. -/
theorem deliver_leads {m : Mem} {t : Tables} {v : Nat} {g : Gate} (h : Leads m t v g) {cpl rsp : Nat}
    {s : Source} (hopen : s = .software → cpl ≤ g.dpl) {stack : Nat}
    (hstack : gateStack m t cpl rsp g = some stack) :
    deliver m t cpl rsp v s = .enter (gateEntry cpl stack g) := by
  obtain ⟨d, hd, hcode, hdpl, hpresent, hconforming⟩ := h.code
  have hgate := h.gate
  have htype := h.interrupt
  have hin := h.inside
  have hclosed : ¬ (s = .software ∧ g.dpl < cpl) := by
    rintro ⟨hs, hlt⟩
    have := hopen hs
    omega
  have hfound : (if g.ist ≠ 0 then taskStack m t (36 + 8 * (g.ist - 1))
      else if 0 < cpl then taskStack m t (4 + 8 * 0) else some rsp) = some stack := hstack
  have hinside : ¬ t.idtr.limit < 16 * v + 15 := by omega
  simp only [deliver, if_neg hinside, hgate, if_neg hclosed, h.present, not_true,
    if_false, hd, hcode, hdpl, Nat.not_lt_zero, or_self, hpresent, hconforming, Bool.false_eq_true,
    hfound, htype]
  rfl

/-- A program that asks for a gate that is not open to it. -/
theorem deliver_closed {m : Mem} {t : Tables} {v : Nat} {g : Gate} (h : Leads m t v g) {cpl : Nat}
    (rsp : Nat) (hclosed : g.dpl < cpl) : deliver m t cpl rsp v .software = gpFault := by
  have hin := h.inside
  have htaken : ¬ (g.type ≠ 14 ∧ g.type ≠ 15) := by
    rw [h.interrupt]
    decide
  have hinside : ¬ t.idtr.limit < 16 * v + 15 := by omega
  simp only [deliver, if_neg hinside, h.gate, if_neg htaken, hclosed, and_self, if_true]

/-- An entry of the table that is no gate. -/
theorem deliver_absent {m : Mem} {t : Tables} {v : Nat} (hzero : (gateAt m (t.idtr.base + 16 * v)).type = 0)
    (cpl rsp : Nat) (s : Source) : deliver m t cpl rsp v s = gpFault := by
  have hnone : (gateAt m (t.idtr.base + 16 * v)).type ≠ 14 ∧
      (gateAt m (t.idtr.base + 16 * v)).type ≠ 15 := by
    rw [hzero]
    decide
  simp only [deliver, if_pos hnone, ite_self]

theorem raised_enter {m : Mem} {t : Tables} {cpl rsp v : Nat} {s : Source} {e : HandlerEntry}
    (h : deliver m t cpl rsp v s = .enter e) : raised m t cpl rsp v s = some (v, e) := by
  simp only [raised, h]

/-- A general protection fault on the way to a handler. -/
theorem raised_fault {m : Mem} {t : Tables} {cpl rsp v : Nat} {s : Source} {e e' : HandlerEntry}
    (h : deliver m t cpl rsp v s = gpFault) (hgp : deliver m t cpl rsp 13 .exception = .enter e)
    (hdf : deliver m t cpl rsp 8 .exception = .enter e') (hv : ¬ (v = 8 ∧ s = .exception)) :
    raised m t cpl rsp v s = some (if Doubling s v then (8, e') else (13, e)) := by
  simp only [raised, h, gpFault, if_neg hv, hgp, hdf]
  split
  · rfl
  · rfl

end InterruptDelivery
