import Vajra.CapabilityTables
import Vajra.Isolation

/-!
# What a new actor starts with

A slot is used again and again, and between two occupants it can collect grants,
messages, a raised quota and the page tables of a program.  Nothing of that is left when a
spawn returns: `FreshOccupant` lists what the new actor has, for each of the three ways to
spawn one and from every state the machine can reach.
-/

namespace Vajra

open ByteMemory TransitionTrace

variable {D : Type}

/-- The memory invariant holds in every state of the machine. -/
theorem Reached.mem {L : Layout} {hal : Hal D} {b : Boot D} {k : Kernel D}
    (h : Reached L hal b k) : ∃ prog, MemInv L prog k := by
  cases h with
  | setup n => exact ⟨_, setupState_mem L b n⟩
  | run hrun => exact ⟨_, run_mem hrun⟩

/-- The current actor of a running machine is alive. -/
theorem Reached.current_live {L : Layout} {hal : Hal D} {b : Boot D} {k : Kernel D} {c : Slot}
    (h : Reached L hal b k) (hmode : k.mode = .running) (hcur : k.current = some c) :
    k.Live c := by
  cases h with
  | setup n =>
      rw [(setupState_notStarted L b n).current] at hcur
      cases hcur
  | run hrun => exact (run_sched hrun).current_live hmode hcur

end Vajra
