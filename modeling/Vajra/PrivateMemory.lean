import Vajra.KernelView
import Vajra.StepStores

/-!
# Nobody else changes an actor's memory

The pages of a live actor are its own: its stack page, and the pages of its program if it was
loaded with one.  A step of another actor stores to that actor's own pages and to `.user_text`; a
spawn zeroes and fills pages that were not taken before; the page tables lie below 1MB.  So what
ring 3 of an actor loads outside `.user_text` is, when the actor runs again, what it was when the
actor ran last, whatever the others have done in between (`private_memory_kept`).
-/

namespace Vajra

open ByteMemory TransitionTrace

variable {D : Type} {L : Layout} {prog : Slot → Option (Nat × Nat)} {k : Kernel D}

/-- The byte a load from ring 3 gives; a load that the tables do not allow faults. -/
def peekUser (ram : Mem) (cr3 va : Nat) : Option UInt8 :=
  match walk ram cr3 va with
  | none => none
  | some leaf => if leaf.user then some (ram (leaf.page + va % pageSize)) else none

/-- `q` is the stack page of the actor or a page of its program. -/
def OwnPage (a : Actor) (prog : Option (Nat × Nat)) (q : Nat) : Prop :=
  a.stackPage = some q ∨
    ∃ phys size i, prog = some (phys, size) ∧ i < size / pageSize ∧ q = phys + i * pageSize

/-- The page `q` has the same bytes. -/
def SamePage (ram ram' : Mem) (q : Nat) : Prop := ∀ x, q ≤ x → x < q + pageSize → ram' x = ram x

theorem SamePage.refl (ram : Mem) (q : Nat) : SamePage ram ram q := fun _ _ _ => rfl

theorem SamePage.trans {ram ram' ram'' : Mem} {q : Nat} (h : SamePage ram ram' q)
    (h' : SamePage ram' ram'' q) : SamePage ram ram'' q :=
  fun x h1 h2 => (h' x h1 h2).trans (h x h1 h2)

/-! ## Pages of an actor -/

theorem MemInv.ownPage_taken (h : MemInv L prog k) {s : Slot} (hs : k.Live s) {q : Nat}
    (hq : OwnPage (k.actors s) (prog s) q) : k.memory.Taken q := by
  rcases hq with hstack | ⟨phys, size, i, hprog, hi, rfl⟩
  · exact (h.stack s q hstack).1
  · exact (h.pages s hs phys size hprog).taken i hi

/-- Ring 3 of the actor reaches its own pages, outside `.user_text`. -/
theorem MemInv.ownPage_mapped (h : MemInv L prog k) {s : Slot} (hs : k.Live s) {q : Nat}
    (hq : OwnPage (k.actors s) (prog s) q) :
    ∃ va, UserMapped k.memory.ram (k.actors s).cr3 va q ∧ ¬ IsUserText L va := by
  obtain ⟨page, hspace⟩ := h.space s hs
  have htext : ∀ va, commonsEnd ≤ va → ¬ IsUserText L va := by
    intro va hva hin
    have hlow := L.text_low
    have hin2 := hin.2
    omega
  rcases hq with hstack | ⟨phys, size, i, hprog, hi, rfl⟩
  · have hq : q = page := Option.some.inj (hstack.symm.trans hspace.stack)
    subst hq
    refine ⟨q, (h.userMapped_iff hs hspace q q).mpr (.stack (Nat.le_refl q) ?_), ?_⟩
    · simp only [pageSize]
      omega
    · exact htext q (h.stack s q hstack).2.1
  · have hwhole := (h.pages s hs phys size hprog).placed.whole
    refine ⟨programVbase + i * pageSize, (h.userMapped_iff hs hspace _ _).mpr ?_, ?_⟩
    · have hvisible : Visible L page (some (phys, size)) (programVbase + i * pageSize)
          (phys + (programVbase + i * pageSize - programVbase) / pageSize * pageSize) := by
        refine .program (Nat.le_add_right _ _) ?_
        simp only [pageSize] at hi hwhole ⊢
        omega
      rw [Nat.add_sub_cancel_left, Nat.mul_div_cancel _ (by decide)] at hvisible
      rw [hprog]
      exact hvisible
    · refine htext _ (Nat.le_trans ?_ (Nat.le_add_right _ _))
      decide

/-- A page that ring 3 reaches is a page. -/
theorem MemInv.mapped_aligned (h : MemInv L prog k) {s : Slot} (hs : k.Live s) {va p : Nat}
    (hp : UserMapped k.memory.ram (k.actors s).cr3 va p) : p % pageSize = 0 := by
  obtain ⟨page, hspace⟩ := h.space s hs
  have hvisible := (h.userMapped_iff hs hspace va p).mp hp
  generalize hprog : prog s = own at hvisible
  cases hvisible with
  | text htext => exact Nat.mul_mod_left _ _
  | stack h1 h2 => exact (h.stack s _ hspace.stack).1.page.aligned
  | program h1 h2 =>
      rw [Nat.add_mul_mod_self_right]
      exact (h.pages s hs _ _ hprog).placed.base

/-- **A step of another actor leaves an actor's pages alone.** -/
theorem Stepped.samePage {hal : Hal D} {k' : Kernel D} {s c : Slot} {e : Event D} {o : Outcome}
    (hstep : Stepped L hal k c e k' o) (hc : k.Live c) (h : MemInv L prog k) (hs : k.Live s)
    (hne : s ≠ c) {q : Nat} (hq : OwnPage (k.actors s) (prog s) q) :
    SamePage k.memory.ram k'.memory.ram q := by
  have htaken := h.ownPage_taken hs hq
  obtain ⟨va, hmapped, htext⟩ := h.ownPage_mapped hs hq
  have hqa := htaken.page.aligned
  intro x h1 h2
  rcases hstep.stores hc h x with hsame | ⟨t, h3, h4⟩ | ⟨q', hq', hfresh, h3, h4⟩ | ⟨va', p, hp, rfl⟩
  · exact hsame
  · have hbase := htaken.page.base
    have hlow := L.table_low t
    have hta := L.table_aligned t
    simp only [memBase, commonsEnd, pageSize] at *
    omega
  · have hqa' := hq'.aligned
    have hsame : q' = q := by
      simp only [pageSize] at *
      omega
    rw [hsame] at hfresh
    exact absurd htaken hfresh
  · -- Both actors would reach the page `q`.
    have hpa := h.mapped_aligned hc hp
    have hoff : va' % pageSize < pageSize := Nat.mod_lt _ (by decide)
    have hsame : p = q := by
      simp only [pageSize] at *
      omega
    rw [hsame] at hp
    exact absurd (h.isolated.apart s c hs hc hne va va' q hmapped hp).1 htext

/-! ## The record of an actor -/

/-- The actor has the same stack page and the same tables. -/
def SameSpace (a a' : Actor) : Prop := a'.stackPage = a.stackPage ∧ a'.cr3 = a.cr3

/-- Reaping takes the stack pages of dead slots. -/
theorem reapDeadActors_stack {s : Slot} (hs : k.Live s) :
    ((reapDeadActors k).actors s).stackPage = (k.actors s).stackPage := by
  unfold reapDeadActors
  generalize List.finRange maxActors = slots
  induction slots generalizing k with
  | nil => rfl
  | cons i rest ih =>
      rw [List.foldl_cons]
      have hlive : (reapActor k i).Live s := by
        rw [Kernel.Live, (reapActor_reaped k i).state]
        exact hs
      rw [ih hlive]
      rcases reapActor_cases k i with heq | ⟨page, _, hdead, _, heq⟩
      · rw [heq]
      · rw [heq, setActor_actors, Function.update_of_ne]
        rintro rfl
        exact hs hdead

theorem scheduleNext_space {s : Slot} (hs : k.Live s) :
    SameSpace (k.actors s) ((scheduleNext k).actors s) := by
  have hstack := reapDeadActors_stack hs
  obtain ⟨page, hpage⟩ := (reapDeadActors_reaped k).actor s
  have hroot : ((reapDeadActors k).actors s).cr3 = (k.actors s).cr3 := by
    rw [hpage]
  rcases scheduleNext_cases k with ⟨heq, _⟩ | ⟨next, a, _, ⟨ctx, rfl, _⟩, heq⟩
  · rw [heq]
    exact ⟨hstack, hroot⟩
  · rw [heq]
    by_cases hsn : s = next
    · subst hsn
      simp only [setActor_actors, Function.update_self]
      exact ⟨hstack, hroot⟩
    · simp only [setActor_actors, Function.update_of_ne hsn]
      exact ⟨hstack, hroot⟩

/-- A spawn changes the addresses of no live actor. -/
theorem ChildSpawn.space {k' : Kernel D} {c : Slot} {taken result : Option Slot}
    (h : ChildSpawn k c k' taken result) {s : Slot} (hs : k.Live s) :
    taken ≠ some s ∧ SameSpace (k.actors s) (k'.actors s) := by
  cases h with
  | refused h =>
      rw [h]
      exact ⟨(Option.some_ne_none s).symm, rfl, rfl⟩
  | aborted i cr3 page entry _ hdead h =>
      have hsi : s ≠ i := by
        rintro rfl
        exact hs hdead
      rw [h, Function.update_of_ne hsi]
      exact ⟨fun heq => hsi (Option.some.inj heq).symm, rfl, rfl⟩
  | spawned i cr3 page entry _ hdead hchild hspawner hother =>
      have hsi : s ≠ i := by
        rintro rfl
        exact hs hdead
      refine ⟨fun heq => hsi (Option.some.inj heq).symm, ?_⟩
      by_cases hsc : s = c
      · subst hsc
        rw [hspawner]
        exact ⟨rfl, rfl⟩
      · rw [hother s hsi hsc]
        exact ⟨rfl, rfl⟩

/-- **A step of another actor leaves a live actor in its slot**, with its stack page and tables. -/
theorem Stepped.space {hal : Hal D} {k' : Kernel D} {s c : Slot} {e : Event D} {o : Outcome}
    (hstep : Stepped L hal k c e k' o) (hc : k.Live c) (hs : k.Live s) (hne : s ≠ c) :
    takenSlot L k c e ≠ some s ∧ SameSpace (k.actors s) (k'.actors s) := by
  have hset : ∀ {i : Slot} {a : Actor}, SameSpace (k.actors i) a →
      SameSpace (k.actors s) (Function.update k.actors i a s) := by
    intro i a ha
    by_cases hsi : s = i
    · subst hsi
      rw [Function.update_self]
      exact ha
    · rw [Function.update_of_ne hsi]
      exact ⟨rfl, rfl⟩
  have hsched : ∀ {a : Actor}, SameSpace (k.actors s) ((scheduleNext (k.setActor c a)).actors s) := by
    intro a
    have hlive : (k.setActor c a).Live s := by
      rw [Kernel.Live, setActor_actors, Function.update_of_ne hne]
      exact hs
    have hspace := scheduleNext_space hlive
    rw [setActor_actors, Function.update_of_ne hne] at hspace
    exact hspace
  have hnone : ∀ {sys : Syscall} {call : Call}, IsCall e sys call → sys ≠ .spawn →
      sys ≠ .spawnProgram → takenSlot L k c e ≠ some s := by
    intro sys call hcall hsp hspp
    rw [takenSlot_of_call hcall hsp hspp]
    exact (Option.some_ne_none s).symm
  cases hstep with
  | tick => exact ⟨(Option.some_ne_none s).symm, hsched⟩
  | yield hcall | exit hcall => exact ⟨hnone hcall (by simp) (by simp), hsched⟩
  | @send _ call hcall =>
      refine ⟨hnone hcall (by simp) (by simp), ?_⟩
      rcases actorSend_cases k c (cInt call.a1) call.a2 call.a3 with heq | ⟨d, _, _, _, _, heq⟩
      · rw [heq]
        exact ⟨rfl, rfl⟩
      · rw [heq]
        exact hset ⟨rfl, rfl⟩
  | receive out hcall =>
      refine ⟨?_, ?_⟩
      · rcases hcall with ⟨call, hcall, _⟩ | ⟨rfl, _⟩
        · exact hnone hcall (by simp) (by simp)
        · exact (Option.some_ne_none s).symm
      · rcases sysReceive_cases k c out with ⟨_, heq⟩ | ⟨_, heq⟩
        · rw [heq]
          exact hsched
        · rw [heq]
          exact hset ⟨rfl, rfl⟩
  | @grant _ call hcall =>
      refine ⟨hnone hcall (by simp) (by simp), ?_⟩
      rcases actorDelegate_cases k c (cInt call.a1) (cInt call.a2) (cInt call.a3) with
        heq | ⟨d, _, _, heq⟩
      · rw [heq]
        exact ⟨rfl, rfl⟩
      · rw [heq, actorAddCap_fst]
        exact hset ⟨rfl, rfl⟩
  | @spawn _ call hcall =>
      obtain ⟨rfl, hdecode⟩ := hcall
      have hspace := (actorSpawnChild_spec L k hc call.a1.toNat).1.space hs
      simpa [takenSlot, hdecode] using hspace
  | @spawnProgram _ call hcall hcap =>
      obtain ⟨rfl, hdecode⟩ := hcall
      have hspace := (loaderSpawnProgram_spec L k hc (cInt call.a1)).1.space hs
      simpa [takenSlot, hdecode, hcap] using hspace
  | @terminate _ call hcall =>
      refine ⟨hnone hcall (by simp) (by simp), ?_⟩
      rcases actorTerminate_cases k c (cInt call.a1) with heq | ⟨t, _, _, _, heq⟩
      · rw [heq]
        exact ⟨rfl, rfl⟩
      · rw [heq]
        exact hset ⟨rfl, rfl⟩
  | @createName _ call hcall hcap =>
      refine ⟨hnone hcall (by simp) (by simp), ?_⟩
      rcases sysCreateName_cases k c (userBytes k c call.a1) with ⟨_, heq⟩ | ⟨_, heq⟩
      · rw [heq]
        exact ⟨rfl, rfl⟩
      · rw [heq]
        exact hset ⟨rfl, rfl⟩
  | programDenied hcall hcap =>
      obtain ⟨rfl, hdecode⟩ := hcall
      refine ⟨?_, rfl, rfl⟩
      simp [takenSlot, hdecode, hcap]
  | createDenied hcall => exact ⟨hnone hcall (by simp) (by simp), rfl, rfl⟩
  | @quietCall _ call sys hcall hq hquiet =>
      have hloud : ∀ {loud : Syscall}, loud.quiet = false → sys ≠ loud := Syscall.ne_of_quiet hq
      refine ⟨hnone hcall (hloud rfl) (hloud rfl), ?_⟩
      rw [hquiet.actors]
      exact ⟨rfl, rfl⟩
  | unknown hdecode =>
      refine ⟨?_, rfl, rfl⟩
      simp [takenSlot, hdecode]
  | store | device | fault => exact ⟨(Option.some_ne_none s).symm, rfl, rfl⟩

/-! ## Runs -/

/-- What an actor keeps while others run. -/
structure SpaceKept (k k' : Kernel D) (prog prog' : Option (Nat × Nat)) (s : Slot) : Prop where
  space : SameSpace (k.actors s) (k'.actors s)
  program : prog' = prog
  pages : ∀ q, OwnPage (k.actors s) prog q → SamePage k.memory.ram k'.memory.ram q

theorem SpaceKept.refl (k : Kernel D) (prog : Option (Nat × Nat)) (s : Slot) :
    SpaceKept k k prog prog s :=
  ⟨⟨rfl, rfl⟩, rfl, fun _ _ => SamePage.refl _ _⟩

theorem SpaceKept.trans {k k' k'' : Kernel D} {prog prog' prog'' : Option (Nat × Nat)} {s : Slot}
    (h : SpaceKept k k' prog prog' s) (h' : SpaceKept k' k'' prog' prog'' s) :
    SpaceKept k k'' prog prog'' s := by
  refine ⟨⟨h'.space.1.trans h.space.1, h'.space.2.trans h.space.2⟩, h'.program.trans h.program,
    fun q hq => (h.pages q hq).trans (h'.pages q ?_)⟩
  rw [OwnPage, h.space.1, h.program]
  exact hq

/-- One step of another actor. -/
theorem Run.spaceKept {hal : Hal D} {b : Boot D} {tr : List (Record D)} {k k' : Kernel D}
    {e : Event D} {o : Outcome} (hrun : Run L hal b tr k) (hstep : step L hal k e = some (k', o))
    {s : Slot} (hs : k.Live s) (hidle : k.current ≠ some s) :
    SpaceKept k k' (programOf L tr s) (programOf L (⟨k, e, o, k'⟩ :: tr) s) s := by
  obtain ⟨c, _, hcur, hc, hstepped⟩ := Run.stepped hrun hstep
  have hne : s ≠ c := by
    rintro rfl
    exact hidle hcur
  obtain ⟨htaken, hspace⟩ := hstepped.space hc hs hne
  refine ⟨hspace, ?_, fun q hq => hstepped.samePage hc (run_mem hrun) hs hne hq⟩
  rw [programOf, if_neg]
  simpa [spawnedInto, hcur] using htaken

/-- A live actor reads the same at an address outside `.user_text` in two states between which it has
been left alone. -/
theorem MemInv.peekUser_same {prog' : Slot → Option (Nat × Nat)} {k' : Kernel D} (h : MemInv L prog k)
    (h' : MemInv L prog' k') {s : Slot} (hs : k.Live s) (hs' : k'.Live s)
    (hkept : SpaceKept k k' (prog s) (prog' s) s) {va : Nat} (htext : ¬ IsUserText L va) :
    peekUser k'.memory.ram (k'.actors s).cr3 va = peekUser k.memory.ram (k.actors s).cr3 va := by
  obtain ⟨page, hspace⟩ := h.space s hs
  obtain ⟨page', hspace'⟩ := h'.space s hs'
  have hpage : page' = page := by
    have hstack := hspace'.stack
    rw [hkept.space.1] at hstack
    exact Option.some.inj (hstack.symm.trans hspace.stack)
  subst hpage
  -- The two spaces show the same pages.
  have hleaf : ∀ leaf, (walk k'.memory.ram (k'.actors s).cr3 va = some leaf ∧ leaf.user = true) ↔
      (walk k.memory.ram (k.actors s).cr3 va = some leaf ∧ leaf.user = true) := by
    intro leaf
    rw [h.user_leaf_iff hs hspace va leaf, h'.user_leaf_iff hs' hspace' va leaf, hkept.program]
  have hbyte : ∀ leaf, walk k.memory.ram (k.actors s).cr3 va = some leaf → leaf.user = true →
      k'.memory.ram (leaf.page + va % pageSize) = k.memory.ram (leaf.page + va % pageSize) := by
    intro leaf hwalk huser
    have hvisible := ((h.user_leaf_iff hs hspace va leaf).mp ⟨hwalk, huser⟩).1
    have hown : OwnPage (k.actors s) (prog s) leaf.page := by
      rcases h.visible_pages hs hspace hvisible with
        ⟨hin, _⟩ | ⟨hp, _, _⟩ | ⟨phys, size, i, hprog, hi, hp, _⟩
      · exact absurd hin htext
      · rw [hp]
        exact .inl hspace.stack
      · exact .inr ⟨phys, size, i, hprog, hi, hp⟩
    exact hkept.pages leaf.page hown _ (Nat.le_add_right _ _)
      (Nat.add_lt_add_left (Nat.mod_lt _ (by decide)) _)
  unfold peekUser
  cases hold : walk k.memory.ram (k.actors s).cr3 va with
  | none =>
      cases hnew : walk k'.memory.ram (k'.actors s).cr3 va with
      | none => rfl
      | some leaf =>
          dsimp only
          split
          · rename_i huser
            have hback := ((hleaf leaf).mp ⟨hnew, huser⟩).1
            rw [hold] at hback
            cases hback
          · rfl
  | some leaf =>
      by_cases huser : leaf.user = true
      · rw [((hleaf leaf).mpr ⟨hold, huser⟩).1]
        dsimp only
        rw [if_pos huser, if_pos huser, hbyte leaf hold huser]
      · cases hnew : walk k'.memory.ram (k'.actors s).cr3 va with
        | none =>
            dsimp only
            rw [if_neg huser]
        | some leaf' =>
            dsimp only
            rw [if_neg huser, if_neg]
            intro huser'
            have hback := ((hleaf leaf').mp ⟨hnew, huser'⟩).1
            rw [hold] at hback
            cases hback
            exact huser huser'

/-- The part of a run in which `s` is alive and never runs. -/
def Waits (s : Slot) (tr : List (Record D)) : Prop :=
  ∀ t ∈ tr, t.pre.Live s ∧ t.pre.current ≠ some s

/-- The steps before a stretch of a run kept to their buffers, too. -/
theorem OwnBuffers.of_append {hal : Hal D} {tr' tr : List (Record D)}
    (h : OwnBuffers L hal (tr' ++ tr)) : OwnBuffers L hal tr := by
  induction tr' with
  | nil => exact h
  | cons t rest ih => exact ih h.2

/-- Such a stretch leaves `s` alone. -/
theorem waiting_spaceKept {hal : Hal D} {b : Boot D} {tr tr' : List (Record D)} {k k' : Kernel D}
    (hrun : RawRun L hal b tr k) (hmore : Trace (rawStep L hal) k tr' k')
    (hown : OwnBuffers L hal (tr' ++ tr)) {s : Slot} (hwaits : Waits s tr') :
    SpaceKept k k' (programOf L tr s) (programOf L (tr' ++ tr) s) s := by
  induction hmore with
  | nil => exact SpaceKept.refl k _ s
  | @snoc tr' k1 k' e o before hstep ih =>
      obtain ⟨hs, hidle⟩ := hwaits _ List.mem_cons_self
      have hbefore := ih hown.2 fun t ht => hwaits t (List.mem_cons_of_mem _ ht)
      have hrun1 := rawRun_run (hrun.trans before) hown.2
      have hstep1 := step_of_rawStep (run_mem hrun1)
        (fun c hmode hcur => (run_sched hrun1).current_live hmode hcur) hown.1 hstep
      exact hbefore.trans (Run.spaceKept hrun1 hstep1 hs hidle)

/-- **Nobody else changes an actor's memory.**  Take any run in which the system calls fill buffers of
their callers, and any stretch of it in which actor `s` stays alive and does not run.  At every address
outside `.user_text`, ring 3 of `s` then loads at the end what it would have loaded at the beginning,
faults included, whatever the others have stored, called, spawned, loaded or terminated meanwhile. -/
theorem private_memory_kept {hal : Hal D} {b : Boot D} {tr tr' : List (Record D)} {k k' : Kernel D}
    (hrun : RawRun L hal b tr k) (hmore : Trace (rawStep L hal) k tr' k')
    (hown : OwnBuffers L hal (tr' ++ tr)) {s : Slot} (hlive : k.Live s) (hwaits : Waits s tr')
    (hlive' : k'.Live s) {va : Nat} (htext : ¬ IsUserText L va) :
    peekUser k'.memory.ram (k'.actors s).cr3 va = peekUser k.memory.ram (k.actors s).cr3 va :=
  (run_mem (rawRun_run hrun hown.of_append)).peekUser_same
    (run_mem (rawRun_run (hrun.trans hmore) hown)) hlive hlive'
    (waiting_spaceKept hrun hmore hown hwaits) htext

set_option maxRecDepth 100000 in
/-- The shell has not run yet when the program loader has loaded its program: its memory is as it was
when the scheduler was started. -/
theorem private_memory_kept_program :
    ∃ tr k, Trace (rawStep sampleLayout silentHal) (bootState sampleLayout programBoot) tr k ∧
      k.Live 15 ∧ programOf sampleLayout tr 15 = some (0x200000, 0x1000) ∧
      ∀ va, ¬ IsUserText sampleLayout va → peekUser k.memory.ram (k.actors 14).cr3 va =
        peekUser (bootState sampleLayout programBoot).memory.ram
          ((bootState sampleLayout programBoot).actors 14).cr3 va := by
  have hrun : (runTrace (rawStep sampleLayout silentHal) [] (bootState sampleLayout programBoot)
      (List.replicate 11 .tick ++ [sampleCall 17 2 0 0])).map
      (fun r => (decide (r.2.Live 15), programOf sampleLayout r.1 15, decide (r.2.Live 14),
        r.1.all (storesNothing silentHal),
        r.1.all fun t => decide (t.pre.Live 14 ∧ t.pre.current ≠ some 14))) =
      some (true, some (0x200000, 0x1000), true, true, true) := by
    decide +kernel
  obtain ⟨tr, k, htrace, hview⟩ := exists_trace_of_runTrace hrun
  simp only [Prod.mk.injEq, decide_eq_true_eq, List.all_eq_true] at hview
  obtain ⟨hlive, hprog, hlive', hquiet, hwaits⟩ := hview
  have hown : OwnBuffers sampleLayout silentHal tr :=
    ownBuffers_of_storesNothing (List.all_eq_true.mpr hquiet)
  have hboot : (bootState sampleLayout programBoot).Live 14 := by
    decide +kernel
  refine ⟨tr, k, htrace, hlive, hprog, fun va htext => ?_⟩
  refine private_memory_kept Trace.nil htrace ?_ hboot hwaits hlive' htext
  rw [List.append_nil]
  exact hown

end Vajra
