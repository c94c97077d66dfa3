import Vajra.QuarantineGrants

/-!
# The ordering of the quarantine pipeline

The invariant of the pipeline holds at boot and is kept by every step of a run: by the moves of
Downloader, of the Inspectors and of Scanner, and by the steps of all others, which go
unnoticed.  What Scanner takes for a verdict and what Reader is told follow from it.
-/

namespace Vajra

open TransitionTrace

variable {D : Type} {L : Layout} {hal : Hal D} {b : Boot D}
  {tr : List (PipelineRecord D)} {t : PipelineRecord D} {s : PipelineState D} {c : Slot}

/-- `kernel_main` starts no Inspector. -/
theorem slotProgram_inspector : ∀ d : Slot, (slotProgram d).role ≠ .inspector := by decide

/-- The invariant at boot. -/
theorem Pipeline.boot (L : Layout) (b : Boot D) : Pipeline L [] (pipelineBoot L b) := by
  have hmail : ∀ d, (pipelineBoot L b).mail d = [] := by
    intro d
    have hkernel : (pipelineBoot L b).kernel = bootState L b := by rw [pipelineBoot]
    rw [PipelineState.mail, hkernel]
    exact bootState_queue L b d
  have hprogram := pipelineBoot_program_cases L b
  have hstage : (pipelineBoot L b).stage = 0 ∨ (pipelineBoot L b).stage = 5 := by
    rw [PipelineState.stage]
    rcases hprogram downloaderHome with heq | heq <;> rw [heq]
    · exact Or.inl rfl
    · exact Or.inr rfl
  refine ⟨fun pc hpc => ?_, fun _ m hm => ?_⟩
  · have hfirst : pc = .receiving 0 := by
      rcases hprogram scannerHome with heq | heq <;> rw [heq] at hpc <;> cases hpc
      rfl
    rw [hfirst]
    refine ⟨⟨by decide, by omega, by omega, fun _ _ => hmail _, fun hone => by omega,
      Or.inl (hmail _)⟩, fun d pcd _ hpcd => ?_⟩
    have hrole : ((pipelineBoot L b).program d).role = .inspector := by rw [hpcd]; rfl
    rcases hprogram d with heq | heq <;> rw [heq] at hrole
    · exact absurd hrole (slotProgram_inspector d)
    · cases hrole
  · rw [hmail] at hm
    cases hm

/-- **One step.** -/
theorem Pipeline.step (hs : Pipeline L tr t.pre) (h : StepOf L hal t c) (hauth : Authority t.pre)
    (hfoot : Footing t.pre.kernel) (hbudget : GrantBudget t.pre) : Pipeline L (t :: tr) t.post := by
  cases hpc : t.pre.program c with
  | downloader pc => exact hs.downloader h hauth hfoot hpc
  | inspector pc => exact hs.inspector h hauth hfoot hpc
  | scanner pc => exact hs.scanner h hauth hfoot hbudget.roomy hpc
  | other | sender | shell | reader =>
      refine (h.unnoticed_of_outside hauth hfoot ?_ ?_ ?_).pipeline hs
      all_goals
        rw [hpc]
        simp [Program.role]

/-- **The invariant of every run.** -/
theorem run_pipeline (hboot : BootStore 0 (powerOn b).store) (hgood : b.disk.Reliable)
    (hrun : PipelineRun L hal b tr s) : Authority s ∧ GrantBudget s ∧ Pipeline L tr s := by
  refine hrun.history_invariant (fun tr s => Authority s ∧ GrantBudget s ∧ Pipeline L tr s)
    ⟨Authority.boot L b, GrantBudget.boot L b, Pipeline.boot L b⟩ ?_
  rintro tr s e o s' hrun ⟨hauth, hbudget, hpipeline⟩ hstep
  obtain ⟨c, h⟩ := PipelineRun.stepOf hrun hstep
  have hfoot := run_footing hboot hgood (PipelineRun.kernelRun hrun)
  exact ⟨hauth.step h hfoot.store, hbudget.step hauth h, hpipeline.step h hauth hfoot hbudget⟩

/-- Scanner's mailbox when it takes a verdict. -/
theorem Pipeline.verdict (hs : Pipeline L tr t.pre) (h : StepOf L hal t c) (hauth : Authority t.pre)
    {i : Nat} {id w : Int} {m : Message} (hpc : t.pre.program c = .scanner (.judging i id w))
    (hmsg : t.outcome.msg = some m) :
    ∃ d : Slot, w = (d : Nat) ∧ m = ⟨m.type, BitVec.ofNat 64 d, cRet id⟩ ∧
      ReportedBy L id d m.type tr := by
  obtain rfl := hauth.scanner c (by rw [hpc]; rfl)
  have hmail := h.mail_received (by rw [hpc]; rfl) hmsg
  obtain ⟨-, -, d, hw, ⟨hempty, -⟩ | ⟨verdict, hone, hreported, -⟩⟩ := hs.turn _ hpc
  · rw [hempty] at hmail
    cases hmail
  · rw [hone] at hmail
    obtain ⟨rfl, -⟩ := List.cons.inj hmail
    exact ⟨d, hw, rfl, hreported⟩

/-- Reader's mailbox when it takes a report. -/
theorem Pipeline.report (hs : Pipeline L tr t.pre) (h : StepOf L hal t c) (hauth : Authority t.pre)
    {i : Nat} {m : Message} (hpc : t.pre.program c = .reader (.receiving i))
    (hmsg : t.outcome.msg = some m) :
    ∃ j : Nat, m.data = cRet j ∧ Settled L tr t.pre j := by
  obtain rfl := hauth.reader c (by rw [hpc]; rfl)
  have hmail := h.mail_received (by rw [hpc]; rfl) hmsg
  refine hs.reports (by rw [hpc]; rfl) m ?_
  rw [hmail]
  exact List.mem_cons_self

/-- **Quarantine pipeline ordering.**  On a disk that does not fail, and that had a blank
directory when it was new, in every run of `kernel_main`'s actors: what Scanner takes for a
verdict on an object was sent by the Inspector in slot `d` that it spawned for this object, on
what that one had read of it, and carries the object's id; and what Reader receives is the id
of an object that has the trust this verdict leads to, and that nobody has written since the
Inspector read it. -/
theorem quarantine_order {factory : Nat → Nat → UInt8}
    (hblank : ByteMemory.readLE (factory directoryLba) 0 4 ≠ directoryMagic)
    (hlife : DiskLife L hal factory b.disk.sector) (hgood : b.disk.Reliable)
    (hrun : PipelineRun L hal b (t :: tr) s) :
    (∀ c i id w m, t.pre.kernel.current = some c →
      t.pre.program c = .scanner (.judging i id w) → t.outcome.msg = some m →
        ∃ d : Slot, w = (d : Nat) ∧ m = ⟨m.type, BitVec.ofNat 64 d, cRet id⟩ ∧
          ReportedBy L id d m.type tr) ∧
    (∀ c i m, t.pre.kernel.current = some c → t.pre.program c = .reader (.receiving i) →
      t.outcome.msg = some m → ∃ j : Nat, m.data = cRet j ∧
        ∃ d verdict, Judged L j d verdict tr ∧ t.pre.kernel.trust j = gradeOf verdict) := by
  obtain ⟨himage, horder⟩ := hlife.inOrder hblank
  have hboot : BootStore 0 (powerOn b).store := bootStore_bootStore b.scratch himage horder
  cases hrun with
  | snoc hbefore hstep =>
      obtain ⟨hauth, -, hpipeline⟩ := run_pipeline hboot hgood hbefore
      obtain ⟨c₀, h⟩ := PipelineRun.stepOf hbefore hstep
      refine ⟨fun c i id w m hcur hpc hmsg => ?_, fun c i m hcur hpc hmsg => ?_⟩
      · obtain rfl : c₀ = c := Option.some.inj (h.current.symm.trans hcur)
        exact hpipeline.verdict h hauth hpc hmsg
      · obtain rfl : c₀ = c := Option.some.inj (h.current.symm.trans hcur)
        obtain ⟨j, hdata, hsettled⟩ := hpipeline.report h hauth hpc hmsg
        exact ⟨j, hdata, hsettled.verdict⟩

/-- Downloader writes the payload, and Scanner spawns an Inspector for it, which passes it; Reader
is told after the three promotions. -/
def quarantinePass : List (Event Unit) :=
  List.replicate 7 .tick ++
  [sampleCall 10 0 0 17, sampleCall 4 9 1 0, sampleCall 5 0 0 0] ++
  [sampleCall 5 0 0 0, sampleCall 7 0x20000 0 0, sampleCall 6 15 4 0, sampleCall 4 15 3 0,
   sampleCall 5 0 0 0] ++
  [sampleCall 5 0 0 0] ++ List.replicate 4 .tick ++
  [sampleCall 5 0 0 0, sampleCall 9 0 0 31, sampleCall 4 9 4 0, sampleCall 3 0 0 0] ++
  List.replicate 8 .tick ++
  [.resume, sampleCall 11 0 0 0, sampleCall 11 0 0 0, sampleCall 11 0 0 0, sampleCall 4 10 2 0,
   sampleCall 4 8 2 0, .tick, .resume]

theorem quarantine_order_pass : ∃ t tr s,
    PipelineRun sampleLayout silentHal sampleBoot (t :: tr) s ∧
    t.pre.kernel.current = some readerHome ∧ t.pre.program readerHome = .reader (.receiving 0) ∧
    t.outcome.msg = some ⟨msgScanDone, 9, cRet 0⟩ ∧
    ∃ j : Nat, cRet 0 = cRet j ∧ ∃ d verdict, Judged sampleLayout j d verdict tr ∧
      t.pre.kernel.trust j = gradeOf verdict := by
  have hview : (runTrace (pipelineStep sampleLayout silentHal) []
      (pipelineBoot sampleLayout sampleBoot) quarantinePass).map (fun p => p.1.head?.map fun t =>
        (t.pre.kernel.current, t.pre.program readerHome, t.outcome.msg)) =
      some (some (some readerHome, .reader (.receiving 0), some ⟨msgScanDone, 9, cRet 0⟩)) := by
    decide +kernel
  obtain ⟨tr, s, hrun, hlast⟩ := exists_trace_of_runTrace hview
  cases tr with
  | nil => cases hlast
  | cons t tr =>
      simp only [List.head?_cons, Option.map_some, Option.some.injEq, Prod.mk.injEq] at hlast
      obtain ⟨hcur, hpc, hmsg⟩ := hlast
      have hblank : ByteMemory.readLE (sampleBoot.disk.sector directoryLba) 0 4 ≠ directoryMagic := by
        decide
      have hreport := (quarantine_order hblank DiskLife.new (fun _ => rfl) hrun).2
      exact ⟨t, tr, s, hrun, hcur, hpc, hmsg, hreport _ _ _ hcur hpc hmsg⟩

end Vajra
