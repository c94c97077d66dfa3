import Vajra.QuarantineMoves
import Vajra.SyscallContracts

/-!
# The moves of Scanner

One lemma for each call of `actor_scanner` and `actor_scan_object`.  The mailbox of Scanner holds
at most one message when it calls `user_receive`: the signal for the next object in
`actor_scanner`, the verdict of the present Inspector in `actor_scan_object`.
-/

namespace Vajra

open EntryTables TransitionTrace

variable {D : Type} {L : Layout} {hal : Hal D} {b : Boot D}
  {tr : List (PipelineRecord D)} {t : PipelineRecord D} {c d : Slot} {r : Request} {ret : Word}
  {pc pc' : ScannerPc} {i : Nat} {id : Int}

/-- The table of an Inspector that Scanner is about to grant a right has room for it. -/
def Roomy (s : PipelineState D) : Prop :=
  ∀ i id (d : Slot) pc, s.program scannerHome = .scanner (.granting i id (d : Nat)) →
    s.kernel.Live d → s.program d = .inspector pc → HasRoom (s.kernel.tables d)

/-- Scanner writes nothing. -/
theorem Authority.scanner_unwritten (hs : Authority t.pre) (h : StepOf L hal t scannerHome)
    (hpc : t.pre.program scannerHome = .scanner pc) {j : Nat} (hj : j < 2) :
    ¬ WritesObject (j : Nat) t := by
  intro hwrites
  have hrole := hs.writer h hj hwrites
  rw [hpc] at hrole
  cases hrole

/-- A report stays true when Scanner moves on. -/
theorem Settled.scanner {j : Nat} (hs : Settled L tr t.pre j) (hauth : Authority t.pre)
    (h : StepOf L hal t scannerHome) (hpc : t.pre.program scannerHome = .scanner pc)
    (hpost : t.post.program scannerHome = .scanner pc') (hgraded : pc.graded ≤ pc'.graded)
    (hstage : t.post.stage = t.pre.stage ∨ t.post.stage = 5)
    (htrust : j < pc.graded → t.post.kernel.trust j = t.pre.kernel.trust j) :
    Settled L (t :: tr) t.post j := by
  have hwritten := hs.written
  have hj := hs.object
  refine hs.step (by omega) (fun pc'' hpc'' => ⟨pc, hpc, ?_⟩) (htrust (hs.graded pc hpc))
    (hauth.scanner_unwritten h hpc hj)
  rw [hpost] at hpc''
  cases hpc''
  exact hgraded

/-- **A move of Scanner**, given what holds at the place it moves to. -/
theorem Pipeline.scanner_to (hs : Pipeline L tr t.pre) (hauth : Authority t.pre)
    (h : StepOf L hal t scannerHome) (hpc : t.pre.program scannerHome = .scanner pc)
    (hpost : t.post.program scannerHome = .scanner pc') (hgraded : pc.graded ≤ pc'.graded)
    (hstage : t.post.stage = t.pre.stage ∨ t.post.stage = 5)
    (htrust : ∀ j < 2, j < pc.graded → t.post.kernel.trust j = t.pre.kernel.trust j)
    (hreader : (t.pre.program readerHome).role = .reader →
      acceptedBy (kernelRecord t) readerHome = none)
    (hok : ScannerOk L (t :: tr) t.post pc') : Pipeline L (t :: tr) t.post := by
  refine ⟨fun pc'' hpc'' => ?_, fun hrole m hm => ?_⟩
  · rw [hpost] at hpc''
    cases hpc''
    exact hok
  · obtain ⟨hpre, hmail⟩ := h.readerMail hreader hrole
    obtain ⟨j, hdata, hsettled⟩ := hs.reports hpre m (hmail m hm)
    exact ⟨j, hdata, hsettled.scanner hauth h hpc hpost hgraded hstage
      (htrust j hsettled.object)⟩

/-- Scanner's moves leave the Inspectors where they are, a spawn apart. -/
theorem Spent.scanner {w : Option Slot} (hs : Spent t.pre w) (h : StepOf L hal t scannerHome)
    (hpost : t.post.program scannerHome = .scanner pc')
    (htaken : ∀ d, takenSlot L t.pre.kernel scannerHome t.event ≠ some d) : Spent t.post w := by
  refine hs.mono fun d pcd hlive hprogram => ⟨h.live_before (htaken d) hlive, ?_⟩
  refine h.program_other ?_ (htaken d)
  rintro rfl
  rw [hpost] at hprogram
  cases hprogram

/-- Scanner's calls other than the two that grade leave the trust alone. -/
theorem StepOf.scanner_trust (h : StepOf L hal t c) (hr : (t.pre.program c).request = some r)
    (hkeep : r.syscall.alters = false) (j : Nat) :
    t.post.kernel.trust j = t.pre.kernel.trust j := by
  rw [Kernel.trust, h.objects_same hr hkeep, Kernel.trust]

/-- Scanner's moves leave Downloader alone, the acknowledgement apart. -/
theorem StepOf.scannerStays (h : StepOf L hal t c) (hpc : t.pre.program c = .scanner pc)
    (hnone : (t.pre.program downloaderHome).role = .downloader →
      acceptedBy (kernelRecord t) downloaderHome = none) : DownloaderStays t := by
  refine h.downloaderStays ?_ hnone
  rw [hpc]
  simp [Program.role]

/-- `user_receive` in `actor_scanner`. -/
theorem Pipeline.scanner_signalled (hs : Pipeline L tr t.pre) (hauth : Authority t.pre)
    (h : StepOf L hal t scannerHome)
    (hpc : t.pre.program scannerHome = .scanner (.receiving i)) (hmade : Made t .receive)
    (hret : t.outcome.ret = some ret)
    (hanswer : t.post.program scannerHome =
      .scanner ((ScannerPc.receiving i).answer t.outcome ret)) : Pipeline L (t :: tr) t.post := by
  have hr : (t.pre.program scannerHome).request = some .receive := by rw [hpc]; rfl
  obtain ⟨hwait, hspent⟩ := hs.turn _ hpc
  obtain ⟨m, hmsg⟩ := h.handed hmade hret
  have hmail := h.mail_received hr hmsg
  rw [ScannerPc.answer, hmsg] at hanswer
  have hnone := h.accepted_none hr (by simp)
  have hstays := h.scannerStays hpc fun _ => hnone _
  have hstage := hstays.stage
  have htrust := h.scanner_trust hr rfl
  have hturn := hwait.turn
  rcases hwait.signal with hempty | ⟨hone, hafter, hungraded⟩
  · rw [hempty] at hmail
    cases hmail
  · rw [hone] at hmail
    injection hmail with hm hrest
    subst hm
    have hid : cInt (cRet (i : Int)) = i := cInt_cRet (by omega) (by omega)
    refine hs.scanner_to hauth h hpc hanswer (Nat.le_refl _) hstage (fun j _ _ => htrust j)
      (fun _ => hnone _) ⟨⟨hturn, hid, by omega, hstays.silent hwait.silent⟩, hrest.symm,
        (htrust i).trans hungraded, hspent.scanner h hanswer (h.stays hr (by simp))⟩

theorem dowry_reads : ∀ i < 2, ⟨capReadObject, ((i : Nat) : Int)⟩ ∈ dowry .scanner := by decide

/-- `user_grant` in `actor_scan_object`. -/
theorem Pipeline.scanner_grants {w : Int} (hs : Pipeline L tr t.pre) (hauth : Authority t.pre)
    (h : StepOf L hal t scannerHome) (hroom : Roomy t.pre)
    (hpc : t.pre.program scannerHome = .scanner (.granting i id w))
    (hmade : Made t (.grant w capReadObject id))
    (hanswer : t.post.program scannerHome = .scanner (.tasking i id w)) :
    Pipeline L (t :: tr) t.post := by
  have hr : (t.pre.program scannerHome).request = some (.grant w capReadObject id) := by
    rw [hpc]
    rfl
  obtain ⟨hscan, hempty, hungraded, d, rfl, hspent, hserving⟩ := hs.turn _ hpc
  have hnone := h.accepted_none hr (by simp)
  have hstays := h.scannerStays hpc fun _ => hnone _
  have htaken := h.stays hr (by simp)
  have hspent' := hspent.scanner h hanswer htaken
  have hunwritten : ¬ WritesObject id t := by
    rw [hscan.object]
    exact hauth.scanner_unwritten h hpc hscan.turn
  have hkept : ∀ pcd, t.post.kernel.Live d → t.post.program d = .inspector pcd →
      LeftAlone L t d := by
    intro pcd hlive hprogram
    refine h.leftAlone ?_ (htaken d) hlive (Or.inr (hnone d))
    rintro rfl
    rw [hanswer] at hprogram
    cases hprogram
  have hserving' := hserving.kept (h.child d hserving.child) hkept hunwritten
  refine hs.scanner_to hauth h hpc hanswer (Nat.le_refl _) hstays.stage
    (fun j _ _ => h.scanner_trust hr rfl j) (fun _ => hnone _) ⟨hscan.stays hstays,
      (h.mail_self hr (by simp) (hnone _)).trans hempty, (h.scanner_trust hr rfl i).trans hungraded, d,
      rfl, hspent', hserving'.child, hserving'.place, hserving'.spawned,
      fun pcd hlive hprogram _ => ?_⟩
  -- The delegation goes through: Scanner holds the right, and the table has room.
  have hleft := hkept pcd hlive hprogram
  have hspace := hroom i id d pcd hpc hleft.live (hleft.program.symm.trans hprogram)
  have hheld : actorHasCap t.pre.kernel scannerHome capReadObject id = true := by
    refine hasCap_iff.mpr (hauth.kept _ _ ?_)
    rw [hpc, hscan.object]
    exact dowry_reads i hscan.turn
  obtain ⟨call, hcall, hdest, hop, htarget⟩ := hmade.isCall (by simp)
  have hresult := congrArg (fun r => (r.1 : Kernel D).tables d) (h.dispatch hcall)
  obtain ⟨n, x, hn, -, hadd⟩ := actorAddCap_room hspace capReadObject id
  simp only [SysResult.finish, Request.syscall, syscallDispatch, SysResult.value, commitOut_nil,
    hdest, hop, htarget] at hresult
  rw [actorDelegate, slotOf_val] at hresult
  simp only [hheld, if_true, hadd] at hresult
  rw [← hresult, Kernel.tables, setActor_actors, Function.update_self]
  obtain ⟨hlt, -⟩ := List.getElem?_eq_some_iff.mp hn
  exact List.mem_iff_getElem.mpr ⟨n, by simpa using hlt, List.getElem_set_self _⟩

/-- What a spawn by a body does: it returns a slot and turns that one over, or it fails and leaves
nobody alive who was not. -/
theorem StepOf.spawned (h : StepOf L hal t c) (hmade : Made t .spawn)
    (hret : t.outcome.ret = some ret) :
    (cInt ret < 0 ∧ ∀ d, takenSlot L t.pre.kernel c t.event = some d → ¬ t.post.kernel.Live d) ∨
    ∃ d : Slot, cInt ret = (d : Nat) ∧ takenSlot L t.pre.kernel c t.event = some d := by
  obtain ⟨call, hcall, -⟩ := hmade.isCall (by simp)
  have hresult := h.dispatch hcall
  simp only [SysResult.finish, Request.syscall, syscallDispatch, SysResult.value, commitOut_nil,
    Prod.mk.injEq] at hresult
  obtain ⟨hkernel, houtcome⟩ := hresult
  have htaken : takenSlot L t.pre.kernel c t.event = childTaken L t.pre.kernel c call.a1.toNat := by
    obtain ⟨hevent, hdecode⟩ := hcall
    rw [hevent, takenSlot]
    simp only [hdecode, Request.syscall]
  have hanswer : ret = slotRet (actorSpawnChild L t.pre.kernel c call.a1.toNat).2 := by
    rw [← houtcome, Option.some.injEq] at hret
    exact hret.symm
  have hspawn := (actorSpawnChild_spec L t.pre.kernel h.live call.a1.toNat).1
  rw [← htaken] at hspawn
  generalize takenSlot L t.pre.kernel c t.event = taken at hspawn ⊢
  rw [hanswer]
  rw [hkernel] at hspawn
  generalize (actorSpawnChild L t.pre.kernel c call.a1.toNat).2 = result at hspawn ⊢
  cases hspawn with
  | refused => exact Or.inl ⟨by decide, by simp⟩
  | aborted i cr3 page entry _ _ hactors =>
      refine Or.inl ⟨by decide, fun d hd => ?_⟩
      cases hd
      rw [Kernel.Live, hactors, Function.update_self]
      exact fun hlive => hlive rfl
  | spawned i =>
      have hfits := i.isLt
      have hmax : maxActors < 2 ^ 31 := by decide
      refine Or.inr ⟨i, ?_, rfl⟩
      exact cInt_cRet (by omega) (by omega)

/-- `user_spawn` in `actor_scan_object`. -/
theorem Pipeline.scanner_spawns (hs : Pipeline L tr t.pre) (hauth : Authority t.pre)
    (h : StepOf L hal t scannerHome)
    (hpc : t.pre.program scannerHome = .scanner (.spawning i id)) (hmade : Made t .spawn)
    (hret : t.outcome.ret = some ret)
    (hanswer : t.post.program scannerHome =
      .scanner ((ScannerPc.spawning i id).answer t.outcome ret)) : Pipeline L (t :: tr) t.post := by
  have hr : (t.pre.program scannerHome).request = some .spawn := by rw [hpc]; rfl
  obtain ⟨hscan, hempty, hungraded, hspent⟩ := hs.turn _ hpc
  have hnone := h.accepted_none hr (by simp)
  have hstays := h.scannerStays hpc fun _ => hnone _
  have hstage := hstays.stage
  have htrust := h.scanner_trust hr rfl
  have hmail := (h.mail_self hr (by simp) (hnone _)).trans hempty
  have hturn := hscan.turn
  have hwaits := hscan.waits
  -- Nobody but the new Inspector is new.
  have hothers : ∀ d pcd, t.post.kernel.Live d → t.post.program d = .inspector pcd →
      takenSlot L t.pre.kernel scannerHome t.event = some d ∨ pcd = .exiting := by
    intro d pcd hlive hprogram
    by_cases htaken : takenSlot L t.pre.kernel scannerHome t.event = some d
    · exact Or.inl htaken
    · have hne : d ≠ scannerHome := by
        rintro rfl
        rw [hanswer] at hprogram
        cases hprogram
      have hsame := h.program_other hne htaken
      rcases hspent d pcd (h.live_before htaken hlive) (hsame.symm.trans hprogram) with hbad | hdone
      · cases hbad
      · exact Or.inr hdone
  rcases h.spawned hmade hret with ⟨hfailed, hdead⟩ | ⟨d, hslot, htaken⟩
  · rw [ScannerPc.answer, if_pos hfailed] at hanswer
    have hnobody : Spent t.post none := by
      intro d pcd hlive hprogram
      rcases hothers d pcd hlive hprogram with htaken | hdone
      · exact absurd hlive (hdead d htaken)
      · exact Or.inr hdone
    by_cases hfirst : i + 1 < 2
    · have hturns : ScannerPc.turn i = .receiving (i + 1) := if_pos hfirst
      rw [hturns] at hanswer
      refine hs.scanner_to hauth h hpc hanswer (Nat.le_succ i) hstage (fun j _ _ => htrust j)
        (fun _ => hnone _) ⟨⟨hfirst, by omega, by omega, by simp, fun _ => by omega, Or.inl hmail⟩,
          hnobody⟩
    · have hturns : ScannerPc.turn i = .exiting := if_neg hfirst
      rw [hturns] at hanswer
      refine hs.scanner_to hauth h hpc hanswer ?_ hstage (fun j _ _ => htrust j)
        (fun _ => hnone _) trivial
      exact Nat.le_of_lt hturn
  · rw [ScannerPc.answer, if_neg (by omega), hslot] at hanswer
    have hchild : t.post.program d = .inspector .receiving := by
      rw [h.program, nextProgram_taken htaken, hpc, Program.child]
    have hinbox : t.post.mail d = [] := by
      rcases h.queue d with ⟨-, hqueue⟩ | ⟨hbad, -⟩
      · exact hqueue
      · exact absurd htaken hbad
    refine hs.scanner_to hauth h hpc hanswer (Nat.le_refl _) hstage (fun j _ _ => htrust j)
      (fun _ => hnone _) ⟨hscan.stays hstays, hmail, (htrust i).trans hungraded, d, rfl,
        fun d' pcd hlive hprogram => ?_, by rw [hchild]; rfl, fun pcd _ hprogram => ?_,
        fun _ _ _ => ?_, by simp⟩
    · rw [← htaken]
      exact hothers d' pcd hlive hprogram
    · rw [hchild] at hprogram
      cases hprogram
      intro m hm
      rw [hinbox] at hm
      cases hm
    · exact Or.inl ⟨scannerHome, i, ret, h.current, hpc, hmade, hret, hslot⟩

/-- `user_send` to the Inspector in `actor_scan_object`. -/
theorem Pipeline.scanner_tasks {w : Int} (hs : Pipeline L tr t.pre) (hauth : Authority t.pre)
    (h : StepOf L hal t scannerHome)
    (hpc : t.pre.program scannerHome = .scanner (.tasking i id w))
    (hanswer : t.post.program scannerHome = .scanner (.judging i id w)) :
    Pipeline L (t :: tr) t.post := by
  have hr : (t.pre.program scannerHome).request = some (.send w taskInspect (cRet id)) := by
    rw [hpc]
    rfl
  obtain ⟨hscan, hempty, hungraded, d, rfl, hspent, hserving⟩ := hs.turn _ hpc
  -- The task reaches the Inspector's slot or nobody.
  have hnone : ∀ d', (t.pre.program d').role.child = false →
      acceptedBy (kernelRecord t) d' = none := by
    intro d' hhome
    refine h.accepted_elsewhere hr ?_
    rintro rfl
    rw [hserving.child] at hhome
    cases hhome
  have hstays := h.scannerStays hpc fun hrole => hnone _ (by rw [hrole]; rfl)
  have htaken := h.stays hr (by simp)
  have hunwritten : ¬ WritesObject id t := by
    rw [hscan.object]
    exact hauth.scanner_unwritten h hpc hscan.turn
  have hne : d ≠ scannerHome := by
    rintro rfl
    have hbad := hserving.child
    rw [hpc] at hbad
    cases hbad
  have hsame := h.program_other hne (htaken d)
  have hstaysHere : ¬ TurnsOver L d t := fun hover => htaken d ((h.turnsOver_iff d).mp hover)
  have hplace : ∀ pcd, t.post.kernel.Live d → t.post.program d = .inspector pcd →
      InspectorOk L (t :: tr) t.post id d true pcd := by
    intro pcd hlive hprogram
    have hbefore := hserving.place pcd (h.live_before (htaken d) hlive) (hsame.symm.trans hprogram)
    -- Before the task, no message of Scanner's was there.
    cases pcd with
    | receiving =>
        intro m hm hsender
        rw [h.mail_other hne (htaken d)] at hm
        rcases List.mem_append.mp hm with hold | hnew
        · cases (hbefore m hold hsender).1
        · rw [Option.mem_toList] at hnew
          obtain ⟨-, rfl⟩ := h.accepted_send hr hnew
          exact ⟨rfl, rfl⟩
    | reading id' sender => exact fun hsender => absurd (hbefore hsender).1 (by simp)
    | sending id' sender verdict => exact fun hsender => absurd (hbefore hsender).1 (by simp)
    | exiting => trivial
  refine hs.scanner_to hauth h hpc hanswer (Nat.le_refl _) hstays.stage
    (fun j _ _ => h.scanner_trust hr rfl j) (fun hrole => hnone _ (by rw [hrole]; rfl))
    ⟨hscan.stays hstays, (h.scanner_trust hr rfl i).trans hungraded, d, rfl, Or.inl ⟨?_, ?_, ?_⟩⟩
  · exact (h.mail_self hr (by simp) (hnone _ (by rw [hpc]; rfl))).trans hempty
  · exact hspent.scanner h hanswer htaken
  · refine ⟨h.child d hserving.child, hplace, fun pcd hlive hprogram => ?_,
      fun pcd hlive hprogram _ => ?_⟩
    · exact (hserving.spawned pcd (h.live_before (htaken d) hlive)
        (hsame.symm.trans hprogram)).cons hstaysHere
    · exact h.tables_kept (hserving.reads pcd (h.live_before (htaken d) hlive)
        (hsame.symm.trans hprogram) rfl) (by dsimp only; decide) (htaken d)

/-- A verdict is one of the two. -/
theorem ReportedBy.verdict {verdict : Word} (h : ReportedBy L id d verdict tr) :
    verdict = msgCheckFail ∨ verdict = msgCheckPass := by
  induction tr with
  | nil => exact h.elim
  | cons t tr ih =>
      rcases h with ⟨⟨bytes, -, rfl⟩, -, -⟩ | ⟨-, hbefore⟩
      · unfold verdictOn
        split
        · exact Or.inl rfl
        · exact Or.inr rfl
      · exact ih hbefore

/-- `user_receive` in `actor_scan_object`. -/
theorem Pipeline.scanner_judges {w : Int} (hs : Pipeline L tr t.pre) (hauth : Authority t.pre)
    (h : StepOf L hal t scannerHome)
    (hpc : t.pre.program scannerHome = .scanner (.judging i id w)) (hmade : Made t .receive)
    (hret : t.outcome.ret = some ret)
    (hanswer : t.post.program scannerHome =
      .scanner ((ScannerPc.judging i id w).answer t.outcome ret)) : Pipeline L (t :: tr) t.post := by
  have hr : (t.pre.program scannerHome).request = some .receive := by rw [hpc]; rfl
  obtain ⟨hscan, hungraded, d, rfl, hcase⟩ := hs.turn _ hpc
  obtain ⟨m, hmsg⟩ := h.handed hmade hret
  have hmail := h.mail_received hr hmsg
  rw [ScannerPc.answer, hmsg] at hanswer
  dsimp only at hanswer
  have hnone := h.accepted_none hr (by simp)
  have hstays := h.scannerStays hpc fun _ => hnone _
  have htrust := h.scanner_trust hr rfl
  have hunwritten : ¬ WritesObject id t := by
    rw [hscan.object]
    exact hauth.scanner_unwritten h hpc hscan.turn
  rcases hcase with ⟨hempty, -, -⟩ | ⟨verdict, hone, hreported, hspent⟩
  · rw [hempty] at hmail
    cases hmail
  · rw [hone] at hmail
    injection hmail with hm hrest
    subst hm
    have hjudged : Judged L id d verdict (t :: tr) :=
      Or.inl ⟨hreported, hunwritten, scannerHome, i, h.current, hpc, hmsg⟩
    dsimp only at hanswer
    rcases hreported.verdict with rfl | rfl
    · rw [if_pos rfl] at hanswer
      exact hs.scanner_to hauth h hpc hanswer (Nat.le_refl _) hstays.stage (fun j _ _ => htrust j)
        (fun _ => hnone _) ⟨hscan.stays hstays, hrest.symm, (htrust i).trans hungraded,
          hspent.scanner h hanswer (h.stays hr (by simp)), d, hjudged⟩
    · rw [if_neg (by decide)] at hanswer
      exact hs.scanner_to hauth h hpc hanswer (Nat.le_refl _) hstays.stage (fun j _ _ => htrust j)
        (fun _ => hnone _) ⟨hscan.stays hstays, hrest.symm, by decide, (htrust i).trans hungraded,
          hspent.scanner h hanswer (h.stays hr (by simp)), d, hjudged⟩

theorem dowry_promotes : ⟨capPromoteObject, 0⟩ ∈ dowry .scanner := by decide

/-- `user_object_reject` in `actor_scan_object`. -/
theorem Pipeline.scanner_rejects (hs : Pipeline L tr t.pre) (hauth : Authority t.pre)
    (hfoot : Footing t.pre.kernel) (h : StepOf L hal t scannerHome)
    (hpc : t.pre.program scannerHome = .scanner (.rejecting i id)) (hmade : Made t (.objectReject id))
    (hanswer : t.post.program scannerHome = .scanner (.reporting i id)) :
    Pipeline L (t :: tr) t.post := by
  have hr : (t.pre.program scannerHome).request = some (.objectReject id) := by rw [hpc]; rfl
  obtain ⟨hscan, hempty, -, hspent, d, hjudged⟩ := hs.turn _ hpc
  have hnone := h.accepted_none hr (by simp)
  have hstays := h.scannerStays hpc fun _ => hnone _
  have hturn := hscan.turn
  obtain rfl := hscan.object
  have hmay : ⟨capPromoteObject, 0⟩ ∈ t.pre.kernel.tables scannerHome :=
    hauth.kept _ _ (by rw [hpc]; exact dowry_promotes)
  have htrust := h.reject_trust hfoot hmade hmay (Nat.lt_succ_of_lt hturn)
  refine hs.scanner_to hauth h hpc hanswer (Nat.le_succ i) hstays.stage (fun j _ hj => ?_)
    (fun _ => hnone _) ⟨hscan.stays hstays, (h.mail_self hr (by simp) (hnone _)).trans hempty,
      hspent.scanner h hanswer (h.stays hr (by simp)), d, msgCheckFail,
      hjudged.cons (hauth.scanner_unwritten h hpc hturn), ?_⟩
  · have hother : j ≠ i := Nat.ne_of_lt hj
    rw [htrust, if_neg hother]
  · rw [htrust, if_pos rfl]
    rfl

/-- `user_object_promote` in `actor_scan_object`. -/
theorem Pipeline.scanner_promotes {j : Nat} (hs : Pipeline L tr t.pre) (hauth : Authority t.pre)
    (hfoot : Footing t.pre.kernel) (h : StepOf L hal t scannerHome)
    (hpc : t.pre.program scannerHome = .scanner (.promoting i id j))
    (hmade : Made t (.objectPromote id))
    (hanswer : t.post.program scannerHome =
      .scanner ((ScannerPc.promoting i id j).answer t.outcome ret)) : Pipeline L (t :: tr) t.post := by
  have hr : (t.pre.program scannerHome).request = some (.objectPromote id) := by rw [hpc]; rfl
  obtain ⟨hscan, hempty, hj, hlevel, hspent, d, hjudged⟩ := hs.turn _ hpc
  have hnone := h.accepted_none hr (by simp)
  have hstays := h.scannerStays hpc fun _ => hnone _
  have hturn := hscan.turn
  obtain rfl := hscan.object
  have hmay : ⟨capPromoteObject, 0⟩ ∈ t.pre.kernel.tables scannerHome :=
    hauth.kept _ _ (by rw [hpc]; exact dowry_promotes)
  have hlow : t.pre.kernel.trust i < objTrusted := by
    rw [hlevel]
    exact hj
  have htrust := h.promote_trust hfoot hmade hmay (Nat.lt_succ_of_lt hturn) hlow
  have helse : ∀ n < 2, n < i → t.post.kernel.trust n = t.pre.kernel.trust n := by
    intro n _ hn
    rw [htrust, if_neg (Nat.ne_of_lt hn)]
  have hnext : t.post.kernel.trust i = j + 1 := by rw [htrust, if_pos rfl, hlevel]
  have hmail := (h.mail_self hr (by simp) (hnone _)).trans hempty
  have hjudged' := hjudged.cons (hauth.scanner_unwritten h hpc hturn)
  rw [ScannerPc.answer] at hanswer
  by_cases hmore : j + 1 < 3
  · rw [if_pos hmore] at hanswer
    exact hs.scanner_to hauth h hpc hanswer (Nat.le_refl _) hstays.stage helse (fun _ => hnone _)
      ⟨hscan.stays hstays, hmail, hmore, hnext, hspent.scanner h hanswer (h.stays hr (by simp)), d,
        hjudged'⟩
  · rw [if_neg hmore] at hanswer
    refine hs.scanner_to hauth h hpc hanswer (Nat.le_succ i) hstays.stage helse (fun _ => hnone _)
      ⟨hscan.stays hstays, hmail, hspent.scanner h hanswer (h.stays hr (by simp)), d, msgCheckPass,
        hjudged', ?_⟩
    obtain rfl : j = 2 := by omega
    exact hnext

/-- `user_send` to Reader in `actor_scan_object`. -/
theorem Pipeline.scanner_reports (hs : Pipeline L tr t.pre) (hauth : Authority t.pre)
    (h : StepOf L hal t scannerHome)
    (hpc : t.pre.program scannerHome = .scanner (.reporting i id))
    (hanswer : t.post.program scannerHome = .scanner (.acking i id)) :
    Pipeline L (t :: tr) t.post := by
  have hr : (t.pre.program scannerHome).request =
      some (.send ((readerHome : Nat) : Int) msgScanDone (cRet id)) := by
    rw [hpc]
    rfl
  obtain ⟨hscan, hempty, hspent, d, verdict, hjudged, hgrade⟩ := hs.turn _ hpc
  have hnone : ∀ d', d' ≠ readerHome → acceptedBy (kernelRecord t) d' = none := fun d' hne =>
    h.accepted_elsewhere hr hne
  have hstays := h.scannerStays hpc fun _ => hnone _ (by decide)
  have htaken := h.stays hr (by simp)
  have hstage := hstays.stage
  have hturn := hscan.turn
  have hwaits := hscan.waits
  have htrust := h.scanner_trust hr rfl
  obtain rfl := hscan.object
  refine ⟨fun pc hpost => ?_, fun hrole m hm => ?_⟩
  · rw [hanswer] at hpost
    cases hpost
    exact ⟨hscan.stays hstays, (h.mail_self hr (by simp) (hnone _ (by decide))).trans hempty,
      hspent.scanner h hanswer htaken⟩
  · obtain ⟨-, hpre⟩ := h.role_held hrole (by simp) (by simp)
    rw [h.mail_other (by decide) (htaken readerHome)] at hm
    rcases List.mem_append.mp hm with hold | hnew
    · obtain ⟨j, hdata, hsettled⟩ := hs.reports hpre m hold
      exact ⟨j, hdata, hsettled.scanner hauth h hpc hanswer (Nat.le_refl _) hstage
        (fun _ => htrust j)⟩
    · rw [Option.mem_toList] at hnew
      obtain ⟨-, rfl⟩ := h.accepted_send hr hnew
      refine ⟨i, rfl, hturn, by omega, fun pc hpost => ?_, d, verdict,
        hjudged.cons (hauth.scanner_unwritten h hpc hturn), (htrust i).trans hgrade⟩
      rw [hanswer] at hpost
      cases hpost
      exact Nat.lt_succ_self i

/-- `user_send` to Downloader in `actor_scan_object`. -/
theorem Pipeline.scanner_acks (hs : Pipeline L tr t.pre) (hauth : Authority t.pre)
    (h : StepOf L hal t scannerHome)
    (hpc : t.pre.program scannerHome = .scanner (.acking i id))
    (hanswer : t.post.program scannerHome = .scanner (ScannerPc.turn i)) :
    Pipeline L (t :: tr) t.post := by
  have hr : (t.pre.program scannerHome).request =
      some (.send ((downloaderHome : Nat) : Int) msgScanDone (cRet id)) := by
    rw [hpc]
    rfl
  obtain ⟨hscan, hempty, hspent⟩ := hs.turn _ hpc
  have hnone : ∀ d', d' ≠ downloaderHome → acceptedBy (kernelRecord t) d' = none := fun d' hne =>
    h.accepted_elsewhere hr hne
  have htaken := h.stays hr (by simp)
  have hsame := h.program_other (d := downloaderHome) (by decide) (htaken downloaderHome)
  have hstage : t.post.stage = t.pre.stage := by rw [PipelineState.stage, hsame, PipelineState.stage]
  have hturn := hscan.turn
  have hwaits := hscan.waits
  have htrust := h.scanner_trust hr rfl
  have hmail := (h.mail_self hr (by simp) (hnone _ (by decide))).trans hempty
  by_cases hfirst : i + 1 < 2
  · have hturns : ScannerPc.turn i = .receiving (i + 1) := if_pos hfirst
    rw [hturns] at hanswer
    exact hs.scanner_to hauth h hpc hanswer (Nat.le_refl _) (Or.inl hstage) (fun j _ _ => htrust j)
      (fun _ => hnone _ (by decide)) ⟨⟨hfirst, by omega, by omega, by simp, fun _ => by omega,
        Or.inl hmail⟩, hspent.scanner h hanswer htaken⟩
  · have hturns : ScannerPc.turn i = .exiting := if_neg hfirst
    rw [hturns] at hanswer
    exact hs.scanner_to hauth h hpc hanswer (Nat.succ_le_of_lt hturn) (Or.inl hstage)
      (fun j _ _ => htrust j) (fun _ => hnone _ (by decide)) trivial

/-- **Scanner's moves keep the invariant.** -/
theorem Pipeline.scanner (hs : Pipeline L tr t.pre) (h : StepOf L hal t c) (hauth : Authority t.pre)
    (hfoot : Footing t.pre.kernel) (hroom : Roomy t.pre) (hpc : t.pre.program c = .scanner pc) :
    Pipeline L (t :: tr) t.post := by
  obtain rfl := hauth.scanner c (by rw [hpc]; rfl)
  have hr : (t.pre.program scannerHome).request = some pc.request := by rw [hpc]; rfl
  rcases h.body hr with hcalm | ⟨ret, hret, hmade, hanswer⟩
  · exact (h.unnoticed_of_calm hcalm).pipeline hs
  rw [hpc] at hanswer
  cases pc with
  | receiving i => exact hs.scanner_signalled hauth h hpc hmade hret hanswer
  | spawning i id => exact hs.scanner_spawns hauth h hpc hmade hret hanswer
  | granting i id w => exact hs.scanner_grants hauth h hroom hpc hmade hanswer
  | tasking i id w => exact hs.scanner_tasks hauth h hpc hanswer
  | judging i id w => exact hs.scanner_judges hauth h hpc hmade hret hanswer
  | rejecting i id => exact hs.scanner_rejects hauth hfoot h hpc hmade hanswer
  | promoting i id j => exact hs.scanner_promotes hauth hfoot h hpc hmade hanswer
  | reporting i id => exact hs.scanner_reports hauth h hpc hanswer
  | acking i id => exact hs.scanner_acks hauth h hpc hanswer
  | exiting => exact (h.no_exit hmade hret).elim

end Vajra
