import Vajra.QuarantineFrames

/-!
# The moves of Downloader and of the Inspectors

Each call of `actor_downloader` finds Scanner waiting for the object it is about: while Scanner
works on an object, Downloader is at its `user_receive` with an empty mailbox or past its last
signal.  Each call of `actor_inspector` is made by Scanner's present Inspector, since all the
others have finished.
-/

namespace Vajra

open EntryTables TransitionTrace

variable {D : Type} {L : Layout} {hal : Hal D} {b : Boot D}
  {tr : List (PipelineRecord D)} {t : PipelineRecord D} {c d : Slot} {r : Request} {ret : Word}

/-- A call to receive that returns hands over a message. -/
theorem Stepped.handed {k k' : Kernel D} {e : Event D} {o : Outcome}
    (h : Stepped L hal k c e k' o) (hret : o.ret = some ret)
    (he : (∃ call, IsCall e .receive call) ∨ e = .resume) : ∃ m, o.msg = some m := by
  have hother : ∀ {sys : Syscall} {call : Call}, IsCall e sys call → sys = .receive := by
    rintro sys call ⟨rfl, hdecode⟩
    rcases he with ⟨call', hevent, hdecode'⟩ | hresume
    · cases hevent
      rw [hdecode, Option.some.injEq] at hdecode'
      exact hdecode'
    · cases hresume
  cases h with
  | tick | yield | exit | store | device | fault => cases hret
  | receive out =>
      rcases sysReceive_cases k c out with ⟨_, heq⟩ | ⟨_, heq⟩
      · rw [heq] at hret
        cases hret
      · rw [heq]
        exact ⟨_, rfl⟩
  | send hcall | grant hcall | spawn hcall | terminate hcall | spawnProgram hcall
  | createName hcall | programDenied hcall | createDenied hcall => cases hother hcall
  | quietCall hcall hquiet =>
      rw [hother hcall] at hquiet
      cases hquiet
  | unknown hdecode =>
      rcases he with ⟨call', hevent, hdecode'⟩ | hresume
      · cases hevent
        rw [hdecode] at hdecode'
        cases hdecode'
      · cases hresume

theorem StepOf.handed (h : StepOf L hal t c) (hmade : Made t .receive)
    (hret : t.outcome.ret = some ret) : ∃ m, t.outcome.msg = some m := by
  refine h.stepped.handed hret ?_
  rcases hmade with ⟨call, hevent, hmatch⟩ | ⟨hevent, -⟩
  · exact Or.inl ⟨call, hevent, hmatch.1⟩
  · exact Or.inr hevent

/-- `SYS_EXIT` does not return. -/
theorem StepOf.no_exit (h : StepOf L hal t c) (hmade : Made t .exit)
    (hret : t.outcome.ret = some ret) : False := by
  obtain ⟨call, hcall, -⟩ := hmade.isCall (by simp)
  have hresult := congrArg (fun r => (r.2 : Outcome).ret) (h.dispatch hcall)
  dsimp only at hresult
  rw [hret] at hresult
  cases hresult

/-- A body that does not stand at a receive is handed no message. -/
theorem StepOf.no_msg (h : StepOf L hal t c) (hr : (t.pre.program c).request = some r)
    (hne : r ≠ .receive) : t.outcome.msg = none := by
  cases hmsg : t.outcome.msg with
  | none => rfl
  | some m => exact absurd (h.msg hr hmsg).1 hne

/-- The mailbox of an actor whose call hands over a message. -/
theorem StepOf.mail_received (h : StepOf L hal t c) (hr : (t.pre.program c).request = some .receive)
    {m : Message} (hmsg : t.outcome.msg = some m) : t.pre.mail c = m :: t.post.mail c := by
  rcases h.queue c with ⟨hself, -⟩ | ⟨-, hqueue⟩
  · exact absurd rfl (h.taken_ne hself)
  · rw [h.receivedBy_self, hmsg, h.accepted_none hr (by simp) c] at hqueue
    exact (List.append_nil _).symm.trans hqueue.symm

/-- The mailbox of an actor that makes another call. -/
theorem StepOf.mail_self (h : StepOf L hal t c) (hr : (t.pre.program c).request = some r)
    (hne : r ≠ .receive) (hnone : acceptedBy (kernelRecord t) c = none) :
    t.post.mail c = t.pre.mail c := by
  rcases h.queue c with ⟨hself, -⟩ | ⟨-, hqueue⟩
  · exact absurd rfl (h.taken_ne hself)
  · rw [h.receivedBy_self, h.no_msg hr hne, hnone] at hqueue
    exact hqueue.trans (List.append_nil _)

/-- A body that spawns nobody turns no slot over. -/
theorem StepOf.stays (h : StepOf L hal t c) (hr : (t.pre.program c).request = some r)
    (hspawn : r.syscall ≠ .spawn) (d : Slot) : takenSlot L t.pre.kernel c t.event ≠ some d := by
  rw [h.taken_none hr hspawn]
  simp

section Downloader

variable {pc : DownloaderPc}

theorem Authority.atDownloader (hs : Authority t.pre) (hpc : t.pre.program c = .downloader pc) :
    c = downloaderHome ∧ t.pre.stage = pc.stage := by
  have hhome := hs.downloader c (by rw [hpc]; rfl)
  subst hhome
  exact ⟨rfl, by rw [PipelineState.stage, hpc, Program.stage]⟩

/-- Scanner at a move of Downloader: only if it waits for a signal is there something to show. -/
theorem Pipeline.scanner_awaiting {pc : DownloaderPc} (hs : Pipeline L tr t.pre)
    (h : StepOf L hal t c) (hauth : Authority t.pre) (hpc : t.pre.program c = .downloader pc)
    (hspawn : pc.request.syscall ≠ .spawn)
    (hbusy : ∀ i id, Scanning t.pre i id → False)
    (hwaits : ∀ i, Awaiting t.pre i → Awaiting t.post i) :
    ∀ pc, t.post.program scannerHome = .scanner pc → ScannerOk L (t :: tr) t.post pc := by
  intro pc' hpc'
  have hr : (t.pre.program c).request = some pc.request := by rw [hpc]; rfl
  obtain ⟨rfl, -⟩ := hauth.atDownloader hpc
  have hsame := h.program_other (d := scannerHome) (by decide) (h.stays hr hspawn scannerHome)
  have hok := hs.turn pc' (hsame.symm.trans hpc')
  have hrole : (t.post.program scannerHome).role = .scanner := by rw [hpc']; rfl
  have hspent : Spent t.pre none → Spent t.post none := by
    intro hspent
    refine hspent.kept (L := L) fun d pcd hlive hprogram => ?_
    refine h.inspectors (by rw [hpc]; simp [Program.role]) hrole ?_ hlive hprogram
    rintro rfl
    have hstays := h.role_same (h.stays hr hspawn downloaderHome)
    rw [hprogram, hpc] at hstays
    cases hstays
  cases pc' with
  | receiving i => exact ⟨hwaits i hok.1, hspent hok.2⟩
  | spawning i id | granting i id w | tasking i id w | judging i id w | rejecting i id
  | promoting i id j | reporting i id | acking i id => exact (hbusy i id hok.1).elim
  | exiting => trivial

/-- The reports at a move of Downloader. -/
theorem Pipeline.reports_later {pc : DownloaderPc} (hs : Pipeline L tr t.pre)
    (h : StepOf L hal t c) (hauth : Authority t.pre) (hpc : t.pre.program c = .downloader pc)
    (hspawn : pc.request.syscall ≠ .spawn) (hstage : t.pre.stage ≤ t.post.stage)
    (hkeep : ∀ j, 3 * j < t.pre.stage → t.post.kernel.trust j = t.pre.kernel.trust j ∧
      ¬ WritesObject (j : Nat) t)
    (hrole : (t.post.program readerHome).role = .reader) (m : Message)
    (hm : m ∈ t.post.mail readerHome) : ∃ j : Nat, m.data = cRet j ∧ Settled L (t :: tr) t.post j := by
  have hr : (t.pre.program c).request = some pc.request := by rw [hpc]; rfl
  obtain ⟨rfl, -⟩ := hauth.atDownloader hpc
  obtain ⟨hreader, hmail⟩ := h.readerMail (fun hpre =>
    hauth.sendsReader h hpre (by rw [hpc]; simp [Program.role])) hrole
  obtain ⟨j, hdata, hsettled⟩ := hs.reports hreader m (hmail m hm)
  have hwritten := hsettled.written
  obtain ⟨htrust, hwrites⟩ := hkeep j hwritten
  refine ⟨j, hdata, hsettled.step (by omega) (fun pc' hpc' => ⟨pc', ?_, Nat.le_refl _⟩) htrust hwrites⟩
  rwa [h.program_other (by decide) (h.stays hr hspawn scannerHome)] at hpc'

/-- `user_object_write` by Downloader. -/
theorem Pipeline.downloader_writes {pc' : DownloaderPc} (hs : Pipeline L tr t.pre)
    (h : StepOf L hal t c) (hauth : Authority t.pre) (hfoot : Footing t.pre.kernel)
    (hpc : t.pre.program c = .downloader pc) {i len : Nat} (hi : i < 2)
    (hrequest : pc.request = .objectWrite i len) (hlen : len ≤ objectMaxBytes)
    (hcap : ⟨capWriteObject, (i : Int)⟩ ∈ dowry .downloader) (hmade : Made t pc.request)
    (hpost : t.post.program c = .downloader pc') (hstage : pc.stage = 3 * i)
    (hstage' : pc'.stage = 3 * i + 1) : Pipeline L (t :: tr) t.post := by
  have hr : (t.pre.program c).request = some pc.request := by rw [hpc]; rfl
  have hspawn : pc.request.syscall ≠ .spawn := by rw [hrequest]; simp
  obtain ⟨rfl, hbefore⟩ := hauth.atDownloader hpc
  have hafter : t.post.stage = 3 * i + 1 := by
    rw [PipelineState.stage, hpost, Program.stage, hstage']
  rw [hstage] at hbefore
  rw [hrequest] at hmade
  have hmay : ⟨capWriteObject, (i : Int)⟩ ∈ t.pre.kernel.tables downloaderHome :=
    hauth.kept _ _ (by rw [hpc]; exact hcap)
  have htrust := h.write_trust hfoot hmade hmay (Nat.lt_succ_of_lt hi) hlen
  have hne : pc.request ≠ .receive := by rw [hrequest]; simp
  have hnone : ∀ d, acceptedBy (kernelRecord t) d = none :=
    h.accepted_none hr (by rw [hrequest]; simp)
  have hmail : ∀ d, t.post.mail d = t.pre.mail d := by
    intro d
    by_cases hd : d = downloaderHome
    · rw [hd]
      exact h.mail_self hr hne (hnone _)
    · exact h.mail_same hd (h.stays hr hspawn d) (hnone d)
  refine ⟨hs.scanner_awaiting h hauth hpc hspawn (fun i' id hscan => ?_) (fun i' hwait => ?_),
    hs.reports_later h hauth hpc hspawn (by omega) fun j hj => ⟨?_, ?_⟩⟩
  · have hwaits := hscan.waits
    have hturn := hscan.turn
    omega
  · have hearly := hwait.early
    have hlate := hwait.late
    have hturn := hwait.turn
    obtain rfl : i' = i := by omega
    refine ⟨hi, by omega, by omega, fun hzero _ => ?_, fun _ => ?_, Or.inl ?_⟩
    · rw [hmail]
      exact hwait.silent hzero (by rw [hpc]; rfl)
    · rw [htrust, if_pos rfl]
    · rw [hmail]
      rcases hwait.signal with hempty | ⟨_, hlater, _⟩
      · exact hempty
      · omega
  · rw [htrust, if_neg (by omega)]
  · rintro ⟨c', call, hcur, hcall, hid, _⟩
    obtain ⟨call', hcall', hid', _⟩ := hmade.isCall (by simp)
    have hsame : call' = call := by
      have hevent := hcall'.1.symm.trans hcall.1
      injection hevent
    rw [hsame, hid] at hid'
    omega

/-- `user_send` to Scanner by Downloader. -/
theorem Pipeline.downloader_signals {pc' : DownloaderPc} (hs : Pipeline L tr t.pre)
    (h : StepOf L hal t c) (hauth : Authority t.pre) (hpc : t.pre.program c = .downloader pc) {i : Nat}
    (hi : i < 2) (hrequest : pc.request = .send scannerSlot msgDownloadDone (cRet i))
    (hpost : t.post.program c = .downloader pc') (hstage : pc.stage = 3 * i + 1)
    (hstage' : pc'.stage = 3 * i + 2) : Pipeline L (t :: tr) t.post := by
  have hr : (t.pre.program c).request = some pc.request := by rw [hpc]; rfl
  have hspawn : pc.request.syscall ≠ .spawn := by rw [hrequest]; simp
  obtain ⟨rfl, hbefore⟩ := hauth.atDownloader hpc
  have hafter : t.post.stage = 3 * i + 2 := by
    rw [PipelineState.stage, hpost, Program.stage, hstage']
  rw [hstage] at hbefore
  have hobjects := h.objects_same hr (by rw [hrequest]; rfl)
  have htrust : ∀ j, t.post.kernel.trust j = t.pre.kernel.trust j := by
    intro j
    rw [Kernel.trust, hobjects, Kernel.trust]
  have hne : pc.request ≠ .receive := by rw [hrequest]; simp
  have hsend : (t.pre.program downloaderHome).request =
      some (.send ((scannerHome : Nat) : Int) msgDownloadDone (cRet i)) := by
    rw [hr, hrequest]
    rfl
  have hown : t.post.mail downloaderHome = t.pre.mail downloaderHome :=
    h.mail_self hr hne (h.accepted_elsewhere hsend (by decide))
  refine ⟨hs.scanner_awaiting h hauth hpc hspawn (fun i' id hscan => ?_) (fun i' hwait => ?_),
    hs.reports_later h hauth hpc hspawn (by omega) fun j hj => ⟨htrust j, ?_⟩⟩
  · have hwaits := hscan.waits
    have hturn := hscan.turn
    omega
  · have hearly := hwait.early
    have hlate := hwait.late
    have hturn := hwait.turn
    obtain rfl : i' = i := by omega
    have hempty : t.pre.mail scannerHome = [] := by
      rcases hwait.signal with hempty | ⟨_, hlater, _⟩
      · exact hempty
      · omega
    refine ⟨hi, by omega, by omega, fun hzero _ => ?_, fun _ => by omega, ?_⟩
    · rw [hown]
      exact hwait.silent hzero (by rw [hpc]; rfl)
    · rw [h.mail_other (by decide) (h.stays hr hspawn scannerHome), hempty]
      cases hacc : acceptedBy (kernelRecord t) scannerHome with
      | none => exact Or.inl rfl
      | some m =>
          obtain ⟨-, rfl⟩ := h.accepted_send hsend hacc
          refine Or.inr ⟨rfl, Or.inl hafter, ?_⟩
          rw [htrust]
          exact hwait.written hbefore
  · rintro ⟨c', call, _, hcall, _⟩
    rcases h.call hr hcall with hbad | ⟨hbad, _⟩
    · cases hbad
    · rw [hrequest] at hbad
      cases hbad

/-- `user_receive` by Downloader: the acknowledgement is there only after Scanner's first turn. -/
theorem Pipeline.downloader_goes_on (hs : Pipeline L tr t.pre) (h : StepOf L hal t c)
    (hauth : Authority t.pre) (hpc : t.pre.program c = .downloader .awaitingAck)
    (hmade : Made t .receive) (hret : t.outcome.ret = some ret)
    (hpost : t.post.program c = .downloader .writingSuspicious) : Pipeline L (t :: tr) t.post := by
  have hr : (t.pre.program c).request = some .receive := by rw [hpc]; rfl
  obtain ⟨rfl, hbefore⟩ := hauth.atDownloader hpc
  have hafter : t.post.stage = 3 := by
    rw [PipelineState.stage, hpost]
    rfl
  have htwo : t.pre.stage = 2 := hbefore
  obtain ⟨m, hmsg⟩ := h.handed hmade hret
  have hmail := h.mail_received hr hmsg
  have hloud : t.pre.mail downloaderHome ≠ [] := by
    rw [hmail]
    exact List.cons_ne_nil _ _
  have hrole : (t.pre.program downloaderHome).role = .downloader := by rw [hpc]; rfl
  have htrust : ∀ j, t.post.kernel.trust j = t.pre.kernel.trust j := by
    intro j
    rw [Kernel.trust, h.objects_same hr rfl, Kernel.trust]
  refine ⟨hs.scanner_awaiting h hauth hpc (by simp) (fun i id hscan => ?_) (fun i hwait => ?_),
    hs.reports_later h hauth hpc (by simp) (by omega) fun j hj => ⟨htrust j, ?_⟩⟩
  · have hwaits := hscan.waits
    exact hloud (hscan.silent (by omega) hrole)
  · have hturn := hwait.turn
    have hsecond : i = 1 := by
      by_contra hfirst
      exact hloud (hwait.silent (by omega) hrole)
    refine ⟨hturn, by omega, by omega, fun _ => by omega, fun _ => by omega, Or.inl ?_⟩
    rw [h.mail_same (by decide) (h.stays hr (by simp) scannerHome) (h.accepted_none hr (by simp) _)]
    rcases hwait.signal with hempty | ⟨_, hlater, _⟩
    · exact hempty
    · omega
  · rintro ⟨c', call, _, hcall, _⟩
    rcases h.call hr hcall with hbad | ⟨hbad, _⟩
    · cases hbad
    · cases hbad

/-- **Downloader's moves keep the invariant.** -/
theorem Pipeline.downloader (hs : Pipeline L tr t.pre) (h : StepOf L hal t c)
    (hauth : Authority t.pre) (hfoot : Footing t.pre.kernel)
    (hpc : t.pre.program c = .downloader pc) : Pipeline L (t :: tr) t.post := by
  have hr : (t.pre.program c).request = some pc.request := by rw [hpc]; rfl
  rcases h.body hr with hcalm | ⟨ret, hret, hmade, hanswer⟩
  · exact (h.unnoticed_of_calm hcalm).pipeline hs
  rw [hpc] at hanswer
  have hmax : 17 ≤ objectMaxBytes := by decide
  cases pc with
  | writingPayload =>
      exact hs.downloader_writes h hauth hfoot hpc (i := 0) (by decide) rfl hmax (by decide) hmade
        hanswer rfl rfl
  | signallingPayload =>
      exact hs.downloader_signals h hauth hpc (i := 0) (by decide) rfl hanswer rfl rfl
  | awaitingAck => exact hs.downloader_goes_on h hauth hpc hmade hret hanswer
  | writingSuspicious =>
      exact hs.downloader_writes h hauth hfoot hpc (i := 1) (by decide) rfl (by omega) (by decide)
        hmade hanswer rfl rfl
  | signallingSuspicious =>
      exact hs.downloader_signals h hauth hpc (i := 1) (by decide) rfl hanswer rfl rfl
  | exiting => exact (h.no_exit hmade hret).elim

end Downloader

section Inspector

variable {pc : InspectorPc} {i : Nat} {id : Int} {granted tasked : Bool}

/-- The present Inspector keeps what it has when it moves to another place. -/
theorem Serving.moved {pc' : InspectorPc} (hs : Serving L tr t.pre id c granted tasked)
    (h : StepOf L hal t c) (hpc : t.pre.program c = .inspector pc)
    (hpost : t.post.program c = .inspector pc')
    (hplace : InspectorOk L (t :: tr) t.post id c tasked pc') :
    Serving L (t :: tr) t.post id c granted tasked := by
  have htaken : takenSlot L t.pre.kernel c t.event ≠ some c := fun hself => h.taken_ne hself rfl
  refine ⟨by rw [hpost]; rfl, fun pc hlive hprogram => ?_, fun pc hlive hprogram => ?_,
    fun pc hlive hprogram hgrant => ?_⟩
  · rw [hpost] at hprogram
    cases hprogram
    exact hplace
  · exact (hs.spawned _ h.live hpc).cons fun hover => htaken ((h.turnsOver_iff c).mp hover)
  · exact h.tables_kept (hs.reads _ h.live hpc hgrant) (by dsimp only; decide) htaken

/-- `user_receive` by the present Inspector. -/
theorem Serving.receives (hs : Serving L tr t.pre id c granted tasked) (h : StepOf L hal t c)
    (hscan : Scanning t.pre i id) (hpc : t.pre.program c = .inspector .receiving)
    (hmade : Made t .receive) (hret : t.outcome.ret = some ret)
    (hanswer : t.post.program c = .inspector (InspectorPc.receiving.answer t.outcome)) :
    Serving L (t :: tr) t.post id c granted tasked := by
  have hr : (t.pre.program c).request = some .receive := by rw [hpc]; rfl
  obtain ⟨m, hmsg⟩ := h.handed hmade hret
  rw [InspectorPc.answer, hmsg] at hanswer
  refine hs.moved h hpc hanswer fun hsender => ?_
  have hmem : m ∈ t.pre.mail c := by
    rw [h.mail_received hr hmsg]
    exact List.mem_cons_self
  obtain ⟨htasked, hdata⟩ := hs.place _ h.live hpc m hmem hsender
  have hturn := hscan.turn
  have hobject := hscan.object
  exact ⟨htasked, by rw [hdata, cInt_cRet (by omega) (by omega)]⟩

/-- `user_object_read` by the present Inspector: it reads the object if Scanner told it to. -/
theorem Serving.reads_object {id' : Int} {sender : Word}
    (hs : Serving L tr t.pre id c granted tasked) (h : StepOf L hal t c)
    (hfoot : Footing t.pre.kernel) (hscan : Scanning t.pre i id)
    (htrust : t.pre.kernel.trust i = objUntrusted) (hgranted : tasked = true → granted = true)
    (hpc : t.pre.program c = .inspector (.reading id' sender)) (hmade : Made t (.objectRead id' 31))
    (hanswer : t.post.program c = .inspector ((InspectorPc.reading id' sender).answer t.outcome)) :
    Serving L (t :: tr) t.post id c granted tasked := by
  rw [InspectorPc.answer] at hanswer
  refine hs.moved h hpc hanswer fun hsender => ?_
  obtain ⟨htasked, rfl⟩ := hs.place _ h.live hpc hsender
  have hmay := hs.reads _ h.live hpc (hgranted htasked)
  have hobject := hscan.object
  subst hobject
  have hreadable : t.pre.kernel.trust i ≠ objRejected := by
    rw [htrust]
    decide
  obtain ⟨ret, hret, hpos⟩ := h.read_bytes hfoot hmade hmay (Nat.lt_succ_of_lt hscan.turn) hreadable
    (by decide)
  obtain ⟨call, hcall, hid, -⟩ := hmade.isCall (by simp)
  have hread : ReadBy L (i : Int) c (t.outcome.out.map Prod.snd) (t :: tr) :=
    Or.inl ⟨hs.spawned _ h.live hpc, h.current, rfl, call, ret, hcall, hid, hret, hpos⟩
  exact ⟨htasked, rfl, _, hread, rfl⟩

/-- `user_send` by the present Inspector: what Scanner gets is the verdict on what was read. -/
theorem Serving.reports {id' : Int} {sender verdict : Word}
    (hs : Serving L tr t.pre id c granted tasked) (h : StepOf L hal t c)
    (hunwritten : ¬ WritesObject id t)
    (hpc : t.pre.program c = .inspector (.sending id' sender verdict))
    {m : Message} (hacc : acceptedBy (kernelRecord t) scannerHome = some m) :
    tasked = true ∧ m = ⟨verdict, BitVec.ofNat 64 c, cRet id⟩ ∧
      ReportedBy L id c verdict (t :: tr) := by
  have hr : (t.pre.program c).request = some (.send (cInt sender) verdict (cRet id')) := by
    rw [hpc]
    rfl
  obtain ⟨type, data, heq, rfl⟩ := h.accepted_request hr hacc
  injection heq with hdest htype hdata
  obtain ⟨htasked, rfl, bytes, hread, hverdict⟩ := hs.place _ h.live hpc hdest
  subst htype hdata
  exact ⟨htasked, rfl, Or.inl ⟨⟨bytes, hread, hverdict⟩, hunwritten, hacc⟩⟩

/-- **A move of the present Inspector**: Scanner hears nothing, or the verdict. -/
theorem Serving.move (hs : Serving L tr t.pre id c granted tasked) (h : StepOf L hal t c)
    (hfoot : Footing t.pre.kernel) (hscan : Scanning t.pre i id)
    (htrust : t.pre.kernel.trust i = objUntrusted) (hgranted : tasked = true → granted = true)
    (hunwritten : ¬ WritesObject id t) (hpc : t.pre.program c = .inspector pc)
    (hmade : Made t pc.request) (hret : t.outcome.ret = some ret)
    (hanswer : t.post.program c = .inspector (pc.answer t.outcome)) :
    (acceptedBy (kernelRecord t) scannerHome = none ∧
      Serving L (t :: tr) t.post id c granted tasked) ∨
    (tasked = true ∧ t.post.program c = .inspector .exiting ∧ ∃ verdict,
      acceptedBy (kernelRecord t) scannerHome = some ⟨verdict, BitVec.ofNat 64 c, cRet id⟩ ∧
        ReportedBy L id c verdict (t :: tr)) := by
  have hr : (t.pre.program c).request = some pc.request := by rw [hpc]; rfl
  cases pc with
  | receiving =>
      exact Or.inl ⟨h.accepted_none hr (by simp) _, hs.receives h hscan hpc hmade hret hanswer⟩
  | reading id' sender =>
      exact Or.inl ⟨h.accepted_none hr (by simp) _,
        hs.reads_object h hfoot hscan htrust hgranted hpc hmade hanswer⟩
  | sending id' sender verdict =>
      cases hacc : acceptedBy (kernelRecord t) scannerHome with
      | none => exact Or.inl ⟨rfl, hs.moved h hpc hanswer trivial⟩
      | some m =>
          obtain ⟨htasked, rfl, hreported⟩ := hs.reports h hunwritten hpc hacc
          exact Or.inr ⟨htasked, hanswer, verdict, rfl, hreported⟩
  | exiting => exact (h.no_exit hmade hret).elim

/-- The other Inspectors, at a move of the one in slot `c`. -/
theorem Spent.others (hs : Spent t.pre (some c)) (h : StepOf L hal t c)
    (hc : (t.pre.program c).role ≠ .scanner)
    (hscanner : (t.post.program scannerHome).role = .scanner) : Spent t.post (some c) := by
  intro d pc hlive hprogram
  by_cases hd : d = c
  · exact Or.inl (by rw [hd])
  · have hkept := h.inspectors hc hscanner hd hlive hprogram
    exact hs d pc hkept.live (hkept.program.symm.trans hprogram)

/-- **The Inspectors' moves keep the invariant.** -/
theorem Pipeline.inspector (hs : Pipeline L tr t.pre) (h : StepOf L hal t c)
    (hauth : Authority t.pre) (hfoot : Footing t.pre.kernel)
    (hpc : t.pre.program c = .inspector pc) : Pipeline L (t :: tr) t.post := by
  have hr : (t.pre.program c).request = some pc.request := by rw [hpc]; rfl
  rcases h.body hr with hcalm | ⟨ret, hret, hmade, hanswer⟩
  · exact (h.unnoticed_of_calm hcalm).pipeline hs
  rw [hpc] at hanswer
  have hmoves : pc ≠ .exiting := by
    rintro rfl
    exact h.no_exit hmade hret
  have hnot : (t.pre.program c).role ≠ .scanner := by rw [hpc]; simp [Program.role]
  have hback := h.backdrop hauth hfoot (by rw [hpc]; simp [Program.role]) hnot
  refine ⟨fun spc hspc => ?_, fun hrole m hm => hback.reports hs hrole hm⟩
  have hscanner : (t.post.program scannerHome).role = .scanner := by rw [hspc]; rfl
  have hok := hs.turn spc (hback.scanner spc hspc)
  obtain ⟨hne, htaken, -⟩ := h.home_other hscanner rfl hnot
  have hmail := h.mail_other hne htaken
  -- Whoever moves is the present Inspector.
  have hpresent : ∀ {w : Option Slot}, Spent t.pre w → w = some c := by
    intro w hspent
    exact (hspent c pc h.live hpc).resolve_right hmoves
  have hunwritten : ∀ {i : Nat} {id : Int}, Scanning t.pre i id → ¬ WritesObject id t := by
    intro i id hscan
    rw [hscan.object]
    exact hback.unwritten i hscan.turn
  have hidle : Spent t.pre none → False := fun hspent =>
    Option.some_ne_none c (hpresent hspent).symm
  cases spc with
  | receiving i => exact (hidle hok.2).elim
  | spawning i id => exact (hidle hok.2.2.2).elim
  | granting i id w | tasking i id w =>
      obtain ⟨hscan, hempty, htrust, d, hw, hspent, hserving⟩ := hok
      obtain rfl : d = c := Option.some.inj (hpresent hspent)
      rcases hserving.move h hfoot hscan htrust (by simp) (hunwritten hscan) hpc hmade hret hanswer with
        ⟨hnone, hserving'⟩ | ⟨htasked, -⟩
      · rw [hnone, hempty] at hmail
        exact ⟨hscan.stays hback.downloader, hmail, (hback.trust i hscan.turn).trans htrust, d, hw,
          hspent.others h hnot hscanner, hserving'⟩
      · cases htasked
  | judging i id w =>
      obtain ⟨hscan, htrust, d, hw, hcase⟩ := hok
      refine ⟨hscan.stays hback.downloader, (hback.trust i hscan.turn).trans htrust, d, hw, ?_⟩
      rcases hcase with ⟨hempty, hspent, hserving⟩ | ⟨verdict, -, -, hspent⟩
      · obtain rfl : d = c := Option.some.inj (hpresent hspent)
        have hothers := hspent.others h hnot hscanner
        rcases hserving.move h hfoot hscan htrust (fun _ => rfl) (hunwritten hscan) hpc hmade hret
          hanswer with ⟨hnone, hserving'⟩ | ⟨-, hexit, verdict, hacc, hreported⟩
        · rw [hnone, hempty] at hmail
          exact Or.inl ⟨hmail, hothers, hserving'⟩
        · rw [hacc, hempty] at hmail
          refine Or.inr ⟨verdict, hmail, hreported, fun d' pc' hlive hprogram => Or.inr ?_⟩
          rcases hothers d' pc' hlive hprogram with heq | hdone
          · obtain rfl : d = d' := Option.some.inj heq
            rw [hexit] at hprogram
            cases hprogram
            rfl
          · exact hdone
      · exact (hidle hspent).elim
  | rejecting i id => exact (hidle hok.2.2.2.1).elim
  | promoting i id j => exact (hidle hok.2.2.2.2.1).elim
  | reporting i id => exact (hidle hok.2.2.1).elim
  | acking i id => exact (hidle hok.2.2).elim
  | exiting => trivial

end Inspector

end Vajra
