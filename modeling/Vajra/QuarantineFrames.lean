import Vajra.QuarantineTurns

/-!
# Steps that the pipeline does not notice

Whatever the actors outside the pipeline do, and whatever Downloader, Scanner and the
Inspectors do between the calls of their bodies, leaves the invariant as it is
(`Unnoticed.pipeline`).
-/

namespace Vajra

open EntryTables TransitionTrace

variable {D : Type} {L : Layout} {hal : Hal D} {b : Boot D}

section Histories

variable {tr : List (PipelineRecord D)} {t : PipelineRecord D} {id : Int} {w : Slot}
  {bytes : List UInt8} {verdict : Word}

theorem SpawnedFor.cons (h : SpawnedFor L id w tr) (hstays : ¬ TurnsOver L w t) :
    SpawnedFor L id w (t :: tr) := Or.inr ⟨hstays, h⟩

theorem ReadBy.cons (h : ReadBy L id w bytes tr) (hstays : ¬ TurnsOver L w t)
    (hwrites : ¬ WritesObject id t) : ReadBy L id w bytes (t :: tr) :=
  Or.inr ⟨⟨hstays, hwrites⟩, h⟩

theorem ReportedBy.cons (h : ReportedBy L id w verdict tr) (hwrites : ¬ WritesObject id t) :
    ReportedBy L id w verdict (t :: tr) := Or.inr ⟨hwrites, h⟩

theorem Judged.cons (h : Judged L id w verdict tr) (hwrites : ¬ WritesObject id t) :
    Judged L id w verdict (t :: tr) := Or.inr ⟨hwrites, h⟩

end Histories

/-- The occupant of slot `d` was there before the step, at the same place, and has got no mail
from Scanner. -/
structure LeftAlone (L : Layout) (t : PipelineRecord D) (d : Slot) : Prop where
  live : t.pre.kernel.Live d
  program : t.post.program d = t.pre.program d
  stays : ¬ TurnsOver L d t
  tables : ∀ x ∈ t.pre.kernel.tables d, x.op ≠ 0 → x ∈ t.post.kernel.tables d
  mail : ∀ m ∈ t.post.mail d, m ∈ t.pre.mail d ∨ cInt m.sender ≠ scannerSlot

/-- Downloader, if it is still there, has neither moved nor got mail. -/
structure DownloaderStays (t : PipelineRecord D) : Prop where
  program : t.post.program downloaderHome = t.pre.program downloaderHome ∨
    (t.post.program downloaderHome).role ≠ .downloader
  mail : (t.post.program downloaderHome).role = .downloader →
    t.post.mail downloaderHome = t.pre.mail downloaderHome

/-- The step does nothing to Downloader, Scanner, Reader and the two objects, except that it may
send to Scanner. -/
structure Backdrop (t : PipelineRecord D) : Prop where
  scanner : ∀ pc, t.post.program scannerHome = .scanner pc → t.pre.program scannerHome = .scanner pc
  downloader : DownloaderStays t
  reader : (t.post.program readerHome).role = .reader →
    (t.pre.program readerHome).role = .reader ∧
      ∀ m ∈ t.post.mail readerHome, m ∈ t.pre.mail readerHome
  trust : ∀ j < 2, t.post.kernel.trust j = t.pre.kernel.trust j
  unwritten : ∀ j < 2, ¬ WritesObject (j : Nat) t

/-- The pipeline does not notice the step. -/
structure Unnoticed (L : Layout) (t : PipelineRecord D) : Prop extends Backdrop t where
  mail : (t.post.program scannerHome).role = .scanner →
    t.post.mail scannerHome = t.pre.mail scannerHome
  child : ∀ d, (t.pre.program d).role.child = true → (t.post.program d).role.child = true
  inspectors : (t.post.program scannerHome).role = .scanner → ∀ d pc, t.post.kernel.Live d →
    t.post.program d = .inspector pc → LeftAlone L t d

section Unnoticed

variable {tr : List (PipelineRecord D)} {t : PipelineRecord D} {i j : Nat} {id : Int} {d : Slot}

theorem Program.stage_of_role {p : Program} (h : p.role ≠ .downloader) : p.stage = 5 := by
  cases p with
  | downloader pc => exact absurd rfl h
  | other | sender | shell | inspector | scanner | reader => rfl

theorem DownloaderStays.stage (h : DownloaderStays t) :
    t.post.stage = t.pre.stage ∨ t.post.stage = 5 := by
  rcases h.program with hsame | hgone
  · exact Or.inl (by rw [PipelineState.stage, hsame, PipelineState.stage])
  · exact Or.inr (Program.stage_of_role hgone)

/-- Where Downloader is still there, its mailbox is as it was. -/
theorem DownloaderStays.silent (h : DownloaderStays t)
    (hs : i = 0 → (t.pre.program downloaderHome).role = .downloader → t.pre.mail downloaderHome = [])
    (hi : i = 0) (hrole : (t.post.program downloaderHome).role = .downloader) :
    t.post.mail downloaderHome = [] := by
  rw [h.mail hrole]
  refine hs hi ?_
  rcases h.program with hsame | hgone
  · rwa [hsame] at hrole
  · exact absurd hrole hgone

theorem Awaiting.unnoticed (hs : Awaiting t.pre i) (h : Unnoticed L t)
    (hscanner : (t.post.program scannerHome).role = .scanner) : Awaiting t.post i := by
  have hstage := h.downloader.stage
  have hturn := hs.turn
  have hearly := hs.early
  have hlate := hs.late
  refine ⟨hturn, by omega, by omega, h.downloader.silent hs.silent, fun hwritten => ?_, ?_⟩
  · rw [h.trust i hturn]
    exact hs.written (by omega)
  · rw [h.mail hscanner, h.trust i hturn]
    rcases hs.signal with hnone | ⟨hone, hafter, htrust⟩
    · exact Or.inl hnone
    · exact Or.inr ⟨hone, by omega, htrust⟩

theorem Scanning.stays (hs : Scanning t.pre i id) (h : DownloaderStays t) :
    Scanning t.post i id := by
  have hstage := h.stage
  have hwaits := hs.waits
  exact ⟨hs.turn, hs.object, by omega, h.silent hs.silent⟩

/-- An object with its grade keeps it. -/
theorem Settled.step (hs : Settled L tr t.pre j) (hstage : 3 * j < t.post.stage)
    (hgraded : ∀ pc, t.post.program scannerHome = .scanner pc →
      ∃ pc', t.pre.program scannerHome = .scanner pc' ∧ pc'.graded ≤ pc.graded)
    (htrust : t.post.kernel.trust j = t.pre.kernel.trust j) (hwrites : ¬ WritesObject (j : Nat) t) :
    Settled L (t :: tr) t.post j := by
  obtain ⟨hj, -, hdone, d, verdict, hjudged, hgrade⟩ := hs
  refine ⟨hj, hstage, fun pc hpc => ?_, d, verdict, hjudged.cons hwrites, htrust.trans hgrade⟩
  obtain ⟨pc', hpc', hle⟩ := hgraded pc hpc
  exact Nat.lt_of_lt_of_le (hdone pc' hpc') hle

/-- The reports in Reader's mailbox stay true. -/
theorem Backdrop.reports (h : Backdrop t) (hs : Pipeline L tr t.pre)
    (hrole : (t.post.program readerHome).role = .reader) {m : Message}
    (hm : m ∈ t.post.mail readerHome) : ∃ j : Nat, m.data = cRet j ∧ Settled L (t :: tr) t.post j := by
  obtain ⟨hreader, hmail⟩ := h.reader hrole
  obtain ⟨j, hdata, hsettled⟩ := hs.reports hreader m (hmail m hm)
  have hstage := h.downloader.stage
  have hwritten := hsettled.written
  have hj := hsettled.object
  refine ⟨j, hdata, hsettled.step (by omega) (fun pc hpc => ?_) (h.trust j hj) (h.unwritten j hj)⟩
  exact ⟨pc, h.scanner pc hpc, Nat.le_refl _⟩

theorem Spent.mono {w : Option Slot} (hs : Spent t.pre w)
    (h : ∀ d pc, t.post.kernel.Live d → t.post.program d = .inspector pc →
      t.pre.kernel.Live d ∧ t.post.program d = t.pre.program d) : Spent t.post w := by
  intro d pc hlive hprogram
  obtain ⟨hbefore, hsame⟩ := h d pc hlive hprogram
  exact hs d pc hbefore (hsame.symm.trans hprogram)

theorem Spent.kept {w : Option Slot} (hs : Spent t.pre w)
    (h : ∀ d pc, t.post.kernel.Live d → t.post.program d = .inspector pc → LeftAlone L t d) :
    Spent t.post w :=
  hs.mono fun d pc hlive hprogram =>
    ⟨(h d pc hlive hprogram).live, (h d pc hlive hprogram).program⟩

theorem InspectorOk.kept {tasked : Bool} {pc : InspectorPc}
    (hs : InspectorOk L tr t.pre id d tasked pc) (h : LeftAlone L t d)
    (hwrites : ¬ WritesObject id t) : InspectorOk L (t :: tr) t.post id d tasked pc := by
  cases pc with
  | receiving =>
      intro m hm hsender
      exact hs m ((h.mail m hm).resolve_right (not_not.mpr hsender)) hsender
  | reading id' sender => exact hs
  | sending id' sender verdict =>
      intro hsender
      obtain ⟨htasked, hid, bytes, hread, hverdict⟩ := hs hsender
      exact ⟨htasked, hid, bytes, hread.cons h.stays hwrites, hverdict⟩
  | exiting => trivial

theorem Serving.kept {granted tasked : Bool} (hs : Serving L tr t.pre id d granted tasked)
    (hchild : (t.post.program d).role.child = true)
    (h : ∀ pc, t.post.kernel.Live d → t.post.program d = .inspector pc → LeftAlone L t d)
    (hwrites : ¬ WritesObject id t) : Serving L (t :: tr) t.post id d granted tasked := by
  refine ⟨hchild, fun pc hlive hprogram => ?_, fun pc hlive hprogram => ?_, fun pc hlive hprogram hgrant => ?_⟩
  all_goals
    have hkept := h pc hlive hprogram
    have hbefore := hkept.program.symm.trans hprogram
  · exact (hs.place pc hkept.live hbefore).kept hkept hwrites
  · exact (hs.spawned pc hkept.live hbefore).cons hkept.stays
  · exact hkept.tables _ (hs.reads pc hkept.live hbefore hgrant) (by dsimp only; decide)

theorem ScannerOk.unnoticed {pc : ScannerPc} (hs : ScannerOk L tr t.pre pc) (h : Unnoticed L t)
    (hscanner : (t.post.program scannerHome).role = .scanner) : ScannerOk L (t :: tr) t.post pc := by
  have hmail := h.mail hscanner
  have hkept := h.inspectors hscanner
  have hunwritten : ∀ {i : Nat} {id : Int}, Scanning t.pre i id → ¬ WritesObject id t := by
    intro i id hscan
    rw [hscan.object]
    exact h.unwritten i hscan.turn
  cases pc with
  | receiving i => exact ⟨hs.1.unnoticed h hscanner, hs.2.kept hkept⟩
  | spawning i id =>
      obtain ⟨hscan, hempty, htrust, hspent⟩ := hs
      exact ⟨hscan.stays h.downloader, hmail.trans hempty, (h.trust i hscan.turn).trans htrust,
        hspent.kept hkept⟩
  | granting i id w | tasking i id w =>
      obtain ⟨hscan, hempty, htrust, d, hw, hspent, hserving⟩ := hs
      exact ⟨hscan.stays h.downloader, hmail.trans hempty, (h.trust i hscan.turn).trans htrust, d, hw,
        hspent.kept hkept, hserving.kept (h.child d hserving.child) (hkept d) (hunwritten hscan)⟩
  | judging i id w =>
      obtain ⟨hscan, htrust, d, hw, hcase⟩ := hs
      refine ⟨hscan.stays h.downloader, (h.trust i hscan.turn).trans htrust, d, hw, ?_⟩
      rcases hcase with ⟨hempty, hspent, hserving⟩ | ⟨verdict, hone, hreported, hspent⟩
      · exact Or.inl ⟨hmail.trans hempty, hspent.kept hkept,
          hserving.kept (h.child d hserving.child) (hkept d) (hunwritten hscan)⟩
      · exact Or.inr ⟨verdict, hmail.trans hone, hreported.cons (hunwritten hscan),
          hspent.kept hkept⟩
  | rejecting i id =>
      obtain ⟨hscan, hempty, htrust, hspent, d, hjudged⟩ := hs
      exact ⟨hscan.stays h.downloader, hmail.trans hempty, (h.trust i hscan.turn).trans htrust,
        hspent.kept hkept, d, hjudged.cons (hunwritten hscan)⟩
  | promoting i id j =>
      obtain ⟨hscan, hempty, hj, htrust, hspent, d, hjudged⟩ := hs
      exact ⟨hscan.stays h.downloader, hmail.trans hempty, hj, (h.trust i hscan.turn).trans htrust,
        hspent.kept hkept, d, hjudged.cons (hunwritten hscan)⟩
  | reporting i id =>
      obtain ⟨hscan, hempty, hspent, d, verdict, hjudged, htrust⟩ := hs
      exact ⟨hscan.stays h.downloader, hmail.trans hempty, hspent.kept hkept, d, verdict,
        hjudged.cons (hunwritten hscan), (h.trust i hscan.turn).trans htrust⟩
  | acking i id =>
      obtain ⟨hscan, hempty, hspent⟩ := hs
      exact ⟨hscan.stays h.downloader, hmail.trans hempty, hspent.kept hkept⟩
  | exiting => trivial

/-- **A step that the pipeline does not notice keeps the invariant.** -/
theorem Unnoticed.pipeline (h : Unnoticed L t) (hs : Pipeline L tr t.pre) :
    Pipeline L (t :: tr) t.post := by
  refine ⟨fun pc hpc => ?_, fun hreader m hm => h.reports hs hreader hm⟩
  exact (hs.turn pc (h.scanner pc hpc)).unnoticed h (by rw [hpc]; rfl)

end Unnoticed

section Steps

variable {t : PipelineRecord D} {c d : Slot} {m : Message} {r : Request}

/-- The slot on a message. -/
theorem cInt_slot : ∀ c : Slot, cInt (BitVec.ofNat 64 c) = (c : Nat) := by decide

theorem StepOf.turnsOver_iff (h : StepOf L hal t c) (d : Slot) :
    TurnsOver L d t ↔ takenSlot L t.pre.kernel c t.event = some d := by
  simp only [TurnsOver, spawnedInto, Transition.map, h.current, Option.bind_some]

/-- The mailbox of somebody whose step it is not. -/
theorem StepOf.mail_other (h : StepOf L hal t c) (hd : d ≠ c)
    (htaken : takenSlot L t.pre.kernel c t.event ≠ some d) :
    t.post.mail d = t.pre.mail d ++ (acceptedBy (kernelRecord t) d).toList := by
  rcases h.queue d with ⟨hself, -⟩ | ⟨-, hqueue⟩
  · exact absurd hself htaken
  · rw [h.receivedBy_other hd] at hqueue
    exact hqueue

/-- The mailbox of somebody to whom the step sends nothing. -/
theorem StepOf.mail_same (h : StepOf L hal t c) (hd : d ≠ c)
    (htaken : takenSlot L t.pre.kernel c t.event ≠ some d)
    (hnone : acceptedBy (kernelRecord t) d = none) : t.post.mail d = t.pre.mail d := by
  rw [h.mail_other hd htaken, hnone]
  exact List.append_nil _

theorem StepOf.program_other (h : StepOf L hal t c) (hd : d ≠ c)
    (htaken : takenSlot L t.pre.kernel c t.event ≠ some d) :
    t.post.program d = t.pre.program d := by
  rw [h.program, nextProgram_other hd htaken]

theorem StepOf.live_before (h : StepOf L hal t c)
    (htaken : takenSlot L t.pre.kernel c t.event ≠ some d) (hlive : t.post.kernel.Live d) :
    t.pre.kernel.Live d :=
  (h.stepped.live h.live hlive).resolve_right htaken

/-- Whoever does not move and gets no mail from Scanner is left alone. -/
theorem StepOf.leftAlone (h : StepOf L hal t c) (hd : d ≠ c)
    (htaken : takenSlot L t.pre.kernel c t.event ≠ some d) (hlive : t.post.kernel.Live d)
    (hsender : c ≠ scannerHome ∨ acceptedBy (kernelRecord t) d = none) : LeftAlone L t d := by
  refine ⟨h.live_before htaken hlive, h.program_other hd htaken,
    fun hover => htaken ((h.turnsOver_iff d).mp hover),
    fun x hx hop => h.tables_kept hx hop htaken, fun m hm => ?_⟩
  rw [h.mail_other hd htaken] at hm
  rcases List.mem_append.mp hm with hold | hnew
  · exact Or.inl hold
  · right
    rw [Option.mem_toList] at hnew
    rcases hsender with hc | hnone
    · obtain ⟨-, -, call, -, -, rfl⟩ := h.accepted hnew
      dsimp only
      rw [cInt_slot]
      intro heq
      have hslot : ((c : Nat) : Int) = ((scannerHome : Nat) : Int) := heq
      exact hc (Fin.ext (by exact_mod_cast hslot))
    · rw [hnone] at hnew
      cases hnew

/-- Who writes one of the two objects is Downloader. -/
theorem Authority.writer (hs : Authority t.pre) (h : StepOf L hal t c) {j : Nat} (hj : j < 2)
    (hwrites : WritesObject (j : Nat) t) : (t.pre.program c).role = .downloader := by
  obtain ⟨c', call, hcur, -, -, hcap⟩ := hwrites
  rw [h.current, Option.some.injEq] at hcur
  subst hcur
  exact (hs.held c h.live _ hcap).writes rfl (by dsimp only; omega)

/-- Who sends to Downloader is Scanner. -/
theorem Authority.sendsDownloader (hs : Authority t.pre) (h : StepOf L hal t c)
    (hrole : (t.pre.program downloaderHome).role = .downloader)
    (hc : (t.pre.program c).role ≠ .scanner) :
    acceptedBy (kernelRecord t) downloaderHome = none := by
  cases hacc : acceptedBy (kernelRecord t) downloaderHome with
  | none => rfl
  | some m => exact absurd ((hs.held c h.live _ (h.accepted hacc).1).toDownloader rfl hrole) hc

/-- Who sends to Scanner is Downloader or an Inspector. -/
theorem Authority.sendsScanner (hs : Authority t.pre) (h : StepOf L hal t c)
    (hrole : (t.pre.program scannerHome).role = .scanner)
    (hdownloader : (t.pre.program c).role ≠ .downloader)
    (hinspector : (t.pre.program c).role ≠ .inspector) :
    acceptedBy (kernelRecord t) scannerHome = none := by
  cases hacc : acceptedBy (kernelRecord t) scannerHome with
  | none => rfl
  | some m =>
      rcases (hs.held c h.live _ (h.accepted hacc).1).toScanner rfl hrole with hbad | hbad
      · exact absurd hbad hdownloader
      · exact absurd hbad hinspector

/-- Who sends to Reader is Scanner. -/
theorem Authority.sendsReader (hs : Authority t.pre) (h : StepOf L hal t c)
    (hrole : (t.pre.program readerHome).role = .reader)
    (hc : (t.pre.program c).role ≠ .scanner) :
    acceptedBy (kernelRecord t) readerHome = none := by
  cases hacc : acceptedBy (kernelRecord t) readerHome with
  | none => rfl
  | some m => exact absurd ((hs.held c h.live _ (h.accepted hacc).1).toReader rfl hrole) hc

/-- Reader's mailbox only loses messages, if nobody sends to it. -/
theorem StepOf.readerMail (h : StepOf L hal t c)
    (hnone : (t.pre.program readerHome).role = .reader →
      acceptedBy (kernelRecord t) readerHome = none)
    (hrole : (t.post.program readerHome).role = .reader) :
    (t.pre.program readerHome).role = .reader ∧
      ∀ m ∈ t.post.mail readerHome, m ∈ t.pre.mail readerHome := by
  obtain ⟨htaken, hpre⟩ := h.role_held hrole (by simp) (by simp)
  refine ⟨hpre, fun m hm => ?_⟩
  rcases h.queue readerHome with ⟨hself, -⟩ | ⟨-, hqueue⟩
  · exact absurd hself htaken
  · rw [hnone hpre] at hqueue
    have hmem : m ∈ (receivedBy (kernelRecord t) readerHome).toList ++
        (t.post.kernel.actors readerHome).queue := List.mem_append_right _ hm
    rw [hqueue, Option.toList_none, List.append_nil] at hmem
    exact hmem

/-- A slot is turned over to nobody else than a child. -/
theorem StepOf.child (h : StepOf L hal t c) (d : Slot)
    (hd : (t.pre.program d).role.child = true) : (t.post.program d).role.child = true := by
  by_cases htaken : takenSlot L t.pre.kernel c t.event = some d
  · rcases h.role_taken htaken with ⟨hrole, -⟩ | ⟨hrole, -⟩
    · rw [hrole]
      rfl
    · rw [hrole]
      rfl
  · rwa [h.role_same htaken]

/-- Somebody else's step, for an occupant that is not a child. -/
theorem StepOf.home_other (h : StepOf L hal t c) {r : Role} (hr : (t.post.program d).role = r)
    (hchild : r.child = false) (hc : (t.pre.program c).role ≠ r) :
    d ≠ c ∧ takenSlot L t.pre.kernel c t.event ≠ some d ∧ (t.pre.program d).role = r := by
  have hne : r ≠ .other ∧ r ≠ .inspector := by
    constructor
    all_goals
      rintro rfl
      cases hchild
  obtain ⟨htaken, hpre⟩ := h.role_held hr hne.1 hne.2
  refine ⟨?_, htaken, hpre⟩
  rintro rfl
  exact hc hpre

/-- Somebody else's step that sends nothing to Downloader. -/
theorem StepOf.downloaderStays (h : StepOf L hal t c)
    (hdownloader : (t.pre.program c).role ≠ .downloader)
    (hnone : (t.pre.program downloaderHome).role = .downloader →
      acceptedBy (kernelRecord t) downloaderHome = none) : DownloaderStays t := by
  refine ⟨?_, fun hrole => ?_⟩
  · by_cases hrole : (t.post.program downloaderHome).role = .downloader
    · obtain ⟨hne, htaken, -⟩ := h.home_other hrole rfl hdownloader
      exact Or.inl (h.program_other hne htaken)
    · exact Or.inr hrole
  · obtain ⟨hne, htaken, hpre⟩ := h.home_other hrole rfl hdownloader
    exact h.mail_same hne htaken (hnone hpre)

/-- Steps of anybody but Downloader and Scanner. -/
theorem StepOf.backdrop (h : StepOf L hal t c) (hs : Authority t.pre)
    (hfoot : Footing t.pre.kernel) (hdownloader : (t.pre.program c).role ≠ .downloader)
    (hscanner : (t.pre.program c).role ≠ .scanner) : Backdrop t := by
  refine ⟨fun pc hpc => ?_, h.downloaderStays hdownloader fun hrole => ?_,
    h.readerMail (fun hrole => hs.sendsReader h hrole hscanner),
    fun j hj => h.trust_same hs hfoot hdownloader hscanner hj,
    fun j hj hwrites => hdownloader (hs.writer h hj hwrites)⟩
  · obtain ⟨hne, htaken, -⟩ := h.home_other (d := scannerHome) (by rw [hpc]; rfl) rfl hscanner
    rwa [h.program_other hne htaken] at hpc
  · exact hs.sendsDownloader h hrole hscanner

/-- The Inspectors, in a step of somebody else that is not Scanner. -/
theorem StepOf.inspectors (h : StepOf L hal t c) (hc : (t.pre.program c).role ≠ .scanner)
    (hscanner : (t.post.program scannerHome).role = .scanner) {pc : InspectorPc} (hd : d ≠ c)
    (hlive : t.post.kernel.Live d) (hprogram : t.post.program d = .inspector pc) :
    LeftAlone L t d := by
  have htaken : takenSlot L t.pre.kernel c t.event ≠ some d := by
    intro htaken
    rcases h.role_taken htaken with ⟨-, hbad⟩ | ⟨hbad, -⟩
    · exact hc hbad
    · rw [hprogram] at hbad
      cases hbad
  obtain ⟨hhere, -, -⟩ := h.home_other hscanner rfl hc
  exact h.leftAlone hd htaken hlive (Or.inl (Ne.symm hhere))

/-- **Actors outside the pipeline, and Reader,** go unnoticed. -/
theorem StepOf.unnoticed_of_outside (h : StepOf L hal t c) (hs : Authority t.pre)
    (hfoot : Footing t.pre.kernel) (hdownloader : (t.pre.program c).role ≠ .downloader)
    (hscanner : (t.pre.program c).role ≠ .scanner)
    (hinspector : (t.pre.program c).role ≠ .inspector) : Unnoticed L t := by
  refine ⟨h.backdrop hs hfoot hdownloader hscanner, fun hrole => ?_, h.child,
    fun hrole d pc hlive hprogram => ?_⟩
  · obtain ⟨hne, htaken, hpre⟩ := h.home_other hrole rfl hscanner
    exact h.mail_same hne htaken (hs.sendsScanner h hpre hdownloader hinspector)
  · refine h.inspectors hscanner hrole ?_ hlive hprogram
    rintro rfl
    by_cases htaken : takenSlot L t.pre.kernel d t.event = some d
    · exact h.taken_ne htaken rfl
    · rw [← h.role_same htaken, hprogram] at hinspector
      exact hinspector rfl

/-- The calls of a body that leave everything but their own actor alone. -/
def Syscall.calm : Syscall → Bool
  | .write | .exit | .receive => true
  | _ => false

/-- The step is none of the calls of a body that do something. -/
structure Calm (L : Layout) (t : PipelineRecord D) (c : Slot) : Prop where
  calls : ∀ sys call, IsCall t.event sys call → sys.calm = true
  msg : t.outcome.msg = none
  program : t.post.program c = t.pre.program c

theorem Syscall.calm_ne {sys other : Syscall} (h : sys.calm = true) (hother : other.calm = false) :
    sys ≠ other := by
  rintro rfl
  rw [h] at hother
  cases hother

theorem Calm.taken (hcalm : Calm L t c) : takenSlot L t.pre.kernel c t.event = none := by
  cases hevent : t.event with
  | syscall call =>
      cases hdecode : Syscall.decode call.num with
      | none => simp [takenSlot, hdecode]
      | some sys =>
          have hsys := hcalm.calls sys call ⟨hevent, hdecode⟩
          exact takenSlot_of_call ⟨rfl, hdecode⟩ (Syscall.calm_ne hsys rfl)
            (Syscall.calm_ne hsys rfl)
  | tick | resume | store | device | fault => rfl

theorem Calm.tables (h : StepOf L hal t c) (hcalm : Calm L t c) :
    t.post.kernel.tables = t.pre.kernel.tables := by
  have hnone : capChanges L t.pre.kernel c t.event = [] := by
    cases hevent : t.event with
    | syscall call =>
        cases hdecode : Syscall.decode call.num with
        | none => simp [capChanges, hdecode]
        | some sys =>
            have hsys := hcalm.calls sys call ⟨hevent, hdecode⟩
            exact capChanges_of_call ⟨rfl, hdecode⟩ (Syscall.calm_ne hsys rfl)
              (Syscall.calm_ne hsys rfl) (Syscall.calm_ne hsys rfl) (Syscall.calm_ne hsys rfl)
    | tick | resume | store | device | fault => rfl
  rw [h.stepped.tables h.live, hnone]
  rfl

theorem Calm.accepted (h : StepOf L hal t c) (hcalm : Calm L t c) (d : Slot) :
    acceptedBy (kernelRecord t) d = none := by
  cases hacc : acceptedBy (kernelRecord t) d with
  | none => rfl
  | some m =>
      obtain ⟨-, -, call, hcall, -⟩ := h.accepted hacc
      cases hcalm.calls _ call hcall

/-- **What a body does between its calls** goes unnoticed. -/
theorem StepOf.unnoticed_of_calm (h : StepOf L hal t c) (hcalm : Calm L t c) : Unnoticed L t := by
  have htaken : ∀ d, takenSlot L t.pre.kernel c t.event ≠ some d := by
    intro d htaken
    rw [hcalm.taken] at htaken
    cases htaken
  have hprogram : ∀ d, t.post.program d = t.pre.program d := by
    intro d
    by_cases hd : d = c
    · rw [hd]
      exact hcalm.program
    · exact h.program_other hd (htaken d)
  have hmail : ∀ d, t.post.mail d = t.pre.mail d := by
    intro d
    rcases h.queue d with ⟨hself, -⟩ | ⟨-, hqueue⟩
    · exact absurd hself (htaken d)
    · have hreceived : receivedBy (kernelRecord t) d = none := by
        by_cases hd : d = c
        · rw [hd, h.receivedBy_self, hcalm.msg]
        · exact h.receivedBy_other hd
      rw [hreceived, hcalm.accepted h d, Option.toList_none, List.append_nil] at hqueue
      exact hqueue
  refine ⟨⟨fun pc hpc => (hprogram scannerHome).symm.trans hpc,
    ⟨Or.inl (hprogram _), fun _ => hmail _⟩, fun hrole => ⟨?_, fun m hm => ?_⟩, fun j _ => ?_,
    fun j _ hwrites => ?_⟩, fun _ => hmail _, h.child, fun _ d pc hlive _ => ?_⟩
  · rwa [hprogram] at hrole
  · rwa [hmail] at hm
  · have hobjects := h.stepped.objects h.live fun sys call hcall => by
      have hsys := hcalm.calls sys call hcall
      cases sys <;> simp_all [Syscall.calm, Syscall.alters]
    rw [Kernel.trust, hobjects, Kernel.trust]
  · obtain ⟨c', call, -, hcall, -⟩ := hwrites
    cases hcalm.calls _ call hcall
  · refine ⟨h.live_before (htaken d) hlive, hprogram d,
      fun hover => htaken d ((h.turnsOver_iff d).mp hover),
      fun x hx hop => h.tables_kept hx hop (htaken d), fun m hm => Or.inl ?_⟩
    rwa [hmail] at hm

/-- Of the calls of a body, only a receive that blocks and an exit do not return. -/
theorem StepOf.returned (h : StepOf L hal t c) (hr : (t.pre.program c).request = some r)
    (hret : t.outcome.ret = none) {sys : Syscall} {call : Call} (hcall : IsCall t.event sys call) :
    sys.calm = true := by
  rcases h.call hr hcall with rfl | ⟨rfl, -⟩
  · rfl
  · have hresult := congrArg (fun r => (r.2 : Outcome).ret) (h.dispatch hcall)
    dsimp only at hresult
    rw [hret] at hresult
    cases r with
    | receive | exit => rfl
    | send | grant | spawn => cases hresult
    | objectRead =>
        simp only [SysResult.finish, Request.syscall, syscallDispatch, guarded, sysObjectRead]
          at hresult
        split at hresult
        · split at hresult <;> cases hresult
        · cases hresult
    | objectWrite | objectPromote | objectReject =>
        simp only [SysResult.finish, Request.syscall, syscallDispatch, guarded] at hresult
        split at hresult <;> cases hresult

/-- **A step of a body** is its next call, or leaves everything else alone. -/
theorem StepOf.body (h : StepOf L hal t c) (hr : (t.pre.program c).request = some r) :
    Calm L t c ∨ ∃ ret, t.outcome.ret = some ret ∧ Made t r ∧
      t.post.program c = (t.pre.program c).answer t.event t.outcome ret := by
  rcases h.program_self hr with ⟨hquiet, hsame⟩ | hmade
  swap
  · exact Or.inr hmade
  refine Or.inl ⟨fun sys call hcall => ?_, ?_, hsame⟩
  · rcases hquiet with hret | hprint
    · exact h.returned hr hret hcall
    · rw [hcall.1, Event.calls, hcall.2] at hprint
      have hsys : sys = .write := by simpa using hprint
      rw [hsys]
      rfl
  · cases hmsg : t.outcome.msg with
    | none => rfl
    | some m =>
        obtain ⟨hret, hevent⟩ := h.stepped.msg hmsg
        rcases hquiet with hnone | hprint
        · rw [hnone] at hret
          cases hret
        · rcases hevent with ⟨call, hcall⟩ | hresume
          · rw [hcall.1, Event.calls, hcall.2] at hprint
            simp at hprint
          · rw [hresume] at hprint
            cases hprint

end Steps

end Vajra
