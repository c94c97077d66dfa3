import Vajra.QuarantineBoot
import Vajra.ReadYourWrites

/-!
# Who can interfere with the pipeline

Three mailboxes and the grades of two objects make up the pipeline.  The grants of
`kernel_main` leave each of them to the actors that are meant to have it, and since a
capability is only ever copied by an actor that holds it, this stays so while the slots are
held by the actors `kernel_main` put there (`Authority`).  A slot that has been turned over is
no part of the pipeline any more: what runs there then is a child, and no child is a
Downloader, a Scanner or a Reader.
-/

namespace Vajra

open EntryTables TransitionTrace

variable {D : Type} {L : Layout} {hal : Hal D} {b : Boot D}

def downloaderHome : Slot := ⟨8, by decide⟩
def scannerHome : Slot := ⟨9, by decide⟩
def readerHome : Slot := ⟨10, by decide⟩

/-- What an occupant is to the pipeline. -/
inductive Role where
  | other
  | downloader
  | inspector
  | scanner
  | reader
  deriving DecidableEq

def Program.role : Program → Role
  | .other | .sender | .shell _ => .other
  | .downloader _ => .downloader
  | .inspector _ => .inspector
  | .scanner _ => .scanner
  | .reader _ => .reader

theorem Program.answer_role (p : Program) (e : Event D) (o : Outcome) (ret : Word) :
    (p.answer e o ret).role = p.role := by
  cases p with
  | sender =>
      rw [answer]
      split <;> rfl
  | shell spawned =>
      rw [answer]
      split
      · rfl
      · split <;> rfl
  | other | downloader | inspector | scanner | reader => rfl

theorem Program.after_role (p : Program) (e : Event D) (o : Outcome) :
    (p.after e o).role = p.role := by
  unfold after
  split
  · rfl
  · split
    · rfl
    · exact p.answer_role e o _

theorem Program.child_role (p : Program) :
    (p.child.role = .inspector ∧ p.role = .scanner) ∨
      (p.child.role = .other ∧ p.role ≠ .scanner) := by
  cases p with
  | scanner => exact Or.inl ⟨rfl, rfl⟩
  | other | sender | shell | downloader | inspector | reader =>
      exact Or.inr ⟨rfl, by simp [Program.role]⟩

section Roles

variable {t : PipelineRecord D} {c d : Slot}

/-- An occupant stays what it is. -/
theorem StepOf.role_same (h : StepOf L hal t c)
    (htaken : takenSlot L t.pre.kernel c t.event ≠ some d) :
    (t.post.program d).role = (t.pre.program d).role := by
  rw [h.program]
  by_cases hd : d = c
  · subst hd
    rw [nextProgram_self htaken]
    exact Program.after_role _ _ _
  · rw [nextProgram_other hd htaken]

/-- A slot that is turned over is out of the pipeline, or an Inspector's. -/
theorem StepOf.role_taken (h : StepOf L hal t c)
    (htaken : takenSlot L t.pre.kernel c t.event = some d) :
    ((t.post.program d).role = .inspector ∧ (t.pre.program c).role = .scanner) ∨
      ((t.post.program d).role = .other ∧ (t.pre.program c).role ≠ .scanner) := by
  rw [h.program, nextProgram_taken htaken]
  exact Program.child_role _

/-- The three roles that `kernel_main` gives are never given again. -/
theorem StepOf.role_held (h : StepOf L hal t c) {r : Role} (hr : (t.post.program d).role = r)
    (hother : r ≠ .other) (hinspector : r ≠ .inspector) :
    takenSlot L t.pre.kernel c t.event ≠ some d ∧ (t.pre.program d).role = r := by
  have htaken : takenSlot L t.pre.kernel c t.event ≠ some d := by
    intro htaken
    rcases h.role_taken htaken with ⟨hrole, _⟩ | ⟨hrole, _⟩
    · exact hinspector (hr.symm.trans hrole)
    · exact hother (hr.symm.trans hrole)
  exact ⟨htaken, (h.role_same htaken).symm.trans hr⟩

end Roles

/-- What an occupant of this role may hold. -/
structure MayHold (program : Slot → Program) (role : Role) (x : Capability) : Prop where
  toDownloader : x = ⟨capSend, downloaderSlot⟩ → (program downloaderHome).role = .downloader →
    role = .scanner
  toScanner : x = ⟨capSend, scannerSlot⟩ → (program scannerHome).role = .scanner →
    role = .downloader ∨ role = .inspector
  toReader : x = ⟨capSend, readerSlot⟩ → (program readerHome).role = .reader → role = .scanner
  writes : x.op = capWriteObject → x.target < 2 → role = .downloader
  grades : x.op = capPromoteObject → role = .scanner

/-- What `kernel_main` has given the three and they have kept. -/
def dowry : Role → List Capability
  | .downloader => [⟨capWriteObject, payloadObjectId⟩, ⟨capWriteObject, suspiciousObjectId⟩]
  | .scanner =>
      [⟨capPromoteObject, 0⟩, ⟨capReadObject, payloadObjectId⟩,
       ⟨capReadObject, suspiciousObjectId⟩]
  | _ => []

/-- The invariant. -/
structure Authority (s : PipelineState D) : Prop where
  downloader : ∀ d, (s.program d).role = .downloader → d = downloaderHome
  scanner : ∀ d, (s.program d).role = .scanner → d = scannerHome
  reader : ∀ d, (s.program d).role = .reader → d = readerHome
  held : ∀ d, s.kernel.Live d → ∀ x ∈ s.kernel.tables d, MayHold s.program (s.program d).role x
  kept : ∀ d, ∀ x ∈ dowry (s.program d).role, x ∈ s.kernel.tables d

/-- A pair with another right. -/
theorem MayHold.of_other {program : Slot → Program} {role : Role} {x : Capability}
    (hsend : x.op ≠ capSend) (hwrite : x.op ≠ capWriteObject) (hpromote : x.op ≠ capPromoteObject) :
    MayHold program role x :=
  ⟨fun h => absurd (congrArg Capability.op h) hsend, fun h => absurd (congrArg Capability.op h) hsend,
    fun h => absurd (congrArg Capability.op h) hsend, fun h => absurd h hwrite,
    fun h => absurd h hpromote⟩

/-- A right to send, by what runs in the slot. -/
theorem MayHold.of_send {program : Slot → Program} {role : Role} {j : Slot}
    (hdownloader : (program j).role = .downloader → role = .scanner)
    (hscanner : (program j).role = .scanner → role = .downloader ∨ role = .inspector)
    (hreader : (program j).role = .reader → role = .scanner) :
    MayHold program role ⟨capSend, (j : Nat)⟩ := by
  have hslot : ∀ {k : Slot}, (⟨capSend, ((j : Nat) : Int)⟩ : Capability) = ⟨capSend, ((k : Nat) : Int)⟩ →
      j = k := by
    intro k heq
    have htarget : ((j : Nat) : Int) = ((k : Nat) : Int) := congrArg Capability.target heq
    exact Fin.ext (by exact_mod_cast htarget)
  refine ⟨fun hx hrole => ?_, fun hx hrole => ?_, fun hx hrole => ?_, fun hop => ?_, fun hop => ?_⟩
  · rw [← hslot (k := downloaderHome) hx] at hrole
    exact hdownloader hrole
  · rw [← hslot (k := scannerHome) hx] at hrole
    exact hscanner hrole
  · rw [← hslot (k := readerHome) hx] at hrole
    exact hreader hrole
  · exact absurd hop (by dsimp only; decide)
  · exact absurd hop (by dsimp only; decide)

/-- What somebody outside the pipeline holds, anybody may hold. -/
theorem MayHold.of_outside {program : Slot → Program} {x : Capability}
    (h : MayHold program .other x) (role : Role) : MayHold program role x := by
  refine ⟨fun hx hrole => ?_, fun hx hrole => ?_, fun hx hrole => ?_, fun hop htarget => ?_,
    fun hop => ?_⟩
  · cases h.toDownloader hx hrole
  · rcases h.toScanner hx hrole with hother | hother <;> cases hother
  · cases h.toReader hx hrole
  · cases h.writes hop htarget
  · cases h.grades hop

/-- A slot that is turned over takes nobody's right away. -/
theorem MayHold.mono {program program' : Slot → Program} {role : Role} {x : Capability}
    (h : MayHold program role x)
    (hsame : ∀ d r, (program' d).role = r → r ≠ .other → r ≠ .inspector → (program d).role = r) :
    MayHold program' role x := by
  refine ⟨fun hx hrole => ?_, fun hx hrole => ?_, fun hx hrole => ?_, h.writes, h.grades⟩
  · exact h.toDownloader hx (hsame _ _ hrole (by simp) (by simp))
  · exact h.toScanner hx (hsame _ _ hrole (by simp) (by simp))
  · exact h.toReader hx (hsame _ _ hrole (by simp) (by simp))

theorem slotProgram_homes : ∀ d : Slot,
    ((slotProgram d).role = .downloader → d = downloaderHome) ∧
    ((slotProgram d).role = .scanner → d = scannerHome) ∧
    ((slotProgram d).role = .reader → d = readerHome) := by
  decide

/-- What the grants of `kernel_main` give to whom. -/
theorem grantedTables_role : ∀ d : Slot, ∀ x ∈ grantedTables d,
    (x = ⟨capSend, downloaderSlot⟩ → (slotProgram d).role = .scanner) ∧
    (x = ⟨capSend, scannerSlot⟩ → (slotProgram d).role = .downloader) ∧
    (x = ⟨capSend, readerSlot⟩ → (slotProgram d).role = .scanner) ∧
    (x.op = capWriteObject → (slotProgram d).role = .downloader) ∧
    (x.op = capPromoteObject → (slotProgram d).role = .scanner) := by
  decide +kernel

theorem dowry_granted : ∀ d : Slot, ∀ x ∈ dowry (slotProgram d).role, x ∈ grantedTables d := by
  decide +kernel

theorem Authority.boot (L : Layout) (b : Boot D) : Authority (pipelineBoot L b) := by
  have hkernel : (pipelineBoot L b).kernel = bootState L b := by rw [pipelineBoot]
  -- A slot that was not loaded has no role.
  have hrole : ∀ d r, ((pipelineBoot L b).program d).role = r → r ≠ .other →
      (slotProgram d).role = r := by
    intro d r hr hother
    rcases pipelineBoot_program_cases L b d with heq | heq <;> rw [heq] at hr
    · exact hr
    · exact absurd hr.symm hother
  refine ⟨fun d hd => ?_, fun d hd => ?_, fun d hd => ?_, fun d hlive x hx => ?_, fun d x hx => ?_⟩
  · exact (slotProgram_homes d).1 (hrole d _ hd (by simp))
  · exact (slotProgram_homes d).2.1 (hrole d _ hd (by simp))
  · exact (slotProgram_homes d).2.2 (hrole d _ hd (by simp))
  · rw [hkernel] at hlive hx
    rw [bootState_tables] at hx
    have hloaded : (pipelineBoot L b).program d = slotProgram d := by
      rw [pipelineBoot_program, if_pos hlive]
    obtain ⟨hdownloader, hscanner, hreader, hwrites, hgrades⟩ := grantedTables_role d x hx
    rw [hloaded]
    exact ⟨fun h _ => hdownloader h, fun h _ => Or.inl (hscanner h), fun h _ => hreader h,
      fun h _ => hwrites h, hgrades⟩
  · rw [hkernel, bootState_tables]
    by_cases hother : ((pipelineBoot L b).program d).role = .other
    · rw [hother] at hx
      cases hx
    · rw [← hrole d _ rfl hother] at hx
      exact dowry_granted d x hx

section Keeping

variable {t : PipelineRecord D} {c d : Slot} {x : Capability}

/-- A table is blanked when its slot is turned over. -/
theorem StepOf.clear_mem (h : StepOf L hal t c) (d : Slot) :
    Change.clear d ∈ capChanges L t.pre.kernel c t.event ↔
      takenSlot L t.pre.kernel c t.event = some d := by
  have hiff := clear_mem_recordChanges L (kernelRecord t) d
  simpa only [recordChanges, spawnedInto, Transition.map, h.current, Option.bind_some] using hiff

/-- What is in a table after a step. -/
theorem StepOf.mem_tables (h : StepOf L hal t c) (hx : x ∈ t.post.kernel.tables d) :
    (x ∈ t.pre.kernel.tables d ∧ takenSlot L t.pre.kernel c t.event ≠ some d) ∨ x.op = 0 ∨
      Change.put d x ∈ capChanges L t.pre.kernel c t.event := by
  rw [h.stepped.tables h.live] at hx
  rcases mem_applyAll hx with ⟨hmem, hclear⟩ | hblank | hput
  · exact Or.inl ⟨hmem, fun htaken => hclear ((h.clear_mem d).mpr htaken)⟩
  · exact Or.inr (Or.inl (op_of_mem_blankTable hblank))
  · exact Or.inr (Or.inr hput)

/-- What an occupant holds it keeps. -/
theorem StepOf.tables_kept (h : StepOf L hal t c) (hx : x ∈ t.pre.kernel.tables d)
    (hop : x.op ≠ 0) (htaken : takenSlot L t.pre.kernel c t.event ≠ some d) :
    x ∈ t.post.kernel.tables d := by
  rw [h.stepped.tables h.live]
  refine mem_applyAll_of_mem hx ?_ fun hclear => htaken ((h.clear_mem d).mp hclear)
  simpa [Capability.vacant] using hop

/-- A grant by a body of the pipeline passes a right to read on. -/
theorem StepOf.grant_reads (h : StepOf L hal t c) {call : Call} (hcall : IsCall t.event .grant call)
    (hrole : (t.pre.program c).role ≠ .other) : cInt call.a2 = capReadObject := by
  have hrequest : ∀ {r : Request}, (t.pre.program c).request = some r →
      r.syscall = .grant ∧ r.Matches call := by
    intro r hr
    rcases h.call hr hcall with hwrite | ⟨hsys, hmatch⟩
    · cases hwrite
    · exact ⟨hsys.symm, hmatch⟩
  cases hp : t.pre.program c with
  | other | sender | shell => exact absurd (by rw [hp]; rfl) hrole
  | downloader pc =>
      obtain ⟨hsys, -⟩ := hrequest (r := pc.request) (by rw [hp]; rfl)
      cases pc <;> cases hsys
  | inspector pc =>
      obtain ⟨hsys, -⟩ := hrequest (r := pc.request) (by rw [hp]; rfl)
      cases pc <;> cases hsys
  | reader pc =>
      obtain ⟨hsys, -⟩ := hrequest (r := pc.request) (by rw [hp]; rfl)
      cases pc <;> cases hsys
  | scanner pc =>
      obtain ⟨hsys, hmatch⟩ := hrequest (r := pc.request) (by rw [hp]; rfl)
      cases pc with
      | granting i id w => exact hmatch.2.2.1
      | _ => cases hsys

/-- Of the bodies only Scanner's spawns. -/
theorem StepOf.spawner (h : StepOf L hal t c)
    (htaken : takenSlot L t.pre.kernel c t.event = some d) :
    (t.pre.program c).role = .scanner ∨ (t.pre.program c).role = .other := by
  have hrequest : ∀ {r : Request}, (t.pre.program c).request = some r → r.syscall = .spawn := by
    intro r hr
    by_contra hne
    rw [h.taken_none hr hne] at htaken
    cases htaken
  cases hp : t.pre.program c with
  | other | sender | shell => exact Or.inr rfl
  | downloader pc =>
      have hsys := hrequest (r := pc.request) (by rw [hp]; rfl)
      cases pc <;> cases hsys
  | inspector pc =>
      have hsys := hrequest (r := pc.request) (by rw [hp]; rfl)
      cases pc <;> cases hsys
  | reader pc =>
      have hsys := hrequest (r := pc.request) (by rw [hp]; rfl)
      cases pc <;> cases hsys
  | scanner pc => exact Or.inl rfl

/-- What a spawn puts in the two tables. -/
theorem StepOf.spawn_held {i : Slot} (h : StepOf L hal t c)
    (htaken : takenSlot L t.pre.kernel c t.event = some i)
    (hpair : (d = c ∧ (x = ⟨capSend, (i : Nat)⟩ ∨ x = ⟨capTerminate, (i : Nat)⟩)) ∨
      (d = i ∧ x = ⟨capSend, (c : Nat)⟩)) :
    MayHold t.post.program (t.post.program d).role x := by
  rcases hpair with ⟨rfl, rfl | rfl⟩ | ⟨rfl, rfl⟩
  · -- The spawner may address its child, who is none of the three.
    have hchild : (t.post.program i).role = .inspector ∨ (t.post.program i).role = .other := by
      rcases h.role_taken htaken with ⟨hrole, -⟩ | ⟨hrole, -⟩
      · exact Or.inl hrole
      · exact Or.inr hrole
    refine MayHold.of_send (fun hrole => ?_) (fun hrole => ?_) (fun hrole => ?_)
    all_goals rcases hchild with hbad | hbad <;> cases hrole.symm.trans hbad
  · exact MayHold.of_other (by dsimp only; decide) (by dsimp only; decide) (by dsimp only; decide)
  · -- The child may address its spawner: an Inspector Scanner, and nobody else one of the three.
    have hspawner := h.spawner htaken
    rw [← h.role_same fun hself => h.taken_ne hself rfl] at hspawner
    refine MayHold.of_send (fun hrole => ?_) (fun hrole => ?_) (fun hrole => ?_)
    · rcases hspawner with hbad | hbad <;> cases hrole.symm.trans hbad
    · rw [h.role_same fun hself => h.taken_ne hself rfl] at hrole
      rcases h.role_taken htaken with ⟨hinspector, -⟩ | ⟨-, hnot⟩
      · exact Or.inr hinspector
      · exact absurd hrole hnot
    · rcases hspawner with hbad | hbad <;> cases hrole.symm.trans hbad

/-- **Nobody gains what the pipeline has to itself.** -/
theorem Authority.step (hs : Authority t.pre) (h : StepOf L hal t c)
    (hstore : BootStore 3 t.pre.kernel.store) : Authority t.post := by
  have hsame : ∀ d r, (t.post.program d).role = r → r ≠ .other → r ≠ .inspector →
      (t.pre.program d).role = r := fun d r hr hother hinspector =>
    (h.role_held hr hother hinspector).2
  refine ⟨fun d hd => ?_, fun d hd => ?_, fun d hd => ?_, fun d hlive x hx => ?_, fun d x hx => ?_⟩
  · exact hs.downloader d (hsame d _ hd (by simp) (by simp))
  · exact hs.scanner d (hsame d _ hd (by simp) (by simp))
  · exact hs.reader d (hsame d _ hd (by simp) (by simp))
  · rcases h.mem_tables hx with ⟨hold, htaken⟩ | hblank | hput
    · have hlive' : t.pre.kernel.Live d := (h.stepped.live h.live hlive).resolve_right htaken
      rw [h.role_same htaken]
      exact (hs.held d hlive' x hold).mono hsame
    · refine MayHold.of_other ?_ ?_ ?_
      all_goals
        rw [hblank]
        decide
    · rcases put_mem_capChanges h.live hput with
        ⟨call, hcall, hx, hheld⟩ | ⟨i, htaken, hpair⟩ | ⟨-, hop, name, htarget, hpos⟩
      · by_cases hrole : (t.pre.program c).role = .other
        · have hmay := hs.held c h.live x hheld
          rw [hrole] at hmay
          exact (hmay.of_outside _).mono hsame
        · have hread := h.grant_reads hcall hrole
          refine MayHold.of_other ?_ ?_ ?_
          all_goals
            rw [hx]
            dsimp only
            rw [hread]
            decide
      · exact h.spawn_held htaken hpair
      · have hbehind : 3 ≤ x.target := by
          rw [htarget] at hpos ⊢
          exact hstore.created_behind hpos
        refine ⟨fun hx => ?_, fun hx => ?_, fun hx => ?_, fun _ hlt => ?_, fun hx => ?_⟩
        · rw [hx] at hop
          exact absurd hop (by decide)
        · rw [hx] at hop
          exact absurd hop (by decide)
        · rw [hx] at hop
          exact absurd hop (by decide)
        · omega
        · rw [hx] at hop
          exact absurd hop (by decide)
  · have hrole : (t.post.program d).role ≠ .other ∧ (t.post.program d).role ≠ .inspector := by
      constructor
      all_goals
        intro hr
        rw [hr] at hx
        cases hx
    obtain ⟨htaken, hr⟩ := h.role_held rfl hrole.1 hrole.2
    have hop : x.op ≠ 0 := by
      cases hpost : (t.post.program d).role with
      | other | inspector | reader => simp [hpost, dowry] at hx
      | downloader | scanner =>
          rw [hpost] at hx
          simp only [dowry, List.mem_cons, List.not_mem_nil, or_false] at hx
          rcases hx with rfl | rfl | rfl
          all_goals
            dsimp only
            decide
    rw [← hr] at hx
    exact h.tables_kept (hs.kept d x hx) hop htaken

end Keeping

end Vajra
