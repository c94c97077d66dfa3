import Vajra.AtaDriver

/-!
# The driver implements the disk of the store

The store asks for sectors and is told that a request succeeded or failed.  `disk_refines` relates
the two levels over whole sequences of requests: whatever the drive does, as long as it is in time and
keeps the last sector of each write, there is a choice of outcomes for which `Disk` gives the same
answers and ends with the same sectors.
-/

namespace Vajra

/-- A call of `hal_disk_read` or `hal_disk_write`, with the caller's buffer. -/
inductive DiskRequest where
  | read (lba count : Nat) (buf : Nat → UInt8)
  | write (lba count : Nat) (buf : Nat → UInt8)

def DiskRequest.lba : DiskRequest → Nat
  | .read lba _ _ | .write lba _ _ => lba

/-- What the caller sees: the bytes it asked for, a zero, or a failure. -/
inductive DiskReply where
  | data (bytes : List UInt8)
  | done
  | failed

/-- A request to the driver. -/
def driveServes (d : Drive) : DiskRequest → Drive × DiskReply
  | .read lba count buf =>
      let r := halDiskReadPio d lba count buf
      (r.1, if r.2.2 = 0 then .data ((List.range (512 * count)).map r.2.1) else .failed)
  | .write lba count buf =>
      let r := halDiskWritePio d lba count buf
      (r.1, if r.2 = 0 then .done else .failed)

/-- The same request to the disk of the store. -/
def diskServes (d : Disk) : DiskRequest → Disk × DiskReply
  | .read lba count _ =>
      match halDiskRead d lba count with
      | (d, some bytes) => (d, .data ((List.range (512 * count)).map bytes))
      | (d, none) => (d, .failed)
  | .write lba count buf =>
      let r := halDiskWrite d lba count buf
      (r.1, if r.2 = 0 then .done else .failed)

/-- Requests one after the other. -/
def serveAll {δ : Type} (serve : δ → DiskRequest → δ × DiskReply) (d : δ) :
    List DiskRequest → δ × List DiskReply
  | [] => (d, [])
  | r :: rs => ((serveAll serve (serve d r).1 rs).1, (serve d r).2 :: (serveAll serve (serve d r).1 rs).2)

/-- The drive does not fail the last sector of the write. -/
def KeepsLast (d : Drive) : DiskRequest → Prop
  | .read _ _ _ => True
  | .write _ count _ => d.fails (d.served + count) = false

/-- It does not for any write of a sequence. -/
def LastSectorsKept : Drive → List DiskRequest → Prop
  | _, [] => True
  | d, r :: rs => KeepsLast d r ∧ LastSectorsKept (driveServes d r).1 rs

/-- The same sectors. -/
def SameSectors (d : Drive) (sector : Nat → Nat → UInt8) : Prop :=
  ∀ s, ∀ i < 512, sector s i = d.media s i

/-- What one request has to do with the disk of the store, when the outcome is `o`. -/
structure Agrees (d : Drive) (disk : Disk) (r : DiskRequest) (used : Nat) : Prop where
  reply : (diskServes disk r).2 = (driveServes d r).2
  sectors : SameSectors (driveServes d r).1 (diskServes disk r).1.sector
  requests : (diskServes disk r).1.requests = disk.requests + used
  outcome : (diskServes disk r).1.outcome = disk.outcome

/-- A count that the driver refuses leaves the drive alone. -/
theorem driveServes_refused (d : Drive) (lba : Nat) {count : Nat} (hbad : count = 0 ∨ 255 < count)
    (buf : Nat → UInt8) :
    driveServes d (.read lba count buf) = (d, .failed) ∧
      driveServes d (.write lba count buf) = (d, .failed) := by
  have hminus : (-1 : Int) ≠ 0 := by decide
  have hsetup : ∀ cmd, ataSetup d lba count cmd = (d, -1) := fun cmd => if_pos hbad
  have hread : halDiskReadPio d lba count buf = (d, buf, -1) := by
    rw [halDiskReadPio, hsetup]
    simp only [if_pos hminus]
  have hwrite : halDiskWritePio d lba count buf = (d, -1) := by
    rw [halDiskWritePio_eq, hsetup]
    simp only [if_pos hminus]
  simp only [driveServes, hread, hwrite, if_neg hminus, and_self]

/-- The disk of the store refuses the same counts. -/
theorem diskServes_refused (disk : Disk) (lba : Nat) {count : Nat} (hbad : count = 0 ∨ 255 < count)
    (buf : Nat → UInt8) :
    diskServes disk (.read lba count buf) = (disk, .failed) ∧
      diskServes disk (.write lba count buf) = (disk, .failed) := by
  have hminus : (-1 : Int) ≠ 0 := by decide
  simp only [diskServes, halDiskRead, halDiskWrite, if_pos hbad, if_neg hminus, and_self]

theorem agrees_failed {d : Drive} {disk : Disk} {r : DiskRequest} (hd : driveServes d r = (d, .failed))
    (hdisk : diskServes disk r = (disk, .failed)) (hsame : SameSectors d disk.sector) :
    Agrees d disk r 0 := by
  refine ⟨?_, ?_, ?_, ?_⟩
  · rw [hd, hdisk]
  · rw [hd, hdisk]
    exact hsame
  · rw [hdisk, Nat.add_zero]
  · rw [hdisk]

/-- A read: the outcome says whether every sector came. -/
theorem agrees_read {d : Drive} (hidle : d.Idle) {lba count : Nat} (hlba : lba < 2 ^ 28)
    (hpos : 0 < count) (hmax : count ≤ 255) (buf : Nat → UInt8) :
    ∃ o, (∀ disk : Disk, SameSectors d disk.sector → disk.outcome disk.requests = o →
      Agrees d disk (.read lba count buf) 1) ∧ Requested d (driveServes d (.read lba count buf)).1 := by
  obtain ⟨-, -, hbytes, hmedia, hreq⟩ :=
    halDiskReadPio_spec hidle lba hpos hmax buf (r := halDiskReadPio d lba count buf) rfl
  rw [Nat.mod_eq_of_lt hlba] at hbytes
  have hgood : ¬ (count = 0 ∨ 255 < count) := by omega
  have hsectors : ∀ disk : Disk, SameSectors d disk.sector →
      SameSectors (driveServes d (.read lba count buf)).1 disk.sector := by
    intro disk hsame s i hi
    rw [driveServes, hmedia]
    exact hsame s i hi
  by_cases hrc : (halDiskReadPio d lba count buf).2.2 = 0
  · refine ⟨.ok, fun disk hsame ho => ?_, hreq⟩
    have hserved : diskServes disk (.read lba count buf) =
        ({ disk with requests := disk.requests + 1 },
          .data ((List.range (512 * count)).map (disk.bytes lba))) := by
      simp only [diskServes, halDiskRead, if_neg hgood, ho]
    refine ⟨?_, ?_, ?_, ?_⟩
    · rw [hserved]
      simp only [driveServes, if_pos hrc, hbytes hrc, DiskReply.data.injEq, List.map_inj_left,
        List.mem_range]
      intro x hx
      have hmod : x % 512 < 512 := Nat.mod_lt _ (by decide)
      simp only [patch, Drive.bytes, Disk.bytes, Nat.zero_le, Nat.zero_add, Nat.sub_zero, hx, and_self,
        if_true]
      exact hsame _ _ hmod
    · rw [hserved]
      exact hsectors disk hsame
    · rw [hserved]
    · rw [hserved]
  · refine ⟨.fail 0, fun disk hsame ho => ?_, hreq⟩
    have hserved : diskServes disk (.read lba count buf) =
        ({ disk with requests := disk.requests + 1 }, .failed) := by
      simp only [diskServes, halDiskRead, if_neg hgood, ho]
    refine ⟨?_, ?_, ?_, ?_⟩
    · rw [hserved, driveServes]
      simp only [if_neg hrc]
    · rw [hserved]
      exact hsectors disk hsame
    · rw [hserved]
    · rw [hserved]

/-- A write: the outcome says how many sectors are on the disk. -/
theorem agrees_write {d : Drive} (hidle : d.Idle) {lba count : Nat} (hlba : lba < 2 ^ 28)
    (hpos : 0 < count) (hmax : count ≤ 255) (buf : Nat → UInt8)
    (hkeep : KeepsLast d (.write lba count buf)) :
    ∃ o, (∀ disk : Disk, SameSectors d disk.sector → disk.outcome disk.requests = o →
      Agrees d disk (.write lba count buf) 1) ∧ Requested d (driveServes d (.write lba count buf)).1 := by
  obtain ⟨-, -, ⟨n, hn, hwritten, hall⟩, hreq⟩ :=
    halDiskWritePio_spec hidle lba hpos hmax buf (r := halDiskWritePio d lba count buf) rfl
  rw [Nat.mod_eq_of_lt hlba] at hwritten
  have hgood : ¬ (count = 0 ∨ 255 < count) := by omega
  have hsectors : ∀ disk : Disk, SameSectors d disk.sector →
      SameSectors (driveServes d (.write lba count buf)).1 (disk.put lba n buf) := by
    intro disk hsame s i hi
    rw [driveServes, hwritten s i hi, Disk.put, Nat.zero_add, hsame s i hi]
  by_cases hrc : (halDiskWritePio d lba count buf).2 = 0
  · -- The caller is told that all is well, so nothing may be missing from the disk.
    have hfull : n = count := by
      rw [hall hrc, if_neg]
      rw [show d.fails (d.served + count) = false from hkeep]
      decide
    subst hfull
    refine ⟨.ok, fun disk hsame ho => ?_, hreq⟩
    have hserved : diskServes disk (.write lba n buf) =
        ({ disk with sector := disk.put lba n buf, requests := disk.requests + 1 }, .done) := by
      simp only [diskServes, halDiskWrite, if_neg hgood, ho, if_true]
    refine ⟨?_, ?_, ?_, ?_⟩
    · rw [hserved, driveServes]
      simp only [if_pos hrc]
    · rw [hserved]
      exact hsectors disk hsame
    · rw [hserved]
    · rw [hserved]
  · refine ⟨.fail n, fun disk hsame ho => ?_, hreq⟩
    have hserved : diskServes disk (.write lba count buf) =
        ({ disk with sector := disk.put lba n buf, requests := disk.requests + 1 }, .failed) := by
      simp only [diskServes, halDiskWrite, if_neg hgood, ho, Nat.min_eq_left hn]
      rfl
    refine ⟨?_, ?_, ?_, ?_⟩
    · rw [hserved, driveServes]
      simp only [if_neg hrc]
    · rw [hserved]
      exact hsectors disk hsame
    · rw [hserved]
    · rw [hserved]

theorem requested_refl {d : Drive} (hidle : d.Idle) : Requested d d := ⟨⟨rfl, rfl⟩, fun _ => hidle⟩

/-- One request.  A valid one takes the next outcome, a refused one takes none. -/
theorem agrees_request {d : Drive} (hidle : d.Idle) {r : DiskRequest} (hlba : r.lba < 2 ^ 28)
    (hkeep : KeepsLast d r) :
    Requested d (driveServes d r).1 ∧
      ((∀ disk : Disk, SameSectors d disk.sector → Agrees d disk r 0) ∨
        ∃ o, ∀ disk : Disk, SameSectors d disk.sector → disk.outcome disk.requests = o →
          Agrees d disk r 1) := by
  cases r with
  | read lba count buf =>
      have hlba' : lba < 2 ^ 28 := hlba
      by_cases hbad : count = 0 ∨ 255 < count
      · have hd := (driveServes_refused d lba hbad buf).1
        rw [hd]
        exact ⟨requested_refl hidle, .inl fun disk => agrees_failed hd (diskServes_refused disk lba hbad buf).1⟩
      · have hpos : 0 < count := by omega
        have hmax : count ≤ 255 := by omega
        obtain ⟨o, ho, hreq⟩ := agrees_read hidle hlba' hpos hmax buf
        exact ⟨hreq, .inr ⟨o, ho⟩⟩
  | write lba count buf =>
      have hlba' : lba < 2 ^ 28 := hlba
      by_cases hbad : count = 0 ∨ 255 < count
      · have hd := (driveServes_refused d lba hbad buf).2
        rw [hd]
        exact ⟨requested_refl hidle, .inl fun disk => agrees_failed hd (diskServes_refused disk lba hbad buf).2⟩
      · have hpos : 0 < count := by omega
        have hmax : count ≤ 255 := by omega
        obtain ⟨o, ho, hreq⟩ := agrees_write hidle hlba' hpos hmax buf hkeep
        exact ⟨hreq, .inr ⟨o, ho⟩⟩

/-- A timely drive stays one. -/
theorem Requested.timely {d d' : Drive} (h : Requested d d') (htimely : d.Timely) : d'.Timely := by
  intro j
  rw [h.later.delay]
  exact htimely j

/-- The outcomes `outcomes` from request `k` on. -/
def From (outcome : Nat → DiskOutcome) (k : Nat) (outcomes : Nat → DiskOutcome) : Prop :=
  ∀ n, outcome (k + n) = outcomes n

/-- The outcomes are found request by request: the ones of the rest are kept, with that of a valid
request before them. -/
theorem requests_refine (rs : List DiskRequest) {d : Drive} (hidle : d.Idle) (htimely : d.Timely)
    (hlba : ∀ r ∈ rs, r.lba < 2 ^ 28) (hkeep : LastSectorsKept d rs) :
    ∃ outcomes, ∀ disk : Disk, SameSectors d disk.sector → From disk.outcome disk.requests outcomes →
      (serveAll diskServes disk rs).2 = (serveAll driveServes d rs).2 ∧
        SameSectors (serveAll driveServes d rs).1 (serveAll diskServes disk rs).1.sector := by
  induction rs generalizing d with
  | nil => exact ⟨fun _ => .ok, fun disk hsame _ => ⟨rfl, hsame⟩⟩
  | cons r rs ih =>
      obtain ⟨hreq, hone⟩ := agrees_request hidle (hlba r List.mem_cons_self) hkeep.1
      obtain ⟨outcomes, hrest⟩ := ih (hreq.idle htimely) (hreq.timely htimely)
        (fun r' hr' => hlba r' (List.mem_cons_of_mem _ hr')) hkeep.2
      rcases hone with hnone | ⟨o, ho⟩
      · refine ⟨outcomes, fun disk hsame hfrom => ?_⟩
        have hag := hnone disk hsame
        obtain ⟨hreplies, hsectors⟩ := hrest _ hag.sectors (by
          rw [From, hag.outcome, hag.requests]
          exact hfrom)
        refine ⟨?_, hsectors⟩
        rw [serveAll, serveAll, hag.reply, hreplies]
      · refine ⟨fun n => if n = 0 then o else outcomes (n - 1), fun disk hsame hfrom => ?_⟩
        have hag := ho disk hsame (hfrom 0)
        obtain ⟨hreplies, hsectors⟩ := hrest _ hag.sectors (by
          intro n
          rw [hag.outcome, hag.requests, Nat.add_assoc, hfrom (1 + n)]
          simp only [Nat.add_eq_zero_iff, Nat.one_ne_zero, false_and, if_false, Nat.add_sub_cancel_left])
        refine ⟨?_, hsectors⟩
        rw [serveAll, serveAll, hag.reply, hreplies]

/-- **The driver refines the disk.**  Take an idle drive that is always in time, and any sequence of
requests below sector 2²⁸ of whose writes it keeps the last sectors.  Then for some outcomes the disk of
the store answers every request as the driver does, read bytes included, and ends with the sectors
that are on the drive. -/
theorem disk_refines (d : Drive) (rs : List DiskRequest) (hidle : d.Idle) (htimely : d.Timely)
    (hlba : ∀ r ∈ rs, r.lba < 2 ^ 28) (hkeep : LastSectorsKept d rs) :
    ∃ outcome, (serveAll diskServes ⟨d.media, outcome, 0⟩ rs).2 = (serveAll driveServes d rs).2 ∧
      SameSectors (serveAll driveServes d rs).1
        (serveAll diskServes ⟨d.media, outcome, 0⟩ rs).1.sector := by
  obtain ⟨outcomes, h⟩ := requests_refine rs hidle htimely hlba hkeep
  refine ⟨outcomes, h ⟨d.media, outcomes, 0⟩ (fun _ _ _ => rfl) fun n => ?_⟩
  rw [Nat.zero_add]

/-- A drive that fails its second piece of work: a write of two sectors stops at the first. -/
def wornDrive : Drive :=
  { media := fun s i => UInt8.ofNat (s + i), head := 0xE0, seccount := 0, lbaLow := 0, lbaMid := 0,
    lbaHigh := 0, busy := 0, phase := .ready false, delay := fun j => j % 7, fails := fun j => j == 1,
    served := 0 }

theorem disk_refines_worn_drive :
    ∃ outcome, (serveAll diskServes ⟨wornDrive.media, outcome, 0⟩
      [.write 5 2 fun _ => 9, .read 5 1 fun _ => 0]).2 =
        (serveAll driveServes wornDrive [.write 5 2 fun _ => 9, .read 5 1 fun _ => 0]).2 ∧
      SameSectors (serveAll driveServes wornDrive [.write 5 2 fun _ => 9, .read 5 1 fun _ => 0]).1
        (serveAll diskServes ⟨wornDrive.media, outcome, 0⟩
          [.write 5 2 fun _ => 9, .read 5 1 fun _ => 0]).1.sector := by
  refine disk_refines wornDrive _ ⟨rfl, false, rfl⟩ ?_ ?_ ⟨rfl, trivial, trivial⟩
  · intro j
    exact lt_of_lt_of_le (Nat.mod_lt j (by decide)) (by decide)
  · intro r hr
    simp only [List.mem_cons, List.not_mem_nil, or_false] at hr
    rcases hr with rfl | rfl
    · exact (by decide : 5 < 2 ^ 28)
    · exact (by decide : 5 < 2 ^ 28)

end Vajra
