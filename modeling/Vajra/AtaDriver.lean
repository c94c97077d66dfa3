import Mathlib.Tactic
import Vajra.ObjectStore

/-!
# The disk driver (`hal/x86_64/ata.c`)

`halDiskReadPio` and `halDiskWritePio` are `hal_disk_read` and `hal_disk_write` down to the ports:
they poll the status register, set up the task file and move words through the data port.  The drive
behind the ports is a state machine: how long it is busy before each sector and whether it fails it
is up to the drive (`delay`, `fails`), and everything below holds for all choices.

The store is built on a disk whose requests succeed or fail as a whole (`Disk`).  The driver
implements it (`disk_refines`) as long as the drive fails no last sector of a write and no flush: an
error after the last word is one that `hal_disk_write` does not look at.
-/

namespace Vajra

def ataData : Nat := 0x1F0
def ataSeccount : Nat := 0x1F2
def ataLbaLow : Nat := 0x1F3
def ataLbaMid : Nat := 0x1F4
def ataLbaHigh : Nat := 0x1F5
def ataDriveHead : Nat := 0x1F6
def ataStatus : Nat := 0x1F7
def ataCommand : Nat := 0x1F7

def ataCmdRead : UInt8 := 0x20
def ataCmdWrite : UInt8 := 0x30
def ataCmdFlush : UInt8 := 0xE7

def ataSrBsy : UInt8 := 0x80
def ataSrDrq : UInt8 := 0x08
def ataSrErr : UInt8 := 0x01

def ataTimeoutSpins : Nat := 1000000

/-! ## The drive -/

/-- What the drive does once it is not busy: nothing, or one sector of a transfer. -/
inductive DrivePhase where
  | ready (err : Bool)
  /-- Word `i` of sector `lba` is next, and `left` sectors are to come with this one. -/
  | dataIn (lba left i : Nat)
  /-- The words of sector `lba` taken so far. -/
  | dataOut (lba left : Nat) (words : List UInt16)

/-- The drive: its sectors, its task file, and what it is doing.  `busy` is the number of status reads
that will still find it busy. -/
structure Drive where
  media : Nat → Nat → UInt8
  head : UInt8
  seccount : UInt8
  lbaLow : UInt8
  lbaMid : UInt8
  lbaHigh : UInt8
  busy : Nat
  phase : DrivePhase
  delay : Nat → Nat
  fails : Nat → Bool
  served : Nat

/-- The word with these two bytes, the low one first. -/
def wordOf (lo hi : UInt8) : UInt16 := UInt16.ofNat (lo.toNat + 256 * hi.toNat)

def lowByte (w : UInt16) : UInt8 := UInt8.ofNat (w.toNat % 256)
def highByte (w : UInt16) : UInt8 := UInt8.ofNat (w.toNat / 256)

/-- Byte `i` of a sector whose words are `words`. -/
def wordsByte (words : List UInt16) (i : Nat) : UInt8 :=
  let w := words.getD (i / 2) 0
  if i % 2 = 0 then lowByte w else highByte w

/-- The status bits that the drive shows when it is not busy; bit 6 says that it is there. -/
def DrivePhase.status : DrivePhase → UInt8
  | .ready err => if err then 0x41 else 0x40
  | .dataIn _ _ _ | .dataOut _ _ _ => 0x48

/-- The drive turns to the next piece of work: it is busy for a while, and then fails or goes on. -/
def Drive.serve (d : Drive) (ok : DrivePhase) : Drive :=
  { d with
    busy := d.delay d.served
    phase := if d.fails d.served then .ready true else ok
    served := d.served + 1 }

/-- The 28-bit address in the task file. -/
def Drive.lba (d : Drive) : Nat :=
  d.lbaLow.toNat + 256 * d.lbaMid.toNat + 65536 * d.lbaHigh.toNat + 16777216 * (d.head.toNat % 16)

/-- A sector count of 0 means 256. -/
def Drive.count (d : Drive) : Nat := if d.seccount = 0 then 256 else d.seccount.toNat

/-- A command; one the drive does not know fails. -/
def Drive.execute (d : Drive) (cmd : UInt8) : Drive :=
  if cmd = ataCmdRead then d.serve (.dataIn d.lba d.count 0)
  else if cmd = ataCmdWrite then d.serve (.dataOut d.lba d.count [])
  else if cmd = ataCmdFlush then d.serve (.ready false)
  else { d with phase := .ready true }

/-- A byte written to a port.  A command that comes while the drive is busy or wants data is ignored. -/
def outb (d : Drive) (port : Nat) (v : UInt8) : Drive :=
  if port = ataSeccount then { d with seccount := v }
  else if port = ataLbaLow then { d with lbaLow := v }
  else if port = ataLbaMid then { d with lbaMid := v }
  else if port = ataLbaHigh then { d with lbaHigh := v }
  else if port = ataDriveHead then { d with head := v }
  else if port = ataCommand then
    match d.busy, d.phase with
    | 0, .ready _ => d.execute v
    | _, _ => d
  else d

/-- The status register. -/
def inbStatus (d : Drive) : Drive × UInt8 :=
  if 0 < d.busy then ({ d with busy := d.busy - 1 }, ataSrBsy) else (d, d.phase.status)

/-- A word read from the data port. -/
def inwData (d : Drive) : Drive × UInt16 :=
  match d.phase with
  | .dataIn lba left i =>
      let w := wordOf (d.media lba (2 * i)) (d.media lba (2 * i + 1))
      if i + 1 < 256 then ({ d with phase := .dataIn lba left (i + 1) }, w)
      else if left ≤ 1 then ({ d with phase := .ready false }, w)
      else (d.serve (.dataIn (lba + 1) (left - 1) 0), w)
  | _ => (d, 0)

/-- A sector in place. -/
def Drive.commit (d : Drive) (lba : Nat) (words : List UInt16) : Drive :=
  { d with media := Function.update d.media lba (fun i => wordsByte words i) }

/-- A word written to the data port.  A sector is complete with its last word; one that fails is not
on the disk. -/
def outwData (d : Drive) (v : UInt16) : Drive :=
  match d.phase with
  | .dataOut lba left words =>
      let words := words ++ [v]
      if words.length < 256 then { d with phase := .dataOut lba left words }
      else
        let d' := if d.fails d.served then d else d.commit lba words
        d'.serve (if left ≤ 1 then .ready false else .dataOut (lba + 1) (left - 1) [])
  | _ => d

/-! ## The driver -/

def ataDelay (d : Drive) : Drive := (inbStatus (inbStatus (inbStatus (inbStatus d).1).1).1).1

/-- The loop of `ata_wait_not_busy`. -/
def waitNotBusyLoop : Nat → Drive → Drive × Int
  | 0, d => (d, -1)
  | spins + 1, d =>
      match inbStatus d with
      | (d, status) => if status &&& ataSrBsy = 0 then (d, 0) else waitNotBusyLoop spins d

@[irreducible]
def ataWaitNotBusy (d : Drive) : Drive × Int := waitNotBusyLoop ataTimeoutSpins d

/-- The loop of `ata_wait_drq`. -/
def waitDrqLoop : Nat → Drive → Drive × Int
  | 0, d => (d, -1)
  | spins + 1, d =>
      match inbStatus d with
      | (d, status) =>
          if status &&& ataSrErr ≠ 0 then (d, -1)
          else if status &&& ataSrDrq ≠ 0 then (d, 0)
          else waitDrqLoop spins d

@[irreducible]
def ataWaitDrq (d : Drive) : Drive × Int := waitDrqLoop ataTimeoutSpins d

/-- `ata_setup`, after its checks. -/
def ataTaskFile (d : Drive) (lba count : Nat) (command : UInt8) : Drive :=
  let d := outb d ataDriveHead (UInt8.ofNat (0xE0 ||| (lba >>> 24 &&& 0x0F)))
  let d := ataDelay d
  let d := outb d ataSeccount (UInt8.ofNat count)
  let d := outb d ataLbaLow (UInt8.ofNat (lba &&& 0xFF))
  let d := outb d ataLbaMid (UInt8.ofNat (lba >>> 8 &&& 0xFF))
  let d := outb d ataLbaHigh (UInt8.ofNat (lba >>> 16 &&& 0xFF))
  outb d ataCommand command

def ataSetup (d : Drive) (lba count : Nat) (command : UInt8) : Drive × Int :=
  if count = 0 ∨ count > 255 then (d, -1)
  else
    match ataWaitNotBusy d with
    | (d, rc) => if rc ≠ 0 then (d, -1) else (ataTaskFile d lba count command, 0)

/-- `p[i] = inw(ATA_DATA)` for the next `n` words, into the buffer from byte `off` on. -/
def pioReadWords : Nat → Nat → Drive → (Nat → UInt8) → Drive × (Nat → UInt8)
  | 0, _, d, buf => (d, buf)
  | n + 1, off, d, buf =>
      match inwData d with
      | (d, w) =>
          pioReadWords n (off + 2) d
            (Function.update (Function.update buf off (lowByte w)) (off + 1) (highByte w))

/-- The inner loop of `hal_disk_read`. -/
@[irreducible]
def readSector (off : Nat) (d : Drive) (buf : Nat → UInt8) : Drive × (Nat → UInt8) :=
  pioReadWords 256 off d buf

/-- The loop of `hal_disk_read` over `n` sectors, into the buffer from byte `off` on. -/
def readSectors : Nat → Nat → Drive → (Nat → UInt8) → Drive × (Nat → UInt8) × Int
  | 0, _, d, buf => (d, buf, 0)
  | n + 1, off, d, buf =>
      match ataWaitDrq d with
      | (d, rc) =>
          if rc ≠ 0 then (d, buf, -1)
          else
            match readSector off d buf with
            | (d, buf) => readSectors n (off + 512) d buf

/-- `hal_disk_read`. -/
def halDiskReadPio (d : Drive) (lba count : Nat) (buf : Nat → UInt8) : Drive × (Nat → UInt8) × Int :=
  match ataSetup d lba count ataCmdRead with
  | (d, rc) => if rc ≠ 0 then (d, buf, -1) else readSectors count 0 d buf

/-- `outw(ATA_DATA, p[i])` for the next `n` words. -/
def pioWriteWords : Nat → Nat → Drive → (Nat → UInt8) → Drive
  | 0, _, d, _ => d
  | n + 1, off, d, buf => pioWriteWords n (off + 2) (outwData d (wordOf (buf off) (buf (off + 1)))) buf

/-- The inner loop of `hal_disk_write`. -/
@[irreducible]
def writeSector (off : Nat) (d : Drive) (buf : Nat → UInt8) : Drive := pioWriteWords 256 off d buf

/-- The loop of `hal_disk_write` over `n` sectors. -/
def writeSectors : Nat → Nat → Drive → (Nat → UInt8) → Drive × Int
  | 0, _, d, _ => (d, 0)
  | n + 1, off, d, buf =>
      match ataWaitDrq d with
      | (d, rc) =>
          if rc ≠ 0 then (d, -1) else writeSectors n (off + 512) (writeSector off d buf) buf

/-- `hal_disk_write`. -/
def halDiskWritePio (d : Drive) (lba count : Nat) (buf : Nat → UInt8) : Drive × Int :=
  match ataSetup d lba count ataCmdWrite with
  | (d, rc) =>
      if rc ≠ 0 then (d, -1)
      else
        match writeSectors count 0 d buf with
        | (d, rc) =>
            if rc ≠ 0 then (d, -1)
            else
              match ataWaitNotBusy d with
              | (d, rc) =>
                  if rc ≠ 0 then (d, -1)
                  else
                    match ataWaitNotBusy (outb d ataCommand ataCmdFlush) with
                    | (d, rc) => if rc ≠ 0 then (d, -1) else (d, 0)

/-! ## Polling -/

/-- A sector is waiting to be moved. -/
def DrivePhase.Data : DrivePhase → Prop
  | .ready _ => False
  | .dataIn _ _ _ | .dataOut _ _ _ => True

instance (p : DrivePhase) : Decidable p.Data :=
  match p with
  | .ready _ => isFalse id
  | .dataIn _ _ _ | .dataOut _ _ _ => isTrue trivial

theorem status_bsy (p : DrivePhase) : p.status &&& ataSrBsy = 0 := by
  cases p with
  | ready err => cases err <;> decide
  | dataIn | dataOut =>
      change (0x48 : UInt8) &&& ataSrBsy = 0
      decide

theorem status_drq (p : DrivePhase) : p.status &&& ataSrDrq ≠ 0 ↔ p.Data := by
  cases p with
  | ready err => cases err <;> decide
  | dataIn | dataOut =>
      change (0x48 : UInt8) &&& ataSrDrq ≠ 0 ↔ True
      decide

theorem status_err {p : DrivePhase} (h : p.Data) : ¬ p.status &&& ataSrErr ≠ 0 := by
  cases p with
  | ready err => exact absurd h id
  | dataIn | dataOut =>
      change ¬ (0x48 : UInt8) &&& ataSrErr ≠ 0
      decide

theorem busy_sub {d : Drive} (h : d.busy = 0) (n : Nat) : ({ d with busy := d.busy - n } : Drive) = d := by
  rw [h, Nat.zero_sub, ← h]

theorem waitNotBusyLoop_eq (n : Nat) (d : Drive) :
    waitNotBusyLoop n d = ({ d with busy := d.busy - n }, if d.busy < n then 0 else -1) := by
  induction n generalizing d with
  | zero => rfl
  | succ n ih =>
      unfold waitNotBusyLoop inbStatus
      by_cases hbusy : 0 < d.busy
      · have hflag : ataSrBsy &&& ataSrBsy ≠ 0 := by decide
        simp only [if_pos hbusy, if_neg hflag, ih, Prod.mk.injEq]
        refine ⟨by congr 1; omega, ?_⟩
        have hiff : d.busy - 1 < n ↔ d.busy < n + 1 := by omega
        simp only [hiff]
      · have hzero : d.busy = 0 := by omega
        have hlt : d.busy < n + 1 := by omega
        simp only [if_neg hbusy, if_pos (status_bsy d.phase), if_pos hlt, busy_sub hzero]

theorem waitDrqLoop_eq (n : Nat) (d : Drive) :
    waitDrqLoop n d =
      ({ d with busy := d.busy - n }, if d.busy < n ∧ d.phase.Data then 0 else -1) := by
  induction n generalizing d with
  | zero =>
      rw [waitDrqLoop, if_neg fun h => Nat.not_lt_zero _ h.1]
      rfl
  | succ n ih =>
      unfold waitDrqLoop inbStatus
      by_cases hbusy : 0 < d.busy
      · have herr : ¬ ataSrBsy &&& ataSrErr ≠ 0 := by decide
        have hdrq : ¬ ataSrBsy &&& ataSrDrq ≠ 0 := by decide
        simp only [if_pos hbusy, if_neg herr, if_neg hdrq, ih, Prod.mk.injEq]
        refine ⟨by congr 1; omega, ?_⟩
        have hiff : d.busy - 1 < n ↔ d.busy < n + 1 := by omega
        simp only [hiff]
      · have hzero : d.busy = 0 := by omega
        have hlt : d.busy < n + 1 := by omega
        simp only [if_neg hbusy, busy_sub hzero, hlt, true_and]
        by_cases hdata : d.phase.Data
        · rw [if_neg (status_err hdata), if_pos ((status_drq _).mpr hdata), if_pos hdata]
        · -- A drive that is done without data keeps the loop going, to an error or to its end.
          have hnever : ¬ (d.busy < n ∧ d.phase.Data) := fun h => hdata h.2
          rw [if_neg fun h => hdata ((status_drq _).mp h), if_neg hdata, ih, busy_sub hzero,
            if_neg hnever, ite_self]

/-- The drive after a loop of polls: no longer busy, or busy for so much less. -/
def Drive.polled (d : Drive) : Drive := { d with busy := d.busy - ataTimeoutSpins }

theorem polled_busy {d : Drive} (h : d.busy < ataTimeoutSpins) : d.polled.busy = 0 :=
  Nat.sub_eq_zero_of_le (Nat.le_of_lt h)

theorem ataWaitNotBusy_eq (d : Drive) :
    ataWaitNotBusy d = (d.polled, if d.busy < ataTimeoutSpins then 0 else -1) := by
  unfold ataWaitNotBusy
  exact waitNotBusyLoop_eq _ d

theorem ataWaitDrq_eq (d : Drive) : ataWaitDrq d =
    (d.polled, if d.busy < ataTimeoutSpins ∧ d.phase.Data then 0 else -1) := by
  unfold ataWaitDrq
  exact waitDrqLoop_eq _ d

/-! ## The task file -/

/-- The task file of a request. -/
def Drive.request (d : Drive) (lba count : Nat) : Drive :=
  { d with
    head := UInt8.ofNat (0xE0 ||| (lba >>> 24 &&& 0x0F))
    seccount := UInt8.ofNat count
    lbaLow := UInt8.ofNat (lba &&& 0xFF)
    lbaMid := UInt8.ofNat (lba >>> 8 &&& 0xFF)
    lbaHigh := UInt8.ofNat (lba >>> 16 &&& 0xFF) }

/-- The drive is told the address modulo 2^28. -/
theorem request_lba (d : Drive) (lba count : Nat) : (d.request lba count).lba = lba % 2 ^ 28 := by
  have hhead : ∀ x < 16, (UInt8.ofNat (0xE0 ||| x)).toNat % 16 = x := by decide
  have hmask : ∀ x, x &&& 0xFF = x % 256 := fun x => Nat.and_two_pow_sub_one_eq_mod x 8
  have hnibble : ∀ x, x &&& 0x0F = x % 16 := fun x => Nat.and_two_pow_sub_one_eq_mod x 4
  simp only [Drive.lba, Drive.request, hmask, hnibble, Nat.shiftRight_eq_div_pow]
  rw [hhead _ (Nat.mod_lt _ (by decide))]
  simp only [UInt8.toNat_ofNat']
  omega

theorem request_count (d : Drive) (lba : Nat) {count : Nat} (hpos : 0 < count) (hmax : count ≤ 255) :
    (d.request lba count).count = count := by
  have hne : UInt8.ofNat count ≠ 0 := by
    intro h
    have := congrArg UInt8.toNat h
    simp only [UInt8.toNat_ofNat', UInt8.toNat_zero] at this
    omega
  simp only [Drive.count, Drive.request, if_neg hne, UInt8.toNat_ofNat']
  omega

/-- A drive that waits for a command. -/
def Drive.Idle (d : Drive) : Prop := d.busy = 0 ∧ ∃ err, d.phase = .ready err

theorem ataTaskFile_eq {d : Drive} (h : d.Idle) (lba count : Nat) (command : UInt8) :
    ataTaskFile d lba count command = (d.request lba count).execute command := by
  obtain ⟨hbusy, err, hphase⟩ := h
  have hstatus : ∀ d' : Drive, d'.busy = 0 → (inbStatus d').1 = d' := by
    intro d' h
    rw [inbStatus, if_neg (by omega)]
  have hdelay : ∀ d' : Drive, d'.busy = 0 → ataDelay d' = d' := by
    intro d' h
    simp only [ataDelay, hstatus _ h]
  simp only [ataTaskFile]
  rw [hdelay]
  · simp [outb, ataSeccount, ataLbaLow, ataLbaMid, ataLbaHigh, ataDriveHead, ataCommand, hbusy, hphase,
      Drive.request]
  · simpa [outb, ataSeccount, ataLbaLow, ataLbaMid, ataLbaHigh, ataDriveHead] using hbusy

/-! ## Reading -/

theorem lowByte_wordOf (lo hi : UInt8) : lowByte (wordOf lo hi) = lo := by
  have hlo := lo.toNat_lt
  have hhi := hi.toNat_lt
  apply UInt8.toNat.inj
  simp only [lowByte, wordOf, UInt8.toNat_ofNat', UInt16.toNat_ofNat']
  omega

theorem highByte_wordOf (lo hi : UInt8) : highByte (wordOf lo hi) = hi := by
  have hlo := lo.toNat_lt
  have hhi := hi.toNat_lt
  apply UInt8.toNat.inj
  simp only [highByte, wordOf, UInt8.toNat_ofNat', UInt16.toNat_ofNat']
  omega

/-- The buffer with `n` bytes from `off` on replaced. -/
def patch (buf : Nat → UInt8) (off n : Nat) (bytes : Nat → UInt8) : Nat → UInt8 :=
  fun x => if off ≤ x ∧ x < off + n then bytes (x - off) else buf x

theorem patch_word (buf : Nat → UInt8) (off : Nat) (bytes : Nat → UInt8) :
    Function.update (Function.update buf off (lowByte (wordOf (bytes 0) (bytes 1)))) (off + 1)
      (highByte (wordOf (bytes 0) (bytes 1))) = patch buf off 2 bytes := by
  funext x
  rw [lowByte_wordOf, highByte_wordOf, patch]
  by_cases h1 : x = off + 1
  · subst h1
    rw [Function.update_self, if_pos (by omega), Nat.add_sub_cancel_left]
  rw [Function.update_of_ne h1]
  by_cases h0 : x = off
  · subst h0
    rw [Function.update_self, if_pos (by omega), Nat.sub_self]
  · rw [Function.update_of_ne h0, if_neg (by omega)]

theorem patch_append (buf : Nat → UInt8) (off n k : Nat) (bytes : Nat → UInt8) :
    patch (patch buf off n bytes) (off + n) k (fun x => bytes (n + x)) = patch buf off (n + k) bytes := by
  funext x
  unfold patch
  by_cases hlow : off ≤ x ∧ x < off + n
  · rw [if_neg (by omega), if_pos hlow, if_pos (by omega)]
  · by_cases hhigh : off + n ≤ x ∧ x < off + n + k
    · have hindex : n + (x - (off + n)) = x - off := by omega
      rw [if_pos hhigh, if_pos (by omega)]
      dsimp only
      rw [hindex]
    · rw [if_neg hhigh, if_neg hlow, if_neg (by omega)]

/-- The drive after the last word of a sector has been read. -/
def Drive.afterRead (d : Drive) (lba left : Nat) : Drive :=
  if left ≤ 1 then { d with phase := .ready false } else d.serve (.dataIn (lba + 1) (left - 1) 0)

/-- The rest of a sector, from word `i` on. -/
theorem pioReadWords_eq {lba left : Nat} (n : Nat) {i : Nat} (hi : i + (n + 1) = 256) (off : Nat)
    {d : Drive} (hphase : d.phase = .dataIn lba left i) (buf : Nat → UInt8) :
    pioReadWords (n + 1) off d buf =
      (d.afterRead lba left, patch buf off (2 * (n + 1)) fun x => d.media lba (2 * i + x)) := by
  have hword := patch_word buf off fun x => d.media lba (2 * i + x)
  simp only [Nat.add_zero] at hword
  induction n generalizing i off d buf with
  | zero =>
      have hlast : ¬ i + 1 < 256 := by omega
      by_cases hleft : left ≤ 1
      · simp only [pioReadWords, inwData, hphase, if_neg hlast, if_pos hleft, hword, Drive.afterRead]
      · simp only [pioReadWords, inwData, hphase, if_neg hlast, if_neg hleft, hword, Drive.afterRead]
  | succ n ih =>
      have hmore : i + 1 < 256 := by omega
      have hrest := ih (i := i + 1) (by omega) (off + 2) (d := { d with phase := .dataIn lba left (i + 1) })
        rfl (patch buf off 2 fun x => d.media lba (2 * i + x))
        (by simpa only [Nat.add_zero] using patch_word _ (off + 2) fun x => d.media lba (2 * (i + 1) + x))
      have happend := patch_append buf off 2 (2 * (n + 1)) fun x => d.media lba (2 * i + x)
      rw [pioReadWords]
      simp only [inwData, hphase, if_pos hmore, hword]
      rw [hrest]
      refine Prod.ext ?_ ?_
      · simp only [Drive.afterRead]
        rfl
      · have hbytes : (fun x => d.media lba (2 * (i + 1) + x)) = fun x => d.media lba (2 * i + (2 + x)) := by
          funext x
          congr 1
          omega
        dsimp only
        rw [hbytes, happend]
        congr 1
        omega

theorem patch_congr (buf : Nat → UInt8) (off : Nat) {n : Nat} {bytes bytes' : Nat → UInt8}
    (h : ∀ x < n, bytes x = bytes' x) : patch buf off n bytes = patch buf off n bytes' := by
  funext x
  unfold patch
  split
  · exact h _ (by omega)
  · rfl

/-- The drive is not late and does not fail for the next `n` pieces of work. -/
def Drive.Answers (d : Drive) (n : Nat) : Prop :=
  ∀ j < n, d.delay (d.served + j) < ataTimeoutSpins ∧ d.fails (d.served + j) = false

/-- The drive as it is once it has served `n` more pieces of work. -/
def Drive.settled (d : Drive) (n : Nat) (err : Bool) : Drive :=
  { d with busy := 0, phase := .ready err, served := d.served + n }

theorem Drive.Answers.tail {d d' : Drive} {n : Nat} (h : d.Answers (n + 1)) (hdelay : d'.delay = d.delay)
    (hfails : d'.fails = d.fails) (hserved : d'.served = d.served + 1) : d'.Answers n := by
  intro j hj
  have hnext := h (j + 1) (by omega)
  rw [hdelay, hfails, hserved]
  rw [Nat.add_assoc, Nat.add_comm 1 j]
  exact hnext

/-- A poll that ends well. -/
theorem ataWaitDrq_serve {d : Drive} {p : DrivePhase} (hp : p.Data)
    (hdelay : d.delay d.served < ataTimeoutSpins) (hfails : d.fails d.served = false) :
    ataWaitDrq (d.serve p) = ({ d with busy := 0, phase := p, served := d.served + 1 }, 0) := by
  have hzero : d.delay d.served - ataTimeoutSpins = 0 := by omega
  rw [ataWaitDrq_eq]
  simp only [Drive.polled, Drive.serve, hfails, hzero, hdelay, hp, and_self, if_true,
    Bool.false_eq_true, if_false]

/-- A poll that does not. -/
theorem ataWaitDrq_serve_fails {d : Drive} {p : DrivePhase}
    (h : ¬ (d.delay d.served < ataTimeoutSpins ∧ d.fails d.served = false)) :
    ataWaitDrq (d.serve p) = ((d.serve p).polled, -1) := by
  rw [ataWaitDrq_eq]
  refine Prod.ext rfl (if_neg ?_)
  rintro ⟨hdelay, hdata⟩
  refine h ⟨hdelay, ?_⟩
  cases hfails : d.fails d.served with
  | false => rfl
  | true =>
      simp only [Drive.serve, hfails, if_true] at hdata
      exact absurd hdata id

/-- A whole sector. -/
theorem readSector_eq {lba left : Nat} (off : Nat) {d : Drive}
    (hphase : d.phase = .dataIn lba left 0) (buf : Nat → UInt8) :
    readSector off d buf = (d.afterRead lba left, patch buf off 512 (d.media lba)) := by
  obtain ⟨n, hn⟩ : ∃ n, 0 + (n + 1) = 256 := ⟨255, rfl⟩
  have h := pioReadWords_eq n hn off hphase buf
  rw [← Nat.zero_add (n + 1), hn] at h
  simp only [Nat.mul_zero, Nat.zero_add] at h
  unfold readSector
  exact h

/-- One turn of the loop of `hal_disk_read`. -/
theorem readSectors_step {lba left : Nat} (n off : Nat) {d : Drive}
    (hdelay : d.delay d.served < ataTimeoutSpins) (hfails : d.fails d.served = false)
    (buf : Nat → UInt8) :
    readSectors (n + 1) off (d.serve (.dataIn lba left 0)) buf =
      readSectors n (off + 512)
        (Drive.afterRead { d with busy := 0, phase := .dataIn lba left 0, served := d.served + 1 } lba left)
        (patch buf off 512 (d.media lba)) := by
  have hwait := ataWaitDrq_serve (p := .dataIn lba left 0) trivial hdelay hfails
  generalize hd1 : ({ d with busy := 0, phase := .dataIn lba left 0, served := d.served + 1 } : Drive) = d1
    at hwait
  have hphase : d1.phase = .dataIn lba left 0 := by rw [← hd1]
  have hmedia : d1.media = d.media := by rw [← hd1]
  have hsector := readSector_eq off hphase buf
  rw [hmedia] at hsector
  have hzero : ¬ (0 : Int) ≠ 0 := by decide
  simp only [readSectors, hwait, if_neg hzero, hsector]

/-- Sector `lba` and the sectors after it. -/
def Drive.bytes (d : Drive) (lba : Nat) : Nat → UInt8 := fun x => d.media (lba + x / 512) (x % 512)

theorem patch_sectors (buf : Nat → UInt8) (off n lba : Nat) (d : Drive) :
    patch (patch buf off 512 (d.media lba)) (off + 512) (512 * n) (d.bytes (lba + 1)) =
      patch buf off (512 * (n + 1)) (d.bytes lba) := by
  have hhead : patch buf off 512 (d.media lba) = patch buf off 512 (d.bytes lba) := by
    refine patch_congr _ _ fun x hx => ?_
    rw [Drive.bytes, Nat.div_eq_of_lt hx, Nat.mod_eq_of_lt hx, Nat.add_zero]
  have htail : d.bytes (lba + 1) = fun x => d.bytes lba (512 + x) := by
    funext x
    rw [Drive.bytes, Drive.bytes, Nat.add_mod_left, Nat.add_div_left _ (by decide), Nat.add_assoc,
      Nat.add_comm 1]
  have hsize : 512 * (n + 1) = 512 + 512 * n := by omega
  rw [hhead, htail, patch_append, hsize]

/-- **Sectors that the drive delivers.** -/
theorem readSectors_ok {lba : Nat} (n off : Nat) {d : Drive} (hans : d.Answers (n + 1))
    (buf : Nat → UInt8) :
    readSectors (n + 1) off (d.serve (.dataIn lba (n + 1) 0)) buf =
      (d.settled (n + 1) false, patch buf off (512 * (n + 1)) (d.bytes lba), 0) := by
  induction n generalizing lba off d buf with
  | zero =>
      obtain ⟨hdelay, hfails⟩ := hans 0 (by omega)
      rw [readSectors_step 0 off hdelay hfails, ← patch_sectors]
      refine Prod.ext rfl (Prod.ext ?_ rfl)
      funext x
      refine (if_neg ?_).symm
      omega
  | succ n ih =>
      obtain ⟨hdelay, hfails⟩ := hans 0 (by omega)
      have hrest : Drive.Answers { d with
          busy := 0, phase := .dataIn lba (n + 1 + 1) 0, served := d.served + 1 } (n + 1) :=
        hans.tail rfl rfl rfl
      rw [readSectors_step (n + 1) off hdelay hfails, Drive.afterRead, if_neg (by omega),
        Nat.add_sub_cancel, ih (off + 512) hrest]
      refine Prod.ext ?_ (Prod.ext (patch_sectors buf off (n + 1) lba d) rfl)
      simp only [Drive.settled, Drive.mk.injEq, true_and]
      omega

/-- The same drive, further on. -/
structure Drive.Later (d d' : Drive) : Prop where
  delay : d'.delay = d.delay
  fails : d'.fails = d.fails

/-- A drive that is always in time. -/
def Drive.Timely (d : Drive) : Prop := ∀ j, d.delay j < ataTimeoutSpins

/-- The next piece of work is late or fails. -/
theorem not_answers_succ {d : Drive} {n : Nat} (h : ¬ d.Answers (n + 1))
    (h0 : d.delay d.served < ataTimeoutSpins ∧ d.fails d.served = false) {d' : Drive}
    (hdelay : d'.delay = d.delay) (hfails : d'.fails = d.fails) (hserved : d'.served = d.served + 1) :
    ¬ d'.Answers n := by
  intro hrest
  refine h fun j hj => ?_
  cases j with
  | zero => exact h0
  | succ j =>
      have := hrest j (by omega)
      rw [hdelay, hfails, hserved, Nat.add_assoc, Nat.add_comm 1 j] at this
      exact this

/-- A drive that was in time but failed waits for the next command. -/
theorem serve_fails_idle {d : Drive} {p : DrivePhase} (htimely : d.Timely)
    (h : ¬ (d.delay d.served < ataTimeoutSpins ∧ d.fails d.served = false)) :
    (d.serve p).polled.Idle := by
  have hdelay := htimely d.served
  refine ⟨polled_busy hdelay, true, ?_⟩
  have hfails : d.fails d.served = true := by
    cases hf : d.fails d.served with
    | true => rfl
    | false => exact absurd ⟨hdelay, hf⟩ h
  simp only [Drive.polled, Drive.serve, hfails, if_true]

/-- A piece of work changes no sector. -/
theorem serve_later (d : Drive) (p : DrivePhase) :
    (d.serve p).polled.media = d.media ∧ d.Later (d.serve p).polled := by
  unfold Drive.polled
  generalize (d.serve p).busy - ataTimeoutSpins = b
  exact ⟨rfl, rfl, rfl⟩

theorem serve_served (d : Drive) (p : DrivePhase) : (d.serve p).polled.served = d.served + 1 := by
  unfold Drive.polled
  generalize (d.serve p).busy - ataTimeoutSpins = b
  rfl

/-- The turn in which `hal_disk_read` gives up. -/
theorem readSectors_stop {p : DrivePhase} (n off : Nat) {d : Drive}
    (h : ¬ (d.delay d.served < ataTimeoutSpins ∧ d.fails d.served = false)) (buf : Nat → UInt8) :
    readSectors (n + 1) off (d.serve p) buf =
      ((d.serve p).polled, buf, -1) := by
  have hrc : (-1 : Int) ≠ 0 := by decide
  simp only [readSectors, ataWaitDrq_serve_fails h, if_pos hrc]

/-- **A read that the drive fails or does not answer in time.** -/
theorem readSectors_fail {lba : Nat} (n off : Nat) {d : Drive} (hnot : ¬ d.Answers (n + 1))
    (buf : Nat → UInt8) {r : Drive × (Nat → UInt8) × Int}
    (hr : readSectors (n + 1) off (d.serve (.dataIn lba (n + 1) 0)) buf = r) :
    r.2.2 = -1 ∧ r.1.media = d.media ∧ d.Later r.1 ∧ (d.Timely → r.1.Idle) := by
  induction n generalizing lba off d buf with
  | zero =>
      have h0 : ¬ (d.delay d.served < ataTimeoutSpins ∧ d.fails d.served = false) := by
        intro h0
        refine hnot fun j hj => ?_
        have hj0 : j = 0 := by omega
        subst hj0
        exact h0
      rw [readSectors_stop 0 off h0] at hr
      obtain ⟨hmedia, hlater⟩ := serve_later d (.dataIn lba (0 + 1) 0)
      rw [← hr]
      exact ⟨rfl, hmedia, hlater, fun htimely => serve_fails_idle htimely h0⟩
  | succ n ih =>
      by_cases h0 : d.delay d.served < ataTimeoutSpins ∧ d.fails d.served = false
      · rw [readSectors_step (n + 1) off h0.1 h0.2, Drive.afterRead, if_neg (by omega),
          Nat.add_sub_cancel] at hr
        have hrest : ¬ Drive.Answers { d with
            busy := 0, phase := .dataIn lba (n + 1 + 1) 0, served := d.served + 1 } (n + 1) :=
          not_answers_succ hnot h0 rfl rfl rfl
        obtain ⟨hrc, hmedia, hlater, hidle⟩ := ih (off + 512) hrest _ hr
        refine ⟨hrc, hmedia, ⟨hlater.delay, hlater.fails⟩, fun htimely => hidle ?_⟩
        intro j
        exact htimely j
      · rw [readSectors_stop (n + 1) off h0] at hr
        obtain ⟨hmedia, hlater⟩ := serve_later d (.dataIn lba (n + 1 + 1) 0)
        rw [← hr]
        exact ⟨rfl, hmedia, hlater, fun htimely => serve_fails_idle htimely h0⟩

/-! ## Writing -/

theorem getD_map_range {n j : Nat} (f : Nat → UInt16) (hj : j < n) :
    ((List.range n).map f).getD j 0 = f j := by
  simp [List.getD, hj]

/-- The drive after the last word of a sector has been written. -/
def Drive.afterWrite (d : Drive) (lba left : Nat) (words : List UInt16) : Drive :=
  (if d.fails d.served then d else d.commit lba words).serve
    (if left ≤ 1 then .ready false else .dataOut (lba + 1) (left - 1) [])

theorem afterWrite_phase (d : Drive) (p : DrivePhase) (lba left : Nat) (words : List UInt16) :
    Drive.afterWrite { d with phase := p } lba left words = d.afterWrite lba left words := by
  unfold Drive.afterWrite
  dsimp only
  split
  · rfl
  · rfl

/-- The words of the buffer from byte `off` on. -/
def bufWords (buf : Nat → UInt8) (off n : Nat) : List UInt16 :=
  (List.range n).map fun j => wordOf (buf (off + 2 * j)) (buf (off + 2 * j + 1))

theorem bufWords_succ (buf : Nat → UInt8) (off n : Nat) :
    bufWords buf off (n + 1) = wordOf (buf off) (buf (off + 1)) :: bufWords buf (off + 2) n := by
  unfold bufWords
  rw [List.range_succ_eq_map, List.map_cons, List.map_map]
  refine congrArg₂ List.cons rfl (List.map_congr_left fun j _ => ?_)
  have hindex : off + 2 * (j + 1) = off + 2 + 2 * j := by omega
  simp only [Function.comp_apply, Nat.succ_eq_add_one, hindex]

/-- The rest of a sector, from word `i` on. -/
theorem pioWriteWords_eq {lba left : Nat} (n : Nat) {words : List UInt16} (hi : words.length + (n + 1) = 256)
    (off : Nat) {d : Drive} (hphase : d.phase = .dataOut lba left words) (buf : Nat → UInt8) :
    pioWriteWords (n + 1) off d buf = d.afterWrite lba left (words ++ bufWords buf off (n + 1)) := by
  induction n generalizing words off d with
  | zero =>
      have hlast : ¬ (words ++ [wordOf (buf off) (buf (off + 1))]).length < 256 := by
        rw [List.length_append, List.length_singleton]
        omega
      simp only [pioWriteWords, outwData, hphase, if_neg hlast]
      rfl
  | succ n ih =>
      have hmore : (words ++ [wordOf (buf off) (buf (off + 1))]).length < 256 := by
        rw [List.length_append, List.length_singleton]
        omega
      rw [pioWriteWords]
      simp only [outwData, hphase, if_pos hmore]
      have hlength : (words ++ [wordOf (buf off) (buf (off + 1))]).length + (n + 1) = 256 := by
        rw [List.length_append, List.length_singleton]
        omega
      rw [ih hlength (off + 2) rfl, bufWords_succ buf off]
      rw [afterWrite_phase, List.append_assoc, List.singleton_append]

/-- A whole sector. -/
theorem writeSector_eq {lba left : Nat} (off : Nat) {d : Drive}
    (hphase : d.phase = .dataOut lba left []) (buf : Nat → UInt8) :
    writeSector off d buf = d.afterWrite lba left (bufWords buf off 256) := by
  obtain ⟨n, hn⟩ : ∃ n, n + 1 = 256 := ⟨255, rfl⟩
  have h := pioWriteWords_eq n (by rw [hn]; rfl) off hphase buf
  rw [hn] at h
  unfold writeSector
  exact h

theorem wordsByte_bufWords (buf : Nat → UInt8) (off : Nat) {i : Nat} (hi : i < 512) :
    wordsByte (bufWords buf off 256) i = buf (off + i) := by
  have hword := getD_map_range (fun j => wordOf (buf (off + 2 * j)) (buf (off + 2 * j + 1)))
    (show i / 2 < 256 by omega)
  rw [wordsByte, bufWords, hword]
  by_cases heven : i % 2 = 0
  · rw [if_pos heven, lowByte_wordOf]
    congr 1
    omega
  · rw [if_neg heven, highByte_wordOf]
    congr 1
    omega

/-- From `d` to `d'`, the `n` sectors at `lba` have been written from byte `off` of the buffer on. -/
def Written (d d' : Drive) (lba n : Nat) (buf : Nat → UInt8) (off : Nat) : Prop :=
  ∀ s, ∀ i < 512, d'.media s i =
    if lba ≤ s ∧ s < lba + n then buf (off + (s - lba) * 512 + i) else d.media s i

theorem Written.none {d d' : Drive} (h : d'.media = d.media) (lba : Nat) (buf : Nat → UInt8)
    (off : Nat) : Written d d' lba 0 buf off := by
  intro s i _
  rw [h, if_neg (by omega)]

/-- A sector, and the sectors after it. -/
theorem Written.cons {d d1 d' : Drive} {lba n off : Nat} {buf : Nat → UInt8}
    (hfirst : d1.media = Function.update d.media lba (fun i => wordsByte (bufWords buf off 256) i))
    (h : Written d1 d' (lba + 1) n buf (off + 512)) : Written d d' lba (n + 1) buf off := by
  intro s i hi
  rw [h s i hi, hfirst]
  by_cases hs : s = lba
  · subst hs
    rw [if_neg (by omega), if_pos (by omega), Function.update_self, wordsByte_bufWords buf off hi]
    congr 1
    omega
  · rw [Function.update_of_ne hs]
    by_cases hin : lba + 1 ≤ s ∧ s < lba + 1 + n
    · rw [if_pos hin, if_pos (by omega)]
      congr 1
      omega
    · rw [if_neg hin, if_neg (by omega)]

/-- The drive behind the poll for a sector. -/
def Drive.wants (d : Drive) (lba left : Nat) : Drive :=
  { d with busy := 0, phase := .dataOut lba left [], served := d.served + 1 }

/-- One turn of the loop of `hal_disk_write`. -/
theorem writeSectors_step {lba left : Nat} (n off : Nat) {d : Drive}
    (hdelay : d.delay d.served < ataTimeoutSpins) (hfails : d.fails d.served = false)
    (buf : Nat → UInt8) :
    writeSectors (n + 1) off (d.serve (.dataOut lba left [])) buf =
      writeSectors n (off + 512) ((d.wants lba left).afterWrite lba left (bufWords buf off 256)) buf := by
  have hwait : ataWaitDrq (d.serve (.dataOut lba left [])) = (d.wants lba left, 0) :=
    ataWaitDrq_serve trivial hdelay hfails
  have hzero : ¬ (0 : Int) ≠ 0 := by decide
  simp only [writeSectors, hwait, if_neg hzero]
  rw [writeSector_eq off rfl]

/-- The turn in which `hal_disk_write` gives up. -/
theorem writeSectors_stop {p : DrivePhase} (n off : Nat) {d : Drive}
    (h : ¬ (d.delay d.served < ataTimeoutSpins ∧ d.fails d.served = false)) (buf : Nat → UInt8) :
    writeSectors (n + 1) off (d.serve p) buf =
      ((d.serve p).polled, -1) := by
  have hrc : (-1 : Int) ≠ 0 := by decide
  simp only [writeSectors, ataWaitDrq_serve_fails h, if_pos hrc]

/-- What the drive turns to after a sector. -/
def nextSector (lba left : Nat) : DrivePhase :=
  if left ≤ 1 then .ready false else .dataOut (lba + 1) (left - 1) []

theorem afterWrite_lost {d : Drive} (h : d.fails d.served = true) (lba left : Nat) (words : List UInt16) :
    d.afterWrite lba left words = d.serve (nextSector lba left) := by
  rw [Drive.afterWrite, if_pos h]
  rfl

theorem afterWrite_kept {d : Drive} (h : ¬ d.fails d.served = true) (lba left : Nat)
    (words : List UInt16) :
    d.afterWrite lba left words = (d.commit lba words).serve (nextSector lba left) := by
  rw [Drive.afterWrite, if_neg h]
  rfl

theorem nextSector_more (lba n : Nat) : nextSector lba (n + 1 + 1) = .dataOut (lba + 1) (n + 1) [] := by
  rw [nextSector, if_neg (by omega), Nat.add_sub_cancel]

/-- **Sectors that the drive takes**; whether it has kept the last one, the loop does not ask. -/
theorem writeSectors_ok {lba : Nat} (n off : Nat) {d : Drive} (hans : d.Answers (n + 1))
    (buf : Nat → UInt8) :
    ∃ e : Drive, writeSectors (n + 1) off (d.serve (.dataOut lba (n + 1) [])) buf =
        (e.serve (.ready false), 0) ∧
      d.Later e ∧ e.served = d.served + (n + 1) ∧
      Written d e lba (if d.fails (d.served + (n + 1)) then n else n + 1) buf off := by
  induction n generalizing lba off d with
  | zero =>
      obtain ⟨hdelay, hfails⟩ := hans 0 (by omega)
      rw [writeSectors_step 0 off hdelay hfails]
      by_cases hlast : d.fails (d.served + 1) = true
      · refine ⟨d.wants lba 1, ?_, ⟨rfl, rfl⟩, rfl, ?_⟩
        · rw [afterWrite_lost hlast]
          rfl
        · rw [if_pos hlast]
          exact Written.none rfl lba buf off
      · refine ⟨(d.wants lba 1).commit lba (bufWords buf off 256), ?_, ⟨rfl, rfl⟩, rfl, ?_⟩
        · rw [afterWrite_kept hlast]
          rfl
        · rw [if_neg hlast]
          have hfirst : ((d.wants lba 1).commit lba (bufWords buf off 256)).media =
              Function.update d.media lba (fun i => wordsByte (bufWords buf off 256) i) := rfl
          exact Written.cons hfirst (Written.none rfl _ _ _)
  | succ n ih =>
      obtain ⟨hdelay, hfails⟩ := hans 0 (by omega)
      have hnext : ¬ d.fails (d.served + 1) = true := by
        rw [(hans 1 (by omega)).2]
        decide
      rw [writeSectors_step (n + 1) off hdelay hfails, afterWrite_kept hnext, nextSector_more]
      generalize hd1 : (d.wants lba (n + 1 + 1)).commit lba (bufWords buf off 256) = d1
      have hdelay1 : d1.delay = d.delay := by rw [← hd1]; rfl
      have hfails1 : d1.fails = d.fails := by rw [← hd1]; rfl
      have hserved1 : d1.served = d.served + 1 := by rw [← hd1]; rfl
      obtain ⟨e, he, hlater, hserved, hwritten⟩ := @ih (lba + 1) (off + 512) d1
        (hans.tail hdelay1 hfails1 hserved1)
      refine ⟨e, he, ⟨hlater.delay.trans hdelay1, hlater.fails.trans hfails1⟩, ?_, ?_⟩
      · rw [hserved, hserved1]
        omega
      · have hindex : d.served + 1 + (n + 1) = d.served + (n + 1 + 1) := by omega
        rw [hfails1, hserved1, hindex] at hwritten
        have hall := Written.cons (d := d) (by rw [← hd1]; rfl) hwritten
        by_cases hlast : d.fails (d.served + (n + 1 + 1)) = true
        · rw [if_pos hlast] at hall ⊢
          exact hall
        · rw [if_neg hlast] at hall ⊢
          exact hall

/-- **A write that the drive fails or does not answer in time**, before the words of its last sector. -/
theorem writeSectors_fail {lba : Nat} (n off : Nat) {d : Drive} (hnot : ¬ d.Answers (n + 1))
    (buf : Nat → UInt8) {r : Drive × Int}
    (hr : writeSectors (n + 1) off (d.serve (.dataOut lba (n + 1) [])) buf = r) :
    r.2 = -1 ∧ d.Later r.1 ∧ (d.Timely → r.1.Idle) ∧
      ∃ m ≤ n + 1, Written d r.1 lba m buf off := by
  have hstop : ∀ {d : Drive} {p : DrivePhase} {n : Nat} {off : Nat},
      ¬ (d.delay d.served < ataTimeoutSpins ∧ d.fails d.served = false) →
      writeSectors (n + 1) off (d.serve p) buf = r →
      r.2 = -1 ∧ d.Later r.1 ∧ (d.Timely → r.1.Idle) ∧ r.1.media = d.media := by
    intro d p n off h0 hr
    rw [writeSectors_stop n off h0] at hr
    obtain ⟨hmedia, hlater⟩ := serve_later d p
    rw [← hr]
    exact ⟨rfl, hlater, fun htimely => serve_fails_idle htimely h0, hmedia⟩
  induction n generalizing lba off d with
  | zero =>
      have h0 : ¬ (d.delay d.served < ataTimeoutSpins ∧ d.fails d.served = false) := by
        intro h0
        refine hnot fun j hj => ?_
        have hj0 : j = 0 := by omega
        subst hj0
        exact h0
      obtain ⟨hrc, hlater, hidle, hmedia⟩ := hstop h0 hr
      exact ⟨hrc, hlater, hidle, 0, by omega, Written.none hmedia lba buf off⟩
  | succ n ih =>
      by_cases h0 : d.delay d.served < ataTimeoutSpins ∧ d.fails d.served = false
      swap
      · obtain ⟨hrc, hlater, hidle, hmedia⟩ := hstop h0 hr
        exact ⟨hrc, hlater, hidle, 0, by omega, Written.none hmedia lba buf off⟩
      rw [writeSectors_step (n + 1) off h0.1 h0.2] at hr
      by_cases hlost : d.fails (d.served + 1) = true
      · -- the sector just sent is lost, and the next poll says so
        have h1 : ¬ (d.delay (d.served + 1) < ataTimeoutSpins ∧ d.fails (d.served + 1) = false) := by
          rw [hlost]
          exact fun h => absurd h.2 (by decide)
        rw [afterWrite_lost hlost] at hr
        obtain ⟨hrc, hlater, hidle, hmedia⟩ := hstop (d := d.wants lba (n + 1 + 1)) h1 hr
        exact ⟨hrc, ⟨hlater.delay, hlater.fails⟩, fun htimely => hidle fun j => htimely j, 0, by omega,
          Written.none hmedia lba buf off⟩
      · rw [afterWrite_kept hlost, nextSector_more] at hr
        generalize hd1 : (d.wants lba (n + 1 + 1)).commit lba (bufWords buf off 256) = d1 at hr
        have hdelay1 : d1.delay = d.delay := by rw [← hd1]; rfl
        have hfails1 : d1.fails = d.fails := by rw [← hd1]; rfl
        have hserved1 : d1.served = d.served + 1 := by rw [← hd1]; rfl
        obtain ⟨hrc, hlater, hidle, m, hm, hwritten⟩ := ih (off + 512)
          (not_answers_succ hnot h0 hdelay1 hfails1 hserved1) hr
        refine ⟨hrc, ⟨hlater.delay.trans hdelay1, hlater.fails.trans hfails1⟩, fun htimely => ?_,
          m + 1, by omega, Written.cons (by rw [← hd1]; rfl) hwritten⟩
        refine hidle fun j => ?_
        rw [hdelay1]
        exact htimely j

/-! ## The two requests -/

theorem ataSetup_ok {d : Drive} (hidle : d.Idle) (lba : Nat) {count : Nat} (hpos : 0 < count)
    (hmax : count ≤ 255) (command : UInt8) :
    ataSetup d lba count command = ((d.request lba count).execute command, 0) := by
  have hbusy := hidle.1
  have hlt : d.busy < ataTimeoutSpins := by
    rw [hbusy]
    decide
  have hzero : ¬ (0 : Int) ≠ 0 := by decide
  have hwait : ataWaitNotBusy d = (d, 0) := by
    rw [ataWaitNotBusy_eq, if_pos hlt, Drive.polled, busy_sub hbusy]
  rw [ataSetup, if_neg (by omega), hwait]
  simp only [if_neg hzero, ataTaskFile_eq hidle]

/-- What is known of a request that has been made. -/
structure Requested (d d' : Drive) : Prop where
  later : d.Later d'
  idle : d.Timely → d'.Idle

/-- **`hal_disk_read`** succeeds exactly if the drive delivers every sector in time, and then the
buffer has those sectors. -/
theorem halDiskReadPio_spec {d : Drive} (hidle : d.Idle) (lba : Nat) {count : Nat} (hpos : 0 < count)
    (hmax : count ≤ 255) (buf : Nat → UInt8) {r : Drive × (Nat → UInt8) × Int}
    (hr : halDiskReadPio d lba count buf = r) :
    (r.2.2 = 0 ↔ d.Answers count) ∧ (r.2.2 = 0 ∨ r.2.2 = -1) ∧
      (r.2.2 = 0 → r.2.1 = patch buf 0 (512 * count) (d.bytes (lba % 2 ^ 28))) ∧
      r.1.media = d.media ∧ Requested d r.1 := by
  have hzero : ¬ (0 : Int) ≠ 0 := by decide
  have hexec : (d.request lba count).execute ataCmdRead =
      (d.request lba count).serve (.dataIn (lba % 2 ^ 28) count 0) := by
    rw [Drive.execute, if_pos rfl, request_lba, request_count d lba hpos hmax]
  rw [halDiskReadPio, ataSetup_ok hidle lba hpos hmax, hexec] at hr
  simp only [if_neg hzero] at hr
  obtain ⟨n, rfl⟩ : ∃ n, count = n + 1 := ⟨count - 1, by omega⟩
  by_cases hans : (d.request lba (n + 1)).Answers (n + 1)
  · rw [readSectors_ok n 0 hans] at hr
    subst hr
    exact ⟨⟨fun _ => hans, fun _ => rfl⟩, .inl rfl, fun _ => rfl, rfl, ⟨rfl, rfl⟩,
      fun _ => ⟨rfl, false, rfl⟩⟩
  · obtain ⟨hrc, hmedia, hlater, hdone⟩ := readSectors_fail n 0 hans buf hr
    have hne : r.2.2 ≠ 0 := by
      rw [hrc]
      decide
    exact ⟨⟨fun h => absurd h hne, fun h => absurd h hans⟩, .inr hrc, fun h => absurd h hne, hmedia,
      ⟨hlater.delay, hlater.fails⟩, fun htimely => hdone htimely⟩

theorem serve_ready_idle {d : Drive} (hdelay : d.delay d.served < ataTimeoutSpins) :
    (d.serve (.ready false)).polled.Idle := by
  refine ⟨polled_busy hdelay, ?_⟩
  cases hfails : d.fails d.served with
  | true => exact ⟨true, by simp only [Drive.polled, Drive.serve, hfails, if_true]⟩
  | false => exact ⟨false, by simp only [Drive.polled, Drive.serve, hfails, Bool.false_eq_true, if_false]⟩

/-- The end of `hal_disk_write`: the drive finishes the last sector, and then the flush. -/
def finishWrite (d : Drive) : Drive × Int :=
  match ataWaitNotBusy d with
  | (d, rc) =>
      if rc ≠ 0 then (d, -1)
      else
        match ataWaitNotBusy (outb d ataCommand ataCmdFlush) with
        | (d, rc) => if rc ≠ 0 then (d, -1) else (d, 0)

theorem finishWrite_late {d d1 : Drive} (h : ataWaitNotBusy d = (d1, -1)) : finishWrite d = (d1, -1) := by
  rw [finishWrite, h]
  rfl

theorem finishWrite_flush {d d1 d2 : Drive} {rc : Int} (h : ataWaitNotBusy d = (d1, 0))
    (hflush : ataWaitNotBusy (outb d1 ataCommand ataCmdFlush) = (d2, rc)) :
    finishWrite d = (d2, if rc ≠ 0 then -1 else 0) := by
  have hzero : ¬ (0 : Int) ≠ 0 := by decide
  rw [finishWrite, h]
  dsimp only
  rw [if_neg hzero, hflush]
  dsimp only
  split
  · rfl
  · rfl

theorem outb_command {d : Drive} (h : d.Idle) (v : UInt8) : outb d ataCommand v = d.execute v := by
  obtain ⟨hbusy, err, hphase⟩ := h
  simp [outb, ataSeccount, ataLbaLow, ataLbaMid, ataLbaHigh, ataDriveHead, ataCommand, hbusy, hphase]

theorem finishWrite_spec (e : Drive) {r : Drive × Int} (hr : finishWrite (e.serve (.ready false)) = r) :
    (r.2 = 0 ↔ e.delay e.served < ataTimeoutSpins ∧ e.delay (e.served + 1) < ataTimeoutSpins) ∧
      (r.2 = 0 ∨ r.2 = -1) ∧ r.1.media = e.media ∧ Requested e r.1 := by
  have hminus : (-1 : Int) ≠ 0 := by decide
  have hwait : ∀ d : Drive, ataWaitNotBusy (d.serve (.ready false)) =
      ((d.serve (.ready false)).polled, if d.delay d.served < ataTimeoutSpins then 0 else -1) :=
    fun d => ataWaitNotBusy_eq (d.serve (.ready false))
  obtain ⟨hmedia, hlater⟩ := serve_later e (.ready false)
  have hserved := serve_served e (.ready false)
  have hidle := serve_ready_idle (d := e)
  have hwait1 := hwait e
  generalize (e.serve (.ready false)).polled = d1 at hwait1 hmedia hlater hserved hidle
  by_cases hfirst : e.delay e.served < ataTimeoutSpins
  swap
  · rw [if_neg hfirst] at hwait1
    rw [finishWrite_late hwait1] at hr
    rw [← hr]
    exact ⟨⟨fun h => absurd h hminus, fun h => absurd h.1 hfirst⟩, .inr rfl, hmedia, hlater,
      fun htimely => absurd (htimely _) hfirst⟩
  rw [if_pos hfirst] at hwait1
  have hexec : outb d1 ataCommand ataCmdFlush = d1.serve (.ready false) := by
    rw [outb_command (hidle hfirst), Drive.execute, if_neg (by decide), if_neg (by decide), if_pos rfl]
  have hwait2 := hwait d1
  obtain ⟨hmedia', hlater'⟩ := serve_later d1 (.ready false)
  have hdelay : d1.delay d1.served = e.delay (e.served + 1) := by rw [hlater.delay, hserved]
  have hdone := serve_ready_idle (d := d1)
  rw [← hexec] at hwait2 hmedia' hlater' hdone
  generalize (outb d1 ataCommand ataCmdFlush).polled = d2 at hwait2 hmedia' hlater' hdone
  rw [finishWrite_flush hwait1 hwait2, hdelay] at hr
  rw [hdelay] at hdone
  by_cases hflush : e.delay (e.served + 1) < ataTimeoutSpins
  · rw [if_pos hflush] at hr
    rw [← hr]
    exact ⟨⟨fun _ => ⟨hfirst, hflush⟩, fun _ => rfl⟩, .inl rfl, hmedia'.trans hmedia,
      ⟨hlater'.delay.trans hlater.delay, hlater'.fails.trans hlater.fails⟩, fun _ => hdone hflush⟩
  · rw [if_neg hflush] at hr
    rw [← hr]
    exact ⟨⟨fun h => absurd h hminus, fun h => absurd h.2 hflush⟩, .inr rfl, hmedia'.trans hmedia,
      ⟨hlater'.delay.trans hlater.delay, hlater'.fails.trans hlater.fails⟩,
      fun htimely => absurd (htimely _) hflush⟩

theorem halDiskWritePio_eq (d : Drive) (lba count : Nat) (buf : Nat → UInt8) :
    halDiskWritePio d lba count buf =
      (let s := ataSetup d lba count ataCmdWrite
       if s.2 ≠ 0 then (s.1, -1)
       else
         let w := writeSectors count 0 s.1 buf
         if w.2 ≠ 0 then (w.1, -1) else finishWrite w.1) := rfl

/-- **`hal_disk_write`** succeeds exactly if the drive takes every sector and finishes the last one and
the flush in time.  Then all sectors but the last are on the disk; the last one is there if the drive
did not fail it, which the function does not look at. -/
theorem halDiskWritePio_spec {d : Drive} (hidle : d.Idle) (lba : Nat) {count : Nat} (hpos : 0 < count)
    (hmax : count ≤ 255) (buf : Nat → UInt8) {r : Drive × Int}
    (hr : halDiskWritePio d lba count buf = r) :
    (r.2 = 0 ↔ d.Answers count ∧ d.delay (d.served + count) < ataTimeoutSpins ∧
      d.delay (d.served + count + 1) < ataTimeoutSpins) ∧ (r.2 = 0 ∨ r.2 = -1) ∧
      (∃ n ≤ count, Written d r.1 (lba % 2 ^ 28) n buf 0 ∧
        (r.2 = 0 → n = if d.fails (d.served + count) then count - 1 else count)) ∧
      Requested d r.1 := by
  have hzero : ¬ (0 : Int) ≠ 0 := by decide
  have hminus : (-1 : Int) ≠ 0 := by decide
  have hexec : (d.request lba count).execute ataCmdWrite =
      (d.request lba count).serve (.dataOut (lba % 2 ^ 28) count []) := by
    rw [Drive.execute, if_neg (by decide), if_pos rfl, request_lba, request_count d lba hpos hmax]
  rw [halDiskWritePio_eq, ataSetup_ok hidle lba hpos hmax, hexec] at hr
  simp only [if_neg hzero] at hr
  obtain ⟨n, rfl⟩ : ∃ n, count = n + 1 := ⟨count - 1, by omega⟩
  by_cases hans : (d.request lba (n + 1)).Answers (n + 1)
  · obtain ⟨e, he, hlater, hserved, hwritten⟩ := writeSectors_ok n 0 hans buf
    rw [he] at hr
    simp only [if_neg hzero] at hr
    obtain ⟨hrc, hcodes, hmedia, hlater', hdone⟩ := finishWrite_spec e hr
    have hdelay : e.delay = d.delay := hlater.delay
    have hserved' : e.served = d.served + (n + 1) := hserved
    rw [hdelay, hserved'] at hrc
    refine ⟨⟨fun h => ⟨hans, hrc.mp h⟩, fun h => hrc.mpr h.2⟩, hcodes,
      ⟨if d.fails (d.served + (n + 1)) then n else n + 1, ?_, ?_, fun _ => rfl⟩, ?_⟩
    · split
      · omega
      · omega
    · intro s i hi
      rw [hmedia]
      exact hwritten s i hi
    · refine ⟨⟨hlater'.delay.trans hlater.delay, hlater'.fails.trans hlater.fails⟩, fun htimely => hdone ?_⟩
      intro j
      rw [hdelay]
      exact htimely j
  · cases hr' : writeSectors (n + 1) 0 ((d.request lba (n + 1)).serve
        (.dataOut (lba % 2 ^ 28) (n + 1) [])) buf with
    | mk e rc =>
        obtain ⟨hrc, hlater, hdone, m, hm, hwritten⟩ := writeSectors_fail n 0 hans buf hr'
        rw [hr'] at hr
        have hne : rc ≠ 0 := by
          rw [show rc = -1 from hrc]
          exact hminus
        simp only [if_pos hne] at hr
        rw [← hr]
        exact ⟨⟨fun h => absurd h hminus, fun h => absurd h.1 hans⟩, .inr rfl,
          ⟨m, hm, hwritten, fun h => absurd h hminus⟩, ⟨hlater.delay, hlater.fails⟩,
          fun htimely => hdone fun j => htimely j⟩

end Vajra
