import Vajra.AllocatorRuns
import Vajra.SecondCore

/-!
# The memory map from the BIOS to the allocator (`boot.asm`, `e820.c`)

`boot.asm` asks the BIOS for one range of memory after another and leaves the answers at 0x94000,
behind a magic number and a count.  The page tables and the clearing of `.bss` come next, and only
then does `hal_get_memory_map` read the bytes.  The BIOS stores its answer before `boot.asm` looks
at the carry flag, at `EAX` or at its own cap, so a 33rd answer is in memory and is not counted.

`keptReplies` says which answers count.  Whatever the BIOS does, the reader finds exactly the usable
ranges among them, and the allocator hands out pages of those ranges only
(`memory_map_handed_over`).
-/

namespace Vajra

open ByteMemory TransitionTrace

def e820MapBase : Nat := 0x94000
def e820Magic : Nat := 0x45383230
def e820TypeUsable : Nat := 1
/-- 'SMAP'. -/
def smapSignature : Nat := 0x534D4150
def e820EntryCap : Nat := 32

/-- What one `int 0x15` with `EAX = 0xE820` leaves: the flag, two registers, and the bytes stored at
`ES:DI`, of which `ECX` allows 24. -/
structure BiosReply where
  carry : Bool
  eax : Nat
  ebx : Nat
  entry : List UInt8
  fits : entry.length ≤ 24

/-- `struct e820_entry` at `a`; nothing reads its last field. -/
def e820EntryAt (ram : Mem) (a : Nat) : E820Entry :=
  ⟨readLE ram a 8, readLE ram (a + 8) 8, readLE ram (a + 16) 4⟩

/-- The range an answer describes. -/
def BiosReply.range (r : BiosReply) : E820Entry := e820EntryAt (fun i => r.entry.getD i 0) 0

/-- The bytes of an answer, stored at `a`. -/
def BiosReply.store (r : BiosReply) (a : Nat) (ram : Mem) : Mem :=
  writeBytes ram (r.entry.zipIdx.map fun b => (a + b.2, b.1))

/-- `.e820_loop`: `bios` gives the answer to each call.  `fuel` bounds the calls. -/
def e820Loop (bios : Nat → BiosReply) : Nat → Nat → Nat → Nat → Mem → Option (Mem × Nat)
  | 0, _, _, _, _ => none
  | fuel+1, call, edi, ebp, ram =>
      let r := bios call
      let ram := r.store (e820MapBase + edi) ram
      if r.carry then some (ram, ebp)
      else if r.eax ≠ smapSignature then some (ram, ebp)
      else if e820EntryCap ≤ ebp then some (ram, ebp)
      else if r.ebx = 0 then some (ram, ebp + 1)
      else e820Loop bios fuel (call + 1) (edi + 24) (ebp + 1) ram

/-- The loop, and `.e820_done`. -/
def queryMemoryMap (bios : Nat → BiosReply) (fuel : Nat) (ram : Mem) : Option Mem :=
  (e820Loop bios fuel 0 8 0 ram).map fun s =>
    writeLE (writeLE s.1 e820MapBase 4 e820Magic) (e820MapBase + 4) 4 s.2

/-- The rest of the way to `kernel_main`: the page tables of `boot.asm`, and `start.asm`'s clearing
of `.bss`. -/
def bootMemory (bios : Nat → BiosReply) (fuel bssStart bssEnd : Nat) (ram : Mem) : Option Mem :=
  (queryMemoryMap bios fuel ram).map fun ram =>
    zeroRange (bootTables ram) bssStart (bssEnd - bssStart)

/-- The loop of `hal_get_memory_map`, with `left` entries to look at from entry `i` on. -/
def regionLoop (ram : Mem) (maxRegions : Nat) : Nat → Nat → Nat → List Region
  | 0, _, _ => []
  | left+1, i, written =>
      if written < maxRegions then
        let e := e820EntryAt ram (e820MapBase + 8 + 24 * i)
        if e.type = e820TypeUsable then
          ⟨e.base, e.length⟩ :: regionLoop ram maxRegions left (i + 1) (written + 1)
        else regionLoop ram maxRegions left (i + 1) written
      else []

/-- `hal_get_memory_map`, on the bytes in memory. -/
def halGetMemoryMapIn (ram : Mem) (maxRegions : Nat) : List Region :=
  if readLE ram e820MapBase 4 ≠ e820Magic then []
  else
    let entryCount := readLE ram (e820MapBase + 4) 4
    if entryCount = 0 then []
    else regionLoop ram maxRegions entryCount 0 0

/-- The answers that count, of those from `call` on with room for `room` more: up to the first that
fails, and no further than one that says it is the last. -/
def keptReplies (bios : Nat → BiosReply) : Nat → Nat → List BiosReply
  | 0, _ => []
  | room+1, call =>
      let r := bios call
      if r.carry then []
      else if r.eax ≠ smapSignature then []
      else if r.ebx = 0 then [r]
      else r :: keptReplies bios room (call + 1)

section Bytes

/-- The same bytes at another place are the same value. -/
theorem readLE_moved {m m' : Mem} {a b n : Nat} (h : ∀ i, i < n → m (a + i) = m' (b + i)) :
    readLE m a n = readLE m' b n := by
  have hbytes : ∀ i, i < n → m (a + i) = leByte (readLE m' b n) i := by
    intro i hi
    rw [h i hi, leByte_readLE m' b hi]
  rw [readLE_of_bytes hbytes, Nat.mod_eq_of_lt (readLE_lt m' b n)]

/-- An entry is its first twenty bytes. -/
theorem e820EntryAt_moved {m m' : Mem} {a b : Nat} (h : ∀ i, i < 20 → m (a + i) = m' (b + i)) :
    e820EntryAt m a = e820EntryAt m' b := by
  have hbase : readLE m a 8 = readLE m' b 8 := readLE_moved fun i hi => h i (by omega)
  have hlength : readLE m (a + 8) 8 = readLE m' (b + 8) 8 := by
    refine readLE_moved fun i hi => ?_
    rw [Nat.add_assoc, Nat.add_assoc]
    exact h (8 + i) (by omega)
  have htype : readLE m (a + 16) 4 = readLE m' (b + 16) 4 := by
    refine readLE_moved fun i hi => ?_
    rw [Nat.add_assoc, Nat.add_assoc]
    exact h (16 + i) (by omega)
  rw [e820EntryAt, e820EntryAt, hbase, hlength, htype]

/-- The fields of an entry are 64-bit words. -/
theorem e820EntryAt_word (ram : Mem) (a : Nat) :
    (e820EntryAt ram a).base < 2 ^ 64 ∧ (e820EntryAt ram a).length < 2 ^ 64 := by
  have hwidth : (256 : Nat) ^ 8 = 2 ^ 64 := by norm_num
  rw [← hwidth]
  exact ⟨readLE_lt ram a 8, readLE_lt ram (a + 8) 8⟩

theorem BiosReply.range_word (r : BiosReply) : r.range.base < 2 ^ 64 ∧ r.range.length < 2 ^ 64 :=
  e820EntryAt_word (fun i => r.entry.getD i 0) 0

theorem BiosReply.store_outside (r : BiosReply) {a x : Nat} {ram : Mem} (h : x < a ∨ a + 24 ≤ x) :
    r.store a ram x = ram x := by
  refine writeBytes_outside fun b hb => ?_
  obtain ⟨c, hc, rfl⟩ := List.mem_map.mp hb
  have hlt := (List.mem_zipIdx hc).2.1
  have hfits := r.fits
  dsimp only
  omega

/-- An answer of twenty bytes is read back from where it was stored. -/
theorem BiosReply.store_read (r : BiosReply) (a : Nat) (ram : Mem) (h : 20 ≤ r.entry.length) :
    e820EntryAt (r.store a ram) a = r.range := by
  refine e820EntryAt_moved fun i hi => ?_
  rw [BiosReply.store, writeBytes_zipIdx, if_pos (by omega), Nat.sub_zero, Nat.zero_add]

end Bytes

section Query

variable {bios : Nat → BiosReply}

theorem keptReplies_length (bios : Nat → BiosReply) (room call : Nat) :
    (keptReplies bios room call).length ≤ room := by
  induction room generalizing call with
  | zero => exact Nat.le_refl 0
  | succ room ih =>
      rw [keptReplies]
      split
      · exact Nat.zero_le _
      · split
        · exact Nat.zero_le _
        · split
          · exact Nat.succ_le_succ (Nat.zero_le _)
          · exact Nat.succ_le_succ (ih (call + 1))

/-- The table from entry `c` on holds the ranges of `kept`. -/
def TableHolds (ram : Mem) (c : Nat) (kept : List BiosReply) : Prop :=
  (List.range' c kept.length).map (fun i => e820EntryAt ram (e820MapBase + 8 + 24 * i)) =
    kept.map BiosReply.range

/-- **The loop of `boot.asm`** ends, counts the answers that count, has them in the table in
order, and stores nowhere below the entry it starts at. -/
theorem e820Loop_spec {room call fuel : Nat} (hcall : call + room = e820EntryCap)
    (hfuel : room < fuel) (hfull : ∀ r ∈ keptReplies bios room call, 20 ≤ r.entry.length)
    (ram : Mem) :
    ∃ ram', e820Loop bios fuel call (8 + 24 * call) call ram =
        some (ram', call + (keptReplies bios room call).length) ∧
      TableHolds ram' call (keptReplies bios room call) ∧
      ∀ x, x < e820MapBase + 8 + 24 * call ∨ e820MapBase + 8 + 24 * (e820EntryCap + 1) ≤ x →
        ram' x = ram x := by
  induction room generalizing call fuel ram with
  | zero =>
      obtain ⟨fuel, rfl⟩ : ∃ n, fuel = n + 1 := ⟨fuel - 1, by omega⟩
      have hcap : e820EntryCap ≤ call := by omega
      refine ⟨(bios call).store (e820MapBase + (8 + 24 * call)) ram, ?_, rfl, fun x hx => ?_⟩
      · rw [e820Loop]
        simp only [hcap, if_true, ite_self]
        rfl
      · exact (bios call).store_outside (by omega)
  | succ room ih =>
      obtain ⟨fuel, rfl⟩ : ∃ n, fuel = n + 1 := ⟨fuel - 1, by omega⟩
      have hroom : ¬ e820EntryCap ≤ call := by omega
      have hout : ∀ x, x < e820MapBase + 8 + 24 * call ∨
          e820MapBase + 8 + 24 * (e820EntryCap + 1) ≤ x →
          (bios call).store (e820MapBase + (8 + 24 * call)) ram x = ram x :=
        fun x hx => (bios call).store_outside (by omega)
      have hread := (bios call).store_read (e820MapBase + (8 + 24 * call)) ram
      rw [keptReplies] at hfull ⊢
      rw [e820Loop]
      split
      · exact ⟨_, rfl, rfl, hout⟩
      · split
        · exact ⟨_, rfl, rfl, hout⟩
        · rename_i hcarry heax
          rw [if_neg hcarry, if_neg heax] at hfull
          split
          · rename_i hlast
            rw [if_pos hlast] at hfull
            refine ⟨_, rfl, ?_, hout⟩
            simp only [TableHolds, List.length_singleton, List.range'_one, List.map_cons,
              List.map_nil]
            rw [Nat.add_assoc, hread (hfull _ List.mem_cons_self)]
          · rename_i hmore
            rw [if_neg hmore] at hfull
            obtain ⟨ram', hloop, htable, hkept⟩ := @ih (call + 1) fuel (by omega)
              (by omega) (fun r hr => hfull r (List.mem_cons_of_mem _ hr))
              ((bios call).store (e820MapBase + (8 + 24 * call)) ram)
            refine ⟨ram', ?_, ?_, fun x hx => ?_⟩
            · rw [show 8 + 24 * call + 24 = 8 + 24 * (call + 1) by omega, hloop, List.length_cons]
              congr 2
              omega
            · -- the calls after this one store above the entry it left
              have hhere : e820EntryAt ram' (e820MapBase + 8 + 24 * call) = (bios call).range := by
                rw [← hread (hfull _ List.mem_cons_self)]
                refine e820EntryAt_moved fun i hi => ?_
                rw [hkept _ (Or.inl (by omega)), Nat.add_assoc e820MapBase]
              rw [TableHolds, List.length_cons, List.range'_succ, List.map_cons, List.map_cons, hhere]
              exact congrArg _ htable
            · rw [hkept x (by omega), hout x hx]

end Query

/-- The table in memory as a list of entries, if the magic number is there. -/
def e820Table (ram : Mem) : Option (List E820Entry) :=
  if readLE ram e820MapBase 4 ≠ e820Magic then none
  else some ((List.range' 0 (readLE ram (e820MapBase + 4) 4)).map fun i =>
    e820EntryAt ram (e820MapBase + 8 + 24 * i))

theorem regionLoop_eq (ram : Mem) (maxRegions left i written : Nat) :
    regionLoop ram maxRegions left i written =
      ((((List.range' i left).map fun i => e820EntryAt ram (e820MapBase + 8 + 24 * i)).filter
        fun e => e.type = 1).take (maxRegions - written)).map fun e => ⟨e.base, e.length⟩ := by
  induction left generalizing i written with
  | zero => simp [regionLoop]
  | succ left ih =>
      rw [regionLoop, List.range'_succ, List.map_cons]
      dsimp only
      split
      · rename_i hroom
        obtain ⟨n, hn⟩ : ∃ n, maxRegions - written = n + 1 := ⟨maxRegions - written - 1, by omega⟩
        split
        · rename_i husable
          rw [List.filter_cons_of_pos (by simpa [e820TypeUsable] using husable), hn, List.take_succ_cons,
            List.map_cons, ih]
          rw [show maxRegions - (written + 1) = n by omega]
        · rename_i hreserved
          rw [List.filter_cons_of_neg (by simpa [e820TypeUsable] using hreserved), ih, hn]
      · rename_i hfull
        rw [show maxRegions - written = 0 by omega, List.take_zero, List.map_nil]

/-- **`hal_get_memory_map`** of any memory reads the table that is there. -/
theorem halGetMemoryMapIn_eq (ram : Mem) (maxRegions : Nat) :
    halGetMemoryMapIn ram maxRegions = halGetMemoryMap (e820Table ram) maxRegions := by
  rw [halGetMemoryMapIn, e820Table]
  split
  · rfl
  · dsimp only
    split
    · rename_i hnone
      rw [hnone]
      simp [halGetMemoryMap]
    · rw [regionLoop_eq]
      rfl

/-- The highest end `memory_init` has seen is above 1MB once a region with something left after
clipping has gone by. -/
theorem addRegion_low {acc : (Nat → Bool) × Nat} {r : Region} :
    (addRegion acc r).2 ≤ memBase ↔
      acc.2 ≤ memBase ∧ min ((r.base + r.length) % 2 ^ 64) memCap ≤ max r.base memBase := by
  have hcap : memBase < memCap := by decide
  unfold addRegion
  dsimp only
  split
  · rename_i hempty
    exact ⟨fun h => ⟨h, hempty⟩, fun h => h.1⟩
  · rename_i hsome
    have htop : memBase < min ((r.base + r.length) % 2 ^ 64) memCap :=
      Nat.lt_of_le_of_lt (Nat.le_max_right _ _) (Nat.lt_of_not_le hsome)
    constructor
    · intro h
      exact absurd (Nat.le_trans (Nat.le_max_right _ _) h) (Nat.not_le.mpr htop)
    · intro h
      exact absurd h.2 hsome

/-- **The fallback** is taken when clipping leaves nothing of any usable range. -/
theorem fallbackTaken_iff (regions : List Region) :
    FallbackTaken regions ↔
      ∀ r ∈ regions, min ((r.base + r.length) % 2 ^ 64) memCap ≤ max r.base memBase := by
  have hall : ∀ acc : (Nat → Bool) × Nat, (regions.foldl addRegion acc).2 ≤ memBase ↔
      acc.2 ≤ memBase ∧
        ∀ r ∈ regions, min ((r.base + r.length) % 2 ^ 64) memCap ≤ max r.base memBase := by
    induction regions with
    | nil => exact fun acc => ⟨fun h => ⟨h, fun r hr => by cases hr⟩, fun h => h.1⟩
    | cons r rest ih =>
        intro acc
        rw [List.foldl_cons, ih, addRegion_low, List.forall_mem_cons, and_assoc]
  rw [FallbackTaken, hall]
  exact ⟨fun h => h.2, fun h => ⟨Nat.zero_le _, h⟩⟩

/-- What the page tables and the clearing of `.bss` leave alone. -/
theorem bootTables_outside {ram : Mem} {x : Nat} (h : bootPml4PhysBase + 12288 ≤ x) :
    bootTables ram x = ram x := by
  simp only [bootPml4PhysBase] at h
  rw [bootTables, bootPageDirectory,
    writeArray_outside (Or.inr (by simp only [pageDirPhysBase, ptEntries]; omega)),
    writeLE_outside (Or.inr (by simp only [bootPdptPhysBase]; omega)),
    writeLE_outside (Or.inr (by simp only [bootPml4PhysBase]; omega)),
    zeroRange_outside (Or.inr (by simp only [bootPml4PhysBase]; omega))]

/-- The answers that count, as entries. -/
def keptRanges (bios : Nat → BiosReply) : List E820Entry :=
  (keptReplies bios e820EntryCap 0).map BiosReply.range

/-- **The table survives** until `hal_get_memory_map` reads it. -/
theorem bootMemory_table {bios : Nat → BiosReply} {fuel bssStart bssEnd : Nat}
    (hfuel : e820EntryCap < fuel) (hbss : bssEnd ≤ e820MapBase)
    (hfull : ∀ r ∈ keptReplies bios e820EntryCap 0, 20 ≤ r.entry.length) (ram : Mem) :
    ∃ ram', bootMemory bios fuel bssStart bssEnd ram = some ram' ∧
      e820Table ram' = some (keptRanges bios) := by
  obtain ⟨looped, hloop, htable, -⟩ := @e820Loop_spec bios e820EntryCap 0 fuel
    (by omega) hfuel hfull ram
  rw [Nat.zero_add] at hloop
  set n := (keptReplies bios e820EntryCap 0).length
  have hn : n ≤ e820EntryCap := keptReplies_length bios e820EntryCap 0
  set headed := writeLE (writeLE looped e820MapBase 4 e820Magic) (e820MapBase + 4) 4 n
  refine ⟨zeroRange (bootTables headed) bssStart (bssEnd - bssStart), ?_, ?_⟩
  · rw [bootMemory, queryMemoryMap]
    exact congrArg (fun s => Option.map _ (Option.map _ s)) hloop
  · have hhigh : ∀ x, e820MapBase ≤ x →
        zeroRange (bootTables headed) bssStart (bssEnd - bssStart) x = headed x := by
      intro x hx
      rw [zeroRange_outside, bootTables_outside]
      · simp only [bootPml4PhysBase, e820MapBase] at hx ⊢
        omega
      · omega
    have hbehind : ∀ x, e820MapBase + 8 ≤ x → headed x = looped x := fun x hx =>
      (writeLE_outside (a := e820MapBase + 4) (n := 4) (Or.inr hx)).trans
        (writeLE_outside (a := e820MapBase) (n := 4) (Or.inr (by omega)))
    have hmagic : readLE headed e820MapBase 4 = e820Magic := by
      rw [readLE_writeLE_disjoint (by omega), readLE_writeLE_same]
      rfl
    have hcount : readLE headed (e820MapBase + 4) 4 = n := by
      rw [readLE_writeLE_same]
      exact Nat.mod_eq_of_lt (by simp only [e820EntryCap] at hn; omega)
    rw [e820Table, readLE_congr fun x hx _ => hhigh x hx,
      readLE_congr (a := e820MapBase + 4) fun x hx _ => hhigh x (by omega), hmagic, hcount,
      if_neg (not_not_intro rfl), keptRanges, ← htable]
    have hentry : ∀ i, e820EntryAt (zeroRange (bootTables headed) bssStart (bssEnd - bssStart))
        (e820MapBase + 8 + 24 * i) = e820EntryAt looped (e820MapBase + 8 + 24 * i) := by
      intro i
      refine e820EntryAt_moved fun j _ => ?_
      rw [hhigh _ (by omega), hbehind _ (by omega)]
    exact congrArg some (List.map_congr_left fun i _ => hentry i)

/-- **The memory map the BIOS reports is the one the allocator runs on.**  Whatever the BIOS answers
and however often, the query ends; the reader finds the usable ranges among the answers that count,
in their order; and in every run of the allocator each page handed out lies in one range the BIOS
reported usable, or in 1MB-16MB when clipping leaves nothing of any of them. -/
theorem memory_map_handed_over {bios : Nat → BiosReply} {fuel bssStart bssEnd : Nat}
    (hfuel : e820EntryCap < fuel) (hbss : bssEnd ≤ e820MapBase)
    (hfull : ∀ r ∈ keptReplies bios e820EntryCap 0, 20 ≤ r.entry.length) (ram : Mem) :
    ∃ ram', bootMemory bios fuel bssStart bssEnd ram = some ram' ∧
      halGetMemoryMapIn ram' 32 = halGetMemoryMap (some (keptRanges bios)) 32 ∧
      ∀ tr s op s' p, AllocRun (halGetMemoryMapIn ram' 32) ram' tr s →
        allocStep s op = some (s', some p) → ∀ i < op.count,
          (∃ e ∈ keptRanges bios, e.type = e820TypeUsable ∧ e.base ≤ p + i * pageSize ∧
            p + i * pageSize + pageSize ≤ e.base + e.length) ∨
          ((∀ e ∈ keptRanges bios, e.type = e820TypeUsable →
              min ((e.base + e.length) % 2 ^ 64) memCap ≤ max e.base memBase) ∧
            memBase ≤ p + i * pageSize ∧ p + i * pageSize + pageSize ≤ fallbackTop) := by
  obtain ⟨ram', hboot, htable⟩ := bootMemory_table hfuel hbss hfull ram
  have hmap : halGetMemoryMapIn ram' 32 = halGetMemoryMap (some (keptRanges bios)) 32 := by
    rw [halGetMemoryMapIn_eq, htable]
  -- there are at most 32 ranges, so the reader's own limit cuts nothing
  have hmem : ∀ r : Region, r ∈ halGetMemoryMapIn ram' 32 ↔
      ∃ e ∈ keptRanges bios, e.type = e820TypeUsable ∧ Region.mk e.base e.length = r := by
    intro r
    have hfew : ((keptRanges bios).filter fun e => e.type = 1).length ≤ 32 := by
      refine Nat.le_trans (List.length_filter_le _ _) ?_
      rw [keptRanges, List.length_map]
      exact keptReplies_length bios e820EntryCap 0
    rw [hmap, halGetMemoryMap, List.take_of_length_le hfew]
    simp only [List.mem_map, List.mem_filter, decide_eq_true_eq, e820TypeUsable, and_assoc]
  have hword : ∀ r ∈ halGetMemoryMapIn ram' 32, r.Word := by
    intro r hr
    obtain ⟨e, he, -, rfl⟩ := (hmem r).mp hr
    obtain ⟨reply, -, rfl⟩ := List.mem_map.mp he
    simp only [Region.Word]
    exact reply.range_word
  refine ⟨ram', hboot, hmap, fun tr s op s' p hrun hstep i hi => ?_⟩
  have hok := AllocRun.ok hword hrun
  obtain ⟨-, hout⟩ := (hok.step hstep).2 p rfl
  rcases hok.usable_of_handsOut hout hi with ⟨r, hr, hlow, hhigh⟩ | ⟨hfallback, hlow, hhigh⟩
  · obtain ⟨e, he, htype, rfl⟩ := (hmem r).mp hr
    exact Or.inl ⟨e, he, htype, hlow, hhigh⟩
  · refine Or.inr ⟨fun e he htype => ?_, hlow, hhigh⟩
    exact (fallbackTaken_iff _).mp hfallback _ ((hmem _).mpr ⟨e, he, htype, rfl⟩)

/-- An answer of twenty bytes; `ebx` is what the next call continues from. -/
def sampleReply (base length type ebx : Nat) : BiosReply where
  carry := false
  eax := smapSignature
  ebx := ebx
  entry := (List.range 8).map (leByte base) ++ (List.range 8).map (leByte length) ++
    (List.range 4).map (leByte type)
  fits := by simp

/-- The ranges of a small machine.  The last one says so. -/
def sampleBios : Nat → BiosReply
  | 0 => sampleReply 0 0x9FC00 1 1
  | 1 => sampleReply 0x9FC00 0x400 2 2
  | 2 => sampleReply 0x100000 0x7EE0000 1 3
  | 3 => sampleReply 0xFFFC0000 0x40000 2 0
  | _ => sampleReply 0 0 1 0

/-- Of four answers the reader finds the two usable ranges. -/
theorem memory_map_handed_over_small : e820EntryCap < 33 ∧ 0x8EC0C ≤ e820MapBase ∧
    (∀ r ∈ keptReplies sampleBios e820EntryCap 0, 20 ≤ r.entry.length) ∧
    ∃ ram', bootMemory sampleBios 33 0x35000 0x8EC0C (fun _ => 0xFF) = some ram' ∧
      halGetMemoryMapIn ram' 32 = [⟨0, 0x9FC00⟩, ⟨0x100000, 0x7EE0000⟩] := by
  have hfull : ∀ r ∈ keptReplies sampleBios e820EntryCap 0, 20 ≤ r.entry.length := by decide
  obtain ⟨ram', hboot, hmap, -⟩ := @memory_map_handed_over sampleBios 33 0x35000
    0x8EC0C (by decide) (by decide) hfull fun _ => 0xFF
  exact ⟨by decide, by decide, hfull, ram', hboot, hmap⟩

end Vajra
