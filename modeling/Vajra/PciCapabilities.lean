import Mathlib.Data.Nat.Bitwise
import Mathlib.Order.Interval.Finset.Nat
import Mathlib.Tactic.NormNum
import Vajra.BoundedWalk

/-!
# The capability list of a PCI device (`hal/x86_64/pci.c`)

`pciHasCapability` follows the list for at most 48 entries.  `Listed` is the list itself,
without a limit.  An entry is the dword its pointer is in, whatever the two low bits of the
pointer are, and from 0x40 on a configuration space has 48 dwords; so the limit cuts nothing
off, whether the list ends or runs into a cycle.
-/

namespace Vajra

open BoundedWalk

/-- The configuration spaces on bus 0, by slot, function and offset. -/
abbrev PciBus := UInt8 → UInt8 → UInt8 → UInt8

/-- `pci_config_read32`: the dword that contains the offset, little-endian. -/
def pciConfigRead32 (pci : PciBus) (slot func offset : UInt8) : UInt32 :=
  let byte (i : UInt8) := (pci slot func ((offset &&& 0xFC) + i)).toNat
  UInt32.ofNat (byte 0 + 2 ^ 8 * byte 1 + 2 ^ 16 * byte 2 + 2 ^ 24 * byte 3)

/-- `PCI_REG_STATUS`, `PCI_REG_CAP_PTR` and `PCI_STATUS_CAP_LIST`. -/
def pciRegStatus : UInt8 := 0x04
def pciRegCapPtr : UInt8 := 0x34
def pciStatusCapList : UInt32 := (1 : UInt32) <<< (4 : UInt32)

/-- The loop of `pci_has_capability`, with the number of turns left. -/
def capabilityLoop (pci : PciBus) (slot capId : UInt8) : Nat → UInt8 → Int
  | 0, _ => 0
  | turns + 1, ptr =>
      if ptr = 0 then 0
      else
        let cap := pciConfigRead32 pci slot 0 ptr
        if cap &&& 0xFF = capId.toUInt32 then 1
        else capabilityLoop pci slot capId turns ((cap >>> 8) &&& 0xFF).toUInt8

/-- `pci_has_capability`. -/
def pciHasCapability (pci : PciBus) (slot capId : UInt8) : Int :=
  if (pciConfigRead32 pci slot 0 pciRegStatus >>> 16) &&& pciStatusCapList = 0 then 0
  else
    capabilityLoop pci slot capId 48 (pciConfigRead32 pci slot 0 pciRegCapPtr &&& 0xFF).toUInt8

/-- The id of the entry a pointer leads to, and the pointer to the next one. -/
def entryId (config : UInt8 → UInt8) (ptr : UInt8) : UInt8 := config (ptr &&& 0xFC)
def entryNext (config : UInt8 → UInt8) (ptr : UInt8) : UInt8 := config ((ptr &&& 0xFC) + 1)

/-- The pointers of the capability list, from the one at 0x34 to a zero. -/
inductive Listed (config : UInt8 → UInt8) : UInt8 → Prop
  | first (h : config 0x34 ≠ 0) : Listed config (config 0x34)
  | next {ptr : UInt8} (before : Listed config ptr) (h : entryNext config ptr ≠ 0) :
      Listed config (entryNext config ptr)

/-- Bit 4 of the status word at 0x06: the device has a list. -/
def HasList (config : UInt8 → UInt8) : Prop := config 0x06 &&& 0x10 ≠ 0

/-- The capability pointers are zero or behind the header. -/
def PointersValid (config : UInt8 → UInt8) : Prop := ∀ ptr, Listed config ptr → 0x40 ≤ ptr

variable (pci : PciBus) (slot func offset : UInt8)

/-! ### The fields of a dword -/

theorem pciConfigRead32_toNat :
    (pciConfigRead32 pci slot func offset).toNat =
      (pci slot func (offset &&& 0xFC)).toNat + 2 ^ 8 * (pci slot func ((offset &&& 0xFC) + 1)).toNat +
        2 ^ 16 * (pci slot func ((offset &&& 0xFC) + 2)).toNat +
        2 ^ 24 * (pci slot func ((offset &&& 0xFC) + 3)).toNat := by
  have h0 := (pci slot func (offset &&& 0xFC)).toNat_lt
  have h1 := (pci slot func ((offset &&& 0xFC) + 1)).toNat_lt
  have h2 := (pci slot func ((offset &&& 0xFC) + 2)).toNat_lt
  have h3 := (pci slot func ((offset &&& 0xFC) + 3)).toNat_lt
  rw [pciConfigRead32, UInt32.toNat_ofNat']
  simp only [UInt8.add_zero]
  omega

theorem low_byte : (pciConfigRead32 pci slot func offset &&& 0xFF).toNat =
    (pci slot func (offset &&& 0xFC)).toNat := by
  have h0 := (pci slot func (offset &&& 0xFC)).toNat_lt
  rw [UInt32.toNat_and, pciConfigRead32_toNat]
  change _ &&& (2 ^ 8 - 1) = _
  rw [Nat.and_two_pow_sub_one_eq_mod]
  omega

theorem low_byte_eq_iff (id : UInt8) :
    pciConfigRead32 pci slot func offset &&& 0xFF = id.toUInt32 ↔
      pci slot func (offset &&& 0xFC) = id := by
  rw [← UInt32.toNat_inj, low_byte, UInt8.toNat_toUInt32, UInt8.toNat_inj]

theorem first_byte : (pciConfigRead32 pci slot func offset &&& 0xFF).toUInt8 =
    pci slot func (offset &&& 0xFC) := by
  have h0 := (pci slot func (offset &&& 0xFC)).toNat_lt
  rw [← UInt8.toNat_inj, UInt32.toNat_toUInt8, low_byte]
  omega

theorem second_byte : ((pciConfigRead32 pci slot func offset >>> 8) &&& 0xFF).toUInt8 =
    pci slot func ((offset &&& 0xFC) + 1) := by
  have h0 := (pci slot func (offset &&& 0xFC)).toNat_lt
  have h1 := (pci slot func ((offset &&& 0xFC) + 1)).toNat_lt
  rw [← UInt8.toNat_inj, UInt32.toNat_toUInt8, UInt32.toNat_and, UInt32.toNat_shiftRight,
    pciConfigRead32_toNat]
  change ((_ >>> 8) &&& (2 ^ 8 - 1)) % 2 ^ 8 = _
  rw [Nat.and_two_pow_sub_one_eq_mod, Nat.shiftRight_eq_div_pow]
  omega

/-- The bit of the status word. -/
theorem status_bit : (pciConfigRead32 pci slot 0 pciRegStatus >>> 16) &&& pciStatusCapList = 0 ↔
    ¬ HasList (pci slot 0) := by
  have h0 := (pci slot 0 4).toNat_lt
  have h1 := (pci slot 0 5).toNat_lt
  have h2 := (pci slot 0 6).toNat_lt
  have hread := pciConfigRead32_toNat pci slot 0 pciRegStatus
  rw [show pciRegStatus &&& 0xFC = 4 by decide] at hread
  have hmask : pciStatusCapList.toNat = 2 ^ 4 := by decide
  have hmask8 : (0x10 : UInt8).toNat = 2 ^ 4 := by decide
  have hbit : ∀ n : Nat, n &&& 2 ^ 4 = 0 ↔ n / 2 ^ 4 % 2 = 0 := by
    intro n
    rw [Nat.and_two_pow, Nat.testBit_eq_decide_div_mod_eq]
    simp
  rw [HasList, not_not, ← UInt32.toNat_inj, ← UInt8.toNat_inj, UInt32.toNat_and, UInt8.toNat_and,
    UInt32.toNat_shiftRight, hmask, hmask8, UInt32.toNat_zero, UInt8.toNat_zero, hbit, hbit,
    Nat.shiftRight_eq_div_pow, hread]
  change _ / 2 ^ 16 / 2 ^ 4 % 2 = 0 ↔ _
  change ((pci slot 0 4).toNat + 2 ^ 8 * (pci slot 0 5).toNat + 2 ^ 16 * (pci slot 0 6).toNat +
    2 ^ 24 * (pci slot 0 7).toNat) / 2 ^ 16 / 2 ^ 4 % 2 = 0 ↔ _
  omega

/-! ### The loop -/

/-- The entry after a pointer, if there is one. -/
def entryAfter (config : UInt8 → UInt8) (ptr : UInt8) : Option UInt8 :=
  if entryNext config ptr = 0 then none else some (entryNext config ptr)

/-- The first entry. -/
def firstEntry (config : UInt8 → UInt8) : Option UInt8 :=
  if config 0x34 = 0 then none else some (config 0x34)

/-- The loop is a bounded search. -/
theorem capabilityLoop_eq (capId : UInt8) (turns : Nat) (ptr : UInt8) :
    capabilityLoop pci slot capId turns ptr =
      if search (entryAfter (pci slot 0)) (fun ptr => entryId (pci slot 0) ptr = capId) turns
        (if ptr = 0 then none else some ptr) then 1 else 0 := by
  induction turns generalizing ptr with
  | zero => simp [capabilityLoop, search]
  | succ turns ih =>
      rw [capabilityLoop]
      by_cases hptr : ptr = 0
      · simp [hptr, search]
      · rw [if_neg hptr, if_neg hptr]
        simp only [second_byte, low_byte_eq_iff]
        by_cases hid : pci slot 0 (ptr &&& 0xFC) = capId
        · have hmatch : entryId (pci slot 0) ptr = capId := hid
          rw [if_pos hid]
          simp [search, hmatch]
        · have hmiss : ¬ entryId (pci slot 0) ptr = capId := hid
          rw [if_neg hid, ih]
          simp only [search, hmiss, decide_false, Bool.false_or]
          rfl

/-- The chain of the entries is the list. -/
theorem listed_iff (config : UInt8 → UInt8) (ptr : UInt8) :
    Listed config ptr ↔ ∃ n, nth (entryAfter config) (firstEntry config) n = some ptr := by
  constructor
  · intro h
    induction h with
    | first h => exact ⟨0, by rw [nth, firstEntry, if_neg h]⟩
    | next before h ih =>
        obtain ⟨n, hn⟩ := ih
        exact ⟨n + 1, by rw [nth, hn, Option.bind_some, entryAfter, if_neg h]⟩
  · rintro ⟨n, hn⟩
    induction n generalizing ptr with
    | zero =>
        rw [nth, firstEntry] at hn
        split at hn
        · cases hn
        · rename_i h
          cases hn
          exact .first h
    | succ n ih =>
        obtain ⟨before, hbefore, hafter⟩ := Option.bind_eq_some_iff.mp hn
        rw [entryAfter] at hafter
        split at hafter
        · cases hafter
        · rename_i h
          cases hafter
          exact .next (ih before hbefore) h

/-- The entry depends only on the dword the pointer is in. -/
theorem dword_of_div {ptr ptr' : UInt8} (h : ptr.toNat / 4 = ptr'.toNat / 4) :
    ptr &&& 0xFC = ptr' &&& 0xFC := by
  have halign : ∀ n < 256, n &&& 0xFC = n / 4 * 4 := by decide +kernel
  rw [← UInt8.toNat_inj, UInt8.toNat_and, UInt8.toNat_and]
  change ptr.toNat &&& 0xFC = ptr'.toNat &&& 0xFC
  rw [halign _ ptr.toNat_lt, halign _ ptr'.toNat_lt, h]

/-- **The walk is exact.** -/
theorem pciHasCapability_eq_one_iff (capId : UInt8) (hvalid : PointersValid (pci slot 0)) :
    pciHasCapability pci slot capId = 1 ↔
      HasList (pci slot 0) ∧ ∃ ptr, Listed (pci slot 0) ptr ∧ entryId (pci slot 0) ptr = capId := by
  have hfirst : (pciConfigRead32 pci slot 0 pciRegCapPtr &&& 0xFF).toUInt8 = pci slot 0 0x34 :=
    first_byte pci slot 0 pciRegCapPtr
  -- 48 dwords, from 0x40 on
  have hkeys : ∀ n ptr, nth (entryAfter (pci slot 0)) (firstEntry (pci slot 0)) n = some ptr →
      ptr.toNat / 4 ∈ Finset.Ico 16 64 := by
    intro n ptr hn
    have hlow := UInt8.le_iff_toNat_le.mp (hvalid ptr ((listed_iff _ ptr).mpr ⟨n, hn⟩))
    have hhigh := ptr.toNat_lt
    change 64 ≤ ptr.toNat at hlow
    rw [Finset.mem_Ico]
    omega
  have hsearch : search (entryAfter (pci slot 0))
      (fun ptr => entryId (pci slot 0) ptr = capId) 48 (firstEntry (pci slot 0)) = true ↔
        ∃ n ptr, nth (entryAfter (pci slot 0)) (firstEntry (pci slot 0)) n = some ptr ∧
          decide (entryId (pci slot 0) ptr = capId) = true := by
    refine search_iff (fun x y h => ?_) (fun x y h => ?_) (Finset.Ico 16 64) hkeys
      (by rw [Nat.card_Ico])
    · unfold entryAfter entryNext
      rw [dword_of_div h]
    · unfold entryId
      rw [dword_of_div h]
  unfold pciHasCapability
  by_cases hlist : HasList (pci slot 0)
  · rw [if_neg (fun h => (status_bit pci slot).mp h hlist), hfirst, capabilityLoop_eq]
    change (if search _ _ 48 (firstEntry (pci slot 0)) = true then (1 : Int) else 0) = 1 ↔ _
    simp only [hlist, true_and, ite_eq_left_iff, zero_ne_one, imp_false, not_not]
    rw [hsearch]
    constructor
    · rintro ⟨n, ptr, hn, hid⟩
      exact ⟨ptr, (listed_iff _ ptr).mpr ⟨n, hn⟩, of_decide_eq_true hid⟩
    · rintro ⟨ptr, hptr, hid⟩
      obtain ⟨n, hn⟩ := (listed_iff _ ptr).mp hptr
      exact ⟨n, ptr, hn, decide_eq_true hid⟩
  · rw [if_pos ((status_bit pci slot).mpr hlist)]
    simp [hlist]

/-- A list of two entries with unaligned pointers to them, which runs into a cycle. -/
def cyclicConfig (i : UInt8) : UInt8 :=
  if i = 0x06 then 0x10
  else if i = 0x34 then 0x41
  else if i = 0x40 then 0x09
  else if i = 0x41 then 0x52
  else if i = 0x50 then 0x11
  else if i = 0x51 then 0x40
  else 0

theorem cyclicConfig_valid : PointersValid cyclicConfig := by
  have hlisted : ∀ ptr, Listed cyclicConfig ptr → ptr = 0x41 ∨ ptr = 0x52 ∨ ptr = 0x40 := by
    intro ptr h
    induction h with
    | first h => exact Or.inl rfl
    | next before h ih =>
        rcases ih with rfl | rfl | rfl
        · exact Or.inr (Or.inl (by decide))
        · exact Or.inr (Or.inr (by decide))
        · exact Or.inr (Or.inl (by decide))
  intro ptr h
  rcases hlisted ptr h with rfl | rfl | rfl
  · decide
  · decide
  · decide

theorem pciHasCapability_cyclic :
    (∃ ptr, Listed cyclicConfig ptr ∧ entryId cyclicConfig ptr = 0x11) ∧
      ¬ ∃ ptr, Listed cyclicConfig ptr ∧ entryId cyclicConfig ptr = 0x05 := by
  have hmsix := pciHasCapability_eq_one_iff (fun _ _ => cyclicConfig) 3 0x11 cyclicConfig_valid
  have hmsi := pciHasCapability_eq_one_iff (fun _ _ => cyclicConfig) 3 0x05 cyclicConfig_valid
  have hlist : HasList cyclicConfig := by
    unfold HasList
    decide
  refine ⟨(hmsix.mp (by decide +kernel)).2, fun h => ?_⟩
  have hone := hmsi.mpr ⟨hlist, h⟩
  exact absurd hone (by decide +kernel)

end Vajra
