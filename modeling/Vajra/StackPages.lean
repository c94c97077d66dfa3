import Mathlib.Data.Fintype.Card
import Vajra.Isolation

/-!
# Where the stack pages of actors are

`actor_spawn` gets a page from `alloc_page` and notes it in `stack_page` of the slot it
takes.  The page of a dead slot goes back only when a later `schedule_next` reaps it, but the
slot can be taken before that, and then `actor_spawn` overwrites the note: the page belongs
to no slot and is on no list (`stack_page_overwritten`).  In runs where no spawn takes a slot
with a page still noted, no page is ever lost; the free list never overflows, since there are
never more than 18 pages in circulation.
-/

namespace Vajra

open TransitionTrace

/-- The places a stack page can be in. -/
structure Stacks where
  page : Slot → Option Nat
  free : List Nat

/-- `free_page` on the list. -/
def pushFree (free : List Nat) (p : Nat) : List Nat :=
  if free.length < freeListCapacity then p :: free else free

/-- The free list when `alloc_page` has returned `p`. -/
def Popped (free : List Nat) (p : Nat) (rest : List Nat) : Prop :=
  free = p :: rest ∨ (free = [] ∧ rest = [])

/-- One page is reaped. -/
inductive Reap (x : Stacks) : Stacks → Prop
  | slot {i : Slot} {p : Nat} (h : x.page i = some p) :
      Reap x ⟨Function.update x.page i none, pushFree x.free p⟩

/-- **What an event does to the stack pages**: with the slot that `actor_spawn` took and the
page it got from `alloc_page`. -/
inductive StackChange (x : Stacks) : Option Slot → Option Nat → Stacks → Prop
  | reaped {x' : Stacks} (h : Relation.ReflTransGen Reap x x') : StackChange x none none x'
  | taken {i : Slot} {p : Nat} {rest : List Nat} (hpop : Popped x.free p rest)
      (hnew : ∀ s, x.page s ≠ some p) :
      StackChange x (some i) (some p) ⟨Function.update x.page i (some p), rest⟩
  | refunded {p : Nat} {rest : List Nat} (hpop : Popped x.free p rest) :
      StackChange x none (some p) ⟨x.page, pushFree rest p⟩

theorem StackChange.same (x : Stacks) : StackChange x none none x := .reaped .refl

/-- Every page of the list is noted in a slot or free. -/
def Kept (pages : List Nat) (x : Stacks) : Prop :=
  ∀ p ∈ pages, (∃ s, x.page s = some p) ∨ p ∈ x.free

/-- The slots with a page noted. -/
def Stacks.held (x : Stacks) : Finset Slot := Finset.univ.filter fun s => x.page s ≠ none

/-- At most 18 pages are in circulation. -/
def Circulating (x : Stacks) : Prop := x.free.length + x.held.card ≤ 18

theorem held_le (x : Stacks) : x.held.card ≤ 17 := by
  have hle := Finset.card_le_univ x.held
  rw [Fintype.card_fin] at hle
  exact hle

theorem Popped.length {free rest : List Nat} {p : Nat} (h : Popped free p rest) :
    free.length = rest.length + 1 ∨ rest.length = 0 := by
  rcases h with rfl | ⟨rfl, rfl⟩
  · exact Or.inl rfl
  · exact Or.inr rfl

theorem Popped.mem {free rest : List Nat} {p q : Nat} (h : Popped free p rest) (hq : q ∈ free) :
    q = p ∨ q ∈ rest := by
  rcases h with rfl | ⟨rfl, rfl⟩
  · exact List.mem_cons.mp hq
  · cases hq

theorem Popped.sub {free rest : List Nat} {p q : Nat} (h : Popped free p rest) (hq : q ∈ rest) :
    q ∈ free := by
  rcases h with rfl | ⟨rfl, rfl⟩
  · exact List.mem_cons_of_mem p hq
  · exact hq

theorem pushFree_length (free : List Nat) (p : Nat) : (pushFree free p).length ≤ free.length + 1 := by
  unfold pushFree
  split
  · exact Nat.le_refl _
  · exact Nat.le_succ _

/-- A list with room keeps everything. -/
theorem mem_pushFree {free : List Nat} {p q : Nat} (h : free.length ≤ 18) :
    q ∈ pushFree free p ↔ q = p ∨ q ∈ free := by
  unfold pushFree
  rw [if_pos (by simp only [freeListCapacity]; omega), List.mem_cons]

section Moves

variable {x x' : Stacks}

theorem Circulating.reap (h : Circulating x) (hreap : Reap x x') : Circulating x' := by
  cases hreap with
  | @slot i p hi =>
      have hheld : x.held = insert i (Stacks.held ⟨Function.update x.page i none, pushFree x.free p⟩) := by
        ext s
        by_cases hs : s = i
        · subst hs
          simp [Stacks.held, hi]
        · simp [Stacks.held, hs]
      have hnot : i ∉ Stacks.held ⟨Function.update x.page i none, pushFree x.free p⟩ := by
        simp [Stacks.held]
      have hlen := pushFree_length x.free p
      unfold Circulating at *
      rw [hheld, Finset.card_insert_of_notMem hnot] at h
      dsimp only at *
      omega

/-- A page of `alloc_page` is noted in a slot, over whatever was noted there. -/
theorem Circulating.taken {i : Slot} {p : Nat} {rest : List Nat} (hx : Circulating x)
    (hpop : Popped x.free p rest) : Circulating ⟨Function.update x.page i (some p), rest⟩ := by
  have hcard : (Stacks.held ⟨Function.update x.page i (some p), rest⟩).card ≤ x.held.card + 1 := by
    refine (Finset.card_le_card ?_).trans (Finset.card_insert_le i x.held)
    intro s hs
    by_cases hsi : s = i
    · exact Finset.mem_insert.mpr (Or.inl hsi)
    · simp only [Stacks.held, Finset.mem_filter, Finset.mem_univ, true_and,
        Function.update_of_ne hsi] at hs
      exact Finset.mem_insert_of_mem (by simpa [Stacks.held] using hs)
  have hall := held_le ⟨Function.update x.page i (some p), rest⟩
  unfold Circulating at *
  dsimp only
  rcases hpop.length with hlen | hlen <;> omega

/-- A page of `alloc_page` is given back. -/
theorem Circulating.refunded {p : Nat} {rest : List Nat} (hx : Circulating x)
    (hpop : Popped x.free p rest) : Circulating ⟨x.page, pushFree rest p⟩ := by
  have hlen' := pushFree_length rest p
  have hall := held_le x
  have hheld : Stacks.held ⟨x.page, pushFree rest p⟩ = x.held := rfl
  unfold Circulating at *
  rw [hheld]
  dsimp only
  rcases hpop.length with hlen | hlen <;> omega

theorem Circulating.reaps (h : Circulating x) (hreaps : Relation.ReflTransGen Reap x x') :
    Circulating x' := by
  induction hreaps with
  | refl => exact h
  | tail _ hlast ih => exact ih.reap hlast

/-- **There are never more than 18 pages in circulation.** -/
theorem StackChange.circulating {taken : Option Slot} {got : Option Nat}
    (h : StackChange x taken got x') (hx : Circulating x) : Circulating x' := by
  cases h with
  | reaped hreaps => exact hx.reaps hreaps
  | taken hpop => exact hx.taken hpop
  | refunded hpop => exact hx.refunded hpop

theorem Kept.reap {pages : List Nat} (h : Kept pages x) (hx : Circulating x) (hreap : Reap x x') :
    Kept pages x' := by
  cases hreap with
  | @slot i p hi =>
      have hroom : x.free.length ≤ 18 := Nat.le_trans (Nat.le_add_right _ _) hx
      intro q hq
      rcases h q hq with ⟨s, hs⟩ | hfree
      · by_cases hsi : s = i
        · subst hsi
          rw [hi, Option.some.injEq] at hs
          exact Or.inr ((mem_pushFree hroom).mpr (Or.inl hs.symm))
        · refine Or.inl ⟨s, ?_⟩
          dsimp only
          rw [Function.update_of_ne hsi]
          exact hs
      · exact Or.inr ((mem_pushFree hroom).mpr (Or.inr hfree))

/-- **When no page is lost**: the slot that is taken has none noted. -/
theorem StackChange.kept {taken : Option Slot} {got : Option Nat} {pages : List Nat}
    (h : StackChange x taken got x') (hx : Circulating x) (hkept : Kept pages x)
    (hreaped : ∀ i, taken = some i → x.page i = none) : Kept (got.toList ++ pages) x' := by
  cases h with
  | reaped hreap =>
      have hall : Circulating x' ∧ Kept pages x' := by
        induction hreap with
        | refl => exact ⟨hx, hkept⟩
        | tail _ hlast ih => exact ⟨ih.1.reap hlast, ih.2.reap ih.1 hlast⟩
      exact hall.2
  | @taken i p rest hpop =>
      intro q hq
      have hself : Function.update x.page i (some p) i = some p := Function.update_self _ _ _
      rcases List.mem_cons.mp hq with rfl | hold
      · exact Or.inl ⟨i, hself⟩
      rcases hkept q hold with ⟨s, hs⟩ | hfree
      · refine Or.inl ⟨s, ?_⟩
        have hsi : s ≠ i := by
          rintro rfl
          rw [hreaped s rfl] at hs
          cases hs
        dsimp only
        rw [Function.update_of_ne hsi]
        exact hs
      · rcases hpop.mem hfree with rfl | hrest
        · exact Or.inl ⟨i, hself⟩
        · exact Or.inr hrest
  | @refunded p rest hpop =>
      have hroom : rest.length ≤ 18 := by
        unfold Circulating at hx
        rcases hpop.length with hlen | hlen <;> omega
      intro q hq
      rcases List.mem_cons.mp hq with rfl | hold
      · exact Or.inr ((mem_pushFree hroom).mpr (Or.inl rfl))
      rcases hkept q hold with hslot | hfree
      · exact Or.inl hslot
      · exact Or.inr ((mem_pushFree hroom).mpr (hpop.mem hfree))

/-- Every page noted in a slot is one of the list. -/
def Sourced (pages : List Nat) (x : Stacks) : Prop := ∀ s p, x.page s = some p → p ∈ pages

theorem StackChange.sourced {taken : Option Slot} {got : Option Nat} {pages : List Nat}
    (h : StackChange x taken got x') (hx : Sourced pages x) : Sourced (got.toList ++ pages) x' := by
  cases h with
  | reaped hreap =>
      induction hreap with
      | refl => exact hx
      | @tail y z _ hlast ih =>
          cases hlast with
          | @slot i p _ =>
              intro s q hs
              by_cases hsi : s = i
              · subst hsi
                simp at hs
              · dsimp only at hs
                rw [Function.update_of_ne hsi] at hs
                exact ih s q hs
  | @taken i p rest =>
      intro s q hs
      dsimp only at hs
      by_cases hsi : s = i
      · subst hsi
        rw [Function.update_self] at hs
        cases hs
        exact List.mem_cons_self
      · rw [Function.update_of_ne hsi] at hs
        exact List.mem_cons_of_mem p (hx s q hs)
  | @refunded p => exact fun s q hs => List.mem_cons_of_mem p (hx s q hs)

/-- Every page of the list is noted in exactly one slot or free. -/
def Accounted (pages : List Nat) (x : Stacks) : Prop :=
  ∀ p ∈ pages, (∃! s, x.page s = some p) ∨ p ∈ x.free

theorem Kept.accounted {pages : List Nat} (h : Kept pages x)
    (howner : ∀ s t p, x.page s = some p → x.page t = some p → s = t) : Accounted pages x := by
  intro p hp
  rcases h p hp with ⟨s, hs⟩ | hfree
  · exact Or.inl ⟨s, hs, fun t ht => howner t s p ht hs⟩
  · exact Or.inr hfree

theorem Accounted.kept {pages : List Nat} (h : Accounted pages x) : Kept pages x := by
  intro p hp
  rcases h p hp with ⟨s, hs, -⟩ | hfree
  · exact Or.inl ⟨s, hs⟩
  · exact Or.inr hfree

/-- **The page that is lost**: one that was noted in the slot that is taken. -/
theorem StackChange.lost {i : Slot} {got : Option Nat} {pages : List Nat}
    (h : StackChange x (some i) got x') (hx : Sourced pages x)
    (howner : ∀ s t p, x.page s = some p → x.page t = some p → s = t)
    (hlisted : ∀ s p, x.page s = some p → p ∉ x.free) (hkept : Kept (got.toList ++ pages) x') :
    x.page i = none := by
  cases h with
  | @taken _ p rest hpop hnew =>
      by_contra hsome
      obtain ⟨q, hq⟩ := Option.ne_none_iff_exists'.mp hsome
      rcases hkept q (List.mem_cons_of_mem p (hx i q hq)) with ⟨s, hs⟩ | hfree
      · dsimp only at hs
        by_cases hsi : s = i
        · subst hsi
          rw [Function.update_self, Option.some.injEq] at hs
          subst hs
          exact hnew s hq
        · rw [Function.update_of_ne hsi] at hs
          exact hsi (howner s i q hs hq)
      · exact hlisted i q hq (hpop.sub hfree)

end Moves

variable {D : Type}

/-- Where the stack pages of the machine are. -/
def Kernel.stacks (k : Kernel D) : Stacks := ⟨fun s => (k.actors s).stackPage, k.memory.freeList⟩

/-- The page `actor_spawn` gets from `alloc_page`. -/
def spawnPage (k : Kernel D) : Option Nat :=
  match freeSlot k with
  | none => none
  | some _ => (allocPage k.memory).2

/-- The page of a spawn behind the check of the two checked spawns. -/
def childPage (k : Kernel D) (c : Slot) : Option Nat := if MaySpawn k c then spawnPage k else none

/-- The page of `loader_spawn_program`. -/
def loaderPage (k : Kernel D) (c : Slot) (id : Int) : Option Nat :=
  match loaderStage k id with
  | (_, none) => none
  | (k, some _) => childPage k c

/-- The page `actor_spawn` gets during an event of the current actor. -/
def obtainedPage (k : Kernel D) (c : Slot) : Event D → Option Nat
  | .syscall call =>
      match Syscall.decode call.num with
      | some .spawn => childPage k c
      | some .spawnProgram =>
          if actorHasCap k c capReadObject (cInt call.a1) then loaderPage k c (cInt call.a1)
          else none
      | _ => none
  | _ => none

theorem obtainedPage_of_call {k : Kernel D} {c : Slot} {e : Event D} {sys : Syscall} {call : Call}
    (h : IsCall e sys call) (hs : sys ≠ .spawn) (hp : sys ≠ .spawnProgram) :
    obtainedPage k c e = none := by
  obtain ⟨rfl, hdecode⟩ := h
  cases sys <;> simp_all [obtainedPage]

theorem setActor_stacks (k : Kernel D) (s : Slot) (a : Actor) :
    (k.setActor s a).stacks = ⟨Function.update k.stacks.page s a.stackPage, k.stacks.free⟩ := by
  refine congrArg (Stacks.mk · k.memory.freeList) ?_
  funext t
  by_cases ht : t = s
  · subst ht
    rw [setActor_actors, Function.update_self, Function.update_self]
  · rw [setActor_actors, Function.update_of_ne ht, Function.update_of_ne ht]
    rfl

/-- A record that keeps its page. -/
theorem setActor_stacks_same {k : Kernel D} {s : Slot} {a : Actor}
    (h : a.stackPage = (k.actors s).stackPage) : (k.setActor s a).stacks = k.stacks := by
  rw [setActor_stacks, h]
  exact congrArg (Stacks.mk · k.memory.freeList) (Function.update_eq_self s k.stacks.page)

theorem setState_stacks (k : Kernel D) (s : Slot) (st : ActorState) :
    (k.setState s st).stacks = k.stacks :=
  setActor_stacks_same rfl

theorem actorAddCap_stacks (k : Kernel D) (s : Slot) (op target : Int) :
    (actorAddCap k s op target).1.stacks = k.stacks := by
  rw [actorAddCap_fst]
  exact setActor_stacks_same rfl

theorem bumpScan_freeList (fuel : Nat) (m : Memory) : (bumpScan fuel m).1.freeList = m.freeList := by
  induction fuel generalizing m with
  | zero => rfl
  | succ fuel ih =>
      unfold bumpScan
      split
      · split
        · exact ih _
        · rfl
      · rfl

theorem allocPage_popped {m m' : Memory} {p : Nat} (h : allocPage m = (m', some p)) :
    Popped m.freeList p m'.freeList := by
  unfold allocPage at h
  split at h
  · rename_i addr rest hlist
    cases h
    exact Or.inl hlist
  · rename_i hempty
    have hkept := bumpScan_freeList ((m.memTop - m.nextFreePage) / pageSize + 1) m
    rw [h] at hkept
    exact Or.inr ⟨hempty, hkept.trans hempty⟩

theorem allocPage_failed {m m' : Memory} (h : allocPage m = (m', none)) :
    m'.freeList = m.freeList := by
  unfold allocPage at h
  split at h
  · cases h
  · have hkept := bumpScan_freeList ((m.memTop - m.nextFreePage) / pageSize + 1) m
    rw [h] at hkept
    exact hkept

theorem freePage_freeList (m : Memory) (p : Nat) :
    (freePage m p).freeList = pushFree m.freeList p := by
  unfold freePage pushFree
  split
  · rfl
  · rfl

/-- **`actor_spawn`** takes a slot, or gives the page back, or gets none. -/
theorem actorSpawn_stacks {L : Layout} {prog : Slot → Option (Nat × Nat)} {k : Kernel D}
    (hmem : MemInv L prog k) (entry : Nat) :
    StackChange k.stacks (actorSpawn L k entry).2 (spawnPage k) (actorSpawn L k entry).1.stacks := by
  unfold actorSpawn spawnPage
  cases freeSlot k with
  | none => exact .same _
  | some i =>
      dsimp only
      cases halloc : allocPage k.memory with
      | mk mem answer =>
          cases answer with
          | none =>
              have hlist := allocPage_failed halloc
              dsimp only
              rw [show ({ k with memory := mem } : Kernel D).stacks = k.stacks from
                congrArg (Stacks.mk k.stacks.page) hlist]
              exact .same _
          | some p =>
              have hpop : Popped k.stacks.free p mem.freeList := allocPage_popped halloc
              dsimp only
              cases halAddressSpaceCreate L mem.ram i p actorStackSize with
              | mk ram cr3 =>
                  cases cr3 with
                  | none =>
                      have hrefund := StackChange.refunded (x := k.stacks) hpop
                      rw [← freePage_freeList { mem with ram := ram } p] at hrefund
                      exact hrefund
                  | some cr3 =>
                      have hnew : ∀ s, k.stacks.page s ≠ some p := by
                        intro s hs
                        rcases allocPage_spec hmem.alloc with ⟨hnone, -⟩ | ⟨q, hsome, hout⟩
                        · rw [halloc] at hnone
                          cases hnone
                        · rw [halloc] at hsome
                          cases hsome
                          exact hout.fresh (hmem.stack s p hs).1
                      have htaken := StackChange.taken (x := k.stacks) (i := i) hpop hnew
                      dsimp only
                      rw [setActor_stacks]
                      exact htaken

theorem actorSpawnProgram_stacks {L : Layout} {prog : Slot → Option (Nat × Nat)} {k : Kernel D}
    (hmem : MemInv L prog k) (physBase physSize entryOffset : Nat) :
    StackChange k.stacks (actorSpawn L k (programVbase + entryOffset)).2 (spawnPage k)
      (actorSpawnProgram L k physBase physSize entryOffset).1.stacks := by
  have hspawn := actorSpawn_stacks hmem (programVbase + entryOffset)
  unfold actorSpawnProgram
  generalize actorSpawn L k (programVbase + entryOffset) = r at hspawn ⊢
  obtain ⟨k1, result⟩ := r
  cases result with
  | none => exact hspawn
  | some slot =>
      dsimp only
      generalize halAddressSpaceMapProgram L k1.memory.ram k1.pool slot physBase physSize = mapped
      obtain ⟨ram, pool, rc⟩ := mapped
      dsimp only
      split
      · rw [setState_stacks]
        exact hspawn
      · exact hspawn

theorem adoptChild_stacks (k : Kernel D) (c i : Slot) : (adoptChild k c i).stacks = k.stacks := by
  unfold adoptChild
  dsimp only
  rw [actorAddCap_stacks, actorAddCap_stacks, actorAddCap_stacks]
  exact setActor_stacks_same rfl

/-- The tail of both checked spawns changes no stack page. -/
theorem StackChange.checked {x : Stacks} {taken : Option Slot} {got : Option Nat} {c : Slot}
    {k1 : Kernel D} {result : Option Slot} (h : StackChange x taken got k1.stacks) :
    StackChange x taken got
      (match (k1, result) with
        | (k, none) => (k, none)
        | (k, some child) => (adoptChild k c child, some child) : Kernel D × Option Slot).1.stacks := by
  cases result with
  | none => exact h
  | some child =>
      dsimp only
      rw [adoptChild_stacks]
      exact h

theorem actorSpawnChild_stacks {L : Layout} {prog : Slot → Option (Nat × Nat)} {k : Kernel D}
    (hmem : MemInv L prog k) (c : Slot) (entry : Nat) :
    StackChange k.stacks (childTaken L k c entry) (childPage k c)
      (actorSpawnChild L k c entry).1.stacks := by
  unfold actorSpawnChild childTaken childPage
  by_cases hmay : MaySpawn k c
  · rw [if_neg (not_not.mpr hmay), if_pos hmay, if_pos hmay]
    exact (actorSpawn_stacks hmem entry).checked
  · rw [if_pos hmay, if_neg hmay, if_neg hmay]
    exact .same _

/-- The loader's own allocations leave the free list alone. -/
theorem loaderStage_stacks (k : Kernel D) (id : Int) : (loaderStage k id).1.stacks = k.stacks := by
  unfold loaderStage
  split
  · rfl
  · dsimp only
    split
    · rfl
    · rename_i image _
      split
      · rename_i mem hdenied
        have hlist := allocDmaPages_freeList k.memory image.pages
        rw [hdenied] at hlist
        exact congrArg (Stacks.mk k.stacks.page) hlist
      · rename_i mem phys hgranted
        have hlist := allocDmaPages_freeList k.memory image.pages
        rw [hgranted] at hlist
        exact congrArg (Stacks.mk k.stacks.page) hlist

theorem loaderSpawnProgram_stacks {L : Layout} {prog : Slot → Option (Nat × Nat)} {k : Kernel D}
    (hmem : MemInv L prog k) (c : Slot) (id : Int) :
    StackChange k.stacks (loaderTaken L k c id) (loaderPage k c id)
      (loaderSpawnProgram L k c id).1.stacks := by
  have hstage := loaderStage_stacks k id
  have hmem1 := (loaderStage_mem hmem id).1
  unfold loaderSpawnProgram loaderTaken loaderPage
  generalize loaderStage k id = r at hstage hmem1 ⊢
  obtain ⟨k1, result⟩ := r
  dsimp only at hstage hmem1
  rw [← hstage]
  cases result with
  | none => exact .same _
  | some staged =>
      obtain ⟨phys, image⟩ := staged
      dsimp only
      unfold actorSpawnProgramChild childTaken childPage
      by_cases hmay : MaySpawn k1 c
      · rw [if_neg (not_not.mpr hmay), if_pos hmay, if_pos hmay]
        exact (actorSpawnProgram_stacks hmem1 phys (image.pages * 4096) image.entryOffset).checked
      · rw [if_pos hmay, if_neg hmay, if_neg hmay]
        exact .same _

theorem reapActor_reaps (k : Kernel D) (i : Slot) :
    Relation.ReflTransGen Reap k.stacks (reapActor k i).stacks := by
  rcases reapActor_cases k i with heq | ⟨page, _, _, hpage, heq⟩
  · rw [heq]
  · rw [heq, setActor_stacks]
    have hfree : (freePage k.memory page).freeList = pushFree k.stacks.free page :=
      freePage_freeList k.memory page
    have hreap := Reap.slot (x := k.stacks) hpage
    rw [← hfree] at hreap
    exact .single hreap

theorem reapDeadActors_reaps (k : Kernel D) :
    Relation.ReflTransGen Reap k.stacks (reapDeadActors k).stacks := by
  unfold reapDeadActors
  generalize List.finRange maxActors = slots
  induction slots generalizing k with
  | nil => exact .refl
  | cons i rest ih =>
      rw [List.foldl_cons]
      exact (reapActor_reaps k i).trans (ih _)

/-- The switch to the next actor moves no page. -/
theorem scheduleNext_stacks (k : Kernel D) :
    (scheduleNext k).stacks = (reapDeadActors k).stacks := by
  rcases scheduleNext_cases k with ⟨heq, _⟩ | ⟨next, a, _, ⟨ctx, rfl, _⟩, heq⟩
  · rw [heq]
    rfl
  · rw [heq]
    exact setActor_stacks_same (k := reapDeadActors k) (s := next) rfl

theorem scheduleNext_reaps (k : Kernel D) :
    Relation.ReflTransGen Reap k.stacks (scheduleNext k).stacks := by
  rw [scheduleNext_stacks]
  exact reapDeadActors_reaps k

theorem actorSend_stacks (k : Kernel D) (c : Slot) (dest : Int) (type data : Word) :
    (actorSend k c dest type data).1.stacks = k.stacks := by
  rcases actorSend_cases k c dest type data with heq | ⟨d, _, _, _, _, heq⟩
  · rw [heq]
  · rw [heq]
    exact setActor_stacks_same rfl

theorem actorDelegate_stacks (k : Kernel D) (c : Slot) (dest op target : Int) :
    (actorDelegate k c dest op target).1.stacks = k.stacks := by
  rcases actorDelegate_cases k c dest op target with heq | ⟨d, _, _, heq⟩
  · rw [heq]
  · rw [heq]
    exact actorAddCap_stacks k d _ _

theorem sysCreateName_stacks (k : Kernel D) (c : Slot) (name : Nat → UInt8) :
    (sysCreateName k c name).kernel.stacks = k.stacks := by
  rcases sysCreateName_cases k c name with ⟨_, heq⟩ | ⟨_, heq⟩
  · rw [heq]
    rfl
  · rw [heq]
    exact setActor_stacks_same (k := { k with store := _ }) rfl

/-- A quiet call moves no page. -/
theorem Quiet.stacks {k k' : Kernel D} {c : Slot} {out : List (Nat × UInt8)}
    (h : Quiet k c out k') : k'.stacks = k.stacks := by
  unfold Kernel.stacks
  rw [h.actors, h.memory]
  rfl

/-- `SYS_RECEIVE` takes a message, or blocks the actor and reaps. -/
theorem sysReceive_stacks (k : Kernel D) (c : Slot) (out : Word) :
    ((sysReceive k c out).finish c).1.stacks = k.stacks ∨
    ∃ waiting : Kernel D, waiting.stacks = k.stacks ∧
      ((sysReceive k c out).finish c).1 = scheduleNext waiting := by
  rcases sysReceive_cases k c out with ⟨_, heq⟩ | ⟨_, heq⟩
  · have hwaiting : (k.setActor c { k.actors c with
        state := .blocked, context := .receiving out }).stacks = k.stacks :=
      setActor_stacks_same rfl
    rw [heq]
    exact Or.inr ⟨_, hwaiting, rfl⟩
  · rw [heq]
    exact Or.inl (setActor_stacks_same (k := k) (s := c) rfl)

/-- **What a step does to the stack pages.** -/
theorem Stepped.stacks {L : Layout} {hal : Hal D} {prog : Slot → Option (Nat × Nat)}
    {k k' : Kernel D} {c : Slot} {e : Event D} {o : Outcome} (h : Stepped L hal k c e k' o)
    (hmem : MemInv L prog k) :
    StackChange k.stacks (takenSlot L k c e) (obtainedPage k c e) k'.stacks := by
  have hquiet : takenSlot L k c e = none → obtainedPage k c e = none →
      Relation.ReflTransGen Reap k.stacks k'.stacks →
      StackChange k.stacks (takenSlot L k c e) (obtainedPage k c e) k'.stacks := by
    intro htaken hpage hreaps
    rw [htaken, hpage]
    exact .reaped hreaps
  have hcall : ∀ {sys : Syscall} {call : Call}, IsCall e sys call → sys ≠ .spawn →
      sys ≠ .spawnProgram → Relation.ReflTransGen Reap k.stacks k'.stacks →
      StackChange k.stacks (takenSlot L k c e) (obtainedPage k c e) k'.stacks := by
    intro sys call hcall hs hp hreaps
    exact hquiet (takenSlot_of_call hcall hs hp) (obtainedPage_of_call hcall hs hp) hreaps
  have hsame : k'.stacks = k.stacks → Relation.ReflTransGen Reap k.stacks k'.stacks := by
    intro heq
    rw [heq]
  have hyield : Relation.ReflTransGen Reap k.stacks (actorYield k c).stacks := by
    have hreaps := scheduleNext_reaps (k.setState c .ready)
    rw [setState_stacks] at hreaps
    exact hreaps
  cases h with
  | tick => exact hquiet rfl rfl hyield
  | yield hyieldCall => exact hcall hyieldCall (by simp) (by simp) hyield
  | exit hexit =>
      have hreaps := scheduleNext_reaps (k.setState c .dead)
      rw [setState_stacks] at hreaps
      exact hcall hexit (by simp) (by simp) hreaps
  | send hsend => exact hcall hsend (by simp) (by simp) (hsame (actorSend_stacks k c _ _ _))
  | receive out hreceive =>
      have hreaps : Relation.ReflTransGen Reap k.stacks ((sysReceive k c out).finish c).1.stacks := by
        rcases sysReceive_stacks k c out with hkept | ⟨waiting, hwaiting, heq⟩
        · exact hsame hkept
        · rw [heq, ← hwaiting]
          exact scheduleNext_reaps waiting
      rcases hreceive with ⟨call, hreceive, _⟩ | ⟨rfl, _⟩
      · exact hcall hreceive (by simp) (by simp) hreaps
      · exact hquiet rfl rfl hreaps
  | grant hgrant => exact hcall hgrant (by simp) (by simp) (hsame (actorDelegate_stacks k c _ _ _))
  | @spawn _ call hspawn =>
      obtain ⟨rfl, hdecode⟩ := hspawn
      simp only [takenSlot, obtainedPage, hdecode]
      exact actorSpawnChild_stacks hmem c call.a1.toNat
  | @terminate _ call hterm =>
      refine hcall hterm (by simp) (by simp) (hsame ?_)
      rcases actorTerminate_cases k c (cInt call.a1) with heq | ⟨t, _, _, _, heq⟩
      · rw [heq]
      · rw [heq]
        exact setState_stacks k t .dead
  | @spawnProgram _ call hspawn hcap =>
      obtain ⟨rfl, hdecode⟩ := hspawn
      simp only [takenSlot, obtainedPage, hdecode, hcap, if_true]
      exact loaderSpawnProgram_stacks hmem c (cInt call.a1)
  | createName hcreate hcap =>
      exact hcall hcreate (by simp) (by simp) (hsame (sysCreateName_stacks k c _))
  | programDenied hspawn hcap =>
      obtain ⟨rfl, hdecode⟩ := hspawn
      refine hquiet ?_ ?_ .refl
      · simp [takenSlot, hdecode, hcap]
      · simp [obtainedPage, hdecode, hcap]
  | createDenied hcreate => exact hcall hcreate (by simp) (by simp) .refl
  | quietCall hquietCall hloud hstep =>
      exact hcall hquietCall (Syscall.ne_of_quiet hloud rfl) (Syscall.ne_of_quiet hloud rfl)
        (hsame hstep.stacks)
  | unknown hdecode =>
      refine hquiet ?_ ?_ .refl
      · simp [takenSlot, hdecode]
      · simp [obtainedPage, hdecode]
  | store | device | fault => exact hquiet rfl rfl .refl

/-- The pages `actor_spawn` got during the first calls of `kernel_main`. -/
def setupPages (L : Layout) (b : Boot D) : Nat → List Nat
  | 0 => []
  | n+1 =>
      (match (kernelMainOps b)[n]? with
        | some (.spawn _) => spawnPage (setupState L b n)
        | _ => none).toList ++ setupPages L b n

/-- The pages `actor_spawn` ever got. -/
def obtainedPages (L : Layout) (b : Boot D) : List (Record D) → List Nat
  | [] => setupPages L b (kernelMainOps b).length
  | t :: tr => (t.pre.current.bind fun c => obtainedPage t.pre c t.event).toList ++
      obtainedPages L b tr

/-- The invariant of the stack pages. -/
structure StacksOk (pages : List Nat) (x : Stacks) : Prop where
  circulating : Circulating x
  kept : Kept pages x
  sourced : Sourced pages x

theorem StacksOk.change {x x' : Stacks} {taken : Option Slot} {got : Option Nat} {pages : List Nat}
    (hok : StacksOk pages x) (h : StackChange x taken got x')
    (hreaped : ∀ i, taken = some i → x.page i = none) : StacksOk (got.toList ++ pages) x' :=
  ⟨h.circulating hok.circulating, h.kept hok.circulating hok.kept hreaped, h.sourced hok.sourced⟩

/-- During `kernel_main` no dead slot has a page noted. -/
def Vacant (k : Kernel D) : Prop :=
  ∀ s, (k.actors s).state = .dead → (k.actors s).stackPage = none

theorem setActor_vacant {k : Kernel D} {s : Slot} {a : Actor} (h : Vacant k)
    (hstate : a.state = .dead → a.stackPage = none) : Vacant (k.setActor s a) := by
  intro t
  by_cases ht : t = s
  · subst ht
    rw [setActor_actors, Function.update_self]
    exact hstate
  · rw [setActor_actors, Function.update_of_ne ht]
    exact h t

theorem actorSpawn_vacant {k : Kernel D} (h : Vacant k) (L : Layout) (entry : Nat) :
    Vacant (actorSpawn L k entry).1 := by
  rcases actorSpawn_actors L k entry with ⟨_, heq⟩ | ⟨i, cr3, page, _, _, heq⟩
  · intro s
    rw [heq]
    exact h s
  · intro s
    rw [heq]
    by_cases hs : s = i
    · subst hs
      rw [Function.update_self]
      exact fun hdead => by cases hdead
    · rw [Function.update_of_ne hs]
      exact h s

/-- The other calls of `kernel_main` have nothing to do with stack pages. -/
theorem setupStep_stacks (L : Layout) (k : Kernel D) {op : SetupOp}
    (hop : ∀ entry, op ≠ .spawn entry) : (setupStep L k op).stacks = k.stacks := by
  rcases setupStep_cases L k op with ⟨entry, heq, _⟩ | ⟨st, heq⟩ | ⟨d, right, target, _, heq⟩ |
    ⟨s, quota, win, heq⟩
  · exact absurd heq (hop entry)
  · rw [heq]
    rfl
  · rw [heq]
    exact setActor_stacks_same rfl
  · rw [heq]
    exact setActor_stacks_same rfl

theorem setupStep_vacant (L : Layout) {k : Kernel D} {op : SetupOp}
    (hop : ∀ entry, op ≠ .spawn entry) (h : Vacant k) : Vacant (setupStep L k op) := by
  rcases setupStep_cases L k op with ⟨entry, heq, _⟩ | ⟨st, heq⟩ | ⟨d, right, target, _, heq⟩ |
    ⟨s, quota, win, heq⟩
  · exact absurd heq (hop entry)
  · rw [heq]
    exact h
  · rw [heq]
    exact setActor_vacant h (h d)
  · rw [heq]
    exact setActor_vacant h (h s)

theorem powerOn_free (b : Boot D) : (powerOn b).memory.freeList = [] := by
  have hbuffers : ∀ (counts : List Int) (m : Memory),
      (counts.foldl (fun m n => (allocDmaPages m n).1) m).freeList = m.freeList := by
    intro counts
    induction counts with
    | nil => exact fun _ => rfl
    | cons n rest ih => exact fun m => (ih _).trans (allocDmaPages_freeList m n)
  exact (hbuffers b.netBuffers _).trans (memoryInit_freeList _ _)

theorem powerOn_circulating (b : Boot D) : Circulating (powerOn b).stacks := by
  have hheld : (powerOn b).stacks.held = ∅ := by
    ext s
    simp [Stacks.held, show (powerOn b).stacks.page s = none from rfl]
  have hfree : (powerOn b).stacks.free = [] := powerOn_free b
  unfold Circulating
  rw [hfree, hheld]
  decide

/-- **No page is lost during `kernel_main`.** -/
theorem setupState_stacks (L : Layout) (b : Boot D) (n : Nat) :
    StacksOk (setupPages L b n) (setupState L b n).stacks ∧ Vacant (setupState L b n) := by
  induction n with
  | zero =>
      refine ⟨⟨powerOn_circulating b, fun p hp => (by cases hp), fun s p hs => ?_⟩, fun s _ => rfl⟩
      have hs' : (powerOn b).stacks.page s = some p := hs
      cases hs'
  | succ n ih =>
      obtain ⟨hok, hvacant⟩ := ih
      have hmem := setupState_mem L b n
      rw [setupState_succ, setupPages]
      generalize setupState L b n = k at *
      have hquiet : ∀ {op : SetupOp}, (∀ entry, op ≠ .spawn entry) →
          StacksOk (setupPages L b n) (setupStep L k op).stacks ∧ Vacant (setupStep L k op) := by
        intro op hop
        rw [setupStep_stacks L k hop]
        exact ⟨hok, setupStep_vacant L hop hvacant⟩
      cases (kernelMainOps b)[n]? with
      | none => exact ⟨hok, hvacant⟩
      | some op =>
          dsimp only
          cases op with
          | spawn entry =>
              refine ⟨hok.change (actorSpawn_stacks hmem entry) fun i hi => ?_,
                actorSpawn_vacant hvacant L entry⟩
              rcases actorSpawn_actors L k entry with ⟨hnone, _⟩ | ⟨j, _, _, hsome, hdead, _⟩
              · rw [hnone] at hi
                cases hi
              · rw [hsome, Option.some.injEq] at hi
                subst hi
                exact hvacant j hdead
          | createObject | seedObject | grant | setSpawnQuota | setWindow => exact hquiet (by simp)

/-- No spawn of the step takes a slot whose stack page is still noted. -/
def SpawnsReaped (L : Layout) (t : Record D) : Prop :=
  ∀ i, spawnedInto L t = some i → (t.pre.actors i).stackPage = none

instance (L : Layout) (t : Record D) : Decidable (SpawnsReaped L t) :=
  inferInstanceAs (Decidable (∀ i, spawnedInto L t = some i → (t.pre.actors i).stackPage = none))

section Runs

variable {L : Layout} {hal : Hal D} {b : Boot D} {tr : List (Record D)} {k : Kernel D}

/-- The change a recorded step of a run makes. -/
theorem Run.stackChange (hrun : Run L hal b tr k) {e : Event D} {o : Outcome} {k' : Kernel D}
    (hstep : step L hal k e = some (k', o)) :
    StackChange k.stacks (spawnedInto L ⟨k, e, o, k'⟩)
      (k.current.bind fun c => obtainedPage k c e) k'.stacks := by
  obtain ⟨c, _, hcur, _, hstepped⟩ := Run.stepped hrun hstep
  have hchange := hstepped.stacks (run_mem hrun)
  unfold spawnedInto
  dsimp only
  rw [hcur]
  exact hchange

theorem StacksOk.scheduleNext {pages : List Nat} {k : Kernel D} (h : StacksOk pages k.stacks) :
    StacksOk pages (scheduleNext k).stacks := by
  have hchange : StackChange k.stacks none none (Vajra.scheduleNext k).stacks :=
    .reaped (scheduleNext_reaps k)
  exact h.change hchange fun i hi => by cases hi

theorem kernelMain_stacksOk (L : Layout) (b : Boot D) :
    StacksOk (setupPages L b (kernelMainOps b).length) (kernelMain L b).stacks := by
  rw [kernelMain_eq_setupState]
  exact (setupState_stacks L b _).1

theorem Run.stacksOk (hrun : Run L hal b tr k) (hreaped : ∀ t ∈ tr, SpawnsReaped L t) :
    StacksOk (obtainedPages L b tr) k.stacks := by
  have hall := hrun.history_invariant
    (fun tr k => (∀ t ∈ tr, SpawnsReaped L t) → StacksOk (obtainedPages L b tr) k.stacks) ?_ ?_
  · exact hall hreaped
  · intro _
    rw [obtainedPages]
    exact (kernelMain_stacksOk L b).scheduleNext
  · intro tr k e o k' hrun hold hstep hreaped
    have hok := hold fun t ht => hreaped t (List.mem_cons_of_mem _ ht)
    rw [obtainedPages]
    exact hok.change (Run.stackChange hrun hstep) (hreaped _ List.mem_cons_self)

/-- **No stack page is lost while dead slots are reaped before they are taken.**  Every page
`actor_spawn` got from `alloc_page` is the stack page of exactly one slot or on the free
list, during `kernel_main` and in every state of every run in which no spawn takes a slot
with a page still noted; and the next step keeps it so exactly when it does not either. -/
theorem stack_pages_accounted (L : Layout) (hal : Hal D) (b : Boot D) :
    (∀ n, Accounted (setupPages L b n) (setupState L b n).stacks) ∧
    ∀ tr k, Run L hal b tr k → (∀ t ∈ tr, SpawnsReaped L t) →
      Accounted (obtainedPages L b tr) k.stacks ∧
      ∀ e k' o, step L hal k e = some (k', o) →
        (Accounted (obtainedPages L b (⟨k, e, o, k'⟩ :: tr)) k'.stacks ↔
          SpawnsReaped L ⟨k, e, o, k'⟩) := by
  constructor
  · intro n
    exact (setupState_stacks L b n).1.kept.accounted (setupState_mem L b n).owner
  · intro tr k hrun hreaped
    have hok := Run.stacksOk hrun hreaped
    have hmem := run_mem hrun
    refine ⟨hok.kept.accounted hmem.owner, fun e k' o hstep => ⟨fun hnext i hi => ?_, fun hnext => ?_⟩⟩
    · have hchange := Run.stackChange hrun hstep
      rw [hi] at hchange
      exact hchange.lost hok.sourced hmem.owner (fun s p hs => (hmem.stack s p hs).1.notFree)
        hnext.kept
    · have hrun' : Run L hal b (⟨k, e, o, k'⟩ :: tr) k' := .snoc hrun hstep
      have hok' := hok.change (Run.stackChange hrun hstep) hnext
      exact hok'.kept.accounted (run_mem hrun').owner

end Runs

set_option maxRecDepth 100000 in
/-- The coordinator spawns a worker; the page of its stack is accounted for. -/
theorem stack_pages_accounted_worker :
    ∃ tr k, Run sampleLayout silentHal sampleBoot tr k ∧ (∀ t ∈ tr, SpawnsReaped sampleLayout t) ∧
      0x10F000 ∈ obtainedPages sampleLayout sampleBoot tr ∧
      Accounted (obtainedPages sampleLayout sampleBoot tr) k.stacks := by
  have hrun : (sampleRun (List.replicate 6 .tick ++ [sampleCall 7 0x20000 0 0])).map
      (fun r => (decide (∀ t ∈ r.1, SpawnsReaped sampleLayout t),
        decide (0x10F000 ∈ obtainedPages sampleLayout sampleBoot r.1))) = some (true, true) := by
    decide +kernel
  obtain ⟨tr, k, htrace, hview⟩ := exists_trace_of_runTrace hrun
  simp only [Prod.mk.injEq, decide_eq_true_eq] at hview
  exact ⟨tr, k, htrace, hview.1, hview.2,
    ((stack_pages_accounted sampleLayout silentHal sampleBoot).2 tr k htrace hview.1).1⟩

/-- The coordinator spawns a worker into slot 15, terminates it and spawns another one. -/
def respawnEvents : List (Event Unit) :=
  List.replicate 6 .tick ++
    [sampleCall 7 0x20000 0 0, sampleCall 8 15 0 0, sampleCall 7 0x20000 0 0]

set_option maxRecDepth 100000 in
/-- The page of the first worker is then noted nowhere. -/
theorem stack_page_overwritten :
    ∃ tr k, Run sampleLayout silentHal sampleBoot tr k ∧
      ¬ Accounted (obtainedPages sampleLayout sampleBoot tr) k.stacks := by
  have hrun : (sampleRun respawnEvents).map
      (fun r => (decide (0x10F000 ∈ obtainedPages sampleLayout sampleBoot r.1),
        decide (∀ s, r.2.stacks.page s ≠ some 0x10F000), decide (0x10F000 ∈ r.2.stacks.free))) =
        some (true, true, false) := by
    decide +kernel
  obtain ⟨tr, k, htrace, hview⟩ := exists_trace_of_runTrace hrun
  simp only [Prod.mk.injEq, decide_eq_true_eq, decide_eq_false_iff_not] at hview
  obtain ⟨hmem, hslots, hlist⟩ := hview
  refine ⟨tr, k, htrace, fun haccounted => ?_⟩
  rcases haccounted _ hmem with ⟨s, hs, -⟩ | hfree
  · exact hslots s hs
  · exact hlist hfree

end Vajra
