import Vajra.QuarantineActors
import Vajra.SyscallContracts

/-!
# What the verdict of an Inspector rests on (`core/main.c`, `actor_inspector`)

An Inspector reads at most 31 bytes of the object, looks for the marker before the first zero
byte of what it got, and answers the task with the verdict.  A read that fails leaves it an
empty string, in which there is no marker; bytes behind the 31st, or behind a zero byte, are
not looked at.  `FailsClosed` says that a pass means that the whole object has been seen and
has no marker in it; `inspector_fails_closed_iff` says when that is so.
-/

namespace Vajra

/-- The marker `"BAD"`. -/
def marker : List UInt8 := [0x42, 0x41, 0x44]

/-- The bytes of an object, as they are on the disk. -/
def Store.bytesOf (st : Store) (id : Int) : List UInt8 :=
  (List.range (st.objects id.toNat).sizeBytes).map (st.disk.bytes (st.objects id.toNat).lba)

/-- The object of a task. -/
def taskObject (task : Message) : Int := cInt task.data

/-- `user_object_read(id, buf, sizeof(buf) - 1)`: the call of an Inspector. -/
def inspectorCall (task : Message) (buf : Word) (residue : Nat → UInt8) : Call :=
  ⟨9, cRet (taskObject task), buf, 31, residue⟩

/-- What the kernel hands to the Inspector in slot `c`. -/
def inspectorRead {D : Type} (L : Layout) (hal : Hal D) (k : Kernel D) (c : Slot) (task : Message)
    (buf : Word) (residue : Nat → UInt8) : Outcome :=
  ((syscallHandler L hal k c (inspectorCall task buf residue)).finish c).2

/-- The message an Inspector sends after the read. -/
def inspectorReply (task : Message) (o : Outcome) : Request :=
  (InspectorPc.answer o (.reading (taskObject task) task.sender)).request

/-- The read succeeded and delivered the whole content. -/
def DeliversAll (o : Outcome) (content : List UInt8) : Prop :=
  o.ret ≠ some (cRet (-1)) ∧ o.out.map Prod.snd = content

/-- A pass means that the whole content has been obtained and the marker is nowhere in it. -/
def FailsClosed (task : Message) (o : Outcome) (content : List UInt8) : Prop :=
  inspectorReply task o = .send (cInt task.sender) msgCheckPass (cRet (taskObject task)) →
    DeliversAll o content ∧ ¬ marker <:+: content

/-- The marker is in the first 31 bytes, before any zero byte. -/
def MarkerInSight (content : List UInt8) : Prop :=
  ∃ before after, content.take 31 = before ++ marker ++ after ∧ 0 ∉ before

/-- The actor holds `CAP_READ_OBJECT` for the object, the object can be read, and the disk
answers. -/
def ReadSucceeds {D : Type} (k : Kernel D) (c : Slot) (id : Int) : Prop :=
  actorHasCap k c capReadObject id = true ∧ k.store.Readable id ∧
    k.store.disk.outcome k.store.disk.requests = .ok

/-! ### The loop -/

/-- A zero byte in front of the third one ends the loop. -/
theorem no_marker_after_zero {a b c : UInt8} {rest : List UInt8} (h : a = 0 ∨ b = 0 ∨ c = 0) :
    ¬ ∃ before after, a :: b :: c :: rest = before ++ marker ++ after ∧ 0 ∉ before := by
  rintro ⟨before, after, heq, hzero⟩
  rcases before with _ | ⟨x, _ | ⟨y, _ | ⟨z, before⟩⟩⟩
  · simp_all [marker]
  · simp_all [marker]
  · simp only [marker, List.cons_append, List.nil_append, List.cons.injEq] at heq
    grind
  · simp only [List.cons_append, List.cons.injEq] at heq
    grind

/-- **What the loop finds.** -/
theorem marked_iff (bytes : List UInt8) : marked bytes = true ↔
    ∃ before after, bytes = before ++ marker ++ after ∧ 0 ∉ before := by
  induction bytes using marked.induct with
  | case1 a b c rest hzero =>
      rw [marked, if_pos hzero]
      simp only [Bool.false_eq_true, false_iff]
      exact no_marker_after_zero hzero
  | case2 a b c rest hzero hmatch =>
      obtain ⟨rfl, rfl, rfl⟩ := hmatch
      rw [marked, if_neg hzero, if_pos ⟨rfl, rfl, rfl⟩]
      simp only [true_iff]
      exact ⟨[], rest, rfl, by simp⟩
  | case3 a b c rest hzero hmatch ih =>
      rw [marked, if_neg hzero, if_neg hmatch, ih]
      constructor
      · rintro ⟨before, after, heq, hbefore⟩
        refine ⟨a :: before, after, by rw [heq]; rfl, fun hmem => ?_⟩
        rcases List.mem_cons.mp hmem with ha | hrest
        · exact hzero (Or.inl ha.symm)
        · exact hbefore hrest
      · rintro ⟨before, after, heq, hbefore⟩
        cases before with
        | nil => simp_all [marker]
        | cons x before =>
            refine ⟨before, after, ?_, fun h => hbefore (List.mem_cons_of_mem _ h)⟩
            exact (List.cons.inj heq).2
  | case4 bytes hshort =>
      have hlength : bytes.length < 3 := by
        rcases bytes with _ | ⟨a, _ | ⟨b, _ | ⟨c, rest⟩⟩⟩
        · simp
        · simp
        · simp
        · exact absurd rfl (hshort a b c rest)
      have hmarked : marked bytes = false := by
        unfold marked
        split
        · rename_i a b c rest
          exact absurd rfl (hshort a b c rest)
        · rfl
      rw [hmarked]
      simp only [Bool.false_eq_true, false_iff]
      rintro ⟨before, after, heq, -⟩
      rw [heq] at hlength
      simp [marker] at hlength
      omega

/-! ### The read -/

section

variable {D : Type} (L : Layout) (hal : Hal D) (k : Kernel D) (c : Slot) (task : Message)
  (buf : Word) (residue : Nat → UInt8)

/-- The object is passed through the register. -/
theorem inspectorCall_object : cInt (inspectorCall task buf residue).a1 = taskObject task :=
  cInt_cRet (BitVec.le_toInt _) BitVec.toInt_lt

/-- The call, without the registers. -/
theorem inspectorRead_eq : inspectorRead L hal k c task buf residue =
    ((guarded k c capReadObject (taskObject task)
      (sysObjectRead k (taskObject task) buf 31)).finish c).2 := by
  have hlen : cUint (31 : Word) = 31 := by decide
  have hdecode : Syscall.decode (9 : Word) = some .objectRead := by decide
  unfold inspectorRead syscallHandler
  rw [show Syscall.decode (inspectorCall task buf residue).num = some .objectRead from hdecode]
  dsimp only [syscallDispatch]
  rw [inspectorCall_object, show cUint (inspectorCall task buf residue).a3 = 31 from hlen]
  rfl

/-- A read that succeeds delivers the first 31 bytes. -/
theorem inspectorRead_delivers (h : ReadSucceeds k c (taskObject task)) :
    (inspectorRead L hal k c task buf residue).ret ≠ some (cRet (-1)) ∧
      (inspectorRead L hal k c task buf residue).out.map Prod.snd =
        (k.store.bytesOf (taskObject task)).take 31 := by
  obtain ⟨hcap, hreadable, hgood⟩ := h
  rw [inspectorRead_eq, guarded, if_pos hcap, sysObjectRead, storageRead_readable hreadable,
    if_pos hgood]
  dsimp only [SysResult.finish]
  have hshort : min (k.store.objects (taskObject task).toNat).sizeBytes 31 ≤ 31 :=
    Nat.min_le_right _ _
  constructor
  · rw [List.length_map, List.length_range, ne_eq, Option.some_inj]
    generalize min (k.store.objects (taskObject task).toNat).sizeBytes 31 = n at hshort
    intro heq
    have hint := congrArg cInt heq
    rw [cInt_cRet (by omega) (by omega), cInt_cRet (by omega) (by omega)] at hint
    omega
  · rw [outAt_bytes, Store.bytesOf, ← List.map_take, List.take_range, Nat.min_comm]
    refine List.map_congr_left fun i hi => ?_
    have hlt := List.mem_range.mp hi
    have hmax : objectMaxBytes = 2048 := rfl
    rw [Store.staged, if_pos (by omega)]

/-- A read that fails delivers nothing. -/
theorem inspectorRead_fails (h : ¬ ReadSucceeds k c (taskObject task)) :
    (inspectorRead L hal k c task buf residue).ret = some (cRet (-1)) ∧
      (inspectorRead L hal k c task buf residue).out = [] := by
  rw [inspectorRead_eq, guarded]
  by_cases hcap : actorHasCap k c capReadObject (taskObject task) = true
  swap
  · rw [if_neg hcap]
    exact ⟨rfl, rfl⟩
  rw [if_pos hcap, sysObjectRead]
  by_cases hreadable : k.store.Readable (taskObject task)
  swap
  · rw [storageRead_refused hreadable]
    exact ⟨rfl, rfl⟩
  have hbad : ¬ k.store.disk.outcome k.store.disk.requests = .ok := fun hgood =>
    h ⟨hcap, hreadable, hgood⟩
  rw [storageRead_readable hreadable, if_neg hbad]
  exact ⟨rfl, rfl⟩

end

/-! ### The verdict -/

theorem inspectorReply_pass_iff (task : Message) (o : Outcome) :
    inspectorReply task o = .send (cInt task.sender) msgCheckPass (cRet (taskObject task)) ↔
      ¬ marked (o.out.map Prod.snd) = true := by
  change Request.send _ (verdictOn _) _ = Request.send _ _ _ ↔ _
  have hdistinct : msgCheckFail ≠ msgCheckPass := by decide
  unfold verdictOn
  by_cases hmarked : marked (o.out.map Prod.snd) = true
  · simp [hmarked, hdistinct]
  · simp [hmarked]

/-- **When an Inspector fails closed.** -/
theorem inspector_fails_closed_iff {D : Type} (L : Layout) (hal : Hal D) (k : Kernel D) (c : Slot)
    (task : Message) (buf : Word) (residue : Nat → UInt8) :
    FailsClosed task (inspectorRead L hal k c task buf residue)
        (k.store.bytesOf (taskObject task)) ↔
      ReadSucceeds k c (taskObject task) ∧
        (MarkerInSight (k.store.bytesOf (taskObject task)) ∨
          ((k.store.bytesOf (taskObject task)).length ≤ 31 ∧
            ¬ marker <:+: k.store.bytesOf (taskObject task))) := by
  unfold FailsClosed
  rw [inspectorReply_pass_iff]
  by_cases hread : ReadSucceeds k c (taskObject task)
  · obtain ⟨hret, hout⟩ := inspectorRead_delivers L hal k c task buf residue hread
    rw [hout, marked_iff, DeliversAll, hout, List.take_eq_self_iff]
    simp only [hret, hread, ne_eq, not_false_eq_true, true_and]
    exact imp_iff_not_or.trans (or_congr not_not Iff.rfl)
  · obtain ⟨hret, hout⟩ := inspectorRead_fails L hal k c task buf residue hread
    have hempty : ¬ marked ([] : List UInt8) = true := by simp [marked]
    rw [DeliversAll, hout, hret]
    simp only [List.map_nil, hempty, hread, ne_eq, not_true_eq_false, false_and]
    simp

/-- The task to inspect object 0, from the actor in slot 9. -/
def inspectPayload : Message := ⟨taskInspect, 9, cRet payloadObjectId⟩

/-- An Inspector that may not read the object lets it pass. -/
theorem denied_read_passes :
    ¬ FailsClosed inspectPayload
      (inspectorRead sampleLayout silentHal (powerOn sampleBoot) ⟨15, by decide⟩ inspectPayload 0
        fun _ => 0)
      ((powerOn sampleBoot).store.bytesOf (taskObject inspectPayload)) := by
  intro h
  have hdenied : actorHasCap (powerOn sampleBoot) ⟨15, by decide⟩ capReadObject
      (taskObject inspectPayload) = false := by decide +kernel
  obtain ⟨hret, hout⟩ := inspectorRead_fails sampleLayout silentHal (powerOn sampleBoot)
    ⟨15, by decide⟩ inspectPayload 0 (fun _ => 0) fun hread => by
      rw [hread.1] at hdenied
      cases hdenied
  have hpass := (inspectorReply_pass_iff inspectPayload _).mpr (by rw [hout]; simp [marked])
  exact (h hpass).1.1 hret

end Vajra
