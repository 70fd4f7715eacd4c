import MoggersOs.Kernel.PrivateMemory
/-
# A new process waits for its turn

Between its creation and its first turn other processes run, and more are created. None of that reaches the context,
the addresses or the memory of the process that waits (`Waits.run`), so it starts as it was created: with the bytes that
`read` has put into its page (`Delivers.finds`), at the entry point.

| here | there |
| --- | --- |
| `WaitingStep` | an event before the first turn |
| `Waits`       | what the process is to start with |
-/

namespace MoggersOs

/-- An event while slot `i` is not on the CPU. -/
def WaitingStep (i : Fin 16) (x : System × Memories) (e : SystemEvent) (y : System × Memories) : Prop :=
  x.1.machine.kernel.currentProcessIdx ≠ i ∧ SystemRun x e y

/-- The process in slot `i` has context `c`, the addresses `tr`, and `own` in its memory. -/
structure Waits (i : Fin 16) (c : Context) (tr : UInt32 → Option ℕ) (own : UInt32 → UInt8) (x : System) (m : Memories) :
    Prop where
  used    : x.machine.kernel.processUsed i = true
  context : (x.machine.kernel.processList i).context = c
  space   : addressSpace x.machine.kernel i = tr
  memory  : m i = own

theorem Memories.change_of_ne {m : Memories} {current : ℕ} {i : Fin 16} (h : current ≠ i)
    (f : (UInt32 → UInt8) → UInt32 → UInt8) : m.change current f i = m i := if_neg h

namespace Waits

variable {i : Fin 16} {c : Context} {tr : UInt32 → Option ℕ} {own : UInt32 → UInt8} {x y : System} {m : Memories}

/-- A creation takes another slot. -/
theorem create {addr : UInt32} {r : Request} {fuel : ℕ} (h : Waits i c tr own x m) (hx : Secluded x m)
    (hl : Lasting (.create (processRequest addr r))) (hc : Creates fuel x addr r y) :
    Waits i c tr own y (m.observe x (.create addr r) y) := by
  obtain ⟨j, -, -, ⟨hslot, -, -, -, -, -, hold⟩, -⟩ := hx.starts hl hc
  obtain ⟨hcreate, res, -, hread, -⟩ := hc
  obtain ⟨hkernel, -, -⟩ := createFromFile_success hcreate hread
  have hdoes := processCreateUserProcess_does (processCreateUserProcess_passes hkernel) 0
  rw [hkernel] at hdoes
  have hij : i ≠ j := by
    rintro rfl
    exact processListGetInactiveIndex_ne h.used hslot
  refine ⟨?_, ?_, ?_, ?_⟩
  · rw [hdoes.used i, h.used, Bool.true_or]
  · rw [hdoes.process i fun hs => hij (Option.some.inj (hslot.symm.trans hs)).symm, h.context]
  · rw [← h.space]
    exact funext (hold i hij)
  · unfold Memories.observe
    rw [hslot]
    exact (Function.update_of_ne hij _ _).trans h.memory

/-- A tick saves the context of another process. -/
theorem tick {frame : InterruptFrame} (h : Waits i c tr own x m) (hx : Secluded x m)
    (hi : x.machine.kernel.currentProcessIdx ≠ i) (ht : KernelEvent.Happens x.machine.kernel (.tick frame) y.machine.kernel) :
    Waits i c tr own y (m.observe x (.tick frame) y) := by
  obtain ⟨g, n, htr, hlod⟩ := hx.lodged
  obtain ⟨fuel, ht⟩ := ht
  obtain ⟨-, hspace⟩ := hlod.tick htr ht
  have hused : y.machine.kernel.processUsed i = true := by
    rw [(Kept.tick ht).used]
    exact h.used
  refine ⟨hused, ?_, hspace ▸ h.space, h.memory⟩
  rw [(htr.tick ht).logged.context i hused, ← h.context, hlod.logged.context i h.used]
  exact if_neg hi

/-- **One event before the turn.** -/
theorem step {e : SystemEvent} (h : Waits i c tr own x m) (hx : Secluded x m)
    (hi : x.machine.kernel.currentProcessIdx ≠ i) (hs : SystemStep x e y) : Waits i c tr own y (m.observe x e y) := by
  cases e with
  | create addr r =>
    obtain ⟨hl, fuel, hc⟩ := hs
    exact h.create hx hl hc
  | tick frame => exact h.tick hx hi hs.1
  | load va b =>
    obtain ⟨a, -, -, rfl⟩ := hs
    exact h
  | store va b =>
    obtain ⟨a, -, rfl⟩ := hs
    refine ⟨h.used, h.context, h.space, ?_⟩
    unfold Memories.observe
    dsimp only
    rw [Memories.change_of_ne hi, h.memory]
  | call addr ecx op rep n =>
    obtain ⟨-, -, -, -, -, -, -, -, -, hkernel⟩ := hs
    refine ⟨?_, ?_, ?_, ?_⟩
    · rw [hkernel]
      exact h.used
    · rw [hkernel]
      exact h.context
    · rw [hkernel]
      exact h.space
    · unfold Memories.observe
      dsimp only
      rw [Memories.change_of_ne hi, h.memory]

/-- **Any events before the turn.** -/
theorem run {z : System} {m' : Memories} {events : List SystemEvent} (h : Waits i c tr own x m) (hx : Secluded x m)
    (hrun : Lib.Path (WaitingStep i) (x, m) events (z, m')) : Waits i c tr own z m' ∧ Secluded z m' := by
  refine hrun.invariant (I := fun w => Waits i c tr own w.1 w.2 ∧ Secluded w.1 w.2) (fun w e w' hw hs => ?_) ⟨h, hx⟩
  obtain ⟨hi, hstep, hobs⟩ := hs
  rw [hobs]
  exact ⟨hw.1.step hw.2 hi hstep, hw.2.step hstep⟩

end Waits

section fills
variable {k : Kernel} {d : PageDirectory} {p : Fin 16} {addr : UInt32}
variable (hap : Lib.Apart (addressSpace k)) (hd : ∀ va, translate d .load va = addressSpace k p va)
include hap hd

/-- Two places of a buffer are not in one cell. -/
theorem place_unique {i j a : ℕ} (hi : i < 0x100000000) (hj : j < 0x100000000)
    (hia : translate d .store (addr + UInt32.ofNat i) = some a)
    (hja : translate d .store (addr + UInt32.ofNat j) = some a) : i = j := by
  have hi' := (translate_of_store hia).1
  have hj' := (translate_of_store hja).1
  rw [hd] at hi' hj'
  have hnat := congrArg UInt32.toNat ((UInt32.add_right_inj addr).1 (hap hi' hj').2)
  rwa [UInt32.toNat_ofNat_of_lt' hi, UInt32.toNat_ofNat_of_lt' hj] at hnat

/-- After the stores of a buffer that was filled from the memory, the memory holds it. -/
theorem Delivers.finds {n : ℕ} {buf before : ℕ → UInt8} {memory memory' : ℕ → UInt8} (h : Delivers d addr n buf memory memory')
    (hn : n ≤ 0x100000000) (hbefore : Finds d addr memory before) (hrest : ∀ i, n ≤ i → buf i = before i) {i a : ℕ}
    (hi : i < 0x100000000) (ha : translate d .store (addr + UInt32.ofNat i) = some a) : memory' a = buf i := by
  obtain ⟨cell, hcell, rfl⟩ := h
  have hlt : ∀ {j}, j < n → j < 0x100000000 := fun hj => Nat.lt_of_lt_of_le hj hn
  by_cases hin : i < n
  · obtain rfl : cell i = a := Option.some.inj ((hcell i hin).symm.trans ha)
    refine Lib.assign_of_mem (List.Nodup.map_on (fun j hj j' hj' he => ?_) List.nodup_range) (List.mem_range.2 hin)
    rw [List.mem_range] at hj hj'
    exact place_unique hap hd (hlt hj) (hlt hj') (hcell j hj) (he ▸ hcell j' hj')
  · rw [Lib.assign_of_notMem fun j hj he => ?_]
    · rw [hrest i (Nat.le_of_not_lt hin)]
      exact (hbefore i a (translate_of_store ha).2).symm
    · rw [List.mem_range] at hj
      exact hin (place_unique hap hd (hlt hj) hi (he ▸ hcell j hj) ha ▸ hj)

end fills

/-! ## A program from address 0 on -/

section process
variable {x : System} {g : Log} {count : ℕ} {r : Request}

/-- What a new process finds at the start of its page. -/
theorem Lodged.created {fuel : ℕ} {y : System} (h : Lodged x.machine.kernel g count) (hl : Lasting (.create (processRequest 0 r)))
    (hc : Creates fuel x 0 r y) : ∃ i res, read fuel x.machine.filesystem r = some res ∧
      processListGetInactiveIndex x.machine.kernel = some i ∧ y.machine.kernel.processUsed i = true ∧
      (y.machine.kernel.processList i).context = initialContext (processRequest 0 r) (ownDirectory i) ∧
      ∀ j < 0x400000, ∃ a, addressSpace y.machine.kernel i (UInt32.ofNat j) = some a ∧ y.memory a = res.1.buf j := by
  obtain ⟨i, f, f', ⟨hslot, hused, hctx, hdir, hown, hspace, -⟩, hlod⟩ := h.starts hl hc
  obtain ⟨-, res, n, hread, hfinds, hrest, hdelivers⟩ := hc
  rw [hdir] at hfinds hdelivers
  refine ⟨i, res, hread, hslot, hused, hctx, fun j hj => ?_⟩
  -- the stores do not get to the kernel's page
  have hn : n ≤ 0x100000000 := by
    by_contra hgt
    obtain ⟨cell, hcell, -⟩ := hdelivers
    have hkernel := hcell 0xC0000000 (by omega)
    rw [hown] at hkernel
    rcases processDirectory_store.1 ⟨_, hkernel⟩ with he | he
    · exact absurd he (by decide)
    · exact absurd he (by decide)
  obtain ⟨a, ha⟩ := (processDirectory_store (f := f) (g := f')).2 (.inr (pageIndex_small hj))
  rw [← hown] at ha
  refine ⟨a, ?_, hdelivers.finds hlod.space_apart hspace hn hfinds hrest (by omega) ha⟩
  rw [← hspace, ← UInt32.zero_add (UInt32.ofNat j)]
  exact (translate_of_store ha).1

end process

/-- At its turn a process goes on with the context it waited with, and loads what it waited with. -/
theorem Waits.turn {i : Fin 16} {c : Context} {tr : UInt32 → Option ℕ} {own : UInt32 → UInt8} {x : System} {m : Memories}
    (h : Waits i c tr own x m) (hx : Secluded x m) (hi : x.machine.kernel.currentProcessIdx = i) :
    handedContext x.machine.kernel = c ∧
      ∀ va a v, tr va = some a → (SystemStep x (.load va v) x ↔ v = own va) := by
  obtain ⟨j, hj, -, hloaded⟩ := hx.loaded
  obtain rfl : i = j := Fin.ext (hi.symm.trans hj)
  refine ⟨?_, fun va a v ha => ?_⟩
  · rw [handedContext, hi, Kernel.process_fin, h.context]
  · rw [← h.space] at ha
    have hown := hx.own i va a ha
    rw [h.memory] at hown
    rw [← hloaded] at ha
    constructor
    · rintro ⟨a', ha', hv, -⟩
      obtain rfl : a' = a := Option.some.inj (ha'.symm.trans ha)
      exact hv.symm.trans hown
    · rintro rfl
      exact ⟨a, ha, hown, rfl⟩

end MoggersOs
