import OS44.Library.Runs
import OS44.Mem.Pmm

/-! # Runs of the frame allocator

Any interleaving of `pmm_alloc_frame` and of `pmm_free_frame` on held addresses, after `pmm_init` on
any memory map. The invariant `FramesPartition` says that at every moment the allocatable frames
split into the free ones and the held ones; safety, exhaustion and the free count all
read off it. -/

namespace OS44

open Runs Pmm

/-- A call a client of the allocator makes. -/
inductive PmmOp
  | alloc
  | free (frame : U64)

/-- The allocator and the addresses its clients hold. -/
structure PmmClients where
  pmm : Pmm
  held : Finset U64

/-- One call: an address returned is held from then on; only held addresses may be freed. -/
def pmmStep (s : PmmClients) : PmmOp → Option PmmClients
  | .alloc =>
    let (frame, pmm) := pmmAllocFrame s.pmm
    some { pmm := pmm, held := if frame = 0 then s.held else insert frame s.held }
  | .free frame =>
    if frame ∈ s.held then
      some { pmm := pmmFreeFrame s.pmm frame, held := s.held.erase frame }
    else none

theorem pmmStep_alloc (s : PmmClients) : pmmStep s .alloc = some
    { pmm := (pmmAllocFrame s.pmm).2
      held := if (pmmAllocFrame s.pmm).1 = 0 then s.held
        else insert (pmmAllocFrame s.pmm).1 s.held } := rfl

/-- An allocation takes the least free frame. -/
theorem pmmStep_alloc_of_isLeast {s : PmmClients} {i : ℕ} (hi : i ∈ s.pmm.freeFrames)
    (hmin : ∀ j ∈ s.pmm.freeFrames, i ≤ j) (h0 : i ≠ 0) : pmmStep s .alloc = some
      { pmm := (s.pmm.setBit i).record (.alloc (frameAddr i))
        held := insert (frameAddr i) s.held } := by
  rw [pmmStep_alloc, pmmAllocFrame_of_isLeast hi hmin,
    if_neg (frameAddr_ne_zero (lt_of_mem_freeFrames hi) h0)]

theorem pmmStep_free_eq_some {s s' : PmmClients} {a : U64} : pmmStep s (.free a) = some s' ↔
    a ∈ s.held ∧ s' = { pmm := pmmFreeFrame s.pmm a, held := s.held.erase a } := by
  simp only [pmmStep, Option.ite_none_right_eq_some, Option.some.injEq]
  rw [eq_comm (a := s')]

/-- **The invariant of runs**, for the set `F` of allocatable frames: held addresses are addresses
of frames of `F`, and the free frames are the frames of `F` that are not held. -/
structure FramesPartition (F : ℕ → Prop) (s : PmmClients) : Prop where
  total : s.pmm.totalFrames = 2 ^ 20
  held_addr : ∀ a ∈ s.held, ∃ f, F f ∧ a = frameAddr f
  mem_free : ∀ f, f ∈ s.pmm.freeFrames ↔ F f ∧ frameAddr f ∉ s.held

section Partition

variable {F : ℕ → Prop} (hF : ∀ f, F f → 0 < f ∧ f < 2 ^ 20) {s s' : PmmClients}

include hF

theorem frameAddr_inj {f g : ℕ} (hf : F f) (hg : F g) (h : frameAddr f = frameAddr g) : f = g := by
  rw [← frameOf_frameAddr (hF f hf).2, h, frameOf_frameAddr (hF g hg).2]

/-- The step lemma of `pmm_alloc_frame`. -/
theorem FramesPartition.alloc (hs : FramesPartition F s) (h : pmmStep s .alloc = some s') :
    FramesPartition F s' := by
  rw [pmmStep_alloc] at h
  obtain rfl := Option.some.inj h
  rcases pmmAllocFrame_cases s.pmm with ⟨-, ha⟩ | ⟨i, hi, -, ha⟩
  · simp only [ha, if_true]
    exact ⟨hs.total, hs.held_addr, hs.mem_free⟩
  · -- the least free frame moves to those held; it is not frame 0, so its address is not `NULL`
    obtain ⟨hFi, hiheld⟩ := (hs.mem_free i).mp hi
    have hne : frameAddr i ≠ 0 := frameAddr_ne_zero (hF i hFi).2 (hF i hFi).1.ne'
    simp only [ha, if_neg hne]
    refine ⟨by simpa using hs.total, ?_, ?_⟩
    · intro a haH
      rcases Finset.mem_insert.mp haH with rfl | haH
      exacts [⟨i, hFi, rfl⟩, hs.held_addr a haH]
    · intro f
      rw [freeFrames_record, freeFrames_setBit, Finset.mem_erase, hs.mem_free, Finset.mem_insert]
      constructor
      · rintro ⟨hfi, hFf, hfh⟩
        exact ⟨hFf, fun h => h.elim (fun he => hfi (frameAddr_inj hF hFf hFi he)) hfh⟩
      · rintro ⟨hFf, hfh⟩
        exact ⟨fun he => hfh (.inl (he ▸ rfl)), hFf, fun h => hfh (.inr h)⟩

/-- The step lemma of `pmm_free_frame`. -/
theorem FramesPartition.free (hs : FramesPartition F s) {a : U64}
    (h : pmmStep s (.free a) = some s') : FramesPartition F s' := by
  obtain ⟨ha, rfl⟩ := pmmStep_free_eq_some.mp h
  obtain ⟨i, hFi, rfl⟩ := hs.held_addr a ha
  have hi : frameOf (frameAddr i) = i := frameOf_frameAddr (hF i hFi).2
  refine ⟨by simpa using hs.total, fun b hb => hs.held_addr b (Finset.mem_of_mem_erase hb),
    ?_⟩
  intro f
  simp only [mem_freeFrames_pmmFreeFrame, hi, hs.mem_free, hs.total, Finset.mem_erase]
  constructor
  · rintro (⟨hFf, hfh⟩ | ⟨rfl, -, -⟩)
    · exact ⟨hFf, fun h => hfh h.2⟩
    · exact ⟨hFi, fun h => h.1 rfl⟩
  · rintro ⟨hFf, hfh⟩
    by_cases hfi : f = i
    · exact .inr ⟨hfi, (hF f hFf).2, (hF f hFf).2⟩
    · exact .inl ⟨hFf, fun h => hfh ⟨fun he => hfi (frameAddr_inj hF hFf hFi he), h⟩⟩

/-- The run lemma. -/
theorem FramesPartition.run (hs : FramesPartition F s) {ops : List PmmOp}
    (h : run pmmStep s ops = some s') : FramesPartition F s' := by
  refine run_invariant (P := fun _ _ => True) ?_ hs ?_ h
  · intro t op t' ht _ hstep
    cases op with
    | alloc => exact ht.alloc hF hstep
    | free a => exact ht.free hF hstep
  · exact AllSteps.of_forall (fun _ _ => trivial) s ops

/-- The held addresses number the allocatable frames that are not free. -/
theorem FramesPartition.card (hs : FramesPartition F s) {I : Finset ℕ} (hI : ∀ f, f ∈ I ↔ F f) :
    s.pmm.freeFrames.card + s.held.card = I.card := by
  have hsub : s.pmm.freeFrames ⊆ I := fun f hf => (hI f).mpr ((hs.mem_free f).mp hf).1
  -- what is held is the frames that are not free, by their addresses
  have himg : s.held = (I \ s.pmm.freeFrames).image frameAddr := by
    ext a
    simp only [Finset.mem_image, Finset.mem_sdiff, hI, hs.mem_free, not_and, not_not]
    constructor
    · intro ha
      obtain ⟨f, hFf, rfl⟩ := hs.held_addr a ha
      exact ⟨f, ⟨hFf, fun _ => ha⟩, rfl⟩
    · rintro ⟨f, ⟨hFf, hfh⟩, rfl⟩
      exact hfh hFf
  have hinj : Set.InjOn frameAddr (I \ s.pmm.freeFrames : Finset ℕ) := by
    intro f hf g hg h
    have hf' := (Finset.mem_sdiff.mp hf).1
    have hg' := (Finset.mem_sdiff.mp hg).1
    exact frameAddr_inj hF ((hI f).mp hf') ((hI g).mp hg') h
  rw [himg, Finset.card_image_of_injOn hinj, Finset.card_sdiff_of_subset hsub]
  have := Finset.card_le_card hsub
  omega

end Partition

theorem Allocatable.bounds {m : PhysMem} {info : BootInfo} {f : ℕ} (h : Allocatable m info f) :
    0 < f ∧ f < 2 ^ 20 := ⟨by have := h.1; omega, h.2.1⟩

theorem framesPartition_pmmInit {m : PhysMem} {info : BootInfo} {pmm : Pmm}
    (h : pmmInit m info = some pmm) : FramesPartition (Allocatable m info) ⟨pmm, ∅⟩ where
  total := totalFrames_pmmInit h
  held_addr := by simp
  mem_free f := by simp [mem_freeFrames_pmmInit h]

/-- **The frame allocator is correct in every run.** After `pmm_init` on any memory map and any run
of allocations and of frees of held addresses: the next address returned is `NULL` or a 4 KiB
aligned address in [8 MiB, 4 GiB), inside a conventional descriptor, that nobody holds; it is `NULL`
exactly when all allocatable frames are held; and `pmm_get_free_frames` plus the number of held
frames is the free count after `pmm_init`. -/
theorem pmm_run_correct (m : PhysMem) (info : BootInfo) (pmm₀ : Pmm)
    (hinit : pmmInit m info = some pmm₀) (ops : List PmmOp) (s : PmmClients)
    (hrun : run pmmStep ⟨pmm₀, ∅⟩ ops = some s) :
    ((pmmAllocFrame s.pmm).1 ≠ 0 →
      (pmmAllocFrame s.pmm).1.toNat % 4096 = 0 ∧
      8 * 1024 * 1024 ≤ (pmmAllocFrame s.pmm).1.toNat ∧
      (pmmAllocFrame s.pmm).1.toNat < 4 * 1024 * 1024 * 1024 ∧
      Conventional m info (frameOf (pmmAllocFrame s.pmm).1) ∧
      (pmmAllocFrame s.pmm).1 ∉ s.held) ∧
    ((pmmAllocFrame s.pmm).1 = 0 ↔ ∀ f, Allocatable m info f → frameAddr f ∈ s.held) ∧
    pmmGetFreeFrames s.pmm + s.held.card = pmmGetFreeFrames pmm₀ := by
  have hF : ∀ f, Allocatable m info f → 0 < f ∧ f < 2 ^ 20 := fun f hf => hf.bounds
  have hs := (framesPartition_pmmInit hinit).run hF hrun
  refine ⟨?_, ?_, ?_⟩
  · -- a frame returned is a free one, and those are neither low nor held
    intro hne
    rcases pmmAllocFrame_cases s.pmm with ⟨-, ha⟩ | ⟨i, hi, -, ha⟩
    · rw [ha] at hne
      exact absurd rfl hne
    · obtain ⟨⟨hlo, hhi, hconv⟩, hheld⟩ := (hs.mem_free i).mp hi
      rw [ha, frameOf_frameAddr hhi, toNat_frameAddr hhi]
      exact ⟨by omega, by omega, by omega, hconv, hheld⟩
  · -- `NULL` is returned with nothing free: then every allocatable frame is held
    rcases pmmAllocFrame_cases s.pmm with ⟨hempty, ha⟩ | ⟨i, hi, -, ha⟩
    · rw [ha]
      apply iff_of_true rfl
      intro f hf
      by_contra hfh
      have : f ∈ s.pmm.freeFrames := (hs.mem_free f).mpr ⟨hf, hfh⟩
      rw [hempty] at this
      simp at this
    · obtain ⟨hFi, hheld⟩ := (hs.mem_free i).mp hi
      rw [ha]
      exact iff_of_false (frameAddr_ne_zero hFi.2.1 hFi.bounds.1.ne') fun h => hheld (h i hFi)
  · rw [pmmGetFreeFrames_eq_card, pmmGetFreeFrames_eq_card]
    exact hs.card hF (mem_freeFrames_pmmInit hinit)

/-- Two frames are taken on the 512 MiB machine. -/
theorem Sample.run_alloc_two : run pmmStep ⟨Sample.pmm, ∅⟩ [.alloc, .alloc] = some
    { pmm := (((Sample.pmm.setBit 2048).record (.alloc (frameAddr 2048))).setBit 2049).record
        (.alloc (frameAddr 2049))
      held := {frameAddr 2049, frameAddr 2048} } := by
  refine run_cons_eq_some.mpr ⟨_, pmmStep_alloc_of_isLeast (i := 2048)
    ((Sample.mem_freeFrames_pmm 2048).mpr (by omega))
    (fun j hj => ((Sample.mem_freeFrames_pmm j).mp hj).1) (by omega), ?_⟩
  have hfree : ∀ j, j ∈ ((Sample.pmm.setBit 2048).record (.alloc (frameAddr 2048))).freeFrames ↔
      2049 ≤ j ∧ j < 131072 := fun j => by
    rw [freeFrames_record, freeFrames_setBit, Finset.mem_erase, Sample.mem_freeFrames_pmm]
    omega
  refine run_cons_eq_some.mpr ⟨_, pmmStep_alloc_of_isLeast (i := 2049)
    ((hfree 2049).mpr (by omega)) (fun j hj => ((hfree j).mp hj).1) (by omega), ?_⟩
  rfl

/-- On the 512 MiB machine two frames are taken and the first is given back: the free count has
dropped by one, and the next address is not the one still held. -/
theorem pmm_run_correct_sample : ∃ s,
    run pmmStep ⟨Sample.pmm, ∅⟩ ([.alloc, .alloc] ++ [.free (frameAddr 2048)]) = some s ∧
    s.held = {frameAddr 2049} ∧ (pmmAllocFrame s.pmm).1 ≠ frameAddr 2049 ∧
    pmmGetFreeFrames s.pmm + 1 = pmmGetFreeFrames Sample.pmm := by
  have hne : frameAddr 2048 ≠ frameAddr 2049 := by decide
  obtain ⟨s, hs⟩ : ∃ s, run pmmStep ⟨Sample.pmm, ∅⟩
      ([.alloc, .alloc] ++ [.free (frameAddr 2048)]) = some s ∧ s.held = {frameAddr 2049} := by
    rw [run_append, Sample.run_alloc_two, Option.bind_some]
    refine ⟨_, run_cons_eq_some.mpr ⟨_, pmmStep_free_eq_some.mpr ⟨by simp, rfl⟩, rfl⟩, ?_⟩
    ext a
    simp only [Finset.mem_erase, Finset.mem_insert, Finset.mem_singleton]
    constructor
    · rintro ⟨h, rfl | rfl⟩
      exacts [rfl, absurd rfl h]
    · rintro rfl
      exact ⟨hne.symm, .inl rfl⟩
  obtain ⟨hnext, -, hcount⟩ :=
    pmm_run_correct Sample.memory Sample.info Sample.pmm Sample.pmmInit_eq _ s hs.1
  refine ⟨s, hs.1, hs.2, fun heq => ?_, by rwa [hs.2, Finset.card_singleton] at hcount⟩
  have hheld := (hnext (heq ▸ by decide)).2.2.2.2
  rw [heq, hs.2] at hheld
  exact hheld (Finset.mem_singleton_self _)

end OS44
