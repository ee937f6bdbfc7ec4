import OS44.Ide.Init
import OS44.Ide.Polls

/-! # The drives that are found (`ide.c`)

`ide_init` takes every drive whose status is not 0 after IDENTIFY as present. It waits for the drive
but drops the result of the poll, so that a floating bus, a packet device that aborts the command
and a drive that stays busy are noted with whatever the data port answers. The flags are right
exactly if no such drive is there (`ide_init_flags_iff`). -/

namespace OS44

open PortBus

section Presence

variable {D : Type}

/-- The driver before `ide_init`: its variables are 0. -/
def ideBoot (d : D) : Ide D where
  dev := d
  primaryMaster := 0
  primarySlave := 0
  secondaryMaster := 0
  secondarySlave := 0
  lastStatus := 0
  lastError := 0

/-- No sectors are noted. -/
def noSectors : DriveSectors := ⟨0, 0, 0, 0⟩

theorem flag_ideBoot (d : D) (slot : DriveSlot) : (ideBoot d).flag slot = 0 := by
  cases slot <;> rfl

theorem get_noSectors (slot : DriveSlot) : noSectors.get slot = 0 := by
  cases slot <;> rfl

variable [PortBus D]

/-- What `ide_init` finds when it asks a drive: the status after IDENTIFY and the driver then. -/
def askDrive (d : D) (identify : IdeIdentify) (slot : DriveSlot) : U8 × Ide D :=
  identifyCommand slot.base slot.sel (ideInitBefore identify (ideBoot d) noSectors slot).ide

/-- The poll that follows the command goes well. -/
def DriveReady (d : D) (identify : IdeIdentify) (slot : DriveSlot) : Prop :=
  PollSucceeds slot.base 100000 (askDrive d identify slot).2.dev

/-- **The flags can be trusted.** A drive is noted as present only if the poll after its command was
made and went well, and it has no sectors if it is not. -/
def FlagsTrusted (d : D) (identify : IdeIdentify) : Prop :=
  ∀ slot,
    ((ideInit identify (ideBoot d) noSectors).ide.flag slot = 1 →
      (askDrive d identify slot).1 ≠ 0 ∧ DriveReady d identify slot) ∧
    ((ideInit identify (ideBoot d) noSectors).ide.flag slot = 0 →
      (ideInit identify (ideBoot d) noSectors).sectors.get slot = 0)

variable {d : D} {identify : IdeIdentify} {slot : DriveSlot}

theorem flag_of_answer (h : (askDrive d identify slot).1 ≠ 0) :
    (ideInit identify (ideBoot d) noSectors).ide.flag slot = 1 :=
  congrArg Prod.fst ((noted_ideInit identify (ideBoot d) noSectors slot).trans
    (noted_ideInitDrive h))

theorem noted_of_silence (h : ¬ (askDrive d identify slot).1 ≠ 0) :
    (ideInit identify (ideBoot d) noSectors).noted slot = (0, 0) := by
  rw [noted_ideInit, noted_ideInitDrive_of_silent h, noted_ideInitBefore, flag_ideBoot,
    get_noSectors]

/-- **When the flags can be trusted.** For every device and whatever the record held: exactly if the
poll goes well for every drive whose status after IDENTIFY is not 0. -/
theorem ide_init_flags_iff (d : D) (identify : IdeIdentify) :
    FlagsTrusted d identify ↔
      ∀ slot, (askDrive d identify slot).1 ≠ 0 → DriveReady d identify slot := by
  constructor
  · -- a drive that answers is noted whatever its poll does
    intro h slot hanswer
    exact ((h slot).1 (flag_of_answer hanswer)).2
  · intro h slot
    by_cases hanswer : (askDrive d identify slot).1 ≠ 0
    · refine ⟨fun _ => ⟨hanswer, h slot hanswer⟩, ?_⟩
      intro hflag
      rw [flag_of_answer hanswer] at hflag
      exact absurd hflag (by decide)
    · have hnoted := noted_of_silence hanswer
      refine ⟨?_, fun _ => congrArg Prod.snd hnoted⟩
      intro hflag
      have hzero : (ideInit identify (ideBoot d) noSectors).ide.flag slot = 0 :=
        congrArg Prod.fst hnoted
      rw [hzero] at hflag
      exact absurd hflag (by decide)

end Presence

/-! ## A floating bus -/

/-- Nothing is connected: every read answers with ones. -/
structure FloatingBus where

instance : PortBus FloatingBus where
  inb d _ := (0xFF, d)
  inw d _ := (0xFFFF, d)
  outb d _ _ := d
  outw d _ _ := d

/-- **Phantom drives.** On a floating bus no poll goes well, and the primary master is noted. -/
theorem floating_bus_is_noted : ¬ FlagsTrusted FloatingBus.mk (fun _ => 0) := by
  intro h
  have hanswer : (askDrive FloatingBus.mk (fun _ => 0) .primaryMaster).1 ≠ 0 := by decide
  obtain ⟨-, k, -, hdata, -⟩ := (h .primaryMaster).1 (flag_of_answer hanswer)
  exact absurd hdata (show ¬ ShowsData 0xFF by decide)

end OS44
