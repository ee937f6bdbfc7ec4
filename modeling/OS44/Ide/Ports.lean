import OS44.Ide.Presence

/-! # The ports of the driver (`ide.c`)

A device that records the accesses to its ports (`Traced`) answers as it did before
(`ideReadWriteSectors_traced`), and so the driver can be asked which ports it uses: the status is
read in the polls of `requestPolls` and in the waits (`statusReads_request`). A drive that is none
of the four is taken for the secondary slave and is sent a request (`bad_drive_refused_iff`).
`ide_init` writes to the ports two behind the control registers, the data ports of COM1 and LPT1;
nothing else leaves the channel (`ports_confined_iff`). -/

namespace OS44

open PortBus

/-! ## A record of the accesses -/

/-- An access to a port. -/
inductive PortAccess
  | read (port : U16)
  | write (port : U16)
  deriving DecidableEq, Repr

def PortAccess.port : PortAccess → U16
  | .read port | .write port => port

/-- The ports that are written. -/
def portsWritten (accesses : List PortAccess) : List U16 :=
  accesses.filterMap fun
    | .read _ => none
    | .write port => some port

/-- A device with the accesses to its ports, in order. -/
structure Traced (D : Type) where
  dev : D
  accesses : List PortAccess

/-- A map of devices that the accesses respect. -/
structure BusMap {D E : Type} [PortBus D] [PortBus E] (f : D → E) : Prop where
  ofInb : ∀ d port, inb (f d) port = ((inb d port).1, f (inb d port).2)
  ofInw : ∀ d port, inw (f d) port = ((inw d port).1, f (inw d port).2)
  ofOutb : ∀ d port v, outb (f d) port v = f (outb d port v)
  ofOutw : ∀ d port v, outw (f d) port v = f (outw d port v)

def Ide.map {D E : Type} (f : D → E) (s : Ide D) : Ide E where
  dev := f s.dev
  primaryMaster := s.primaryMaster
  primarySlave := s.primarySlave
  secondaryMaster := s.secondaryMaster
  secondarySlave := s.secondarySlave
  lastStatus := s.lastStatus
  lastError := s.lastError

section Traced

variable {D : Type} [PortBus D]

instance : PortBus (Traced D) where
  inb t port :=
    let (v, d) := inb t.dev port
    (v, ⟨d, t.accesses ++ [.read port]⟩)
  inw t port :=
    let (v, d) := inw t.dev port
    (v, ⟨d, t.accesses ++ [.read port]⟩)
  outb t port v := ⟨outb t.dev port v, t.accesses ++ [.write port]⟩
  outw t port v := ⟨outw t.dev port v, t.accesses ++ [.write port]⟩

/-- The driver, whose accesses are recorded from now on. -/
def Ide.traced (s : Ide D) : Ide (Traced D) := s.map fun d => ⟨d, []⟩

/-- **To forget the record** is a map of devices. -/
theorem busMap_dev : BusMap (Traced.dev : Traced D → D) where
  ofInb _ _ := rfl
  ofInw _ _ := rfl
  ofOutb _ _ _ := rfl
  ofOutw _ _ _ := rfl

end Traced

/-! ## The driver under a map of devices -/

section BusMap

variable {D E : Type} [PortBus D] [PortBus E] {f : D → E} {base : U16}

omit [PortBus D] [PortBus E] in
theorem map_dev (s : Ide D) : (s.map f).dev = f s.dev := rfl

omit [PortBus D] [PortBus E] in
theorem map_setDev (s : Ide D) (d : D) :
    { s.map f with dev := f d } = { s with dev := d }.map f := rfl

theorem BusMap.ideWait400ns (hf : BusMap f) (base : U16) (d : D) :
    ideWait400ns base (f d) = f (ideWait400ns base d) := by
  simp only [OS44.ideWait400ns, hf.ofInb]

theorem BusMap.idePoll (hf : BusMap f) (advanced : Bool) (n : ℕ) (s : Ide D) :
    idePoll base advanced n (s.map f) =
      ((idePoll base advanced n s).1, (idePoll base advanced n s).2.map f) := by
  induction n generalizing s with
  | zero => rfl
  | succ n ih =>
    simp only [OS44.idePoll, map_dev, hf.ofInb, map_setDev]
    -- both sides see the same status, and so take the same branch
    split_ifs
    · exact ih _
    · rfl
    · rfl
    · exact ih _
    · rfl
    · rfl
    · rfl

theorem BusMap.readWords (hf : BusMap f) (n k : ℕ) (buf : Buffer) (d : D) :
    readWords base n k buf (f d) =
      ((readWords base n k buf d).1, f (readWords base n k buf d).2) := by
  induction n generalizing k buf d with
  | zero => rfl
  | succ n ih =>
    simp only [OS44.readWords, hf.ofInw]
    exact ih _ _ _

theorem BusMap.writeWords (hf : BusMap f) (n k : ℕ) (buf : Buffer) (d : D) :
    writeWords base n k buf (f d) = f (writeWords base n k buf d) := by
  induction n generalizing k d with
  | zero => rfl
  | succ n ih =>
    simp only [OS44.writeWords, hf.ofOutw]
    exact ih _ _

theorem BusMap.transferSectors (hf : BusMap f) (write : Bool) (n i : ℕ) (buf : Buffer)
    (s : Ide D) :
    transferSectors base write n i buf (s.map f) =
      ((transferSectors base write n i buf s).1, (transferSectors base write n i buf s).2.1,
        (transferSectors base write n i buf s).2.2.map f) := by
  induction n generalizing i buf s with
  | zero => rfl
  | succ n ih =>
    have hpoll : ideWaitReadyImpl base 1000000 (s.map f) =
      ((ideWaitReadyImpl base 1000000 s).1, (ideWaitReadyImpl base 1000000 s).2.map f) :=
      hf.idePoll true 1000000 s
    simp only [OS44.transferSectors, hpoll, map_dev, hf.writeWords, hf.readWords, hf.ideWait400ns,
      map_setDev]
    split_ifs
    · rfl
    · exact ih _ _ _
    · exact ih _ _ _

theorem BusMap.issueCommand (hf : BusMap f) (sel : U8) (lba : U32) (count : U16) (write : Bool)
    (d : D) :
    issueCommand base sel lba count write (f d) = f (issueCommand base sel lba count write d) := by
  simp only [OS44.issueCommand, ideSelectDrive, hf.ofOutb]

/-- **A request** to the image of a device has the same result and fills the buffer alike. -/
theorem BusMap.ideReadWriteSectors (hf : BusMap f) (s : Ide D) (drive : U8) (lba : U32)
    (count : U16) (buf : Buffer) (write : Bool) :
    ideReadWriteSectors (s.map f) drive lba count buf write =
      ((ideReadWriteSectors s drive lba count buf write).1,
        (ideReadWriteSectors s drive lba count buf write).2.1,
        (ideReadWriteSectors s drive lba count buf write).2.2.map f) := by
  have hstart : requestStart (s.map f) drive lba count write =
      (requestStart s drive lba count write).map f := by
    simp only [requestStart, map_dev, hf.issueCommand, hf.ideWait400ns, map_setDev]
  have hloop : requestLoop (s.map f) drive lba count buf write =
      ((requestLoop s drive lba count buf write).1, (requestLoop s drive lba count buf write).2.1,
        (requestLoop s drive lba count buf write).2.2.map f) := by
    rw [requestLoop, hstart]
    exact hf.transferSectors write count.toNat 0 buf _
  by_cases h : count = 0 ∨ s.Absent drive
  · have h' : count = 0 ∨ (s.map f).Absent drive := h
    rw [ideReadWriteSectors_of_refused h, ideReadWriteSectors_of_refused h']
  · have h' : ¬ (count = 0 ∨ (s.map f).Absent drive) := h
    rw [ideReadWriteSectors_of_served h, ideReadWriteSectors_of_served h', hloop]
    dsimp only
    -- the flush of a write is one more access and one more poll
    split_ifs
    · rfl
    · rw [map_dev, hf.ofOutb, map_setDev, ideWaitReadyImpl, hf.idePoll]
      rfl
    · rfl

end BusMap

/-! ## The polls in the record

`requestPolls` lists the polls of a request by following the driver. That it leaves none out is read
off the record: the status is read in the polls of the list and in the waits after the command and
after each sector, and nowhere else. -/

/-- How often the record shows the status read. -/
def statusReads {D : Type} (base : U16) (t : Traced D) : ℕ := t.accesses.count (.read (base + 7))

section PollReads

variable {D : Type} [PortBus D] {base : U16} {n : ℕ} {d : D}

/-- How often a poll reads the status: up to the byte that ends it, if there is one in time. -/
def pollReads (base : U16) (timeout : ℕ) (d : D) : ℕ :=
  let going := (List.range timeout).takeWhile fun k => ¬ EndsPoll (statusByte base d k)
  min timeout (going.length + 1)

instance (timeout : ℕ) : Decidable (PollSucceeds base timeout d) :=
  inferInstanceAs (Decidable (∃ k, k < timeout ∧ _))

theorem pollReads_of_ends (h : EndsPoll (inb d (base + 7)).1) : pollReads base (n + 1) d = 1 := by
  have hfirst : EndsPoll (statusByte base d 0) := h
  rw [pollReads, List.range_succ_eq_map, List.takeWhile_cons_of_neg (by simpa using hfirst)]
  exact Nat.min_eq_right (Nat.succ_le_succ (Nat.zero_le n))

theorem pollReads_of_not_ends (h : ¬ EndsPoll (inb d (base + 7)).1) :
    pollReads base (n + 1) d = pollReads base n (inb d (base + 7)).2 + 1 := by
  have hfirst : ¬ EndsPoll (statusByte base d 0) := h
  rw [pollReads, pollReads, List.range_succ_eq_map,
    List.takeWhile_cons_of_pos (by simpa using hfirst), List.takeWhile_map, List.length_cons,
    List.length_map]
  exact Nat.succ_min_succ n _

/-- A read of the status is counted, -/
theorem statusReads_inb_status (t : Traced D) :
    statusReads base (inb t (base + 7)).2 = statusReads base t + 1 := by
  show (t.accesses ++ [PortAccess.read (base + 7)]).count _ = _
  rw [List.count_append, List.count_singleton_self]
  rfl

/-- and no other access is. -/
theorem count_accesses_of_ne {accesses : List PortAccess} {a b : PortAccess} (h : b ≠ a) :
    (accesses ++ [b]).count a = accesses.count a := by
  have hzero : [b].count a = 0 :=
    List.count_eq_zero_of_not_mem fun hmem => h (List.mem_singleton.mp hmem).symm
  rw [List.count_append, hzero, Nat.add_zero]

theorem statusReads_inb_error (t : Traced D) :
    statusReads base (inb t (base + 1)).2 = statusReads base t := by
  have hne : base + 1 ≠ base + 7 := by bv_omega
  exact count_accesses_of_ne fun h => hne (PortAccess.read.inj h)

theorem statusReads_inw_data (t : Traced D) :
    statusReads base (inw t base).2 = statusReads base t := by
  have hne : base ≠ base + 7 := by bv_omega
  exact count_accesses_of_ne fun h => hne (PortAccess.read.inj h)

theorem statusReads_outb (t : Traced D) (port : U16) (v : U8) :
    statusReads base (outb t port v) = statusReads base t :=
  count_accesses_of_ne nofun

theorem statusReads_outw (t : Traced D) (port : U16) (v : U16) :
    statusReads base (outw t port v) = statusReads base t :=
  count_accesses_of_ne nofun

theorem statusReads_ideWait400ns (t : Traced D) :
    statusReads base (ideWait400ns base t) = statusReads base t + 4 := by
  simp only [ideWait400ns, statusReads_inb_status]

theorem statusReads_readWords (n k : ℕ) (buf : Buffer) (t : Traced D) :
    statusReads base (readWords base n k buf t).2 = statusReads base t := by
  induction n generalizing k buf t with
  | zero => rfl
  | succ n ih => exact (ih _ _ _).trans (statusReads_inw_data t)

theorem statusReads_writeWords (n k : ℕ) (buf : Buffer) (t : Traced D) :
    statusReads base (writeWords base n k buf t) = statusReads base t := by
  induction n generalizing k t with
  | zero => rfl
  | succ n ih => exact (ih _ _).trans (statusReads_outw t base (buf k))

theorem statusReads_issueCommand (sel : U8) (lba : U32) (count : U16) (write : Bool)
    (t : Traced D) :
    statusReads base (issueCommand base sel lba count write t) = statusReads base t := by
  simp only [issueCommand, ideSelectDrive, statusReads_outb]

/-- **One poll.** -/
theorem statusReads_idePoll (n : ℕ) (s : Ide (Traced D)) :
    statusReads base (idePoll base true n s).2.dev =
      statusReads base s.dev + pollReads base n s.dev := by
  induction n generalizing s with
  | zero => rfl
  | succ n ih =>
    have hread : statusReads base (inb s.dev (base + 7)).2 = statusReads base s.dev + 1 :=
      statusReads_inb_status s.dev
    simp only [idePoll, if_true]
    split_ifs with hbusy herr hdrq
    · rw [ih, hread, pollReads_of_not_ends fun h => hbusy h.1, Nat.add_assoc, Nat.add_comm 1]
    · -- the error register is read as well
      rw [statusReads_inb_error, hread, pollReads_of_ends ⟨not_not.mp hbusy, .inl herr⟩]
    · rw [pollReads_of_ends ⟨not_not.mp hbusy, .inr hdrq⟩]
      exact hread
    · have hgoes : ¬ EndsPoll (inb s.dev (base + 7)).1 := by
        rintro ⟨-, h | h⟩
        exacts [herr h, hdrq h]
      rw [ih, hread, pollReads_of_not_ends hgoes, Nat.add_assoc, Nat.add_comm 1]

/-- **The loop**: a poll for each entry of the list, and a wait behind each that goes well. -/
theorem statusReads_transferSectors (write : Bool) (n i : ℕ) (buf : Buffer) (s : Ide (Traced D)) :
    statusReads base (transferSectors base write n i buf s).2.2.dev = statusReads base s.dev +
      ((sectorPolls base write n i buf s).map (pollReads base 1000000)).sum +
      4 * (sectorPolls base write n i buf s).countP fun d => PollSucceeds base 1000000 d := by
  induction n generalizing i buf s with
  | zero => rfl
  | succ n ih =>
    have hpoll : statusReads base (ideWaitReadyImpl base 1000000 s).2.dev =
      statusReads base s.dev + pollReads base 1000000 s.dev := statusReads_idePoll 1000000 s
    rw [sectorPolls, List.map_cons, List.sum_cons, List.countP_cons]
    by_cases hready : (ideWaitReadyImpl base 1000000 s).1 = 0
    · have hgood := (ideWaitReadyImpl_eq_zero_iff 1000000 s).mp hready
      rw [if_neg (not_not.mpr hready), if_pos (decide_eq_true hgood)]
      cases write with
      | true =>
        rw [transferSectors_write hready, if_pos rfl]
        dsimp only
        rw [ih, statusReads_ideWait400ns, statusReads_writeWords, hpoll]
        omega
      | false =>
        rw [transferSectors_read hready, if_neg Bool.false_ne_true]
        dsimp only
        rw [ih, statusReads_ideWait400ns, statusReads_readWords, hpoll]
        omega
    · have hbad : ¬ PollSucceeds base 1000000 s.dev := fun h =>
        hready ((ideWaitReadyImpl_eq_zero_iff 1000000 s).mpr h)
      rw [transferSectors_of_not_ready hready, if_pos hready, if_neg (by simpa using hbad),
        List.map_nil, List.sum_nil, List.countP_nil, hpoll]
      omega

/-- **The list of a request leaves no poll out**: the record shows the status read in these polls,
four times after the command, and four times after each sector whose poll went well. -/
theorem statusReads_request (s : Ide D) {drive : U8} {count : U16}
    (h : ¬ (count = 0 ∨ s.Absent drive)) (lba : U32) (buf : Buffer) (write : Bool) :
    statusReads (driveBase drive) (ideReadWriteSectors s.traced drive lba count buf write).2.2.dev =
      ((requestPolls s.traced drive lba count buf write).map
        (pollReads (driveBase drive) 1000000)).sum +
      4 * ((requestSectorPolls s.traced drive lba count buf write).countP
        (fun d => PollSucceeds (driveBase drive) 1000000 d) + 1) := by
  have hserved : ¬ (count = 0 ∨ s.traced.Absent drive) := h
  have hstart : statusReads (driveBase drive)
      (requestStart s.traced drive lba count write).dev = 4 := by
    rw [requestStart]
    dsimp only
    rw [statusReads_ideWait400ns, statusReads_issueCommand]
    rfl
  have hloop : statusReads (driveBase drive)
      (requestLoop s.traced drive lba count buf write).2.2.dev = _ :=
    statusReads_transferSectors write count.toNat 0 buf _
  have hsectors : requestSectorPolls s.traced drive lba count buf write =
      sectorPolls (driveBase drive) write count.toNat 0 buf
        (requestStart s.traced drive lba count write) := if_neg hserved
  rw [hstart, ← hsectors] at hloop
  by_cases hzero : (requestLoop s.traced drive lba count buf write).1 = 0
  · rw [requestPolls_of_loop hserved hzero, List.map_append, List.sum_append,
      ideReadWriteSectors_of_served hserved]
    dsimp only
    rw [if_neg (not_not.mpr hzero)]
    cases write with
    | false =>
      rw [if_neg Bool.false_ne_true, if_neg Bool.false_ne_true]
      show statusReads _ (requestLoop s.traced drive lba count buf false).2.2.dev = _
      rw [hloop, List.map_nil, List.sum_nil]
      omega
    | true =>
      rw [if_pos rfl, if_pos rfl]
      dsimp only
      -- the poll after the flush is the last of the list
      rw [ideWaitReadyImpl, statusReads_idePoll, statusReads_outb, hloop, List.map_singleton,
        List.sum_singleton, flushSent]
      dsimp only
      omega
  · have hpolls : requestPolls s.traced drive lba count buf write =
        requestSectorPolls s.traced drive lba count buf write := by
      rw [requestPolls, if_pos (.inr (.inr hzero)), List.append_nil]
    rw [hpolls, ideReadWriteSectors_of_served hserved]
    dsimp only
    rw [if_pos hzero, hloop]
    omega

end PollReads

section Refusal

variable {D : Type} [PortBus D]

/-- **To record the accesses of a request** changes neither its result, nor what it reads, nor what
it does to the device. -/
theorem ideReadWriteSectors_traced (s : Ide D) (drive : U8) (lba : U32) (count : U16)
    (buf : Buffer) (write : Bool) :
    ideReadWriteSectors s drive lba count buf write =
      ((ideReadWriteSectors s.traced drive lba count buf write).1,
        (ideReadWriteSectors s.traced drive lba count buf write).2.1,
        (ideReadWriteSectors s.traced drive lba count buf write).2.2.map Traced.dev) :=
  busMap_dev.ideReadWriteSectors s.traced drive lba count buf write

/-! ## A drive that is not there -/

theorem mem_portsWritten {accesses : List PortAccess} {port : U16} :
    port ∈ portsWritten accesses ↔ .write port ∈ accesses := by
  rw [portsWritten, List.mem_filterMap]
  constructor
  · rintro ⟨a, ha, hport⟩
    cases a with
    | read _ => cases hport
    | write p =>
      cases hport
      exact ha
  · intro h
    exact ⟨_, h, rfl⟩

/-- What was recorded stays recorded. -/
theorem mem_accesses_keeps (a : PortAccess) :
    (∀ (t : Traced D) p, a ∈ t.accesses → a ∈ (inb t p).2.accesses) ∧
    (∀ (t : Traced D) p, a ∈ t.accesses → a ∈ (inw t p).2.accesses) ∧
    (∀ (t : Traced D) p v, a ∈ t.accesses → a ∈ (outb t p v).accesses) ∧
    (∀ (t : Traced D) p v, a ∈ t.accesses → a ∈ (outw t p v).accesses) :=
  ⟨fun _ _ h => List.mem_append_left _ h, fun _ _ h => List.mem_append_left _ h,
    fun _ _ _ h => List.mem_append_left _ h, fun _ _ _ h => List.mem_append_left _ h⟩

/-- **A request is refused**: it returns -1, writes no port and keeps the buffer. -/
def Refused (s : Ide D) (drive : U8) (lba : U32) (count : U16) (buf : Buffer) (write : Bool) :
    Prop :=
  let r := ideReadWriteSectors s.traced drive lba count buf write
  r.1 = -1 ∧ portsWritten r.2.2.dev.accesses = [] ∧ r.2.1 = buf

variable {s : Ide D} {drive : U8} {lba : U32} {count : U16} {buf : Buffer} {write : Bool}

theorem refused_of_absent (hcount : count ≠ 0) (h : s.Absent drive) :
    Refused s drive lba count buf write := by
  have habsent : s.traced.Absent drive := h
  rw [Refused, ideReadWriteSectors_of_refused (.inr habsent), if_neg hcount]
  exact ⟨rfl, rfl, rfl⟩

/-- A request that is served selects the drive. -/
theorem select_mem_portsWritten (h : ¬ (count = 0 ∨ s.Absent drive)) (lba : U32) (buf : Buffer)
    (write : Bool) :
    driveBase drive + 6 ∈
      portsWritten (ideReadWriteSectors s.traced drive lba count buf write).2.2.dev.accesses := by
  have hserved : ¬ (count = 0 ∨ s.traced.Absent drive) := h
  obtain ⟨hinb, hinw, houtb, houtw⟩ := mem_accesses_keeps (D := D) (.write (driveBase drive + 6))
  have hstart : .write (driveBase drive + 6) ∈
      (requestStart s.traced drive lba count write).dev.accesses := by
    refine ideWait400ns_keeps (I := fun t : Traced D => .write (driveBase drive + 6) ∈ t.accesses)
      (fun d p _ => hinb d p) ?_
    -- the selection is the first of eight writes
    exact houtb _ _ _ (houtb _ _ _ (houtb _ _ _ (houtb _ _ _ (houtb _ _ _ (houtb _ _ _
      (houtb _ _ _ (List.mem_append_right _ (List.mem_singleton_self _))))))))
  have hloop := transferSectors_keeps (driveBase drive)
    (I := fun t : Traced D => .write (driveBase drive + 6) ∈ t.accesses) (fun d p _ => hinb d p)
    (fun d p _ => hinw d p) (fun d p v _ => houtw d p v) write count.toNat 0 buf hstart
  rw [mem_portsWritten, ideReadWriteSectors_of_served hserved]
  dsimp only
  split_ifs
  · exact hloop
  · have hflush := houtb _ (driveBase drive + 7) ideCmdFlush hloop
    exact idePoll_keeps (I := fun t : Traced D => .write (driveBase drive + 6) ∈ t.accesses)
      (s := { (requestLoop s.traced drive lba count buf write).2.2 with dev := _ })
      (fun d p _ => hinb d p) true 1000000 hflush
  · exact hloop

omit [PortBus D] in
/-- A drive below 4 is present or absent. -/
theorem absent_of_not_present (h : ¬ s.Present drive) (hdrive : drive.toNat < 4) :
    s.Absent drive := by
  have hfour : ∀ d : U8, d.toNat < 4 → d = 0 ∨ d = 1 ∨ d = 2 ∨ d = 3 := by decide
  rcases hfour drive hdrive with rfl | rfl | rfl | rfl
  · exact .inl ⟨rfl, by_contra fun hne => h (.inl ⟨rfl, hne⟩)⟩
  · exact .inr (.inl ⟨rfl, by_contra fun hne => h (.inr (.inl ⟨rfl, hne⟩))⟩)
  · exact .inr (.inr (.inl ⟨rfl, by_contra fun hne => h (.inr (.inr (.inl ⟨rfl, hne⟩)))⟩))
  · exact .inr (.inr (.inr ⟨rfl, by_contra fun hne => h (.inr (.inr (.inr ⟨rfl, hne⟩)))⟩))

omit [PortBus D] in
/-- Any other drive is neither. -/
theorem not_absent_of_le (s : Ide D) (hdrive : 4 ≤ drive.toNat) :
    ¬ s.Present drive ∧ ¬ s.Absent drive := by
  have hne : ∀ d : U8, d.toNat < 4 → drive ≠ d := by
    rintro d hd rfl
    exact absurd hdrive (Nat.not_le.mpr hd)
  have h₀ := hne 0 (by decide)
  have h₁ := hne 1 (by decide)
  have h₂ := hne 2 (by decide)
  have h₃ := hne 3 (by decide)
  constructor
  · rintro (⟨h, -⟩ | ⟨h, -⟩ | ⟨h, -⟩ | ⟨h, -⟩) <;> contradiction
  · rintro (⟨h, -⟩ | ⟨h, -⟩ | ⟨h, -⟩ | ⟨h, -⟩) <;> contradiction

/-- **When a bad drive is refused.** For every device, all flags, every request for sectors and both
directions: a drive that is not there is refused exactly if its number is below 4. -/
theorem bad_drive_refused_iff (s : Ide D) (drive : U8) (lba : U32) {count : U16}
    (hcount : count ≠ 0) (buf : Buffer) (write : Bool) :
    (¬ s.Present drive → Refused s drive lba count buf write) ↔ drive.toNat < 4 := by
  constructor
  · intro h
    by_contra hdrive
    -- the flags are looked at for the numbers 0 to 3 only, so that the request is served
    obtain ⟨hpresent, habsent⟩ := not_absent_of_le s (Nat.not_lt.mp hdrive)
    obtain ⟨-, hwritten, -⟩ := h hpresent
    have hselect := select_mem_portsWritten (not_or.mpr ⟨hcount, habsent⟩) lba buf write
    rw [hwritten] at hselect
    exact absurd hselect List.not_mem_nil
  · intro hdrive hpresent
    exact refused_of_absent hcount (absent_of_not_present hpresent hdrive)

end Refusal

/-- The third drive, which is not there. -/
theorem bad_drive_refused_sample :
    Refused (ideBoot FloatingBus.mk) 2 0 1 (fun _ => 0) true :=
  (bad_drive_refused_iff (ideBoot FloatingBus.mk) 2 0 (by decide) _ true).mpr (by decide)
    (by simp [Ide.Present, ideBoot])

/-- **A fifth drive.** A read of drive 4 is sent to the secondary slave, though no drive is
there. -/
theorem fifth_drive_is_served :
    ¬ (¬ (ideBoot FloatingBus.mk).Present 4 →
      Refused (ideBoot FloatingBus.mk) 4 0 1 (fun _ => 0) false) := by
  intro h
  have hfour : 4 ≤ (4 : U8).toNat := le_rfl
  obtain ⟨hpresent, habsent⟩ := not_absent_of_le (ideBoot FloatingBus.mk) hfour
  obtain ⟨-, hwritten, -⟩ := h hpresent
  have hone : (1 : U16) ≠ 0 := by decide
  have hselect := select_mem_portsWritten (not_or.mpr ⟨hone, habsent⟩) 0 (fun _ => 0) false
  rw [hwritten] at hselect
  exact absurd hselect List.not_mem_nil

/-! ## `ide_init` with its log

`ide_init` logs to COM1 and waits for the port before each character, for as long as it takes. -/

section Log

variable {D : Type} [PortBus D]

/-- `iser_putc`, with `fuel` reads of the line status to go: the device, in the end or still in the
loop. -/
def iserPutc (c : U8) : ℕ → D → Except D D
  | 0, d => .error d
  | fuel + 1, d =>
    let (status, d) := inb d (0x3F8 + 5)
    if status &&& 0x20 = 0 then iserPutc c fuel d else .ok (outb d 0x3F8 c)

/-- `iser`. -/
def iser (fuel : ℕ) : List U8 → D → Except D D
  | [], d => .ok d
  | c :: str, d => do
    -- a carriage return goes before a line feed
    let d ← if c = 10 then iserPutc 13 fuel d else .ok d
    let d ← iserPutc c fuel d
    iser fuel str d

/-- `iser` in the course of `ide_init`. -/
def IdeInit.iser (log : List U8 → D → Except D D) (str : String) (t : IdeInit D) :
    Except (IdeInit D) (IdeInit D) :=
  match log (chars str) t.ide.dev with
  | .ok d => .ok { t with ide := { t.ide with dev := d } }
  | .error d => .error { t with ide := { t.ide with dev := d } }

/-- `ide_init` with the log. -/
def ideInitLogged (log : List U8 → D → Except D D) (identify : IdeIdentify) (s : Ide D)
    (sectors : DriveSectors) : Except (IdeInit D) (IdeInit D) := do
  let t ← IdeInit.iser log "[IDE] start\n"
    { ide := s, sectors := sectors, identify := identify, drawn := [] }
  let t ← (ideInitStart t.identify t.ide t.sectors).iser log "[IDE] master\n"
  let t := driveSlots.foldl ideInitDrive t
  let drawn := t.drawn ++ [ideMessage "IDE: Initialization complete" 352 fbColorGreen]
  { t with drawn := drawn }.iser log "[IDE] done\n"

/-- Without the log, it is `ideInit`. -/
theorem ideInitLogged_silent (identify : IdeIdentify) (s : Ide D) (sectors : DriveSectors) :
    ideInitLogged (fun _ d => .ok d) identify s sectors = .ok (ideInit identify s sectors) := rfl

/-- A log whose accesses are not recorded. -/
def unrecorded (log : List U8 → D → Except D D) (str : List U8) (t : Traced D) :
    Except (Traced D) (Traced D) :=
  match log str t.dev with
  | .ok d => .ok { t with dev := d }
  | .error d => .error { t with dev := d }

/-- The state in which a computation ends or is still in a loop. -/
def reached {α : Type} : Except α α → α
  | .ok a | .error a => a

end Log

/-! ## The ports of a call -/

/-- A call of the driver. -/
inductive IdeCall
  | init (record : IdeIdentify) (sectors : DriveSectors)
  | identify (drive : U8) (record : IdeIdentify)
  | readSectors (drive : U8) (lba : U32) (count : U16) (buf : Buffer)
  | writeSectors (drive : U8) (lba : U32) (count : U16) (buf : Buffer)

/-- The drive it is addressed to. -/
def IdeCall.drive : IdeCall → Option U8
  | .init _ _ => none
  | .identify drive _ | .readSectors drive _ _ _ | .writeSectors drive _ _ _ => some drive

/-- The control register of a channel. -/
def driveCtrl (drive : U8) : U16 :=
  if drive = 0 ∨ drive = 1 then idePrimaryCtrl else ideSecondaryCtrl

/-- A port of the channel of a drive. -/
def ChannelPort (drive : U8) (port : U16) : Prop :=
  CommandBlock (driveBase drive) port ∨ port = driveCtrl drive

/-- A port of an ATA channel. -/
def AtaPort (port : U16) : Prop :=
  CommandBlock idePrimaryBase port ∨ port = idePrimaryCtrl ∨
    CommandBlock ideSecondaryBase port ∨ port = ideSecondaryCtrl

instance (port : U16) : Decidable (AtaPort port) := inferInstanceAs (Decidable (_ ∨ _))

section Confinement

variable {D : Type} [PortBus D]

/-- What a call does to the driver and the ports it uses, but for those of the log: in the end, or
with `fuel` reads of the line status for each character that is logged. -/
def IdeCall.run (fuel : ℕ) (s : Ide D) : IdeCall → Ide (Traced D)
  | .init record sectors =>
    (reached (ideInitLogged (unrecorded (iser fuel)) record s.traced sectors)).ide
  | .identify drive record => (ideIdentify s.traced drive record).2
  | .readSectors drive lba count buf => (ideReadSectors s.traced drive lba count buf).2.2
  | .writeSectors drive lba count buf => (ideWriteSectors s.traced drive lba count buf).2.2

/-- **A call keeps to its ports**: it writes ports of the ATA channels only, and a call for a drive
uses those of the drive's channel only. -/
def PortsConfined (s : Ide D) (call : IdeCall) : Prop :=
  ∀ fuel,
    (∀ port ∈ portsWritten (call.run fuel s).dev.accesses, AtaPort port) ∧
    ∀ drive ∈ call.drive, ∀ a ∈ (call.run fuel s).dev.accesses, ChannelPort drive a.port

/-- The log of `ide_init` never gets its first line through. -/
def LogHangs (s : Ide D) : Prop :=
  ∀ fuel, ∃ d, iser fuel (chars "[IDE] start\n") s.dev = .error d

variable {s : Ide D} {drive : U8} {record : IdeIdentify} {sectors : DriveSectors} {fuel : ℕ}

/-! A request keeps to the command block of its channel. -/

/-- All accesses so far were to the command block. -/
def InBlock (base : U16) (t : Traced D) : Prop := ∀ a ∈ t.accesses, CommandBlock base a.port

omit [PortBus D] in
/-- One more access. -/
theorem inBlock_append {base : U16} {t : Traced D} {a : PortAccess} {d : D} (h : InBlock base t)
    (hport : CommandBlock base a.port) : InBlock base ⟨d, t.accesses ++ [a]⟩ := by
  intro b hb
  rcases List.mem_append.mp hb with hb | hb
  · exact h b hb
  · rw [List.mem_singleton.mp hb]
    exact hport

theorem inBlock_ideReadWriteSectors (s : Ide D) (drive : U8) (lba : U32) (count : U16)
    (buf : Buffer) (write : Bool) :
    InBlock (driveBase drive) (ideReadWriteSectors s.traced drive lba count buf write).2.2.dev :=
  ideReadWriteSectors_keeps drive (I := InBlock (driveBase drive))
    (fun _ p hp h => inBlock_append (a := .read p) h hp)
    (fun _ p hp h => inBlock_append (a := .read p) h hp)
    (fun _ p _ hp h => inBlock_append (a := .write p) h hp)
    (fun _ p _ hp h => inBlock_append (a := .write p) h hp) lba count buf write
    (fun _ ha => absurd ha List.not_mem_nil)

theorem inBlock_ideIdentify (s : Ide D) (drive : U8) (record : IdeIdentify) :
    InBlock (driveBase drive) (ideIdentify s.traced drive record).2.dev :=
  ideIdentify_keeps drive (I := InBlock (driveBase drive))
    (fun _ p hp h => inBlock_append (a := .read p) h hp)
    (fun _ p hp h => inBlock_append (a := .read p) h hp)
    (fun _ p _ hp h => inBlock_append (a := .write p) h hp) record
    (fun _ ha => absurd ha List.not_mem_nil)

/-- A call for a drive keeps to the command block of its channel. -/
theorem inBlock_run {call : IdeCall} (h : call.drive = some drive) (fuel : ℕ) (s : Ide D) :
    InBlock (driveBase drive) (call.run fuel s).dev := by
  cases call with
  | init => cases h
  | identify =>
    cases h
    exact inBlock_ideIdentify s _ _
  | readSectors =>
    cases h
    exact inBlock_ideReadWriteSectors s _ _ _ _ false
  | writeSectors =>
    cases h
    exact inBlock_ideReadWriteSectors s _ _ _ _ true

theorem AtaPort.of_commandBlock {port : U16} (h : CommandBlock (driveBase drive) port) :
    AtaPort port := by
  rw [driveBase] at h
  split_ifs at h
  · exact .inl h
  · exact .inr (.inr (.inl h))

theorem portsConfined_of_drive {call : IdeCall} (h : call.drive = some drive) (s : Ide D) :
    PortsConfined s call := by
  intro fuel
  have hblock := inBlock_run h fuel s
  constructor
  · intro port hport
    exact .of_commandBlock (hblock _ (mem_portsWritten.mp hport))
  · intro drive' hdrive a ha
    rw [h] at hdrive
    cases hdrive
    exact .inl (hblock a ha)

/-! `ide_init` does not. -/

theorem reached_bind {α : Type} {P : α → Prop} {x : Except α α} {f : α → Except α α}
    (hx : P (reached x)) (hf : ∀ a, P a → P (reached (f a))) : P (reached (x >>= f)) := by
  cases x with
  | error a => exact hx
  | ok a => exact hf a hx

theorem ok_bind {α : Type} (a : α) (f : α → Except α α) : (Except.ok a >>= f) = f a := rfl

omit [PortBus D] in
theorem accesses_iser (log : List U8 → D → Except D D) (str : String) (t : IdeInit (Traced D)) :
    (reached (t.iser (unrecorded log) str)).ide.dev.accesses = t.ide.dev.accesses := by
  rw [IdeInit.iser, unrecorded]
  cases log (chars str) t.ide.dev.dev with
  | error d => rfl
  | ok d => rfl

omit [PortBus D] in
theorem iser_of_ok {log : List U8 → D → Except D D} {str : String} {t : IdeInit (Traced D)} {d : D}
    (h : log (chars str) t.ide.dev.dev = .ok d) :
    t.iser (unrecorded log) str =
      .ok { t with ide := { t.ide with dev := { t.ide.dev with dev := d } } } := by
  rw [IdeInit.iser, unrecorded, h]

omit [PortBus D] in
theorem iser_of_error {log : List U8 → D → Except D D} {str : String} {t : IdeInit (Traced D)}
    {d : D} (h : log (chars str) t.ide.dev.dev = .error d) :
    t.iser (unrecorded log) str =
      .error { t with ide := { t.ide with dev := { t.ide.dev with dev := d } } } := by
  rw [IdeInit.iser, unrecorded, h]

/-- Once its first line is through, `ide_init` writes to the data port of LPT1. -/
theorem lpt1_mem_portsWritten {d : D} (h : iser fuel (chars "[IDE] start\n") s.dev = .ok d) :
    0x378 ∈ portsWritten ((IdeCall.init record sectors).run fuel s).dev.accesses := by
  obtain ⟨hinb, hinw, houtb, -⟩ := mem_accesses_keeps (D := D) (.write 0x378)
  rw [mem_portsWritten, IdeCall.run, ideInitLogged, iser_of_ok h, ok_bind]
  refine reached_bind
    (P := fun t : IdeInit (Traced D) => PortAccess.write 0x378 ∈ t.ide.dev.accesses) ?_ ?_
  · -- the second of the two writes in front of the second line
    rw [accesses_iser]
    exact List.mem_cons_of_mem _ (List.mem_singleton_self _)
  · -- what follows does not take it back
    intro t ht
    rw [accesses_iser]
    exact foldl_ideInitDrive_keeps (I := fun t : Traced D => .write 0x378 ∈ t.accesses) hinb hinw
      houtb driveSlots ht

/-- Before that, it uses no port but those of the log. -/
theorem accesses_run_of_error (record : IdeIdentify) (sectors : DriveSectors) {d : D}
    (h : iser fuel (chars "[IDE] start\n") s.dev = .error d) :
    ((IdeCall.init record sectors).run fuel s).dev.accesses = [] := by
  rw [IdeCall.run, ideInitLogged, iser_of_error h]
  rfl

theorem portsConfined_init_iff (s : Ide D) (record : IdeIdentify) (sectors : DriveSectors) :
    PortsConfined s (.init record sectors) ↔ LogHangs s := by
  constructor
  · -- as soon as the first line is through, the write shows
    intro h fuel
    cases hlog : iser fuel (chars "[IDE] start\n") s.dev with
    | error d => exact ⟨d, rfl⟩
    | ok d => exact absurd ((h fuel).1 _ (lpt1_mem_portsWritten hlog)) (by decide)
  · intro h fuel
    obtain ⟨d, hlog⟩ := h fuel
    have hnone := accesses_run_of_error record sectors hlog
    rw [hnone]
    exact ⟨fun _ hport => absurd hport List.not_mem_nil, fun _ _ _ ha => absurd ha List.not_mem_nil⟩

/-- **Which calls keep to their ports.** For every device and every call: all but `ide_init`, which
does so only if its log hangs at the first line. -/
theorem ports_confined_iff (s : Ide D) (call : IdeCall) :
    PortsConfined s call ↔ (call.drive = none → LogHangs s) := by
  cases call with
  | init record sectors =>
    rw [portsConfined_init_iff]
    exact ⟨fun h _ => h, fun h => h rfl⟩
  | identify drive record =>
    exact iff_of_true (portsConfined_of_drive rfl s) (fun h => nomatch h)
  | readSectors drive lba count buf =>
    exact iff_of_true (portsConfined_of_drive rfl s) (fun h => nomatch h)
  | writeSectors drive lba count buf =>
    exact iff_of_true (portsConfined_of_drive rfl s) (fun h => nomatch h)

end Confinement

/-- A serial port that takes every character, and no drives. -/
structure SerialOnly where

instance : PortBus SerialOnly where
  inb d port := (if port = 0x3F8 + 5 then 0x20 else 0, d)
  inw d _ := (0, d)
  outb d _ _ := d
  outw d _ _ := d

/-- **The data port of LPT1.** `ide_init` writes it though it is no port of a channel. -/
theorem ide_init_writes_lpt1 :
    ¬ PortsConfined (ideBoot SerialOnly.mk) (.init (fun _ => 0) noSectors) := by
  intro h
  have hlog : iser 1 (chars "[IDE] start\n") (ideBoot SerialOnly.mk).dev = .ok SerialOnly.mk := rfl
  exact absurd ((h 1).1 _ (lpt1_mem_portsWritten hlog)) (by decide)

end OS44
