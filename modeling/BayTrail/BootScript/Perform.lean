import BayTrail.BootScript.Execute
import BayTrail.BootScript.Run

/-!
# The S3 boot script: entries perform their requests

One lemma for each opcode, from the entry as the saver left it to what the executer asks
for; `executeEntry_performs` is all of them. The sizes that the executer computes again
are those of the saver, so that it goes on behind the entry.
-/

namespace BayTrail.BootScript

open BayTrail.Lib

/-- The execution of the entry at `p` performs the request and goes on behind it. -/
def Performs (pf : Platform) (polls : Nat) (x : Exec) (p : Nat) (r : Request) : Prop :=
  ∃ v m', (∀ a, a < p ∨ p + r.entrySize ≤ a → m' a = x.mem a) ∧
    executeEntry pf polls x p = (r.perform pf polls x.history).map fun h =>
      .next (p + r.entrySize) { x with mem := m', value := v, history := h }

section

variable {pf : Platform} {polls : Nat} {x : Exec} {p : Nat} {w : Width} {pad : Mem} {y : Saved}

/-- The entry of a supported request performs it, wherever it stands. -/
def Performed (pf : Platform) (polls : Nat) (r : Request) : Prop :=
  ∀ {pad y x p}, opCodeFuncs pad r = .ok y → r.Supported pf → Holds x.mem p (y.header ++ y.data) →
    Performs pf polls x p r

variable {r n a d m c e : UInt64} {v : Nat} {ok : Bool} {header : Bytes} {fields : List Nat}
  {b : Mem} {g : UInt16}

theorem Performs.of_eq {r : Request}
    (h : executeEntry pf polls x p = (r.perform pf polls x.history).map fun h =>
      .next (p + r.entrySize) { x with value := v, history := h }) :
    Performs pf polls x p r := ⟨v, x.mem, fun _ _ => rfl, h⟩

theorem saveWrite_ok {width count : Nat} {buffer : Mem}
    (h : saveWrite width count buffer ok header = .ok y) :
    0 < count ∧ ok = true ∧ y = bufferEntry header buffer (addressCount width count) := by
  unfold saveWrite at h
  split at h
  next => cases h
  next hcount =>
    split at h
    next => cases h
    next hok =>
      cases h
      exact ⟨Nat.pos_of_ne_zero hcount, by simpa using hok, rfl⟩

theorem saveOne_ok (h : saveOne ok header = .ok y) :
    ok = true ∧ y = fixedEntry header := by
  unfold saveOne at h
  split at h
  next => cases h
  next hok =>
    cases h
    exact ⟨by simpa using hok, rfl⟩

theorem addressCount_eq (hsaves : Request.savesAll w n)
    (hfit : w.size * n.toNat < 2 ^ 64) : addressCount w.toNat n.toNat = w.size * n.toNat := by
  unfold addressCount
  rw [Width.valueSize_toNat, Width.isFifo_toNat]
  split
  next hf =>
    rw [hsaves hf] at hfit ⊢
    exact Nat.mod_eq_of_lt hfit
  next => exact Nat.mod_eq_of_lt hfit

theorem addressCount32_eq (hsaves : Request.savesAll w n)
    (hfit : w.size * n.toNat < 2 ^ 32) : addressCount32 w.toNat n.toNat = w.size * n.toNat := by
  have hn : n.toNat < 2 ^ 32 := lt_of_le_of_lt (Nat.le_mul_of_pos_left _ w.size_pos) hfit
  unfold addressCount32
  rw [Width.valueSize_toNat, Width.isFifo_toNat, Nat.mod_eq_of_lt hn]
  split
  next hf =>
    rw [hsaves hf] at hfit ⊢
    exact Nat.mod_eq_of_lt hfit
  next => exact Nat.mod_eq_of_lt hfit

theorem Reads.types {opCode : Nat}
    (R : Reads x.mem p (tableType2 opCode w.toNat) fields) (h : opCode < 256) :
    rd x.mem 2 p % 256 = opCode ∧ rd x.mem 2 p / 256 = w.toNat := by
  rw [R.type]
  exact tableType2_split w h

theorem Reads.field_eq {type : Nat} (R : Reads x.mem p type fields) (i : Nat)
    {n : Nat} (hi : fields[i]? = some n) (hn : n < 2 ^ 64) : fieldAt x.mem p i = n := by
  obtain ⟨hlt, rfl⟩ := List.getElem?_eq_some_iff.mp hi
  rw [R.field i hlt, Nat.mod_eq_of_lt hn]

theorem ioWrite_performs : Performed pf polls (.ioWrite w a n b) := by
  intro pad y x p hy hs h
  obtain ⟨hsaves, hw, hfit⟩ := hs
  obtain ⟨hn, hok, rfl⟩ := saveWrite_ok hy
  have hcount := addressCount_eq hsaves (by omega)
  simp only [ioRange, decide_eq_true_eq] at hok
  rw [hcount, uintn_of_lt hfit] at hok
  dsimp only [bufferEntry] at h
  rw [hcount] at h
  obtain ⟨R, hport, hdata⟩ := portStruct_reads h
  change Holds x.mem (p + 16) _ at hdata
  obtain ⟨htype, hwidth⟩ := R.types (by decide)
  have hfield := R.field_eq 0 rfl n.toNat_lt
  have hport' : rd x.mem 2 (p + 2) = a.toNat := by
    rw [hport, Nat.mod_eq_of_lt]
    omega
  have hmul : n.toNat ≤ w.size * n.toNat := Nat.le_mul_of_pos_left _ w.size_pos
  refine Performs.of_eq (v := x.value) ?_
  unfold executeEntry
  simp only [htype]
  rw [hwidth, hport', hfield, addressCount32_eq hsaves (by omega), Nat.mod_eq_of_lt (by omega),
    serviceWrite_io hw hn (fun hf => by rw [hsaves hf]; rfl) hok hdata]
  simp only [Request.perform, Request.entrySize, Option.map_some, hcount, Nat.add_assoc]

theorem memWrite_performs : Performed pf polls (.memWrite w a n b) := by
  intro pad y x p hy hs h
  obtain ⟨hsaves, hfit, hshort⟩ := hs
  obtain ⟨hn, -, rfl⟩ := saveWrite_ok hy
  have hcount := addressCount_eq hsaves (by omega)
  dsimp only [bufferEntry] at h
  rw [hcount] at h
  obtain ⟨R, hdata⟩ := typeStruct_reads h
  change Holds x.mem (p + 24) _ at hdata
  obtain ⟨htype, hwidth⟩ := R.types (by decide)
  have hmul : n.toNat ≤ w.size * n.toNat := Nat.le_mul_of_pos_left _ w.size_pos
  refine Performs.of_eq (v := x.value) ?_
  unfold executeEntry
  simp only [htype]
  rw [hwidth, R.field_eq 0 rfl a.toNat_lt, R.field_eq 1 rfl n.toNat_lt,
    addressCount32_eq hsaves (by omega), Nat.mod_eq_of_lt (by omega),
    serviceWrite_mem hn (fun hf => by rw [hsaves hf]; rfl) hfit hdata]
  simp only [Request.perform, Request.entrySize, Option.map_some, hcount, Nat.add_assoc]

/-- What the saver of a PCI write checks and the condition says. -/
theorem pciWrite_fits (hsaves : Request.pciSavesAll w n)
    (hfit : Request.pciFits w a n)
    (hok : (pciAligned w.toNat a.toNat && pciRange a.toNat (addressCount w.toNat n.toNat)) = true) :
    Request.savesAll w n ∧ a.toNat % 256 + w.size * n.toNat ≤ 256 := by
  have hall : Request.savesAll w n := by
    intro hf
    refine hsaves ?_
    by_contra hne
    exact w.not_fifo_and_fill ⟨hf, by simpa using hne⟩
  have hpci := hfit.1
  obtain ⟨-, hrange⟩ := Bool.and_eq_true_iff.mp hok
  simp only [pciRange, decide_eq_true_eq] at hrange
  rw [addressCount_eq hall (by omega), uintn_of_lt hpci] at hrange
  exact ⟨hall, hrange⟩

theorem pciWrite_performs : Performed pf polls (.pciWrite w a n b) := by
  intro pad y x p hy hs h
  obtain ⟨hsaves, hfit⟩ := hs
  obtain ⟨hn, hok, rfl⟩ := saveWrite_ok hy
  obtain ⟨hall, hlow⟩ := pciWrite_fits hsaves hfit hok
  have hcount := addressCount_eq hall (by omega)
  dsimp only [bufferEntry] at h
  rw [hcount] at h
  obtain ⟨R, hdata⟩ := typeStruct_reads h
  change Holds x.mem (p + 24) _ at hdata
  obtain ⟨htype, hwidth⟩ := R.types (by decide)
  refine Performs.of_eq (v := x.value) ?_
  unfold executeEntry
  simp only [htype]
  rw [hwidth, R.field_eq 0 rfl a.toNat_lt, R.field_eq 1 rfl n.toNat_lt,
    addressCount32_eq hall (by omega),
    pciWrite_eq hn (fun hf => by rw [hsaves hf]; rfl) hlow hfit.2 hdata]
  simp only [Request.perform, Request.entrySize, Option.map_some, hcount, Nat.add_assoc]

theorem pciCfgPpi_eq (h : Request.segmentFits pf g) :
    pf.pciCfgPpi g.toNat = some (.pci g.toNat) := by
  unfold Platform.pciCfgPpi
  by_cases hg : g = 0
  · subst hg
    rfl
  · have hne : g.toNat ≠ 0 := fun heq => hg (UInt16.toNat_inj.mp heq)
    rw [if_pos hne, if_pos (h hg)]

theorem segment_mod (g : UInt16) : g.toNat % 2 ^ 16 = g.toNat := Nat.mod_eq_of_lt g.toNat_lt

theorem pciCfg2Write_performs : Performed pf polls (.pciCfg2Write w g a n b) := by
  intro pad y x p hy hs h
  obtain ⟨hsaves, hfit, hg⟩ := hs
  obtain ⟨hn, hok, rfl⟩ := saveWrite_ok hy
  obtain ⟨hall, hlow⟩ := pciWrite_fits hsaves hfit hok
  have hcount := addressCount_eq hall (by omega)
  dsimp only [bufferEntry] at h
  rw [hcount] at h
  obtain ⟨R, hsegment, hdata⟩ := segmentStruct_reads h
  change Holds x.mem (p + 32) _ at hdata
  obtain ⟨htype, hwidth⟩ := R.types (by decide)
  have hsegment' : rd x.mem 2 (p + 24) = g.toNat := hsegment.trans (segment_mod g)
  refine Performs.of_eq (v := x.value) ?_
  unfold executeEntry
  simp only [htype]
  simp only [hsegment', pciCfgPpi_eq hg]
  rw [hwidth, R.field_eq 0 rfl a.toNat_lt, R.field_eq 1 rfl n.toNat_lt,
    addressCount32_eq hall (by omega),
    pciWrite_eq hn (fun hf => by rw [hsaves hf]; rfl) hlow hfit.2 hdata]
  simp only [Request.perform, Request.entrySize, Option.map_some, hcount, Nat.add_assoc]

/-! ## Read-modify-writes -/

theorem masked_lt (value : Nat) : masked w.toNat value < 2 ^ 64 := by
  rw [masked_eq]
  have h8 : 256 ^ w.size ≤ 256 ^ 8 := Nat.pow_le_pow_right (by decide) w.size_le
  exact lt_of_lt_of_le (Nat.mod_lt _ (Nat.pow_pos (by decide))) (le_trans h8 (by decide))

/-- What the saver of one I/O access checks and the condition says. -/
theorem reaches_port (hfit : Request.ioFits w a 1)
    (hok : ioRange a.toNat (valueSize w.toNat) = true) :
    Space.io.reaches w.single a.toNat = true ∧ a.toNat < 2 ^ 16 := by
  obtain ⟨hw, hfit⟩ := hfit
  rw [Nat.mul_one] at hfit
  simp only [ioRange, decide_eq_true_eq, Width.valueSize_toNat] at hok
  rw [uintn_of_lt hfit] at hok
  exact ⟨reaches_io hw hok, by omega⟩

theorem reaches_address (hfit : Request.memFits w a 1) :
    Space.mem.reaches w.single a.toNat = true := by
  unfold Request.memFits at hfit
  exact reaches_mem (by rwa [Nat.mul_one] at hfit)

theorem ioReadWrite_performs : Performed pf polls (.ioReadWrite w a d m) := by
  intro pad y x p hy hs h
  obtain ⟨hok, rfl⟩ := saveOne_ok hy
  obtain ⟨hreach, ha⟩ := reaches_port hs hok
  obtain ⟨R, hport, -⟩ := portStruct_reads h
  obtain ⟨htype, hwidth⟩ := R.types (by decide)
  have hport' : rd x.mem 2 (p + 2) = a.toNat := hport.trans (Nat.mod_eq_of_lt ha)
  obtain ⟨v, hv⟩ := readWrite_eq pf x hreach d.toNat m.toNat
  refine Performs.of_eq (v := v) ?_
  unfold executeEntry
  simp only [htype]
  rw [hwidth, hport', R.field_eq 0 rfl (masked_lt _), R.field_eq 1 rfl (masked_lt _)]
  exact congrArg (fun x' => some (Outcome.next (p + 24) x')) hv

theorem memReadWrite_performs : Performed pf polls (.memReadWrite w a d m) := by
  intro pad y x p hy hs h
  obtain ⟨-, rfl⟩ := saveOne_ok hy
  obtain ⟨R, -⟩ := typeStruct_reads h
  obtain ⟨htype, hwidth⟩ := R.types (by decide)
  obtain ⟨v, hv⟩ := readWrite_eq pf x (reaches_address hs) d.toNat m.toNat
  refine Performs.of_eq (v := v) ?_
  unfold executeEntry
  simp only [htype]
  rw [hwidth, R.field_eq 0 rfl a.toNat_lt, R.field_eq 1 rfl (masked_lt _),
    R.field_eq 2 rfl (masked_lt _)]
  exact congrArg (fun x' => some (Outcome.next (p + 32) x')) hv

theorem reaches_pci (segment address : Nat) :
    (Space.pci segment).reaches w.single address = true := rfl

theorem pciReadWrite_performs : Performed pf polls (.pciReadWrite w a d m) := by
  intro pad y x p hy _ h
  obtain ⟨-, rfl⟩ := saveOne_ok hy
  obtain ⟨R, -⟩ := typeStruct_reads h
  obtain ⟨htype, hwidth⟩ := R.types (by decide)
  obtain ⟨v, hv⟩ := readWrite_eq pf x (reaches_pci 0 a.toNat) d.toNat m.toNat
  refine Performs.of_eq (v := v) ?_
  unfold executeEntry
  simp only [htype]
  rw [hwidth, R.field_eq 0 rfl a.toNat_lt, R.field_eq 1 rfl (masked_lt _),
    R.field_eq 2 rfl (masked_lt _)]
  exact congrArg (fun x' => some (Outcome.next (p + 32) x')) hv

theorem pciCfg2ReadWrite_performs : Performed pf polls (.pciCfg2ReadWrite w g a d m) := by
  intro pad y x p hy hs h
  obtain ⟨-, rfl⟩ := saveOne_ok hy
  obtain ⟨R, hsegment, -⟩ := segmentStruct_reads h
  obtain ⟨htype, hwidth⟩ := R.types (by decide)
  have hsegment' : rd x.mem 2 (p + 32) = g.toNat := hsegment.trans (segment_mod g)
  obtain ⟨v, hv⟩ := readWrite_eq pf x (reaches_pci g.toNat a.toNat) d.toNat m.toNat
  refine Performs.of_eq (v := v) ?_
  unfold executeEntry
  simp only [htype]
  simp only [hsegment', pciCfgPpi_eq hs]
  rw [hwidth, R.field_eq 0 rfl a.toNat_lt, R.field_eq 1 rfl (masked_lt _),
    R.field_eq 2 rfl (masked_lt _)]
  exact congrArg (fun x' => some (Outcome.next (p + 40) x')) hv

/-! ## Polls -/

/-- A poll that ends, ends the entry. -/
theorem Performs.of_poll {space : Space} {address mask result polled : Nat} {stall : Option Nat}
    {times next : Nat} {r : Request} {z : Option Exec}
    (hz : z = (pollUntil pf space w address mask result stall polled times x.history).map
      fun h => { x with value := v, history := h })
    (hr : r.perform pf polls x.history
      = pollUntil pf space w address mask result stall polled times x.history)
    (hnext : next = p + r.entrySize)
    (h : executeEntry pf polls x p = z.map (.next next)) : Performs pf polls x p r := by
  refine Performs.of_eq (v := v) ?_
  rw [h, hz, hr, hnext, Option.map_map]
  rfl

/-- The counter of a poll of a PI opcode. -/
theorem pollDelay_eq (d : UInt64) :
    d.toNat / 10 + 1 = uintn (d.toNat / 10 + 1) ∧ 1 ≤ d.toNat / 10 + 1
      ∧ d.toNat / 10 + 1 ≤ 2 ^ 64 := by
  have hd := d.toNat_lt
  exact ⟨(uintn_of_lt (by omega)).symm, by omega, by omega⟩

theorem ioPoll_performs : Performed pf polls (.ioPoll w a r m d) := by
  intro pad y x p hy hs h
  obtain ⟨hok, rfl⟩ := saveOne_ok hy
  obtain ⟨hreach, ha⟩ := reaches_port hs hok
  obtain ⟨R, hport, -⟩ := portStruct_reads h
  obtain ⟨htype, hwidth⟩ := R.types (by decide)
  have hport' : rd x.mem 2 (p + 2) = a.toNat := hport.trans (Nat.mod_eq_of_lt ha)
  obtain ⟨v, hv⟩ := pollLoop_eq pf hreach m.toNat r.toNat (some 1) polls
    (d.toNat / 10 + 1) (d.toNat / 10 + 1) x fun _ => pollDelay_eq d
  refine Performs.of_poll hv rfl rfl ?_
  unfold executeEntry
  simp only [htype]
  rw [hwidth, hport', R.field_eq 0 rfl (masked_lt _), R.field_eq 1 rfl (masked_lt _),
    R.field_eq 2 rfl d.toNat_lt]
  rfl

theorem oemIoPoll_performs : Performed pf polls (.oemIoPoll w a m r) := by
  intro pad y x p hy hs h
  obtain ⟨hok, rfl⟩ := saveOne_ok hy
  obtain ⟨hreach, ha⟩ := reaches_port hs hok
  obtain ⟨R, hport, -⟩ := portStruct_reads h
  obtain ⟨htype, hwidth⟩ := R.types (by decide)
  have hport' : rd x.mem 2 (p + 2) = a.toNat := hport.trans (Nat.mod_eq_of_lt ha)
  obtain ⟨v, hv⟩ := pollLoop_eq pf hreach m.toNat r.toNat none polls 0 0 x
    fun h => absurd h (by simp)
  refine Performs.of_poll hv rfl rfl ?_
  unfold executeEntry
  simp only [htype]
  rw [hwidth, hport', R.field_eq 0 rfl (masked_lt _), R.field_eq 1 rfl (masked_lt _)]
  rfl

theorem memPoll_performs {l : UInt64} : Performed pf polls (.memPoll w a m r d l) := by
  intro pad y x p hy hs h
  obtain ⟨hfit, hdelay⟩ := hs
  obtain ⟨-, rfl⟩ := saveOne_ok hy
  obtain ⟨R, -⟩ := typeStruct_reads h
  obtain ⟨htype, hwidth⟩ := R.types (by decide)
  have hl := l.toNat_lt
  obtain ⟨v, hv⟩ := pollLoop_eq pf (reaches_address hfit) m.toNat r.toNat (some d.toNat) polls
    (uintn (l.toNat + 1)) (l.toNat + 1) x fun _ => ⟨rfl, by omega, by omega⟩
  refine Performs.of_poll hv rfl rfl ?_
  unfold executeEntry
  simp only [htype]
  rw [hwidth, R.field_eq 0 rfl a.toNat_lt, R.field_eq 1 rfl (masked_lt _),
    R.field_eq 2 rfl (masked_lt _), R.field_eq 3 rfl d.toNat_lt, R.field_eq 4 rfl l.toNat_lt,
    Nat.mod_eq_of_lt hdelay]
  rfl

theorem oemMemPoll_performs : Performed pf polls (.oemMemPoll w a m r) := by
  intro pad y x p hy hs h
  obtain ⟨-, rfl⟩ := saveOne_ok hy
  obtain ⟨R, -⟩ := typeStruct_reads h
  obtain ⟨htype, hwidth⟩ := R.types (by decide)
  obtain ⟨v, hv⟩ := pollLoop_eq pf (reaches_address hs) m.toNat r.toNat none polls 0 0 x
    fun h => absurd h (by simp)
  refine Performs.of_poll hv rfl rfl ?_
  unfold executeEntry
  simp only [htype]
  rw [hwidth, R.field_eq 0 rfl a.toNat_lt, R.field_eq 1 rfl (masked_lt _),
    R.field_eq 2 rfl (masked_lt _)]
  rfl

theorem pciCfgPoll_performs : Performed pf polls (.pciCfgPoll w a r m d) := by
  intro pad y x p hy _ h
  obtain ⟨-, rfl⟩ := saveOne_ok hy
  obtain ⟨R, -⟩ := typeStruct_reads h
  obtain ⟨htype, hwidth⟩ := R.types (by decide)
  obtain ⟨v, hv⟩ := pollLoop_eq pf (reaches_pci 0 a.toNat) m.toNat r.toNat (some 1) polls
    (d.toNat / 10 + 1) (d.toNat / 10 + 1) x fun _ => pollDelay_eq d
  refine Performs.of_poll hv rfl rfl ?_
  unfold executeEntry
  simp only [htype]
  rw [hwidth, R.field_eq 0 rfl a.toNat_lt, R.field_eq 1 rfl (masked_lt _),
    R.field_eq 2 rfl (masked_lt _), R.field_eq 3 rfl d.toNat_lt]
  rfl

theorem pciCfg2Poll_performs : Performed pf polls (.pciCfg2Poll w g a r m d) := by
  intro pad y x p hy hs h
  obtain ⟨-, rfl⟩ := saveOne_ok hy
  obtain ⟨R, hsegment, -⟩ := segmentStruct_reads h
  obtain ⟨htype, hwidth⟩ := R.types (by decide)
  have hsegment' : rd x.mem 2 (p + 40) = g.toNat := hsegment.trans (segment_mod g)
  obtain ⟨v, hv⟩ := pollLoop_eq pf (reaches_pci g.toNat a.toNat) m.toNat r.toNat (some 1) polls
    (d.toNat / 10 + 1) (d.toNat / 10 + 1) x fun _ => pollDelay_eq d
  refine Performs.of_poll hv rfl rfl ?_
  unfold executeEntry
  simp only [htype]
  simp only [hsegment', pciCfgPpi_eq hs]
  rw [hwidth, R.field_eq 0 rfl a.toNat_lt, R.field_eq 1 rfl (masked_lt _),
    R.field_eq 2 rfl (masked_lt _), R.field_eq 3 rfl d.toNat_lt]
  rfl

theorem oemPciPoll_performs : Performed pf polls (.oemPciPoll w a m r) := by
  intro pad y x p hy _ h
  obtain ⟨-, rfl⟩ := saveOne_ok hy
  obtain ⟨R, -⟩ := typeStruct_reads h
  obtain ⟨htype, hwidth⟩ := R.types (by decide)
  obtain ⟨v, hv⟩ := pollLoop_eq pf (reaches_pci 0 a.toNat) m.toNat r.toNat none polls 0 0 x
    fun h => absurd h (by simp)
  refine Performs.of_poll hv rfl rfl ?_
  unfold executeEntry
  simp only [htype]
  rw [hwidth, R.field_eq 0 rfl a.toNat_lt, R.field_eq 1 rfl (masked_lt _),
    R.field_eq 2 rfl (masked_lt _)]
  rfl

/-! ## The other entries -/

/-- The SMBus may write to the data of the entry. -/
theorem smbusExecute_performs {s : UInt64} {o : UInt32} {k : UInt8} : Performed pf polls (.smbusExecute s c o k n b) := by
  intro pad y x p hy hs h
  obtain ⟨hslave, hcommand, hlength⟩ := hs
  have hn : n.toNat % 2 ^ 32 = n.toNat := Nat.mod_eq_of_lt (by omega)
  cases hy
  simp only [bufferEntry, List.append_assoc, hn] at h
  simp only [holds_append, leBytes_length] at h
  obtain ⟨h0, h2, h6, h10, h14, h15, hdata⟩ := h
  have htype : rd x.mem 2 p % 256 = 0x06 := congrArg (· % 256) h0.rd_eq
  have hfields : rd x.mem 4 (p + 2) = s.toNat ∧ rd x.mem 4 (p + 6) = c.toNat
      ∧ rd x.mem 4 (p + 10) = o.toNat ∧ rd x.mem 1 (p + 14) = k.toNat
      ∧ rd x.mem 8 (p + 15) = n.toNat :=
    ⟨h2.rd_eq_of_lt hslave, h6.rd_eq_of_lt hcommand, h10.rd_eq_of_lt o.toNat_lt,
      h14.rd_eq_of_lt k.toNat_lt, h15.rd_eq_of_lt n.toNat_lt⟩
  have hpeek : peek x.mem (p + 23) n.toNat = peek b 0 n.toNat :=
    hdata.peek_eq (peek_length _ _ _).symm
  obtain ⟨e1, e2, e3, e4, e5⟩ := hfields
  let h := x.history ++ [.smbus s.toNat c.toNat o.toNat k.toNat (peek b 0 n.toNat)]
  refine ⟨x.value, poke x.mem (p + 23) ((pf.smbusData h).take n.toNat), fun a ha => ?_, ?_⟩
  · refine poke_of_out ?_
    have hlen : ((pf.smbusData h).take n.toNat).length ≤ n.toNat := List.length_take_le _ _
    simp only [Request.entrySize, hn] at ha
    omega
  · unfold executeEntry
    simp only [htype]
    rw [e1, e2, e3, e4, e5, hn, hpeek]
    simp only [Request.perform, Request.entrySize, Option.map_some, hn, Nat.add_assoc]
    rfl

theorem stall_performs : Performed pf polls (.stall d) := by
  intro pad y x p hy hs h
  cases hy
  obtain ⟨R, -⟩ := typeStruct_reads h
  have htype : rd x.mem 2 p % 256 = 0x07 :=
    congrArg (· % 256) R.type
  refine Performs.of_eq (v := x.value) ?_
  unfold executeEntry
  simp only [htype]
  rw [R.field_eq 0 rfl d.toNat_lt, Nat.mod_eq_of_lt hs]
  rfl

theorem dispatch_performs : Performed pf polls (.dispatch e) := by
  intro pad y x p hy hs h
  cases hy
  obtain ⟨R, -⟩ := typeStruct_reads h
  have htype : rd x.mem 2 p % 256 = 0x08 :=
    congrArg (· % 256) R.type
  refine Performs.of_eq (v := x.value) ?_
  unfold executeEntry
  simp only [htype]
  rw [R.field_eq 0 rfl e.toNat_lt, Nat.mod_eq_of_lt hs]
  rfl

theorem dispatch2_performs : Performed pf polls (.dispatch2 e c) := by
  intro pad y x p hy hs h
  obtain ⟨hentry, hcontext⟩ := hs
  cases hy
  obtain ⟨R, -⟩ := typeStruct_reads h
  have htype : rd x.mem 2 p % 256 = 0x09 :=
    congrArg (· % 256) R.type
  refine Performs.of_eq (v := x.value) ?_
  unfold executeEntry
  simp only [htype]
  rw [R.field_eq 0 rfl e.toNat_lt, Nat.mod_eq_of_lt hentry, ← hcontext]
  rfl

theorem information_performs {n : UInt32} {q : UInt64} : Performed pf polls (.information n q) := by
  intro pad y x p hy _ h
  cases hy
  simp only [fixedEntry, List.append_assoc, holds_append, leBytes_length] at h
  have htype : rd x.mem 2 p % 256 = 0x0A := congrArg (· % 256) h.1.rd_eq
  refine Performs.of_eq (v := x.value) ?_
  unfold executeEntry
  simp only [htype]
  rfl

theorem executeEntry_performs {r : Request} (polls : Nat) : Performed pf polls r := by
  cases r with
  | ioWrite => exact ioWrite_performs
  | ioReadWrite => exact ioReadWrite_performs
  | memWrite => exact memWrite_performs
  | memReadWrite => exact memReadWrite_performs
  | pciWrite => exact pciWrite_performs
  | pciReadWrite => exact pciReadWrite_performs
  | smbusExecute => exact smbusExecute_performs
  | stall => exact stall_performs
  | dispatch => exact dispatch_performs
  | dispatch2 => exact dispatch2_performs
  | information => exact information_performs
  | pciCfg2Write => exact pciCfg2Write_performs
  | pciCfg2ReadWrite => exact pciCfg2ReadWrite_performs
  | ioPoll => exact ioPoll_performs
  | memPoll => exact memPoll_performs
  | pciCfgPoll => exact pciCfgPoll_performs
  | pciCfg2Poll => exact pciCfg2Poll_performs
  | oemIoPoll => exact oemIoPoll_performs
  | oemMemPoll => exact oemMemPoll_performs
  | oemPciPoll => exact oemPciPoll_performs

end

end BayTrail.BootScript
