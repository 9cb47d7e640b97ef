import BayTrail.Pci.Resources

/-!
# The bounds checks of the PCI I/O protocol

`PciIoCheckBar`, `PciIoCheckConfig` and `PciIoSetBarAttributes` of `PciBus.c`. Offsets and
counts are 64 bits wide and come from the caller; the end of an access is computed modulo `2 ^ 64`.
-/

namespace BayTrail.Pci

/-- What is used of `PCI_DEV_INFO`; there is something behind the last bar as well. -/
structure Device where
  bus : Nat
  device : Nat
  function : Nat
  bar : Nat → Bar
  length_lt : ∀ i, (bar i).length < 2 ^ 64

inductive CheckError where
  | invalidParameter | unsupported
  deriving DecidableEq

def maxPciBar : Nat := 6

/-- `EfiPciIoWidthMaximum`. -/
def widthMaximum : Int := 12

/-- `EFI_PCI_IO_ATTRIBUTE_MEMORY_CACHED` and `EFI_PCI_IO_ATTRIBUTE_MEMORY_WRITE_COMBINE`. -/
def barAttr : BitVec 64 := 0x880

/-! ## The functions -/

def barCheckType (bar : Bar) (type : BarType) : Bool :=
  match type with
  | .mem => bar.type = .mmio32 || bar.type = .mmio32pf || bar.type = .mmio64 || bar.type = .mmio64pf
  | .io => bar.type = .io32 || bar.type = .io16
  | _ => false

def refusesWidth (width : Int) : Bool := width < 0 || widthMaximum ≤ width

/-- From `EfiPciWidthFifoUint8` to `EfiPciWidthFifoUint64`. -/
def isFifo (width : Int) : Bool := 4 ≤ width && width ≤ 7

/-- `(UINTN)1 << (Width & 0x03)`. -/
def widthSize (width : Int) : BitVec 64 := 1#64 <<< (width.toNat % 4)

/-- `(*Offset+Count*((UINTN)1<<Width))-1`. -/
def lastByte (width : Int) (count offset : BitVec 64) : BitVec 64 := offset + count * widthSize width - 1

def pciIoCheckBar (dev : Device) (barInd : BitVec 8) (type : BarType) (width : Int)
    (count offset : BitVec 64) : Except CheckError (BitVec 64) :=
  if refusesWidth width then .error .invalidParameter
  else if barInd = 0xFF then .ok offset
  else if maxPciBar ≤ barInd.toNat then .error .invalidParameter
  else
    let bar := dev.bar barInd.toNat
    if !barCheckType bar type then .error .invalidParameter
    else
      let count := if isFifo width then 1 else count
      if bar.length ≤ (lastByte width count offset).toNat then .error .invalidParameter
      else .ok (offset + BitVec.ofNat 64 bar.base)

/-- `PCI_ASSEMBLE_ADDR`. -/
def pciAssembleAddr (dev : Device) (offset : BitVec 64) : BitVec 64 :=
  BitVec.ofNat 64 dev.bus <<< 24 + BitVec.ofNat 64 dev.device <<< 16 + BitVec.ofNat 64 dev.function <<< 8 + offset

def pciIoCheckConfig (dev : Device) (width : Int) (count offset : BitVec 64) :
    Except CheckError (BitVec 64) :=
  if refusesWidth width then .error .invalidParameter
  else if 0xFF < (lastByte width count offset).toNat then .error .unsupported
  else .ok (pciAssembleAddr dev offset)

/-- `PciIoSetBarAttributes`; nothing is set. -/
def pciIoSetBarAttributes (dev : Device) (attributes : BitVec 64) (barIndex : BitVec 8)
    (offset length : Option (BitVec 64)) : Except CheckError Unit :=
  match offset, length with
  | some offset, some length =>
    if (dev.bar barIndex.toNat).type = .unused then .error .unsupported
    else if attributes &&& ~~~barAttr ≠ 0 then .error .unsupported
    else
      match pciIoCheckBar dev barIndex .mem 0 (length.setWidth 32 |>.setWidth 64) offset with
      | .error _ => .error .unsupported
      | .ok _ => .ok ()
  | _, _ => .error .invalidParameter

/-! ## What a success is to mean -/

/-- All of the range lies in a space of so many bytes, which is one without an address `2 ^ 64`. -/
def Within (space offset count size : Nat) : Prop := offset + count * size ≤ space

/-- The bar exists, and the range lies in it. -/
def InBar (dev : Device) (barInd : BitVec 8) (offset count size : Nat) : Prop :=
  barInd.toNat < maxPciBar ∧ Within (dev.bar barInd.toNat).length offset count size

/-- An end that is refused whether or not it has wrapped around. -/
def RefusesEnd (space stop : Nat) : Prop := stop % 2 ^ 64 = 0 ∨ space < stop % 2 ^ 64

/-- The index is that of a bar, and the end is computed without a carry and from all elements; or
the call is refused. -/
def BarBounded (dev : Device) (barInd : BitVec 8) (type : BarType) (width : Int)
    (count offset : BitVec 64) : Prop :=
  let bar := dev.bar barInd.toNat
  let size := (widthSize width).toNat
  refusesWidth width = true ∨ barInd ≠ 0xFF ∧
    (barInd.toNat < maxPciBar → barCheckType bar type = true →
      if isFifo width then
        RefusesEnd bar.length (offset.toNat + size) ∨ offset.toNat + count.toNat * size ≤ bar.length
      else RefusesEnd bar.length (offset.toNat + count.toNat * size) ∨
        offset.toNat + count.toNat * size < 2 ^ 64)

def ConfigBounded (width : Int) (count offset : BitVec 64) : Prop :=
  let stop := offset.toNat + count.toNat * (widthSize width).toNat
  refusesWidth width = true ∨ RefusesEnd 0x100 stop ∨ stop < 2 ^ 64

/-- The index is that of a bar, and the length has 32 bits and the end no carry, or all of the
length would be accepted; or the call is refused. -/
def AttributesBounded (dev : Device) (attributes : BitVec 64) (barIndex : BitVec 8)
    (offset length : BitVec 64) : Prop :=
  let bar := dev.bar barIndex.toNat
  bar.type = .unused ∨ attributes &&& ~~~barAttr ≠ 0 ∨ barIndex ≠ 0xFF ∧
    (barIndex.toNat < maxPciBar → barCheckType bar .mem = true →
      RefusesEnd bar.length (offset.toNat + length.toNat % 2 ^ 32) ∨
      if length.toNat < 2 ^ 32 then offset.toNat + length.toNat < 2 ^ 64
      else offset.toNat + length.toNat ≤ bar.length)

/-! ## Ends of accesses -/

section

variable {dev : Device} {barInd : BitVec 8} {type : BarType} {width : Int} {count offset length : BitVec 64}

theorem lastByte_toNat (width : Int) (count offset : BitVec 64) :
    (lastByte width count offset).toNat =
      (offset.toNat + count.toNat * (widthSize width).toNat + (2 ^ 64 - 1)) % 2 ^ 64 := by
  unfold lastByte
  rw [BitVec.toNat_sub, BitVec.toNat_add, BitVec.toNat_mul]
  show (2 ^ 64 - 1 + _) % 2 ^ 64 = _
  omega

/-- The comparison with the end that has been computed. -/
theorem refusesEnd_iff {space : Nat} (h : space < 2 ^ 64) (width : Int) (count offset : BitVec 64) :
    space ≤ (lastByte width count offset).toNat ↔
      RefusesEnd space (offset.toNat + count.toNat * (widthSize width).toNat) := by
  rw [lastByte_toNat]
  unfold RefusesEnd
  omega

/-- What an accepted end means when it is that of all elements. -/
theorem within_iff {space : Nat} (h : space < 2 ^ 64) (stop : Nat) :
    (¬ RefusesEnd space stop → stop ≤ space) ↔ RefusesEnd space stop ∨ stop < 2 ^ 64 := by
  unfold RefusesEnd
  omega

/-! ## The functions -/

theorem pciIoCheckBar_accepts (hwidth : refusesWidth width = false) (hpass : barInd ≠ 0xFF) :
    (pciIoCheckBar dev barInd type width count offset).isOk = true ↔
      barInd.toNat < maxPciBar ∧ barCheckType (dev.bar barInd.toNat) type = true ∧
        ¬ RefusesEnd (dev.bar barInd.toNat).length
          (offset.toNat + (if isFifo width then 1 else count).toNat * (widthSize width).toNat) := by
  rw [← refusesEnd_iff (dev.length_lt _)]
  unfold pciIoCheckBar
  rw [hwidth, if_neg Bool.false_ne_true, if_neg hpass]
  dsimp only
  by_cases hind : maxPciBar ≤ barInd.toNat
  · rw [if_pos hind]
    exact iff_of_false Bool.false_ne_true fun h => Nat.not_lt.mpr hind h.1
  rw [if_neg hind, and_iff_right (Nat.lt_of_not_le hind)]
  cases htype : barCheckType (dev.bar barInd.toNat) type with
  | false => exact iff_of_false Bool.false_ne_true fun h => absurd h.1 Bool.false_ne_true
  | true =>
    rw [Bool.not_true, if_neg Bool.false_ne_true, and_iff_right rfl]
    generalize (if isFifo width then 1 else count) = elements
    by_cases hlast : (dev.bar barInd.toNat).length ≤ (lastByte width elements offset).toNat
    · rw [if_pos hlast]
      exact iff_of_false Bool.false_ne_true (not_not.mpr hlast)
    · rw [if_neg hlast]
      exact iff_of_true rfl hlast

theorem pciIoCheckBar_pass (hwidth : refusesWidth width = false) :
    pciIoCheckBar dev 0xFF type width count offset = .ok offset := by
  unfold pciIoCheckBar
  rw [hwidth, if_neg Bool.false_ne_true, if_pos rfl]

theorem pciIoCheckBar_inBar_iff :
    ((pciIoCheckBar dev barInd type width count offset).isOk = true →
      InBar dev barInd offset.toNat count.toNat (widthSize width).toNat) ↔
    BarBounded dev barInd type width count offset := by
  unfold BarBounded
  dsimp only
  cases hwidth : refusesWidth width with
  | true =>
    refine iff_of_true (fun h => ?_) (Or.inl rfl)
    unfold pciIoCheckBar at h
    rw [hwidth, if_pos rfl] at h
    exact absurd h Bool.false_ne_true
  | false =>
    rw [or_iff_right Bool.false_ne_true]
    by_cases hpass : barInd = 0xFF
    · subst hpass
      rw [pciIoCheckBar_pass hwidth]
      refine iff_of_false (fun h => ?_) (fun h => h.1 rfl)
      exact absurd (h rfl).1 (by decide)
    rw [pciIoCheckBar_accepts hwidth hpass, and_iff_right hpass]
    unfold InBar Within
    -- the rest is about the end
    have hend := within_iff (dev.length_lt barInd.toNat)
      (offset.toNat + count.toNat * (widthSize width).toNat)
    cases hfifo : isFifo width with
    | true =>
      rw [if_pos rfl, if_pos rfl, show (1 : BitVec 64).toNat = 1 from rfl, Nat.one_mul]
      constructor
      · intro h hind htype
        by_cases hrefuses : RefusesEnd (dev.bar barInd.toNat).length (offset.toNat + (widthSize width).toNat)
        · exact Or.inl hrefuses
        · exact Or.inr (h ⟨hind, htype, hrefuses⟩).2
      · rintro h ⟨hind, htype, haccepts⟩
        exact ⟨hind, (h hind htype).resolve_left haccepts⟩
    | false =>
      rw [if_neg Bool.false_ne_true, if_neg Bool.false_ne_true]
      constructor
      · intro h hind htype
        exact hend.mp fun haccepts => (h ⟨hind, htype, haccepts⟩).2
      · rintro h ⟨hind, htype, haccepts⟩
        exact ⟨hind, hend.mpr (h hind htype) haccepts⟩

theorem pciIoCheckConfig_within_iff :
    ((pciIoCheckConfig dev width count offset).isOk = true →
      Within 0x100 offset.toNat count.toNat (widthSize width).toNat) ↔
    ConfigBounded width count offset := by
  have hend := within_iff (show 0x100 < 2 ^ 64 by decide)
    (offset.toNat + count.toNat * (widthSize width).toNat)
  have hrefuses := refusesEnd_iff (show 0x100 < 2 ^ 64 by decide) width count offset
  unfold ConfigBounded pciIoCheckConfig Within
  dsimp only
  cases refusesWidth width with
  | true => exact iff_of_true (fun h => absurd h Bool.false_ne_true) (Or.inl rfl)
  | false =>
    rw [if_neg Bool.false_ne_true, or_iff_right Bool.false_ne_true, ← hend, ← hrefuses]
    split
    · next hgt => exact iff_of_true (fun h => absurd h Bool.false_ne_true) (fun h => absurd hgt h)
    · next hle => exact ⟨fun h _ => h rfl, fun h _ => h hle⟩

theorem truncated_toNat (length : BitVec 64) :
    (length.setWidth 32 |>.setWidth 64).toNat = length.toNat % 2 ^ 32 := by
  rw [BitVec.toNat_setWidth, BitVec.toNat_setWidth]
  omega

theorem pciIoSetBarAttributes_inBar_iff {attributes : BitVec 64} :
    (pciIoSetBarAttributes dev attributes barInd (some offset) (some length) = .ok () →
      InBar dev barInd offset.toNat length.toNat 1) ↔
    AttributesBounded dev attributes barInd offset length := by
  unfold AttributesBounded pciIoSetBarAttributes
  dsimp only
  by_cases hunused : (dev.bar barInd.toNat).type = .unused
  · rw [if_pos hunused]
    exact iff_of_true (fun h => by cases h) (Or.inl hunused)
  rw [if_neg hunused, or_iff_right hunused]
  by_cases hattr : attributes &&& ~~~barAttr ≠ 0
  · rw [if_pos hattr]
    exact iff_of_true (fun h => by cases h) (Or.inl hattr)
  rw [if_neg hattr, or_iff_right hattr]
  by_cases hpass : barInd = 0xFF
  · subst hpass
    rw [pciIoCheckBar_pass rfl]
    refine iff_of_false (fun h => ?_) (fun h => h.1 rfl)
    exact absurd (h rfl).1 (by decide)
  rw [and_iff_right hpass]
  have haccepts := @pciIoCheckBar_accepts dev barInd .mem 0 (length.setWidth 32 |>.setWidth 64) offset rfl hpass
  have hsize : (widthSize 0).toNat = 1 := rfl
  have hfifo : isFifo 0 = false := rfl
  rw [hfifo, if_neg Bool.false_ne_true, truncated_toNat, hsize, Nat.mul_one] at haccepts
  have hresult : (match pciIoCheckBar dev barInd .mem 0 (length.setWidth 32 |>.setWidth 64) offset with
      | .error _ => (.error .unsupported : Except CheckError Unit)
      | .ok _ => .ok ()) = .ok () ↔
      (pciIoCheckBar dev barInd .mem 0 (length.setWidth 32 |>.setWidth 64) offset).isOk = true := by
    cases pciIoCheckBar dev barInd .mem 0 (length.setWidth 32 |>.setWidth 64) offset with
    | error e => exact iff_of_false (fun h => by cases h) Bool.false_ne_true
    | ok o => exact iff_of_true rfl rfl
  rw [hresult, haccepts]
  unfold InBar Within
  rw [Nat.mul_one]
  have hlt := dev.length_lt barInd.toNat
  constructor
  · intro h hind htype
    by_cases hrefuses : RefusesEnd (dev.bar barInd.toNat).length (offset.toNat + length.toNat % 2 ^ 32)
    · exact Or.inl hrefuses
    · have hin := (h ⟨hind, htype, hrefuses⟩).2
      refine Or.inr ?_
      split <;> omega
  · rintro h ⟨hind, htype, haccepts⟩
    refine ⟨hind, ?_⟩
    have hbound := (h hind htype).resolve_left haccepts
    split at hbound
    · unfold RefusesEnd at haccepts
      omega
    · exact hbound

end

/-- An access that is accepted lies in the bar, or in the configuration space, and so does a
range whose attributes are accepted. -/
theorem pciIo_checks_iff (dev : Device) :
    (∀ barInd type width count offset, ((pciIoCheckBar dev barInd type width count offset).isOk = true →
        InBar dev barInd offset.toNat count.toNat (widthSize width).toNat) ↔
      BarBounded dev barInd type width count offset) ∧
    (∀ width count offset, ((pciIoCheckConfig dev width count offset).isOk = true →
        Within 0x100 offset.toNat count.toNat (widthSize width).toNat) ↔
      ConfigBounded width count offset) ∧
    (∀ attributes barIndex offset length,
      (pciIoSetBarAttributes dev attributes barIndex (some offset) (some length) = .ok () →
        InBar dev barIndex offset.toNat length.toNat 1) ↔
      AttributesBounded dev attributes barIndex offset length) :=
  ⟨fun _ _ _ _ _ => pciIoCheckBar_inBar_iff, fun _ _ _ => pciIoCheckConfig_within_iff,
    fun _ _ _ _ => pciIoSetBarAttributes_inBar_iff⟩

/-- A device with one bar of 4096 bytes. -/
def oneBar : Device where
  bus := 0
  device := 2
  function := 0
  bar i := if i = 0 then ⟨.mmio32, 0x90000000, 0x1000, 0xFFF⟩ else ⟨.unused, 0, 0, 0⟩
  length_lt i := by split <;> decide

/-- An access of 16 bytes in front of the bar and 16 bytes in it. -/
theorem not_pciIo_checks :
    ¬ ∀ (dev : Device) (barInd : BitVec 8) (type : BarType) (width : Int) (count offset : BitVec 64),
      (pciIoCheckBar dev barInd type width count offset).isOk = true →
        InBar dev barInd offset.toNat count.toNat (widthSize width).toNat := by
  intro h
  have hin := (h oneBar 0 .mem 0 32 0xFFFFFFFFFFFFFFF0 (by decide)).2
  exact absurd hin (by unfold Within; decide)

end BayTrail.Pci
