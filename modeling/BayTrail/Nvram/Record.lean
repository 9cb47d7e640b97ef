import BayTrail.Nvram.Update

/-!
# The NVRAM store: records

What the bytes of the log mean. `Raw` is the image of one `NVAR`; `Rec` is what
the driver ever programs: a header record, a data-only record, or what a failed
`WriteBytes` call leaves behind. `RawAt m p r` says that `r` stands at `p`, and
every access routine of `NvramRead.c` gets one lemma that reads its result off
the record.
-/

namespace BayTrail.Nvram

open BayTrail.Lib

variable {m : Mem}

/-- What an erased field reads as. -/
theorem rd_erased {p : Nat} : ∀ {w : Nat},
    (∀ a, p ≤ a → a < p + w → m a = flashEmptyByte) → rd m w p = 256 ^ w - 1 := by
  intro w
  induction w generalizing p with
  | zero => intro _; rfl
  | succ w ih =>
    intro h
    have h0 := h p le_rfl (by omega)
    have hr := ih (p := p + 1) fun a h1 h2 => h a (by omega) (by omega)
    unfold rd at hr ⊢
    rw [peek, leVal, hr, h0, Nat.pow_succ]
    have : 0 < 256 ^ w := Nat.pow_pos (by decide)
    simp only [flashEmptyByte]
    change 255 + _ = _
    omega

/-! ## Raw records -/

/-- The image of an `NVAR`: `signed` says that the signature is programmed. -/
structure Raw where
  signed : Bool
  next : Nat
  flags : UInt8
  body : Bytes

def Raw.size (r : Raw) : Nat := sizeofNvar + r.body.length

def Raw.signature (r : Raw) : Nat := if r.signed then nvarSignature else flashEmptySignature

def Raw.bytes (r : Raw) : Bytes :=
  leBytes 4 r.signature ++ (leBytes 2 r.size ++ (leBytes 3 r.next ++ (r.flags :: r.body)))

@[simp] theorem Raw.bytes_length (r : Raw) : r.bytes.length = r.size := by
  simp [Raw.bytes, Raw.size, sizeofNvar]
  omega

theorem Raw.size_pos (r : Raw) : 0 < r.size := by
  unfold Raw.size sizeofNvar
  omega

/-- The fields of the `NVAR` at `p` are those of `r`. -/
structure RawAt (m : Mem) (p : Nat) (r : Raw) : Prop where
  sig : sigAt m p = r.signature
  size : sizeAt m p = r.size
  next : nextAt m p = r.next
  flags : flagsAt m p = r.flags
  body : Holds m (p + sizeofNvar) r.body

theorem Raw.at_of_holds {p : Nat} {r : Raw} (h : Holds m p r.bytes)
    (hs : r.size < 65536) (hn : r.next < 16777216) : RawAt m p r := by
  unfold Raw.bytes at h
  rw [holds_append, holds_append, holds_append, holds_cons] at h
  simp only [leBytes_length] at h
  obtain ⟨hsig, hsize, hnext, hflags, hbody⟩ := h
  refine ⟨?_, hsize.rd_eq_of_lt hs, hnext.rd_eq_of_lt hn, hflags, hbody⟩
  refine hsig.rd_eq_of_lt ?_
  unfold Raw.signature nvarSignature flashEmptySignature
  split <;> decide

theorem signature_ne : nvarSignature ≠ flashEmptySignature := by decide

theorem RawAt.signed_iff {p : Nat} {r : Raw} (h : RawAt m p r) :
    sigAt m p = nvarSignature ↔ r.signed = true := by
  rw [h.sig]
  unfold Raw.signature
  cases r.signed
  · simp [signature_ne.symm]
  · simp

theorem RawAt.peek_body {p : Nat} {r : Raw} (h : RawAt m p r) :
    peek m (p + sizeofNvar) (sizeAt m p - sizeofNvar) = r.body := by
  refine h.body.peek_eq ?_
  rw [h.size, Raw.size]
  omega

/-! ## Flags -/

/-- `f` when `b` is set. -/
def bit (b : Bool) (f : UInt8) : UInt8 := if b then f else 0

/-- The flags of a header record, in the order `CreateVariableEx` sets them. -/
def headerFlags (valid rt hw auth cks full ascii : Bool) : UInt8 :=
  bit valid flagValid ||| bit rt flagRuntime ||| bit hw flagHardwareErrorRecord
    ||| bit auth (flagExtHeder ||| flagAuthWrite) ||| bit cks flagExtHeder
    ||| bit full flagGuid ||| bit ascii flagAsciiName

/-- The flags of a data-only record. -/
def dataFlags (auth cks : Bool) : UInt8 :=
  flagValid ||| flagDataOnly ||| bit auth (flagExtHeder ||| flagAuthWrite) ||| bit cks flagExtHeder

/-- The tests that the driver makes on the flags of a header record. -/
theorem dataFlags_test : ∀ auth cks : Bool,
    let f := dataFlags auth cks
    (f &&& flagValid != 0) = true ∧ (f &&& flagDataOnly != 0) = true
      ∧ (f &&& flagExtHeder != 0) = (auth || cks)
      ∧ ¬ f &&& (flagDataOnly ||| flagGuid) = 0
      ∧ f ≠ flashEmptyByte ∧ f &&& ~~~allFlags = 0 := by
  decide

/-- `DeleteVariable` inverts the validity bit. -/
theorem headerFlags_invert : ∀ rt hw auth cks full ascii : Bool,
    headerFlags true rt hw auth cks full ascii ^^^ flagValid
      = headerFlags false rt hw auth cks full ascii := by
  decide

/-! ## Extended headers -/

/-- An extended header: `extflags`, the authentication fields, the checksum byte
and `extsize`. -/
def extBytes (extFlags : UInt8) (fields : Bytes) (checksum : Option UInt8) : Bytes :=
  extFlags :: (fields ++ (checksum.toList ++ leBytes 2 (fields.length + checksum.toList.length + 3)))

@[simp] theorem extBytes_length (extFlags : UInt8) (fields : Bytes) (checksum : Option UInt8) :
    (extBytes extFlags fields checksum).length = fields.length + checksum.toList.length + 3 := by
  simp [extBytes]
  omega

/-- The authentication fields of an extended header: the attribute bits kept in
`extflags` and the bytes that follow it. -/
structure AuthFields where
  attr : UInt8
  fields : Bytes

/-- The byte that makes the bytes `others` of a record of that size and those
flags sum to zero. -/
def checksumByte (size : Nat) (flags : UInt8) (others : Bytes) : UInt8 :=
  0 - (others.sum + (leBytes 2 size).sum + flags)

/-- What follows the contents `pre` of a record: nothing, or an extended header. -/
def extTail (auth : Option AuthFields) (cks : Bool) (flags : UInt8) (pre : Bytes) : Bytes :=
  if auth.isNone && !cks then []
  else
    let attr := (auth.map AuthFields.attr).getD 0
    let fields := (auth.map AuthFields.fields).getD []
    if cks then
      let extSize := fields.length + 4
      let rest := (attr ||| extFlagChecksum) :: (fields ++ leBytes 2 extSize)
      extBytes (attr ||| extFlagChecksum) fields
        (some (checksumByte (sizeofNvar + (pre.length + extSize)) flags (pre ++ rest)))
    else extBytes attr fields none

/-- `ExtSize`. -/
def extTailSize (auth : Option AuthFields) (cks : Bool) : Nat :=
  if auth.isNone && !cks then 0
  else ((auth.map AuthFields.fields).getD []).length + (if cks then 4 else 3)

@[simp] theorem extTail_length (auth : Option AuthFields) (cks : Bool) (flags : UInt8)
    (pre : Bytes) : (extTail auth cks flags pre).length = extTailSize auth cks := by
  unfold extTail extTailSize
  cases auth <;> cases cks <;> simp

theorem extTail_eq (auth : Option AuthFields) (cks : Bool) (flags : UInt8) (pre : Bytes)
    (h : (auth.isSome || cks) = true) : ∃ c : Option UInt8, c.isSome = cks ∧
      extTail auth cks flags pre = extBytes ((auth.map AuthFields.attr).getD 0 ||| bit cks extFlagChecksum)
        ((auth.map AuthFields.fields).getD []) c := by
  unfold extTail bit
  cases cks
  · cases auth with
    | none => simp at h
    | some a => exact ⟨none, rfl, by simp⟩
  · exact ⟨some _, rfl, by simp; rfl⟩

/-- Where an extended header is found in a record that ends with one. -/
theorem RawAt.ext {p : Nat} {r : Raw} (h : RawAt m p r) {pre fields : Bytes}
    {ef : UInt8} {c : Option UInt8} (hb : r.body = pre ++ extBytes ef fields c)
    (hs : r.size < 65536) :
    nvGetExtFlags m p = p + sizeofNvar + pre.length
      ∧ rd m 2 (nvGetExtSize m p) = (extBytes ef fields c).length
      ∧ m (p + sizeofNvar + pre.length) = ef
      ∧ Holds m (p + sizeofNvar + pre.length + 1) fields := by
  have hbody := h.body
  rw [hb, holds_append] at hbody
  obtain ⟨-, hext⟩ := hbody
  have hlen : r.size = sizeofNvar + (pre.length + (fields.length + c.toList.length + 3)) := by
    rw [Raw.size, hb]; simp
  unfold extBytes at hext
  rw [holds_cons, holds_append, holds_append] at hext
  obtain ⟨hef, hfields, -, hsz⟩ := hext
  have haddr : nvGetExtSize m p
      = p + sizeofNvar + pre.length + 1 + fields.length + c.toList.length := by
    unfold nvGetExtSize
    rw [h.size, hlen]
    unfold sizeofNvar
    omega
  have hrd : rd m 2 (nvGetExtSize m p) = (extBytes ef fields c).length := by
    rw [haddr, hsz.rd_eq_of_lt (by norm_num; omega), extBytes_length]
  refine ⟨?_, hrd, hef, hfields⟩
  unfold nvGetExtFlags
  rw [hrd, haddr, extBytes_length]
  unfold sizeofNvar
  omega

/-- `NvCalculateNvarChecksum` accepts what was sealed with `checksumByte`. -/
theorem sum_sealed (pre rest1 rest2 : Bytes) (size : Nat) (flags : UInt8) :
    0 - ((pre ++ (rest1 ++
        ([checksumByte size flags (pre ++ (rest1 ++ rest2))] ++ rest2))).sum
      + (leBytes 2 size).sum + flags) = 0 := by
  simp only [List.sum_append, List.sum_cons, List.sum_nil, checksumByte]
  grind

/-- `NvIsVariable` finds no fault with the checksum of a sealed record. -/
theorem RawAt.checksum_ok {p : Nat} {r : Raw} (h : RawAt m p r)
    (auth : Option AuthFields) (cks : Bool) (flags : UInt8) (pre : Bytes)
    (hb : r.body = pre ++ extTail auth cks flags pre) (hs : r.size < 65536)
    (hattr : ∀ a ∈ auth, a.attr &&& extFlagChecksum = 0)
    (hext : (r.flags &&& flagExtHeder != 0) = (auth.isSome || cks))
    (hval : (r.flags &&& flagValid != 0) = true → r.flags = flags) :
    (!hasFlag m p flagExtHeder
      || m (nvGetExtFlags m p) &&& extFlagChecksum == 0
      || !hasFlag m p flagValid
      || nvCalculateNvarChecksum m p == 0) = true := by
  unfold hasFlag
  rw [h.flags, hext]
  by_cases he : (auth.isSome || cks) = true
  · obtain ⟨c, hc, htail⟩ := extTail_eq auth cks flags pre he
    obtain ⟨-, -, hef, -⟩ := h.ext (htail ▸ hb) hs
    obtain ⟨hflag, -, -, -⟩ := h.ext (htail ▸ hb) hs
    cases hck : cks with
    | false =>
      have hz : m (nvGetExtFlags m p) &&& extFlagChecksum = 0 := by
        rw [hflag, hef, hck]
        cases ha : auth with
        | none => simp [ha, hck] at he
        | some a => simpa [bit] using hattr a ha
      simp [hz]
    | true =>
      by_cases hv : (r.flags &&& flagValid != 0) = true
      · have hz : nvCalculateNvarChecksum m p = 0 := by
          unfold nvCalculateNvarChecksum
          split
          · rfl
          · rw [h.peek_body, hb, h.flags, hval hv]
            have hsz : peek m (p + sizeOffset) 2 = leBytes 2 r.size := by
              rw [← h.size, sizeAt, leBytes_rd]
            have hrs : r.size = sizeofNvar + (pre.length
                + (((auth.map AuthFields.fields).getD []).length + 4)) := by
              rw [Raw.size, hb, List.length_append, extTail_length]
              simp [extTailSize, hck]
            rw [hsz, hrs]
            unfold extTail
            simp only [hck, Bool.not_true, Bool.and_false, Bool.false_eq_true, if_false, if_true]
            exact sum_sealed _ (_ :: _) _ _ _
        simp [hz]
      · simp [hv]
  · simp [he]

/-- The size of the extended header, as `NvGetData` finds it. -/
theorem RawAt.extSize {p : Nat} {r : Raw} (h : RawAt m p r)
    (auth : Option AuthFields) (cks : Bool) (flags : UInt8) (pre : Bytes)
    (hb : r.body = pre ++ extTail auth cks flags pre) (hs : r.size < 65536)
    (hext : (r.flags &&& flagExtHeder != 0) = (auth.isSome || cks)) :
    (if hasFlag m p flagExtHeder then rd m 2 (nvGetExtSize m p) else 0) = extTailSize auth cks := by
  unfold hasFlag
  rw [h.flags, hext]
  by_cases he : (auth.isSome || cks) = true
  · obtain ⟨c, -, htail⟩ := extTail_eq auth cks flags pre he
    obtain ⟨-, hrd, -, -⟩ := h.ext (htail ▸ hb) hs
    rw [if_pos he, hrd, ← htail, extTail_length]
  · rw [if_neg he]
    cases auth <;> cases cks <;> simp_all [extTailSize]

/-- Of a whole `a = b + c + d`, what is left without `b` and `d`. -/
theorem uintnSub_twice {a b c d : Nat} (h : a = b + (c + d)) (ha : a < 2 ^ 64) :
    uintnSub (uintnSub a b) d = c := by
  unfold uintnSub
  omega

/-! ## Names -/

def nameBytes (ascii : Bool) (name : Name) : Bytes :=
  if ascii then name.chars.map (·.toUInt8) ++ [0]
  else name.chars.flatMap (fun c => leBytes 2 c.toNat) ++ [0, 0]

/-- `NameSize`, as `NvVarEq` reports it. -/
def nameSize (ascii : Bool) (name : Name) : Nat :=
  if ascii then name.chars.length + 1 else 2 * (name.chars.length + 1)

@[simp] theorem nameBytes_length (ascii : Bool) (name : Name) :
    (nameBytes ascii name).length = nameSize ascii name := by
  unfold nameBytes nameSize
  cases ascii
  · simp
    omega
  · simp

/-- What is read at `p`, and further on every `w` bytes, are these characters and a zero. -/
def Spells (read : Nat → Nat) (w : Nat) : Nat → List UInt16 → Prop
  | p, [] => read p = 0
  | p, d :: ds => read p = d.toNat ∧ Spells read w (p + w) ds

/-- Both comparisons of `NvVarEq`, by what they read. -/
theorem nameEq_eq {read : Nat → Nat} {w : Nat} {nameEq : Nat → List UInt16 → Option Nat}
    (hnil : ∀ p, nameEq p [] = if read p = 0 then some (p + w) else none)
    (hcons : ∀ p c cs, nameEq p (c :: cs) = if read p = c.toNat then nameEq (p + w) cs else none) :
    ∀ {cs ds : List UInt16} {p : Nat}, Spells read w p ds → 0 ∉ ds → 0 ∉ cs →
      nameEq p cs = if cs = ds then some (p + w * (ds.length + 1)) else none
  | [], [], p, h, _, _ => by
    have h0 : read p = 0 := h
    rw [hnil, if_pos h0, if_pos rfl, List.length_nil, Nat.zero_add, Nat.mul_one]
  | [], d :: ds, p, h, hnz, _ => by
    rw [hnil, h.1, if_neg (toNat_ne_zero hnz), if_neg (List.cons_ne_nil d ds).symm]
  | c :: cs, [], p, h, _, hcz => by
    have h0 : read p = 0 := h
    rw [hcons, h0, if_neg (toNat_ne_zero hcz).symm, if_neg (List.cons_ne_nil c cs)]
  | c :: cs, d :: ds, p, h, hnz, hcz => by
    have ih := nameEq_eq hnil hcons h.2 (fun hx => hnz (List.mem_cons_of_mem _ hx))
      (fun hx => hcz (List.mem_cons_of_mem _ hx))
    have heq : read p = c.toNat ↔ c = d := by
      rw [h.1, eq_comm (a := c), UInt16.toNat_inj]
    rw [hcons]
    by_cases hcd : c = d
    · rw [if_pos (heq.mpr hcd), ih, hcd, List.length_cons, Nat.mul_succ w (ds.length + 1)]
      by_cases hcs : cs = ds
      · simp [hcs]; omega
      · simp [hcs]
    · rw [if_neg (fun he => hcd (heq.mp he)), if_neg (by simp [hcd])]

theorem asciiNameEq_eq {cs ds : List UInt16} {p : Nat} (h : Holds m p (ds.map (·.toUInt8) ++ [0]))
    (hlt : ∀ d ∈ ds, d.toNat < 256) (hnz : 0 ∉ ds) (hcz : 0 ∉ cs) :
    asciiNameEq m p cs = if cs = ds then some (p + (ds.length + 1)) else none := by
  have hspells : Spells (fun p => (m p).toNat) 1 p ds := by
    clear hnz
    induction ds generalizing p with
    | nil => exact congrArg UInt8.toNat h.1
    | cons d ds ih =>
      refine ⟨?_, ih h.2 fun x hx => hlt x (List.mem_cons_of_mem _ hx)⟩
      show (m p).toNat = d.toNat
      rw [show m p = d.toUInt8 from h.1, UInt16.toNat_toUInt8, Nat.mod_eq_of_lt (hlt d List.mem_cons_self)]
  rw [← Nat.one_mul (ds.length + 1)]
  refine nameEq_eq (fun p => ?_) (fun _ _ _ => rfl) hspells hnz hcz
  simp [asciiNameEq, ← UInt8.toNat_inj]

theorem unicodeNameEq_eq {cs ds : List UInt16} {p : Nat}
    (h : Holds m p (ds.flatMap (fun c => leBytes 2 c.toNat) ++ [0, 0])) (hnz : 0 ∉ ds) (hcz : 0 ∉ cs) :
    unicodeNameEq m p cs = if cs = ds then some (p + 2 * (ds.length + 1)) else none := by
  have hspells : Spells (rd m 2) 2 p ds := by
    clear hnz
    induction ds generalizing p with
    | nil => exact (show Holds m p (leBytes 2 0) from h).rd_eq
    | cons d ds ih =>
      rw [List.flatMap_cons, List.append_assoc, holds_append, leBytes_length] at h
      exact ⟨h.1.rd_eq_of_lt d.toNat_lt, ih h.2⟩
  exact nameEq_eq (fun _ => rfl) (fun _ _ _ => rfl) hspells hnz hcz

/-! ## Records -/

/-- How a header record names its GUID: an index into the GUID table, or the GUID
itself (`NVRAM_FLAG_GUID`). -/
inductive GuidRef where
  | index (i : UInt8)
  | full (g : Guid)

def GuidRef.isFull : GuidRef → Bool
  | index _ => false
  | full _ => true

def GuidRef.bytes : GuidRef → Bytes
  | index i => [i]
  | full g => g.bytes

/-- The GUID meant, in the store `s`. -/
def GuidRef.resolve (s : StoreInfo) : GuidRef → Bytes
  | index i => peek s.mem (s.guidSlot i.toNat) sizeofGuid
  | full g => g.bytes

theorem GuidRef.bytes_length (g : GuidRef) :
    g.bytes.length = if g.isFull then sizeofGuid else 1 := by
  cases g with
  | index i => rfl
  | full g => exact g.len

/-- The authentication part of a header record. `attr` holds the authentication
attributes, of which there is at least one. -/
structure HdrAuth where
  attr : UInt32
  attr_ok : attr = 0x10 ∨ attr = 0x20 ∨ attr = 0x30
  mc : UInt64
  keyHash : Bytes
  len : keyHash.length = hashSha256Len

def HdrAuth.authFields (a : HdrAuth) : AuthFields :=
  ⟨a.attr.toUInt8, leBytes 8 a.mc.toNat ++ a.keyHash⟩

/-- A header record: the one that carries a variable's name. `cks` says that it
has a checksum. -/
structure Header where
  valid : Bool
  rt : Bool
  hw : Bool
  cks : Bool
  auth : Option HdrAuth
  ref : GuidRef
  ascii : Bool
  name : Name
  ascii_ok : ascii = true → isAsciiName name = true
  data : Bytes

namespace Header

variable (h : Header)

def flagsWith (valid : Bool) : UInt8 :=
  headerFlags valid h.rt h.hw h.auth.isSome h.cks h.ref.isFull h.ascii

def flags : UInt8 := h.flagsWith h.valid

theorem flags_test :
    let f := h.flags
    (f &&& flagValid != 0) = h.valid ∧ (f &&& flagRuntime != 0) = h.rt
      ∧ (f &&& flagHardwareErrorRecord != 0) = h.hw ∧ (f &&& flagAuthWrite != 0) = h.auth.isSome
      ∧ (f &&& flagExtHeder != 0) = (h.auth.isSome || h.cks) ∧ (f &&& flagGuid != 0) = h.ref.isFull
      ∧ (f &&& flagAsciiName != 0) = h.ascii ∧ (f &&& flagDataOnly != 0) = false
      ∧ (f &&& (flagAuthWrite ||| flagExtHeder) != 0) = (h.auth.isSome || h.cks)
      ∧ (f &&& (flagDataOnly ||| flagGuid) = 0 ↔ h.ref.isFull = false)
      ∧ f ≠ flashEmptyByte ∧ f &&& ~~~allFlags = 0
      ∧ ((f ^^^ ~~~flashEmptyByte) &&& flagValid != 0) = h.valid := by
  unfold flags flagsWith
  generalize h.valid = valid, h.rt = rt, h.hw = hw, h.auth.isSome = auth, h.cks = cks, h.ref.isFull = full,
    h.ascii = ascii
  revert valid rt hw auth cks full ascii
  decide

/-- GUID and name. -/
def key : Bytes := h.ref.bytes ++ nameBytes h.ascii h.name

def contents : Bytes := h.key ++ h.data

/-- The checksum is computed before the record can be deleted. -/
def raw (next : Nat) : Raw :=
  { signed := true, next := next, flags := h.flags
    body := h.contents
      ++ extTail (h.auth.map HdrAuth.authFields) h.cks (h.flagsWith true) h.contents }

/-- `NvGetAttributesFromNvar` on the record, in a store that is non-volatile or
not. -/
def attributes (nonVolatile : Bool) : UInt32 :=
  efiBootserviceAccess
    ||| (if h.rt then efiRuntimeAccess else 0)
    ||| (if nonVolatile then efiNonVolatile else 0)
    ||| (if h.hw then efiHardwareErrorRecord else 0)
    ||| (h.auth.map HdrAuth.attr).getD 0

def size (next : Nat) : Nat := (h.raw next).size

theorem key_length :
    h.key.length = (if h.ref.isFull then sizeofGuid else 1) + nameSize h.ascii h.name := by
  simp [key, h.ref.bytes_length]

end Header

/-- A data-only record: the data of a variable after an update, with its new
count or time stamp when the variable is authenticated. -/
structure DataRec where
  auth : Option UInt64
  cks : Bool
  data : Bytes

def DataRec.authFields (d : DataRec) : Option AuthFields :=
  d.auth.map fun mc => ⟨0, leBytes 8 mc.toNat⟩

def DataRec.raw (d : DataRec) (next : Nat) : Raw :=
  let flags := dataFlags d.auth.isSome d.cks
  { signed := true, next := next, flags := flags
    body := d.data ++ extTail d.authFields d.cks flags d.data }

/-- A record of the log, with its `next` field; `broken` is a record that was
left before its signature was programmed. -/
inductive Rec where
  | header (h : Header) (next : Nat)
  | data (d : DataRec) (next : Nat)
  | broken (flags : UInt8) (body : Bytes)

namespace Rec

def raw : Rec → Raw
  | header h next => h.raw next
  | data d next => d.raw next
  | broken flags body => { signed := false, next := flashEmptyNext, flags := flags, body := body }

def bytes (r : Rec) : Bytes := r.raw.bytes

def size (r : Rec) : Nat := r.raw.size

def signed : Rec → Bool
  | broken _ _ => false
  | _ => true

def next (r : Rec) : Nat := r.raw.next

/-- The header of a record that `NvIsValid` accepts. -/
def live : Rec → Option Header
  | header h _ => if h.valid then some h else none
  | _ => none

@[simp] theorem bytes_length (r : Rec) : r.bytes.length = r.size := Raw.bytes_length _

theorem bytes_pos (r : Rec) : 0 < r.bytes.length := by
  rw [bytes_length]
  exact Raw.size_pos _

end Rec

/-- The record `r` stands at `p`. -/
abbrev RecAt (m : Mem) (p : Nat) (r : Rec) : Prop := RawAt m p r.raw

theorem recAt_size {p : Nat} {r : Rec} (h : RecAt m p r) : sizeAt m p = r.size := h.size

theorem recAt_next {p : Nat} {r : Rec} (h : RecAt m p r) : nextAt m p = r.next := h.next

/-- A record size the walk over the log can step by, and a `next` field that stays
within the log ending at `e`. -/
structure Rec.Fits (e p : Nat) (r : Rec) : Prop where
  size_gt : sizeofNvar < r.size
  size_lt : r.size < flashEmptySize
  inside : p + r.size ≤ e
  next : r.next = flashEmptyNext
    ∨ r.size ≤ r.next ∧ p + r.next ≤ e ∧ r.next < flashEmptyNext

theorem Rec.at_of_holds {e p : Nat} {r : Rec} (h : Holds m p r.bytes)
    (hf : r.Fits e p) : RecAt m p r := by
  have h1 := hf.size_lt
  have h2 := hf.next
  refine Raw.at_of_holds h (lt_trans h1 (by decide)) ?_
  change r.next < 16777216
  unfold flashEmptyNext at h2
  omega

section

variable {s : StoreInfo} {p : Nat} {r : Rec}

theorem sizeOk_of (h : RecAt s.mem p r) (hf : r.Fits s.pEndOfVars p) : sizeOk s p = true := by
  have h1 := hf.size_gt
  have h2 := hf.size_lt
  have h3 := hf.inside
  unfold sizeOk
  rw [h.size]
  change (r.size != flashEmptySize && sizeofNvar < r.size && p + r.size ≤ s.pEndOfVars) = true
  simp [h1, h3, ne_of_lt h2]

/-- `NvIsVariable` accepts exactly the records whose signature is programmed. -/
theorem nvIsVariable_eq (h : RecAt s.mem p r) (hf : r.Fits s.pEndOfVars p) :
    nvIsVariable s p = r.signed := by
  have hlt : r.raw.size < 65536 := lt_trans hf.size_lt (by decide)
  have hnext : (nextAt s.mem p == flashEmptyNext
      || sizeAt s.mem p ≤ nextAt s.mem p && p + nextAt s.mem p ≤ s.pEndOfVars) = true := by
    rw [h.next, h.size]
    change (r.next == flashEmptyNext || r.size ≤ r.next && p + r.next ≤ s.pEndOfVars) = true
    rcases hf.next with hn | ⟨h1, h2, -⟩
    · simp [hn]
    · simp [h1, h2]
  cases r with
  | broken flags body =>
    have : ¬ sigAt s.mem p = nvarSignature := by
      rw [h.signed_iff]; simp [Rec.raw]
    simp [nvIsVariable, this, Rec.signed]
  | header hd next =>
    obtain ⟨hv, -, -, -, hx, -, -, -, -, -, hne, hall, -⟩ := hd.flags_test
    have hsig : sigAt s.mem p = nvarSignature := h.signed_iff.mpr rfl
    have hflags : flagsAt s.mem p = hd.flags := h.flags
    have hck := h.checksum_ok (hd.auth.map HdrAuth.authFields) hd.cks (hd.flagsWith true)
      hd.contents rfl hlt
      (by
        intro a ha
        obtain ⟨au, hau, rfl⟩ := Option.map_eq_some_iff.mp (Option.mem_def.mp ha)
        rcases au.attr_ok with he | he | he <;> simp only [HdrAuth.authFields, he] <;> decide)
      (by rw [Option.isSome_map]; exact hx)
      (by
        intro hval
        have : hd.valid = true := hv.symm.trans hval
        change hd.flagsWith hd.valid = hd.flagsWith true
        rw [this])
    have hne' : hd.flags ≠ flashEmptyByte := hne
    have hall' : hd.flags &&& ~~~allFlags = 0 := hall
    simp only [nvIsVariable, hsig, hflags, sizeOk_of h hf, hnext, hck, hall', Rec.signed]
    simp [hne']
  | data d next =>
    obtain ⟨-, -, hx, -, hne, hall⟩ := dataFlags_test d.auth.isSome d.cks
    have hsig : sigAt s.mem p = nvarSignature := h.signed_iff.mpr rfl
    have hflags : flagsAt s.mem p = dataFlags d.auth.isSome d.cks := h.flags
    have hck := h.checksum_ok d.authFields d.cks (dataFlags d.auth.isSome d.cks) d.data rfl hlt
      (by
        intro a ha
        obtain ⟨mc, -, rfl⟩ := Option.map_eq_some_iff.mp (Option.mem_def.mp ha)
        simp)
      (by rw [DataRec.authFields, Option.isSome_map]; exact hx)
      (fun _ => rfl)
    simp only [nvIsVariable, hsig, hflags, sizeOk_of h hf, hnext, hck, hall, Rec.signed]
    simp [hne]

/-- Among the signed records `NvIsValid` accepts the undeleted headers. -/
theorem nvIsValid_eq {m : Mem} (h : RecAt m p r) (hs : r.signed = true) :
    nvIsValid m p = r.live.isSome := by
  cases r with
  | broken flags body => simp [Rec.signed] at hs
  | header hd next =>
    obtain ⟨-, -, -, -, -, -, -, hd', -, -, -, -, hv⟩ := hd.flags_test
    have hflags : flagsAt m p = hd.flags := h.flags
    simp only [nvIsValid, hasFlag, hflags, hv, hd', Rec.live]
    cases hd.valid <;> rfl
  | data d next =>
    obtain ⟨-, hd', -⟩ := dataFlags_test d.auth.isSome d.cks
    have hflags : flagsAt m p = dataFlags d.auth.isSome d.cks := h.flags
    simp only [nvIsValid, hasFlag, hflags, hd', Rec.live]
    simp

/-! ### Header records -/

section HeaderAt

variable {hd : Header} {next : Nat}

theorem flagsAt_header {m : Mem} (h : RecAt m p (.header hd next)) :
    flagsAt m p = hd.flags :=
  h.flags

theorem holds_contents {m : Mem} (h : RecAt m p (.header hd next)) :
    Holds m (p + sizeofNvar) hd.contents := (holds_append.mp h.body).1

theorem nvGetName_eq {m : Mem} (h : RecAt m p (.header hd next)) :
    nvGetName m p = p + sizeofNvar + hd.ref.bytes.length := by
  obtain ⟨-, -, -, -, -, hg, -⟩ := hd.flags_test
  simp only [nvGetName, hasFlag, flagsAt_header h, hg, hd.ref.bytes_length]

theorem holds_name {m : Mem} (h : RecAt m p (.header hd next)) : Holds m (nvGetName m p) (nameBytes hd.ascii hd.name) := by
  have hc := holds_contents h
  unfold Header.contents Header.key at hc
  rw [List.append_assoc, holds_append, holds_append, ← nvGetName_eq h] at hc
  exact hc.2.1

theorem nvGetGuid_eq (h : RecAt s.mem p (.header hd next)) :
    nvGetGuid s p = hd.ref.resolve s := by
  obtain ⟨-, -, -, -, -, hg, -⟩ := hd.flags_test
  have hc := holds_contents h
  simp only [nvGetGuid, hasFlag, flagsAt_header h, hg]
  unfold Header.contents Header.key at hc
  rw [List.append_assoc, holds_append] at hc
  cases href : hd.ref with
  | index i =>
    rw [href] at hc
    have hi : s.mem (p + sizeofNvar) = i := hc.1.1
    simp [GuidRef.isFull, GuidRef.resolve, hi]
  | full g =>
    rw [href] at hc
    simp only [GuidRef.isFull, GuidRef.resolve, if_true]
    exact hc.1.peek_eq g.len.symm

theorem nvVarEq_eq (h : RecAt s.mem p (.header hd next)) (name : Name) (guid : Guid) :
    nvVarEq s p name guid = if name = hd.name ∧ hd.ref.resolve s = guid.bytes
      then some (nameSize hd.ascii hd.name) else none := by
  obtain ⟨-, -, -, -, -, -, ha, -⟩ := hd.flags_test
  have hname := holds_name h
  have hchars : name.chars = hd.name.chars ↔ name = hd.name := by
    constructor
    · intro he
      cases name
      cases hn : hd.name
      simp only [hn] at he
      simp [he]
    · rintro rfl; rfl
  have hend : (if hasFlag s.mem p flagAsciiName then asciiNameEq s.mem (nvGetName s.mem p) name.chars
      else unicodeNameEq s.mem (nvGetName s.mem p) name.chars)
      = if name = hd.name then some (nvGetName s.mem p + nameSize hd.ascii hd.name) else none := by
    unfold nameBytes at hname
    unfold hasFlag nameSize
    rw [flagsAt_header h, ha]
    cases hasc : hd.ascii with
    | true =>
      rw [hasc] at hname
      have hlt : ∀ d ∈ hd.name.chars, d.toNat < 256 := by
        have := hd.ascii_ok hasc
        unfold isAsciiName at this
        simpa using this
      simp only [if_true] at hname ⊢
      rw [asciiNameEq_eq hname hlt hd.name.nonzero name.nonzero]
      simp only [hchars]
    | false =>
      rw [hasc] at hname
      simp only [Bool.false_eq_true, if_false] at hname ⊢
      rw [unicodeNameEq_eq hname hd.name.nonzero name.nonzero]
      simp only [hchars]
  unfold nvVarEq
  simp only [hend, nvGetGuid_eq h]
  by_cases hn : name = hd.name
  · simp [hn]
  · simp [hn]

theorem nvGetAttributesFromNvar_eq (h : RecAt s.mem p (.header hd next)) (hs : hd.size next < 65536) :
    nvGetAttributesFromNvar s p = hd.attributes s.flags.nonVolatile := by
  obtain ⟨-, hr, hh, ha, -⟩ := hd.flags_test
  unfold nvGetAttributesFromNvar Header.attributes hasFlag
  rw [flagsAt_header h, hr, hh, ha]
  cases hau : hd.auth with
  | none => simp
  | some a =>
    obtain ⟨c, -, htail⟩ := extTail_eq (hd.auth.map HdrAuth.authFields) hd.cks
      (hd.flagsWith true) hd.contents (by simp [hau])
    have hb : (hd.raw next).body = hd.contents ++ _ := rfl
    rw [htail] at hb
    obtain ⟨hx, -, hef, -⟩ := h.ext hb hs
    rw [hx, hef, hau]
    simp only [Option.isSome_some, if_true, Option.map_some, Option.getD_some, HdrAuth.authFields]
    congr 1
    cases hd.cks <;> rcases a.attr_ok with he | he | he <;> rw [he] <;> decide

end HeaderAt

/-! ### The data of a record -/

/-- The data that a record carries. -/
def Rec.payload : Rec → Bytes
  | header h _ => h.data
  | data d _ => d.data
  | broken _ _ => []

/-- The offset of the data in a signed record. -/
def Rec.dataOffset : Rec → Nat
  | header h _ => sizeofNvar + h.key.length
  | _ => sizeofNvar

/-- `NvGetData` finds the data of the last record of the chain, given the size of
the name when that record is the header. -/
theorem nvGetData_eq {q n : Nat} (hq : nvGetDataNvar s p = some q)
    (h : RecAt s.mem q r) (hs : r.size < 65536) (hsig : r.signed = true)
    (hn : ∀ hd next, r = .header hd next → n = nameSize hd.ascii hd.name) :
    nvGetData s p n = some (q + r.dataOffset, r.payload.length)
      ∧ Holds s.mem (q + r.dataOffset) r.payload := by
  cases r with
  | broken flags body => simp [Rec.signed] at hsig
  | header hd next =>
    obtain ⟨-, -, -, -, hx, hg, -, hdo, -⟩ := hd.flags_test
    have hxs := h.extSize (hd.auth.map HdrAuth.authFields) hd.cks (hd.flagsWith true)
      hd.contents rfl hs
      (by rw [Option.isSome_map]; exact hx)
    have hoff : n + (if hasFlag s.mem q flagGuid then sizeofGuid else 1)
        = hd.key.length := by
      rw [hn hd next rfl, hd.key_length, hasFlag, flagsAt_header h, hg]
      omega
    have hdat : hasFlag s.mem q flagDataOnly = false := by
      rw [hasFlag, flagsAt_header h, hdo]
    have hsz : sizeAt s.mem q = sizeofNvar + (hd.contents.length
        + extTailSize (hd.auth.map HdrAuth.authFields) hd.cks) := by
      rw [h.size, Rec.raw, Header.raw, Raw.size, List.length_append, extTail_length]
    have hlt : sizeAt s.mem q < 65536 := h.size ▸ hs
    have hc := holds_contents h
    unfold Header.contents at hc hsz
    rw [holds_append] at hc
    rw [List.length_append] at hsz
    refine ⟨?_, by simpa [Rec.dataOffset, Rec.payload, Nat.add_assoc] using hc.2⟩
    unfold nvGetData
    rw [hq, Option.map_some]
    simp only [hxs, hdat, hoff, Bool.false_eq_true, if_false]
    rw [uintnSub_twice (c := hd.data.length) (by omega) (by omega)]
    rfl
  | data d next =>
    obtain ⟨-, hdo, hx, -⟩ := dataFlags_test d.auth.isSome d.cks
    have hflags : flagsAt s.mem q = dataFlags d.auth.isSome d.cks := h.flags
    have hxs := h.extSize d.authFields d.cks (dataFlags d.auth.isSome d.cks) d.data rfl hs
      (by rw [DataRec.authFields, Option.isSome_map]; exact hx)
    have hdat : hasFlag s.mem q flagDataOnly = true := by
      rw [hasFlag, hflags, hdo]
    have hsz : sizeAt s.mem q = sizeofNvar + (d.data.length + extTailSize d.authFields d.cks) := by
      rw [h.size, Rec.raw, DataRec.raw, Raw.size, List.length_append, extTail_length]
    have hlt : sizeAt s.mem q < 65536 := h.size ▸ hs
    have hc : Holds s.mem (q + sizeofNvar) d.data := (holds_append.mp h.body).1
    refine ⟨?_, hc⟩
    unfold nvGetData
    rw [hq, Option.map_some]
    simp only [hxs, hdat, if_true, Nat.add_zero]
    rw [uintnSub_twice (c := d.data.length) hsz (by omega)]
    rfl

end

end BayTrail.Nvram
