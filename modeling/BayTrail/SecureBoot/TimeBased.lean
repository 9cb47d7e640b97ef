import BayTrail.SecureBoot.Validate
import BayTrail.Nvram.Defs

/-!
# VerifyVariable2

The descriptor in front of a variable that is written with a time stamp: the sizes that are
computed from it, the ranges of the caller's buffer that they stand for, and the block that
is hashed. Ranges are relative to the start of the buffer.
-/

namespace BayTrail.SecureBoot.TimeBased

open BayTrail.Lib
open BayTrail.Nvram (Guid Name Status efiNonVolatile efiTimeBasedAuthenticatedWriteAccess efiAppendWrite)
open BayTrail.SecureBoot.Validate (validateSignatureList)

/-! ## Structures -/

/-- What the module is built for. -/
inductive Arch where
  | ia32 | x64
  deriving DecidableEq

def Arch.bits : Arch → Nat
  | .ia32 => 32
  | .x64 => 64

/-- A sum in a `UINTN`. -/
def Arch.add (a : Arch) (x y : Nat) : Nat := (x + y) % 2 ^ a.bits

/-- A difference in a `UINTN`. -/
def Arch.sub (a : Arch) (x y : Nat) : Nat := (x + 2 ^ a.bits - y) % 2 ^ a.bits

/-- A part of the caller's buffer. -/
structure Range where
  offset : Nat
  size : Nat
  deriving DecidableEq

/-- One of the addresses that are hashed: a value of the driver, or a place in the buffer. -/
inductive Addr where
  | own (bs : Bytes)
  | caller (offset : Nat)
  deriving DecidableEq

/-- `EXT_SEC_FLAGS`. -/
structure ExtSecFlags where
  mc : Nat
  keyHash : Bytes

/-- The arguments: `DataSize` is a `UINTN`. -/
structure Call where
  arch : Arch
  variableName : Name
  vendorGuid : Guid
  attributes : UInt32
  data : Nat
  dataSize : Nat
  fits : dataSize < 2 ^ arch.bits
  /-- `OldData` is not `NULL` -/
  oldData : Bool
  extFlags : ExtSecFlags

/-- `mPlatformMode` and `mCustomMode`. -/
structure Globals where
  setupMode : Bool
  customMode : Bool

/-- The digital signature protocol, and what is built on it: a certificate is a range of the
buffer. -/
structure Services where
  /-- `Pkcs7Verify` with `Pkcs7GetDigestAlgorithm` -/
  getDigestAlgorithm : Mem → Range → Except Status UInt8
  hash : Mem → HashAlg → List (Addr × Nat) → Except Status Bytes
  /-- the hash of the signer's key -/
  validateSelfSigned : Mem → Range → Bytes → Except Status Bytes
  processVarWithKek2 : Mem → Range → Bytes → Status
  processVarWithPk2 : Mem → Range → Bytes → Status

/-- What has been computed from the descriptor. -/
structure Computed where
  certHdrSizes : List Nat := []
  certs : List Range := []
  payloads : List Range := []
  /-- `Addr` with `Len` -/
  blocks : List (List (Addr × Nat)) := []

structure Result where
  status : Status
  /-- `*Data` and `*DataSize` -/
  data : Range
  extFlags : ExtSecFlags
  /-- the mode of a call of `UpdatePlatformMode` -/
  updateSetupMode : Option Bool := none
  computed : Computed

/-! ## The descriptor -/

/-- `EFI_VARIABLE_AUTHENTICATION_2.AuthInfo.CertData`. -/
def certDataOffset : Nat := 40

def winCertTypeEfiGuid : Nat := 0x0ef1

section

variable (m : Mem) (data : Nat)

def timeStamp : Bytes := peek m data sizeofEfiTime
def dwLength : Nat := rd m 4 (data + 16)
def wCertificateType : Nat := rd m 2 (data + 22)
def certType : Bytes := peek m (data + 24) sizeofGuid

/-- `Pad1`, `Nanosecond`, `TimeZone`, `Daylight` and `Pad2`: the rest of `EFI_TIME`. -/
def timeReserved : Bytes := peek m (data + 7) 9

end

/-- `AUTHINFO_2_SIZE`. -/
def authInfo2Size (c : Call) (m : Mem) : Nat := c.arch.add (dwLength m c.data) sizeofEfiTime

/-- `Pkcs7Cert` and `Pkcs7Cert_len`. -/
def pkcs7Cert (c : Call) (m : Mem) : Range :=
  ⟨certDataOffset, c.arch.sub (authInfo2Size c m) certDataOffset⟩

/-- What stands behind the descriptor. -/
def payloadOf (c : Call) (m : Mem) : Range :=
  ⟨authInfo2Size c m, c.arch.sub c.dataSize (authInfo2Size c m)⟩

def gEfiGlobalVariableGuid : Bytes := [0x61, 0xdf, 0xe4, 0x8b, 0xca, 0x93, 0xd2, 0x11,
  0xaa, 0x0d, 0x00, 0xe0, 0x98, 0x03, 0x2b, 0x8c]
def gEfiImageSecurityDatabaseGuid : Bytes := [0xcb, 0xb2, 0x19, 0xd7, 0x3a, 0x3d, 0x96, 0x45,
  0xa3, 0xbc, 0xda, 0xd0, 0x0e, 0x67, 0x65, 0x6f]

def efiPlatformKeyName : List UInt16 := [80, 75]
def efiKeyExchangeKeyName : List UInt16 := [75, 69, 75]

/-- `StrCmp16`: only the characters of the second string are compared. -/
def strCmp16 (dest : Name) (src : List UInt16) : Bool := src.isPrefixOf dest.chars

def strSize16 (s : Name) : Nat := 2 * s.chars.length

inductive AuthVarType where
  | pk | kek | db | priv
  deriving DecidableEq

def authVarType (c : Call) : AuthVarType :=
  if c.vendorGuid.bytes = gEfiImageSecurityDatabaseGuid then .db
  else if c.vendorGuid.bytes = gEfiGlobalVariableGuid ∧ strCmp16 c.variableName efiPlatformKeyName then .pk
  else if c.vendorGuid.bytes = gEfiGlobalVariableGuid ∧ strCmp16 c.variableName efiKeyExchangeKeyName then
    .kek
  else .priv

/-- The checks on the time stamp, and the time that is kept. -/
def checkTimeStamp (c : Call) (m : Mem) : Option Int :=
  let append := c.attributes &&& efiAppendWrite ≠ 0
  let time := osMktime (efiTime (timeStamp m c.data))
  let nonZeroTime := ∃ b ∈ timeStamp m c.data, b ≠ 0
  let old := toInt32 c.extFlags.mc
  if time = none ∧ (nonZeroTime ∨ ¬ append) then none
  else
    let stamp := time.getD 0
    if append then some (if c.oldData ∧ old > stamp then old else stamp)
    else if (∃ b ∈ timeReserved m c.data, b ≠ 0) ∨ c.oldData ∧ old ≥ stamp then none
    else some stamp

/-! ## ConstructDataParameter -/

/-- `Addr[5]` and `Len[5]`. -/
def hashSlots : Nat := 5

def nameBytes (s : Name) : Bytes := s.chars.flatMap fun ch => leBytes 2 ch.toNat

def constructDataParameter (sv : Services) (c : Call) (m : Mem) : Except Status Bytes × Computed :=
  let computed : Computed := { certHdrSizes := [authInfo2Size c m], certs := [pkcs7Cert c m] }
  match sv.getDigestAlgorithm m (pkcs7Cert c m) with
  | .error status => (.error status, computed)
  | .ok hashType =>
    -- `SHA1` and `SHA256` of the module
    match (if hashType = 0 then some HashAlg.sha1 else if hashType = 1 then some HashAlg.sha256 else none) with
    | none => (.error .unsupported, computed)
    | some alg =>
      let payload := payloadOf c m
      let block : List (Addr × Nat) :=
        [(.own (nameBytes c.variableName), strSize16 c.variableName),
          (.own c.vendorGuid.bytes, sizeofGuid),
          (.own (leBytes 4 c.attributes.toNat), 4),
          (.caller 0, sizeofEfiTime),
          (.caller payload.offset, payload.size)]
      (sv.hash m alg block, { computed with payloads := [payload], blocks := [block] })

/-! ## VerifyVariable2 -/

def Computed.add (x y : Computed) : Computed :=
  ⟨x.certHdrSizes ++ y.certHdrSizes, x.certs ++ y.certs, x.payloads ++ y.payloads, x.blocks ++ y.blocks⟩

/-- From `Exit_SetupMode` on. -/
def exitSetupMode (c : Call) (m : Mem) (computed : Computed) : Result :=
  let payload := payloadOf c m
  let computed := computed.add { payloads := [payload] }
  if payload.size ≠ 0 ∧ validateSignatureList m (c.data + payload.offset) payload.size ≠ .success then
    ⟨.securityViolation, payload, c.extFlags, none, computed⟩
  else
    ⟨.success, payload, c.extFlags,
      if authVarType c = .pk then some (payload.size = 0) else none, computed⟩

/-- PK, KEK and db(x): a database may be signed with one of the KEK keys, or with the PK. -/
def processKeys (sv : Services) (c : Call) (m : Mem) (cert : Range) (digest : Bytes) : Status :=
  if authVarType c = .db then
    let status := sv.processVarWithKek2 m cert digest
    if status = .securityViolation then sv.processVarWithPk2 m cert digest else status
  else sv.processVarWithPk2 m cert digest

/-- The signature, once the descriptor has been looked at. -/
def verifySignature (sv : Services) (g : Globals) (c : Call) (m : Mem) (computed : Computed) : Result :=
  let cert := pkcs7Cert c m
  let whole : Range := ⟨0, c.dataSize⟩
  let type := authVarType c
  if type ≠ .priv ∧ c.attributes &&& efiNonVolatile = 0 then
    ⟨.invalidParameter, whole, c.extFlags, none, computed⟩
  else if type ≠ .priv ∧ (g.setupMode ∨ g.customMode) then exitSetupMode c m computed
  else
    let constructed := constructDataParameter sv c m
    let computed := computed.add constructed.2
    match constructed.1 with
    | .error _ => ⟨.securityViolation, whole, c.extFlags, none, computed⟩
    | .ok digest =>
      if type = .priv then
        match sv.validateSelfSigned m cert digest with
        | .error status => ⟨status, whole, c.extFlags, none, computed⟩
        | .ok keyHash =>
          if c.oldData ∧ c.extFlags.keyHash.take keyHash.length ≠ keyHash then
            ⟨.securityViolation, whole, c.extFlags, none, computed⟩
          else
            let payload := payloadOf c m
            ⟨.success, payload,
              { c.extFlags with keyHash := keyHash ++ c.extFlags.keyHash.drop keyHash.length }, none,
              computed.add { payloads := [payload] }⟩
      else if processKeys sv c m cert digest ≠ .success then
        ⟨.securityViolation, whole, c.extFlags, none, computed⟩
      else exitSetupMode c m computed

def verifyVariable2 (sv : Services) (g : Globals) (c : Call) (m : Mem) : Result :=
  let whole : Range := ⟨0, c.dataSize⟩
  if c.attributes &&& efiTimeBasedAuthenticatedWriteAccess = 0 then
    ⟨.invalidParameter, whole, c.extFlags, none, {}⟩
  else if c.dataSize < authInfo2Size c m then
    ⟨.securityViolation, whole, c.extFlags, none, { certHdrSizes := [authInfo2Size c m] }⟩
  else
    let computed : Computed := { certHdrSizes := [authInfo2Size c m], certs := [pkcs7Cert c m] }
    if wCertificateType m c.data ≠ winCertTypeEfiGuid ∨ certType m c.data ≠ gEfiCertPkcs7Guid then
      ⟨.securityViolation, whole, c.extFlags, none, computed⟩
    else
      match checkTimeStamp c m with
      | none => ⟨.securityViolation, whole, c.extFlags, none, computed⟩
      | some stamp =>
        let ext := { c.extFlags with mc := (stamp % 2 ^ 64).toNat }
        verifySignature sv g { c with extFlags := ext } m computed

/-! ## Ranges of the buffer -/

/-- The length of one piece of a block is that of what it points at. -/
def PieceExact (c : Call) : Addr × Nat → Prop
  | (.own bs, len) => len = bs.length
  | (.caller offset, len) => offset + len ≤ c.dataSize

/-- What is computed from a descriptor that claims `length` bytes of certificate header: no
size has wrapped, and certificate and payload are adjacent ranges inside of the buffer. -/
structure Safe (m : Mem) (c : Call) (computed : Computed) : Prop where
  header : ∀ n ∈ computed.certHdrSizes, n = dwLength m c.data + sizeofEfiTime
  cert : ∀ x ∈ computed.certs, x.offset = certDataOffset ∧
    (x.size : Int) = dwLength m c.data + sizeofEfiTime - certDataOffset ∧ x.offset + x.size ≤ c.dataSize
  payload : ∀ x ∈ computed.payloads, x.offset = dwLength m c.data + sizeofEfiTime ∧
    (x.size : Int) = c.dataSize - (dwLength m c.data + sizeofEfiTime) ∧ x.offset + x.size = c.dataSize
  adjacent : ∀ x ∈ computed.certs, ∀ y ∈ computed.payloads, x.offset + x.size = y.offset
  block : ∀ b ∈ computed.blocks, b.length = hashSlots ∧ (∀ x ∈ b, PieceExact c x) ∧
    ((b.map Prod.snd).sum : Int) = strSize16 c.variableName + sizeofGuid + 4 + sizeofEfiTime
      + (c.dataSize - (dwLength m c.data + sizeofEfiTime))

/-- A length whose sum with the time stamp fits, and that leaves room for the header it
counts, unless the buffer is too short for it. -/
def LengthSound (m : Mem) (c : Call) : Prop :=
  dwLength m c.data + sizeofEfiTime < 2 ^ c.arch.bits ∧
    (dwLength m c.data + sizeofEfiTime ≤ c.dataSize → certDataOffset ≤ dwLength m c.data + sizeofEfiTime)

section

variable {sv : Services} {g : Globals} {c : Call} {m : Mem}

theorem Arch.sub_of_le {a : Arch} {x y : Nat} (h : y ≤ x) (hx : x < 2 ^ a.bits) : a.sub x y = x - y := by
  unfold Arch.sub
  rw [show x + 2 ^ a.bits - y = x - y + 2 ^ a.bits by omega, Nat.add_mod_right,
    Nat.mod_eq_of_lt (by omega)]

variable {x y computed : Computed}

/-- Safe computations taken together. -/
theorem Safe.add (hx : Safe m c x) (hy : Safe m c y) : Safe m c (x.add y) := by
  unfold Computed.add
  have hcert : ∀ r ∈ x.certs ++ y.certs, r.offset = certDataOffset ∧
      (r.size : Int) = dwLength m c.data + sizeofEfiTime - certDataOffset ∧
      r.offset + r.size ≤ c.dataSize :=
    fun r hr => (List.mem_append.mp hr).elim (hx.cert r) (hy.cert r)
  have hpayload : ∀ r ∈ x.payloads ++ y.payloads, r.offset = dwLength m c.data + sizeofEfiTime ∧
      (r.size : Int) = c.dataSize - (dwLength m c.data + sizeofEfiTime) ∧
      r.offset + r.size = c.dataSize :=
    fun r hr => (List.mem_append.mp hr).elim (hx.payload r) (hy.payload r)
  refine ⟨fun n hn => (List.mem_append.mp hn).elim (hx.header n) (hy.header n), hcert, hpayload, ?_,
    fun b hb => (List.mem_append.mp hb).elim (hx.block b) (hy.block b)⟩
  intro r hr r' hr'
  have h1 := hcert r hr
  have h2 := hpayload r' hr'
  omega

theorem safe_nothing : Safe m c {} := by
  constructor <;> simp

theorem safe_header (hsum : authInfo2Size c m = dwLength m c.data + sizeofEfiTime) :
    Safe m c { certHdrSizes := [authInfo2Size c m] } := by
  refine ⟨?_, by simp, by simp, by simp, by simp⟩
  simpa using hsum

/-- What is sound about a descriptor whose certificate is looked at. -/
structure InRange (m : Mem) (c : Call) : Prop where
  sum : authInfo2Size c m = dwLength m c.data + sizeofEfiTime
  room : certDataOffset ≤ authInfo2Size c m
  inside : authInfo2Size c m ≤ c.dataSize

theorem InRange.cert (h : InRange m c) :
    pkcs7Cert c m = ⟨certDataOffset, authInfo2Size c m - certDataOffset⟩ := by
  unfold pkcs7Cert
  rw [Arch.sub_of_le h.room (h.inside.trans_lt c.fits)]

theorem InRange.payload (h : InRange m c) :
    payloadOf c m = ⟨authInfo2Size c m, c.dataSize - authInfo2Size c m⟩ := by
  unfold payloadOf
  rw [Arch.sub_of_le h.inside c.fits]

theorem InRange.safe_cert (h : InRange m c) :
    Safe m c { certHdrSizes := [authInfo2Size c m], certs := [pkcs7Cert c m] } := by
  have h1 := h.sum
  have h2 := h.room
  have h3 := h.inside
  refine ⟨by simpa using h1, ?_, by simp, by simp, by simp⟩
  intro x hx
  obtain rfl := List.mem_singleton.mp hx
  rw [h.cert]
  exact ⟨rfl, by simp only; omega, by simp only; omega⟩

theorem InRange.safe_payload (h : InRange m c) : Safe m c { payloads := [payloadOf c m] } := by
  have h1 := h.sum
  have h3 := h.inside
  refine ⟨by simp, by simp, ?_, by simp, by simp⟩
  intro x hx
  obtain rfl := List.mem_singleton.mp hx
  rw [h.payload]
  exact ⟨h1, by simp only; omega, by simp only; omega⟩

theorem nameBytes_length (s : Name) : (nameBytes s).length = strSize16 s := by
  unfold nameBytes strSize16
  simp [List.length_flatMap, Nat.mul_comm]

/-- The block: five pieces, each as long as what it points at. -/
theorem InRange.construct (h : InRange m c) : Safe m c (constructDataParameter sv c m).2 := by
  unfold constructDataParameter
  simp only
  split
  · exact h.safe_cert
  split
  · exact h.safe_cert
  have hboth := h.safe_cert.add h.safe_payload
  refine ⟨hboth.header, hboth.cert, hboth.payload, hboth.adjacent, ?_⟩
  intro b hb
  obtain rfl := List.mem_singleton.mp hb
  have h1 := h.sum
  have h2 := h.room
  have h3 := h.inside
  rw [h.payload]
  unfold certDataOffset at h2
  refine ⟨rfl, ?_, ?_⟩
  · simp only [List.forall_mem_cons, List.not_mem_nil, false_implies, implies_true, and_true]
    refine ⟨(nameBytes_length _).symm, c.vendorGuid.len.symm, (leBytes_length 4 _).symm, ?_, ?_⟩
    · unfold PieceExact sizeofEfiTime
      omega
    · unfold PieceExact
      omega
  · simp only [List.map_cons, List.map_nil, List.sum_cons, List.sum_nil]
    unfold strSize16 sizeofGuid sizeofEfiTime at *
    push_cast
    omega

theorem InRange.exit (h : InRange m c) (hsafe : Safe m c computed) :
    Safe m c (exitSetupMode c m computed).computed := by
  unfold exitSetupMode
  simp only
  split <;> exact hsafe.add h.safe_payload

theorem InRange.signature (h : InRange m c) (hsafe : Safe m c computed) :
    Safe m c (verifySignature sv g c m computed).computed := by
  have hconstruct : Safe m c (computed.add (constructDataParameter sv c m).2) := hsafe.add h.construct
  unfold verifySignature
  simp only
  split
  · exact hsafe
  split
  · exact h.exit hsafe
  split
  · exact hconstruct
  split
  · -- a private variable
    split
    · exact hconstruct
    · split
      · exact hconstruct
      · exact hconstruct.add h.safe_payload
  · split
    · exact hconstruct
    · exact h.exit hconstruct

/-- The time that is kept is no part of the descriptor. -/
theorem safe_extFlags {ext : ExtSecFlags} :
    Safe m { c with extFlags := ext } computed ↔ Safe m c computed :=
  ⟨fun h => ⟨h.header, h.cert, h.payload, h.adjacent, h.block⟩,
    fun h => ⟨h.header, h.cert, h.payload, h.adjacent, h.block⟩⟩

/-- What has been computed stays. -/
structure Keeps (x y : Computed) : Prop where
  headers : ∀ n ∈ x.certHdrSizes, n ∈ y.certHdrSizes
  certs : ∀ r ∈ x.certs, r ∈ y.certs

theorem Keeps.refl (x : Computed) : Keeps x x := ⟨fun _ h => h, fun _ h => h⟩

theorem Keeps.add (h : Keeps x y) (z : Computed) : Keeps x (y.add z) :=
  ⟨fun n hn => List.mem_append_left _ (h.headers n hn), fun r hr => List.mem_append_left _ (h.certs r hr)⟩

theorem exitSetupMode_keeps (h : Keeps x computed) :
    Keeps x (exitSetupMode c m computed).computed := by
  unfold exitSetupMode
  simp only
  split <;> exact h.add _

theorem verifySignature_keeps (sv : Services) (g : Globals) (c : Call) (computed : Computed) :
    Keeps computed (verifySignature sv g c m computed).computed := by
  have hself := Keeps.refl computed
  have hconstruct := hself.add (constructDataParameter sv c m).2
  unfold verifySignature
  simp only
  split
  · exact hself
  split
  · exact exitSetupMode_keeps hself
  split
  · exact hconstruct
  split
  · split
    · exact hconstruct
    · split
      · exact hconstruct
      · exact hconstruct.add _
  · split
    · exact hconstruct
    · exact exitSetupMode_keeps hconstruct

/-- Every run computes the size of the header, and that of the certificate if the buffer is
long enough. -/
theorem verifyVariable2_computes (sv : Services) (g : Globals) (m : Mem)
    (hattr : c.attributes &&& efiTimeBasedAuthenticatedWriteAccess ≠ 0) :
    authInfo2Size c m ∈ (verifyVariable2 sv g c m).computed.certHdrSizes ∧
    (authInfo2Size c m ≤ c.dataSize → pkcs7Cert c m ∈ (verifyVariable2 sv g c m).computed.certs) := by
  unfold verifyVariable2
  simp only
  rw [if_neg hattr]
  split
  · exact ⟨by simp, fun h => absurd h (by omega)⟩
  · split
    · exact ⟨by simp, fun _ => by simp⟩
    · split
      · exact ⟨by simp, fun _ => by simp⟩
      · rename_i stamp _
        have hkept : Keeps { certHdrSizes := [authInfo2Size c m], certs := [pkcs7Cert c m] } _ :=
          verifySignature_keeps (m := m) sv g
            { c with extFlags := { c.extFlags with mc := (stamp % 2 ^ 64).toNat } } _
        exact ⟨hkept.headers _ (by simp), fun _ => hkept.certs _ (by simp)⟩

/-- A run over a sound descriptor. -/
theorem verifyVariable2_safe (h : LengthSound m c) : Safe m c (verifyVariable2 sv g c m).computed := by
  obtain ⟨hfits, hroom⟩ := h
  have hsum : authInfo2Size c m = dwLength m c.data + sizeofEfiTime := Nat.mod_eq_of_lt hfits
  unfold verifyVariable2
  simp only
  split
  · exact safe_nothing
  split
  · exact safe_header hsum
  rename_i hlong
  have hrange : InRange m c := ⟨hsum, by rw [hsum]; exact hroom (by omega), by omega⟩
  split
  · exact hrange.safe_cert
  split
  · exact hrange.safe_cert
  · rename_i stamp hstamp
    have hext : InRange m { c with extFlags := { c.extFlags with mc := (stamp % 2 ^ 64).toNat } } :=
      ⟨hrange.sum, hrange.room, hrange.inside⟩
    exact safe_extFlags.mp (hext.signature hext.safe_cert)

end

/-- The computations are safe when the attributes are those of another kind of variable, and
otherwise exactly for a length that is sound. -/
theorem verifyVariable2_safe_iff (sv : Services) (g : Globals) (c : Call) (m : Mem) :
    Safe m c (verifyVariable2 sv g c m).computed ↔
      (c.attributes &&& efiTimeBasedAuthenticatedWriteAccess ≠ 0 → LengthSound m c) := by
  constructor
  · intro hsafe hattr
    obtain ⟨hheader, hcert⟩ := verifyVariable2_computes sv g m hattr
    have hsum := hsafe.header _ hheader
    have hlt : authInfo2Size c m < 2 ^ c.arch.bits := Nat.mod_lt _ (Nat.two_pow_pos _)
    refine ⟨by omega, fun hin => ?_⟩
    have hsize := (hsafe.cert _ (hcert (by omega))).2.1
    omega
  · intro h
    by_cases hattr : c.attributes &&& efiTimeBasedAuthenticatedWriteAccess = 0
    · unfold verifyVariable2
      rw [if_pos hattr]
      exact safe_nothing
    · exact verifyVariable2_safe (h hattr)

/-! ## A descriptor that claims no length -/

/-- Services that refuse every certificate. -/
def refusing : Services where
  getDigestAlgorithm _ _ := .error .securityViolation
  hash _ _ _ := .error .securityViolation
  validateSelfSigned _ _ _ := .error .securityViolation
  processVarWithKek2 _ _ _ := .securityViolation
  processVarWithPk2 _ _ _ := .securityViolation

/-- `dwLength` is zero, in a descriptor of the right type. -/
def noLength : Bytes :=
  List.replicate 20 0 ++ leBytes 2 0x200 ++ leBytes 2 winCertTypeEfiGuid ++ gEfiCertPkcs7Guid

theorem noLengthCall_nonzero : (0 : UInt16) ∉ [65] := by decide

theorem noLengthCall_fits : 40 < 2 ^ Arch.x64.bits := by decide

def noLengthCall : Call where
  arch := .x64
  variableName := ⟨[65], noLengthCall_nonzero⟩
  vendorGuid := ⟨List.replicate 16 0, Nvram.guidZero_length⟩
  attributes := 0x67
  data := 0x1000
  dataSize := 40
  fits := noLengthCall_fits
  oldData := false
  extFlags := ⟨0, List.replicate 32 0⟩

/-- The size of its certificate is 24 less than nothing. -/
theorem not_verifyVariable2_safe : ¬ ∀ (sv : Services) (g : Globals) (c : Call) (m : Mem),
    Safe m c (verifyVariable2 sv g c m).computed := by
  intro h
  have hsafe := h refusing ⟨false, false⟩ noLengthCall (poke (fun _ => 0) 0x1000 noLength)
  have hsize : authInfo2Size noLengthCall (poke (fun _ => 0) 0x1000 noLength) = 16 := by decide +kernel
  have hcert := (verifyVariable2_computes refusing ⟨false, false⟩ (poke (fun _ => 0) 0x1000 noLength)
    (c := noLengthCall) (by decide)).2 (by rw [hsize]; decide)
  have hneg := (hsafe.cert _ hcert).2.1
  have hzero : dwLength (poke (fun _ => 0) 0x1000 noLength) noLengthCall.data = 0 := by decide +kernel
  rw [hzero] at hneg
  unfold sizeofEfiTime certDataOffset at hneg
  omega

end BayTrail.SecureBoot.TimeBased
