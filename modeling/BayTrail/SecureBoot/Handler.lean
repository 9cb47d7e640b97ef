import BayTrail.SecureBoot.SignatureDatabase

/-!
# The image verification handler

`DxeImageVerificationHandler`, with secure boot on and a policy that is neither to always
nor to never execute, up to the point at which `ImageAuthorization` is consulted.
-/

namespace BayTrail.SecureBoot

open BayTrail.Lib

def sizeofWinCertificate : Nat := 8
def sizeofWinCertificateUefiGuid : Nat := 24
def winCertTypePkcsSignedData : Nat := 0x0002
def winCertTypeEfiGuid : Nat := 0x0EF1
def alignmentSize : Nat := 8

/-- `ALIGN_SIZE`. -/
def alignSize (a : Nat) : Nat :=
  if a % alignmentSize ≠ 0 then alignmentSize - a % alignmentSize else 0

/-- `EFI_IMAGE_EXECUTION_ACTION`. -/
inductive Action where
  | authUntested | authSigFailed | authSigNotFound | authSigFound
  deriving DecidableEq

/-! ## HashPeImageByType -/

section

variable (p : Platform) (img : Image)

/-- `HashPeImage` and the variables it sets; the digest is that of the elements. -/
def hashImage (alg : HashAlg) (g : Globals) : Bool × Globals :=
  let g' := { g with certType := some alg, imageDigest := List.replicate alg.digestSize 0,
                     allocations := g.allocations + 1 }
  match hashPeImage img (p.alloc g.allocations none) with
  | .hash elements =>
    let bytes := elements.flatMap fun e => peek img.data e.addr e.len
    (true, { g' with imageDigest := p.oracle.hash alg bytes })
  | _ => (false, g')

/-- `HashPeImageByType`. -/
def hashPeImageByType (sig : Bytes) (g : Globals) : Bool × Globals :=
  match p.oracle.digestAlgorithm sig with
  | none => (false, g)
  | some alg => hashImage p img alg g

/-! ## The certificate table -/

/-- What the loop finds in a certificate: it stops, goes on, or verifies the signature. -/
inductive Certificate where
  | stop
  | skip
  | signed (authData : Bytes)
  deriving DecidableEq

/-- `WinCertificate->dwLength`. -/
def dwLength (offset : Nat) : Nat := rd img.data 4 offset

/-- The certificate at `offset`, with so many bytes left in the table. -/
def certificateAt (offset left : Nat) : Certificate :=
  let length := dwLength img offset
  let type := rd img.data 2 (offset + 6)
  if left ≤ sizeofWinCertificate ∨ left < length then .stop
  else if type = winCertTypePkcsSignedData then
    if length ≤ sizeofWinCertificate then .stop
    else .signed (peek img.data (offset + sizeofWinCertificate) (length - sizeofWinCertificate))
  else if type = winCertTypeEfiGuid then
    if length ≤ sizeofWinCertificateUefiGuid then .stop
    else if peek img.data (offset + 8) sizeofGuid ≠ gEfiCertPkcs7Guid then .skip
    else .signed (peek img.data (offset + sizeofWinCertificateUefiGuid)
      (length - sizeofWinCertificateUefiGuid))
  else if length < sizeofWinCertificate then .stop
  else .skip

/-- The variables of the loop: `Status` and `VerifyStatus` are a success, `Action`, and
`OffSet`. -/
structure CertLoop where
  globals : Globals
  status : Bool
  verified : Bool
  action : Action
  offset : Nat

/-- The body of the loop for a signature: the variables, and whether the loop is left. -/
def verifySignature (depth : Nat) (sig : Bytes) (s : CertLoop) : Option (CertLoop × Bool) :=
  match hashPeImageByType p img sig s.globals with
  | (false, g) => some ({ s with globals := g, status := false }, false)
  | (true, g) =>
    match isPkcsSignedDataVerified p sig depth .dbx .certGetMatchInCertChain g with
    | none => none
    | some (true, g) =>
      some ({ s with globals := g, status := true, verified := false, action := .authSigFound }, true)
    | some (false, g) =>
      if s.verified then some ({ s with globals := g, status := true }, false)
      else
        (isPkcsSignedDataVerified p sig depth .db .certValidate g).map fun (found, g) =>
          -- the call that clears the context sets the status
          ({ s with globals := g, status := true, verified := found }, false)

/-- The loop over the certificates of a table that ends at `stop`. -/
def certLoop (depth stop : Nat) : Nat → CertLoop → Option CertLoop
  | 0, _ => none
  | fuel + 1, s =>
    if stop ≤ s.offset then some s
    else
      let length := dwLength img s.offset
      let next := (s.offset + (length + alignSize length) % 2 ^ 32) % 2 ^ 32
      match certificateAt img s.offset (stop - s.offset) with
      | .stop => some s
      | .skip => certLoop depth stop fuel { s with offset := next }
      | .signed sig =>
        match verifySignature p img depth sig s with
        | none => none
        | some (s, true) => some s
        | some (s, false) => certLoop depth stop fuel { s with offset := next }

/-! ## DxeImageVerificationHandler -/

end

end BayTrail.SecureBoot
