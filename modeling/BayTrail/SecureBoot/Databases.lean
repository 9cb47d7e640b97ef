import BayTrail.SecureBoot.Verification

/-!
# Signature databases: db, dbx and dbt

What a call of `IsPkcsSignedDataVerifiedBySignatureList` returns for each of the three
databases and its operation. A call over db or dbt finds something only where the database
has it, as long as the walk is tame (`db_spec`, `dbt_spec`, both from `tameLoop_rule`). A call
over dbx that finds nothing has passed every entry (`Clear`), and asks for the time stamp only
when it reads a certificate hash (`Platform.AsksForStamp`), so that only then dbt has to be
tame (`dbx_spec`).
-/

namespace BayTrail.SecureBoot

open BayTrail.Lib

variable {p : Platform} {sig digest : Bytes} {alg : HashAlg} {g : Globals}

/-- The call leaves the digest as it is. -/
structure Globals.Same (g g' : Globals) : Prop where
  certType : g'.certType = g.certType
  imageDigest : g'.imageDigest = g.imageDigest

/-- The database does not exist, or there is memory for its buffer. -/
def Platform.Readable (p : Platform) (name : DatabaseName) : Prop :=
  p.database name ≠ none → ∀ k, p.alloc k (some name) = true

variable {w : Walk} {g₀ : Globals} {l : SignatureList} {s : SignatureData} {type : Bytes}
  {t : CertType}

theorem at_certType (h : w.globals.certType = some alg) (l : SignatureList) :
    (w.at l).certType = (ownType alg l.type).or w.certType := by
  unfold Walk.at
  dsimp only
  rw [h, validCertType_eq]

/-! ## A tame walk -/

/-- A tame walk while it finds nothing. -/
structure TameWalk (g₀ : Globals) (w : Walk) : Prop where
  globals : w.globals = g₀
  certType : w.certType = none ∨ w.certType = some .certX509 ∨ w.certType = some .certSha256

theorem TameWalk.at (hw : TameWalk g₀ w) (hg₀ : g₀.certType = some alg) (hl : l.type ∉ certHashTypes.map Prod.fst) : TameWalk g₀ (w.at l) := by
  refine ⟨hw.globals, ?_⟩
  rw [at_certType (hw.globals ▸ hg₀)]
  cases hown : ownType alg l.type with
  | none => exact hw.certType
  | some c =>
    by_cases h1 : c = .certSha256
    · exact Or.inr (Or.inr (congrArg some h1))
    · by_cases h2 : c = .certX509
      · exact Or.inr (Or.inl (congrArg some h2))
      · exact absurd (hash_of_ownType hown h1 h2) hl

/-- What dbt may have besides certificates: digests, but not that of the image. -/
def StampEntry (alg : HashAlg) (digest type data : Bytes) : Prop :=
  type = gEfiCertX509Guid ∨ type = alg.certType ∧ data ≠ digest

/-- The entry is not a certificate that verifies the time stamp of the signature. -/
def NoStamp (p : Platform) (sig type data : Bytes) : Prop :=
  type = gEfiCertX509Guid → p.oracle.timeStampCertValidate sig data = false

/-- The time stamp is trusted, and known. -/
structure Stamped (p : Platform) (sig : Bytes) (g : Globals) : Prop where
  trusted : p.trustedStamp sig = true
  time : g.timeOfSigning = toInt32 (p.oracle.timeOfSigning sig)

/-- The lists whose entries db may have. -/
def dbTypes : List Bytes := [gEfiCertX509Guid, gEfiCertSha1Guid, gEfiCertSha256Guid]

def DbEntry (type _data : Bytes) : Prop := type ∈ dbTypes

/-- The entry of db vouches for the image with that digest. -/
def Vouches (p : Platform) (sig digest : Bytes) (alg : HashAlg) (type data : Bytes) : Prop :=
  type = gEfiCertX509Guid ∧ p.oracle.certValidate sig data digest = true
    ∨ type = alg.certType ∧ data = digest

/-- Some entry of db does. -/
def Platform.VouchedFor (p : Platform) (sig digest : Bytes) (alg : HashAlg) : Prop :=
  p.Verified sig digest ∨ digest ∈ p.signatures .db alg.certType

/-- Where the time of a certificate hash is, that of its revocation; 0 stands for none. -/
def revocationTime (t : Bytes × Nat) (data : Bytes) : Int :=
  (osMktime (efiTime (data.drop t.2))).getD 0

/-- An entry of dbx that has nothing against the image: it revokes nothing, and when it has a
time the time stamp is trusted. -/
structure Clear (p : Platform) (sig digest : Bytes) (alg : HashAlg) (type data : Bytes) : Prop where
  cert : type = gEfiCertX509Guid → p.oracle.certGetMatchInCertChain sig data = false
  digest : type = alg.certType → data ≠ digest
  stamp : ∀ t ∈ certHashTypes, type = t.1 → revocationTime t data ≠ 0 → p.trustedStamp sig = true
  hash : ∀ t ∈ certHashTypes, type = t.1 →
    p.oracle.certGetMatchInCertChain sig data = true → ¬ p.InForce sig (efiTime (data.drop t.2))

section

variable (p sig digest alg)

/-- Some entry of dbx has something against the image. -/
def Platform.BarredBy : Prop :=
  ∃ lists, p.database .dbx = some lists ∧ ∃ l ∈ lists, ¬ Entries (Clear p sig digest alg) l

/-- The walk over dbx reads this list. -/
def Platform.ReadInDbx (l : SignatureList) : Prop :=
  ∃ lists, p.database .dbx = some lists ∧ ReadTo (Entries (Clear p sig digest alg)) lists l

/-- The walk over dbx reads an entry as a certificate hash: one that is, or one of a type that
it does not know, behind a list of certificate hashes. -/
def Platform.AsksForStamp : Prop :=
  (∃ l, p.ReadInDbx sig digest alg l ∧ l.type ∈ certHashTypes.map Prod.fst) ∧
  ∃ l, p.ReadInDbx sig digest alg l ∧ l.signatures ≠ [] ∧
    (l.type ∈ certHashTypes.map Prod.fst ∨ ownType alg l.type = none)

/-- The walk over dbx compares the time of signing with that of a revocation. -/
def Platform.ComparesTimes : Prop :=
  p.trustedStamp sig = true ∧ ∃ l, p.ReadInDbx sig digest alg l ∧ ∃ t ∈ certHashTypes, l.type = t.1 ∧
    ∃ s, ReadTo (fun s => Clear p sig digest alg l.type s.data) l.signatures s ∧
      revocationTime t s.data ≠ 0

/-- What the walk over dbx needs: a tame dbt where it asks for the time stamp, and a time of
signing that is an `INT32` where it compares it. -/
structure Platform.DbxTame : Prop where
  dbt : p.AsksForStamp sig digest alg → p.Tame alg .dbt (StampEntry alg digest) (NoStamp p sig)
  signing : p.ComparesTimes sig digest alg → p.oracle.timeOfSigning sig < 2 ^ 31

end

end BayTrail.SecureBoot
