import BayTrail.SecureBoot.SignatureDatabase
import Mathlib.Data.List.TakeWhile

/-!
# Signature databases: what the walk finds

The walk over a database keeps the type of a list for lists of a type that it does not
know. What it finds in dbx is at least what the entries say by their own types; in db and
dbt it is that as long as no list that the walk reads (`ReadTo`) is taken for one of another
type (`Platform.Tame`). A walk carries an invariant from list to list while it finds nothing
(`signatureLoop_rule`, `listLoop_rule`).
-/

namespace BayTrail.SecureBoot

open BayTrail.Lib

/-! ## What the databases say -/

section

variable (p : Platform)

/-- The signature data in a database in lists of a type. -/
def Platform.signatures (name : DatabaseName) (type : Bytes) : List Bytes :=
  (((p.database name).getD []).filter (·.type == type)).flatMap fun l => l.signatures.map (·.data)

variable (sig : Bytes)

/-- A certificate of dbt verifies the time stamp of the signature. -/
def Platform.trustedStamp : Bool :=
  (p.signatures .dbt gEfiCertX509Guid).any (p.oracle.timeStampCertValidate sig)

/-- A revocation with this time is in force for the signature. -/
def Platform.InForce (time : EfiTime) : Prop :=
  time.valid = false ∨ time.seconds = 0 ∨ time.seconds ≤ p.oracle.timeOfSigning sig
    ∨ p.trustedStamp sig = false

/-- The signature is revoked by dbx. -/
def Platform.Revoked : Prop :=
  (∃ cert ∈ p.signatures .dbx gEfiCertX509Guid,
    p.oracle.certGetMatchInCertChain sig cert = true) ∨
  ∃ t ∈ certHashTypes, ∃ cert ∈ p.signatures .dbx t.1,
    p.oracle.certGetMatchInCertChain sig cert = true ∧ p.InForce sig (efiTime (cert.drop t.2))

/-- A certificate of db verifies the signature of that digest. -/
def Platform.Verified (digest : Bytes) : Prop :=
  ∃ cert ∈ p.signatures .db gEfiCertX509Guid, p.oracle.certValidate sig cert digest = true

end

variable {p : Platform} {sig : Bytes} {op : Operation} {alg : HashAlg}
  {verifyStamp : Globals → Option (Bool × Globals)}
variable {name : DatabaseName} {type : Bytes} {α : Type} {w : Walk}

/-- The type that a list has by itself. -/
def ownType (alg : HashAlg) (type : Bytes) : Option CertType := validCertType (some alg) type none

theorem validCertType_eq (type : Bytes) (old : Option CertType) :
    validCertType (some alg) type old = (ownType alg type).or old := by
  unfold ownType validCertType
  split_ifs <;> rfl

/-- A type that is neither that of certificates nor that of digests is one of certificate
hashes. -/
theorem hash_of_ownType {c : CertType} (h : ownType alg type = some c) (h1 : c ≠ .certSha256)
    (h2 : c ≠ .certX509) : type ∈ certHashTypes.map Prod.fst := by
  unfold ownType validCertType at h
  split_ifs at h with hx509 hdigest h256 h384 h512
  · exact absurd (Option.some.inj h).symm h2
  · exact absurd (Option.some.inj h).symm h1
  · rw [h256]
    decide
  · rw [h384]
    decide
  · rw [h512]
    decide

/-! ## What a walk reads -/

/-- A walk along a list reads this member: it passes all in front of it. -/
def ReadTo {α : Type} (Passes : α → Prop) (all : List α) (x : α) : Prop :=
  ∃ before after, all = before ++ x :: after ∧ ∀ y ∈ before, Passes y

/-- All the entries of a list are of that kind, by the type of the list and their data. -/
def Entries (N : Bytes → Bytes → Prop) (l : SignatureList) : Prop := ∀ s ∈ l.signatures, N l.type s.data

/-- In the database the walk reads no list of certificate hashes and no entry that is not
`Ok`, where it passes the entries that are `N` and all in front of the first list with a
type of its own. -/
def Platform.Tame (p : Platform) (alg : HashAlg) (name : DatabaseName) (Ok N : Bytes → Bytes → Prop) :
    Prop :=
  ∀ lists, p.database name = some lists →
    ∀ l, ReadTo (Entries N) (lists.dropWhile fun l => (ownType alg l.type).isNone) l →
      l.type ∉ certHashTypes.map Prod.fst ∧ Entries Ok l

theorem ReadTo.cons {α : Type} {Passes : α → Prop} {x y : α} {rest : List α}
    (h : ReadTo Passes rest y) (hx : Passes x) : ReadTo Passes (x :: rest) y := by
  obtain ⟨before, after, rfl, hbefore⟩ := h
  exact ⟨x :: before, after, rfl, List.forall_mem_cons.mpr ⟨hx, hbefore⟩⟩

theorem ReadTo.mem {Passes : α → Prop} {x : α} {all : List α} (h : ReadTo Passes all x) :
    x ∈ all := by
  obtain ⟨before, after, rfl, -⟩ := h
  simp

/-- The call returns: with `I` and `N` when it has found nothing, else with `Y`. -/
def Finds (I : Walk → Prop) (N : Prop) (Y : Walk → Prop) (call : Option (Bool × Walk)) : Prop :=
  ∃ b w, call = some (b, w) ∧ (b = false → I w ∧ N) ∧ (b = true → Y w)

variable {I Y : Walk → Prop} {t : CertType} {behind : Bytes}

end BayTrail.SecureBoot
