import BayTrail.SecureBoot.LookupLists

/-!
# What the judges look at, and how deep the calls nest

`Compared` and `Judged` are the judges of the two functions without their computations. The call for dbt nests in
itself as soon as it meets the hash of a certificate in dbt, and so it comes back only if it meets none.
-/

namespace BayTrail.SecureBoot.Lookup

open BayTrail.Lib

/-- The signature is inside the variable, and accepted if it is the one that is searched for. -/
def Compared (signature : Bytes) (_ : Unit) (_ : Nat) (cert : Bytes) (_ : Unit) (r : Bool × Unit) : Prop :=
  Readable cert sizeofGuid signature.length ∧ r.1 = decide (bytesAt cert sizeofGuid signature.length = signature)

theorem returns_compareSignature {signature cert : Bytes} {k : Unit} {size : Nat} {st : Unit} {r : Bool × Unit} :
    (compareSignature signature cert).Returns r ↔ Compared signature k size cert st r := by
  unfold compareSignature Compared
  rw [Run.returns_require_bind, Run.returns_pure]
  exact and_congr_right fun _ => ⟨fun h => h ▸ rfl, fun h => Prod.ext h.symm rfl⟩

section

variable (e : Surroundings) (op : Operation) (S : Bool × Int → Prop)

/-- The data of a signature are inside the variable, and `Pkcs7Verify` says whether it is accepted. -/
def Verified (size : Nat) (cert : Bytes) (st : Stamps) (r : Bool × Stamps) : Prop :=
  Readable cert sizeofGuid (rootCertSize size)
    ∧ verdict op st (e.pkcs7Verify op (bytesAt cert sizeofGuid (rootCertSize size))) = r

/-- The status of the time stamp, as it is known already or as `S` has it. -/
def Stamped (st : Stamps) (s : Bool × Stamps) : Prop :=
  (∃ b, st.verified = some b ∧ (b, st) = s) ∨ (st.verified = none ∧ ∃ t, S t ∧ (t.1, ⟨t.2, some t.1⟩) = s)

/-- The hash of a certificate. -/
def HashJudged (k : CertType) (size : Nat) (cert : Bytes) (st : Stamps) (r : Bool × Stamps) : Prop :=
  ∃ s, Stamped S st s ∧ Readable cert (sizeofGuid + k.timeOffset) 7
    ∧ if revocationTime k cert ≠ 0 ∧ s.1 = false then (true, s.2) = r
      else if revocationTime k cert ≠ 0 ∧ s.2.timeOfSigning < revocationTime k cert then (false, s.2) = r
      else Verified e op size cert s.2 r

/-- A digest. One of another size is not looked at. -/
def DigestJudged (size : Nat) (cert : Bytes) (st : Stamps) (r : Bool × Stamps) : Prop :=
  if rootCertSize size = e.imageDigest.length then
    Readable cert sizeofGuid e.imageDigest.length
      ∧ (decide (bytesAt cert sizeofGuid e.imageDigest.length = e.imageDigest), st) = r
  else (false, st) = r

/-- A signature of a list that is taken for this type. -/
def Judged (k : CertType) (size : Nat) (cert : Bytes) (st : Stamps) (r : Bool × Stamps) : Prop :=
  match k with
  | .certSha256 => DigestJudged e size cert st r
  | .certX509 => Verified e op size cert st r
  | k => HashJudged e op S k size cert st r

/-- What a call comes to when `S` is what the call for dbt comes to. -/
def Comes (name : DatabaseName) (t : Bool × Int) : Prop :=
  match e.database name with
  | none => (false, 0) = t
  | some data => ∃ st, Lists (verifier e) (Judged e op S) none data ⟨0, none⟩ (t.1, st) ∧ st.timeOfSigning = t.2

/-- What the call for dbt comes to: it meets no hash of a certificate. -/
def DbtSays : Bool × Int → Prop := Comes e .timeStampCertValidateGet (fun _ => False) .dbt

end

section

variable {e : Surroundings} {op : Operation} {inner : Run (Bool × Int)} {S S' : Bool × Int → Prop} {k : CertType} {size : Nat}
  {cert : Bytes} {st : Stamps} {r : Bool × Stamps} {name : DatabaseName} {t : Bool × Int} {depth : Nat}

theorem returns_verifyCert : (verifyCert e op size cert st).Returns r ↔ Verified e op size cert st r := by
  unfold verifyCert Verified
  rw [Run.returns_require_bind, Run.returns_pure]

variable {s : Bool × Stamps}

theorem returns_stampStatus : (stampStatus inner st).Returns s ↔ Stamped inner.Returns st s := by
  unfold stampStatus Stamped
  cases hverified : st.verified with
  | some b => simp
  | none => simp [Run.returns_bind]

theorem returns_judgeHash : (judgeHash e op inner k size cert st).Returns r ↔ HashJudged e op inner.Returns k size cert st r := by
  unfold judgeHash HashJudged
  rw [Run.returns_bind]
  refine exists_congr fun s => and_congr returns_stampStatus ?_
  rw [Run.returns_require_bind]
  refine and_congr_right fun _ => ?_
  split
  · exact Run.returns_pure
  · split
    · exact Run.returns_pure
    · exact returns_verifyCert

theorem returns_judgeCert : (judgeCert e op inner k size cert st).Returns r ↔ Judged e op inner.Returns k size cert st r := by
  cases k with
  | certSha256 =>
    unfold judgeCert Judged DigestJudged
    dsimp only
    split
    · rw [Run.returns_require_bind, Run.returns_pure]
    · exact Run.returns_pure
  | certX509 => exact returns_verifyCert
  | certX509Sha256 => exact returns_judgeHash
  | certX509Sha384 => exact returns_judgeHash
  | certX509Sha512 => exact returns_judgeHash

/-! ## Nested calls -/

theorem Stamped.mono (hle : ∀ t, S t → S' t) (h : Stamped S st s) : Stamped S' st s := by
  rcases h with h | ⟨hnone, t, ht, hs⟩
  · exact Or.inl h
  · exact Or.inr ⟨hnone, t, hle t ht, hs⟩

theorem HashJudged.mono (hle : ∀ t, S t → S' t) (h : HashJudged e op S k size cert st r) : HashJudged e op S' k size cert st r := by
  obtain ⟨s, hs, h⟩ := h
  exact ⟨s, hs.mono hle, h⟩

theorem Judged.mono (hle : ∀ t, S t → S' t) (h : Judged e op S k size cert st r) : Judged e op S' k size cert st r := by
  cases k with
  | certSha256 | certX509 => exact h
  | certX509Sha256 | certX509Sha384 | certX509Sha512 => exact HashJudged.mono hle h

theorem Comes.mono (hle : ∀ t, S t → S' t) (h : Comes e op S name t) : Comes e op S' name t := by
  unfold Comes at h ⊢
  cases hdata : e.database name with
  | none =>
    rw [hdata] at h
    exact h
  | some data =>
    rw [hdata] at h
    obtain ⟨st, hlists, hst⟩ := h
    exact ⟨st, hlists.mono fun _ _ _ _ _ hjudged => hjudged.mono hle, hst⟩

theorem returns_succ : (isPkcsSignedDataVerified e (depth + 1) name op).Returns t
    ↔ Comes e op (isPkcsSignedDataVerified e depth .dbt .timeStampCertValidateGet).Returns name t := by
  rw [isPkcsSignedDataVerified]
  unfold Comes
  cases hdata : e.database name with
  | none => exact Run.returns_pure
  | some data =>
    rw [Run.returns_bind]
    constructor
    · rintro ⟨⟨b, st⟩, hwalk, ht⟩
      cases Run.returns_pure.mp ht
      exact ⟨st, (returns_walk fun _ _ _ _ _ => returns_judgeCert).mp hwalk, rfl⟩
    · rintro ⟨st, hlists, hst⟩
      exact ⟨(t.1, st), (returns_walk fun _ _ _ _ _ => returns_judgeCert).mpr hlists, Run.returns_pure.mpr (Prod.ext rfl hst)⟩

theorem not_returns_zero : ¬ (isPkcsSignedDataVerified e 0 name op).Returns t := by
  rw [isPkcsSignedDataVerified, Run.returns_ofOption]
  intro h
  cases h

theorem dbtSays_of_returns (h : (isPkcsSignedDataVerified e depth .dbt .timeStampCertValidateGet).Returns t) : DbtSays e t := by
  -- a nested call that comes back has met no hash, and so the call itself meets none
  induction depth generalizing t with
  | zero => exact absurd h not_returns_zero
  | succ depth ih =>
    have hcomes := returns_succ.mp h
    by_cases hinner : ∃ t', (isPkcsSignedDataVerified e depth .dbt .timeStampCertValidateGet).Returns t'
    · obtain ⟨t', ht'⟩ := hinner
      have hrest := ih ht'
      have hagain : (isPkcsSignedDataVerified e (depth + 1) .dbt .timeStampCertValidateGet).Returns t' :=
        returns_succ.mpr (hrest.mono fun _ hfalse => hfalse.elim)
      cases h.unique hagain
      exact hrest
    · exact hcomes.mono fun t' ht' => hinner ⟨t', ht'⟩

theorem returns_of_dbtSays (h : DbtSays e t) : (isPkcsSignedDataVerified e 1 .dbt .timeStampCertValidateGet).Returns t :=
  returns_succ.mpr (h.mono fun _ hfalse => hfalse.elim)

theorem DbtSays.unique {t' : Bool × Int} (h : DbtSays e t) (h' : DbtSays e t') : t = t' :=
  Option.some.inj (Run.Yields.unique (returns_of_dbtSays h) (returns_of_dbtSays h'))

/-- A stack that is high enough is high enough for two calls. -/
theorem returns_iff_comes :
    (∃ depth, (isPkcsSignedDataVerified e depth name op).Returns t) ↔ Comes e op (DbtSays e) name t := by
  constructor
  · rintro ⟨depth, h⟩
    cases depth with
    | zero => exact absurd h not_returns_zero
    | succ depth => exact (returns_succ.mp h).mono fun _ => dbtSays_of_returns
  · exact fun h => ⟨2, returns_succ.mpr (h.mono fun _ => returns_of_dbtSays)⟩

end

end BayTrail.SecureBoot.Lookup
