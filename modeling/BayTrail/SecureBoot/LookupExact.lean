import BayTrail.SecureBoot.LookupStack

/-!
# When a lookup is exact

Neither function checks the lists it walks over. They are safe on the contents that `Lists` gets through. On a
well-formed database `IsSignatureFoundInDatabase` is exact; the other function takes a list of an unknown type for
one of the type in front of it, and a revoked hash for a match when no time stamp is trusted.
-/

namespace BayTrail.SecureBoot.Lookup

open BayTrail.Lib

/-! ## IsSignatureFoundInDatabase -/

section

variable {type signature rest : Bytes} {l : SignatureList} {lists : List SignatureList}

theorem certs_found (rest : Bytes) (sigs : List SignatureData) (hsize : l.signatureSize = sizeofGuid + signature.length)
    (hsigs : ∀ s ∈ sigs, s ∈ l.signatures) :
    ∃ b, Certs (Compared signature) () l.signatureSize sigs.length (sigs.flatMap SignatureData.bytes ++ rest) () (b, ())
      ∧ (b = true ↔ ∃ s ∈ sigs, s.data = signature) := by
  induction sigs with
  | nil => exact ⟨false, .none _ _, by simp⟩
  | cons s sigs ih =>
    obtain ⟨b, hcerts, hb⟩ := ih fun t ht => hsigs t (List.mem_cons_of_mem s ht)
    have hs := hsigs s List.mem_cons_self
    have hlength : signature.length = s.data.length := by
      have hdata := data_size hs
      omega
    have hcompared : Compared signature () l.signatureSize (s.bytes ++ (sigs.flatMap SignatureData.bytes ++ rest)) ()
        (decide (s.data = signature), ()) := ⟨readable_data hs hlength, by rw [bytesAt_data hs hlength]⟩
    rw [List.flatMap_cons, List.append_assoc, List.length_cons]
    by_cases hfound : s.data = signature
    · rw [decide_eq_true hfound] at hcompared
      exact ⟨true, .accepted hcompared, iff_of_true rfl ⟨s, List.mem_cons_self, hfound⟩⟩
    · rw [decide_eq_false hfound] at hcompared
      refine ⟨b, .refused hcompared (by rwa [drop_signature hs]), hb.trans ?_⟩
      rw [List.exists_mem_cons_iff, or_iff_right hfound]

/-- The signature stands in one of the lists of the type. -/
def Contains (lists : List SignatureList) (type signature : Bytes) : Prop :=
  ∃ l ∈ lists, l.type = type ∧ ∃ s ∈ l.signatures, s.data = signature

theorem checked_found (type signature rest : Bytes) (hsize : l.signatureSize < 2 ^ 32) :
    ∃ b, Checked (finder type signature) (Compared signature) () (l.bytes ++ rest) () (b, ())
      ∧ (b = true ↔ ∃ s ∈ l.signatures, s.data = signature) := by
  unfold Checked
  rw [signatureSize_bytes rest hsize, certCount_bytes rest hsize, firstCert_bytes]
  by_cases hadmits : l.signatureSize = sizeofGuid + signature.length
  · obtain ⟨b, hcerts, hb⟩ := certs_found rest l.signatures hadmits fun s hs => hs
    refine ⟨b, ⟨header_le l rest, (size_pos l).ne', ?_⟩, hb⟩
    have hcount : l.signatures.length % 2 ^ 64 = l.signatures.length := Nat.mod_eq_of_lt ((signatures_lt l).trans (by decide))
    have hlooked : (finder type signature).admits l.signatureSize = true := decide_eq_true hadmits
    rw [if_pos hlooked]
    show Certs _ _ _ (l.signatures.length % 2 ^ 64) _ _ _
    rwa [hcount]
  · refine ⟨false, ⟨header_le l rest, (size_pos l).ne', ?_⟩, iff_of_false (by decide) ?_⟩
    · have hpassed : ¬ (finder type signature).admits l.signatureSize = true := fun h => hadmits (of_decide_eq_true h)
      rw [if_neg hpassed]
    · rintro ⟨s, hs, hdata⟩
      have hlength := data_size hs
      rw [hdata] at hlength
      exact hadmits (by omega)

theorem lists_found (type signature : Bytes) (hsizes : ∀ l ∈ lists, l.signatureSize < 2 ^ 32) (old : Option Unit) :
    ∃ b, Lists (finder type signature) (Compared signature) old (content lists) () (b, ())
      ∧ (b = true ↔ Contains lists type signature) := by
  induction lists generalizing old with
  | nil => exact ⟨false, .empty old (), iff_of_false (by decide) (by rintro ⟨l, hl, -⟩; cases hl)⟩
  | cons l lists ih =>
    have hmet := met_bytes l (content lists)
    have hrest : (l.bytes ++ content lists).drop (signatureListSize (l.bytes ++ content lists)) = content lists := drop_bytes l _
    have hkind : (finder type signature).kind old (signatureType (l.bytes ++ content lists)) = if l.type = type then some () else none := by
      rw [signatureType_bytes]
      rfl
    rw [content_cons]
    unfold Contains at ih ⊢
    by_cases htype : l.type = type
    · rw [if_pos htype] at hkind
      obtain ⟨b, hchecked, hb⟩ := checked_found type signature (content lists) (hsizes l List.mem_cons_self)
      cases b with
      | true => exact ⟨true, .accepted hmet hkind hchecked, iff_of_true rfl ⟨l, List.mem_cons_self, htype, hb.mp rfl⟩⟩
      | false =>
        obtain ⟨b', hlists, hb'⟩ := ih (fun l' hl' => hsizes l' (List.mem_cons_of_mem l hl')) (some ())
        refine ⟨b', .refused hmet hkind hchecked (by rwa [hrest]), hb'.trans ?_⟩
        rw [List.exists_mem_cons_iff, or_iff_right fun h => Bool.false_ne_true (hb.mpr h.2)]
    · rw [if_neg htype] at hkind
      obtain ⟨b', hlists, hb'⟩ := ih (fun l' hl' => hsizes l' (List.mem_cons_of_mem l hl')) none
      refine ⟨b', .skipped hmet hkind (by rwa [hrest]), hb'.trans ?_⟩
      rw [List.exists_mem_cons_iff, or_iff_right fun h => htype h.1]

end

/-- The search ends, with no division by zero and no read outside of the variable, and in a well-formed database it
finds what is there. -/
def FindsExactly (data : Option Bytes) (type signature : Bytes) : Prop :=
  ∃ b, (isSignatureFoundInDatabase data type signature).Returns b
    ∧ ∀ bytes lists, data = some bytes → Encodes bytes lists → (b = true ↔ Contains lists type signature)

/-- The search gets through the variable, if there is one. -/
def Searchable (data : Option Bytes) (type signature : Bytes) : Prop :=
  ∀ bytes, data = some bytes → ∃ r, Lists (finder type signature) (Compared signature) none bytes () r

theorem findsExactly_iff (data : Option Bytes) (type signature : Bytes) :
    FindsExactly data type signature ↔ Searchable data type signature := by
  unfold FindsExactly Searchable isSignatureFoundInDatabase
  cases data with
  | none => exact iff_of_true ⟨false, Run.returns_pure.mpr rfl, fun _ _ h => by cases h⟩ fun _ h => by cases h
  | some bytes =>
    have hwalk : ∀ r, (walk (finder type signature) (fun _ _ cert _ => compareSignature signature cert) bytes ()).Returns r
        ↔ Lists (finder type signature) (Compared signature) none bytes () r :=
      fun r => returns_walk fun _ _ _ _ _ => returns_compareSignature
    constructor
    · rintro ⟨b, hreturns, -⟩ _ hbytes
      cases hbytes
      obtain ⟨r, hr, -⟩ := Run.returns_bind.mp hreturns
      exact ⟨r, (hwalk r).mp hr⟩
    · intro hsearchable
      obtain ⟨r, hlists⟩ := hsearchable bytes rfl
      refine ⟨r.1, ((hwalk r).mpr hlists).bind (Run.returns_pure.mpr rfl), ?_⟩
      rintro _ lists hbytes ⟨hsizes, hcontent⟩
      cases hbytes
      obtain ⟨b, hfound, hb⟩ := lists_found type signature hsizes none
      rw [← hcontent] at hfound
      cases ((hwalk r).mpr hlists).unique ((hwalk _).mpr hfound)
      exact hb

/-! ## IsPkcsSignedDataVerifiedBySignatureList -/

/-- A signature of some lists: `k` is what its list is taken for after the lists in front, and `cert` the bytes from the
signature on. -/
inductive Stands (alg : HashAlg) : Option CertType → List SignatureList → CertType → SignatureList → SignatureData → Bytes → Prop where
  | here {old : Option CertType} {lists : List SignatureList} {l : SignatureList} {k : CertType} {front back : List SignatureData}
      {s : SignatureData} (hkind : validCertType (some alg) l.type old = some k) (hsigs : l.signatures = front ++ s :: back) :
      Stands alg old (l :: lists) k l s (s.bytes ++ (back.flatMap SignatureData.bytes ++ content lists))
  | later {old : Option CertType} {lists : List SignatureList} {l l' : SignatureList} {k : CertType} {s : SignatureData} {cert : Bytes}
      (h : Stands alg (validCertType (some alg) l'.type old) lists k l s cert) : Stands alg old (l' :: lists) k l s cert

/-- The time stamp has not been asked for, or it is known. -/
def Fresh (S : Bool × Int → Prop) (st : Stamps) : Prop := st.verified = none ∨ ∃ t, S t ∧ (⟨t.2, some t.1⟩ : Stamps) = st

section

variable {e : Surroundings} {op : Operation} {S : Bool × Int → Prop} {k : CertType} {size : Nat} {cert rest : Bytes} {st st' : Stamps}
  {r r' : Bool × Stamps} {l : SignatureList} {lists : List SignatureList} {s : SignatureData} {old : Option CertType}

theorem Stamped.known {x : Bool × Stamps} (hfresh : Fresh S st) (h : Stamped S st x) : ∃ t, S t ∧ (t.1, ⟨t.2, some t.1⟩) = x := by
  rcases h with ⟨b, hverified, rfl⟩ | ⟨-, h⟩
  · rcases hfresh with hnone | ⟨t, ht, rfl⟩
    · cases hnone.symm.trans hverified
    · cases hverified
      exact ⟨t, ht, rfl⟩
  · exact h

theorem verdict_snd {o : Option Nat} (h : (verdict op st o).1 = false) : (verdict op st o).2 = st := by
  cases o with
  | none => rfl
  | some n => cases h

theorem verdict_fst (o : Option Nat) : (verdict op st o).1 = o.isSome := by
  cases o <;> rfl

/-- A signature that is refused leaves the status of the time stamp as it is, or known. -/
theorem Judged.fresh (hfresh : Fresh S st) (h : Judged e op S k size cert st (false, st')) : Fresh S st' := by
  have hverified : ∀ {st : Stamps}, Fresh S st → Verified e op size cert st (false, st') → Fresh S st' := by
    rintro st hfresh ⟨-, hverdict⟩
    have hst := verdict_snd (congrArg Prod.fst hverdict)
    rw [hverdict] at hst
    subst hst
    exact hfresh
  have hhash : HashJudged e op S k size cert st (false, st') → Fresh S st' := by
    rintro ⟨x, hx, -, hrest⟩
    obtain ⟨t, ht, rfl⟩ := hx.known hfresh
    have hknown : Fresh S ⟨t.2, some t.1⟩ := Or.inr ⟨t, ht, rfl⟩
    split at hrest
    · cases hrest
    · split at hrest
      · cases hrest
        exact hknown
      · exact hverified hknown hrest
  cases k with
  | certSha256 =>
    have h : DigestJudged e size cert st (false, st') := h
    unfold DigestJudged at h
    split at h
    · exact (Prod.mk.inj h.2).2 ▸ hfresh
    · cases h
      exact hfresh
  | certX509 => exact hverified hfresh h
  | certX509Sha256 | certX509Sha384 | certX509Sha512 => exact hhash h

/-- Whether a signature is accepted does not depend on when it is looked at. -/
theorem Judged.unique (hS : ∀ t t', S t → S t' → t = t') (hfresh : Fresh S st) (hfresh' : Fresh S st') (h : Judged e op S k size cert st r)
    (h' : Judged e op S k size cert st' r') : r.1 = r'.1 := by
  have hverified : ∀ {st st' : Stamps}, Verified e op size cert st r → Verified e op size cert st' r' → r.1 = r'.1 := by
    rintro st st' ⟨-, rfl⟩ ⟨-, rfl⟩
    rw [verdict_fst, verdict_fst]
  have hhash : HashJudged e op S k size cert st r → HashJudged e op S k size cert st' r' → r.1 = r'.1 := by
    rintro ⟨x, hx, -, hrest⟩ ⟨x', hx', -, hrest'⟩
    obtain ⟨t, ht, rfl⟩ := hx.known hfresh
    obtain ⟨t', ht', rfl⟩ := hx'.known hfresh'
    obtain rfl := hS t t' ht ht'
    split at hrest
    · rename_i huntrusted
      rw [if_pos huntrusted] at hrest'
      rw [← hrest, ← hrest']
    · rename_i huntrusted
      rw [if_neg huntrusted] at hrest'
      split at hrest
      · rename_i hearly
        rw [if_pos hearly] at hrest'
        rw [← hrest, ← hrest']
      · rename_i hearly
        rw [if_neg hearly] at hrest'
        exact hverified hrest hrest'
  cases k with
  | certSha256 =>
    have h : DigestJudged e size cert st r := h
    have h' : DigestJudged e size cert st' r' := h'
    unfold DigestJudged at h h'
    split at h
    · rename_i hsize
      rw [if_pos hsize] at h'
      rw [← h.2, ← h'.2]
    · rename_i hsize
      rw [if_neg hsize] at h'
      rw [← h, ← h']
  | certX509 => exact hverified h h'
  | certX509Sha256 | certX509Sha384 | certX509Sha512 => exact hhash h h'

/-- The signature is accepted when it is looked at. -/
def Accepted (e : Surroundings) (op : Operation) (S : Bool × Int → Prop) (k : CertType) (size : Nat) (cert : Bytes) : Prop :=
  ∃ st st', Fresh S st ∧ Judged e op S k size cert st (true, st')

/-- The signature is refused when it is looked at. -/
def Refused (e : Surroundings) (op : Operation) (S : Bool × Int → Prop) (k : CertType) (size : Nat) (cert : Bytes) : Prop :=
  ∃ st st', Fresh S st ∧ Judged e op S k size cert st (false, st')

theorem Accepted.not_refused (hS : ∀ t t', S t → S t' → t = t') (h : Accepted e op S k size cert) : ¬ Refused e op S k size cert := by
  obtain ⟨st, _, hfresh, hjudged⟩ := h
  rintro ⟨st', _, hfresh', hjudged'⟩
  exact Bool.noConfusion (Judged.unique hS hfresh hfresh' hjudged hjudged')

/-! ### The signatures of a list, and of the lists -/

variable {sigs : List SignatureData}

theorem certs_true (hsized : ∀ s ∈ sigs, s.bytes.length = size) (hfresh : Fresh S st)
    (h : Certs (Judged e op S) k size sigs.length (sigs.flatMap SignatureData.bytes ++ rest) st (true, st')) :
    ∃ front s back, sigs = front ++ s :: back
      ∧ Accepted e op S k size (s.bytes ++ (back.flatMap SignatureData.bytes ++ rest)) := by
  induction sigs generalizing st with
  | nil => cases h
  | cons s sigs ih =>
    rw [List.flatMap_cons, List.append_assoc, List.length_cons] at h
    cases h with
    | accepted hjudged => exact ⟨[], s, sigs, rfl, st, st', hfresh, hjudged⟩
    | refused hjudged hrest =>
      rw [List.drop_left' (hsized s List.mem_cons_self)] at hrest
      obtain ⟨front, s', back, hsigs, haccepted⟩ := ih (fun t ht => hsized t (List.mem_cons_of_mem s ht)) (hjudged.fresh hfresh) hrest
      exact ⟨s :: front, s', back, by rw [hsigs]; rfl, haccepted⟩

theorem certs_false (hsized : ∀ s ∈ sigs, s.bytes.length = size) (hfresh : Fresh S st)
    (h : Certs (Judged e op S) k size sigs.length (sigs.flatMap SignatureData.bytes ++ rest) st (false, st')) :
    Fresh S st' ∧ ∀ front s back, sigs = front ++ s :: back →
      Refused e op S k size (s.bytes ++ (back.flatMap SignatureData.bytes ++ rest)) := by
  induction sigs generalizing st with
  | nil =>
    cases h
    refine ⟨hfresh, fun front s back hsigs => ?_⟩
    cases front <;> cases hsigs
  | cons s sigs ih =>
    rw [List.flatMap_cons, List.append_assoc, List.length_cons] at h
    cases h with
    | @refused _ _ _ st₁ _ hjudged hrest =>
      rw [List.drop_left' (hsized s List.mem_cons_self)] at hrest
      obtain ⟨hfresh', hall⟩ := ih (fun t ht => hsized t (List.mem_cons_of_mem s ht)) (hjudged.fresh hfresh) hrest
      refine ⟨hfresh', fun front s' back hsigs => ?_⟩
      cases front with
      | nil =>
        cases hsigs
        exact ⟨st, st₁, hfresh, hjudged⟩
      | cons t front => exact hall front s' back (List.cons.inj hsigs).2

/-- The signatures of a list are all looked at. -/
theorem checked_certs (hsize : l.signatureSize < 2 ^ 32) (h : Checked (verifier e) (Judged e op S) k (l.bytes ++ rest) st r) :
    Certs (Judged e op S) k l.signatureSize l.signatures.length (l.signatures.flatMap SignatureData.bytes ++ rest) st r := by
  obtain ⟨-, -, hcerts⟩ := h
  have hlooked : (verifier e).admits (signatureSize (l.bytes ++ rest)) = true := rfl
  have hcount : l.signatures.length % (verifier e).width = l.signatures.length := Nat.mod_eq_of_lt (signatures_lt l)
  rw [if_pos hlooked, signatureSize_bytes rest hsize, certCount_bytes rest hsize, firstCert_bytes, hcount] at hcerts
  exact hcerts

/-- How a walk leaves the first list of some. -/
theorem lists_cons (h : Lists (verifier e) (Judged e op S) old (l.bytes ++ rest) st r) :
    (validCertType (some e.certType) l.type old = none ∧ Lists (verifier e) (Judged e op S) none rest st r)
    ∨ ∃ k, validCertType (some e.certType) l.type old = some k
      ∧ ((∃ st', r = (true, st') ∧ Checked (verifier e) (Judged e op S) k (l.bytes ++ rest) st (true, st'))
        ∨ ∃ st', Checked (verifier e) (Judged e op S) k (l.bytes ++ rest) st (false, st')
          ∧ Lists (verifier e) (Judged e op S) (some k) rest st' r) := by
  have hmet := met_bytes l rest
  have hdrop := drop_bytes l rest
  have htype : ∀ {o}, (verifier e).kind old (signatureType (l.bytes ++ rest)) = o → validCertType (some e.certType) l.type old = o := by
    intro o ho
    rw [signatureType_bytes] at ho
    exact ho
  generalize hlist : l.bytes ++ rest = list at *
  cases h with
  | empty => exact absurd rfl hmet.ne_nil
  | short _ _ hshort => exact absurd hmet.fits (Nat.not_le.mpr hshort)
  | skipped _ hkind hrest =>
    rw [hdrop] at hrest
    exact Or.inl ⟨htype hkind, hrest⟩
  | accepted _ hkind hchecked => exact Or.inr ⟨_, htype hkind, Or.inl ⟨_, rfl, hchecked⟩⟩
  | refused _ hkind hchecked hrest =>
    rw [hdrop] at hrest
    exact Or.inr ⟨_, htype hkind, Or.inr ⟨_, hchecked, hrest⟩⟩

theorem lists_true (hsizes : ∀ l ∈ lists, l.signatureSize < 2 ^ 32) (hfresh : Fresh S st)
    (h : Lists (verifier e) (Judged e op S) old (content lists) st (true, st')) :
    ∃ k l s cert, Stands e.certType old lists k l s cert ∧ Accepted e op S k l.signatureSize cert := by
  induction lists generalizing old st with
  | nil =>
    cases h with
    | skipped hmet | accepted hmet | refused hmet => exact absurd rfl hmet.ne_nil
  | cons l lists ih =>
    have hsizes' : ∀ l' ∈ lists, l'.signatureSize < 2 ^ 32 := fun l' hl' => hsizes l' (List.mem_cons_of_mem l hl')
    have hsized : ∀ s ∈ l.signatures, s.bytes.length = l.signatureSize := fun s hs => (l.sized s hs).2
    have hsize := hsizes l List.mem_cons_self
    rw [content_cons] at h
    rcases lists_cons h with ⟨hkind, hlists⟩ | ⟨k, hkind, ⟨_, -, hchecked⟩ | ⟨st₁, hchecked, hlists⟩⟩
    · obtain ⟨k, l', s, cert, hstands, haccepted⟩ := ih hsizes' hfresh hlists
      exact ⟨k, l', s, cert, .later (hkind.symm ▸ hstands), haccepted⟩
    · obtain ⟨front, s, back, hsigs, haccepted⟩ := certs_true hsized hfresh (checked_certs hsize hchecked)
      exact ⟨k, l, s, _, .here hkind hsigs, haccepted⟩
    · obtain ⟨hfresh', -⟩ := certs_false hsized hfresh (checked_certs hsize hchecked)
      obtain ⟨k', l', s, cert, hstands, haccepted⟩ := ih hsizes' hfresh' hlists
      exact ⟨k', l', s, cert, .later (hkind.symm ▸ hstands), haccepted⟩

theorem lists_false (hsizes : ∀ l ∈ lists, l.signatureSize < 2 ^ 32) (hfresh : Fresh S st)
    (h : Lists (verifier e) (Judged e op S) old (content lists) st (false, st')) (hstands : Stands e.certType old lists k l s cert) :
    Refused e op S k l.signatureSize cert := by
  induction hstands generalizing st with
  | @here old lists l k front back s hkind hsigs =>
    rw [content_cons] at h
    rcases lists_cons h with ⟨hkind', -⟩ | ⟨k', hkind', ⟨_, hr, -⟩ | ⟨st₁, hchecked, -⟩⟩
    · cases hkind.symm.trans hkind'
    · cases hr
    · cases hkind.symm.trans hkind'
      have hcerts := checked_certs (hsizes l List.mem_cons_self) hchecked
      exact (certs_false (fun s hs => (l.sized s hs).2) hfresh hcerts).2 front s back hsigs
  | @later old lists l l' k s cert _ ih =>
    have hsizes' : ∀ l₁ ∈ lists, l₁.signatureSize < 2 ^ 32 := fun l₁ hl₁ => hsizes l₁ (List.mem_cons_of_mem l' hl₁)
    rw [content_cons] at h
    rcases lists_cons h with ⟨hkind, hlists⟩ | ⟨k', hkind, ⟨_, hr, -⟩ | ⟨st₁, hchecked, hlists⟩⟩
    · exact ih hsizes' hfresh (hkind.symm ▸ hlists)
    · cases hr
    · have hcerts := checked_certs (hsizes l' List.mem_cons_self) hchecked
      have hfresh' := (certs_false (fun s hs => (l'.sized s hs).2) hfresh hcerts).1
      exact ih hsizes' hfresh' (hkind.symm ▸ hlists)

end

/-! ### What is accepted by its own type -/

/-- A signature of the list type that it stands in justifies the result: a digest is that of the image, a certificate or
the hash of a revoked one has been accepted by `Pkcs7Verify`. -/
def Justified (e : Surroundings) (op : Operation) (lists : List SignatureList) : Prop :=
  ∃ l ∈ lists, ∃ s ∈ l.signatures, (l.type = e.certType.certType ∧ s.data = e.imageDigest)
    ∨ ((l.type = gEfiCertX509Guid ∨ l.type ∈ certHashTypes.map Prod.fst) ∧ (e.pkcs7Verify op s.data).isSome = true)

/-- The hash of a certificate that is revoked from some time on, while no time stamp is trusted. -/
def Unstamped (e : Surroundings) (k : CertType) (cert : Bytes) : Prop :=
  k ≠ .certSha256 ∧ k ≠ .certX509 ∧ revocationTime k cert ≠ 0 ∧ ∃ t, DbtSays e t ∧ t.1 = false

/-- A signature is accepted that is taken for the type of another list, or for want of a time stamp. -/
def Misled (e : Surroundings) (op : Operation) (lists : List SignatureList) : Prop :=
  ∃ k l s cert, Stands e.certType none lists k l s cert ∧ Accepted e op (DbtSays e) k l.signatureSize cert
    ∧ (ownType e.certType l.type = none ∨ Unstamped e k cert)

section

variable {e : Surroundings} {op : Operation} {k : CertType} {cert : Bytes} {l : SignatureList} {lists : List SignatureList}
  {s : SignatureData} {old : Option CertType} {alg : HashAlg} {type : Bytes}

theorem ownType_eq_digest (h : ownType alg type = some .certSha256) : type = alg.certType := by
  unfold ownType validCertType at h
  split_ifs at h with _ hdigest <;> cases h
  exact (Option.some.inj hdigest).symm

theorem ownType_eq_x509 (h : ownType alg type = some .certX509) : type = gEfiCertX509Guid := by
  unfold ownType validCertType at h
  split_ifs at h with hx509 <;> cases h
  exact hx509

theorem ownType_eq_hash (h : ownType alg type = some k) (hdigest : k ≠ .certSha256) (hx509 : k ≠ .certX509) :
    type ∈ certHashTypes.map Prod.fst := by
  unfold ownType validCertType at h
  split_ifs at h with _ _ h256 h384 h512
  · exact absurd (Option.some.inj h).symm hx509
  · exact absurd (Option.some.inj h).symm hdigest
  · rw [h256]
    decide
  · rw [h384]
    decide
  · rw [h512]
    decide

theorem Stands.facts (h : Stands alg old lists k l s cert) :
    l ∈ lists ∧ s ∈ l.signatures ∧ (∃ rest, cert = s.bytes ++ rest) ∧ ∀ k', ownType alg l.type = some k' → k' = k := by
  induction h with
  | here hkind hsigs =>
    refine ⟨List.mem_cons_self, hsigs ▸ List.mem_append_right _ List.mem_cons_self, ⟨_, rfl⟩, fun k' hk' => ?_⟩
    rw [validCertType_eq, hk', Option.some_or] at hkind
    exact Option.some.inj hkind
  | later _ ih => exact ⟨List.mem_cons_of_mem _ ih.1, ih.2⟩

theorem rootCertSize_eq (hs : s ∈ l.signatures) (hsize : l.signatureSize < 2 ^ 32) : rootCertSize l.signatureSize = s.data.length := by
  have hdata := data_size hs
  unfold rootCertSize
  unfold sizeofGuid at *
  omega

/-- Without the two misjudgements what is accepted justifies the result. -/
theorem justified_of_accepted (hsizes : ∀ l ∈ lists, l.signatureSize < 2 ^ 32) (hstands : Stands e.certType none lists k l s cert)
    (h : Accepted e op (DbtSays e) k l.signatureSize cert) (hknown : ownType e.certType l.type ≠ none) (hstamped : ¬ Unstamped e k cert) :
    Justified e op lists := by
  obtain ⟨hl, hs, ⟨rest, rfl⟩, hown⟩ := hstands.facts
  obtain ⟨k', hk'⟩ := Option.ne_none_iff_exists'.mp hknown
  obtain rfl := hown k' hk'
  have hroot := rootCertSize_eq hs (hsizes l hl)
  have hverified : ∀ {st st' : Stamps}, Verified e op l.signatureSize (s.bytes ++ rest) st (true, st') →
      (e.pkcs7Verify op s.data).isSome = true := by
    rintro st st' ⟨-, hverdict⟩
    rw [hroot, bytesAt_data hs rfl] at hverdict
    have hfst := congrArg Prod.fst hverdict
    rwa [verdict_fst] at hfst
  obtain ⟨st, st', hfresh, hjudged⟩ := h
  have hhash : k' ≠ .certSha256 → k' ≠ .certX509 →
      HashJudged e op (DbtSays e) k' l.signatureSize (s.bytes ++ rest) st (true, st') → Justified e op lists := by
    rintro hdigest hx509 ⟨x, hx, -, hrest⟩
    obtain ⟨t, ht, rfl⟩ := hx.known hfresh
    have hpkcs7 : (e.pkcs7Verify op s.data).isSome = true := by
      split at hrest
      · rename_i huntrusted
        exact absurd ⟨hdigest, hx509, huntrusted.1, t, ht, huntrusted.2⟩ hstamped
      · split at hrest
        · cases hrest
        · exact hverified hrest
    exact ⟨l, hl, s, hs, Or.inr ⟨Or.inr (ownType_eq_hash hk' hdigest hx509), hpkcs7⟩⟩
  cases k' with
  | certSha256 =>
    have hdigest : DigestJudged e l.signatureSize (s.bytes ++ rest) st (true, st') := hjudged
    unfold DigestJudged at hdigest
    split at hdigest
    · rename_i hsize
      have hequal := congrArg Prod.fst hdigest.2
      rw [bytesAt_data hs (hsize.symm.trans hroot)] at hequal
      exact ⟨l, hl, s, hs, Or.inl ⟨ownType_eq_digest hk', of_decide_eq_true hequal⟩⟩
    · cases hdigest
  | certX509 => exact ⟨l, hl, s, hs, Or.inr ⟨Or.inl (ownType_eq_x509 hk'), hverified hjudged⟩⟩
  | certX509Sha256 | certX509Sha384 | certX509Sha512 => exact hhash (by decide) (by decide) hjudged

end

/-- The call ends, with no division by zero and no read outside of the variable, and in a well-formed database it
succeeds only because of a signature that justifies it. -/
def VerifiesSoundly (e : Surroundings) (name : DatabaseName) (op : Operation) : Prop :=
  ∃ depth r, (isPkcsSignedDataVerified e depth name op).Returns r
    ∧ ∀ bytes lists, e.database name = some bytes → Encodes bytes lists → r.1 = true → Justified e op lists

/-- The call gets through the variable, and through dbt without a nested one if it has to; and it is not misled where
nothing justifies the result. -/
def Trustworthy (e : Surroundings) (name : DatabaseName) (op : Operation) : Prop :=
  (∃ t, Comes e op (DbtSays e) name t)
    ∧ ∀ bytes lists, e.database name = some bytes → Encodes bytes lists → Misled e op lists → Justified e op lists

theorem verifiesSoundly_iff (e : Surroundings) (name : DatabaseName) (op : Operation) :
    VerifiesSoundly e name op ↔ Trustworthy e name op := by
  have hfresh : Fresh (DbtSays e) ⟨0, none⟩ := Or.inl rfl
  -- where the walk goes in a well-formed database
  have hwalk : ∀ {bytes lists t}, e.database name = some bytes → Encodes bytes lists → Comes e op (DbtSays e) name t →
      ∃ st, Lists (verifier e) (Judged e op (DbtSays e)) none (content lists) ⟨0, none⟩ (t.1, st) := by
    rintro bytes lists t hdata ⟨-, rfl⟩ hcomes
    unfold Comes at hcomes
    rw [hdata] at hcomes
    obtain ⟨st, hlists, -⟩ := hcomes
    exact ⟨st, hlists⟩
  constructor
  · rintro ⟨depth, t, hreturns, hjustified⟩
    have hcomes := returns_iff_comes.mp ⟨depth, hreturns⟩
    refine ⟨⟨t, hcomes⟩, ?_⟩
    rintro bytes lists hdata hencodes ⟨k, l, s, cert, hstands, haccepted, -⟩
    obtain ⟨st, hlists⟩ := hwalk hdata hencodes hcomes
    refine hjustified bytes lists hdata hencodes ?_
    by_contra hfalse
    rw [Bool.not_eq_true] at hfalse
    rw [hfalse] at hlists
    exact haccepted.not_refused (fun _ _ => DbtSays.unique) (lists_false hencodes.1 hfresh hlists hstands)
  · rintro ⟨⟨t, hcomes⟩, hmisled⟩
    obtain ⟨depth, hreturns⟩ := returns_iff_comes.mpr hcomes
    refine ⟨depth, t, hreturns, fun bytes lists hdata hencodes htrue => ?_⟩
    obtain ⟨st, hlists⟩ := hwalk hdata hencodes hcomes
    rw [htrue] at hlists
    obtain ⟨k, l, s, cert, hstands, haccepted⟩ := lists_true hencodes.1 hfresh hlists
    by_cases hbad : ownType e.certType l.type = none ∨ Unstamped e k cert
    · exact hmisled bytes lists hdata hencodes ⟨k, l, s, cert, hstands, haccepted, hbad⟩
    · obtain ⟨hknown, hstamped⟩ := not_or.mp hbad
      exact justified_of_accepted hencodes.1 hstands haccepted hknown hstamped

/-! ## Both functions -/

/-- Exactly when the two lookups do what they are for, whatever the variables hold. -/
theorem lookups_exact (e : Surroundings) (name : DatabaseName) (op : Operation) (type signature : Bytes) :
    (FindsExactly (e.database name) type signature ↔ Searchable (e.database name) type signature)
      ∧ (VerifiesSoundly e name op ↔ Trustworthy e name op) :=
  ⟨findsExactly_iff _ _ _, verifiesSoundly_iff e name op⟩

/-- A list without a size is not got over. -/
theorem not_lookups_exact : ¬ ∀ (e : Surroundings) (name : DatabaseName) (op : Operation) (type signature : Bytes),
    FindsExactly (e.database name) type signature ∧ VerifiesSoundly e name op := by
  intro h
  obtain ⟨⟨b, hreturns, -⟩, -⟩ := h ⟨.sha256, [], fun _ _ => none, fun _ => some (List.replicate 28 0)⟩ .db .certValidate
    gEfiCertSha256Guid []
  obtain ⟨r, hwalk, -⟩ := Run.returns_bind.mp hreturns
  have hlists := lists_of_returns hwalk
  clear hwalk hreturns h
  generalize hzero : List.replicate 28 (0 : UInt8) = list at hlists
  dsimp only at hlists
  generalize (none : Option Unit) = old at hlists
  generalize () = st at hlists
  induction hlists with
  | empty => cases hzero
  | short _ _ hshort =>
    subst hzero
    exact absurd hshort (by decide)
  | skipped _ _ _ ih =>
    subst hzero
    exact ih rfl
  | accepted _ hkind _ =>
    subst hzero
    cases hkind
  | refused _ hkind _ _ _ =>
    subst hzero
    cases hkind

end BayTrail.SecureBoot.Lookup
