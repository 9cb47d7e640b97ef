import BayTrail.SecureFlash.Touched

/-!
# When validation is safe

The certificates, the revision and `CapsuleValidate` as a whole: the function returns, with all accesses
inside, exactly if each walk of it ends in the buffer. For each loop a structure says what a round that
goes on has read, and a walk from entry to entry comes to its end; the condition of the whole is put
together from these along the branches of `CapsuleValidate`.
-/

namespace BayTrail.SecureFlash.Checked

open Lib (Bytes Mem peek Next)
open Lib.Run (returns_pure returns_bind returns_loop loop_done loop_again loop_induction)

variable {Digest : Type} {S : Services Digest} {project : Project} {m : Mem} {capsule hdr payload p n : Nat} {b : Bool}

/-! ## The certificates -/

/-- The length of the certificate is a difference. -/
def Pkcs7Safe (S : Services Digest) (m : Mem) (capsule hdr payload : Nat) : Prop :=
  trustCert S ≠ none → HashSafe m capsule hdr ∧ (digest S m hdr payload ≠ none → 24 ≤ certLength m hdr)

theorem verifyFwCertPkcs7_returns (h : Placed m capsule hdr payload) (hcert : certLength m hdr + 32 ≤ romLayoutOffset m hdr)
    (tbl : HashTbl Digest) : (verifyFwCertPkcs7 S m capsule hdr payload (romSize m hdr)).Returns b ↔
      Pkcs7Safe S m capsule hdr payload ∧ (SecureFlash.verifyFwCertPkcs7 S m hdr payload tbl).1 = b := by
  unfold verifyFwCertPkcs7 Pkcs7Safe SecureFlash.verifyFwCertPkcs7
  cases trustCert S with
  | none => exact returns_pure.trans (and_iff_right fun hne => absurd rfl hne).symm
  | some trust =>
    dsimp only
    rw [digest_eq, forall_prop_of_true (fun hnone => nomatch hnone), returns_bind]
    simp only [hashFwRomMapImage_returns h, and_assoc, exists_and_left, exists_eq_left']
    refine and_congr_right fun _ => ?_
    cases digest S m hdr payload with
    | none => exact returns_pure.trans (and_iff_right fun hne => absurd rfl hne).symm
    | some d =>
      have hword : certLength m hdr < 2 ^ 32 := Lib.rd_lt m 4 (hdr + 32)
      have := h.layout_le
      have := h.offset_le
      dsimp only
      rw [touch_inside (h.inside (by decide)), difference_bind, forall_prop_of_true (fun hnone => nomatch hnone)]
      refine and_congr_right fun hlength => ?_
      have hmod : (certLength m hdr + 2 ^ 64 - 24) % 2 ^ 64 = certLength m hdr - 24 := by omega
      rw [touch_inside (h.inside (by omega)), hmod]
      exact returns_pure

/-- The key of a root certificate is in the buffer, and another one's. -/
structure RootPassed (S : Services Digest) (m : Mem) (capsule hdr p : Nat) : Prop where
  before : p < hdr + 32 + certLength m hdr
  key : InBuffer capsule (p + 16) 256
  there : m (p + 16) ≠ 0
  other : S.verifyKey (peek m (p + 16) 256) = false

/-- The walk over the root certificates ends: behind the certificate, or with one that is in the buffer as
far as it is looked at. -/
def RootEnds (S : Services Digest) (m : Mem) (capsule hdr p : Nat) : Prop :=
  hdr + 32 + certLength m hdr ≤ p ∨ InBuffer capsule (p + 16) 1 ∧ (m (p + 16) = 0 ∨
    InBuffer capsule (p + 16) 256 ∧ S.verifyKey (peek m (p + 16) 256) = true ∧
      (S.sha256 (signerBytes m hdr) ≠ none → InBuffer capsule (p + 272) 256))

theorem InBuffer.first (h : InBuffer capsule p 256) : InBuffer capsule p 1 := ⟨h.1, by have := h.2; omega⟩

theorem signer_inside (h : Placed m capsule hdr payload) {β : Type} {x : β} {f : Unit → Lib.Run β} :
    (touchSigner m capsule hdr >>= f).Returns x ↔ (f ()).Returns x := by
  unfold touchSigner
  split
  · exact touch_inside (h.inside (by decide))
  · exact touch_inside (h.inside (by decide))

/-- Whether the root certificate that the walk ends with has signed the key of the capsule. -/
def rootVerdict (S : Services Digest) (m : Mem) (hdr p : Nat) : Bool :=
  p < hdr + 32 + certLength m hdr && m (p + 16) ≠ 0 &&
    (S.sha256 (signerBytes m hdr)).any fun d =>
      S.pkcs1Verify (pssPadding m hdr) (peek m (p + 16) 256) d (peek m (p + 272) 256)

theorem rootRound_returns (h : Placed m capsule hdr payload) {next : Next Nat Bool} :
    (rootRound S m capsule hdr p).Returns next ↔
      (RootPassed S m capsule hdr p ∧ .again (p + 528) = next) ∨
      (RootEnds S m capsule hdr p ∧ .done (rootVerdict S m hdr p) = next) := by
  unfold rootRound RootEnds rootVerdict
  rw [touch_inside (h.inside (by decide))]
  by_cases hend : hdr + 32 + certLength m hdr ≤ p
  · have hnot : ¬ RootPassed S m capsule hdr p := fun hp => Nat.not_lt.mpr hend hp.before
    rw [if_pos hend, decide_eq_false (Nat.not_lt.mpr hend), returns_pure, or_iff_right (fun hp => hnot hp.1)]
    exact (and_iff_right (Or.inl hend)).symm
  rw [if_neg hend, decide_eq_true (Nat.not_le.mp hend), Bool.true_and, touch_bind, or_iff_right hend]
  by_cases hthere : m (p + 16) = 0
  · have hnot : ¬ RootPassed S m capsule hdr p := fun hp => hp.there hthere
    rw [if_pos hthere, decide_eq_false (fun hne => hne hthere), returns_pure, or_iff_right (fun hp => hnot hp.1)]
    exact and_congr_left fun _ => (and_iff_left (Or.inl hthere)).symm
  rw [if_neg hthere, decide_eq_true hthere, Bool.true_and, touch_bind, or_iff_right hthere]
  cases hkey : S.verifyKey (peek m (p + 16) 256) with
  | false =>
    rw [Bool.not_false, if_pos rfl, returns_pure]
    constructor
    · intro ⟨_, hin, hnext⟩
      exact Or.inl ⟨⟨Nat.not_le.mp hend, hin, hthere, hkey⟩, hnext⟩
    · intro hor
      rcases hor with ⟨hp, hnext⟩ | ⟨⟨_, _, hfalse, _⟩, _⟩
      · exact ⟨hp.key.first, hp.key, hnext⟩
      · cases hfalse
  | true =>
    have hnot : ¬ RootPassed S m capsule hdr p := fun hp => Bool.false_ne_true (hp.other.symm.trans hkey)
    rw [Bool.not_true, if_neg Bool.false_ne_true, signer_inside h, or_iff_right (fun hp => hnot hp.1)]
    cases hsigner : S.sha256 (signerBytes m hdr) with
    | none =>
      dsimp only
      rw [returns_pure]
      constructor
      · intro ⟨hfirst, hin, hnext⟩
        exact ⟨⟨hfirst, hin, rfl, fun hne => absurd rfl hne⟩, hnext⟩
      · intro ⟨⟨hfirst, hin, _⟩, hnext⟩
        exact ⟨hfirst, hin, hnext⟩
    | some d =>
      dsimp only
      rw [touch_bind, returns_pure]
      constructor
      · intro ⟨hfirst, hin, hsignature, hnext⟩
        exact ⟨⟨hfirst, hin, rfl, fun _ => hsignature⟩, hnext⟩
      · intro ⟨⟨hfirst, hin, _, hsignature⟩, hnext⟩
        exact ⟨hfirst, hin, hsignature (fun hnone => nomatch hnone), hnext⟩

/-- The walk over the root certificates ends, with all that it looks at in the buffer. -/
def RootsInside (S : Services Digest) (m : Mem) (capsule hdr : Nat) : Prop :=
  ∃ n, (∀ k < n, RootPassed S m capsule hdr (hdr + 584 + 528 * k)) ∧ RootEnds S m capsule hdr (hdr + 584 + 528 * n)

theorem rootLoop_inside (h : Placed m capsule hdr payload) :
    (∃ r, (Lib.Run.loop (rootRound S m capsule hdr) (hdr + 584)).Returns r) ↔ RootsInside S m capsule hdr := by
  have hnext : ∀ k s', (rootRound S m capsule hdr (hdr + 584 + 528 * k)).Returns (.again s') →
      s' = hdr + 584 + 528 * (k + 1) := by
    intro k s' hagain
    rcases (rootRound_returns h).mp hagain with ⟨_, hs⟩ | ⟨_, hs⟩
    · cases hs
      omega
    · cases hs
  have hagain : ∀ k, (rootRound S m capsule hdr (hdr + 584 + 528 * k)).Returns (.again (hdr + 584 + 528 * (k + 1))) ↔
      RootPassed S m capsule hdr (hdr + 584 + 528 * k) := by
    intro k
    refine (rootRound_returns h).trans ⟨fun hor => ?_, fun hp => Or.inl ⟨hp, ?_⟩⟩
    · rcases hor with ⟨hp, _⟩ | ⟨_, hs⟩
      · exact hp
      · cases hs
    · rw [Nat.mul_succ, ← Nat.add_assoc]
  have hdone : ∀ n, (∃ r, (rootRound S m capsule hdr (hdr + 584 + 528 * n)).Returns (.done r)) ↔
      RootEnds S m capsule hdr (hdr + 584 + 528 * n) := by
    intro n
    constructor
    · intro ⟨r, hr⟩
      rcases (rootRound_returns h).mp hr with ⟨_, hs⟩ | ⟨hends, _⟩
      · cases hs
      · exact hends
    · intro hends
      exact ⟨_, (rootRound_returns h).mpr (Or.inr ⟨hends, rfl⟩)⟩
  have hloop := fun r => Lib.Run.returns_loop_at (r := r) hnext
  simp only [hagain] at hloop
  rw [Nat.mul_zero, Nat.add_zero] at hloop
  simp only [hloop]
  constructor
  · intro ⟨r, n, hall, hr⟩
    exact ⟨n, hall, (hdone n).mp ⟨r, hr⟩⟩
  · intro ⟨n, hall, hends⟩
    obtain ⟨r, hr⟩ := (hdone n).mpr hends
    exact ⟨r, n, hall, hr⟩

/-- The verdict of the walk. -/
theorem rootLoop_verdict (h : Placed m capsule hdr payload) (hp : hdr + 32 + certLength m hdr ≤ p + n)
    (hloop : (Lib.Run.loop (rootRound S m capsule hdr) p).Returns b) : rootCertVerifies S m hdr n p = b := by
  refine loop_induction (P := fun p b => ∀ n, hdr + 32 + certLength m hdr ≤ p + n →
    rootCertVerifies S m hdr n p = b) ?_ ?_ hloop n hp
  · intro p b hdone n hn
    rcases (rootRound_returns h).mp hdone with ⟨_, hs⟩ | ⟨hends, hb⟩
    · cases hs
    cases hb
    unfold rootVerdict
    cases n with
    | zero =>
      rw [decide_eq_false (by omega)]
      rfl
    | succ n =>
      unfold rootCertVerifies
      by_cases hcert : p < hdr + 32 + certLength m hdr ∧ m (p + 16) ≠ 0
      · have hkey : S.verifyKey (peek m (p + 16) 256) = true :=
          ((hends.resolve_left (Nat.not_le.mpr hcert.1)).2.resolve_left hcert.2).2.1
        rw [if_pos hcert, if_pos hkey, decide_eq_true hcert.1, decide_eq_true hcert.2]
        rfl
      · rw [if_neg hcert]
        by_cases hlt : p < hdr + 32 + certLength m hdr
        · rw [decide_eq_true hlt, decide_eq_false (fun hne => hcert ⟨hlt, hne⟩)]
          rfl
        · rw [decide_eq_false hlt]
          rfl
  · intro p p' b hagain ih n hn
    rcases (rootRound_returns h).mp hagain with ⟨hpassed, hs⟩ | ⟨_, hs⟩
    · cases hs
      cases n with
      | zero => exact absurd hpassed.before (by omega)
      | succ n =>
        rw [rootCertVerifies, if_pos ⟨hpassed.before, hpassed.there⟩, hpassed.other, if_neg Bool.false_ne_true]
        exact ih n (by omega)
    · cases hs

/-- The key of the capsule is the platform's, or a root certificate has signed it. -/
def trusted (S : Services Digest) (m : Mem) (hdr : Nat) : Bool :=
  S.verifyKey (peek m (hdr + 72) 256) || rootCertVerifies S m hdr (certLength m hdr) (hdr + 584)

def RsaSafe (S : Services Digest) (m : Mem) (capsule hdr : Nat) : Prop :=
  (S.verifyKey (peek m (hdr + 72) 256) = false → RootsInside S m capsule hdr) ∧
    (trusted S m hdr = true → HashSafe m capsule hdr)

theorem verifyRootKey_returns (h : Placed m capsule hdr payload) : (verifyRootKey S m capsule hdr).Returns b ↔
    (S.verifyKey (peek m (hdr + 72) 256) = false → RootsInside S m capsule hdr) ∧ trusted S m hdr = b := by
  unfold verifyRootKey trusted
  cases S.verifyKey (peek m (hdr + 72) 256) with
  | true =>
    rw [if_pos rfl, Bool.true_or, returns_pure]
    exact (and_iff_right fun hfalse => nomatch hfalse).symm
  | false =>
    rw [if_neg Bool.false_ne_true, Bool.false_or, forall_prop_of_true rfl, ← rootLoop_inside h]
    constructor
    · intro hloop
      exact ⟨⟨b, hloop⟩, rootLoop_verdict h (by omega) hloop⟩
    · intro ⟨⟨r, hloop⟩, hb⟩
      rw [← hb, rootLoop_verdict h (by omega) hloop]
      exact hloop

theorem verifyFwCertRsa2048Sha256_returns (h : Placed m capsule hdr payload) (tbl : HashTbl Digest) :
    (verifyFwCertRsa2048Sha256 S m capsule hdr payload (romSize m hdr)).Returns b ↔
      RsaSafe S m capsule hdr ∧ (SecureFlash.verifyFwCertRsa2048Sha256 S m hdr payload tbl).1 = b := by
  have htrusted : (S.verifyKey (peek m (hdr + 72) 256) || rootCertVerifies S m hdr (certLength m hdr) (hdr + 584)) =
      trusted S m hdr := rfl
  unfold verifyFwCertRsa2048Sha256 SecureFlash.verifyFwCertRsa2048Sha256 RsaSafe
  rw [touch_inside (h.inside (by decide)), touch_inside (h.inside (by decide)), returns_bind, htrusted]
  simp only [verifyRootKey_returns h, and_assoc, exists_and_left, exists_eq_left']
  refine and_congr_right fun _ => ?_
  cases trusted S m hdr with
  | false =>
    rw [Bool.not_false, if_pos rfl, if_neg Bool.false_ne_true, returns_pure]
    exact (and_iff_right fun hfalse => nomatch hfalse).symm
  | true =>
    rw [Bool.not_true, if_neg Bool.false_ne_true, if_pos rfl, forall_prop_of_true rfl, returns_bind, digest_eq]
    simp only [hashFwRomMapImage_returns h, and_assoc, exists_and_left, exists_eq_left']
    refine and_congr_right fun _ => ?_
    cases digest S m hdr payload with
    | none => exact returns_pure
    | some d => exact (touch_inside (h.inside (by decide))).trans returns_pure

/-! ## The revision -/

/-- As much of a `FID_SECTION` is in the buffer as is looked at. -/
def SectionInside (m : Mem) (capsule p : Nat) : Prop :=
  InBuffer capsule p 16 ∧ (guidAt m p fidSectionGuid = true → InBuffer capsule (p + 16) 4)

theorem sectionAt_returns : (sectionAt m capsule p).Returns b ↔ SectionInside m capsule p ∧ fidSectionAt m p = b := by
  unfold sectionAt SectionInside fidSectionAt
  rw [touch_bind, and_assoc]
  refine and_congr_right fun _ => ?_
  cases guidAt m p fidSectionGuid with
  | false =>
    rw [Bool.not_false, if_pos rfl, Bool.false_and, returns_pure]
    exact (and_iff_right fun hfalse => nomatch hfalse).symm
  | true =>
    rw [Bool.not_true, if_neg Bool.false_ne_true, touch_bind, returns_pure, forall_prop_of_true rfl, Bool.true_and]

/-- The search of an area stays in the buffer, up to the section it finds. -/
def SearchInside (m : Mem) (capsule p size : Nat) : Prop :=
  ∀ q, p ≤ q → q ≤ p + size → (∀ q', p ≤ q' → q' < q → fidSectionAt m q' = false) → SectionInside m capsule q

theorem searchInside_iff : SearchInside m capsule p n ↔ SectionInside m capsule p ∧
    (fidSectionAt m p = false → ∀ k, n = k + 1 → SearchInside m capsule (p + 1) k) := by
  constructor
  · intro h
    refine ⟨h p (Nat.le_refl p) (Nat.le_add_right p n) fun q' h1 h2 => absurd h1 (Nat.not_le.mpr h2), fun hp k hk q h1 h2 hq => ?_⟩
    refine h q (by omega) (by omega) fun q' h3 h4 => ?_
    rcases Nat.eq_or_lt_of_le h3 with rfl | hlt
    · exact hp
    · exact hq q' hlt h4
  · intro ⟨hp, hrest⟩ q h1 h2 hq
    rcases Nat.eq_or_lt_of_le h1 with rfl | hlt
    · exact hp
    · exact hrest (hq p (Nat.le_refl p) hlt) (n - 1) (by omega) q hlt (by omega) fun q' h3 h4 => hq q' (by omega) h4

theorem fidRound_returns {last : Nat} {next : Next Nat (Option Nat)} : (fidRound m capsule last p).Returns next ↔
    SectionInside m capsule p ∧ (if fidSectionAt m p then .done (some (p + 16))
      else if p < last then .again (p + 1) else .done none) = next := by
  unfold fidRound
  rw [returns_bind]
  simp only [sectionAt_returns, and_assoc, exists_and_left, exists_eq_left']
  refine and_congr_right fun _ => ?_
  split
  · exact returns_pure
  · split <;> exact returns_pure

variable {r : Option Nat} {s : Nat × Int32} {romData N : Nat}

theorem fidLoop_returns : (Lib.Run.loop (fidRound m capsule (p + n)) p).Returns r ↔
    SearchInside m capsule p n ∧ SecureFlash.getFidData m p n = r := by
  induction n generalizing p with
  | zero =>
    rw [returns_loop, searchInside_iff]
    simp only [fidRound_returns, and_assoc, exists_and_left]
    rw [← and_or_left]
    refine and_congr_right fun _ => ?_
    unfold SecureFlash.getFidData
    cases fidSectionAt m p <;> simp
  | succ n ih =>
    have hlast : p + 1 + n = p + (n + 1) := by omega
    rw [returns_loop, searchInside_iff]
    simp only [fidRound_returns, and_assoc, exists_and_left]
    rw [← and_or_left]
    refine and_congr_right fun _ => ?_
    unfold SecureFlash.getFidData
    rw [if_pos (Nat.lt_add_of_pos_right (Nat.succ_pos n))]
    cases fidSectionAt m p with
    | true => simp
    | false =>
      have hrest := ih (p := p + 1)
      rw [hlast] at hrest
      simp [hrest]

/-! Numbers -/

def isDigit (b : UInt8) : Prop := 48 ≤ b ∧ b ≤ 57

instance (b : UInt8) : Decidable (isDigit b) := inferInstanceAs (Decidable (_ ∧ _))

/-- A number ends in the buffer. -/
def NumberInside (m : Mem) (capsule p : Nat) : Prop :=
  ∃ n, (∀ k ≤ n, InBuffer capsule (p + k) 1) ∧ ¬ isDigit (m (p + n))

theorem numberInside_iff : NumberInside m capsule p ↔
    InBuffer capsule p 1 ∧ (isDigit (m p) → NumberInside m capsule (p + 1)) := by
  constructor
  · intro ⟨n, hall, hend⟩
    refine ⟨hall 0 (Nat.zero_le n), fun hdigit => ?_⟩
    cases n with
    | zero => exact absurd hdigit hend
    | succ n =>
      have hassoc : ∀ k, p + 1 + k = p + (k + 1) := by
        intro k
        omega
      refine ⟨n, fun k hk => ?_, ?_⟩
      · rw [hassoc]
        exact hall (k + 1) (by omega)
      · rw [hassoc]
        exact hend
  · intro ⟨hp, hrest⟩
    by_cases hdigit : isDigit (m p)
    · obtain ⟨n, hall, hend⟩ := hrest hdigit
      have hassoc : ∀ k, p + 1 + k = p + (k + 1) := by
        intro k
        omega
      refine ⟨n + 1, fun k hk => ?_, hassoc n ▸ hend⟩
      cases k with
      | zero => exact hp
      | succ k => exact hassoc k ▸ hall k (by omega)
    · exact ⟨0, fun k hk => by rwa [Nat.le_zero.mp hk], hdigit⟩

theorem atoiRound_digit (h : isDigit (m s.1)) :
    atoiRound m s = pure (.again (s.1 + 1, s.2 * 10 + Int32.ofNat ((m s.1).toNat - 48))) := if_pos h

theorem atoiRound_end (h : ¬ isDigit (m s.1)) : atoiRound m s = pure (.done s.2) := if_neg h

theorem digitRound_again {s' : Nat × Int32} : (digitRound m capsule s).Returns (.again s') ↔
    InBuffer capsule s.1 1 ∧ isDigit (m s.1) ∧ (atoiRound m s).Returns (.again s') := by
  unfold digitRound
  rw [touch_bind]
  refine and_congr_right fun _ => ?_
  by_cases hdigit : isDigit (m s.1)
  · exact (and_iff_right hdigit).symm
  · rw [atoiRound_end hdigit]
    exact iff_of_false (fun h => nomatch returns_pure.mp h) fun h => hdigit h.1

theorem digitRound_done {r : Int32} : (digitRound m capsule s).Returns (.done r) ↔
    InBuffer capsule s.1 1 ∧ ¬ isDigit (m s.1) ∧ (atoiRound m s).Returns (.done r) := by
  unfold digitRound
  rw [touch_bind]
  refine and_congr_right fun _ => ?_
  by_cases hdigit : isDigit (m s.1)
  · rw [atoiRound_digit hdigit]
    exact iff_of_false (fun h => nomatch returns_pure.mp h) fun h => h.1 hdigit
  · exact (and_iff_right hdigit).symm

theorem atoi_returns {r : Int32} : (atoi m capsule p).Returns r ↔ NumberInside m capsule p ∧ (SecureFlash.atoi m p).Returns r := by
  constructor
  · intro h
    refine loop_induction
      (P := fun s r => NumberInside m capsule s.1 ∧ (Lib.Run.loop (atoiRound m) s).Returns r) ?_ ?_ h
    · intro s r hdone
      obtain ⟨hin, hend, hr⟩ := digitRound_done.mp hdone
      exact ⟨numberInside_iff.mpr ⟨hin, fun hdigit => absurd hdigit hend⟩, loop_done hr⟩
    · intro s s' r hagain ih
      obtain ⟨hin, hdigit, hs⟩ := digitRound_again.mp hagain
      have hs' : s'.1 = s.1 + 1 := by
        rw [atoiRound_digit hdigit] at hs
        cases returns_pure.mp hs
        rfl
      exact ⟨numberInside_iff.mpr ⟨hin, fun _ => hs' ▸ ih.1⟩, loop_again hs ih.2⟩
  · intro ⟨hin, h⟩
    refine loop_induction
      (P := fun s r => NumberInside m capsule s.1 → (Lib.Run.loop (digitRound m capsule) s).Returns r) ?_ ?_ h hin
    · intro s r hdone hin
      have hend : ¬ isDigit (m s.1) := by
        intro hdigit
        rw [atoiRound_digit hdigit] at hdone
        cases returns_pure.mp hdone
      exact loop_done (digitRound_done.mpr ⟨(numberInside_iff.mp hin).1, hend, hdone⟩)
    · intro s s' r hagain ih hin
      have hstep : isDigit (m s.1) ∧ s'.1 = s.1 + 1 := by
        by_cases hdigit : isDigit (m s.1)
        · rw [atoiRound_digit hdigit] at hagain
          cases returns_pure.mp hagain
          exact ⟨hdigit, rfl⟩
        · rw [atoiRound_end hdigit] at hagain
          cases returns_pure.mp hagain
      obtain ⟨hfirst, hrest⟩ := numberInside_iff.mp hin
      exact loop_again (digitRound_again.mpr ⟨hfirst, hstep.1, hagain⟩) (ih (hstep.2 ▸ hrest hstep.1))

/-- A number that ends is read. -/
theorem NumberInside.returns (h : NumberInside m capsule p) : ∃ v, (SecureFlash.atoi m p).Returns v := by
  obtain ⟨n, -, hend⟩ := h
  have hloop : ∀ v, ∃ r, (Lib.Run.loop (atoiRound m) (p, v)).Returns r := by
    induction n generalizing p with
    | zero =>
      intro v
      refine ⟨v, loop_done ?_⟩
      rw [atoiRound_end hend]
      exact returns_pure.mpr rfl
    | succ n ih =>
      intro v
      by_cases hdigit : isDigit (m p)
      · obtain ⟨r, hr⟩ := ih (p := p + 1) (by rwa [show p + 1 + n = p + (n + 1) by omega])
          (v * 10 + Int32.ofNat ((m p).toNat - 48))
        refine ⟨r, loop_again ?_ hr⟩
        rw [atoiRound_digit hdigit]
        exact returns_pure.mpr rfl
      · refine ⟨v, loop_done ?_⟩
        rw [atoiRound_end hdigit]
        exact returns_pure.mpr rfl
  exact hloop 0

/-- Of a `FW_VERSION`, what is looked at is in the buffer: the tag, and if it matches the numbers, the
second unless the first is too small. -/
def ProjectInside (project : Project) (m : Mem) (capsule fid : Nat) : Prop :=
  InBuffer capsule (biosTag fid) project.tag.length ∧ (tagMatches project m fid = true →
    NumberInside m capsule (projectMajorVersion fid) ∧
    ∀ major, (SecureFlash.atoi m (projectMajorVersion fid)).Returns major → ¬ major < project.majorVersion →
      NumberInside m capsule (projectMinorVersion fid))

theorem verifyProjectId_inside {fid : Nat} :
    (∃ r, (verifyProjectId project m capsule fid).Returns r) ↔ ProjectInside project m capsule fid := by
  unfold verifyProjectId ProjectInside
  simp only [touch_bind, exists_and_left]
  refine and_congr_right fun _ => ?_
  cases tagMatches project m fid with
  | false =>
    rw [Bool.not_false, if_pos rfl]
    exact iff_of_true ⟨false, returns_pure.mpr rfl⟩ fun hfalse => nomatch hfalse
  | true =>
    rw [Bool.not_true, if_neg Bool.false_ne_true, forall_prop_of_true rfl]
    constructor
    · intro ⟨r, hr⟩
      obtain ⟨major, hmajor, hrest⟩ := returns_bind.mp hr
      obtain ⟨hin, hvalue⟩ := atoi_returns.mp hmajor
      refine ⟨hin, fun major' hmajor' hlarge => ?_⟩
      cases hvalue.unique hmajor'
      rw [if_neg hlarge] at hrest
      obtain ⟨minor, hminor, -⟩ := returns_bind.mp hrest
      exact (atoi_returns.mp hminor).1
    · intro ⟨hin, hminor⟩
      obtain ⟨major, hmajor⟩ := hin.returns
      by_cases hsmall : major < project.majorVersion
      · refine ⟨false, (atoi_returns.mpr ⟨hin, hmajor⟩).bind ?_⟩
        rw [if_pos hsmall]
        exact returns_pure.mpr rfl
      · have hin' := hminor major hmajor hsmall
        obtain ⟨minor, hminor'⟩ := hin'.returns
        refine ⟨if minor < project.minorVersion then false else true, (atoi_returns.mpr ⟨hin, hmajor⟩).bind ?_⟩
        rw [if_neg hsmall]
        refine (atoi_returns.mpr ⟨hin', hminor'⟩).bind ?_
        split <;> exact returns_pure.mpr rfl

/-! The walk over the table -/

/-- An entry that the walk passes: it is in the buffer, and so is its area if that is searched, without a
section. -/
structure EntryPassed (m : Mem) (capsule romData p : Nat) : Prop where
  inside : InBuffer capsule (p + 12) 12
  nonempty : (romAreaAt m p).size ≠ 0
  search : (romAreaAt m p).judged = true → InBuffer capsule (p + 8) 4 ∧
    SearchInside m capsule (romData + (romAreaAt m p).offset) (romAreaAt m p).size ∧
    SecureFlash.getFidData m (romData + (romAreaAt m p).offset) (romAreaAt m p).size = none

/-- The walk ends: at an entry without a size, or with the first section. -/
def EntryEnds (project : Project) (m : Mem) (capsule romData p : Nat) : Prop :=
  InBuffer capsule (p + 12) 4 ∧ ((romAreaAt m p).size = 0 ∨ InBuffer capsule (p + 8) 16 ∧ (romAreaAt m p).judged = true ∧
    SearchInside m capsule (romData + (romAreaAt m p).offset) (romAreaAt m p).size ∧
    ∃ fid, SecureFlash.getFidData m (romData + (romAreaAt m p).offset) (romAreaAt m p).size = some fid ∧
      ProjectInside project m capsule fid)

theorem getFidData_returns {size : Nat} : (getFidData m capsule p size).Returns r ↔
    SearchInside m capsule p size ∧ SecureFlash.getFidData m p size = r := fidLoop_returns

theorem revisionRound_again {p' : Nat} : (revisionRound project m capsule romData p).Returns (.again p') ↔
    EntryPassed m capsule romData p ∧ p + 24 = p' := by
  unfold revisionRound
  dsimp only
  constructor
  · intro h
    obtain ⟨hsizeIn, h⟩ := touch_bind.mp h
    split at h
    · cases returns_pure.mp h
    rename_i hsize
    obtain ⟨hattributesIn, h⟩ := touch_bind.mp h
    have hin : InBuffer capsule (p + 12) 12 := ⟨hsizeIn.1, by have := hattributesIn.2; omega⟩
    split at h
    · rename_i hjudged
      cases returns_pure.mp h
      refine ⟨⟨hin, hsize, fun hj => ?_⟩, rfl⟩
      rw [hj] at hjudged
      cases hjudged
    obtain ⟨hoffsetIn, h⟩ := touch_bind.mp h
    obtain ⟨found, hfound, h⟩ := returns_bind.mp h
    obtain ⟨hsearch, hvalue⟩ := getFidData_returns.mp hfound
    cases found with
    | none =>
      cases returns_pure.mp h
      exact ⟨⟨hin, hsize, fun _ => ⟨hoffsetIn, hsearch, hvalue⟩⟩, rfl⟩
    | some fid =>
      obtain ⟨verified, -, hpure⟩ := returns_bind.mp h
      cases returns_pure.mp hpure
  · intro ⟨⟨hin, hsize, hsearch⟩, hp'⟩
    refine touch_bind.mpr ⟨⟨hin.1, by have := hin.2; omega⟩, ?_⟩
    rw [if_neg hsize]
    refine touch_bind.mpr ⟨⟨by have := hin.1; omega, by have := hin.2; omega⟩, ?_⟩
    cases hjudged : (romAreaAt m p).judged with
    | false => exact returns_pure.mpr (congrArg Next.again hp')
    | true =>
      obtain ⟨hoffsetIn, hsearch, hvalue⟩ := hsearch hjudged
      rw [Bool.not_true, if_neg Bool.false_ne_true]
      refine touch_bind.mpr ⟨hoffsetIn, (getFidData_returns.mpr ⟨hsearch, hvalue⟩).bind ?_⟩
      exact returns_pure.mpr (congrArg Next.again hp')

theorem revisionRound_done : (∃ r, (revisionRound project m capsule romData p).Returns (.done r)) ↔
    EntryEnds project m capsule romData p := by
  unfold revisionRound EntryEnds
  simp only [touch_bind, exists_and_left]
  refine and_congr_right fun hsizeIn => ?_
  by_cases hsize : (romAreaAt m p).size = 0
  · rw [if_pos hsize]
    exact iff_of_true ⟨false, returns_pure.mpr rfl⟩ (Or.inl hsize)
  rw [if_neg hsize, or_iff_right hsize]
  constructor
  · intro ⟨r, h⟩
    obtain ⟨hattributesIn, h⟩ := touch_bind.mp h
    cases hjudged : (romAreaAt m p).judged with
    | false =>
      rw [hjudged, Bool.not_false, if_pos rfl] at h
      cases returns_pure.mp h
    | true =>
      rw [hjudged, Bool.not_true, if_neg Bool.false_ne_true] at h
      obtain ⟨hoffsetIn, h⟩ := touch_bind.mp h
      obtain ⟨found, hfound, h⟩ := returns_bind.mp h
      obtain ⟨hsearch, hvalue⟩ := getFidData_returns.mp hfound
      refine ⟨⟨hoffsetIn.1, by have := hattributesIn.2; omega⟩, rfl, hsearch, ?_⟩
      cases found with
      | none => cases returns_pure.mp h
      | some fid =>
        obtain ⟨verified, hverified, -⟩ := returns_bind.mp h
        exact ⟨fid, hvalue, verifyProjectId_inside.mp ⟨verified, hverified⟩⟩
  · intro ⟨hin, hjudged, hsearch, fid, hvalue, hproject⟩
    obtain ⟨verified, hverified⟩ := verifyProjectId_inside.mpr hproject
    have := hin.1
    have := hin.2
    refine ⟨verified, touch_bind.mpr ⟨⟨by omega, by omega⟩, ?_⟩⟩
    rw [hjudged, Bool.not_true, if_neg Bool.false_ne_true]
    refine touch_bind.mpr ⟨⟨by omega, by omega⟩, (getFidData_returns.mpr ⟨hsearch, hvalue⟩).bind ?_⟩
    exact hverified.bind (returns_pure.mpr rfl)

/-- The walk over the table ends, with all that it looks at in the buffer. -/
def RevisionInside (project : Project) (m : Mem) (capsule hdr payload : Nat) : Prop :=
  ∃ n, (∀ k < n, EntryPassed m capsule payload (entryAt m hdr k)) ∧ EntryEnds project m capsule payload (entryAt m hdr n)

theorem verifyFwRevision_inside : (∃ r, (verifyFwRevision project m capsule hdr payload).Returns r) ↔
    RevisionInside project m capsule hdr payload := by
  have hnext : ∀ k s', (revisionRound project m capsule payload (entryAt m hdr k)).Returns (.again s') →
      s' = entryAt m hdr (k + 1) := fun k s' h => by rw [entryAt_succ, (revisionRound_again.mp h).2]
  have hagain : ∀ k, (revisionRound project m capsule payload (entryAt m hdr k)).Returns (.again (entryAt m hdr (k + 1))) ↔
      EntryPassed m capsule payload (entryAt m hdr k) :=
    fun k => revisionRound_again.trans (and_iff_left (entryAt_succ m hdr k).symm)
  have hloop := fun r => Lib.Run.returns_loop_at (r := r) hnext
  simp only [hagain] at hloop
  have hstart : verifyFwRevision project m capsule hdr payload =
      Lib.Run.loop (revisionRound project m capsule payload) (entryAt m hdr 0) := rfl
  rw [hstart]
  simp only [hloop]
  constructor
  · intro ⟨r, n, hall, hr⟩
    exact ⟨n, hall, revisionRound_done.mp ⟨r, hr⟩⟩
  · intro ⟨n, hall, hends⟩
    obtain ⟨r, hr⟩ := revisionRound_done.mpr hends
    exact ⟨r, n, hall, hr⟩

/-! ## `CapsuleValidate` -/

/-- The authentication is safe. -/
def CertSafe (S : Services Digest) (m : Mem) (capsule hdr payload : Nat) : Prop :=
  if guidAt m (hdr + 40) certPkcs7Guid then Pkcs7Safe S m capsule hdr payload else RsaSafe S m capsule hdr

/-- The authentication succeeds, whatever is in the table. -/
def certVerifies (S : Services Digest) (m : Mem) (hdr payload : Nat) : Bool :=
  (SecureFlash.verifyFwCert S m hdr payload fun _ => .other 0).1

theorem verifyFwCert_returns (h : Placed m capsule hdr payload) (hcert : certLength m hdr + 32 ≤ romLayoutOffset m hdr) :
    (verifyFwCert S m capsule hdr payload (romSize m hdr)).Returns b ↔
      CertSafe S m capsule hdr payload ∧ certVerifies S m hdr payload = b := by
  unfold verifyFwCert CertSafe certVerifies SecureFlash.verifyFwCert
  split
  · exact verifyFwCertPkcs7_returns h hcert _
  · exact verifyFwCertRsa2048Sha256_returns h _

/-- Where the header and the payload are: in front, or the header in the last file for it in the payload. -/
inductive HeaderAt (m : Mem) (capsule : Nat) : Nat → Nat → Prop
  | first (h : guidAt m capsule fwCapsuleGuid = true) : HeaderAt m capsule capsule (capsule + romImageOffset m capsule)
  | embedded {n : Nat} (h : guidAt m capsule fwCapsuleGuid = false) (hn : n ≤ (maxPayloadSize - 44) / 4)
      (hat : fwCapFfsAt m (capsule + 4 * n) = true)
      (hlast : ∀ k, n < k → k ≤ (maxPayloadSize - 44) / 4 → fwCapFfsAt m (capsule + 4 * k) = false) :
      HeaderAt m capsule (capsule + 4 * n + 44) capsule

/-- The lengths fit, and there is a key to authenticate with. -/
def authenticates (S : Services Digest) (m : Mem) (hdr : Nat) : Bool :=
  headerFits m hdr && (S.keyInSmram && S.key.take 4 ≠ badKey)

/-- Validation with this header is safe. -/
structure HeaderSafe (S : Services Digest) (project : Project) (m : Mem) (capsule hdr payload : Nat) : Prop where
  romSize : romImageOffset m hdr ≤ imageSize m hdr
  cert : authenticates S m hdr = true → CertSafe S m capsule hdr payload
  revision : authenticates S m hdr = true → certVerifies S m hdr payload = true → RevisionInside project m capsule hdr payload

theorem find_some (h : SecureFlash.findCapHdrFFS m capsule N = some hdr) :
    ∃ n ≤ N, hdr = capsule + 4 * n + 44 ∧ fwCapFfsAt m (capsule + 4 * n) = true ∧
      ∀ k, n < k → k ≤ N → fwCapFfsAt m (capsule + 4 * k) = false := by
  induction N with
  | zero =>
    unfold SecureFlash.findCapHdrFFS at h
    split at h
    · rename_i hat
      exact ⟨0, Nat.le_refl 0, (Option.some.inj h).symm, hat, fun k h1 h2 => by omega⟩
    · cases h
  | succ N ih =>
    unfold SecureFlash.findCapHdrFFS at h
    split at h
    · rename_i hat
      exact ⟨N + 1, Nat.le_refl _, (Option.some.inj h).symm, hat, fun k h1 h2 => by omega⟩
    · rename_i hat
      obtain ⟨n, hn, hhdr, hfound, hlast⟩ := ih h
      refine ⟨n, by omega, hhdr, hfound, fun k h1 h2 => ?_⟩
      rcases Nat.eq_or_lt_of_le h2 with rfl | hlt
      · exact Bool.eq_false_iff.mpr hat
      · exact hlast k h1 (by omega)

theorem find_none (h : SecureFlash.findCapHdrFFS m capsule N = none) :
    ∀ k ≤ N, fwCapFfsAt m (capsule + 4 * k) = false := by
  induction N with
  | zero =>
    unfold SecureFlash.findCapHdrFFS at h
    split at h
    · cases h
    · rename_i hat
      intro k hk
      rw [Nat.le_zero.mp hk]
      exact Bool.eq_false_iff.mpr hat
  | succ N ih =>
    unfold SecureFlash.findCapHdrFFS at h
    split at h
    · cases h
    · rename_i hat
      intro k hk
      rcases Nat.eq_or_lt_of_le hk with rfl | hlt
      · exact Bool.eq_false_iff.mpr hat
      · exact ih h k (by omega)

/-- The lengths that fit keep to the buffer. -/
theorem placed_of_fits (h : HeaderAt m capsule hdr payload) (hfits : headerFits m hdr = true)
    (hsize : romImageOffset m hdr ≤ imageSize m hdr) :
    Placed m capsule hdr payload ∧ certLength m hdr + 32 ≤ romLayoutOffset m hdr := by
  unfold headerFits at hfits
  simp only [Bool.and_eq_true, decide_eq_true_eq] at hfits
  obtain ⟨⟨⟨⟨⟨⟨⟨⟨hpayload, -⟩, -⟩, himage⟩, -⟩, -⟩, hoffset⟩, hlayout⟩, hcert⟩ := hfits
  have hword : imageSize m hdr < 2 ^ 32 := Lib.rd_lt m 4 (hdr + 24)
  have hrom : romSize m hdr = imageSize m hdr - romImageOffset m hdr := by
    unfold romSize
    omega
  have hmax := maxPayloadSize_eq
  have hbuffer := capsuleImageSize_eq
  cases h with
  | first => exact ⟨⟨Nat.le_refl _, by omega, by omega, hlayout, by omega, by omega⟩, hcert⟩
  | embedded _ hn => exact ⟨⟨by omega, by omega, by omega, hlayout, Nat.le_refl _, by omega⟩, hcert⟩

/-- A field of a header. -/
theorem HeaderAt.inside (h : HeaderAt m capsule hdr payload) {i : Nat} (hi : i + n ≤ 0x4000) :
    InBuffer capsule (hdr + i) n := by
  have hmax := maxPayloadSize_eq
  have hbuffer := capsuleImageSize_eq
  cases h with
  | first => exact ⟨by omega, by omega⟩
  | embedded _ hn => exact ⟨by omega, by omega⟩

theorem validateAt_safe (h : HeaderAt m capsule hdr payload) :
    (∃ b, (validateAt S project m capsule hdr payload).Returns b) ↔ HeaderSafe S project m capsule hdr payload := by
  unfold validateAt
  simp only [touch_inside (h.inside (show 16 + 24 ≤ 0x4000 by decide)), difference_bind, exists_and_left]
  by_cases hsize : romImageOffset m hdr ≤ imageSize m hdr
  swap
  · exact iff_of_false (fun hreturns => hsize hreturns.1) fun hsafe => hsize hsafe.romSize
  rw [and_iff_right hsize]
  cases hfits : headerFits m hdr with
  | false =>
    rw [Bool.not_false, if_pos rfl]
    have hnot : authenticates S m hdr ≠ true := by
      unfold authenticates
      rw [hfits, Bool.false_and]
      exact Bool.false_ne_true
    exact iff_of_true ⟨false, returns_pure.mpr rfl⟩ ⟨hsize, fun ht => absurd ht hnot, fun ht => absurd ht hnot⟩
  | true =>
    rw [Bool.not_true, if_neg Bool.false_ne_true]
    cases hkey : (S.keyInSmram && decide (S.key.take 4 ≠ badKey)) with
    | false =>
      rw [Bool.not_false, if_pos rfl]
      have hnot : authenticates S m hdr ≠ true := by
        unfold authenticates
        rw [hkey, Bool.and_false]
        exact Bool.false_ne_true
      exact iff_of_true ⟨false, returns_pure.mpr rfl⟩ ⟨hsize, fun ht => absurd ht hnot, fun ht => absurd ht hnot⟩
    | true =>
      rw [Bool.not_true, if_neg Bool.false_ne_true]
      have hauthenticates : authenticates S m hdr = true := by
        unfold authenticates
        rw [hfits, hkey, Bool.and_self]
      obtain ⟨hplaced, hcert⟩ := placed_of_fits h hfits hsize
      have hrom : imageSize m hdr - romImageOffset m hdr = romSize m hdr := by
        have hword : imageSize m hdr < 2 ^ 32 := Lib.rd_lt m 4 (hdr + 24)
        unfold romSize
        omega
      rw [hrom]
      simp only [touch_inside (h.inside (show 40 + 16 ≤ 0x4000 by decide)), returns_bind,
        verifyFwCert_returns hplaced hcert, and_assoc, exists_and_left, exists_eq_left']
      cases hverified : certVerifies S m hdr payload with
      | false =>
        rw [Bool.not_false, if_pos rfl]
        constructor
        · rintro ⟨hsafe, -⟩
          exact ⟨hsize, fun _ => hsafe, fun _ ht => absurd (hverified.symm.trans ht) Bool.false_ne_true⟩
        · intro hsafe
          exact ⟨hsafe.cert hauthenticates, false, returns_pure.mpr rfl⟩
      | true =>
        rw [Bool.not_true, if_neg Bool.false_ne_true, verifyFwRevision_inside]
        constructor
        · rintro ⟨hsafe, hrevision⟩
          exact ⟨hsize, fun _ => hsafe, fun _ _ => hrevision⟩
        · intro hsafe
          exact ⟨hsafe.cert hauthenticates, hsafe.revision hauthenticates hverified⟩

/-- Validation returns, with nothing touched outside, exactly if it is safe with the header that it finds. -/
theorem capsuleValidate_safe {Digest : Type} (S : Services Digest) (project : Project) (m : Mem) (capsule : Nat)
    (hmemory : capsule + capsuleImageSize ≤ 2 ^ 63) : (∃ b, (capsuleValidate S project m capsule).Returns b) ↔
      (capsule ≠ 0 → ∀ hdr payload, HeaderAt m capsule hdr payload → HeaderSafe S project m capsule hdr payload) := by
  have hbuffer := capsuleImageSize_eq
  unfold capsuleValidate
  by_cases hnull : capsule = 0
  · rw [if_pos hnull]
    exact iff_of_true ⟨false, returns_pure.mpr rfl⟩ fun hne => absurd hnull hne
  have hin : ∀ i n, i + n ≤ 32 → InBuffer capsule (capsule + i) n := fun i n hi => ⟨by omega, by omega⟩
  have hfirst : InBuffer capsule capsule 16 := hin 0 16 (by decide)
  rw [if_neg hnull, forall_prop_of_true hnull]
  simp only [touch_inside hfirst]
  cases hguid : guidAt m capsule fwCapsuleGuid with
  | true =>
    have hoffset : romImageOffset m capsule < 2 ^ 16 := Lib.rd_lt m 2 (capsule + 28)
    rw [if_pos rfl]
    simp only [touch_inside (hin 28 2 (by decide))]
    rw [if_neg (by omega), validateAt_safe (.first hguid)]
    constructor
    · intro hsafe hdr payload h
      cases h with
      | first => exact hsafe
      | embedded hnot => cases hguid.symm.trans hnot
    · intro h
      exact h _ _ (.first hguid)
  | false =>
    rw [if_neg Bool.false_ne_true]
    have hfind := findCapHdrFFS_returns m capsule
    cases hfound : SecureFlash.findCapHdrFFS m capsule ((maxPayloadSize - 44) / 4) with
    | none =>
      rw [hfound] at hfind
      refine iff_of_true ⟨false, hfind.bind (returns_pure.mpr rfl)⟩ fun hdr payload h => ?_
      cases h with
      | first h => cases hguid.symm.trans h
      | embedded _ hn hat => exact absurd (hat.symm.trans (find_none hfound _ hn)) (by decide)
    | some hdr =>
      rw [hfound] at hfind
      obtain ⟨n, hn, rfl, hat, hlast⟩ := find_some hfound
      have hheader : HeaderAt m capsule (capsule + 4 * n + 44) capsule := .embedded hguid hn hat hlast
      constructor
      · intro ⟨b, hb⟩ hdr payload h
        obtain ⟨found, hfound', hrest⟩ := returns_bind.mp hb
        cases hfound'.unique hfind
        have hsafe := (validateAt_safe hheader).mp ⟨b, hrest⟩
        cases h with
        | first h => cases hguid.symm.trans h
        | @embedded n' _ hn' hat' hlast' =>
          rcases Nat.lt_trichotomy n n' with hlt | rfl | hlt
          · cases hat'.symm.trans (hlast n' hlt hn')
          · exact hsafe
          · cases hat.symm.trans (hlast' n hlt hn)
      · intro h
        obtain ⟨b, hb⟩ := (validateAt_safe hheader).mpr (h _ _ hheader)
        exact ⟨b, hfind.bind hb⟩

/-- A capsule with one area, the version of which is in the buffer. -/
theorem capsuleValidate_safe_revision :
    ∃ b, (capsuleValidate crb.toServices crbProject (loaded revisionBytes 0x68).mem 0x1000).Returns b := by
  refine (capsuleValidate_safe crb.toServices crbProject _ 0x1000 (by decide)).mpr fun _ hdr payload h => ?_
  have hguid : guidAt (loaded revisionBytes 0x68).mem 0x1000 fwCapsuleGuid = true := by decide +kernel
  cases h with
  | embedded hnot => cases hguid.symm.trans hnot
  | first =>
    have hsection : fidSectionAt (loaded revisionBytes 0x68).mem 0x1068 = true := by decide +kernel
    have hkind : certPkcs7Guid ≠ peek (loaded revisionBytes 0x68).mem (0x1000 + 40) 16 := by decide +kernel
    refine ⟨by decide +kernel, fun _ => ?_, fun _ _ => ⟨0, fun k hk => absurd hk (Nat.not_lt_zero k), ?_⟩⟩
    · unfold CertSafe
      rw [if_neg (fun heq => hkind (of_decide_eq_true heq).symm)]
      refine ⟨fun hkey => absurd hkey (by decide), fun _ _ => ?_⟩
      unfold TableInside InBuffer
      decide +kernel
    · refine ⟨by decide +kernel, Or.inr ⟨by decide +kernel, by decide +kernel, fun q hle hend hfirst => ?_, 0x1078,
        by decide +kernel, by decide +kernel, fun _ => ⟨⟨1, ?_, by decide +kernel⟩, fun _ _ _ => ⟨1, ?_, by decide +kernel⟩⟩⟩⟩
      · have hstart : 0x1000 + romImageOffset (loaded revisionBytes 0x68).mem 0x1000 + (romAreaAt
            (loaded revisionBytes 0x68).mem (entryAt (loaded revisionBytes 0x68).mem 0x1000 0)).offset = 0x1068 := by
          decide +kernel
        rw [hstart] at hle hfirst
        rcases Nat.eq_or_lt_of_le hle with rfl | hlt
        · exact ⟨by decide, fun _ => by decide⟩
        · cases hsection.symm.trans (hfirst 0x1068 (Nat.le_refl _) hlt)
      · intro k hk
        show 0x1000 ≤ 0x1078 + 38 + k ∧ 0x1078 + 38 + k + 1 ≤ 0x1000 + 5259264
        omega
      · intro k hk
        show 0x1000 ≤ 0x1078 + 41 + k ∧ 0x1078 + 41 + k + 1 ≤ 0x1000 + 5259264
        omega

/-- A header with a certificate for PKCS #7, the length of which is 0, and a table without areas. -/
def shortCertBytes : Bytes :=
  fwCapsuleGuid ++ [0x50, 0, 0, 0, 0, 0, 0, 0, 0x50, 0, 0, 0, 0x50, 0, 0x38, 0] ++
    [0, 0, 0, 0, 0, 2, 0xF1, 0x0E] ++ certPkcs7Guid ++ List.replicate 24 0

theorem not_capsuleValidate_safe : ¬ ∀ (S : Services Bytes) (project : Project) (m : Mem) (capsule : Nat),
    capsule + capsuleImageSize ≤ 2 ^ 63 → ∃ b, (capsuleValidate S project m capsule).Returns b := by
  intro h
  have hsafe := (capsuleValidate_safe crb.toServices crbProject (loaded shortCertBytes 0x50).mem 0x1000 (by decide)).mp
    (h crb.toServices crbProject _ 0x1000 (by decide)) (by decide) _ _ (.first (by decide +kernel))
  have hcert := hsafe.cert (by decide +kernel)
  unfold CertSafe at hcert
  rw [if_pos (by decide +kernel)] at hcert
  exact absurd ((hcert (by decide)).2 (by decide +kernel)) (by decide +kernel)

end BayTrail.SecureFlash.Checked
