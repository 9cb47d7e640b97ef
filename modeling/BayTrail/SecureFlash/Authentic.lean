import BayTrail.SecureFlash.Update

/-!
# What reaches signed flash

A slot of the hash table is either a digest of a block of a capsule that has been validated, or it
matches nothing. `Kept` says so of every slot, and `Session` what else holds while there is a
capsule at `pFwCapsule`. Both hold in every run whose stray stores miss the data of the driver, and
what `BeforeSecureUpdate` lets through is then read off the slots it has looked at.
-/

namespace BayTrail.SecureFlash

open Lib (Bytes Mem peek poke)

variable {Digest : Type}

/-! ## Validated capsules -/

/-- The signature of a capsule has been verified for a digest. -/
def Capsule.SignedFor (S : Services Digest) (c : Capsule) (d : Digest) : Prop :=
  (∃ trust, trustCert S = some trust ∧ S.pkcs7Verify
    (peek c.mem (c.hdr + 56) ((certLength c.mem c.hdr + 2 ^ 64 - 24) % 2 ^ 64)) trust d = true) ∨
  S.pkcs1Verify (pssPadding c.mem c.hdr) (peek c.mem (c.hdr + 72) 256) d
    (peek c.mem (c.hdr + 328) 256) = true

/-- The signature of a capsule has been verified for ranges, every signed area among them. -/
structure Capsule.Verified (S : Services Digest) (c : Capsule) (chunks : List (Nat × Nat)) :
    Prop where
  signed : ∃ d, S.sha256 (gather c.mem chunks) = some d ∧ c.SignedFor S d
  areas : ∀ a ∈ signedAreas c.mem c.hdr, (c.payload + a.offset, a.size) ∈ chunks

/-- No slot has a new digest. -/
def Scribbled (tbl tbl' : HashTbl Digest) : Prop := ∀ k, tbl' k = tbl k ∨ ∃ w, tbl' k = .other w

theorem Scribbled.refl (tbl : HashTbl Digest) : Scribbled tbl tbl := fun _ => .inl rfl

section Validation

variable {S : Services Digest} {m : Mem} {hdr payload : Nat} {tbl : HashTbl Digest}

theorem scribbled_scratch (n : Nat) (chunks : List (Nat × Nat)) :
    Scribbled tbl (scratch S n chunks tbl) := by
  intro k
  unfold scratch
  split
  · exact .inr ⟨_, rfl⟩
  · exact .inl rfl

/-- The first address that is written goes over the first slot. -/
theorem scratch_zero {n : Nat} {chunks : List (Nat × Nat)} (hn : 0 < n) (hne : chunks ≠ []) :
    ∃ w, scratch S n chunks tbl 0 = .other w := by
  have hfirst : (scratchWord n chunks 0).isSome = true := by
    unfold scratchWord
    rw [if_pos hn]
    cases chunks with
    | nil => exact absurd rfl hne
    | cons c cs => rfl
  unfold scratch
  rw [if_pos]
  · exact ⟨_, rfl⟩
  · exact List.any_eq_true.mpr ⟨0, by decide, hfirst⟩

/-- What a verification leaves: nothing new in the table, and if it succeeds the ranges it is for
and something else than a digest in the first slot. -/
structure Checks (S : Services Digest) (m : Mem) (hdr payload : Nat) (tbl : HashTbl Digest)
    (r : Bool × HashTbl Digest) : Prop where
  scribbled : Scribbled tbl r.2
  verified : r.1 = true → (∃ chunks, (⟨m, hdr, payload⟩ : Capsule).Verified S chunks) ∧
    ∃ w, r.2 0 = .other w

/-- A test of the digest of `HashFwRomMapImage` is a verification if the test is one of the
signature. -/
theorem checks_hash {test : Digest → Bool}
    (htest : ∀ d, test d = true → (⟨m, hdr, payload⟩ : Capsule).SignedFor S d) :
    Checks S m hdr payload tbl ((hashFwRomMapImage S m hdr payload tbl).1.any test,
      (hashFwRomMapImage S m hdr payload tbl).2) := by
  unfold hashFwRomMapImage
  dsimp only
  split
  · exact ⟨scribbled_scratch _ _, fun h => absurd h Bool.false_ne_true⟩
  · rename_i hlen
    refine ⟨scribbled_scratch _ _, fun h => ?_⟩
    obtain ⟨d, hd, htrue⟩ := (Option.any_eq_true _ _).mp h
    refine ⟨⟨_, ⟨d, hd, htest d htrue⟩, fun a ha => ?_⟩, scratch_zero (Nat.succ_pos _) (by simp)⟩
    -- no area is left out, since all of them lie inside the image
    have hall : (signedAreas m hdr).takeWhile (fun a => a.offset + a.size ≤ romSize m hdr) =
        signedAreas m hdr :=
      (List.takeWhile_prefix _).eq_of_length
        (Nat.le_antisymm (List.takeWhile_prefix _).length_le (Nat.le_of_not_lt hlen))
    rw [hall]
    exact List.mem_append_left _ (List.mem_append_left _
      (List.mem_map_of_mem (f := fun a : RomArea => (payload + a.offset, a.size)) ha))

theorem checks_pkcs7 : Checks S m hdr payload tbl (verifyFwCertPkcs7 S m hdr payload tbl) := by
  unfold verifyFwCertPkcs7
  cases htrust : trustCert S with
  | none => exact ⟨Scribbled.refl _, fun h => absurd h Bool.false_ne_true⟩
  | some trust => exact checks_hash fun d hd => .inl ⟨trust, htrust, hd⟩

theorem checks_rsa : Checks S m hdr payload tbl (verifyFwCertRsa2048Sha256 S m hdr payload tbl) := by
  unfold verifyFwCertRsa2048Sha256
  split
  · exact checks_hash fun d hd => .inr hd
  · exact ⟨Scribbled.refl _, fun h => absurd h Bool.false_ne_true⟩

theorem checks_verifyFwCert : Checks S m hdr payload tbl (verifyFwCert S m hdr payload tbl) := by
  unfold verifyFwCert
  split
  · exact checks_pkcs7
  · exact checks_rsa

theorem capsuleValidate_none {p : Nat} (h : p = 0 ∨ locate m p = none) :
    capsuleValidate S m p tbl = (none, tbl) := by
  unfold capsuleValidate
  by_cases hp : p = 0
  · rw [if_pos hp]
  · rw [if_neg hp, h.resolve_left hp]

theorem capsuleValidate_some {p : Nat} (hp : p ≠ 0) (h : locate m p = some (hdr, payload)) :
    capsuleValidate S m p tbl =
      if headerFits m hdr && S.keyInSmram && S.key.take 4 ≠ badKey then
        (if (verifyFwCert S m hdr payload tbl).1 then some ⟨m, hdr, payload⟩ else none,
          (verifyFwCert S m hdr payload tbl).2)
      else (none, tbl) := by
  unfold capsuleValidate
  rw [if_neg hp, h]

/-- What `CapsuleValidate` leaves. -/
structure Validates (S : Services Digest) (m : Mem) (tbl : HashTbl Digest)
    (r : Option Capsule × HashTbl Digest) : Prop where
  scribbled : Scribbled tbl r.2
  accepted : ∀ c, r.1 = some c → c.mem = m ∧ (∃ chunks, c.Verified S chunks) ∧
    ∃ w, r.2 0 = .other w

theorem Validates.none : Validates S m tbl (none, tbl) :=
  ⟨Scribbled.refl _, fun _ h => (Option.some_ne_none _ h.symm).elim⟩

theorem capsuleValidate_validates (S : Services Digest) (m : Mem) (p : Nat)
    (tbl : HashTbl Digest) : Validates S m tbl (capsuleValidate S m p tbl) := by
  by_cases hp : p = 0
  · rw [capsuleValidate_none (.inl hp)]
    exact .none
  · cases hloc : locate m p with
    | none =>
      rw [capsuleValidate_none (.inr hloc)]
      exact .none
    | some place =>
      obtain ⟨hdr, payload⟩ := place
      rw [capsuleValidate_some hp hloc]
      split
      · have hchecks : Checks S m hdr payload tbl (verifyFwCert S m hdr payload tbl) :=
          checks_verifyFwCert
        refine ⟨hchecks.scribbled, fun c hc => ?_⟩
        obtain ⟨htrue, heq⟩ := Option.ite_none_right_eq_some.mp hc
        cases heq
        exact ⟨rfl, hchecks.verified htrue⟩
      · exact .none

end Validation

/-! ## The hash table -/

theorem Slot.other_ne_digest {w : Nat} {d : Digest} : (.other w : Slot Digest) ≠ .digest d := by
  intro h
  cases h

/-- The digest is that of block `k` of the payload of a capsule. -/
def Capsule.HasPage (S : Services Digest) (c : Capsule) (k : Nat) (d : Digest) : Prop :=
  S.sha256 (bytesAt c.mem (c.payload + flashBlockSize * k) flashBlockSize) = some d

section Table

variable {P : Platform Digest} {c : Capsule}

/-- What the loop over the blocks leaves of the table. -/
theorem fillHashTbl_spec : ∀ (n k : Nat) (tbl : HashTbl Digest),
    (∀ j, (fillHashTbl P c.mem c.payload n k tbl).2 j = tbl j ∨
      ∃ d, (fillHashTbl P c.mem c.payload n k tbl).2 j = .digest d ∧ c.HasPage P.toServices j d) ∧
    ((fillHashTbl P c.mem c.payload n k tbl).1 = true → ∀ j, k ≤ j → j < k + n →
      ∃ d, (fillHashTbl P c.mem c.payload n k tbl).2 j = .digest d ∧
        c.HasPage P.toServices j d) := by
  intro n
  induction n with
  | zero => exact fun k tbl => ⟨fun j => .inl rfl, fun _ j h1 h2 => by omega⟩
  | succ n ih =>
    intro k tbl
    rw [fillHashTbl]
    cases hd : P.sha256 (bytesAt c.mem (c.payload + flashBlockSize * k) flashBlockSize) with
    | none => exact ⟨fun j => .inl rfl, fun h => absurd h Bool.false_ne_true⟩
    | some d =>
      obtain ⟨hslots, hall⟩ := ih (k + 1) fun j => if j = k then .digest d else tbl j
      have hk : c.HasPage P.toServices k d := hd
      constructor
      · intro j
        obtain heq | hnew := hslots j
        · dsimp only at heq ⊢
          rw [heq]
          by_cases hj : j = k
          · subst hj
            rw [if_pos rfl]
            exact .inr ⟨d, rfl, hk⟩
          · rw [if_neg hj]
            exact .inl rfl
        · exact .inr hnew
      · intro hok j h1 h2
        obtain rfl | hlt := Nat.eq_or_lt_of_le h1
        · obtain heq | hnew := hslots k
          · dsimp only at heq ⊢
            rw [heq, if_pos rfl]
            exact ⟨d, rfl, hk⟩
          · exact hnew
        · exact hall hok j hlt (by omega)

end Table

/-! ## Invariants -/

/-- What holds of the data and the history in every state. -/
structure Kept (P : Platform Digest) (layout : Option (List RomArea)) (s : State Digest) :
    Prop where
  layout : s.romLayout = layout
  verified : ∀ c, some c ∈ s.validations → ∃ chunks, c.Verified P.toServices chunks
  slots : ∀ k d, s.hashTbl k = .digest d →
    ∃ c, some c ∈ s.validations ∧ c.HasPage P.toServices k d

/-- The capsule of the last call of `CapsuleValidate`, if it has succeeded. -/
def State.Validated (s : State Digest) (c : Capsule) : Prop := s.validations.head? = some (some c)

/-- The table has been filled for `FlRuntime`, and not been written since. -/
def State.Filled (s : State Digest) : Prop := ∃ d, s.hashTbl 0 = .digest d

/-- What holds while there is a capsule: it has been validated last, or the table has no digest at
all; and if the table has been filled, then with the hashes of this capsule. -/
structure Session (P : Platform Digest) (s : State Digest) : Prop where
  validated : (∃ c, s.Validated c) ∨ ∀ k, ∃ w, s.hashTbl k = .other w
  filled : s.Filled → ∃ c, s.Validated c ∧
    ∀ k < hashTblBlockCount, ∃ d, s.hashTbl k = .digest d ∧ c.HasPage P.toServices k d

section Invariants

variable {P : Platform Digest} {layout : Option (List RomArea)} {s s' : State Digest} {p : Nat}

/-- Another state with the same table, layout and history. -/
theorem Kept.congr (h : Kept P layout s) (ht : s'.hashTbl = s.hashTbl)
    (hl : s'.romLayout = s.romLayout) (hv : s'.validations = s.validations) :
    Kept P layout s' := by
  constructor
  · rw [hl, h.layout]
  · rw [hv]
    exact h.verified
  · rw [ht, hv]
    exact h.slots

theorem Session.congr (h : Session P s) (ht : s'.hashTbl = s.hashTbl)
    (hv : s'.validations = s.validations) : Session P s' := by
  constructor
  · unfold State.Validated
    rw [ht, hv]
    exact h.validated
  · unfold State.Filled State.Validated
    rw [ht, hv]
    exact h.filled

theorem initialState_kept (m : Mem) : Kept P layout (initialState P layout m) :=
  ⟨rfl, fun _ hc => absurd hc List.not_mem_nil, fun _ _ hd => absurd hd Slot.other_ne_digest⟩

theorem initialState_session (m : Mem) : Session P (initialState P layout m) :=
  ⟨.inr fun _ => ⟨_, rfl⟩, fun ⟨_, hd⟩ => absurd hd Slot.other_ne_digest⟩

/-- What a method of update leaves: the invariant, and if it succeeds a session. -/
structure Does (P : Platform Digest) (layout : Option (List RomArea)) (r : Bool × State Digest) :
    Prop where
  kept : Kept P layout r.2
  session : r.1 = true → r.2.pFwCapsule ≠ 0 → Session P r.2

theorem Does.failed (h : Kept P layout s) : Does P layout (false, s) :=
  ⟨h, fun hok => absurd hok Bool.false_ne_true⟩

variable {v : Variables}

/-- The capsule that has just been validated is accepted. -/
theorem acceptCapsule_does {c : Capsule} (h : Kept P layout s) (hc : s.Validated c)
    (hm : c.mem = s.mem) (hzero : ∃ w, s.hashTbl 0 = .other w) :
    Does P layout (acceptCapsule P v s p c.hdr c.payload) := by
  have hmem : some c ∈ s.validations := List.mem_of_mem_head? hc
  unfold acceptCapsule
  split
  · -- the hashes of the capsule go to the table
    rw [← hm]
    obtain ⟨hslots, hall⟩ := fillHashTbl_spec (P := P) (c := c) hashTblBlockCount 0 s.hashTbl
    constructor
    · refine ⟨h.layout, h.verified, fun k d hd => ?_⟩
      obtain heq | ⟨d', hd', hpage⟩ := hslots k
      · exact h.slots k d (heq.symm.trans hd)
      · obtain rfl : d' = d := Slot.digest.inj (hd'.symm.trans hd)
        exact ⟨c, hmem, hpage⟩
    · intro hok _
      exact ⟨.inl ⟨c, hc⟩, fun _ => ⟨c, hc, fun k hk => hall hok k (Nat.zero_le k) (by omega)⟩⟩
  · -- the table is left as the verification has left it
    have hsession : Session P s :=
      ⟨.inl ⟨c, hc⟩, fun ⟨d, hd⟩ => by
        obtain ⟨w, hw⟩ := hzero
        cases hw.symm.trans hd⟩
    dsimp only
    split
    · exact ⟨h.congr rfl rfl rfl, fun _ _ => hsession.congr rfl rfl⟩
    · exact Does.failed (h.congr rfl rfl rfl)

theorem takeCapsule_frame (h : takeCapsule P s p = some s') :
    s'.hashTbl = s.hashTbl ∧ s'.romLayout = s.romLayout ∧ s'.validations = s.validations := by
  unfold takeCapsule at h
  dsimp only at h
  split at h
  · obtain rfl := Option.some.inj h
    exact ⟨rfl, rfl, rfl⟩
  · split at h
    · exact nomatch h
    · split at h
      · obtain rfl := Option.some.inj h
        exact ⟨rfl, rfl, rfl⟩
      · split at h
        · exact nomatch h
        · obtain rfl := Option.some.inj h
          exact ⟨rfl, rfl, rfl⟩

theorem validateMethod_does (h : Kept P layout s) : Does P layout (validateMethod P v s p) := by
  unfold validateMethod
  cases htake : takeCapsule P s p with
  | none => exact Does.failed h
  | some t =>
    obtain ⟨htbl, hlayout, hval⟩ := takeCapsule_frame htake
    have ht : Kept P layout t := h.congr htbl hlayout hval
    dsimp only
    split
    · exact Does.failed ht
    · obtain ⟨hscribbled, hvalid⟩ :=
        capsuleValidate_validates P.toServices t.mem t.pFwCapsule t.hashTbl
      -- the table after the validation, with its outcome in the history
      have hkept : Kept P layout { t with
          hashTbl := (capsuleValidate P.toServices t.mem t.pFwCapsule t.hashTbl).2
          validations := (capsuleValidate P.toServices t.mem t.pFwCapsule t.hashTbl).1 ::
            t.validations } := by
        refine ⟨ht.layout, fun c hc => ?_, fun k d hd => ?_⟩
        · obtain heq | hc := List.mem_cons.mp hc
          · exact (hvalid c heq.symm).2.1
          · exact ht.verified c hc
        · obtain heq | ⟨w, hw⟩ := hscribbled k
          · obtain ⟨c, hc, hpage⟩ := ht.slots k d (heq.symm.trans hd)
            exact ⟨c, List.mem_cons_of_mem _ hc, hpage⟩
          · cases hw.symm.trans hd
      split
      · exact Does.failed hkept
      · rename_i c hc
        obtain ⟨hm, -, hzero⟩ := hvalid c hc
        refine acceptCapsule_does (hkept.congr rfl rfl rfl) ?_ hm hzero
        show some (capsuleValidate P.toServices t.mem t.pFwCapsule t.hashTbl).1 = _
        rw [hc]

theorem runMethod_does (h : Kept P layout s) (hs : s.pFwCapsule ≠ 0 → Session P s) :
    Does P layout (runMethod P v s p) := by
  unfold runMethod
  split
  · exact validateMethod_does h
  · split
    · exact ⟨h.congr rfl rfl rfl, fun _ hne => (hs hne).congr rfl rfl⟩
    · exact Does.failed h

/-- The invariant of a run. -/
structure Guarded (P : Platform Digest) (layout : Option (List RomArea)) (s : State Digest) :
    Prop where
  kept : Kept P layout s
  session : s.pFwCapsule ≠ 0 → Session P s

theorem Guarded.setFlUpdMethod (h : Guarded P layout s) :
    Guarded P layout (setFlUpdMethod P v s p) := by
  unfold SecureFlash.setFlUpdMethod
  split
  · exact h
  · have hdoes : Does P layout
        (if policyAllows P s.mem p then runMethod P v s p else (false, s)) := by
      split
      · exact runMethod_does h.kept h.session
      · exact Does.failed h.kept
    dsimp only
    -- a failure leaves no capsule, and a session does not depend on what is answered
    cases hok : (if policyAllows P s.mem p then runMethod P v s p else (false, s)).1 with
    | true =>
      exact ⟨hdoes.kept.congr rfl rfl rfl, fun hne => (hdoes.session hok hne).congr rfl rfl⟩
    | false => exact ⟨hdoes.kept.congr rfl rfl rfl, fun hne => absurd rfl hne⟩

/-- The store to `ErrorCode` of `LoadFwImage` does not change the data of the driver. -/
def Harmless (P : Platform Digest) (s : State Digest) : Event → Prop
  | .loadFwImage p => P.storeByte (p + 16) 1 s.toData = s.toData
  | _ => True

theorem Guarded.loadFwImage (h : Guarded P layout s) (hs : Harmless P s (.loadFwImage p)) :
    Guarded P layout (loadFwImage P s p) := by
  have hstore : P.storeByte (p + 16) 1 s.toData = s.toData := hs
  have hwritten : Guarded P layout
      { s with toData := s.toData, mem := poke s.mem (p + 16) [1] } :=
    ⟨h.kept.congr rfl rfl rfl, fun hne => (h.session hne).congr rfl rfl⟩
  unfold SecureFlash.loadFwImage
  split
  · exact h
  · rw [hstore]
    dsimp only
    split
    · exact hwritten
    · split
      · exact hwritten
      · split
        · exact hwritten
        · exact ⟨h.kept.congr rfl rfl rfl, fun hne => absurd rfl hne⟩

theorem Guarded.step {e : Event} (h : Guarded P layout s) (he : Harmless P s e) :
    Guarded P layout (step P s e) := by
  cases e with
  | memory m => exact ⟨h.kept.congr rfl rfl rfl, fun hne => (h.session hne).congr rfl rfl⟩
  | loadFwImage p => exact h.loadFwImage he
  | setFlUpdMethod v p => exact h.setFlUpdMethod

theorem Run.guarded (h : Run P (Harmless P) layout s) : Guarded P layout s := by
  induction h with
  | start m => exact ⟨initialState_kept m, fun _ => initialState_session m⟩
  | step _ he ih => exact ih.step he

end Invariants

/-! ## Access to the flash -/

/-- The address lies in a signed area of the embedded layout. -/
def SignedAt (layout : Option (List RomArea)) (x : Nat) : Prop :=
  ∃ areas, layout = some areas ∧ ∃ a ∈ areas, a.signed = true ∧ a.start ≤ x ∧ x < a.start + a.size

/-- The table of a capsule signs what the embedded layout signs. -/
def Capsule.Signs (c : Capsule) (layout : Option (List RomArea)) : Prop :=
  ∀ x, SignedAt layout x → flashMapStart ≤ x → x - flashMapStart < flashSize →
    ∃ a ∈ signedAreas c.mem c.hdr,
      a.offset ≤ x - flashMapStart ∧ x - flashMapStart < a.offset + a.size

/-- A byte of the payload of a capsule, in a range that its signature has been verified for. -/
structure Capsule.Authenticates (S : Services Digest) (c : Capsule) (offset : Nat) (b : UInt8) :
    Prop where
  covered : ∃ chunks, c.Verified S chunks ∧
    ∃ chunk ∈ chunks, chunk.1 ≤ c.payload + offset ∧ c.payload + offset < chunk.1 + chunk.2
  byte : c.mem ((c.payload + offset) % 2 ^ 64) = b

/-- The last call of `CapsuleValidate` has succeeded, and the byte is that of a capsule that has
been validated: of the last one, if the table has been filled since. -/
def Authentic (P : Platform Digest) (s : State Digest) (x : Nat) (b : UInt8) : Prop :=
  flashMapStart ≤ x ∧ ∃ last, s.Validated last ∧ ∃ c, some c ∈ s.validations ∧
    (s.Filled → c = last) ∧ c.Authenticates P.toServices (x - flashMapStart) b

section Access

/-- No sum wraps, and signed bytes of the range lie in its first two blocks and inside the flash. -/
structure InRange (layout : Option (List RomArea)) (s : State Digest) (flashAddress size : Nat) :
    Prop where
  areas : ∀ areas, layout = some areas → ∀ a ∈ areas, a.signed = true → a.start + a.size < 2 ^ 64
  flash : flashAddress + size < 2 ^ 64
  signed : ∀ i < size, SignedAt layout (flashAddress + i) → flashMapStart ≤ flashAddress ∧
    flashAddress + i - flashMapStart < flashSize ∧
    (flashAddress + i - flashMapStart) / flashBlockSize ≤
      (flashAddress - flashMapStart) / flashBlockSize + 1 ∧
    s.pFwCapsule + (flashAddress - flashMapStart) + size < 2 ^ 64

variable {P : Platform Digest} {layout : Option (List RomArea)} {s : State Digest}
  {flashAddress size data buff i : Nat}

theorem InRange.writeProtected (h : InRange layout s flashAddress size) (hi : i < size)
    (hs : SignedAt layout (flashAddress + i)) : writeProtected layout flashAddress size = true := by
  obtain ⟨areas, rfl, a, ha, hsigned, h1, h2⟩ := hs
  have hwrap := h.areas areas rfl a ha hsigned
  have hflash := h.flash
  refine List.any_eq_true.mpr ⟨a, ha, ?_⟩
  rw [hsigned, Bool.and_true]
  unfold overlaps
  rw [Nat.mod_eq_of_lt hwrap, Nat.mod_eq_of_lt hflash]
  simp only [Bool.or_eq_true, Bool.and_eq_true, decide_eq_true_eq]
  omega

theorem bytesAt_mod (m : Mem) (p n : Nat) : bytesAt m (p % 2 ^ 64) n = bytesAt m p n := by
  unfold bytesAt
  refine List.map_congr_left fun i _ => ?_
  rw [Nat.mod_add_mod]

theorem bytesAt_inj {m m' : Mem} {p p' n r : Nat} (h : bytesAt m p n = bytesAt m' p' n)
    (hr : r < n) : m ((p + r) % 2 ^ 64) = m' ((p' + r) % 2 ^ 64) := by
  have hget := congrArg (fun bs => bs[r]?) h
  simpa [bytesAt, hr] using hget

/-- The slot of a block has the hash of what is at a pointer. -/
def Matches (P : Platform Digest) (s : State Digest) (k p : Nat) : Prop :=
  ∃ d, P.sha256 (bytesAt s.mem p flashBlockSize) = some d ∧ s.hashTbl k = .digest d

/-- A byte of a block that matches is the one that a capsule has there. -/
theorem Guarded.authentic {x : Nat} (h : Guarded P layout s)
    (hsigns : ∀ c, some c ∈ s.validations → c.Signs layout) (hne : s.pFwCapsule ≠ 0)
    (hs : SignedAt layout x) (hmap : flashMapStart ≤ x) (hx : x - flashMapStart < flashSize)
    (hm : Matches P s ((x - flashMapStart) / flashBlockSize)
      (s.pFwCapsule + flashBlockSize * ((x - flashMapStart) / flashBlockSize))) :
    Authentic P s x (s.mem ((s.pFwCapsule + (x - flashMapStart)) % 2 ^ 64)) := by
  obtain ⟨d, hd, hslot⟩ := hm
  have hsession := h.session hne
  obtain ⟨last, hlast⟩ : ∃ c, s.Validated c := by
    obtain hlast | hother := hsession.validated
    · exact hlast
    · obtain ⟨w, hw⟩ := hother ((x - flashMapStart) / flashBlockSize)
      exact absurd (hw.symm.trans hslot) Slot.other_ne_digest
  -- the capsule whose hash is in the slot, the last one if the table is its own
  obtain ⟨c, hc, hown, hpage⟩ : ∃ c, some c ∈ s.validations ∧ (s.Filled → c = last) ∧
      c.HasPage P.toServices ((x - flashMapStart) / flashBlockSize) d := by
    by_cases hfilled : s.Filled
    · obtain ⟨c, hc, hall⟩ := hsession.filled hfilled
      obtain ⟨d', hd', hpage⟩ := hall ((x - flashMapStart) / flashBlockSize)
        (Nat.div_lt_of_lt_mul (lt_of_lt_of_le hx (by decide)))
      obtain rfl : d' = d := Slot.digest.inj (hd'.symm.trans hslot)
      have heq : some (some c) = some (some last) := hc.symm.trans hlast
      exact ⟨c, List.mem_of_mem_head? hc, fun _ => Option.some.inj (Option.some.inj heq), hpage⟩
    · obtain ⟨c, hc, hpage⟩ := h.kept.slots _ d hslot
      exact ⟨c, hc, fun hf => absurd hf hfilled, hpage⟩
  refine ⟨hmap, last, hlast, c, hc, hown, ?_, ?_⟩
  · obtain ⟨chunks, hverified⟩ := h.kept.verified c hc
    obtain ⟨a, ha, h1, h2⟩ := hsigns c hc x hs hmap hx
    exact ⟨chunks, hverified, _, hverified.areas a ha, by dsimp only; omega, by dsimp only; omega⟩
  · have hsame := P.collisionFree hpage hd
    have hbyte := bytesAt_inj hsame
      (Nat.mod_lt (x - flashMapStart) (show 0 < flashBlockSize by decide))
    rw [Nat.add_assoc, Nat.add_assoc, Nat.div_add_mod] at hbyte
    exact hbyte

variable [DecidableEq Digest]

/-- Signed areas are protected from accesses to a range: bytes that are passed to them are
authentic, and without a capsule that has been validated nothing is done. -/
structure Protected (P : Platform Digest) (layout : Option (List RomArea)) (s : State Digest)
    (flashAddress size : Nat) : Prop where
  passed : ∀ data bs, secureFlashWrite P s flashAddress size data = some bs ∨
      secureFlashUpdate P s flashAddress size data = some bs →
    ∀ i (hi : i < bs.length), SignedAt layout (flashAddress + i) →
      Authentic P s (flashAddress + i) bs[i]
  refused : (∀ c, ¬ s.Validated c) → (∃ i < size, SignedAt layout (flashAddress + i)) →
    (∀ data, secureFlashWrite P s flashAddress size data = none ∧
      secureFlashUpdate P s flashAddress size data = none) ∧
    secureFlashErase P s flashAddress size = false

/-- What one round of the loop over the blocks has checked. -/
theorem checkPages_succ {limit n k p : Nat}
    (h : checkPages P s.mem s.hashTbl limit (n + 1) k p = true) (hk : k < hashTblBlockCount) :
    Matches P s k p ∧ ((p + flashBlockSize) % 2 ^ 64 < limit →
      checkPages P s.mem s.hashTbl limit n (k + 1) ((p + flashBlockSize) % 2 ^ 64) = true) := by
  rw [checkPages, if_pos hk] at h
  cases hd : P.sha256 (bytesAt s.mem p flashBlockSize) with
  | none =>
    rw [hd] at h
    exact absurd h Bool.false_ne_true
  | some d =>
    rw [hd] at h
    dsimp only at h
    by_cases htbl : s.hashTbl k = .digest d
    · rw [if_pos htbl] at h
      refine ⟨⟨d, hd, htbl⟩, fun hlt => ?_⟩
      rwa [if_neg (Nat.not_le_of_lt hlt)] at h
    · rw [if_neg htbl] at h
      exact absurd h Bool.false_ne_true

/-- What lets an access to a protected range through. -/
theorem beforeSecureUpdate_some
    (hprot : writeProtected s.romLayout flashAddress size = true)
    (h : beforeSecureUpdate P s flashAddress size data = some buff) (hmap : flashMapStart ≤ flashAddress)
    (hlt : flashAddress < 2 ^ 64) :
    s.pFwCapsule ≠ 0 ∧ buff = (s.pFwCapsule + (flashAddress - flashMapStart)) % 2 ^ 64 ∧
    checkPages P s.mem s.hashTbl ((buff + size) % 2 ^ 64) 2
      ((flashAddress - flashMapStart) / flashBlockSize)
      ((s.pFwCapsule + flashBlockSize * ((flashAddress - flashMapStart) / flashBlockSize)) % 2 ^ 64)
        = true := by
  have hoffset : (flashAddress + 2 ^ 64 - flashMapStart) % 2 ^ 64 = flashAddress - flashMapStart := by
    rw [show flashAddress + 2 ^ 64 - flashMapStart = flashAddress - flashMapStart + 2 ^ 64 by omega,
      Nat.add_mod_right, Nat.mod_eq_of_lt (by omega)]
  unfold beforeSecureUpdate at h
  rw [if_pos hprot] at h
  dsimp only at h
  rw [hoffset] at h
  split at h
  · cases h
  · rename_i hcond
    split at h
    · rename_i hcheck
      obtain rfl := Option.some.inj h
      exact ⟨fun h0 => hcond (.inr (.inl h0)), rfl, hcheck⟩
    · cases h

/-- The block of a signed byte of the range is one that has been looked at. -/
theorem InRange.matches (h : InRange layout s flashAddress size) (hi : i < size)
    (hs : SignedAt layout (flashAddress + i)) (hlayout : s.romLayout = layout)
    (hbefore : beforeSecureUpdate P s flashAddress size data = some buff) :
    s.pFwCapsule ≠ 0 ∧
    (buff + i) % 2 ^ 64 = (s.pFwCapsule + (flashAddress + i - flashMapStart)) % 2 ^ 64 ∧
    Matches P s ((flashAddress + i - flashMapStart) / flashBlockSize)
      (s.pFwCapsule +
        flashBlockSize * ((flashAddress + i - flashMapStart) / flashBlockSize)) := by
  obtain ⟨hmap, hsize, htwo, hbuffer⟩ := h.signed i hi hs
  have hflash := h.flash
  have hprot : SecureFlash.writeProtected s.romLayout flashAddress size = true := by
    rw [hlayout]
    exact h.writeProtected hi hs
  have hlt : flashAddress < 2 ^ 64 := by omega
  obtain ⟨hne, hbuff, hcheck⟩ := beforeSecureUpdate_some hprot hbefore hmap hlt
  rw [hbuff] at hcheck
  have hmatches : ∀ {k p}, Matches P s k (p % 2 ^ 64) → Matches P s k p := by
    intro k p hm
    obtain ⟨d, hd, htbl⟩ := hm
    exact ⟨d, by rw [← bytesAt_mod, hd], htbl⟩
  have hcount : (flashAddress + i - flashMapStart) / flashBlockSize < hashTblBlockCount :=
    Nat.div_lt_of_lt_mul (lt_of_lt_of_le hsize (by decide))
  have hle : (flashAddress - flashMapStart) / flashBlockSize ≤
      (flashAddress + i - flashMapStart) / flashBlockSize := Nat.div_le_div_right (by omega)
  refine ⟨hne, ?_, ?_⟩
  · rw [hbuff, Nat.mod_add_mod, show s.pFwCapsule + (flashAddress - flashMapStart) + i =
      s.pFwCapsule + (flashAddress + i - flashMapStart) by omega]
  · obtain ⟨hfirst, hrest⟩ := checkPages_succ hcheck (by omega)
    obtain heq | hnext : (flashAddress + i - flashMapStart) / flashBlockSize =
          (flashAddress - flashMapStart) / flashBlockSize ∨
        (flashAddress + i - flashMapStart) / flashBlockSize =
          (flashAddress - flashMapStart) / flashBlockSize + 1 := by omega
    · rw [heq]
      exact hmatches hfirst
    · -- the second block begins before the range ends, so that the loop has gone on to it
      have hbegin : flashBlockSize * ((flashAddress - flashMapStart) / flashBlockSize + 1) ≤
          flashAddress + i - flashMapStart := by
        rw [← hnext]
        exact Nat.mul_div_le _ _
      rw [Nat.mul_add, Nat.mul_one] at hbegin
      have hsecond := (checkPages_succ (hrest ?_) (by omega)).1
      · rw [hnext, Nat.mul_add, Nat.mul_one, ← Nat.add_assoc]
        rw [Nat.mod_add_mod] at hsecond
        exact hmatches hsecond
      · rw [Nat.mod_add_mod, Nat.mod_add_mod, Nat.mod_eq_of_lt (by omega),
          Nat.mod_eq_of_lt (by omega)]
        omega

/-- Whatever happens, as long as no stray store hits the data of the driver: signed areas are
protected from every access in range, if the capsules that have been validated sign them. -/
theorem protected_of_run (h : Run P (Harmless P) layout s)
    (hrange : InRange layout s flashAddress size)
    (hsigns : ∀ c, some c ∈ s.validations → c.Signs layout) :
    Protected P layout s flashAddress size := by
  have hguarded := h.guarded
  have hmatches : ∀ {data buff i}, i < size → SignedAt layout (flashAddress + i) →
      beforeSecureUpdate P s flashAddress size data = some buff →
      Authentic P s (flashAddress + i) (s.mem ((buff + i) % 2 ^ 64)) := by
    intro data buff i hi hs hbefore
    obtain ⟨hmap, hsize, -, -⟩ := hrange.signed i hi hs
    obtain ⟨hne, haddr, hm⟩ := hrange.matches hi hs hguarded.kept.layout hbefore
    rw [haddr]
    exact hguarded.authentic hsigns hne hs (Nat.le_add_right_of_le hmap) hsize hm
  constructor
  · intro data bs hbs i hi hs
    obtain ⟨buff, hbefore, rfl⟩ : ∃ buff,
        beforeSecureUpdate P s flashAddress size data = some buff ∧ bytesAt s.mem buff size = bs := by
      obtain hbs | hbs := hbs <;> exact Option.map_eq_some_iff.mp hbs
    have hi' : i < size := by simpa [bytesAt] using hi
    have hget : (bytesAt s.mem buff size)[i] = s.mem ((buff + i) % 2 ^ 64) := by
      simp [bytesAt]
    rw [hget]
    exact hmatches hi' hs hbefore
  · rintro hnone ⟨i, hi, hs⟩
    have hrefused : ∀ data, beforeSecureUpdate P s flashAddress size data = none := by
      intro data
      cases hbefore : beforeSecureUpdate P s flashAddress size data with
      | none => rfl
      | some buff =>
        obtain ⟨-, last, hlast, -⟩ := hmatches hi hs hbefore
        exact absurd hlast (hnone last)
    refine ⟨fun data => ⟨?_, ?_⟩, ?_⟩
    · rw [secureFlashWrite, hrefused data, Option.map_none]
    · rw [secureFlashUpdate, hrefused data, Option.map_none]
    · rw [secureFlashErase, hrefused 0, Option.isSome_none]

end Access

/-! ## A platform -/

/-- Texts are their own digests. SMRAM is a range above the buffer. -/
def crb : Platform Bytes where
  sha256 := some
  collisionFree := fun ha hb => (Option.some.inj ha).trans (Option.some.inj hb).symm
  firstWord := fun d => Lib.leVal (d.take 4)
  pkcs7Verify := fun _ _ _ => true
  verifyKey := fun _ => true
  pkcs1Verify := fun _ _ _ _ => true
  keyAlg := .x509
  key := []
  keyInSmram := true
  validateMemoryBuffer := fun p n => p + n ≤ 0x7E000000 || (0x7F000000 ≤ p && p + n ≤ 2 ^ 64)
  smram := fun p => 0x7E000000 ≤ p && p < 0x7F000000
  buffer := 0x10000000
  flashUpdate := 7
  bbUpdate := 7
  storeByte := fun _ _ data => data

def crbLayout : Option (List RomArea) := some [⟨0, 0, 0x1000, 0x200⟩]

/-- A session block at `0x1000` for `FlRecovery`, with a file name. -/
def recoveryBlock : Mem := fun p => if p = 0x1000 then 1 else if p = 0x1005 then 65 else 0

def recoveryState : State Bytes :=
  step crb (step crb (initialState crb crbLayout fun _ => 0) (.memory recoveryBlock))
    (.setFlUpdMethod ⟨true, none, true⟩ 0x1000)

theorem recoveryState_run {cond : State Bytes → Event → Prop}
    (hcond : ∀ s m, cond s (.memory m)) (hcond' : ∀ s v p, cond s (.setFlUpdMethod v p)) :
    Run crb cond crbLayout recoveryState :=
  ((Run.start _).step (hcond _ _)).step (hcond' _ _ _)

theorem recoveryState_validations : recoveryState.validations = [] := by
  rfl

/-- Without a capsule, the first signed bytes of the flash are not written. -/
theorem protected_recoveryState : Protected crb crbLayout recoveryState flashMapStart 2 := by
  have hstart : ∀ a ∈ [(⟨0, 0, 0x1000, 0x200⟩ : RomArea)], a.start + a.size < 2 ^ 64 := by decide
  refine protected_of_run (recoveryState_run (fun _ _ => trivial) (fun _ _ _ => trivial))
    ⟨?_, by decide, ?_⟩ ?_
  · intro areas hareas a ha _
    obtain rfl := Option.some.inj hareas
    exact hstart a ha
  · intro i hi _
    have hcapsule : recoveryState.pFwCapsule = 0x10000000 := by decide +kernel
    rw [hcapsule, Nat.add_sub_cancel_left]
    refine ⟨le_rfl, lt_trans hi (by decide), ?_, by decide⟩
    rw [Nat.div_eq_of_lt (lt_trans hi (by decide))]
    exact Nat.zero_le _
  · intro c hc
    rw [recoveryState_validations] at hc
    exact absurd hc List.not_mem_nil

/-- `FlRecovery` makes a handle of the untouched table. A write that begins below the flash is then
not looked at at all. -/
theorem not_protected : ¬ ∀ layout s, Run crb (fun _ _ => True) layout s →
    ∀ flashAddress < 2 ^ 64, ∀ size < 2 ^ 64, Protected crb layout s flashAddress size := by
  intro h
  have hrun : Run crb (fun _ _ => True) crbLayout recoveryState :=
    recoveryState_run (fun _ _ => trivial) (fun _ _ _ => trivial)
  have hprot := h _ _ hrun (flashMapStart - 1) (by decide) 2 (by decide)
  have hnone : ∀ c, ¬ recoveryState.Validated c := by
    intro c hc
    unfold State.Validated at hc
    rw [recoveryState_validations] at hc
    cases hc
  have hsigned : SignedAt crbLayout (flashMapStart - 1 + 1) :=
    ⟨_, rfl, _, List.mem_singleton_self _, by decide, by decide, by decide⟩
  have hwrite := ((hprot.refused hnone ⟨1, by decide, hsigned⟩).1 0).1
  have hbytes : secureFlashWrite crb recoveryState (flashMapStart - 1) 2 0 = some [0, 0] := by
    decide +kernel
  rw [hbytes] at hwrite
  cases hwrite

end BayTrail.SecureFlash
