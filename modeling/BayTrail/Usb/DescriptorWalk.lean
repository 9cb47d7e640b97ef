import BayTrail.Usb.Descriptor

/-!
# When the walks end

A device is handled when the function returns, has read the headers of descriptors inside the buffer only
and has freed what it has allocated. The walks of `USB_DetectNewDevice` and `USB_ReConfigDevice` do so
always. That of `USB_ResetAndReconfigDev` is followed by the descriptors it comes to.
-/

namespace BayTrail.Usb.Descriptor

open Lib (Mem Next)
open Lib.Run (returns_pure returns_bind returns_loop loop_done loop_again loop_induction loop_measure)

/-- The bytes that are allocated for a configuration descriptor. -/
def bufferSize : Nat := getMemBlkCount maxControlDataSize * 32

/-- Of the headers, nothing behind the buffer is read. -/
def InBounds (reads : List Read) : Prop := ∀ r ∈ reads, r.2 ≤ bDescType → r.1 + r.2 < bufferSize

/-- Each buffer is freed once, with the number of blocks that it was allocated with. -/
def Log.Balanced (log : Log) : Prop := log.frees.Perm log.allocs

/-- A function that returns, and keeps to its buffers. -/
def Handled (x : Lib.Run (Bool × Log)) : Prop :=
  ∃ ok log, x.Returns (ok, log) ∧ InBounds log.reads ∧ log.Balanced

variable {c : Mem} {totalLength p field : Nat} {reads reads' : List Read} {identify : Identify}

/-! ## Reads -/

theorem bufferSize_eq : bufferSize = 2048 := rfl

theorem inBounds_nil : InBounds [] := fun _ h => nomatch h

theorem inBounds_append : InBounds (reads ++ reads') ↔ InBounds reads ∧ InBounds reads' := by
  simp only [InBounds, List.mem_append, or_imp, forall_and]

theorem InBounds.cons (h : InBounds reads) (hp : field ≤ bDescType → p + field < bufferSize) :
    InBounds ((p, field) :: reads) := by
  intro r hr
  rcases List.mem_cons.mp hr with rfl | hr
  · exact hp
  · exact h r hr

/-- A descriptor that starts in front of the last byte. -/
theorem InBounds.header (h : InBounds reads) (hp : p < 2047) (hfield : field ≤ bDescType) : InBounds ((p, field) :: reads) := by
  have hone : bDescType = 1 := rfl
  exact h.cons fun _ => by rw [bufferSize_eq]; omega

/-- A field behind the header. -/
theorem InBounds.behind (h : InBounds reads) (hfield : bDescType < field) : InBounds ((p, field) :: reads) :=
  h.cons fun hle => absurd hle (Nat.not_le.mpr hfield)

theorem inBounds_interfaceReads (hp : p < 2047) (hfield : bDescType < field) : InBounds (interfaceReads c p field) := by
  unfold interfaceReads
  split
  · exact ((inBounds_nil).header hp (Nat.le_refl _)).behind hfield
  · exact (inBounds_nil).header hp (Nat.le_refl _)

theorem getConfig_le {answer : Answer} (h : getConfig answer = some (c, totalLength)) : totalLength ≤ 2047 := by
  have hmax : maxControlDataSize = 2048 := rfl
  unfold getConfig at h
  split at h
  · cases h
  · dsimp only at h
    split at h
    · obtain ⟨c', -, heq⟩ := Option.map_eq_some_iff.mp h
      obtain ⟨-, rfl⟩ := Prod.mk.inj heq
      split <;> omega
    · obtain ⟨-, rfl⟩ := Prod.mk.inj (Option.some.inj h)
      omega

/-! ## `USB_DetectNewDevice` -/

variable {s r : Nat × List Read}

/-- A loop that reads the header of each descriptor, and some fields of an interface, ends: it is left
where the length is 0, and no length leads around. -/
theorem headerLoop_ends (bad hit : Nat → Prop) [DecidablePred bad] [DecidablePred hit] (fields : Nat → List Read)
    {round : Nat × List Read → Next (Nat × List Read) (Bool × List Read)} (htotal : totalLength ≤ 2047)
    (hbad : ∀ p, ¬ bad p → (c (p + bDescLength)).toNat ≠ 0)
    (hfields : ∀ p reads, InBounds reads → InBounds (fields p ++ reads))
    (hround : ∀ p reads, round (p, reads) =
      if p < totalLength then
        if bad p then .done (false, (p, bDescLength) :: reads)
        else if c (p + bDescType) = descTypeInterface then
          if hit p then .done (true, fields p ++ (p, bDescType) :: (p, bDescLength) :: reads)
          else .again ((p + (c (p + bDescLength)).toNat) % 2 ^ 16, fields p ++ (p, bDescType) :: (p, bDescLength) :: reads)
        else .again ((p + (c (p + bDescLength)).toNat) % 2 ^ 16, (p, bDescType) :: (p, bDescLength) :: reads)
      else .done (false, reads)) (hs : InBounds s.2) :
    ∃ r, (Lib.Run.loop (fun s => pure (round s)) s : Lib.Run (Bool × List Read)).Returns r ∧ InBounds r.2 := by
  refine loop_measure (P := fun s => InBounds s.2) (fun s => totalLength - s.1) ?_ hs
  rintro ⟨p, reads⟩ hs
  have hround := hround p reads
  by_cases hp : p < totalLength
  · have hlength := hs.header (show p < 2047 by omega) (show bDescLength ≤ bDescType by decide)
    have htype := hlength.header (show p < 2047 by omega) (Nat.le_refl bDescType)
    rw [if_pos hp] at hround
    split at hround
    next => exact Or.inl ⟨_, returns_pure.mpr hround, hlength⟩
    next hlen =>
      have hlen := hbad p hlen
      have hbyte := (c (p + bDescLength)).toNat_lt
      have hless : totalLength - (p + (c (p + bDescLength)).toNat) < totalLength - p := by omega
      rw [Nat.mod_eq_of_lt (by omega)] at hround
      split at hround
      · split at hround
        · exact Or.inl ⟨_, returns_pure.mpr hround, hfields p _ htype⟩
        · exact Or.inr ⟨_, returns_pure.mpr hround, hfields p _ htype, hless⟩
      · exact Or.inr ⟨_, returns_pure.mpr hround, htype, hless⟩
  · rw [if_neg hp] at hround
    exact Or.inl ⟨_, returns_pure.mpr hround, hs⟩

theorem altLoop_ends (htotal : totalLength ≤ 2047) (hs : InBounds s.2) :
    ∃ r, (Lib.Run.loop (fun s => pure (altRound c totalLength s)) s : Lib.Run (Bool × List Read)).Returns r
      ∧ InBounds r.2 :=
  headerLoop_ends (fun p => (c (p + bDescLength)).toNat = 0 ∨ totalLength < (c (p + bDescLength)).toNat + p)
    (fun p => c (p + bAltSettingNum) ≠ 0) (fun p => [(p, bAltSettingNum)]) htotal (fun _ h h0 => h (Or.inl h0))
    (fun _ _ h => h.behind (by decide)) (fun _ _ => rfl) hs

/-- The walk comes to an interface for which there is a device. -/
inductive Usable (totalLength : Nat) (identify : Identify) : Mem → Nat → Prop
  | here {c : Mem} {p : Nat} (hp : p < totalLength) (hlength : (c (p + bDescLength)).toNat ≠ 0)
      (hend : (c (p + bDescLength)).toNat + p ≤ totalLength) (hfound : (identified identify c p).1 = true) :
      Usable totalLength identify c p
  | behind {c : Mem} {p : Nat} (hp : p < totalLength) (hlength : (c (p + bDescLength)).toNat ≠ 0)
      (hend : (c (p + bDescLength)).toNat + p ≤ totalLength)
      (hleft : ((identified identify c p).2 (p + bDescLength)).toNat ≠ 0)
      (hhub : ¬ ((identified identify c p).2 (p + bDescType) = descTypeInterface
        ∧ (identified identify c p).2 (p + bBaseClass) = baseClassHub))
      (hnext : Usable totalLength identify (identified identify c p).2
        (p + ((identified identify c p).2 (p + bDescLength)).toNat)) :
      Usable totalLength identify c p

variable (identify) in
/-- The walk over the interfaces ends and reads in bounds, and it has found a device if one had been found before or
there is a usable interface to come. -/
theorem interfaceLoop_ends (htotal : totalLength ≤ 2047) {s : Walk} (hs : InBounds s.reads) :
    ∃ r, (Lib.Run.loop (fun s => pure (interfaceRound totalLength identify s)) s : Lib.Run (Bool × List Read)).Returns r
      ∧ InBounds r.2 ∧ (r.1 = true ↔ s.devConfigured = true ∨ Usable totalLength identify s.content s.descLength) := by
  -- what is found in the end has been found already, or is still to come
  refine loop_measure
    (P := fun t : Walk => InBounds t.reads ∧ ((t.devConfigured = true ∨ Usable totalLength identify t.content t.descLength) ↔
      (s.devConfigured = true ∨ Usable totalLength identify s.content s.descLength)))
    (Q := fun r : Bool × List Read => InBounds r.2 ∧ (r.1 = true ↔
      (s.devConfigured = true ∨ Usable totalLength identify s.content s.descLength)))
    (fun t : Walk => totalLength - t.descLength) ?_ ⟨hs, Iff.rfl⟩
  intro t ⟨ht, hfinds⟩
  obtain ⟨c, p, configured, reads⟩ := t
  dsimp only at ht hfinds ⊢
  rw [← hfinds]
  by_cases hp : p < totalLength
  · have hlength := ht.header (show p < 2047 by omega) (show bDescLength ≤ bDescType by decide)
    by_cases hlen : (c (p + bDescLength)).toNat = 0 ∨ totalLength < (c (p + bDescLength)).toNat + p
    · refine Or.inl ⟨(configured, (p, bDescLength) :: reads), returns_pure.mpr ?_, hlength, Or.inl,
        fun h => h.resolve_right fun husable => ?_⟩
      · unfold interfaceRound
        dsimp only
        rw [if_pos hp, if_pos hlen]
      · cases husable <;> omega
    · have hend : (c (p + bDescLength)).toNat + p ≤ totalLength := by omega
      have hnonzero : (c (p + bDescLength)).toNat ≠ 0 := by omega
      obtain ⟨found, hfound⟩ : ∃ found, found = identified identify c p := ⟨_, rfl⟩
      have hreads := (inBounds_append.mpr
        ⟨inBounds_interfaceReads (c := c) (p := p) (by omega) (show bDescType < bAltSettingNum by decide), hlength⟩).header
          (show p < 2047 by omega) (show bDescLength ≤ bDescType by decide)
      have hreads' := inBounds_append.mpr
        ⟨inBounds_interfaceReads (c := found.2) (p := p) (by omega) (show bDescType < bBaseClass by decide), hreads⟩
      have hbyte := (found.2 (p + bDescLength)).toNat_lt
      have hmod : (p + (found.2 (p + bDescLength)).toNat) % 2 ^ 16 = p + (found.2 (p + bDescLength)).toNat :=
        Nat.mod_eq_of_lt (by omega)
      have hround : interfaceRound totalLength identify ⟨c, p, configured, reads⟩ =
          if (found.2 (p + bDescLength)).toNat = 0 then
            .done (configured || found.1,
              (p, bDescLength) :: (interfaceReads c p bAltSettingNum ++ (p, bDescLength) :: reads))
          else if found.2 (p + bDescType) = descTypeInterface ∧ found.2 (p + bBaseClass) = baseClassHub then
            .done (configured || found.1, interfaceReads found.2 p bBaseClass
              ++ (p, bDescLength) :: (interfaceReads c p bAltSettingNum ++ (p, bDescLength) :: reads))
          else .again ⟨found.2, p + (found.2 (p + bDescLength)).toNat, configured || found.1,
            interfaceReads found.2 p bBaseClass
              ++ (p, bDescLength) :: (interfaceReads c p bAltSettingNum ++ (p, bDescLength) :: reads)⟩ := by
        unfold interfaceRound
        dsimp only
        rw [if_pos hp, if_neg hlen, ← hfound, hmod]
      have hhere : found.1 = true → Usable totalLength identify c p := fun h => .here hp hnonzero hend (hfound ▸ h)
      split at hround
      · -- the length has been taken away
        rename_i hzero
        refine Or.inl ⟨_, returns_pure.mpr hround, hreads, ?_⟩
        rw [Bool.or_eq_true]
        refine or_congr_right ⟨hhere, fun husable => ?_⟩
        cases husable with
        | here _ _ _ h => exact hfound ▸ h
        | behind _ _ _ hleft => exact absurd (hfound ▸ hzero) hleft
      · rename_i hleft
        split at hround
        · rename_i hhub
          refine Or.inl ⟨_, returns_pure.mpr hround, hreads', ?_⟩
          rw [Bool.or_eq_true]
          refine or_congr_right ⟨hhere, fun husable => ?_⟩
          cases husable with
          | here _ _ _ h => exact hfound ▸ h
          | behind _ _ _ _ hnot => exact absurd (hfound ▸ hhub) hnot
        · rename_i hhub
          refine Or.inr ⟨_, returns_pure.mpr hround, ⟨hreads', ?_⟩,
            show totalLength - (p + (found.2 (p + bDescLength)).toNat) < totalLength - p by omega⟩
          dsimp only
          rw [Bool.or_eq_true, or_assoc]
          refine or_congr_right ⟨fun h => ?_, fun husable => ?_⟩
          · rcases h with h | h
            · exact hhere h
            · exact .behind hp hnonzero hend (hfound ▸ hleft) (hfound ▸ hhub) (hfound ▸ h)
          · cases husable with
            | here _ _ _ h => exact Or.inl (hfound ▸ h)
            | behind _ _ _ _ _ hnext => exact Or.inr (hfound ▸ hnext)
  · refine Or.inl ⟨(configured, reads), returns_pure.mpr ?_, ht, Or.inl,
      fun h => h.resolve_right fun husable => ?_⟩
    · unfold interfaceRound
      dsimp only
      rw [if_neg hp]
    · cases husable <;> omega

namespace Detection

variable (env : Detection)

/-- `bConfigNum` in front of a round, as long as there are descriptors. -/
def configNumAt : Nat → Nat
  | 0 => env.configNum
  | n + 1 =>
    match getConfig (env.config n) with
    | some (c, _) => ((if c bDescType = descTypeConfig then bConfigValue c else configNumAt n) + 1) % 2 ^ 8
    | none => configNumAt n

/-- The descriptor of a round has an interface for which there is a device. -/
def UsableAt (n : Nat) : Prop :=
  ∃ c totalLength, getConfig (env.config n) = some (c, totalLength) ∧ c bDescType = descTypeConfig
    ∧ Usable totalLength (env.identify n) (mendLength c) ((mendLength c) bDescLength).toNat

/-- Behind a round, there is no configuration left to be asked for: none has been sent, it can be used, or
its number is the last one. -/
def LastAt (numConfigs n : Nat) : Prop :=
  getConfig (env.config n) = none ∨ env.UsableAt n ∨ numConfigs ≤ env.configNumAt (n + 1)

/-- The device is asked for its configurations. -/
def Asked (devDesc : Mem) : Prop :=
  env.alloc = true ∧ env.initDeviceData = true ∧ env.shortDevDesc.isSome ∧ env.freeAddress = true
    ∧ env.setAddress = true ∧ env.devDesc = some devDesc ∧ ¬ devDesc 0 < 18

end Detection

variable {env : Detection} {numConfigs n : Nat} {log : Log}

theorem bConfigValue_mendLength (c : Mem) : bConfigValue (mendLength c) = bConfigValue c := by
  unfold bConfigValue mendLength
  split <;> rfl

variable (env numConfigs n) in
/-- A round ends the loop exactly if there is nothing left; reads stay in bounds, and nothing is freed. -/
theorem configRound_spec (hlog : InBounds log.reads) : ∃ next, (configRound env numConfigs ⟨n, env.configNumAt n, log⟩).Returns next
    ∧ ((∃ ok log', next = .done (ok, log') ∧ env.LastAt numConfigs n ∧ InBounds log'.reads
        ∧ log'.allocs = log.allocs ∧ log'.frees = log.frees)
      ∨ ∃ log', next = .again ⟨n + 1, env.configNumAt (n + 1), log'⟩ ∧ ¬ env.LastAt numConfigs n ∧ InBounds log'.reads
        ∧ log'.allocs = log.allocs ∧ log'.frees = log.frees) := by
  unfold configRound
  dsimp only
  cases hconfig : getConfig (env.config n) with
  | none =>
    exact ⟨.done (false, log), returns_pure.mpr rfl,
      Or.inl ⟨false, log, rfl, Or.inl hconfig, hlog, rfl, rfl⟩⟩
  | some found =>
    obtain ⟨c, totalLength⟩ := found
    dsimp only
    have hnum : env.configNumAt (n + 1)
        = ((if c bDescType = descTypeConfig then bConfigValue c else env.configNumAt n) + 1) % 2 ^ 8 := by
      rw [Detection.configNumAt, hconfig]
    have hsome : getConfig (env.config n) ≠ none := by
      rw [hconfig]
      exact fun h => nomatch h
    split
    · rename_i htype
      rw [if_pos htype] at hnum
      have htotal := getConfig_le hconfig
      obtain ⟨alt, haltLoop, halt⟩ := altLoop_ends (c := mendLength c) htotal
        (s := (((mendLength c) bDescLength).toNat, [])) inBounds_nil
      obtain ⟨walked, hwalkLoop, hwalked, hiff⟩ := interfaceLoop_ends (env.identify n) htotal
        (s := ⟨mendLength c, ((mendLength c) bDescLength).toNat, false, []⟩) inBounds_nil
      have hreads : InBounds ((log.read alt.2).read walked.2).reads :=
        inBounds_append.mpr ⟨hwalked, inBounds_append.mpr ⟨halt, hlog⟩⟩
      have husable : walked.1 = true ↔ env.UsableAt n := by
        rw [hiff]
        constructor
        · intro h
          exact ⟨c, totalLength, hconfig, htype, h.resolve_left Bool.false_ne_true⟩
        · intro ⟨c', totalLength', hconfig', _, h⟩
          obtain ⟨rfl, rfl⟩ := Prod.mk.inj (Option.some.inj (hconfig.symm.trans hconfig'))
          exact Or.inr h
      by_cases hw : walked.1 = true
      · refine ⟨.done (true, (log.read alt.2).read walked.2), haltLoop.bind (hwalkLoop.bind ?_),
          Or.inl ⟨true, _, rfl, Or.inr (Or.inl (husable.mp hw)), hreads, rfl, rfl⟩⟩
        rw [if_pos hw]
        exact returns_pure.mpr rfl
      · by_cases hlt : env.configNumAt (n + 1) < numConfigs
        · refine ⟨.again ⟨n + 1, env.configNumAt (n + 1), (log.read alt.2).read walked.2⟩,
            haltLoop.bind (hwalkLoop.bind ?_), Or.inr ⟨_, rfl, ?_, hreads, rfl, rfl⟩⟩
          · rw [if_neg hw, bConfigValue_mendLength, ← hnum, if_pos hlt]
            exact returns_pure.mpr rfl
          · intro h
            rcases h with h | h | h
            · exact hsome h
            · exact hw (husable.mpr h)
            · omega
        · refine ⟨.done (false, (log.read alt.2).read walked.2), haltLoop.bind (hwalkLoop.bind ?_),
            Or.inl ⟨false, _, rfl, Or.inr (Or.inr (by omega)), hreads, rfl, rfl⟩⟩
          rw [if_neg hw, bConfigValue_mendLength, ← hnum, if_neg hlt]
          exact returns_pure.mpr rfl
    · rename_i htype
      rw [if_neg htype] at hnum
      rw [← hnum]
      have husable : ¬ env.UsableAt n := by
        intro ⟨c', totalLength', hconfig', htype', _⟩
        obtain ⟨rfl, -⟩ := Prod.mk.inj (Option.some.inj (hconfig.symm.trans hconfig'))
        exact htype htype'
      split
      · rename_i hlt
        refine ⟨_, returns_pure.mpr rfl, Or.inr ⟨log, rfl, ?_, hlog, rfl, rfl⟩⟩
        intro h
        rcases h with h | h | h
        · exact hsome h
        · exact husable h
        · omega
      · rename_i hlt
        exact ⟨_, returns_pure.mpr rfl, Or.inl ⟨false, log, rfl, Or.inr (Or.inr (by omega)), hlog, rfl, rfl⟩⟩

variable (log) in
theorem configLoop_ends {k : Nat} (hk : env.LastAt numConfigs k) (hn : n ≤ k) (hlog : InBounds log.reads) :
    ∃ r, (Lib.Run.loop (configRound env numConfigs) ⟨n, env.configNumAt n, log⟩).Returns r ∧ InBounds r.2.reads
      ∧ r.2.allocs = log.allocs ∧ r.2.frees = log.frees := by
  obtain ⟨m, rfl⟩ := Nat.exists_eq_add_of_le hn
  induction m generalizing n log with
  | zero =>
    obtain ⟨next, hround, ⟨ok, log', rfl, -, hreads, hallocs, hfrees⟩ | ⟨log', -, hnot, -⟩⟩ :=
      configRound_spec env numConfigs n hlog
    · exact ⟨(ok, log'), loop_done hround, hreads, hallocs, hfrees⟩
    · exact absurd hk hnot
  | succ m ih =>
    obtain ⟨next, hround, ⟨ok, log', rfl, -, hreads, hallocs, hfrees⟩ | ⟨log', rfl, -, hreads, hallocs, hfrees⟩⟩ :=
      configRound_spec env numConfigs n hlog
    · exact ⟨(ok, log'), loop_done hround, hreads, hallocs, hfrees⟩
    · have hsum : n + 1 + m = n + (m + 1) := by omega
      obtain ⟨r, hloop, hr, hallocs', hfrees'⟩ := ih log' hreads (hsum ▸ hk) (by omega)
      exact ⟨r, loop_again hround hloop, hr, hallocs'.trans hallocs, hfrees'.trans hfrees⟩

theorem lastAt_of_returns {r : Bool × Log} (hlog : InBounds log.reads)
    (hloop : (Lib.Run.loop (configRound env numConfigs) ⟨n, env.configNumAt n, log⟩).Returns r) :
    ∃ k, env.LastAt numConfigs k := by
  have h := loop_induction
    (P := fun s _ => ∀ n log, s = ⟨n, env.configNumAt n, log⟩ → InBounds log.reads → ∃ k, env.LastAt numConfigs k)
    ?_ ?_ hloop
  · exact h n log rfl hlog
  · intro s r hdone n log hs hlog
    rw [hs] at hdone
    obtain ⟨next, hround, ⟨ok, log', rfl, hlast, -⟩ | ⟨log', rfl, -⟩⟩ :=
      configRound_spec env numConfigs n hlog
    · exact ⟨n, hlast⟩
    · cases hdone.unique hround
  · intro s s' r hagain ih n log hs hlog
    rw [hs] at hagain
    obtain ⟨next, hround, ⟨ok, log', rfl, -⟩ | ⟨log', rfl, -, hreads, -⟩⟩ :=
      configRound_spec env numConfigs n hlog
    · cases hagain.unique hround
    · cases hagain.unique hround
      exact ih (n + 1) log' rfl hreads

/-- A function that returns at once has done nothing, or freed what it had. -/
theorem handled_pure {ok : Bool} {log : Log} (hreads : InBounds log.reads) (hfrees : log.Balanced) :
    Handled (pure (ok, log)) := ⟨ok, log, returns_pure.mpr rfl, hreads, hfrees⟩

theorem detectNewDevice_handled :
    Handled (detectNewDevice env) ↔ ∀ devDesc, env.Asked devDesc → ∃ n, env.LastAt (Descriptor.numConfigs devDesc) n := by
  have hnone : Handled (pure (false, {})) := handled_pure inBounds_nil (List.Perm.refl _)
  have hleave : Handled (pure (false, (Log.alloc {} (0, getMemBlkCount maxControlDataSize)).free
      (0, maxControlDataSize / 32 % 2 ^ 8))) := handled_pure inBounds_nil (List.Perm.refl _)
  unfold detectNewDevice
  dsimp only
  by_cases halloc : env.alloc = false
  · rw [if_pos halloc]
    exact iff_of_true hnone fun _ h => absurd h.1 (by rw [halloc]; decide)
  rw [if_neg halloc]
  by_cases hinit : env.initDeviceData = false
  · rw [if_pos hinit]
    exact iff_of_true hleave fun _ h => absurd h.2.1 (by rw [hinit]; decide)
  rw [if_neg hinit]
  by_cases hshort : env.shortDevDesc.isNone = true
  · rw [if_pos hshort]
    refine iff_of_true hleave fun _ h => absurd h.2.2.1 ?_
    rw [Option.isNone_iff_eq_none.mp hshort]
    decide
  rw [if_neg hshort]
  by_cases haddress : env.freeAddress = false ∨ env.setAddress = false
  · rw [if_pos haddress]
    refine iff_of_true hleave fun _ h => ?_
    rcases haddress with hfree | hset
    · exact absurd h.2.2.2.1 (by rw [hfree]; decide)
    · exact absurd h.2.2.2.2.1 (by rw [hset]; decide)
  rw [if_neg haddress]
  cases hdesc : env.devDesc with
  | none =>
    refine iff_of_true hleave fun _ h => ?_
    cases hdesc.symm.trans h.2.2.2.2.2.1
  | some devDesc =>
    dsimp only
    by_cases hlength : devDesc 0 < 18
    · rw [if_pos hlength]
      refine iff_of_true hleave fun _ h => ?_
      cases hdesc.symm.trans h.2.2.2.2.2.1
      exact absurd hlength h.2.2.2.2.2.2
    rw [if_neg hlength]
    have hfree : env.freeAddress = true ∧ env.setAddress = true := by
      rw [not_or, Bool.not_eq_false, Bool.not_eq_false] at haddress
      exact haddress
    have hasked : env.Asked devDesc := by
      refine ⟨by simpa using halloc, by simpa using hinit, ?_, hfree.1, hfree.2, hdesc, hlength⟩
      simpa [Option.isSome_iff_ne_none] using hshort
    constructor
    · intro ⟨ok, log, hreturns, _⟩ devDesc' h
      cases hdesc.symm.trans h.2.2.2.2.2.1
      obtain ⟨found, hloop, -⟩ := returns_bind.mp hreturns
      exact lastAt_of_returns (n := 0) inBounds_nil hloop
    · intro h
      obtain ⟨k, hk⟩ := h devDesc hasked
      obtain ⟨r, hloop, hreads, hallocs, hfrees⟩ :=
        configLoop_ends (Log.alloc {} (0, getMemBlkCount maxControlDataSize)) hk (Nat.zero_le k) inBounds_nil
      refine ⟨r.1, _, hloop.bind (returns_pure.mpr rfl), hreads, ?_⟩
      show ((_, _) :: r.2.frees).Perm r.2.allocs
      rw [hallocs, hfrees]
      exact List.Perm.refl _

/-! ## `USB_ReConfigDevice` -/

theorem findLoop_ends (env : ReConfig) (config : Nat) :
    ∃ found, (Lib.Run.loop (fun config => pure (findRound env config)) config : Lib.Run (Option Mem)).Returns found := by
  have h : ∃ found, (Lib.Run.loop (fun config => pure (findRound env config)) config : Lib.Run (Option Mem)).Returns found
      ∧ True := by
    refine loop_measure (P := fun _ => True) (fun config => env.numConfigs.toNat - config) ?_ trivial
    intro config _
    by_cases hconfig : config < env.numConfigs.toNat
    · have hbyte := env.numConfigs.toNat_lt
      have hmod : (config + 1) % 2 ^ 8 = config + 1 := Nat.mod_eq_of_lt (by omega)
      unfold findRound
      rw [if_pos hconfig]
      split
      · exact Or.inl ⟨none, returns_pure.mpr rfl, trivial⟩
      · rename_i c _ _
        split
        · exact Or.inl ⟨some c, returns_pure.mpr rfl, trivial⟩
        · refine Or.inr ⟨config + 1, returns_pure.mpr ?_, trivial, by omega⟩
          rw [hmod]
    · refine Or.inl ⟨none, returns_pure.mpr ?_, trivial⟩
      unfold findRound
      rw [if_neg hconfig]
  obtain ⟨found, hfound, -⟩ := h
  exact ⟨found, hfound⟩

theorem matchLoop_ends (env : ReConfig) (htotal : totalLength ≤ 2047) (hs : InBounds s.2) :
    ∃ r, (Lib.Run.loop (fun s => pure (matchRound env c totalLength s)) s : Lib.Run (Bool × List Read)).Returns r
      ∧ InBounds r.2 :=
  headerLoop_ends (fun p => (c (p + bDescLength)).toNat = 0)
    (fun p => env.interfaceNum = c (p + bInterfaceNum) ∧ env.altSettingNum = c (p + bAltSettingNum))
    (fun p => [(p, bAltSettingNum), (p, bInterfaceNum)]) htotal (fun _ => id)
    (fun p _ h => (h.behind (p := p) (by decide)).behind (by decide)) (fun _ _ => rfl) hs

theorem reConfigDevice_handled (env : ReConfig) : Handled (reConfigDevice env) := by
  unfold reConfigDevice
  by_cases hbus : env.usbBus = false
  · rw [if_pos hbus]
    exact handled_pure inBounds_nil (List.Perm.refl _)
  rw [if_neg hbus]
  by_cases halloc : env.alloc = false
  · rw [if_pos halloc]
    exact handled_pure inBounds_nil (List.Perm.refl _)
  rw [if_neg halloc]
  obtain ⟨found, hfind⟩ := findLoop_ends env 0
  dsimp only
  cases found with
  | none =>
    refine ⟨_, _, hfind.bind ((returns_pure.mpr rfl).bind (returns_pure.mpr rfl)), ?_, List.Perm.refl _⟩
    exact inBounds_append.mpr ⟨inBounds_nil, inBounds_nil⟩
  | some c =>
    have hmax : maxControlDataSize = 2048 := rfl
    have htotal : (if maxControlDataSize - 1 < wTotalLength c then maxControlDataSize - 1 else wTotalLength c) ≤ 2047 := by
      split <;> omega
    obtain ⟨r, hmatch, hr⟩ := matchLoop_ends (c := c) env htotal (s := ((c bDescLength).toNat, [])) inBounds_nil
    exact ⟨_, _, hfind.bind (hmatch.bind (returns_pure.mpr rfl)), inBounds_append.mpr ⟨hr, inBounds_nil⟩,
      List.Perm.refl _⟩

/-! ## `USB_ResetAndReconfigDev` -/

/-- The descriptor behind the one at an offset. -/
def behind (c : Mem) (p : Nat) : Nat := p + (c (p + bDescLength)).toNat

/-- The walk steps on from the descriptor at an offset, with so many interfaces still to come to. -/
inductive Comes (c : Mem) : Nat → Nat → Prop
  | start (h : 0 < bNumInterfaces c) : Comes c (bNumInterfaces c) 0
  | skip {n p : Nat} (h : Comes c n p) (htotal : behind c p ≤ wTotalLength c) (hmax : behind c p ≤ maxControlDataSize)
      (htype : c (behind c p + bDescType) ≠ descTypeInterface) : Comes c n (behind c p)
  | interface {n p : Nat} (h : Comes c (n + 1) p) (hn : 0 < n)
      (htype : c (behind c p + bDescType) = descTypeInterface) : Comes c n (behind c p)

/-- Each descriptor that the walk comes to has its header in the buffer, and a length unless it is an
interface. -/
def Safe (c : Mem) : Prop :=
  ∀ n p, Comes c n p → behind c p + bDescType < bufferSize
    ∧ ((c (p + bDescLength)).toNat = 0 → c (p + bDescType) = descTypeInterface)

/-- The walk from inside the `do` loop, with so many interfaces behind. -/
def resume (c : Mem) (intrfIndx : Nat) (s : Nat × List Read) : Lib.Run (List Read) := do
  let stepped ← Lib.Run.loop (fun s => pure (stepRound c s)) s
  let reads := (stepped.1, bDescType) :: stepped.2
  if c (stepped.1 + bDescType) ≠ descTypeInterface then return reads
  else Lib.Run.loop (intrfRound c) ⟨(intrfIndx + 1) % 2 ^ 8, stepped.1, reads⟩

variable {final : List Read} {indx : Nat}

theorem loop_intrf_done (h : bNumInterfaces c ≤ indx) : (Lib.Run.loop (intrfRound c) ⟨indx, p, reads⟩).Returns reads := by
  refine loop_done ?_
  unfold intrfRound
  rw [if_neg (by dsimp only; omega)]
  exact returns_pure.mpr rfl

theorem loop_intrf_iff (h : indx < bNumInterfaces c) :
    (Lib.Run.loop (intrfRound c) ⟨indx, p, reads⟩).Returns final ↔ (resume c indx (p, reads)).Returns final := by
  have hbody : ∀ next, (intrfRound c ⟨indx, p, reads⟩).Returns next ↔ ∃ stepped,
      (Lib.Run.loop (fun s => pure (stepRound c s)) (p, reads) : Lib.Run (Nat × List Read)).Returns stepped
        ∧ (if c (stepped.1 + bDescType) ≠ descTypeInterface then .done ((stepped.1, bDescType) :: stepped.2)
          else .again ⟨(indx + 1) % 2 ^ 8, stepped.1, (stepped.1, bDescType) :: stepped.2⟩) = next := by
    intro next
    unfold intrfRound
    rw [if_pos h, returns_bind]
    refine exists_congr fun stepped => and_congr_right fun _ => ?_
    dsimp only
    split <;> exact returns_pure
  unfold resume
  rw [returns_loop, returns_bind]
  constructor
  · intro hreturns
    rcases hreturns with ⟨s', hagain, hloop⟩ | hdone
    · obtain ⟨stepped, hstep, heq⟩ := (hbody _).mp hagain
      refine ⟨stepped, hstep, ?_⟩
      dsimp only
      split at heq
      · cases heq
      · rename_i htype
        cases heq
        rw [if_neg htype]
        exact hloop
    · obtain ⟨stepped, hstep, heq⟩ := (hbody _).mp hdone
      refine ⟨stepped, hstep, ?_⟩
      dsimp only
      split at heq
      · rename_i htype
        cases heq
        rw [if_pos htype]
        exact returns_pure.mpr rfl
      · cases heq
  · intro ⟨stepped, hstep, hrest⟩
    dsimp only at hrest
    split at hrest
    · rename_i htype
      refine Or.inr ((hbody _).mpr ⟨stepped, hstep, ?_⟩)
      rw [if_pos htype, returns_pure.mp hrest]
    · rename_i htype
      exact Or.inl ⟨_, (hbody _).mpr ⟨stepped, hstep, if_neg htype⟩, hrest⟩

/-- One step of the `do` loop. -/
theorem stepRound_eq : stepRound c (p, reads) =
    if wTotalLength c < behind c p ∨ maxControlDataSize < behind c p then
      .done (behind c p, (p, bDescLength) :: reads)
    else if c (behind c p + bDescType) ≠ descTypeInterface then
      .again (behind c p, (behind c p, bDescType) :: (p, bDescLength) :: reads)
    else .done (behind c p, (behind c p, bDescType) :: (p, bDescLength) :: reads) := rfl

variable (reads indx) in
theorem resume_skip (htotal : behind c p ≤ wTotalLength c) (hmax : behind c p ≤ maxControlDataSize)
    (htype : c (behind c p + bDescType) ≠ descTypeInterface) :
    (resume c indx (p, reads)).Returns final ↔
      (resume c indx (behind c p, (behind c p, bDescType) :: (p, bDescLength) :: reads)).Returns final := by
  have hround : stepRound c (p, reads) = .again (behind c p, (behind c p, bDescType) :: (p, bDescLength) :: reads) := by
    rw [stepRound_eq, if_neg (by omega), if_pos htype]
  unfold resume
  rw [returns_bind, returns_bind]
  refine exists_congr fun stepped => and_congr_left fun _ => ?_
  rw [returns_loop, hround]
  simp

variable (reads indx) in
/-- The `do` loop ends at the next descriptor. -/
theorem resume_end (hend : wTotalLength c < behind c p ∨ maxControlDataSize < behind c p
      ∨ c (behind c p + bDescType) = descTypeInterface) :
    ∃ reads', (∀ r ∈ reads', r = (p, bDescLength) ∨ r = (behind c p, bDescType))
      ∧ ∀ final, ((resume c indx (p, reads)).Returns final ↔
        if c (behind c p + bDescType) ≠ descTypeInterface then (behind c p, bDescType) :: (reads' ++ reads) = final
        else (Lib.Run.loop (intrfRound c)
          ⟨(indx + 1) % 2 ^ 8, behind c p, (behind c p, bDescType) :: (reads' ++ reads)⟩).Returns final) := by
  obtain ⟨reads', hreads', hround⟩ : ∃ reads', (∀ r ∈ reads', r = (p, bDescLength) ∨ r = (behind c p, bDescType))
      ∧ stepRound c (p, reads) = .done (behind c p, reads' ++ reads) := by
    rw [stepRound_eq]
    split
    · exact ⟨[(p, bDescLength)], by simp, rfl⟩
    · rename_i hin
      have htype : c (behind c p + bDescType) = descTypeInterface := by
        rcases hend with hend | hend | hend
        · exact absurd (Or.inl hend) hin
        · exact absurd (Or.inr hend) hin
        · exact hend
      rw [if_neg (fun hne => hne htype)]
      exact ⟨[(behind c p, bDescType), (p, bDescLength)], by simp, rfl⟩
  refine ⟨reads', hreads', fun final => ?_⟩
  have hloop : ∀ stepped, (Lib.Run.loop (fun s => pure (stepRound c s)) (p, reads) : Lib.Run (Nat × List Read)).Returns stepped
      ↔ (behind c p, reads' ++ reads) = stepped := by
    intro stepped
    rw [returns_loop, hround]
    simp
  unfold resume
  rw [returns_bind]
  constructor
  · intro ⟨stepped, hstep, hrest⟩
    rw [hloop] at hstep
    rw [← hstep] at hrest
    dsimp only at hrest
    split at hrest
    · rename_i htype
      rw [if_pos htype]
      exact returns_pure.mp hrest
    · rename_i htype
      rw [if_neg htype]
      exact hrest
  · intro h
    refine ⟨_, (hloop _).mpr rfl, ?_⟩
    dsimp only
    split at h
    · rename_i htype
      rw [if_pos htype]
      exact returns_pure.mpr h
    · rename_i htype
      rw [if_neg htype]
      exact h

theorem Comes.lt (hsafe : Safe c) (h : Comes c n p) : p < 2047 := by
  have hsize : bufferSize = 2048 := rfl
  have htype : bDescType = 1 := rfl
  cases h with
  | start => omega
  | skip h _ _ _ =>
    have := (hsafe _ _ h).1
    omega
  | interface h _ _ =>
    have := (hsafe _ _ h).1
    omega

theorem Comes.pos (h : Comes c n p) : 0 < n := by
  induction h with
  | start h => exact h
  | skip _ _ _ _ ih => exact ih
  | interface _ hn _ _ => exact hn

/-- The interfaces still to come to become fewer, or the descriptor is further behind. -/
theorem resume_ends (hsafe : Safe c) (h : Comes c n p) (hindx : n + indx = bNumInterfaces c) (hreads : InBounds reads) :
    ∃ final, (resume c indx (p, reads)).Returns final ∧ InBounds final := by
  induction hm : n * 4096 + (2048 - p) using Nat.strong_induction_on generalizing n p indx reads with
  | _ m ih =>
    obtain ⟨hnext, hlength⟩ := hsafe n p h
    have hsize : bufferSize = 2048 := rfl
    have hone : bDescType = 1 := rfl
    have hp := h.lt hsafe
    have hpos := h.pos
    have hbyte : bNumInterfaces c < 256 := (c 4).toNat_lt
    have hbehind : behind c p = p + (c (p + bDescLength)).toNat := rfl
    have hq : behind c p < 2047 := by omega
    by_cases hend : wTotalLength c < behind c p ∨ maxControlDataSize < behind c p
        ∨ c (behind c p + bDescType) = descTypeInterface
    · obtain ⟨reads', hreads', hiff⟩ := resume_end reads indx hend
      have hbounds : InBounds ((behind c p, bDescType) :: (reads' ++ reads)) := by
        refine (inBounds_append.mpr ⟨fun r hr _ => ?_, hreads⟩).header hq (Nat.le_refl _)
        rcases hreads' r hr with rfl | rfl
        · show p + 0 < bufferSize
          omega
        · exact hnext
      by_cases htype : c (behind c p + bDescType) = descTypeInterface
      · by_cases hmore : indx + 1 < bNumInterfaces c
        · obtain ⟨n, rfl⟩ : ∃ m, n = m + 1 := ⟨n - 1, by omega⟩
          obtain ⟨final, hfinal, hb⟩ := ih (n * 4096 + (2048 - behind c p)) (by omega)
            (.interface h (by omega) htype) (show n + (indx + 1) = _ by omega) hbounds rfl
          refine ⟨final, (hiff final).mpr ?_, hb⟩
          rw [if_neg (fun hne => hne htype), Nat.mod_eq_of_lt (by omega)]
          exact (loop_intrf_iff hmore).mpr hfinal
        · refine ⟨_, (hiff _).mpr ?_, hbounds⟩
          rw [if_neg (fun hne => hne htype), Nat.mod_eq_of_lt (by omega)]
          exact loop_intrf_done (by omega)
      · refine ⟨_, (hiff _).mpr ?_, hbounds⟩
        rw [if_pos htype]
    · rw [not_or, not_or] at hend
      obtain ⟨htotal, hmax, htype⟩ := hend
      have hcomes := Comes.skip h (by omega) (by omega) htype
      have hgrow : p < behind c p := by
        by_cases hzero : (c (p + bDescLength)).toNat = 0
        · have hsame : behind c p = p := by omega
          refine absurd ?_ htype
          rw [hsame]
          exact hlength hzero
        · omega
      obtain ⟨final, hfinal, hb⟩ := ih (n * 4096 + (2048 - behind c p)) (by omega) hcomes hindx
        (((hreads.header hp (show bDescLength ≤ bDescType by decide))).header hq (Nat.le_refl _)) rfl
      exact ⟨final, (resume_skip reads indx (by omega) (by omega) htype).mpr hfinal, hb⟩

/-- What has been read stays in the list. -/
theorem step_reads
    (h : (Lib.Run.loop (fun s => pure (stepRound c s)) s : Lib.Run (Nat × List Read)).Returns r) : s.2 ⊆ r.2 := by
  refine loop_induction (P := fun s r => s.2 ⊆ r.2) ?_ ?_ h
  · intro s r hdone
    rw [returns_pure, stepRound_eq] at hdone
    split at hdone
    · cases hdone
      exact List.subset_cons_self _ _
    · split at hdone
      · cases hdone
      · cases hdone
        exact fun x hx => List.mem_cons_of_mem _ (List.mem_cons_of_mem _ hx)
  · intro s s' r hagain ih
    rw [returns_pure, stepRound_eq] at hagain
    split at hagain
    · cases hagain
    · split at hagain
      · cases hagain
        exact fun x hx => ih (List.mem_cons_of_mem _ (List.mem_cons_of_mem _ hx))
      · cases hagain

theorem intrf_reads {s : Interfaces} (h : (Lib.Run.loop (intrfRound c) s).Returns final) : s.reads ⊆ final := by
  refine loop_induction (P := fun s r => s.reads ⊆ r) ?_ ?_ h
  · intro s r hdone
    unfold intrfRound at hdone
    split at hdone
    · obtain ⟨stepped, hstep, hrest⟩ := returns_bind.mp hdone
      have hsub := step_reads hstep
      dsimp only at hrest
      split at hrest
      · cases returns_pure.mp hrest
        exact fun x hx => List.mem_cons_of_mem _ (hsub hx)
      · cases returns_pure.mp hrest
    · cases returns_pure.mp hdone
      exact fun x hx => hx
  · intro s s' r hagain ih
    unfold intrfRound at hagain
    split at hagain
    · obtain ⟨stepped, hstep, hrest⟩ := returns_bind.mp hagain
      have hsub := step_reads hstep
      dsimp only at hrest
      split at hrest
      · cases returns_pure.mp hrest
      · cases returns_pure.mp hrest
        exact fun x hx => ih (List.mem_cons_of_mem _ (hsub hx))
    · cases returns_pure.mp hagain

/-- The type of the next descriptor has been read. -/
theorem resume_reads (h : (resume c indx (p, reads)).Returns final) : (behind c p, bDescType) ∈ final := by
  by_cases hend : wTotalLength c < behind c p ∨ maxControlDataSize < behind c p
      ∨ c (behind c p + bDescType) = descTypeInterface
  · obtain ⟨reads', -, hiff⟩ := resume_end reads indx hend
    have hrest := (hiff final).mp h
    split at hrest
    · rw [← hrest]
      exact List.mem_cons_self
    · exact intrf_reads hrest List.mem_cons_self
  · rw [not_or, not_or] at hend
    obtain ⟨htotal, hmax, htype⟩ := hend
    have hnext := (resume_skip reads indx (by omega) (by omega) htype).mp h
    unfold resume at hnext
    obtain ⟨stepped, hstep, hrest⟩ := returns_bind.mp hnext
    have hread := step_reads hstep (List.mem_cons_self (a := (behind c p, bDescType)))
    dsimp only at hrest
    split at hrest
    · cases returns_pure.mp hrest
      exact List.mem_cons_of_mem _ hread
    · exact intrf_reads hrest (List.mem_cons_of_mem _ hread)

/-- A walk that returns has gone through all descriptors it comes to. -/
theorem Comes.resumed (h : Comes c n p) (hfinal : (Lib.Run.loop (intrfRound c) ⟨0, 0, []⟩).Returns final) :
    ∃ indx reads, n + indx = bNumInterfaces c ∧ (resume c indx (p, reads)).Returns final := by
  have hbyte : bNumInterfaces c < 256 := (c 4).toNat_lt
  induction h with
  | start hpos => exact ⟨0, [], rfl, (loop_intrf_iff hpos).mp hfinal⟩
  | skip _ htotal hmax htype ih =>
    obtain ⟨indx, reads, hindx, hresume⟩ := ih
    exact ⟨indx, _, hindx, (resume_skip reads indx htotal hmax htype).mp hresume⟩
  | @interface n p _ hn htype ih =>
    obtain ⟨indx, reads, hindx, hresume⟩ := ih
    obtain ⟨reads', -, hiff⟩ := resume_end reads indx (Or.inr (Or.inr htype))
    have hrest := (hiff final).mp hresume
    rw [if_neg (fun hne => hne htype), Nat.mod_eq_of_lt (by omega)] at hrest
    exact ⟨indx + 1, _, by omega, (loop_intrf_iff (by omega)).mp hrest⟩

/-- A descriptor without a length leads to itself. -/
theorem not_returns_of_zero (hzero : (c (p + bDescLength)).toNat = 0) (htotal : p ≤ wTotalLength c)
    (hmax : p ≤ maxControlDataSize) (htype : c (p + bDescType) ≠ descTypeInterface) :
    ¬ (Lib.Run.loop (fun s => pure (stepRound c s)) (p, reads) : Lib.Run (Nat × List Read)).Returns r := by
  intro h
  have hsame : behind c p = p := by
    unfold behind
    omega
  have hround : ∀ reads, stepRound c (p, reads) = .again (p, (p, bDescType) :: (p, bDescLength) :: reads) := by
    intro reads
    rw [stepRound_eq, hsame, if_neg (by omega), if_pos htype]
  refine loop_induction (P := fun s _ => s.1 = p → False) ?_ ?_ h rfl
  · intro s r hdone hs
    obtain ⟨p', reads'⟩ := s
    obtain rfl : p' = p := hs
    rw [hround] at hdone
    cases returns_pure.mp hdone
  · intro s s' r hagain ih hs
    obtain ⟨p', reads'⟩ := s
    obtain rfl : p' = p := hs
    rw [hround] at hagain
    cases returns_pure.mp hagain
    exact ih rfl

/-- Where the walk steps on from is in the descriptor, or at an interface. -/
theorem Comes.inside (h : Comes c n p) :
    (p ≤ wTotalLength c ∧ p ≤ maxControlDataSize) ∨ c (p + bDescType) = descTypeInterface := by
  cases h with
  | start => exact Or.inl ⟨Nat.zero_le _, Nat.zero_le _⟩
  | skip _ htotal hmax _ => exact Or.inl ⟨htotal, hmax⟩
  | interface _ _ htype => exact Or.inr htype

/-- The walk over the interfaces of a configuration. -/
theorem intrf_iff : (∃ final, (Lib.Run.loop (intrfRound c) ⟨0, 0, []⟩).Returns final ∧ InBounds final) ↔ Safe c := by
  constructor
  · intro ⟨final, hfinal, hbounds⟩ n p h
    obtain ⟨indx, reads, -, hresume⟩ := h.resumed hfinal
    refine ⟨hbounds _ (resume_reads hresume) (Nat.le_refl _), fun hzero => ?_⟩
    refine Decidable.byContradiction fun htype => ?_
    obtain ⟨htotal, hmax⟩ := h.inside.resolve_right htype
    unfold resume at hresume
    obtain ⟨stepped, hstep, -⟩ := returns_bind.mp hresume
    exact not_returns_of_zero hzero htotal hmax htype hstep
  · intro hsafe
    by_cases hpos : 0 < bNumInterfaces c
    · obtain ⟨final, hfinal, hbounds⟩ := resume_ends hsafe (.start hpos) (Nat.add_zero _) inBounds_nil
      exact ⟨final, (loop_intrf_iff hpos).mpr hfinal, hbounds⟩
    · exact ⟨[], loop_intrf_done (by omega), inBounds_nil⟩

namespace Reset

variable (env : Reset)

/-- The walk over the descriptors of a round. -/
def SafeAt (n : Nat) : Prop := ∀ c totalLength, getConfig (env.config n) = some (c, totalLength) → Safe c

/-- A round can read this of the descriptors. -/
def ReadAt (n : Nat) (reads : List Read) : Prop :=
  match getConfig (env.config n) with
  | none => reads = []
  | some (c, _) => (Lib.Run.loop (intrfRound c) ⟨0, 0, []⟩).Returns reads

/-- The device is asked for its configurations. -/
def Asked (devDesc : Mem) : Prop :=
  env.portEnabled = true ∧ env.allocDevDesc = true ∧ env.devDesc = some devDesc ∧ env.setAddress = true ∧ env.alloc = true

end Reset

section configs

variable {env : Reset} {numConfigs i : Nat} {log log' : Log}

theorem resetLoop_done (h : numConfigs ≤ i) : (Lib.Run.loop (resetRound env numConfigs) (i, log)).Returns log := by
  refine loop_done ?_
  unfold resetRound
  rw [if_neg (by omega)]
  exact returns_pure.mpr rfl

/-- No round ends the loop. -/
theorem resetLoop_next {next : Next (Nat × Log) Log} (h : i < numConfigs) :
    (resetRound env numConfigs (i, log)).Returns next ↔
      ∃ reads, next = .again ((i + 1) % 2 ^ 8, log.read reads) ∧ env.ReadAt i reads := by
  unfold resetRound Reset.ReadAt
  rw [if_pos h]
  dsimp only
  cases getConfig (env.config i) with
  | none =>
    rw [returns_pure]
    constructor
    · intro h
      exact ⟨[], h.symm, rfl⟩
    · intro ⟨_, hnext, hreads⟩
      rw [hnext, hreads]
      rfl
  | some found =>
    rw [returns_bind]
    constructor
    · intro ⟨reads, hwalk, hnext⟩
      exact ⟨reads, (returns_pure.mp hnext).symm, hwalk⟩
    · intro ⟨reads, hnext, hwalk⟩
      exact ⟨reads, hwalk, returns_pure.mpr hnext.symm⟩

theorem resetRound_safe : (∃ reads, env.ReadAt i reads ∧ InBounds reads) ↔ env.SafeAt i := by
  unfold Reset.SafeAt Reset.ReadAt
  cases hconfig : getConfig (env.config i) with
  | none => exact iff_of_true ⟨[], rfl, inBounds_nil⟩ fun _ _ h => nomatch h
  | some found =>
    obtain ⟨c, totalLength⟩ := found
    dsimp only
    rw [intrf_iff]
    constructor
    · intro hsafe c' totalLength' h
      obtain ⟨rfl, -⟩ := Prod.mk.inj (Option.some.inj h)
      exact hsafe
    · intro h
      exact h c totalLength rfl

variable (env i log) in
theorem resetLoop_iff (hnum : numConfigs < 2 ^ 8) :
    (∃ log', (Lib.Run.loop (resetRound env numConfigs) (i, log)).Returns log' ∧ InBounds log'.reads) ↔
      InBounds log.reads ∧ ∀ j, i ≤ j → j < numConfigs → env.SafeAt j := by
  induction hm : numConfigs - i generalizing i log with
  | zero =>
    constructor
    · intro ⟨log', hloop, hreads⟩
      cases hloop.unique (resetLoop_done (by omega))
      exact ⟨hreads, fun j _ _ => by omega⟩
    · intro ⟨hreads, _⟩
      exact ⟨log, resetLoop_done (by omega), hreads⟩
  | succ m ih =>
    have hi : i < numConfigs := by omega
    have hmod : (i + 1) % 2 ^ 8 = i + 1 := Nat.mod_eq_of_lt (by omega)
    constructor
    · intro ⟨log', hloop, hreads⟩
      rcases returns_loop.mp hloop with ⟨s', hagain, hrest⟩ | hdone
      · obtain ⟨reads, hnext, hwalk⟩ := (resetLoop_next hi).mp hagain
        cases hnext
        rw [hmod] at hrest
        obtain ⟨hall, hsafe⟩ := (ih _ _ (by omega)).mp ⟨log', hrest, hreads⟩
        obtain ⟨hwalked, hlog⟩ := inBounds_append.mp hall
        refine ⟨hlog, fun j hj hlt => ?_⟩
        rcases Nat.eq_or_lt_of_le hj with rfl | hj
        · exact resetRound_safe.mp ⟨reads, hwalk, hwalked⟩
        · exact hsafe j hj hlt
      · obtain ⟨_, hnext, _⟩ := (resetLoop_next hi).mp hdone
        cases hnext
    · intro ⟨hlog, hsafe⟩
      obtain ⟨reads, hwalk, hwalked⟩ := resetRound_safe.mpr (hsafe i (Nat.le_refl _) hi)
      obtain ⟨log', hrest, hreads⟩ := (ih (i + 1) (log.read reads) (by omega)).mpr
        ⟨inBounds_append.mpr ⟨hwalked, hlog⟩, fun j hj hlt => hsafe j (by omega) hlt⟩
      rw [← hmod] at hrest
      exact ⟨log', loop_again ((resetLoop_next hi).mpr ⟨reads, rfl, hwalk⟩) hrest, hreads⟩

/-- The buffers are left alone. -/
theorem resetLoop_frame (h : (Lib.Run.loop (resetRound env numConfigs) (i, log)).Returns log') :
    log'.allocs = log.allocs ∧ log'.frees = log.frees := by
  refine loop_induction (P := fun s r => r.allocs = s.2.allocs ∧ r.frees = s.2.frees) ?_ ?_ h
  · intro s r hdone
    by_cases hi : s.1 < numConfigs
    · obtain ⟨_, hnext, _⟩ := (resetLoop_next hi).mp hdone
      cases hnext
    · unfold resetRound at hdone
      rw [if_neg hi] at hdone
      cases returns_pure.mp hdone
      exact ⟨rfl, rfl⟩
  · intro s s' r hagain ih
    by_cases hi : s.1 < numConfigs
    · obtain ⟨reads, hnext, _⟩ := (resetLoop_next hi).mp hagain
      cases hnext
      exact ih
    · unfold resetRound at hagain
      rw [if_neg hi] at hagain
      cases returns_pure.mp hagain

theorem resetAndReconfigDev_handled (env : Reset) : Handled (resetAndReconfigDev env) ↔
    ∀ devDesc, env.Asked devDesc → ∀ n < (devDesc 17).toNat, env.SafeAt n := by
  have hsmall : Handled (pure (false, (Log.alloc {} (0, getMemBlkCount devDescSize)).free (0, getMemBlkCount devDescSize))) :=
    handled_pure inBounds_nil (List.Perm.refl _)
  have hnone : Handled (pure (false, {})) := handled_pure inBounds_nil (List.Perm.refl _)
  unfold resetAndReconfigDev
  dsimp only
  by_cases hport : env.portEnabled = false
  · rw [if_pos hport]
    exact iff_of_true hnone fun _ h => absurd h.1 (by rw [hport]; decide)
  rw [if_neg hport]
  by_cases hdev : env.allocDevDesc = false
  · rw [if_pos hdev]
    exact iff_of_true hnone fun _ h => absurd h.2.1 (by rw [hdev]; decide)
  rw [if_neg hdev]
  cases hdesc : env.devDesc with
  | none =>
    refine iff_of_true hsmall fun _ h => ?_
    cases hdesc.symm.trans h.2.2.1
  | some devDesc =>
    dsimp only
    by_cases haddress : env.setAddress = false
    · rw [if_pos haddress]
      exact iff_of_true hsmall fun _ h => absurd h.2.2.2.1 (by rw [haddress]; decide)
    rw [if_neg haddress]
    by_cases halloc : env.alloc = false
    · rw [if_pos halloc]
      exact iff_of_true hsmall fun _ h => absurd h.2.2.2.2 (by rw [halloc]; decide)
    rw [if_neg halloc]
    have hasked : env.Asked devDesc :=
      ⟨by simpa using hport, by simpa using hdev, hdesc, by simpa using haddress, by simpa using halloc⟩
    have hloop := resetLoop_iff env 0
      ((Log.alloc {} (0, getMemBlkCount devDescSize)).alloc (1, getMemBlkCount maxControlDataSize))
      (show (devDesc 17).toNat < 2 ^ 8 from (devDesc 17).toNat_lt)
    constructor
    · intro ⟨ok, log, hreturns, hreads, _⟩ devDesc' h n hn
      cases hdesc.symm.trans h.2.2.1
      obtain ⟨log', hwalk, hlog⟩ := returns_bind.mp hreturns
      cases returns_pure.mp hlog
      exact (hloop.mp ⟨log', hwalk, hreads⟩).2 n (Nat.zero_le n) hn
    · intro h
      obtain ⟨log, hwalk, hreads⟩ := hloop.mpr ⟨inBounds_nil, fun j _ hj => h devDesc hasked j hj⟩
      obtain ⟨hallocs, hfrees⟩ := resetLoop_frame hwalk
      refine ⟨true, _, hwalk.bind (returns_pure.mpr rfl), hreads, ?_⟩
      show ((_, _) :: (_, _) :: log.frees).Perm log.allocs
      rw [hallocs, hfrees]
      exact List.Perm.refl _

end configs

/-- When a device is handled. -/
theorem descriptorWalks_handled (detection : Detection) (reConfig : ReConfig) (reset : Reset) :
    (Handled (detectNewDevice detection) ↔
      ∀ devDesc, detection.Asked devDesc → ∃ n, detection.LastAt (Descriptor.numConfigs devDesc) n)
    ∧ Handled (reConfigDevice reConfig)
    ∧ (Handled (resetAndReconfigDev reset) ↔
      ∀ devDesc, reset.Asked devDesc → ∀ n < (devDesc 17).toNat, reset.SafeAt n) :=
  ⟨detectNewDevice_handled, reConfigDevice_handled reConfig, resetAndReconfigDev_handled reset⟩

/-- A device with one configuration, the descriptor of which has no length. -/
def withoutLength : Reset where
  portEnabled := true
  allocDevDesc := true
  devDesc := some fun a => [18, 1, 0, 2, 0, 0, 0, 64, 0, 0, 0, 0, 0, 0, 0, 0, 0, 1].getD a 0
  setAddress := true
  alloc := true
  config := fun _ _ => some fun a => [0, 2, 9, 0, 1, 1].getD a 0

theorem not_descriptorWalks_handled : ¬ ((∀ env : Detection, Handled (detectNewDevice env))
    ∧ (∀ env : ReConfig, Handled (reConfigDevice env)) ∧ ∀ env : Reset, Handled (resetAndReconfigDev env)) := by
  intro ⟨_, _, h⟩
  have hsafe := (resetAndReconfigDev_handled withoutLength).mp (h withoutLength) _ ⟨rfl, rfl, rfl, rfl, rfl⟩ 0 (by decide)
    _ _ rfl
  exact absurd ((hsafe _ _ (.start (by decide))).2 rfl) (by decide)

end BayTrail.Usb.Descriptor
