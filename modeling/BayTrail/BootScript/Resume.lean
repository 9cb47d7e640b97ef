import BayTrail.BootScript.Perform

/-!
# The S3 boot script: save and resume

From the calls of the savers to the execution of the closed table: the entries are in
the order of the calls, and the loop of the executer performs them one after the other
until the terminator.
-/

namespace BayTrail.BootScript

open BayTrail.Lib

/-! ## Saving -/

/-- The savers accept the requests, one call after the other. -/
inductive Accepts : State → List Request → State → Prop where
  | nil (s : State) : Accepts s [] s
  | snoc {s s' s'' : State} {rs : List Request} {env : Env} {pad : Mem} {r : Request}
      (h : Accepts s rs s') (hr : saveStateWrite env pad s' r = (.success, s'')) :
      Accepts s (rs ++ [r]) s''

/-- A saver made the entry for the request. -/
def Entry.Encodes (e : Entry) (r : Request) : Prop :=
  ∃ pad x, opCodeFuncs pad r = .ok x ∧ e.body = x.header ++ x.data

section

variable {pf : Platform} {polls : Nat} {r : Request} {rs : List Request} {es : List Entry}
  {e : Entry} {s s' : State} {env : Env} {pad : Mem} {y : Saved}

theorem Entry.Encodes.length_eq (h : e.Encodes r) : e.length = sizeofInfo + r.entrySize := by
  obtain ⟨pad, x, hx, hbody⟩ := h
  have := (opCodeFuncs_sized hx).size
  unfold Entry.length
  rw [hbody, List.length_append, this]

/-- An accepted request that is supported fits the length of an entry. -/
theorem short_of_supported (hy : opCodeFuncs pad r = .ok y) (hs : r.Supported pf) :
    sizeofInfo + r.entrySize < 2 ^ 32 := by
  unfold sizeofInfo
  cases r with
  | ioWrite w a n b =>
    obtain ⟨hsaves, -, hfit⟩ := hs
    obtain ⟨-, hok, -⟩ := saveWrite_ok hy
    simp only [ioRange, decide_eq_true_eq] at hok
    rw [addressCount_eq hsaves (by omega), uintn_of_lt hfit] at hok
    simp only [Request.entrySize]
    rw [addressCount_eq hsaves (by omega)]
    omega
  | memWrite w a n b =>
    obtain ⟨hsaves, -, hshort⟩ := hs
    simp only [Request.entrySize]
    rw [addressCount_eq hsaves (by omega)]
    omega
  | pciWrite w a n b =>
    obtain ⟨hsaves, hfit⟩ := hs
    obtain ⟨-, hok, -⟩ := saveWrite_ok hy
    obtain ⟨hall, hlow⟩ := pciWrite_fits hsaves hfit hok
    simp only [Request.entrySize]
    rw [addressCount_eq hall (by omega)]
    omega
  | pciCfg2Write w g a n b =>
    obtain ⟨hsaves, hfit, -⟩ := hs
    obtain ⟨-, hok, -⟩ := saveWrite_ok hy
    obtain ⟨hall, hlow⟩ := pciWrite_fits hsaves hfit hok
    simp only [Request.entrySize]
    rw [addressCount_eq hall (by omega)]
    omega
  | smbusExecute s c o k n b =>
    obtain ⟨-, -, hlength⟩ := hs
    simp only [Request.entrySize]
    omega
  | _ => simp [Request.entrySize]

/-- The size that a saver asks for is that of what it saves. -/
theorem size_eq_of_supported (hy : opCodeFuncs pad r = .ok y) (hs : r.Supported pf) :
    y.size = y.header.length + y.data.length := by
  obtain ⟨hcons, hsize⟩ := opCodeFuncs_sized hy
  have hshort := short_of_supported hy hs
  rw [hcons, uintn_of_lt (by omega)]

variable {ok : Bool} {header : Bytes} {status : Status}

theorem saveWrite_error {width count : Nat} {buffer : Mem} (h : saveWrite width count buffer ok header = .error status) :
    status = .invalidParameter := by
  unfold saveWrite at h
  split at h
  next => exact (Except.error.inj h).symm
  next =>
    split at h
    next => exact (Except.error.inj h).symm
    next => cases h

theorem saveOne_error (h : saveOne ok header = .error status) : status = .invalidParameter := by
  unfold saveOne at h
  split at h
  next => exact (Except.error.inj h).symm
  next => cases h

/-- The one way in which a saver rejects its arguments. -/
theorem opCodeFuncs_error (h : opCodeFuncs pad r = .error status) :
    status = .invalidParameter := by
  cases r with
  | ioWrite | memWrite | pciWrite | pciCfg2Write => exact saveWrite_error h
  | smbusExecute | stall | dispatch | dispatch2 | information => cases h
  | _ => exact saveOne_error h

/-- A call appends its entry. -/
theorem saveStateWrite_appends (T : Tiled s.info es) (hins : s.insert = clearInsertInfo)
    (hcount : s.info.numTableEntries < 2 ^ 32) (hs : r.Supported pf)
    (h : saveStateWrite env pad s r = (.success, s')) :
    ∃ e : Entry, e.Encodes r ∧ Tiled s'.info (es ++ [e]) ∧ s'.insert = clearInsertInfo := by
  unfold saveStateWrite at h
  split at h
  next status hstatus =>
    obtain ⟨rfl, -⟩ := Prod.mk.inj h
    exact absurd (opCodeFuncs_error hstatus) (by decide)
  next y hy =>
    have hshort := short_of_supported hy hs
    obtain ⟨hcons, hsize⟩ := opCodeFuncs_sized hy
    have hcases := saveEntry_cases env T hcons (by unfold Saved.Short; omega) hcount
    rw [h] at hcases
    obtain ⟨hins', ⟨hstatus, -⟩ | ⟨-, pre, post, e, rfl, hplaced, -, hbody, T'⟩⟩ := hcases
    · cases hstatus
    · have hpost : post = [] := by
        unfold Placed at hplaced
        rw [hins] at hplaced
        exact hplaced
      subst hpost
      rw [List.append_nil]
      exact ⟨e, ⟨pad, y, hy, hbody⟩, T', hins'.trans hins⟩

/-- The entries of accepted requests, in the order of the calls. -/
theorem accepts_encodes {info : TableInfo} (h0 : newTable env = some info)
    (h : Accepts ⟨info, clearInsertInfo⟩ rs s) (hcount : rs.length ≤ 2 ^ 32)
    (hs : ∀ r ∈ rs, r.Supported pf) :
    ∃ es : List Entry, Tiled s.info es ∧ List.Forall₂ Entry.Encodes es rs
      ∧ s.insert = clearInsertInfo := by
  induction h with
  | nil => exact ⟨[], newTable_tiled h0, .nil, rfl⟩
  | @snoc s' s'' rs env pad r h hr ih =>
    rw [List.length_append, List.length_singleton] at hcount
    obtain ⟨es, T, F, hins⟩ := ih (by omega) fun r hr => hs r (List.mem_append_left _ hr)
    have hlen : s'.info.numTableEntries < 2 ^ 32 := by
      rw [T.count, F.length_eq]
      omega
    obtain ⟨e, he, T', hins'⟩ :=
      saveStateWrite_appends T hins hlen (hs r (by simp)) hr
    exact ⟨es ++ [e], T', List.rel_append F (.cons he .nil), hins'⟩

/-! ## The loop of the executer -/

/-- The loop performs the entries from `p` on, and stops at the terminator. -/
theorem executeLoop_performs (polls : Nat) (F : List.Forall₂ Entry.Encodes es rs) :
    (∀ r ∈ rs, r.Supported pf) → ∀ (x : Exec) (p fuel : Nat),
    Holds x.mem p (layout Entry.bytes es) →
    Holds x.mem (p + logSize es + sizeofInfo) (leBytes 2 tableEndOpCode) → es.length < fuel →
    (Request.performAll pf polls rs x.history = none → executeLoop pf polls fuel p x = none) ∧
    ∀ h, Request.performAll pf polls rs x.history = some h →
      ∃ x', executeLoop pf polls fuel p x = some (.success, x') ∧ x'.history = h
        ∧ x'.walk = x.walk ++ (place Entry.bytes p es).map Prod.fst ++ [p + logSize es] := by
  induction F with
  | nil =>
    intro _ x p fuel _ hend hfuel
    obtain ⟨n, rfl⟩ := Nat.exists_eq_succ_of_ne_zero (Nat.pos_iff_ne_zero.mp hfuel)
    have htype : rd x.mem 2 (p + sizeofInfo) % 256 = 0xff := congrArg (· % 256) hend.rd_eq
    have hstop : executeEntry pf polls { x with walk := x.walk ++ [p] } (p + sizeofInfo)
        = some (.stop .success { x with walk := x.walk ++ [p] }) := by
      unfold executeEntry
      simp only [htype]
    refine ⟨fun h => absurd h (by simp [Request.performAll]), fun h hh => ?_⟩
    obtain rfl := Option.some.inj hh
    rw [executeLoop]
    simp only [hstop]
    exact ⟨_, rfl, rfl, by simp [logSize]⟩
  | @cons e r es rs he F ih =>
    intro hs x p fuel hm hend hfuel
    obtain ⟨n, rfl⟩ := Nat.exists_eq_succ_of_ne_zero (Nat.ne_of_gt (Nat.zero_lt_of_lt hfuel))
    rw [layout_cons, holds_append, Entry.bytes_length] at hm
    obtain ⟨he0, hes⟩ := hm
    have hlen := he.length_eq
    obtain ⟨pad, y, hy, hbody⟩ := he
    have hbody' := holds_body he0
    rw [hbody] at hbody'
    obtain ⟨v, m', hframe, hexec⟩ := executeEntry_performs
      (x := { x with walk := x.walk ++ [p] }) polls hy (hs r (by simp)) hbody'
    rw [Nat.add_assoc, ← hlen] at hframe hexec
    rw [executeLoop]
    simp only [hexec, Request.performAll]
    cases hr : r.perform pf polls x.history with
    | none => exact ⟨fun _ => rfl, fun h hh => absurd hh (by simp)⟩
    | some h1 =>
      simp only [Option.map_some, Option.bind_some]
      -- the rest of the table is behind what the entry may change
      have hend' : Holds m' (p + e.length + logSize es + sizeofInfo) (leBytes 2 tableEndOpCode) := by
        have heq : p + e.length + logSize es + sizeofInfo = p + logSize (e :: es) + sizeofInfo := by
          rw [logSize_cons]
          omega
        rw [heq]
        refine hend.congr fun a ha _ => hframe a (Or.inr ?_)
        rw [logSize_cons] at ha
        omega
      have hrest := ih (fun r hr => hs r (List.mem_cons_of_mem _ hr))
        { mem := m', value := v, walk := x.walk ++ [p], history := h1 } (p + e.length) n
        (hes.congr fun a ha _ => hframe a (Or.inr ha)) hend'
        (by rw [List.length_cons] at hfuel; omega)
      refine ⟨hrest.1, fun h hh => ?_⟩
      obtain ⟨x', hx', hh', hwalk⟩ := hrest.2 h hh
      refine ⟨x', hx', hh', ?_⟩
      rw [hwalk, place_cons, List.map_cons, Entry.bytes_length, logSize_cons]
      simp [Nat.add_assoc]

variable {info : TableInfo} {closed : State} {env' : Env} (h0 : newTable env = some info)
  (hacc : Accepts ⟨info, clearInsertInfo⟩ rs s) (hclose : efiBootScriptCloseTable env' s = (.success, closed))
  (hne : rs ≠ []) (hcount : rs.length ≤ 2 ^ 32) (hs : ∀ r ∈ rs, r.Supported pf)
  (hsmbus : pf.smBusPpi = true) (hstall : pf.stallPpi = true)

include h0 hacc hclose hne hcount hs hsmbus hstall

/-- The run of a closed table is that of its requests. -/
theorem executeScript_run :
    ∃ es : List Entry, Tiled closed.info es ∧ List.Forall₂ Entry.Encodes es rs ∧
      ∀ polls fuel value, rs.length < fuel →
        let run := executeScript pf polls fuel value false closed.info.tableBottom closed.info.mem
        (Request.performAll pf polls rs [] = none → run = none) ∧
        ∀ h, Request.performAll pf polls rs [] = some h →
          ∃ x, run = some (.success, x) ∧ x.history = h
            ∧ x.walk = (place Entry.bytes 0 es).map Prod.fst ++ [closed.info.tablePtr] := by
  obtain ⟨es, T, F, -⟩ := accepts_encodes h0 hacc hcount hs
  have hes : es ≠ [] := by
    rintro rfl
    exact hne (List.forall₂_nil_left_iff.mp F)
  have hclosed := efiBootScriptCloseTable_tiled T env'
  rw [hclose] at hclosed
  refine ⟨es, hclosed, F, fun polls fuel value hfuel => ?_⟩
  have hend := hclosed.terminated hes
  have hrun := executeLoop_performs polls F hs ⟨closed.info.mem, value, [], []⟩ 0 fuel
    hclosed.holds (by rw [Nat.zero_add, ← hclosed.ptr]; exact hend)
    (by rw [F.length_eq]; exact hfuel)
  have hexec : executeScript pf polls fuel value false closed.info.tableBottom closed.info.mem
      = executeLoop pf polls fuel 0 ⟨closed.info.mem, value, [], []⟩ := by
    unfold executeScript
    rw [if_neg Bool.false_ne_true, if_neg (Nat.ne_of_gt hclosed.nonzero), hsmbus, hstall]
    rfl
  rw [hexec]
  refine ⟨hrun.1, fun h hh => ?_⟩
  obtain ⟨x, hx, hhist, hwalk⟩ := hrun.2 h hh
  refine ⟨x, hx, hhist, ?_⟩
  rw [hwalk, hclosed.ptr]
  simp

/-- Saving requests, closing the table and executing it performs the requests in order,
entry by entry. `none` are polls that have not ended. -/
theorem executeScript_performs :
    (∀ r ∈ rs, ∀ pad y, opCodeFuncs pad r = .ok y → y.size = y.header.length + y.data.length) ∧
    ∃ es : List Entry, Tiled closed.info es ∧ List.Forall₂ Entry.Encodes es rs ∧
      ∀ polls fuel value, rs.length < fuel →
        let run := executeScript pf polls fuel value false closed.info.tableBottom closed.info.mem
        (Request.performAll pf polls rs [] = none → run = none) ∧
        ∀ h, Request.performAll pf polls rs [] = some h →
          ∃ x, run = some (.success, x) ∧ x.history = h
            ∧ x.walk = (place Entry.bytes 0 es).map Prod.fst ++ [closed.info.tablePtr] := by
  exact ⟨fun r hr pad y hy => size_eq_of_supported hy (hs r hr),
    executeScript_run h0 hacc hclose hne hcount hs hsmbus hstall⟩

end

/-- Hardware that reads as zero, with one PCI segment. -/
def quietPlatform : Platform := ⟨fun _ => 0, fun _ => [], 0, true, true, fun _ => false⟩

def zeroMem : Mem := fun _ => 0

/-- The table with the entries of some requests, and its closed copy. -/
def savedState (rs : List Request) : State := rs.foldl (fun s r => (saveStateWrite zeroEnv zeroMem s r).2) zeroState
def closedState (rs : List Request) : State := (efiBootScriptCloseTable zeroEnv (savedState rs)).2

/-- A read-modify-write of a PCI register, and a wait. -/
def enableAndWait : List Request := [.pciReadWrite .uint8 4 7 0xFF, .stall 5]

theorem executeScript_performs_enableAndWait :
    (∀ r ∈ enableAndWait, ∀ pad y, opCodeFuncs pad r = .ok y → y.size = y.header.length + y.data.length) ∧
    ∃ es : List Entry, Tiled (closedState enableAndWait).info es
      ∧ List.Forall₂ Entry.Encodes es enableAndWait ∧
      ∀ polls fuel value, enableAndWait.length < fuel →
        let info := (closedState enableAndWait).info
        let run := executeScript quietPlatform polls fuel value false info.tableBottom info.mem
        (Request.performAll quietPlatform polls enableAndWait [] = none → run = none) ∧
        ∀ h, Request.performAll quietPlatform polls enableAndWait [] = some h →
          ∃ x, run = some (.success, x) ∧ x.history = h
            ∧ x.walk = (place Entry.bytes 0 es).map Prod.fst ++ [info.tablePtr] := by
  have hfirst : Accepts zeroState [.pciReadWrite .uint8 4 7 0xFF] (savedState [.pciReadWrite .uint8 4 7 0xFF]) :=
    .snoc (.nil _) (show saveStateWrite zeroEnv zeroMem zeroState _ = (.success, _) from rfl)
  refine executeScript_performs (s := savedState enableAndWait) (show newTable zeroEnv = some zeroTable from rfl)
    (hfirst.snoc (show saveStateWrite zeroEnv zeroMem _ (.stall 5) = (.success, _) from rfl))
    (show efiBootScriptCloseTable zeroEnv (savedState enableAndWait) = (.success, closedState enableAndWait) from rfl)
    (by simp [enableAndWait]) (by simp [enableAndWait]) (fun r hr => ?_) rfl rfl
  rcases List.mem_pair.mp hr with rfl | rfl
  · exact trivial
  · exact (show (5 : UInt64).toNat < 2 ^ 32 by decide)

/-- Two bytes for two registers. -/
def twoBytes : Request := .pciWrite .uint8 0 2 fun a => if a = 0 then 1 else 2

/-- The second value that is written is not the second byte, but the one two bytes on. -/
theorem not_executeScript_performs :
    ¬ ∀ (pf : Platform) (env env' : Env) (info : TableInfo) (s closed : State)
        (rs : List Request) (polls fuel value : Nat), newTable env = some info →
      Accepts ⟨info, clearInsertInfo⟩ rs s →
      efiBootScriptCloseTable env' s = (.success, closed) → rs ≠ [] → rs.length ≤ 2 ^ 32 →
      pf.smBusPpi = true → pf.stallPpi = true → rs.length < fuel →
      ∀ h, Request.performAll pf polls rs [] = some h →
        ∃ x, executeScript pf polls fuel value false closed.info.tableBottom closed.info.mem
          = some (.success, x) ∧ x.history = h := by
  intro hall
  obtain ⟨x, hx, hh⟩ := hall quietPlatform zeroEnv zeroEnv zeroTable (savedState [twoBytes])
    (closedState [twoBytes]) [twoBytes] 0 2 0 rfl (Accepts.snoc (.nil _)
      (show saveStateWrite zeroEnv zeroMem zeroState twoBytes
        = (.success, savedState [twoBytes]) from rfl)) rfl (by simp) (by simp) rfl rfl (by simp)
    [.write (.pci 0) 0 0 [1], .write (.pci 0) 0 1 [2]] rfl
  have hrun : (executeScript quietPlatform 0 2 0 false (closedState [twoBytes]).info.tableBottom
      (closedState [twoBytes]).info.mem).map (fun r => r.2.history)
      = some [.write (.pci 0) 0 0 [1], .write (.pci 0) 0 1 [0]] := by decide +kernel
  rw [hx] at hrun
  have hhist := Option.some.inj hrun
  exact absurd (hh.symm.trans hhist) (by decide)

end BayTrail.BootScript
