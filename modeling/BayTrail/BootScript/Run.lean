import BayTrail.BootScript.Table

/-!
# The S3 boot script: runs

Any mix of the calls of the two protocols. Each of them leaves the table tiled and
every entry in it; the entries of two states of a run are related by `List.Sublist`.
-/

namespace BayTrail.BootScript

open BayTrail.Lib

/-! ## Sizes of entries -/

/-- The size of the structure and the data behind it. -/
def Request.entrySize : Request → Nat
  | .ioWrite w _ n _ => 16 + addressCount w.toNat n.toNat
  | .ioReadWrite .. => 24
  | .memWrite w _ n _ => 24 + addressCount w.toNat n.toNat
  | .memReadWrite .. => 32
  | .pciWrite w _ n _ => 24 + addressCount w.toNat n.toNat
  | .pciReadWrite .. => 32
  | .smbusExecute _ _ _ _ n _ => 23 + n.toNat % 2 ^ 32
  | .stall .. => 16
  | .dispatch .. => 16
  | .dispatch2 .. => 24
  | .information .. => 16
  | .pciCfg2Write w _ _ n _ => 32 + addressCount w.toNat n.toNat
  | .pciCfg2ReadWrite .. => 40
  | .ioPoll .. => 32
  | .memPoll .. => 48
  | .pciCfgPoll .. => 40
  | .pciCfg2Poll .. => 48
  | .oemIoPoll .. => 24
  | .oemMemPoll .. => 32
  | .oemPciPoll .. => 32

section

variable {pad : Mem} {x : Saved}

theorem flatMap_leBytes_length (fields : List Nat) :
    (fields.flatMap (leBytes 8)).length = 8 * fields.length := by
  induction fields with
  | nil => rfl
  | cons n fields ih =>
    rw [List.flatMap_cons, List.length_append, ih, leBytes_length, List.length_cons]
    omega

@[simp] theorem portStruct_length (type port : Nat) (fields : List Nat) :
    (portStruct pad type port fields).length = 8 + 8 * fields.length := by
  simp only [portStruct, List.length_append, leBytes_length, peek_length, flatMap_leBytes_length]

@[simp] theorem typeStruct_length (type : Nat) (fields : List Nat) :
    (typeStruct pad type fields).length = 8 + 8 * fields.length := by
  simp only [typeStruct, List.length_append, leBytes_length, peek_length, flatMap_leBytes_length]

@[simp] theorem segmentStruct_length (type : Nat) (fields : List Nat) (segment : Nat) :
    (segmentStruct pad type fields segment).length = 16 + 8 * fields.length := by
  simp only [segmentStruct, List.length_append, typeStruct_length, leBytes_length, peek_length]
  omega

/-- What a saver hands over has the size it asks for. -/
structure Sized (x : Saved) (n : Nat) : Prop where
  consistent : x.Consistent
  size : x.header.length + x.data.length = n

theorem bufferEntry_sized (header : Bytes) (buffer : Mem) (n : Nat) :
    Sized (bufferEntry header buffer n) (header.length + n) := by
  constructor <;> simp [bufferEntry, Saved.Consistent]

theorem fixedEntry_sized (header : Bytes) (h : header.length < 2 ^ 64) :
    Sized (fixedEntry header) header.length := by
  constructor
  · simp [fixedEntry, Saved.Consistent, uintn_of_lt h]
  · simp [fixedEntry]

variable {ok : Bool} {header : Bytes}

theorem saveWrite_sized {width count : Nat} {buffer : Mem}
    (h : saveWrite width count buffer ok header = .ok x) :
    Sized x (header.length + addressCount width count) := by
  unfold saveWrite at h
  split at h
  · cases h
  · split at h
    · cases h
    · cases h
      exact bufferEntry_sized _ _ _

theorem saveOne_sized (hlen : header.length < 2 ^ 64)
    (h : saveOne ok header = .ok x) : Sized x header.length := by
  unfold saveOne at h
  split at h
  · cases h
  · cases h
    exact fixedEntry_sized _ hlen

theorem opCodeFuncs_sized {r : Request} (h : opCodeFuncs pad r = .ok x) :
    Sized x r.entrySize := by
  cases r with
  | ioWrite w a n b => simpa [Request.entrySize] using saveWrite_sized h
  | memWrite w a n b => simpa [Request.entrySize] using saveWrite_sized h
  | pciWrite w a n b => simpa [Request.entrySize] using saveWrite_sized h
  | pciCfg2Write w g a n b => simpa [Request.entrySize] using saveWrite_sized h
  | ioReadWrite w a d m => simpa [Request.entrySize] using saveOne_sized (by simp) h
  | memReadWrite w a d m => simpa [Request.entrySize] using saveOne_sized (by simp) h
  | pciReadWrite w a d m => simpa [Request.entrySize] using saveOne_sized (by simp) h
  | pciCfg2ReadWrite w g a d m => simpa [Request.entrySize] using saveOne_sized (by simp) h
  | ioPoll w a r m d => simpa [Request.entrySize] using saveOne_sized (by simp) h
  | memPoll w a m r d l => simpa [Request.entrySize] using saveOne_sized (by simp) h
  | pciCfgPoll w a r m d => simpa [Request.entrySize] using saveOne_sized (by simp) h
  | pciCfg2Poll w g a r m d => simpa [Request.entrySize] using saveOne_sized (by simp) h
  | oemIoPoll w a m r => simpa [Request.entrySize] using saveOne_sized (by simp) h
  | oemMemPoll w a m r => simpa [Request.entrySize] using saveOne_sized (by simp) h
  | oemPciPoll w a m r => simpa [Request.entrySize] using saveOne_sized (by simp) h
  | smbusExecute s c o p n b =>
    cases h
    have := bufferEntry_sized (leBytes 2 0x06 ++ leBytes 4 s.toNat ++ leBytes 4 c.toNat
      ++ leBytes 4 o.toNat ++ leBytes 1 p.toNat ++ leBytes 8 n.toNat) b (n.toNat % 2 ^ 32)
    simpa [Request.entrySize] using this
  | stall d =>
    cases h
    simpa [Request.entrySize] using fixedEntry_sized (typeStruct pad 0x07 [d.toNat]) (by simp)
  | dispatch e =>
    cases h
    simpa [Request.entrySize] using fixedEntry_sized (typeStruct pad 0x08 [e.toNat]) (by simp)
  | dispatch2 e c =>
    cases h
    simpa [Request.entrySize] using fixedEntry_sized (typeStruct pad 0x09 [e.toNat, c.toNat]) (by simp)
  | information s p =>
    cases h
    have := fixedEntry_sized
      (leBytes 2 0x0A ++ peek pad 2 2 ++ leBytes 4 s.toNat ++ leBytes 8 p.toNat) (by simp)
    simpa [Request.entrySize] using this

theorem labelSizeLoop_le (label : Mem) : ∀ n i, labelSizeLoop label n i ≤ i + n
  | 0, i => le_rfl
  | n + 1, i => by
    unfold labelSizeLoop
    split
    · omega
    · have := labelSizeLoop_le label n (i + 1)
      omega

theorem labelEntry_sized (pad label : Mem) (size : Nat) : Sized (labelEntry pad label size) (8 + size) := by
  have := bufferEntry_sized (leBytes 2 0x83 ++ peek pad 2 2 ++ leBytes 4 size) label size
  simpa [labelEntry] using this

end

/-! ## Calls -/

/-- A call of one of the two protocols; `pad` is what is on the stack. -/
inductive Call where
  | write (pad : Mem) (r : Request)
  | insert (pad : Mem) (beforeOrAfter : Bool) (position : Option Nat) (r : Request)
  | label (pad : Mem) (beforeOrAfter createIfNotFound : Bool) (position : Option Nat)
      (label : Option Mem)
  | compare (position1 position2 : Nat)
  | close

/-- The state after a call. -/
def State.call (env : Env) (s : State) : Call → State
  | .write pad r => (saveStateWrite env pad s r).2
  | .insert pad b p r => (saveStateInsert env pad s b p r).2.2
  | .label pad b c p l => (saveStateLabel env pad s b c p l).2.2
  | .compare p q => (saveStateCompare s p q).2.2
  | .close => (efiBootScriptCloseTable env s).2

/-- The entry is shorter than 4 GiB. -/
def Call.Short : Call → Prop
  | .write _ r => sizeofInfo + r.entrySize < 2 ^ 32
  | .insert _ _ _ r => sizeofInfo + r.entrySize < 2 ^ 32
  | .label .. => True
  | .compare .. => True
  | .close => True

/-- A call, whatever the allocators return. -/
def Step (s s' : State) : Prop := ∃ env c, s' = s.call env c

/-- A call for an entry of which the table can note the length and the index. -/
def ShortStep (s s' : State) : Prop :=
  ∃ env c, c.Short ∧ s.info.numTableEntries < 2 ^ 32 ∧ s' = s.call env c

/-! ## The invariant -/

section

variable {env : Env} {s s' : State} {es : List Entry} {x : Saved} {pad : Mem}

/-- The terminator behind the last entry. -/
def HasTableEnd (info : TableInfo) : Prop :=
  Holds info.mem (info.tablePtr + sizeofInfo) (leBytes 2 tableEndOpCode)

/-- The entries are all there, in a table that may have more of them. -/
def Keeps (es : List Entry) (s' : State) : Prop := ∃ es', Tiled s'.info es' ∧ es.Sublist es'

theorem Tiled.keeps (T : Tiled s'.info es) : Keeps es s' := ⟨es, T, List.Sublist.refl _⟩

theorem saveEntry_keeps {n : Nat} (env : Env) (T : Tiled s.info es) (hx : Sized x n)
    (hn : sizeofInfo + n < 2 ^ 32) (hcount : s.info.numTableEntries < 2 ^ 32) :
    Keeps es (saveEntry env s x).2 := by
  have hshort : x.Short := by
    have := hx.size
    unfold Saved.Short
    omega
  obtain ⟨-, ⟨-, T'⟩ | ⟨-, pre, post, e, rfl, -, -, -, T'⟩⟩ :=
    saveEntry_cases env T hx.consistent hshort hcount
  · exact T'.keeps
  · exact ⟨_, T', List.Sublist.append (List.Sublist.refl _) (List.sublist_cons_self _ _)⟩

variable {r : Request} {b : Bool} {p : Option Nat}

theorem saveStateWrite_keeps (T : Tiled s.info es)
    (hr : sizeofInfo + r.entrySize < 2 ^ 32) (hcount : s.info.numTableEntries < 2 ^ 32) :
    Keeps es (saveStateWrite env pad s r).2 := by
  unfold saveStateWrite
  split
  next => exact T.keeps
  next hx => exact saveEntry_keeps env T (opCodeFuncs_sized hx) hr hcount

theorem saveStateInsert_keeps (T : Tiled s.info es)
    (hr : sizeofInfo + r.entrySize < 2 ^ 32) (hcount : s.info.numTableEntries < 2 ^ 32) :
    Keeps es (saveStateInsert env pad s b p r).2.2 := by
  unfold saveStateInsert
  split
  next => exact T.keeps
  next ins _ => exact saveStateWrite_keeps (s := { s with insert := ins }) T hr hcount

theorem saveStateLabel_keeps {c : Bool} {l : Option Mem} (T : Tiled s.info es)
    (hcount : s.info.numTableEntries < 2 ^ 32) :
    Keeps es (saveStateLabel env pad s b c p l).2.2 := by
  unfold saveStateLabel
  split
  next => exact T.keeps
  next label =>
    extract_lets size
    have hsize : size ≤ labelMaxSize + 1 := by
      have := labelSizeLoop_le label (labelMaxSize + 1) 0
      rwa [Nat.zero_add] at this
    split
    next => exact T.keeps
    next =>
      split
      next => split <;> exact T.keeps
      next =>
        split
        next => exact T.keeps
        next =>
          split
          next => exact T.keeps
          next =>
            split
            next => exact T.keeps
            next ins _ =>
              have hshort : sizeofInfo + (8 + size) < 2 ^ 32 := by
                unfold sizeofInfo labelMaxSize at *
                omega
              have hkeeps := saveEntry_keeps (s := { s with insert := ins }) env T
                (labelEntry_sized pad label size) hshort hcount
              extract_lets done s'
              split <;> exact hkeeps

theorem saveStateCompare_keeps {p q : Nat} (T : Tiled s.info es) :
    Keeps es (saveStateCompare s p q).2.2 := by
  unfold saveStateCompare
  split
  next => exact T.keeps
  next =>
    extract_lets cleared find
    split <;> exact T.keeps

theorem efiBootScriptCloseTable_tiled (T : Tiled s.info es) (env : Env) :
    Tiled (efiBootScriptCloseTable env s).2.info es := by
  unfold efiBootScriptCloseTable
  extract_lets info tableLength newSize
  have hin := T.inside
  have hfits := T.fits
  have hptr := T.ptr
  have hlen : tableLength = s.info.tablePtr + sizeofInfo + sizeofTableEnd := rfl
  split
  next => exact T
  next b _ =>
    have hcopy : ∀ a, a < tableLength → poke b.mem 0 (peek info.mem 0 tableLength) a = info.mem a := by
      intro a ha
      have := @poke_peek_at b.mem info.mem 0 0 _ a ha
      rwa [Nat.zero_add] at this
    have hsub : tableLength - sizeofInfo - sizeofTableEnd = s.info.tablePtr := by omega
    have hnew : s.info.tablePtr + sizeofInfo + sizeofTableEnd ≤ newSize := by
      change _ ≤ efiPagesToSize (efiSizeToPages (tableLength + initTableSize) + 1)
      unfold efiPagesToSize efiSizeToPages efiPageSize initTableSize
      rw [uintn_of_lt (by omega)]
      omega
    refine ⟨T.holds.congr fun a _ h2 => hcopy a ?_, hsub.trans hptr, T.count,
      by rw [hsub]; exact hnew, T.indices, b.nonzero, b.fits, fun hne => ?_⟩
    · unfold logSize at hptr
      omega
    · rw [hsub]
      refine (T.terminated hne).congr fun a _ h2 => hcopy a ?_
      rw [leBytes_length] at h2
      unfold sizeofTableEnd at hlen
      omega

/-- A step keeps every entry. -/
theorem ShortStep.keeps (T : Tiled s.info es) (h : ShortStep s s') : Keeps es s' := by
  obtain ⟨env, c, hshort, hcount, rfl⟩ := h
  cases c with
  | write pad r => exact saveStateWrite_keeps T hshort hcount
  | insert pad b p r => exact saveStateInsert_keeps T hshort hcount
  | label pad b c p l => exact saveStateLabel_keeps T hcount
  | compare p q => exact saveStateCompare_keeps T
  | close => exact (efiBootScriptCloseTable_tiled T env).keeps

/-- A run keeps every entry. -/
theorem run_keeps (T : Tiled s.info es) (h : Relation.ReflTransGen ShortStep s s') :
    Keeps es s' := by
  induction h with
  | refl => exact T.keeps
  | tail _ hstep ih =>
    obtain ⟨es1, T1, h1⟩ := ih
    obtain ⟨es2, T2, h2⟩ := hstep.keeps T1
    exact ⟨es2, T2, h1.trans h2⟩

/-- Any two states of a run from the new table: both are tiled by entries with distinct
indices, the later one has all that the earlier one has, in the same order, and as soon
as there is an entry there is the terminator. -/
theorem script_of_run {info : TableInfo} (h0 : newTable env = some info)
    (h1 : Relation.ReflTransGen ShortStep ⟨info, clearInsertInfo⟩ s)
    (h2 : Relation.ReflTransGen ShortStep s s') :
    ∃ es es', Tiled s.info es ∧ Tiled s'.info es' ∧ es.Sublist es'
      ∧ (es'.map Entry.uniqueIndex).Nodup
      ∧ (0 < s'.info.numTableEntries → HasTableEnd s'.info) := by
  obtain ⟨es, T, -⟩ := run_keeps (s := ⟨info, clearInsertInfo⟩) (newTable_tiled h0) h1
  obtain ⟨es', T', hsub⟩ := run_keeps T h2
  refine ⟨es, es', T, T', hsub, T'.nodup, fun hpos => T'.terminated ?_⟩
  rintro rfl
  rw [T'.count] at hpos
  exact absurd hpos (by simp)

end

/-- Memory of zeros, for tables of up to a terabyte. -/
def zeroBlock (n : Nat) : Option (Block n) :=
  if h : n ≤ 2 ^ 40 then some ⟨4096, fun _ => 0, by decide, by omega⟩ else none

def zeroEnv : Env := ⟨zeroBlock, zeroBlock, false⟩

/-- The table after `NewTable`. -/
def zeroTable : TableInfo := ⟨4096, fun _ => 0, 0, 2048, 0, false⟩

def zeroState : State := ⟨zeroTable, clearInsertInfo⟩

def stallCall (d : UInt64) : Call := .write (fun _ => 0) (.stall d)

theorem script_of_run_stall :
    let s := zeroState.call zeroEnv (stallCall 5)
    let s' := (s.call zeroEnv (stallCall 7)).call zeroEnv .close
    ∃ es es', Tiled s.info es ∧ Tiled s'.info es' ∧ es.Sublist es'
      ∧ (es'.map Entry.uniqueIndex).Nodup
      ∧ (0 < s'.info.numTableEntries → HasTableEnd s'.info) :=
  script_of_run (show newTable zeroEnv = some zeroTable from rfl)
    (.single ⟨zeroEnv, stallCall 5, show sizeofInfo + 16 < 2 ^ 32 by decide, by decide, rfl⟩)
    (.tail (.single ⟨zeroEnv, stallCall 7, show sizeofInfo + 16 < 2 ^ 32 by decide, by decide, rfl⟩)
      ⟨zeroEnv, .close, trivial, by decide, rfl⟩)

/-- The empty table has no terminator, closed or not. -/
theorem not_script_of_empty :
    ¬ ∀ env info s, newTable env = some info →
      Relation.ReflTransGen Step ⟨info, clearInsertInfo⟩ s →
      ∃ es, Tiled s.info es ∧ HasTableEnd s.info := by
  intro h
  obtain ⟨-, -, hend⟩ := h zeroEnv zeroTable (zeroState.call zeroEnv .close) rfl
    (.single ⟨zeroEnv, .close, rfl⟩)
  have hfirst : (zeroState.call zeroEnv .close).info.mem 8 = 0xff := hend.1
  exact absurd hfirst (by decide)

end BayTrail.BootScript
