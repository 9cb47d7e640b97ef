import BayTrail.Terminal.Parse

/-!
# The recogniser follows the reference parse

One call of `GetKeyFromSerial` gives the first key of what it has not parsed yet, or there is none. `Stands`
is where the recogniser is between two calls and what it has not parsed then.
-/

namespace BayTrail.Terminal

open Lib (Run)

section

variable {table t next : Table} {pad : UInt8} {w p l : List UInt16} {c : UInt16} {k : Key} {ts : List Token}
  {dev : TerminalDev} {f : Fifo UInt16} {ptr : Option Table} {armed signaled : Bool}

theorem Table.depth_pos : ∀ t : Table, 1 ≤ t.depth
  | .endMarker => Nat.le_refl _
  | .key _ _ _ rest => rest.depth_pos
  | .state _ _ _ rest => rest.depth_pos.trans (le_max_right _ _)

/-! ## A state of the table that the reference parse is in -/

/-- The characters `w` behind an escape character lead to the state `t`, and the reference parse goes on there. -/
structure Waits (table : Table) (pad : UInt8) (w : List UInt16) (t : Table) : Prop where
  place : At table pad w t
  reads : ∀ ts, escape table pad [] (w.map .char ++ ts) = escape table pad w ts

theorem Waits.start (hun : unambiguous pad table = true) (hnz : table.nonzero = true) : Waits table pad [] table :=
  ⟨.start hun hnz, fun _ => rfl⟩

theorem At.escape_key (h : At table pad w t) (hentry : entry pad t c = some (.inl k)) :
    escape table pad w (.char c :: ts) = some (k, ts) := by
  rw [escape, h.lookup_key hentry]

theorem At.escape_state (h : At table pad w t) (hentry : entry pad t c = some (.inr next)) :
    escape table pad w (.char c :: ts) = escape table pad (w ++ [c]) ts := by
  have hother : ∀ k, entry pad t c ≠ some (.inl k) := by
    intro k hk
    cases hentry.symm.trans hk
  rw [escape, h.lookup_other hother]
  exact if_pos (h.mem_openings_iff.mpr ⟨next, hentry⟩)

theorem At.escape_none (h : At table pad w t) (hentry : entry pad t c = none) :
    escape table pad w (.char c :: ts) = some (escKey, (w ++ [c]).map .char ++ ts) := by
  have hother : ∀ k, entry pad t c ≠ some (.inl k) := by
    intro k hk
    cases hentry.symm.trans hk
  have hclosed : w ++ [c] ∉ openings pad table := by
    rw [h.mem_openings_iff]
    rintro ⟨next, hnext⟩
    cases hentry.symm.trans hnext
  rw [escape, h.lookup_other hother]
  exact if_neg hclosed

theorem Waits.follow (h : Waits table pad w t) (hentry : entry pad t c = some (.inr next)) : Waits table pad (w ++ [c]) next := by
  refine ⟨h.place.follow hentry, fun ts => ?_⟩
  rw [List.map_append, List.append_assoc, h.reads]
  exact h.place.escape_state hentry

/-- A sequence of the table is read as such. -/
theorem At.escape_sequence (h : At table pad w t) (hmem : (p, k) ∈ sequences pad t) :
    escape table pad w (p.map .char ++ ts) = some (k, ts) := by
  induction p generalizing w t with
  | nil => exact absurd hmem nil_not_mem_sequences
  | cons c p ih =>
    rcases (mem_sequences h.unambiguous).mp hmem with ⟨hentry, rfl⟩ | ⟨next, hentry, hmem⟩
    · exact h.escape_key hentry
    · exact (h.escape_state hentry).trans (ih (h.follow hentry) hmem)

/-! ## The loop over the table -/

/-- What the loop does at an entry that leads to another state. -/
def scanNext (pad : UInt8) (next : Table) (r : Recogniser) : Run Scan := do
  let q ← removeCharFromUnicodeBuffer r.dev.unicodeFIFO
  match q.1 with
  | none => pure (.notReady { r.withFIFO q.2 with escSeqStatePtr := some next, armed := true })
  | some inputChar => do
    let r ← store { r.withFIFO q.2 with escSeqStatePtr := some next, armed := true } inputChar
    scan pad next inputChar r

/-- What the loop does with a character, by the entry for it. -/
def Scans (pad : UInt8) (t : Table) (c : UInt16) (r : Recogniser) : Option (Key ⊕ Table) → Prop
  | some (.inl k) => scan pad t c r = pure (.key k { r with inputChars := [], escSeqStatePtr := none })
  | some (.inr next) => scan pad t c r = scanNext pad next r
  | none => ∃ t', scan pad t c r = pure (.mismatch { r with escSeqStatePtr := some t' })

theorem scan_spec (pad : UInt8) (c : UInt16) (hnz : t.nonzero = true) (r : Recogniser) : Scans pad t c r (entry pad t c) := by
  induction t with
  | endMarker => exact ⟨.endMarker, rfl⟩
  | key c' keyPad k' rest ih =>
    simp only [Table.nonzero, Bool.and_eq_true, decide_eq_true_eq] at hnz
    have hrest := ih hnz.2
    rw [entry]
    unfold Scans at hrest ⊢
    rw [scan, if_neg hnz.1]
    split_ifs
    · rfl
    · exact hrest
  | state c' keyPad next' rest _ ih =>
    simp only [Table.nonzero, Bool.and_eq_true, decide_eq_true_eq] at hnz
    have hrest := ih hnz.2
    rw [entry]
    unfold Scans at hrest ⊢
    rw [scan, if_neg hnz.1.1]
    split_ifs
    · rfl
    · exact hrest

theorem store_returns (h : w.length < inputCharsSize) :
    (store ⟨dev, ptr, w, armed, signaled⟩ c).Returns ⟨dev, ptr, w ++ [c], armed, signaled⟩ := Run.returns_ofOption.mpr (if_pos h)

/-- How the loop ends, `all` being the characters behind the escape character: some are in `InputChars`, the
others in the FIFO. -/
inductive Outcome (table : Table) (pad : UInt8) (dev : TerminalDev) (signaled : Bool) (all : List UInt16) : Scan → Prop where
  | notReady {f : Fifo UInt16} {t : Table} (hf : Queued f []) (hwaits : Waits table pad all t) :
      Outcome table pad dev signaled all (.notReady ⟨{ dev with unicodeFIFO := f }, some t, all, true, signaled⟩)
  | key {f : Fifo UInt16} {k : Key} {q : List UInt16} {armed : Bool} (hf : Queued f q)
      (hkey : escape table pad [] (all.map .char) = some (k, q.map .char)) :
      Outcome table pad dev signaled all (.key k ⟨{ dev with unicodeFIFO := f }, none, [], armed, signaled⟩)
  | mismatch {f : Fifo UInt16} {p q : List UInt16} {t : Table} {armed : Bool} (hf : Queued f q) (hall : all = p ++ q)
      (hkey : escape table pad [] (all.map .char) = some (escKey, all.map .char)) :
      Outcome table pad dev signaled all (.mismatch ⟨{ dev with unicodeFIFO := f }, some t, p, armed, signaled⟩)

/-- A character whose entry is a key, or that has none, ends the loop. -/
theorem scan_stop (c : UInt16) (ptr : Option Table) (armed signaled : Bool) (hwaits : Waits table pad w t)
    (hq : Queued dev.unicodeFIFO l) (hstop : ∀ next, entry pad t c ≠ some (.inr next)) :
    ∃ s, (scan pad t c ⟨dev, ptr, w ++ [c], armed, signaled⟩).Returns s ∧ Outcome table pad dev signaled (w ++ c :: l) s := by
  have hread := hwaits.reads (Token.char c :: l.map .char)
  have hscan := scan_spec pad c hwaits.place.nonzero ⟨dev, ptr, w ++ [c], armed, signaled⟩
  rcases hentry : entry pad t c with _ | k | next
  · rw [hentry] at hscan
    obtain ⟨t', hscan⟩ := hscan
    rw [hscan]
    refine ⟨_, Run.returns_pure.mpr rfl, .mismatch hq (by simp) ?_⟩
    rw [hwaits.place.escape_none hentry] at hread
    simpa using hread
  · rw [hentry] at hscan
    rw [hscan]
    refine ⟨_, Run.returns_pure.mpr rfl, .key hq ?_⟩
    rw [hwaits.place.escape_key hentry] at hread
    simpa using hread
  · exact absurd hentry (hstop next)

theorem scan_outcome (c : UInt16) (ptr : Option Table) (armed signaled : Bool) (hdepth : table.depth ≤ inputCharsSize)
    (hwaits : Waits table pad w t)
    (hq : Queued dev.unicodeFIFO l) :
    ∃ s, (scan pad t c ⟨dev, ptr, w ++ [c], armed, signaled⟩).Returns s ∧ Outcome table pad dev signaled (w ++ c :: l) s := by
  -- the induction is on the characters in the FIFO: each state takes one
  induction l generalizing w t c dev ptr armed with
  | nil =>
    by_cases hstop : ∀ next, entry pad t c ≠ some (.inr next)
    · exact scan_stop c ptr armed signaled hwaits hq hstop
    obtain ⟨next, hentry⟩ := not_forall_not.mp hstop
    have hscan := scan_spec pad c hwaits.place.nonzero ⟨dev, ptr, w ++ [c], armed, signaled⟩
    rw [hentry] at hscan
    rw [hscan, scanNext]
    obtain ⟨f, hremove, hf⟩ := removeCharFromUnicodeBuffer_nil hq
    exact ⟨_, hremove.bind (Run.returns_pure.mpr rfl), .notReady hf (hwaits.follow hentry)⟩
  | cons c' l ih =>
    by_cases hstop : ∀ next, entry pad t c ≠ some (.inr next)
    · exact scan_stop c ptr armed signaled hwaits hq hstop
    obtain ⟨next, hentry⟩ := not_forall_not.mp hstop
    have hscan := scan_spec pad c hwaits.place.nonzero ⟨dev, ptr, w ++ [c], armed, signaled⟩
    rw [hentry] at hscan
    rw [hscan, scanNext]
    obtain ⟨f, hremove, hf⟩ := removeCharFromUnicodeBuffer_cons hq
    have hnext := hwaits.follow hentry
    have hlen : (w ++ [c]).length < inputCharsSize := by
      have hle := hnext.place.depth
      have hpos := next.depth_pos
      omega
    obtain ⟨s, hscan, hs⟩ := ih c' (some next) true hnext (show Queued ({ dev with unicodeFIFO := f } : TerminalDev).unicodeFIFO l from hf)
    refine ⟨s, hremove.bind ((store_returns hlen).bind hscan), ?_⟩
    rw [List.append_assoc] at hs
    cases hs with
    | notReady hf hwaits => exact .notReady hf hwaits
    | key hf hkey => exact .key hf hkey
    | mismatch hf hall hkey => exact .mismatch hf hall hkey

end

/-! ## A call -/

/-- Where the recogniser stands between two calls, with the characters in the FIFO and what is to be parsed. -/
inductive Stands (table : Table) (pad : UInt8) : Recogniser → List UInt16 → List Token → Prop where
  | idle {dev : TerminalDev} {pending : List UInt16} (hq : Queued dev.unicodeFIFO pending) :
      Stands table pad ⟨dev, none, [], false, false⟩ pending (pending.map .char)
  | waiting {dev : TerminalDev} {w : List UInt16} {t : Table} (hq : Queued dev.unicodeFIFO []) (hwaits : Waits table pad w t) :
      Stands table pad ⟨dev, some t, w, true, false⟩ [] (.char ASCII_ESC :: w.map .char)
  | fired {dev : TerminalDev} {w : List UInt16} {t : Table} (hq : Queued dev.unicodeFIFO []) (hwaits : Waits table pad w t) :
      Stands table pad ⟨dev, some t, w, false, true⟩ [] (.char ASCII_ESC :: (w.map .char ++ [.timeout]))

/-- What a call answers when `ts` is to be parsed. -/
inductive Answers (table : Table) (pad : UInt8) (dev : TerminalDev) (ts : List Token) : Option Key × Recogniser → Prop where
  | notReady {f : Fifo UInt16} {r : Recogniser} {pending : List UInt16} (hdev : r.dev = { dev with unicodeFIFO := f })
      (hstands : Stands table pad r pending ts) (hnext : nextKey table pad ts = none) : Answers table pad dev ts (none, r)
  | key {f : Fifo UInt16} {r : Recogniser} {pending : List UInt16} {k : Key} {ts' : List Token}
      (hdev : r.dev = { dev with unicodeFIFO := f }) (hstands : Stands table pad r pending ts')
      (hnext : nextKey table pad ts = some (k, ts')) : Answers table pad dev ts (some k, r)

section

variable {table t : Table} {pad : UInt8} {w p q l : List UInt16} {c : UInt16} {k : Key} {ts : List Token} {dev : TerminalDev}
  {f : Fifo UInt16} {late : Bool}

theorem putBackAll_returns (h : Queued f q) (hroom : p.length + q.length < bufferSize) :
    ∃ f', (putBackAll f p).Returns f' ∧ Queued f' (p.reverse ++ q) := by
  induction p generalizing f q with
  | nil => exact ⟨f, Run.returns_pure.mpr rfl, h⟩
  | cons c p ih =>
    rw [List.length_cons] at hroom
    obtain ⟨f₁, hput, hf₁⟩ := putBack_returns (c := c) h (by omega)
    obtain ⟨f₂, hall, hf₂⟩ := ih hf₁ (by rw [List.length_cons]; omega)
    refine ⟨f₂, hput.bind hall, ?_⟩
    rwa [List.reverse_cons, List.append_assoc]

theorem loneEsc_returns (ptr : Option Table) (hq : Queued dev.unicodeFIFO q) (hroom : p.length + q.length < bufferSize) :
    ∃ f, (loneEsc ⟨dev, ptr, p, false, false⟩).Returns (some escKey, ⟨{ dev with unicodeFIFO := f }, none, [], false, false⟩)
      ∧ Queued f (p ++ q) := by
  obtain ⟨f, hput, hf⟩ := putBackAll_returns (p := p.reverse) hq (by rwa [List.length_reverse])
  rw [List.reverse_reverse] at hf
  exact ⟨f, hput.bind (Run.returns_pure.mpr rfl), hf⟩

/-- What has been kept in `InputChars` finds room again, or a sequence is complete. -/
def RoomBehind (table : Table) (pad : UInt8) (w l : List UInt16) : Prop :=
  w.length + l.length < bufferSize ∨ ∃ p q k, l = p ++ q ∧ (w ++ p, k) ∈ sequences pad table

theorem readOn_answers (hdepth : table.depth ≤ inputCharsSize) (hwaits : Waits table pad w t) (hq : Queued dev.unicodeFIFO l)
    (hroom : RoomBehind table pad w l) (hlate : late = true → l = []) :
    ∃ a, (readOn pad late t ⟨dev, some t, w, true, false⟩).Returns a
      ∧ Answers table pad dev (.char ASCII_ESC :: (w ++ l).map .char) a := by
  have hnextKey : ∀ ts, nextKey table pad (.char ASCII_ESC :: ts) = escape table pad [] ts := fun ts => if_pos rfl
  unfold readOn
  rw [if_neg (by simp)]
  cases l with
  | nil =>
    obtain ⟨f, hremove, hf⟩ := removeCharFromUnicodeBuffer_nil hq
    refine ⟨_, hremove.bind (Run.returns_pure.mpr rfl), ?_⟩
    rw [List.append_nil]
    refine .notReady (f := f) rfl (.waiting hf hwaits) ?_
    have hread := hwaits.reads []
    rw [List.append_nil] at hread
    rw [hnextKey, hread]
    rfl
  | cons c l =>
    obtain rfl : late = false := Bool.eq_false_iff.mpr fun h => absurd (hlate h) (List.cons_ne_nil c l)
    obtain ⟨f, hremove, hf⟩ := removeCharFromUnicodeBuffer_cons hq
    have hlen : w.length < inputCharsSize := by
      have hle := hwaits.place.depth
      have hpos := t.depth_pos
      omega
    obtain ⟨s, hscan, hs⟩ := scan_outcome c (some t) true false hdepth hwaits
      (show Queued ({ dev with unicodeFIFO := f } : TerminalDev).unicodeFIFO l from hf)
    suffices hfinish : ∃ a, (finish s).Returns a ∧ Answers table pad dev (.char ASCII_ESC :: (w ++ c :: l).map .char) a by
      obtain ⟨a, hreturns, ha⟩ := hfinish
      exact ⟨a, hremove.bind ((store_returns hlen).bind (hscan.bind hreturns)), ha⟩
    cases hs with
    | notReady hf hwaits' =>
      refine ⟨_, Run.returns_pure.mpr rfl, .notReady rfl (.waiting hf hwaits') ?_⟩
      have hread := hwaits'.reads []
      rw [List.append_nil] at hread
      rw [hnextKey, hread]
      rfl
    | key hf hkey => exact ⟨_, Run.returns_pure.mpr rfl, .key rfl (.idle hf) ((hnextKey _).trans hkey)⟩
    | @mismatch f' p q _ _ hf hall hkey =>
      have hroom : p.length + q.length < bufferSize := by
        rw [← List.length_append, ← hall, List.length_append]
        refine hroom.resolve_right ?_
        -- a complete sequence would have been the key
        rintro ⟨p', q', k, hl, hmem⟩
        have hsequence := (hwaits.place.seq p' k).mp hmem
        rw [hl, List.map_append, List.map_append, hwaits.reads, hwaits.place.escape_sequence hsequence] at hkey
        have hbehind := congrArg List.length (Prod.mk.inj (Option.some.inj hkey)).2
        have hpos : p' ≠ [] := by
          rintro rfl
          exact nil_not_mem_sequences hsequence
        have := List.length_pos_iff.mpr hpos
        simp only [List.length_append, List.length_map] at hbehind
        omega
      obtain ⟨f, hlone, hf⟩ := loneEsc_returns _ (show Queued ({ dev with unicodeFIFO := f' } : TerminalDev).unicodeFIFO q from hf) hroom
      refine ⟨_, hlone, .key rfl (.idle hf) ?_⟩
      rw [hnextKey, hkey, ← hall]

/-- Where the recogniser stands when characters come behind: what waits for the timer is read on. -/
theorem readKey_fired (late : Bool) (hwaits : Waits table pad w t) (hq : Queued dev.unicodeFIFO l) (hroom : w.length + l.length < bufferSize) :
    ∃ a, (readKey table pad late ⟨dev, some t, w, false, true⟩).Returns a
      ∧ Answers table pad dev (.char ASCII_ESC :: (w.map .char ++ [.timeout]) ++ l.map .char) a := by
  obtain ⟨f, hlone, hf⟩ := loneEsc_returns (some t) hq hroom
  refine ⟨_, hlone, .key rfl (.idle hf) ?_⟩
  rw [List.cons_append, List.append_assoc]
  show (if ASCII_ESC = ASCII_ESC then escape table pad [] _ else _) = _
  rw [if_pos rfl, hwaits.reads, List.map_append]
  rfl

theorem readKey_idle (late : Bool) (hdepth : table.depth ≤ inputCharsSize) (hun : unambiguous pad table = true)
    (hnz : table.nonzero = true) (hq : Queued dev.unicodeFIFO l) (hlate : late = true → l.head? = some ASCII_ESC → l.length ≤ 1) :
    ∃ a, (readKey table pad late ⟨dev, none, [], false, false⟩).Returns a ∧ Answers table pad dev (l.map .char) a := by
  cases l with
  | nil =>
    obtain ⟨f, hremove, hf⟩ := removeCharFromUnicodeBuffer_nil hq
    exact ⟨_, hremove.bind (Run.returns_pure.mpr rfl), .notReady (f := f) rfl (.idle hf) rfl⟩
  | cons c l =>
    obtain ⟨f, hremove, hf⟩ := removeCharFromUnicodeBuffer_cons hq
    by_cases hc : c = ASCII_ESC
    · subst hc
      have hroom : RoomBehind table pad [] l := by
        have hlt := hq.room
        rw [List.length_cons] at hlt
        exact Or.inl (by rw [List.length_nil]; omega)
      have hlate : late = true → l = [] := by
        intro h
        have hle := hlate h rfl
        rw [List.length_cons] at hle
        exact List.length_eq_zero_iff.mp (by omega)
      obtain ⟨a, hread, ha⟩ := readOn_answers hdepth (.start hun hnz)
        (show Queued ({ dev with unicodeFIFO := f } : TerminalDev).unicodeFIFO l from hf) hroom hlate
      refine ⟨a, hremove.bind hread, ?_⟩
      cases ha with
      | notReady hdev hstands hnext => exact .notReady hdev hstands hnext
      | key hdev hstands hnext => exact .key hdev hstands hnext
    · refine ⟨(some ⟨0, c⟩, ⟨{ dev with unicodeFIFO := f }, none, [], false, false⟩), ?_, .key rfl (.idle hf) (if_neg hc)⟩
      refine hremove.bind ?_
      show (readFirst table pad late c _).Returns _
      rw [readFirst, if_pos hc]
      exact Run.returns_pure.mpr rfl

end

end BayTrail.Terminal
