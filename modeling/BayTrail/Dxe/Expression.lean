import BayTrail.Dxe.Depex

/-!
# What a dependency expression means

The evaluator says that a driver is ready exactly if the bytes are those of a row of expressions, closed
by `END`, the last one of which is true. That it patches the expression is not seen later: a protocol that
has been found once counts as installed.
-/

namespace BayTrail.Dxe

open BayTrail.Lib BayTrail.Lib.Postfix
open BayTrail.Nvram (Guid sizeofGuid)

/-! ## Expressions -/

/-- A protocol that is looked for, one that has been found, or a constant. -/
inductive Leaf where
  | push (protocol : Guid)
  | replaced (protocol : Guid)
  | const (value : Bool)

inductive Connective where
  | and
  | or

abbrev Expression := Expr Leaf Unit Connective

abbrev Opcode := Instr Leaf Unit Connective

/-- The meaning of expressions while these protocols are installed. -/
def meaning (installed : Bytes → Bool) : Meaning Leaf Unit Connective Bool where
  leaf
    | .push protocol => installed protocol.bytes
    | .replaced _ => true
    | .const value => value
  unary _ value := !value
  binary
    | .and, left, right => left && right
    | .or, left, right => left || right

def Expression.holds (installed : Bytes → Bool) (e : Expression) : Bool := e.eval (meaning installed)

def opcodeBytes : Opcode → Bytes
  | .leaf (.push protocol) => EFI_DEP_PUSH :: protocol.bytes
  | .leaf (.replaced protocol) => EFI_DEP_REPLACE_TRUE :: protocol.bytes
  | .leaf (.const true) => [EFI_DEP_TRUE]
  | .leaf (.const false) => [EFI_DEP_FALSE]
  | .unary _ => [EFI_DEP_NOT]
  | .binary .and => [EFI_DEP_AND]
  | .binary .or => [EFI_DEP_OR]

def programBytes (p : List Opcode) : Bytes := p.flatMap opcodeBytes

/-- What is ignored in front of an expression. -/
def Ignored (b : UInt8) : Prop := b = EFI_DEP_BEFORE ∨ b = EFI_DEP_AFTER ∨ b = EFI_DEP_SOR

inductive Prelude : Bytes → Prop where
  | none : Prelude []
  | one {b : UInt8} (h : Ignored b) : Prelude [b]

/-- The expression memory after an instruction. -/
def patch (installed : Bytes → Bool) (depex : Mem) (a : Nat) : Opcode → Mem
  | .leaf (.push protocol) => if installed protocol.bytes then poke depex a [EFI_DEP_REPLACE_TRUE] else depex
  | _ => depex

variable {installed : Bytes → Bool} {allocate : Nat → Bool} {depex : Mem} {depexSize room left a : Nat} {e e' : Eval}
  {i : Opcode} {p : List Opcode} {s vs : List Bool} {value : Bool} {st : DepexStack}

/-! ## One round -/

theorem push_length (protocol : Guid) : (opcodeBytes (.leaf (.push protocol))).length = 1 + sizeofGuid := by
  rw [opcodeBytes, List.length_cons, protocol.len]
  rfl

theorem replaced_length (protocol : Guid) : (opcodeBytes (.leaf (.replaced protocol))).length = 1 + sizeofGuid := by
  rw [opcodeBytes, List.length_cons, protocol.len]
  rfl

theorem pushBool_some (h : pushBool allocate value st = some st') : st'.values = value :: st.values := by
  unfold pushBool at h
  split at h
  · obtain ⟨st₁, hgrow, rfl⟩ := Option.map_eq_some_iff.mp h
    unfold growDepexStack at hgrow
    split at hgrow
    · rw [← Option.some.inj hgrow]
    · cases hgrow
  · rw [← Option.some.inj h]

theorem pushBool_none (h : pushBool allocate value st = none) : ¬ ∀ n, allocate n = true := by
  intro hmem
  unfold pushBool growDepexStack at h
  rw [if_pos (hmem _)] at h
  split at h
  · cases h
  · cases h

/-- A round goes on from there, or memory ran out and the answer is no. -/
def GoesOn (allocate : Nat → Bool) (next : Next Eval Verdict) (a : Nat) (depex : Mem) (vs : List Bool) : Prop :=
  (∃ room, next = .again ⟨a, depex, ⟨vs, room⟩⟩)
  ∨ (¬ ∀ n, allocate n = true) ∧ ∃ v : Verdict, next = .done v ∧ v.ready = false ∧ v.depex = depex

theorem push_goesOn (n : Nat) :
    GoesOn allocate (e.push allocate value st n) (e.iterator + n) e.depex (value :: st.values) := by
  unfold Eval.push
  cases h : pushBool allocate value st with
  | none => exact Or.inr ⟨pushBool_none h, _, rfl, rfl, rfl⟩
  | some st' =>
    refine Or.inl ⟨st'.room, ?_⟩
    rw [← pushBool_some h]

theorem popBool_cons (h : st.values = value :: vs) : popBool st = some (value, ⟨vs, st.room⟩) := by
  rw [popBool, h]

theorem popBool_nil (h : st.values = []) : popBool st = none := by
  rw [popBool, h]

/-- Both operators of two operands are commutative: they are given the operands from the top down. -/
theorem instruction_binary (installed : Bytes → Bool) (allocate : Nat → Bool) {b : Connective} (h : Holds e.depex e.iterator (opcodeBytes (.binary b))) :
    ∃ op, e.instruction installed allocate = e.combine allocate op
      ∧ ∀ left right, op right left = (meaning installed).binary b left right := by
  cases b with
  | and =>
    refine ⟨(· && ·), ?_, fun left right => Bool.and_comm right left⟩
    unfold Eval.instruction
    rw [h.1]
    rfl
  | or =>
    refine ⟨(· || ·), ?_, fun left right => Bool.or_comm right left⟩
    unfold Eval.instruction
    rw [h.1]
    rfl

/-- An instruction with what it takes on the stack. -/
theorem instruction_some (allocate : Nat → Bool) (h : Holds e.depex e.iterator (opcodeBytes i)) (hstep : i.step (meaning installed) e.stack.values = some vs) :
    GoesOn allocate (e.instruction installed allocate) (e.iterator + (opcodeBytes i).length)
      (patch installed e.depex e.iterator i) vs := by
  cases i with
  | leaf l =>
    obtain rfl := Option.some.inj hstep
    cases l with
    | push protocol =>
      obtain ⟨hop, hguid⟩ := h
      have hpeek : peek e.depex (e.iterator + 1) sizeofGuid = protocol.bytes := hguid.peek_eq protocol.len.symm
      have hat : e.instruction installed allocate = e.locate installed allocate := by
        unfold Eval.instruction
        rw [hop]
        rfl
      rw [hat, push_length, Eval.locate, hpeek]
      unfold patch meaning
      dsimp only
      -- the opcode is replaced if the protocol is found
      cases hin : installed protocol.bytes with
      | true => exact push_goesOn (e := { e with depex := poke e.depex e.iterator [EFI_DEP_REPLACE_TRUE] }) _
      | false => exact push_goesOn _
    | replaced protocol =>
      have hat : e.instruction installed allocate = e.push allocate true e.stack (1 + sizeofGuid) := by
        unfold Eval.instruction
        rw [h.1]
        rfl
      rw [hat, replaced_length]
      exact push_goesOn _
    | const value =>
      cases value with
      | true =>
        have hat : e.instruction installed allocate = e.push allocate true e.stack 1 := by
          unfold Eval.instruction
          rw [h.1]
          rfl
        rw [hat]
        exact push_goesOn _
      | false =>
        have hat : e.instruction installed allocate = e.push allocate false e.stack 1 := by
          unfold Eval.instruction
          rw [h.1]
          rfl
        rw [hat]
        exact push_goesOn _
  | unary u =>
    have hat : e.instruction installed allocate = e.negate allocate := by
      unfold Eval.instruction
      rw [h.1]
      rfl
    rw [hat, Eval.negate]
    cases hs : e.stack.values with
    | nil =>
      rw [hs] at hstep
      cases hstep
    | cons value values =>
      rw [hs] at hstep
      obtain rfl := Option.some.inj hstep
      rw [popBool_cons hs]
      exact push_goesOn _
  | binary b =>
    obtain ⟨op, hat, hop⟩ := instruction_binary installed allocate h
    rw [hat, Eval.combine]
    rcases hs : e.stack.values with - | ⟨right, - | ⟨left, values⟩⟩
    · rw [hs] at hstep
      cases hstep
    · rw [hs] at hstep
      cases hstep
    · rw [hs] at hstep
      obtain rfl := Option.some.inj hstep
      rw [popBool_cons hs]
      dsimp only
      rw [popBool_cons rfl, ← hop]
      dsimp only
      rw [show (opcodeBytes (.binary b)).length = 1 by cases b <;> rfl]
      exact push_goesOn _

/-- An instruction without what it takes. -/
theorem instruction_none (h : Holds e.depex e.iterator (opcodeBytes i)) (hstep : i.step (meaning installed) e.stack.values = none) :
    e.instruction installed allocate = .done (e.result false) := by
  cases i with
  | leaf l => cases hstep
  | unary u =>
    cases hs : e.stack.values with
    | nil =>
      unfold Eval.instruction Eval.negate
      rw [h.1, popBool_nil hs]
      rfl
    | cons value values =>
      rw [hs] at hstep
      cases hstep
  | binary b =>
    obtain ⟨op, hat, -⟩ := instruction_binary installed allocate h
    rw [hat, Eval.combine]
    rcases hs : e.stack.values with - | ⟨right, - | ⟨left, values⟩⟩
    · rw [popBool_nil hs]
    · rw [popBool_cons hs]
      rfl
    · rw [hs] at hstep
      cases hstep

theorem instruction_ignored (h : Ignored (e.depex e.iterator)) :
    e.instruction installed allocate
      = if e.iterator ≠ 0 then .done (e.result false) else .again { e with iterator := e.iterator + 1 } := by
  unfold Eval.instruction
  exact if_pos h

theorem instruction_end (h : e.depex e.iterator = EFI_DEP_END) : e.instruction installed allocate = e.finish := by
  unfold Eval.instruction
  rw [h]
  rfl

theorem finish_cons (h : e.stack.values = value :: vs) : e.finish = .done (e.result value) := by
  rw [Eval.finish, popBool_cons h]

theorem finish_nil (h : e.stack.values = []) : e.finish = .done (e.result false) := by
  rw [Eval.finish, popBool_nil h]

/-- A byte is one that is ignored in front, an instruction, the end or nothing at all. -/
theorem opcode_cases (e : Eval) :
    Ignored (e.depex e.iterator) ∨ (∃ i, Holds e.depex e.iterator (opcodeBytes i)) ∨ e.depex e.iterator = EFI_DEP_END
    ∨ ∀ e' : Eval, e'.depex e'.iterator = e.depex e.iterator →
      ∀ installed allocate, e'.instruction installed allocate = .done (e'.result false) := by
  by_cases hfront : Ignored (e.depex e.iterator)
  · exact Or.inl hfront
  refine Or.inr ?_
  let guid : Guid := ⟨peek e.depex (e.iterator + 1) 16, peek_length _ _ _⟩
  have hguid : Holds e.depex (e.iterator + 1) guid.bytes := holds_peek _ _ _
  by_cases hpush : e.depex e.iterator = EFI_DEP_PUSH
  · exact Or.inl ⟨.leaf (.push guid), hpush, hguid⟩
  by_cases hand : e.depex e.iterator = EFI_DEP_AND
  · exact Or.inl ⟨.binary .and, hand, trivial⟩
  by_cases hor : e.depex e.iterator = EFI_DEP_OR
  · exact Or.inl ⟨.binary .or, hor, trivial⟩
  by_cases hnot : e.depex e.iterator = EFI_DEP_NOT
  · exact Or.inl ⟨.unary (), hnot, trivial⟩
  by_cases htrue : e.depex e.iterator = EFI_DEP_TRUE
  · exact Or.inl ⟨.leaf (.const true), htrue, trivial⟩
  by_cases hfalse : e.depex e.iterator = EFI_DEP_FALSE
  · exact Or.inl ⟨.leaf (.const false), hfalse, trivial⟩
  by_cases hend : e.depex e.iterator = EFI_DEP_END
  · exact Or.inr (Or.inl hend)
  by_cases hreplaced : e.depex e.iterator = EFI_DEP_REPLACE_TRUE
  · exact Or.inl ⟨.leaf (.replaced guid), hreplaced, hguid⟩
  refine Or.inr (Or.inr fun e' he installed allocate => ?_)
  unfold Eval.instruction
  dsimp only
  rw [he]
  unfold Ignored at hfront
  rw [if_neg hfront, if_neg hpush, if_neg hand, if_neg hor, if_neg hnot, if_neg htrue, if_neg hfalse, if_neg hend, if_neg hreplaced]

theorem patch_of_ne {q : Nat} (h : q ≠ a) : patch installed depex a i q = depex q := by
  unfold patch
  split
  · split
    · exact poke_of_out (by simp only [List.length_singleton]; omega)
    · rfl
  · rfl

theorem opcodeBytes_pos (i : Opcode) : 0 < (opcodeBytes i).length := by
  unfold opcodeBytes
  split <;> exact Nat.succ_pos _

/-! ## The loop -/

theorem rounds_past (h : depexSize ≤ e.iterator) :
    Eval.rounds installed allocate depexSize left e = e.result false := by
  cases left with
  | zero => rfl
  | succ left => rw [Eval.rounds, if_pos h]

theorem rounds_again (hin : e.iterator < depexSize) (h : e.instruction installed allocate = .again e') :
    Eval.rounds installed allocate depexSize (left + 1) e = Eval.rounds installed allocate depexSize left e' := by
  rw [Eval.rounds, if_neg (by omega), h]

theorem rounds_done {v : Verdict} (hin : e.iterator < depexSize) (h : e.instruction installed allocate = .done v) :
    Eval.rounds installed allocate depexSize (left + 1) e = v := by
  rw [Eval.rounds, if_neg (by omega), h]

/-- A program that stands there is run, and what it leaves on top is the answer. -/
theorem rounds_program (hmem : ∀ n, allocate n = true) : ∀ {p : List Opcode} {e : Eval} {left : Nat},
    Holds e.depex e.iterator (programBytes p ++ [EFI_DEP_END]) →
    e.iterator + (programBytes p).length < depexSize → depexSize ≤ e.iterator + left →
    run (meaning installed) p e.stack.values = some (value :: vs) →
    (Eval.rounds installed allocate depexSize left e).ready = value
  | [], e, left, hbytes, hsize, hleft, hrun => by
    obtain ⟨left, rfl⟩ : ∃ n, left = n + 1 := ⟨left - 1, by simp only [programBytes, List.flatMap_nil, List.length_nil] at hsize; omega⟩
    have hin : e.iterator < depexSize := by omega
    rw [rounds_done hin ((instruction_end hbytes.1).trans (finish_cons (Option.some.inj hrun)))]
    rfl
  | i :: p, e, left, hbytes, hsize, hleft, hrun => by
    have hsplit : programBytes (i :: p) = opcodeBytes i ++ programBytes p := rfl
    rw [hsplit, List.append_assoc] at hbytes
    obtain ⟨hi, hp⟩ := holds_append.mp hbytes
    rw [hsplit, List.length_append] at hsize
    have hpos := opcodeBytes_pos i
    obtain ⟨left, rfl⟩ : ∃ n, left = n + 1 := ⟨left - 1, by omega⟩
    rw [run_cons] at hrun
    obtain ⟨s, hstep, hrun⟩ := Option.bind_eq_some_iff.mp hrun
    rcases instruction_some allocate hi hstep with ⟨room, hagain⟩ | ⟨hno, -⟩
    · rw [rounds_again (by omega) hagain]
      refine rounds_program hmem (hp.congr fun q hq _ => patch_of_ne ?_) ?_ ?_ hrun
      · show q ≠ e.iterator
        have hq' : e.iterator + (opcodeBytes i).length ≤ q := hq
        omega
      · show e.iterator + (opcodeBytes i).length + (programBytes p).length < depexSize
        omega
      · show depexSize ≤ e.iterator + (opcodeBytes i).length + left
        omega
    · exact absurd hmem hno

/-- Where the answer is yes there is a program that leaves it. -/
theorem program_of_ready : ∀ {left : Nat} {e : Eval}, (e.iterator = 0 → ¬ Ignored (e.depex e.iterator)) →
    (Eval.rounds installed allocate depexSize left e).ready = true →
    ∃ p vs, Holds e.depex e.iterator (programBytes p ++ [EFI_DEP_END])
      ∧ e.iterator + (programBytes p).length < depexSize
      ∧ run (meaning installed) p e.stack.values = some (true :: vs)
  | 0, e, _, h => by cases h
  | left + 1, e, h0, h => by
    rcases Nat.lt_or_ge e.iterator depexSize with hin | hout
    · rcases opcode_cases e with hfront | ⟨i, hi⟩ | hend | hother
      · rw [rounds_done hin ((instruction_ignored hfront).trans (if_pos fun h => h0 h hfront))] at h
        cases h
      · cases hstep : i.step (meaning installed) e.stack.values with
        | none =>
          rw [rounds_done hin (instruction_none hi hstep)] at h
          cases h
        | some s =>
          rcases instruction_some allocate hi hstep with ⟨room, hagain⟩ | ⟨-, v, hdone, hv, -⟩
          · rw [rounds_again hin hagain] at h
            have hpos := opcodeBytes_pos i
            obtain ⟨p, vs, hp, hsize, hrun⟩ := program_of_ready (fun h => absurd h (by dsimp only; omega)) h
            dsimp only at hp hsize hrun
            refine ⟨i :: p, vs, ?_, ?_, ?_⟩
            · rw [show programBytes (i :: p) = opcodeBytes i ++ programBytes p from rfl, List.append_assoc]
              exact holds_append.mpr ⟨hi, hp.congr fun q hq _ => (patch_of_ne (by omega)).symm⟩
            · rw [show programBytes (i :: p) = opcodeBytes i ++ programBytes p from rfl, List.length_append]
              omega
            · rw [run_cons, hstep]
              exact hrun
          · rw [rounds_done hin hdone, hv] at h
            cases h
      · cases hs : e.stack.values with
        | nil =>
          rw [rounds_done hin ((instruction_end hend).trans (finish_nil hs))] at h
          cases h
        | cons value vs =>
          rw [rounds_done hin ((instruction_end hend).trans (finish_cons hs))] at h
          obtain rfl : value = true := h
          exact ⟨[], vs, ⟨hend, trivial⟩, hin, rfl⟩
      · rw [rounds_done hin (hother e rfl installed allocate)] at h
        cases h
    · rw [rounds_past hout] at h
      cases h

/-- A row of expressions, closed by `END`. -/
def closed (es : List Expression) : Bytes := programBytes (listing es) ++ [EFI_DEP_END]

/-- The answer for a row of expressions is the value of the last of them, and the answer is yes for nothing
else. -/
theorem depex_meaning (installed : Bytes → Bool) (allocate : Nat → Bool) (depex : Mem) (depexSize room : Nat) :
    ((∀ n, allocate n = true) → ∀ front (e : Expression) (es : List Expression), Prelude front →
      Holds depex 0 (front ++ closed (e :: es)) → (front ++ closed (e :: es)).length ≤ depexSize →
      (evaluateDepex installed allocate depex depexSize room).ready = e.holds installed)
    ∧ ((evaluateDepex installed allocate depex depexSize room).ready = true → ∃ front, ∃ e : Expression, ∃ es : List Expression,
      Prelude front ∧ Holds depex 0 (front ++ closed (e :: es)) ∧ (front ++ closed (e :: es)).length ≤ depexSize
        ∧ e.holds installed = true) := by
  constructor
  · intro hmem front e es hfront hbytes hsize
    obtain ⟨hpre, hclosed⟩ := holds_append.mp hbytes
    have hrun : run (meaning installed) (listing (e :: es)) [] = some (e.holds installed :: (es.map (Expr.eval (meaning installed)) ++ [])) :=
      run_listing _
    rw [List.length_append, closed, List.length_append, List.length_singleton] at hsize
    cases hfront with
    | none => exact rounds_program hmem hclosed (by dsimp only; rw [List.length_nil] at hsize; omega) (Nat.le_add_left _ _) hrun
    | one h =>
      rw [← hpre.1] at h
      obtain ⟨size, rfl⟩ : ∃ n, depexSize = n + 1 := ⟨depexSize - 1, by omega⟩
      unfold evaluateDepex
      rw [rounds_again (Nat.succ_pos _) ((instruction_ignored h).trans (if_neg fun h => h rfl))]
      refine rounds_program hmem hclosed ?_ ?_ hrun
      · simp only [List.length_singleton] at hsize
        dsimp only
        omega
      · dsimp only
        omega
  · intro h
    -- a yes comes after a round at least
    obtain ⟨size, rfl⟩ : ∃ n, depexSize = n + 1 := by
      cases depexSize with
      | zero => cases h
      | succ n => exact ⟨n, rfl⟩
    unfold evaluateDepex at h
    have hprogram : ∃ front p vs, Prelude front ∧ Holds depex 0 (front ++ (programBytes p ++ [EFI_DEP_END]))
        ∧ front.length + (programBytes p).length < size + 1 ∧ run (meaning installed) p [] = some (true :: vs) := by
      by_cases hfront : Ignored (depex 0)
      · rw [rounds_again (Nat.succ_pos _) ((instruction_ignored hfront).trans (if_neg fun h => h rfl))] at h
        obtain ⟨p, vs, hp, hsize, hrun⟩ := program_of_ready (fun h => absurd h (Nat.succ_ne_zero 0)) h
        exact ⟨[depex 0], p, vs, .one hfront, holds_append.mpr ⟨⟨rfl, trivial⟩, hp⟩, hsize, hrun⟩
      · obtain ⟨p, vs, hp, hsize, hrun⟩ := program_of_ready (fun _ => hfront) h
        exact ⟨[], p, vs, .none, hp, hsize, hrun⟩
    obtain ⟨front, p, vs, hfront, hp, hsize, hrun⟩ := hprogram
    obtain ⟨es, rfl, hes⟩ := run_eq_some.mp hrun
    cases es with
    | nil => cases hes
    | cons e es =>
      refine ⟨front, e, es, hfront, hp, ?_, (List.cons.inj hes).1.symm⟩
      rw [List.length_append, closed, List.length_append, List.length_singleton]
      omega

/-! ## Evaluating again -/

/-- The opcode after these protocols have been looked for. -/
def patched (found : Bytes → Bool) : Opcode → Opcode
  | .leaf (.push protocol) => .leaf (if found protocol.bytes then .replaced protocol else .push protocol)
  | i => i

/-- Protocols of either kind. -/
def orInstalled (found installed : Bytes → Bool) : Bytes → Bool := fun protocol => found protocol || installed protocol

variable {found : Bytes → Bool} {e₁ e₂ : Eval}

theorem patched_length (found : Bytes → Bool) (i : Opcode) : (opcodeBytes (patched found i)).length = (opcodeBytes i).length := by
  unfold patched
  split
  · split <;> rfl
  · rfl

theorem holds_patched (h : Holds depex a (opcodeBytes i)) : Holds (patch found depex a i) a (opcodeBytes (patched found i)) := by
  unfold patched patch
  split
  · rename_i protocol
    split
    · exact ⟨(holds_poke depex a [EFI_DEP_REPLACE_TRUE]).1, h.2.congr fun q hq _ => poke_of_out (by simp only [List.length_singleton]; omega)⟩
    · exact h
  · exact h

/-- An opcode that has been replaced stands for a protocol that is still there. -/
theorem step_patched (s : List Bool) :
    (patched found i).step (meaning installed) s = i.step (meaning (orInstalled found installed)) s := by
  unfold patched
  split
  · rename_i protocol
    refine congrArg (fun b => some (b :: s)) ?_
    show (meaning installed).leaf (if found protocol.bytes then .replaced protocol else .push protocol)
      = (found protocol.bytes || installed protocol.bytes)
    cases found protocol.bytes <;> rfl
  · rename_i hpush
    cases i with
    | leaf l =>
      cases l with
      | push protocol => exact absurd rfl (hpush protocol)
      | replaced protocol => rfl
      | const value => rfl
    | unary u => rcases s with - | ⟨v, s⟩ <;> rfl
    | binary b => rcases s with - | ⟨right, - | ⟨left, s⟩⟩ <;> rfl

/-- What is behind the iterator is not written any more. -/
theorem rounds_depex_below : ∀ {left : Nat} {e : Eval}, a < e.iterator →
    (Eval.rounds installed allocate depexSize left e).depex a = e.depex a
  | 0, _, _ => rfl
  | left + 1, e, ha => by
    rcases Nat.lt_or_ge e.iterator depexSize with hin | hout
    · rcases opcode_cases e with hfront | ⟨i, hi⟩ | hend | hother
      · by_cases h0 : e.iterator = 0
        · omega
        · rw [rounds_done hin ((instruction_ignored hfront).trans (if_pos h0))]
          rfl
      · cases hstep : i.step (meaning installed) e.stack.values with
        | none =>
          rw [rounds_done hin (instruction_none hi hstep)]
          rfl
        | some s =>
          rcases instruction_some allocate hi hstep with ⟨room, hagain⟩ | ⟨-, v, hdone, -, hv⟩
          · rw [rounds_again hin hagain, rounds_depex_below (Nat.lt_of_lt_of_le ha (Nat.le_add_right _ _))]
            exact patch_of_ne (by omega)
          · rw [rounds_done hin hdone, hv]
            exact patch_of_ne (by omega)
      · cases hs : e.stack.values with
        | nil =>
          rw [rounds_done hin ((instruction_end hend).trans (finish_nil hs))]
          rfl
        | cons value vs =>
          rw [rounds_done hin ((instruction_end hend).trans (finish_cons hs))]
          rfl
      · rw [rounds_done hin (hother e rfl installed allocate)]
        rfl
    · rw [rounds_past hout]
      rfl

/-- The patched expression under the protocols that are there now says what the expression says under these
and those that were found: one evaluation is at `e`, one of what it leaves is at `e₁`, and one that finds
all of them is at `e₂`. -/
theorem rounds_found (hmem : ∀ n, allocate n = true) : ∀ {left : Nat} {e e₁ e₂ : Eval},
    e₁.iterator = e.iterator → e₂.iterator = e.iterator → e₁.stack.values = e₂.stack.values →
    e₂.stack.values.length = e.stack.values.length →
    (∀ q, e.iterator ≤ q → e₁.depex q = (Eval.rounds found allocate depexSize left e).depex q) →
    (∀ q, e.iterator ≤ q → e₂.depex q = e.depex q) →
    (Eval.rounds installed allocate depexSize left e₁).ready
      = (Eval.rounds (orInstalled found installed) allocate depexSize left e₂).ready
  | 0, _, _, _, _, _, _, _, _, _ => rfl
  | left + 1, e, e₁, e₂, hit₁, hit₂, hvalues, hlen, hdepex₁, hdepex₂ => by
    rcases Nat.lt_or_ge e.iterator depexSize with hin | hout
    · have hin₁ : e₁.iterator < depexSize := by omega
      have hin₂ : e₂.iterator < depexSize := by omega
      have hop₂ : e₂.depex e₂.iterator = e.depex e.iterator := by rw [hit₂, hdepex₂ _ (Nat.le_refl _)]
      rcases opcode_cases e with hfront | ⟨i, hi⟩ | hend | hother
      · by_cases h0 : e.iterator = 0
        · rw [rounds_again hin ((instruction_ignored hfront).trans (if_neg (not_not.mpr h0)))] at hdepex₁
          have hop₁ : e₁.depex e₁.iterator = e.depex e.iterator := by
            rw [hit₁, hdepex₁ _ (Nat.le_refl _), rounds_depex_below (Nat.lt_succ_self _)]
          rw [rounds_again hin₁ ((instruction_ignored (hop₁ ▸ hfront)).trans (if_neg (not_not.mpr (hit₁.trans h0)))),
            rounds_again hin₂ ((instruction_ignored (hop₂ ▸ hfront)).trans (if_neg (not_not.mpr (hit₂.trans h0))))]
          exact rounds_found (e := { e with iterator := e.iterator + 1 }) hmem (congrArg (· + 1) hit₁) (congrArg (· + 1) hit₂) hvalues hlen
            (fun q hq => hdepex₁ q (Nat.le_of_succ_le hq)) (fun q hq => hdepex₂ q (Nat.le_of_succ_le hq))
        · rw [rounds_done hin ((instruction_ignored hfront).trans (if_pos h0))] at hdepex₁
          have hop₁ : e₁.depex e₁.iterator = e.depex e.iterator := by
            rw [hit₁, hdepex₁ _ (Nat.le_refl _)]
            rfl
          rw [rounds_done hin₁ ((instruction_ignored (hop₁ ▸ hfront)).trans (if_pos (hit₁ ▸ h0))),
            rounds_done hin₂ ((instruction_ignored (hop₂ ▸ hfront)).trans (if_pos (hit₂ ▸ h0)))]
          rfl
      · have hi₂ : Holds e₂.depex e₂.iterator (opcodeBytes i) := by
          rw [hit₂]
          exact hi.congr fun q hq _ => hdepex₂ q hq
        cases hstep : i.step (meaning found) e.stack.values with
        | none =>
          -- too little on the stack for one is too little for all
          have hnone : ∀ m : Meaning Leaf Unit Connective Bool, i.step m e₂.stack.values = none := by
            intro m
            cases hm : i.step m e₂.stack.values with
            | none => rfl
            | some t =>
              obtain ⟨t', ht', -⟩ := step_length (meaning found) hm e.stack.values hlen.symm
              rw [hstep] at ht'
              cases ht'
          rw [rounds_done hin (instruction_none hi hstep)] at hdepex₁
          have hi₁ : Holds e₁.depex e₁.iterator (opcodeBytes i) := by
            rw [hit₁]
            exact hi.congr fun q hq _ => hdepex₁ q hq
          rw [rounds_done hin₁ (instruction_none hi₁ (by rw [hvalues]; exact hnone _)),
            rounds_done hin₂ (instruction_none hi₂ (hnone _))]
          rfl
        | some s =>
          obtain ⟨s₂, hstep₂, hlen₂⟩ := step_length (meaning (orInstalled found installed)) hstep e₂.stack.values hlen
          have hstep₁ : (patched found i).step (meaning installed) e₁.stack.values = some s₂ := by
            rw [hvalues, step_patched]
            exact hstep₂
          rcases instruction_some allocate hi hstep with ⟨room, hagain⟩ | ⟨hno, -⟩
          · rw [rounds_again hin hagain] at hdepex₁
            have hi₁ : Holds e₁.depex e₁.iterator (opcodeBytes (patched found i)) := by
              rw [hit₁]
              refine (holds_patched hi).congr fun q hq hlt => ?_
              rw [hdepex₁ q hq]
              rw [patched_length] at hlt
              exact rounds_depex_below hlt
            rcases instruction_some allocate hi₁ hstep₁ with ⟨room₁, hagain₁⟩ | ⟨hno, -⟩
            · rcases instruction_some allocate hi₂ hstep₂ with ⟨room₂, hagain₂⟩ | ⟨hno, -⟩
              · have hpos := opcodeBytes_pos i
                rw [rounds_again hin₁ hagain₁, rounds_again hin₂ hagain₂]
                refine rounds_found (e := ⟨e.iterator + (opcodeBytes i).length, patch found e.depex e.iterator i, ⟨s, room⟩⟩) hmem ?_ ?_ rfl hlen₂ (fun q hq => ?_) fun q hq => ?_
                · dsimp only
                  rw [patched_length, hit₁]
                · dsimp only
                  rw [hit₂]
                · dsimp only at hq ⊢
                  rw [patch_of_ne (by omega)]
                  exact hdepex₁ q (by omega)
                · dsimp only at hq ⊢
                  rw [patch_of_ne (by omega), patch_of_ne (by omega)]
                  exact hdepex₂ q (by omega)
              · exact absurd hmem hno
            · exact absurd hmem hno
          · exact absurd hmem hno
      · have hfinal : (Eval.rounds found allocate depexSize (left + 1) e).depex = e.depex := by
          cases hs : e.stack.values with
          | nil =>
            rw [rounds_done hin ((instruction_end hend).trans (finish_nil hs))]
            rfl
          | cons value vs =>
            rw [rounds_done hin ((instruction_end hend).trans (finish_cons hs))]
            rfl
        have hend₁ : e₁.depex e₁.iterator = EFI_DEP_END := by
          rw [hit₁, hdepex₁ _ (Nat.le_refl _), hfinal]
          exact hend
        have hend₂ := hop₂.trans hend
        cases hs : e₂.stack.values with
        | nil =>
          rw [rounds_done hin₁ ((instruction_end hend₁).trans (finish_nil (hvalues.trans hs))),
            rounds_done hin₂ ((instruction_end hend₂).trans (finish_nil hs))]
          rfl
        | cons value vs =>
          rw [rounds_done hin₁ ((instruction_end hend₁).trans (finish_cons (hvalues.trans hs))),
            rounds_done hin₂ ((instruction_end hend₂).trans (finish_cons hs))]
          rfl
      · rw [rounds_done hin (hother e rfl found allocate)] at hdepex₁
        have hop₁ : e₁.depex e₁.iterator = e.depex e.iterator := by
          rw [hit₁, hdepex₁ _ (Nat.le_refl _)]
          rfl
        rw [rounds_done hin₁ (hother e₁ hop₁ installed allocate), rounds_done hin₂ (hother e₂ hop₂ _ allocate)]
        rfl
    · rw [rounds_past (by omega), rounds_past (by omega)]
      rfl

/-- The answers to evaluations one after another, each of them with the protocols that are installed then. -/
def evaluations (allocate : Nat → Bool) (depexSize : Nat) : List (Bytes → Bool) → Mem → Nat → List Bool
  | [], _, _ => []
  | installed :: later, depex, room =>
    let v := evaluateDepex installed allocate depex depexSize room
    v.ready :: evaluations allocate depexSize later v.depex v.room

/-- The protocols that some evaluation has found. -/
def everInstalled (ds : List (Bytes → Bool)) : Bytes → Bool := fun protocol => ds.any fun installed => installed protocol

/-- What an evaluation says of the expression that another one has left. -/
theorem evaluateDepex_found (hmem : ∀ n, allocate n = true) (found installed : Bytes → Bool) (depex : Mem) (depexSize room room' room'' : Nat) :
    (evaluateDepex installed allocate (evaluateDepex found allocate depex depexSize room).depex depexSize room').ready
      = (evaluateDepex (orInstalled found installed) allocate depex depexSize room'').ready :=
  rounds_found (e := ⟨0, depex, ⟨[], room⟩⟩) hmem rfl rfl rfl rfl (fun _ _ => rfl) fun _ _ => rfl

/-- A protocol that an evaluation has found counts as installed in all evaluations after it, whether it still
is or not; apart from that they see the expression as it was. -/
theorem depex_patched (hmem : ∀ n, allocate n = true) (ds : List (Bytes → Bool)) (depex : Mem) (depexSize room : Nat) :
    evaluations allocate depexSize ds depex room = (List.range ds.length).map fun k =>
      (evaluateDepex (everInstalled (ds.take (k + 1))) allocate depex depexSize room).ready := by
  induction ds generalizing depex room with
  | nil => rfl
  | cons installed later ih =>
    rw [evaluations, ih, List.length_cons, List.range_succ_eq_map, List.map_cons, List.map_map]
    refine congrArg₂ List.cons ?_ (List.map_congr_left fun k _ => ?_)
    · have hfirst : everInstalled ((installed :: later).take 1) = installed := funext fun _ => Bool.or_false _
      exact congrArg (fun d => (evaluateDepex d allocate depex depexSize room).ready) hfirst.symm
    · exact evaluateDepex_found hmem installed (everInstalled (later.take (k + 1))) depex depexSize room _ room

/-- A protocol is installed at first and gone the second time. -/
theorem depex_patched_gone :
    evaluations (fun _ => true) 18 [fun protocol => protocol == List.replicate 16 7, fun _ => false]
      (poke (fun _ => 0) 0 (EFI_DEP_PUSH :: List.replicate 16 7 ++ [EFI_DEP_END])) 0 = [true, true] :=
  (depex_patched (fun _ => rfl) _ _ _ _).trans (by decide)

end BayTrail.Dxe
