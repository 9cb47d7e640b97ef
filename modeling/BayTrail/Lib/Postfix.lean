import Mathlib.Data.List.Basic

/-!
# Postfix programs

The operands of an expression stand in front of its operator, and a stack is all that is needed to
compute it. A program is a list of instructions, of which an empty stack makes a row of expressions or
nothing: it is their listing, and what it leaves is their values.
-/

namespace BayTrail.Lib.Postfix

/-- Expressions over leaves and operators of one and of two operands. -/
inductive Expr (α υ β : Type) where
  | leaf (a : α)
  | unary (u : υ) (e : Expr α υ β)
  | binary (b : β) (left right : Expr α υ β)

inductive Instr (α υ β : Type) where
  | leaf (a : α)
  | unary (u : υ)
  | binary (b : β)

/-- What leaves and operators stand for. -/
structure Meaning (α υ β V : Type) where
  leaf : α → V
  unary : υ → V → V
  binary : β → V → V → V

variable {α υ β V : Type}

def Expr.eval (m : Meaning α υ β V) : Expr α υ β → V
  | .leaf a => m.leaf a
  | .unary u e => m.unary u (e.eval m)
  | .binary b left right => m.binary b (left.eval m) (right.eval m)

/-- One instruction on a stack, none if it has not what the instruction takes. -/
def Instr.step (m : Meaning α υ β V) : Instr α υ β → List V → Option (List V)
  | .leaf a, s => some (m.leaf a :: s)
  | .unary u, v :: s => some (m.unary u v :: s)
  | .unary _, [] => none
  | .binary b, right :: left :: s => some (m.binary b left right :: s)
  | .binary _, [_] => none
  | .binary _, [] => none

def run (m : Meaning α υ β V) : List (Instr α υ β) → List V → Option (List V)
  | [], s => some s
  | i :: p, s => (i.step m s).bind (run m p)

def Expr.encode : Expr α υ β → List (Instr α υ β)
  | .leaf a => [.leaf a]
  | .unary u e => e.encode ++ [.unary u]
  | .binary b left right => left.encode ++ (right.encode ++ [.binary b])

/-- The program for a row of expressions, the last one of which is on top of the stack. -/
def listing : List (Expr α υ β) → List (Instr α υ β)
  | [] => []
  | e :: es => listing es ++ e.encode

variable {m : Meaning α υ β V} {p q : List (Instr α υ β)} {s s' : List V} {i : Instr α υ β} {es es' : List (Expr α υ β)}

@[simp]
theorem run_nil : run m [] s = some s := rfl

theorem run_cons : run m (i :: p) s = (i.step m s).bind (run m p) := rfl

theorem run_append : run m (p ++ q) s = (run m p s).bind (run m q) := by
  induction p generalizing s with
  | nil => rfl
  | cons i p ih =>
    rw [List.cons_append, run_cons, run_cons, Option.bind_assoc]
    exact Option.bind_congr fun s' _ => ih

/-- An expression puts its value on top of what is there. -/
theorem run_encode (e : Expr α υ β) : run m e.encode s = some (e.eval m :: s) := by
  induction e generalizing s with
  | leaf a => rfl
  | unary u e ih =>
    rw [Expr.encode, run_append, ih]
    rfl
  | binary b left right ihl ihr =>
    rw [Expr.encode, run_append, ihl, Option.bind_some, run_append, ihr]
    rfl

theorem run_listing (es : List (Expr α υ β)) : run m (listing es) s = some (es.map (Expr.eval m) ++ s) := by
  induction es with
  | nil => rfl
  | cons e es ih => rw [listing, run_append, ih, Option.bind_some, run_encode, List.map_cons, List.cons_append]

/-- Whether there is enough on the stack, and how much there is after that, are matters of its length. -/
theorem step_length (m' : Meaning α υ β V) (h : i.step m s = some s') (t : List V) (hlen : t.length = s.length) :
    ∃ t', i.step m' t = some t' ∧ t'.length = s'.length := by
  cases i with
  | leaf a =>
    obtain rfl := Option.some.inj h
    exact ⟨_, rfl, congrArg (· + 1) hlen⟩
  | unary u =>
    rcases s with - | ⟨v, s⟩
    · cases h
    · obtain rfl := Option.some.inj h
      rcases t with - | ⟨w, t⟩
      · cases hlen
      · exact ⟨_, rfl, hlen⟩
  | binary b =>
    rcases s with - | ⟨right, - | ⟨left, s⟩⟩
    · cases h
    · cases h
    · obtain rfl := Option.some.inj h
      rcases t with - | ⟨r, - | ⟨l, t⟩⟩
      · cases hlen
      · cases hlen
      · exact ⟨_, rfl, Nat.succ.inj hlen⟩

/-! ## Every program that runs is a listing -/

/-- Expressions as their own values. -/
def terms : Meaning α υ β (Expr α υ β) := ⟨.leaf, .unary, .binary⟩

/-- An instruction does to values what it does to the expressions they are the values of. -/
theorem step_map : i.step m (es.map (Expr.eval m)) = (i.step terms es).map (List.map (Expr.eval m)) := by
  cases i with
  | leaf a => rfl
  | unary u =>
    cases es with
    | nil => rfl
    | cons e es => rfl
  | binary b =>
    rcases es with - | ⟨right, - | ⟨left, es⟩⟩
    · rfl
    · rfl
    · rfl

theorem run_map : run m p (es.map (Expr.eval m)) = (run terms p es).map (List.map (Expr.eval m)) := by
  induction p generalizing es with
  | nil => rfl
  | cons i p ih =>
    rw [run_cons, run_cons, step_map]
    cases i.step terms es with
    | none => rfl
    | some es' => exact ih

/-- The expressions of a stack list what was done to get there. -/
theorem listing_step (h : i.step terms es = some es') : listing es' = listing es ++ [i] := by
  cases i with
  | leaf a =>
    rw [← Option.some.inj h]
    rfl
  | unary u =>
    cases es with
    | nil => cases h
    | cons e es =>
      rw [← Option.some.inj h, listing, listing, List.append_assoc]
      rfl
  | binary b =>
    rcases es with - | ⟨right, - | ⟨left, es⟩⟩
    · cases h
    · cases h
    · rw [← Option.some.inj h, listing, listing, listing, List.append_assoc, List.append_assoc]
      rfl

theorem listing_run (h : run terms p es = some es') : listing es' = listing es ++ p := by
  induction p generalizing es with
  | nil => rw [← Option.some.inj h, List.append_nil]
  | cons i p ih =>
    rw [run_cons] at h
    obtain ⟨es₁, hstep, h⟩ := Option.bind_eq_some_iff.mp h
    rw [ih h, listing_step hstep, List.append_assoc]
    rfl

/-- What runs on the empty stack is the listing of the expressions whose values it leaves. -/
theorem run_eq_some : run m p [] = some s ↔ ∃ es, p = listing es ∧ s = es.map (Expr.eval m) := by
  constructor
  · intro h
    have hterms : run m p (([] : List (Expr α υ β)).map (Expr.eval m)) = _ := run_map
    rw [List.map_nil, h] at hterms
    obtain ⟨es, hes, hs⟩ := Option.map_eq_some_iff.mp hterms.symm
    exact ⟨es, (listing_run hes).symm, hs.symm⟩
  · rintro ⟨es, rfl, rfl⟩
    rw [run_listing, List.append_nil]

end BayTrail.Lib.Postfix
