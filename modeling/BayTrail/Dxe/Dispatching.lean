import BayTrail.Dxe.Started
import BayTrail.Dxe.Expression
import Mathlib.Data.Prod.Lex
import Mathlib.Order.WellFounded

/-!
# The dispatcher until it returns

`CoreDispatcher` drains the queue and looks for drivers to schedule, until it finds none. Whatever drivers
do, if they stop finding volumes and making requests in the end the dispatcher returns, and what still waits
then is not ready.
-/

namespace BayTrail.Dxe

open BayTrail.Lib

/-- Events that drivers bring about while they run. -/
def Event.IsRequest : Event → Prop
  | .notify _ => True
  | .schedule _ _ => True
  | .trust _ _ => True
  | .visit _ _ _ => False
  | .drain _ => False

/-- What the dispatcher meets with after so many turns of drivers: how the next image loads, what the last
driver brought about, and what is found by looking. -/
structure World where
  load : List (Nat × Bool) → LoadStatus
  events : List (Nat × Bool) → List Event
  platform : List (Nat × Bool) → Platform
  again : List (Nat × Bool) → Nat → Section
  requests : ∀ turns, ∀ ev ∈ events turns, ev.IsRequest

/-- The search of `CoreDispatcher` for drivers to schedule, with whether one was. -/
def sweep (p : Platform) (again : Nat → Section) : List Nat → Dispatcher → Option (Dispatcher × Bool)
  | [], d => some (d, false)
  | i :: is, d => do
    let (d, ready) ← d.visit p (again i) i
    let (d, readyToRun) ← sweep p again is d
    return (d, ready || readyToRun)

/-- What the dispatcher gets to. -/
inductive World.Reaches (w : World) (d₀ : Dispatcher) : Dispatcher → List (Nat × Bool) → Prop where
  | start : w.Reaches d₀ d₀ []
  | turn {d d₁ d₂ : Dispatcher} {turns turns' : List (Nat × Bool)} {turn : Nat × Bool} (h : w.Reaches d₀ d turns)
    (hdrain : d.drain (w.load turns) = (d₁, some turn)) (hrun : d₁.run (w.events (turns ++ [turn])) = some (d₂, turns')) :
    w.Reaches d₀ d₂ (turns ++ [turn])
  | sweep {d d₁ : Dispatcher} {turns : List (Nat × Bool)} (h : w.Reaches d₀ d turns) (hqueue : d.scheduledQueue = [])
    (hsweep : sweep (w.platform turns) (w.again turns) (List.range d.discovered.length) d = some (d₁, true)) : w.Reaches d₀ d₁ turns

/-- Volumes are as they should be whenever a driver brings one about. -/
def World.Proper (w : World) (d₀ : Dispatcher) : Prop :=
  ∀ d turns d₁ turn, w.Reaches d₀ d turns → d.drain (w.load turns) = (d₁, some turn) → ProperRun d₁ (w.events (turns ++ [turn]))

variable {w : World} {d d' d₀ d₁ : Dispatcher} {e : DriverEntry} {started : List Nat} {turns : List (Nat × Bool)} {p : Platform}
  {again : Nat → Section} {i j : Nat} {ready : Bool}

/-! ## A visit that finds nothing -/

variable {section' : Section} {s : DriverState} {quiet : Nat} {d₂ : Dispatcher}

/-- A driver has had its turn, and will have no other one unless it is trusted. -/
def DriverEntry.done (e : DriverEntry) : Bool := e.initialized || e.untrusted

def Dispatcher.left (d : Dispatcher) : Nat := (d.discovered.map DriverEntry.done).count false

theorem DriverEntry.InState.done (h : e.InState s) : e.done = (s == .initialized || s == .untrusted) := by
  rw [DriverEntry.done, h.initialized, h.untrusted]
  rfl

end BayTrail.Dxe
