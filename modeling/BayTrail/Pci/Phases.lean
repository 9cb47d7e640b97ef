import Mathlib.Algebra.Ring.Nat
import Mathlib.Data.List.Basic

/-!
# The phases of PCI enumeration

`EnumerateAll` of `PciBus.c` and the host bridge that it notifies, `PciHostBridge.c`, as the
list of the calls between them. The notifications of the chipset always succeed. That a call comes
after what it needs is said of the list from left to right (`Follows`), so that each part of the
enumeration is proved on its own, behind whatever stands in front of it, and the parts are joined by
`follows_andThen`.
-/

namespace BayTrail.Pci

/-! ## The host bridge -/

/-- `EFI_PCI_HOST_BRIDGE_RESOURCE_ALLOCATION_PHASE`. -/
inductive Phase where
  | beginEnumeration | beginBusAllocation | endBusAllocation | beginResourceAllocation
  | allocateResources | setResources | freeResources | endResourceAllocation
  deriving DecidableEq

def Phase.val : Phase → Int
  | .beginEnumeration => 0
  | .beginBusAllocation => 1
  | .endBusAllocation => 2
  | .beginResourceAllocation => 3
  | .allocateResources => 4
  | .setResources => 5
  | .freeResources => 6
  | .endResourceAllocation => 7

/-- `PCI_HOST_BRG_DATA`: `AllocPhase`, and `ResSubmited` of each root bridge. -/
structure HostBridge where
  allocPhase : Int
  resSubmited : List Bool

/-- `IsResSubmited`, which looks at as many root bridges as there are host bridges; with
fewer root bridges it looks at what stands behind them. -/
def isResSubmited : Nat → List Bool → Option Bool
  | 0, _ => some true
  | _ + 1, [] => none
  | count + 1, submited :: rest => if submited then isResSubmited count rest else some false

/-- What `HbResAllocNotifyPhase` asks for. -/
def HostBridge.accepts (h : HostBridge) (count : Nat) (phase : Phase) : Bool :=
  match phase with
  | .beginEnumeration | .beginBusAllocation => true
  | .endBusAllocation | .beginResourceAllocation => h.allocPhase + 1 = phase.val
  | .allocateResources | .setResources =>
    h.allocPhase + 1 = phase.val && isResSubmited count h.resSubmited = some true
  | .freeResources => false
  | .endResourceAllocation => h.allocPhase + 2 = phase.val

def HostBridge.enter (h : HostBridge) (phase : Phase) : HostBridge :=
  { h with allocPhase := phase.val }

/-- `HbResAllocNotifyPhase`. -/
def notifyPhase (count : Nat) (phase : Phase) (h : HostBridge) : Bool × HostBridge :=
  if h.accepts count phase then (true, h.enter phase) else (false, h)

/-- How `HbResAllocSubmitResources` fails: the request is not taken, there are no resources
for it, or `HbCspAdjustMemoryMmioOverlap` returns an error. -/
inductive SubmitFailure where
  | request | allocation | overlap
  deriving DecidableEq

/-- `HbResAllocSubmitResources` for the root bridge `i`. -/
def submitResources (failure : Option SubmitFailure) (i : Nat) (h : HostBridge) :
    Bool × HostBridge :=
  let submited := { h with resSubmited := h.resSubmited.set i true }
  match failure with
  | none => (true, submited)
  | some .request => (false, h)
  | some .allocation => (false, { submited with allocPhase := h.allocPhase - 1 })
  | some .overlap => (false, submited)

/-! ## EnumerateAll -/

/-- A root bridge: the bus range that it returns, whether its buses can be enumerated, its
requests described and its resources assigned, and how its submits fail before one does
not. -/
structure RootBridge where
  min : Nat
  max : Nat
  len : Nat
  enumerates : Bool
  describes : Bool
  failures : List SubmitFailure
  assigns : Bool

/-- The range is a `NULL descriptor`. -/
def RootBridge.isEmpty (r : RootBridge) : Bool := r.min = 0 && r.max = 0 && r.len = 0

/-- `ValidateDescriptorBlock` for the range. -/
def RootBridge.valid (r : RootBridge) : Bool := (r.min + r.len) % 2 ^ 64 ≤ 0x100

/-- The calls, with host bridge and root bridge. -/
inductive Event where
  | notify (host : Nat) (phase : Phase) (accepted : Bool)
  | enumerateBus (host root : Nat)
  | submit (host root : Nat) (success : Bool)
  deriving DecidableEq

/-- A part of the function: its calls, the host bridge after them, and whether the function
goes on. -/
structure Pass where
  events : List Event
  host : HostBridge
  goesOn : Bool

def Pass.andThen (p : Pass) (next : HostBridge → Pass) : Pass :=
  if p.goesOn then ⟨p.events ++ (next p.host).events, (next p.host).host, (next p.host).goesOn⟩
  else p

/-- The host bridges, each with its root bridges. `retries` is `BoardPciRes_SUPPORT`. -/
structure System where
  retries : Bool
  hosts : List (List RootBridge)

section

variable (sys : System) (j : Nat)

/-- `DoPciNotify`, whose status nobody looks at. -/
def doPciNotify (phase : Phase) (h : HostBridge) : Pass :=
  let (accepted, h) := notifyPhase sys.hosts.length phase h
  ⟨[.notify j phase accepted], h, true⟩

/-- Some other step, that may end the function. -/
def step (events : List Event) (success : Bool) (h : HostBridge) : Pass := ⟨events, h, success⟩

variable (i : Nat) (r : RootBridge)

/-- `SubmitResources`; without retries a failure ends the function. -/
def submit (failure : Option SubmitFailure) (h : HostBridge) : Pass :=
  let (success, h) := submitResources failure i h
  ⟨[.submit j i success], h, success || sys.retries⟩

/-- The loop in which resources are submitted. -/
def submitLoop : List SubmitFailure → HostBridge → Pass
  | [], h =>
    (doPciNotify sys j .beginResourceAllocation h).andThen fun h =>
    (step [] r.describes h).andThen (submit sys j i none)
  | failure :: failures, h =>
    (doPciNotify sys j .beginResourceAllocation h).andThen fun h =>
    (step [] r.describes h).andThen fun h =>
    (submit sys j i (some failure) h).andThen (submitLoop failures)

/-- The pass over a root bridge from its bus range on. -/
def scanRoot (h : HostBridge) : Pass :=
  (step [] r.valid h).andThen fun h =>
  (step [.enumerateBus j i] r.enumerates h).andThen fun h =>
  (doPciNotify sys j .endBusAllocation h).andThen (submitLoop sys j i r r.failures)

/-- The pass over a root bridge. For an empty range the second notification stands under the
first `if`, and `continue` under the second. -/
def enumerateRoot (h : HostBridge) : Pass :=
  (doPciNotify sys j .beginEnumeration h).andThen fun h =>
  (doPciNotify sys j .beginBusAllocation h).andThen fun h =>
  if r.isEmpty then
    (doPciNotify sys j .endBusAllocation h).andThen fun h' =>
    if h.accepts sys.hosts.length .endBusAllocation then scanRoot sys j i r h'
    else
      (doPciNotify sys j .beginResourceAllocation h').andThen fun h'' =>
      if h'.accepts sys.hosts.length .beginResourceAllocation then scanRoot sys j i r h''
      else ⟨[], h'', true⟩
  else scanRoot sys j i r h

/-- The loop over the root bridges. -/
def rootLoop : Nat → List RootBridge → HostBridge → Pass
  | _, [], h => ⟨[], h, true⟩
  | i, r :: rest, h => (enumerateRoot sys j i r h).andThen (rootLoop (i + 1) rest)

/-- The pass over a host bridge. -/
def enumerateHost (roots : List RootBridge) : Pass :=
  (rootLoop sys j 0 roots ⟨-1, List.replicate roots.length false⟩).andThen fun h =>
  (doPciNotify sys j .allocateResources h).andThen fun h =>
  (doPciNotify sys j .setResources h).andThen fun h =>
  (step [] (roots.all RootBridge.assigns) h).andThen (doPciNotify sys j .endResourceAllocation)

/-- The loop over the host bridges. -/
def hostLoop : Nat → List (List RootBridge) → List Event
  | _, [] => []
  | j, roots :: rest =>
    let p := enumerateHost sys j roots
    if p.goesOn then p.events ++ hostLoop (j + 1) rest else p.events

def enumerateAll : List Event := hostLoop sys 0 sys.hosts

end

/-! ## The protocol -/

/-- What the calls have to be like. -/
structure Protocol (sys : System) (events : List Event) : Prop where
  accepted : ∀ j phase accepted, .notify j phase accepted ∈ events → accepted = true
  allocated : ∀ front rest j accepted, events = front ++ .notify j .allocateResources accepted :: rest →
    ∀ roots, sys.hosts[j]? = some roots → ∀ i < roots.length, .submit j i true ∈ front
  skipped : ∀ j i roots r, .enumerateBus j i ∈ events → sys.hosts[j]? = some roots →
    roots[i]? = some r → r.isEmpty = false

/-- The pass over the root bridge comes to its end. -/
def RootBridge.goesOn (sys : System) (r : RootBridge) : Bool :=
  r.valid && r.enumerates && r.describes && (sys.retries || r.failures.isEmpty)

/-- The range is not empty, and a submit fails for want of resources only. -/
def RootBridge.Regular (sys : System) (r : RootBridge) : Prop :=
  r.isEmpty = false ∧ (r.valid = true → r.enumerates = true → r.describes = true →
    sys.retries = true → ∀ f ∈ r.failures, f = .allocation)

/-- The root bridges that are reached are regular; where all of them are passed there is at
least one, and at least one for each host bridge. -/
def RegularHost (sys : System) (roots : List RootBridge) : Prop :=
  (∀ front r rest, roots = front ++ r :: rest → front.all (·.goesOn sys) = true → r.Regular sys) ∧
  (roots.all (·.goesOn sys) = true → roots ≠ [] ∧ sys.hosts.length ≤ roots.length)

/-- So it is for all host bridges that are reached. -/
def RegularSystem (sys : System) : Prop :=
  ∀ front roots rest, sys.hosts = front ++ roots :: rest →
    (front.all fun roots => roots.all fun r => r.goesOn sys && r.assigns) = true →
    RegularHost sys roots

/-! ## Events one after the other -/

section

variable (sys : System)

/-- The event is one of the protocol, after those in front of it. -/
def Event.After (front : List Event) : Event → Prop
  | .notify j phase accepted => accepted = true ∧ (phase = .allocateResources →
      ∀ roots, sys.hosts[j]? = some roots → ∀ i < roots.length, .submit j i true ∈ front)
  | .enumerateBus j i => ∀ roots r, sys.hosts[j]? = some roots → roots[i]? = some r →
      r.isEmpty = false
  | .submit _ _ _ => True

/-- All the events are. -/
def Follows : List Event → List Event → Prop
  | _, [] => True
  | front, e :: rest => e.After sys front ∧ Follows (front ++ [e]) rest

end

variable {sys : System} {front : List Event}

theorem follows_append : ∀ {front a b : List Event},
    Follows sys front (a ++ b) ↔ Follows sys front a ∧ Follows sys (front ++ a) b
  | front, [], b => by simp [Follows]
  | front, e :: a, b => by
    rw [List.cons_append, Follows, Follows, follows_append, List.append_assoc,
      List.singleton_append, and_assoc]

theorem follows_iff : ∀ {events front : List Event}, Follows sys front events ↔
    ∀ before e rest, events = before ++ e :: rest → e.After sys (front ++ before)
  | [], front => by
    refine ⟨fun _ before e rest h => ?_, fun _ => trivial⟩
    exact absurd h.symm (by simp)
  | e :: events, front => by
    rw [Follows, follows_iff]
    constructor
    · rintro ⟨he, hrest⟩ before e' rest h
      cases before with
      | nil =>
        obtain ⟨rfl, -⟩ := List.cons.inj h
        rw [List.append_nil]
        exact he
      | cons d before =>
        obtain ⟨rfl, h'⟩ := List.cons.inj h
        have := hrest before e' rest h'
        rwa [List.append_assoc, List.singleton_append] at this
    · intro h
      refine ⟨by simpa using h [] e events rfl, fun before e' rest heq => ?_⟩
      have := h (e :: before) e' rest (by rw [heq, List.cons_append])
      rwa [List.append_assoc, List.singleton_append]

variable {events : List Event} {p : Pass} {next : HostBridge → Pass} {success : Bool}

theorem protocol_iff : Protocol sys events ↔ Follows sys [] events := by
  rw [follows_iff]
  constructor
  · rintro ⟨haccepted, hallocated, hskipped⟩ before e rest h
    rw [List.nil_append]
    have he : e ∈ events := h ▸ List.mem_append_right _ (List.mem_cons_self ..)
    cases e with
    | notify j phase accepted =>
      refine ⟨haccepted j phase accepted he, fun hphase => ?_⟩
      subst hphase
      exact hallocated before rest j accepted h
    | enumerateBus j i => exact fun roots r => hskipped j i roots r he
    | submit j i success => trivial
  · intro h
    have hafter : ∀ e ∈ events, ∃ before, e.After sys before := fun e he => by
      obtain ⟨before, rest, heq⟩ := List.append_of_mem he
      exact ⟨_, h before e rest heq⟩
    refine ⟨fun j phase accepted he => ?_, fun before rest j accepted heq => ?_,
      fun j i roots r he => ?_⟩
    · obtain ⟨before, hbefore⟩ := hafter _ he
      exact hbefore.1
    · exact (h before _ rest heq).2 rfl
    · obtain ⟨before, hbefore⟩ := hafter _ he
      exact hbefore roots r

theorem follows_andThen :
    Follows sys front (p.andThen next).events ↔ Follows sys front p.events ∧
      (p.goesOn = true → Follows sys (front ++ p.events) (next p.host).events) := by
  unfold Pass.andThen
  split
  next h =>
    rw [follows_append]
    exact ⟨fun h' => ⟨h'.1, fun _ => h'.2⟩, fun h' => ⟨h'.1, h'.2 h⟩⟩
  next h => exact ⟨fun h' => ⟨h', fun hc => absurd hc h⟩, And.left⟩

theorem andThen_goesOn :
    (p.andThen next).goesOn = (p.goesOn && (next p.host).goesOn) := by
  unfold Pass.andThen
  split
  next h => rw [h, Bool.true_and]
  next h =>
    rw [Bool.not_eq_true] at h
    rw [h, Bool.false_and]

/-! ## One notification -/

variable {j i : Nat} {r : RootBridge} {h : HostBridge} {phase : Phase}

/-- A notification other than that resources are to be allocated. -/
theorem follows_notify (hphase : phase ≠ .allocateResources) :
    Follows sys front (doPciNotify sys j phase h).events ↔
      h.accepts sys.hosts.length phase = true := by
  unfold doPciNotify notifyPhase Follows Follows Event.After
  cases h.accepts sys.hosts.length phase with
  | true => simp [hphase]
  | false => simp

theorem notify_host (haccepts : h.accepts sys.hosts.length phase = true) :
    (doPciNotify sys j phase h).host = h.enter phase := by
  unfold doPciNotify notifyPhase
  rw [if_pos haccepts]

theorem notify_goesOn : (doPciNotify sys j phase h).goesOn = true := rfl

theorem notify_andThen (haccepts : h.accepts sys.hosts.length phase = true) :
    (doPciNotify sys j phase h).andThen next = ⟨.notify j phase true ::
      (next (h.enter phase)).events, (next (h.enter phase)).host, (next (h.enter phase)).goesOn⟩ := by
  unfold doPciNotify notifyPhase
  rw [if_pos haccepts]
  rfl

theorem step_andThen (hsuccess : success = true) : (step events success h).andThen next =
      ⟨events ++ (next h).events, (next h).host, (next h).goesOn⟩ :=
  if_pos hsuccess

theorem follows_step :
    Follows sys front ((step events success h).andThen next).events ↔ Follows sys front events ∧
      (success = true → Follows sys (front ++ events) (next h).events) :=
  follows_andThen

/-! ## Submitting -/

theorem submitLoop_goesOn : ∀ (failures : List SubmitFailure) (h : HostBridge),
    (submitLoop sys j i r failures h).goesOn = (r.describes && (sys.retries || failures.isEmpty))
  | [], h => by
    unfold submitLoop
    rw [andThen_goesOn, andThen_goesOn, notify_goesOn, List.isEmpty_nil, Bool.or_true]
    rfl
  | failure :: failures, h => by
    unfold submitLoop
    rw [andThen_goesOn, andThen_goesOn, andThen_goesOn, notify_goesOn, submitLoop_goesOn,
      List.isEmpty_cons, Bool.or_false, Bool.true_and]
    have hsubmit : ∀ h, (submit sys j i (some failure) h).goesOn = sys.retries := fun h => by
      cases failure <;> rfl
    rw [hsubmit]
    cases r.describes <;> cases sys.retries <;> rfl

/-- What the loop leaves when it goes on. -/
structure Submitted (j i : Nat) (h : HostBridge) (p : Pass) : Prop where
  phase : p.host.allocPhase = 3
  submited : p.host.resSubmited = h.resSubmited.set i true
  event : .submit j i true ∈ p.events

theorem accepts_beginResource (hphase : h.allocPhase = 2) (count : Nat) :
    h.accepts count .beginResourceAllocation = true := by
  unfold HostBridge.accepts
  rw [hphase]
  rfl

theorem submitLoop_follows : ∀ (failures : List SubmitFailure) (h : HostBridge) (front : List Event),
    h.allocPhase = 2 → (Follows sys front (submitLoop sys j i r failures h).events ↔
      (r.describes = true → sys.retries = true → ∀ f ∈ failures, f = .allocation))
  | [], h, front, hphase => by
    unfold submitLoop
    rw [follows_andThen, follows_notify (by decide), follows_andThen]
    refine ⟨fun _ _ _ f hf => absurd hf List.not_mem_nil, fun _ =>
      ⟨accepts_beginResource hphase _, fun _ => ⟨trivial, fun _ => ⟨trivial, trivial⟩⟩⟩⟩
  | failure :: failures, h, front, hphase => by
    have haccepts := accepts_beginResource hphase sys.hosts.length
    unfold submitLoop
    rw [follows_andThen, follows_notify (by decide), notify_host haccepts, follows_andThen]
    constructor
    · rintro ⟨-, hrest⟩ hdescribes hretries
      have hsubmit := (hrest rfl).2 hdescribes
      rw [follows_andThen] at hsubmit
      have hnext := hsubmit.2 (by
        unfold submit
        rw [hretries]
        exact Bool.or_true _)
      -- only a want of resources brings the phase back
      have hfailure : failure = .allocation := by
        have hbegin : ∀ h' front', Follows sys front' (submitLoop sys j i r failures h').events →
            h'.accepts sys.hosts.length .beginResourceAllocation = true := by
          intro h' front' hfollows
          cases failures with
          | nil =>
            unfold submitLoop at hfollows
            rw [follows_andThen, follows_notify (by decide)] at hfollows
            exact hfollows.1
          | cons f fs =>
            unfold submitLoop at hfollows
            rw [follows_andThen, follows_notify (by decide)] at hfollows
            exact hfollows.1
        have hagain := hbegin _ _ hnext
        cases failure with
        | allocation => rfl
        | request | overlap =>
          exact absurd hagain (by simp [submit, submitResources, step, HostBridge.accepts,
            HostBridge.enter, Phase.val])
      subst hfailure
      have hrest' := (submitLoop_follows failures _ _ rfl).mp hnext hdescribes hretries
      intro f hf
      rcases List.mem_cons.mp hf with rfl | hf
      · rfl
      · exact hrest' f hf
    · intro hall
      refine ⟨haccepts, fun _ => ⟨trivial, fun hdescribes => ?_⟩⟩
      rw [follows_andThen]
      refine ⟨⟨trivial, trivial⟩, fun hgoes => ?_⟩
      have hretries : sys.retries = true := by
        cases failure <;> exact hgoes
      obtain rfl : failure = .allocation := hall hdescribes hretries failure (by simp)
      exact (submitLoop_follows failures _ _ rfl).mpr fun hd hr f hf =>
        hall hd hr f (List.mem_cons_of_mem _ hf)

theorem submitLoop_submitted : ∀ (failures : List SubmitFailure) (h : HostBridge),
    h.allocPhase = 2 → r.describes = true → (sys.retries || failures.isEmpty) = true →
    (∀ f ∈ failures, f = .allocation) → Submitted j i h (submitLoop sys j i r failures h)
  | [], h, hphase, hdescribes, _, _ => by
    unfold submitLoop
    rw [notify_andThen (accepts_beginResource hphase _), step_andThen hdescribes]
    exact ⟨rfl, rfl, by simp [submit, submitResources]⟩
  | failure :: failures, h, hphase, hdescribes, hlast, hall => by
    obtain rfl : failure = .allocation := hall failure (by simp)
    have hretries : sys.retries = true := by
      rw [List.isEmpty_cons, Bool.or_false] at hlast
      exact hlast
    obtain ⟨h1, h2, h3⟩ := submitLoop_submitted failures
      ⟨2, h.resSubmited.set i true⟩ rfl hdescribes (by rw [hretries, Bool.true_or])
      fun f hf => hall f (List.mem_cons_of_mem _ hf)
    unfold submitLoop
    rw [notify_andThen (accepts_beginResource hphase _), step_andThen hdescribes]
    unfold Pass.andThen
    rw [if_pos (show (submit sys j i (some .allocation) _).goesOn = true from hretries)]
    refine ⟨h1, h2.trans (List.set_set ..), ?_⟩
    exact List.mem_cons_of_mem _ (List.mem_append_right _ (List.mem_append_right _ h3))

/-! ## A root bridge -/

/-- The root bridge stands at its place. -/
structure At (sys : System) (j i : Nat) (r : RootBridge) : Prop where
  root : ∃ roots, sys.hosts[j]? = some roots ∧ roots[i]? = some r

theorem after_enumerateBus (hat : At sys j i r) :
    Event.After sys front (.enumerateBus j i) ↔ r.isEmpty = false := by
  obtain ⟨roots, hroots, hr⟩ := hat
  constructor
  · exact fun h => h roots r hroots hr
  · intro h roots' r' hroots' hr'
    obtain rfl := Option.some.inj (hroots.symm.trans hroots')
    obtain rfl := Option.some.inj (hr.symm.trans hr')
    exact h

theorem accepts_endBus (hphase : h.allocPhase = 1) (count : Nat) :
    h.accepts count .endBusAllocation = true := by
  unfold HostBridge.accepts
  rw [hphase]
  rfl

theorem scanRoot_goesOn : (scanRoot sys j i r h).goesOn = r.goesOn sys := by
  unfold scanRoot RootBridge.goesOn
  rw [andThen_goesOn, andThen_goesOn, andThen_goesOn, submitLoop_goesOn, notify_goesOn]
  unfold step
  dsimp only
  rw [Bool.true_and, Bool.and_assoc, Bool.and_assoc]

theorem scanRoot_follows (hat : At sys j i r) (hphase : h.allocPhase = 1)
    (hnonempty : r.isEmpty = false) :
    Follows sys front (scanRoot sys j i r h).events ↔ r.Regular sys := by
  have haccepts := accepts_endBus hphase sys.hosts.length
  unfold scanRoot RootBridge.Regular
  rw [follows_step, follows_step, follows_andThen, follows_notify (by decide),
    notify_host haccepts, submitLoop_follows _ _ _ rfl]
  constructor
  · rintro ⟨-, hrest⟩
    exact ⟨hnonempty, fun hvalid henum => ((hrest hvalid).2 henum).2 rfl⟩
  · rintro ⟨-, hall⟩
    exact ⟨trivial, fun hvalid => ⟨⟨(after_enumerateBus hat).mpr hnonempty, trivial⟩,
      fun henum => ⟨haccepts, fun _ => hall hvalid henum⟩⟩⟩

theorem scanRoot_submitted (hphase : h.allocPhase = 1) (hgoes : r.goesOn sys = true)
    (hregular : r.Regular sys) : Submitted j i h (scanRoot sys j i r h) := by
  have haccepts := accepts_endBus hphase sys.hosts.length
  unfold RootBridge.goesOn at hgoes
  simp only [Bool.and_eq_true] at hgoes
  obtain ⟨⟨⟨hvalid, henum⟩, hdescribes⟩, hlast⟩ := hgoes
  have hall : ∀ f ∈ r.failures, f = .allocation := by
    rcases (Bool.or_eq_true _ _).mp hlast with hretries | hnone
    · exact hregular.2 hvalid henum hdescribes hretries
    · rw [List.isEmpty_iff.mp hnone]
      exact fun f hf => absurd hf List.not_mem_nil
  obtain ⟨h1, h2, h3⟩ := @submitLoop_submitted sys j i r r.failures
    (h.enter .endBusAllocation) rfl hdescribes hlast hall
  unfold scanRoot
  rw [step_andThen hvalid, step_andThen henum, notify_andThen haccepts]
  exact ⟨h1, h2, List.mem_append_right _ (List.mem_append_right _ (List.mem_cons_of_mem _ h3))⟩

/-- What the pass over a root bridge starts with. -/
theorem enumerateRoot_eq (sys : System) (j i : Nat) (r : RootBridge) (h : HostBridge)
    (hnonempty : r.isEmpty = false) :
    enumerateRoot sys j i r h =
      ⟨.notify j .beginEnumeration true :: .notify j .beginBusAllocation true ::
        (scanRoot sys j i r (h.enter .beginBusAllocation)).events,
       (scanRoot sys j i r (h.enter .beginBusAllocation)).host,
       (scanRoot sys j i r (h.enter .beginBusAllocation)).goesOn⟩ := by
  unfold enumerateRoot
  rw [hnonempty]
  rfl

/-- For an empty range the bus allocation is ended, and then the root bridge is scanned all
the same. -/
theorem enumerateRoot_empty (sys : System) (j i : Nat) (r : RootBridge) (h : HostBridge)
    (hempty : r.isEmpty = true) :
    enumerateRoot sys j i r h =
      ⟨.notify j .beginEnumeration true :: .notify j .beginBusAllocation true ::
        .notify j .endBusAllocation true ::
        (scanRoot sys j i r (h.enter .endBusAllocation)).events,
       (scanRoot sys j i r (h.enter .endBusAllocation)).host,
       (scanRoot sys j i r (h.enter .endBusAllocation)).goesOn⟩ := by
  unfold enumerateRoot
  rw [hempty]
  rfl

theorem enumerateRoot_follows (hat : At sys j i r) :
    Follows sys front (enumerateRoot sys j i r h).events ↔ r.Regular sys := by
  cases hempty : r.isEmpty with
  | false =>
    rw [enumerateRoot_eq sys j i r h hempty]
    unfold Follows Follows
    rw [scanRoot_follows hat rfl hempty]
    exact ⟨fun h => h.2.2, fun h => ⟨⟨rfl, fun hc => absurd hc (by decide)⟩,
      ⟨rfl, fun hc => absurd hc (by decide)⟩, h⟩⟩
  | true =>
    rw [enumerateRoot_empty sys j i r h hempty]
    constructor
    · intro hfollows
      exfalso
      have hscan := hfollows.2.2.2
      unfold scanRoot at hscan
      rw [follows_andThen] at hscan
      have hvalid : r.valid = true := by
        unfold RootBridge.isEmpty at hempty
        simp only [Bool.and_eq_true, decide_eq_true_eq] at hempty
        obtain ⟨⟨hmin, -⟩, hlen⟩ := hempty
        unfold RootBridge.valid
        rw [hmin, hlen]
        rfl
      have henum := hscan.2 hvalid
      rw [follows_andThen] at henum
      have := (after_enumerateBus hat).mp henum.1.1
      exact absurd (hempty.symm.trans this) (by simp)
    · exact fun hregular => absurd (hempty.symm.trans hregular.1) (by simp)

theorem enumerateRoot_goesOn : (enumerateRoot sys j i r h).goesOn = r.goesOn sys := by
  cases hempty : r.isEmpty with
  | false =>
    rw [enumerateRoot_eq sys j i r h hempty]
    exact scanRoot_goesOn
  | true =>
    rw [enumerateRoot_empty sys j i r h hempty]
    exact scanRoot_goesOn

theorem enumerateRoot_submitted (hgoes : r.goesOn sys = true) (hregular : r.Regular sys) :
    Submitted j i h (enumerateRoot sys j i r h) := by
  rw [enumerateRoot_eq sys j i r h hregular.1]
  obtain ⟨h1, h2, h3⟩ := @scanRoot_submitted sys j i r (h.enter .beginBusAllocation) rfl hgoes
    hregular
  exact ⟨h1, h2, List.mem_cons_of_mem _ (List.mem_cons_of_mem _ h3)⟩

/-! ## The root bridges of a host bridge -/

variable {roots : List RootBridge}

theorem rootLoop_goesOn : ∀ (rest : List RootBridge) (i : Nat) (h : HostBridge),
    (rootLoop sys j i rest h).goesOn = rest.all (·.goesOn sys)
  | [], _, _ => rfl
  | r :: rest, i, h => by
    unfold rootLoop
    rw [andThen_goesOn, enumerateRoot_goesOn, rootLoop_goesOn, List.all_cons]

/-- The root bridge that the loop comes to next. -/
theorem at_of_drop {rest : List RootBridge} (hroots : sys.hosts[j]? = some roots)
    (hdrop : roots.drop i = r :: rest) : At sys j i r ∧ roots.drop (i + 1) = rest := by
  constructor
  · refine ⟨roots, hroots, ?_⟩
    have := congrArg List.head? hdrop
    rwa [List.head?_drop, List.head?_cons] at this
  · rw [← List.tail_drop, hdrop]
    rfl

theorem rootLoop_follows (hroots : sys.hosts[j]? = some roots) : ∀ (rest : List RootBridge)
    (i : Nat) (h : HostBridge) (front : List Event), roots.drop i = rest →
    (Follows sys front (rootLoop sys j i rest h).events ↔
      ∀ before r after, rest = before ++ r :: after → before.all (·.goesOn sys) = true →
        r.Regular sys)
  | [], _, _, _, _ => by
    refine ⟨fun _ before r after h => ?_, fun _ => trivial⟩
    exact absurd h.symm (by simp)
  | r :: rest, i, h, front, hdrop => by
    obtain ⟨hat, hdrop'⟩ := at_of_drop hroots hdrop
    unfold rootLoop
    rw [follows_andThen, enumerateRoot_follows hat, enumerateRoot_goesOn]
    constructor
    · rintro ⟨hr, hrest⟩ before r' after heq hbefore
      cases before with
      | nil =>
        obtain ⟨rfl, -⟩ := List.cons.inj heq
        exact hr
      | cons d before =>
        obtain ⟨rfl, heq'⟩ := List.cons.inj heq
        rw [List.all_cons, Bool.and_eq_true] at hbefore
        exact (rootLoop_follows hroots rest _ _ _ hdrop').mp (hrest hbefore.1) before r' after heq'
          hbefore.2
    · intro hall
      refine ⟨hall [] r rest rfl rfl, fun hgoes => ?_⟩
      refine (rootLoop_follows hroots rest _ _ _ hdrop').mpr fun before r' after heq hbefore => ?_
      refine hall (r :: before) r' after (by rw [heq, List.cons_append]) ?_
      rw [List.all_cons, hgoes, hbefore]
      rfl

theorem set_replicate (i n : Nat) : (List.replicate i true ++ List.replicate (n + 1) false).set i true
    = List.replicate (i + 1) true ++ List.replicate n false := by
  rw [List.set_append_right _ _ (Nat.le_of_eq List.length_replicate), List.length_replicate, Nat.sub_self,
    List.replicate_succ, List.set_cons_zero, List.replicate_succ', List.append_assoc,
    List.singleton_append]

/-- Past the last root bridge all of them have submitted their resources. -/
theorem rootLoop_submitted : ∀ (rest : List RootBridge) (i : Nat) (h : HostBridge),
    rest.all (·.goesOn sys) = true → (∀ r ∈ rest, r.Regular sys) →
    h.resSubmited = List.replicate i true ++ List.replicate rest.length false →
    (rootLoop sys j i rest h).host.resSubmited = List.replicate (i + rest.length) true
      ∧ (rest ≠ [] → (rootLoop sys j i rest h).host.allocPhase = 3)
      ∧ (rest = [] → (rootLoop sys j i rest h).host = h)
      ∧ ∀ k < rest.length, .submit j (i + k) true ∈ (rootLoop sys j i rest h).events
  | [], i, h, _, _, hflags => by
    rw [List.length_nil, List.replicate_zero, List.append_nil] at hflags
    exact ⟨hflags, fun hne => absurd rfl hne, fun _ => rfl, fun k hk => absurd hk (Nat.not_lt_zero k)⟩
  | r :: rest, i, h, hgoes, hregular, hflags => by
    rw [List.all_cons, Bool.and_eq_true] at hgoes
    obtain ⟨hphase, hset, hevent⟩ := @enumerateRoot_submitted sys j i r h hgoes.1
      (hregular r (by simp))
    rw [hflags, List.length_cons, set_replicate] at hset
    obtain ⟨h1, h2, h3, h4⟩ := rootLoop_submitted rest (i + 1) (enumerateRoot sys j i r h).host hgoes.2
      (fun r hr => hregular r (List.mem_cons_of_mem _ hr)) hset
    unfold rootLoop Pass.andThen
    rw [if_pos (enumerateRoot_goesOn.trans hgoes.1)]
    dsimp only
    refine ⟨?_, fun _ => ?_, fun hnil => absurd hnil (by simp), fun k hk => ?_⟩
    · rw [h1, List.length_cons, Nat.add_assoc, Nat.add_comm 1]
    · by_cases hrest : rest = []
      · rw [h3 hrest]
        exact hphase
      · exact h2 hrest
    · cases k with
      | zero => exact List.mem_append_left _ hevent
      | succ k =>
        rw [List.length_cons] at hk
        have := h4 k (by omega)
        rw [Nat.add_assoc, Nat.add_comm 1] at this
        exact List.mem_append_right _ this

theorem isResSubmited_replicate : ∀ (count n : Nat),
    isResSubmited count (List.replicate n true) = some true ↔ count ≤ n
  | 0, n => by simp [isResSubmited]
  | count + 1, 0 => by simp [isResSubmited]
  | count + 1, n + 1 => by
    rw [List.replicate_succ, isResSubmited, if_pos rfl, isResSubmited_replicate]
    omega

theorem accepts_allocate {n : Nat} {flags : List Bool} (hflags : flags = List.replicate n true)
    {phase : Int} (count : Nat) :
    (HostBridge.mk phase flags).accepts count .allocateResources = true ↔ phase = 3 ∧ count ≤ n := by
  unfold HostBridge.accepts
  dsimp only
  rw [hflags, Bool.and_eq_true, decide_eq_true_iff, decide_eq_true_iff, isResSubmited_replicate,
    show Phase.allocateResources.val = 4 from rfl]
  omega

/-! ## A host bridge -/

theorem enumerateHost_goesOn : (enumerateHost sys j roots).goesOn
    = roots.all fun r => r.goesOn sys && r.assigns := by
  unfold enumerateHost
  rw [andThen_goesOn, andThen_goesOn, andThen_goesOn, andThen_goesOn, rootLoop_goesOn, notify_goesOn,
    notify_goesOn, notify_goesOn, Bool.true_and, Bool.true_and, Bool.and_true]
  unfold step
  dsimp only
  rw [Bool.eq_iff_iff]
  simp only [Bool.and_eq_true, List.all_eq_true]
  exact ⟨fun h r hr => ⟨h.1 r hr, h.2 r hr⟩, fun h => ⟨fun r hr => (h r hr).1, fun r hr => (h r hr).2⟩⟩

theorem enumerateHost_follows (hroots : sys.hosts[j]? = some roots) :
    Follows sys front (enumerateHost sys j roots).events ↔ RegularHost sys roots := by
  unfold enumerateHost RegularHost
  rw [follows_andThen, rootLoop_follows hroots roots 0 _ _ rfl, rootLoop_goesOn]
  refine and_congr_right fun hregular => forall_congr' fun hgoes => ?_
  have hall : ∀ r ∈ roots, r.Regular sys := by
    intro r hr
    obtain ⟨before, after, heq⟩ := List.append_of_mem hr
    refine hregular before r after heq (List.all_eq_true.mpr fun r' hr' => ?_)
    exact List.all_eq_true.mp hgoes r' (heq ▸ List.mem_append_left _ hr')
  obtain ⟨hflags, hphase, hnil, hevents⟩ := @rootLoop_submitted sys j roots 0
    ⟨-1, List.replicate roots.length false⟩ hgoes hall rfl
  rw [Nat.zero_add] at hflags
  generalize rootLoop sys j 0 roots ⟨-1, List.replicate roots.length false⟩ = p at *
  have haccepts : p.host.accepts sys.hosts.length .allocateResources = true ↔
      roots ≠ [] ∧ sys.hosts.length ≤ roots.length := by
    refine (accepts_allocate hflags _).trans (and_congr_left fun _ => ?_)
    refine ⟨fun h hempty => ?_, hphase⟩
    have hphase : p.host.allocPhase = -1 := congrArg HostBridge.allocPhase (hnil hempty)
    exact absurd (hphase.symm.trans h) (by decide)
  rw [← haccepts, follows_andThen]
  constructor
  · intro hfollows
    unfold doPciNotify notifyPhase at hfollows
    by_contra hnot
    rw [if_neg hnot] at hfollows
    exact absurd hfollows.1.1.1 (by simp)
  · intro hyes
    have hflags' := ((accepts_allocate hflags sys.hosts.length).mp hyes).2
    have hset : (p.host.enter .allocateResources).accepts sys.hosts.length .setResources = true := by
      unfold HostBridge.accepts HostBridge.enter
      dsimp only
      rw [hflags, (isResSubmited_replicate _ _).mpr hflags']
      rfl
    refine ⟨?_, fun _ => ?_⟩
    · unfold doPciNotify notifyPhase
      rw [if_pos hyes]
      refine ⟨⟨rfl, fun _ roots' hroots' i hi => ?_⟩, trivial⟩
      obtain rfl := Option.some.inj (hroots.symm.trans hroots')
      have := hevents i hi
      rw [Nat.zero_add] at this
      exact List.mem_append_right _ this
    · rw [notify_host hyes, follows_andThen, follows_notify (by decide), notify_host hset]
      refine ⟨hset, fun _ => ?_⟩
      rw [follows_step]
      exact ⟨trivial, fun _ => (follows_notify (by decide)).mpr rfl⟩

/-! ## The system -/

theorem hostLoop_follows : ∀ (rest : List (List RootBridge)) (j : Nat) (front : List Event),
    sys.hosts.drop j = rest → (Follows sys front (hostLoop sys j rest) ↔
      ∀ before roots after, rest = before ++ roots :: after →
        (before.all fun roots => roots.all fun r => r.goesOn sys && r.assigns) = true →
        RegularHost sys roots)
  | [], _, _, _ => by
    refine ⟨fun _ before roots after h => ?_, fun _ => trivial⟩
    exact absurd h.symm (by simp)
  | roots :: rest, j, front, hdrop => by
    have hroots : sys.hosts[j]? = some roots := by
      have := congrArg List.head? hdrop
      rwa [List.head?_drop, List.head?_cons] at this
    have hdrop' : sys.hosts.drop (j + 1) = rest := by
      rw [← List.tail_drop, hdrop]
      rfl
    have hsplit : Follows sys front (hostLoop sys j (roots :: rest)) ↔ RegularHost sys roots ∧
        ((roots.all fun r => r.goesOn sys && r.assigns) = true →
          Follows sys (front ++ (enumerateHost sys j roots).events) (hostLoop sys (j + 1) rest)) := by
      rw [hostLoop, enumerateHost_goesOn]
      split
      next hgoes =>
        rw [follows_append, enumerateHost_follows hroots]
        exact and_congr_right fun _ => ⟨fun h _ => h, fun h => h hgoes⟩
      next hgoes =>
        rw [enumerateHost_follows hroots]
        exact ⟨fun h => ⟨h, fun hc => absurd hc hgoes⟩, And.left⟩
    rw [hsplit]
    constructor
    · rintro ⟨hhost, hrest⟩ before roots' after heq hbefore
      cases before with
      | nil =>
        obtain ⟨rfl, -⟩ := List.cons.inj heq
        exact hhost
      | cons d before =>
        obtain ⟨rfl, heq'⟩ := List.cons.inj heq
        rw [List.all_cons, Bool.and_eq_true] at hbefore
        exact (hostLoop_follows rest _ _ hdrop').mp (hrest hbefore.1) before roots' after heq'
          hbefore.2
    · intro hall
      refine ⟨hall [] roots rest rfl rfl, fun hgoes => ?_⟩
      refine (hostLoop_follows rest _ _ hdrop').mpr fun before roots' after heq hbefore => ?_
      refine hall (roots :: before) roots' after (by rw [heq, List.cons_append]) ?_
      rw [List.all_cons, hgoes, hbefore]
      rfl

/-- The calls are those of the protocol if and only if what is reached is regular. -/
theorem protocol_iff_regular (sys : System) :
    Protocol sys (enumerateAll sys) ↔ RegularSystem sys :=
  protocol_iff.trans (hostLoop_follows sys.hosts 0 [] rfl)

/-- One host bridge with one root bridge, whose bus range is empty. -/
def emptyRange : System where
  retries := true
  hosts := [[⟨0, 0, 0, true, true, [], true⟩]]

/-- The root bridge is enumerated, and the end of its bus allocation notified twice. -/
theorem not_protocol : ¬ ∀ sys : System, Protocol sys (enumerateAll sys) := by
  intro h
  have hskipped := (h emptyRange).skipped 0 0 [⟨0, 0, 0, true, true, [], true⟩] _ (by decide) rfl rfl
  exact absurd hskipped (by decide)

end BayTrail.Pci
