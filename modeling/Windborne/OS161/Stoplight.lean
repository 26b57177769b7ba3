import Mathlib.Logic.Function.Basic
import Windborne.Library.Runs

/-!
# The stoplight of `stoplight.c`

Every vehicle runs `turnleft` or `turnright` once. A step is one statement of one vehicle;
the updates of the counters `carsA`, `carsB` and `carsC` are a load and a store. A lock is
its holder: acquiring a held lock blocks, and a release by another vehicle has no effect.
The messages are statements of their own without an effect on the state.
-/

namespace Windborne.OS161

open Library

/-! ## Vehicles -/

inductive Route where
  | A
  | B
  | C
  deriving DecidableEq

/-- The sections of the intersection. -/
inductive Section where
  | AB
  | BC
  | CA
  deriving DecidableEq

inductive Turn where
  | left
  | right
  deriving DecidableEq

inductive VehicleType where
  | car
  | truck
  deriving DecidableEq

/-- The section that a vehicle from a route enters first. -/
def firstSection : Route → Section
  | .A => .AB
  | .B => .BC
  | .C => .CA

/-- The section that a left turn enters next. -/
def nextSection : Route → Section
  | .A => .BC
  | .B => .CA
  | .C => .AB

/-- The route whose vehicles enter first the section that a left turn enters next. -/
def Route.succ : Route → Route
  | .A => .B
  | .B => .C
  | .C => .A

/-- The truck locks `tlA`, `tlB`, `tlC` and the locks of the sections. -/
inductive StoplightLock where
  | tl (route : Route)
  | sec (s : Section)
  deriving DecidableEq

/-- What the threads `approachintersection` have chosen. -/
structure Vehicles (V : Type) where
  direction : V → Route
  turn : V → Turn
  type : V → VehicleType

/-- The next statement of a vehicle. The stores remember the value loaded before. -/
inductive Pc where
  | start
  | storeIncrement (cars : Int)
  | testPositive
  | acquireTruck
  | acquireFirst
  | loadDecrement
  | storeDecrement (cars : Int)
  | testZero
  | releaseTruck
  | enterFirst
  | acquireNext
  | leaveFirst
  | releaseFirst
  | enterNext
  | leaveNext
  | releaseNext
  | done
  deriving DecidableEq

/-- The place of a statement in the text of a turn. -/
def Pc.line : Pc → Nat
  | .start => 0
  | .storeIncrement _ => 1
  | .testPositive => 2
  | .acquireTruck => 3
  | .acquireFirst => 4
  | .loadDecrement => 5
  | .storeDecrement _ => 6
  | .testZero => 7
  | .releaseTruck => 8
  | .enterFirst => 9
  | .acquireNext => 10
  | .leaveFirst => 11
  | .releaseFirst => 12
  | .enterNext => 13
  | .leaveNext => 14
  | .releaseNext => 15
  | .done => 16

namespace Stoplight

/-! ## States and steps -/

variable {V : Type} [DecidableEq V]

structure State (V : Type) where
  pc : V → Pc
  cars : Route → Int
  holder : StoplightLock → Option V

/-- `createvehicles`: no cars in any lane, every lock free. -/
def init : State V where
  pc _ := .start
  cars _ := 0
  holder _ := none

def State.goto (s : State V) (v : V) (p : Pc) : State V :=
  { s with pc := Function.update s.pc v p }

def State.setCars (s : State V) (route : Route) (n : Int) : State V :=
  { s with cars := Function.update s.cars route n }

def lockAcquire (s : State V) (v : V) (l : StoplightLock) (p : Pc) : Option (State V) :=
  if s.holder l = none then
    some { s.goto v p with holder := Function.update s.holder l (some v) }
  else none

def lockRelease (s : State V) (v : V) (l : StoplightLock) (p : Pc) : State V :=
  if s.holder l = some v then { s.goto v p with holder := Function.update s.holder l none }
  else s.goto v p

/-- The next statement of vehicle `v` of `turnleft` or `turnright`; `none` when it is blocked
in `lock_acquire` or has returned. -/
def step (vs : Vehicles V) (s : State V) (v : V) : Option (State V) :=
  let route := vs.direction v
  match s.pc v with
  | .start =>
    match vs.type v with
    | .car => some (s.goto v (.storeIncrement (s.cars route)))
    | .truck => some (s.goto v .testPositive)
  | .storeIncrement n => some ((s.setCars route (n + 1)).goto v .testPositive)
  | .testPositive => some (s.goto v (if s.cars route > 0 then .acquireTruck else .acquireFirst))
  | .acquireTruck => lockAcquire s v (.tl route) .acquireFirst
  | .acquireFirst => lockAcquire s v (.sec (firstSection route)) .loadDecrement
  | .loadDecrement => some (s.goto v (.storeDecrement (s.cars route)))
  | .storeDecrement n => some ((s.setCars route (n - 1)).goto v .testZero)
  | .testZero => some (s.goto v (if s.cars route = 0 then .releaseTruck else .enterFirst))
  | .releaseTruck => some (lockRelease s v (.tl route) .enterFirst)
  | .enterFirst =>
    match vs.turn v with
    | .left => some (s.goto v .acquireNext)
    | .right => some (s.goto v .leaveFirst)
  | .acquireNext => lockAcquire s v (.sec (nextSection route)) .leaveFirst
  | .leaveFirst => some (s.goto v .releaseFirst)
  | .releaseFirst =>
    match vs.turn v with
    | .left => some (lockRelease s v (.sec (firstSection route)) .enterNext)
    | .right => some (lockRelease s v (.sec (firstSection route)) .done)
  | .enterNext => some (s.goto v .leaveNext)
  | .leaveNext => some (s.goto v .releaseNext)
  | .releaseNext => some (lockRelease s v (.sec (nextSection route)) .done)
  | .done => none

/-- One step of some vehicle, which is the label. -/
def Step (vs : Vehicles V) (s : State V) (v : V) (t : State V) : Prop := step vs s v = some t

/-- Some vehicle has not returned. -/
def Unfinished (s : State V) (v : V) : Prop := s.pc v ≠ .done

/-- A vehicle that has not returned cannot step because it waits for a lock. -/
def Blocked (vs : Vehicles V) (s : State V) (v : V) : Prop := Unfinished s v ∧ step vs s v = none

end Stoplight

end Windborne.OS161
