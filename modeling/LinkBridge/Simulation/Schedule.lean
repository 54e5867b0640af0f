import LinkBridge.Time

/-!
The schedule of clock edges.

Each domain always has one pending edge.  The earlier one is due; when both fall on the same
instant, the domain whose edge has been pending longer goes first, which is the one that did not
run last.  At the start that is the control domain.
-/

namespace LinkBridge

inductive Domain where
  | control
  | link
deriving DecidableEq, Repr

namespace Domain

def name : Domain → String
  | .control => "sys"
  | .link => "link"

def other : Domain → Domain
  | .control => .link
  | .link => .control

end Domain

/-- `turn` goes first when both edges fall on the same instant. -/
structure Schedule where
  controlPeriod : Time
  linkPeriod : Time
  controlNext : Time
  linkNext : Time
  turn : Domain
deriving DecidableEq, Repr

namespace Schedule

/-- The control clock starts at once, the link clock at its phase. -/
def new (controlPeriod linkPeriod phase : Time) : Schedule :=
  { controlPeriod, linkPeriod, controlNext := .zero, linkNext := phase, turn := .control }

def due (s : Schedule) : Domain :=
  if s.controlNext.fs < s.linkNext.fs then .control
  else if s.linkNext.fs < s.controlNext.fs then .link
  else s.turn

def pending (s : Schedule) : Domain → Time
  | .control => s.controlNext
  | .link => s.linkNext

def dueTime (s : Schedule) : Time := s.pending s.due

/-- Replaces the due edge by the next of its domain. -/
def advance (s : Schedule) : Schedule :=
  match s.due with
  | .control => { s with controlNext := s.controlNext.after s.controlPeriod, turn := .link }
  | .link => { s with linkNext := s.linkNext.after s.linkPeriod, turn := .control }

/-- Edges of one domain up to an instant, if none is held back at the last one. -/
def edgesUpTo (next period : Time) (horizon : Time) : Nat :=
  if next.fs ≤ horizon.fs then (horizon.fs - next.fs) / period.fs + 1 else 0

def edges (s : Schedule) (horizon : Time) : Nat :=
  edgesUpTo s.controlNext s.controlPeriod horizon + edgesUpTo s.linkNext s.linkPeriod horizon

/-- Link edges that come before the next control edge: at most one for each link period up to it,
and one more for a tie. -/
def linkEdgesBefore (s : Schedule) : Nat :=
  edgesUpTo s.linkNext s.linkPeriod s.controlNext + 1

end Schedule
end LinkBridge
