import Wiring.Inventory

/-! What every socket gets.  A plan maps the names of sockets to entries and is kept in the order of
the names. -/

namespace Wiring

/-- Where the order of the beans for a multi-socket comes from. -/
inductive BeanOrder
  | directive
  | name
deriving DecidableEq

/-- The step of a mutator, as it is recorded for a single socket. -/
structure Mutation where
  input : TypeExpr
  output : TypeExpr
deriving DecidableEq

inductive Outcome
  /-- No bean, which an optional socket allows, and one that is filled at run time. -/
  | unresolved
  | single (bean : Name) (mutation? : Option Mutation)
  | multi (beans : List Name) (order : BeanOrder)
  /-- Several beans fit a socket for one. -/
  | ambiguous (candidates : List Name)
  /-- No bean fits a socket that must have one. -/
  | missing
deriving DecidableEq

namespace Outcome

def isError : Outcome → Bool
  | .ambiguous _ | .missing => true
  | _ => false

def beans : Outcome → List Name
  | .single bean _ => [bean]
  | .multi beans _ => beans
  | _ => []

def label : Outcome → String
  | .unresolved => "unresolved"
  | .single _ _ => "resolved_single"
  | .multi _ _ => "resolved_multi"
  | .ambiguous _ => "ambiguous"
  | .missing => "missing_required"

def text : Outcome → String
  | .unresolved => "unresolved"
  | .single bean none => bean.text
  | .single bean (some m) => bean.text ++ " (" ++ m.input.text ++ " -> " ++ m.output.text ++ ")"
  | .multi beans _ => Name.list beans
  | .ambiguous candidates => "ambiguous (" ++ toString candidates.length ++ " candidates)"
  | .missing => "missing"

end Outcome

structure PlanEntry where
  socket : Name
  /-- The bean that takes what the socket gets. -/
  owner : Name
  origin : SocketOrigin
  multiplicity : Multiplicity
  /-- The module that the socket was resolved in; none when it is filled at run time. -/
  resolvedIn? : Option Name
  outcome : Outcome
deriving DecidableEq

structure Plan where
  entries : List (Name × PlanEntry) := []
deriving DecidableEq

namespace Plan

/-- Puts an entry at its place in the order of names, over one that is there. -/
def insertInto (name : Name) (entry : PlanEntry) :
    List (Name × PlanEntry) → List (Name × PlanEntry)
  | [] => [(name, entry)]
  | (n, e) :: rest =>
    if n = name then (name, entry) :: rest
    else if name ≤ n then (name, entry) :: (n, e) :: rest
    else (n, e) :: insertInto name entry rest

def put (p : Plan) (name : Name) (entry : PlanEntry) : Plan := ⟨insertInto name entry p.entries⟩

/-- Adds an entry under the name of its socket. -/
def insert (p : Plan) (entry : PlanEntry) : Plan := p.put entry.socket entry

def insertAll (p : Plan) (entries : List PlanEntry) : Plan := entries.foldl insert p

/-- The plan of some names and entries; a later entry of a name replaces an earlier one. -/
def ofList (entries : List (Name × PlanEntry)) : Plan :=
  entries.foldl (fun p (name, entry) => p.put name entry) {}

def get? (p : Plan) (socket : Name) : Option PlanEntry := p.entries.lookup socket

def contains (p : Plan) (socket : Name) : Bool := (p.get? socket).isSome

/-- The entries in the order of the names. -/
def toList (p : Plan) : List PlanEntry := p.entries.map (·.2)

def size (p : Plan) : Nat := p.entries.length

/-- The outcomes alone, by name. -/
def outcomes (p : Plan) : List (Name × Outcome) := p.entries.map fun (n, e) => (n, e.outcome)

end Plan

end Wiring
