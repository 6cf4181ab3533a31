import Wiring.Finding
import Wiring.Graph

/-! Directives by the socket that they are for.  The beans of several directives for one socket
follow each other as they were written, and a bean counts where it is named first. -/

namespace Wiring

/-- The sockets that directives name, in the order of their first mention, with their beans. -/
structure DirectiveStore where
  targets : List (Name × List Name) := []
deriving DecidableEq

namespace DirectiveStore

/-- Appends the beans that are not there yet; the second part are the others. -/
def append (present : List Name) : List Name → List Name × List Name
  | [] => (present, [])
  | bean :: beans =>
    if bean ∈ present then
      let (all, repeated) := append present beans
      (all, bean :: repeated)
    else append (present ++ [bean]) beans

/-- Adds beans for a socket; the second part are those that were there already. -/
def addTo (into : Name) (beans : List Name) :
    List (Name × List Name) → List (Name × List Name) × List Name
  | [] =>
    let (all, repeated) := append [] beans
    ([(into, all)], repeated)
  | (target, present) :: rest =>
    if target = into then
      let (all, repeated) := append present beans
      ((target, all) :: rest, repeated)
    else
      let (rest, repeated) := addTo into beans rest
      ((target, present) :: rest, repeated)

def add (s : DirectiveStore) (d : Directive) : DirectiveStore × List Finding :=
  let (targets, repeated) := addTo d.into d.beans s.targets
  (⟨targets⟩, repeated.map (.repeatedDirectiveBean d.into))

/-- Adds directives in order. -/
def addAll (s : DirectiveStore) : List Directive → DirectiveStore × List Finding
  | [] => (s, [])
  | d :: ds =>
    let (s, findings) := s.add d
    let (s, later) := s.addAll ds
    (s, findings ++ later)

def ofList (ds : List Directive) : DirectiveStore × List Finding := addAll {} ds

/-- The beans for a socket, if a directive names it. -/
def beans? (s : DirectiveStore) (socket : Name) : Option (List Name) := s.targets.lookup socket

def isTargeted (s : DirectiveStore) (socket : Name) : Bool := (s.beans? socket).isSome

def size (s : DirectiveStore) : Nat := s.targets.length

end DirectiveStore

end Wiring
