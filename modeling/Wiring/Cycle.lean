import Wiring.Plan

/-! Dependency cycles among the beans of a plan.  A bean depends on every bean that one of its
sockets gets, and a nested bean on its parent.  From each bean in turn a depth-first search follows
the dependencies with an explicit stack; a bean that is met while it is on the stack closes a cycle.
A cycle is turned so that it starts at its smallest bean. -/

namespace Wiring

/-! ### Steps and cycles -/

/-- How a bean depends on another: through one of its sockets, or as a part of it. -/
inductive Link
  | socket (socket : Name)
  | nested
deriving DecidableEq

namespace Link

def text : Link → String
  | .socket name => name.text
  | .nested => "nested"

/-- What links are ordered by: sockets by name, and then the nested one. -/
def key : Link → String
  | .socket name => "0" ++ name.text
  | .nested => "1"

end Link

structure Step where
  source : Name
  via : Link
  target : Name
deriving DecidableEq

/-- A closed chain of steps: each leads to where the next begins, the last to the beginning. -/
structure Cycle where
  steps : List Step
deriving DecidableEq

namespace Cycle

/-- The bean that the cycle is reported on. -/
def start? (c : Cycle) : Option Name := c.steps.head?.map (·.source)

def beans (c : Cycle) : List Name := c.steps.map (·.source)

def length (c : Cycle) : Nat := c.steps.length

def chain (c : Cycle) : String :=
  ((c.start?).elim "" (·.text)) ++
    String.join (c.steps.map fun s => " --[" ++ s.via.text ++ "]--> " ++ s.target.text)

/-- What cycles are ordered by: their steps one by one. -/
def key (c : Cycle) : List String :=
  c.steps.flatMap fun s => [s.source.text, s.via.key, s.target.text]

def ble (a b : Cycle) : Bool := Text.lexBle a.key b.key

/-- The number of the first step from a smallest bean. -/
def smallest : List Step → Nat
  | [] => 0
  | [_] => 0
  | s :: t :: rest =>
    let i := smallest (t :: rest)
    match (t :: rest)[i]? with
    | some least => if s.source ≤ least.source then 0 else i + 1
    | none => 0

/-- The cycle of some steps, turned to begin at its smallest bean. -/
def ofSteps (steps : List Step) : Cycle :=
  let i := smallest steps
  ⟨steps.drop i ++ steps.take i⟩

end Cycle

/-! ### The graph of beans -/

/-- Each bean with what it depends on. -/
abbrev BeanGraph := List (Name × List (Link × Name))

namespace BeanGraph

def edges (g : BeanGraph) (bean : Name) : List (Link × Name) := (g.lookup bean).getD []

/-- Adds dependencies of a bean, which is added if it is not there. -/
def extend (bean : Name) (edges : List (Link × Name)) : BeanGraph → BeanGraph
  | [] => [(bean, edges)]
  | (b, es) :: rest =>
    if b = bean then (b, es ++ edges) :: rest else (b, es) :: extend bean edges rest

def edgeBle (a b : Link × Name) : Bool :=
  Text.lexBle [a.1.key, a.2.text] [b.1.key, b.2.text]

def parentEdges (v : Inventory) (b : BeanEntry) : List (Link × Name) :=
  match b.origin with
  | .nested parent => (v.beans[parent]?).toList.map fun p => (.nested, p.name)
  | _ => []

/-- The dependencies of all beans of the inventory and of the plan, beans and dependencies in
order, each once. -/
def ofPlan (v : Inventory) (p : Plan) : BeanGraph :=
  let declared := v.beans.foldl (fun g b => extend b.name (parentEdges v b) g) []
  let wired := p.toList.foldl
    (fun g e => extend e.owner (e.outcome.beans.map fun b => (.socket e.socket, b)) g) declared
  (wired.mergeSort fun a b => a.1.ble b.1).map fun (b, es) => (b, collapse (es.mergeSort edgeBle))

def pairs (g : BeanGraph) : List (Name × Name) :=
  g.flatMap fun (b, es) => es.map fun e => (b, e.2)

end BeanGraph

/-! ### The search -/

/-- A bean on the stack, the link that led to it, and the number of its next dependency. -/
structure Frame where
  bean : Name
  via? : Option Link
  next : Nat
deriving DecidableEq

structure Search where
  /-- The stack, its top first. -/
  frames : List Frame
  /-- The beans on the stack with their heights in it. -/
  heights : List (Name × Nat)
  /-- The pairs of beans that have been followed. -/
  explored : List (Name × Name)
  found : List Cycle
deriving DecidableEq

namespace Search

def start (root : Name) (explored : List (Name × Name)) (found : List Cycle) : Search :=
  ⟨[⟨root, none, 0⟩], [(root, 0)], explored, found⟩

def stepsBetween : List Frame → List Step
  | a :: b :: rest =>
    (b.via?.toList.map fun via => ⟨a.bean, via, b.bean⟩) ++ stepsBetween (b :: rest)
  | _ => []

/-- The cycle that a dependency of the top closes with the bean at a height of the stack. -/
def closeCycle (frames : List Frame) (height : Nat) (link : Link) (target : Name) : Cycle :=
  let loop := frames.reverse.drop height
  .ofSteps (stepsBetween loop ++ loop.getLast?.toList.map fun top => ⟨top.bean, link, target⟩)

/-- One step of the search, or none when the stack is empty. -/
def step? (g : BeanGraph) (s : Search) : Option Search :=
  match s.frames with
  | [] => none
  | top :: rest =>
    match (g.edges top.bean)[top.next]? with
    | none => some { s with frames := rest, heights := s.heights.filter (·.1 ≠ top.bean) }
    | some (link, target) =>
      let frames := { top with next := top.next + 1 } :: rest
      match s.heights.lookup target with
      | some height =>
        some { s with frames, found := s.found ++ [closeCycle frames height link target] }
      | none =>
        if (top.bean, target) ∈ s.explored then some { s with frames }
        else
          some
            { s with
              frames := ⟨target, some link, 0⟩ :: frames
              heights := (target, frames.length) :: s.heights
              explored := (top.bean, target) :: s.explored }

def unexplored (g : BeanGraph) (s : Search) : Nat := g.pairs.countP (· ∉ s.explored)

/-- The dependencies that the frames have still to look at, and the frames themselves. -/
def work (g : BeanGraph) (s : Search) : Nat :=
  s.frames.foldr (fun f n => (g.edges f.bean).length - f.next + 1 + n) 0

end Search

theorem BeanGraph.mem_pairs {g : BeanGraph} {bean target : Name} {link : Link}
    (h : (link, target) ∈ g.edges bean) : (bean, target) ∈ g.pairs := by
  unfold edges at h
  cases hl : List.lookup bean g with
  | none => simp [hl] at h
  | some es =>
    simp only [hl, Option.getD_some] at h
    have hm : (bean, es) ∈ g := by
      clear h
      induction g with
      | nil => simp at hl
      | cons p rest ih =>
        obtain ⟨b, e⟩ := p
        simp only [List.lookup_cons] at hl
        split at hl
        · rename_i hb
          simp only [beq_iff_eq] at hb
          simp_all
        · exact List.mem_cons_of_mem _ (ih hl)
    simp only [pairs, List.mem_flatMap, List.mem_map]
    exact ⟨_, hm, _, h, rfl⟩

namespace Search

/-- A step follows one more pair, or leaves the pairs and does some of the work. -/
theorem step?_decreases {g : BeanGraph} {s t : Search} (h : s.step? g = some t) :
    t.unexplored g < s.unexplored g ∨
      (t.unexplored g = s.unexplored g ∧ t.work g < s.work g) := by
  unfold step? at h
  split at h
  · simp at h
  · rename_i top rest hf
    split at h
    · cases h
      right
      simp only [unexplored, work, hf, List.foldr_cons, true_and]
      omega
    · rename_i link target he
      have hlt : top.next < (g.edges top.bean).length := (List.getElem?_eq_some_iff.1 he).1
      have hwork : ∀ u : Search, u.frames = { top with next := top.next + 1 } :: rest →
          u.work g < s.work g := by
        intro u hu
        simp only [work, hf, hu, List.foldr_cons]
        omega
      split at h
      · cases h
        exact .inr ⟨rfl, hwork _ rfl⟩
      · split at h
        · cases h
          exact .inr ⟨rfl, hwork _ rfl⟩
        · rename_i hne
          cases h
          left
          have hmem : (top.bean, target) ∈ g.pairs :=
            BeanGraph.mem_pairs (List.mem_of_getElem? he)
          simp only [unexplored]
          generalize g.pairs = ps at hmem
          induction ps with
          | nil => simp at hmem
          | cons p ps ih =>
            have hle : ∀ qs : List (Name × Name),
                qs.countP (· ∉ (top.bean, target) :: s.explored) ≤
                  qs.countP (· ∉ s.explored) := by
              intro qs
              apply List.countP_mono_left
              intro q _ hq
              simp only [List.mem_cons, not_or, decide_eq_true_eq] at hq ⊢
              exact hq.2
            rcases List.mem_cons.1 hmem with hp | hp
            · subst hp
              have := hle ps
              simp only [List.countP_cons]
              simp [hne] at this ⊢
              omega
            · have := ih hp
              simp only [List.countP_cons]
              have hp' : (if decide (p ∉ (top.bean, target) :: s.explored) = true then 1 else 0) ≤
                  (if decide (p ∉ s.explored) = true then 1 else 0) := by
                by_cases hx : p ∈ s.explored <;> simp [hx]
                split <;> omega
              omega

def run (g : BeanGraph) (s : Search) : Search :=
  match _h : s.step? g with
  | none => s
  | some t => run g t
termination_by (s.unexplored g, s.work g)
decreasing_by
  rcases step?_decreases _h with h | ⟨h, h'⟩
  · exact Prod.Lex.left _ _ h
  · rw [← h]
    exact Prod.Lex.right _ h'

end Search

namespace BeanGraph

/-- Searches from some beans in turn.  With memory, pairs that were followed from one bean are not
followed again from the next. -/
def searchAll (g : BeanGraph) (memory : Bool) (explored : List (Name × Name))
    (found : List Cycle) : List Name → List Cycle
  | [] => found
  | root :: roots =>
    let s := (Search.start root (if memory then explored else []) found).run g
    g.searchAll memory s.explored s.found roots

/-- The cycles that the searches find, in order and each once. -/
def cycles (g : BeanGraph) (memory : Bool) : List Cycle :=
  collapse ((g.searchAll memory [] [] (g.map (·.1))).mergeSort Cycle.ble)

end BeanGraph

end Wiring
