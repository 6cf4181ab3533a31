import Wiring.Proofs.Document.Depth

/-! Graph documents round-trip.  A graph without conditions of the program has a written form;
unless that nests too many levels for a text, reading it gives the graph back.  An accepted graph
has no such conditions, and its written form nests no more levels than any text may. -/

namespace Wiring

/-! ### Graphs with a written form -/

/-- The selector is not a condition of the program. -/
def Selector.Writable : Selector → Prop
  | .annotated _ | .nameMatches _ => True
  | .custom _ _ => False

def Socket.Writable (s : Socket) : Prop := ∀ selector ∈ s.selectors, selector.Writable

def BeanKind.Writable : BeanKind → Prop
  | .module _ sockets => ∀ s ∈ sockets, s.Writable
  | .socket s => s.Writable

/-- No socket of a bean has a selector that is a condition of the program. -/
def Graph.Writable (g : Graph) : Prop := ∀ m ∈ g.modules, ∀ b ∈ m.beans, b.kind.Writable

theorem mapM_isSome_iff {α β : Type} {f : α → Option β} {as : List α} :
    (as.mapM f).isSome = true ↔ ∀ a ∈ as, (f a).isSome = true := by
  induction as with
  | nil => simp
  | cons a as ih =>
    rw [List.mapM_cons, List.forall_mem_cons, ← ih]
    cases f a with
    | none => simp
    | some b => cases as.mapM f <;> simp

theorem Selector.isSome_toJson?_iff (s : Selector) : s.toJson?.isSome = true ↔ s.Writable := by
  cases s with
  | annotated marker => exact ⟨fun _ => trivial, fun _ => rfl⟩
  | nameMatches pattern => exact ⟨fun _ => trivial, fun _ => rfl⟩
  | custom name accepts => exact iff_of_false Bool.false_ne_true id

theorem Socket.isSome_toJson?_iff (s : Socket) : s.toJson?.isSome = true ↔ s.Writable := by
  have hselectors : s.toJson?.isSome = (s.selectors.mapM Selector.toJson?).isSome := by
    rw [Socket.toJson?]
    cases s.selectors.mapM Selector.toJson? <;> rfl
  rw [hselectors, mapM_isSome_iff, Socket.Writable]
  simp only [Selector.isSome_toJson?_iff]

theorem BeanKind.isSome_fields?_iff (kind : BeanKind) :
    kind.fields?.isSome = true ↔ kind.Writable := by
  cases kind with
  | module type sockets =>
    have hsockets : (BeanKind.module type sockets).fields?.isSome =
        (sockets.mapM Socket.toJson?).isSome := by
      rw [BeanKind.fields?]
      cases sockets.mapM Socket.toJson? <;> rfl
    rw [hsockets, mapM_isSome_iff, BeanKind.Writable]
    simp only [Socket.isSome_toJson?_iff]
  | socket s =>
    rw [BeanKind.Writable, ← s.isSome_toJson?_iff, BeanKind.fields?]
    cases s.toJson? <;> rfl

theorem Bean.isSome_toJson?_iff (b : Bean) : b.toJson?.isSome = true ↔ b.kind.Writable := by
  rw [← b.kind.isSome_fields?_iff, Bean.toJson?]
  cases b.kind.fields? <;> rfl

theorem Module.isSome_toJson?_iff (m : Module) :
    m.toJson?.isSome = true ↔ ∀ b ∈ m.beans, b.kind.Writable := by
  have hbeans : m.toJson?.isSome = (m.beans.mapM Bean.toJson?).isSome := by
    rw [Module.toJson?]
    cases m.beans.mapM Bean.toJson? <;> rfl
  rw [hbeans, mapM_isSome_iff]
  simp only [Bean.isSome_toJson?_iff]

theorem Graph.isSome_toJson?_iff (g : Graph) : g.toJson?.isSome = true ↔ g.Writable := by
  have hmodules : g.toJson?.isSome = (g.modules.mapM Module.toJson?).isSome := by
    rw [Graph.toJson?]
    cases g.modules.mapM Module.toJson? <;> rfl
  rw [hmodules, mapM_isSome_iff, Graph.Writable]
  simp only [Module.isSome_toJson?_iff]

/-! ### Round trips -/

namespace Graph

/-- The written form of the graph, if it has one, nests at most 127 levels of brackets. -/
def Shallow (g : Graph) : Prop := ∀ j, g.toJson? = some j → j.toTree.height ≤ 127

/-- The graph has a written form, and reading that gives the graph back. -/
def RoundTrips (g : Graph) : Prop := ∃ text, g.render? = some text ∧ ofJson text = .ok g

theorem roundTrips_of_toJson? {g : Graph} {j : Json} (h : g.toJson? = some j)
    (hj : j.toTree.height ≤ 127) : g.RoundTrips := by
  refine ⟨j.pretty, by rw [render?, h]; rfl, ?_⟩
  exact Json.decodeText_pretty (reads h) (Nat.lt_succ_of_le hj)

/-- An accepted graph has a written form, which is no deeper than a text may be. -/
theorem exists_toJson?_of_ofJson {text : String} {g : Graph} (h : ofJson text = .ok g) :
    ∃ j, g.toJson? = some j ∧ j.toTree.height ≤ 127 := by
  obtain ⟨g', hread, h⟩ := bind_eq_ok_iff.1 h
  obtain ⟨_, _, h⟩ := bind_eq_ok_iff.1 h
  cases h
  exact yields (.text Json.maxLevels) _ 127 g (Nat.le_refl _) hread

theorem documents_round_trip :
    (∀ g : Graph, g.Writable → g.Shallow → g.RoundTrips) ∧
    ∀ text g, ofJson text = .ok g → g.Writable ∧ g.Shallow ∧ g.RoundTrips := by
  refine ⟨fun g hwritable hshallow => ?_, fun text g h => ?_⟩
  · obtain ⟨j, hj⟩ := Option.isSome_iff_exists.1 (g.isSome_toJson?_iff.2 hwritable)
    exact roundTrips_of_toJson? hj (hshallow j hj)
  · obtain ⟨j, hj, hheight⟩ := exists_toJson?_of_ofJson h
    refine ⟨g.isSome_toJson?_iff.1 (Option.isSome_iff_exists.2 ⟨j, hj⟩), fun j' hj' => ?_,
      roundTrips_of_toJson? hj hheight⟩
    rw [hj] at hj'
    cases hj'
    exact hheight

end Graph

namespace Sample

/-- A graph with every kind of selector and argument that can be written, and with characters in its
strings that are escaped. -/
def spelled : Graph :=
  { types :=
      [{ name := "Box", parameters := ["T"],
         supertypes := [.declared "java.util.List" [.exact (.variable "T")]] }]
    modules :=
      [{ name := .module ⟨⟨"market", by decide⟩, []⟩
         beans :=
           [{ name := "store\n"
              annotations := ["say \"yes\""]
              nested := [{ name := "inner", type := .unresolved "?" }]
              kind := .module (.declared "Box" [.upTo (.array (.variable "T")), .unbounded])
                [{ name := "parts", required := .declared "Part" [.downTo (.variable "T")]
                   selectors := [.annotated "main\\", .nameMatches "^a\t"]
                   mutator? := some { input := .variable "T", output := .variable "U" } }] }]
         directives :=
           [{ beans := [.bean ⟨⟨"market", by decide⟩, []⟩ ⟨⟨"wares", by decide⟩, []⟩],
              into := .module ⟨⟨"market", by decide⟩, []⟩ }] }] }

end Sample

theorem Graph.documents_round_trip_spelled :
    Sample.spelled.Writable ∧ Sample.spelled.Shallow ∧ Sample.spelled.RoundTrips ∧
    ∃ text, Graph.ofJson text = .ok Sample.spelled := by
  have hwritable : Sample.spelled.Writable := by
    simp [Sample.spelled, Graph.Writable, BeanKind.Writable, Socket.Writable, Selector.Writable]
  have hshallow : Sample.spelled.Shallow := by
    intro j hj
    cases hj
    decide
  obtain ⟨text, hrender, hread⟩ :=
    Graph.documents_round_trip.1 Sample.spelled hwritable hshallow
  have haccepted := Graph.documents_round_trip.2 text Sample.spelled hread
  exact ⟨haccepted.1, haccepted.2.1, haccepted.2.2, text, hread⟩

end Wiring
