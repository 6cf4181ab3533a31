import Wiring.Proofs.Substitution

/-! Substitutions one after the other.  Where all that is bound stands for types, substituting twice
is substituting once, with bindings in which each variable of the first stands for what the second
make of it.  Bindings of variables that do not occur in a type leave it as it is. -/

namespace Wiring

namespace Bindings

/-- Every variable that is bound stands for a type, and none for a wildcard. -/
def Exact (b : Bindings) : Prop := ∀ x a, b.find? x = some a → ∃ t, a = .exact t

/-- What the variables stand for after two substitutions. -/
def andThen (b c : Bindings) : Bindings := c ++ b.map fun (x, a) => (x, a.substitute c)

variable {b c : Bindings} {x : String}

/-- A variable of the first bindings stands for its argument there with the second substituted, and
any other variable for what it stands for in the second. -/
theorem find?_andThen :
    (b.andThen c).find? x = ((b.find? x).map (·.substitute c)).or (c.find? x) := by
  unfold andThen find?
  rw [List.reverse_append, List.find?_append, Option.map_or, ← List.map_reverse, List.find?_map,
    Option.map_map, Option.map_map]
  rfl

theorem exact_of_forall_mem (hb : ∀ p ∈ b, ∃ t, p.2 = .exact t) : b.Exact :=
  fun _ _ hfind => hb _ (mem_of_find? hfind)

/-- Where variables stand for types, a type becomes a type. -/
theorem Exact.substitute (hb : b.Exact) (t : TypeExpr) : ∃ u, t.substitute b = .exact u := by
  obtain hexact | ⟨name, -, a, hfind, hwild⟩ := t.substitute_cases b
  · exact hexact
  · obtain ⟨u, rfl⟩ := hb name a hfind
    exact absurd rfl (hwild u)

end Bindings

variable {b c : Bindings}

theorem TypeExpr.substitute_array {t u : TypeExpr} (ht : t.substitute b = .exact u) :
    (TypeExpr.array t).substitute b = .exact (.array u) := by
  rw [substitute, ht]

/-! ### Twice and once -/

/-- It does not matter whether an argument becomes an upper bound before a substitution or after
it. -/
theorem TypeArg.substitute_asUpper (c : Bindings) (a : TypeArg) :
    a.asUpper.substitute c = (a.substitute c).asUpper := by
  cases a with
  | exact t | unbounded => rfl
  | upTo t =>
    show (t.substitute c).asUpper = (t.substitute c).asUpper.asUpper
    cases t.substitute c <;> rfl
  | downTo t =>
    show TypeArg.unbounded = (t.substitute c).asLower.asUpper
    cases t.substitute c <;> rfl

theorem TypeArg.substitute_asLower (c : Bindings) (a : TypeArg) :
    a.asLower.substitute c = (a.substitute c).asLower := by
  cases a with
  | exact t | unbounded => rfl
  | downTo t =>
    show (t.substitute c).asLower = (t.substitute c).asLower.asLower
    cases t.substitute c <;> rfl
  | upTo t =>
    show TypeArg.unbounded = (t.substitute c).asUpper.asLower
    cases t.substitute c <;> rfl

mutual

theorem TypeExpr.substitute_andThen (hb : b.Exact) (hc : c.Exact) : ∀ t : TypeExpr,
    (t.substitute b).substitute c = t.substitute (b.andThen c)
  | .variable name => by
    simp only [TypeExpr.substitute, Bindings.find?_andThen]
    cases b.find? name with
    | none => rfl
    | some a => rfl
  | .declared name args => by
    simp only [TypeExpr.substitute, TypeArg.substitute]
    rw [TypeArg.substituteAll_andThen hb hc args]
  | .array component => by
    obtain ⟨u, hu⟩ := hb.substitute component
    obtain ⟨v, hv⟩ := hc.substitute u
    have hcomponent : component.substitute (b.andThen c) = .exact v := by
      rw [← TypeExpr.substitute_andThen hb hc component, hu, TypeArg.substitute, hv]
    rw [TypeExpr.substitute_array hu, TypeArg.substitute, TypeExpr.substitute_array hv,
      TypeExpr.substitute_array hcomponent]
  | .unresolved name => rfl

theorem TypeArg.substitute_andThen (hb : b.Exact) (hc : c.Exact) : ∀ a : TypeArg,
    (a.substitute b).substitute c = a.substitute (b.andThen c)
  | .exact t => TypeExpr.substitute_andThen hb hc t
  | .upTo t => by
    have ht := TypeExpr.substitute_andThen hb hc t
    rw [TypeArg.substitute, TypeArg.substitute_asUpper, ht, TypeArg.substitute]
  | .downTo t => by
    have ht := TypeExpr.substitute_andThen hb hc t
    rw [TypeArg.substitute, TypeArg.substitute_asLower, ht, TypeArg.substitute]
  | .unbounded => rfl

theorem TypeArg.substituteAll_andThen (hb : b.Exact) (hc : c.Exact) : ∀ args : List TypeArg,
    TypeArg.substituteAll c (TypeArg.substituteAll b args) =
      TypeArg.substituteAll (b.andThen c) args
  | [] => rfl
  | a :: args => by
    simp only [TypeArg.substituteAll]
    rw [TypeArg.substitute_andThen hb hc a, TypeArg.substituteAll_andThen hb hc args]

end

/-! ### Variables that do not occur -/

mutual

theorem TypeExpr.substitute_eq_exact : ∀ t : TypeExpr,
    (∀ x, TypeExpr.Part (.variable x) t → b.find? x = none) → t.substitute b = .exact t
  | .variable name, hfree => by
    rw [TypeExpr.substitute, hfree name .refl, Option.getD_none]
  | .declared name args, hfree => by
    have hargs : ∀ a ∈ args, ∀ x, a.HasPart (.variable x) → b.find? x = none :=
      fun a ha x hpart => hfree x (TypeExpr.part_declared_iff.2 (.inr ⟨a, ha, hpart⟩))
    rw [TypeExpr.substitute, TypeArg.substituteAll_eq_self args hargs]
  | .array component, hfree =>
    TypeExpr.substitute_array
      (TypeExpr.substitute_eq_exact component fun x hpart => hfree x (.component hpart))
  | .unresolved name, _ => rfl

theorem TypeArg.substitute_eq_self : ∀ a : TypeArg,
    (∀ x, a.HasPart (.variable x) → b.find? x = none) → a.substitute b = a
  | .exact t, hfree => TypeExpr.substitute_eq_exact t fun x hpart => hfree x ⟨t, rfl, hpart⟩
  | .upTo t, hfree => by
    rw [TypeArg.substitute, TypeExpr.substitute_eq_exact t fun x hpart => hfree x ⟨t, rfl, hpart⟩]
    rfl
  | .downTo t, hfree => by
    rw [TypeArg.substitute, TypeExpr.substitute_eq_exact t fun x hpart => hfree x ⟨t, rfl, hpart⟩]
    rfl
  | .unbounded, _ => rfl

theorem TypeArg.substituteAll_eq_self : ∀ args : List TypeArg,
    (∀ a ∈ args, ∀ x, a.HasPart (.variable x) → b.find? x = none) →
      TypeArg.substituteAll b args = args
  | [], _ => rfl
  | a :: args, hfree => by
    obtain ⟨ha, hargs⟩ := List.forall_mem_cons.1 hfree
    rw [TypeArg.substituteAll, TypeArg.substitute_eq_self a ha,
      TypeArg.substituteAll_eq_self args hargs]

end

/-- Where variables stand for types only, two substitutions are one, in which a variable of the
first stands for its type with the second substituted, and any other for what it stands for in the
second.  A type in which no bound variable occurs is left as it is, whatever is bound to what. -/
theorem Bindings.substitutions_compose (t : TypeExpr) :
    (∀ b c : Bindings, b.Exact → c.Exact →
      (∀ x, (b.andThen c).find? x = ((b.find? x).map (·.substitute c)).or (c.find? x)) ∧
        (t.substitute b).substitute c = t.substitute (b.andThen c)) ∧
    ∀ b : Bindings, (∀ x, TypeExpr.Part (.variable x) t → b.find? x = none) →
      t.substitute b = .exact t :=
  ⟨fun _ _ hb hc => ⟨fun _ => find?_andThen, t.substitute_andThen hb hc⟩,
    fun _ hfree => t.substitute_eq_exact hfree⟩

namespace Sample

/-- Keys are arrays of what is stored, and elements are shapes. -/
def stores : Bindings := [("K", .exact (.array (.variable "T"))), ("E", .exact (.named "Shape"))]

/-- What is stored is sources of what it is sorted by, and elements would be circles. -/
def sources : Bindings :=
  [("T", .exact (.declared "Source" [.upTo (.variable "S")])), ("E", .exact (.named "Circle"))]

/-- Sources of what a table is sorted by. -/
def sorted : TypeExpr := .declared "Source" [.upTo (.variable "S")]

end Sample

/-- A table has arrays of arrays of sources, and is still of shapes; sources know no keys and no
elements. -/
theorem Bindings.substitutions_compose_table :
    Sample.stores.Exact ∧ Sample.sources.Exact ∧
      (Sample.table.substitute Sample.stores).substitute Sample.sources =
        .exact (.declared "Table" [.exact (.array (.array Sample.sorted)),
          .downTo (.named "Shape"), .upTo (.variable "S")]) ∧
      Sample.sorted.substitute Sample.elements = .exact Sample.sorted := by
  have hstores : Sample.stores.Exact := exact_of_forall_mem (by simp [Sample.stores])
  have hsources : Sample.sources.Exact := exact_of_forall_mem (by simp [Sample.sources])
  have hboth := ((substitutions_compose Sample.table).1 _ _ hstores hsources).2
  have hfree := (substitutions_compose Sample.sorted).2 Sample.elements
  refine ⟨hstores, hsources, hboth.trans rfl, hfree fun x hpart => ?_⟩
  have hx : x = "S" := by
    simpa [Sample.sorted, TypeExpr.part_declared_iff, TypeArg.HasPart, TypeArg.bound?,
      TypeExpr.part_variable_iff] using hpart
  rw [hx]
  rfl

end Wiring
