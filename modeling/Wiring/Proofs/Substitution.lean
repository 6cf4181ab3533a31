import Wiring.TypeExpr

/-! What substitution leaves of the variables of a type.  A variable that is bound does not remain,
with one exception: an array cannot take a wildcard for its component, so where the component is a
variable bound to one, it stays. -/

namespace Wiring

/-! ### Parts of types -/

/-- A type occurs in another: as the whole, or in a component or an argument, at any depth. -/
inductive TypeExpr.Part (part : TypeExpr) : TypeExpr → Prop
  | refl : Part part part
  | component {t : TypeExpr} (hpart : Part part t) : Part part (.array t)
  | argument {name : String} {args : List TypeArg} {a : TypeArg} {t : TypeExpr} (ha : a ∈ args)
      (ht : a.bound? = some t) (hpart : Part part t) : Part part (.declared name args)

/-- A type occurs in an argument, under whatever bound. -/
def TypeArg.HasPart (part : TypeExpr) (a : TypeArg) : Prop :=
  ∃ t, a.bound? = some t ∧ TypeExpr.Part part t

theorem TypeExpr.part_variable_iff {part : TypeExpr} {name : String} :
    TypeExpr.Part part (.variable name) ↔ part = .variable name := by
  constructor
  · intro hpart
    cases hpart
    rfl
  · rintro rfl
    exact .refl

theorem TypeExpr.part_array_iff {part t : TypeExpr} :
    TypeExpr.Part part (.array t) ↔ part = .array t ∨ TypeExpr.Part part t := by
  constructor
  · intro hpart
    cases hpart with
    | refl => exact .inl rfl
    | component hpart => exact .inr hpart
  · rintro (rfl | hpart)
    · exact .refl
    · exact .component hpart

theorem TypeExpr.part_declared_iff {part : TypeExpr} {name : String} {args : List TypeArg} :
    TypeExpr.Part part (.declared name args) ↔
      part = .declared name args ∨ ∃ a ∈ args, a.HasPart part := by
  constructor
  · intro hpart
    cases hpart with
    | refl => exact .inl rfl
    | argument ha ht hpart => exact .inr ⟨_, ha, _, ht, hpart⟩
  · rintro (rfl | ⟨a, ha, t, ht, hpart⟩)
    · exact .refl
    · exact .argument ha ht hpart

theorem TypeArg.hasPart_exact {part t : TypeExpr} :
    (TypeArg.exact t).HasPart part ↔ TypeExpr.Part part t := by
  simp [HasPart, bound?]

theorem TypeArg.HasPart.of_asUpper {part : TypeExpr} {a : TypeArg}
    (hpart : a.asUpper.HasPart part) : a.HasPart part := by
  obtain ⟨t, ht, hpart⟩ := hpart
  cases a with
  | exact u | upTo u => exact ⟨t, ht, hpart⟩
  | downTo u | unbounded => cases ht

theorem TypeArg.HasPart.of_asLower {part : TypeExpr} {a : TypeArg}
    (hpart : a.asLower.HasPart part) : a.HasPart part := by
  obtain ⟨t, ht, hpart⟩ := hpart
  cases a with
  | exact u | downTo u => exact ⟨t, ht, hpart⟩
  | upTo u | unbounded => cases ht

/-! ### What remains -/

namespace Bindings

/-- No variable occurs in what the variables stand for. -/
def Ground (b : Bindings) : Prop :=
  ∀ name a, b.find? name = some a → ∀ x, ¬ a.HasPart (.variable x)

/-- The variable stands for a wildcard. -/
def Wild (b : Bindings) (x : String) : Prop :=
  ∃ a, b.find? x = some a ∧ ∀ t, a ≠ .exact t

/-- The variable remains in a type: it occurs and is not bound, or it is bound to a wildcard and an
array of it occurs. -/
def Leaves (b : Bindings) (x : String) (t : TypeExpr) : Prop :=
  b.find? x = none ∧ TypeExpr.Part (.variable x) t ∨
    b.Wild x ∧ TypeExpr.Part (.array (.variable x)) t

variable {b : Bindings} {x : String}

theorem mem_of_find? {a : TypeArg} (hfind : b.find? x = some a) : (x, a) ∈ b := by
  rw [find?, Option.map_eq_some_iff] at hfind
  obtain ⟨⟨name, a⟩, hfind, rfl⟩ := hfind
  have hname : name = x := by simpa using List.find?_some hfind
  exact hname ▸ List.mem_reverse.1 (List.mem_of_find?_eq_some hfind)

theorem leaves_variable_iff {name : String} :
    b.Leaves x (.variable name) ↔ b.find? x = none ∧ x = name := by
  simp [Leaves, TypeExpr.part_variable_iff]

theorem not_leaves_of_find? {name : String} {a : TypeArg} (hfind : b.find? name = some a) :
    ¬ b.Leaves x (.variable name) := by
  rw [leaves_variable_iff]
  rintro ⟨hnone, rfl⟩
  rw [hfind] at hnone
  cases hnone

theorem not_leaves_unresolved {name : String} : ¬ b.Leaves x (.unresolved name) := by
  rintro (⟨_, hpart⟩ | ⟨_, hpart⟩) <;> cases hpart

theorem leaves_array_iff {t : TypeExpr} :
    b.Leaves x (.array t) ↔ b.Leaves x t ∨ b.Wild x ∧ t = .variable x := by
  simp only [Leaves, TypeExpr.part_array_iff, TypeExpr.array.injEq, reduceCtorEq, false_or]
  constructor
  · rintro (hfree | ⟨hwild, rfl | hpart⟩)
    · exact .inl (.inl hfree)
    · exact .inr ⟨hwild, rfl⟩
    · exact .inl (.inr ⟨hwild, hpart⟩)
  · rintro ((hfree | ⟨hwild, hpart⟩) | ⟨hwild, rfl⟩)
    · exact .inl hfree
    · exact .inr ⟨hwild, .inr hpart⟩
    · exact .inr ⟨hwild, .inl rfl⟩

theorem leaves_declared_iff {name : String} {args : List TypeArg} :
    b.Leaves x (.declared name args) ↔ ∃ a ∈ args, ∃ t, a.bound? = some t ∧ b.Leaves x t := by
  simp only [Leaves, TypeExpr.part_declared_iff, reduceCtorEq, false_or, TypeArg.HasPart]
  constructor
  · rintro (⟨hnone, a, ha, t, ht, hpart⟩ | ⟨hwild, a, ha, t, ht, hpart⟩)
    · exact ⟨a, ha, t, ht, .inl ⟨hnone, hpart⟩⟩
    · exact ⟨a, ha, t, ht, .inr ⟨hwild, hpart⟩⟩
  · rintro ⟨a, ha, t, ht, ⟨hnone, hpart⟩ | ⟨hwild, hpart⟩⟩
    · exact .inl ⟨hnone, a, ha, t, ht, hpart⟩
    · exact .inr ⟨hwild, a, ha, t, ht, hpart⟩

end Bindings

variable {b : Bindings} {x : String}

theorem TypeExpr.substitute_variable {name : String} {a : TypeArg} (hfind : b.find? name = some a) :
    (TypeExpr.variable name).substitute b = a := by
  rw [substitute, hfind, Option.getD_some]

/-- Only a variable that stands for a wildcard becomes one. -/
theorem TypeExpr.substitute_cases (b : Bindings) (t : TypeExpr) :
    (∃ u, t.substitute b = .exact u) ∨ ∃ name, t = .variable name ∧ b.Wild name := by
  cases t with
  | declared name args => exact .inl ⟨_, rfl⟩
  | unresolved name => exact .inl ⟨_, rfl⟩
  | «variable» name =>
    cases hfind : b.find? name with
    | none => exact .inl ⟨.variable name, by rw [substitute, hfind, Option.getD_none]⟩
    | some a =>
      cases a with
      | exact u => exact .inl ⟨u, substitute_variable hfind⟩
      | upTo u | downTo u | unbounded => exact .inr ⟨name, rfl, _, hfind, fun t => by simp⟩
  | array component =>
    refine .inl ?_
    rw [substitute]
    split
    · exact ⟨_, rfl⟩
    · exact ⟨_, rfl⟩

/-- An array of a variable that stands for a wildcard is left as it is. -/
theorem TypeExpr.substitute_array_of_wild {name : String} {a : TypeArg}
    (hfind : b.find? name = some a) (hwild : ∀ t, a ≠ .exact t) :
    (TypeExpr.array (.variable name)).substitute b = .exact (.array (.variable name)) := by
  rw [substitute, substitute_variable hfind]
  cases a with
  | exact u => exact absurd rfl (hwild u)
  | upTo u | downTo u | unbounded => rfl

/-- Turning the result into a bound keeps its variables: it has none if it is a wildcard. -/
theorem TypeExpr.hasPart_rebound_iff (hground : b.Ground) {rebound : TypeArg → TypeArg}
    (hof : ∀ a : TypeArg, (rebound a).HasPart (.variable x) → a.HasPart (.variable x))
    (hexact : ∀ u, (rebound (.exact u)).bound? = some u) (t : TypeExpr) :
    (rebound (t.substitute b)).HasPart (.variable x) ↔
      (t.substitute b).HasPart (.variable x) := by
  refine ⟨hof _, fun hpart => ?_⟩
  obtain ⟨u, heq⟩ | ⟨name, rfl, a, hfind, _⟩ := t.substitute_cases b
  · rw [heq] at hpart ⊢
    obtain ⟨v, hv, hpart⟩ := hpart
    exact ⟨v, (hexact u).trans hv, hpart⟩
  · rw [substitute_variable hfind] at hpart
    exact absurd hpart (hground name a hfind x)

mutual

theorem TypeExpr.hasPart_substitute (hground : b.Ground) : ∀ t : TypeExpr,
    (t.substitute b).HasPart (.variable x) ↔ b.Leaves x t
  | .variable name => by
    cases hfind : b.find? name with
    | none =>
      rw [Bindings.leaves_variable_iff, TypeExpr.substitute, hfind, Option.getD_none,
        TypeArg.hasPart_exact, TypeExpr.part_variable_iff, TypeExpr.variable.injEq]
      exact ⟨fun hx => ⟨hx ▸ hfind, hx⟩, fun hx => hx.2⟩
    | some a =>
      rw [TypeExpr.substitute_variable hfind]
      exact iff_of_false (hground name a hfind x) (Bindings.not_leaves_of_find? hfind)
  | .declared name args => by
    rw [TypeExpr.substitute, TypeArg.hasPart_exact, TypeExpr.part_declared_iff,
      TypeArg.hasPart_substituteAll hground args, Bindings.leaves_declared_iff]
    simp only [reduceCtorEq, false_or]
  | .unresolved name => by
    rw [TypeExpr.substitute, TypeArg.hasPart_exact]
    refine iff_of_false ?_ Bindings.not_leaves_unresolved
    rintro ⟨⟩
  | .array component => by
    rw [Bindings.leaves_array_iff]
    obtain ⟨u, heq⟩ | ⟨name, rfl, a, hfind, hwild⟩ := component.substitute_cases b
    · -- A component that stays a type is no variable that stands for a wildcard.
      have hno : ¬ (b.Wild x ∧ component = .variable x) := by
        rintro ⟨⟨a, hfind, hwild⟩, rfl⟩
        exact hwild u ((TypeExpr.substitute_variable hfind).symm.trans heq)
      have hcomponent := TypeExpr.hasPart_substitute hground component
      rw [heq, TypeArg.hasPart_exact] at hcomponent
      rw [TypeExpr.substitute, heq]
      simp only [hno, or_false, ← hcomponent, TypeArg.hasPart_exact, TypeExpr.part_array_iff,
        reduceCtorEq, false_or]
    · rw [TypeExpr.substitute_array_of_wild hfind hwild, TypeArg.hasPart_exact]
      simp only [TypeExpr.part_array_iff, TypeExpr.part_variable_iff, reduceCtorEq, false_or,
        TypeExpr.variable.injEq, Bindings.not_leaves_of_find? hfind]
      exact ⟨fun hx => ⟨hx ▸ ⟨a, hfind, hwild⟩, hx.symm⟩, fun hx => hx.2.symm⟩

theorem TypeArg.hasPart_substitute (hground : b.Ground) : ∀ a : TypeArg,
    (a.substitute b).HasPart (.variable x) ↔ ∃ t, a.bound? = some t ∧ b.Leaves x t
  | .exact t => by
    rw [TypeArg.substitute, TypeExpr.hasPart_substitute hground t]
    simp [TypeArg.bound?]
  | .upTo t => by
    rw [TypeArg.substitute, t.hasPart_rebound_iff hground (fun _ => .of_asUpper) (fun _ => rfl),
      TypeExpr.hasPart_substitute hground t]
    simp [TypeArg.bound?]
  | .downTo t => by
    rw [TypeArg.substitute, t.hasPart_rebound_iff hground (fun _ => .of_asLower) (fun _ => rfl),
      TypeExpr.hasPart_substitute hground t]
    simp [TypeArg.bound?]
  | .unbounded => by simp [TypeArg.substitute, TypeArg.HasPart, TypeArg.bound?]

theorem TypeArg.hasPart_substituteAll (hground : b.Ground) : ∀ args : List TypeArg,
    (∃ a ∈ TypeArg.substituteAll b args, a.HasPart (.variable x)) ↔
      ∃ a ∈ args, ∃ t, a.bound? = some t ∧ b.Leaves x t
  | [] => by simp [TypeArg.substituteAll]
  | a :: args => by
    rw [TypeArg.substituteAll]
    simp only [List.mem_cons, exists_eq_or_imp]
    rw [TypeArg.hasPart_substitute hground a, TypeArg.hasPart_substituteAll hground args]

end

/-- Where the variables stand for types and wildcards without variables, what they stand for decides
what remains of them.  An unbound variable remains wherever it occurs, one that stands for a type
remains nowhere, and one that stands for a wildcard remains only as the component of an array. -/
theorem Bindings.variables_of_substitute (hground : b.Ground) (t : TypeExpr) (x : String) :
    (b.find? x = none →
      ((t.substitute b).HasPart (.variable x) ↔ TypeExpr.Part (.variable x) t)) ∧
    (∀ u, b.find? x = some (.exact u) → ¬ (t.substitute b).HasPart (.variable x)) ∧
    (b.Wild x →
      ((t.substitute b).HasPart (.variable x) ↔ TypeExpr.Part (.array (.variable x)) t)) := by
  rw [TypeExpr.hasPart_substitute hground t, Leaves]
  refine ⟨fun hnone => ?_, fun u hfind => ?_, fun hwild => ?_⟩
  · have hno : ¬ b.Wild x := fun ⟨a, hfind, _⟩ => by simp [hnone] at hfind
    simp [hnone, hno]
  · have hno : ¬ b.Wild x := fun ⟨a, hfind', hwild⟩ =>
      hwild u (Option.some.inj (hfind'.symm.trans hfind))
    simp [hfind, hno]
  · have hsome : b.find? x ≠ none := fun hnone => by
      obtain ⟨a, hfind, _⟩ := hwild
      simp [hnone] at hfind
    simp [hsome, hwild]

namespace Sample

/-- Keys are shapes, and elements may be anything. -/
def elements : Bindings := [("K", .exact (.named "Shape")), ("E", .unbounded)]

theorem ground_elements : elements.Ground := by
  intro name a hfind x hpart
  have hmem := Bindings.mem_of_find? hfind
  obtain ⟨t, ht, hpart⟩ := hpart
  simp only [elements, List.mem_cons, Prod.mk.injEq, List.not_mem_nil, or_false] at hmem
  obtain ⟨-, rfl⟩ | ⟨-, rfl⟩ := hmem
  · cases ht
    simp [TypeExpr.named, TypeExpr.part_declared_iff] at hpart
  · cases ht

/-- A table with arrays of keys, with elements, and with what it is sorted by. -/
def table : TypeExpr :=
  .declared "Table" [.exact (.array (.variable "K")), .downTo (.variable "E"),
    .upTo (.variable "S")]

end Sample

/-- Keys and elements do not remain in a table; what is unbound does. -/
theorem Bindings.variables_of_substitute_table :
    Sample.elements.Ground ∧
      (Sample.table.substitute Sample.elements).HasPart (.variable "S") ∧
      ¬ (Sample.table.substitute Sample.elements).HasPart (.variable "K") ∧
      ¬ (Sample.table.substitute Sample.elements).HasPart (.variable "E") := by
  have hkey := (variables_of_substitute Sample.ground_elements Sample.table "K").2.1
  have helement := (variables_of_substitute Sample.ground_elements Sample.table "E").2.2
  have hsorted := (variables_of_substitute Sample.ground_elements Sample.table "S").1
  refine ⟨Sample.ground_elements, (hsorted rfl).2 ?_, hkey _ rfl, ?_⟩
  · exact .argument (a := .upTo (.variable "S")) (by simp) rfl .refl
  · rw [helement ⟨.unbounded, rfl, by simp⟩]
    simp [Sample.table, TypeExpr.part_declared_iff, TypeExpr.part_array_iff,
      TypeExpr.part_variable_iff, TypeArg.HasPart, TypeArg.bound?]

/-- Arrays of elements remain arrays of the variable, though it is bound. -/
theorem Bindings.substitute_keeps_bound_component :
    Sample.elements.Ground ∧ Sample.elements.find? "E" = some .unbounded ∧
      ((TypeExpr.declared "Source" [.exact (.array (.variable "E"))]).substitute
        Sample.elements).HasPart (.variable "E") := by
  refine ⟨Sample.ground_elements, rfl, _, rfl, ?_⟩
  exact .argument List.mem_cons_self rfl (.component .refl)

end Wiring
