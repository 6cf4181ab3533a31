import Mathlib.Logic.Relation
import Wiring.Proofs.Inventory.Items

/-! Reordering declarations.  The types and modules of a graph, the beans and imports of a module,
the sockets of a bean and the beans nested in it may stand in any order: a graph declares the same
items, and if their labels are distinct, the survey of the graph has them all. -/

namespace Wiring

/-! ### What may be reordered -/

/-- A list is put in another order, or one of its elements is changed in place. -/
inductive Reorders {α : Type} (changes : α → α → Prop) : List α → List α → Prop
  | order {l l' : List α} : l.Perm l' → Reorders changes l l'
  | inside {a a' : α} {before after : List α} : changes a a' →
      Reorders changes (before ++ a :: after) (before ++ a' :: after)

/-- The beans nested in a bean are reordered, at whatever depth. -/
inductive NestedBean.Reorders : NestedBean → NestedBean → Prop
  | nested (b : NestedBean) {ns ns' : List NestedBean} :
      Wiring.Reorders NestedBean.Reorders ns ns' →
        Reorders { b with nested := ns } { b with nested := ns' }

inductive Bean.Reorders : Bean → Bean → Prop
  | sockets (b : Bean) (type : TypeExpr) {ks ks' : List Socket} : ks.Perm ks' →
      Reorders { b with kind := .module type ks } { b with kind := .module type ks' }
  | nested (b : Bean) {ns ns' : List NestedBean} :
      Wiring.Reorders NestedBean.Reorders ns ns' →
        Reorders { b with nested := ns } { b with nested := ns' }

inductive Module.Reorders : Module → Module → Prop
  | imports (m : Module) {is is' : List Name} : is.Perm is' →
      Reorders { m with imports := is } { m with imports := is' }
  | beans (m : Module) {bs bs' : List Bean} : Wiring.Reorders Bean.Reorders bs bs' →
      Reorders { m with beans := bs } { m with beans := bs' }

inductive Graph.Reorders : Graph → Graph → Prop
  | types (g : Graph) {ts ts' : List TypeDeclaration} : ts.Perm ts' →
      Reorders { g with types := ts } { g with types := ts' }
  | modules (g : Graph) {ms ms' : List Module} : Wiring.Reorders Module.Reorders ms ms' →
      Reorders { g with modules := ms } { g with modules := ms' }

/-- The graphs have the same declarations, in whatever order. -/
def Graph.Reordered : Graph → Graph → Prop := Relation.ReflTransGen Graph.Reorders

/-! ### The items of reordered declarations -/

namespace Reorders

variable {α β : Type} {changes : α → α → Prop} {f : α → List β}

theorem flatMap_inside {a a' : α} (h : (f a).Perm (f a')) (before after : List α) :
    ((before ++ a :: after).flatMap f).Perm ((before ++ a' :: after).flatMap f) := by
  rw [List.flatMap_append, List.flatMap_append, List.flatMap_cons, List.flatMap_cons]
  exact (h.append_right _).append_left _

theorem flatMap_perm (hf : ∀ a a', changes a a' → (f a).Perm (f a')) {l l' : List α}
    (h : Reorders changes l l') : (l.flatMap f).Perm (l'.flatMap f) := by
  cases h with
  | order h => exact h.flatMap_right f
  | inside h => exact flatMap_inside (hf _ _ h) _ _

end Reorders

theorem NestedBean.allItems_eq (parent : BeanFacts) (bs : List NestedBean) :
    allItems parent bs = bs.flatMap (items parent) := by
  induction bs with
  | nil => rw [allItems, List.flatMap_nil]
  | cons b bs ih => rw [allItems, List.flatMap_cons, ih]

/-- A nested bean brings the same items in if those nested in it do under every parent. -/
theorem NestedBean.items_perm_of_nested (b : NestedBean) {ns ns' : List NestedBean}
    (h : ∀ parent, (ns.flatMap (items parent)).Perm (ns'.flatMap (items parent)))
    (parent : BeanFacts) :
    (items parent { b with nested := ns }).Perm (items parent { b with nested := ns' }) := by
  unfold items
  cases parent.name.nested b.name with
  | error fault => exact .refl _
  | ok name =>
    dsimp only
    rw [allItems_eq, allItems_eq]
    exact (h _).append_left _

theorem NestedBean.Reorders.items_perm {b b' : NestedBean} (h : NestedBean.Reorders b b')
    (parent : BeanFacts) : (b.items parent).Perm (b'.items parent) := by
  match h with
  | .nested b (.order hns) =>
    exact items_perm_of_nested b (fun parent => hns.flatMap_right _) parent
  | .nested b (.inside hn) =>
    have ih := hn.items_perm
    exact items_perm_of_nested b
      (fun parent => Wiring.Reorders.flatMap_inside (ih parent) _ _) parent

theorem NestedBean.allItems_perm {ns ns' : List NestedBean}
    (h : Wiring.Reorders NestedBean.Reorders ns ns') (parent : BeanFacts) :
    (allItems parent ns).Perm (allItems parent ns') := by
  rw [allItems_eq, allItems_eq]
  exact h.flatMap_perm fun _ _ hn => hn.items_perm parent

theorem Bean.Reorders.items_perm {b b' : Bean} (h : b.Reorders b') (known : KnownTypes)
    (module : Name) : (b.items known module).Perm (b'.items known module) := by
  cases h with
  | sockets b type hks =>
    unfold Bean.items
    cases module.withBean b.name with
    | error fault => exact .refl _
    | ok name =>
      dsimp only
      split
      · exact .refl _
      · exact (((hks.flatMap_right _).append_right _).append_left _).append_right _
  | nested b hns =>
    unfold Bean.items
    cases module.withBean b.name with
    | error fault => exact .refl _
    | ok name =>
      dsimp only
      split
      · exact .refl _
      · exact (NestedBean.allItems_perm hns _).append_left _

theorem Module.Reorders.items_perm {m m' : Module} (h : m.Reorders m') (known : KnownTypes) :
    (m.items known).Perm (m'.items known) := by
  cases h with
  | @imports m is is' his =>
    have hset : ({i | i ∈ is} : Set Name) = {i | i ∈ is'} := Set.ext fun i => his.mem_iff
    unfold Module.items Module.facts
    dsimp only
    rw [hset]
  | beans m hbs =>
    unfold Module.items
    dsimp only
    split
    · exact .refl _
    · exact (hbs.flatMap_perm fun _ _ hb => hb.items_perm known m.name).cons _

theorem Graph.Reorders.items_perm {g g' : Graph} (h : g.Reorders g') (known : KnownTypes) :
    (g.items known).Perm (g'.items known) := by
  cases h with
  | types g hts => exact .refl _
  | modules g hms => exact hms.flatMap_perm fun _ _ hm => hm.items_perm known

theorem Graph.Reorders.types_perm {g g' : Graph} (h : g.Reorders g') :
    g.types.Perm g'.types := by
  cases h with
  | types g hts => exact hts
  | modules g hms => exact .refl _

namespace Graph

variable {g g' : Graph}

theorem Reordered.items_perm (h : g.Reordered g') (known : KnownTypes) :
    (g.items known).Perm (g'.items known) := by
  induction h with
  | refl => exact .refl _
  | tail _ hstep ih => exact ih.trans (hstep.items_perm known)

theorem Reordered.types_perm (h : g.Reordered g') : g.types.Perm g'.types := by
  induction h with
  | refl => exact .refl _
  | tail _ hstep ih => exact ih.trans hstep.types_perm

/-! ### Surveys without duplicates -/

/-- No name is found taken exactly if the items of the graph have distinct labels. -/
theorem distinct_survey_iff {known : KnownTypes} :
    (g.survey known).Distinct ↔ ((g.items known).filterMap (·.label?)).Nodup := by
  have hyields := g.survey_yields known
  constructor
  · intro hdistinct
    exact (hyields.all hdistinct).2.1
  · intro hnodup
    refine hyields.distinct (fun element kind hf => by cases hf) hnodup ?_
    rintro l _ ⟨i, hi, _⟩
    cases i <;> cases hi

/-- Without duplicates a survey has the items that its graph declares. -/
theorem has_survey_iff {known : KnownTypes} (hdistinct : (g.survey known).Distinct) (i : Item) :
    (g.survey known).Has i ↔ i ∈ g.items known := by
  have hyields := g.survey_yields known
  constructor
  · intro hi
    refine (hyields.only i hi).resolve_left fun hi => ?_
    cases i <;> cases hi
  · intro hi
    exact (hyields.all hdistinct).1 i hi

theorem Reordered.distinct (h : g.Reordered g') {known : KnownTypes}
    (hdistinct : (g.survey known).Distinct) : (g'.survey known).Distinct := by
  have hperm := (h.items_perm known).filterMap (·.label?)
  rw [distinct_survey_iff] at hdistinct ⊢
  exact hperm.nodup_iff.1 hdistinct

/-- Reordering leaves the items of a survey without duplicates as they are. -/
theorem Reordered.has_iff (h : g.Reordered g') {known : KnownTypes}
    (hdistinct : (g.survey known).Distinct) (i : Item) :
    (g.survey known).Has i ↔ (g'.survey known).Has i := by
  rw [has_survey_iff hdistinct, has_survey_iff (h.distinct hdistinct)]
  exact (h.items_perm known).mem_iff

/-- A survey without duplicates finds what the items make of it. -/
theorem mem_findings_of_has {known : KnownTypes} (hdistinct : (g.survey known).Distinct)
    (hhas : ∀ i, (g.survey known).Has i → (g'.survey known).Has i) {f : Finding}
    (hf : f ∈ (g.survey known).findings) : f ∈ (g'.survey known).findings := by
  rcases found_survey hf with ⟨element, type, rfl⟩ | ⟨element, reason, rfl⟩ | ⟨element, kind, rfl⟩
  · exact hhas (.unresolved element type) hf
  · exact hhas (.invalid element reason) hf
  · exact absurd hf (hdistinct element kind)

theorem Reordered.mem_findings_iff (h : g.Reordered g') {known : KnownTypes}
    (hdistinct : (g.survey known).Distinct) (f : Finding) :
    f ∈ (g.survey known).findings ↔ f ∈ (g'.survey known).findings :=
  ⟨mem_findings_of_has hdistinct fun i => (h.has_iff hdistinct i).1,
    mem_findings_of_has (h.distinct hdistinct) fun i => (h.has_iff hdistinct i).2⟩

end Graph

end Wiring
