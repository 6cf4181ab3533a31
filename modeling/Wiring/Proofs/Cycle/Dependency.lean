import Mathlib.Logic.Relation
import Wiring.Cycle
import Wiring.Proofs.Lookup
import Wiring.Proofs.Snapshot

/-! The graph that the search for cycles runs on.  Its edges are the dependencies that the inventory
and the plan speak of, and no others: a bean depends on what its sockets get, and on its parent. -/

namespace Wiring

/-- A bean depends on another by a link: one of its sockets gets the other, or it is a part of it.
-/
inductive Dependency (v : Inventory) (p : Plan) : Name → Link → Name → Prop
  | socket {e : PlanEntry} {bean : Name} :
      e ∈ p.toList → bean ∈ e.outcome.beans → Dependency v p e.owner (.socket e.socket) bean
  | nested {b parent : BeanEntry} {i : Nat} :
      b ∈ v.beans → b.origin = .nested i → v.beans[i]? = some parent →
        Dependency v p b.name .nested parent.name

theorem Dependency.exists_entry {v : Inventory} {p : Plan} {a b socket : Name}
    (h : Dependency v p a (.socket socket) b) : ∃ e ∈ p.toList, e.socket = socket := by
  cases h with
  | socket he _ => exact ⟨_, he, rfl⟩

/-- Some link leads from a bean to another. -/
def Depends (v : Inventory) (p : Plan) (a b : Name) : Prop := ∃ link, Dependency v p a link b

namespace BeanGraph

/-- The graph has an edge from a bean to another. -/
def Leads (g : BeanGraph) (a b : Name) : Prop := ∃ link, (link, b) ∈ g.edges a

/-- The bean stands in the graph once, or not at all. -/
def Distinct (g : BeanGraph) : Prop := (g.map (·.1)).Nodup

theorem mem_edges_iff {g : BeanGraph} (hd : g.Distinct) {a : Name} {x : Link × Name} :
    x ∈ g.edges a ↔ ∃ es, (a, es) ∈ g ∧ x ∈ es := by
  unfold edges
  constructor
  · intro h
    cases hl : List.lookup a g with
    | none => simp [hl] at h
    | some es => exact ⟨es, mem_of_lookup hl, by simpa [hl] using h⟩
  · rintro ⟨es, hes, hx⟩
    rw [(lookup_eq_some_iff_mem hd).2 hes]
    exact hx

theorem mem_keys_of_mem_edges {g : BeanGraph} {a : Name} {x : Link × Name} (h : x ∈ g.edges a) :
    a ∈ g.map (·.1) := by
  by_contra hn
  rw [edges, lookup_eq_none_iff_keys.2 hn] at h
  simp at h

/-! ### Building the graph -/

theorem edges_extend (g : BeanGraph) (bean : Name) (es : List (Link × Name)) (a : Name) :
    (extend bean es g).edges a = g.edges a ++ if a = bean then es else [] := by
  unfold edges
  induction g with
  | nil =>
    by_cases h : a = bean
    · simp [extend, h]
    · simp [extend, lookup_cons_ne h, h]
  | cons p rest ih =>
    obtain ⟨b, fs⟩ := p
    rw [extend]
    by_cases hb : b = bean
    · subst hb
      by_cases h : a = b
      · simp [h]
      · simp [lookup_cons_ne h, h]
    · by_cases h : a = b
      · subst h
        simp [hb]
      · rw [if_neg hb, lookup_cons_ne h, lookup_cons_ne h, ih]

theorem mem_keys_extend {g : BeanGraph} {bean a : Name} {es : List (Link × Name)} :
    a ∈ (extend bean es g).map (·.1) ↔ a = bean ∨ a ∈ g.map (·.1) := by
  induction g with
  | nil => simp [extend]
  | cons p rest ih =>
    rw [extend]
    split
    · rename_i hb
      simp [hb]
    · rw [List.map_cons, List.mem_cons, ih, List.map_cons, List.mem_cons]
      exact or_left_comm

theorem Distinct.extend {g : BeanGraph} (hd : g.Distinct) (bean : Name) (es : List (Link × Name)) :
    Distinct (extend bean es g) := by
  unfold Distinct at hd ⊢
  induction g with
  | nil => simp [BeanGraph.extend]
  | cons p rest ih =>
    rw [List.map_cons, List.nodup_cons] at hd
    rw [BeanGraph.extend]
    split
    · simpa using hd
    · rename_i hb
      rw [List.map_cons, List.nodup_cons, mem_keys_extend]
      exact ⟨fun h => h.elim hb hd.1, ih hd.2⟩

/-- Extending a graph for each element of a list appends the edges of each bean in turn. -/
theorem edges_foldl_extend {α : Type} (bean : α → Name) (es : α → List (Link × Name)) (xs : List α)
    (g : BeanGraph) (a : Name) :
    BeanGraph.edges (xs.foldl (fun g x => extend (bean x) (es x) g) g) a =
      g.edges a ++ xs.flatMap fun x => if a = bean x then es x else [] := by
  induction xs generalizing g with
  | nil => simp
  | cons x xs ih => rw [List.foldl_cons, ih, edges_extend, List.flatMap_cons, List.append_assoc]

theorem Distinct.foldl_extend {α : Type} (bean : α → Name) (es : α → List (Link × Name))
    (xs : List α)
    {g : BeanGraph} (hd : g.Distinct) :
    Distinct (xs.foldl (fun g x => BeanGraph.extend (bean x) (es x) g) g) := by
  induction xs generalizing g with
  | nil => exact hd
  | cons x xs ih => exact ih (hd.extend (bean x) (es x))

/-- Sorting the beans and the edges of each, and collapsing repetitions, keeps the edges. -/
theorem mem_edges_sorted {g : BeanGraph} (hd : g.Distinct) (le : Name → Name → Bool) {a : Name}
    {x : Link × Name} :
    x ∈ BeanGraph.edges ((g.mergeSort fun a b => le a.1 b.1).map fun (b, es) =>
      (b, collapse (es.mergeSort edgeBle))) a ↔ x ∈ g.edges a := by
  have hperm : (g.mergeSort fun a b => le a.1 b.1).Perm g := List.mergeSort_perm g _
  have hd' : Distinct ((g.mergeSort fun a b => le a.1 b.1).map fun (b, es) =>
      (b, collapse (es.mergeSort edgeBle))) := by
    unfold Distinct
    rw [List.map_map]
    exact ((hperm.map _).nodup_iff).2 hd
  rw [mem_edges_iff hd', mem_edges_iff hd]
  constructor
  · rintro ⟨es, hes, hx⟩
    obtain ⟨⟨b, fs⟩, hfs, heq⟩ := List.mem_map.1 hes
    obtain ⟨rfl, rfl⟩ := Prod.mk.inj heq
    rw [mem_collapse, List.mem_mergeSort] at hx
    exact ⟨fs, hperm.mem_iff.1 hfs, hx⟩
  · rintro ⟨es, hes, hx⟩
    refine ⟨_, List.mem_map_of_mem (hperm.mem_iff.2 hes), ?_⟩
    rwa [mem_collapse, List.mem_mergeSort]

/-- A graph that is in order already, with each edge once, stays as it is. -/
theorem sorted_eq {wired g : BeanGraph} (hwired : wired = g)
    (hbeans : g.Pairwise fun a b => a.1.ble b.1 = true)
    (hedges : ∀ p ∈ g, (p.2.Pairwise fun a b => edgeBle a b = true) ∧ collapse p.2 = p.2) :
    ((wired.mergeSort fun a b => a.1.ble b.1).map
      fun (b, es) => (b, collapse (es.mergeSort edgeBle))) = g := by
  rw [hwired, List.mergeSort_of_pairwise hbeans]
  conv => rhs; rw [← List.map_id g]
  refine List.map_congr_left fun ⟨bean, es⟩ hp => ?_
  obtain ⟨hsorted, hcollapse⟩ := hedges _ hp
  show (bean, collapse (es.mergeSort edgeBle)) = (bean, es)
  rw [List.mergeSort_of_pairwise hsorted, hcollapse]

/-- The edges of the graph of a plan are the dependencies. -/
theorem mem_edges_ofPlan {v : Inventory} {p : Plan} {a b : Name} {link : Link} :
    (link, b) ∈ (ofPlan v p).edges a ↔ Dependency v p a link b := by
  have hnil : Distinct [] := List.nodup_nil
  rw [ofPlan, mem_edges_sorted (Distinct.foldl_extend _ _ _ (Distinct.foldl_extend _ _ _ hnil)),
    edges_foldl_extend, edges_foldl_extend]
  simp only [edges, List.lookup_nil, Option.getD_none, List.nil_append, List.mem_append,
    List.mem_flatMap, List.mem_ite_nil_right]
  constructor
  · rintro (⟨c, hc, rfl, hx⟩ | ⟨e, he, rfl, hx⟩)
    · cases ho : c.origin with
      | module => simp [parentEdges, ho] at hx
      | socket => simp [parentEdges, ho] at hx
      | nested i =>
        cases hp : v.beans[i]? with
        | none => simp [parentEdges, ho, hp] at hx
        | some parent =>
          obtain ⟨rfl, rfl⟩ : link = .nested ∧ b = parent.name := by
            simpa [parentEdges, ho, hp] using hx
          exact .nested hc ho hp
    · obtain ⟨bean, hbean, heq⟩ := List.mem_map.1 hx
      obtain ⟨rfl, rfl⟩ := Prod.mk.inj heq
      exact .socket he hbean
  · intro h
    cases h with
    | socket he hbean => exact .inr ⟨_, he, rfl, List.mem_map_of_mem hbean⟩
    | nested hb ho hp => exact .inl ⟨_, hb, rfl, by simp [parentEdges, ho, hp]⟩

theorem leads_ofPlan {v : Inventory} {p : Plan} : (ofPlan v p).Leads = Depends v p := by
  funext a b
  exact propext (exists_congr fun _ => mem_edges_ofPlan)

end BeanGraph

end Wiring
