import Wiring.Proofs.Cycle.Dependency
import Wiring.Proofs.Cycle.Order
import Wiring.Proofs.Schedule.Alike

/-! The graph of beans in its order.  Beans and their edges stand in strict order in the graph of a
plan, so it is given by which beans and which edges it has; inventories with the same entries have
one graph for a plan. -/

namespace Wiring

namespace BeanGraph

theorem eq_of_edgeBle {a b : Link × Name} (hab : edgeBle a b = true) (hba : edgeBle b a = true) :
    a = b := by
  have hkeys := Text.lexBle_antisymm hab hba
  simp only [List.cons.injEq, and_true] at hkeys
  exact Prod.ext (Link.key_injective hkeys.1) (Name.text_injective hkeys.2)

/-- The beans stand in the strict order of their names, and so do the edges of each. -/
structure InOrder (g : BeanGraph) : Prop where
  beans : (g.map (·.1)).Pairwise Name.Before
  edges : ∀ p ∈ g, p.2.Pairwise fun a b => edgeBle a b = true ∧ a ≠ b

namespace InOrder

variable {g g' : BeanGraph} (hg : g.InOrder)
include hg

theorem distinct : g.Distinct := hg.beans.imp fun hlt => hlt.2

theorem pairwise_edges (a : Name) :
    (g.edges a).Pairwise fun x y => edgeBle x y = true ∧ x ≠ y := by
  unfold BeanGraph.edges
  cases hlookup : List.lookup a g with
  | none => exact .nil
  | some es => exact hg.edges (a, es) (mem_of_lookup hlookup)

/-- Each bean stands in the graph with its edges. -/
theorem eq_map_edges : g = (g.map (·.1)).map fun a => (a, g.edges a) := by
  rw [List.map_map]
  conv => lhs; rw [← List.map_id g]
  refine List.map_congr_left fun ⟨a, es⟩ hmem => ?_
  have hlookup := (lookup_eq_some_iff_mem hg.distinct).2 hmem
  simp [BeanGraph.edges, hlookup]

/-- A graph in order is given by its beans and its edges. -/
theorem ext (hg' : g'.InOrder) (hbeans : ∀ a, a ∈ g.map (·.1) ↔ a ∈ g'.map (·.1))
    (hedges : ∀ a x, x ∈ g.edges a ↔ x ∈ g'.edges a) : g = g' := by
  have hkeys : g.map (·.1) = g'.map (·.1) :=
    eq_of_pairwise_of_mem_iff (fun _ _ _ _ hlt => hlt.asymm) hg.beans hg'.beans hbeans
  have hlists : ∀ a, g.edges a = g'.edges a := fun a =>
    eq_of_pairwise_of_mem_iff (fun _ _ _ _ hlt hgt => hlt.2 (eq_of_edgeBle hlt.1 hgt.1))
      (hg.pairwise_edges a) (hg'.pairwise_edges a) (hedges a)
  calc
    g = (g.map (·.1)).map fun a => (a, g.edges a) := hg.eq_map_edges
    _ = (g'.map (·.1)).map fun a => (a, g'.edges a) := by
      rw [hkeys]
      exact List.map_congr_left fun a _ => by rw [hlists]
    _ = g' := hg'.eq_map_edges.symm

end InOrder

/-! ### The graph of a plan -/

theorem inOrder_sorted {g : BeanGraph} (hd : g.Distinct) :
    InOrder ((g.mergeSort fun a b => a.1.ble b.1).map fun (b, es) =>
      (b, collapse (es.mergeSort edgeBle))) := by
  constructor
  · have hnames : ((g.mergeSort fun a b => a.1.ble b.1).map (·.1)).Nodup :=
      ((List.mergeSort_perm g _).map _).nodup_iff.2 hd
    have hsorted := Name.pairwise_mergeSort_ble (fun p : Name × List (Link × Name) => p.1) g
    rw [List.map_map]
    exact List.pairwise_map.2 (hsorted.and (List.pairwise_map.1 hnames))
  · intro p hp
    obtain ⟨⟨b, es⟩, _, rfl⟩ := List.mem_map.1 hp
    exact pairwise_collapse
      (Text.pairwise_mergeSort_key (fun e : Link × Name => [e.1.key, e.2.text]) es)
      fun _ _ _ _ => eq_of_edgeBle

theorem mem_keys_foldl_extend {α : Type} (bean : α → Name) (es : α → List (Link × Name))
    (xs : List α) (g : BeanGraph) (a : Name) :
    a ∈ (xs.foldl (fun g x => extend (bean x) (es x) g) g).map (·.1) ↔
      a ∈ xs.map bean ∨ a ∈ g.map (·.1) := by
  induction xs generalizing g with
  | nil => simp
  | cons x xs ih =>
    rw [List.foldl_cons, ih, mem_keys_extend, List.map_cons, List.mem_cons]
    exact or_left_comm.trans or_assoc.symm

theorem inOrder_ofPlan (v : Inventory) (p : Plan) : (ofPlan v p).InOrder :=
  inOrder_sorted (Distinct.foldl_extend _ _ _ (Distinct.foldl_extend _ _ _ List.nodup_nil))

/-- The beans of the graph are those of the inventory, and those that the plan has sockets of. -/
theorem mem_keys_ofPlan {v : Inventory} {p : Plan} {a : Name} :
    a ∈ (ofPlan v p).map (·.1) ↔ a ∈ v.beans.map (·.name) ∨ a ∈ p.toList.map (·.owner) := by
  have hsorted : ∀ g : BeanGraph, a ∈ ((g.mergeSort fun a b => a.1.ble b.1).map fun (b, es) =>
      (b, collapse (es.mergeSort edgeBle))).map (·.1) ↔ a ∈ g.map (·.1) := by
    intro g
    rw [List.map_map]
    exact ((List.mergeSort_perm g _).map _).mem_iff
  rw [ofPlan, hsorted, mem_keys_foldl_extend, mem_keys_foldl_extend, List.map_nil]
  simp only [List.not_mem_nil, or_false]
  exact or_comm

end BeanGraph

/-! ### Inventories with the same entries -/

theorem Dependency.of_alike {v w : Inventory} (h : v.Alike w) (hv : v.WellFormed)
    (hw : w.WellFormed) {p : Plan} {a b : Name} {link : Link} (hd : Dependency v p a link b) :
    Dependency w p a link b := by
  cases hd with
  | socket he hbean => exact .socket he hbean
  | @nested bean parent i hb ho hparent =>
    obtain ⟨written, hwritten⟩ := hv.name_of_nested hb ho hparent
    obtain ⟨c, hc, hfacts⟩ := h.exists_bean hb
    have hname : c.name = bean.name := congrArg BeanFacts.name hfacts
    -- the number of the parent may be another one, but the name of the bean tells its name
    rw [← hname] at hwritten ⊢
    obtain ⟨j, found, hj, hfound, hsame⟩ := hw.nested_of_name hc hwritten
    rw [← hsame]
    exact .nested hc hj hfound

theorem BeanGraph.ofPlan_eq_of_alike {v w : Inventory} (h : v.Alike w) (hv : v.WellFormed)
    (hw : w.WellFormed) (p : Plan) : ofPlan v p = ofPlan w p := by
  refine (inOrder_ofPlan v p).ext (inOrder_ofPlan w p) (fun a => ?_) fun a x => ?_
  · rw [mem_keys_ofPlan, mem_keys_ofPlan]
    exact or_congr_left ⟨h.bean_name, h.symm.bean_name⟩
  · obtain ⟨link, b⟩ := x
    rw [mem_edges_ofPlan, mem_edges_ofPlan]
    exact ⟨.of_alike h hv hw, .of_alike h.symm hw hv⟩

end Wiring
