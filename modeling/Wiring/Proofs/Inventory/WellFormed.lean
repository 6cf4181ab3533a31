import Mathlib.Data.List.Nodup
import Wiring.Inventory
import Wiring.Proofs.Lookup

/-! Well-formed inventories.  An inventory grows by one module, bean or socket at a time, each of
them new and fitting what is there; by every such step each entry stays at the place that its number
names, names stay distinct, and each module keeps the list of its own entries. -/

namespace Wiring.Inventory

/-! ### Names -/

theorem hasBean_iff {v : Inventory} {name : Name} :
    v.hasBean name = true ↔ name ∈ v.beans.map (·.name) := by
  rw [hasBean, isSome_lookup_iff, v.beans_indexed, List.map_map]
  rfl

theorem hasSocket_iff {v : Inventory} {name : Name} :
    v.hasSocket name = true ↔ name ∈ v.sockets.map (·.name) := by
  rw [hasSocket, isSome_lookup_iff, v.sockets_indexed, List.map_map]
  rfl

theorem mem_of_bean? {v : Inventory} {name : Name} {b : BeanEntry} (h : v.bean? name = some b) :
    b ∈ v.beans := by
  obtain ⟨i, _, hb⟩ := Option.bind_eq_some_iff.1 h
  exact List.mem_of_getElem? hb

/-! ### Growing -/

def HasModule (v : Inventory) (name : Name) : Prop := name ∈ v.modules.map (·.name)

/-- What is said of a bean by its origin.  A bean that its module declares is exported if it is
public and comes from inside; a nested bean has an earlier bean as its parent and inherits from it.
-/
def OriginFits (v : Inventory) (b : BeanEntry) : Prop :=
  match b.origin with
  | .module => b.name.isNested = false ∧ b.exported = decide (b.visibility = .importers)
  | .socket => b.name.isNested = false ∧ b.exported = false
  | .nested i => i < b.id ∧ ∃ parent, v.beans[i]? = some parent ∧
      (∃ written, parent.name.nested written = .ok b.name) ∧ b.module = parent.module ∧
      b.visibility = parent.visibility ∧ b.strategy = parent.strategy ∧ b.exported = parent.exported

/-- A bean fits an inventory that has its module, which its name lies in, and bears out its origin.
-/
structure BeanFits (v : Inventory) (b : BeanEntry) : Prop where
  hasModule : v.HasModule b.module
  named : b.name.kind = .bean ∧ b.name.moduleName = b.module
  origin : v.OriginFits b

/-- A socket fits an inventory that has the bean which takes what the socket gets: the bean that the
socket is, or a bean that the socket's name extends. -/
def SocketFits (v : Inventory) (k : SocketEntry) : Prop :=
  ∃ owner, v.beans[k.owner]? = some owner ∧ k.module = owner.module ∧
    match k.origin with
    | .socketBean => owner.origin = .socket ∧ k.name = owner.name
    | .beanSocket | .override =>
      owner.origin = .module ∧ ∃ written, owner.name.withSocket written = .ok k.name

/-- The later inventory comes from the earlier by taking in modules, beans and sockets. -/
inductive Grows (v : Inventory) : Inventory → Prop
  | refl : Grows v v
  | module {w : Inventory} {m : ModuleEntry} : Grows v w → m.name.kind = .module →
      ¬ w.HasModule m.name → m.beans = [] → m.sockets = [] → Grows v (w.addModule m)
  | bean {w : Inventory} {b : BeanEntry} : Grows v w → b.id = w.beans.length →
      b.name ∉ w.beans.map (·.name) → w.BeanFits b → Grows v (w.addBean b)
  | socket {w : Inventory} {k : SocketEntry} : Grows v w → k.id = w.sockets.length →
      k.name ∉ w.sockets.map (·.name) → w.SocketFits k → Grows v (w.addSocket k)

theorem Grows.trans {u v w : Inventory} (huv : Grows u v) (hvw : Grows v w) : Grows u w := by
  induction hvw with
  | refl => exact huv
  | module _ hkind hnew hbeans hsockets ih => exact ih.module hkind hnew hbeans hsockets
  | bean _ hid hnew hfits ih => exact ih.bean hid hnew hfits
  | socket _ hid hnew hfits ih => exact ih.socket hid hnew hfits

@[simp] theorem names_addBean (v : Inventory) (b : BeanEntry) :
    (v.addBean b).modules.map (·.name) = v.modules.map (·.name) := by
  rw [addBean, List.map_map]
  refine List.map_congr_left fun m _ => ?_
  rw [Function.comp_apply]
  split <;> rfl

@[simp] theorem names_addSocket (v : Inventory) (k : SocketEntry) :
    (v.addSocket k).modules.map (·.name) = v.modules.map (·.name) := by
  rw [addSocket, List.map_map]
  refine List.map_congr_left fun m _ => ?_
  rw [Function.comp_apply]
  split <;> rfl

theorem Grows.beans_prefix {v w : Inventory} (h : Grows v w) : v.beans <+: w.beans := by
  induction h with
  | refl => exact List.prefix_refl _
  | module _ _ _ _ _ ih => exact ih
  | bean _ _ _ _ ih => exact ih.trans (List.prefix_append _ _)
  | socket _ _ _ _ ih => exact ih

theorem Grows.bean_at {v w : Inventory} (h : Grows v w) {i : Nat} {b : BeanEntry}
    (hb : v.beans[i]? = some b) : w.beans[i]? = some b := by
  obtain ⟨rest, hrest⟩ := h.beans_prefix
  rw [← hrest, List.getElem?_append_left (List.getElem?_eq_some_iff.1 hb).1]
  exact hb

theorem Grows.hasModule {v w : Inventory} (h : Grows v w) {name : Name} (hm : v.HasModule name) :
    w.HasModule name := by
  induction h with
  | refl => exact hm
  | module _ _ _ _ _ ih =>
    rw [HasModule, addModule, List.map_append]
    exact List.mem_append_left _ ih
  | bean _ _ _ _ ih => rwa [HasModule, names_addBean]
  | socket _ _ _ _ ih => rwa [HasModule, names_addSocket]

theorem OriginFits.grow {v w : Inventory} (h : Grows v w) {b : BeanEntry} (hb : v.OriginFits b) :
    w.OriginFits b := by
  unfold OriginFits at hb ⊢
  cases ho : b.origin with
  | module => simpa [ho] using hb
  | socket => simpa [ho] using hb
  | nested i =>
    rw [ho] at hb
    obtain ⟨hlt, parent, hparent, hrest⟩ := hb
    exact ⟨hlt, parent, h.bean_at hparent, hrest⟩

theorem BeanFits.grow {v w : Inventory} (h : Grows v w) {b : BeanEntry} (hb : v.BeanFits b) :
    w.BeanFits b :=
  ⟨h.hasModule hb.hasModule, hb.named, hb.origin.grow h⟩

theorem SocketFits.grow {v w : Inventory} (h : Grows v w) {k : SocketEntry} (hk : v.SocketFits k) :
    w.SocketFits k := by
  obtain ⟨owner, howner, hrest⟩ := hk
  exact ⟨owner, h.bean_at howner, hrest⟩

/-! ### Well-formed inventories -/

/-- The numbers of entries are their places, names are distinct, each module lists the numbers of
its own beans and sockets, and every entry fits. -/
structure WellFormed (v : Inventory) : Prop where
  bean_id : ∀ i (b : BeanEntry), v.beans[i]? = some b → b.id = i
  socket_id : ∀ i (k : SocketEntry), v.sockets[i]? = some k → k.id = i
  bean_names : (v.beans.map (·.name)).Nodup
  socket_names : (v.sockets.map (·.name)).Nodup
  module_names : (v.modules.map (·.name)).Nodup
  module_kind : ∀ m ∈ v.modules, m.name.kind = .module
  bean_list : ∀ m ∈ v.modules, m.beans = (v.beans.filter (·.module = m.name)).map (·.id)
  socket_list : ∀ m ∈ v.modules, m.sockets = (v.sockets.filter (·.module = m.name)).map (·.id)
  bean_fits : ∀ b ∈ v.beans, v.BeanFits b
  socket_fits : ∀ k ∈ v.sockets, v.SocketFits k

theorem WellFormed.socket_hasModule {v : Inventory} (h : v.WellFormed) {k : SocketEntry}
    (hk : k ∈ v.sockets) : v.HasModule k.module := by
  obtain ⟨owner, howner, hmodule, _⟩ := h.socket_fits k hk
  rw [hmodule]
  exact (h.bean_fits owner (List.mem_of_getElem? howner)).hasModule

theorem WellFormed.empty : WellFormed {} := by
  constructor <;> simp

/-- The place of an entry that is added at the end is the number of those before it. -/
theorem getElem?_concat_cases {α : Type} {l : List α} {a b : α} {i : Nat}
    (h : (l ++ [a])[i]? = some b) : l[i]? = some b ∨ (i = l.length ∧ a = b) := by
  rcases Nat.lt_trichotomy i l.length with hlt | rfl | hgt
  · rw [List.getElem?_append_left hlt] at h
    exact .inl h
  · rw [List.getElem?_concat_length] at h
    exact .inr ⟨rfl, Option.some.inj h⟩
  · rw [List.getElem?_eq_none (by simp; omega)] at h
    cases h

theorem nodup_concat_names {α : Type} {f : α → Name} {l : List α} {a : α} (h : (l.map f).Nodup)
    (hnew : f a ∉ l.map f) : ((l ++ [a]).map f).Nodup := by
  rw [List.map_append, List.map_singleton, List.nodup_append]
  refine ⟨h, List.nodup_singleton _, fun n hn m hm heq => hnew ?_⟩
  rwa [← List.mem_singleton.1 hm, ← heq]

theorem WellFormed.addModule {v : Inventory} (h : v.WellFormed) {m : ModuleEntry}
    (hkind : m.name.kind = .module) (hnew : ¬ v.HasModule m.name) (hbeans : m.beans = [])
    (hsockets : m.sockets = []) : (v.addModule m).WellFormed := by
  have hgrows : Grows v (v.addModule m) := Grows.refl.module hkind hnew hbeans hsockets
  have hnobeans : v.beans.filter (·.module = m.name) = [] := by
    rw [List.filter_eq_nil_iff]
    intro b hb heq
    exact hnew (of_decide_eq_true heq ▸ (h.bean_fits b hb).hasModule)
  have hnosockets : v.sockets.filter (·.module = m.name) = [] := by
    rw [List.filter_eq_nil_iff]
    intro k hk heq
    exact hnew (of_decide_eq_true heq ▸ h.socket_hasModule hk)
  refine ⟨h.bean_id, h.socket_id, h.bean_names, h.socket_names,
    nodup_concat_names h.module_names hnew, fun n hn => ?_, fun n hn => ?_, fun n hn => ?_,
    fun b hb => (h.bean_fits b hb).grow hgrows, fun k hk => (h.socket_fits k hk).grow hgrows⟩
  · rcases List.mem_append.1 hn with hn | hn
    · exact h.module_kind n hn
    · rwa [List.mem_singleton.1 hn]
  · rcases List.mem_append.1 hn with hn | hn
    · exact h.bean_list n hn
    · rw [List.mem_singleton.1 hn]
      simpa [Inventory.addModule, hnobeans] using hbeans
  · rcases List.mem_append.1 hn with hn | hn
    · exact h.socket_list n hn
    · rw [List.mem_singleton.1 hn]
      simpa [Inventory.addModule, hnosockets] using hsockets

theorem WellFormed.addBean {v : Inventory} (h : v.WellFormed) {b : BeanEntry}
    (hid : b.id = v.beans.length) (hnew : b.name ∉ v.beans.map (·.name)) (hfits : v.BeanFits b) :
    (v.addBean b).WellFormed := by
  have hgrows : Grows v (v.addBean b) := Grows.refl.bean hid hnew hfits
  refine ⟨fun i c hc => ?_, h.socket_id, nodup_concat_names h.bean_names hnew, h.socket_names, ?_,
    fun n hn => ?_, fun n hn => ?_, fun n hn => ?_, fun c hc => ?_,
    fun k hk => (h.socket_fits k hk).grow hgrows⟩
  · rcases getElem?_concat_cases hc with hc | ⟨rfl, rfl⟩
    · exact h.bean_id i c hc
    · exact hid
  · rw [names_addBean]
    exact h.module_names
  · obtain ⟨m, hm, rfl⟩ := List.mem_map.1 hn
    have hkind := h.module_kind m hm
    split <;> exact hkind
  · obtain ⟨m, hm, rfl⟩ := List.mem_map.1 hn
    have hlist := h.bean_list m hm
    by_cases heq : m.name = b.module
    · simp [Inventory.addBean, heq, hlist, List.filter_append]
    · simp [Inventory.addBean, heq, hlist, List.filter_append, Ne.symm heq]
  · obtain ⟨m, hm, rfl⟩ := List.mem_map.1 hn
    have hlist := h.socket_list m hm
    split <;> simpa [Inventory.addBean] using hlist
  · rcases List.mem_append.1 hc with hc | hc
    · exact (h.bean_fits c hc).grow hgrows
    · rw [List.mem_singleton.1 hc]
      exact hfits.grow hgrows

theorem WellFormed.addSocket {v : Inventory} (h : v.WellFormed) {k : SocketEntry}
    (hid : k.id = v.sockets.length) (hnew : k.name ∉ v.sockets.map (·.name))
    (hfits : v.SocketFits k) : (v.addSocket k).WellFormed := by
  have hgrows : Grows v (v.addSocket k) := Grows.refl.socket hid hnew hfits
  refine ⟨h.bean_id, fun i c hc => ?_, h.bean_names, nodup_concat_names h.socket_names hnew, ?_,
    fun n hn => ?_, fun n hn => ?_, fun n hn => ?_, fun b hb => (h.bean_fits b hb).grow hgrows,
    fun c hc => ?_⟩
  · rcases getElem?_concat_cases hc with hc | ⟨rfl, rfl⟩
    · exact h.socket_id i c hc
    · exact hid
  · rw [names_addSocket]
    exact h.module_names
  · obtain ⟨m, hm, rfl⟩ := List.mem_map.1 hn
    have hkind := h.module_kind m hm
    split <;> exact hkind
  · obtain ⟨m, hm, rfl⟩ := List.mem_map.1 hn
    have hlist := h.bean_list m hm
    split <;> simpa [Inventory.addSocket] using hlist
  · obtain ⟨m, hm, rfl⟩ := List.mem_map.1 hn
    have hlist := h.socket_list m hm
    by_cases heq : m.name = k.module
    · simp [Inventory.addSocket, heq, hlist, List.filter_append]
    · simp [Inventory.addSocket, heq, hlist, List.filter_append, Ne.symm heq]
  · rcases List.mem_append.1 hc with hc | hc
    · exact (h.socket_fits c hc).grow hgrows
    · rw [List.mem_singleton.1 hc]
      exact hfits.grow hgrows

theorem WellFormed.grow {v w : Inventory} (h : v.WellFormed) (hg : Grows v w) : w.WellFormed := by
  induction hg with
  | refl => exact h
  | module _ hkind hnew hbeans hsockets ih => exact ih.addModule hkind hnew hbeans hsockets
  | bean _ hid hnew hfits ih => exact ih.addBean hid hnew hfits
  | socket _ hid hnew hfits ih => exact ih.addSocket hid hnew hfits

end Wiring.Inventory
