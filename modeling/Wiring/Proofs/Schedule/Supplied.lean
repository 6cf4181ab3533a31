import Wiring.Proofs.Schedule.Order
import Wiring.Proofs.Inventory.Consistent

/-! How external sockets are shared out.  The least of the scheduled modules that import a module
has each external socket of it in its supply, once, and nobody else has it; where several modules
could fill a socket, that is found wrong.  Who fills the sockets of a module comes in a later level
than the module. -/

namespace Wiring

namespace Inventory

/-- The module imports the other and takes part in the schedule. -/
def MaySupply (v : Inventory) (n imported : Name) : Prop :=
  v.schedule.isScheduled n = true ∧ v.Imports n imported

/-- Several modules could fill the external sockets of the module. -/
def Contended (v : Inventory) (imported : Name) : Prop :=
  ∃ a b, a ≠ b ∧ v.MaySupply a imported ∧ v.MaySupply b imported

/-- What is found wrong where several modules could fill a socket; it names them in their order. -/
def contention (v : Inventory) (k : SocketEntry) : Finding :=
  .sharedSocket k.name (Name.list (v.schedule.scheduledImporters k.module))

/-- The external sockets of an inventory are shared out among the modules that import them. -/
structure SharedOut (v : Inventory) : Prop where
  /-- The least module that may fill an external socket has it once. -/
  supplied : ∀ m ∈ v.modules, ∀ k ∈ v.externalSockets m, ∀ n, v.LeastImporter n m.name →
    ((v.schedule.supply v).of n).count k.id = 1
  unsupplied : ∀ m ∈ v.modules, ∀ k ∈ v.externalSockets m, ∀ n, ¬ v.LeastImporter n m.name →
    k.id ∉ (v.schedule.supply v).of n
  external : ∀ n, ∀ id ∈ (v.schedule.supply v).of n,
    ∃ k ∈ v.sockets, k.id = id ∧ k.isExternal = true
  exists_supplier : ∀ m ∈ v.modules,
    ((∃ n, v.LeastImporter n m.name) ↔ ∃ n, v.MaySupply n m.name)
  supplier_unique : ∀ a b imported, v.LeastImporter a imported → v.LeastImporter b imported → a = b
  importers_sorted : ∀ m ∈ v.modules, (v.schedule.scheduledImporters m.name).Pairwise Name.Before ∧
    ∀ n, n ∈ v.schedule.scheduledImporters m.name ↔ v.MaySupply n m.name
  contended : ∀ m ∈ v.modules, ∀ k ∈ v.externalSockets m, v.Contended m.name →
    (v.schedule.shared v).filter (·.element = k.name) = [v.contention k]
  uncontended : ∀ m ∈ v.modules, ∀ k ∈ v.externalSockets m, ¬ v.Contended m.name →
    (v.schedule.shared v).filter (·.element = k.name) = []
  shared_only : ∀ f ∈ v.schedule.shared v, ∃ m ∈ v.modules, ∃ k ∈ v.externalSockets m,
    f = v.contention k
  later : ∀ n imported, v.HasModule imported → v.LeastImporter n imported →
    ∃ j k, j < k ∧ v.schedule.AtLevel imported j ∧ v.schedule.AtLevel n k

/-! ### Suppliers -/

theorem LeastImporter.unique {v : Inventory} {a b imported : Name} (ha : v.LeastImporter a imported)
    (hb : v.LeastImporter b imported) : a = b :=
  Name.le_antisymm (ha.least b hb.scheduled hb.imports) (hb.least a ha.scheduled ha.imports)

namespace WellFormed

variable {v : Inventory} (h : v.WellFormed)
include h

theorem mem_scheduledImporters_iff {m : ModuleEntry} (hm : m ∈ v.modules) {n : Name} :
    n ∈ v.schedule.scheduledImporters m.name ↔ v.MaySupply n m.name := by
  rw [h.mem_scheduledImporters (List.mem_map_of_mem hm), and_comm]
  rfl

theorem pairwise_scheduledImporters (imported : Name) :
    (v.schedule.scheduledImporters imported).Pairwise Name.Before := by
  have hd : ((v.dependents imported).mergeSort Name.ble).Nodup :=
    (List.mergeSort_perm _ _).nodup_iff.2 (h.nodup_dependents imported)
  rw [h.scheduledImporters_eq]
  exact ((Name.pairwise_mergeSort_ble id _).and hd).filter _

theorem exists_leastImporter_iff {m : ModuleEntry} (hm : m ∈ v.modules) :
    (∃ n, v.LeastImporter n m.name) ↔ ∃ n, v.MaySupply n m.name := by
  constructor
  · rintro ⟨n, hn⟩
    exact ⟨n, hn.scheduled, hn.imports⟩
  · rintro ⟨n, hn⟩
    have hmem := (h.mem_scheduledImporters_iff hm).2 hn
    cases hlist : v.schedule.scheduledImporters m.name with
    | nil => rw [hlist] at hmem; cases hmem
    | cons first rest =>
      refine ⟨first, (h.head?_scheduledImporters (List.mem_map_of_mem hm)).1 ?_⟩
      rw [hlist, List.head?_cons]

/-! ### Supplies -/

theorem nodup_of_supply (n : Name) : ((v.schedule.supply v).of n).Nodup := by
  rw [v.of_supply]
  refine List.Nodup.map_on (fun k hk l hl hid => ?_) (h.nodup_flatMap_externalSockets _)
  have hids := nodup_map_id h.socket_id
  exact List.inj_on_of_nodup_map hids (h.mem_suppliedTo.1 hk).1 (h.mem_suppliedTo.1 hl).1 hid

theorem mem_of_supply_iff {m : ModuleEntry} (hm : m ∈ v.modules) {k : SocketEntry}
    (hk : k ∈ v.externalSockets m) {n : Name} :
    k.id ∈ (v.schedule.supply v).of n ↔ v.LeastImporter n m.name := by
  obtain ⟨⟨hsocket, hmodule⟩, hexternal⟩ := (h.mem_externalSockets hm).1 hk
  rw [← h.head?_scheduledImporters (List.mem_map_of_mem hm), v.of_supply, List.mem_map, ← hmodule]
  constructor
  · rintro ⟨l, hl, hid⟩
    obtain ⟨hl, -, hhead⟩ := h.mem_suppliedTo.1 hl
    have heq : l = k := List.inj_on_of_nodup_map (nodup_map_id h.socket_id) hl hsocket hid
    rwa [heq] at hhead
  · intro hhead
    exact ⟨k, h.mem_suppliedTo.2 ⟨hsocket, hexternal, hhead⟩, rfl⟩

/-! ### Contended sockets -/

/-- A module is contended exactly if the list of those that may fill its sockets has more than one.
-/
theorem contended_iff {m : ModuleEntry} (hm : m ∈ v.modules) :
    1 < (v.schedule.scheduledImporters m.name).length ↔ v.Contended m.name := by
  have hsorted := h.pairwise_scheduledImporters m.name
  have hmem := fun n => h.mem_scheduledImporters_iff hm (n := n)
  unfold Contended
  simp only [← hmem]
  match hlist : v.schedule.scheduledImporters m.name with
  | [] => simp
  | [a] => simp
  | a :: b :: rest =>
    rw [hlist] at hsorted
    have hne : a ≠ b := ((List.pairwise_cons.1 hsorted).1 b List.mem_cons_self).2
    simp only [List.length_cons, List.mem_cons]
    refine ⟨fun _ => ⟨a, b, hne, .inl rfl, .inr (.inl rfl)⟩, fun _ => by omega⟩

/-- What is found about sockets that several modules could fill. -/
theorem shared_eq : v.schedule.shared v =
    ((v.modules.filter fun m => 1 < (v.schedule.scheduledImporters m.name).length).flatMap
      v.externalSockets).map v.contention := by
  have hall : ∀ ms ⊆ v.modules, ms.flatMap (v.schedule.sharedOf v) =
      ((ms.filter fun m => 1 < (v.schedule.scheduledImporters m.name).length).flatMap
        v.externalSockets).map v.contention := by
    intro ms hms
    induction ms with
    | nil => rfl
    | cons m ms ih =>
      have hrest := ih fun _ hm => hms (List.mem_cons_of_mem _ hm)
      rw [List.flatMap_cons, hrest, Schedule.sharedOf]
      split
      · next hmany =>
        have hfirst : (v.externalSockets m).map v.contention = (v.externalSockets m).map fun k =>
            .sharedSocket k.name (Name.list (v.schedule.scheduledImporters m.name)) := by
          refine List.map_congr_left fun k hk => ?_
          obtain ⟨⟨-, hmodule⟩, -⟩ := (h.mem_externalSockets (hms List.mem_cons_self)).1 hk
          rw [contention, hmodule]
        rw [List.filter_cons_of_pos (by simpa using hmany), List.flatMap_cons, List.map_append,
          hfirst]
      · next hone =>
        rw [List.filter_cons_of_neg (by simpa using hone), List.nil_append]
  exact hall v.modules (List.Subset.refl _)

/-- Of an external socket it is found once that several modules could fill it, if they could. -/
theorem filter_shared {m : ModuleEntry} (hm : m ∈ v.modules) {k : SocketEntry}
    (hk : k ∈ v.externalSockets m) :
    (v.schedule.shared v).filter (·.element = k.name) =
      if 1 < (v.schedule.scheduledImporters m.name).length then [v.contention k] else [] := by
  let many : ModuleEntry → Bool := fun m => 1 < (v.schedule.scheduledImporters m.name).length
  let sockets := (v.modules.filter many).flatMap v.externalSockets
  have hmem : ∀ {l}, l ∈ sockets → l ∈ v.sockets ∧ ∃ m' ∈ v.modules, many m' = true ∧
      l.module = m'.name := by
    intro l hl
    obtain ⟨m', hm', hl⟩ := List.mem_flatMap.1 hl
    obtain ⟨hm', hmany⟩ := List.mem_filter.1 hm'
    obtain ⟨⟨hl, hmodule⟩, -⟩ := (h.mem_externalSockets hm').1 hl
    exact ⟨hl, m', hm', hmany, hmodule⟩
  obtain ⟨⟨hsocket, hmodule⟩, -⟩ := (h.mem_externalSockets hm).1 hk
  have hfilter : (v.schedule.shared v).filter (·.element = k.name) =
      (sockets.filter (·.name = k.name)).map v.contention := by
    rw [h.shared_eq, List.filter_map]
    rfl
  rw [hfilter]
  split
  · next hmany =>
    have hthere : k ∈ sockets :=
      List.mem_flatMap.2 ⟨m, List.mem_filter.2 ⟨hm, by simpa [many] using hmany⟩, hk⟩
    have hd : (sockets.map (·.name)).Nodup :=
      (h.nodup_flatMap_externalSockets many).map_on fun l hl l' hl' =>
        h.socket_name_injective (hmem hl).1 (hmem hl').1
    rw [filter_key_eq_singleton hd hthere, List.map_singleton]
  · next hone =>
    rw [List.map_eq_nil_iff, List.filter_eq_nil_iff]
    intro l hl hname
    obtain ⟨hlsocket, m', hm', hmany, hin⟩ := hmem hl
    have heq : l = k := h.socket_name_injective hlsocket hsocket (of_decide_eq_true hname)
    have hname' : m'.name = m.name := by rw [← hin, heq, hmodule]
    rw [h.module_name_injective hm' hm hname'] at hmany
    exact hone (of_decide_eq_true hmany)

theorem sharedOut : v.SharedOut where
  supplied m hm k hk n hn :=
    List.count_eq_one_of_mem (h.nodup_of_supply n) ((h.mem_of_supply_iff hm hk).2 hn)
  unsupplied m hm k hk n hn := fun hid => hn ((h.mem_of_supply_iff hm hk).1 hid)
  external n id hid := by
    rw [v.of_supply] at hid
    obtain ⟨k, hk, rfl⟩ := List.mem_map.1 hid
    obtain ⟨hsocket, hexternal, -⟩ := h.mem_suppliedTo.1 hk
    exact ⟨k, hsocket, rfl, hexternal⟩
  exists_supplier m hm := h.exists_leastImporter_iff hm
  supplier_unique a b imported ha hb := ha.unique hb
  importers_sorted m hm :=
    ⟨h.pairwise_scheduledImporters m.name, fun n => h.mem_scheduledImporters_iff hm⟩
  contended m hm k hk hcontended := by
    rw [h.filter_shared hm hk, if_pos ((h.contended_iff hm).2 hcontended)]
  uncontended m hm k hk hcontended := by
    rw [h.filter_shared hm hk, if_neg fun hmany => hcontended ((h.contended_iff hm).1 hmany)]
  shared_only f hf := by
    rw [h.shared_eq] at hf
    obtain ⟨k, hk, rfl⟩ := List.mem_map.1 hf
    obtain ⟨m, hm, hk⟩ := List.mem_flatMap.1 hk
    exact ⟨m, (List.mem_filter.1 hm).1, k, hk, rfl⟩
  later n imported hmodule hn := by
    have hordered : n ∈ v.schedule.ordered := of_decide_eq_true hn.scheduled
    obtain ⟨k, hk⟩ := Schedule.mem_ordered_iff.1 hordered
    obtain ⟨j, hlt, hj⟩ := h.exists_earlier hk ⟨hn.imports, hmodule⟩
    exact ⟨j, k, hlt, hj, hk⟩

end WellFormed

end Inventory

/-- The external sockets of every graph are shared out: each goes to the least scheduled module that
imports the module it belongs to, if there is one, and to no other. -/
theorem Graph.sharedOut_survey (g : Graph) (known : KnownTypes) :
    (g.survey known).inventory.SharedOut :=
  (g.survey_wellFormed known).sharedOut

end Wiring
