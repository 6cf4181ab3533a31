import Wiring.Proofs.Inventory.Survey
import Wiring.Proofs.Plan
import Wiring.Proofs.Schedule.Supply
import Wiring.Proofs.Selection
import Wiring.Report

/-! Which sockets are planned.  The passes and the sockets that are left to be filled at run time
share out the sockets of all modules that are not blocked, so the plan has one entry for each of
these and no others, and no entry is put over another. -/

namespace Wiring

namespace Resolution

def passOf (r : Resolution) (m : ModuleEntry) : Pass :=
  ⟨r.inventory, r.hierarchy, m, (DirectiveStore.ofList m.directives).1⟩

/-- The sockets that a module's pass resolves. -/
def passSockets (r : Resolution) (m : ModuleEntry) : List SocketEntry :=
  r.inventory.passSockets m (r.supply.of m.name)

/-- The sockets of all passes in their order. -/
def resolved (r : Resolution) : List SocketEntry := r.scheduled.flatMap r.passSockets

section

variable [PatternEngine]

/-- The entries that are put into the plan, in that order. -/
def written (r : Resolution) : List PlanEntry :=
  (r.scheduled.flatMap fun m => (r.pass m).1) ++ r.runtimeSockets.map r.runtimeEntry

theorem pass_fst (r : Resolution) (m : ModuleEntry) :
    (r.pass m).1 = (r.passSockets m).map (r.passOf m).entry := rfl

theorem plan_eq (r : Resolution) : r.plan = Plan.insertAll {} r.written := by
  unfold plan passPlan written Plan.insertAll
  rw [List.foldl_append]

theorem mem_findings_of_pass {r : Resolution} {m : ModuleEntry} (hm : m ∈ r.scheduled)
    {f : Finding} (hf : f ∈ (r.pass m).2) : f ∈ r.findings := by
  have hmem : f ∈ r.passFindings := List.mem_flatMap.2 ⟨m, hm, hf⟩
  simp [findings, hmem]

end

/-- The resolution is of a well-formed inventory by its own schedule. -/
structure Sound (r : Resolution) : Prop where
  wellFormed : r.inventory.WellFormed
  schedule : r.schedule = r.inventory.schedule

theorem sound_ofGraph (settings : ResolverSettings) (g : Graph) : (ofGraph settings g).Sound :=
  ⟨g.survey_wellFormed settings.knownTypes, rfl⟩

namespace Sound

variable {r : Resolution} (h : r.Sound)
include h

/-! ### Passes -/

theorem mem_scheduled {m : ModuleEntry} :
    m ∈ r.scheduled ↔ m ∈ r.inventory.modules ∧ m.name ∈ r.schedule.ordered := by
  simp only [scheduled, List.mem_filterMap, h.wellFormed.module?_eq_some_iff]
  constructor
  · rintro ⟨_, hn, hm, rfl⟩
    exact ⟨hm, hn⟩
  · rintro ⟨hm, hn⟩
    exact ⟨m.name, hn, hm, rfl⟩

theorem pairwise_scheduled : r.scheduled.Pairwise fun a b => a.name ≠ b.name := by
  have hd : r.schedule.ordered.Nodup := by
    rw [h.schedule]
    exact h.wellFormed.nodup_ordered
  refine List.Pairwise.filterMap _ (fun a b hne m hm m' hm' heq => hne ?_) hd
  obtain ⟨_, rfl⟩ := h.wellFormed.module?_eq_some_iff.1 hm
  obtain ⟨_, rfl⟩ := h.wellFormed.module?_eq_some_iff.1 hm'
  exact heq

theorem mem_passSockets {m : ModuleEntry} (hm : m ∈ r.inventory.modules) {k : SocketEntry} :
    k ∈ r.passSockets m ↔ k ∈ r.inventory.sockets ∧ r.schedule.resolver? k = some m.name := by
  rw [passSockets, supply, h.schedule]
  exact h.wellFormed.mem_passSockets hm

theorem mem_resolved {k : SocketEntry} :
    k ∈ r.resolved ↔ k ∈ r.inventory.sockets ∧
      ∃ m ∈ r.inventory.modules, m.name ∈ r.schedule.ordered ∧
        r.schedule.resolver? k = some m.name := by
  rw [resolved, List.mem_flatMap]
  constructor
  · rintro ⟨m, hm, hk⟩
    obtain ⟨hm, hn⟩ := h.mem_scheduled.1 hm
    obtain ⟨hk, hresolver⟩ := (h.mem_passSockets hm).1 hk
    exact ⟨hk, m, hm, hn, hresolver⟩
  · rintro ⟨hk, m, hm, hn, hresolver⟩
    exact ⟨m, h.mem_scheduled.2 ⟨hm, hn⟩, (h.mem_passSockets hm).2 ⟨hk, hresolver⟩⟩

/-- No socket is resolved twice: each has one resolver, and a pass has no socket twice. -/
theorem nodup_resolved : r.resolved.Nodup := by
  rw [resolved, List.nodup_flatMap]
  refine ⟨fun m hm => ?_, h.pairwise_scheduled.imp_of_mem fun {a b} ha hb hne => ?_⟩
  · rw [passSockets, supply, h.schedule]
    exact h.wellFormed.nodup_passSockets (h.mem_scheduled.1 hm).1
  · intro k hka hkb
    have hra := ((h.mem_passSockets (h.mem_scheduled.1 ha).1).1 hka).2
    have hrb := ((h.mem_passSockets (h.mem_scheduled.1 hb).1).1 hkb).2
    exact hne (Option.some.inj (hra.symm.trans hrb))

theorem not_mem_blocked {k : SocketEntry} {n : Name} (hk : k ∈ r.inventory.sockets)
    (hresolver : r.schedule.resolver? k = some n) (hn : n ∈ r.schedule.ordered) :
    k.module ∉ r.schedule.blocked := by
  have hmodule := h.wellFormed.socket_hasModule hk
  rw [h.schedule] at hresolver hn ⊢
  suffices hordered : k.module ∈ r.inventory.schedule.ordered from
    (h.wellFormed.mem_ordered_iff.1 hordered).2
  unfold Schedule.resolver? at hresolver
  split at hresolver
  · have himporter := (h.wellFormed.head?_scheduledImporters hmodule).1 hresolver
    exact h.wellFormed.isScheduled_of_imports hmodule himporter.imports himporter.scheduled
  · cases hresolver
    exact hn

theorem exists_resolver {k : SocketEntry} {n : Name} (hk : k ∈ r.inventory.sockets)
    (hblocked : k.module ∉ r.schedule.blocked) (hresolver : r.schedule.resolver? k = some n) :
    ∃ m ∈ r.inventory.modules, m.name = n ∧ n ∈ r.schedule.ordered := by
  have hmodule := h.wellFormed.socket_hasModule hk
  rw [h.schedule] at hblocked hresolver ⊢
  have hn : n ∈ r.inventory.schedule.ordered := by
    unfold Schedule.resolver? at hresolver
    split at hresolver
    · have himporter := (h.wellFormed.head?_scheduledImporters hmodule).1 hresolver
      exact of_decide_eq_true himporter.scheduled
    · cases hresolver
      exact h.wellFormed.mem_ordered_iff.2 ⟨hmodule, hblocked⟩
  obtain ⟨m, hm, hname, _⟩ := h.wellFormed.exists_module (h.wellFormed.mem_ordered_iff.1 hn).1
  exact ⟨m, hm, hname, hn⟩

/-! ### Sockets for run time -/

section

variable [PatternEngine]

theorem contains_passPlan {k : SocketEntry} (hk : k ∈ r.inventory.sockets) :
    r.passPlan.contains k.name = true ↔ k ∈ r.resolved := by
  have hsub : r.resolved ⊆ r.inventory.sockets := fun k hk => (h.mem_resolved.1 hk).1
  have hnames : (r.scheduled.flatMap fun m => (r.pass m).1).map (·.socket) =
      r.resolved.map (·.name) := by
    rw [resolved, List.map_flatMap, List.map_flatMap]
    refine List.flatMap_congr fun m _ => ?_
    exact List.map_map
  have hd : (r.resolved.map (·.name)).Nodup :=
    h.nodup_resolved.map_on fun k hk l hl => h.wellFormed.socket_name_injective (hsub hk) (hsub hl)
  rw [passPlan, Plan.contains_insertAll (hnames ▸ hd), hnames, List.mem_map]
  constructor
  · rintro ⟨l, hl, hname⟩
    rwa [← h.wellFormed.socket_name_injective (hsub hl) hk hname]
  · intro hk
    exact ⟨k, hk, rfl⟩

theorem mem_runtimeSockets {k : SocketEntry} :
    k ∈ r.runtimeSockets ↔ k ∈ r.inventory.sockets ∧ k.module ∉ r.schedule.blocked ∧
      r.schedule.resolver? k = none := by
  simp only [runtimeSockets, List.mem_flatMap, List.mem_filter, decide_eq_true_iff,
    Bool.not_eq_true']
  constructor
  · rintro ⟨m, ⟨hm, hblocked⟩, hk, hplanned⟩
    obtain ⟨⟨hk, hmodule⟩, hexternal⟩ := (h.wellFormed.mem_externalSockets hm).1 hk
    refine ⟨hk, hmodule ▸ hblocked, Option.eq_none_iff_forall_ne_some.2 fun n hn => ?_⟩
    obtain ⟨importer, himporter, rfl, hscheduled⟩ :=
      h.exists_resolver hk (hmodule ▸ hblocked) hn
    have hresolved := h.mem_resolved.2 ⟨hk, importer, himporter, hscheduled, hn⟩
    rw [(h.contains_passPlan hk).2 hresolved] at hplanned
    cases hplanned
  · rintro ⟨hk, hblocked, hresolver⟩
    obtain ⟨m, hm, hname, _⟩ := h.wellFormed.exists_module (h.wellFormed.socket_hasModule hk)
    have hexternal : k.isExternal = true := by
      by_contra hown
      rw [Schedule.resolver?, if_neg hown] at hresolver
      cases hresolver
    refine ⟨m, ⟨hm, hname ▸ hblocked⟩,
      (h.wellFormed.mem_externalSockets hm).2 ⟨⟨hk, hname.symm⟩, hexternal⟩, ?_⟩
    rw [← Bool.not_eq_true, h.contains_passPlan hk]
    intro hresolved
    obtain ⟨_, m', _, _, hsome⟩ := h.mem_resolved.1 hresolved
    rw [hresolver] at hsome
    cases hsome

theorem nodup_runtimeSockets : r.runtimeSockets.Nodup := by
  unfold runtimeSockets
  rw [← List.filter_flatMap]
  exact (h.wellFormed.nodup_flatMap_externalSockets _).filter _

/-! ### Entries -/

/-- Every entry is that of a socket in the pass of its resolver, or of one that has no resolver. -/
theorem mem_written {e : PlanEntry} :
    e ∈ r.written ↔
      (∃ m ∈ r.inventory.modules, ∃ k ∈ r.inventory.sockets, m.name ∈ r.schedule.ordered ∧
        r.schedule.resolver? k = some m.name ∧ e = (r.passOf m).entry k) ∨
      ∃ k ∈ r.inventory.sockets, k.module ∉ r.schedule.blocked ∧
        r.schedule.resolver? k = none ∧ e = r.runtimeEntry k := by
  simp only [written, pass_fst, List.mem_append, List.mem_flatMap, List.mem_map,
    h.mem_runtimeSockets]
  constructor
  · rintro (⟨m, hm, k, hk, rfl⟩ | ⟨k, ⟨hk, hblocked, hresolver⟩, rfl⟩)
    · obtain ⟨hm, hn⟩ := h.mem_scheduled.1 hm
      obtain ⟨hk, hresolver⟩ := (h.mem_passSockets hm).1 hk
      exact .inl ⟨m, hm, k, hk, hn, hresolver, rfl⟩
    · exact .inr ⟨k, hk, hblocked, hresolver, rfl⟩
  · rintro (⟨m, hm, k, hk, hn, hresolver, rfl⟩ | ⟨k, hk, hblocked, hresolver, rfl⟩)
    · exact .inl ⟨m, h.mem_scheduled.2 ⟨hm, hn⟩, k, (h.mem_passSockets hm).2 ⟨hk, hresolver⟩, rfl⟩
    · exact .inr ⟨k, ⟨hk, hblocked, hresolver⟩, rfl⟩

omit h in
theorem sockets_written (r : Resolution) :
    r.written.map (·.socket) = (r.resolved ++ r.runtimeSockets).map (·.name) := by
  rw [written, resolved, List.map_append, List.map_append, List.map_flatMap, List.map_flatMap,
    List.map_map]
  refine congrArg (· ++ _) (List.flatMap_congr fun m _ => ?_)
  exact List.map_map

theorem nodup_written : (r.written.map (·.socket)).Nodup := by
  have hsub : r.resolved ++ r.runtimeSockets ⊆ r.inventory.sockets := by
    intro k hk
    rcases List.mem_append.1 hk with hk | hk
    · exact (h.mem_resolved.1 hk).1
    · exact (h.mem_runtimeSockets.1 hk).1
  have hd : (r.resolved ++ r.runtimeSockets).Nodup := by
    refine List.nodup_append.2 ⟨h.nodup_resolved, h.nodup_runtimeSockets, ?_⟩
    rintro k hk _ hk' rfl
    obtain ⟨_, m, _, _, hsome⟩ := h.mem_resolved.1 hk
    rw [(h.mem_runtimeSockets.1 hk').2.2] at hsome
    cases hsome
  rw [sockets_written]
  exact hd.map_on fun k hk l hl => h.wellFormed.socket_name_injective (hsub hk) (hsub hl)

theorem get?_plan_eq_some_iff {n : Name} {e : PlanEntry} :
    r.plan.get? n = some e ↔ e ∈ r.written ∧ e.socket = n := by
  rw [plan_eq]
  exact Plan.get?_insertAll_eq_some_iff h.nodup_written

theorem mem_plan {e : PlanEntry} : e ∈ r.plan.toList ↔ e ∈ r.written := by
  rw [plan_eq]
  exact Plan.mem_toList_insertAll h.nodup_written

/-- Every socket of a module that is not blocked has an entry. -/
theorem exists_written {k : SocketEntry} (hk : k ∈ r.inventory.sockets)
    (hblocked : k.module ∉ r.schedule.blocked) :
    ∃ e ∈ r.written, e.socket = k.name ∧ e.origin = k.origin ∧
      e.resolvedIn? = r.schedule.resolver? k ∧
      (e.resolvedIn? = none → e.outcome = .unresolved) := by
  cases hresolver : r.schedule.resolver? k with
  | none =>
    have hwritten := h.mem_written.2 (.inr ⟨k, hk, hblocked, hresolver, rfl⟩)
    exact ⟨r.runtimeEntry k, hwritten, rfl, rfl, rfl, fun _ => rfl⟩
  | some n =>
    obtain ⟨m, hm, rfl, hn⟩ := h.exists_resolver hk hblocked hresolver
    have hwritten := h.mem_written.2 (.inl ⟨m, hm, k, hk, hn, hresolver, rfl⟩)
    exact ⟨(r.passOf m).entry k, hwritten, rfl, rfl, rfl, fun hnone => by cases hnone⟩

/-- The plan has the sockets of the modules that are not blocked. -/
theorem contains_plan_iff {n : Name} :
    r.plan.contains n = true ↔
      ∃ k ∈ r.inventory.sockets, k.name = n ∧ k.module ∉ r.schedule.blocked := by
  constructor
  · intro hn
    obtain ⟨e, hsome⟩ := Option.isSome_iff_exists.1 hn
    obtain ⟨he, rfl⟩ := h.get?_plan_eq_some_iff.1 hsome
    rcases h.mem_written.1 he with ⟨m, _, k, hk, hm, hresolver, rfl⟩ | ⟨k, hk, hblocked, _, rfl⟩
    · exact ⟨k, hk, rfl, h.not_mem_blocked hk hresolver hm⟩
    · exact ⟨k, hk, rfl, hblocked⟩
  · rintro ⟨k, hk, rfl, hblocked⟩
    obtain ⟨e, he, hname, _⟩ := h.exists_written hk hblocked
    exact Option.isSome_iff_exists.2 ⟨e, h.get?_plan_eq_some_iff.2 ⟨he, hname⟩⟩

end

/-- A socket is resolved by its module, by its least scheduled importer, or by none. -/
theorem resolver?_cases {k : SocketEntry} (hk : k ∈ r.inventory.sockets) :
    (k.origin = .beanSocket → r.schedule.resolver? k = some k.module) ∧
    (k.origin ≠ .beanSocket →
      (∃ n, r.inventory.LeastImporter n k.module ∧ r.schedule.resolver? k = some n) ∨
      ((∀ n, r.schedule.isScheduled n = true → ¬ r.inventory.Imports n k.module) ∧
        r.schedule.resolver? k = none)) := by
  have hmodule := h.wellFormed.socket_hasModule hk
  rw [h.schedule]
  constructor
  · intro hbean
    have hown : ¬ k.isExternal = true := fun hexternal =>
      SocketEntry.isExternal_iff.1 hexternal hbean
    rw [Schedule.resolver?, if_neg hown]
  · intro hbean
    rw [Schedule.resolver?, if_pos (SocketEntry.isExternal_iff.2 hbean)]
    cases hhead : (r.inventory.schedule.scheduledImporters k.module).head? with
    | some n =>
      exact .inl ⟨n, (h.wellFormed.head?_scheduledImporters hmodule).1 hhead, rfl⟩
    | none =>
      exact .inr ⟨(h.wellFormed.head?_scheduledImporters_eq_none hmodule).1 hhead, rfl⟩

end Sound

end Resolution

/-- The plan has exactly the sockets of modules that are not blocked, each under its own name.  A
bean's own socket is resolved in its module, an external one in the least scheduled importer, or not
at all if there is none.  Each entry is written once, and nothing written later replaces it. -/
theorem plan_covers [PatternEngine] (g : Graph) (settings : ResolverSettings) (time : String) :
    let v := (g.survey settings.knownTypes).inventory
    let plan := (g.resolve settings time).plan
    let written := (Resolution.ofGraph settings g).written
    (∀ n, plan.contains n = true ↔
      ∃ k ∈ v.sockets, k.name = n ∧ k.module ∉ v.schedule.blocked) ∧
    (plan.entries.map (·.1)).Nodup ∧ (∀ n e, (n, e) ∈ plan.entries → e.socket = n) ∧
    (∀ k ∈ v.sockets, k.module ∉ v.schedule.blocked →
      (written.map (·.socket)).count k.name = 1 ∧
      ∃ e, plan.get? k.name = some e ∧ e.origin = k.origin ∧
        (k.origin = .beanSocket → e.resolvedIn? = some k.module) ∧
        (k.origin ≠ .beanSocket →
          (∃ n, v.LeastImporter n k.module ∧ e.resolvedIn? = some n) ∨
          ((∀ n, v.schedule.isScheduled n = true → ¬ v.Imports n k.module) ∧
            e.resolvedIn? = none ∧ e.outcome = .unresolved))) ∧
    plan = Plan.insertAll {} written ∧ ∀ e ∈ written, plan.get? e.socket = some e := by
  intro v plan written
  have h := Resolution.sound_ofGraph settings g
  have hget : ∀ {n e}, plan.get? n = some e ↔ e ∈ written ∧ e.socket = n := h.get?_plan_eq_some_iff
  have hsorted : Plan.Sorted plan.entries := by
    show Plan.Sorted (Resolution.plan _).entries
    rw [Resolution.plan_eq]
    exact Plan.sorted_insertAll (p := {}) List.Pairwise.nil _
  refine ⟨fun _ => h.contains_plan_iff, hsorted.nodup, fun n e hmem => ?_,
    fun k hk hblocked => ⟨?_, ?_⟩, Resolution.plan_eq _, fun e he => hget.2 ⟨he, rfl⟩⟩
  · exact (hget.1 ((lookup_eq_some_iff_mem hsorted.nodup).2 hmem)).2
  · obtain ⟨e, he, hname, _⟩ := h.exists_written hk hblocked
    exact List.count_eq_one_of_mem h.nodup_written (List.mem_map.2 ⟨e, he, hname⟩)
  · obtain ⟨e, he, hname, horigin, hresolved, hunresolved⟩ := h.exists_written hk hblocked
    obtain ⟨hown, hexternal⟩ := h.resolver?_cases hk
    refine ⟨e, hget.2 ⟨he, hname⟩, horigin, fun hbean => hresolved.trans (hown hbean),
      fun hbean => ?_⟩
    rcases hexternal hbean with ⟨n, hleast, hn⟩ | ⟨hnone, hn⟩
    · exact .inl ⟨n, hleast, hresolved.trans hn⟩
    · exact .inr ⟨hnone, hresolved.trans hn, hunresolved (hresolved.trans hn)⟩

namespace Sample

def base : Path := ⟨⟨"base", by decide⟩, []⟩

def shop : Path := ⟨⟨"shop", by decide⟩, []⟩

def slot : Path := ⟨⟨"slot", by decide⟩, []⟩

def part : Path := ⟨⟨"part", by decide⟩, []⟩

def slotDeclared : Socket :=
  { name := "slot", required := .declared "Part" [], selectors := [.nameMatches "part"] }

/-- A module with a socket bean, and one that imports it and has a bean that the selector of the
socket accepts. -/
def supplied : Graph :=
  { modules :=
      [{ name := .module base
         beans := [.ofSocket slotDeclared] },
       { name := .module shop
         beans := [.ofType "part" (.declared "Part" [])]
         imports := [.module base] }] }

def slotBean : BeanEntry :=
  ⟨0, .bean base slot, .module base, .declared "Part" [], .importers, .singleton, [], .socket,
    false⟩

def partBean : BeanEntry :=
  ⟨1, .bean shop part, .module shop, .declared "Part" [], .importers, .singleton, [], .module,
    true⟩

def slotSocket : SocketEntry :=
  { id := 0
    name := .bean base slot
    owner := 0
    module := .module base
    origin := .socketBean
    socket := slotDeclared }

def baseModule : ModuleEntry :=
  { name := .module base, imports := [], beans := [0], sockets := [0], directives := [] }

def shopModule : ModuleEntry :=
  { name := .module shop, imports := [.module base], beans := [1], directives := [] }

/-- The beans and sockets of `supplied`. -/
def inventory : Inventory :=
  { beans := [slotBean, partBean]
    beanIndex := [(.bean base slot, 0), (.bean shop part, 1)]
    sockets := [slotSocket]
    socketIndex := [(.bean base slot, 0)]
    modules := [baseModule, shopModule] }

theorem survey_supplied : supplied.survey {} = ⟨inventory, []⟩ := rfl

end Sample

theorem plan_covers_supplied : letI := Sample.engine
    ∃ e, (Sample.supplied.resolve {} "").plan.get? (.bean Sample.base Sample.slot) = some e ∧
      e.origin = .socketBean ∧ e.resolvedIn? = some (.module Sample.shop) := by
  obtain ⟨_, _, _, hresolved, _⟩ := @plan_covers Sample.engine Sample.supplied {} ""
  rw [Sample.survey_supplied] at hresolved
  obtain ⟨_, e, he, horigin, _, hexternal⟩ :=
    hresolved Sample.slotSocket List.mem_cons_self (by decide +kernel)
  refine ⟨e, he, horigin, ?_⟩
  rcases hexternal (by decide) with ⟨n, hleast, hn⟩ | ⟨hnone, _⟩
  · obtain ⟨_, m, hm, rfl, hi⟩ := hleast.imports
    rcases List.mem_cons.1 hm with rfl | hm
    · cases hi
    · rw [hn, List.mem_singleton.1 hm]
      rfl
  · refine absurd ?_ (hnone (.module Sample.shop) (by decide +kernel))
    exact ⟨by decide, Sample.shopModule, List.mem_cons_of_mem _ List.mem_cons_self, rfl,
      List.mem_cons_self⟩

end Wiring
