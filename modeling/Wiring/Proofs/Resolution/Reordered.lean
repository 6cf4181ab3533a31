import Wiring.Proofs.Inventory.Reordered
import Wiring.Proofs.Resolution.Alike
import Wiring.Proofs.Resolution.Collected
import Wiring.Proofs.Subtyping

/-! The order of declarations.  Where types have distinct names and no declaration is found to be a
duplicate, a graph is resolved alike however its declarations are ordered: sorting takes out of the
plan and of the findings what numbers and lists have brought into them. -/

namespace Wiring

/-- The resolutions of reordered graphs start from the same entries. -/
theorem Graph.Reordered.alike {g g' : Graph} (h : g.Reordered g') (settings : ResolverSettings)
    (htypes : (g.types.map (·.name)).Nodup)
    (hdistinct : (g.survey settings.knownTypes).Distinct) :
    (Resolution.ofGraph settings g).Alike (Resolution.ofGraph settings g') where
  settings := rfl
  known := rfl
  accepts := Hierarchy.accepts_eq (Hierarchy.find?_eq_of_perm h.types_perm htypes) rfl
  inventory := Survey.alike_of_has (h.has_iff hdistinct)
  declared := h.mem_findings_iff hdistinct

/-- Where type declarations have distinct names and no declaration is found to be a duplicate, the
order of types, of modules, of beans, of sockets, of nested beans and of imports makes no difference
to a resolution: the plan, the diagnostics in their order and the summary are the same. -/
theorem resolve_reordered [PatternEngine] (g g' : Graph) (settings : ResolverSettings)
    (time : String) (htypes : (g.types.map (·.name)).Nodup)
    (hdistinct : ∀ element kind,
      .duplicateName element kind ∉ (g.survey settings.knownTypes).findings)
    (h : g.Reordered g') : g'.resolve settings time = g.resolve settings time := by
  have halike := h.alike settings htypes hdistinct
  have hs := Resolution.sound_ofGraph settings g
  have hs' := Resolution.sound_ofGraph settings g'
  have hplan := halike.plan_eq hs hs'
  have hfindings := Finding.snapshot_eq_of_mem_iff (Resolution.keyed_findings settings g) fun _ =>
    halike.mem_findings_iff hs hs'
  show Report.of time (Resolution.ofGraph settings g').plan
      (Finding.snapshot (Resolution.ofGraph settings g').findings) = _
  rw [← hplan, ← hfindings]
  rfl

namespace Sample

def bolt : TypeDeclaration := ⟨"Bolt", [], []⟩

def nut : TypeDeclaration := ⟨"Nut", [], []⟩

def boltSocket : Socket := { name := "bolt", required := .declared "Bolt" [] }

def nutSocket : Socket := { name := "nut", required := .declared "Nut" [] }

def assembly (sockets : List Socket) : Bean :=
  { name := "part", kind := .module (.declared "Part" []) sockets }

def bench (imports : List Name) (sockets : List Socket) : Module :=
  { name := .module shop, beans := [assembly sockets], imports }

def toolModule : Module :=
  { name := .module base, beans := [.ofType "bolt" (.declared "Bolt" [])] }

/-- The bench finds a bolt and no nut, and imports a module that does not exist. -/
def assembled : Graph :=
  ⟨[bolt, nut], [toolModule, bench [.module base, .module slot] [boltSocket, nutSocket]]⟩

def reassembled : Graph :=
  ⟨[nut, bolt], [bench [.module slot, .module base] [nutSocket, boltSocket], toolModule]⟩

theorem reordered_assembled : assembled.Reordered reassembled := by
  have hinside : ∀ {m m' : Module}, m.Reorders m' →
      Graph.Reorders ⟨[nut, bolt], [toolModule, m]⟩ ⟨[nut, bolt], [toolModule, m']⟩ := fun h =>
    .modules ⟨[nut, bolt], []⟩ (@Reorders.inside _ _ _ _ [toolModule] [] h)
  have htypes : assembled.Reorders ⟨[nut, bolt], assembled.modules⟩ :=
    .types assembled (.swap nut bolt [])
  have himports : Module.Reorders (bench [.module base, .module slot] [boltSocket, nutSocket])
      (bench [.module slot, .module base] [boltSocket, nutSocket]) :=
    .imports (bench [] [boltSocket, nutSocket]) (.swap (Name.module slot) (Name.module base) [])
  have hsockets : Bean.Reorders (assembly [boltSocket, nutSocket])
      (assembly [nutSocket, boltSocket]) :=
    .sockets (assembly []) (.declared "Part" []) (.swap nutSocket boltSocket [])
  have hbeans : Module.Reorders (bench [.module slot, .module base] [boltSocket, nutSocket])
      (bench [.module slot, .module base] [nutSocket, boltSocket]) :=
    .beans (bench [.module slot, .module base] []) (@Reorders.inside _ _ _ _ [] [] hsockets)
  have hmodules : Graph.Reorders
      ⟨[nut, bolt], [toolModule, bench [.module slot, .module base] [nutSocket, boltSocket]]⟩
      reassembled :=
    .modules ⟨[nut, bolt], []⟩ (.order (.swap _ _ []))
  exact (((Relation.ReflTransGen.single htypes).tail (hinside himports)).tail
    (hinside hbeans)).tail hmodules

end Sample

/-- The assembly is resolved alike from either list of types, of imports, of sockets, of modules. -/
theorem resolve_reordered_assembled : letI := Sample.engine
    Sample.reassembled.resolve {} "" = Sample.assembled.resolve {} "" ∧
      (Sample.assembled.resolve {} "").plan.size = 2 := by
  let _ := Sample.engine
  have hdistinct : ∀ element kind,
      .duplicateName element kind ∉ (Sample.assembled.survey {}).findings := by
    intro element kind hf
    have hnone : (Sample.assembled.survey {}).findings = [] := by decide +kernel
    rw [hnone] at hf
    cases hf
  refine ⟨resolve_reordered Sample.assembled Sample.reassembled {} "" (by decide) hdistinct
    Sample.reordered_assembled, ?_⟩
  decide +kernel

end Wiring
