import Wiring.Proofs.Schedule.Levels

/-! Counting imports one by one.  Each import that counts adds one to the number of its importer,
and puts the importer on the list of those that wait for the imported module; a module's import of
itself, of a module that does not exist or of one that it has imported before is passed over.  When
all have been gone through, the numbers and the lists are those with which the levels begin. -/

namespace Wiring

/-- Modules with the numbers of imports that they wait for, and for each module those that wait for
it. -/
structure ImportTally where
  pending : Pending
  dependents : Name → List Name

namespace ImportTally

def start (v : Inventory) : ImportTally where
  pending := v.modules.map fun m => (m.name, 0)
  dependents _ := []

/-- One more import that a module waits for. -/
def add (t : ImportTally) (importer imported : Name) : ImportTally where
  pending := t.pending.map fun (n, k) => (n, if n = importer then k + 1 else k)
  dependents n := if n = imported then t.dependents n ++ [importer] else t.dependents n

/-- Goes through imports of a module, some of which may have been seen before. -/
def addImports (v : Inventory) (importer : Name) (t : ImportTally) (seen : List Name) :
    List Name → ImportTally
  | [] => t
  | i :: rest =>
    if i = importer then addImports v importer t seen rest
    else if (v.module? i).isNone then addImports v importer t seen rest
    else if i ∈ seen then addImports v importer t seen rest
    else addImports v importer (t.add importer i) (i :: seen) rest

def addModule (v : Inventory) (t : ImportTally) (m : ModuleEntry) : ImportTally :=
  t.addImports v m.name [] m.imports

end ImportTally

/-- The tally of all imports. -/
def Inventory.importTally (v : Inventory) : ImportTally :=
  v.modules.foldl (ImportTally.addModule v) (.start v)

namespace ImportTally

/-! ### One module -/

/-- Of the imports only the known ones count, each of them once. -/
theorem addImports_eq (v : Inventory) (importer : Name) (t : ImportTally)
    (seen imports : List Name) :
    t.addImports v importer seen imports =
      ((imports.filter fun i => (i ≠ importer && (v.module? i).isSome) && i ∉ seen).eraseDups).foldl
        (fun t i => t.add importer i) t := by
  fun_induction addImports v importer t seen imports with
  | case1 t seen => rfl
  | case2 t seen rest ih => rw [ih, List.filter_cons_of_neg (by simp)]
  | case3 t seen i rest hself hunknown ih =>
    rw [Option.isNone_iff_eq_none] at hunknown
    rw [ih, List.filter_cons_of_neg (by simp [hunknown])]
  | case4 t seen i rest hself hknown hseen ih =>
    rw [ih, List.filter_cons_of_neg (by simp [hseen])]
  | case5 t seen i rest hself hknown hfresh ih =>
    rw [Bool.not_eq_true, Option.isNone_eq_false_iff] at hknown
    rw [ih, List.filter_cons_of_pos (by simp [hself, hknown, hfresh]), List.eraseDups_cons,
      List.foldl_cons, List.filter_filter]
    -- what is left out as a repetition is what has been seen by now
    refine congrArg (fun is => List.foldl _ _ (List.eraseDups is)) (List.filter_congr fun j _ => ?_)
    by_cases hij : j = i <;> simp [hij]

theorem addModule_eq (v : Inventory) (t : ImportTally) (m : ModuleEntry) :
    t.addModule v m = (v.knownImports m).foldl (fun t i => t.add m.name i) t := by
  rw [addModule, addImports_eq]
  simp [Inventory.knownImports]

theorem pending_foldl_add (importer : Name) (imports : List Name) (t : ImportTally) :
    (imports.foldl (fun t i => t.add importer i) t).pending =
      t.pending.map fun (n, k) => (n, if n = importer then k + imports.length else k) := by
  induction imports generalizing t with
  | nil => simp
  | cons i rest ih =>
    rw [List.foldl_cons, ih, add, List.map_map]
    refine List.map_congr_left fun (n, k) _ => ?_
    by_cases hn : n = importer
    · simp only [Function.comp_apply, if_pos hn, List.length_cons, Prod.mk.injEq, true_and]
      omega
    · simp only [Function.comp_apply, if_neg hn]

theorem dependents_foldl_add (importer : Name) {imports : List Name} (hd : imports.Nodup)
    (t : ImportTally) (n : Name) :
    (imports.foldl (fun t i => t.add importer i) t).dependents n =
      t.dependents n ++ if n ∈ imports then [importer] else [] := by
  induction imports generalizing t with
  | nil => simp
  | cons i rest ih =>
    obtain ⟨hi, hrest⟩ := List.nodup_cons.1 hd
    rw [List.foldl_cons, ih hrest, add]
    by_cases hn : n = i
    · subst hn
      simp [hi]
    · simp [hn]

/-! ### All modules -/

theorem pending_foldl_addModule (v : Inventory) (ms : List ModuleEntry) (t : ImportTally) :
    (ms.foldl (addModule v) t).pending = t.pending.map fun (n, k) =>
      (n, k + ((ms.filter (·.name = n)).flatMap v.knownImports).length) := by
  induction ms generalizing t with
  | nil => simp
  | cons m rest ih =>
    rw [List.foldl_cons, ih, addModule_eq, pending_foldl_add, List.map_map]
    refine List.map_congr_left fun (n, k) _ => ?_
    by_cases hn : n = m.name
    · simp [hn, Nat.add_assoc]
    · simp [hn, Ne.symm hn]

theorem dependents_foldl_addModule (v : Inventory) (ms : List ModuleEntry) (t : ImportTally)
    (n : Name) :
    (ms.foldl (addModule v) t).dependents n =
      t.dependents n ++ (ms.filter fun m => n ∈ v.knownImports m).map (·.name) := by
  induction ms generalizing t with
  | nil => simp
  | cons m rest ih =>
    rw [List.foldl_cons, ih, addModule_eq, dependents_foldl_add _ (v.nodup_knownImports m)]
    by_cases hn : n ∈ v.knownImports m <;> simp [hn]

end ImportTally

/-- Counting one by one comes to the number of known imports of each module, and to the modules that
have an import among theirs. -/
theorem Inventory.WellFormed.importTally_eq {v : Inventory} (h : v.WellFormed) :
    v.importTally = ⟨v.initialPending, v.dependents⟩ := by
  have hpending : v.importTally.pending = v.initialPending := by
    rw [importTally, ImportTally.pending_foldl_addModule, ImportTally.start, List.map_map]
    refine List.map_congr_left fun m hm => ?_
    have honly : v.modules.filter (·.name = m.name) = [m] :=
      filter_key_eq_singleton h.module_names hm
    simp [honly]
  have hdependents : v.importTally.dependents = v.dependents := by
    funext n
    rw [importTally, ImportTally.dependents_foldl_addModule]
    rfl
  exact congrArg₂ ImportTally.mk hpending hdependents

end Wiring
