import Wiring.Plan
import Wiring.Proofs.Lookup
import Wiring.Proofs.Name.Text

/-! Plans as maps from the names of sockets to entries.  A plan that is built by insertions is in
the strict order of the names, so it holds one entry for each name; if no two of the entries
inserted are for the same socket, it holds them all. -/

namespace Wiring.Plan

theorem lookup_insertInto (name : Name) (entry : PlanEntry) (l : List (Name × PlanEntry))
    (n : Name) :
    (insertInto name entry l).lookup n = if n = name then some entry else l.lookup n := by
  fun_induction insertInto name entry l with
  | case1 =>
    by_cases h : n = name
    · simp [h]
    · rw [lookup_cons_ne h, if_neg h]
  | case2 e rest =>
    by_cases h : n = name
    · simp [h]
    · rw [lookup_cons_ne h, lookup_cons_ne h, if_neg h]
  | case3 m e rest hm hle =>
    by_cases h : n = name
    · simp [h]
    · rw [lookup_cons_ne h, if_neg h]
  | case4 m e rest hm hle ih =>
    by_cases h : n = m
    · subst h
      simp [hm]
    · rw [lookup_cons_ne h, lookup_cons_ne h, ih]

theorem get?_put (p : Plan) (name : Name) (entry : PlanEntry) (n : Name) :
    (p.put name entry).get? n = if n = name then some entry else p.get? n :=
  lookup_insertInto name entry p.entries n

/-- The names are in strict order. -/
def Sorted (l : List (Name × PlanEntry)) : Prop :=
  (l.map (·.1)).Pairwise fun a b => a ≤ b ∧ a ≠ b

theorem mem_keys_insertInto {name n : Name} {entry : PlanEntry} {l : List (Name × PlanEntry)}
    (h : n ∈ (insertInto name entry l).map (·.1)) : n = name ∨ n ∈ l.map (·.1) := by
  fun_induction insertInto name entry l with
  | case1 => simpa using h
  | case2 e rest => exact .inr h
  | case3 m e rest hm hle => exact List.mem_cons.1 h
  | case4 m e rest hm hle ih =>
    rcases List.mem_cons.1 h with rfl | h
    · exact .inr List.mem_cons_self
    · exact (ih h).imp_right (List.mem_cons_of_mem _)

theorem Sorted.insertInto {name : Name} {entry : PlanEntry} {l : List (Name × PlanEntry)}
    (h : Sorted l) : Sorted (insertInto name entry l) := by
  fun_induction Plan.insertInto name entry l with
  | case1 => exact List.pairwise_singleton _ _
  | case2 e rest => exact h
  | case3 m e rest hm hle =>
    refine List.pairwise_cons.2 ⟨fun n hn => ?_, h⟩
    rcases List.mem_cons.1 hn with rfl | hn
    · exact ⟨hle, fun heq => hm heq.symm⟩
    · have hlt := (List.pairwise_cons.1 h).1 n hn
      refine ⟨Name.le_trans hle hlt.1, ?_⟩
      rintro rfl
      exact hlt.2 (Name.le_antisymm hlt.1 hle)
  | case4 m e rest hm hle ih =>
    have hrest := List.pairwise_cons.1 h
    refine List.pairwise_cons.2 ⟨fun n hn => ?_, ih hrest.2⟩
    rcases mem_keys_insertInto hn with rfl | hn
    · exact ⟨(Name.le_total m n).resolve_right hle, hm⟩
    · exact hrest.1 n hn

theorem Sorted.nodup {l : List (Name × PlanEntry)} (h : Sorted l) : (l.map (·.1)).Nodup :=
  h.imp fun hlt => hlt.2

/-- A name behind all others is inserted at the end. -/
theorem insertInto_last {name : Name} {entry : PlanEntry} {l : List (Name × PlanEntry)}
    (h : ∀ n ∈ l.map (·.1), n ≤ name ∧ n ≠ name) :
    Plan.insertInto name entry l = l ++ [(name, entry)] := by
  induction l with
  | nil => rfl
  | cons pair rest ih =>
    obtain ⟨n, e⟩ := pair
    rw [List.map_cons, List.forall_mem_cons] at h
    obtain ⟨⟨hle, hne⟩, hrest⟩ := h
    have hnot : ¬ name ≤ n := fun hge => hne (Name.le_antisymm hle hge)
    rw [Plan.insertInto, if_neg hne, if_neg hnot, ih hrest, List.cons_append]

/-- Entries in the strict order of their names make up a plan as they stand. -/
theorem ofList_of_sorted {l : List (Name × PlanEntry)} (h : Sorted l) : ofList l = ⟨l⟩ := by
  suffices hfold : ∀ before rest, Sorted (before ++ rest) →
      rest.foldl (fun p e => p.put e.1 e.2) (⟨before⟩ : Plan) = ⟨before ++ rest⟩ from hfold [] l h
  -- the entries that are there already come before all that follow
  intro before rest
  induction rest generalizing before with
  | nil =>
    intro _
    rw [List.append_nil]
    rfl
  | cons pair rest ih =>
    intro hsorted
    obtain ⟨name, entry⟩ := pair
    have hbefore : ∀ n ∈ before.map (·.1), n ≤ name ∧ n ≠ name := fun n hn => by
      rw [Sorted, List.map_append, List.pairwise_append] at hsorted
      exact hsorted.2.2 n hn name List.mem_cons_self
    have hput : (⟨before⟩ : Plan).put name entry = ⟨before ++ [(name, entry)]⟩ :=
      congrArg Plan.mk (insertInto_last hbefore)
    rw [List.append_cons] at hsorted ⊢
    rw [← ih _ hsorted, ← hput]
    rfl

/-! ### Many insertions -/

theorem sorted_insertAll {p : Plan} (h : Sorted p.entries) (es : List PlanEntry) :
    Sorted (p.insertAll es).entries := by
  induction es generalizing p with
  | nil => exact h
  | cons e es ih => exact ih (p := p.insert e) h.insertInto

theorem get?_insertAll {es : List PlanEntry} (hd : (es.map (·.socket)).Nodup) (p : Plan)
    (n : Name) :
    (p.insertAll es).get? n = (es.find? fun e => e.socket = n).or (p.get? n) := by
  induction es generalizing p with
  | nil => rfl
  | cons e es ih =>
    obtain ⟨he, hes⟩ := List.nodup_cons.1 hd
    have hstep : (p.insertAll (e :: es)).get? n = ((p.insert e).insertAll es).get? n := rfl
    rw [hstep, ih hes (p.insert e), insert, get?_put]
    by_cases h : n = e.socket
    · subst h
      have hnone : es.find? (fun e' => e'.socket = e.socket) = none := by
        rw [List.find?_eq_none]
        intro e' he' heq
        exact he (List.mem_map.2 ⟨e', he', by simpa using heq⟩)
      simp [hnone]
    · rw [if_neg h, List.find?_cons_of_neg (by simpa using fun heq => h heq.symm)]

section

variable {es : List PlanEntry} (hd : (es.map (·.socket)).Nodup)
include hd

/-- A plan of entries for distinct sockets holds just these, each under the name of its socket. -/
theorem get?_insertAll_eq_some_iff {n : Name} {e : PlanEntry} :
    (insertAll {} es).get? n = some e ↔ e ∈ es ∧ e.socket = n := by
  rw [get?_insertAll hd]
  simp only [get?, List.lookup_nil, Option.or_none]
  exact find?_eq_some_iff_mem hd

theorem mem_toList_insertAll {e : PlanEntry} : e ∈ (insertAll {} es).toList ↔ e ∈ es := by
  have hsorted : Sorted (insertAll {} es).entries :=
    sorted_insertAll (p := {}) List.Pairwise.nil es
  rw [toList, List.mem_map]
  constructor
  · rintro ⟨⟨n, e'⟩, hmem, rfl⟩
    exact ((get?_insertAll_eq_some_iff hd).1 ((lookup_eq_some_iff_mem hsorted.nodup).2 hmem)).1
  · intro h
    have hget := (get?_insertAll_eq_some_iff hd).2 ⟨h, rfl⟩
    exact ⟨(e.socket, e), (lookup_eq_some_iff_mem hsorted.nodup).1 hget, rfl⟩

theorem mem_entries_insertAll {n : Name} {e : PlanEntry} :
    (n, e) ∈ (insertAll {} es).entries ↔ e ∈ es ∧ e.socket = n := by
  have hsorted : Sorted (insertAll {} es).entries :=
    sorted_insertAll (p := {}) List.Pairwise.nil es
  rw [← lookup_eq_some_iff_mem hsorted.nodup]
  exact get?_insertAll_eq_some_iff hd

theorem contains_insertAll {n : Name} :
    (insertAll {} es).contains n = true ↔ n ∈ es.map (·.socket) := by
  rw [contains, Option.isSome_iff_exists, List.mem_map]
  exact exists_congr fun e => get?_insertAll_eq_some_iff hd

end

/-- Entries for distinct sockets give one plan, whatever their order. -/
theorem insertAll_eq_of_mem_iff {es es' : List PlanEntry} (hd : (es.map (·.socket)).Nodup)
    (hd' : (es'.map (·.socket)).Nodup) (h : ∀ e, e ∈ es ↔ e ∈ es') :
    insertAll {} es = insertAll {} es' := by
  have hsorted : ∀ es : List PlanEntry,
      (insertAll {} es).entries.Pairwise fun a b => a.1.Before b.1 := fun es =>
    List.pairwise_map.1 (sorted_insertAll (p := {}) List.Pairwise.nil es)
  have hentries : (insertAll {} es).entries = (insertAll {} es').entries := by
    refine eq_of_pairwise_of_mem_iff (fun _ _ _ _ hlt => hlt.asymm) (hsorted es) (hsorted es') ?_
    rintro ⟨n, e⟩
    rw [mem_entries_insertAll hd, mem_entries_insertAll hd', h]
  exact congrArg Plan.mk hentries

end Wiring.Plan
