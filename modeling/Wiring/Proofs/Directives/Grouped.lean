import Mathlib.Data.Finset.Card
import Wiring.Proofs.Directives

/-! Directives grouped by socket.  The store lists each socket that a directive names at its first
mention, and for each of them the first occurrences among the beans of all its directives; every
later occurrence is found to be repeated, so what is kept and what is found are all the beans. -/

namespace Wiring.DirectiveStore

/-! ### The sockets in the order of their first mention -/

/-- A socket goes behind the others if it is new, with or without beans for it. -/
theorem keys_addTo (into : Name) (beans : List Name) (targets : List (Name × List Name)) :
    (addTo into beans targets).1.map (·.1) =
      if into ∈ targets.map (·.1) then targets.map (·.1) else targets.map (·.1) ++ [into] := by
  induction targets with
  | nil => rfl
  | cons pair rest ih =>
    obtain ⟨target, present⟩ := pair
    unfold addTo
    by_cases ht : target = into
    · simp [ht]
    · rw [if_neg ht]
      show target :: (addTo into beans rest).1.map (·.1) = _
      rw [ih, List.map_cons]
      by_cases hmem : into ∈ rest.map (·.1)
      · rw [if_pos hmem, if_pos (List.mem_cons_of_mem _ hmem)]
      · rw [if_neg hmem, if_neg (by simpa [Ne.symm ht] using hmem), List.cons_append]

theorem keys_add {s : DirectiveStore} {named : List Name}
    (hs : s.targets.map (·.1) = named.eraseDups) (d : Directive) :
    (s.add d).1.targets.map (·.1) = (named ++ [d.into]).eraseDups := by
  have hkeys := keys_addTo d.into d.beans s.targets
  rw [hs] at hkeys
  rw [List.eraseDups_append]
  refine hkeys.trans ?_
  by_cases hmem : d.into ∈ named
  · simp [List.removeAll, hmem]
  · simp [List.removeAll, hmem, List.eraseDups_cons]

theorem keys_addAll {s : DirectiveStore} {named : List Name}
    (hs : s.targets.map (·.1) = named.eraseDups) (ds : List Directive) :
    (s.addAll ds).1.targets.map (·.1) = (named ++ ds.map (·.into)).eraseDups := by
  induction ds generalizing s named with
  | nil => simpa [addAll] using hs
  | cons d ds ih =>
    show ((s.add d).1.addAll ds).1.targets.map (·.1) = _
    rw [ih (keys_add hs d), List.map_cons, List.append_assoc, List.singleton_append]

theorem keys_ofList (ds : List Directive) :
    (ofList ds).1.targets.map (·.1) = (ds.map (·.into)).eraseDups := by
  have hempty : ({} : DirectiveStore).targets.map (·.1) = ([] : List Name).eraseDups := rfl
  exact keys_addAll hempty ds

/-! ### How many repetitions are found -/

/-- The beans that are kept for a socket and those found to be repeated are all the beans that
directives name for it. -/
theorem perm_repeated (ds : List Directive) (n : Name) :
    ((Directive.beansFor ds n).eraseDups ++
      (ofList ds).2.filterMap (Finding.repeatedFor? n)).Perm (Directive.beansFor ds n) := by
  rw [List.perm_iff_count]
  intro bean
  rw [List.count_append, count_repeated]

theorem length_eraseDups {α : Type} [DecidableEq α] (l : List α) :
    l.eraseDups.length = l.toFinset.card := by
  have hsame : l.eraseDups.toFinset = l.toFinset := by
    ext a
    simp
  rw [← hsame, List.toFinset_card_of_nodup (nodup_eraseDups l)]

/-- The number of repetitions found and that of different beans make up the number of beans. -/
theorem countP_repeated (ds : List Directive) (n : Name) :
    (ofList ds).2.countP (fun f => (f.repeatedFor? n).isSome) +
      (Directive.beansFor ds n).toFinset.card = (Directive.beansFor ds n).length := by
  have hlength := (perm_repeated ds n).length_eq
  rw [List.length_append, List.length_filterMap_eq_countP, length_eraseDups] at hlength
  omega

theorem ofList_grouped (ds : List Directive) :
    (∀ n, (ofList ds).1.beans? n =
      if ∃ d ∈ ds, d.into = n then some (Directive.beansFor ds n).eraseDups else none) ∧
    (ofList ds).1.targets.map (·.1) = (ds.map (·.into)).eraseDups ∧
    ∀ n, (ofList ds).2.countP (fun f => (f.repeatedFor? n).isSome) +
      (Directive.beansFor ds n).toFinset.card = (Directive.beansFor ds n).length :=
  ⟨beans?_ofList ds, keys_ofList ds, countP_repeated ds⟩

end Wiring.DirectiveStore
