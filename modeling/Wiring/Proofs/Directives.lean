import Wiring.Directives
import Wiring.Proofs.Lookup

/-! Directives by socket.  A socket has beans in the store exactly if some directive names it: the
first occurrences among the beans of all directives for it, in the order in which they were written.
The later occurrences are found to be repeated. -/

namespace Wiring

/-- The beans that directives name for a socket, as they were written. -/
def Directive.beansFor (ds : List Directive) (socket : Name) : List Name :=
  (ds.filter (·.into = socket)).flatMap (·.beans)

/-- The bean that is found to be repeated for the socket. -/
def Finding.repeatedFor? (socket : Name) : Finding → Option Name
  | .repeatedDirectiveBean element bean => if element = socket then some bean else none
  | _ => none

theorem Finding.repeatedFor?_eq_some {f : Finding} {socket bean : Name} :
    f.repeatedFor? socket = some bean ↔ f = .repeatedDirectiveBean socket bean := by
  cases f with
  | repeatedDirectiveBean element other =>
    by_cases h : element = socket <;> simp [repeatedFor?, h]
  | _ => simp [repeatedFor?]

namespace DirectiveStore

/-! ### First occurrences -/

/-- What is appended and what is repeated make up the whole. -/
theorem append_count (present beans : List Name) (bean : Name) :
    (append present beans).1.count bean + (append present beans).2.count bean =
      present.count bean + beans.count bean := by
  fun_induction append present beans with
  | case1 present => rfl
  | case2 present first beans hmem all repeated heq ih =>
    rw [heq] at ih
    simp only [List.count_cons] at ih ⊢
    omega
  | case3 present first beans hnew ih =>
    simp only [List.count_append, List.count_cons, List.count_nil] at ih ⊢
    omega

theorem append_fst (present beans : List Name) :
    (append present beans).1 = present ++ (beans.removeAll present).eraseDups := by
  fun_induction append present beans with
  | case1 present => simp [List.removeAll]
  | case2 present bean beans hmem all repeated heq ih =>
    have hskip : (bean :: beans).removeAll present = beans.removeAll present := by
      simp [List.removeAll, hmem]
    rw [heq] at ih
    rw [hskip]
    exact ih
  | case3 present bean beans hnew ih =>
    have hrest : beans.removeAll (present ++ [bean]) =
        (beans.removeAll present).filter fun b => !b == bean := by
      simp only [List.removeAll, List.filter_filter]
      refine List.filter_congr fun b _ => ?_
      by_cases h : b = bean <;> simp [h]
    have hfirst : (bean :: beans).removeAll present = bean :: beans.removeAll present := by
      simp [List.removeAll, hnew]
    rw [ih, hrest, hfirst, List.eraseDups_cons, List.append_assoc, List.singleton_append]

/-- Appending to first occurrences gives the first occurrences of the whole. -/
theorem append_eraseDups (named beans : List Name) :
    (append named.eraseDups beans).1 = (named ++ beans).eraseDups := by
  have hsame : beans.removeAll named.eraseDups = beans.removeAll named := by
    simp [List.removeAll]
  rw [append_fst, List.eraseDups_append, hsame]

/-! ### The beans of a socket -/

theorem lookup_addTo (into : Name) (beans : List Name) (targets : List (Name × List Name))
    (n : Name) :
    (addTo into beans targets).1.lookup n =
      if n = into then some (append ((targets.lookup into).getD []) beans).1
      else targets.lookup n := by
  induction targets with
  | nil =>
    by_cases h : n = into
    · simp [addTo, h]
    · simp [addTo, lookup_cons_ne h, h]
  | cons pair rest ih =>
    obtain ⟨target, present⟩ := pair
    unfold addTo
    by_cases ht : target = into
    · subst ht
      by_cases h : n = target
      · simp [h]
      · simp [lookup_cons_ne h, h]
    · rw [if_neg ht]
      by_cases h : n = target
      · subst h
        simp [ht]
      · show ((target, present) :: (addTo into beans rest).1).lookup n = _
        rw [lookup_cons_ne h, ih, lookup_cons_ne h, lookup_cons_ne (Ne.symm ht)]

theorem beans?_add (s : DirectiveStore) (d : Directive) (n : Name) :
    (s.add d).1.beans? n =
      if n = d.into then some (append ((s.beans? d.into).getD []) d.beans).1 else s.beans? n :=
  lookup_addTo d.into d.beans s.targets n

/-- What the store has for a socket when some directives have been added. -/
def stored (ds : List Directive) (socket : Name) : Option (List Name) :=
  if ∃ d ∈ ds, d.into = socket then some (Directive.beansFor ds socket).eraseDups else none

theorem getD_stored (ds : List Directive) (socket : Name) :
    (stored ds socket).getD [] = (Directive.beansFor ds socket).eraseDups := by
  unfold stored
  split
  · rfl
  · rename_i hnone
    have hempty : ds.filter (·.into = socket) = [] := by
      rw [List.filter_eq_nil_iff]
      intro d hd hinto
      exact hnone ⟨d, hd, of_decide_eq_true hinto⟩
    simp [Directive.beansFor, hempty]

theorem beansFor_concat (ds : List Directive) (d : Directive) (socket : Name) :
    Directive.beansFor (ds ++ [d]) socket =
      Directive.beansFor ds socket ++ if socket = d.into then d.beans else [] := by
  by_cases h : socket = d.into
  · simp [Directive.beansFor, h]
  · simp [Directive.beansFor, Ne.symm h, h]

theorem beans?_add_of_stored {s : DirectiveStore} {before : List Directive}
    (hs : ∀ n, s.beans? n = stored before n) (d : Directive) (n : Name) :
    (s.add d).1.beans? n = stored (before ++ [d]) n := by
  rw [beans?_add]
  by_cases h : n = d.into
  · subst h
    have hnamed : ∃ e ∈ before ++ [d], e.into = d.into := ⟨d, by simp, rfl⟩
    rw [if_pos rfl, hs, getD_stored, append_eraseDups, stored, if_pos hnamed, beansFor_concat,
      if_pos rfl]
  · rw [if_neg h, hs, stored, stored, beansFor_concat, if_neg h, List.append_nil]
    simp [Ne.symm h]

theorem beans?_addAll {s : DirectiveStore} {before : List Directive}
    (hs : ∀ n, s.beans? n = stored before n) (ds : List Directive) (n : Name) :
    (s.addAll ds).1.beans? n = stored (before ++ ds) n := by
  induction ds generalizing s before with
  | nil => simpa [addAll] using hs n
  | cons d ds ih =>
    show ((s.add d).1.addAll ds).1.beans? n = _
    rw [ih (beans?_add_of_stored hs d), List.append_assoc, List.singleton_append]

/-- A socket has in the store the first occurrences among the beans of its directives. -/
theorem beans?_ofList (ds : List Directive) (n : Name) : (ofList ds).1.beans? n = stored ds n := by
  have hempty : ∀ n, ({} : DirectiveStore).beans? n = stored [] n := fun _ => rfl
  exact beans?_addAll hempty ds n

theorem beans?_ofList_eq_none {ds : List Directive} {n : Name} :
    (ofList ds).1.beans? n = none ↔ ∀ d ∈ ds, d.into ≠ n := by
  rw [beans?_ofList, stored]
  simp

theorem mem_targets_ofList {ds : List Directive} {n : Name} :
    n ∈ (ofList ds).1.targets.map (·.1) ↔ ∃ d ∈ ds, d.into = n := by
  have hlookup : n ∈ (ofList ds).1.targets.map (·.1) ↔ (ofList ds).1.beans? n ≠ none := by
    rw [ne_eq, beans?, lookup_eq_none_iff_keys, not_not]
  rw [hlookup, ne_eq, beans?_ofList_eq_none]
  simp

/-! ### Repetitions -/

theorem filterMap_repeatedFor? (into socket : Name) (beans : List Name) :
    (beans.map (Finding.repeatedDirectiveBean into)).filterMap (Finding.repeatedFor? socket) =
      if socket = into then beans else [] := by
  rw [List.filterMap_map]
  by_cases h : socket = into
  · subst h
    have hsome : Finding.repeatedFor? socket ∘ Finding.repeatedDirectiveBean socket = some := by
      funext bean
      exact if_pos rfl
    rw [hsome, List.filterMap_some, if_pos rfl]
  · rw [if_neg h, List.filterMap_eq_nil_iff]
    intro bean _
    exact if_neg (Ne.symm h)

theorem snd_addTo (into : Name) (beans : List Name) (targets : List (Name × List Name)) :
    (addTo into beans targets).2 = (append ((targets.lookup into).getD []) beans).2 := by
  induction targets with
  | nil => rfl
  | cons pair rest ih =>
    obtain ⟨target, present⟩ := pair
    unfold addTo
    by_cases ht : target = into
    · subst ht
      simp
    · rw [if_neg ht, lookup_cons_ne (Ne.symm ht)]
      exact ih

/-- A bean that a directive names for a socket is added or repeated. -/
theorem add_count (s : DirectiveStore) (d : Directive) (n bean : Name) :
    (((s.add d).1.beans? n).getD []).count bean +
        ((s.add d).2.filterMap (Finding.repeatedFor? n)).count bean =
      ((s.beans? n).getD []).count bean + (if n = d.into then d.beans else []).count bean := by
  have hfindings : (s.add d).2 = (append ((s.beans? d.into).getD []) d.beans).2.map
      (Finding.repeatedDirectiveBean d.into) :=
    congrArg (List.map (Finding.repeatedDirectiveBean d.into)) (snd_addTo d.into d.beans s.targets)
  rw [hfindings, filterMap_repeatedFor?, beans?_add]
  by_cases h : n = d.into
  · subst h
    simpa using append_count ((s.beans? d.into).getD []) d.beans bean
  · rw [if_neg h, if_neg h, if_neg h]

theorem addAll_count (s : DirectiveStore) (ds : List Directive) (n bean : Name) :
    (((s.addAll ds).1.beans? n).getD []).count bean +
        ((s.addAll ds).2.filterMap (Finding.repeatedFor? n)).count bean =
      ((s.beans? n).getD []).count bean + (Directive.beansFor ds n).count bean := by
  induction ds generalizing s with
  | nil => rfl
  | cons d ds ih =>
    have hfirst := add_count s d n bean
    have hrest := ih (s.add d).1
    have hbeans : Directive.beansFor (d :: ds) n =
        (if n = d.into then d.beans else []) ++ Directive.beansFor ds n := by
      by_cases h : n = d.into
      · simp [Directive.beansFor, h]
      · simp [Directive.beansFor, Ne.symm h, h]
    show ((((s.add d).1.addAll ds).1.beans? n).getD []).count bean +
      (((s.add d).2 ++ ((s.add d).1.addAll ds).2).filterMap _).count bean = _
    rw [hbeans, List.filterMap_append, List.count_append, List.count_append]
    omega

/-- First occurrences and repetitions are all the beans that directives name for a socket. -/
theorem count_repeated (ds : List Directive) (n bean : Name) :
    (Directive.beansFor ds n).eraseDups.count bean +
        ((ofList ds).2.filterMap (Finding.repeatedFor? n)).count bean =
      (Directive.beansFor ds n).count bean := by
  have hall := addAll_count {} ds n bean
  have hstored : (((ofList ds).1.beans? n).getD []) = (Directive.beansFor ds n).eraseDups := by
    rw [beans?_ofList, getD_stored]
  rw [← hstored]
  exact hall.trans (Nat.zero_add _)

/-- Nothing else is found of directives than repetitions. -/
theorem repeated_of_mem_ofList {ds : List Directive} {f : Finding} (h : f ∈ (ofList ds).2) :
    ∃ n bean, f = .repeatedDirectiveBean n bean := by
  suffices hall : ∀ s : DirectiveStore, f ∈ (s.addAll ds).2 →
      ∃ n bean, f = .repeatedDirectiveBean n bean from hall {} h
  clear h
  induction ds with
  | nil =>
    intro s hf
    cases hf
  | cons d ds ih =>
    intro s hf
    have hf : f ∈ (s.add d).2 ++ ((s.add d).1.addAll ds).2 := hf
    rcases List.mem_append.1 hf with hf | hf
    · obtain ⟨bean, _, rfl⟩ := List.mem_map.1 hf
      exact ⟨d.into, bean, rfl⟩
    · exact ih _ hf

/-- A bean that is named twice for a socket is found to be repeated. -/
theorem repeated_of_count {ds : List Directive} {n bean : Name}
    (h : 2 ≤ (Directive.beansFor ds n).count bean) :
    .repeatedDirectiveBean n bean ∈ (ofList ds).2 := by
  have hcount := count_repeated ds n bean
  have hone := List.nodup_iff_count_le_one.1 (nodup_eraseDups (Directive.beansFor ds n)) bean
  have hpos : 0 < ((ofList ds).2.filterMap (Finding.repeatedFor? n)).count bean := by omega
  obtain ⟨f, hf, hbean⟩ := List.mem_filterMap.1 (List.count_pos_iff.1 hpos)
  rw [Finding.repeatedFor?_eq_some] at hbean
  exact hbean ▸ hf

end DirectiveStore

end Wiring
