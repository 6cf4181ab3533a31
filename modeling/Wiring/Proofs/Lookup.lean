import Mathlib.Data.List.Nodup

/-! Lists as finite maps, of pairs or of records with a key.  Where no key is repeated, a lookup is
membership.  The first occurrences in a list have each element once, and a list in strict order is
given by its members.  Records that stand at the places of their numbers are found through an index
of their keys. -/

namespace Wiring

section

variable {α β : Type} [BEq α] [LawfulBEq α] {l : List (α × β)} {a : α} {b : β}

theorem lookup_cons_ne {k : α} (h : a ≠ k) : ((k, b) :: l).lookup a = l.lookup a := by
  rw [List.lookup_cons, beq_false_of_ne h]

theorem mem_of_lookup (h : l.lookup a = some b) : (a, b) ∈ l := by
  obtain ⟨before, after, rfl, _⟩ := List.lookup_eq_some_iff.1 h
  simp

theorem lookup_eq_none_iff_keys : l.lookup a = none ↔ a ∉ l.map (·.1) := by
  simp only [List.lookup_eq_none_iff, List.mem_map, Prod.exists, exists_and_right, exists_eq_right,
    bne_iff_ne, ne_eq, not_exists]
  constructor
  · intro h b hb
    exact h (a, b) hb rfl
  · rintro h ⟨a', b⟩ hb rfl
    exact h b hb

theorem isSome_lookup_iff : (l.lookup a).isSome ↔ a ∈ l.map (·.1) := by
  rw [Option.isSome_iff_ne_none, ne_eq, lookup_eq_none_iff_keys, not_not]

theorem lookup_eq_some_iff_mem (hd : (l.map (·.1)).Nodup) :
    l.lookup a = some b ↔ (a, b) ∈ l := by
  refine ⟨mem_of_lookup, fun h => ?_⟩
  obtain ⟨before, after, rfl⟩ := List.append_of_mem h
  rw [List.map_append, List.map_cons, List.nodup_append] at hd
  refine List.lookup_eq_some_iff.2 ⟨before, after, rfl, fun p hp => ?_⟩
  have hne : p.1 ≠ a := hd.2.2 p.1 (List.mem_map_of_mem hp) a List.mem_cons_self
  simpa using hne.symm

end

theorem find?_isSome_iff {α κ : Type} [DecidableEq κ] {key : α → κ} {l : List α} {k : κ} :
    (l.find? fun y => key y = k).isSome ↔ k ∈ l.map key := by
  rw [List.find?_isSome, List.mem_map]
  simp

/-- Looking for a key among records with distinct keys finds the record that has it. -/
theorem find?_eq_some_iff_mem {α κ : Type} [DecidableEq κ] {key : α → κ} {l : List α} {k : κ}
    {x : α}
    (hd : (l.map key).Nodup) : l.find? (fun y => key y = k) = some x ↔ x ∈ l ∧ key x = k := by
  constructor
  · intro h
    exact ⟨List.mem_of_find?_eq_some h, by simpa using List.find?_some h⟩
  · rintro ⟨hx, rfl⟩
    obtain ⟨y, hy⟩ : ∃ y, l.find? (fun y => key y = key x) = some y :=
      Option.isSome_iff_exists.1 (List.find?_isSome.2 ⟨x, hx, by simp⟩)
    have hk : key y = key x := by simpa using List.find?_some hy
    rw [hy, List.inj_on_of_nodup_map hd (List.mem_of_find?_eq_some hy) hx hk]

/-- Among records with distinct keys each one is alone with its key. -/
theorem filter_key_eq_singleton {α κ : Type} [DecidableEq κ] {key : α → κ} {l : List α} {x : α}
    (hd : (l.map key).Nodup) (hx : x ∈ l) : l.filter (fun y => key y = key x) = [x] := by
  induction l with
  | nil => cases hx
  | cons y ys ih =>
    obtain ⟨hy, hys⟩ := List.nodup_cons.1 hd
    rcases List.mem_cons.1 hx with rfl | hx
    · have hrest : ys.filter (fun z => key z = key x) = [] := by
        rw [List.filter_eq_nil_iff]
        intro z hz heq
        exact hy (of_decide_eq_true heq ▸ List.mem_map_of_mem hz)
      rw [List.filter_cons_of_pos (by simp), hrest]
    · have hne : key y ≠ key x := fun heq => hy (heq ▸ List.mem_map_of_mem hx)
      rw [List.filter_cons_of_neg (by simpa using hne), ih hys hx]

section

variable {α κ : Type} [BEq κ] [LawfulBEq κ] {key : α → κ} {id : α → Nat} {l : List α}
  (hid : ∀ i (a : α), l[i]? = some a → id a = i)
include hid

/-- Records that stand at the places of their numbers are found by these. -/
theorem getElem?_eq_some_iff_id {i : Nat} {a : α} : l[i]? = some a ↔ a ∈ l ∧ id a = i := by
  constructor
  · intro hi
    exact ⟨List.mem_of_getElem? hi, hid i a hi⟩
  · rintro ⟨ha, rfl⟩
    obtain ⟨j, hj⟩ := List.mem_iff_getElem?.1 ha
    rw [hid j a hj, hj]

/-- With distinct keys, the number that an index has for a key leads to the record with the key. -/
theorem lookup_bind_getElem?_eq_some_iff {k : κ} {a : α} (hd : (l.map key).Nodup) :
    ((l.map fun a => (key a, id a)).lookup k).bind (l[·]?) = some a ↔ a ∈ l ∧ key a = k := by
  have hkeys : ((l.map fun a => (key a, id a)).map (·.1)).Nodup := by rwa [List.map_map]
  constructor
  · intro h
    obtain ⟨i, hi, ha⟩ := Option.bind_eq_some_iff.1 h
    obtain ⟨b, hb, heq⟩ := List.mem_map.1 (mem_of_lookup hi)
    obtain ⟨rfl, rfl⟩ := Prod.mk.inj heq
    rw [(getElem?_eq_some_iff_id hid).2 ⟨hb, rfl⟩] at ha
    exact Option.some.inj ha ▸ ⟨hb, rfl⟩
  · rintro ⟨ha, rfl⟩
    rw [(lookup_eq_some_iff_mem hkeys).2 (List.mem_map_of_mem ha)]
    exact (getElem?_eq_some_iff_id hid).2 ⟨ha, rfl⟩

end

/-- Records with distinct keys may stand in any order. -/
theorem find?_eq_of_perm {α κ : Type} [DecidableEq κ] {key : α → κ} {l l' : List α}
    (hperm : l.Perm l') (hd : (l.map key).Nodup) (k : κ) :
    l.find? (fun y => key y = k) = l'.find? (fun y => key y = k) := by
  have hd' : (l'.map key).Nodup := (hperm.map key).nodup_iff.1 hd
  ext x
  exact (find?_eq_some_iff_mem hd).trans
    ((and_congr_left fun _ => hperm.mem_iff).trans (find?_eq_some_iff_mem hd').symm)

/-- Taking first occurrences leaves each element once. -/
theorem nodup_eraseDups {α : Type} [DecidableEq α] : ∀ l : List α, l.eraseDups.Nodup
  | [] => List.nodup_nil
  | a :: as => by
    rw [List.eraseDups_cons, List.nodup_cons]
    refine ⟨fun h => ?_, nodup_eraseDups _⟩
    rw [List.mem_eraseDups, List.mem_filter] at h
    simp at h
termination_by l => l.length
decreasing_by exact Nat.lt_succ_of_le (List.length_filter_le _ _)

/-- A list in strict order is given by its members. -/
theorem eq_of_pairwise_of_mem_iff {α : Type} {r : α → α → Prop} {l l' : List α}
    (hasymm : ∀ a ∈ l, ∀ b ∈ l, r a b → ¬ r b a) (hl : l.Pairwise r) (hl' : l'.Pairwise r)
    (hmem : ∀ a, a ∈ l ↔ a ∈ l') : l = l' := by
  have hne : ∀ a ∈ l, ∀ b ∈ l, r a b → a ≠ b := by
    rintro a ha _ _ hab rfl
    exact hasymm a ha a ha hab hab
  have hd : l.Nodup := hl.imp_of_mem fun ha hb hab => hne _ ha _ hb hab
  have hd' : l'.Nodup := hl'.imp_of_mem fun ha hb hab =>
    hne _ ((hmem _).2 ha) _ ((hmem _).2 hb) hab
  have hperm : l.Perm l' := (List.perm_ext_iff_of_nodup hd hd').2 hmem
  refine hperm.eq_of_pairwise (fun a b ha hb hab hba => ?_) hl hl'
  exact absurd hba (hasymm a ha b ((hmem b).2 hb) hab)

end Wiring
