import Mathlib.Data.List.Nodup
import Wiring.Proofs.Lookup
import Wiring.Schedule

/-! Numbers of pending imports.  Releasing modules takes as much off each number as the module is
named, and frees those modules, each once, whose number gets to zero by it. -/

namespace Wiring.Pending

/-- The numbers with something taken off each. -/
def lower (p : Pending) (off : Name → Nat) : Pending := p.map fun (m, k) => (m, k - off m)

/-- Each module has one number. -/
def Distinct (p : Pending) : Prop := (p.map (·.1)).Nodup

theorem mem_lower {p : Pending} {off : Name → Nat} {m : Name} {k : Nat} :
    (m, k) ∈ p.lower off ↔ ∃ k', (m, k') ∈ p ∧ k = k' - off m := by
  simp only [lower, List.mem_map, Prod.exists, Prod.mk.injEq]
  constructor
  · rintro ⟨m, k', hk, rfl, rfl⟩
    exact ⟨k', hk, rfl⟩
  · rintro ⟨k', hk, rfl⟩
    exact ⟨m, k', hk, rfl, rfl⟩

theorem keys_lower (p : Pending) (off : Name → Nat) : (p.lower off).map (·.1) = p.map (·.1) := by
  rw [lower, List.map_map]
  rfl

theorem Distinct.lower {p : Pending} (hd : p.Distinct) (off : Name → Nat) :
    (p.lower off).Distinct := by
  rwa [Distinct, keys_lower]

theorem Distinct.unique {p : Pending} (hd : p.Distinct) {m : Name} {k l : Nat} (hk : (m, k) ∈ p)
    (hl : (m, l) ∈ p) : k = l := by
  have hlookup := (lookup_eq_some_iff_mem hd).2 hk
  rw [(lookup_eq_some_iff_mem hd).2 hl] at hlookup
  exact (Option.some.inj hlookup).symm

theorem lower_of_not_mem {p : Pending} {name : Name} (h : name ∉ p.map (·.1)) :
    (p.lower fun m => if m = name then 1 else 0) = p := by
  rw [lower]
  conv => rhs; rw [← List.map_id p]
  refine List.map_congr_left fun ⟨m, k⟩ hmem => ?_
  have hne : m ≠ name := by
    rintro rfl
    exact h (List.mem_map_of_mem hmem)
  simp [hne]

theorem release_fst {p : Pending} (hd : p.Distinct) (name : Name) :
    (p.release name).1 = p.lower fun m => if m = name then 1 else 0 := by
  induction p with
  | nil => rfl
  | cons pair rest ih =>
    obtain ⟨m, k⟩ := pair
    obtain ⟨hm, hrest⟩ := List.nodup_cons.1 hd
    unfold release
    by_cases heq : m = name
    · subst heq
      have hsame := lower_of_not_mem hm
      rw [if_pos rfl]
      rcases k with _ | _ | k <;> simpa [lower] using hsame.symm
    · rw [if_neg heq]
      simpa [lower, heq] using ih hrest

theorem release_snd {p : Pending} (hd : p.Distinct) (name : Name) :
    (p.release name).2 = if (name, 1) ∈ p then [name] else [] := by
  induction p with
  | nil => rfl
  | cons pair rest ih =>
    obtain ⟨m, k⟩ := pair
    obtain ⟨hm, hrest⟩ := List.nodup_cons.1 hd
    unfold release
    by_cases heq : m = name
    · subst heq
      have hnot : (m, 1) ∉ rest := fun h => hm (List.mem_map.2 ⟨_, h, rfl⟩)
      rw [if_pos rfl]
      rcases k with _ | _ | k <;> simp [hnot]
    · rw [if_neg heq]
      have hne : ¬ (name = m ∧ 1 = k) := fun h => heq h.1.symm
      simpa [hne] using ih hrest

/-- What is released first is released before the others. -/
theorem releaseAll_append (p : Pending) (before after : List Name) :
    p.releaseAll (before ++ after) =
      (((p.releaseAll before).1.releaseAll after).1,
        (p.releaseAll before).2 ++ ((p.releaseAll before).1.releaseAll after).2) := by
  induction before generalizing p with
  | nil => rfl
  | cons name before ih => simp only [List.cons_append, releaseAll, ih, List.append_assoc]

theorem releaseAll_fst {p : Pending} (hd : p.Distinct) (names : List Name) :
    (p.releaseAll names).1 = p.lower fun m => names.count m := by
  induction names generalizing p with
  | nil => simp [releaseAll, lower]
  | cons name names ih =>
    have hfirst := release_fst hd name
    show ((p.release name).1.releaseAll names).1 = _
    rw [hfirst, ih (hd.lower _), lower, lower, lower, List.map_map]
    refine List.map_congr_left fun pair _ => ?_
    obtain ⟨m, k⟩ := pair
    by_cases heq : m = name
    · subst heq
      simp only [Function.comp_apply, if_true, List.count_cons_self, Prod.mk.injEq, true_and]
      omega
    · simp [heq, List.count_cons_of_ne (Ne.symm heq)]

/-- A module is freed if it was waiting, and all that it was waiting for is released. -/
theorem mem_releaseAll_snd {p : Pending} (hd : p.Distinct) {names : List Name} {n : Name} :
    n ∈ (p.releaseAll names).2 ↔ ∃ k, (n, k) ∈ p ∧ 0 < k ∧ k ≤ names.count n := by
  induction names generalizing p with
  | nil =>
    simp only [releaseAll, List.not_mem_nil, List.count_nil, false_iff, not_exists]
    omega
  | cons name names ih =>
    show n ∈ (p.release name).2 ++ ((p.release name).1.releaseAll names).2 ↔ _
    rw [List.mem_append, release_snd hd, release_fst hd, ih (hd.lower _), List.mem_ite_nil_right,
      List.mem_singleton]
    by_cases heq : n = name
    · subst heq
      rw [List.count_cons_self]
      constructor
      · rintro (⟨h, _⟩ | ⟨_, h, hpos, hle⟩)
        · exact ⟨1, h, by omega, by omega⟩
        · obtain ⟨k, hk, rfl⟩ := mem_lower.1 h
          rw [if_pos rfl] at hpos hle
          exact ⟨k, hk, by omega, by omega⟩
      · rintro ⟨k, hk, hpos, hle⟩
        rcases Nat.lt_or_ge 1 k with hlt | hge
        · refine .inr ⟨k - 1, mem_lower.2 ⟨k, hk, by rw [if_pos rfl]⟩, by omega, by omega⟩
        · obtain rfl : k = 1 := by omega
          exact .inl ⟨hk, rfl⟩
    · rw [List.count_cons_of_ne (Ne.symm heq)]
      constructor
      · rintro (⟨_, h⟩ | ⟨_, h, hpos, hle⟩)
        · exact absurd h heq
        · obtain ⟨k, hk, rfl⟩ := mem_lower.1 h
          rw [if_neg heq] at hpos hle
          exact ⟨k, hk, hpos, hle⟩
      · rintro ⟨k, hk, hpos, hle⟩
        exact .inr ⟨k, mem_lower.2 ⟨k, hk, by rw [if_neg heq]; rfl⟩, hpos, hle⟩

theorem nodup_releaseAll_snd {p : Pending} (hd : p.Distinct) (names : List Name) :
    (p.releaseAll names).2.Nodup := by
  induction names generalizing p with
  | nil => exact List.nodup_nil
  | cons name names ih =>
    show ((p.release name).2 ++ ((p.release name).1.releaseAll names).2).Nodup
    rw [release_snd hd, release_fst hd, List.nodup_append]
    refine ⟨by split <;> simp, ih (hd.lower _), fun a ha b hb heq => ?_⟩
    rw [List.mem_ite_nil_right, List.mem_singleton] at ha
    obtain ⟨hone, rfl⟩ := ha
    subst heq
    -- after its last import a module has nothing left to be freed from
    obtain ⟨k, hk, hpos, _⟩ := (mem_releaseAll_snd (hd.lower _)).1 hb
    obtain ⟨k', hk', rfl⟩ := mem_lower.1 hk
    rw [hd.unique hk' hone, if_pos rfl] at hpos
    omega

end Wiring.Pending
