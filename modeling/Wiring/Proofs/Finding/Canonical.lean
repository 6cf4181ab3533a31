import Mathlib.Data.List.Chain
import Wiring.Proofs.Finding

/-! Snapshots of any findings, also of those that no resolution makes.  A snapshot has every finding
and is in order.  It depends on the set of findings alone, and has each of them once, exactly if no
two findings speak of the same misfit in the same words: sorting leaves those two as they come, and
only neighbours are collapsed. -/

namespace Wiring

/-- A part of a list in which no element follows itself is a part of what the list collapses to. -/
theorem sublist_collapse {α : Type} [DecidableEq α] {c l : List α} (h : c.Sublist l)
    (hc : c.IsChain (· ≠ ·)) : c.Sublist (collapse l) := by
  fun_induction collapse l generalizing c with
  | case1 => exact h
  | case2 a => exact h
  | case3 a rest ih =>
    refine ih ?_ hc
    cases h with
    | cons _ h => exact h
    | cons_cons _ h =>
      cases h with
      | cons _ h => exact h.cons_cons a
      | cons_cons _ h => exact absurd rfl (List.isChain_cons_cons.1 hc).1
  | case4 a b rest hne ih =>
    cases h with
    | cons _ h => exact (ih h hc).cons a
    | cons_cons _ h => exact (ih h (List.isChain_cons.1 hc).2).cons_cons a

theorem collapse_sublist {α : Type} [DecidableEq α] (l : List α) : (collapse l).Sublist l := by
  fun_induction collapse l with
  | case1 => exact .slnil
  | case2 => exact .refl _
  | case3 a rest ih => exact ih.cons a
  | case4 a b rest hne ih => exact ih.cons_cons a

namespace Finding

/-- Misfits of one bean and one socket are told apart by their messages. -/
def MisfitsApart (findings : List Finding) : Prop :=
  ∀ element bean s t s' t', .incompatibleDirectiveBean element bean s t ∈ findings →
    .incompatibleDirectiveBean element bean s' t' ∈ findings →
    message (.incompatibleDirectiveBean element bean s t) =
      message (.incompatibleDirectiveBean element bean s' t') → s = s' ∧ t = t'

theorem keyed_iff_misfitsApart {findings : List Finding} :
    Keyed findings ↔ MisfitsApart findings := by
  constructor
  · intro h element bean s t s' t' hf hf' hmessage
    obtain ⟨_, _, hs, ht⟩ := incompatibleDirectiveBean.inj (h _ hf _ hf' rfl rfl hmessage)
    exact ⟨hs, ht⟩
  · intro h f hf f' hf' helement hid hmessage
    cases akin_of_message helement hid hmessage with
    | refl => rfl
    | incompatible =>
      obtain ⟨rfl, rfl⟩ := h _ _ _ _ _ _ hf hf' hmessage
      rfl

/-- Findings that agree in their keys stay in the order in which they come. -/
theorem sublist_snapshot {c findings : List Finding} {k : List String} (h : c.Sublist findings)
    (hkey : ∀ f ∈ c, f.key = k) (hc : c.IsChain (· ≠ ·)) : c.Sublist (snapshot findings) := by
  have htrans : ∀ f f' f'', ble f f' = true → ble f' f'' = true → ble f f'' = true :=
    fun _ _ _ => Text.lexBle_trans
  have htotal : ∀ f f', (ble f f' || ble f' f) = true := fun f f' => by
    simpa [ble] using Text.lexBle_total f.key f'.key
  have hsorted : c.Pairwise fun f f' => ble f f' = true := by
    refine List.pairwise_of_forall_mem_list fun f hf f' hf' => ?_
    rw [ble, hkey f hf, hkey f' hf']
    exact or_self_iff.1 (Text.lexBle_total k k)
  exact sublist_collapse (List.sublist_mergeSort htrans htotal hsorted h) hc

/-- Two misfits in the same words alternate in a snapshot as often as they do in the findings. -/
theorem misfitsApart_of_nodup {findings : List Finding}
    (h : ∀ findings' : List Finding, (∀ f, f ∈ findings' ↔ f ∈ findings) →
      (snapshot findings').Nodup) : MisfitsApart findings := by
  refine keyed_iff_misfitsApart.1 fun f hf f' hf' helement hid hmessage => ?_
  by_contra hne
  have hkey : f'.key = f.key := by simp only [key, helement, hid, hmessage]
  have hmem : ∀ a, a ∈ f :: f' :: f :: findings ↔ a ∈ findings := fun a => by
    simp only [List.mem_cons]
    constructor
    · rintro (rfl | rfl | rfl | ha) <;> assumption
    · exact fun ha => .inr (.inr (.inr ha))
  have hsub : [f, f', f].Sublist (snapshot (f :: f' :: f :: findings)) := by
    refine sublist_snapshot (k := f.key) (by simp) (fun a ha => ?_) ?_
    · simp only [List.mem_cons, List.not_mem_nil, or_false] at ha
      obtain rfl | rfl | rfl := ha
      · rfl
      · exact hkey
      · rfl
    · simpa using ⟨hne, fun heq => hne heq.symm⟩
  simpa using hsub.nodup (h _ hmem)

/-- The snapshot of any findings has just these and stands in the order of their elements, kinds and
messages.  Every list of the same findings has the same snapshot, with each of them once, if and
only if misfits are told apart by their messages. -/
theorem snapshot_canonical (findings : List Finding) :
    (∀ f, f ∈ snapshot findings ↔ f ∈ findings) ∧
    (snapshot findings).Pairwise (fun f f' => Text.lexBle f.key f'.key = true) ∧
    ((∀ findings' : List Finding, (∀ f, f ∈ findings' ↔ f ∈ findings) →
      snapshot findings' = snapshot findings ∧ (snapshot findings').Nodup) ↔
      MisfitsApart findings) := by
  refine ⟨fun f => mem_snapshot, ?_, ?_⟩
  · exact (Text.pairwise_mergeSort_key key findings).sublist (collapse_sublist _)
  · constructor
    · exact fun h => misfitsApart_of_nodup fun findings' hmem => (h findings' hmem).2
    · intro h findings' hmem
      have hkeyed : Keyed findings := keyed_iff_misfitsApart.2 h
      have hsame := snapshot_eq_of_mem_iff hkeyed fun f => (hmem f).symm
      rw [← hsame]
      exact ⟨rfl, nodup_snapshot hkeyed⟩

end Finding

namespace Sample

def hall : Path := ⟨⟨"hall", by decide⟩, []⟩

def tap : Name := .bean hall ⟨⟨"tap", by decide⟩, []⟩

def inlet : Name := .socket hall ⟨⟨"sink", by decide⟩, []⟩ ⟨"inlet", by decide⟩

/-- The tap is a hose, and the inlet asks for a type with a long name. -/
def hoseMisfit : Finding :=
  .incompatibleDirectiveBean inlet tap "Hose" "Seal is not assignable to Pipe"

/-- The same words, with the long name on the side of the tap. -/
def sealMisfit : Finding :=
  .incompatibleDirectiveBean inlet tap "Hose is not assignable to Seal" "Pipe"

theorem ble_misfits : ∀ f ∈ [hoseMisfit, sealMisfit], ∀ f' ∈ [hoseMisfit, sealMisfit],
    f.ble f' = true := by
  have hkey : sealMisfit.key = hoseMisfit.key := by decide +kernel
  have hle : Text.lexBle hoseMisfit.key hoseMisfit.key = true :=
    or_self_iff.1 (Text.lexBle_total _ _)
  simp [Finding.ble, hkey, hle]

end Sample

namespace Finding

/-- Two misfits in the same words are not brought in order, and one between two others keeps them
apart. -/
theorem snapshot_repeats_misfit :
    (∀ f, f ∈ [Sample.hoseMisfit, Sample.sealMisfit, Sample.hoseMisfit] ↔
      f ∈ [Sample.sealMisfit, Sample.hoseMisfit]) ∧
    snapshot [Sample.sealMisfit, Sample.hoseMisfit] = [Sample.sealMisfit, Sample.hoseMisfit] ∧
    snapshot [Sample.hoseMisfit, Sample.sealMisfit] = [Sample.hoseMisfit, Sample.sealMisfit] ∧
    snapshot [Sample.hoseMisfit, Sample.sealMisfit, Sample.hoseMisfit] =
      [Sample.hoseMisfit, Sample.sealMisfit, Sample.hoseMisfit] := by
  have hsnapshot : ∀ findings : List Finding,
      (∀ f ∈ findings, f ∈ [Sample.hoseMisfit, Sample.sealMisfit]) →
        snapshot findings = collapse findings := fun findings hmem => by
    rw [snapshot, List.mergeSort_of_pairwise]
    exact List.pairwise_of_forall_mem_list fun f hf f' hf' =>
      Sample.ble_misfits f (hmem f hf) f' (hmem f' hf')
  refine ⟨fun f => ?_, ?_, ?_, ?_⟩
  · simp only [List.mem_cons, List.not_mem_nil, or_false]
    tauto
  all_goals
    rw [hsnapshot _ (by simp)]
    decide +kernel

end Finding

end Wiring
