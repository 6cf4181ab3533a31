import Wiring.Proofs.Lookup
import Wiring.Proofs.Name.Text
import Wiring.Proofs.Snapshot
import Wiring.Proofs.Text.Order

/-! Findings by their keys.  The element, the kind and the message of a finding tell what it holds,
but for the two types of a bean that does not suit its socket, which are not kept apart in the
message.  Where keys tell findings apart, a snapshot does not depend on the order of the findings.
-/

namespace Wiring

/-- Texts up to a separator that does not occur in them can be told apart, whatever follows. -/
theorem eq_of_append_cons {α : Type} {c : α} {as bs xs ys : List α} (ha : c ∉ as) (hb : c ∉ bs)
    (h : as ++ c :: xs = bs ++ c :: ys) : as = bs ∧ xs = ys := by
  induction as generalizing bs with
  | nil =>
    cases bs with
    | nil => exact ⟨rfl, (List.cons.inj h).2⟩
    | cons b bs =>
      have heq : c = b := (List.cons.inj h).1
      exact absurd (heq ▸ List.mem_cons_self) hb
  | cons a as ih =>
    cases bs with
    | nil =>
      have heq : a = c := (List.cons.inj h).1
      exact absurd (heq ▸ List.mem_cons_self) ha
    | cons b bs =>
      obtain ⟨rfl, hrest⟩ := List.cons.inj h
      have hsame := ih (fun hc => ha (List.mem_cons_of_mem _ hc))
        (fun hc => hb (List.mem_cons_of_mem _ hc)) hrest
      exact ⟨congrArg (a :: ·) hsame.1, hsame.2⟩

/-- A name ends at the first space. -/
theorem Name.eq_of_text_append_space {a b : Name} {s t : String}
    (h : a.text ++ (" " ++ s) = b.text ++ (" " ++ t)) : a = b ∧ s = t := by
  have hspace : ∀ n : Name, ' ' ∉ n.text.toList := fun n =>
    n.not_mem_text (by decide) (by decide) (by decide)
  have hchars := congrArg String.toList h
  simp only [String.toList_append] at hchars
  have hsame := eq_of_append_cons (hspace a) (hspace b) hchars
  exact ⟨text_injective (String.toList_inj.1 hsame.1), String.toList_inj.1 hsame.2⟩

namespace Finding

/-- The findings name the same bean for the same socket, whatever they say of its type. -/
inductive Akin : Finding → Finding → Prop
  | refl (f : Finding) : Akin f f
  | incompatible {element bean : Name} {s t s' t' : String} :
      Akin (.incompatibleDirectiveBean element bean s t)
        (.incompatibleDirectiveBean element bean s' t')

/-- A message that holds one text tells findings of its kind apart. -/
theorem Akin.of_text {make : String → Finding} {s t : String} (h : s = t) :
    Akin (make s) (make t) :=
  h ▸ .refl _

/-- A message that holds one name tells findings of its kind apart. -/
theorem Akin.of_name {make : Name → Finding} {n m : Name} (h : n.text = m.text) :
    Akin (make n) (make m) :=
  Name.text_injective h ▸ .refl _

/-- A message that holds a name, and behind it a text, tells findings of its kind apart. -/
theorem Akin.of_name_text {make : Name → String → Finding} {n m : Name} {s t : String}
    (h : n.text ++ (" " ++ s) = m.text ++ (" " ++ t)) : Akin (make n s) (make m t) := by
  obtain ⟨rfl, rfl⟩ := Name.eq_of_text_append_space h
  exact .refl _

/-- A message that holds a name, and behind it two texts, tells the names apart. -/
theorem Akin.of_name_texts {element n m : Name} {s t s' t' said said' : String}
    (h : n.text ++ (" of type " ++ said) = m.text ++ (" of type " ++ said')) :
    Akin (.incompatibleDirectiveBean element n s t)
      (.incompatibleDirectiveBean element m s' t') := by
  have hspace : " of type " = " " ++ "of type " := rfl
  rw [hspace, String.append_assoc, String.append_assoc] at h
  obtain ⟨rfl, _⟩ := Name.eq_of_text_append_space h
  exact .incompatible

theorem akin_of_message {f f' : Finding} (helement : f.element = f'.element) (hid : f.id = f'.id)
    (hmessage : f.message = f'.message) : Akin f f' := by
  unfold id at hid
  unfold message at hmessage
  -- findings of different kinds have different ids
  cases f <;> cases f' <;> simp only [String.reduceEq] at hid
  all_goals
    simp only [element] at helement
    subst helement
    simp only [String.append_assoc, String.append_right_inj, String.append_left_inj] at hmessage
  case missingRequired.missingRequired | ambiguous.ambiguous | dependencyCycle.dependencyCycle |
      unresolvedType.unresolvedType | duplicateName.duplicateName |
      invalidDeclaration.invalidDeclaration | importCycle.importCycle |
      sharedSocket.sharedSocket => exact .of_text hmessage
  case badDirectiveSocket.badDirectiveSocket | repeatedDirectiveBean.repeatedDirectiveBean |
      unknownImport.unknownImport => exact .of_name hmessage
  case badDirectiveBean.badDirectiveBean => exact .of_name_text hmessage
  case incompatibleDirectiveBean.incompatibleDirectiveBean => exact .of_name_texts hmessage
  case unsuppliedSocket.unsuppliedSocket => exact .refl _

/-! ### Snapshots -/

/-- The keys of some findings tell them apart. -/
def Keyed (findings : List Finding) : Prop :=
  ∀ f ∈ findings, ∀ f' ∈ findings, f.element = f'.element → f.id = f'.id →
    f.message = f'.message → f = f'

theorem eq_of_key {findings : List Finding} (h : Keyed findings) {f f' : Finding}
    (hf : f ∈ findings) (hf' : f' ∈ findings) (hkey : f.key = f'.key) : f = f' := by
  simp only [key, List.cons.injEq, and_true] at hkey
  obtain ⟨helement, hid, hmessage⟩ := hkey
  exact h f hf f' hf' (Name.text_injective helement) hid hmessage

/-- A snapshot stands in the strict order of the keys. -/
theorem pairwise_snapshot {findings : List Finding} (h : Keyed findings) :
    (snapshot findings).Pairwise fun f f' => Text.lexBle f.key f'.key = true ∧ f ≠ f' := by
  refine pairwise_collapse (Text.pairwise_mergeSort_key key findings) ?_
  intro f hf f' hf' hle hge
  rw [List.mem_mergeSort] at hf hf'
  exact eq_of_key h hf hf' (Text.lexBle_antisymm hle hge)

theorem nodup_snapshot {findings : List Finding} (h : Keyed findings) :
    (snapshot findings).Nodup :=
  (pairwise_snapshot h).imp fun hlt => hlt.2

/-- The only list in the order of the keys with these findings, each once, is their snapshot. -/
theorem snapshot_eq_of_sorted {findings sorted : List Finding} (h : Keyed findings)
    (hsorted : sorted.Pairwise fun f f' => Text.lexBle f.key f'.key = true ∧ f ≠ f')
    (hmem : ∀ f, f ∈ findings ↔ f ∈ sorted) : snapshot findings = sorted := by
  refine eq_of_pairwise_of_mem_iff ?_ (pairwise_snapshot h) hsorted fun f => ?_
  · intro f hf f' hf' hlt hgt
    rw [mem_snapshot] at hf hf'
    exact hlt.2 (eq_of_key h hf hf' (Text.lexBle_antisymm hlt.1 hgt.1))
  · rw [mem_snapshot, hmem]

/-- Findings that keys tell apart have one snapshot, whatever their order. -/
theorem snapshot_eq_of_mem_iff {findings findings' : List Finding} (h : Keyed findings)
    (hmem : ∀ f, f ∈ findings ↔ f ∈ findings') : snapshot findings = snapshot findings' := by
  have h' : Keyed findings' := fun f hf f' hf' =>
    h f ((hmem f).2 hf) f' ((hmem f').2 hf')
  refine snapshot_eq_of_sorted h (pairwise_snapshot h') fun f => ?_
  rw [mem_snapshot, hmem]

end Finding

end Wiring
