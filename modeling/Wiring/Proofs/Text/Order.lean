import Wiring.Text

/-! Lists of texts in the order of a dictionary.  It is a linear order, so what is sorted by a key
of texts stands in the order of its keys. -/

namespace Wiring.Text

theorem lexBle_cons {a b : String} {as bs : List String} :
    lexBle (a :: as) (b :: bs) = true ↔ a < b ∨ a = b ∧ lexBle as bs = true := by
  simp only [lexBle, Bool.or_eq_true, Bool.and_eq_true, decide_eq_true_iff]

theorem lexBle_total (as bs : List String) : lexBle as bs = true ∨ lexBle bs as = true := by
  induction as generalizing bs with
  | nil => exact .inl rfl
  | cons a as ih =>
    cases bs with
    | nil => exact .inr rfl
    | cons b bs =>
      simp only [lexBle_cons]
      by_cases hab : a < b
      · exact .inl (.inl hab)
      · by_cases hba : b < a
        · exact .inr (.inl hba)
        · have heq : a = b := String.le_antisymm (String.not_lt.1 hba) (String.not_lt.1 hab)
          rcases ih bs with h | h
          · exact .inl (.inr ⟨heq, h⟩)
          · exact .inr (.inr ⟨heq.symm, h⟩)

theorem lexBle_trans {as bs cs : List String} (hab : lexBle as bs = true)
    (hbc : lexBle bs cs = true) : lexBle as cs = true := by
  induction as generalizing bs cs with
  | nil => rfl
  | cons a as ih =>
    cases bs with
    | nil => cases hab
    | cons b bs =>
      cases cs with
      | nil => cases hbc
      | cons c cs =>
        rw [lexBle_cons] at hab hbc ⊢
        rcases hab with hab | ⟨rfl, hab⟩
        · rcases hbc with hbc | ⟨rfl, _⟩
          · exact .inl (String.lt_trans hab hbc)
          · exact .inl hab
        · rcases hbc with hbc | ⟨rfl, hbc⟩
          · exact .inl hbc
          · exact .inr ⟨rfl, ih hab hbc⟩

theorem lexBle_antisymm {as bs : List String} (hab : lexBle as bs = true)
    (hba : lexBle bs as = true) : as = bs := by
  induction as generalizing bs with
  | nil =>
    cases bs with
    | nil => rfl
    | cons b bs => cases hba
  | cons a as ih =>
    cases bs with
    | nil => cases hab
    | cons b bs =>
      rw [lexBle_cons] at hab hba
      rcases hab with hab | ⟨rfl, hab⟩
      · rcases hba with hba | ⟨rfl, _⟩
        · exact absurd hba (String.lt_asymm hab)
        · exact absurd hab (String.lt_irrefl b)
      · have hba := (hba.resolve_left (String.lt_irrefl a)).2
        rw [ih hab hba]

/-- Sorting by a key of texts puts a list in the order of the keys. -/
theorem pairwise_mergeSort_key {α : Type} (key : α → List String) (l : List α) :
    (l.mergeSort fun a b => lexBle (key a) (key b)).Pairwise fun a b =>
      lexBle (key a) (key b) = true := by
  have htrans : ∀ a b c, lexBle (key a) (key b) = true → lexBle (key b) (key c) = true →
      lexBle (key a) (key c) = true := fun _ _ _ hab hbc => lexBle_trans hab hbc
  have htotal : ∀ a b, (lexBle (key a) (key b) || lexBle (key b) (key a)) = true := fun a b => by
    simpa using lexBle_total (key a) (key b)
  exact List.pairwise_mergeSort htrans htotal l

end Wiring.Text
