import Mathlib.Data.Nat.Digits.Defs
import Wiring.Proofs.Json.Written

/-! Natural numbers in JSON texts.  The decimal digits of a number that fits 64 bits are read as
that number; none of them is dropped, and none is a zero before others. -/

namespace Wiring.Json

/-! ### Digits -/

theorem le_ofDigitChars (cs : List Char) (n : Nat) : n ≤ Nat.ofDigitChars 10 cs n := by
  rw [Nat.ofDigitChars_eq_ofDigitChars_zero]
  have hpos : 0 < 10 ^ cs.length := Nat.pow_pos (by decide)
  exact Nat.le_trans (Nat.le_mul_of_pos_left n hpos) (Nat.le_add_right _ _)

/-- As long as the number stays within 64 bits no digit is dropped. -/
theorem foldl_takeWhole {cs : List Char} {n : Nat} (h : Nat.ofDigitChars 10 cs n ≤ maxWord) :
    cs.foldl
        (fun (n, dropped) c =>
          if dropped > 0 || n * 10 + digitValue c > maxWord then (n, dropped + 1)
          else (n * 10 + digitValue c, dropped))
        (n, (0 : Int)) =
      (Nat.ofDigitChars 10 cs n, 0) := by
  induction cs generalizing n with
  | nil => rfl
  | cons c cs ih =>
    rw [Nat.ofDigitChars_cons, Nat.mul_comm] at h ⊢
    have hword : ¬ n * 10 + digitValue c > maxWord :=
      Nat.not_lt.2 (Nat.le_trans (le_ofDigitChars cs _) h)
    rw [List.foldl_cons]
    simp only [hword, decide_false, Bool.or_false, Int.lt_irrefl, gt_iff_lt, Bool.false_eq_true,
      if_false]
    exact ih h

theorem takeWhole_toDigits {n : Nat} (h : n ≤ maxWord) :
    takeWhole (Nat.toDigits 10 n) = (n, 0) := by
  have hvalue : Nat.ofDigitChars 10 (Nat.toDigits 10 n) 0 = n := Nat.ofDigitChars_ten_toDigits
  have hfold := foldl_takeWhole (hvalue.symm ▸ h)
  rw [hvalue] at hfold
  exact hfold

theorem toDigits_ne_zero_cons (n : Nat) (d : Char) (ds : List Char) :
    Nat.toDigits 10 n ≠ '0' :: d :: ds := by
  induction n using Nat.strong_induction_on generalizing d ds with
  | _ n ih =>
  intro h
  rw [Nat.toDigits_eq_if (by decide)] at h
  split_ifs at h with hn
  · exact List.cons_ne_nil _ _ (List.cons_eq_cons.1 h).2.symm
  · rcases hdigits : Nat.toDigits 10 (n / 10) with _ | ⟨c, _ | ⟨c', cs⟩⟩
    · exact Nat.toDigits_ne_nil hdigits
    · -- a single zero before the last digit is the number zero
      rw [hdigits] at h
      obtain ⟨rfl, -⟩ := List.cons_eq_cons.1 h
      have hzero : Nat.ofDigitChars 10 (Nat.toDigits 10 (n / 10)) 0 = 0 := by
        rw [hdigits]
        rfl
      rw [Nat.ofDigitChars_ten_toDigits] at hzero
      omega
    · rw [hdigits] at h
      obtain ⟨rfl, -⟩ := List.cons_eq_cons.1 h
      exact ih _ (by omega) _ _ hdigits

/-! ### Numbers -/

theorem splitDigits_append {ds rest : List Char} (hds : ∀ c ∈ ds, c.isDigit = true)
    (hrest : Ends rest) : splitDigits (ds ++ rest) = (ds, rest) := by
  have hhead : ∀ c ∈ rest.head?, c.isDigit = false := by
    intro c hc
    rcases hrest c hc with rfl | rfl <;> rfl
  rw [splitDigits, List.takeWhile_append_of_pos hds, List.dropWhile_append_of_pos hds]
  cases rest with
  | nil => simp
  | cons c rest =>
    have hc := hhead c rfl
    rw [List.takeWhile_cons_of_neg (by simp [hc]), List.dropWhile_cons_of_neg (by simp [hc]),
      List.append_nil]

theorem readExponent_of_ends (negative : Bool) (whole : List Char) {rest : List Char}
    (hrest : Ends rest) :
    readExponent negative whole none rest =
      (NumberText.token ⟨negative, whole, none, none⟩, rest) := by
  rcases rest with _ | ⟨c, rest⟩
  · rfl
  · rcases hrest c rfl with rfl | rfl <;> rfl

theorem readNumber_toDigits {n : Nat} (h : n ≤ maxWord) {rest : List Char} (hrest : Ends rest) :
    readNumber false (Nat.toDigits 10 n ++ rest) = (.integer n, rest) := by
  have hsplit : splitDigits (Nat.toDigits 10 n ++ rest) = (Nat.toDigits 10 n, rest) :=
    splitDigits_append
      (fun c hc => Nat.isDigit_of_mem_toDigits (by decide) (by decide) hc) hrest
  have htoken : NumberText.token ⟨false, Nat.toDigits 10 n, none, none⟩ = .integer n := by
    simp [NumberText.token, takeWhole_toDigits h]
  rw [readNumber, hsplit]
  split
  · rename_i heq
    exact absurd (congrArg Prod.fst heq) Nat.toDigits_ne_nil
  · rename_i heq
    exact absurd (congrArg Prod.fst heq) (toDigits_ne_zero_cons n _ _)
  · rename_i rest' _ _ heq
    have hhead : rest = '.' :: rest' := congrArg Prod.snd heq
    rcases hrest '.' (by rw [hhead]; rfl) with hdot | hdot <;> cases hdot
  · rename_i heq
    cases heq
    rw [readExponent_of_ends false _ hrest, htoken]

theorem isSpace_of_isDigit {c : Char} (hc : c.isDigit = true) : isSpace c = false := by
  by_contra h
  simp only [isSpace, Bool.or_eq_true, beq_iff_eq, Bool.not_eq_false] at h
  rcases h with ((rfl | rfl) | rfl) | rfl <;> cases hc

theorem readToken_of_isDigit {c : Char} (hc : c.isDigit = true) (rest : List Char) :
    readToken c rest = readNumber false (c :: rest) := by
  unfold readToken
  -- no other token begins with a digit
  split
  all_goals first | cases hc | exact if_pos hc

/-- A natural number that fits 64 bits is read as it is written. -/
theorem legible_nat {n : Nat} (h : n ≤ maxWord) : (nat n).Legible := by
  intro rest hrest
  have hchars : (toString (n : Int)).toList = Nat.toDigits 10 n := Nat.toList_repr
  obtain ⟨c, cs, hdigits⟩ :=
    List.exists_cons_of_ne_nil (show Nat.toDigits 10 n ≠ [] from Nat.toDigits_ne_nil)
  have hc : c.isDigit = true :=
    Nat.isDigit_of_mem_toDigits (by decide) (by decide) (hdigits ▸ List.mem_cons_self)
  have hnumber := readNumber_toDigits h hrest
  rw [hdigits, List.cons_append, ← readToken_of_isDigit hc] at hnumber
  rw [hchars, hdigits, List.cons_append]
  exact tokens_of_readToken (isSpace_of_isDigit hc) hnumber

end Wiring.Json
