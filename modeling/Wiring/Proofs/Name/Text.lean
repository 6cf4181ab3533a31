import Mathlib.Data.List.Basic
import Wiring.Name

/-! Names and their written forms.  A name can be read off its text, since no identifier holds a dot
or a colon, so the order of texts is a linear order of names. -/

namespace Wiring

/-- The separators of names do not occur in identifiers. -/
theorem Identifier.not_mem_text (i : Identifier) {c : Char} (hc : isIdentifierChar c = false) :
    c ∉ i.text.toList := by
  have hlegal := i.legal
  cases htext : i.text.toList with
  | nil => simp
  | cons first rest =>
    rw [htext, isIdentifier, Bool.and_eq_true, List.all_eq_true] at hlegal
    have hall : ∀ d ∈ first :: rest, isIdentifierChar d = true := by
      intro d hd
      rcases List.mem_cons.1 hd with rfl | hd
      · rw [isIdentifierChar, hlegal.1, Bool.true_or]
      · exact hlegal.2 d hd
    intro hmem
    rw [hall c hmem] at hc
    exact Bool.noConfusion hc

theorem Identifier.text_injective {i j : Identifier} (h : i.text = j.text) : i = j := by
  obtain ⟨t, _⟩ := i
  obtain ⟨u, _⟩ := j
  simpa using h

/-- Texts with a separator between them can be told apart if it occurs in none of them. -/
theorem intercalate_injective {c : Char} {s : String} (hs : s.toList = [c]) {as bs : List String}
    (ha : ∀ a ∈ as, c ∉ a.toList) (hb : ∀ b ∈ bs, c ∉ b.toList) (hane : as ≠ []) (hbne : bs ≠ [])
    (h : s.intercalate as = s.intercalate bs) : as = bs := by
  have hchars : [c].intercalate (as.map String.toList) =
      [c].intercalate (bs.map String.toList) := by
    rw [← hs, ← String.toList_intercalate, ← String.toList_intercalate, h]
  have hsplit := congrArg (List.splitOn c) hchars
  rw [List.splitOn_intercalate c (by simpa using ha) (by simpa using hane),
    List.splitOn_intercalate c (by simpa using hb) (by simpa using hbne)] at hsplit
  exact List.map_injective_iff.2 (fun _ _ => String.toList_inj.1) hsplit

/-- The characters of texts with a separator between them come from the texts or from the separator.
-/
theorem mem_toList_intercalate {c : Char} {s : String} {ts : List String}
    (h : c ∈ (s.intercalate ts).toList) : c ∈ s.toList ∨ ∃ t ∈ ts, c ∈ t.toList := by
  induction ts with
  | nil => simp at h
  | cons t ts ih =>
    cases ts with
    | nil => exact .inr ⟨t, List.mem_cons_self, by simpa using h⟩
    | cons u us =>
      rw [String.intercalate_cons_cons, String.toList_append, String.toList_append] at h
      rcases List.mem_append.1 h with h | h
      · rcases List.mem_append.1 h with h | h
        · exact .inr ⟨t, List.mem_cons_self, h⟩
        · exact .inl h
      · exact (ih h).imp_right fun ⟨w, hw, hc⟩ => ⟨w, List.mem_cons_of_mem _ hw, hc⟩

namespace Path

theorem text_injective {p q : Path} (h : p.text = q.text) : p = q := by
  have hdot : ∀ r : Path, ∀ t ∈ r.parts.map (·.text), '.' ∉ t.toList := by
    intro r t ht
    obtain ⟨i, _, rfl⟩ := List.mem_map.1 ht
    exact i.not_mem_text (by decide)
  have htexts := intercalate_injective (s := ".") rfl (hdot p) (hdot q) (by simp [parts])
    (by simp [parts]) h
  have hparts : p.parts = q.parts :=
    List.map_injective_iff.2 (fun _ _ => Identifier.text_injective) htexts
  obtain ⟨first, rest⟩ := p
  obtain ⟨first', rest'⟩ := q
  simpa [parts] using hparts

/-- The text of a path has no characters but those of identifiers and dots. -/
theorem not_mem_text (p : Path) {c : Char} (hc : isIdentifierChar c = false) (hdot : c ≠ '.') :
    c ∉ p.text.toList := by
  intro h
  rcases mem_toList_intercalate h with h | ⟨t, ht, h⟩
  · exact hdot (by simpa using h)
  · obtain ⟨i, _, rfl⟩ := List.mem_map.1 ht
    exact i.not_mem_text hc h

end Path

namespace Name

/-- The segments of a name as they are written. -/
def segments : Name → List String
  | .module m => [m.text]
  | .bean m b => [m.text, b.text]
  | .socket m b s => [m.text, b.text, s.text]

theorem text_eq_intercalate (n : Name) : n.text = ":".intercalate n.segments := by
  cases n <;> simp [text, segments, String.append_assoc]

theorem not_mem_segments (n : Name) {c : Char} (hc : isIdentifierChar c = false)
    (hdot : c ≠ '.') : ∀ t ∈ n.segments, c ∉ t.toList := by
  intro t ht
  cases n with
  | module m =>
    obtain rfl : t = m.text := by simpa [segments] using ht
    exact m.not_mem_text hc hdot
  | bean m b =>
    obtain rfl | rfl : t = m.text ∨ t = b.text := by simpa [segments] using ht
    · exact m.not_mem_text hc hdot
    · exact b.not_mem_text hc hdot
  | socket m b s =>
    obtain rfl | rfl | rfl : t = m.text ∨ t = b.text ∨ t = s.text := by simpa [segments] using ht
    · exact m.not_mem_text hc hdot
    · exact b.not_mem_text hc hdot
    · exact s.not_mem_text hc

theorem not_mem_text (n : Name) {c : Char} (hc : isIdentifierChar c = false) (hdot : c ≠ '.')
    (hcolon : c ≠ ':') : c ∉ n.text.toList := by
  intro h
  rw [text_eq_intercalate] at h
  rcases mem_toList_intercalate h with h | ⟨t, ht, h⟩
  · exact hcolon (by simpa using h)
  · exact n.not_mem_segments hc hdot t ht h

theorem text_injective {n m : Name} (h : n.text = m.text) : n = m := by
  rw [text_eq_intercalate, text_eq_intercalate] at h
  have hcolon : ∀ n : Name, ∀ t ∈ n.segments, ':' ∉ t.toList := fun n =>
    n.not_mem_segments (by decide) (by decide)
  have hnonempty : ∀ n : Name, n.segments ≠ [] := fun n => by cases n <;> simp [segments]
  have hsegments := intercalate_injective (s := ":") rfl (hcolon n) (hcolon m) (hnonempty n)
    (hnonempty m) h
  cases n with
  | module p =>
    cases m with
    | module p' =>
      obtain hp : p.text = p'.text := by simpa [segments] using hsegments
      rw [Path.text_injective hp]
    | _ => simp [segments] at hsegments
  | bean p b =>
    cases m with
    | bean p' b' =>
      obtain ⟨hp, hb⟩ : p.text = p'.text ∧ b.text = b'.text := by simpa [segments] using hsegments
      rw [Path.text_injective hp, Path.text_injective hb]
    | _ => simp [segments] at hsegments
  | socket p b s =>
    cases m with
    | socket p' b' s' =>
      obtain ⟨hp, hb, hs⟩ : p.text = p'.text ∧ b.text = b'.text ∧ s.text = s'.text := by
        simpa [segments] using hsegments
      rw [Path.text_injective hp, Path.text_injective hb, Identifier.text_injective hs]
    | _ => simp [segments] at hsegments

/-! ### The order of names -/

theorem le_trans {a b c : Name} (hab : a ≤ b) (hbc : b ≤ c) : a ≤ c := String.le_trans hab hbc

theorem le_total (a b : Name) : a ≤ b ∨ b ≤ a := String.le_total a.text b.text

theorem le_antisymm {a b : Name} (hab : a ≤ b) (hba : b ≤ a) : a = b :=
  text_injective (String.le_antisymm hab hba)

theorem le_refl (a : Name) : a ≤ a := (le_total a a).elim id id

theorem ble_iff {a b : Name} : ble a b = true ↔ a ≤ b := decide_eq_true_iff

/-- Sorting by name puts a list in the order of the names. -/
theorem pairwise_mergeSort_ble {α : Type} (name : α → Name) (l : List α) :
    (l.mergeSort fun a b => ble (name a) (name b)).Pairwise fun a b => name a ≤ name b := by
  have htrans : ∀ a b c, ble (name a) (name b) = true → ble (name b) (name c) = true →
      ble (name a) (name c) = true := fun _ _ _ hab hbc =>
    ble_iff.2 (le_trans (ble_iff.1 hab) (ble_iff.1 hbc))
  have htotal : ∀ a b, (ble (name a) (name b) || ble (name b) (name a)) = true := fun a b => by
    simpa [ble_iff] using le_total (name a) (name b)
  exact (List.pairwise_mergeSort htrans htotal l).imp ble_iff.1

/-- Names that are sorted stand in one order, whatever their order was. -/
theorem mergeSort_eq_of_mem_iff {l l' : List Name} (hd : l.Nodup) (hd' : l'.Nodup)
    (h : ∀ n, n ∈ l ↔ n ∈ l') : l.mergeSort ble = l'.mergeSort ble := by
  have hperm : (l.mergeSort ble).Perm (l'.mergeSort ble) :=
    ((List.mergeSort_perm l ble).trans ((List.perm_ext_iff_of_nodup hd hd').2 h)).trans
      (List.mergeSort_perm l' ble).symm
  exact hperm.eq_of_pairwise (fun a b _ _ hab hba => le_antisymm hab hba)
    (pairwise_mergeSort_ble id l) (pairwise_mergeSort_ble id l')

/-- The strict order of names. -/
def Before (a b : Name) : Prop := a ≤ b ∧ a ≠ b

theorem Before.asymm {a b : Name} (hab : a.Before b) : ¬ b.Before a :=
  fun hba => hab.2 (le_antisymm hab.1 hba.1)

theorem before_of_text_lt {a b : Name} (h : a.text < b.text) : a.Before b := by
  refine ⟨String.not_lt.1 (String.lt_asymm h), ?_⟩
  rintro rfl
  exact String.lt_irrefl _ h

end Name

end Wiring
