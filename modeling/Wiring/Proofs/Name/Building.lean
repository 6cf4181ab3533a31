import Wiring.Proofs.Name.Grammar

/-! Ways to build a name.  Whether a name is read from a text, made of its segments at once or made
of shorter names step by step, the same name or the same fault comes out, its written form is in
normal form, and the segments of that form give the name back. -/

namespace Wiring

namespace Name

/-! ### What the operations accept -/

section

variable {n k : Name} {module bean socket written : String}

theorem readFrom_of_ofModule (h : ofModule module = .ok n) : ReadFrom [module.toList] n := by
  obtain ⟨p, hm, h⟩ := bind_eq_ok_iff.1 h
  cases h
  exact .module hm

theorem readFrom_of_ofBean (h : ofBean module bean = .ok n) :
    ReadFrom [module.toList, bean.toList] n := by
  obtain ⟨p, hm, h⟩ := bind_eq_ok_iff.1 h
  obtain ⟨q, hb, h⟩ := bind_eq_ok_iff.1 h
  cases h
  exact .bean hm hb

theorem readFrom_of_ofSocket (h : ofSocket module bean socket = .ok n) :
    ReadFrom [module.toList, bean.toList, socket.toList] n := by
  obtain ⟨p, hm, h⟩ := bind_eq_ok_iff.1 h
  obtain ⟨q, hb, h⟩ := bind_eq_ok_iff.1 h
  obtain ⟨i, hk, h⟩ := bind_eq_ok_iff.1 h
  cases h
  exact .socket hm hb hk

/-- What is appended to a name is written behind it. -/
theorem text_of_withBean (h : n.withBean bean = .ok k) :
    k.text.toList = n.text.toList ++ ':' :: segmentForm bean.toList := by
  cases n with
  | module p =>
    obtain ⟨q, hb, h⟩ := bind_eq_ok_iff.1 h
    cases h
    simp [text, segmentForm_of_readPath hb]
  | bean p q => cases h
  | socket p q i => cases h

theorem text_of_withSocket (h : n.withSocket socket = .ok k) :
    k.text.toList = n.text.toList ++ ':' :: segmentForm socket.toList := by
  cases n with
  | module p => cases h
  | bean p q =>
    obtain ⟨i, hk, h⟩ := bind_eq_ok_iff.1 h
    cases h
    simp [text, segmentForm_of_readSocketPart hk]
  | socket p q i => cases h

theorem text_of_nested (h : n.nested bean = .ok k) :
    k.text.toList = n.text.toList ++ '.' :: Text.trimChars bean.toList := by
  cases n with
  | module p => cases h
  | bean p q =>
    obtain ⟨i, hi, h⟩ := bind_eq_ok_iff.1 h
    cases h
    simp [text, Path.text_snoc, readIdentifier_eq_ok_iff.1 hi]
  | socket p q i => cases h

theorem text_moduleName (n : Name) :
    n.moduleName.text.toList = [':'].intercalate ((n.text.toList.splitOn ':').take 1) := by
  rw [splitOn_text]
  cases n <;> simp [segments, moduleName, modulePath, text]

theorem text_of_beanName? (h : n.beanName? = some k) :
    k.text.toList = [':'].intercalate ((n.text.toList.splitOn ':').take 2) := by
  rw [splitOn_text]
  cases n with
  | module p => cases h
  | bean p q =>
    cases h
    simp [segments, text, modulePath]
  | socket p q i =>
    cases h
    simp [segments, text, modulePath]

end

/-! ### Texts put together -/

/-- Some operation gives the name, and the text is what it puts together for it from the texts that
it is given and from those of the names that it starts from. -/
inductive Built : Name → List Char → Prop
  | parse {s : String} {n : Name} (h : parse s = .ok n) : Built n (normalForm s.toList)
  | ofModule {module : String} {n : Name} (h : ofModule module = .ok n) :
    Built n (segmentForm module.toList)
  | ofBean {module bean : String} {n : Name} (h : ofBean module bean = .ok n) :
    Built n (segmentForm module.toList ++ ':' :: segmentForm bean.toList)
  | ofSocket {module bean socket : String} {n : Name} (h : ofSocket module bean socket = .ok n) :
    Built n (segmentForm module.toList ++ ':' :: segmentForm bean.toList ++
      ':' :: segmentForm socket.toList)
  | withBean {n k : Name} {t : List Char} {bean : String} (hn : Built n t)
    (h : n.withBean bean = .ok k) : Built k (t ++ ':' :: segmentForm bean.toList)
  | withSocket {n k : Name} {t : List Char} {socket : String} (hn : Built n t)
    (h : n.withSocket socket = .ok k) : Built k (t ++ ':' :: segmentForm socket.toList)
  | nested {n k : Name} {t : List Char} {bean : String} (hn : Built n t)
    (h : n.nested bean = .ok k) : Built k (t ++ '.' :: Text.trimChars bean.toList)
  | moduleName {n : Name} {t : List Char} (hn : Built n t) :
    Built n.moduleName ([':'].intercalate ((t.splitOn ':').take 1))
  | beanName {n k : Name} {t : List Char} (hn : Built n t) (h : n.beanName? = some k) :
    Built k ([':'].intercalate ((t.splitOn ':').take 2))

/-- The text that is put together is the written form of the name. -/
theorem Built.text_eq {n : Name} {t : List Char} (h : Built n t) : n.text.toList = t := by
  induction h with
  | parse h => exact text_of_parse h
  | ofModule h => simpa using (readFrom_of_ofModule h).text
  | ofBean h => simpa using (readFrom_of_ofBean h).text
  | ofSocket h => simpa using (readFrom_of_ofSocket h).text
  | withBean _ h ih => rw [text_of_withBean h, ih]
  | withSocket _ h ih => rw [text_of_withSocket h, ih]
  | nested _ h ih => rw [text_of_nested h, ih]
  | moduleName _ ih => rw [text_moduleName, ih]
  | beanName _ h ih => rw [text_of_beanName? h, ih]

theorem parse_normalizes :
    (∀ s, (∃ n, parse s = .ok n) ↔ InGrammar s.toList) ∧
    (∀ s n, parse s = .ok n → n.text.toList = normalForm s.toList ∧ parse n.text = .ok n) ∧
    ∀ n t, Built n t → n.text.toList = t ∧ Normal t ∧ parse n.text = .ok n :=
  ⟨fun _ => exists_parse_iff, fun _ n h => ⟨text_of_parse h, n.parse_text⟩,
    fun n _ h => ⟨h.text_eq, h.text_eq ▸ n.normal_text, n.parse_text⟩⟩

end Name

namespace Sample

def north : Path := ⟨⟨"harbor", by decide⟩, [⟨"north", by decide⟩]⟩

def quay : Name := .bean north ⟨⟨"quay", by decide⟩, []⟩

end Sample

namespace Name

theorem parse_normalizes_spaced :
    parse " harbor . north :\tquay " = .ok Sample.quay ∧
    InGrammar " harbor . north :\tquay ".toList ∧
    Sample.quay.text.toList = normalForm " harbor . north :\tquay ".toList ∧
    ∃ k, Sample.quay.withSocket " crane" = .ok k ∧
      k.text.toList = normalForm " harbor . north :\tquay ".toList ++
        ':' :: segmentForm " crane".toList ∧
      Normal k.text.toList ∧ parse k.text = .ok k := by
  have hparse : parse " harbor . north :\tquay " = .ok Sample.quay := rfl
  obtain ⟨k, hk⟩ : ∃ k, Sample.quay.withSocket " crane" = .ok k := ⟨_, rfl⟩
  obtain ⟨htext, hnormal, hread⟩ := parse_normalizes.2.2 _ _ (.withSocket (.parse hparse) hk)
  refine ⟨hparse, (parse_normalizes.1 _).1 ⟨_, hparse⟩, (parse_normalizes.2.1 _ _ hparse).1, k, hk,
    htext, ?_, hread⟩
  rw [htext]
  exact hnormal

end Name

end Wiring
