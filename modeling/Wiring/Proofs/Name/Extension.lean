import Wiring.Name

/-! Longer names from shorter ones: a bean is named after its module, and a nested bean after its
parent. -/

namespace Wiring

theorem Path.eq_of_snoc {p q : Path} {i j : Identifier} (h : p.snoc i = q.snoc j) : p = q := by
  obtain ⟨first, rest⟩ := p
  obtain ⟨first', rest'⟩ := q
  obtain ⟨hfirst, hrest⟩ := Path.mk.inj h
  have hfirst : first = first' := hfirst
  have hrest : rest = rest' := List.append_inj_left' hrest rfl
  rw [hfirst, hrest]

theorem Path.text_snoc (p : Path) (i : Identifier) :
    (p.snoc i).text = p.text ++ "." ++ i.text := by
  have hparts : (p.snoc i).parts = p.parts ++ [i] := rfl
  rw [text, hparts, List.map_append,
    String.intercalate_append_of_ne_nil (by simp [parts]) (by simp), List.map_singleton,
    String.intercalate_singleton]
  rfl

namespace Name

theorem withBean_ok {n bean : Name} {written : String} (h : n.withBean written = .ok bean) :
    ∃ m p, n = .module m ∧ bean = .bean m p := by
  cases n with
  | module m =>
    rw [withBean] at h
    cases hp : readPath written.toList with
    | error fault => rw [hp] at h; cases h
    | ok p => rw [hp] at h; cases h; exact ⟨m, p, rfl, rfl⟩
  | bean m p => cases h
  | socket m p s => cases h

theorem nested_ok {n bean : Name} {written : String} (h : n.nested written = .ok bean) :
    ∃ m p i, n = .bean m p ∧ bean = .bean m (p.snoc i) := by
  cases n with
  | module m => cases h
  | bean m p =>
    rw [nested] at h
    cases hi : readIdentifier written.toList with
    | error fault => rw [hi] at h; cases h
    | ok i => rw [hi] at h; cases h; exact ⟨m, p, i, rfl, rfl⟩
  | socket m p s => cases h

theorem withSocket_ok {n socket : Name} {written : String} (h : n.withSocket written = .ok socket) :
    ∃ m p i, n = .bean m p ∧ socket = .socket m p i := by
  cases n with
  | module m => cases h
  | bean m p =>
    rw [withSocket] at h
    cases hi : readSocketPart written.toList with
    | error fault => rw [hi] at h; cases h
    | ok i => rw [hi] at h; cases h; exact ⟨m, p, i, rfl, rfl⟩
  | socket m p s => cases h

theorem moduleName_eq_self {n : Name} (h : n.kind = .module) : n.moduleName = n := by
  cases n with
  | module m => rfl
  | bean m p => cases h
  | socket m p s => cases h

theorem moduleName_withBean {n bean : Name} {written : String} (h : n.withBean written = .ok bean) :
    bean.moduleName = n := by
  obtain ⟨m, p, rfl, rfl⟩ := withBean_ok h
  rfl

theorem moduleName_withSocket {n socket : Name} {written : String}
    (h : n.withSocket written = .ok socket) : socket.moduleName = n.moduleName := by
  obtain ⟨m, p, i, rfl, rfl⟩ := withSocket_ok h
  rfl

/-- The bean that the socket of this name belongs to; a bean that is a socket is its own. -/
def owner : Name → Name
  | .socket m b _ => .bean m b
  | n => n

theorem owner_eq_self {n : Name} (h : n.kind = .bean) : n.owner = n := by
  cases n with
  | module m => rfl
  | bean m p => rfl
  | socket m p s => cases h

theorem owner_withSocket {n socket : Name} {written : String}
    (h : n.withSocket written = .ok socket) : socket.owner = n := by
  obtain ⟨m, p, i, rfl, rfl⟩ := withSocket_ok h
  rfl

theorem moduleName_nested {n bean : Name} {written : String} (h : n.nested written = .ok bean) :
    bean.moduleName = n.moduleName := by
  obtain ⟨m, p, i, rfl, rfl⟩ := nested_ok h
  rfl

theorem isNested_nested {n bean : Name} {written : String} (h : n.nested written = .ok bean) :
    bean.isNested = true := by
  obtain ⟨m, p, i, rfl, rfl⟩ := nested_ok h
  simp [isNested, beanPath?, Path.snoc]

theorem text_nested {n bean : Name} {written : String} (h : n.nested written = .ok bean) :
    ∃ i : Identifier, bean.text = n.text ++ "." ++ i.text := by
  obtain ⟨m, p, i, rfl, rfl⟩ := nested_ok h
  refine ⟨i, ?_⟩
  rw [text, text, Path.text_snoc]
  simp only [String.append_assoc]

theorem text_withSocket {n socket : Name} {written : String}
    (h : n.withSocket written = .ok socket) :
    ∃ i : Identifier, socket.text = n.text ++ ":" ++ i.text := by
  obtain ⟨m, p, i, rfl, rfl⟩ := withSocket_ok h
  exact ⟨i, rfl⟩

/-- The name of a nested bean tells the name of its parent. -/
theorem nested_parent {n n' bean : Name} {written written' : String}
    (h : n.nested written = .ok bean) (h' : n'.nested written' = .ok bean) : n = n' := by
  obtain ⟨m, p, i, rfl, rfl⟩ := nested_ok h
  obtain ⟨m', p', i', rfl, heq⟩ := nested_ok h'
  obtain ⟨rfl, hpath⟩ := Name.bean.inj heq
  rw [Path.eq_of_snoc hpath]

/-- A name belongs to a module exactly if that is the module it lies in. -/
theorem belongsTo_iff {n m : Name} (hm : m.kind = .module) :
    n.belongsTo m = true ↔ n.moduleName = m := by
  cases m with
  | module p =>
    show decide (n.modulePath = p) = true ↔ Name.module n.modulePath = .module p
    simp
  | bean p b => cases hm
  | socket p b s => cases hm

end Name

end Wiring
