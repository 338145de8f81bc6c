import SqlTemplate.Batch
import SqlTemplate.Proofs.Catalog.Effect
/-!
The inputs that a catalog holds. A payload that is taken is looked up under its name and under no
other (`get?_of_bind`), and a scalar that is held goes with every statement that uses its name
(`Holds.sent`).
-/

namespace SqlTemplate.Catalog

def Holds (c : Catalog) (name : String) (v : Value) : Prop :=
  ∃ s, c.get? name = some s ∧ s.payload = .scalar v ∧ s.direction.isInput = true

variable {c d : Catalog} {name : String}

/-- A payload that is taken goes in under its name, and no other name is touched. -/
theorem get?_of_bind (h : c.Indexed) {p : Payload} {family : Option Family}
    (hok : c.bind name p family = (.ok (), d)) :
    (∃ s, d.get? name = some s ∧ s.payload = p ∧ s.direction.isInput = true) ∧
    ∀ other, other ≠ name → d.get? other = c.get? other := by
  rcases bind_cases c name p family with ⟨_, _, _, _, he⟩ | ⟨hnew, he⟩ | ⟨s, hs, _, he⟩ <;>
    rw [he] at hok <;> cases hok
  · have hreplaced := replaced_push (t := ⟨name, p, .input, none, family⟩) h hnew
    exact ⟨⟨_, hreplaced.found, rfl, rfl⟩, hreplaced.others⟩
  · have hname : (rebound p family s).name = name := (h.get?_eq_some.mp hs).2
    obtain ⟨_, _, _, hfound, hothers⟩ := replaced_update h hs hname
    rw [hname] at hfound hothers
    exact ⟨⟨_, hfound, rfl, isInput_withInput s.direction⟩, hothers⟩

theorem bindScalar_holds (h : c.Indexed) {v : Value}
    (hok : c.bindScalar name v = (.ok (), d)) :
    d.Holds name v ∧ ∀ other, other ≠ name → d.get? other = c.get? other := by
  cases v with
  | seq items => cases hok
  | _ => exact get?_of_bind h hok

theorem Holds.sent (hv : c.Valid) {v : Value} (h : c.Holds name v) {used : List String}
    (hused : name ∈ used) (sql : String) (row : Nat) :
    ∃ b ∈ (c.statement sql used row).binds, b.name = name ∧ b.direction.isInput = true ∧
      b.carried = .scalar v ∧ ∀ b' ∈ (c.statement sql used row).binds, b'.name = name → b' = b := by
  obtain ⟨s, hs, hpayload, hinput⟩ := h
  obtain ⟨hmem, hname⟩ := hv.indexed.get?_eq_some.mp hs
  have hsent : s ∈ c.sent used := by
    refine List.mem_filter.mpr ⟨hmem, ?_⟩
    simp [hname, hused]
  refine ⟨s.bindAt row, List.mem_map.mpr ⟨s, hsent, rfl⟩, hname, hinput, ?_, ?_⟩
  · show s.payload.atRow row = _
    rw [hpayload]
    rfl
  · intro b hb hbname
    obtain ⟨t, ht, rfl⟩ := List.mem_map.mp hb
    have hts := (hv.indexed.get?_eq_some.mpr ⟨(List.mem_filter.mp ht).1, hbname⟩).symm.trans hs
    rw [Option.some.inj hts]

end SqlTemplate.Catalog
