import SqlTemplate.Catalog
/-!
The index of a catalog. A catalog is `Indexed` when its index gives every declared name the place of
its parameter and nothing else, so that a look-up by name (`get?`) is membership (`get?_eq_some`)
and the names are distinct (`nodup`).

What is proved: adding a parameter of a new name (`push`) and changing a parameter that keeps its
name (`update`) leave a catalog indexed, and what is looked up after each. Both make a catalog in
which one parameter is `Replaced`, and all others are what they were.
-/

namespace SqlTemplate.Catalog

@[simp] theorem reset_specs (c : Catalog) : c.reset.specs = c.specs := rfl

@[simp] theorem push_specs (c : Catalog) (s : Spec) : (c.push s).specs = c.specs ++ [s] := rfl
@[simp] theorem push_index (c : Catalog) (s : Spec) :
    (c.push s).index = c.index.insert s.name c.specs.length := rfl

theorem update_of_index {c : Catalog} {name : String} {i : Nat} (h : c.index.get? name = some i)
    (f : Spec → Spec) : c.update name f = { c with specs := c.specs.modify i f } := by
  simp only [update, h]

@[simp] theorem update_index (c : Catalog) (name : String) (f : Spec → Spec) :
    (c.update name f).index = c.index := by
  unfold update; split <;> rfl

@[simp] theorem update_count (c : Catalog) (name : String) (f : Spec → Spec) :
    (c.update name f).count = c.count := by
  unfold update; split <;> rfl

@[simp] theorem update_phase (c : Catalog) (name : String) (f : Spec → Spec) :
    (c.update name f).phase = c.phase := by
  unfold update; split <;> rfl

@[simp] theorem update_reset_with_count (c : Catalog) (name : String) (f : Spec → Spec) :
    { c.reset.update name f with count := c.count } = c.reset.update name f := by
  unfold update; split <;> rfl

/-- The index gives the place of every name that a parameter has, and of no other name. -/
def Indexed (c : Catalog) : Prop :=
  ∀ name i, c.index.get? name = some i ↔ ∃ s, c.specs[i]? = some s ∧ s.name = name

theorem indexed_empty : Indexed ∅ := by
  intro name i
  constructor
  · intro h; cases h
  · rintro ⟨s, hs, _⟩; cases hs

namespace Indexed

variable {c : Catalog} (h : Indexed c)
include h

theorem place {i : Nat} {s : Spec} (hs : c.specs[i]? = some s) : c.index.get? s.name = some i :=
  (h s.name i).mpr ⟨s, hs, rfl⟩

theorem get?_eq_some_at {name : String} {s : Spec} (hs : c.get? name = some s) :
    ∃ i, c.index.get? name = some i ∧ c.specs[i]? = some s ∧ s.name = name := by
  obtain ⟨i, hi, hsi⟩ := Option.bind_eq_some_iff.mp hs
  obtain ⟨t, ht, hname⟩ := (h name i).mp hi
  rw [ht] at hsi
  cases hsi
  exact ⟨i, hi, ht, hname⟩

theorem get?_eq_some {name : String} {s : Spec} :
    c.get? name = some s ↔ s ∈ c.specs ∧ s.name = name := by
  constructor
  · intro hs
    obtain ⟨i, _, hsi, hname⟩ := h.get?_eq_some_at hs
    exact ⟨List.mem_of_getElem? hsi, hname⟩
  · rintro ⟨hm, rfl⟩
    obtain ⟨i, hi⟩ := List.mem_iff_getElem?.mp hm
    simp only [get?, h.place hi, Option.bind_some, hi]

theorem index_eq_none {name : String} (hn : c.get? name = none) : c.index.get? name = none := by
  cases hi : c.index.get? name with
  | none => rfl
  | some i =>
    obtain ⟨s, hs, _⟩ := (h name i).mp hi
    simp [get?, hi, hs] at hn

theorem get?_congr {d : Catalog} (hd : d.Indexed) (hspecs : d.specs = c.specs) (name : String) :
    d.get? name = c.get? name := by
  apply Option.ext
  intro s
  rw [hd.get?_eq_some, h.get?_eq_some, hspecs]

theorem nodup : (c.specs.map (·.name)).Nodup := by
  rw [List.Nodup, List.pairwise_map, List.pairwise_iff_getElem]
  intro i j hi hj hlt heq
  have hi' := h.place (List.getElem?_eq_getElem hi)
  have hj' := h.place (List.getElem?_eq_getElem hj)
  rw [heq, hj', Option.some.injEq] at hi'
  omega

/-! ## One more parameter -/

theorem push {s : Spec} (hn : c.index.get? s.name = none) : Indexed (c.push s) := by
  intro name i
  rw [push_index, push_specs, Dict.get?_insert_ite]
  by_cases hname : name = s.name
  · subst hname
    rw [if_pos rfl]
    constructor
    · intro hi
      cases hi
      exact ⟨s, List.getElem?_concat_length, rfl⟩
    · rintro ⟨t, ht, htn⟩
      rcases Nat.lt_or_ge i c.specs.length with hi | hi
      · -- The name is new, so no earlier parameter has it.
        rw [List.getElem?_append_left hi] at ht
        have := h.place ht
        rw [htn, hn] at this
        cases this
      · have hlen := (List.getElem?_eq_some_iff.mp ht).1
        rw [List.length_append, List.length_singleton] at hlen
        have : i = c.specs.length := by omega
        rw [this]
  · rw [if_neg hname, h name i]
    constructor
    · rintro ⟨t, ht, htn⟩
      exact ⟨t, by rw [List.getElem?_append_left (List.getElem?_eq_some_iff.mp ht).1, ht], htn⟩
    · rintro ⟨t, ht, htn⟩
      rcases Nat.lt_or_ge i c.specs.length with hi | hi
      · rw [List.getElem?_append_left hi] at ht
        exact ⟨t, ht, htn⟩
      · have hmem := List.mem_of_getElem? (by rwa [List.getElem?_append_right hi] at ht)
        rw [List.mem_singleton.mp hmem] at htn
        exact absurd htn.symm hname

theorem get?_push (s : Spec) (name : String) :
    (c.push s).get? name = if name = s.name then some s else c.get? name := by
  unfold get?
  rw [push_index, push_specs, Dict.get?_insert_ite]
  by_cases hname : name = s.name
  · rw [if_pos hname, if_pos hname, Option.bind_some, List.getElem?_concat_length]
  · rw [if_neg hname, if_neg hname]
    cases hi : c.index.get? name with
    | none => rfl
    | some i =>
      obtain ⟨t, ht, _⟩ := (h name i).mp hi
      rw [Option.bind_some, Option.bind_some,
        List.getElem?_append_left (List.getElem?_eq_some_iff.mp ht).1]

/-! ## A changed parameter -/

/-- What stands at each place after a change of the parameter of `name`. -/
theorem getElem?_update {name : String} {f : Spec → Spec} (i : Nat) :
    (c.update name f).specs[i]? = c.specs[i]?.map fun s => if s.name = name then f s else s := by
  cases hj : c.index.get? name with
  | none =>
    rw [show c.update name f = c by simp only [update, hj]]
    cases hs : c.specs[i]? with
    | none => rfl
    | some s =>
      have hne : s.name ≠ name := by
        intro heq
        have := h.place hs
        rw [heq, hj] at this
        cases this
      rw [Option.map_some, if_neg hne]
  | some j =>
    rw [update_of_index hj, List.getElem?_modify]
    cases hs : c.specs[i]? with
    | none => rfl
    | some s =>
      have hplace := h.place hs
      obtain ⟨t, ht, htn⟩ := (h name j).mp hj
      by_cases hij : j = i
      · subst hij
        rw [ht] at hs
        cases hs
        simp [htn]
      · have hne : s.name ≠ name := by
          intro heq
          rw [heq, hj, Option.some.injEq] at hplace
          exact hij hplace
        simp [hij, hne]

theorem get?_update (name : String) (f : Spec → Spec) (other : String) :
    (c.update name f).get? other =
      if other = name then (c.get? name).map f else c.get? other := by
  unfold get?
  rw [update_index]
  by_cases hname : other = name
  · subst hname
    rw [if_pos rfl]
    cases hi : c.index.get? other with
    | none => rfl
    | some i =>
      obtain ⟨s, hs, hn⟩ := (h other i).mp hi
      rw [Option.bind_some, Option.bind_some, h.getElem?_update, hs, Option.map_some, Option.map_some,
        if_pos hn]
  · rw [if_neg hname]
    cases hi : c.index.get? other with
    | none => rfl
    | some i =>
      obtain ⟨s, hs, hn⟩ := (h other i).mp hi
      rw [Option.bind_some, Option.bind_some, h.getElem?_update, hs, Option.map_some,
        if_neg (hn ▸ hname)]

theorem mem_update {name : String} {f : Spec → Spec} {t : Spec}
    (ht : t ∈ (c.update name f).specs) :
    ∃ s ∈ c.specs, t = if s.name = name then f s else s := by
  obtain ⟨i, hi⟩ := List.mem_iff_getElem?.mp ht
  rw [h.getElem?_update, Option.map_eq_some_iff] at hi
  obtain ⟨s, hs, rfl⟩ := hi
  exact ⟨s, List.mem_of_getElem? hs, rfl⟩

theorem update {name : String} {f : Spec → Spec}
    (hf : ∀ s ∈ c.specs, s.name = name → (f s).name = name) : Indexed (c.update name f) := by
  have hkeep : ∀ s ∈ c.specs, (if s.name = name then f s else s).name = s.name := by
    intro s hs
    by_cases hn : s.name = name
    · rw [if_pos hn, hf s hs hn, hn]
    · rw [if_neg hn]
  intro other i
  rw [update_index, h other i]
  constructor
  · rintro ⟨s, hs, hn⟩
    refine ⟨_, by rw [h.getElem?_update, hs, Option.map_some], ?_⟩
    rw [hkeep s (List.mem_of_getElem? hs), hn]
  · rintro ⟨t, ht, hn⟩
    rw [h.getElem?_update, Option.map_eq_some_iff] at ht
    obtain ⟨s, hs, rfl⟩ := ht
    exact ⟨s, hs, by rw [← hn, hkeep s (List.mem_of_getElem? hs)]⟩

end Indexed

/-! ## One parameter replaced -/

/-- A catalog that is ready, with the parameter `t` and otherwise those of `c`: in the place of the
parameter of its name, or behind the others if there was none. -/
structure Replaced (c : Catalog) (t : Spec) (d : Catalog) : Prop where
  ready : d.phase = .building
  added : c.get? t.name = none → d.specs = c.specs ++ [t]
  inPlace : ∀ s, c.get? t.name = some s →
    d.specs = c.specs.map fun u => if u.name = t.name then t else u
  found : d.get? t.name = some t
  others : ∀ other, other ≠ t.name → d.get? other = c.get? other

section
variable {c d : Catalog} {name : String}

theorem replaced_push (h : c.Indexed) {t : Spec} (hnew : c.get? t.name = none) :
    c.Replaced t (c.reset.push t) where
  ready := rfl
  added _ := rfl
  inPlace s hs := by rw [hnew] at hs; cases hs
  found := by rw [Indexed.get?_push (c := c.reset) h, if_pos rfl]
  others other hother := by
    rw [Indexed.get?_push (c := c.reset) h, if_neg hother]
    rfl

theorem Replaced.with_count {t : Spec} (h : c.Replaced t d) (count : Option Nat) :
    c.Replaced t { d with count } :=
  ⟨h.ready, h.added, h.inPlace, h.found, h.others⟩

theorem replaced_update (h : c.Indexed) {s : Spec} (hs : c.get? name = some s) {f : Spec → Spec}
    (hname : (f s).name = name) : c.Replaced (f s) (c.reset.update name f) := by
  have hi : c.reset.Indexed := h
  subst hname
  refine ⟨update_phase .., fun hnew => ?_, fun _ _ => ?_, ?_, fun other hother => ?_⟩
  · rw [hs] at hnew
    cases hnew
  · -- The parameter of the name is the only one that is changed.
    apply List.ext_getElem?
    intro i
    rw [hi.getElem?_update, List.getElem?_map, reset_specs]
    cases hu : c.specs[i]? with
    | none => rfl
    | some u =>
      by_cases hn : u.name = (f s).name
      · have hsu := (h.get?_eq_some.mpr ⟨List.mem_of_getElem? hu, hn⟩).symm.trans hs
        rw [Option.map_some, Option.map_some, if_pos hn, if_pos hn, Option.some.inj hsu]
      · rw [Option.map_some, Option.map_some, if_neg hn, if_neg hn]
  · rw [hi.get?_update, if_pos rfl]
    exact congrArg (Option.map f) hs
  · rw [hi.get?_update, if_neg hother]
    rfl

end

end SqlTemplate.Catalog
