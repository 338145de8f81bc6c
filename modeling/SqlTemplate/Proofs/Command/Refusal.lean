import SqlTemplate.Proofs.Catalog.Acceptance
import SqlTemplate.Proofs.Command.Lists
/-!
What a refused list leaves of a command.

The values of a list are declared one after the other, and the first that is refused ends the call.
What is proved:
  1. `bindNumbered_error`: a refused list has a value that the catalog refuses after it has taken all
     values before it.
  2. `Catalog.bindScalar_held` and `bindNumbered_held`: values that are held already change nothing.
  3. `bindList_refused`: the known lists stay, but the values before the refused one are in the catalog
     under their names. The parameters are as they were only if each of these values was there before.
  4. `bindList_mixes`: so a statement is sent with the first value of a list that was refused and the
     second of the list before it.
-/

namespace SqlTemplate

namespace Catalog

variable {c d : Catalog} {name : String}

/-! ## Values that are held -/

theorem bindScalar_error {v : Value} {e : Error} (hv : c.Valid)
    (h : c.bindScalar name v = (.error e, d)) : ∃ phase, d = { c with phase } := by
  have hout := bindScalar_outcome hv name v
  rw [h] at hout
  cases hout with
  | @refused _ phase _ => exact ⟨phase, rfl⟩

theorem Makes.eq_bound {v : Value} {t : Spec} {count : Option Nat}
    (h : c.Makes (.scalar name v) t count) : t = c.bound name (.scalar v) := by
  cases h
  rfl

/-- A scalar that is bound where it is held already makes the parameter that there is. -/
theorem bound_of_holds {v : Value} {s : Spec} (hv : c.Valid) (hs : c.get? name = some s)
    (hpayload : s.payload = .scalar v) (hinput : s.direction.isInput = true) :
    c.bound name (.scalar v) = s := by
  obtain ⟨hmem, hname⟩ := hv.indexed.get?_eq_some.mp hs
  have hdirection : s.direction.withInput = s.direction := by
    cases hd : s.direction with
    | output => rw [hd] at hinput; cases hinput
    | _ => rfl
  have hfamily : s.family.or ((Payload.scalar v).elements.findSome? Value.family?) = s.family := by
    cases hf : v.family? with
    | none => simp [Payload.elements, hf]
    | some f =>
      -- A value with a family is not null, and a held value shows the family of its parameter.
      have hnull : v.isNull = false := by
        cases v with
        | null => cases hf
        | _ => rfl
      have hshown := (hv.fits s hmem).valid.family v (by simp [hpayload, Payload.elements]) hnull
      obtain ⟨g, _, hg⟩ := hshown
      rw [hg, Option.some_or]
  simp only [bound, hs, Option.elim_some, Option.bind_some]
  rw [hdirection, hfamily, ← hname, ← hpayload]

/-- A scalar that is held already is taken without a change. -/
theorem bindScalar_held {v : Value} (hv : c.Valid) (hheld : c.Holds name v)
    (h : c.bindScalar name v = (.ok (), d)) : d.specs = c.specs := by
  obtain ⟨s, hs, hpayload, hinput⟩ := hheld
  have hout := bindScalar_outcome hv name v
  rw [h] at hout
  cases hout with
  | @accepted t _ _ ht hreplaced =>
    obtain rfl : t = s := ht.eq_bound.trans (bound_of_holds hv hs hpayload hinput)
    have hname := (hv.indexed.get?_eq_some.mp hs).2
    have hself : ∀ u ∈ c.specs, (if u.name = t.name then t else u) = id u := by
      intro u hu
      by_cases hn : u.name = t.name
      · rw [if_pos hn]
        exact Option.some.inj (hs.symm.trans (hv.indexed.get?_eq_some.mpr ⟨hu, hn.trans hname⟩))
      · exact if_neg hn
    calc d.specs
        = c.specs.map fun u => if u.name = t.name then t else u :=
          hreplaced.inPlace t (hname.symm ▸ hs)
      _ = c.specs.map id := List.map_congr_left hself
      _ = c.specs := List.map_id c.specs

end Catalog

namespace Command

variable {c d : Command} {name : String} {values : List Value} {e : Error}

/-! ## Refused lists -/

theorem valid_of_bindNumbered {catalog later : Catalog} {i : Nat} {answer : Except Error Unit}
    (hv : catalog.Valid) (h : bindNumbered catalog name i values = (answer, later)) :
    later.Valid := by
  have hrun := run_bindNumbered catalog name i values
  rw [h] at hrun
  exact Catalog.valid_of_run hrun hv

theorem bindNumbered_error {catalog later : Catalog} {i : Nat}
    (h : bindNumbered catalog name i values = (.error e, later)) :
    ∃ taken v rest between, values = taken ++ v :: rest ∧
      bindNumbered catalog name i taken = (.ok (), between) ∧
      between.bindScalar (Placeholder.numbered name (i + taken.length)) v = (.error e, later) := by
  induction values generalizing catalog i with
  | nil => cases h
  | cons v rest ih =>
    unfold bindNumbered at h
    rcases hb : catalog.bindScalar (Placeholder.numbered name i) v with ⟨f | u, next⟩ <;>
      rw [hb] at h
    · cases h
      exact ⟨[], v, rest, catalog, rfl, rfl, hb⟩
    · obtain ⟨taken, w, after, between, rfl, htaken, hrefused⟩ := ih h
      refine ⟨v :: taken, w, after, between, rfl, ?_, ?_⟩
      · rw [bindNumbered, hb]
        exact htaken
      · rwa [List.length_cons, Nat.add_comm taken.length, ← Nat.add_assoc]

theorem bindNumbered_held {catalog later : Catalog} {i : Nat} (hv : catalog.Valid)
    (hheld : ∀ k v, values[k]? = some v → catalog.Holds (Placeholder.numbered name (i + k)) v)
    (h : bindNumbered catalog name i values = (.ok (), later)) : later.specs = catalog.specs := by
  induction values generalizing catalog i with
  | nil => cases h; rfl
  | cons v rest ih =>
    unfold bindNumbered at h
    rcases hb : catalog.bindScalar (Placeholder.numbered name i) v with ⟨f | u, next⟩ <;>
      rw [hb] at h
    · cases h
    have hone : bindNumbered catalog name i [v] = (.ok (), next) := by rw [bindNumbered, hb]; rfl
    have hnext : next.Valid := valid_of_bindNumbered hv hone
    have hsame : next.specs = catalog.specs := Catalog.bindScalar_held hv (hheld 0 v rfl) hb
    rw [← hsame]
    refine ih hnext (fun k w hw => ?_) h
    have hw := hheld (k + 1) w (by simpa using hw)
    rw [Nat.add_comm k, ← Nat.add_assoc] at hw
    obtain ⟨s, hs, hrest⟩ := hw
    exact ⟨s, (hv.indexed.get?_congr hnext.indexed hsame _).trans hs, hrest⟩

theorem bindList_eq_error (h : c.bindList name values = (.error e, d)) :
    bindNumbered c.catalog name 0 values = (.error e, d.catalog) ∧ d.text = c.text ∧
      d.repeats = c.repeats ∧ d.lists = c.lists := by
  unfold bindList at h
  rcases hb : bindNumbered c.catalog name 0 values with ⟨f | u, catalog⟩ <;> rw [hb] at h <;>
    cases h
  exact ⟨rfl, rfl, rfl, rfl⟩

/-- What a list leaves whose values were taken up to one that was refused. -/
structure Stopped (c : Command) (name : String) (taken : List Value) (v : Value) (e : Error)
    (d : Command) : Prop where
  text : d.text = c.text
  repeats : d.repeats = c.repeats
  lists : d.lists = c.lists
  /-- The catalog refuses the value after it has taken those before it. -/
  refused : ∃ between, bindNumbered c.catalog name 0 taken = (.ok (), between) ∧
    between.bindScalar (Placeholder.numbered name taken.length) v = (.error e, d.catalog)
  held : ∀ k w, taken[k]? = some w → d.catalog.Holds (Placeholder.numbered name k) w
  others : ∀ other, (∀ k < taken.length, Placeholder.numbered name k ≠ other) →
    d.catalog.get? other = c.catalog.get? other
  /-- All parameters are as they were exactly if each of the values was held before. -/
  same_iff : d.catalog.specs = c.catalog.specs ↔
    ∀ k w, taken[k]? = some w → c.catalog.Holds (Placeholder.numbered name k) w

/-- A list that is refused leaves the text and the lists that are known. Of its values, those before
the first that the catalog refuses are held under their names, and no other name is touched. -/
theorem bindList_refused (h : c.Reachable) (hrefused : c.bindList name values = (.error e, d)) :
    ∃ taken v rest, values = taken ++ v :: rest ∧ Stopped c name taken v e d := by
  have hv := h.catalog.valid
  obtain ⟨hb, htext, hrepeats, hlists⟩ := bindList_eq_error hrefused
  obtain ⟨taken, v, rest, between, hvalues, htaken, herror⟩ := bindNumbered_error hb
  obtain ⟨hholds, hothers⟩ := bindNumbered_holds hv htaken
  simp only [Nat.zero_add] at herror hholds hothers
  have hbetween := valid_of_bindNumbered hv htaken
  -- The refusal itself changes the phase at most.
  obtain ⟨phase, hphase⟩ := Catalog.bindScalar_error hbetween herror
  refine ⟨taken, v, rest, hvalues,
    ⟨htext, hrepeats, hlists, ⟨between, htaken, herror⟩, ?_, ?_, ?_⟩⟩
  all_goals rw [hphase]
  · exact hholds
  · exact hothers
  · constructor
    · intro hsame k w hw
      obtain ⟨s, hs, hrest⟩ := hholds k w hw
      exact ⟨s, (hv.indexed.get?_congr hbetween.indexed hsame _).symm.trans hs, hrest⟩
    · intro hheld
      show between.specs = c.catalog.specs
      apply bindNumbered_held hv (fun k w hw => ?_) htaken
      rw [Nat.zero_add]
      exact hheld k w hw

/-- A list that is refused for its third value, after the first two were taken. -/
theorem bindList_refused_third :
    let c := ((ofText "").bindList "ids" [.int 1, .null, .int 3]).2
    let values : List Value := [.int 7, .text "x", .seq [], .int 9]
    let r := c.bindList "ids" values
    c.Reachable ∧ c.bindList "ids" values = (.error (.argument "ids2" .sequence), r.2) ∧
      ∃ taken v rest, values = taken ++ v :: rest ∧
        Stopped c "ids" taken v (.argument "ids2" .sequence) r.2 := by
  intro c values r
  have hc : c.Reachable := ⟨_, .ofText "", .single (.bindList _ _)⟩
  have hr : c.bindList "ids" values = (.error (.argument "ids2" .sequence), r.2) := rfl
  exact ⟨hc, hr, bindList_refused hc hr⟩

/-- A list of two numbers is bound, then one that is refused for its second value: of the first name
the new value is sent, and of the second the old one. -/
theorem bindList_mixes :
    let c := ((ofText "").bindList "ids" [.int 1, .int 2]).2
    let r := c.bindList "ids" [.int 7, .text "x"]
    c.Reachable ∧ r.1 = .error (.argument "ids1" (.otherFamily .number .text)) ∧
      c.Sends "ids0" (.int 1) ∧ c.Sends "ids1" (.int 2) ∧
      r.2.Sends "ids0" (.int 7) ∧ r.2.Sends "ids1" (.int 2) ∧
      r.2.catalog.get? "ids0" ≠ c.catalog.get? "ids0" := by
  intro c r
  have hc : c.Reachable := ⟨_, .ofText "", .single (.bindList _ _)⟩
  have hr : r.2.Reachable := ⟨_, .ofText "", .tail (.single (.bindList _ _)) (.bindList _ _)⟩
  have hsends : ∀ {d : Command} {name v}, d.Reachable → d.catalog.Holds name v → d.Sends name v :=
    fun hd hholds => ⟨hholds, fun sql used row hused => hholds.sent hd.catalog.valid hused sql row⟩
  have hone : c.Sends "ids0" (.int 1) := hsends hc ⟨_, rfl, rfl, rfl⟩
  have hseven : r.2.Sends "ids0" (.int 7) := hsends hr ⟨_, rfl, rfl, rfl⟩
  refine ⟨hc, rfl, hone, hsends hc ⟨_, rfl, rfl, rfl⟩, hseven, hsends hr ⟨_, rfl, rfl, rfl⟩, ?_⟩
  intro hsame
  obtain ⟨s, hs, hheld⟩ := hseven.holds
  have hboth := hone.unique ⟨s, hsame.symm.trans hs, hheld⟩
  exact absurd (Value.int.inj hboth) (by decide)

end Command

end SqlTemplate
