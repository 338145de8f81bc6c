import SqlTemplate.Proofs.Catalog.Input
import SqlTemplate.Proofs.Command.Run
/-!
What the lists of a command send.

Each element of a list is a scalar of its own, under the name of the list with the number of the
element behind it. The names of all lists are in one catalog, and the last value that a name was
given is the one that it has. What is proved:
  1. `bindList_holds` and `bindList_get?`: a list that is taken gives each of its names the value of
     its element, and no other name a value.
  2. `expansion_sends`: so an expansion has a placeholder for each element of the list that was bound
     last under its name, and sends that element for it, unless another list that was bound later
     makes up the same name. Then the value is that of the latest such list.
  3. `element_overwritten`: which happens. Element 10 of one list and element 0 of another can have
     one name.
-/

namespace SqlTemplate.Command

variable {c d : Command} {name : String} {values : List Value}

/-! ## One list -/

/-- Each value is held under the name that its number makes up, counted from `i`, and no other name
is touched. -/
theorem bindNumbered_holds {catalog later : Catalog} {i : Nat} (h : catalog.Valid)
    (hok : bindNumbered catalog name i values = (.ok (), later)) :
    (∀ k v, values[k]? = some v → later.Holds (Placeholder.numbered name (i + k)) v) ∧
    ∀ other, (∀ k < values.length, Placeholder.numbered name (i + k) ≠ other) →
      later.get? other = catalog.get? other := by
  induction values generalizing catalog i with
  | nil =>
    cases hok
    exact ⟨fun k v hv => by simp at hv, fun _ _ => rfl⟩
  | cons v rest ih =>
    unfold bindNumbered at hok
    rcases hb : catalog.bindScalar (Placeholder.numbered name i) v with ⟨e | u, next⟩ <;>
      rw [hb] at hok
    · cases hok
    have hstep : Catalog.Step catalog next := by
      have := Catalog.Step.declare (c := catalog) (.scalar (Placeholder.numbered name i) v)
      simpa [Catalog.declare, hb] using this
    obtain ⟨hholds, hothers⟩ := Catalog.bindScalar_holds h.indexed hb
    obtain ⟨hrest, hkeep⟩ := ih (hstep.valid_extends h).1 hok
    constructor
    · intro k w hw
      cases k with
      | zero =>
        cases hw
        -- No later number makes up the name of this one.
        have hsame := hkeep (Placeholder.numbered name i) fun k _ heq => by
          have := Placeholder.numbered_inj.mp heq
          omega
        obtain ⟨s, hs, hheld⟩ := hholds
        exact ⟨s, hsame.trans hs, hheld⟩
      | succ k =>
        have := hrest k w (by simpa using hw)
        rwa [Nat.add_assoc, Nat.add_comm 1] at this
    · intro other hother
      rw [hkeep other fun k hk => ?_, hothers other ?_]
      · exact (hother 0 (by simp)).symm
      · have := hother (k + 1) (by simpa using hk)
        rwa [Nat.add_assoc, Nat.add_comm 1]

theorem bindList_eq_ok (hok : c.bindList name values = (.ok (), d)) :
    bindNumbered c.catalog name 0 values = (.ok (), d.catalog) ∧
      d.repeats = c.repeats.insert name values.length := by
  unfold bindList at hok
  rcases hb : bindNumbered c.catalog name 0 values with ⟨e | u, catalog⟩ <;> rw [hb] at hok <;>
    cases hok
  exact ⟨rfl, rfl⟩

structure ListBind where
  name : String
  values : List Value

/-- The list gives the value to the name: it is that of the element whose number is behind the name
of the list. -/
def ListBind.Gives (list : ListBind) (name : String) (v : Value) : Prop :=
  ∃ k, list.values[k]? = some v ∧ Placeholder.numbered list.name k = name

theorem bindList_holds {list : ListBind} (h : c.catalog.Valid)
    (hok : c.bindList list.name list.values = (.ok (), d)) {v : Value}
    (hgives : list.Gives name v) : d.catalog.Holds name v := by
  obtain ⟨k, hk, rfl⟩ := hgives
  have hholds := (bindNumbered_holds h (bindList_eq_ok hok).1).1 k v hk
  rwa [Nat.zero_add] at hholds

theorem bindList_get? {list : ListBind} (h : c.catalog.Valid)
    (hok : c.bindList list.name list.values = (.ok (), d))
    (hnone : ∀ v, ¬ list.Gives name v) : d.catalog.get? name = c.catalog.get? name := by
  refine (bindNumbered_holds h (bindList_eq_ok hok).1).2 name fun k hk hname => ?_
  rw [Nat.zero_add] at hname
  exact hnone list.values[k] ⟨k, List.getElem?_eq_getElem hk, hname⟩

/-! ## Any number of lists -/

/-- The command with all of the lists, or why the first that is refused is. -/
def bindLists (c : Command) : List ListBind → Except Error Command
  | [] => .ok c
  | list :: rest =>
    match c.bindList list.name list.values with
    | (.ok (), d) => d.bindLists rest
    | (.error e, _) => .error e

theorem bindLists_cons_eq_ok {list : ListBind} {rest : List ListBind}
    (hok : c.bindLists (list :: rest) = .ok d) :
    ∃ e, c.bindList list.name list.values = (.ok (), e) ∧ e.bindLists rest = .ok d := by
  unfold bindLists at hok
  rcases hb : c.bindList list.name list.values with ⟨f | u, e⟩ <;> rw [hb] at hok
  · cases hok
  · exact ⟨e, rfl, hok⟩

theorem run_of_bindList (hok : c.bindList name values = (.ok (), d)) : Run c d := by
  have hstep := Step.bindList (c := c) name values
  rw [hok] at hstep
  exact .single hstep

theorem run_of_bindLists {lists : List ListBind} (hok : c.bindLists lists = .ok d) : Run c d := by
  induction lists generalizing c with
  | nil => cases hok; exact .refl
  | cons list rest ih =>
    obtain ⟨e, he, hrest⟩ := bindLists_cons_eq_ok hok
    exact (run_of_bindList he).trans (ih hrest)

/-- Lists are bound up to one of them, then it is, and then the others are. -/
theorem bindLists_append_eq_ok {before after : List ListBind} {list : ListBind}
    (hok : c.bindLists (before ++ list :: after) = .ok d) :
    ∃ e f, c.bindLists before = .ok e ∧ e.bindList list.name list.values = (.ok (), f) ∧
      f.bindLists after = .ok d := by
  induction before generalizing c with
  | nil =>
    obtain ⟨f, hf, hafter⟩ := bindLists_cons_eq_ok hok
    exact ⟨c, f, rfl, hf, hafter⟩
  | cons first before ih =>
    obtain ⟨b, hb, hrest⟩ := bindLists_cons_eq_ok hok
    obtain ⟨e, f, he, hf, hafter⟩ := ih hrest
    refine ⟨e, f, ?_, hf, hafter⟩
    rw [bindLists, hb]
    exact he

/-- Of the lists, the last that gives the name a value gives it this one. -/
def Latest (lists : List ListBind) (name : String) (v : Value) : Prop :=
  ∃ before list after, lists = before ++ list :: after ∧ list.Gives name v ∧
    ∀ later ∈ after, ∀ w, ¬ later.Gives name w

theorem exists_latest {lists : List ListBind} {list : ListBind} {v : Value} (hmem : list ∈ lists)
    (h : list.Gives name v) : ∃ w, Latest lists name w := by
  induction lists generalizing list v with
  | nil => cases hmem
  | cons first rest ih =>
    by_cases hrest : ∃ later ∈ rest, ∃ w, later.Gives name w
    · obtain ⟨later, hlater, w, hw⟩ := hrest
      obtain ⟨u, before, latest, after, rfl, hu⟩ := ih hlater hw
      exact ⟨u, first :: before, latest, after, rfl, hu⟩
    · have hnone : ∀ later ∈ rest, ∀ w, ¬ later.Gives name w := fun later hlater w hw =>
        hrest ⟨later, hlater, w, hw⟩
      rcases List.mem_cons.mp hmem with rfl | hmem
      · exact ⟨v, [], list, rest, rfl, h, hnone⟩
      · exact absurd h (hnone list hmem v)

theorem valid_of_run (h : c.catalog.Valid) (hr : Run c d) : d.catalog.Valid :=
  Catalog.valid_of_run (Run.catalog hr) h

theorem bindLists_get? {lists : List ListBind} (h : c.catalog.Valid)
    (hok : c.bindLists lists = .ok d) (hnone : ∀ list ∈ lists, ∀ v, ¬ list.Gives name v) :
    d.catalog.get? name = c.catalog.get? name := by
  induction lists generalizing c with
  | nil => cases hok; rfl
  | cons list rest ih =>
    obtain ⟨e, he, hrest⟩ := bindLists_cons_eq_ok hok
    have htail := ih (valid_of_run h (run_of_bindList he)) hrest fun later hlater =>
      hnone later (List.mem_cons_of_mem list hlater)
    rw [htail, bindList_get? h he (hnone list List.mem_cons_self)]

theorem holds_of_latest {lists : List ListBind} {v : Value} (h : c.catalog.Valid)
    (hok : c.bindLists lists = .ok d) (hlatest : Latest lists name v) : d.catalog.Holds name v := by
  obtain ⟨before, list, after, rfl, hgives, hnone⟩ := hlatest
  obtain ⟨e, f, he, hf, hafter⟩ := bindLists_append_eq_ok hok
  have hvalid := valid_of_run h (run_of_bindLists he)
  obtain ⟨s, hs, hheld⟩ := bindList_holds hvalid hf hgives
  exact ⟨s, (bindLists_get? (valid_of_run hvalid (run_of_bindList hf)) hafter hnone).trans hs, hheld⟩

theorem bindLists_repeats {lists : List ListBind} (hok : c.bindLists lists = .ok d)
    (hother : ∀ list ∈ lists, list.name ≠ name) : d.repeats.get? name = c.repeats.get? name := by
  induction lists generalizing c with
  | nil => cases hok; rfl
  | cons list rest ih =>
    obtain ⟨e, he, hrest⟩ := bindLists_cons_eq_ok hok
    rw [ih hrest fun later hlater => hother later (List.mem_cons_of_mem list hlater),
      (bindList_eq_ok he).2, Dict.get?_insert_ite,
      if_neg (hother list List.mem_cons_self).symm]

/-! ## Expansions -/

/-- The command has the value for the name, and sends it with every statement that uses the
name. -/
structure Sends (c : Command) (name : String) (v : Value) : Prop where
  holds : c.catalog.Holds name v
  sent : ∀ (sql : String) (used : List String) (row : Nat), name ∈ used →
    ∃ b ∈ (c.catalog.statement sql used row).binds, b.name = name ∧ b.direction.isInput = true ∧
      b.carried = .scalar v ∧ ∀ b' ∈ (c.catalog.statement sql used row).binds, b'.name = name → b' = b

theorem Sends.unique {v w : Value} (hv : c.Sends name v) (hw : c.catalog.Holds name w) : v = w := by
  obtain ⟨s, hs, hpayload, _⟩ := hv.holds
  obtain ⟨t, ht, htpayload, _⟩ := hw
  rw [hs] at ht
  cases ht
  rw [hpayload] at htpayload
  exact Payload.scalar.inj htpayload

/-- The expansion of a list that was bound last under its name has a placeholder for each of its
elements, and for each a value is sent: the element, or what the latest other list gave the name. -/
theorem expansion_sends {c₀ : Command} {before after : List ListBind} {list : ListBind}
    (h₀ : Initial c₀) (hok : c₀.bindLists (before ++ list :: after) = .ok c)
    (hlast : ∀ later ∈ after, later.name ≠ list.name) :
    (∀ sep, Template.renderNode c.context c.repeats (.expand list.name sep) =
      .ok (Template.expanded list.name sep list.values.length)) ∧
    ∀ k v, list.values[k]? = some v →
      ∃ w, c.Sends (Placeholder.numbered list.name k) w ∧
        ((∀ later ∈ after, ∀ u, ¬ later.Gives (Placeholder.numbered list.name k) u) → w = v) ∧
        ∀ u, Latest after (Placeholder.numbered list.name k) u → w = u := by
  obtain ⟨d, e, hd, he, hafter⟩ := bindLists_append_eq_ok hok
  have hvalid₀ : c₀.catalog.Valid := h₀.catalog.valid
  have hvalid := valid_of_run hvalid₀ (run_of_bindLists hd)
  have hvalid' := valid_of_run hvalid (run_of_bindList he)
  have hc := valid_of_run hvalid' (run_of_bindLists hafter)
  constructor
  · intro sep
    have hrepeats : c.repeats.get? list.name = some list.values.length := by
      rw [bindLists_repeats hafter hlast, (bindList_eq_ok he).2, Dict.get?_insert_ite, if_pos rfl]
    simp only [Template.renderNode, Template.expansionCount?, hrepeats]
  · intro k v hv
    have hgives : list.Gives (Placeholder.numbered list.name k) v := ⟨k, hv, rfl⟩
    have hlatest : ∀ u, Latest after (Placeholder.numbered list.name k) u →
        c.catalog.Holds (Placeholder.numbered list.name k) u := fun u hu =>
      holds_of_latest hvalid' hafter hu
    have hown : (∀ later ∈ after, ∀ u, ¬ later.Gives (Placeholder.numbered list.name k) u) →
        c.catalog.Holds (Placeholder.numbered list.name k) v := fun hnone =>
      holds_of_latest hvalid₀ hok ⟨before, list, after, rfl, hgives, hnone⟩
    -- Either a later list makes up the name, and the latest of them decides, or none does.
    have hsome : ∃ w, c.catalog.Holds (Placeholder.numbered list.name k) w := by
      by_cases hlater : ∃ later ∈ after, ∃ u, later.Gives (Placeholder.numbered list.name k) u
      · obtain ⟨later, hmem, u, hu⟩ := hlater
        obtain ⟨w, hw⟩ := exists_latest hmem hu
        exact ⟨w, hlatest w hw⟩
      · exact ⟨v, hown fun later hmem u hu => hlater ⟨later, hmem, u, hu⟩⟩
    obtain ⟨w, hw⟩ := hsome
    have hsends : c.Sends (Placeholder.numbered list.name k) w :=
      ⟨hw, fun sql used row hused => hw.sent hc hused sql row⟩
    exact ⟨w, hsends, fun hnone => hsends.unique (hown hnone),
      fun u hu => hsends.unique (hlatest u hu)⟩

/-- A list whose last element has the name `a10`. -/
def elevenNumbers : ListBind := ⟨"a", [.int 0, .int 1, .int 2, .int 3, .int 4, .int 5, .int 6,
  .int 7, .int 8, .int 9, .int 10]⟩

def oneNumber : ListBind := ⟨"a1", [.int 99]⟩

/-- A list that was bound before makes no difference, nor does a later one with names of its own. -/
theorem expansion_sends_eleven :
    let before : List ListBind := [oneNumber]
    let after : List ListBind := [⟨"a2", [.int 7]⟩]
    ∃ c, Initial (ofText "") ∧
      (ofText "").bindLists (before ++ elevenNumbers :: after) = .ok c ∧
      (∀ later ∈ after, later.name ≠ elevenNumbers.name) ∧ c.Sends "a10" (.int 10) := by
  intro before after
  have hok : ∃ c, (ofText "").bindLists (before ++ elevenNumbers :: after) = .ok c := ⟨_, rfl⟩
  obtain ⟨c, hok⟩ := hok
  have hlast : ∀ later ∈ after, later.name ≠ elevenNumbers.name := by decide
  obtain ⟨w, hw, hown, _⟩ := (expansion_sends (.ofText "") hok hlast).2 10 (.int 10) rfl
  have hnone : ∀ later ∈ after, ∀ u, ¬ later.Gives "a10" u := by
    intro later hlater u hu
    rw [List.mem_singleton.mp hlater] at hu
    obtain ⟨k, hk, hname⟩ := hu
    cases k with
    | zero => exact absurd hname (by decide)
    | succ k => simp at hk
  exact ⟨c, .ofText "", hok, hlast, hown hnone ▸ hw⟩

/-- A later list whose name ends in a digit takes over an element: the expansion of the first list
sends 99 for the number 10. -/
theorem element_overwritten :
    ∃ c, (ofText "").bindLists [elevenNumbers, oneNumber] = .ok c ∧
      elevenNumbers.values[10]? = some (.int 10) ∧ c.Sends (Placeholder.numbered "a" 10) (.int 99) ∧
      ¬ c.catalog.Holds (Placeholder.numbered "a" 10) (.int 10) := by
  have hok : ∃ c, (ofText "").bindLists [elevenNumbers, oneNumber] = .ok c := ⟨_, rfl⟩
  obtain ⟨c, hok⟩ := hok
  have hvalid : (ofText "").catalog.Valid := (Initial.ofText "").catalog.valid
  have hlatest : Latest [elevenNumbers, oneNumber] (Placeholder.numbered "a" 10) (.int 99) :=
    ⟨[elevenNumbers], oneNumber, [], rfl, ⟨0, rfl, by decide⟩, by simp⟩
  have hholds := holds_of_latest hvalid hok hlatest
  have hsends : c.Sends (Placeholder.numbered "a" 10) (.int 99) :=
    ⟨hholds, fun sql used row hused =>
      hholds.sent (valid_of_run hvalid (run_of_bindLists hok)) hused sql row⟩
  exact ⟨c, hok, rfl, hsends, fun h =>
    absurd (Value.int.inj (hsends.unique h)) (by decide)⟩

end SqlTemplate.Command
