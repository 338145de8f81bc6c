import SqlTemplate.Template.Prune
/-!
The places of failures.

A failure is placed by the source from there on, and reported by the line and the column behind what
is in front. What is proved:
  1. `exists_line`: the line and the column behind the front of a text are those of a line of the
     text, the column at most one behind its end.
  2. `children_among`, `branch_among`, `members_among`: the tree is built of the events given, and
     fails at the place of one of them or at the tag that was opened.
  3. `ofEvents_among`: so it fails at the place of an event, or at the end of the source.
-/

namespace SqlTemplate.Template

/-! ## Lines and columns -/

theorem length_splitOn (c : Char) (cs : List Char) : (cs.splitOn c).length = cs.count c + 1 := by
  induction cs with
  | nil => rfl
  | cons d cs ih =>
    rw [List.splitOn_cons_eq_if_modifyHead, List.count_cons]
    split
    · rw [List.length_cons, ih]
    · rw [List.length_modifyHead, ih, Nat.add_zero]

/-- A text is one line, or ends with the line behind its last line feed. The column is counted in
that line. -/
theorem last_line (cs : List Char) :
    ('\n' ∉ cs ∧ columnAfter cs = cs.length + 1) ∨
    ∃ above last, cs = above ++ '\n' :: last ∧ '\n' ∉ last ∧ columnAfter cs = last.length + 1 := by
  have column {last above : List Char} (hlast : '\n' ∉ last) (hcs : cs.reverse = last ++ above)
      (habove : ∀ c ∈ above.head?, c = '\n') : columnAfter cs = last.length + 1 := by
    rw [columnAfter, hcs, (Text.longestRun_ne hlast habove).takeWhile_append]
  by_cases h : '\n' ∈ cs
  · obtain ⟨last, above, hcs, hlast⟩ := List.eq_append_cons_of_mem (List.mem_reverse.mpr h)
    refine .inr ⟨above.reverse, last.reverse, ?_, by simpa using hlast, ?_⟩
    · rw [← List.reverse_reverse cs, hcs]
      simp
    · rw [column hlast hcs (by rintro c ⟨⟩; rfl), List.length_reverse]
  · have hlast : '\n' ∉ cs.reverse := by simpa using h
    refine .inl ⟨h, ?_⟩
    rw [column hlast (List.append_nil _).symm (fun c hc => by cases hc), List.length_reverse]

theorem splitOn_append_of_not_mem {front : List Char} (h : '\n' ∉ front) (rest : List Char) :
    ∃ more lines, (front ++ rest).splitOn '\n' = (front ++ more) :: lines := by
  by_cases hrest : '\n' ∈ rest
  · obtain ⟨more, below, rfl, hmore⟩ := List.eq_append_cons_of_mem hrest
    refine ⟨more, below.splitOn '\n', ?_⟩
    rw [← List.append_assoc]
    exact List.splitOn_append_cons_self_of_not_mem (List.not_mem_append h hmore) below
  · exact ⟨rest, [], List.splitOn_eq_singleton (List.not_mem_append h hrest)⟩

theorem exists_line (front rest : List Char) :
    ∃ line, ((front ++ rest).splitOn '\n')[front.count '\n']? = some line ∧
      columnAfter front ≤ line.length + 1 := by
  rcases last_line front with ⟨hnone, hcolumn⟩ | ⟨above, last, rfl, hlast, hcolumn⟩
  · obtain ⟨more, lines, hsplit⟩ := splitOn_append_of_not_mem hnone rest
    refine ⟨front ++ more, ?_, ?_⟩
    · rw [List.count_eq_zero.mpr hnone, hsplit]
      rfl
    · rw [hcolumn, List.length_append]
      omega
  · obtain ⟨more, lines, hsplit⟩ := splitOn_append_of_not_mem hlast rest
    have hcount : (above ++ '\n' :: last).count '\n' = (above.splitOn '\n').length := by
      rw [length_splitOn, List.count_append, List.count_cons_self, List.count_eq_zero.mpr hlast]
    refine ⟨last ++ more, ?_, ?_⟩
    · rw [List.append_assoc, List.cons_append, List.splitOn_append_cons_self, hsplit, hcount,
        List.getElem?_append_right (Nat.le_refl _), Nat.sub_self]
      rfl
    · rw [hcolumn, List.length_append]
      omega

/-- A failure is reported at a line of the source, and in it or behind its end. -/
theorem Failure.exists_line (e : Failure) (source : List Char) :
    ∃ written, e.line source ≤ 1 + source.count '\n' ∧
      (source.splitOn '\n')[e.line source - 1]? = some written ∧
      e.column source ≤ 1 + written.length := by
  obtain ⟨written, hwritten, hcolumn⟩ :=
    Template.exists_line (e.before source) (source.drop (source.length - e.here.length))
  rw [Failure.before, List.take_append_drop] at hwritten
  have hline := (List.getElem?_eq_some_iff.mp hwritten).1
  rw [length_splitOn] at hline
  refine ⟨written, ?_, hwritten, ?_⟩
  · rw [Failure.line, lineAfter, Failure.before]
    omega
  · rw [Failure.column, Nat.add_comm]
    exact hcolumn

/-! ## The tree builder -/

def Places (P : List Char → Prop) (es : List Located) : Prop := ∀ e ∈ es, P e.here

theorem Places.head {P : List Char → Prop} {e : Located} {es : List Located}
    (h : Places P (e :: es)) : P e.here := h e List.mem_cons_self

theorem Places.tail {P : List Char → Prop} {e : Located} {es : List Located}
    (h : Places P (e :: es)) : Places P es := fun l hl => h l (List.mem_cons_of_mem e hl)

/-- A reader of events leaves events at good places, or fails at a good place. -/
def Among {α : Type} (P : List Char → Prop) (rest : α → List Located) : Except Failure α → Prop
  | .ok a => Places P (rest a)
  | .error e => P e.here

theorem Among.of_ok {α : Type} {P : List Char → Prop} {rest : α → List Located}
    {x : Except Failure α} {a : α} (h : Among P rest x) (hx : x = .ok a) : Places P (rest a) := by
  rwa [hx] at h

theorem Among.of_error {α : Type} {P : List Char → Prop} {rest : α → List Located}
    {x : Except Failure α} {e : Failure} (h : Among P rest x) (hx : x = .error e) : P e.here := by
  rwa [hx] at h

section
variable {P : List Char → Prop} {here : List Char} (hhere : P here)
include hhere

theorem condition_among (tag : String) (c : Option String) (attributes : List (String × String)) :
    Among P (fun _ => []) (condition tag here c attributes) := by
  fun_induction condition tag here c attributes with
  | case1 => exact nofun
  | case2 => exact hhere
  | case3 => exact hhere
  | case4 c name value rest _ _ ih => exact ih

theorem separator_among (sep : String) (attributes : List (String × String)) :
    Among P (fun _ => []) (separator here sep attributes) := by
  fun_induction separator here sep attributes with
  | case1 => exact nofun
  | case2 => exact hhere
  | case3 sep name value rest _ ih => exact ih

theorem textOnly_among (es : List Located) (hes : Places P es) :
    Among P (fun a => a.2.1) (textOnly here es) := by
  induction es with
  | nil => exact hhere
  | cons e r ih =>
    have hr := ih hes.tail
    rw [textOnly]
    split
    · split
      · rename_i heq
        exact hr.of_error heq
      · rename_i heq
        exact hr.of_ok heq
    · split
      · exact hes.tail
      · exact hes.head
    · exact hes.head

theorem expansion_among (attributes : List (String × String)) (empty : Bool) (es : List Located)
    (hes : Places P es) : Among P (fun a => a.2.1) (expansion attributes empty here es) := by
  have hsep := separator_among hhere defaultSeparator attributes
  have htext := textOnly_among hhere es hes
  rw [expansion]
  split
  · rename_i heq
    exact hsep.of_error heq
  · split
    · exact hhere
    · split
      · rename_i heq
        exact htext.of_error heq
      · rename_i heq
        split
        · exact htext.of_ok heq
        · exact hhere

end

theorem nextMember?_among {P : List Char → Prop} {es : List Located} {m : NextMember es}
    (h : nextMember? es = some m) (hes : Places P es) : P m.here ∧ Places P m.rest.1 := by
  induction es with
  | nil => cases h
  | cons e r ih =>
    rw [nextMember?] at h
    split at h
    · split at h
      · obtain ⟨m', hm', rfl⟩ := Option.map_eq_some_iff.mp h
        exact ih hm' hes.tail
      · cases h
    · split at h
      · cases h
        exact ⟨hes.head, hes.tail⟩
      · cases h
    · cases h

-- The recursion of the builder itself, with its measures.
mutual

theorem children_among {P : List Char → Prop} (parent : String) {opened : List Char} (scope : Scope)
    (es : List Located) (hopened : P opened) (hes : Places P es) :
    Among P (fun a => a.2.1) (children parent opened scope es) := by
  cases es with
  | nil => rw [children]; exact hopened
  | cons e r =>
    rw [children]
    split
    · have hr := children_among parent scope r hopened hes.tail
      split
      · rename_i heq
        exact hr.of_error heq
      · rename_i heq
        exact hr.of_ok heq
    · split
      · exact hes.tail
      · exact hes.head
    · rename_i name attributes empty _
      split
      · have hbranch := branch_among "if" attributes empty r hes.head hes.tail
        split
        · rename_i heq
          exact hbranch.of_error heq
        · rename_i c body r₁ h₁ heq
          have hmembers := members_among r₁ (hbranch.of_ok heq)
          split
          · rename_i heq
            exact hmembers.of_error heq
          · rename_i rest gap r₂ h₂ heq
            have hr := children_among parent scope r₂ hopened (hmembers.of_ok heq)
            split
            · rename_i heq
              exact hr.of_error heq
            · rename_i heq
              exact hr.of_ok heq
      · split
        · split
          · have hexpansion := expansion_among hes.head attributes empty r hes.tail
            split
            · rename_i heq
              exact hexpansion.of_error heq
            · rename_i n r₁ h₁ heq
              have hr := children_among parent scope r₁ hopened (hexpansion.of_ok heq)
              split
              · rename_i heq
                exact hr.of_error heq
              · rename_i heq
                exact hr.of_ok heq
          · exact hes.head
        · split <;> exact hes.head
termination_by 3 * es.length
decreasing_by all_goals subst_vars; simp only [List.length_cons]; omega

theorem branch_among {P : List Char → Prop} (tag : String) (attributes : List (String × String))
    (empty : Bool) {here : List Char} (es : List Located) (hhere : P here) (hes : Places P es) :
    Among P (fun a => a.2.2.1) (branch tag attributes empty here es) := by
  have hcondition := condition_among hhere tag none attributes
  rw [branch]
  split
  · rename_i heq
    exact hcondition.of_error heq
  · rename_i c _
    split
    · exact hhere
    · split
      · exact hes
      · have hr := children_among tag (if c.isNone then .implicitBranch else .body) es hhere hes
        split
        · rename_i heq
          exact hr.of_error heq
        · rename_i heq
          exact hr.of_ok heq
termination_by 3 * es.length + 1
decreasing_by omega

theorem members_among {P : List Char → Prop} (es : List Located) (hes : Places P es) :
    Among P (fun a => a.2.2.1) (members es) := by
  rw [members]
  split
  · exact hes
  · rename_i m hm
    have hlt := m.rest.2
    obtain ⟨hplace, hrest⟩ := nextMember?_among hm hes
    split
    · split
      · exact hplace
      · split
        · exact hrest
        · have hr := children_among "else" .body m.rest.1 hplace hrest
          split
          · rename_i heq
            exact hr.of_error heq
          · rename_i heq
            exact hr.of_ok heq
    · have hbranch := branch_among "elsif" m.attributes m.empty m.rest.1 hplace hrest
      split
      · rename_i heq
        exact hbranch.of_error heq
      · rename_i c body r₁ h₁ heq
        have hr := members_among r₁ (hbranch.of_ok heq)
        split
        · rename_i heq
          exact hr.of_error heq
        · rename_i heq
          exact hr.of_ok heq
termination_by 3 * es.length + 2
decreasing_by all_goals omega

end

theorem skipBlank_among {P : List Char → Prop} (es : List Located) (hes : Places P es) :
    Among P id (skipBlank es) := by
  fun_induction skipBlank es with
  | case1 => exact nofun
  | case2 e r s _ _ ih => exact ih hes.tail
  | case3 e r => exact hes.head
  | case4 e r => exact hes

/-- The tree is built, or fails at the place of an event or at the end of the source. -/
theorem ofEvents_among {P : List Char → Prop} {es : List Located} {e : Failure} (hnil : P [])
    (hes : Places P es) (h : ofEvents es = .error e) : P e.here := by
  have hblank := skipBlank_among es hes
  unfold ofEvents at h
  split at h
  · rename_i heq
    cases h
    exact hblank.of_error heq
  · cases h
    exact hnil
  · rename_i root r heq
    have hevents : Places P (root :: r) := hblank.of_ok heq
    have hroot : P root.here := hevents.head
    split at h
    · rename_i name _ empty _
      have hinside : Among P Prod.snd
          (if empty then .ok ([], r)
          else (children name root.here .root r).map fun p => (p.1, p.2.1)) := by
        split
        · exact hevents.tail
        · have hr := children_among name .root r hroot hevents.tail
          cases hchildren : children name root.here .root r <;> rwa [hchildren] at hr
      simp only at h
      split at h
      · rename_i heq
        cases h
        exact hinside.of_error heq
      · rename_i ns r' heq
        have hafter := skipBlank_among r' (hinside.of_ok heq)
        split at h
        · rename_i heq
          cases h
          exact hafter.of_error heq
        · cases h
        · rename_i heq
          cases h
          exact (hafter.of_ok heq).head
    · cases h
      exact hroot

end SqlTemplate.Template
