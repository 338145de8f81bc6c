import SqlTemplate.Proofs.Catalog.Execution
/-!
The life cycle of a catalog over whole runs.

A `History` is a run with what came of each call: declarations accepted or refused, resets, and
executions with the calls that reached the engine. Every run has one (`exists_history`). What is
proved:
  1. `declare_answered`: an accepted declaration makes the catalog ready, and a refused one leaves it
     as it is, but for one case. A bind that a declared parameter refuses for its shape or its family
     resets the catalog.
  2. `Emits.building_iff`: so these are the events after which an executed catalog is ready again,
     with the resets, and no others are.
  3. `ready_between_executions`: one of them stands between any two executions that reach the engine.
  4. `history_stale_bind`: a refused bind alone is enough. The engine gets the old values again.
-/

namespace SqlTemplate.Catalog

open Engine (Statement Call)

variable {c d e : Catalog}

/-! ## Answers to declarations -/

/-- The error with which a declared parameter refuses a bind. -/
inductive Clash (name : String) : Error → Prop
  | otherShape (declared asked : Shape) : Clash name (.argument name (.otherShape declared asked))
  | otherFamily (declared asked : Family) :
      Clash name (.argument name (.otherFamily declared asked))

/-- What a declaration of `name` answers and leaves. -/
inductive Answered (c : Catalog) (name : String) : Except Error Unit × Catalog → Prop
  | accepted {d : Catalog} (hphase : d.phase = .building) : Answered c name (.ok (), d)
  | refused {e : Error} (hclash : ¬ Clash name e) : Answered c name (.error e, c)
  | clash {e : Error} (hclash : Clash name e) : Answered c name (.error e, c.reset)

theorem clash_of_clash? {s : Spec} {p : Payload} {family : Option Family} {misuse : Misuse}
    (h : clash? s p family = some misuse) (name : String) : Clash name (.argument name misuse) := by
  unfold clash? at h
  split at h
  · cases h
    exact .otherShape ..
  · split at h
    · split at h
      · cases h
      · cases h
        exact .otherFamily ..
    · cases h

theorem not_clash_of_rowValues {count : Option Nat} {values : List Value} {misuse : Misuse}
    (h : rowValues count values = .error misuse) (name : String) :
    ¬ Clash name (.argument name misuse) := by
  intro hclash
  unfold rowValues at h
  split at h <;> split at h <;> cases h <;> cases hclash

theorem not_clash_of_commonFamily {found : Option Family} {values : List Value} {misuse : Misuse}
    (h : commonFamily found values = .error misuse) (name : String) :
    ¬ Clash name (.argument name misuse) := by
  intro hclash
  fun_induction commonFamily found values with
  | case1 => cases h
  | case2 => cases h; cases hclash
  | case3 _ _ _ _ _ ih => exact ih h
  | case4 _ _ _ _ _ ih => exact ih h
  | case5 _ _ _ _ _ ih => exact ih h
  | case6 => cases h; cases hclash

section
variable (c : Catalog) (name : String)

theorem bind_answered (p : Payload) (family : Option Family) :
    Answered c name (c.bind name p family) := by
  rcases bind_cases c name p family with ⟨s, misuse, _, hclash, he⟩ | ⟨_, he⟩ | ⟨_, _, _, he⟩ <;>
    rw [he]
  · exact .clash (clash_of_clash? hclash name)
  · exact .accepted rfl
  · exact .accepted (update_phase ..)

theorem bindScalar_answered (v : Value) : Answered c name (c.bindScalar name v) := by
  cases v with
  | seq items => exact .refused (by rintro ⟨⟩)
  | _ => exact bind_answered c name _ _

theorem bindArray_answered (values : List Value) : Answered c name (c.bindArray name values) := by
  unfold bindArray
  cases hkept : rowValues c.count values with
  | error misuse => exact .refused (not_clash_of_rowValues hkept name)
  | ok kept =>
    cases hfamily : commonFamily none kept with
    | error misuse =>
      simp only [hfamily]
      exact .refused (not_clash_of_commonFamily hfamily name)
    | ok family =>
      have hbind := bind_answered c name (.array kept) family
      simp only [hfamily]
      -- The number of rows that is set on success does not concern the phase.
      generalize c.bind name (.array kept) family = r at hbind
      cases hbind with
      | accepted hphase => exact .accepted hphase
      | refused hclash => exact .refused hclash
      | clash hclash => exact .clash hclash

theorem bindAssoc_answered (entries : Option (List (UInt32 × Value))) :
    Answered c name (c.bindAssoc name entries) := by
  cases entries with
  | none => exact .refused (by rintro ⟨⟩)
  | some es =>
    unfold bindAssoc
    simp only
    split
    · exact .refused (by rintro ⟨⟩)
    · split
      · rename_i hfamily
        exact .refused (not_clash_of_commonFamily hfamily name)
      · exact bind_answered c name _ _

theorem declareOutput_answered : Answered c name (c.declareOutput name) := by
  unfold declareOutput
  split
  · exact .accepted rfl
  · split
    · exact .refused (by rintro ⟨⟩)
    · exact .accepted (update_phase ..)

theorem declareAssocOutput_answered (k : Nat) :
    Answered c name (c.declareAssocOutput name k) := by
  unfold declareAssocOutput
  split
  · exact .refused (by rintro ⟨⟩)
  · split
    · exact .accepted rfl
    · split
      · exact .refused (by rintro ⟨⟩)
      · exact .accepted (update_phase ..)

theorem declare_answered (d : Declaration) : Answered c d.name (c.declare d) := by
  cases d with
  | scalar name v => exact bindScalar_answered c name v
  | array name values => exact bindArray_answered c name values
  | assoc name entries => exact bindAssoc_answered c name entries
  | assocList name values => exact bindAssoc_answered c name _
  | output name => exact declareOutput_answered c name
  | assocOutput name k => exact declareAssocOutput_answered c name k

end

/-! ## Histories -/

/-- A call on a catalog with what came of it. -/
inductive Event where
  | accepted (d : Declaration)
  | refused (d : Declaration) (e : Error)
  | reset
  | executed (calls : List Call)

/-- The event makes an executed catalog ready: an accepted declaration, a reset, or a bind that a
declared parameter refused. -/
inductive Event.Readies : Event → Prop
  | accepted (d : Declaration) : Readies (.accepted d)
  | reset : Readies .reset
  | clash (d : Declaration) {e : Error} (h : Clash d.name e) : Readies (.refused d e)

/-- One call, from the catalog before it to the catalog after it. -/
inductive Emits : Catalog → Event → Catalog → Prop
  | accepted {c d : Catalog} (decl : Declaration) (h : c.declare decl = (.ok (), d)) :
      Emits c (.accepted decl) d
  | refused {c d : Catalog} (decl : Declaration) (e : Error) (h : c.declare decl = (.error e, d)) :
      Emits c (.refused decl e) d
  | reset (c : Catalog) : Emits c .reset c.reset
  | executed {σ : Type} (c : Catalog) (sql : String) (used : List String) (engine : Engine σ)
      (s : σ) : Emits c (.executed (c.calls sql used engine s)) (c.execute sql used engine s).2.1

/-- Any number of calls, one after another. -/
inductive History : Catalog → List Event → Catalog → Prop
  | nil (c : Catalog) : History c [] c
  | cons {c d e : Catalog} {ev : Event} {evs : List Event} (h : Emits c ev d)
      (hs : History d evs e) : History c (ev :: evs) e

theorem exists_emits_declare (c : Catalog) (d : Declaration) :
    ∃ ev, Emits c ev (c.declare d).2 := by
  rcases h : c.declare d with ⟨e | u, _⟩
  · exact ⟨_, .refused d e h⟩
  · exact ⟨_, .accepted d h⟩

theorem History.append {xs ys : List Event} (h₁ : History c xs d) (h₂ : History d ys e) :
    History c (xs ++ ys) e := by
  induction h₁ with
  | nil => exact h₂
  | cons hev _ ih => exact .cons hev (ih h₂)

theorem History.of_append {xs ys : List Event} (h : History c (xs ++ ys) e) :
    ∃ d, History c xs d ∧ History d ys e := by
  induction xs generalizing c with
  | nil => exact ⟨c, .nil c, h⟩
  | cons ev xs ih =>
    cases h with
    | cons hev hs =>
      obtain ⟨d, hxs, hys⟩ := ih hs
      exact ⟨d, .cons hev hxs, hys⟩

theorem exists_history (h : Run c d) : ∃ evs, History c evs d := by
  induction h with
  | refl => exact ⟨[], .nil c⟩
  | tail _ hs ih =>
    obtain ⟨evs, hevs⟩ := ih
    cases hs with
    | declare decl =>
      obtain ⟨ev, hev⟩ := exists_emits_declare _ decl
      exact ⟨_, hevs.append (.cons hev (.nil _))⟩
    | reset => exact ⟨_, hevs.append (.cons (.reset _) (.nil _))⟩
    | validate names => exact ⟨_, hevs⟩
    | execute sql used engine s =>
      exact ⟨_, hevs.append (.cons (.executed _ sql used engine s) (.nil _))⟩

/-! ## The phase -/

/-- Only a ready catalog reaches the engine, and it is executed afterwards. -/
theorem Emits.of_calls {calls : List Call} (h : Emits c (.executed calls) d) (hne : calls ≠ []) :
    c.phase = .building ∧ d.phase = .executed := by
  cases h with
  | executed _ sql used engine s =>
    rcases execute_changes c sql used engine s with ⟨hcalls, _⟩ | ⟨hphase, hd⟩
    · exact absurd hcalls hne
    · exact ⟨hphase, by rw [hd]⟩

/-- An executed catalog is ready after exactly the events that make it so. -/
theorem Emits.building_iff {ev : Event} (h : Emits c ev d) (hc : c.phase = .executed) :
    d.phase = .building ↔ ev.Readies := by
  cases h with
  | accepted decl h =>
    have hanswered := declare_answered c decl
    rw [h] at hanswered
    cases hanswered with
    | accepted hphase => exact iff_of_true hphase (.accepted decl)
  | refused decl e h =>
    have hanswered := declare_answered c decl
    rw [h] at hanswered
    cases hanswered with
    | refused hclash =>
      refine iff_of_false (by rw [hc]; decide) ?_
      rintro ⟨⟩
      contradiction
    | clash hclash => exact iff_of_true rfl (.clash decl hclash)
  | reset => exact iff_of_true rfl .reset
  | executed _ sql used engine s =>
    refine iff_of_false ?_ (by rintro ⟨⟩)
    -- Without a call the catalog is the same, and with one it is executed.
    rcases execute_changes c sql used engine s with ⟨_, hd⟩ | ⟨_, hd⟩ <;> rw [hd]
    · rw [hc]; decide
    · rintro ⟨⟩

theorem executed_of_history {evs : List Event} (h : History c evs d)
    (hevs : ∀ ev ∈ evs, ¬ ev.Readies) (hc : c.phase = .executed) : d.phase = .executed := by
  induction h with
  | nil => exact hc
  | @cons c d e ev evs hev _ ih =>
    have hnot : d.phase ≠ .building := fun hd =>
      hevs ev List.mem_cons_self ((hev.building_iff hc).mp hd)
    have hd : d.phase = .executed := by
      cases hphase : d.phase with
      | building => exact absurd hphase hnot
      | executed => rfl
    exact ih (fun ev hmem => hevs ev (List.mem_cons_of_mem _ hmem)) hd

/-- Between two executions that reach the engine a declaration was accepted, or a reset came, or a
declared parameter refused a bind. -/
theorem ready_between_executions {before between after : List Event} {first second : List Call}
    (h : History c (before ++ .executed first :: (between ++ .executed second :: after)) d)
    (hfirst : first ≠ []) (hsecond : second ≠ []) : ∃ ev ∈ between, ev.Readies := by
  obtain ⟨c₁, _, h⟩ := h.of_append
  cases h with
  | cons hev h =>
    obtain ⟨_, hexecuted⟩ := hev.of_calls hfirst
    obtain ⟨c₃, hbetween, h⟩ := h.of_append
    cases h with
    | cons hev _ =>
      obtain ⟨hbuilding, _⟩ := hev.of_calls hsecond
      refine Classical.byContradiction fun hnone => ?_
      have hstays := executed_of_history hbetween
        (fun ev hmem hready => hnone ⟨ev, hmem, hready⟩) hexecuted
      rw [hbuilding] at hstays
      cases hstays

/-- Refusals and an execution that misses a name do not make a catalog ready; the same value does,
when it is bound again. -/
theorem ready_between_rebound :
    let sql := "delete from t where id = :id"
    let call : Call := .execute ⟨sql, [⟨"id", .input, .scalar (.int 1), none⟩]⟩
    let one : Declaration := .scalar "id" (.int 1)
    let list : Declaration := .scalar "id" (.seq [])
    let between : List Event := [.refused list (.argument "id" .sequence), .executed [],
      .accepted one]
    ∃ d, History ∅ ([.accepted one] ++ .executed [call] :: (between ++ .executed [call] :: [])) d ∧
      [call] ≠ [] ∧ ∃ ev ∈ between, ev.Readies := by
  intro sql call one list between
  let engine := Engine.scripted ⟨none, none, none⟩
  have h : ∃ d, History ∅
      ([.accepted one] ++ .executed [call] :: (between ++ .executed [call] :: [])) d :=
    ⟨_, .cons (.accepted one rfl) <| .cons (.executed _ sql ["id"] engine []) <|
      .cons (.refused list _ rfl) <| .cons (.executed _ sql ["name"] engine []) <|
      .cons (.accepted one rfl) <| .cons (.executed _ sql ["id"] engine []) <| .nil _⟩
  obtain ⟨d, h⟩ := h
  exact ⟨d, h, by simp, ready_between_executions h (by simp) (by simp)⟩

/-- A text for a number is refused, and the statement is sent a second time with the number. -/
theorem history_stale_bind :
    let sql := "delete from t where id = :id"
    let call : Call := .execute ⟨sql, [⟨"id", .input, .scalar (.int 1), none⟩]⟩
    let refusal := Error.argument "id" (.otherFamily .number .text)
    ∃ d, History ∅ [.accepted (.scalar "id" (.int 1)), .executed [call],
      .refused (.scalar "id" (.text "x")) refusal, .executed [call]] d := by
  intro sql call refusal
  let engine := Engine.scripted ⟨none, none, none⟩
  exact ⟨_, .cons (.accepted _ rfl) <| .cons (.executed _ sql ["id"] engine []) <|
    .cons (.refused _ refusal rfl) <| .cons (.executed _ sql ["id"] engine []) <| .nil _⟩

end SqlTemplate.Catalog
