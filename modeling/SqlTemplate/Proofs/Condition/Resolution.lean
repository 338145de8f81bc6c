import SqlTemplate.Error
/-!
Which variables a condition asks for.

Evaluation looks for variables without a value first, and then finds the truth by a recursion of its
own, in which such a variable would count as null. What is proved:
  1. `mem_vars_iff`: the variables that are looked up first are exactly those that stand somewhere in
     the condition.
  2. `unknown?_eq_some_iff`: the one that is reported is the leftmost without a value, and one is
     reported if there is any (`unknown?_eq_none_iff`).
  3. `denotes_iff`: the value that is found is the one by rules that know of no absent variable
     (`Denotes`), so the recursion never falls back on null.
  4. `value_congr`: it takes nothing from the context but the variables of the condition.
  5. `evaluate_resolves`: what these say of an evaluation.
-/

namespace SqlTemplate.Condition

/-! ## The parts of a condition -/

def parts : Condition → List Condition
  | .var _ | .number _ | .text _ => []
  | .neg c => [c]
  | .both l r | .either l r | .relates _ l r => [l, r]

/-- `d` stands in a condition: it is the condition itself or, at any depth, a part of it. -/
inductive Within (d : Condition) : Condition → Prop
  | self : Within d d
  | part {c e : Condition} (he : e ∈ c.parts) (h : Within d e) : Within d c

@[elab_as_elim]
theorem inductionOnParts {motive : Condition → Prop}
    (step : ∀ c, (∀ d ∈ c.parts, motive d) → motive c) (c : Condition) : motive c := by
  have pair {l r : Condition} (hl : motive l) (hr : motive r) : ∀ d ∈ [l, r], motive d := by
    intro d hd
    rcases List.mem_cons.mp hd with rfl | hd
    · exact hl
    · rw [List.mem_singleton.mp hd]
      exact hr
  induction c with
  | var name => exact step _ nofun
  | number x => exact step _ nofun
  | text s => exact step _ nofun
  | neg c ih =>
    refine step _ fun d hd => ?_
    rw [List.mem_singleton.mp hd]
    exact ih
  | both l r ihl ihr => exact step _ (pair ihl ihr)
  | either l r ihl ihr => exact step _ (pair ihl ihr)
  | relates op l r ihl ihr => exact step _ (pair ihl ihr)

theorem vars_cases (c : Condition) :
    (∃ name, c = .var name) ∨
      (c.vars = c.parts.flatMap vars ∧ ∀ name, c ≠ .var name) := by
  cases c with
  | var name => exact .inl ⟨name, rfl⟩
  | _ => exact .inr ⟨by simp [vars, parts], fun name h => by cases h⟩

theorem within_var_iff {name : String} {c : Condition} :
    Within (.var name) c ↔ c = .var name ∨ ∃ d ∈ c.parts, Within (.var name) d := by
  constructor
  · intro h
    cases h with
    | self => exact .inl rfl
    | part he h => exact .inr ⟨_, he, h⟩
  · intro h
    rcases h with rfl | ⟨d, hd, h⟩
    · exact .self
    · exact .part hd h

theorem mem_vars_iff {name : String} {c : Condition} : name ∈ c.vars ↔ Within (.var name) c := by
  induction c using inductionOnParts with
  | step c ih =>
    rw [within_var_iff]
    rcases vars_cases c with ⟨m, rfl⟩ | ⟨hvars, hne⟩
    · simp [vars, parts, eq_comm]
    · rw [hvars, List.mem_flatMap]
      constructor
      · intro h
        obtain ⟨d, hd, h⟩ := h
        exact .inr ⟨d, hd, (ih d hd).mp h⟩
      · intro h
        obtain ⟨d, hd, h⟩ := h.resolve_left (hne name)
        exact ⟨d, hd, (ih d hd).mpr h⟩

/-! ## The first variable without a value -/

/-- `name` is the leftmost variable with a property: to the left of where it stands there is none
with it. -/
inductive Leftmost (p : String → Prop) (name : String) : Condition → Prop
  | var (h : p name) : Leftmost p name (.var name)
  | part {c d : Condition} {before after : List Condition} (hc : c.parts = before ++ d :: after)
      (hbefore : ∀ e ∈ before, ∀ m, Within (.var m) e → ¬p m) (h : Leftmost p name d) :
      Leftmost p name c

/-- Looking through the variables from left to right finds the leftmost. -/
theorem find?_vars_eq_some_iff {p : String → Bool} {name : String} {c : Condition} :
    c.vars.find? p = some name ↔ Leftmost (fun m => p m = true) name c := by
  induction c using inductionOnParts with
  | step c ih =>
    rcases vars_cases c with ⟨m, rfl⟩ | ⟨hvars, hne⟩
    · constructor
      · intro h
        have hm : name = m := List.mem_singleton.mp (List.mem_of_find?_eq_some h)
        rw [hm] at h ⊢
        exact .var (List.find?_some h)
      · intro h
        cases h with
        | var hp => exact List.find?_cons_of_pos hp
        | part hc => simp [parts] at hc
    · rw [hvars, List.find?_flatMap, List.findSome?_eq_some_iff]
      constructor
      · intro ⟨before, d, after, hc, hfound, hbefore⟩
        have hd : d ∈ c.parts := by rw [hc]; simp
        refine .part hc (fun e he m hm hp => ?_) ((ih d hd).mp hfound)
        exact List.find?_eq_none.mp (hbefore e he) m (mem_vars_iff.mpr hm) hp
      · intro h
        cases h with
        | var => exact absurd rfl (hne name)
        | @part _ d before after hc hbefore h =>
          have hd : d ∈ c.parts := by rw [hc]; simp
          refine ⟨before, d, after, hc, (ih d hd).mpr h, fun e he => ?_⟩
          exact List.find?_eq_none.mpr fun m hm => hbefore e he m (mem_vars_iff.mp hm)

theorem unknown?_eq_some_iff {context : Option Context} {name : String} {c : Condition} :
    c.unknown? context = some name ↔ Leftmost (fun m => lookup? context m = none) name c := by
  rw [unknown?, find?_vars_eq_some_iff]
  simp only [Option.isNone_iff_eq_none]

theorem unknown?_eq_none_iff {context : Option Context} {c : Condition} :
    c.unknown? context = none ↔ ∀ name, Within (.var name) c → lookup? context name ≠ none := by
  simp only [unknown?, List.find?_eq_none, mem_vars_iff, Option.isNone_iff_eq_none]

/-! ## The value -/

/-- The value of a condition, where a variable has the value that the context gives it and, without
one, the condition has none either. -/
inductive Denotes (context : Option Context) : Condition → Value → Prop
  | var {name : String} {v : Value} (h : lookup? context name = some v) :
      Denotes context (.var name) v
  | number (x : Binary64) : Denotes context (.number x) (.float x)
  | text (s : String) : Denotes context (.text s) (.text s)
  | neg {c : Condition} {v : Value} (h : Denotes context c v) :
      Denotes context (.neg c) (.bool (!v.truthy))
  | both {l r : Condition} {v w : Value} (hl : Denotes context l v) (hr : Denotes context r w) :
      Denotes context (.both l r) (.bool (v.truthy && w.truthy))
  | either {l r : Condition} {v w : Value} (hl : Denotes context l v) (hr : Denotes context r w) :
      Denotes context (.either l r) (.bool (v.truthy || w.truthy))
  | relates (op : RelOp) {l r : Condition} {v w : Value} (hl : Denotes context l v)
      (hr : Denotes context r w) : Denotes context (.relates op l r) (.bool (Value.compare op v w))

section
variable {context : Option Context}

theorem Denotes.known {c : Condition} {v : Value} (h : Denotes context c v) :
    ∀ name ∈ c.vars, lookup? context name ≠ none := by
  induction h with
  | var h =>
    intro name hname
    rw [List.mem_singleton.mp hname, h]
    exact Option.some_ne_none _
  | number x => exact nofun
  | text s => exact nofun
  | neg _ ih => exact ih
  | both _ _ ihl ihr => exact List.forall_mem_append.mpr ⟨ihl, ihr⟩
  | either _ _ ihl ihr => exact List.forall_mem_append.mpr ⟨ihl, ihr⟩
  | relates _ _ _ ihl ihr => exact List.forall_mem_append.mpr ⟨ihl, ihr⟩

theorem Denotes.value_eq {c : Condition} {v : Value} (h : Denotes context c v) :
    value context c = v := by
  induction h with
  | var h => rw [value, h, Option.getD_some]
  | number x => rfl
  | text s => rfl
  | neg _ ih => rw [value, ih]
  | both _ _ ihl ihr | either _ _ ihl ihr | relates _ _ _ ihl ihr => rw [value, ihl, ihr]

theorem denotes_value {c : Condition} (h : ∀ name ∈ c.vars, lookup? context name ≠ none) :
    Denotes context c (value context c) := by
  induction c with
  | var name =>
    obtain ⟨v, hv⟩ := Option.ne_none_iff_exists'.mp (h name List.mem_cons_self)
    rw [value, hv]
    exact .var hv
  | number x => exact .number x
  | text s => exact .text s
  | neg c ih => exact .neg (ih h)
  | both l r ihl ihr =>
    obtain ⟨hl, hr⟩ := List.forall_mem_append.mp h
    exact .both (ihl hl) (ihr hr)
  | either l r ihl ihr =>
    obtain ⟨hl, hr⟩ := List.forall_mem_append.mp h
    exact .either (ihl hl) (ihr hr)
  | relates op l r ihl ihr =>
    obtain ⟨hl, hr⟩ := List.forall_mem_append.mp h
    exact .relates op (ihl hl) (ihr hr)

/-- A condition has the value that evaluation finds, as long as all its variables have values. -/
theorem denotes_iff {c : Condition} {v : Value} :
    Denotes context c v ↔ c.unknown? context = none ∧ value context c = v := by
  have hknown : c.unknown? context = none ↔ ∀ name ∈ c.vars, lookup? context name ≠ none := by
    simp only [unknown?_eq_none_iff, mem_vars_iff]
  rw [hknown]
  constructor
  · intro h
    exact ⟨h.known, h.value_eq⟩
  · intro ⟨h, hv⟩
    rw [← hv]
    exact denotes_value h

theorem value_congr {other : Option Context} {c : Condition}
    (h : ∀ name ∈ c.vars, lookup? context name = lookup? other name) :
    value context c = value other c := by
  induction c with
  | var name => rw [value, value, h name List.mem_cons_self]
  | number x => rfl
  | text s => rfl
  | neg c ih => rw [value, value, ih h]
  | both l r ihl ihr | either l r ihl ihr | relates op l r ihl ihr =>
    obtain ⟨hl, hr⟩ := List.forall_mem_append.mp h
    rw [value, value, ihl hl, ihr hr]

end

/-! ## Evaluation -/

theorem evaluate_eq_error_iff {context : Option Context} {c : Condition} {name : String} :
    c.evaluate context = .error name ↔ c.unknown? context = some name := by
  unfold evaluate
  cases c.unknown? context <;> simp

theorem evaluate_eq_ok_iff {context : Option Context} {c : Condition} {b : Bool} :
    c.evaluate context = .ok b ↔ c.unknown? context = none ∧ (value context c).truthy = b := by
  unfold evaluate truth
  cases c.unknown? context <;> simp

theorem unknown?_congr {context other : Option Context} {c : Condition}
    (h : ∀ name ∈ c.vars, lookup? context name = lookup? other name) :
    c.unknown? context = c.unknown? other := by
  have hfilter : c.vars.filter (fun m => (lookup? context m).isNone) =
      c.vars.filter (fun m => (lookup? other m).isNone) :=
    List.filter_congr fun name hname => by rw [h name hname]
  rw [unknown?, unknown?, ← List.head?_filter, ← List.head?_filter, hfilter]

theorem evaluate_congr {context other : Option Context} {c : Condition}
    (h : ∀ name ∈ c.vars, lookup? context name = lookup? other name) :
    c.evaluate context = c.evaluate other := by
  rw [evaluate, evaluate, truth, truth, unknown?_congr h, value_congr h]

/-- An evaluation fails if and only if some variable of the condition, wherever it stands, has no
value, and then it names the leftmost one; without a context every variable is such. Otherwise it
gives a truth, which is that of the value by the rules for conditions all of whose variables have
values. Contexts that agree on the variables of the condition give the same answer. A text is
answered as the condition that it writes. -/
theorem evaluate_resolves (context : Option Context) (c : Condition) :
    ((∃ name, c.evaluate context = .error name) ↔
      ∃ name, Within (.var name) c ∧ lookup? context name = none) ∧
    (∀ name, c.evaluate context = .error name ↔
      Leftmost (fun m => lookup? context m = none) name c) ∧
    (∀ name, lookup? none name = none) ∧
    ((∃ name, c.evaluate context = .error name) ∨ ∃ b, c.evaluate context = .ok b) ∧
    (∀ b, c.evaluate context = .ok b ↔ ∃ v, Denotes context c v ∧ v.truthy = b) ∧
    (∀ other, (∀ name, Within (.var name) c → lookup? context name = lookup? other name) →
      c.evaluate context = c.evaluate other) ∧
    (∀ source, parse source = .ok c →
      holds context source = (c.evaluate context).mapError .unknownVariable) := by
  refine ⟨?_, fun name => ?_, fun name => rfl, ?_, fun b => ?_, fun other h => ?_,
    fun source h => ?_⟩
  · simp only [evaluate_eq_error_iff]
    rw [← Option.ne_none_iff_exists', ne_eq, unknown?_eq_none_iff]
    simp
  · rw [evaluate_eq_error_iff, unknown?_eq_some_iff]
  · cases c.evaluate context with
    | error name => exact .inl ⟨name, rfl⟩
    | ok b => exact .inr ⟨b, rfl⟩
  · rw [evaluate_eq_ok_iff]
    constructor
    · intro ⟨hknown, htruth⟩
      exact ⟨value context c, denotes_iff.mpr ⟨hknown, rfl⟩, htruth⟩
    · intro ⟨v, hv, htruth⟩
      obtain ⟨hknown, rfl⟩ := denotes_iff.mp hv
      exact ⟨hknown, htruth⟩
  · exact evaluate_congr fun name hname => h name (mem_vars_iff.mp hname)
  · rw [holds, h]
    cases hc : c.evaluate context with
    | error name => simp only [hc]; rfl
    | ok b => simp only [hc]; rfl

/-- A condition that is false whatever its second part is. Evaluation fails all the same, with a
variable deep in that part, and a value for a variable that is not in the condition is no help. -/
theorem evaluate_resolves_undecided :
    let c : Condition := .both (.var "a")
      (.neg (.relates .eq (.relates .lt (.var "b") (.number (.ofInt 2))) (.var "c")))
    let context := Dict.ofList [("a", Value.int 0)]
    let other := Dict.ofList [("a", Value.int 0), ("d", Value.int 1)]
    parse "$a and not(($b < 2) = $c)" = .ok c ∧
    (∀ name, Within (.var name) c → lookup? (some context) name = lookup? (some other) name) ∧
    Leftmost (fun m => lookup? (some context) m = none) "b" c ∧
    holds (some context) "$a and not(($b < 2) = $c)" = .error (.unknownVariable "b") ∧
    c.evaluate (some other) = .error "b" := by
  intro c context other
  have hparse : parse "$a and not(($b < 2) = $c)" = .ok c := by decide +kernel
  have hagree : ∀ name, Within (.var name) c →
      lookup? (some context) name = lookup? (some other) name := by
    have hvars : ∀ name ∈ ["a", "b", "c"],
        lookup? (some context) name = lookup? (some other) name := by
      simp only [List.forall_mem_cons]
      exact ⟨rfl, rfl, rfl, nofun⟩
    exact fun name hname => hvars name (mem_vars_iff.mpr hname)
  obtain ⟨_, hleftmost, _, _, _, hother, hsource⟩ := evaluate_resolves (some context) c
  have hb : c.evaluate (some context) = .error "b" := rfl
  refine ⟨hparse, hagree, (hleftmost "b").mp hb, ?_, ?_⟩
  · rw [hsource _ hparse, hb]
    rfl
  · rw [← hother _ hagree, hb]

end SqlTemplate.Condition
