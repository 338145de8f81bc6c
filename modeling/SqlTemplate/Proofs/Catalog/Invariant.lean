import Mathlib.Logic.Relation
import SqlTemplate.Batch
import SqlTemplate.Proofs.Catalog.Effect
/-!
The representation of a catalog over whole runs.

A run starts from a catalog without parameters, with or without a number of rows, and takes any
number of steps: declarations, resets, checks and executions on any engine, each of them accepted or
refused. What is proved:
  1. `Effect.valid` and `Effect.extends`: what a declaration can do keeps a catalog `Valid`, and
     makes one that `Extends` it.
  2. `valid_of_run` and `extends_of_run`: so does a whole run, by induction on its steps.
  3. `run_invariant`: at every point of a run the representation is exact, and from every point to
     every later one names keep their places, parameters their shapes and families, and the catalog
     its number of rows.
-/

namespace SqlTemplate.Catalog

open Relation (ReflTransGen)

variable {c d e : Catalog}

/-! ## What lasts -/

/-- A later catalog has every name where it was, every parameter with its shape and family, and the
number of rows. -/
structure Extends (c d : Catalog) : Prop where
  places : ∀ name i, c.index.get? name = some i → d.index.get? name = some i
  specs : ∀ (i : Nat) s, c.specs[i]? = some s → ∃ t : Spec, d.specs[i]? = some t ∧ t.Continues s
  count : ∀ n, c.count = some n → d.count = some n

theorem Extends.with_phase (c : Catalog) (phase : Phase) : Extends c { c with phase } where
  places _ _ h := h
  specs _ s h := ⟨s, h, rfl, rfl, fun _ hf => hf⟩
  count _ h := h

theorem Extends.refl (c : Catalog) : Extends c c := .with_phase c c.phase

theorem Extends.trans (h₁ : Extends c d) (h₂ : Extends d e) : Extends c e where
  places name i h := h₂.places name i (h₁.places name i h)
  specs i s h := by
    obtain ⟨t, ht, hts⟩ := h₁.specs i s h
    obtain ⟨u, hu, hut⟩ := h₂.specs i t ht
    refine ⟨u, hu, hut.name.trans hts.name, hut.shape.trans hts.shape, fun f hf => ?_⟩
    exact hut.family f (hts.family f hf)
  count n h := h₂.count n (h₁.count n h)

/-! ## Steps -/

theorem valid_push {s : Spec} {count : Option Nat} (h : Valid c) (hnew : c.get? s.name = none)
    (hfits : s.Fits count) (hcount : CountStep c.count count) :
    Valid { c.reset.push s with count } where
  indexed := Indexed.push (c := c.reset) h.indexed (h.indexed.index_eq_none hnew)
  count_pos := hcount.pos h.count_pos
  fits t ht := by
    rcases List.mem_append.mp ht with ht | ht
    · exact (h.fits t ht).mono hcount
    · rw [List.mem_singleton.mp ht]
      exact hfits

theorem extends_push {s : Spec} {count : Option Nat} (h : Valid c) (hnew : c.get? s.name = none)
    (hcount : CountStep c.count count) : Extends c { c.reset.push s with count } where
  places name i hi := by
    change (c.index.insert s.name c.specs.length).get? name = some i
    have hne : name ≠ s.name := by
      rintro rfl
      rw [h.indexed.index_eq_none hnew] at hi
      cases hi
    rw [Dict.get?_insert_ite, if_neg hne, hi]
  specs i t ht := by
    refine ⟨t, ?_, rfl, rfl, fun f hf => hf⟩
    change (c.specs ++ [s])[i]? = some t
    rw [List.getElem?_append_left (List.getElem?_eq_some_iff.mp ht).1, ht]
  count n hn := hcount.keeps hn

section
variable {name : String} {f : Spec → Spec} {s : Spec} {count : Option Nat} (h : Valid c)
  (hs : c.get? name = some s) (hkeeps : (f s).Continues s) (hcount : CountStep c.count count)
include h hs hkeeps hcount

theorem valid_update (hfits : (f s).Fits count) :
    Valid { c.reset.update name f with count } := by
  have hi : Indexed c.reset := h.indexed
  have only : ∀ t ∈ c.specs, t.name = name → t = s := fun t ht hn =>
    Option.some.inj ((h.indexed.get?_eq_some.mpr ⟨ht, hn⟩).symm.trans hs)
  have hname := (h.indexed.get?_eq_some.mp hs).2
  refine ⟨?_, hcount.pos h.count_pos, ?_⟩
  · refine Indexed.update hi fun t ht hn => ?_
    rw [only t ht hn, hkeeps.name, hname]
  · intro t ht
    obtain ⟨u, hu, rfl⟩ := hi.mem_update ht
    split
    · rename_i hn
      rw [only u hu hn]
      exact hfits
    · exact (h.fits u hu).mono hcount

theorem extends_update : Extends c { c.reset.update name f with count } := by
  have hi : Indexed c.reset := h.indexed
  refine ⟨fun other i hoi => ?_, fun i t ht => ?_, fun n hn => hcount.keeps hn⟩
  · change (c.reset.update name f).index.get? other = some i
    rw [update_index]
    exact hoi
  · refine ⟨_, by
      change (c.reset.update name f).specs[i]? = _
      rw [hi.getElem?_update, reset_specs, ht, Option.map_some], ?_⟩
    split
    · rename_i hn
      have hts := (h.indexed.get?_eq_some.mpr ⟨List.mem_of_getElem? ht, hn⟩).symm.trans hs
      rw [Option.some.inj hts]
      exact hkeeps
    · exact ⟨rfl, rfl, fun g hg => hg⟩

end

theorem Valid.with_phase (h : Valid c) (phase : Phase) : Valid { c with phase } :=
  ⟨h.indexed, h.count_pos, h.fits⟩

theorem Effect.valid {name : String} (he : Effect c name d) (h : Valid c) : Valid d := by
  cases he with
  | same => exact h
  | ready => exact h.with_phase .building
  | added s count hnew hname hfits hcount =>
    exact valid_push h (hname ▸ hnew) hfits hcount
  | changed s f count hs hkeeps hfits hcount => exact valid_update h hs hkeeps hcount hfits

theorem Effect.extends {name : String} (he : Effect c name d) (h : Valid c) : Extends c d := by
  cases he with
  | same => exact .refl c
  | ready => exact .with_phase c .building
  | added s count hnew hname hfits hcount => exact extends_push h (hname ▸ hnew) hcount
  | changed s f count hs hkeeps hfits hcount => exact extends_update h hs hkeeps hcount

/-! ## Runs -/

/-- A catalog that a run starts from: without parameters, for a number of rows or not. -/
inductive Initial : Catalog → Prop
  | empty : Initial ∅
  | withCount (n : Nat) (c : Catalog) (h : withCount n = .ok c) : Initial c

/-- One call on a catalog, whatever its answer. A check changes nothing. -/
inductive Step (c : Catalog) : Catalog → Prop
  | declare (d : Declaration) : Step c (c.declare d).2
  | reset : Step c c.reset
  | validate (names : List String) : Step c c
  | execute {σ : Type} (sql : String) (used : List String) (engine : Engine σ) (s : σ) :
      Step c (c.execute sql used engine s).2.1

abbrev Run : Catalog → Catalog → Prop := ReflTransGen Step

def Reachable (c : Catalog) : Prop := ∃ c₀, Initial c₀ ∧ Run c₀ c

theorem Initial.valid (h : Initial c) : Valid c := by
  cases h with
  | empty =>
    refine ⟨indexed_empty, fun n hn => ?_, fun s hs => ?_⟩
    · cases hn
    · cases hs
  | withCount n c h =>
    unfold Catalog.withCount at h
    split at h
    · cases h
    · rename_i hn
      cases h
      refine ⟨indexed_empty, fun m hm => ?_, fun s hs => ?_⟩
      · cases hm
        exact Nat.pos_of_ne_zero hn
      · cases hs

theorem execute_catalog {σ : Type} (c : Catalog) (sql : String) (used : List String)
    (engine : Engine σ) (s : σ) :
    ∃ phase, (c.execute sql used engine s).2.1 = { c with phase } := by
  unfold execute
  split
  · exact ⟨c.phase, rfl⟩
  · split
    · exact ⟨c.phase, rfl⟩
    · exact ⟨.executed, rfl⟩

theorem Step.valid_extends (hs : Step c d) (h : Valid c) : Valid d ∧ Extends c d := by
  cases hs with
  | declare d =>
    have he := declare_effect h d
    exact ⟨he.valid h, he.extends h⟩
  | reset => exact ⟨h.with_phase .building, .with_phase c .building⟩
  | validate names => exact ⟨h, .refl c⟩
  | execute sql used engine s =>
    obtain ⟨phase, hphase⟩ := execute_catalog c sql used engine s
    rw [hphase]
    exact ⟨h.with_phase phase, .with_phase c phase⟩

theorem valid_of_run (hr : Run c d) (h : Valid c) : Valid d := by
  induction hr with
  | refl => exact h
  | tail _ hs ih => exact (hs.valid_extends ih).1

theorem extends_of_run (hr : Run c d) (h : Valid c) : Extends c d := by
  induction hr with
  | refl => exact .refl c
  | tail hr hs ih => exact ih.trans (hs.valid_extends (valid_of_run hr h)).2

theorem Reachable.valid (h : Reachable c) : Valid c := by
  obtain ⟨c₀, h₀, hr⟩ := h
  exact valid_of_run hr h₀.valid

/-- At every point of a run the names are distinct and the representation is exact; and what a later
point of the run has extends it. -/
theorem run_invariant {c₀ c d : Catalog} (h₀ : Initial c₀) (hc : Run c₀ c) (hd : Run c d) :
    (c.specs.map (·.name)).Nodup ∧ c.Valid ∧ c.Extends d := by
  have hvalid := valid_of_run hc h₀.valid
  exact ⟨hvalid.indexed.nodup, hvalid, extends_of_run hd hvalid⟩

/-- An array that is made an output, and rebound after a refusal: it keeps its place, its family,
which the second time no value shows, and the two rows that it set. -/
theorem run_invariant_rebound_array :
    let c := ((Catalog.declare ∅ (.array "id" [.int 1, .null])).2.declare (.output "id")).2
    let d := ((c.declare (.array "id" [.text "a", .text "b"])).2.declare
      (.array "id" [.null, .null, .int 3])).2
    Initial ∅ ∧ Run ∅ c ∧ Run c d ∧ d.count = some 2 ∧ d.specs.map (·.family) = [some .number] ∧
      ((c.specs.map (·.name)).Nodup ∧ c.Valid ∧ c.Extends d) := by
  intro c d
  have hc : Run ∅ c := .tail (.tail .refl (.declare _)) (.declare _)
  have hd : Run c d := .tail (.tail .refl (.declare _)) (.declare _)
  exact ⟨.empty, hc, hd, by decide, by decide, run_invariant .empty hc hd⟩

end SqlTemplate.Catalog
