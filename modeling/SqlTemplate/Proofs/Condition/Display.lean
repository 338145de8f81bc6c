import SqlTemplate.Proofs.Condition.Legible
/-!
When a displayed condition reads back.

The lexemes of a displayed condition show where its parts end, except where a comparison is an
operand of a comparison: an operator is followed by another one then, with no word and no parenthesis
between the two.

What is proved:
  1. `tracked_of_derives`: no lexemes that derive a condition have two such operators. `track` keeps,
     for each depth of parentheses, whether an operator has been seen.
  2. `flat_of_derives`, `derives_lexemes`: so the lexemes of a condition derive it if and only if no
     comparison in it is compared.
  3. `parse_display_iff`: when the displayed text of a condition that was read is read as the
     condition again.
-/

namespace SqlTemplate.Condition

def isComparison : Condition → Bool
  | .relates .. => true
  | _ => false

/-- Where it is a comparison, none is compared. -/
def Flat : Condition → Prop
  | .relates _ l r => l.isComparison = false ∧ r.isComparison = false
  | _ => True

/-! ## Operators next to each other -/

/-- What one lexeme does to the depths of parentheses, the innermost first: at each it is kept
whether an operator has been seen since the last word. A second one ends it. -/
def track : Token → List Bool → Option (List Bool)
  | .op _, true :: _ => none
  | .op _, false :: depths => some (true :: depths)
  | .conjunction, _ :: depths | .disjunction, _ :: depths => some (false :: depths)
  | .opening, depths => some (false :: depths)
  | .closing, _ :: depths => some depths
  | _, depths => some depths

def trackAll : List Token → List Bool → Option (List Bool)
  | [], depths => some depths
  | t :: ts, depths => (track t depths).bind (trackAll ts)

theorem trackAll_append (us vs : List Token) (depths : List Bool) :
    trackAll (us ++ vs) depths = (trackAll us depths).bind (trackAll vs) := by
  induction us generalizing depths with
  | nil => rfl
  | cons u us ih =>
    rw [List.cons_append, trackAll, trackAll]
    cases track u depths with
    | none => rfl
    | some ds => exact ih ds

/-- The lexemes hold no two operators next to each other, and leave the depths outside of them as
they are. Those of an operand have no operator at its own depth. -/
def Tracked (us : List Token) : Level → Prop
  | .operand => ∀ seen depths, trackAll us (seen :: depths) = some (seen :: depths)
  | _ => ∀ depths, ∃ seen, trackAll us (false :: depths) = some (seen :: depths)

theorem tracked_of_derives {level : Level} {us : List Token} {c : Condition}
    (h : Derives level us c) : Tracked us level := by
  induction h with
  | disjunct _ ih => exact ih
  | conjunct _ ih => exact ih
  | alone _ ih => exact fun depths => ⟨false, ih false depths⟩
  | either _ _ ihl ihr | both _ _ ihl ihr =>
    intro depths
    obtain ⟨seen, hl⟩ := ihl depths
    obtain ⟨seen', hr⟩ := ihr depths
    exact ⟨seen', by simp [trackAll_append, hl, trackAll, track, hr]⟩
  | relates o _ _ ihl ihr =>
    intro depths
    exact ⟨true, by simp [trackAll_append, ihl false depths, trackAll, track, ihr true depths]⟩
  | neg _ ih | parenthesized _ ih =>
    intro seen depths
    obtain ⟨inner, h⟩ := ih (seen :: depths)
    simp [trackAll_append, trackAll, track, h]
  | var | number | text => exact fun _ _ => rfl

theorem trackAll_parenthesized {ts : List Token} {depths left : List Bool}
    (h : trackAll (.opening :: (ts ++ [.closing])) depths = some left) :
    ∃ inner, trackAll ts (false :: depths) = some inner ∧ track .closing inner = some left := by
  have h : trackAll (ts ++ [.closing]) (false :: depths) = some left := h
  rw [trackAll_append, Option.bind_eq_some_iff] at h
  obtain ⟨inner, hinner, hclosing⟩ := h
  rw [trackAll, Option.bind_eq_some_iff] at hclosing
  obtain ⟨ds, hclosing, hdone⟩ := hclosing
  cases hdone
  exact ⟨inner, hinner, hclosing⟩

/-- If the lexemes of a condition hold no two operators next to each other, then none of its
comparisons is compared. A comparison leaves an operator at its own depth and finds none there. -/
def Apart (c : Condition) : Prop := ∀ seen depths left,
  trackAll c.lexemes (seen :: depths) = some left → Everywhere Flat c ∧
    left = (c.isComparison || seen) :: depths ∧ (c.isComparison && seen) = false

/-- A word between two parts parts their operators, and the parentheses keep them from outside. -/
theorem Apart.joined {l r : Condition} (hl : Apart l) (hr : Apart r) {t : Token}
    (ht : ∀ seen depths, track t (seen :: depths) = some (false :: depths)) {depths left : List Bool}
    (h : trackAll (.opening :: (l.lexemes ++ t :: r.lexemes ++ [.closing])) depths = some left) :
    Everywhere Flat l ∧ Everywhere Flat r ∧ left = depths := by
  obtain ⟨inner, hinner, hclosing⟩ := trackAll_parenthesized h
  rw [trackAll_append, Option.bind_eq_some_iff] at hinner
  obtain ⟨mid, hleft, hright⟩ := hinner
  obtain ⟨hfl, rfl, _⟩ := hl _ _ _ hleft
  rw [trackAll, ht, Option.bind_some] at hright
  obtain ⟨hfr, rfl, _⟩ := hr _ _ _ hright
  cases hclosing
  exact ⟨hfl, hfr, rfl⟩

theorem apart (c : Condition) : Apart c := by
  -- What a part leaves is known from the part, so each operator shows what stands before it.
  induction c with
  | var | number | text =>
    intro seen depths left h
    cases h
    exact ⟨everywhere_atom rfl trivial, rfl, rfl⟩
  | neg c ih =>
    intro seen depths left h
    obtain ⟨inner, hinner, hclosing⟩ := trackAll_parenthesized h
    obtain ⟨hflat, rfl, _⟩ := ih _ _ _ hinner
    cases hclosing
    exact ⟨everywhere_single rfl trivial hflat, rfl, rfl⟩
  | both l r ihl ihr | either l r ihl ihr =>
    intro seen depths left h
    obtain ⟨hl, hr, rfl⟩ := ihl.joined ihr (fun _ _ => rfl) h
    exact ⟨everywhere_pair rfl trivial hl hr, rfl, rfl⟩
  | relates o l r ihl ihr =>
    intro seen depths left h
    rw [lexemes, trackAll_append, Option.bind_eq_some_iff] at h
    obtain ⟨mid, hleft, h⟩ := h
    obtain ⟨hl, rfl, _⟩ := ihl _ _ _ hleft
    -- The operator must not find one that the left part leaves or that has been seen before.
    cases hseen : l.isComparison || seen with
    | true =>
      rw [hseen] at h
      cases h
    | false =>
      rw [hseen] at h
      obtain ⟨hlc, rfl⟩ := Bool.or_eq_false_iff.mp hseen
      have hright : trackAll r.lexemes (true :: depths) = some left := h
      obtain ⟨hr, rfl, hrc⟩ := ihr _ _ _ hright
      rw [Bool.and_true] at hrc
      refine ⟨everywhere_pair rfl ⟨hlc, hrc⟩ hl hr, ?_, rfl⟩
      rw [Bool.or_true]
      rfl

theorem flat_of_derives {level : Level} {c : Condition} (h : Derives level c.lexemes c) :
    Everywhere Flat c := by
  have htracked := tracked_of_derives h
  have hends : ∃ left, trackAll c.lexemes [false] = some left := by
    cases level with
    | operand => exact ⟨_, htracked false []⟩
    | _ =>
      obtain ⟨seen, hseen⟩ := htracked []
      exact ⟨_, hseen⟩
  obtain ⟨left, hleft⟩ := hends
  exact (apart c _ _ _ hleft).1

/-! ## The derivation of what is displayed -/

def level : Condition → Level
  | .relates .. => .comparison
  | _ => .operand

theorem level_of_not_comparison {c : Condition} (h : c.isComparison = false) :
    c.level = .operand := by
  cases c <;> first | rfl | cases h

theorem Derives.comparison {ts : List Token} {c : Condition} (h : Derives c.level ts c) :
    Derives .comparison ts c := by
  cases c with
  | relates => exact h
  | _ => exact .alone h

theorem derives_lexemes {c : Condition} (h : Everywhere Flat c) :
    Derives c.level c.lexemes c := by
  induction c with
  | var name => exact .var name
  | number x => exact .number x
  | text s => exact .text s
  | neg c ih =>
    have hinner := ih (h.part List.mem_cons_self)
    exact .neg (.disjunct (.conjunct hinner.comparison))
  | both l r ihl ihr =>
    obtain ⟨hl, hr⟩ := h.pair rfl
    exact .parenthesized (.disjunct (.both (.conjunct (ihl hl).comparison) (ihr hr).comparison))
  | either l r ihl ihr =>
    obtain ⟨hl, hr⟩ := h.pair rfl
    exact .parenthesized (.either (.disjunct (.conjunct (ihl hl).comparison))
      (.conjunct (ihr hr).comparison))
  | relates o l r ihl ihr =>
    obtain ⟨hl, hr⟩ := h.pair rfl
    obtain ⟨hlc, hrc⟩ := h _ .self
    have hleft := ihl hl
    have hright := ihr hr
    rw [level_of_not_comparison hlc] at hleft
    rw [level_of_not_comparison hrc] at hright
    exact .relates o hleft hright

/-! ## Reading what is displayed -/

theorem isVariableName_of_splits {cs : List Char} {us : List Token} (h : Splits cs us)
    {name : String} (hname : .var name ∈ us) : IsVariableName name := by
  induction h with
  | done => cases hname
  | space _ _ ih => exact ih hname
  | lexeme hw _ ih =>
    rcases List.mem_cons.mp hname with rfl | hname
    · cases hw with
      | @var w _ hne hrun =>
        refine ⟨fun hnil => hne ?_, ?_⟩
        · rwa [String.ofList_eq_empty_iff] at hnil
        · rw [String.toList_ofList]
          exact hrun.all
    · exact ih hname

theorem lexemes_subset {c d : Condition} (h : Within d c) : d.lexemes ⊆ c.lexemes := by
  have hpart {c d : Condition} (hd : d ∈ c.parts) : d.lexemes ⊆ c.lexemes := by
    intro t ht
    cases c with
    | var | number | text => cases hd
    | neg c => simp_all [parts, lexemes]
    | both l r | either l r | relates o l r =>
      rcases List.mem_cons.mp hd with rfl | hd
      · simp [lexemes, ht]
      · rw [List.mem_singleton.mp hd] at ht
        simp [lexemes, ht]
  induction h with
  | self => exact List.Subset.refl _
  | part he _ ih => exact List.Subset.trans ih (hpart he)

/-- The variables of a condition that was read have names that variables can have. -/
theorem named_of_read {cs : List Char} {c : Condition} (h : read cs = .ok c) :
    Everywhere Named c := by
  obtain ⟨us, hsplits, hderives⟩ := read_iff_derives.mp h
  intro d hd
  cases d with
  | var name =>
    have hmem : .var name ∈ atoms c.lexemes :=
      List.mem_filter.mpr ⟨lexemes_subset hd List.mem_cons_self, rfl⟩
    rw [← atoms_of_derives hderives] at hmem
    exact isVariableName_of_splits hsplits (List.mem_filter.mp hmem).1
  | _ => trivial

theorem parse_eq_ok_iff {s : String} {c : Condition} : parse s = .ok c ↔ read s.toList = .ok c := by
  unfold parse
  cases read s.toList <;> simp

theorem read_display_iff {c : Condition} (hnamed : Everywhere Named c) :
    read c.display.toList = .ok c ↔ Everywhere Flat c ∧ Everywhere Legible c := by
  have hnil : Ends [] := nofun
  rw [read_iff_derives]
  constructor
  · intro ⟨us, hsplits, hderives⟩
    rw [← List.append_nil c.display.toList] at hsplits
    have hatoms : atoms c.lexemes <+: atoms us := atoms_of_derives hderives ▸ List.prefix_rfl
    have hlegible : Everywhere Legible c := shows_of_named hnamed [] us hnil hsplits hatoms
    obtain ⟨vs, rfl, hvs⟩ := (cuts_of_legible hnamed hlegible [] hnil us).mp hsplits
    obtain rfl := splits_nil hvs
    rw [List.append_nil] at hderives
    exact ⟨flat_of_derives hderives, hlegible⟩
  · intro ⟨hflat, hlegible⟩
    have hsplits : Splits (c.display.toList ++ []) c.lexemes :=
      (cuts_of_legible hnamed hlegible [] hnil _).mpr ⟨[], (List.append_nil _).symm, .done⟩
    rw [List.append_nil] at hsplits
    exact ⟨_, hsplits, .disjunct (.conjunct (derives_lexemes hflat).comparison)⟩

/-- A condition that was read and is displayed is read as itself if and only if no comparison in it
is an operand of a comparison, no text in it holds a single quote, and all its numbers are finite. -/
theorem parse_display_iff {s : String} {c : Condition} (h : parse s = .ok c) :
    parse c.display = .ok c ↔
      (∀ o l r, Within (.relates o l r) c → l.isComparison = false ∧ r.isComparison = false) ∧
      (∀ t, Within (.text t) c → '\x27' ∉ t.toList) ∧
      (∀ x, Within (.number x) c → x.isFinite = true) := by
  rw [parse_eq_ok_iff, read_display_iff (named_of_read (parse_eq_ok_iff.mp h))]
  constructor
  · intro ⟨hflat, hlegible⟩
    exact ⟨fun o l r => hflat _, fun t => hlegible _, fun x => hlegible _⟩
  · intro ⟨hcompared, htexts, hnumbers⟩
    refine ⟨fun d hd => ?_, fun d hd => ?_⟩
    · cases d with
      | relates o l r => exact hcompared o l r hd
      | _ => trivial
    · cases d with
      | text t => exact htexts t hd
      | number x => exact hnumbers x hd
      | _ => trivial

/-- A text that is taken for a comparison of two others where it is read again. -/
theorem parse_display_quotes :
    parse "\x22a' = 'b\x22" = .ok (.text "a' = 'b") ∧
    parse (display (.text "a' = 'b")) = .ok (.relates .eq (.text "a") (.text "b")) ∧
    ¬parse (display (.text "a' = 'b")) = .ok (.text "a' = 'b") := by
  have hread : parse "\x22a' = 'b\x22" = .ok (.text "a' = 'b") := by decide +kernel
  refine ⟨hread, by decide +kernel, fun h => ?_⟩
  obtain ⟨_, htexts, _⟩ := (parse_display_iff hread).mp h
  exact htexts "a' = 'b" .self (by decide)

example : parse (display (.relates .eq (.relates .eq (.text "a") (.text "b")) (.text "c"))) =
    .error (.syntaxFault "'a' = 'b' = 'c'" 10 .trailing) := by
  decide +kernel

end SqlTemplate.Condition
