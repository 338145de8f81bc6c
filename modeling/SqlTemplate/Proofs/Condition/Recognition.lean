import SqlTemplate.Error
import SqlTemplate.Proofs.Condition.Lexemes
/-!
Conditions are read by their grammar.

The readers keep a proof of how much they left; `bare` forgets it, and each reader has an equation
for its bare answer, from which the rest follows. What is proved:
  1. `disjunction_sound`: lexemes that a reader took derive the condition that it gives, and a reader
     that gives none fails at a lexeme or at the end. So it is for the readers of every level.
  2. `recognized_of_derives`: lexemes that derive a condition are taken in front of any others that
     cannot go on with it, and the condition is given.
  3. `parse_iff_writes`: a text is read as exactly the conditions that it writes, and every other text
     is refused at a place of its own between two characters.
-/

namespace SqlTemplate.Condition

/-! ## The readers without proofs -/

/-- What a reader gives and what it leaves. -/
def bare {α : Type} {p : List Placed → Prop} :
    Except Failure (α × { r : List Placed // p r }) → Except Failure (α × List Placed)
  | .ok (a, r) => .ok (a, r.1)
  | .error e => .error e

theorem of_bare {α : Type} {p : List Placed → Prop}
    {x : Except Failure (α × { r : List Placed // p r })} {a : α} {r : List Placed}
    (h : bare x = .ok (a, r)) : p r := by
  rcases x with e | ⟨b, s, hs⟩
  · cases h
  · cases h
    exact hs

def taking (expected : Token) (fault : Fault) (ts : List Placed) :
    Except Failure (Unit × List Placed) :=
  (expect expected fault ts).map fun r => ((), r.1)

theorem bare_disjunction (ts : List Placed) : bare (disjunction ts) =
    (bare (conjunction ts)).bind fun (c, r) => bare (disjuncts c r) := by
  rw [disjunction]
  rcases conjunction ts with e | ⟨c, r, h⟩
  · rfl
  · show _ = bare (disjuncts c r)
    rcases hd : disjuncts c r with e | ⟨d, r', h'⟩ <;> simp only [hd] <;> rfl

theorem bare_disjuncts_nil (lhs : Condition) : bare (disjuncts lhs []) = .ok (lhs, []) := by
  rw [disjuncts]
  rfl

theorem bare_disjuncts_cons (lhs : Condition) (t : Placed) (r : List Placed) :
    bare (disjuncts lhs (t :: r)) =
      if t.token = .disjunction then
        (bare (conjunction r)).bind fun (c, r') => bare (disjuncts (.either lhs c) r')
      else .ok (lhs, t :: r) := by
  rw [disjuncts]
  split
  · rcases conjunction r with e | ⟨c, r', h⟩
    · rfl
    · show _ = bare (disjuncts (.either lhs c) r')
      rcases hd : disjuncts (.either lhs c) r' with e | ⟨d, r'', h'⟩ <;> simp only [hd] <;> rfl
  · rfl

theorem bare_conjunction (ts : List Placed) : bare (conjunction ts) =
    (bare (comparison ts)).bind fun (c, r) => bare (conjuncts c r) := by
  rw [conjunction]
  rcases comparison ts with e | ⟨c, r, h⟩
  · rfl
  · show _ = bare (conjuncts c r)
    rcases hd : conjuncts c r with e | ⟨d, r', h'⟩ <;> simp only [hd] <;> rfl

theorem bare_conjuncts_nil (lhs : Condition) : bare (conjuncts lhs []) = .ok (lhs, []) := by
  rw [conjuncts]
  rfl

theorem bare_conjuncts_cons (lhs : Condition) (t : Placed) (r : List Placed) :
    bare (conjuncts lhs (t :: r)) =
      if t.token = .conjunction then
        (bare (comparison r)).bind fun (c, r') => bare (conjuncts (.both lhs c) r')
      else .ok (lhs, t :: r) := by
  rw [conjuncts]
  split
  · rcases comparison r with e | ⟨c, r', h⟩
    · rfl
    · show _ = bare (conjuncts (.both lhs c) r')
      rcases hd : conjuncts (.both lhs c) r' with e | ⟨d, r'', h'⟩ <;> simp only [hd] <;> rfl
  · rfl

/-- What follows the first operand of a comparison: an operator with a second one, or nothing of
it. -/
def relation (lhs : Condition) : List Placed → Except Failure (Condition × List Placed)
  | [] => .ok (lhs, [])
  | t :: r =>
    match t.token with
    | .op o => (bare (operand r)).bind fun (rhs, r') => .ok (.relates o lhs rhs, r')
    | _ => .ok (lhs, t :: r)

theorem bare_comparison (ts : List Placed) : bare (comparison ts) =
    (bare (operand ts)).bind fun (lhs, r) => relation lhs r := by
  rw [comparison]
  rcases operand ts with e | ⟨lhs, r, h⟩
  · rfl
  · cases r with
    | nil => rfl
    | cons t r =>
      show _ = relation lhs (t :: r)
      unfold relation
      cases ht : t.token with
      | op o =>
        simp only [ht]
        rcases operand r with e | ⟨rhs, r', h'⟩ <;> rfl
      | _ => simp only [ht]; rfl

theorem bare_operand_nil : bare (operand []) = .error ⟨.endOfText, []⟩ := by
  rw [operand]
  rfl

theorem bare_operand_cons (t : Placed) (r : List Placed) : bare (operand (t :: r)) =
    match t.token with
    | .var name => .ok (.var name, r)
    | .number x => .ok (.number x, r)
    | .text s => .ok (.text s, r)
    | .negation =>
      (taking .opening .notWithoutParenthesis r).bind fun ((), r₁) =>
        (bare (disjunction r₁)).bind fun (c, r₂) =>
          (taking .closing .openNegation r₂).bind fun ((), r₃) => .ok (.neg c, r₃)
    | .opening =>
      (bare (disjunction r)).bind fun (c, r₁) =>
        (taking .closing .openParenthesis r₁).bind fun ((), r₂) => .ok (c, r₂)
    | _ => .error ⟨.noOperand, t.here⟩ := by
  rw [operand]
  cases ht : t.token with
  | negation =>
    simp only [taking]
    rcases expect .opening .notWithoutParenthesis r with e | ⟨r₁, h₁⟩
    · rfl
    · show _ = (bare (disjunction r₁)).bind _
      rcases hd : disjunction r₁ with e | ⟨c, r₂, h₂⟩
      · simp only [hd]; rfl
      · simp only [hd]
        show _ = ((expect .closing .openNegation r₂).map _).bind _
        rcases he : expect .closing .openNegation r₂ with e | ⟨r₃, h₃⟩ <;> rfl
  | opening =>
    simp only [taking]
    rcases disjunction r with e | ⟨c, r₁, h₁⟩
    · rfl
    · show _ = ((expect .closing .openParenthesis r₁).map _).bind _
      rcases he : expect .closing .openParenthesis r₁ with e | ⟨r₂, h₂⟩ <;> simp only [he] <;> rfl
  | _ => rfl

/-! ## What is read is derived -/

/-- The failure is placed at one of the lexemes, or at the end of the text. -/
def FailsIn (ts : List Placed) (e : Failure) : Prop := e.here = [] ∨ ∃ t ∈ ts, e.here = t.here

/-- A reader of `ts` took lexemes that are good for what it gives, or failed among them. -/
def Sound {α : Type} (good : List Token → α → Prop) (ts : List Placed) :
    Except Failure (α × List Placed) → Prop
  | .ok (a, rest) => ∃ used, ts = used ++ rest ∧ good (used.map (·.token)) a
  | .error e => FailsIn ts e

theorem Sound.bind {α β : Type} {good : List Token → α → Prop} {better : List Token → β → Prop}
    {ts : List Placed} {x : Except Failure (α × List Placed)}
    {f : α × List Placed → Except Failure (β × List Placed)} (hx : Sound good ts x)
    (hf : ∀ us a rest, x = .ok (a, rest) → good us a →
      Sound (fun vs b => better (us ++ vs) b) rest (f (a, rest))) :
    Sound better ts (x.bind f) := by
  rcases x with e | ⟨a, rest⟩
  · exact hx
  obtain ⟨used, rfl, hgood⟩ := hx
  have h := hf _ a rest rfl hgood
  show Sound better (used ++ rest) (f (a, rest))
  rcases hf : f (a, rest) with e | ⟨b, left⟩ <;> rw [hf] at h
  · rcases h with h | ⟨t, ht, h⟩
    · exact .inl h
    · exact .inr ⟨t, List.mem_append_right used ht, h⟩
  · obtain ⟨more, rfl, hbetter⟩ := h
    exact ⟨used ++ more, (List.append_assoc ..).symm, by rw [List.map_append]; exact hbetter⟩

theorem Sound.cons {α : Type} {good : List Token → α → Prop} {t : Placed} {ts : List Placed}
    {x : Except Failure (α × List Placed)} (h : Sound (fun us a => good (t.token :: us) a) ts x) :
    Sound good (t :: ts) x := by
  rcases x with e | ⟨a, rest⟩
  · rcases h with h | ⟨u, hu, h⟩
    · exact .inl h
    · exact .inr ⟨u, List.mem_cons_of_mem t hu, h⟩
  · obtain ⟨used, rfl, hgood⟩ := h
    exact ⟨t :: used, rfl, hgood⟩

theorem Sound.done {α : Type} {good : List Token → α → Prop} {ts : List Placed} {a : α}
    (h : good [] a) : Sound good ts (.ok (a, ts)) := ⟨[], rfl, h⟩

theorem length_of_taking {expected : Token} {fault : Fault} {ts : List Placed}
    {x : Unit × List Placed} (h : taking expected fault ts = .ok x) : x.2.length < ts.length := by
  unfold taking at h
  cases he : expect expected fault ts with
  | error e => rw [he] at h; cases h
  | ok r =>
    rw [he] at h
    cases h
    exact r.2

theorem taking_sound (expected : Token) (fault : Fault) (ts : List Placed) :
    Sound (fun us _ => us = [expected]) ts (taking expected fault ts) := by
  unfold taking
  cases ts with
  | nil => exact .inl rfl
  | cons t r =>
    rw [expect]
    split
    · exact ⟨[t], rfl, by simpa⟩
    · exact .inr ⟨t, List.mem_cons_self, rfl⟩

-- The recursion of the readers themselves, with their measures. What a repetition has read so far
-- derives `lhs`, so that each round is one more use of the rule that has the repetition first.
mutual

theorem disjunction_sound (ts : List Placed) :
    Sound (Derives .disjunction) ts (bare (disjunction ts)) := by
  rw [bare_disjunction]
  refine (conjunction_sound ts).bind fun us c r hr hc => ?_
  have hlt : r.length < ts.length := of_bare hr
  exact disjuncts_sound r (.disjunct hc)
termination_by 4 * ts.length + 3

theorem disjuncts_sound {ls : List Token} {lhs : Condition} (ts : List Placed)
    (hl : Derives .disjunction ls lhs) :
    Sound (fun us c => Derives .disjunction (ls ++ us) c) ts (bare (disjuncts lhs ts)) := by
  cases ts with
  | nil =>
    rw [bare_disjuncts_nil]
    exact .done (by rwa [List.append_nil])
  | cons t ts =>
    rw [bare_disjuncts_cons]
    split
    · rename_i ht
      refine .cons ((conjunction_sound ts).bind fun us c r hr hc => ?_)
      have hlt : r.length < ts.length := of_bare hr
      have h := disjuncts_sound r (.either hl hc)
      simpa only [ht, List.append_assoc, List.cons_append] using h
    · exact .done (by rwa [List.append_nil])
termination_by 4 * ts.length

theorem conjunction_sound (ts : List Placed) :
    Sound (Derives .conjunction) ts (bare (conjunction ts)) := by
  rw [bare_conjunction]
  refine (comparison_sound ts).bind fun us c r hr hc => ?_
  have hlt : r.length < ts.length := of_bare hr
  exact conjuncts_sound r (.conjunct hc)
termination_by 4 * ts.length + 2

theorem conjuncts_sound {ls : List Token} {lhs : Condition} (ts : List Placed)
    (hl : Derives .conjunction ls lhs) :
    Sound (fun us c => Derives .conjunction (ls ++ us) c) ts (bare (conjuncts lhs ts)) := by
  cases ts with
  | nil =>
    rw [bare_conjuncts_nil]
    exact .done (by rwa [List.append_nil])
  | cons t ts =>
    rw [bare_conjuncts_cons]
    split
    · rename_i ht
      refine .cons ((comparison_sound ts).bind fun us c r hr hc => ?_)
      have hlt : r.length < ts.length := of_bare hr
      have h := conjuncts_sound r (.both hl hc)
      simpa only [ht, List.append_assoc, List.cons_append] using h
    · exact .done (by rwa [List.append_nil])
termination_by 4 * ts.length

theorem comparison_sound (ts : List Placed) :
    Sound (Derives .comparison) ts (bare (comparison ts)) := by
  rw [bare_comparison]
  refine (operand_sound ts).bind fun us lhs r hr hl => ?_
  have hlt : r.length < ts.length := of_bare hr
  -- Without an operator the operand is the comparison, whatever follows it.
  have halone : Derives .comparison (us ++ []) lhs := by
    rw [List.append_nil]
    exact .alone hl
  cases r with
  | nil => exact .done halone
  | cons t r =>
    cases ht : t.token with
    | op o =>
      simp only [relation, ht]
      refine .cons ((operand_sound r).bind fun vs rhs r' _ hrhs => ?_)
      rw [ht]
      exact .done (by simpa only [List.append_nil] using Derives.relates o hl hrhs)
    | _ =>
      simp only [relation, ht]
      exact .done halone
termination_by 4 * ts.length + 1
decreasing_by
  · omega
  · simp only [List.length_cons] at hlt; omega

theorem operand_sound (ts : List Placed) : Sound (Derives .operand) ts (bare (operand ts)) := by
  cases ts with
  | nil =>
    rw [bare_operand_nil]
    exact .inl rfl
  | cons t ts =>
    rw [bare_operand_cons]
    cases ht : t.token with
    | var name => exact .cons (.done (ht ▸ .var name))
    | number x => exact .cons (.done (ht ▸ .number x))
    | text s => exact .cons (.done (ht ▸ .text s))
    | negation =>
      refine .cons ((taking_sound _ _ ts).bind fun us _ r₁ hr₁ hus => ?_)
      have hlt₁ : r₁.length < ts.length := length_of_taking hr₁
      refine (disjunction_sound r₁).bind fun vs c r₂ _ hc => ?_
      refine (taking_sound _ _ r₂).bind fun ws _ r₃ _ hws => ?_
      subst hus hws
      rw [ht]
      exact .done (by simpa only [List.append_nil, List.singleton_append] using Derives.neg hc)
    | opening =>
      refine .cons ((disjunction_sound ts).bind fun us c r₁ hr₁ hc => ?_)
      refine (taking_sound _ _ r₁).bind fun vs _ r₂ _ hvs => ?_
      subst hvs
      rw [ht]
      exact .done (by simpa only [List.append_nil] using Derives.parenthesized hc)
    | _ => exact .inr ⟨t, List.mem_cons_self, rfl⟩
termination_by 4 * ts.length

end

/-! ## What is derived is read -/

def NoOperator (tail : List Placed) : Prop := ∀ t ∈ tail.head?, ∀ o, t.token ≠ .op o

def NoConjunction (tail : List Placed) : Prop := ∀ t ∈ tail.head?, t.token ≠ .conjunction

def NoDisjunction (tail : List Placed) : Prop := ∀ t ∈ tail.head?, t.token ≠ .disjunction

theorem relation_of_noOperator {tail : List Placed} (h : NoOperator tail) (lhs : Condition) :
    relation lhs tail = .ok (lhs, tail) := by
  cases tail with
  | nil => rfl
  | cons t r =>
    have ht := h t rfl
    unfold relation
    cases htok : t.token with
    | op o => exact absurd htok (ht o)
    | _ => simp only [htok]

theorem conjuncts_of_noConjunction {tail : List Placed} (h : NoConjunction tail)
    (lhs : Condition) : bare (conjuncts lhs tail) = .ok (lhs, tail) := by
  cases tail with
  | nil => exact bare_conjuncts_nil lhs
  | cons t r => rw [bare_conjuncts_cons, if_neg (h t rfl)]

theorem disjuncts_of_noDisjunction {tail : List Placed} (h : NoDisjunction tail)
    (lhs : Condition) : bare (disjuncts lhs tail) = .ok (lhs, tail) := by
  cases tail with
  | nil => exact bare_disjuncts_nil lhs
  | cons t r => rw [bare_disjuncts_cons, if_neg (h t rfl)]

theorem taking_cons {t : Placed} {expected : Token} (h : t.token = expected) (fault : Fault)
    (tail : List Placed) : taking expected fault (t :: tail) = .ok ((), tail) := by
  rw [taking, expect, if_pos h]
  rfl

/-- The lexemes `xs` in front of others that cannot go on with them are read as the condition. At
the levels with a repetition, the reader of what repeats is left to see the others. -/
def Recognized (xs : List Placed) (c : Condition) : Level → Prop
  | .operand => ∀ tail, bare (operand (xs ++ tail)) = .ok (c, tail)
  | .comparison => ∀ tail, NoOperator tail → bare (comparison (xs ++ tail)) = .ok (c, tail)
  | .conjunction => ∀ tail, NoOperator tail →
      bare (conjunction (xs ++ tail)) = bare (conjuncts c tail)
  | .disjunction => ∀ tail, NoOperator tail → NoConjunction tail →
      bare (disjunction (xs ++ tail)) = bare (disjuncts c tail)

theorem Recognized.disjunct {xs : List Placed} {c : Condition}
    (h : Recognized xs c .conjunction) : Recognized xs c .disjunction := by
  intro tail hop hand
  rw [bare_disjunction, h tail hop, conjuncts_of_noConjunction hand]
  rfl

theorem Recognized.either {xs ys : List Placed} {t : Placed} {l r : Condition}
    (hl : Recognized xs l .disjunction) (ht : t.token = .disjunction)
    (hr : Recognized ys r .conjunction) :
    Recognized (xs ++ t :: ys) (.either l r) .disjunction := by
  intro tail hop hand
  -- The repetition sees its `or` next, and what follows the right operand after it.
  have hstart : bare (disjunction (xs ++ t :: (ys ++ tail))) =
      bare (disjuncts l (t :: (ys ++ tail))) :=
    hl _ (by rintro u ⟨⟩; simp [ht]) (by rintro u ⟨⟩; simp [ht])
  rw [List.append_assoc, List.cons_append, hstart, bare_disjuncts_cons, if_pos ht, hr tail hop,
    conjuncts_of_noConjunction hand]
  rfl

theorem Recognized.conjunct {xs : List Placed} {c : Condition}
    (h : Recognized xs c .comparison) : Recognized xs c .conjunction := by
  intro tail hop
  rw [bare_conjunction, h tail hop]
  rfl

theorem Recognized.both {xs ys : List Placed} {t : Placed} {l r : Condition}
    (hl : Recognized xs l .conjunction) (ht : t.token = .conjunction)
    (hr : Recognized ys r .comparison) : Recognized (xs ++ t :: ys) (.both l r) .conjunction := by
  intro tail hop
  have hstart : bare (conjunction (xs ++ t :: (ys ++ tail))) =
      bare (conjuncts l (t :: (ys ++ tail))) := hl _ (by rintro u ⟨⟩; simp [ht])
  rw [List.append_assoc, List.cons_append, hstart, bare_conjuncts_cons, if_pos ht, hr tail hop]
  rfl

theorem Recognized.alone {xs : List Placed} {c : Condition} (h : Recognized xs c .operand) :
    Recognized xs c .comparison := by
  intro tail hop
  rw [bare_comparison, h tail]
  exact relation_of_noOperator hop c

theorem Recognized.relates {xs ys : List Placed} {t : Placed} {o : RelOp} {l r : Condition}
    (hl : Recognized xs l .operand) (ht : t.token = .op o) (hr : Recognized ys r .operand) :
    Recognized (xs ++ t :: ys) (.relates o l r) .comparison := by
  intro tail _
  rw [bare_comparison, List.append_assoc, List.cons_append, hl (t :: (ys ++ tail))]
  show relation l (t :: (ys ++ tail)) = _
  simp only [relation, ht, hr tail]
  rfl

theorem Recognized.closed {xs : List Placed} {c : Condition} {t : Placed}
    (h : Recognized xs c .disjunction) (ht : t.token = .closing) (tail : List Placed) :
    bare (disjunction (xs ++ t :: tail)) = .ok (c, t :: tail) := by
  rw [h (t :: tail) (by rintro u ⟨⟩; simp [ht]) (by rintro u ⟨⟩; simp [ht])]
  exact disjuncts_of_noDisjunction (by rintro u ⟨⟩; simp [ht]) c

theorem Recognized.parenthesized {xs : List Placed} {c : Condition} {s t : Placed}
    (hs : s.token = .opening) (h : Recognized xs c .disjunction) (ht : t.token = .closing) :
    Recognized (s :: (xs ++ [t])) c .operand := by
  intro tail
  rw [List.cons_append, List.append_assoc, List.singleton_append, bare_operand_cons, hs]
  simp only [h.closed ht]
  show ((taking .closing .openParenthesis (t :: tail)).bind _) = _
  rw [taking_cons ht]
  rfl

theorem Recognized.neg {xs : List Placed} {c : Condition} {n s t : Placed}
    (hn : n.token = .negation) (hs : s.token = .opening) (h : Recognized xs c .disjunction)
    (ht : t.token = .closing) : Recognized (n :: s :: (xs ++ [t])) (.neg c) .operand := by
  intro tail
  rw [List.cons_append, List.cons_append, List.append_assoc, List.singleton_append,
    bare_operand_cons, hn]
  simp only [taking_cons hs]
  show (bare (disjunction (xs ++ t :: tail))).bind _ = _
  rw [h.closed ht]
  show ((taking .closing .openNegation (t :: tail)).bind _) = _
  rw [taking_cons ht]
  rfl

theorem recognized_of_derives {level : Level} {us : List Token} {c : Condition}
    (h : Derives level us c) : ∀ xs : List Placed, xs.map (·.token) = us → Recognized xs c level := by
  -- Each rule cuts the lexemes into those of its parts, and the placed lexemes are cut alike.
  induction h with
  | disjunct _ ih => exact fun xs hxs => (ih xs hxs).disjunct
  | conjunct _ ih => exact fun xs hxs => (ih xs hxs).conjunct
  | alone _ ih => exact fun xs hxs => (ih xs hxs).alone
  | either _ _ ihl ihr =>
    intro xs hxs
    obtain ⟨ls, _, rfl, hls, h⟩ := List.map_eq_append_iff.mp hxs
    obtain ⟨t, rs, rfl, ht, hrs⟩ := List.map_eq_cons_iff.mp h
    exact (ihl ls hls).either ht (ihr rs hrs)
  | both _ _ ihl ihr =>
    intro xs hxs
    obtain ⟨ls, _, rfl, hls, h⟩ := List.map_eq_append_iff.mp hxs
    obtain ⟨t, rs, rfl, ht, hrs⟩ := List.map_eq_cons_iff.mp h
    exact (ihl ls hls).both ht (ihr rs hrs)
  | relates o _ _ ihl ihr =>
    intro xs hxs
    obtain ⟨ls, _, rfl, hls, h⟩ := List.map_eq_append_iff.mp hxs
    obtain ⟨t, rs, rfl, ht, hrs⟩ := List.map_eq_cons_iff.mp h
    exact (ihl ls hls).relates ht (ihr rs hrs)
  | neg _ ih =>
    intro xs hxs
    obtain ⟨n, _, rfl, hn, h⟩ := List.map_eq_cons_iff.mp hxs
    obtain ⟨s, _, rfl, hs, h⟩ := List.map_eq_cons_iff.mp h
    obtain ⟨ys, _, rfl, hys, h⟩ := List.map_eq_append_iff.mp h
    obtain ⟨t, rfl, ht⟩ := List.map_eq_singleton_iff.mp h
    exact .neg hn hs (ih ys hys) ht
  | parenthesized _ ih =>
    intro xs hxs
    obtain ⟨s, _, rfl, hs, h⟩ := List.map_eq_cons_iff.mp hxs
    obtain ⟨ys, _, rfl, hys, h⟩ := List.map_eq_append_iff.mp h
    obtain ⟨t, rfl, ht⟩ := List.map_eq_singleton_iff.mp h
    exact .parenthesized hs (ih ys hys) ht
  | var | number | text =>
    intro xs hxs tail
    obtain ⟨t, rfl, ht⟩ := List.map_eq_singleton_iff.mp hxs
    rw [List.singleton_append, bare_operand_cons, ht]

/-! ## A whole text -/

theorem ofTokens_eq_ok {ts : List Placed} {c : Condition} :
    ofTokens ts = .ok c ↔ bare (disjunction ts) = .ok (c, []) := by
  unfold ofTokens
  rcases disjunction ts with e | ⟨d, ⟨_ | ⟨t, r⟩, h⟩⟩ <;> simp [bare]

theorem failsIn_of_ofTokens {ts : List Placed} {e : Failure} (h : ofTokens ts = .error e) :
    FailsIn ts e := by
  have hsound := disjunction_sound ts
  unfold ofTokens at h
  rcases hd : disjunction ts with e | ⟨d, ⟨_ | ⟨t, r⟩, hr⟩⟩ <;> rw [hd] at h hsound <;> cases h
  · exact hsound
  · obtain ⟨used, hused, _⟩ := hsound
    exact .inr ⟨t, by simp [hused], rfl⟩

theorem ofTokens_iff_derives {ts : List Placed} {c : Condition} :
    ofTokens ts = .ok c ↔ Derives .disjunction (ts.map (·.token)) c := by
  rw [ofTokens_eq_ok]
  constructor
  · intro h
    have hsound := disjunction_sound ts
    rw [h] at hsound
    obtain ⟨used, hused, hc⟩ := hsound
    rw [hused, List.append_nil]
    exact hc
  · intro h
    have hstart := recognized_of_derives h ts rfl [] (by rintro t ⟨⟩) (by rintro t ⟨⟩)
    rw [List.append_nil, bare_disjuncts_nil] at hstart
    exact hstart

theorem read_iff_derives {cs : List Char} {c : Condition} :
    read cs = .ok c ↔ ∃ us, Splits cs us ∧ Derives .disjunction us c := by
  constructor
  · intro h
    unfold read at h
    cases hts : tokens cs with
    | error e => rw [hts] at h; cases h
    | ok ts =>
      rw [hts] at h
      exact ⟨_, splits_of_tokens hts, ofTokens_iff_derives.mp h⟩
  · rintro ⟨us, hsplits, hderives⟩
    obtain ⟨ts, hts, rfl⟩ := tokens_of_splits hsplits
    rw [read, hts]
    exact ofTokens_iff_derives.mpr hderives

/-- A text that is refused is refused at a place from which it goes on to its end. -/
theorem suffix_of_read_error {cs : List Char} {e : Failure} (h : read cs = .error e) :
    e.here <:+ cs := by
  unfold read at h
  cases hts : tokens cs with
  | error e' =>
    rw [hts] at h
    cases h
    exact suffix_of_tokens_error hts
  | ok ts =>
    rw [hts] at h
    rcases failsIn_of_ofTokens h with hnil | ⟨t, ht, hhere⟩
    · exact hnil ▸ List.nil_suffix
    · exact hhere ▸ suffix_of_tokens hts t ht

theorem offset_eq {cs before : List Char} {e : Failure} (h : cs = before ++ e.here) :
    e.offset cs = (String.ofList before).utf8ByteSize := by
  rw [Failure.offset, h, Text.byteLength_eq, Text.byteLength_eq, String.ofList_append,
    String.utf8ByteSize_append]
  omega

theorem isValid_offset {s : String} {e : Failure} (h : e.here <:+ s.toList) :
    String.Pos.Raw.IsValid s ⟨e.offset s.toList⟩ := by
  obtain ⟨before, hs⟩ := h
  rw [String.Pos.Raw.isValid_iff_exists_append]
  refine ⟨String.ofList before, String.ofList e.here, ?_, ?_⟩
  · rw [← String.ofList_append, hs, String.ofList_toList]
  · rw [offset_eq hs.symm]
    rfl

/-- A text is read as the conditions that it writes. Every other text is refused, at an offset that
lies in it and between two of its characters. -/
theorem parse_iff_writes (s : String) :
    (∀ c, parse s = .ok c ↔ Writes s c) ∧
    ((∃ c, Writes s c) ∨ ∃ offset fault, parse s = .error (.syntaxFault s offset fault) ∧
      offset ≤ s.utf8ByteSize ∧ String.Pos.Raw.IsValid s ⟨offset⟩) := by
  unfold parse
  constructor
  · intro c
    rw [Writes, ← read_iff_derives]
    cases read s.toList <;> simp
  · cases h : read s.toList with
    | ok c => exact .inl ⟨c, read_iff_derives.mp h⟩
    | error e =>
      have hvalid := isValid_offset (suffix_of_read_error h)
      exact .inr ⟨_, _, rfl, hvalid.le_rawEndPos, hvalid⟩

example : parse "$a or $b and not($c <= 'x')" = .ok
    (.either (.var "a") (.both (.var "b") (.neg (.relates .le (.var "c") (.text "x"))))) := by
  decide +kernel

example : parse "'é' and é" = .error (.syntaxFault "'é' and é" 9 .strayCharacter) := by
  decide +kernel

end SqlTemplate.Condition
