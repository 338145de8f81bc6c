import SqlTemplate.Proofs.Template.Offsets
/-!
Reading by byte offset.

What is proved:
  1. `next_agrees`, `events_agrees`: the reader by offset gives the events of the texts, each at the
     offset at which its text stands, or fails alike.
  2. `nodes_agrees`: so it gives the nodes.
  3. `parse_within_source`: no text is cut but at the borders of its characters, and an error is placed
     at a line of the source and in it.
-/

namespace SqlTemplate.Template.ByOffset

open Condition (run)

variable {source tag cs : List Char} {start pos : Nat}

/-! ## Events -/

theorem endTag_agrees (hstart : RestAt source start tag) (h : RestAt source pos cs) :
    Agrees source (Reached source) (Template.endTag tag cs) (endTag source start pos) := by
  rw [Template.endTag, endTag]
  rcases (name_agrees h).cases with
    ⟨e, hx, hy, he⟩ | ⟨⟨name, r₁, _⟩, ⟨_, p₁, _⟩, hx, hy, rfl, hr₁⟩
  · rw [hx, hy]
    exact .error he
  rw [hx, hy]
  obtain ⟨⟨p₂, _⟩, hskip, hr₂⟩ := skip_agrees hr₁
  simp only [ok_bind, hskip]
  rcases (expect_agrees hstart hr₂ '>' .openEndTag).cases with
    ⟨e, hx, hy, he⟩ | ⟨⟨r₃, _⟩, ⟨p₃, _⟩, hx, hy, hr₃⟩
  · rw [hx, hy]
    exact .error he
  rw [hx, hy]
  exact .ok ⟨rfl, hr₃⟩

theorem startTag_agrees (hstart : RestAt source start tag) (h : RestAt source pos cs) :
    Agrees source (Reached source) (Template.startTag tag cs) (startTag source start pos) := by
  rw [Template.startTag, startTag]
  rcases (name_agrees h).cases with
    ⟨e, hx, hy, he⟩ | ⟨⟨name, r₁, _⟩, ⟨_, p₁, _⟩, hx, hy, rfl, hr₁⟩
  · rw [hx, hy]
    exact .error he
  rw [hx, hy]
  simp only [ok_bind]
  rcases (attributes_agrees hstart [] hr₁).cases with
    ⟨e, hx, hy, he⟩ | ⟨⟨all, empty, r₂, _⟩, ⟨_, _, p₂, _⟩, hx, hy, rfl, rfl, hr₂⟩
  · rw [hx, hy]
    exact .error he
  rw [hx, hy]
  exact .ok ⟨rfl, hr₂⟩

theorem skipPast_agrees (h : RestAt source pos cs) (m : Char) (ms : List Char) (fault : Fault) :
    Agrees source (Reached source) (Template.skipPast m ms fault cs)
      (skipPast m ms fault source cs pos) := by
  rw [Template.skipPast, skipPast]
  split
  · rename_i hcut
    rw [Text.find?_eq_none.mpr hcut]
    exact h.agrees_fail fault
  · rename_i before rest hcut
    rw [Text.append_of_cutAt? hcut] at h
    simp only [Text.find?_eq_some hcut]
    refine .ok ⟨rfl, ?_⟩
    show RestAt source (pos + (Text.byteLength before + Text.byteLength (m :: ms))) rest
    rw [← Text.byteLength_append]
    exact h.behind

theorem characterData_agrees {here body : List Char} (h : RestAt source pos here)
    (hhere : here = ['<', '!', '[', 'C', 'D', 'A', 'T', 'A', '['] ++ body) :
    Agrees source (Reached source) (Template.characterData here body)
      (characterData source body pos) := by
  rw [Template.characterData, characterData]
  split
  · rename_i hcut
    rw [Text.find?_eq_none.mpr hcut]
    exact h.agrees_fail .openCharacterData
  · rename_i s rest hcut
    have hbody := Text.append_of_cutAt? hcut
    have hs : sliceTo body (Text.byteLength s) = .ok s :=
      sliceTo_of_eq (by rw [hbody, List.append_assoc])
    have hsection : Text.byteLength
        (['<', '!', '[', 'C', 'D', 'A', 'T', 'A', '['] ++ (s ++ [']', ']', '>'])) =
        9 + Text.byteLength s + 3 := by
      rw [Text.byteLength_append, Text.byteLength_append, ← Nat.add_assoc]
      rfl
    rw [hhere, hbody, ← List.append_assoc] at h
    simp only [Text.find?_eq_some hcut, hs, ok_bind]
    refine .ok ⟨rfl, ?_⟩
    show RestAt source (pos + (9 + Text.byteLength s + 3)) rest
    rw [← hsection]
    exact h.behind

theorem content_agrees {c : Char} (hc : c ≠ '<') (h : RestAt source pos (c :: cs))
    (hnil : c :: cs ≠ []) (htag : ¬ Text.startsWith ['<'] (c :: cs) = true) :
    Agrees source (Reached source) (Template.content c cs)
      (content source (c :: cs) pos hnil htag) := by
  have htake : (c :: cs).takeWhile (· != '<') = c :: cs.takeWhile (· != '<') :=
    List.takeWhile_cons_of_pos (bne_iff_ne.mpr hc)
  have hsplit : c :: cs = c :: cs.takeWhile (· != '<') ++ cs.dropWhile (· != '<') := by
    rw [List.cons_append, List.takeWhile_append_dropWhile]
  have h' := hsplit ▸ h
  rw [Template.content, content]
  simp only [run, Text.find?_getD, htake, sliceTo_of_eq hsplit, ok_bind]
  rcases (resolved_agrees h').cases with ⟨e, hx, hy, he⟩ | ⟨a, b, hx, hy, rfl⟩
  · rw [hx, hy]
    exact .error he
  · rw [hx, hy]
    exact .ok ⟨rfl, h'.behind⟩

theorem next_agrees {c : Char} (h : RestAt source pos (c :: cs))
    (hpos : pos < Text.byteLength source) :
    Agrees source (Reached source) (Template.next c cs) (next source pos hpos) := by
  unfold Template.next
  rw [next, h.sliceFrom]
  simp only [ok_bind]
  split
  · rename_i hc
    subst hc
    split
    · exact skipPast_agrees h '-' ['-', '>'] .openComment
    · rename_i body
      show Agrees source (Reached source) _ (characterData source body pos)
      rcases (characterData_agrees h rfl).cases with
        ⟨e, hx, hy, he⟩ | ⟨⟨_, r₁, _⟩, ⟨_, p₁, _⟩, hx, hy, rfl, hr₁⟩
      · rw [hx, hy]
        exact .error he
      · rw [hx, hy]
        exact .ok ⟨rfl, hr₁⟩
    · exact skipPast_agrees h '?' ['>'] .openInstruction
    · rename_i r
      have hname : RestAt source (pos + 2) r := h.behind (w := ['<', '/'])
      rcases (endTag_agrees h hname).cases with
        ⟨e, hx, hy, he⟩ | ⟨⟨_, r₁, _⟩, ⟨_, p₁, _⟩, hx, hy, rfl, hr₁⟩
      · rw [hx, hy]
        exact .error he
      · rw [hx, hy]
        exact .ok ⟨rfl, hr₁⟩
    · rename_i hcomment hdata hinstruction hend
      have not_starts {marker : List Char} (hm : ∀ r, cs = marker ++ r → False) :
          ¬ Text.startsWith ('<' :: marker) ('<' :: cs) = true := fun hstarts => by
        obtain ⟨r, hr⟩ := Text.startsWith_iff.mp hstarts
        exact hm r (List.cons.inj hr).2
      have hcomment' : ¬ Text.startsWith ['<', '!', '-', '-'] ('<' :: cs) = true :=
        not_starts hcomment
      have hdata' : Text.after? ['<', '!', '[', 'C', 'D', 'A', 'T', 'A', '['] ('<' :: cs) = none :=
        Option.not_isSome_iff_eq_none.mp (not_starts hdata)
      have hinstruction' : ¬ Text.startsWith ['<', '?'] ('<' :: cs) = true :=
        not_starts hinstruction
      have hend' : ¬ Text.startsWith ['<', '/'] ('<' :: cs) = true := not_starts hend
      have htag : Text.startsWith ['<'] ('<' :: cs) = true := rfl
      have hname : RestAt source (pos + 1) cs := h.behind (w := ['<'])
      simp only [if_neg hcomment', hdata', if_neg hinstruction', if_neg hend', dif_pos htag]
      rcases (startTag_agrees h hname).cases with
        ⟨e, hx, hy, he⟩ | ⟨⟨_, r₁, _⟩, ⟨_, p₁, _⟩, hx, hy, rfl, hr₁⟩
      · rw [hx, hy]
        exact .error he
      · rw [hx, hy]
        exact .ok ⟨rfl, hr₁⟩
  · rename_i hc
    have not_starts {marker : List Char} :
        ¬ Text.startsWith ('<' :: marker) (c :: cs) = true := fun hstarts => by
      obtain ⟨r, hr⟩ := Text.startsWith_iff.mp hstarts
      exact hc (List.cons.inj hr).1
    have hdata : Text.after? ['<', '!', '[', 'C', 'D', 'A', 'T', 'A', '['] (c :: cs) = none :=
      Option.not_isSome_iff_eq_none.mp not_starts
    simp only [if_neg not_starts, hdata, dif_neg not_starts]
    exact content_agrees hc h _ _

/-- The events by offset are those of texts, each at the offset of its text. -/
structure SameEvents (source : List Char) (ls : List Located) (es : List Placed) : Prop where
  located : es.mapM (Placed.located source) = .ok ls
  places : Places (· <:+ source) ls

theorem SameEvents.nil (source : List Char) : SameEvents source [] [] := ⟨rfl, nofun⟩

theorem SameEvents.cons {here : List Char} {ls : List Located} {es : List Placed}
    (h : SameEvents source ls es) (hhere : RestAt source pos here) (event : Event) :
    SameEvents source (⟨event, here⟩ :: ls) (⟨event, pos⟩ :: es) where
  located := by
    rw [List.mapM_cons, Placed.located, hhere.sliceFrom]
    simp only [ok_bind]
    rw [h.located]
    rfl
  places := List.forall_mem_cons.mpr ⟨hhere.suffix, h.places⟩

theorem events_agrees {source cs : List Char} {pos : Nat} (h : RestAt source pos cs) :
    Agrees source (SameEvents source) (Template.events cs) (events source pos) := by
  rw [events]
  cases cs with
  | nil =>
    have hend : ¬ pos < Text.byteLength source := Nat.not_lt.mpr (Nat.le_of_eq h.byteLength.symm)
    rw [Template.events, dif_neg hend]
    exact .ok (.nil source)
  | cons c cs =>
    have hpos : pos < Text.byteLength source := by
      have hlength := h.byteLength
      have hcs := Text.byteLength_pos (List.cons_ne_nil c cs)
      omega
    rw [Template.events, dif_pos hpos]
    rcases (next_agrees h hpos).cases with
      ⟨e, hx, hy, he⟩ | ⟨⟨_, r, hlt⟩, ⟨event?, p, _⟩, hx, hy, rfl, hr⟩
    · simp only [hx, hy]
      exact .error he
    simp only [hx, hy, ok_bind]
    rcases (events_agrees hr).cases with ⟨e, hx, hy, he⟩ | ⟨ls, es, hx, hy, hsame⟩
    · simp only [hx, hy]
      exact .error he
    simp only [hx, hy, ok_bind]
    cases event? with
    | none => exact .ok hsame
    | some event => exact .ok (hsame.cons h event)
termination_by cs.length

/-! ## Nodes -/

theorem nodes_agrees {ls : List Located} {es : List Placed} (h : SameEvents source ls es) :
    Agrees source (fun a b => b = a) (ofEvents ls) (nodes source es) := by
  rw [nodes, h.located, ok_bind]
  cases hns : ofEvents ls with
  | ok ns => exact .ok rfl
  | error e =>
    have hhere : e.here <:+ source :=
      ofEvents_among (P := (· <:+ source)) List.nil_suffix h.places hns
    exact (RestAt.of_suffix hhere).agrees_fail e.fault

theorem parse_agrees (source : String) :
    Agrees source.toList (fun a b => b = a) (read source.toList) (parse source) := by
  rw [read, parse]
  rcases (events_agrees (.start source.toList)).cases with
    ⟨e, hx, hy, he⟩ | ⟨ls, es, hx, hy, hsame⟩
  · rw [hx, hy]
    exact .error he
  · rw [hx, hy]
    exact nodes_agrees hsame

theorem parse_eq (source : String) :
    parse source = (Template.parse source).mapError Stop.failed := by
  rw [Template.parse]
  rcases (parse_agrees source).cases with ⟨e, hx, hy, he⟩ | ⟨ns, _, hx, hy, rfl⟩
  · rw [hx, hy]
    rfl
  · rw [hx, hy]
    rfl

/-- Reading by offset gives what reading the texts gives, and no text is ever cut within a character
or behind its end. An error is that of a malformed template, placed at a line of the source and at a
column of that line or behind its end. -/
theorem parse_within_source (source : String) :
    (∀ text offset, parse source ≠ .error (.badCut text offset)) ∧
    parse source = (Template.parse source).mapError .failed ∧
    ∀ error, Template.parse source = .error error →
      ∃ line column fault written, error = .malformed line column fault ∧
        1 ≤ line ∧ line ≤ 1 + source.toList.count '\n' ∧
        (source.toList.splitOn '\n')[line - 1]? = some written ∧
        1 ≤ column ∧ column ≤ 1 + written.length := by
  refine ⟨fun text offset h => ?_, parse_eq source, fun error h => ?_⟩
  · rw [parse_eq] at h
    cases hparse : Template.parse source <;> rw [hparse] at h <;> cases h
  · unfold Template.parse at h
    split at h
    · cases h
    · rename_i e _
      cases h
      obtain ⟨written, hline, hwritten, hcolumn⟩ := e.exists_line source.toList
      exact ⟨_, _, _, written, rfl, Nat.succ_pos _, hline, hwritten, Nat.succ_pos _, hcolumn⟩

/-- A reference that is unknown, behind a character of two bytes on the second line. -/
theorem parse_within_source_reference :
    Template.parse "<q>\né&nbsp;</q>" = .error (.malformed 2 2 (.unknownReference "nbsp")) ∧
    parse "<q>\né&nbsp;</q>" = .error (.failed (.malformed 2 2 (.unknownReference "nbsp"))) ∧
    ∃ written, ("<q>\né&nbsp;</q>".toList.splitOn '\n')[1]? = some written ∧
      2 ≤ 1 + written.length := by
  obtain ⟨_, heq, hplaced⟩ := parse_within_source "<q>\né&nbsp;</q>"
  have hmap : (Template.parse "<q>\né&nbsp;</q>").map (fun _ => ()) =
      .error (.malformed 2 2 (.unknownReference "nbsp")) := by decide +kernel
  cases hparse : Template.parse "<q>\né&nbsp;</q>" with
  | ok nodes => rw [hparse] at hmap; cases hmap
  | error e =>
    rw [hparse] at hmap heq
    cases hmap
    obtain ⟨_, _, _, written, herror, _, _, hwritten, _, hcolumn⟩ := hplaced _ hparse
    cases herror
    exact ⟨rfl, heq, written, hwritten, hcolumn⟩

end SqlTemplate.Template.ByOffset
