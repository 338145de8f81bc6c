import SqlTemplate.Proofs.Template.Detection
import SqlTemplate.Proofs.Template.Lexing
/-!
Reading a text in front of another one.

What the reader of events takes off a text it also takes off the text with another one behind it: marks
are found at the same place, references resolve to the same characters, and a tag ends where it did.
What is proved:
  1. `resolved_append`: references that are resolved in a text are resolved in front of any other.
  2. `attributes_append`: so are the attributes of a start tag read, up to its end.
  3. `next_append`: markup that is read is read in front of any other text.
-/

namespace SqlTemplate

namespace Text

theorem cutAt?_append {marker cs before rest : List Char}
    (h : cutAt? marker cs = some (before, rest)) (post : List Char) :
    cutAt? marker (cs ++ post) = some (before, rest ++ post) := by
  have hcs := append_of_cutAt? h
  have hall : cs ++ post = before ++ marker ++ (rest ++ post) := by
    rw [hcs, List.append_assoc _ rest]
  rw [hall]
  refine cutAt?_of_first fun b r hb => Nat.not_lt.mp fun hlt => ?_
  -- A mark that stands earlier ends within the first text.
  have hprefix : b ++ marker <+: cs := by
    refine List.prefix_of_prefix_length_le ⟨r, hb.symm⟩ (hall ▸ List.prefix_append cs post) ?_
    rw [hcs]
    simp only [List.length_append]
    omega
  obtain ⟨r', hr'⟩ := hprefix
  exact Nat.not_le_of_lt hlt (first_of_cutAt? h b r' hr'.symm)

end Text

namespace Template

open Condition (isLetter run)

/-! ## References -/

theorem reference?_append {cs entity rest : List Char} {hle : rest.length ≤ cs.length}
    (h : reference? cs = some (entity, ⟨rest, hle⟩)) (post : List Char) :
    ∃ hle', reference? (cs ++ post) = some (entity, ⟨rest ++ post, hle'⟩) := by
  refine ⟨by simp only [List.length_append]; omega, ?_⟩
  unfold reference? at h ⊢
  split at h
  · rename_i word left hcut
    split at h
    · rename_i hshort
      cases h
      have hcut' := Text.cutAt?_append hcut post
      split
      · rename_i hcut''
        rw [hcut'] at hcut''
        cases hcut''
        rw [if_pos hshort]
      · rename_i hnone
        rw [hcut'] at hnone
        cases hnone
    · cases h
  · cases h

theorem resolved_append {after w s : List Char} (h : resolved after w = .ok s)
    (after' v : List Char) : resolved after' (w ++ v) = (resolved after' v).map (s ++ ·) := by
  fun_induction resolved after w generalizing s with
  | case1 =>
    cases h
    cases hv : resolved after' v with
    | error e => rw [List.nil_append, hv]; rfl
    | ok t => rw [List.nil_append, hv]; rfl
  | case2 => cases h
  | case3 => cases h
  | case4 cs entity rest href d hentity ih =>
    obtain ⟨_, href'⟩ := reference?_append href v
    cases hrest : resolved after rest.1 with
    | error e => rw [hrest] at h; cases h
    | ok t =>
      rw [hrest] at h
      cases h
      rw [List.cons_append, resolved, if_pos rfl, href']
      simp only [hentity, ih hrest]
      cases resolved after' v <;> rfl
  | case5 c cs hc ih =>
    cases hrest : resolved after cs with
    | error e => rw [hrest] at h; cases h
    | ok t =>
      rw [hrest] at h
      cases h
      rw [List.cons_append, resolved, if_neg hc, ih hrest]
      cases resolved after' v <;> rfl

/-- What follows a text does not count for its references. -/
theorem resolved_after {after w s : List Char} (h : resolved after w = .ok s)
    (after' : List Char) : resolved after' w = .ok s := by
  have hall := resolved_append h after' []
  have hnil : resolved after' [] = .ok [] := by rw [resolved]
  rw [List.append_nil, hnil] at hall
  rw [hall, Except.map, List.append_nil]

/-! ## Tags -/

section
variable {cs rest : List Char} {hlt : rest.length < cs.length} (post : List Char)

theorem name_eq_ok {n : String} (h : name cs = .ok (n, ⟨rest, hlt⟩)) :
    ∃ w, isTagName w = true ∧ n = String.ofList w ∧ cs = w ++ rest ∧ EndsName rest := by
  cases cs with
  | nil => cases h
  | cons c r =>
    rw [name] at h
    split at h
    · rename_i hc
      cases h
      have hrun := Text.longestRun_takeWhile isTagChar r
      refine ⟨c :: r.takeWhile isTagChar, ?_, rfl, ?_, hrun.stops⟩
      · rw [isTagName, Bool.and_eq_true]
        exact ⟨by simpa using hc, hrun.all⟩
      · rw [List.cons_append, List.takeWhile_append_dropWhile]
    · cases h

theorem name_append_of_ne_nil {n : String} (h : name cs = .ok (n, ⟨rest, hlt⟩)) (hrest : rest ≠ []) :
    ∃ hlt', name (cs ++ post) = .ok (n, ⟨rest ++ post, hlt'⟩) := by
  obtain ⟨w, hw, rfl, rfl, hends⟩ := name_eq_ok h
  have hends' : EndsName (rest ++ post) := by
    obtain ⟨c, r, rfl⟩ := List.exists_cons_of_ne_nil hrest
    exact fun d hd => hends d hd
  rw [List.append_assoc]
  exact name_append hw (rest ++ post) hends'

theorem skip_append (h : (skip cs).1 ≠ []) : (skip (cs ++ post)).1 = (skip cs).1 ++ post := by
  have hempty : ¬ (cs.dropWhile Text.isBlank).isEmpty = true := by
    rw [List.isEmpty_iff]
    exact h
  show (cs ++ post).dropWhile Text.isBlank = cs.dropWhile Text.isBlank ++ post
  rw [List.dropWhile_append, if_neg hempty]

theorem ne_nil_of_skip (h : (skip cs).1 ≠ []) : cs ≠ [] := by
  rintro rfl
  exact h rfl

theorem expect_eq_ok {c : Char} {tag : List Char} {fault : Fault}
    (h : expect c tag fault cs = .ok ⟨rest, hlt⟩) : cs = c :: rest := by
  cases cs with
  | nil => cases h
  | cons d r =>
    rw [expect] at h
    split at h
    · rename_i hd
      cases h
      rw [hd]
    · cases h

theorem expect_skip_append {c : Char} {tag : List Char} {fault : Fault}
    {hlt : rest.length < (skip cs).1.length}
    (h : expect c tag fault (skip cs).1 = .ok ⟨rest, hlt⟩) (tag' : List Char) (fault' : Fault) :
    cs ≠ [] ∧
    ∃ hlt', expect c tag' fault' (skip (cs ++ post)).1 = .ok ⟨rest ++ post, hlt'⟩ := by
  have hcs := expect_eq_ok h
  have hne : (skip cs).1 ≠ [] := by
    rw [hcs]
    exact List.cons_ne_nil c rest
  have hall : (skip (cs ++ post)).1 = c :: (rest ++ post) := by
    rw [skip_append post hne, hcs, List.cons_append]
  exact ⟨ne_nil_of_skip hne, expect_of_eq hall tag' fault'⟩

theorem attributeValue_append {key : List Char} {value : String}
    (h : attributeValue key cs = .ok (value, ⟨rest, hlt⟩)) (key' : List Char) :
    cs ≠ [] ∧ ∃ hlt', attributeValue key' (cs ++ post) = .ok (value, ⟨rest ++ post, hlt'⟩) := by
  cases cs with
  | nil => cases h
  | cons q r =>
    refine ⟨List.cons_ne_nil q r, by simp only [List.length_append]; omega, ?_⟩
    simp only [attributeValue] at h
    split at h
    · rename_i hquote
      split at h
      · cases h
      · rename_i raw left hcut
        split at h
        · cases h
        · rename_i hbracket
          split at h
          · cases h
          · rename_i s hs
            cases h
            have hcut' := Text.cutAt?_append hcut post
            simp only [List.cons_append, attributeValue, if_pos hquote]
            split
            · rename_i hnone
              rw [hcut'] at hnone
              cases hnone
            · rename_i hcut''
              rw [hcut'] at hcut''
              cases hcut''
              rw [if_neg hbracket]
              simp only [resolved_after hs]
    · cases h

theorem keyAndValue_append {tag : List Char} {a : String × String}
    (h : keyAndValue tag cs = .ok (a, ⟨rest, hlt⟩)) (tag' : List Char) :
    ∃ hlt', keyAndValue tag' (cs ++ post) = .ok (a, ⟨rest ++ post, hlt'⟩) := by
  refine ⟨by simp only [List.length_append]; omega, ?_⟩
  unfold keyAndValue at h
  split at h
  · cases h
  · rename_i key r1 h1 hname
    split at h
    · cases h
    · rename_i r2 h2 hexpect
      split at h
      · cases h
      · rename_i value r3 h3 hvalue
        cases h
        obtain ⟨hne, _, hexpect'⟩ := expect_skip_append post hexpect tag' .noEquals
        obtain ⟨_, hname'⟩ := name_append_of_ne_nil post hname hne
        obtain ⟨hne', hvalue'⟩ := attributeValue_append post hvalue (cs ++ post)
        rw [← skip_append post hne'] at hvalue'
        obtain ⟨_, hvalue'⟩ := hvalue'
        simp only [keyAndValue, hname', hexpect', hvalue']

end

theorem head_of_keyAndValue {tag cs : List Char} {a : String × String} {rest : Shorter cs}
    (h : keyAndValue tag cs = .ok (a, rest)) :
    ∃ c r, cs = c :: r ∧ (isLetter c = true ∨ c = '_') := by
  unfold keyAndValue at h
  split at h
  · cases h
  · rename_i hname
    exact head_of_name hname

theorem attributes_append {tag cs : List Char} {read all : List (String × String)} {empty : Bool}
    {rest : List Char} {hlt : rest.length < cs.length}
    (h : attributes tag read cs = .ok (all, empty, ⟨rest, hlt⟩)) (tag' post : List Char) :
    ∃ hlt', attributes tag' read (cs ++ post) = .ok (all, empty, ⟨rest ++ post, hlt'⟩) := by
  have hle := (skip cs).2
  have hskip {d : Char} {r : List Char} (hd : (skip cs).1 = d :: r) :
      (skip (cs ++ post)).1 = d :: (r ++ post) := by
    rw [skip_append post (by rw [hd]; exact List.cons_ne_nil d r), hd, List.cons_append]
  rw [attributes] at h
  split at h
  · cases h
  · rename_i r hend
    cases h
    have hend' : (skip (cs ++ post)).1 = tagEnd true ++ (rest ++ post) := hskip hend
    exact attributes_of_tagEnd hend'
  · rename_i r hend
    cases h
    have hend' : (skip (cs ++ post)).1 = tagEnd false ++ (rest ++ post) := hskip hend
    exact attributes_of_tagEnd hend'
  · rename_i c r _ _ hname
    split at h
    · cases h
    · rename_i hspace
      split at h
      · cases h
      · rename_i key value r1 h1 hread
        obtain ⟨_, hread'⟩ := keyAndValue_append post hread tag'
        obtain ⟨c', r', hcons, hc⟩ := head_of_keyAndValue hread
        obtain ⟨rfl, rfl⟩ := List.cons.inj hcons
        split at h
        · cases h
        · rename_i hfresh
          split at h
          · cases h
          · rename_i hmore
            cases h
            have hsmaller : r1.length < cs.length := by rw [hname] at hle; omega
            obtain ⟨_, hmore'⟩ := attributes_append hmore tag' post
            refine attributes_of_keyAndValue (hskip hname) hc ?_ hread' (Bool.eq_false_iff.mpr hfresh)
              hmore'
            simp only [List.length_cons, List.length_append] at hspace ⊢
            omega
termination_by cs.length

/-! ## Markup -/

section
variable {cs rest : List Char} {ev : Option Event} {hlt : rest.length < cs.length} (post : List Char)

theorem skipPast_append {m : Char} {ms : List Char} {fault : Fault}
    (h : skipPast m ms fault cs = .ok (ev, ⟨rest, hlt⟩)) :
    ∃ hlt', skipPast m ms fault (cs ++ post) = .ok (ev, ⟨rest ++ post, hlt'⟩) := by
  refine ⟨by simp only [List.length_append]; omega, ?_⟩
  unfold skipPast at h ⊢
  split at h
  · cases h
  · rename_i hcut
    cases h
    have hcut' := Text.cutAt?_append hcut post
    split
    · rename_i hnone
      rw [hcut'] at hnone
      cases hnone
    · rename_i hcut''
      rw [hcut'] at hcut''
      cases hcut''
      rfl

theorem characterData_append {here : List Char}
    (h : characterData here cs = .ok (ev, ⟨rest, hlt⟩)) (here' : List Char) :
    ∃ hlt', characterData here' (cs ++ post) = .ok (ev, ⟨rest ++ post, hlt'⟩) := by
  refine ⟨by simp only [List.length_append]; omega, ?_⟩
  unfold characterData at h ⊢
  split at h
  · cases h
  · rename_i hcut
    cases h
    have hcut' := Text.cutAt?_append hcut post
    split
    · rename_i hnone
      rw [hcut'] at hnone
      cases hnone
    · rename_i hcut''
      rw [hcut'] at hcut''
      cases hcut''
      rfl

theorem endTag_append {tag : List Char} (h : endTag tag cs = .ok (ev, ⟨rest, hlt⟩))
    (tag' : List Char) :
    ∃ hlt', endTag tag' (cs ++ post) = .ok (ev, ⟨rest ++ post, hlt'⟩) := by
  refine ⟨by simp only [List.length_append]; omega, ?_⟩
  unfold endTag at h
  split at h
  · cases h
  · rename_i n r1 h1 hname
    split at h
    · cases h
    · rename_i r2 h2 hexpect
      cases h
      obtain ⟨hne, _, hexpect'⟩ := expect_skip_append post hexpect tag' .openEndTag
      obtain ⟨_, hname'⟩ := name_append_of_ne_nil post hname hne
      simp only [endTag, hname', hexpect']

theorem startTag_append {tag : List Char} (h : startTag tag cs = .ok (ev, ⟨rest, hlt⟩))
    (tag' : List Char) :
    ∃ hlt', startTag tag' (cs ++ post) = .ok (ev, ⟨rest ++ post, hlt'⟩) := by
  refine ⟨by simp only [List.length_append]; omega, ?_⟩
  unfold startTag at h
  split at h
  · cases h
  · rename_i n r1 h1 hname
    split at h
    · cases h
    · rename_i attrs empty r2 h2 hattributes
      have hne : r1 ≠ [] := by
        rintro rfl
        exact Nat.not_lt_zero _ h2
      cases h
      obtain ⟨_, hname'⟩ := name_append_of_ne_nil post hname hne
      obtain ⟨_, hattributes'⟩ := attributes_append hattributes tag' post
      simp only [startTag, hname', hattributes']

end

theorem event_of_startTag {tag cs : List Char} {ev : Option Event} {rest : Shorter cs}
    (h : startTag tag cs = .ok (ev, rest)) :
    ∃ n attrs empty, ev = some (.start n attrs empty) := by
  unfold startTag at h
  split at h
  · cases h
  · split at h
    · cases h
    · cases h
      exact ⟨_, _, _, rfl⟩

theorem next_append {cs rest : List Char} {ev : Option Event}
    {hlt : rest.length < ('<' :: cs).length} (h : next '<' cs = .ok (ev, ⟨rest, hlt⟩))
    (post : List Char) : ∃ hlt', next '<' (cs ++ post) = .ok (ev, ⟨rest ++ post, hlt'⟩) := by
  have hlt' : (rest ++ post).length < ('<' :: (cs ++ post)).length := by
    simp only [List.length_append, List.length_cons] at hlt ⊢
    omega
  refine ⟨hlt', ?_⟩
  unfold next at h
  rw [if_pos rfl] at h
  split at h
  · obtain ⟨_, h'⟩ := skipPast_append post h
    exact h'
  · rename_i r
    split at h
    · cases h
    · rename_i hdata
      cases h
      obtain ⟨_, hdata'⟩ := characterData_append post hdata
        ('<' :: '!' :: '[' :: 'C' :: 'D' :: 'A' :: 'T' :: 'A' :: '[' :: (r ++ post))
      unfold next
      simp only [List.cons_append, if_pos, hdata']
  · obtain ⟨_, h'⟩ := skipPast_append post h
    exact h'
  · rename_i r
    split at h
    · cases h
    · rename_i htag
      cases h
      obtain ⟨_, htag'⟩ := endTag_append post htag ('<' :: '/' :: (r ++ post))
      unfold next
      simp only [List.cons_append, if_pos, htag']
  · split at h
    · cases h
    · rename_i htag
      cases h
      obtain ⟨c, r, rfl, hc⟩ := head_of_startTag htag
      obtain ⟨_, htag'⟩ := startTag_append post htag ('<' :: (c :: r ++ post))
      obtain ⟨n, attrs, empty, rfl⟩ := event_of_startTag htag
      exact next_startTag hc rfl htag'

end Template

end SqlTemplate
