import SqlTemplate.Template.ByOffset
import SqlTemplate.Proofs.Template.Lexing
import SqlTemplate.Proofs.Template.Places
/-!
Byte offsets against the texts that stand there.

`RestAt` says what stands at an offset, and so that the source can be cut there. `Agrees` says that
two readers, one of texts and one by offset, give the same or fail with the same fault at the same
line and column. What is proved:
  1. `RestAt.sliceFrom`, `RestAt.slice`, `RestAt.fail`: what stands at an offset is cut off there,
     and a fault at an offset is reported for what stands there.
  2. `resolved_agrees`: the readers of references agree.
  3. `attributes_agrees`: so do those of attributes, up to the end of the tag.
-/

namespace SqlTemplate.Template.ByOffset

open Condition (isLetter run)

/-- From the byte offset `pos` on, `cs` stands in the source. -/
def RestAt (source : List Char) (pos : Nat) (cs : List Char) : Prop :=
  ∃ front, source = front ++ cs ∧ pos = Text.byteLength front

def report (source : List Char) (e : Failure) : Error :=
  .malformed (e.line source) (e.column source) e.fault

/-- A reader of texts and one by offset give related results, or fail with the same error. -/
inductive Agrees {α β : Type} (source : List Char) (R : α → β → Prop) :
    Except Failure α → Except Stop β → Prop
  | ok {a : α} {b : β} (h : R a b) : Agrees source R (.ok a) (.ok b)
  | error {e : Failure} (h : e.here <:+ source) :
    Agrees source R (.error e) (.error (.failed (report source e)))

theorem ok_bind {α β : Type} (a : α) (f : α → Except Stop β) : (Except.ok a >>= f) = f a := rfl

/-! ## Cuts -/

theorem sliceTo_append (front rest : List Char) :
    sliceTo (front ++ rest) (Text.byteLength front) = .ok front := by
  rw [sliceTo, Text.splitAt?_append]

theorem sliceTo_of_eq {cs front rest : List Char} (h : cs = front ++ rest) :
    sliceTo cs (Text.byteLength front) = .ok front := by
  rw [h, sliceTo_append]

namespace RestAt

variable {source cs : List Char} {pos : Nat}

theorem start (source : List Char) : RestAt source 0 source := ⟨[], rfl, rfl⟩

theorem of_suffix (h : cs <:+ source) :
    RestAt source (Text.byteLength source - Text.byteLength cs) cs := by
  obtain ⟨front, rfl⟩ := h
  refine ⟨front, rfl, ?_⟩
  rw [Text.byteLength_append, Nat.add_sub_cancel]

theorem suffix (h : RestAt source pos cs) : cs <:+ source := by
  obtain ⟨front, rfl, _⟩ := h
  exact List.suffix_append front cs

theorem byteLength (h : RestAt source pos cs) :
    pos + Text.byteLength cs = Text.byteLength source := by
  obtain ⟨front, rfl, rfl⟩ := h
  exact (Text.byteLength_append front cs).symm

theorem behind {w : List Char} (h : RestAt source pos (w ++ cs)) :
    RestAt source (pos + Text.byteLength w) cs := by
  obtain ⟨front, rfl, rfl⟩ := h
  exact ⟨front ++ w, (List.append_assoc ..).symm, (Text.byteLength_append front w).symm⟩

theorem sliceFrom (h : RestAt source pos cs) :
    sliceFrom source pos = .ok ⟨cs, h.byteLength⟩ := by
  obtain ⟨front, rfl, rfl⟩ := h
  unfold ByOffset.sliceFrom
  split
  · rename_i h
    rw [Text.splitAt?_append] at h
    cases h
    rfl
  · rename_i h
    rw [Text.splitAt?_append] at h
    cases h

theorem slice {w : List Char} (h : RestAt source pos (w ++ cs)) :
    slice source pos (pos + Text.byteLength w) = .ok w := by
  obtain ⟨front, rfl, rfl⟩ := h
  have hrest : RestAt (front ++ w) (Text.byteLength front) w := ⟨front, rfl, rfl⟩
  rw [ByOffset.slice, ← Text.byteLength_append, ← List.append_assoc, sliceTo_append, ok_bind,
    hrest.sliceFrom, ok_bind]
  rfl

theorem eq_iff {ds : List Char} {q : Nat} (h : RestAt source pos cs) (h' : RestAt source q ds) :
    pos = q ↔ cs = ds := by
  constructor
  · rintro rfl
    have hslice := h.sliceFrom
    rw [h'.sliceFrom] at hslice
    cases hslice
    rfl
  · rintro rfl
    have hpos := h.byteLength
    have hq := h'.byteLength
    omega

end RestAt

theorem lineAndColumn_append (front rest : List Char) :
    lineAndColumn (front ++ rest) (Text.byteLength front) =
      .ok (lineAfter front, columnAfter front) := by
  have hmin : min (Text.byteLength front) (Text.byteLength (front ++ rest)) =
      Text.byteLength front := by
    rw [Text.byteLength_append]
    omega
  rw [lineAndColumn, hmin, sliceTo_append, ok_bind]
  rcases last_line front with ⟨hnone, hcolumn⟩ | ⟨above, last, rfl, hlast, hcolumn⟩
  · rw [hcolumn]
    simp only [Text.findLast?_eq_none hnone]
    rfl
  · -- Behind the line feed stands the last line.
    have hrest : RestAt (above ++ '\n' :: last) (Text.byteLength above + 1) last :=
      ⟨above ++ ['\n'], by simp, by rw [Text.byteLength_append]; rfl⟩
    rw [hcolumn]
    simp only [Text.findLast?_append hlast, hrest.sliceFrom, ok_bind]
    rfl

namespace RestAt

variable {source cs : List Char} {pos : Nat}

theorem fail {α : Type} (h : RestAt source pos cs) (fault : Fault) :
    (fail source pos fault : Except Stop α) = .error (.failed (report source ⟨fault, cs⟩)) := by
  obtain ⟨front, rfl, rfl⟩ := h
  have hbefore : (⟨fault, cs⟩ : Failure).before (front ++ cs) = front := by
    rw [Failure.before, List.length_append, Nat.add_sub_cancel, List.take_left]
  rw [ByOffset.fail, lineAndColumn_append, ok_bind, report, Failure.line, Failure.column, hbefore]
  rfl

theorem agrees_fail {α β : Type} {R : α → β → Prop} (h : RestAt source pos cs) (fault : Fault) :
    Agrees source R (.error ⟨fault, cs⟩) (ByOffset.fail source pos fault) := by
  rw [h.fail fault]
  exact .error h.suffix

end RestAt

/-- Results with the same value, the one with the text behind it, the other with its offset. -/
def Reached {α : Type} {P : List Char → Prop} {Q : Nat → Prop} (source : List Char)
    (a : α × { r : List Char // P r }) (b : α × { p : Nat // Q p }) : Prop :=
  b.1 = a.1 ∧ RestAt source b.2.1 a.2.1

theorem Agrees.cases {α β : Type} {source : List Char} {R : α → β → Prop} {x : Except Failure α}
    {y : Except Stop β} (h : Agrees source R x y) :
    (∃ e, x = .error e ∧ y = .error (.failed (report source e)) ∧ e.here <:+ source) ∨
      ∃ a b, x = .ok a ∧ y = .ok b ∧ R a b := by
  cases h with
  | ok h => exact .inr ⟨_, _, rfl, rfl, h⟩
  | error h => exact .inl ⟨_, rfl, rfl, h⟩

/-! ## References -/

theorem resolved_of_not_mem {raw : List Char} (h : '&' ∉ raw) (after : List Char) :
    Template.resolved after raw = .ok raw := by
  induction raw with
  | nil => rw [Template.resolved]
  | cons c raw ih =>
    obtain ⟨hc, hraw⟩ := List.ne_and_not_mem_of_not_mem_cons h
    rw [resolved_char hc.symm, ih hraw]
    rfl

theorem resolved_append_of_not_mem {plain : List Char} (h : '&' ∉ plain) (after rest : List Char) :
    Template.resolved after (plain ++ rest) = (Template.resolved after rest).map (plain ++ ·) := by
  induction plain with
  | nil => cases hrest : Template.resolved after rest <;> rw [List.nil_append, hrest] <;> rfl
  | cons c plain ih =>
    obtain ⟨hc, hplain⟩ := List.ne_and_not_mem_of_not_mem_cons h
    rw [List.cons_append, resolved_char hc.symm, ih hplain]
    cases Template.resolved after rest <;> rfl

theorem reference?_find (cs : List Char) :
    (reference? cs = none ∧ (Text.find? [';'] cs).filter (· ≤ 10) = none) ∨
    ∃ entity rest h, reference? cs = some (entity, ⟨rest, h⟩) ∧
      (Text.find? [';'] cs).filter (· ≤ 10) = some (Text.byteLength entity) ∧
      cs = entity ++ ';' :: rest := by
  unfold reference?
  split
  · rename_i entity rest hcut
    have hcs : cs = entity ++ ';' :: rest := by simpa using Text.append_of_cutAt? hcut
    rw [Text.find?_eq_some hcut, Option.filter_some]
    split
    · rename_i hshort
      exact .inr ⟨entity, rest, Text.length_cutAt? hcut, rfl, if_pos (by simpa using hshort), hcs⟩
    · rename_i hlong
      exact .inl ⟨rfl, if_neg (by simpa using hlong)⟩
  · rename_i hcut
    exact .inl ⟨rfl, by rw [Text.find?_eq_none.mpr hcut]; rfl⟩

theorem RestAt.behind_reference {source plain entity rest : List Char} {pos : Nat}
    (h : RestAt source pos (plain ++ '&' :: (entity ++ ';' :: rest))) :
    RestAt source (pos + (Text.byteLength plain + 1 + Text.byteLength entity + 1)) rest := by
  have hsplit : plain ++ '&' :: (entity ++ ';' :: rest) =
      plain ++ '&' :: entity ++ [';'] ++ rest := by simp
  have hlength : Text.byteLength (plain ++ '&' :: entity ++ [';']) =
      Text.byteLength plain + 1 + Text.byteLength entity + 1 := by
    rw [Text.byteLength_append, Text.byteLength_append, Text.byteLength_cons, ← Nat.add_assoc]
    rfl
  rw [hsplit] at h
  rw [← hlength]
  exact h.behind

/-- References are resolved alike behind what is resolved already. -/
theorem resolvedFrom_agrees {source after : List Char} {base consumed : Nat} (out rest : List Char)
    (h : RestAt source (base + consumed) (rest ++ after)) :
    Agrees source (fun a b => b = out ++ a) (Template.resolved after rest)
      (resolvedFrom source base out consumed rest) := by
  -- A round goes past the next reference and the text in front of it.
  induction hlength : rest.length using Nat.strongRecOn generalizing out consumed rest with
  | ind n ih =>
  rw [resolvedFrom]
  cases hamp : Text.cutAt? ['&'] rest with
  | none =>
    have hnone : '&' ∉ rest := Text.not_mem_of_cutAt?_eq_none hamp
    rw [Text.find?_eq_none.mpr hamp, resolved_of_not_mem hnone]
    exact .ok rfl
  | some p =>
    obtain ⟨plain, tail⟩ := p
    have hplain := Text.not_mem_of_cutAt?_singleton hamp
    obtain rfl : rest = plain ++ '&' :: tail := by simpa using Text.append_of_cutAt? hamp
    have htail : RestAt (plain ++ '&' :: tail) (Text.byteLength plain + 1) tail :=
      ⟨plain ++ ['&'], by simp, by rw [Text.byteLength_append]; rfl⟩
    have hplace : RestAt source (base + consumed + Text.byteLength plain) ('&' :: tail ++ after) :=
      RestAt.behind (by simpa using h)
    rw [Text.find?_eq_some hamp, resolved_append_of_not_mem hplain, Template.resolved, if_pos rfl]
    simp only [sliceTo_append, ok_bind, htail.sliceFrom]
    rcases reference?_find tail with ⟨href, hfind⟩ | ⟨entity, left, hle, href, hfind, rfl⟩
    · rw [href, hfind]
      exact hplace.agrees_fail .openReference
    · rw [href, hfind]
      simp only [sliceTo_append, ok_bind]
      cases hentity : entity? entity with
      | none => exact hplace.agrees_fail (.unknownReference (String.ofList entity))
      | some c =>
        have hleft : RestAt (plain ++ '&' :: (entity ++ ';' :: left))
            (Text.byteLength plain + 1 + Text.byteLength entity + 1) left := by
          have hbehind := RestAt.behind_reference (.start (plain ++ '&' :: (entity ++ ';' :: left)))
          rwa [Nat.zero_add] at hbehind
        have hnext : RestAt source
            (base + (consumed + (Text.byteLength plain + 1 + Text.byteLength entity + 1)))
            (left ++ after) := by
          rw [← Nat.add_assoc]
          exact RestAt.behind_reference (by simpa using h)
        have hshorter : left.length < n := by
          rw [← hlength]
          simp only [List.length_append, List.length_cons]
          omega
        have hagrees := ih left.length hshorter (out ++ plain ++ [c]) left hnext rfl
        simp only [hleft.sliceFrom, ok_bind]
        rcases hagrees.cases with ⟨e, hx, hy, he⟩ | ⟨a, _, hx, hy, rfl⟩
        · rw [hx, hy]
          exact .error he
        · rw [hx, hy]
          have hout : out ++ plain ++ [c] ++ a = out ++ (plain ++ c :: a) := by simp
          exact .ok hout

theorem resolved_agrees {source raw after : List Char} {base : Nat}
    (h : RestAt source base (raw ++ after)) :
    Agrees source (fun a b => b = a) (Template.resolved after raw) (resolved source base raw) := by
  rw [resolved]
  split
  · exact resolvedFrom_agrees [] raw h
  · rename_i hnone
    rw [resolved_of_not_mem (by simpa using hnone)]
    exact .ok rfl

/-! ## Names -/

theorem isTagByte_ascii : ∀ n < 0x80, isTagByte (UInt8.ofNat n) = isTagChar (Char.ofNat n) := by
  decide

theorem isTagByte_of_le {b : UInt8} (h : 0x80 ≤ b.toNat) : isTagByte b = false := by
  simp only [isTagByte, UInt8.le_iff_toNat_le, ← UInt8.toNat_inj, UInt8.reduceToNat,
    Bool.or_eq_false_iff, Bool.and_eq_false_iff, decide_eq_false_iff_not, beq_eq_false_iff_ne,
    ne_eq]
  omega

theorem isTagChar_of_first {c : Char} (h : isLetter c = true ∨ c = '_') : isTagChar c = true := by
  rcases h with h | rfl
  · rw [isTagChar, Condition.isNameChar, h]
    rfl
  · decide

theorem isTagChar_of_le {c : Char} (h : 0x80 ≤ c.toNat) : isTagChar c = false := by
  rw [← Bool.not_eq_true]
  intro hc
  simp only [isTagChar, Bool.or_eq_true, beq_iff_eq] at hc
  rcases hc with ((hname | rfl) | rfl) | rfl
  · have hvisible := (Condition.visible_of_isNameChar hname).2
    omega
  all_goals exact absurd h (by decide)

theorem utf8EncodeChar_of_le {c : Char} (h : 0x80 ≤ c.toNat) :
    ∃ b bs, String.utf8EncodeChar c = b :: bs ∧ 0x80 ≤ b.toNat := by
  have hval : c.val.toNat = c.toNat := rfl
  rw [String.utf8EncodeChar, hval, if_neg (by omega)]
  split
  · exact ⟨_, _, rfl, by rw [UInt8.toNat_ofNat']; omega⟩
  · split <;> exact ⟨_, _, rfl, by rw [UInt8.toNat_ofNat']; omega⟩

theorem length_takeWhile_encode (cs : List Char) :
    ((Text.encode cs).takeWhile isTagByte).length = Text.byteLength (cs.takeWhile isTagChar) := by
  induction cs with
  | nil => rfl
  | cons c cs ih =>
    have hencode : Text.encode (c :: cs) = String.utf8EncodeChar c ++ Text.encode cs := rfl
    rw [hencode]
    by_cases hc : 0x80 ≤ c.toNat
    · obtain ⟨b, bs, hbytes, hb⟩ := utf8EncodeChar_of_le hc
      rw [hbytes, List.cons_append, List.takeWhile_cons, List.takeWhile_cons, isTagByte_of_le hb,
        isTagChar_of_le hc]
      rfl
    · have hsize : c.utf8Size = 1 := by
        rw [Char.utf8Size_eq_one_iff, UInt32.le_iff_toNat_le]
        exact Nat.le_of_lt_succ (Nat.lt_of_not_le hc)
      have hbyte : isTagByte c.val.toUInt8 = isTagChar c := by
        have h := isTagByte_ascii c.toNat (Nat.lt_of_not_le hc)
        rwa [Char.ofNat_toNat] at h
      rw [String.utf8EncodeChar_eq_singleton hsize, List.cons_append, List.nil_append,
        List.takeWhile_cons, List.takeWhile_cons, hbyte]
      split
      · rw [List.length_cons, ih, Text.byteLength_cons, hsize, Nat.add_comm]
      · rfl

theorem name_agrees {source cs : List Char} {pos : Nat} (h : RestAt source pos cs) :
    Agrees source (Reached source) (Template.name cs) (name source pos) := by
  rw [name, h.sliceFrom, ok_bind]
  cases cs with
  | nil => exact h.agrees_fail .noName
  | cons c r =>
    rw [Template.name, List.head?_cons, Option.any_some]
    split
    · rename_i hc
      have hchar : isTagChar c = true := isTagChar_of_first (by simpa using hc)
      have hlength : ((Text.encode (c :: r)).takeWhile isTagByte).length =
          Text.byteLength (c :: r.takeWhile isTagChar) := by
        rw [length_takeWhile_encode, List.takeWhile_cons_of_pos hchar]
      have hsplit : c :: r = c :: r.takeWhile isTagChar ++ r.dropWhile isTagChar := by
        rw [List.cons_append, List.takeWhile_append_dropWhile]
      simp only [hlength, sliceTo_of_eq hsplit, ok_bind]
      exact .ok ⟨rfl, RestAt.behind (hsplit ▸ h)⟩
    · exact h.agrees_fail .noName

theorem skip_agrees {source cs : List Char} {pos : Nat} (h : RestAt source pos cs) :
    ∃ p, skip source pos = .ok p ∧ RestAt source p.1 (Template.skip cs).1 := by
  have hsplit : cs.takeWhile Text.isBlank ++ Text.trimStart cs = cs :=
    List.takeWhile_append_dropWhile
  have hskipped : Text.byteLength cs - Text.byteLength (Text.trimStart cs) =
      Text.byteLength (cs.takeWhile Text.isBlank) := by
    have hbytes := Text.byteLength_append (cs.takeWhile Text.isBlank) (Text.trimStart cs)
    rw [hsplit] at hbytes
    omega
  rw [skip, h.sliceFrom, ok_bind]
  refine ⟨_, rfl, ?_⟩
  show RestAt source (pos + (Text.byteLength cs - Text.byteLength (Text.trimStart cs))) _
  rw [hskipped]
  exact RestAt.behind (hsplit.symm ▸ h)

/-! ## Tags -/

theorem expect_agrees {source tag cs : List Char} {start pos : Nat}
    (hstart : RestAt source start tag) (h : RestAt source pos cs) (c : Char) (fault : Fault) :
    Agrees source (fun a b => RestAt source b.1 a.1) (Template.expect c tag fault cs)
      (expect [c] source start fault pos) := by
  have hlength := h.byteLength
  rw [expect, h.sliceFrom, ok_bind]
  cases cs with
  | nil =>
    have hend : Text.byteLength source ≤ pos := Nat.le_of_eq hlength.symm
    rw [Template.expect, if_neg (by simp [Text.startsWith, Text.after?]), if_pos hend]
    exact hstart.agrees_fail .openTag
  | cons d r =>
    rw [Template.expect]
    by_cases hd : d = c
    · subst hd
      rw [if_pos rfl, if_pos (by simp [Text.startsWith, Text.after?])]
      exact .ok (RestAt.behind (w := [d]) h)
    · have hinside : ¬ Text.byteLength source ≤ pos := by
        have hpos := Text.byteLength_pos (List.cons_ne_nil d r)
        omega
      have hother : ¬ Text.startsWith [c] (d :: r) = true := by
        simpa [Text.startsWith, Text.after?] using Ne.symm hd
      rw [if_neg hd, if_neg hother, if_neg hinside]
      exact h.agrees_fail fault

theorem attributeValue_agrees {source name cs : List Char} {key pos : Nat}
    (hkey : RestAt source key name) (h : RestAt source pos cs) :
    Agrees source (Reached source) (Template.attributeValue name cs)
      (attributeValue source key pos) := by
  rw [attributeValue, h.sliceFrom, ok_bind]
  cases cs with
  | nil => exact h.agrees_fail .unquotedValue
  | cons q r =>
    rw [Template.attributeValue]
    simp only [List.head?_cons, Option.filter_some]
    by_cases hq : (q = '\x27' || q = '\x22') = true
    · have hquote : Text.byteLength [q] = 1 := by
        rcases Bool.or_eq_true .. ▸ hq with hq | hq <;> rw [of_decide_eq_true hq] <;> rfl
      have hr : RestAt source (pos + 1) r := by
        rw [← hquote]
        exact RestAt.behind (w := [q]) h
      simp only [if_pos hq, hr.sliceFrom, ok_bind]
      split
      · rename_i hcut
        rw [Text.find?_eq_none.mpr hcut]
        exact hkey.agrees_fail .openValue
      · rename_i raw rest hcut
        have hraw : RestAt source (pos + 1) (raw ++ q :: rest) := by
          rw [Text.append_of_cutAt? hcut, List.append_assoc] at hr
          exact hr
        have hbehind : RestAt source (pos + 1 + Text.byteLength raw + 1) rest := by
          have hclosing : RestAt source (pos + 1 + Text.byteLength raw) ([q] ++ rest) :=
            RestAt.behind hraw
          have hrest := RestAt.behind hclosing
          rwa [hquote] at hrest
        simp only [Text.find?_eq_some hcut, hraw.slice, ok_bind]
        split
        · exact hr.agrees_fail .bracketInValue
        · rcases (resolved_agrees hraw).cases with ⟨e, hx, hy, he⟩ | ⟨a, b, hx, hy, rfl⟩
          · rw [hx, hy]
            exact .error he
          · rw [hx, hy]
            exact .ok ⟨rfl, hbehind⟩
    · simp only [if_neg hq]
      exact h.agrees_fail .unquotedValue

theorem keyAndValue_agrees {source tag cs : List Char} {start pos : Nat}
    (hstart : RestAt source start tag) (h : RestAt source pos cs) :
    Agrees source (Reached source) (Template.keyAndValue tag cs)
      (keyAndValue source start pos) := by
  rw [Template.keyAndValue, keyAndValue]
  rcases (name_agrees h).cases with
    ⟨e, hx, hy, he⟩ | ⟨⟨key, r₁, _⟩, ⟨_, p₁, _⟩, hx, hy, rfl, hr₁⟩
  · rw [hx, hy]
    exact .error he
  rw [hx, hy]
  obtain ⟨⟨p₂, _⟩, hskip, hr₂⟩ := skip_agrees hr₁
  simp only [ok_bind, hskip]
  rcases (expect_agrees hstart hr₂ '=' .noEquals).cases with
    ⟨e, hx, hy, he⟩ | ⟨⟨r₃, _⟩, ⟨p₃, _⟩, hx, hy, hr₃⟩
  · rw [hx, hy]
    exact .error he
  rw [hx, hy]
  obtain ⟨⟨p₄, _⟩, hskip, hr₄⟩ := skip_agrees hr₃
  simp only [ok_bind, hskip]
  rcases (attributeValue_agrees h hr₄).cases with
    ⟨e, hx, hy, he⟩ | ⟨⟨value, r₅, _⟩, ⟨_, p₅, _⟩, hx, hy, rfl, hr₅⟩
  · rw [hx, hy]
    exact .error he
  rw [hx, hy]
  exact .ok ⟨rfl, hr₅⟩

theorem skip_eq_iff {source cs : List Char} {pos p : Nat} (h : RestAt source pos cs)
    (hp : RestAt source p (Template.skip cs).1) :
    (Template.skip cs).1.length = cs.length ↔ p = pos := by
  rw [hp.eq_iff h]
  constructor
  · exact (List.dropWhile_suffix Text.isBlank).eq_of_length
  · exact congrArg List.length

theorem attributes_agrees {source tag cs : List Char} {start pos : Nat}
    (hstart : RestAt source start tag) (read : List (String × String)) (h : RestAt source pos cs) :
    Agrees source (fun a b => b.1 = a.1 ∧ Reached source a.2 b.2) (Template.attributes tag read cs)
      (attributes source start read pos) := by
  obtain ⟨⟨p, hp⟩, hskip, hr⟩ := skip_agrees h
  have hspace := skip_eq_iff h hr
  have hle := (Template.skip cs).2
  rw [Template.attributes, attributes, hskip]
  simp only [ok_bind, hr.sliceFrom]
  split
  · rename_i heq
    simp only [heq, Text.startsWith, Text.after?, Option.isSome_none, Bool.false_eq_true, if_false,
      dif_pos]
    exact hstart.agrees_fail .openTag
  · rename_i r heq
    rw [heq] at hr
    have hclose : Text.startsWith ['/', '>'] ('/' :: '>' :: r) = true := rfl
    simp only [heq, if_pos hclose]
    exact .ok ⟨rfl, rfl, RestAt.behind (w := ['/', '>']) hr⟩
  · rename_i r heq
    rw [heq] at hr
    have hslash : ¬ Text.startsWith ['/', '>'] ('>' :: r) = true := Bool.false_ne_true
    have hclose : Text.startsWith ['>'] ('>' :: r) = true := rfl
    simp only [heq, if_neg hslash, if_pos hclose]
    exact .ok ⟨rfl, rfl, RestAt.behind (w := ['>']) hr⟩
  · rename_i c r hslash hclose heq
    rw [heq] at hr hspace hle
    have hslash' : ¬ Text.startsWith ['/', '>'] (c :: r) = true := fun hstarts => by
      obtain ⟨_, hcons⟩ := Text.startsWith_iff.mp hstarts
      cases hcons
      exact hslash _ rfl rfl
    have hclose' : ¬ Text.startsWith ['>'] (c :: r) = true := fun hstarts => by
      obtain ⟨_, hcons⟩ := Text.startsWith_iff.mp hstarts
      cases hcons
      exact hclose rfl
    simp only [heq, if_neg hslash', if_neg hclose', dif_neg (List.cons_ne_nil c r)]
    by_cases hsame : (c :: r).length = cs.length
    · rw [if_pos hsame, dif_pos (hspace.mp hsame)]
      exact hr.agrees_fail .noSpace
    · rw [if_neg hsame, dif_neg fun hpos => hsame (hspace.mpr hpos)]
      rcases (keyAndValue_agrees hstart hr).cases with
        ⟨e, hx, hy, he⟩ | ⟨⟨⟨key, value⟩, r₁, hlt⟩, ⟨_, p₁, _⟩, hx, hy, rfl, hr₁⟩
      · simp only [hx, hy]
        exact .error he
      simp only [hx, hy, ok_bind]
      split
      · exact hr.agrees_fail (.duplicateAttribute key)
      have hshorter : r₁.length < cs.length := Nat.lt_of_lt_of_le hlt hle
      rcases (attributes_agrees hstart (read ++ [(key, value)]) hr₁).cases with
        ⟨e, hx, hy, he⟩ | ⟨⟨all, empty, r₂, _⟩, ⟨_, _, p₂, _⟩, hx, hy, rfl, rfl, hr₂⟩
      · simp only [hx, hy]
        exact .error he
      simp only [hx, hy, ok_bind]
      exact .ok ⟨rfl, rfl, hr₂⟩
termination_by cs.length

end SqlTemplate.Template.ByOffset
