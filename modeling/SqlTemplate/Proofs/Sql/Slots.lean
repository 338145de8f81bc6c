import SqlTemplate.Proofs.Sql.Adapter
import SqlTemplate.Proofs.Sql.Numbering
/-!
What the slots of a statement carry when it runs.

A slot is filled from the last bind whose name with a colon in front is the name of the slot. For any
library that numbers the slots of its statements and finds them by their names (`Library.Slotted`):
  1. `bindEach_fills`: a run of binds leaves in every slot the value of the last bind of its name, and
     marks the slots that have one.
  2. `execute_slots`: so a statement runs with what was bound to its slots, or it does not run, because
     the library takes no value of a bind or because a slot has none. Only what is no number is
     carried as null.
  3. `Connection.slotted`: connections are such a library.
-/

namespace SqlTemplate.Sql

open Engine (Bind Fault Outcome)

/-! ## Binds -/

/-- The bind carries one value, which is no sequence. -/
def IsSingle (b : Bind) : Prop := ∃ v, b.carried = .scalar v ∧ ∀ items, v ≠ .seq items

theorem IsSingle.not_isAssoc {b : Bind} (hb : IsSingle b) : ¬ IsAssoc b := by
  obtain ⟨v, hv, -⟩ := hb
  rintro ⟨entries, hentries⟩
  cases hv.symm.trans hentries

/-- No bind has the name of a slot. -/
def Unbound (slot : Option String) (binds : List Bind) : Prop :=
  ∀ b ∈ binds, slot ≠ some (":" ++ b.name)

/-- The last bind that has the name of a slot carries a value. -/
inductive LastBind (slot : Option String) : List Bind → Value → Prop
  | head {b : Bind} {bs : List Bind} {v : Value} (hname : slot = some (":" ++ b.name))
    (hv : b.carried = .scalar v) (hbs : Unbound slot bs) : LastBind slot (b :: bs) v
  | tail {b : Bind} {bs : List Bind} {v : Value} (h : LastBind slot bs v) : LastBind slot (b :: bs) v

/-- What a slot carries for each value. There is no datum for what is no number. -/
inductive CarriedAs : Value → Datum → Prop
  | null : CarriedAs .null .null
  | false : CarriedAs (.bool false) (.int 0)
  | true : CarriedAs (.bool true) (.int 1)
  | int (i : Int64) : CarriedAs (.int i) (.int i)
  | float {x : Binary64} (hx : x.isNaN = Bool.false) : CarriedAs (.float x) (.real x)
  | nan {x : Binary64} (hx : x.isNaN = Bool.true) : CarriedAs (.float x) .null
  | text (s : String) : CarriedAs (.text s) (.text s.toByteArray.data.toList)
  | bytes (bs : List UInt8) : CarriedAs (.bytes bs) (.blob bs)

variable {binds : List Bind} {slot : Option String}

theorem encode_toList (s : String) : Text.encode s.toList = s.toByteArray.data.toList := by
  rw [← String.utf8Encode_toList, List.utf8Encode]
  simp [Text.encode]

/-- A value that is no sequence has a datum, and what is kept of it is what a slot carries. -/
theorem ofValue_carried {v : Value} (hv : ∀ items, v ≠ .seq items) :
    ∃ d, Datum.ofValue v = .ok d ∧ CarriedAs v d.kept := by
  cases v with
  | null => exact ⟨_, rfl, .null⟩
  | bool b =>
    cases b with
    | false => exact ⟨_, rfl, .false⟩
    | true => exact ⟨_, rfl, .true⟩
  | int i => exact ⟨_, rfl, .int i⟩
  | float x =>
    refine ⟨_, rfl, ?_⟩
    rw [Datum.kept]
    split
    · rename_i hx
      exact .nan hx
    · rename_i hx
      exact .float (Bool.eq_false_iff.mpr hx)
  | text s => exact ⟨_, rfl, encode_toList s ▸ .text s⟩
  | bytes bs => exact ⟨_, rfl, .bytes bs⟩
  | seq items => exact absurd rfl (hv items)

theorem CarriedAs.unique {v : Value} {d e : Datum} (hd : CarriedAs v d) (he : CarriedAs v e) :
    d = e := by
  cases hd with
  | float hx =>
    cases he with
    | float _ => rfl
    | nan hy => cases hx.symm.trans hy
  | nan hx =>
    cases he with
    | float hy => cases hx.symm.trans hy
    | nan _ => rfl
  | _ =>
    cases he
    rfl

theorem lastBind_or_unbound (hbinds : ∀ b ∈ binds, IsSingle b) (slot : Option String) :
    (∃ v, LastBind slot binds v) ∨ Unbound slot binds := by
  induction binds with
  | nil => exact .inr nofun
  | cons b bs ih =>
    obtain ⟨⟨v, hv, -⟩, hbs⟩ := List.forall_mem_cons.mp hbinds
    rcases ih hbs with ⟨w, hw⟩ | hunbound
    · exact .inl ⟨w, .tail hw⟩
    · by_cases hname : slot = some (":" ++ b.name)
      · exact .inl ⟨v, .head hname hv hunbound⟩
      · exact .inr (List.forall_mem_cons.mpr ⟨hname, hunbound⟩)

theorem LastBind.not_unbound {v : Value} (h : LastBind slot binds v) : ¬ Unbound slot binds := by
  induction h with
  | head hname _ _ => exact fun hunbound => hunbound _ List.mem_cons_self hname
  | tail _ ih => exact fun hunbound => ih fun b hb => hunbound b (List.mem_cons_of_mem _ hb)

theorem LastBind.unique {v w : Value} (hv : LastBind slot binds v) (hw : LastBind slot binds w) :
    v = w := by
  induction hv with
  | head hname hv hbs =>
    cases hw with
    | head _ hw _ => exact Engine.Carried.scalar.inj (hv.symm.trans hw)
    | tail hw => exact absurd hbs hw.not_unbound
  | tail hv ih =>
    cases hw with
    | head _ _ hbs => exact absurd hbs hv.not_unbound
    | tail hw => exact ih hw

/-! ## Slots -/

namespace Library

variable {σ π δ : Type} {lib : Library σ π} {carried : π → Nat → Datum} {contents : σ → δ}
  {p q r : π}

def IsSlot (lib : Library σ π) (p : π) (i : Nat) : Prop := 0 < i ∧ i ≤ lib.slotCount p

/-- A name is looked up among the slots of a statement: it is that of one slot, or of none. -/
def FindsSlots (lib : Library σ π) (p : π) : Prop :=
  ∀ name, ∃ found, lib.slotNumber? p name = .ok found ∧
    ∀ i, found = some i ↔ lib.IsSlot p i ∧ lib.slotName? p i = some name

/-- What is taken of a library as given: `contents` are the databases of a connection and `carried`
is what the slots of a statement carry. -/
structure Slotted (lib : Library σ π) (carried : π → Nat → Datum) (contents : σ → δ) : Prop where
  /-- A text is compiled without being run. -/
  compile_contents (sql : String) (s : σ) : contents (lib.compile sql s).2 = contents s
  compile_finds {sql : String} {s t : σ} {p : π} (h : lib.compile sql s = (.ok p, t)) :
    lib.FindsSlots p
  bind_count {p q : π} {i : Nat} {d : Datum} (h : lib.bind p i d = .ok q) :
    lib.slotCount q = lib.slotCount p
  bind_number {p q : π} {i : Nat} {d : Datum} (h : lib.bind p i d = .ok q) :
    lib.slotNumber? q = lib.slotNumber? p
  bind_name {p q : π} {i : Nat} {d : Datum} (h : lib.bind p i d = .ok q) :
    lib.slotName? q = lib.slotName? p
  /-- Only the slot that is bound changes. What is no number is kept as null. -/
  bind_carried {p q : π} {i : Nat} {d : Datum} (h : lib.bind p i d = .ok q) {j : Nat} (hj : 0 < j) :
    carried q j = if j = i then d.kept else carried p j

/-- The library does not take the value of a bind for the slot of its name. -/
def Refuses (lib : Library σ π) (p : π) (binds : List Bind) (f : Failure) : Prop :=
  ∃ b ∈ binds, ∃ v d i q, b.carried = .scalar v ∧ Datum.ofValue v = .ok d ∧ lib.IsSlot p i ∧
    lib.slotName? p i = some (":" ++ b.name) ∧ lib.Bound p q ∧ lib.bind q i d = .error f

end Library

namespace Connection

def carried (p : Prepared) (i : Nat) : Datum := (p.data[i - 1]?).getD .null

theorem slotNumber?_eq_some {p : Prepared} (hslots : p.slots.IsDistinct) {name : String} {i : Nat} :
    p.slotNumber? name = some i ↔ library.IsSlot p i ∧ library.slotName? p i = some name := by
  constructor
  · intro h
    obtain ⟨k, hk, rfl⟩ := Option.map_eq_some_iff.mp h
    have hslot := hslots.idxOf?.mp hk
    refine ⟨⟨Nat.succ_pos k, (List.getElem?_eq_some_iff.mp hslot).1⟩, ?_⟩
    exact Option.join_eq_some_iff.mpr hslot
  · rintro ⟨⟨hpositive, _⟩, hname⟩
    exact Option.map_eq_some_iff.mpr
      ⟨i - 1, hslots.idxOf?.mpr (Option.join_eq_some_iff.mp hname), Nat.sub_add_cancel hpositive⟩

theorem bind_ok {p q : Prepared} {i : Nat} {d : Datum} (h : p.bind i d = .ok q) :
    0 < i ∧ i ≤ p.data.length ∧ q = { p with data := p.data.set (i - 1) d.kept } := by
  unfold Prepared.bind at h
  split at h <;> cases h
  rename_i hi
  exact ⟨hi.1, hi.2, rfl⟩

theorem slotted : library.Slotted carried Connection.database where
  compile_contents sql c := congrArg _ (compile_state sql c)
  compile_finds h name := by
    obtain ⟨hprepare, rfl⟩ := compile_ok h
    have hslots := isDistinct_of_read (read_of_prepare hprepare)
    exact ⟨_, rfl, fun i => slotNumber?_eq_some hslots⟩
  bind_count h := by
    obtain ⟨_, _, rfl⟩ := bind_ok h
    rfl
  bind_number h := by
    obtain ⟨_, _, rfl⟩ := bind_ok h
    rfl
  bind_name h := by
    obtain ⟨_, _, rfl⟩ := bind_ok h
    rfl
  bind_carried {p q i d} h {j} hj := by
    obtain ⟨hi, hle, rfl⟩ := bind_ok h
    unfold carried
    split
    · rename_i heq
      rw [heq, List.getElem?_set_self (by omega), Option.getD_some]
    · rw [List.getElem?_set_ne (by omega)]

def HasRoom (p : Prepared) : Prop := p.data.length = p.slots.length

theorem hasRoom_of_prepare {c : Connection} {sql : String} {p : Prepared}
    (h : c.prepare sql = .ok p) : HasRoom p := by
  unfold prepare at h
  obtain ⟨⟨s, slots⟩, _, h⟩ := exists_of_bind_eq_ok h
  obtain ⟨columns, _, h⟩ := exists_of_bind_eq_ok h
  obtain ⟨_, _, h⟩ := exists_of_bind_eq_ok h
  cases h
  exact List.length_map ..

theorem HasRoom.bound {p q : Prepared} (hp : HasRoom p) (h : library.Bound p q) :
    HasRoom q ∧ q.slots = p.slots := by
  induction h with
  | refl p => exact ⟨hp, rfl⟩
  | bind h _ ih =>
    obtain ⟨_, _, rfl⟩ := bind_ok h
    exact ih ((List.length_set ..).trans hp)

theorem not_refuses {c d : Connection} {sql : String} {p : Prepared} {binds : List Bind} {f : Failure}
    (h : library.compile sql c = (.ok p, d)) : ¬ library.Refuses p binds f := by
  rintro ⟨b, _, v, e, i, q, _, _, ⟨hpositive, hle⟩, _, hq, hrefused⟩
  obtain ⟨hroom, hslots⟩ := (hasRoom_of_prepare (compile_ok h).1).bound hq
  have hcount : i ≤ p.slots.length := hle
  have hbind : q.bind i e = .error f := hrefused
  rw [Prepared.bind, if_pos ⟨hpositive, by rw [hroom, hslots]; exact hcount⟩] at hbind
  cases hbind

theorem exists_prepared (c : Connection) (sql : String) (slots : Slots)
    (h : (c.prepare sql).toOption.map (·.slots) = some slots) :
    ∃ p, library.compile sql c = (.ok p, c) ∧ library.slotCount p = slots.length ∧
      ∀ i, library.slotName? p i = (slots[i - 1]?).join := by
  cases hprepare : c.prepare sql with
  | error q =>
    rw [hprepare] at h
    cases h
  | ok p =>
    rw [hprepare] at h
    have hcompile : compile sql c = (.ok p, c) := by simp only [compile, hprepare]
    obtain rfl : p.slots = slots := Option.some.inj h
    exact ⟨p, hcompile, rfl, fun _ => rfl⟩

end Connection

/-! ## Filling -/

namespace Library

variable {σ π δ : Type} {lib : Library σ π} {carried : π → Nat → Datum} {contents : σ → δ}
  {p q r : π}

/-- Slots of the same numbers and names. -/
structure SameSlots (lib : Library σ π) (p q : π) : Prop where
  count : lib.slotCount q = lib.slotCount p
  number : lib.slotNumber? q = lib.slotNumber? p
  name : lib.slotName? q = lib.slotName? p

theorem SameSlots.isSlot (h : lib.SameSlots p q) {i : Nat} : lib.IsSlot q i ↔ lib.IsSlot p i := by
  rw [IsSlot, IsSlot, h.count]

theorem SameSlots.findsSlots (h : lib.SameSlots p q) (hp : lib.FindsSlots p) : lib.FindsSlots q := by
  intro name
  obtain ⟨found, hfound, hiff⟩ := hp name
  exact ⟨found, by rw [h.number, hfound], fun i => by rw [hiff, h.isSlot, h.name]⟩

theorem Slotted.sameSlots (hlib : lib.Slotted carried contents) {i : Nat} {d : Datum}
    (h : lib.bind p i d = .ok q) : lib.SameSlots p q :=
  ⟨hlib.bind_count h, hlib.bind_number h, hlib.bind_name h⟩

/-- What a run of binds makes of a statement and of the marks of its slots. -/
structure Fills (lib : Library σ π) (carried : π → Nat → Datum) (binds : List Bind) (p : π)
    (marks : List Bool) (q : π) (marks' : List Bool) : Prop where
  bound : lib.Bound p q
  same : lib.SameSlots p q
  length : marks'.length = marks.length
  filled {i : Nat} (hi : lib.IsSlot p i) {v : Value} (h : LastBind (lib.slotName? p i) binds v) :
    marks'[i - 1]? = some true ∧ CarriedAs v (carried q i)
  kept {i : Nat} (hi : lib.IsSlot p i) (h : Unbound (lib.slotName? p i) binds) :
    marks'[i - 1]? = marks[i - 1]? ∧ carried q i = carried p i

section
variable {b : Bind} {bs : List Bind} {marks marks' : List Bool}

theorem Fills.skip (h : lib.Fills carried bs p marks q marks')
    (hb : ∀ i, lib.IsSlot p i → lib.slotName? p i ≠ some (":" ++ b.name)) :
    lib.Fills carried (b :: bs) p marks q marks' where
  bound := h.bound
  same := h.same
  length := h.length
  filled {i} hi {v} hlast := by
    cases hlast with
    | head hname _ _ => exact absurd hname (hb i hi)
    | tail hlast => exact h.filled hi hlast
  kept hi hunbound := h.kept hi (List.forall_mem_cons.mp hunbound).2

/-- A bind whose name is that of a slot fills this one, unless a later bind has its name too. -/
theorem Fills.step (hlib : lib.Slotted carried contents) (hp : lib.FindsSlots p) {i : Nat}
    (hi : lib.IsSlot p i) (hname : lib.slotName? p i = some (":" ++ b.name)) {v : Value} {d : Datum}
    (hv : b.carried = .scalar v) (hd : CarriedAs v d.kept) (hbind : lib.bind p i d = .ok r)
    (hmarks : marks.length = lib.slotCount p)
    (h : lib.Fills carried bs r (marks.set (i - 1) true) q marks') :
    lib.Fills carried (b :: bs) p marks q marks' := by
  have hsame := hlib.sameSlots hbind
  have honly {j : Nat} (hj : lib.IsSlot p j) (hjname : lib.slotName? p j = some (":" ++ b.name)) :
      j = i := by
    obtain ⟨found, -, hiff⟩ := hp (":" ++ b.name)
    exact Option.some.inj (((hiff j).mpr ⟨hj, hjname⟩).symm.trans ((hiff i).mpr ⟨hi, hname⟩))
  have hcarried {j : Nat} (hj : lib.IsSlot p j) :
      carried r j = if j = i then d.kept else carried p j := hlib.bind_carried hbind hj.1
  refine ⟨.bind hbind h.bound, ?_, by rw [h.length, List.length_set], ?_, ?_⟩
  · exact ⟨h.same.count.trans hsame.count, h.same.number.trans hsame.number,
      h.same.name.trans hsame.name⟩
  · intro j hj w hlast
    have hjr := hsame.isSlot.mpr hj
    cases hlast with
    | head hjname hw hunbound =>
      obtain rfl := honly hj hjname
      cases hv.symm.trans hw
      rw [← hsame.name] at hunbound
      obtain ⟨hmark, hkept⟩ := h.kept hjr hunbound
      have hlt : j - 1 < marks.length := by
        have := hj.1
        have := hj.2
        omega
      rw [hmark, hkept, List.getElem?_set_self hlt, hcarried hj, if_pos rfl]
      exact ⟨rfl, hd⟩
    | tail hlast =>
      rw [← hsame.name] at hlast
      exact h.filled hjr hlast
  · intro j hj hunbound
    obtain ⟨hjname, hunbound⟩ := List.forall_mem_cons.mp hunbound
    have hne : j ≠ i := fun heq => hjname (heq ▸ hname)
    rw [← hsame.name] at hunbound
    obtain ⟨hmark, hkept⟩ := h.kept (hsame.isSlot.mpr hj) hunbound
    have hplace : i - 1 ≠ j - 1 := by
      have := hi.1
      have := hj.1
      omega
    rw [hmark, hkept, List.getElem?_set_ne hplace, hcarried hj, if_neg hne]
    exact ⟨rfl, rfl⟩

end

/-- A run of binds fills the slots of their names, unless the library does not take a value. -/
theorem bindEach_fills (hlib : lib.Slotted carried contents) {binds : List Bind}
    (hbinds : ∀ b ∈ binds, IsSingle b) (hp : lib.FindsSlots p) {marks : List Bool}
    (hmarks : marks.length = lib.slotCount p) :
    (∃ f, lib.Refuses p binds f ∧ lib.bindEach p marks binds = .error f.fault) ∨
      ∃ q marks', lib.bindEach p marks binds = .ok (q, marks') ∧
        lib.Fills carried binds p marks q marks' := by
  induction binds generalizing p marks with
  | nil =>
    refine .inr ⟨p, marks, rfl, .refl p, ⟨rfl, rfl, rfl⟩, rfl, fun _ v hlast => ?_,
      fun _ _ => ⟨rfl, rfl⟩⟩
    cases hlast
  | cons b bs ih =>
    obtain ⟨⟨v, hv, hseq⟩, hbs⟩ := List.forall_mem_cons.mp hbinds
    obtain ⟨found, hfound, hiff⟩ := hp (":" ++ b.name)
    cases found with
    -- No slot has the name of the bind.
    | none =>
      have hskip : lib.bindEach p marks (b :: bs) = lib.bindEach p marks bs := by
        simp only [bindEach, hv, hfound]
      rw [hskip]
      rcases ih hbs hp hmarks with ⟨f, ⟨c, hc, hrefused⟩, herror⟩ | ⟨q, marks', hok, hfills⟩
      · exact .inl ⟨f, ⟨c, List.mem_cons_of_mem _ hc, hrefused⟩, herror⟩
      · refine .inr ⟨q, marks', hok, hfills.skip fun i hi hname => ?_⟩
        cases (hiff i).mpr ⟨hi, hname⟩
    | some i =>
      obtain ⟨hi, hname⟩ := (hiff i).mp rfl
      obtain ⟨d, hd, hcarried⟩ := ofValue_carried hseq
      have hvalue : (Datum.ofValue v >>= lib.bind p i) = lib.bind p i d := by
        rw [hd]
        rfl
      cases hbind : lib.bind p i d with
      | error f =>
        refine .inl ⟨f, ⟨b, List.mem_cons_self, v, d, i, p, hv, hd, hi, hname, .refl p, hbind⟩, ?_⟩
        simp only [bindEach, hv, hfound, hvalue, hbind]
      | ok r =>
        have hstep : lib.bindEach p marks (b :: bs) =
            lib.bindEach r (marks.set (i - 1) true) bs := by
          simp only [bindEach, hv, hfound, hvalue, hbind]
        have hsame := hlib.sameSlots hbind
        have hmarks' : (marks.set (i - 1) true).length = lib.slotCount r := by
          rw [List.length_set, hmarks, hsame.count]
        rw [hstep]
        rcases ih hbs (hsame.findsSlots hp) hmarks' with
          ⟨f, ⟨c, hc, w, e, j, q, hw, he, hj, hjname, hq, hrefused⟩, herror⟩ |
          ⟨q, marks', hok, hfills⟩
        · refine .inl ⟨f, ⟨c, List.mem_cons_of_mem _ hc, w, e, j, q, hw, he, ?_, ?_, ?_, hrefused⟩,
            herror⟩
          · exact hsame.isSlot.mp hj
          · rwa [← hsame.name]
          · exact .bind hbind hq
        · exact .inr ⟨q, marks', hok, hfills.step hlib hp hi hname hv hcarried hbind hmarks⟩

/-- The first slot of a statement that no bind has the name of. -/
structure FirstUnbound (lib : Library σ π) (p : π) (binds : List Bind) (i : Nat) : Prop where
  isSlot : lib.IsSlot p i
  unbound : Unbound (lib.slotName? p i) binds
  least {j : Nat} (hj : lib.IsSlot p j) (hlt : j < i) : ¬ Unbound (lib.slotName? p j) binds

theorem FirstUnbound.unique {binds : List Bind} {i j : Nat} (hi : lib.FirstUnbound p binds i)
    (hj : lib.FirstUnbound p binds j) : i = j := by
  rcases Nat.lt_trichotomy i j with hlt | heq | hgt
  · exact absurd hi.unbound (hj.least hi.isSlot hlt)
  · exact heq
  · exact absurd hj.unbound (hi.least hj.isSlot hgt)

/-- Every slot of a statement carries the value of the last bind of its name. -/
def CarriesBinds (lib : Library σ π) (carried : π → Nat → Datum) (binds : List Bind) (p q : π) :
    Prop :=
  ∀ i, lib.IsSlot p i → ∃ v, LastBind (lib.slotName? p i) binds v ∧ CarriedAs v (carried q i)

section
variable {binds : List Bind} {marks : List Bool}

/-- The first mark that is missing is that of the first slot without a bind. -/
theorem Fills.firstUnbound (hbinds : ∀ b ∈ binds, IsSingle b)
    (h : lib.Fills carried binds p (List.replicate (lib.slotCount p) false) q marks) {k : Nat}
    (hk : marks.idxOf? false = some k) : lib.FirstUnbound p binds (k + 1) := by
  obtain ⟨hlt, hmark, hfirst⟩ := List.idxOf?_eq_some_iff.mp hk
  have hlength : marks.length = lib.slotCount p := by rw [h.length, List.length_replicate]
  have hslot : lib.IsSlot p (k + 1) := ⟨Nat.succ_pos k, by omega⟩
  refine ⟨hslot, ?_, fun {j} hj hjk hunbound => ?_⟩
  · rcases lastBind_or_unbound hbinds (lib.slotName? p (k + 1)) with ⟨v, hlast⟩ | hunbound
    · have hfilled := (h.filled hslot hlast).1
      rw [Nat.add_sub_cancel, List.getElem?_eq_getElem hlt, hmark] at hfilled
      cases hfilled
    · exact hunbound
  · obtain ⟨hpositive, hle⟩ := hj
    have hj' : j - 1 < marks.length := by omega
    have hkept := (h.kept ⟨hpositive, hle⟩ hunbound).1
    rw [List.getElem?_replicate_of_lt (by omega), List.getElem?_eq_getElem hj'] at hkept
    exact hfirst (j - 1) (by omega) (Option.some.inj hkept)

theorem Fills.carriesBinds (hbinds : ∀ b ∈ binds, IsSingle b)
    (h : lib.Fills carried binds p (List.replicate (lib.slotCount p) false) q marks)
    (hnone : marks.idxOf? false = none) : lib.CarriesBinds carried binds p q := by
  intro i hi
  rcases lastBind_or_unbound hbinds (lib.slotName? p i) with ⟨v, hlast⟩ | hunbound
  · exact ⟨v, hlast, (h.filled hi hlast).2⟩
  · have hmark := (h.kept hi hunbound).1
    have hlt : i - 1 < lib.slotCount p := by
      obtain ⟨hpositive, hle⟩ := hi
      omega
    rw [List.getElem?_replicate_of_lt hlt] at hmark
    exact absurd (List.mem_of_getElem? hmark) (List.idxOf?_eq_none_iff.mp hnone)

end

/-- Of binds that carry single values, the library does not take one, or a slot has none, or every
slot gets the value of the last one of its name. -/
theorem bindAll_fills (hlib : lib.Slotted carried contents) {binds : List Bind}
    (hbinds : ∀ b ∈ binds, IsSingle b) (hp : lib.FindsSlots p) :
    (∃ f, lib.Refuses p binds f ∧ lib.bindAll p binds = .error f.fault) ∨
      (∃ i, lib.FirstUnbound p binds i ∧
        lib.bindAll p binds = .error (slotFault (lib.slotName? p i) i)) ∨
      ∃ q, lib.bindAll p binds = .ok q ∧ lib.Bound p q ∧ lib.CarriesBinds carried binds p q := by
  have hmarks : (List.replicate (lib.slotCount p) false).length = lib.slotCount p :=
    List.length_replicate
  rcases bindEach_fills hlib hbinds hp hmarks with
    ⟨f, hrefused, herror⟩ | ⟨q, marks, hok, hfills⟩
  · exact .inl ⟨f, hrefused, by simp only [bindAll, herror]⟩
  · cases hmissing : marks.idxOf? false with
    | some k =>
      refine .inr (.inl ⟨k + 1, hfills.firstUnbound hbinds hmissing, ?_⟩)
      simp only [bindAll, hok, hmissing, hfills.same.name]
    | none =>
      refine .inr (.inr ⟨q, ?_, hfills.bound, hfills.carriesBinds hbinds hmissing⟩)
      simp only [bindAll, hok, hmissing]

/-- Binds with an associative array are refused, whatever the library is, and nothing is compiled or
run. Otherwise, of a text that compiles and of binds that carry single values: the library does not
take one of them, or a slot has no bind, and then the first of those is complained about, and in
either case nothing is run; or the statement is run, and every slot of it carries the value of the
last bind of its name. -/
theorem execute_slots (hlib : lib.Slotted carried contents) (st : Engine.Statement) (s : σ) :
    ((∃ b ∈ st.binds, IsAssoc b) → ∃ b ∈ st.binds, IsAssoc b ∧
      lib.execute st s = (.error ⟨.unsupported, none, "associative array ':" ++ b.name ++
        "' cannot be bound by sqlite"⟩, s)) ∧
    ∀ p t, lib.compile st.sql s = (.ok p, t) → (∀ b ∈ st.binds, IsSingle b) →
      (∃ f, lib.Refuses p st.binds f ∧ lib.execute st s = (.error f.fault, t) ∧
        contents t = contents s) ∨
      (∃ i, lib.FirstUnbound p st.binds i ∧
        lib.execute st s = (.error ⟨.unboundVariable, none, "statement parameter '" ++
          (lib.slotName? p i).getD ("?" ++ toString i) ++ "' has no bind"⟩, t) ∧
        contents t = contents s) ∨
      ∃ q, lib.Bound p q ∧ lib.CarriesBinds carried st.binds p q ∧
        lib.execute st s = lib.perform q st.binds t ∧ (lib.execute st s).2 =
          if (lib.columns q).isEmpty then (lib.run q t).2 else (lib.query q t).2 := by
  refine ⟨fun hassoc => ?_, fun p t hcompile hbinds => ?_⟩
  · obtain ⟨b, hb, hcarried, hfirst⟩ := exists_firstAssoc? hassoc
    exact ⟨b, hb, hcarried, execute_of_assoc hfirst⟩
  · have hnone := firstAssoc?_eq_none fun b hb => (hbinds b hb).not_isAssoc
    have hcontents : contents t = contents s := by
      have h := hlib.compile_contents st.sql s
      rwa [hcompile] at h
    rcases bindAll_fills hlib hbinds (hlib.compile_finds hcompile) with
      ⟨f, hrefused, hbind⟩ | ⟨i, hfirst, hbind⟩ | ⟨q, hbind, hbound, hcarries⟩
    · exact .inl ⟨f, hrefused, execute_of_bind_error hnone hcompile hbind, hcontents⟩
    · exact .inr (.inl ⟨i, hfirst, execute_of_bind_error hnone hcompile hbind, hcontents⟩)
    · have hexecute : lib.execute st s = lib.perform q st.binds t :=
        execute_of_runs ⟨hnone, p, hcompile, hbind⟩
      exact .inr (.inr ⟨q, hbound, hcarries, hexecute, hexecute ▸ perform_state lib q st.binds t⟩)

end Library

namespace Connection

/-- A number leaves a gap in front of it, which no bind can fill. Of two binds of one name the last
one counts, and one whose name has no slot does not. An associative array is refused before the text
is read. -/
theorem execute_slots_gap :
    let c := ofDatabase .standard []
    let single (name : String) (v : Value) : Bind := ⟨name, .input, .scalar v, none⟩
    let binds := [single "a" (.int 1), single "b" (.bool true), single "a" (.int 3),
      single "d" .null]
    library.execute ⟨"select :a, ?3, :b", binds⟩ c =
      (.error ⟨.unboundVariable, none, "statement parameter '?2' has no bind"⟩, c) ∧
    (∃ p q, library.compile "select :b, :a, :b" c = (.ok p, c) ∧ library.Bound p q ∧
      carried q 1 = .int 1 ∧ carried q 2 = .int 3 ∧
      library.execute ⟨"select :b, :a, :b", binds⟩ c = library.perform q binds c) ∧
    library.execute ⟨"selec", [single "a" (.int 1), ⟨"m", .input, .assoc ∅, none⟩]⟩ c =
      (.error ⟨.unsupported, none, "associative array ':m' cannot be bound by sqlite"⟩, c) := by
  intro c single binds
  have hsingle : ∀ b ∈ binds, IsSingle b := by
    simp only [binds, single, List.forall_mem_cons]
    exact ⟨⟨_, rfl, nofun⟩, ⟨_, rfl, nofun⟩, ⟨_, rfl, nofun⟩, ⟨_, rfl, nofun⟩, nofun⟩
  refine ⟨?_, ?_, ?_⟩
  · obtain ⟨p, hcompile, hcount, hname⟩ := exists_prepared c "select :a, ?3, :b"
      [some ":a", none, some "?3", some ":b"] (by decide +kernel)
    have hgap : library.FirstUnbound p binds 2 := by
      refine ⟨⟨by decide, hcount ▸ by decide⟩, hname 2 ▸ nofun, fun {j} hj hlt hunbound => ?_⟩
      obtain rfl : j = 1 := Nat.le_antisymm (Nat.le_of_lt_succ hlt) hj.1
      exact hunbound _ List.mem_cons_self (hname 1)
    rcases (Library.execute_slots slotted ⟨"select :a, ?3, :b", binds⟩ c).2 p c hcompile hsingle with
      ⟨f, hrefused, -⟩ | ⟨i, hfirst, hexecute, -⟩ | ⟨q, -, hcarries, -⟩
    · exact absurd hrefused (not_refuses hcompile)
    · rw [hfirst.unique hgap, hname] at hexecute
      exact hexecute
    · obtain ⟨v, hlast, -⟩ := hcarries 2 hgap.isSlot
      exact absurd hgap.unbound hlast.not_unbound
  · obtain ⟨p, hcompile, hcount, hname⟩ := exists_prepared c "select :b, :a, :b"
      [some ":b", some ":a"] (by decide +kernel)
    have hlast1 : LastBind (library.slotName? p 1) binds (.bool true) :=
      hname 1 ▸ .tail (.head rfl rfl (by unfold Unbound; decide))
    have hlast2 : LastBind (library.slotName? p 2) binds (.int 3) :=
      hname 2 ▸ .tail (.tail (.head rfl rfl (by unfold Unbound; decide)))
    rcases (Library.execute_slots slotted ⟨"select :b, :a, :b", binds⟩ c).2 p c hcompile hsingle with
      ⟨f, hrefused, -⟩ | ⟨i, hfirst, -⟩ | ⟨q, hbound, hcarries, hexecute, -⟩
    · exact absurd hrefused (not_refuses hcompile)
    · obtain ⟨hpositive, hle⟩ := hfirst.isSlot
      rw [hcount] at hle
      obtain rfl | rfl : i = 1 ∨ i = 2 := by
        simp only [List.length_cons, List.length_nil] at hle
        omega
      · exact absurd hfirst.unbound hlast1.not_unbound
      · exact absurd hfirst.unbound hlast2.not_unbound
    · refine ⟨p, q, hcompile, hbound, ?_, ?_, hexecute⟩
      · obtain ⟨v, hlast, hcarried⟩ := hcarries 1 ⟨by decide, hcount ▸ by decide⟩
        cases hlast1.unique hlast
        exact hcarried.unique .true
      · obtain ⟨v, hlast, hcarried⟩ := hcarries 2 ⟨by decide, hcount ▸ by decide⟩
        cases hlast2.unique hlast
        exact hcarried.unique (.int 3)
  · obtain ⟨b, hb, ⟨entries, hcarried⟩, hexecute⟩ :=
      (Library.execute_slots slotted ⟨"selec", [single "a" (.int 1), ⟨"m", .input, .assoc ∅, none⟩]⟩
        c).1 ⟨_, List.mem_cons_of_mem _ List.mem_cons_self, ∅, rfl⟩
    simp only [List.mem_cons, List.not_mem_nil, or_false] at hb
    rcases hb with rfl | rfl
    · cases hcarried
    · exact hexecute

/-- What is no number is bound to a slot and not carried by it: it is selected as null. -/
theorem nan_selected_as_null :
    let c := ofDatabase .standard []
    let st : Engine.Statement := ⟨"select :x as v", [⟨"x", .input, .scalar (.float .nan), none⟩]⟩
    LastBind (some ":x") st.binds (.float .nan) ∧
    (∃ p q d, library.compile st.sql c = (.ok p, d) ∧ library.slotCount p = 1 ∧
      library.slotName? p 1 = some ":x" ∧ library.bindAll p st.binds = .ok q ∧
      carried q 1 = .null) ∧
    ∃ o d, library.execute st c = (.ok o, d) ∧ o.rows.map (·.values.map Value.isNull) = [[true]] := by
  intro c st
  refine ⟨.head rfl rfl nofun, ?_, ?_⟩
  · have hbound : ((library.compile st.sql c).1.toOption.any fun p =>
        (library.bindAll p st.binds).toOption.any fun q =>
          library.slotCount p = 1 && library.slotName? p 1 = some ":x" && carried q 1 = .null) =
          true := by
      decide +kernel
    obtain ⟨p, hp, hbound⟩ := Library.eq_ok_of_any hbound
    obtain ⟨q, hq, hbound⟩ := Library.eq_ok_of_any hbound
    simp only [Bool.and_eq_true, decide_eq_true_eq] at hbound
    exact ⟨p, q, _, Prod.ext hp rfl, hbound.1.1, hbound.1.2, hq, hbound.2⟩
  · have hrows : (library.execute st c).1.toOption.any
        (fun o => o.rows.map (·.values.map Value.isNull) = [[true]]) = true := by
      decide +kernel
    obtain ⟨o, ho, hrows⟩ := Library.eq_ok_of_any hrows
    exact ⟨o, _, Prod.ext ho rfl, of_decide_eq_true hrows⟩

end Connection

end SqlTemplate.Sql
