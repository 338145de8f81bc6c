/-!
Finite maps with their entries in ascending order of key. Two maps that answer every look-up alike
are equal (`Dict.ext_get?`), `Dict.get?_insert` says what a map answers after an insertion, and
`Dict.get?_ofList_eq_some_iff` that of the entries of a list the last one of a key counts.
-/

namespace SqlTemplate

/-- A finite map: entries in strictly ascending order of key. -/
structure Dict (κ α : Type) [Ord κ] where
  entries : List (κ × α)
  ascending : entries.Pairwise fun a b => compare a.1 b.1 = .lt

namespace Dict

variable {κ α β : Type} [Ord κ]

/-- The entries with the value of `k` set to `a`: in place of its entry, or at its place in the
order. -/
def setEntry (k : κ) (a : α) : List (κ × α) → List (κ × α)
  | [] => [(k, a)]
  | e :: es =>
    match compare k e.1 with
    | .lt => (k, a) :: e :: es
    | .eq => (k, a) :: es
    | .gt => e :: setEntry k a es

def lookupEntry (k : κ) : List (κ × α) → Option α
  | [] => none
  | e :: es => if compare k e.1 = .eq then some e.2 else lookupEntry k es

theorem mem_setEntry {k : κ} {a : α} {es : List (κ × α)} {e : κ × α}
    (h : e ∈ setEntry k a es) : e = (k, a) ∨ e ∈ es := by
  induction es with
  | nil => simpa [setEntry] using h
  | cons d ds ih =>
    simp only [setEntry] at h
    split at h
    · simpa using h
    · rcases List.mem_cons.1 h with h | h
      · exact .inl h
      · exact .inr (List.mem_cons_of_mem _ h)
    · rcases List.mem_cons.1 h with h | h
      · exact .inr (h ▸ List.mem_cons_self)
      · exact (ih h).imp id (List.mem_cons_of_mem _)

theorem ascending_setEntry [Std.TransOrd κ] [Std.LawfulEqOrd κ] (k : κ) (a : α)
    {es : List (κ × α)} (h : es.Pairwise fun a b => compare a.1 b.1 = .lt) :
    (setEntry k a es).Pairwise fun a b => compare a.1 b.1 = .lt := by
  induction es with
  | nil => simp [setEntry]
  | cons d ds ih =>
    obtain ⟨hd, hds⟩ := List.pairwise_cons.1 h
    simp only [setEntry]
    split
    · next hlt =>
      refine List.pairwise_cons.2 ⟨fun e he => ?_, h⟩
      rcases List.mem_cons.1 he with rfl | he
      · exact hlt
      · exact Std.TransCmp.lt_trans hlt (hd e he)
    · next heq =>
      have hk : k = d.1 := Std.LawfulEqOrd.eq_of_compare heq
      exact List.pairwise_cons.2 ⟨fun e he => hk ▸ hd e he, hds⟩
    · next hgt =>
      refine List.pairwise_cons.2 ⟨fun e he => ?_, ih hds⟩
      rcases mem_setEntry he with rfl | he
      · exact Std.OrientedCmp.lt_of_gt hgt
      · exact hd e he

def empty : Dict κ α := ⟨[], List.Pairwise.nil⟩

instance : EmptyCollection (Dict κ α) := ⟨empty⟩
instance : Inhabited (Dict κ α) := ⟨empty⟩

def get? (d : Dict κ α) (k : κ) : Option α := lookupEntry k d.entries

def contains (d : Dict κ α) (k : κ) : Bool := (d.get? k).isSome

def keys (d : Dict κ α) : List κ := d.entries.map Prod.fst

def values (d : Dict κ α) : List α := d.entries.map Prod.snd

def size (d : Dict κ α) : Nat := d.entries.length

def isEmpty (d : Dict κ α) : Bool := d.entries.isEmpty

def insert [Std.TransOrd κ] [Std.LawfulEqOrd κ] (d : Dict κ α) (k : κ) (a : α) : Dict κ α :=
  ⟨setEntry k a d.entries, ascending_setEntry k a d.ascending⟩

/-- The map with every entry of a list inserted from left to right: the last value of a key
stays. -/
def insertAll [Std.TransOrd κ] [Std.LawfulEqOrd κ] (d : Dict κ α) (es : List (κ × α)) :
    Dict κ α :=
  es.foldl (fun d e => d.insert e.1 e.2) d

/-- The map of a list of entries: the last value of a key stays. -/
def ofList [Std.TransOrd κ] [Std.LawfulEqOrd κ] (es : List (κ × α)) : Dict κ α :=
  insertAll empty es

def map (f : α → β) (d : Dict κ α) : Dict κ β where
  entries := d.entries.map fun e => (e.1, f e.2)
  ascending := List.pairwise_map.2 d.ascending

theorem lookupEntry_setEntry [Std.TransOrd κ] [Std.LawfulEqOrd κ] (k j : κ) (a : α)
    (es : List (κ × α)) :
    lookupEntry j (setEntry k a es) = if compare j k = .eq then some a else lookupEntry j es := by
  induction es with
  | nil => rfl
  | cons d ds ih =>
    simp only [setEntry]
    split
    · rfl
    · next heq =>
      have hk : k = d.1 := Std.LawfulEqOrd.eq_of_compare heq
      simp only [lookupEntry, ← hk]
      split <;> rfl
    · next hgt =>
      simp only [lookupEntry, ih]
      split
      · next hj =>
        have hj : j = d.1 := Std.LawfulEqOrd.eq_of_compare hj
        subst hj
        rw [if_neg]
        simp [Std.OrientedCmp.lt_of_gt hgt]
      · rfl

@[simp] theorem get?_empty (k : κ) : (∅ : Dict κ α).get? k = none := rfl

theorem get?_insert [Std.TransOrd κ] [Std.LawfulEqOrd κ] (d : Dict κ α) (k j : κ) (a : α) :
    (d.insert k a).get? j = if compare j k = .eq then some a else d.get? j :=
  lookupEntry_setEntry k j a d.entries

theorem get?_insert_ite [Std.TransOrd κ] [Std.LawfulEqOrd κ] [DecidableEq κ] (d : Dict κ α)
    (k j : κ) (a : α) : (d.insert k a).get? j = if j = k then some a else d.get? j := by
  rw [get?_insert]
  simp only [Std.LawfulEqOrd.compare_eq_iff_eq]

theorem lookupEntry_eq_some_iff [Std.TransOrd κ] [Std.LawfulEqOrd κ] {es : List (κ × α)}
    (h : es.Pairwise fun a b => compare a.1 b.1 = .lt) {k : κ} {a : α} :
    lookupEntry k es = some a ↔ (k, a) ∈ es := by
  induction es with
  | nil => simp [lookupEntry]
  | cons d ds ih =>
    obtain ⟨hd, hds⟩ := List.pairwise_cons.1 h
    simp only [lookupEntry, List.mem_cons]
    split
    · next hk =>
      have hk : k = d.1 := Std.LawfulEqOrd.eq_of_compare hk
      subst hk
      constructor
      · rintro ⟨⟩; exact .inl rfl
      · rintro (he | hm)
        · exact congrArg some (congrArg Prod.snd he).symm
        · exact absurd (hd _ hm) (by simp [Std.ReflCmp.compare_self])
    · next hk =>
      rw [ih hds]
      constructor
      · exact .inr
      · rintro (rfl | hm)
        · exact absurd Std.ReflCmp.compare_self hk
        · exact hm

theorem get?_eq_some_iff [Std.TransOrd κ] [Std.LawfulEqOrd κ] {d : Dict κ α} {k : κ} {a : α} :
    d.get? k = some a ↔ (k, a) ∈ d.entries :=
  lookupEntry_eq_some_iff d.ascending

theorem eq_of_mem_iff [Std.TransOrd κ] [Std.LawfulEqOrd κ] {es fs : List (κ × α)}
    (he : es.Pairwise fun a b => compare a.1 b.1 = .lt)
    (hf : fs.Pairwise fun a b => compare a.1 b.1 = .lt)
    (h : ∀ e, e ∈ es ↔ e ∈ fs) : es = fs := by
  induction es generalizing fs with
  | nil =>
    cases fs with
    | nil => rfl
    | cons f fs => simpa using (h f).2 List.mem_cons_self
  | cons e es ih =>
    cases fs with
    | nil => simpa using (h e).1 List.mem_cons_self
    | cons f fs =>
      obtain ⟨he1, he2⟩ := List.pairwise_cons.1 he
      obtain ⟨hf1, hf2⟩ := List.pairwise_cons.1 hf
      have hhead : e = f := by
        rcases List.mem_cons.1 ((h e).1 List.mem_cons_self) with heq | hmem
        · exact heq
        · rcases List.mem_cons.1 ((h f).2 List.mem_cons_self) with heq | hmem'
          · exact heq.symm
          · exact absurd (Std.TransCmp.lt_trans (he1 f hmem') (hf1 e hmem))
              (by simp [Std.ReflCmp.compare_self])
      subst hhead
      refine congrArg (e :: ·) (ih he2 hf2 fun x => ?_)
      have hx := h x
      simp only [List.mem_cons] at hx
      constructor
      · intro hm
        rcases hx.1 (.inr hm) with rfl | hm'
        · exact absurd (he1 x hm) (by simp [Std.ReflCmp.compare_self])
        · exact hm'
      · intro hm
        rcases hx.2 (.inr hm) with rfl | hm'
        · exact absurd (hf1 x hm) (by simp [Std.ReflCmp.compare_self])
        · exact hm'

theorem ext_get? [Std.TransOrd κ] [Std.LawfulEqOrd κ] {d e : Dict κ α}
    (h : ∀ k, d.get? k = e.get? k) : d = e := by
  have : d.entries = e.entries :=
    eq_of_mem_iff d.ascending e.ascending fun ⟨k, a⟩ => by
      rw [← get?_eq_some_iff, ← get?_eq_some_iff, h]
  cases d; cases e; cases this; rfl

theorem get?_insertAll_map [Std.TransOrd κ] [Std.LawfulEqOrd κ] [DecidableEq κ] (f : κ → α)
    (ks : List κ) (d : Dict κ α) (j : κ) :
    (d.insertAll (ks.map fun k => (k, f k))).get? j = if j ∈ ks then some (f j) else d.get? j := by
  induction ks generalizing d with
  | nil => simp [insertAll]
  | cons k ks ih =>
    have hstep : d.insertAll ((k :: ks).map fun k => (k, f k)) =
        (d.insert k (f k)).insertAll (ks.map fun k => (k, f k)) := rfl
    rw [hstep, ih, get?_insert_ite]
    by_cases hj : j = k
    · subst hj
      simp
    · simp [hj]

theorem lookupEntry_map (f : α → β) (k : κ) (es : List (κ × α)) :
    lookupEntry k (es.map fun e => (e.1, f e.2)) = (lookupEntry k es).map f := by
  induction es with
  | nil => rfl
  | cons e es ih =>
    simp only [List.map_cons, lookupEntry, ih]
    split <;> rfl

@[simp] theorem get?_map (f : α → β) (d : Dict κ α) (k : κ) :
    (d.map f).get? k = (d.get? k).map f :=
  lookupEntry_map f k d.entries

@[simp] theorem keys_map (f : α → β) (d : Dict κ α) : (d.map f).keys = d.keys := by
  simp only [keys, map, List.map_map]
  rfl

theorem nodup_keys [Std.TransOrd κ] (d : Dict κ α) : d.keys.Nodup := by
  rw [keys, List.Nodup, List.pairwise_map]
  refine d.ascending.imp fun hlt heq => ?_
  exact absurd hlt (by simp [heq, Std.ReflCmp.compare_self])

theorem keys_eq_of_contains [Std.TransOrd κ] [Std.LawfulEqOrd κ] {d : Dict κ α} {e : Dict κ β}
    (h : ∀ k, d.contains k = e.contains k) : d.keys = e.keys := by
  have hunit : d.map (fun _ => ()) = e.map (fun _ => ()) := by
    apply ext_get?
    intro k
    have hk := h k
    rw [contains, contains] at hk
    rw [get?_map, get?_map]
    cases hd : d.get? k <;> cases he : e.get? k <;> simp_all
  rw [← keys_map (fun _ => ()) d, hunit, keys_map]

/-! ## The last entry of a key -/

/-- Of the entries of a list, the last one of the key has the value. -/
def LastEntry {κ α : Type} (es : List (κ × α)) (k : κ) (a : α) : Prop :=
  ∃ before after, es = before ++ (k, a) :: after ∧ ∀ e ∈ after, e.1 ≠ k

theorem lastEntry_cons {κ α : Type} {es : List (κ × α)} {e : κ × α} {k : κ} {a : α} :
    LastEntry (e :: es) k a ↔ LastEntry es k a ∨ e = (k, a) ∧ ∀ f ∈ es, f.1 ≠ k := by
  constructor
  · rintro ⟨before, after, h, hafter⟩
    cases before with
    | nil =>
      cases h
      exact .inr ⟨rfl, hafter⟩
    | cons b before =>
      cases h
      exact .inl ⟨before, after, rfl, hafter⟩
  · rintro (⟨before, after, rfl, hafter⟩ | ⟨rfl, hes⟩)
    · exact ⟨e :: before, after, rfl, hafter⟩
    · exact ⟨[], es, rfl, hes⟩

/-- Where no key comes twice, every entry is the last of its key. -/
theorem lastEntry_iff_mem {κ α : Type} {es : List (κ × α)} (h : (es.map Prod.fst).Nodup) {k : κ}
    {a : α} : LastEntry es k a ↔ (k, a) ∈ es := by
  constructor
  · rintro ⟨before, after, rfl, _⟩
    exact List.mem_append_right before List.mem_cons_self
  · intro hmem
    obtain ⟨before, after, rfl⟩ := List.append_of_mem hmem
    rw [List.map_append, List.map_cons, List.nodup_append, List.nodup_cons] at h
    refine ⟨before, after, rfl, fun e he heq => ?_⟩
    exact h.2.1.1 (List.mem_map.mpr ⟨e, he, heq⟩)

theorem get?_insertAll_eq_some_iff [Std.TransOrd κ] [Std.LawfulEqOrd κ] [DecidableEq κ]
    (es : List (κ × α)) (d : Dict κ α) {k : κ} {a : α} : (d.insertAll es).get? k = some a ↔
      LastEntry es k a ∨ (∀ e ∈ es, e.1 ≠ k) ∧ d.get? k = some a := by
  induction es generalizing d with
  | nil => simp [insertAll, LastEntry]
  | cons e es ih =>
    have hstep : d.insertAll (e :: es) = (d.insert e.1 e.2).insertAll es := rfl
    rw [hstep, ih, lastEntry_cons, get?_insert_ite, List.forall_mem_cons]
    obtain ⟨j, b⟩ := e
    by_cases hj : j = k
    · subst hj
      simp [and_comm]
    · simp [hj, Ne.symm hj]

/-- The map of a list of entries has the last value of each key. -/
theorem get?_ofList_eq_some_iff [Std.TransOrd κ] [Std.LawfulEqOrd κ] [DecidableEq κ]
    {es : List (κ × α)} {k : κ} {a : α} : (ofList es).get? k = some a ↔ LastEntry es k a := by
  rw [ofList, get?_insertAll_eq_some_iff]
  refine or_iff_left fun h => ?_
  cases h.2

theorem mem_values_iff [Std.TransOrd κ] [Std.LawfulEqOrd κ] {d : Dict κ α} {a : α} :
    a ∈ d.values ↔ ∃ k, d.get? k = some a := by
  simp only [values, List.mem_map, get?_eq_some_iff, Prod.exists, exists_eq_right]

end Dict

end SqlTemplate
