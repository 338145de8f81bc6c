import SqlTemplate.Proofs.Template.Reading
/-!
Empty texts in a template.

An empty section of character data is an empty text. It is read as a node of its own where it stands
between nodes that are no texts, and nowhere else is it seen. What is proved:
  1. `Derives.respell`: signs that differ in empty texts only give nodes that differ in empty texts
     only.
  2. `sameUse_withoutEmpty`: nodes without their empty texts ask for the same names, have the same
     guards and render to the same text.
  3. `prune_congr_signs`: so parts of a source whose signs differ in empty texts only can stand for each
     other.
-/

namespace SqlTemplate.Template

def nonempty (ss : List Sign) : List Sign := ss.filter (· != .text "")

mutual

/-- Nodes without the empty texts; texts that come to stand next to each other join. -/
def withoutEmpty : List Node → List Node
  | [] => []
  | .text s :: ns => gapped s (withoutEmpty ns)
  | .expand name sep :: ns => .expand name sep :: withoutEmpty ns
  | .chain ms :: ns => .chain (membersWithoutEmpty ms) :: withoutEmpty ns

/-- The members of a chain without the empty texts in their bodies. -/
def membersWithoutEmpty : Members → Members
  | .nothing => .nothing
  | .otherwise body => .otherwise (withoutEmpty body)
  | .branch condition body rest =>
    .branch condition (withoutEmpty body) (membersWithoutEmpty rest)

end

theorem withoutEmpty_text (s : String) (ns : List Node) :
    withoutEmpty (.text s :: ns) = gapped s (withoutEmpty ns) := by
  rw [withoutEmpty]

theorem withoutEmpty_consText (s : String) (ns : List Node) :
    withoutEmpty (consText s ns) = gapped s (withoutEmpty ns) := by
  cases ns with
  | nil => exact withoutEmpty_text s []
  | cons n ns =>
    cases n with
    | text t => rw [consText, withoutEmpty_text, withoutEmpty_text, gapped_gapped]
    | expand name sep => exact withoutEmpty_text s _
    | chain ms => exact withoutEmpty_text s _

theorem withoutEmpty_gapped (s : String) (ns : List Node) :
    withoutEmpty (gapped s ns) = gapped s (withoutEmpty ns) := by
  by_cases hs : s = ""
  · rw [hs, gapped_empty, gapped_empty]
  · rw [gapped_of_ne hs, withoutEmpty_consText]

/-! ## Signs with and without empty texts -/

theorem nonempty_append (ss ts : List Sign) : nonempty (ss ++ ts) = nonempty ss ++ nonempty ts :=
  List.filter_append ss ts

theorem nonempty_empty (ss : List Sign) : nonempty (.text "" :: ss) = nonempty ss := rfl

theorem nonempty_cons {s : Sign} (hs : s ≠ .text "") (ss : List Sign) :
    nonempty (s :: ss) = s :: nonempty ss :=
  List.filter_cons_of_pos (bne_iff_ne.mpr hs)

theorem exists_empties {ss : List Sign} (h : ∀ s ∈ ss, ¬ (s != .text "") = true) :
    ∃ ws : List String, ss = ws.map .text ∧ String.join ws = "" := by
  induction ss with
  | nil => exact ⟨[], rfl, rfl⟩
  | cons s ss ih =>
    obtain ⟨hs, hss⟩ := List.forall_mem_cons.mp h
    obtain ⟨ws, rfl, hjoin⟩ := ih hss
    have hs : s = .text "" := by simpa using hs
    refine ⟨"" :: ws, by rw [hs]; rfl, ?_⟩
    rw [String.join_cons, hjoin]
    rfl

theorem exists_of_nonempty_cons {ss' ss : List Sign} {s : Sign}
    (h : nonempty ss' = nonempty (s :: ss)) (hs : s ≠ .text "") :
    ∃ (ws : List String) (ts : List Sign), ss' = ws.map .text ++ s :: ts ∧ String.join ws = "" ∧
      nonempty ts = nonempty ss := by
  rw [nonempty_cons hs] at h
  obtain ⟨before, ts, rfl, hbefore, _, hts⟩ := List.filter_eq_cons_iff.mp h
  obtain ⟨ws, rfl, hjoin⟩ := exists_empties hbefore
  exact ⟨ws, ts, rfl, hjoin, hts⟩

/-- What gives the same pieces without the empty ones is pieces that join to the same text. -/
theorem exists_texts {ss : List Sign} {ws : List String}
    (h : nonempty ss = nonempty (ws.map .text)) :
    ∃ vs : List String, ss = vs.map .text ∧ String.join vs = String.join ws := by
  induction ws generalizing ss with
  | nil =>
    obtain ⟨vs, rfl, hjoin⟩ := exists_empties (List.filter_eq_nil_iff.mp h)
    exact ⟨vs, rfl, hjoin⟩
  | cons w ws ih =>
    by_cases hw : w = ""
    · subst hw
      obtain ⟨vs, rfl, hjoin⟩ := ih h
      exact ⟨vs, rfl, by rw [String.join_cons, hjoin, String.empty_append]⟩
    · have hsign : Sign.text w ≠ .text "" := fun heq => hw (Sign.text.inj heq)
      obtain ⟨us, ts, rfl, hempty, hts⟩ := exists_of_nonempty_cons h hsign
      obtain ⟨vs, rfl, hjoin⟩ := ih hts
      refine ⟨us ++ w :: vs, by rw [List.map_append, List.map_cons], ?_⟩
      rw [String.join_append, hempty, String.empty_append, String.join_cons, String.join_cons, hjoin]

theorem continuesChain_nonempty (ss : List Sign) :
    continuesChain (nonempty ss) = continuesChain ss := by
  induction ss with
  | nil => rfl
  | cons s ss ih =>
    by_cases hs : s = .text ""
    · rw [hs, nonempty_empty, ih]
      rfl
    · rw [nonempty_cons hs]
      cases s with
      | text w => rw [continuesChain, continuesChain, ih]
      | opening name attributes => rfl
      | closing name => rfl

theorem continuesChain_congr {ss ts : List Sign} (h : nonempty ss = nonempty ts) :
    continuesChain ss = continuesChain ts := by
  rw [← continuesChain_nonempty ss, h, continuesChain_nonempty]

/-! ## Derivations with and without empty texts -/

section
variable {parent : String} {scope : Scope} {ss rest : List Sign} {ms : Members} {ns : List Node}
  {ws : List String}

theorem withoutEmpty_texts (hws : String.join ws = "") (ns : List Node) :
    withoutEmpty (ws.foldr consText ns) = withoutEmpty ns := by
  cases ws with
  | nil => rfl
  | cons w ws =>
    rw [foldr_consText (List.cons_ne_nil w ws), hws, withoutEmpty_consText, gapped_empty]

theorem Derives.empties (hws : String.join ws = "")
    (h : Derives (.children parent scope) ss .nothing ns rest) :
    ∃ ns', Derives (.children parent scope) (ws.map .text ++ ss) .nothing ns' rest ∧
      withoutEmpty ns' = withoutEmpty ns :=
  ⟨_, h.texts ws, withoutEmpty_texts hws ns⟩

theorem Derives.empties_chain (hws : String.join ws = "") (hmore : continuesChain ss = true)
    (h : Derives (.chain parent scope) ss ms ns rest) :
    Derives (.chain parent scope) (ws.map .text ++ ss) ms ns rest := by
  have hblank : Text.allBlank (String.join ws).toList = true := by
    rw [hws]
    rfl
  have hgaps := h.gaps hblank hmore
  rwa [hws, gapped_empty] at hgaps

end

theorem Derives.members_eq {parent : String} {scope : Scope} {ss rest : List Sign} {ms : Members}
    {ns : List Node} (h : Derives (.children parent scope) ss ms ns rest) : ms = .nothing := by
  cases h <;> rfl

/-- What is derived from signs is derived from signs that differ in empty texts only, but for empty
texts. -/
theorem Derives.respell {place : Place} {ss rest : List Sign} {ms : Members} {ns : List Node}
    (h : Derives place ss ms ns rest) {ss' : List Sign} (hss : nonempty ss' = nonempty ss) :
    ∃ ms' ns' rest', Derives place ss' ms' ns' rest' ∧ nonempty rest' = nonempty rest ∧
      membersWithoutEmpty ms' = membersWithoutEmpty ms ∧ withoutEmpty ns' = withoutEmpty ns := by
  induction h generalizing ss' with
  | stop =>
    obtain ⟨ws, ts, rfl, hws, hts⟩ := exists_of_nonempty_cons hss nofun
    obtain ⟨ns', h', hns⟩ := Derives.stop.empties hws
    exact ⟨_, ns', ts, h', hts, rfl, hns⟩
  | @text _ s _ _ _ ns _ ih =>
    by_cases hs : s = ""
    · subst hs
      obtain ⟨ms', ns', rest', h', hrest, hms, hns⟩ := ih hss
      refine ⟨ms', ns', rest', h', hrest, hms, ?_⟩
      rw [withoutEmpty_consText, gapped_empty, hns]
    · have hsign : Sign.text s ≠ .text "" := fun heq => hs (Sign.text.inj heq)
      obtain ⟨ws, ts, rfl, hws, hts⟩ := exists_of_nonempty_cons hss hsign
      obtain ⟨ms', ns', rest', h', hrest, hms, hns⟩ := ih hts
      obtain rfl := h'.members_eq
      obtain ⟨ns'', h'', hns'⟩ := (Derives.text h').empties hws
      refine ⟨_, ns'', rest', h'', hrest, rfl, ?_⟩
      rw [hns', withoutEmpty_consText, withoutEmpty_consText, hns]
  | @expansion _ sep name _ vs ss _ ns hsep hname _ ih =>
    obtain ⟨ws, ts, rfl, hws, hts⟩ := exists_of_nonempty_cons hss nofun
    rw [nonempty_append] at hts
    obtain ⟨us, ts, rfl, hus, hend⟩ := List.filter_eq_append_iff.mp hts
    obtain ⟨us, rfl, hjoin⟩ := exists_texts hus
    obtain ⟨xs, ts, rfl, hxs, hmore⟩ := exists_of_nonempty_cons hend nofun
    obtain ⟨ms', ns', rest', h', hrest, hms, hns⟩ := ih hmore
    obtain rfl := h'.members_eq
    have hname' : expansionName? (String.join (us ++ xs)) = some name := by
      rw [String.join_append, hxs, String.append_empty, hjoin, hname]
    obtain ⟨ns'', h'', hns'⟩ := (Derives.expansion hsep hname' h').empties hws
    rw [List.map_append, List.append_assoc] at h''
    refine ⟨_, ns'', rest', h'', hrest, rfl, ?_⟩
    rw [hns', withoutEmpty, withoutEmpty, hns]
  | chain hc _ _ ihbody ih =>
    obtain ⟨ws, ts, rfl, hws, hts⟩ := exists_of_nonempty_cons hss nofun
    obtain ⟨_, body', more', hbody', hmore, _, hbody⟩ := ihbody hts
    obtain rfl := hbody'.members_eq
    obtain ⟨ms', ns', rest', h', hrest, hms, hns⟩ := ih hmore
    obtain ⟨ns'', h'', hns'⟩ := (Derives.chain hc hbody' h').empties hws
    refine ⟨_, ns'', rest', h'', hrest, rfl, ?_⟩
    rw [hns', withoutEmpty, withoutEmpty, membersWithoutEmpty, membersWithoutEmpty, hbody, hms, hns]
  | close hend _ ih =>
    obtain ⟨ms', ns', rest', h', hrest, hms, hns⟩ := ih hss
    obtain rfl := h'.members_eq
    exact ⟨_, ns', rest', .close (by rw [continuesChain_congr hss, hend]) h', hrest, rfl, hns⟩
  | @gap _ s _ _ _ _ ns hs hmore _ ih =>
    by_cases hempty : s = ""
    · subst hempty
      exact ih hss
    · have hsign : Sign.text s ≠ .text "" := fun heq => hempty (Sign.text.inj heq)
      obtain ⟨ws, ts, rfl, hws, hts⟩ := exists_of_nonempty_cons hss hsign
      obtain ⟨ms', ns', rest', h', hrest, hms, hns⟩ := ih hts
      have hmore' : continuesChain ts = true := by rw [continuesChain_congr hts, hmore]
      have hall : continuesChain (.text s :: ts) = true := by
        rw [continuesChain, hs, hmore']
        rfl
      refine ⟨ms', _, rest', (Derives.gap hs hmore' h').empties_chain hws hall, hrest, hms, ?_⟩
      rw [withoutEmpty_gapped, withoutEmpty_gapped, hns]
  | branch hc _ _ ihbody ih =>
    obtain ⟨ws, ts, rfl, hws, hts⟩ := exists_of_nonempty_cons hss nofun
    obtain ⟨_, body', more', hbody', hmore, _, hbody⟩ := ihbody hts
    obtain rfl := hbody'.members_eq
    obtain ⟨ms', ns', rest', h', hrest, hms, hns⟩ := ih hmore
    refine ⟨_, ns', rest', (Derives.branch hc hbody' h').empties_chain hws rfl, hrest, ?_, hns⟩
    rw [membersWithoutEmpty, membersWithoutEmpty, hbody, hms]
  | otherwise _ _ ihbody ih =>
    obtain ⟨ws, ts, rfl, hws, hts⟩ := exists_of_nonempty_cons hss nofun
    obtain ⟨_, body', more', hbody', hmore, _, hbody⟩ := ihbody hts
    obtain rfl := hbody'.members_eq
    obtain ⟨ms', ns', rest', h', hrest, hms, hns⟩ := ih hmore
    obtain rfl := h'.members_eq
    refine ⟨_, ns', rest', (Derives.otherwise hbody' h').empties_chain hws rfl, hrest, ?_, hns⟩
    rw [membersWithoutEmpty, membersWithoutEmpty, hbody]

theorem Document.respell {ss ss' : List Sign} {ns : List Node} (h : Document ss ns)
    (hss : nonempty ss' = nonempty ss) :
    ∃ ns', Document ss' ns' ∧ withoutEmpty ns' = withoutEmpty ns := by
  obtain ⟨before, after, name, attributes, inside, rfl, hinside, hbefore, hafter⟩ := h
  rw [nonempty_append] at hss
  obtain ⟨ts, inside', rfl, hts, hinside'⟩ := List.filter_eq_append_iff.mp hss
  obtain ⟨us, rfl, hus⟩ := exists_texts hts
  obtain ⟨xs, inside', rfl, hxs, hinside'⟩ := exists_of_nonempty_cons hinside' nofun
  obtain ⟨ms', ns', rest', h', hrest, _, hns⟩ := hinside.respell hinside'
  obtain rfl := h'.members_eq
  obtain ⟨after', rfl, hafter'⟩ := exists_texts hrest
  refine ⟨ns', ⟨us ++ xs, after', name, attributes, inside', ?_, h', ?_, ?_⟩, hns⟩
  · rw [List.map_append, List.append_assoc]
  · rw [String.join_append, hxs, String.append_empty, hus, hbefore]
  · rw [hafter', hafter]

/-! ## Nodes with and without empty texts -/

/-- Two lists of nodes ask for the same names and have the same guard. -/
structure SameNeeds (values : Context) (repeats : Repeats) (ns ms : List Node) : Prop where
  names : ∀ inBranch, guardedNames inBranch ns = guardedNames inBranch ms
  guard : implicitGuard values repeats ns = implicitGuard values repeats ms

/-- Two lists of nodes ask for the same names, have the same guard and render to the same text. -/
structure SameUse (values : Context) (repeats : Repeats) (ns ms : List Node) : Prop
    extends SameNeeds values repeats ns ms where
  text : render values repeats ns = render values repeats ms

section
variable {values : Context} {repeats : Repeats}

theorem SameUse.cons {ns ms : List Node} (h : SameUse values repeats ns ms) {n m : Node}
    (hnames : ∀ inBranch, nodeNames inBranch n = nodeNames inBranch m)
    (hguard : nodeGiven values repeats n = nodeGiven values repeats m)
    (htext : renderNode values repeats n = renderNode values repeats m) :
    SameUse values repeats (n :: ns) (m :: ms) where
  names inBranch := by rw [guardedNames, guardedNames, hnames, h.names]
  guard := by
    rw [implicitGuard, implicitGuard, List.all_cons, List.all_cons, hguard]
    exact congrArg _ h.guard
  text := by rw [render, render, htext, h.text]

theorem scan_empty : Placeholder.scan "".toList = [] := by
  simp [Placeholder.scan, Placeholder.segments]

theorem sameNeeds_text {s : String} (hs : Placeholder.scan s.toList = []) (ns : List Node) :
    SameNeeds values repeats (.text s :: ns) ns where
  names inBranch := by rw [guardedNames, nodeNames, hs, ite_self, List.nil_append]
  guard := by
    rw [implicitGuard, implicitGuard, List.all_cons, nodeGiven, hs, List.all_nil, Bool.true_and]

theorem SameUse.empty {ns ms : List Node} (h : SameUse values repeats ns ms) :
    SameUse values repeats ns (.text "" :: ms) := by
  have hneeds : SameNeeds values repeats (.text "" :: ms) ms := sameNeeds_text scan_empty ms
  refine ⟨⟨fun inBranch => ?_, ?_⟩, ?_⟩
  · rw [h.names, hneeds.names]
  · rw [h.guard, hneeds.guard]
  · rw [h.text, render, renderNode]
    cases render values repeats ms <;> simp

theorem SameNeeds.guardHolds_eq {ns ms : List Node} (h : SameNeeds values repeats ns ms)
    (condition : Option String) :
    guardHolds values repeats condition ns = guardHolds values repeats condition ms := by
  cases condition with
  | none => exact congrArg Except.ok h.guard
  | some source => rfl

theorem SameNeeds.unknownName?_eq {ns ms : List Node} (h : SameNeeds values repeats ns ms) :
    unknownName? values repeats ns = unknownName? values repeats ms := by
  rw [unknownName?, unknownName?, h.names]

theorem withoutEmpty_head {ns : List Node} (h : ns.head?.any isText = false) :
    (withoutEmpty ns).head?.any isText = false := by
  cases ns with
  | nil => rfl
  | cons n ns =>
    cases n with
    | text s => cases h
    | expand name sep => rfl
    | chain ms => rfl

mutual

/-- Empty texts are not seen among nodes that obey the rules. -/
theorem sameUse_withoutEmpty : (ns : List Node) → {scope : Scope} → isRegular scope ns = true →
    SameUse values repeats (withoutEmpty ns) ns
  | [], _, _ => ⟨⟨fun _ => rfl, rfl⟩, rfl⟩
  | .text s :: ns, scope, h => by
    simp only [isRegular, isText, Bool.true_and, Bool.and_eq_true, Bool.not_eq_true'] at h
    have hns := sameUse_withoutEmpty ns h.2
    rw [withoutEmpty_text]
    by_cases hs : s = ""
    · rw [hs, gapped_empty]
      exact hns.empty
    · rw [gapped_of_ne hs, consText_of_not_text s (withoutEmpty_head h.1.2)]
      exact hns.cons (fun _ => rfl) rfl rfl
  | .expand name sep :: ns, scope, h => by
    simp only [isRegular, Bool.and_eq_true] at h
    rw [withoutEmpty]
    exact (sameUse_withoutEmpty ns h.2).cons (fun _ => rfl) rfl rfl
  | .chain ms :: ns, scope, h => by
    simp only [isRegular, nodeRegular, Bool.and_eq_true] at h
    obtain ⟨hnames, htext⟩ := sameUse_membersWithoutEmpty ms h.1.1
    rw [withoutEmpty]
    refine (sameUse_withoutEmpty ns h.2).cons (fun _ => ?_) rfl ?_
    · rw [nodeNames, nodeNames, hnames]
    · rw [renderNode, renderNode, htext]

theorem sameUse_membersWithoutEmpty : (ms : Members) → {first : Bool} →
    membersRegular first ms = true →
    memberNames (membersWithoutEmpty ms) = memberNames ms ∧
      renderMembers values repeats (membersWithoutEmpty ms) = renderMembers values repeats ms
  | .nothing, _, _ => ⟨rfl, rfl⟩
  | .otherwise body, _, h => by
    simp only [membersRegular, Bool.and_eq_true] at h
    have hbody := sameUse_withoutEmpty body h.2
    exact ⟨hbody.names true, hbody.text⟩
  | .branch condition body rest, _, h => by
    simp only [membersRegular, Bool.and_eq_true] at h
    have hbody := sameUse_withoutEmpty body h.1.2
    obtain ⟨hnames, htext⟩ := sameUse_membersWithoutEmpty rest h.2
    rw [membersWithoutEmpty]
    constructor
    · rw [memberNames, memberNames, hbody.names, hnames]
    · rw [renderMembers, renderMembers, hbody.text, htext, hbody.guardHolds_eq]

end

theorem SameUse.pruneNodes_eq {ns ms : List Node} (h : SameUse values repeats ns ms) :
    pruneNodes values repeats ns = pruneNodes values repeats ms := by
  rw [pruneNodes, pruneNodes, h.unknownName?_eq, h.text]

/-- Templates that differ in empty texts only prune to the same SQL. -/
theorem pruneNodes_congr_withoutEmpty {ns ms : List Node} (hns : isRegular .root ns = true)
    (hms : isRegular .root ms = true) (h : withoutEmpty ns = withoutEmpty ms) :
    pruneNodes values repeats ns = pruneNodes values repeats ms := by
  rw [← (sameUse_withoutEmpty ns hns).pruneNodes_eq, h, (sameUse_withoutEmpty ms hms).pruneNodes_eq]

end

/-- A source whose signs are those of another one but for empty texts prunes to the same SQL. -/
theorem prune_of_nonempty {source source' sql : String} {values : Context} {repeats : Repeats}
    {ss ss' : List Sign} (hss : signs? source.toList = some ss)
    (hss' : signs? source'.toList = some ss') (h : nonempty ss' = nonempty ss)
    (hsql : prune source values repeats = .ok sql) : prune source' values repeats = .ok sql := by
  obtain ⟨nodes, hnodes, hprune⟩ := prune_eq_ok_iff.mp hsql
  obtain ⟨ts, hts, hdocument⟩ := parse_iff_document.mp hnodes
  cases hss.symm.trans hts
  obtain ⟨nodes', hdocument', hsame⟩ := hdocument.respell h
  have hnodes' : parse source' = .ok nodes' := parse_iff_document.mpr ⟨ss', hss', hdocument'⟩
  refine prune_eq_ok_iff.mpr ⟨nodes', hnodes', ?_⟩
  rw [← hprune]
  exact pruneNodes_congr_withoutEmpty (isRegular_of_parse hnodes') (isRegular_of_parse hnodes) hsame

/-- Behind a text that ends in content, parts whose signs are the same but for empty texts can stand for
each other. -/
theorem prune_congr_signs {pre part part' : String} (hpre : EndsInContent pre.toList)
    (h : (signs? part.toList).map nonempty = (signs? part'.toList).map nonempty) {sql : String}
    {values : Context} {repeats : Repeats} (hsql : prune (pre ++ part) values repeats = .ok sql) :
    prune (pre ++ part') values repeats = .ok sql := by
  obtain ⟨nodes, hnodes, _⟩ := prune_eq_ok_iff.mp hsql
  obtain ⟨ss, hss, _⟩ := parse_iff_document.mp hnodes
  have hall := hss
  rw [String.toList_append] at hss
  obtain ⟨before, hbefore⟩ := Option.isSome_iff_exists.mp (hpre part.toList (by rw [hss]; rfl))
  rw [signs?_append hbefore] at hss
  obtain ⟨ts, hts, rfl⟩ := Option.map_eq_some_iff.mp hss
  rw [hts, Option.map_some, eq_comm, Option.map_eq_some_iff] at h
  obtain ⟨ts', hts', hsame⟩ := h
  have hall' : signs? (pre ++ part').toList = some (before ++ ts') := by
    rw [String.toList_append, signs?_append hbefore, hts', Option.map_some]
  refine prune_of_nonempty hall hall' ?_ hsql
  rw [nonempty_append, nonempty_append, hsame]

end SqlTemplate.Template
