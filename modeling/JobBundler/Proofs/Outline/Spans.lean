import JobBundler.Proofs.Outline.LaidOut
import Mathlib.Data.List.Pairwise

/-!
# The spans of an outline

The spans of a module form a tree over its tokens. Imports and classes stand one after the other, in a
class its decorators and then its body, and in an import its attributes (`Outline.isPlaced_of_ofSource`).
-/

namespace JobBundler

variable {c c' : Cursor} {ts us vs : List Token} {t : Token} {s : Span}

/-! ## Decorators and bodies -/

theorem dottedName_isPast {name : String} (h : dottedName ts = .ok (name, c)) : c.IsPast ts := by
  fun_induction dottedName ts generalizing name c with
  | case1 | case2 => cases h
  | case3 t word d us _ _ ih =>
    obtain ⟨⟨more, c'⟩, hmore, hc⟩ := Except.bind_eq_ok_iff.1 h
    cases hc
    exact (ih hmore).of_suffix ((List.suffix_cons d us).trans (List.suffix_cons t _))
  | case4 | case5 =>
    cases h
    apply Cursor.isPast_past

theorem decoratorArgs_isPast {current : Option DecoratorArg} {args : List DecoratorArg}
    (h : decoratorArgs current ts = .ok (args, c)) : c.IsPast ts := by
  fun_induction decoratorArgs current ts generalizing args c with
  | case1 | case4 => cases h
  | case2 =>
    cases h
    apply Cursor.isPast_past
  | case3 _ t ts _ ih =>
    obtain ⟨⟨more, c'⟩, hmore, hc⟩ := Except.bind_eq_ok_iff.1 h
    cases hc
    exact (ih hmore).of_suffix (List.suffix_cons t ts)
  | case5 _ t ts _ _ c' hgroup ih =>
    exact (ih h).of_suffix ((skipGroup_isPast hgroup).suffix.trans (List.suffix_cons t ts))
  | case6 _ t ts _ _ _ ih => exact (ih h).of_suffix (List.suffix_cons t ts)

theorem decorator_isPast {start : Nat} {d : Decorator} (h : decorator start c = .ok (d, c')) :
    c'.IsPast c.tokens := by
  cases decorator_eq_ok h with
  | computed hc hgroup =>
    rw [hc]
    exact (skipGroup_isPast hgroup).of_suffix (List.suffix_cons _ _)
  | @called _ _ _ ts c₁ _ _ hname hc hargs =>
    have hopen : ts <:+ c₁.tokens := by
      rw [hc]
      exact List.suffix_cons _ ts
    exact (decoratorArgs_isPast hargs).of_suffix (hopen.trans (dottedName_isPast hname).suffix)
  | plain hname => exact dottedName_isPast hname

theorem decorators_laidOut {ds : List Decorator} (h : decorators c = .ok (ds, c')) :
    Span.LaidOut (ds.map (·.span)) c.tokens c'.tokens := by
  fun_induction decorators c generalizing ds c' with
  | case1 => cases h
  | case2 _ t ts hc _ d c₁ hd ih =>
    obtain ⟨⟨ds', c₂⟩, h₂, h⟩ := Except.bind_eq_ok_iff.1 h
    cases h
    rw [hc, List.map_cons, decorator_span hd]
    exact .span (decorator_isPast hd) (ih h₂)
  | case3 | case4 =>
    cases h
    exact .nil

/-- The decorators of the class stand among the tokens, and its body after them, up to the cursor. -/
def ClassDecl.IsDecorated (d : ClassDecl) (ts : List Token) (c : Cursor) : Prop :=
  ∃ us, Span.LaidOut (d.decorators.map (·.span)) ts us ∧ d.HasBody us c

theorem classRest_isDecorated {start : Nat} {ds : List Decorator} {how : ExportKind} {d : ClassDecl}
    (h : classRest start ds how c = .ok (d, c'))
    (hds : Span.LaidOut (ds.map (·.span)) ts c.tokens) : d.IsDecorated ts c' := by
  have hbody := (classRest_isReadTo h).body
  cases classRest_eq_ok h with
  | intro => exact ⟨c.tokens, hds, hbody⟩

theorem exported_isDecorated {start : Nat} {ds : List Decorator} {how : ExportKind} {d : ClassDecl}
    (h : exported start ds how c = .ok (some d, c'))
    (hds : Span.LaidOut (ds.map (·.span)) ts c.tokens) : d.IsDecorated ts c' := by
  cases exported_eq_ok h with
  | plain hkeyword hrest =>
    exact classRest_isDecorated hrest (hds.before (afterClassKeyword?_passes hkeyword 0).suffix)

/-- The decorators after `export` stand after those before it. -/
theorem exportRest_isDecorated {start : Nat} {before : List Decorator} {d : ClassDecl}
    (h : exportRest start before c = .ok (some d, c'))
    (hds : Span.LaidOut (before.map (·.span)) ts c.tokens) : d.IsDecorated ts c' := by
  unfold exportRest at h
  obtain ⟨⟨own, c₁⟩, h₁, h⟩ := Except.bind_eq_ok_iff.1 h
  apply exported_isDecorated h
  rw [List.map_append]
  exact (hds.before (c.optionalWord_passes "default" 0).suffix).append (decorators_laidOut h₁)

theorem decoratedRest_isDecorated {ds : List Decorator} {d : ClassDecl}
    (h : decoratedRest ds c = .ok (some d, c'))
    (hds : Span.LaidOut (ds.map (·.span)) ts c.tokens) : d.IsDecorated ts c' := by
  cases decoratedRest_eq_ok h with
  | exporting _ hrest => exact exportRest_isDecorated hrest (hds.before c.advance_suffix)
  | plain _ hkeyword hrest =>
    exact classRest_isDecorated hrest (hds.before (afterClassKeyword?_passes hkeyword 0).suffix)

theorem item_isDecorated {d : ClassDecl} (h : item t ts = .ok (some (.classDecl d), c)) :
    d.IsDecorated (t :: ts) c := by
  cases item_eq_ok h with
  | decorated _ hfirst hmore hrest hi =>
    obtain ⟨d', rfl, hd⟩ := Option.map_eq_some_iff.1 hi
    cases hd
    apply decoratedRest_isDecorated hrest
    rw [List.map_cons, decorator_span hfirst]
    exact .span (decorator_isPast hfirst) (decorators_laidOut hmore)
  | exporting _ hrest hi =>
    obtain ⟨d', rfl, hd⟩ := Option.map_eq_some_iff.1 hi
    cases hd
    exact exportRest_isDecorated hrest (.skip .nil)
  | importing _ _ _ hi =>
    obtain ⟨d', -, hd⟩ := Option.map_eq_some_iff.1 hi
    cases hd
  | plain hkeyword hrest =>
    exact classRest_isDecorated hrest (.of_suffix .nil (afterClassKeyword?_passes hkeyword 0).suffix)

/-- The spans of a class are nested in its own, and none of them reaches into another. -/
structure ClassDecl.IsTree (d : ClassDecl) : Prop where
  body : d.span.encloses d.body
  stop : d.span.stop = d.body.stop
  decorators : ∀ x ∈ d.decorators, d.span.encloses x.span ∧ x.span.stop ≤ d.body.start
  inOrder : d.decorators.Pairwise (·.span.stop ≤ ·.span.start)

theorem ClassDecl.HasBody.isOver {d : ClassDecl} (h : d.HasBody ts c) : d.body.IsOver ts c.tokens := by
  obtain ⟨brace, us, hs, -, hgroup, hbody⟩ := h
  exact ⟨brace, us, c, hs, skipGroup_isPast hgroup, hbody, List.suffix_rfl⟩

theorem ClassDecl.isTree {d : ClassDecl} (hts : Token.InOrder (t :: ts))
    (hspan : d.span = ⟨t.span.start, c.lastStop⟩) (hd : d.IsDecorated (t :: ts) c) : d.IsTree := by
  obtain ⟨us, hds, hbody⟩ := hd
  have hover := hbody.isOver.of_suffix hds.suffix
  obtain ⟨brace, vs, hs, -, hgroup, hspan'⟩ := hbody
  have hstop : d.span.stop = d.body.stop := by
    rw [hspan, hspan']
  have hpositive := hover.start_lt_stop hts
  have hfirst : d.span.start = t.span.start := by
    rw [hspan]
  constructor
  · have hstart := hover.start_le hts
    simp only [Span.encloses, Bool.and_eq_true, decide_eq_true_eq]
    omega
  · exact hstop
  · intro x hx
    have hx := hds.isOver (List.mem_map_of_mem (f := (·.span)) hx)
    have hstart := hx.start_le hts
    have hbefore : x.span.stop ≤ d.body.start := by
      rw [hspan']
      exact hx.stop_le hts (hs.mem List.mem_cons_self)
    simp only [Span.encloses, Bool.and_eq_true, decide_eq_true_eq]
    omega
  · exact List.pairwise_map.1 (hds.pairwise hts)

/-! ## Imports -/

/-- The import reaches from byte `start` to the cursor, among the tokens, and its attributes stand there. -/
structure ImportDecl.IsSpanned (d : ImportDecl) (start : Nat) (ts : List Token) (c : Cursor) : Prop where
  span : d.span = ⟨start, c.lastStop⟩
  isPast : c.IsPast ts
  attributes : ∀ s, d.attributes = some s → s.IsOver ts c.tokens

theorem ImportDecl.IsSpanned.of_suffix {d : ImportDecl} {start : Nat} (h : d.IsSpanned start us c)
    (hs : us <:+ ts) : d.IsSpanned start ts c := by
  refine ⟨h.span, h.isPast.of_suffix hs, ?_⟩
  intro s hattributes
  exact (h.attributes s hattributes).of_suffix hs

theorem importAttributes_isOver {a : Option Span} (hc : c.IsPast ts)
    (h : importAttributes c = .ok (a, c')) :
    c'.IsPast ts ∧ ∀ s, a = some s → s.IsOver ts c'.tokens := by
  unfold importAttributes at h
  split at h
  · rename_i w span newline us hwords
    split at h
    · obtain ⟨c₁, h₁, h⟩ := Except.bind_eq_ok_iff.1 h
      cases h
      have hpast := (skipGroup_isPast h₁).of_suffix (List.suffix_cons ⟨.opening .brace, span, newline⟩ us)
      have hw : w :: ⟨.opening .brace, span, newline⟩ :: us <:+ ts := by
        rw [← hwords]
        exact hc.suffix
      refine ⟨hpast.of_suffix ((List.suffix_cons w _).trans hw), ?_⟩
      rintro _ ⟨⟩
      exact ⟨w, _, c', hw, hpast, rfl, List.suffix_rfl⟩
    · cases h
      exact ⟨hc, by rintro _ ⟨⟩⟩
  · cases h
    exact ⟨hc, by rintro _ ⟨⟩⟩

theorem importTail_isSpanned {start : Nat} {typeOnly : Bool} {clause : ImportClause} {d : ImportDecl}
    (h : importTail start typeOnly clause c = .ok (d, c')) : d.IsSpanned start c.tokens c' := by
  unfold importTail at h
  obtain ⟨⟨specifier, c₁⟩, h₁, h⟩ := Except.bind_eq_ok_iff.1 h
  obtain ⟨⟨attributes, c₂⟩, h₂, h⟩ := Except.bind_eq_ok_iff.1 h
  cases h
  obtain ⟨hpast, hattributes⟩ := importAttributes_isOver (Cursor.isPast_of_expectString h₁) h₂
  refine ⟨rfl, hpast.skipKind .semicolon, ?_⟩
  intro s hs
  exact (hattributes s hs).before (Cursor.skipKind_passes rfl c₂ 0).suffix

theorem importRest_isSpanned {start : Nat} {d : ImportDecl}
    (h : importRest start c = .ok (some d, c')) : d.IsSpanned start c.tokens c' := by
  cases importRest_eq_ok h with
  | declaration hclause htail =>
    apply (importTail_isSpanned htail).of_suffix
    exact ((modified_passes marksDeclaration c 0).trans (importClause_passes hclause 0)).suffix

/-- The attributes of an import lie between its ends. -/
def ImportDecl.IsTree (d : ImportDecl) : Prop :=
  ∀ s, d.attributes = some s → d.span.encloses s

theorem ImportDecl.isTree {d : ImportDecl} (hts : Token.InOrder (t :: ts))
    (hd : d.IsSpanned t.span.start ts c) : d.IsTree := by
  intro s hs
  have hover := (hd.attributes s hs).of_suffix (List.suffix_cons t ts)
  have hstart := hover.start_le hts
  have hstop := hover.stop_le_lastStop hts (hd.isPast.of_suffix (List.suffix_cons t ts))
  simp only [Span.encloses, Bool.and_eq_true, decide_eq_true_eq, hd.span]
  exact ⟨hstart, hstop⟩

/-! ## Outlines -/

/-- Neither of the spans reaches into the other. -/
def Span.Apart (a b : Span) : Prop :=
  a.stop ≤ b.start ∨ b.stop ≤ a.start

namespace Item

def span : Item → Span
  | importDecl d => d.span
  | classDecl d => d.span

/-- The spans of what is read of a statement. -/
def spans : Item → List Span
  | importDecl d => d.span :: d.attributes.toList
  | classDecl d => d.span :: d.body :: d.decorators.map (·.span)

def import? : Item → Option ImportDecl
  | importDecl d => some d
  | classDecl _ => none

def class? : Item → Option ClassDecl
  | importDecl _ => none
  | classDecl d => some d

theorem mem_imports {is : List Item} {d : ImportDecl} :
    d ∈ is.filterMap import? ↔ importDecl d ∈ is := by
  rw [List.mem_filterMap]
  constructor
  · rintro ⟨_ | _, hi, ⟨⟩⟩
    exact hi
  · intro h
    exact ⟨_, h, rfl⟩

theorem mem_classes {is : List Item} {d : ClassDecl} :
    d ∈ is.filterMap class? ↔ classDecl d ∈ is := by
  rw [List.mem_filterMap]
  constructor
  · rintro ⟨_ | _, hi, ⟨⟩⟩
    exact hi
  · intro h
    exact ⟨_, h, rfl⟩

theorem pairwise_imports {is : List Item} (h : is.Pairwise (·.span.stop ≤ ·.span.start)) :
    (is.filterMap import?).Pairwise (·.span.stop ≤ ·.span.start) := by
  apply h.filterMap
  rintro (_ | _) (_ | _) hle _ ⟨⟩ _ ⟨⟩
  exact hle

theorem pairwise_classes {is : List Item} (h : is.Pairwise (·.span.stop ≤ ·.span.start)) :
    (is.filterMap class?).Pairwise (·.span.stop ≤ ·.span.start) := by
  apply h.filterMap
  rintro (_ | _) (_ | _) hle _ ⟨⟩ _ ⟨⟩
  exact hle

/-- The spans of the item are a tree over the tokens. -/
structure IsTree (i : Item) (ts : List Token) : Prop where
  isOver : ∀ s ∈ i.spans, ∃ us, s.IsOver ts us
  imports : ∀ d, i = importDecl d → d.IsTree
  classes : ∀ d, i = classDecl d → d.IsTree ∧ (d.name = none → d.exported = .byDefault)

theorem IsTree.of_suffix {i : Item} (h : i.IsTree us) (hs : us <:+ ts) : i.IsTree ts := by
  refine ⟨?_, h.imports, h.classes⟩
  intro s hmem
  obtain ⟨vs, hover⟩ := h.isOver s hmem
  exact ⟨vs, hover.of_suffix hs⟩

end Item

theorem item_span {i : Item} (h : item t ts = .ok (some i, c)) :
    i.span = ⟨t.span.start, c.lastStop⟩ ∧ c.IsPast ts := by
  cases i with
  | importDecl d =>
    have hd := importRest_isSpanned (item_eq_importDecl h)
    exact ⟨hd.span, hd.isPast⟩
  | classDecl d =>
    have hd := (item_eq_classDecl h).2
    exact ⟨hd.span, hd.closed.isPast⟩

theorem item_isTree {i : Item} (hts : Token.InOrder (t :: ts)) (h : item t ts = .ok (some i, c)) :
    i.IsTree (t :: ts) := by
  obtain ⟨hspan, hpast⟩ := item_span h
  have hover : i.span.IsOver (t :: ts) c.tokens :=
    ⟨t, ts, c, List.suffix_rfl, hpast, hspan, List.suffix_rfl⟩
  cases i with
  | importDecl d =>
    have hd := importRest_isSpanned (item_eq_importDecl h)
    constructor
    · intro s hs
      rcases List.mem_cons.1 hs with rfl | hs
      · exact ⟨_, hover⟩
      · have hattributes := hd.attributes s (Option.mem_toList.1 hs)
        exact ⟨_, hattributes.of_suffix (List.suffix_cons t ts)⟩
    · rintro _ ⟨⟩
      exact ImportDecl.isTree hts hd
    · rintro _ ⟨⟩
  | classDecl d =>
    have hd := (item_eq_classDecl h).2
    have hdecorated := item_isDecorated h
    obtain ⟨us, hds, hbody⟩ := id hdecorated
    constructor
    · intro s hs
      rcases List.mem_cons.1 hs with rfl | hs
      · exact ⟨_, hover⟩
      rcases List.mem_cons.1 hs with rfl | hs
      · exact ⟨_, hbody.isOver.of_suffix hds.suffix⟩
      · exact ⟨_, hds.isOver hs⟩
    · rintro _ ⟨⟩
    · rintro _ ⟨⟩
      exact ⟨ClassDecl.isTree hts hd.span hdecorated, hd.nameless⟩

namespace Outline

/-- The items of an outline in the order of the source. -/
theorem exists_items {o : Outline} (h : ofTokens ts = .ok o) (hts : Token.InOrder ts) :
    ∃ is : List Item, o.imports = is.filterMap Item.import? ∧ o.classes = is.filterMap Item.class? ∧
      Span.LaidOut (is.map Item.span) ts [] ∧ ∀ i ∈ is, i.IsTree ts := by
  fun_induction ofTokens ts generalizing o with
  | case1 =>
    cases h
    exact ⟨[], rfl, rfl, .nil, by simp⟩
  | case2 => cases h
  | case3 t ts i c hi ih =>
    obtain ⟨o', ho', h⟩ := Except.bind_eq_ok_iff.1 h
    cases h
    have hsuffix := (item_passes hi 0).suffix
    obtain ⟨is, himports, hclasses, hspans, htrees⟩ := ih ho' (hts.of_suffix hsuffix)
    have hlater : ∀ j ∈ is, j.IsTree (t :: ts) := by
      intro j hj
      exact (htrees j hj).of_suffix hsuffix
    cases i with
    | none => exact ⟨is, himports, hclasses, hspans.of_suffix hsuffix, hlater⟩
    | some i =>
      obtain ⟨hspan, hpast⟩ := item_span hi
      refine ⟨i :: is, ?_, ?_, ?_, ?_⟩
      · cases i with
        | importDecl d => exact congrArg (d :: ·) himports
        | classDecl d => exact himports
      · cases i with
        | importDecl d => exact hclasses
        | classDecl d => exact congrArg (d :: ·) hclasses
      · rw [List.map_cons, hspan]
        exact .span hpast hspans
      · intro j hj
        rcases List.mem_cons.1 hj with rfl | hj
        · exact item_isTree hts hi
        · exact hlater j hj

/-- The spans of the imports, the classes and what is in them. -/
def spans (o : Outline) : List Span :=
  o.imports.flatMap (Item.importDecl · |>.spans) ++ o.classes.flatMap (Item.classDecl · |>.spans)

/-- The spans of the outline of a source are a tree over its tokens. -/
structure IsPlaced (o : Outline) (source : String) (ts : List Token) : Prop where
  starts : ∀ s ∈ o.spans, ∃ t ∈ ts, s.start = t.span.start
  stops : ∀ s ∈ o.spans, ∃ t ∈ ts, s.stop = t.span.stop
  nonempty : ∀ s ∈ o.spans, s.start < s.stop
  slices : ∀ s ∈ o.spans, (Text.slice? source.toList s.start s.stop).isSome
  imports : o.imports.Pairwise (·.span.stop ≤ ·.span.start)
  classes : o.classes.Pairwise (·.span.stop ≤ ·.span.start)
  apart : ∀ d ∈ o.imports, ∀ e ∈ o.classes, d.span.Apart e.span
  importTrees : ∀ d ∈ o.imports, d.IsTree
  classTrees : ∀ d ∈ o.classes, d.IsTree
  named : ∀ d ∈ o.classes, d.name = none → d.exported = .byDefault

variable {source : String} {o : Outline}

/-- The spans of the items are those of the imports and the classes. -/
theorem mem_spans {is : List Item} (himports : o.imports = is.filterMap Item.import?)
    (hclasses : o.classes = is.filterMap Item.class?) (hs : s ∈ o.spans) : ∃ i ∈ is, s ∈ i.spans := by
  rw [spans, himports, hclasses, List.mem_append, List.mem_flatMap, List.mem_flatMap] at hs
  rcases hs with ⟨d, hd, hs⟩ | ⟨d, hd, hs⟩
  · exact ⟨.importDecl d, Item.mem_imports.1 hd, hs⟩
  · exact ⟨.classDecl d, Item.mem_classes.1 hd, hs⟩

theorem isPlaced_of_ofTokens (h : ofTokens ts = .ok o) (hts : Token.Lossless source ts) :
    o.IsPlaced source ts := by
  obtain ⟨is, himports, hclasses, hspans, htrees⟩ := exists_items h hts.inOrder
  have hover : ∀ s ∈ o.spans, ∃ us, s.IsOver ts us := by
    intro s hs
    obtain ⟨i, hi, hs⟩ := mem_spans himports hclasses hs
    exact (htrees i hi).isOver s hs
  have hinOrder : is.Pairwise (·.span.stop ≤ ·.span.start) :=
    List.pairwise_map.1 (hspans.pairwise hts.inOrder)
  have htree (d : ClassDecl) (hd : d ∈ o.classes) :
      d.IsTree ∧ (d.name = none → d.exported = .byDefault) := by
    rw [hclasses, Item.mem_classes] at hd
    exact (htrees _ hd).classes d rfl
  constructor
  case starts =>
    intro s hs
    obtain ⟨us, h⟩ := hover s hs
    exact h.exists_start
  case stops =>
    intro s hs
    obtain ⟨us, h⟩ := hover s hs
    exact h.exists_stop
  case nonempty =>
    intro s hs
    obtain ⟨us, h⟩ := hover s hs
    exact h.start_lt_stop hts.inOrder
  case slices =>
    intro s hs
    obtain ⟨us, h⟩ := hover s hs
    exact (h.cuts hts).isSome_slice?
  case imports =>
    rw [himports]
    exact Item.pairwise_imports hinOrder
  case classes =>
    rw [hclasses]
    exact Item.pairwise_classes hinOrder
  case apart =>
    intro d hd e he
    rw [himports, Item.mem_imports] at hd
    rw [hclasses, Item.mem_classes] at he
    have hsymm : Std.Symm fun i j : Item => i.span.Apart j.span := ⟨fun _ _ => Or.symm⟩
    have hapart : is.Pairwise fun i j => i.span.Apart j.span := hinOrder.imp .inl
    exact hapart.forall hd he (by rintro ⟨⟩)
  case importTrees =>
    intro d hd
    rw [himports, Item.mem_imports] at hd
    exact (htrees _ hd).imports d rfl
  case classTrees =>
    intro d hd
    exact (htree d hd).1
  case named =>
    intro d hd
    exact (htree d hd).2

/-- Every span of the outline of a source reaches from the start of a token to the end of one, imports and
classes do not overlap and stand in the order of the source, and what belongs to one of them lies inside of
it. -/
theorem isPlaced_of_ofSource (h : ofSource source = .ok o) :
    ∃ ts, tokenize source = .ok ts ∧ o.IsPlaced source ts := by
  obtain ⟨y, hy, ho⟩ := ofSource_eq_ok_iff.1 h
  exact ⟨_, Lexing.tokenize_eq hy, isPlaced_of_ofTokens ho (Token.lossless_of_ofSource hy)⟩

/-- Decorators on both sides of `export`, and an import with attributes. -/
theorem decoratedExport_isPlaced :
    let source := "import a from 'a' with {}; @j() export default @k class { }"
    let o : Outline :=
      { imports := [⟨"a", some "a", none, [], false, some ⟨18, 25⟩, ⟨0, 26⟩⟩]
        classes := [⟨none, [⟨"j", some [], ⟨27, 31⟩⟩, ⟨"k", none, ⟨47, 49⟩⟩], .byDefault, ⟨27, 59⟩,
          ⟨56, 59⟩⟩] }
    ofSource source = .ok o ∧ ∃ ts, tokenize source = .ok ts ∧ o.IsPlaced source ts := by
  intro source o
  have ho : ofSource source = .ok o := by decide +kernel
  exact ⟨ho, isPlaced_of_ofSource ho⟩

end Outline
end JobBundler
