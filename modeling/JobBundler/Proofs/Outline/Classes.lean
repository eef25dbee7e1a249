import JobBundler.Proofs.Outline.Imports
import JobBundler.Proofs.Token.Excerpt

/-!
# What is read as a class

A class reaches from a decorator's sign or a keyword to the bracket that closes its body
(`Outline.exists_of_mem_classes`), so its text is that of the lexemes in between
(`Outline.exists_lexemes_of_mem_classes`).
-/

namespace JobBundler

variable {c c' : Cursor} {ts us : List Token}

/-- The cursor stands after a closing bracket among the tokens. -/
def Cursor.IsAfterBracket (c : Cursor) (ts : List Token) : Prop :=
  ∃ gs t b, ts = gs ++ t :: c.tokens ∧ t.kind = .closing b ∧ c.lastStop = t.span.stop

theorem Cursor.IsAfterBracket.of_suffix (h : c.IsAfterBracket us) (hs : us <:+ ts) :
    c.IsAfterBracket ts := by
  obtain ⟨gs, t, b, rfl, ht⟩ := h
  obtain ⟨pre, rfl⟩ := hs
  exact ⟨pre ++ gs, t, b, (List.append_assoc ..).symm, ht⟩

/-- The body of the class is a group among the tokens, up to the cursor. -/
def ClassDecl.HasBody (d : ClassDecl) (ts : List Token) (c : Cursor) : Prop :=
  ∃ brace us, brace :: us <:+ ts ∧ brace.kind = .opening .brace ∧ skipGroup 0 us = .ok c ∧
    d.body = ⟨brace.span.start, c.lastStop⟩

theorem ClassDecl.HasBody.of_suffix {d : ClassDecl} (h : d.HasBody us c) (hs : us <:+ ts) :
    d.HasBody ts c := by
  obtain ⟨brace, vs, hvs, h⟩ := h
  exact ⟨brace, vs, hvs.trans hs, h⟩

/-- What is known of a class that is read of these tokens up to a cursor, from byte `start` on. -/
structure ClassDecl.IsReadTo (d : ClassDecl) (start : Nat) (ts : List Token) (c : Cursor) : Prop where
  span : d.span = ⟨start, c.lastStop⟩
  closed : c.IsAfterBracket ts
  nameless : d.name = none → d.exported = .byDefault
  body : d.HasBody ts c

theorem ClassDecl.IsReadTo.of_suffix {d : ClassDecl} {start : Nat} (h : d.IsReadTo start us c)
    (hs : us <:+ ts) : d.IsReadTo start ts c :=
  ⟨h.span, h.closed.of_suffix hs, h.nameless, h.body.of_suffix hs⟩

theorem classRest_isReadTo {start : Nat} {ds : List Decorator} {how : ExportKind} {d : ClassDecl}
    (h : classRest start ds how c = .ok (d, c')) :
    d.IsReadTo start c.tokens c' := by
  cases classRest_eq_ok h with
  | @intro brace ts _ hname hheritage hbody =>
    have hafter : c'.IsAfterBracket ts := skipGroup_eq_ok hbody
    obtain ⟨hbrace, hp⟩ := classHeritage_passes hheritage
    have hs := ((className?_passes c 0).trans (hp 0)).suffix
    refine ⟨rfl, hafter.of_suffix ((List.suffix_cons brace ts).trans hs), fun hnone => ?_,
      ⟨brace, ts, hs, hbrace, hbody, rfl⟩⟩
    dsimp only at hnone
    simpa [hnone] using hname

theorem exported_isReadTo {start : Nat} {ds : List Decorator} {how : ExportKind} {d : ClassDecl}
    (h : exported start ds how c = .ok (some d, c')) :
    d.IsReadTo start c.tokens c' := by
  cases exported_eq_ok h with
  | plain hkeyword hrest =>
    exact (classRest_isReadTo hrest).of_suffix (afterClassKeyword?_passes hkeyword 0).suffix

theorem exportRest_isReadTo {start : Nat} {before : List Decorator} {d : ClassDecl}
    (h : exportRest start before c = .ok (some d, c')) :
    d.IsReadTo start c.tokens c' := by
  unfold exportRest at h
  obtain ⟨⟨own, c₁⟩, h₁, h⟩ := Except.bind_eq_ok_iff.1 h
  exact (exported_isReadTo h).of_suffix
    ((c.optionalWord_passes "default" 0).trans (decorators_passes h₁ 0)).suffix

theorem decoratedRest_isReadTo {first : Decorator} {ds : List Decorator} {d : ClassDecl}
    (h : decoratedRest (first :: ds) c = .ok (some d, c')) :
    d.IsReadTo first.span.start c.tokens c' := by
  cases decoratedRest_eq_ok h with
  | exporting _ hrest => exact (exportRest_isReadTo hrest).of_suffix c.advance_suffix
  | plain _ hkeyword hrest =>
    exact (classRest_isReadTo hrest).of_suffix (afterClassKeyword?_passes hkeyword 0).suffix

theorem Token.leads_of_isWord {t : Token} {word : String} (h : t.isWord word) : t.kind.Leads :=
  .inr ⟨word, by simpa [Token.isWord] using h⟩

theorem afterClassKeyword?_eq_some {t : Token} (h : afterClassKeyword? (t :: ts) = some c) :
    t.kind.Leads ∧ c.tokens <:+ ts := by
  simp only [afterClassKeyword?] at h
  split at h
  · rename_i hword
    cases h
    exact ⟨t.leads_of_isWord hword, List.suffix_rfl⟩
  · split at h
    · rename_i u us
      split at h
      · rename_i hwords
        cases h
        simp only [Bool.and_eq_true] at hwords
        exact ⟨t.leads_of_isWord hwords.1.1, List.suffix_cons u us⟩
      · cases h
    · cases h

/-- A class reaches from the token that it is read from on to a closing bracket. -/
theorem item_eq_classDecl {t : Token} {d : ClassDecl} (h : item t ts = .ok (some (.classDecl d), c)) :
    t.kind.Leads ∧ d.IsReadTo t.span.start ts c := by
  cases item_eq_ok h with
  | decorated ht hfirst hmore hrest hi =>
    obtain ⟨d', rfl, hd⟩ := Option.map_eq_some_iff.1 hi
    cases hd
    have hread := decoratedRest_isReadTo hrest
    rw [decorator_span hfirst] at hread
    exact ⟨.inl ht, hread.of_suffix ((decorator_passes hfirst 0).trans (decorators_passes hmore 0)).suffix⟩
  | exporting ht hrest hi =>
    obtain ⟨d', rfl, hd⟩ := Option.map_eq_some_iff.1 hi
    cases hd
    exact ⟨t.leads_of_isWord ht, exportRest_isReadTo hrest⟩
  | importing _ _ _ hi =>
    obtain ⟨d', -, hd⟩ := Option.map_eq_some_iff.1 hi
    cases hd
  | plain hkeyword hrest =>
    obtain ⟨hleads, hs⟩ := afterClassKeyword?_eq_some hkeyword
    exact ⟨hleads, (classRest_isReadTo hrest).of_suffix hs⟩

/-- Each class of an outline is read at some place among the tokens, where no bracket is open. -/
theorem Outline.exists_of_mem_classes {o : Outline} (h : ofTokens ts = .ok o) {d : ClassDecl}
    (hd : d ∈ o.classes) :
    ∃ t us c, Passes 0 ts 0 (t :: us) ∧ t.kind.Leads ∧ d.IsReadTo t.span.start us c := by
  fun_induction ofTokens ts generalizing o with
  | case1 =>
    cases h
    cases hd
  | case2 => cases h
  | case3 t ts i c hi ih =>
    obtain ⟨o', ho', h⟩ := Except.bind_eq_ok_iff.1 h
    cases h
    have hlater (hd : d ∈ o'.classes) : ∃ t' us c, Passes 0 (t :: ts) 0 (t' :: us) ∧ t'.kind.Leads ∧
        d.IsReadTo t'.span.start us c := by
      obtain ⟨t', us, c, hp, h⟩ := ih ho' hd
      exact ⟨t', us, c, (item_passes hi 0).trans hp, h⟩
    rcases i with _ | _ | d'
    · exact hlater hd
    · exact hlater hd
    · rcases List.mem_cons.1 hd with rfl | hd
      · exact ⟨t, ts, c, .refl, item_eq_classDecl hi⟩
      · exact hlater hd

theorem Outline.start_lt_stop_of_mem_classes {o : Outline} (h : ofTokens ts = .ok o)
    (hts : ts.Pairwise (·.span.stop ≤ ·.span.start)) (hne : ∀ t ∈ ts, t.span.start < t.span.stop)
    {d : ClassDecl} (hd : d ∈ o.classes) : d.span.start < d.span.stop := by
  obtain ⟨t, us, c, hpasses, -, hspan, ⟨gs, last, b, rfl, -, hstop⟩, -⟩ := exists_of_mem_classes h hd
  obtain ⟨front, rfl⟩ := hpasses.suffix
  have hlast : last ∈ gs ++ last :: c.tokens := List.mem_append_right _ List.mem_cons_self
  have hopen := hne t (List.mem_append_right _ List.mem_cons_self)
  have hclose := hne last (List.mem_append_right _ (List.mem_cons_of_mem _ hlast))
  have horder := List.rel_of_pairwise_cons (List.pairwise_append.1 hts).2.1 hlast
  rw [hspan, hstop]
  exact (hopen.trans_le horder).trans hclose

/-- The classes of an outline stand one after the other. -/
theorem Outline.pairwise_classes {o : Outline} (h : ofTokens ts = .ok o)
    (hts : ts.Pairwise (·.span.stop ≤ ·.span.start)) :
    o.classes.Pairwise (·.span.stop ≤ ·.span.start) := by
  fun_induction ofTokens ts generalizing o with
  | case1 =>
    cases h
    exact .nil
  | case2 => cases h
  | case3 t ts i c hi ih =>
    obtain ⟨o', ho', h⟩ := Except.bind_eq_ok_iff.1 h
    cases h
    have hlater := ih ho' (hts.sublist (item_passes hi 0).suffix.sublist)
    rcases i with _ | _ | d
    · exact hlater
    · exact hlater
    · refine List.pairwise_cons.2 ⟨fun d' hd' => ?_, hlater⟩
      obtain ⟨-, hspan, ⟨gs, last, b, rfl, -, hstop⟩, -⟩ := item_eq_classDecl hi
      obtain ⟨t', us, c', hpasses, -, hspan', -⟩ := exists_of_mem_classes ho' hd'
      rw [hspan, hstop, hspan']
      have hafter := (List.pairwise_append.1 (List.pairwise_cons.1 hts).2).2.1
      exact List.rel_of_pairwise_cons hafter (hpasses.suffix.subset List.mem_cons_self)

/-- Only a class that is exported as the default has no name. -/
theorem Outline.byDefault_of_nameless {source : String} {o : Outline} (h : ofSource source = .ok o)
    {d : ClassDecl} (hd : d ∈ o.classes) (hname : d.name = none) : d.exported = .byDefault := by
  obtain ⟨y, -, ho⟩ := ofSource_eq_ok_iff.1 h
  obtain ⟨t, us, c, -, -, hread⟩ := exists_of_mem_classes ho hd
  exact hread.nameless hname

/-- The lexemes of a class of a source. -/
theorem Outline.exists_lexemes_of_mem_classes {y : Lexing} {o : Outline}
    (h : ofTokens (Token.place 0 y.lexemes) = .ok o) {d : ClassDecl} (hd : d ∈ o.classes) :
    ∃ as m ms last bs b, y.lexemes = as ++ (m :: (ms ++ [last]) ++ bs) ∧ m.kind.Leads ∧
      last.kind = .closing b ∧ d.span = Token.stretch as m (ms ++ [last]) := by
  obtain ⟨t, us, c, hpasses, hleads, hspan, ⟨gs, last, b, rfl, hlast, hstop⟩, -⟩ :=
    exists_of_mem_classes h hd
  obtain ⟨front, hfront⟩ := hpasses.suffix
  obtain ⟨as, m, ms, l, bs, hlexemes, -, hstretch, hm, hl⟩ := Token.exists_stretch hfront.symm
  rw [← hm] at hleads
  rw [← hl] at hlast
  rw [hstop, ← hstretch] at hspan
  exact ⟨as, m, ms, l, bs, b, hlexemes, hleads, hlast, hspan⟩

end JobBundler
