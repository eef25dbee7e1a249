import JobBundler.Proofs.Outline.Classes
import JobBundler.Proofs.Token.Lossless

/-!
# Where classes begin and end

Brackets are matched by number alone when an outline is read, and substitutions are not told from other
tokens. So a class is a declaration of the top level, in the brackets of its body, if and only if no bracket
before it or in it closes one of another kind, and no substitution is open before it
(`Outline.wellDelimited_iff`).
-/

namespace JobBundler

open Mark (bracketsAfter openAfter)

/-! ## Brackets and substitutions -/

def Delimiter.isBracket : Delimiter → Bool
  | .bracket _ => true
  | .substitution => false

namespace Mark

/-- What is open after a mark, the innermost one first. -/
def delimiters : List Delimiter → Mark → Option (List Delimiter)
  | ds, .opens d => some (d :: ds)
  | [], .closes _ => none
  | d :: ds, .closes d' => if d = d' then some ds else none

/-- What is open after these marks, unless something is closed that is not the innermost one. -/
def delimitersAfter (ds : List Delimiter) (ms : List Mark) : Option (List Delimiter) :=
  ms.foldlM delimiters ds

variable {d : Delimiter} {ds ds' : List Delimiter} {b : Bracket} {bs bs' : List Bracket} {m : Mark}
  {ms ms' : List Mark}

theorem delimitersAfter_append :
    delimitersAfter ds (ms ++ ms') = (delimitersAfter ds ms).bind (delimitersAfter · ms') :=
  List.foldlM_append

theorem bracketsAfter_append :
    bracketsAfter bs (ms ++ ms') = (bracketsAfter bs ms).bind (bracketsAfter · ms') :=
  List.foldlM_append

theorem delimitersAfter_cons :
    delimitersAfter ds (m :: ms) = (delimiters ds m).bind (delimitersAfter · ms) := rfl

@[simp] theorem bracketsAfter_opens (bs : List Bracket) (b : Bracket) (ms : List Mark) :
    bracketsAfter bs (.opens (.bracket b) :: ms) = bracketsAfter (b :: bs) ms := by
  cases bs <;> rfl

@[simp] theorem bracketsAfter_closes (b b' : Bracket) (bs : List Bracket) (ms : List Mark) :
    bracketsAfter (b :: bs) (.closes (.bracket b') :: ms) =
      if b = b' then bracketsAfter bs ms else none := by
  show (if b = b' then some bs else none).bind _ = _
  split <;> rfl

theorem count_of_delimiters (h : delimiters ds m = some ds') (d : Delimiter) :
    count d (ds.count d) m = some (ds'.count d) := by
  cases m with
  | opens d' =>
    cases h
    rw [List.count_cons, count]
    split <;> simp_all
  | closes d' =>
    cases ds with
    | nil => cases h
    | cons a ds =>
      rw [delimiters] at h
      split at h
      · rename_i had
        cases h
        subst had
        by_cases hd : a = d
        · subst hd
          simp [count]
        · simp [count, hd]
      · cases h

/-- What is told apart is counted as well. -/
theorem openAfter_of_delimitersAfter (h : delimitersAfter ds ms = some ds') (d : Delimiter) :
    openAfter d (ds.count d) ms = some (ds'.count d) := by
  induction ms generalizing ds with
  | nil =>
    cases h
    rfl
  | cons m ms ih =>
    obtain ⟨ds₁, h₁, h⟩ := Option.bind_eq_some_iff.1 h
    rw [openAfter_cons, count_of_delimiters h₁]
    exact ih h

/-- Only an opening bracket leaves more brackets open. -/
theorem countP_of_delimiters (h : delimiters ds m = some ds') (hm : ∀ b, m ≠ .opens (.bracket b)) :
    ds'.countP Delimiter.isBracket ≤ ds.countP Delimiter.isBracket := by
  rcases m with (b | _) | d
  · exact absurd rfl (hm b)
  · cases h
    exact Nat.le_refl _
  · cases ds with
    | nil => cases h
    | cons a ds =>
      rw [delimiters] at h
      split at h <;> cases h
      rw [List.countP_cons]
      exact Nat.le_add_right _ _

theorem countP_of_delimitersAfter (h : delimitersAfter ds ms = some ds')
    (hms : ∀ b, .opens (.bracket b) ∉ ms) :
    ds'.countP Delimiter.isBracket ≤ ds.countP Delimiter.isBracket := by
  induction ms generalizing ds with
  | nil =>
    cases h
    exact Nat.le_refl _
  | cons m ms ih =>
    obtain ⟨ds₁, h₁, h⟩ := Option.bind_eq_some_iff.1 h
    have hm := countP_of_delimiters h₁ fun b hb => hms b (hb ▸ List.mem_cons_self)
    exact Nat.le_trans (ih h fun b hb => hms b (List.mem_cons_of_mem _ hb)) hm

/-- What is open around stays so, and does not matter. -/
theorem bracketsAfter_around (h : bracketsAfter bs ms = some bs') (outer : List Bracket) :
    bracketsAfter (bs ++ outer) ms = some (bs' ++ outer) := by
  induction ms generalizing bs with
  | nil =>
    cases h
    rfl
  | cons m ms ih =>
    obtain ⟨bs₁, h₁, h⟩ := Option.bind_eq_some_iff.1 h
    have houter : brackets (bs ++ outer) m = some (bs₁ ++ outer) := by
      rcases m with (b | _) | (b | _)
      · cases h₁
        rfl
      · cases h₁
        cases bs <;> cases outer <;> rfl
      · cases bs with
        | nil => cases h₁
        | cons a bs =>
          simp only [List.cons_append, brackets] at h₁ ⊢
          split at h₁ <;> cases h₁
          rw [if_pos ‹_›]
      · cases h₁
        cases bs <;> cases outer <;> rfl
    show (brackets (bs ++ outer) m).bind _ = _
    rw [houter]
    exact ih h

end Mark

/-! ## Tokens -/

namespace Token

variable {source : String} {t : Token} {b : Bracket} {bs : List Bracket}

theorem flatMap_marks_of_opening (ht : t.kind = .opening b) (ts : List Token) :
    (t :: ts).flatMap (marks source) = .opens (.bracket b) :: ts.flatMap (marks source) := by
  rw [List.flatMap_cons, marks, ht]
  rfl

theorem flatMap_marks_of_closing (ht : t.kind = .closing b) (ts : List Token) :
    (t :: ts).flatMap (marks source) = .closes (.bracket b) :: ts.flatMap (marks source) := by
  rw [List.flatMap_cons, marks, ht]
  rfl

theorem opens_notMem_marks (ht : t.kind.isOpening = false) (b : Bracket) :
    .opens (.bracket b) ∉ t.marks source := by
  rw [marks]
  cases hk : t.kind with
  | opening b =>
    rw [hk] at ht
    cases ht
  | template chunk =>
    simp only [Mark.ofToken]
    split <;> split <;> simp
  | _ => simp [Mark.ofToken]

theorem bracketsAfter_of_other (ho : ∀ b, t.kind = .opening b → False)
    (hc : ∀ b, t.kind = .closing b → False) : bracketsAfter bs (t.marks source) = some bs := by
  rw [marks]
  cases hk : t.kind with
  | opening b => exact (ho b hk).elim
  | closing b => exact (hc b hk).elim
  | template chunk =>
    simp only [Mark.ofToken]
    split <;> split <;> cases bs <;> rfl
  | _ => rfl

end Token

variable {source : String} {c : Cursor} {ts us : List Token} {n m : Nat}

/-- What is read leaves no more brackets open than are counted. -/
theorem Passes.countP_le (h : Passes n ts m us) : ∃ gs, ts = gs ++ us ∧ ∀ source ds ds',
    Mark.delimitersAfter ds (gs.flatMap (Token.marks source)) = some ds' →
      ds.countP Delimiter.isBracket ≤ n → ds'.countP Delimiter.isBracket ≤ m := by
  induction h with
  | refl =>
    refine ⟨[], rfl, ?_⟩
    rintro source ds _ ⟨⟩ hle
    exact hle
  | @opens n m t ts us b ht _ ih =>
    obtain ⟨gs, rfl, ih⟩ := ih
    refine ⟨t :: gs, rfl, fun source ds ds' h hle => ?_⟩
    rw [Token.flatMap_marks_of_opening ht] at h
    refine ih source (.bracket b :: ds) ds' h ?_
    rw [List.countP_cons]
    exact Nat.add_le_add_right hle 1
  | @closes n m t ts us b ht _ ih =>
    obtain ⟨gs, rfl, ih⟩ := ih
    refine ⟨t :: gs, rfl, fun source ds ds' h hle => ?_⟩
    rw [Token.flatMap_marks_of_closing ht, Mark.delimitersAfter_cons] at h
    obtain ⟨ds₁, h₁, hrest⟩ := Option.bind_eq_some_iff.1 h
    cases ds with
    | nil => cases h₁
    | cons d ds =>
      rw [Mark.delimiters] at h₁
      split at h₁ <;> cases h₁
      rename_i hd
      subst hd
      refine ih source ds₁ ds' hrest ?_
      rw [List.countP_cons] at hle
      exact Nat.le_of_add_le_add_right hle
  | @other n m t ts us ht _ ih =>
    obtain ⟨gs, rfl, ih⟩ := ih
    refine ⟨t :: gs, rfl, fun source ds ds' h hle => ?_⟩
    rw [List.flatMap_cons, Mark.delimitersAfter_append] at h
    obtain ⟨ds₁, h₁, h⟩ := Option.bind_eq_some_iff.1 h
    refine ih source ds₁ ds' h (Nat.le_trans ?_ hle)
    exact Mark.countP_of_delimitersAfter h₁ (Token.opens_notMem_marks ht)

/-- A group ends at the bracket that closes it and everything in it, if brackets close those of their
kind. -/
theorem skipGroup_nested {inner : Nat} (h : skipGroup inner ts = .ok c) :
    ∃ gs last, ts = gs ++ last :: c.tokens ∧ c.lastStop = last.span.stop ∧
      ∀ source bs b, bs.length = inner →
        (bracketsAfter (bs ++ [b]) ((gs ++ [last]).flatMap (Token.marks source))).isSome →
          last.kind = .closing b ∧ bracketsAfter bs (gs.flatMap (Token.marks source)) = some [] := by
  fun_induction skipGroup inner ts with
  | case1 => cases h
  | case2 t ts a inner ht ih =>
    obtain ⟨gs, last, rfl, hstop, ih⟩ := ih h
    refine ⟨t :: gs, last, rfl, hstop, fun source bs b hlength hsome => ?_⟩
    rw [List.cons_append, Token.flatMap_marks_of_opening ht, Mark.bracketsAfter_opens] at hsome
    rw [Token.flatMap_marks_of_opening ht, Mark.bracketsAfter_opens]
    exact ih source (a :: bs) b (congrArg (· + 1) hlength) hsome
  | case3 t ts a ht =>
    cases h
    refine ⟨[], t, rfl, rfl, fun source bs b hlength hsome => ?_⟩
    obtain rfl := List.length_eq_zero_iff.1 hlength
    rw [List.nil_append, List.nil_append, Token.flatMap_marks_of_closing ht,
      Mark.bracketsAfter_closes] at hsome
    split at hsome
    · rename_i hb
      exact ⟨hb ▸ ht, rfl⟩
    · cases hsome
  | case4 t ts a inner ht ih =>
    obtain ⟨gs, last, rfl, hstop, ih⟩ := ih h
    refine ⟨t :: gs, last, rfl, hstop, fun source bs b hlength hsome => ?_⟩
    cases bs with
    | nil => cases hlength
    | cons a' bs =>
      rw [List.cons_append, List.cons_append, Token.flatMap_marks_of_closing ht,
        Mark.bracketsAfter_closes] at hsome
      rw [Token.flatMap_marks_of_closing ht, Mark.bracketsAfter_closes]
      split at hsome
      · rename_i ha
        rw [if_pos ha]
        exact ih source bs b (Nat.succ.inj hlength) hsome
      · cases hsome
  | case5 t ts inner ho hc hc' ih =>
    obtain ⟨gs, last, rfl, hstop, ih⟩ := ih h
    refine ⟨t :: gs, last, rfl, hstop, fun source bs b hlength hsome => ?_⟩
    have hother (bs : List Bracket) : bracketsAfter bs (t.marks source) = some bs := by
      refine Token.bracketsAfter_of_other ho fun a ha => ?_
      cases inner with
      | zero => exact hc a ha rfl
      | succ inner => exact hc' a inner ha rfl
    rw [List.cons_append, List.flatMap_cons, Mark.bracketsAfter_append, hother] at hsome
    rw [List.flatMap_cons, Mark.bracketsAfter_append, hother]
    exact ih source bs b hlength hsome

/-! ## Classes -/

namespace ClassDecl

/-- The tokens before the class. -/
def tokensBefore (d : ClassDecl) (ts : List Token) : List Token :=
  ts.filter (·.span.stop ≤ d.span.start)

/-- The tokens of the body. -/
def bodyTokens (d : ClassDecl) (ts : List Token) : List Token :=
  ts.filter (d.body.encloses ·.span)

/-- The class is a declaration of the top level: what is opened before it is closed before it, and its body
reaches from a brace to the one that closes this one and the brackets in between. -/
structure WellDelimited (source : String) (ts : List Token) (d : ClassDecl) : Prop where
  before : Mark.delimitersAfter [] ((d.tokensBefore ts).flatMap (Token.marks source)) = some []
  body : ∃ first inside last, d.bodyTokens ts = first :: (inside ++ [last]) ∧
    first.kind = .opening .brace ∧ last.kind = .closing .brace ∧
    bracketsAfter [] (inside.flatMap (Token.marks source)) = some []
  text : ∃ inside, (d.body.slice source).toList = '{' :: (inside ++ ['}'])

end ClassDecl

namespace Token

variable {as bs : List Token} {t : Token}

theorem Lossless.le_of_append (h : Lossless source (as ++ t :: bs)) :
    (∀ a ∈ as, a.span.stop ≤ t.span.start) ∧ ∀ b ∈ bs, t.span.stop ≤ b.span.start := by
  obtain ⟨-, hbs, has⟩ := List.pairwise_append.1 h.ordered
  exact ⟨fun a ha => has a ha t List.mem_cons_self, (List.pairwise_cons.1 hbs).1⟩

/-- The tokens that end before another one starts are those before it. -/
theorem Lossless.filter_stop_le (h : Lossless source (as ++ t :: bs)) :
    (as ++ t :: bs).filter (·.span.stop ≤ t.span.start) = as := by
  obtain ⟨hbefore, hafter⟩ := h.le_of_append
  have ht := h.nonempty t (List.mem_append_right _ List.mem_cons_self)
  have has : as.filter (·.span.stop ≤ t.span.start) = as :=
    List.filter_eq_self.2 fun a ha => decide_eq_true (hbefore a ha)
  have hbs : bs.filter (·.span.stop ≤ t.span.start) = [] := by
    refine List.filter_eq_nil_iff.2 fun b hb => ?_
    have := hafter b hb
    have := h.nonempty b (List.mem_append_right _ (List.mem_cons_of_mem _ hb))
    simp only [decide_eq_true_eq]
    omega
  rw [List.filter_append, List.filter_cons_of_neg (by simpa using ht), has, hbs, List.append_nil]

end Token

section
variable {y : Lexing} {front inside back : List Token} {first last : Token}

/-- The tokens from one to another one are those between its ends. -/
theorem Token.filter_encloses_stretch (hy : Lexing.ofSource source.toList = .ok y)
    (h : place 0 y.lexemes = front ++ first :: (inside ++ last :: back)) :
    (place 0 y.lexemes).filter (Span.encloses ⟨first.span.start, last.span.stop⟩ ·.span) =
      first :: (inside ++ [last]) := by
  obtain ⟨as, m, ms, l, bs, hlexemes, hplace, hstretch, -, -⟩ := exists_stretch h
  have hne := Lexing.text_ne_nil hy
  rw [hlexemes] at hne
  rw [← hstretch, hlexemes, filter_encloses hne, hplace]

/-- The text from one brace to another one. -/
theorem Token.slice_braces (hy : Lexing.ofSource source.toList = .ok y)
    (h : place 0 y.lexemes = front ++ first :: (inside ++ last :: back))
    (hfirst : first.kind = .opening .brace) (hlast : last.kind = .closing .brace) :
    ∃ text, (Span.slice ⟨first.span.start, last.span.stop⟩ source).toList = '{' :: (text ++ ['}']) := by
  obtain ⟨as, m, ms, l, bs, hlexemes, -, hstretch, hm, hl⟩ := exists_stretch h
  have hsource : source.toList =
      Lexeme.sources (as ++ m :: (ms ++ [l])) ++ (Lexeme.sources bs ++ y.trailing) := by
    rw [← Lexing.source_of_ofSource hy, hlexemes]
    simp
  have hwritten {x : Lexeme} (hx : x ∈ m :: (ms ++ [l])) : x.kind.IsWritten x.text := by
    refine Lexing.isWritten_of_mem hy ?_
    rw [hlexemes]
    exact List.mem_append_right _ (List.mem_append_left _ hx)
  have hopening : m.text = ['{'] := by
    have := hwritten List.mem_cons_self
    rwa [hm, hfirst] at this
  have hclosing : l.text = ['}'] := by
    have := hwritten (List.mem_cons_of_mem _ (List.mem_append_right ms List.mem_cons_self))
    rwa [hl, hlast] at this
  refine ⟨Lexeme.sources ms ++ l.gap, ?_⟩
  rw [← hstretch, slice_stretch as m _ hsource, String.toList_ofList, hopening]
  simp [Lexeme.source, hclosing]

end

namespace Outline

variable {o : Outline} {d : ClassDecl} {y : Lexing}

/-- The body of a class reaches over a group. -/
theorem exists_body_of_mem_classes (ho : ofTokens ts = .ok o) (hd : d ∈ o.classes) :
    ∃ front first inside last back, ts = front ++ first :: (inside ++ last :: back) ∧
      d.body = ⟨first.span.start, last.span.stop⟩ ∧ first.kind = .opening .brace ∧
      ∀ source, (bracketsAfter [] ((first :: (inside ++ [last])).flatMap (Token.marks source))).isSome →
        last.kind = .closing .brace ∧ bracketsAfter [] (inside.flatMap (Token.marks source)) = some [] := by
  obtain ⟨t, us, c, hpasses, -, hread⟩ := exists_of_mem_classes ho hd
  obtain ⟨first, vs, hvs, hfirst, hgroup, hbody⟩ := hread.body
  obtain ⟨inside, last, rfl, hstop, hnested⟩ := skipGroup_nested hgroup
  obtain ⟨front, hfront⟩ := (hvs.trans (List.suffix_cons t us)).trans hpasses.suffix
  rw [hstop] at hbody
  refine ⟨front, first, inside, last, c.tokens, hfront.symm, hbody, hfirst, fun source hsome => ?_⟩
  rw [Token.flatMap_marks_of_opening hfirst, Mark.bracketsAfter_opens] at hsome
  exact hnested source [] .brace rfl hsome

/-- No bracket is left open before a class if brackets close those of their kind. -/
theorem countP_of_tokensBefore (hts : Token.Lossless source ts) (ho : ofTokens ts = .ok o)
    (hd : d ∈ o.classes) {ds : List Delimiter}
    (hds : Mark.delimitersAfter [] ((d.tokensBefore ts).flatMap (Token.marks source)) = some ds) :
    ds.countP Delimiter.isBracket = 0 := by
  obtain ⟨t, us, c, hpasses, -, hread⟩ := exists_of_mem_classes ho hd
  obtain ⟨gs, rfl, hcount⟩ := hpasses.countP_le
  rw [ClassDecl.tokensBefore, hread.span, hts.filter_stop_le] at hds
  exact Nat.le_zero.1 (hcount source [] ds hds (Nat.le_refl 0))

/-- A class is well delimited exactly if nothing before it closes a bracket or a substitution that is not
the innermost one that is open, no substitution is open before it, and no bracket in its body closes one
of another kind. -/
theorem wellDelimited_iff {ts : List Token} (h : ofSource source = .ok o) (hd : d ∈ o.classes)
    (hts : tokenize source = .ok ts) :
    d.WellDelimited source ts ↔
      (Mark.delimitersAfter [] ((d.tokensBefore ts).flatMap (Token.marks source))).isSome ∧
      openAfter .substitution 0 ((d.tokensBefore ts).flatMap (Token.marks source)) = some 0 ∧
      (bracketsAfter [] ((d.bodyTokens ts).flatMap (Token.marks source))).isSome := by
  obtain ⟨y, hy, ho⟩ := ofSource_eq_ok_iff.1 h
  obtain rfl : Token.place 0 y.lexemes = ts := by
    rw [Lexing.tokenize_eq hy] at hts
    exact Except.ok.inj hts
  obtain ⟨front, first, inside, last, back, hsplit, hbody, hfirst, hnested⟩ :=
    exists_body_of_mem_classes ho hd
  have htokens := Token.filter_encloses_stretch hy hsplit
  rw [← hbody, ← ClassDecl.bodyTokens] at htokens
  constructor
  · intro hw
    refine ⟨Option.isSome_of_eq_some hw.before, Mark.openAfter_of_delimitersAfter hw.before _, ?_⟩
    obtain ⟨first', inside', last', htokens', hfirst', hlast', hinside'⟩ := hw.body
    have hin : bracketsAfter [.brace] (inside'.flatMap (Token.marks source)) = some [.brace] :=
      Mark.bracketsAfter_around hinside' [.brace]
    rw [htokens', Token.flatMap_marks_of_opening hfirst', Mark.bracketsAfter_opens, List.flatMap_append,
      Mark.bracketsAfter_append, hin, Option.bind_some, Token.flatMap_marks_of_closing hlast',
      Mark.bracketsAfter_closes, if_pos rfl]
    rfl
  · rintro ⟨hsome, hsubs, hclosed⟩
    rw [htokens] at hclosed
    obtain ⟨hlast, hinside⟩ := hnested source hclosed
    obtain ⟨ds, hds⟩ := Option.isSome_iff_exists.1 hsome
    have hbrackets := countP_of_tokensBefore (Token.lossless_of_ofSource hy) ho hd hds
    have hcount := Mark.openAfter_of_delimitersAfter hds .substitution
    rw [List.count_nil, hsubs, Option.some.injEq] at hcount
    have hnil : ds = [] := by
      refine List.eq_nil_iff_forall_not_mem.2 fun a ha => ?_
      cases a with
      | bracket b => exact List.countP_eq_zero.1 hbrackets _ ha rfl
      | substitution => exact List.count_eq_zero.1 hcount.symm ha
    refine ⟨hnil ▸ hds, ⟨first, inside, last, htokens, hfirst, hlast, hinside⟩, ?_⟩
    rw [hbody]
    exact Token.slice_braces hy hsplit hfirst hlast

/-- A class with brackets in its body, after a substitution that is closed. -/
theorem classAfterCall_wellDelimited :
    let source := "f(\x60$\x7b0\x7d\x60)\nclass A \x7b m() \x7b \x7d \x7d"
    let d : ClassDecl :=
      { name := some "A", decorators := [], exported := .notExported, span := ⟨10, 29⟩, body := ⟨18, 29⟩ }
    let ts := (tokenize source).toOption.getD []
    Outline.ofSource source = .ok ⟨[], [d]⟩ ∧ tokenize source = .ok ts ∧
      d.WellDelimited source ts := by
  intro source d ts
  have ho : Outline.ofSource source = .ok ⟨[], [d]⟩ := by decide +kernel
  have hts : tokenize source = .ok ts := by decide +kernel
  exact ⟨ho, hts, (wellDelimited_iff ho List.mem_cons_self hts).2
    ⟨by decide +kernel, by decide +kernel, by decide +kernel⟩⟩

/-- A line in a substitution is taken for a class of the top level. -/
theorem classInSubstitution_not_wellDelimited :
    let source := "const s = \x60$\x7b\nclass A \x7b\x7d\n\x7d\x60;\n"
    let d : ClassDecl :=
      { name := some "A", decorators := [], exported := .notExported, span := ⟨14, 24⟩, body := ⟨22, 24⟩ }
    let ts := (tokenize source).toOption.getD []
    Outline.ofSource source = .ok ⟨[], [d]⟩ ∧ tokenize source = .ok ts ∧
      ¬d.WellDelimited source ts := by
  intro source d ts
  refine ⟨by decide +kernel, by decide +kernel, fun hw => ?_⟩
  exact absurd hw.before (by decide +kernel)

end Outline

end JobBundler
