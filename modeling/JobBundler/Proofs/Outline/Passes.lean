import JobBundler.Outline.Parser
import Mathlib.Data.List.Infix
import Mathlib.Tactic.Common

/-!
# What is left of the tokens

Every reading function takes tokens off the front of those that it is given, and as many brackets are open
after them as before (`Passes`), but for those that it is called inside of.
-/

namespace JobBundler

variable {c c' : Cursor} {ts us vs : List Token} {t : Token} {n m k : Nat}

def TokenKind.isOpening : TokenKind → Bool
  | .opening _ => true
  | _ => false

theorem TokenKind.isOpening_eq_false {kind : TokenKind} (h : ∀ b, kind = .opening b → False) :
    kind.isOpening = false := by
  cases kind with
  | opening b => exact (h b rfl).elim
  | _ => rfl

theorem Token.isOpening_of_isWord {word : String} (h : t.isWord word) : t.kind.isOpening = false := by
  obtain h : t.kind = .ident word := by simpa [isWord] using h
  rw [h]
  rfl

theorem Token.isOpening_of_name? {name : String} (h : t.name? = some name) :
    t.kind.isOpening = false := by
  unfold name? at h
  split at h
  · rename_i ht
    rw [ht]
    rfl
  · cases h

/-- With at most the first number of brackets open at the first tokens, at most the second number are open
at the second ones, which end the first ones. Brackets are counted and not told apart, and a closing one
may be passed over. -/
inductive Passes : Nat → List Token → Nat → List Token → Prop
  | refl {n : Nat} {ts : List Token} : Passes n ts n ts
  | opens {n m : Nat} {t : Token} {ts us : List Token} {b : Bracket} (ht : t.kind = .opening b)
    (h : Passes (n + 1) ts m us) : Passes n (t :: ts) m us
  | closes {n m : Nat} {t : Token} {ts us : List Token} {b : Bracket} (ht : t.kind = .closing b)
    (h : Passes n ts m us) : Passes (n + 1) (t :: ts) m us
  | other {n m : Nat} {t : Token} {ts us : List Token} (ht : t.kind.isOpening = false)
    (h : Passes n ts m us) : Passes n (t :: ts) m us

namespace Passes

theorem trans (h : Passes n ts m us) (h' : Passes m us k vs) : Passes n ts k vs := by
  induction h with
  | refl => exact h'
  | opens ht _ ih => exact .opens ht (ih h')
  | closes ht _ ih => exact .closes ht (ih h')
  | other ht _ ih => exact .other ht (ih h')

theorem suffix (h : Passes n ts m us) : us <:+ ts := by
  induction h with
  | refl => exact List.suffix_rfl
  | opens _ _ ih | closes _ _ ih | other _ _ ih => exact ih.trans (List.suffix_cons _ _)

end Passes

namespace Cursor

theorem advance_suffix (c : Cursor) : c.advance.tokens <:+ c.tokens := by
  unfold advance
  split
  · exact List.suffix_rfl
  · rename_i t ts h
    rw [h]
    exact List.suffix_cons t ts

theorem advance_of_eq_cons (h : c.tokens = t :: ts) : c.advance = .past t ts := by
  rw [advance, h]

theorem exists_of_atKind {kind : TokenKind} (h : c.atKind kind) :
    ∃ t ts, c.tokens = t :: ts ∧ t.kind = kind := by
  unfold atKind at h
  cases hc : c.tokens with
  | nil => simp [hc] at h
  | cons t ts => exact ⟨t, ts, rfl, by simpa [hc] using h⟩

theorem advance_passes (h : c.tokens = t :: ts) (ht : t.kind.isOpening = false) (n : Nat) :
    Passes n c.tokens n c.advance.tokens := by
  rw [advance_of_eq_cons h, h]
  exact .other ht .refl

theorem advance_passes_of_atKind {kind : TokenKind} (h : c.atKind kind) (hk : kind.isOpening = false)
    (n : Nat) : Passes n c.tokens n c.advance.tokens := by
  obtain ⟨t, ts, hc, rfl⟩ := exists_of_atKind h
  exact advance_passes hc hk n

theorem advance_opens {b : Bracket} (h : c.atKind (.opening b)) (n : Nat) :
    Passes n c.tokens (n + 1) c.advance.tokens := by
  obtain ⟨t, ts, hc, ht⟩ := exists_of_atKind h
  rw [advance_of_eq_cons hc, hc]
  exact .opens ht .refl

theorem advance_closes {b : Bracket} (h : c.atKind (.closing b)) (n : Nat) :
    Passes (n + 1) c.tokens n c.advance.tokens := by
  obtain ⟨t, ts, hc, ht⟩ := exists_of_atKind h
  rw [advance_of_eq_cons hc, hc]
  exact .closes ht .refl

theorem skipKind_passes {kind : TokenKind} (hk : kind.isOpening = false) (c : Cursor) (n : Nat) :
    Passes n c.tokens n (c.skipKind kind).tokens := by
  unfold skipKind
  split
  · exact advance_passes_of_atKind ‹_› hk n
  · exact .refl

theorem expectWord_passes {word : String} (h : c.expectWord word = .ok c') (n : Nat) :
    Passes n c.tokens n c'.tokens := by
  unfold expectWord at h
  split at h <;> cases h
  exact advance_passes_of_atKind ‹_› rfl n

theorem expectName_passes {expected : Expectation} {name : String}
    (h : c.expectName expected = .ok (name, c')) (n : Nat) : Passes n c.tokens n c'.tokens := by
  unfold expectName at h
  split at h <;> cases h
  exact advance_passes ‹_› rfl n

theorem expectString_passes {expected : Expectation} {value : String}
    (h : c.expectString expected = .ok (value, c')) (n : Nat) : Passes n c.tokens n c'.tokens := by
  unfold expectString at h
  split at h <;> cases h
  exact advance_passes ‹_› rfl n

end Cursor

/-- A group closes the brackets that are open inside of it, and its own. -/
theorem skipGroup_passes {inner : Nat} (h : skipGroup inner ts = .ok c) (n : Nat) :
    Passes (n + inner + 1) ts n c.tokens := by
  fun_induction skipGroup inner ts with
  | case1 => cases h
  | case2 t ts inner b ht ih => exact .opens ht (ih h)
  | case3 t ts b ht =>
    cases h
    exact .closes ht .refl
  | case4 t ts inner b ht ih => exact .closes ht (ih h)
  | case5 t ts inner ho _ _ ih =>
    exact .other (TokenKind.isOpening_eq_false ho) (ih h)

/-! ## Statements and classes -/

theorem afterClassKeyword?_passes (h : afterClassKeyword? ts = some c) (n : Nat) :
    Passes n ts n c.tokens := by
  unfold afterClassKeyword? at h
  split at h
  · split at h
    · rename_i hclass
      cases h
      exact .other (Token.isOpening_of_isWord hclass) .refl
    · split at h
      · split at h <;> cases h
        rename_i hwords
        simp only [Bool.and_eq_true] at hwords
        exact .other (Token.isOpening_of_isWord hwords.1.1)
          (.other (Token.isOpening_of_isWord hwords.1.2) .refl)
      · cases h
  · cases h

theorem skipStatementRest_passes (h : skipStatementRest c = .ok c') (n : Nat) :
    Passes n c.tokens n c'.tokens := by
  fun_induction skipStatementRest c with
  | case1 | case2 =>
    cases h
    exact .refl
  | case3 _ t ts hc _ ht =>
    cases h
    rw [hc]
    exact .other (by rw [ht]; rfl) .refl
  | case4 => cases h
  | case5 _ t ts hc _ _ ht c₁ hg ih =>
    rw [hc]
    exact .opens ht ((skipGroup_passes hg n).trans (ih h))
  | case6 => cases h
  | case7 _ t ts hc _ _ ho _ ih =>
    rw [hc]
    exact .other (TokenKind.isOpening_eq_false ho) (ih h)

theorem skipStatement_passes (h : skipStatement t ts = .ok c) (n : Nat) :
    Passes n (t :: ts) n c.tokens := by
  unfold skipStatement at h
  split at h
  · rename_i ht
    cases h
    exact .other (by rw [ht]; rfl) .refl
  · rename_i ht
    obtain ⟨c₁, h₁, h⟩ := Except.bind_eq_ok_iff.1 h
    exact .opens ht ((skipGroup_passes h₁ n).trans (skipStatementRest_passes h n))
  · cases h
  · rename_i ho _
    exact .other (TokenKind.isOpening_eq_false ho) (skipStatementRest_passes h n)

theorem dottedName_passes {name : String} (h : dottedName ts = .ok (name, c)) (n : Nat) :
    Passes n ts n c.tokens := by
  fun_induction dottedName ts generalizing name c with
  | case1 => cases h
  | case2 => cases h
  | case3 t word d us hname hd ih =>
    obtain ⟨⟨more, c'⟩, hm, hc⟩ := Except.bind_eq_ok_iff.1 h
    cases hc
    exact .other (Token.isOpening_of_name? hname) (.other (by rw [hd]; rfl) (ih hm))
  | case4 | case5 =>
    cases h
    exact .other (Token.isOpening_of_name? ‹_›) .refl

theorem decoratorArgs_passes {current : Option DecoratorArg} {args : List DecoratorArg}
    (h : decoratorArgs current ts = .ok (args, c)) (n : Nat) : Passes (n + 1) ts n c.tokens := by
  fun_induction decoratorArgs current ts generalizing args c with
  | case1 => cases h
  | case2 current t ts ht =>
    cases h
    exact .closes ht .refl
  | case3 current t ts ht ih =>
    obtain ⟨⟨more, c'⟩, hm, hc⟩ := Except.bind_eq_ok_iff.1 h
    cases hc
    exact .other (by rw [ht]; rfl) (ih hm)
  | case4 => cases h
  | case5 current t ts b ht c' hg ih =>
    exact .opens ht ((skipGroup_passes hg (n + 1)).trans (ih h))
  | case6 current t ts _ _ ho ih => exact .other (TokenKind.isOpening_eq_false ho) (ih h)

theorem decorator_passes {start : Nat} {d : Decorator} (h : decorator start c = .ok (d, c')) (n : Nat) :
    Passes n c.tokens n c'.tokens := by
  cases decorator_eq_ok h with
  | computed hc hgroup =>
    rw [hc]
    exact .opens rfl (skipGroup_passes hgroup n)
  | called hname hc hargs =>
    have hn := dottedName_passes hname n
    rw [hc] at hn
    exact hn.trans (.opens rfl (decoratorArgs_passes hargs n))
  | plain hname => exact dottedName_passes hname n

theorem decorators_passes {ds : List Decorator} (h : decorators c = .ok (ds, c')) (n : Nat) :
    Passes n c.tokens n c'.tokens := by
  fun_induction decorators c generalizing ds c' with
  | case1 => cases h
  | case2 _ t ts hc ht d c₁ hd ih =>
    obtain ⟨⟨ds', c₂⟩, h₂, h⟩ := Except.bind_eq_ok_iff.1 h
    cases h
    rw [hc]
    exact .other (by rw [ht]; rfl) ((decorator_passes hd n).trans (ih h₂))
  | case3 | case4 =>
    cases h
    exact .refl

/-- What is skipped before the body of a class. -/
theorem classHeritage_passes {angles : Nat} (h : classHeritage angles ts = .ok (t, us)) :
    t.kind = .opening .brace ∧ ∀ n, Passes n ts n (t :: us) := by
  fun_induction classHeritage angles ts with
  | case2 _ t ts b ht hbrace =>
    cases h
    rw [hbrace.1] at ht
    exact ⟨ht, fun n => .refl⟩
  | case4 _ t ts b ht _ c hg ih =>
    exact ⟨(ih h).1, fun n => .opens ht ((skipGroup_passes hg n).trans ((ih h).2 n))⟩
  | case1 | case3 | case5 | case6 => cases h
  | _ =>
    rename_i ih
    refine ⟨(ih h).1, fun n => .other (TokenKind.isOpening_eq_false ?_) ((ih h).2 n)⟩
    simp_all

theorem className?_passes (c : Cursor) (n : Nat) :
    Passes n c.tokens n (if (className? c).isSome then c.advance else c).tokens := by
  split
  · rename_i h
    unfold className? at h
    split at h
    · exact Cursor.advance_passes ‹_› rfl n
    · cases h
  · exact .refl

theorem classRest_passes {start : Nat} {ds : List Decorator} {how : ExportKind} {decl : ClassDecl}
    (h : classRest start ds how c = .ok (decl, c')) (n : Nat) : Passes n c.tokens n c'.tokens := by
  cases classRest_eq_ok h with
  | intro _ hheritage hbody =>
    obtain ⟨hbrace, hp⟩ := classHeritage_passes hheritage
    exact ((className?_passes c n).trans (hp n)).trans (.opens hbrace (skipGroup_passes hbody n))

theorem exported_passes {start : Nat} {ds : List Decorator} {how : ExportKind}
    {decl : Option ClassDecl} (h : exported start ds how c = .ok (decl, c')) (n : Nat) :
    Passes n c.tokens n c'.tokens := by
  cases exported_eq_ok h with
  | plain hkeyword hrest =>
    exact (afterClassKeyword?_passes hkeyword n).trans (classRest_passes hrest n)
  | nothing => exact .refl
  | skipped _ _ hc hskip =>
    rw [hc]
    exact skipStatement_passes hskip n

/-- A word that may be left out. -/
theorem Cursor.optionalWord_passes (c : Cursor) (word : String) (n : Nat) :
    Passes n c.tokens n (if c.atWord word then c.advance else c).tokens := by
  split
  · exact advance_passes_of_atKind ‹_› rfl n
  · exact .refl

theorem exportRest_passes {start : Nat} {before : List Decorator} {decl : Option ClassDecl}
    (h : exportRest start before c = .ok (decl, c')) (n : Nat) : Passes n c.tokens n c'.tokens := by
  unfold exportRest at h
  obtain ⟨⟨own, c₁⟩, h₁, h⟩ := Except.bind_eq_ok_iff.1 h
  exact ((c.optionalWord_passes "default" n).trans (decorators_passes h₁ n)).trans (exported_passes h n)

theorem decoratedRest_passes {ds : List Decorator} {decl : Option ClassDecl}
    (h : decoratedRest ds c = .ok (decl, c')) (n : Nat) : Passes n c.tokens n c'.tokens := by
  cases decoratedRest_eq_ok h with
  | exporting hexport hrest =>
    exact (Cursor.advance_passes_of_atKind hexport rfl n).trans (exportRest_passes hrest n)
  | plain _ hkeyword hrest =>
    exact (afterClassKeyword?_passes hkeyword n).trans (classRest_passes hrest n)

/-! ## Outlines -/

namespace Outline

theorem ofTokens_of_item {t : Token} {ts : List Token} {i : Option Item}
    (h : item t ts = .ok (i, c)) :
    ofTokens (t :: ts) = ofTokens c.tokens >>= fun o => .ok (o.cons i) := by
  rw [ofTokens]
  split
  · rename_i h'
    rw [h] at h'
    cases h'
  · rename_i h'
    rw [h] at h'
    cases h'
    rfl

theorem exists_item_of_ofTokens {t : Token} {ts : List Token} {o : Outline}
    (h : ofTokens (t :: ts) = .ok o) : ∃ x, item t ts = .ok x := by
  rw [ofTokens] at h
  split at h
  · cases h
  · exact ⟨_, ‹_›⟩

theorem ofTokens_nil : ofTokens [] = .ok ∅ := by
  rw [ofTokens]

end Outline

end JobBundler
