import JobBundler.Proofs.Token.Nesting

/-!
# What tokens open and close

Brackets are opened and closed, and so are the substitutions of template literals, by the chunks around
them. The context of a reading counts the open braces and substitutions (`Lexeme.Reads.openAfter`). So
lexemes inside of others are read by themselves unless they close a brace or a substitution that they
do not open (`Lexeme.reads_of_around`).
-/

namespace JobBundler

/-- What tokens open and close. -/
inductive Delimiter where
  | bracket (b : Bracket)
  /-- The substitution of a template literal, between two of its chunks. -/
  | substitution
  deriving DecidableEq, Repr

/-- An opening or a closing. -/
inductive Mark where
  | opens (d : Delimiter)
  | closes (d : Delimiter)
  deriving DecidableEq, Repr

namespace Mark

/-- What a token of this kind that is written so opens and closes. A chunk of a template that goes on
after a substitution starts with the brace that closes it. -/
def ofToken (kind : TokenKind) (text : List Char) : List Mark :=
  match kind with
  | .opening b => [.opens (.bracket b)]
  | .closing b => [.closes (.bracket b)]
  | .template _ =>
    (if text.head? = some '}' then [.closes .substitution] else []) ++
      if Literal.ChunkEnd.substitution.text <:+ text then [.opens .substitution] else []
  | _ => []

/-- What the end of a chunk opens. -/
def ofChunkEnd : Literal.ChunkEnd → List Mark
  | .backtick => []
  | .substitution => [.opens .substitution]

theorem not_suffix_backtick (c : Char) (text : List Char) :
    ¬Literal.ChunkEnd.substitution.text <:+ c :: (text ++ Literal.ChunkEnd.backtick.text) := by
  rintro ⟨front, h⟩
  have hlast := congrArg List.getLast? h
  rw [← List.cons_append, Literal.ChunkEnd.text, Literal.ChunkEnd.text, List.getLast?_append,
    List.getLast?_append] at hlast
  simp at hlast

theorem ofToken_chunk (chunk : String) (c : Char) (text : List Char)
    (chunkEnd : Literal.ChunkEnd) :
    ofToken (.template chunk) (c :: (text ++ chunkEnd.text)) =
      (if c = '}' then [.closes .substitution] else []) ++ ofChunkEnd chunkEnd := by
  cases chunkEnd with
  | backtick => simp [ofToken, ofChunkEnd, not_suffix_backtick]
  | substitution =>
    have hsuffix : Literal.ChunkEnd.substitution.text <:+
        c :: (text ++ Literal.ChunkEnd.substitution.text) := ⟨c :: text, rfl⟩
    simp [ofToken, ofChunkEnd, hsuffix]

/-- How many of `d` are open after a mark when `n` were before it. -/
def count (d : Delimiter) (n : Nat) : Mark → Option Nat
  | opens d' => some (if d' = d then n + 1 else n)
  | closes d' => if d' = d then if n = 0 then none else some (n - 1) else some n

/-- The open brackets after a mark, the innermost one first. -/
def brackets : List Bracket → Mark → Option (List Bracket)
  | bs, .opens (.bracket b) => some (b :: bs)
  | [], .closes (.bracket _) => none
  | b :: bs, .closes (.bracket b') => if b = b' then some bs else none
  | bs, _ => some bs

/-- How many of `d` are open after these marks when `n` were before them, unless one more is closed. -/
def openAfter (d : Delimiter) (n : Nat) (ms : List Mark) : Option Nat :=
  ms.foldlM (count d) n

/-- The open brackets after these marks, unless a bracket is closed that is not the innermost one. -/
def bracketsAfter (bs : List Bracket) (ms : List Mark) : Option (List Bracket) :=
  ms.foldlM brackets bs

/-- No brace and no substitution is closed that was not opened here, and no substitution is left
open. -/
def CloseInside (ms : List Mark) : Prop :=
  (openAfter (.bracket .brace) 0 ms).isSome ∧ openAfter .substitution 0 ms = some 0

instance (ms : List Mark) : Decidable (CloseInside ms) :=
  inferInstanceAs (Decidable (_ ∧ _))

/-- Each closing bracket closes an opening one of its kind, and each substitution that is opened or
closed here is closed or opened here. -/
def Nested (ms : List Mark) : Prop :=
  (bracketsAfter [] ms).isSome ∧ openAfter .substitution 0 ms = some 0

instance (ms : List Mark) : Decidable (Nested ms) :=
  inferInstanceAs (Decidable (_ ∧ _))

variable {d : Delimiter} {n : Nat} {m : Mark} {ms ms' : List Mark}

@[simp] theorem openAfter_nil : openAfter d n [] = some n := rfl

@[simp] theorem openAfter_singleton : openAfter d n [m] = count d n m :=
  Option.bind_fun_some _

theorem openAfter_cons : openAfter d n (m :: ms) = (count d n m).bind (openAfter d · ms) := rfl

theorem openAfter_append :
    openAfter d n (ms ++ ms') = (openAfter d n ms).bind (openAfter d · ms') :=
  List.foldlM_append

theorem count_of_brackets {bs bs' : List Bracket} (h : brackets bs m = some bs') (b : Bracket) :
    count (.bracket b) (bs.count b) m = some (bs'.count b) := by
  rcases m with (b' | _) | (b' | _)
  · cases h
    rw [List.count_cons, count]
    split <;> simp_all
  · cases h
    simp [count]
  · rcases bs with _ | ⟨a, bs⟩
    · cases h
    · simp only [brackets] at h
      split at h
      · rename_i hab
        cases h
        subst hab
        by_cases hb : a = b
        · subst hb
          simp [count]
        · simp [count, hb]
      · cases h
  · cases h
    simp [count]

/-- Brackets that are told apart by kind are counted by kind. -/
theorem openAfter_of_bracketsAfter {bs bs' : List Bracket} (h : bracketsAfter bs ms = some bs')
    (b : Bracket) : openAfter (.bracket b) (bs.count b) ms = some (bs'.count b) := by
  induction ms generalizing bs with
  | nil =>
    cases h
    rfl
  | cons m ms ih =>
    obtain ⟨bs₁, h₁, h⟩ := Option.bind_eq_some_iff.1 h
    rw [openAfter_cons, count_of_brackets h₁]
    exact ih h

theorem Nested.closeInside (h : Nested ms) : CloseInside ms := by
  obtain ⟨bs, hbs⟩ := Option.isSome_iff_exists.1 h.1
  have hbraces := openAfter_of_bracketsAfter hbs .brace
  rw [List.count_nil] at hbraces
  exact ⟨Option.isSome_iff_exists.2 ⟨_, hbraces⟩, h.2⟩

/-- A context with as many open braces and substitutions as there are after the marks when there were
those of another context before them. -/
structure Leads (ms : List Mark) (ctx ctx' : Context) : Prop where
  depth : openAfter (.bracket .brace) ctx.depth ms = some ctx'.depth
  substitutions : openAfter .substitution ctx.substitutions.length ms =
    some ctx'.substitutions.length

theorem Leads.append {ctx ctx' ctx'' : Context} (h : Leads ms ctx ctx') (h' : Leads ms' ctx' ctx'') :
    Leads (ms ++ ms') ctx ctx'' := by
  constructor
  · rw [openAfter_append, h.depth]
    exact h'.depth
  · rw [openAfter_append, h.substitutions]
    exact h'.substitutions

/-- The marks close a brace or a substitution more than are open in the context. -/
def Exceed (ms : List Mark) (ctx : Context) : Prop :=
  openAfter (.bracket .brace) ctx.depth ms = none ∨
    openAfter .substitution ctx.substitutions.length ms = none

theorem Leads.exceed {ctx ctx' : Context} (h : Leads ms ctx ctx') (h' : Exceed ms' ctx') :
    Exceed (ms ++ ms') ctx := by
  rw [Exceed, openAfter_append, openAfter_append, h.depth, h.substitutions]
  exact h'

theorem Leads.not_exceed {ctx ctx' : Context} (h : Leads ms ctx ctx') : ¬Exceed ms ctx := by
  rw [Exceed, h.depth, h.substitutions]
  simp

theorem CloseInside.not_exceed {regexAllowed : Bool} (h : CloseInside ms) :
    ¬Exceed ms ⟨0, [], regexAllowed⟩ := by
  rintro (hdepth | hsubs)
  · have := h.1
    rw [hdepth] at this
    cases this
  · have := h.2
    rw [List.length_nil] at hsubs
    rw [hsubs] at this
    cases this

/-- Where nothing is open, nothing can be closed. -/
theorem exceed_of_isOutside {ctx : Context} (ho : ctx.IsOutside)
    (h : m = .closes (.bracket .brace) ∨ m = .closes .substitution) : Exceed (m :: ms) ctx := by
  rw [Exceed, ho.1, ho.2]
  rcases h with rfl | rfl
  · exact .inl rfl
  · exact .inr rfl

theorem leads_nil {ctx ctx' : Context} (hd : ctx'.depth = ctx.depth)
    (hs : ctx'.substitutions = ctx.substitutions) : Leads [] ctx ctx' := by
  constructor
  · rw [hd, openAfter_nil]
  · rw [hs, openAfter_nil]

end Mark

namespace Lexeme

variable {base ctx ctx' : Context} {glued : Bool} {c : Char} {cs rest : List Char} {r : Reading}
  {l last : Lexeme} {ls : List Lexeme}

open Mark (openAfter CloseInside)

/-- What the lexeme opens and closes. -/
def marks (l : Lexeme) : List Mark :=
  Mark.ofToken l.kind l.text

/-! ## Contexts count -/

theorem leads_afterChunk (ctx : Context) (chunkEnd : Literal.ChunkEnd) :
    Mark.Leads (Mark.ofChunkEnd chunkEnd) ctx (afterChunk ctx chunkEnd) := by
  cases chunkEnd with
  | backtick => exact Mark.leads_nil rfl rfl
  | substitution => exact ⟨rfl, rfl⟩

/-- Only parentheses and square brackets, of all punctuators, open or close something. -/
theorem leads_after_punctuator (ctx : Context) (glued : Bool) (text : List Char) :
    Mark.Leads (Mark.ofToken (Punctuator.kind text) text) ctx
      (ctx.after glued (Punctuator.kind text)) := by
  unfold Punctuator.kind
  split
  all_goals
    constructor
    · simp [Mark.ofToken, Mark.count, Context.after]
    · simp [Mark.ofToken, Mark.count, Context.after]

/-- A token leads from the context before it to the one after it. -/
theorem leads_read (h : read ctx glued c cs = .ok r) :
    Mark.Leads (Mark.ofToken r.kind r.text) ctx r.context := by
  cases read_eq_ok h with
  | name | number | string | privateName | regex => exact Mark.leads_nil rfl rfl
  | chunk hc =>
    rw [Mark.ofToken_chunk, hc]
    exact leads_afterChunk ctx _
  | nextChunk hc hs =>
    obtain ⟨ss, hss⟩ := List.head?_eq_some_iff.1 hs
    rw [Mark.ofToken_chunk, if_pos hc]
    refine Mark.Leads.append ⟨?_, ?_⟩ (leads_afterChunk _ _)
    · simp [Mark.count]
    · simp [Mark.count, hss]
  | openingBrace => exact ⟨rfl, rfl⟩
  | closingBrace _ _ hd =>
    constructor
    · simp [Mark.ofToken, Mark.count, hd]
    · simp [Mark.ofToken, Mark.count, Context.after]
  | punctuator _ hkind =>
    subst hkind
    exact leads_after_punctuator ctx glued _

theorem leads_next (h : next ctx cs = .ok (.lexeme l ctx' rest)) : Mark.Leads l.marks ctx ctx' := by
  obtain ⟨c, tl, htext, -, hread⟩ := next_eq_ok h
  rw [marks, htext]
  exact leads_read hread

/-- Lexemes lead from the context before them to the one after them. -/
theorem Reads.leads (h : Reads rest ctx ls ctx') : Mark.Leads (ls.flatMap marks) ctx ctx' := by
  induction h with
  | nil => exact Mark.leads_nil rfl rfl
  | cons head _ ih => exact (leads_next head).append ih

/-! ## Lexemes inside of others -/

/-- A brace at the front of a token closes the substitution that started last if no other brace is
open in it. -/
theorem marks_of_brace (h : next ctx cs = .ok (.lexeme l ctx' rest)) (hl : l.text.head? = some '}') :
    ∃ ms, l.marks = (if ctx.substitutions.head? = some ctx.depth then .closes .substitution
      else .closes (.bracket .brace)) :: ms := by
  obtain ⟨c, tl, htext, -, hread⟩ := next_eq_ok h
  obtain rfl : c = '}' := by simpa [htext] using hl
  have hread' : readClosingBrace ctx (tl ++ rest) = .ok ⟨l.kind, '}' :: tl, ctx', rest⟩ := hread
  rw [marks, htext]
  unfold readClosingBrace at hread'
  split at hread'
  · rename_i hs
    obtain ⟨text, chunkEnd, more, -, hr⟩ := readChunk_eq_ok hread'
    simp only [Reading.mk.injEq] at hr
    obtain ⟨hkind, htl, -⟩ := hr
    rw [hkind, htl, Mark.ofToken_chunk, if_pos rfl, if_pos hs]
    exact ⟨_, rfl⟩
  · rename_i hs
    split at hread'
    · cases hread'
    · simp only [Except.ok.injEq, Reading.mk.injEq] at hread'
      rw [← hread'.1, if_neg hs]
      exact ⟨[], rfl⟩

/-- A brace that closes what is open around a context is none in the context by itself. -/
theorem error_of_closes (h : next (base.around ctx) cs = .ok (.lexeme l ctx' rest))
    (hl : l.text.head? = some '}') (ho : ctx.IsOutside) (rest' : List Char) :
    ∃ f, lexemesFrom ctx (l.source ++ rest') = .error f := by
  obtain ⟨c, tl, htext, hgap, -⟩ := next_eq_ok h
  obtain rfl : c = '}' := by simpa [htext] using hl
  have hgap' : Trivia.gap (l.source ++ rest') = .ok (l.gap, '}' :: (tl ++ rest')) := by
    rw [source, htext, List.append_assoc]
    exact Trivia.gap_append_of hgap (fun h => by cases h)
  obtain ⟨f, hf⟩ := next_of_isOutside hgap' ho
  exact ⟨f, lexemesFrom_of_error hf⟩

/-- Lexemes that are read inside of some context are read in the context by itself, or they close more
than is open in it and cannot be read, whatever follows. -/
theorem reads_of_around (hb : base.Nested) (hn : ctx.Nested)
    (h : Reads rest (base.around ctx) ls ctx') :
    (∃ ctx₁, Reads rest ctx ls ctx₁) ∨
      Mark.Exceed (ls.flatMap marks) ctx ∧
        ∀ rest', SameFront (sources ls ++ rest) (sources ls ++ rest') ∧
          ∃ f, lexemesFrom ctx (sources ls ++ rest') = .error f := by
  rcases h.of_around hb hn with
    ⟨ctx₁, -, hreads⟩ | ⟨ms, u, bs, ctx₁, ctx₂, rfl, hreads, ho, hclose, hnext⟩
  · exact .inl ⟨ctx₁, hreads⟩
  · obtain ⟨more, hmarks⟩ := marks_of_brace hnext hclose
    refine .inr ⟨?_, fun rest' => ?_⟩
    · rw [List.flatMap_append, List.flatMap_cons, hmarks]
      exact hreads.leads.exceed (Mark.exceed_of_isOutside ho (ite_eq_or_eq ..).symm)
    · have hfront : SameFront (sources (u :: bs) ++ rest) (sources (u :: bs) ++ rest') := by
        rw [sources_cons, List.append_assoc, List.append_assoc]
        exact sameFront_source (by rw [hclose]; rfl) _ _
      obtain ⟨f, hf⟩ := error_of_closes hnext hclose ho (sources bs ++ rest')
      rw [← List.append_assoc, ← sources_cons] at hf
      rw [sources_append, List.append_assoc, List.append_assoc]
      refine ⟨hfront.append _, f.after (sources ms), ?_⟩
      rw [(hreads.of_sameFront hfront).lexemesFrom_eq, hf]

end Lexeme
end JobBundler
