import JobBundler.Proofs.Token.Lossless
import Mathlib.Data.List.Basic
import Mathlib.Data.List.Induction

/-!
# Substitutions

The chunks of templates around substitutions come in pairs, like brackets, and the braces between the two
of a pair are nested (`tokenize_wellNested`).
-/

namespace JobBundler

open Lexeme (sources)
open Mark (openAfter)

/-! ## Counts -/

namespace Mark

variable {d : Delimiter} {n k : Nat} {m : Mark} {front inside ms : List Mark}

theorem count_add (h : count d n m = some k) (i : Nat) : count d (n + i) m = some (k + i) := by
  cases m with
  | opens d' =>
    cases h
    rw [count]
    split <;> congr 1
    omega
  | closes d' =>
    rw [count] at h ⊢
    split at h
    · rename_i hd
      split at h <;> cases h
      rw [if_pos hd, if_neg (by omega)]
      congr 1
      omega
    · rename_i hd
      cases h
      rw [if_neg hd]

/-- What was open before stays open. -/
theorem openAfter_add (h : openAfter d n ms = some k) (i : Nat) :
    openAfter d (n + i) ms = some (k + i) := by
  induction ms generalizing n with
  | nil =>
    cases h
    rfl
  | cons m ms ih =>
    obtain ⟨n', hm, hms⟩ := Option.bind_eq_some_iff.1 h
    rw [openAfter_cons, count_add hm]
    exact ih hms

theorem openAfter_opens (h : openAfter d 0 ms = some k) (n : Nat) :
    openAfter d n (.opens d :: ms) = some (k + (n + 1)) := by
  have hadd := openAfter_add h (n + 1)
  rw [Nat.zero_add] at hadd
  rw [openAfter_cons, count, if_pos rfl]
  exact hadd

theorem openAfter_closes (ms : List Mark) : openAfter d 0 (.closes d :: ms) = none := by
  rw [openAfter_cons, count, if_pos rfl, if_pos rfl]
  rfl

/-- What is open is what was opened and not closed. -/
theorem openAfter_count (h : openAfter d n ms = some k) :
    n + ms.count (.opens d) = k + ms.count (.closes d) := by
  induction ms generalizing n with
  | nil =>
    cases h
    rfl
  | cons m ms ih =>
    obtain ⟨n', hm, hms⟩ := Option.bind_eq_some_iff.1 h
    have hcount := ih hms
    rw [List.count_cons, List.count_cons]
    cases m with
    | opens d' =>
      cases hm
      by_cases hd : d' = d
      · simp_all
        omega
      · simp_all
    | closes d' =>
      rw [count] at hm
      by_cases hd : d' = d
      · subst hd
        rw [if_pos rfl] at hm
        split at hm <;> cases hm
        simp
        omega
      · rw [if_neg hd] at hm
        cases hm
        simp [hd]
        omega

/-- Nowhere has more been closed than opened. -/
theorem count_closes_le (h : (openAfter d 0 ms).isSome) (hfront : front <+: ms) :
    front.count (.closes d) ≤ front.count (.opens d) := by
  obtain ⟨back, rfl⟩ := hfront
  obtain ⟨k, h⟩ := Option.isSome_iff_exists.1 h
  rw [openAfter_append] at h
  obtain ⟨n, hn, -⟩ := Option.bind_eq_some_iff.1 h
  have := openAfter_count hn
  omega

/-- For each of those that are open there is the place where it was opened, the last one at its level. -/
theorem exists_opens {i : Nat} (h : openAfter d 0 ms = some n) (hi : i < n) :
    ∃ front inside, ms = front ++ .opens d :: inside ∧ openAfter d 0 inside = some i := by
  induction ms using List.reverseRecOn generalizing n i with
  | nil =>
    cases h
    cases hi
  | append_singleton ms m ih =>
    rw [openAfter_append] at h
    obtain ⟨k, hk, hm⟩ := Option.bind_eq_some_iff.1 h
    rw [openAfter_singleton] at hm
    -- What is opened at a level stays the last one of this level unless the mark itself opens it.
    have hbefore {j : Nat} (hj : j < k) (hcount : count d j m = some i) :
        ∃ front inside, ms ++ [m] = front ++ .opens d :: inside ∧ openAfter d 0 inside = some i := by
      obtain ⟨front, inside, rfl, hinside⟩ := ih hk hj
      refine ⟨front, inside ++ [m], List.append_assoc .., ?_⟩
      rw [openAfter_append, hinside]
      exact openAfter_singleton.trans hcount
    cases m with
    | opens d' =>
      by_cases hd : d' = d
      · subst hd
        simp only [count, if_pos, Option.some.injEq] at hm
        cases i with
        | zero => exact ⟨ms, [], rfl, rfl⟩
        | succ i => exact hbefore (j := i) (by omega) (by rw [count, if_pos rfl])
      · rw [count, if_neg hd] at hm
        cases hm
        exact hbefore hi (by rw [count, if_neg hd])
    | closes d' =>
      rw [count] at hm
      by_cases hd : d' = d
      · subst hd
        rw [if_pos rfl] at hm
        split at hm <;> cases hm
        refine hbefore (j := i + 1) (by omega) ?_
        rw [count, if_pos rfl, if_neg (Nat.succ_ne_zero i), Nat.add_sub_cancel]
      · rw [if_neg hd] at hm
        cases hm
        exact hbefore hi (by rw [count, if_neg hd])

/-- A chunk that a substitution follows opens it last of all. -/
theorem eq_nil_of_ofToken {kind : TokenKind} {text : List Char}
    (h : ofToken kind text = front ++ .opens .substitution :: ms) : ms = [] := by
  cases kind with
  | template chunk =>
    simp only [ofToken] at h
    rcases front with _ | ⟨m, _ | ⟨m', front⟩⟩ <;> split at h <;> split at h <;> simp_all
  | opening b | closing b => simp [ofToken, List.cons_eq_append_iff] at h
  | _ => simp [ofToken] at h

theorem exists_template_of_mem {kind : TokenKind} {text : List Char}
    (h : .opens .substitution ∈ ofToken kind text) : ∃ chunk, kind = .template chunk := by
  cases kind with
  | template chunk => exact ⟨chunk, rfl⟩
  | opening b | closing b => simp [ofToken] at h
  | _ => cases h

end Mark

/-! ## Lexemes -/

namespace Lexeme

variable {ctx ctx' : Context} {glued : Bool} {c : Char} {cs rest : List Char} {r : Reading}
  {l : Lexeme} {ls : List Lexeme}

theorem head?_afterChunk (ctx : Context) {chunkEnd : Literal.ChunkEnd}
    (h : .opens .substitution ∈ Mark.ofChunkEnd chunkEnd) :
    (afterChunk ctx chunkEnd).substitutions.head? = some (afterChunk ctx chunkEnd).depth := by
  cases chunkEnd with
  | backtick => cases h
  | substitution => rfl

/-- After a chunk that a substitution follows, the substitution has just started. -/
theorem head?_of_read (h : read ctx glued c cs = .ok r)
    (hr : .opens .substitution ∈ Mark.ofToken r.kind r.text) :
    r.context.substitutions.head? = some r.context.depth := by
  obtain ⟨chunk, hkind⟩ := Mark.exists_template_of_mem hr
  cases read_eq_ok h with
  | chunk | nextChunk =>
    refine head?_afterChunk _ ?_
    rw [Mark.ofToken_chunk] at hr
    refine (List.mem_append.1 hr).resolve_left fun hmem => ?_
    split at hmem <;> simp at hmem
  | punctuator _ hpunctuator => exact absurd (hpunctuator.trans hkind) (Punctuator.kind_ne rfl _)
  | _ => cases hkind

/-- After a chunk that a substitution follows, there is the one that goes on after it, where all braces
and substitutions are closed that were opened in between. -/
theorem Reads.closed_of_opens (hn : ctx.Nested) (h : Reads rest ctx (l :: ls) ctx')
    (hl : .opens .substitution ∈ l.marks) (hend : ctx'.substitutions = []) :
    ∃ ms u bs more, ls = ms ++ u :: bs ∧ u.marks = .closes .substitution :: more ∧
      openAfter (.bracket .brace) 0 (ms.flatMap marks) = some 0 ∧
      openAfter .substitution 0 (ms.flatMap marks) = some 0 := by
  cases h with
  | @cons _ base _ _ _ head tail =>
    have hbase := nested_next head hn
    have hs : base.substitutions.head? = some base.depth := by
      obtain ⟨c, tl, htext, -, hread⟩ := next_eq_ok head
      rw [marks, htext] at hl
      exact head?_of_read hread hl
    have htail : Reads rest (base.around ⟨0, [], base.regexAllowed⟩) ls ctx' := by
      rwa [Context.around_nil]
    rcases htail.of_around hbase (Context.nested_nil _) with
      ⟨ctx₁, rfl, -⟩ | ⟨ms, u, bs, ctx₁, ctx₂, rfl, hreads, ⟨hdepth, hsubs⟩, hclose, hnext⟩
    · have hnil := (List.append_eq_nil_iff.1 hend).2
      rw [hnil] at hs
      cases hs
    · have hleads := hreads.leads
      have hu : (base.around ctx₁).substitutions.head? = some (base.around ctx₁).depth := by
        simpa [Context.around, hdepth, hsubs] using hs
      obtain ⟨more, hmore⟩ := marks_of_brace hnext hclose
      rw [if_pos hu] at hmore
      refine ⟨ms, u, bs, more, rfl, hmore, ?_, ?_⟩
      · have := hleads.depth
        rwa [hdepth] at this
      · have := hleads.substitutions
        rwa [hsubs] at this

end Lexeme

namespace Lexing

theorem flatMap_marks_prepend (front : List Char) (x : Lexing) :
    (x.prepend front).lexemes.flatMap Lexeme.marks = x.lexemes.flatMap Lexeme.marks := by
  unfold prepend
  split
  · rfl
  · rename_i l ls hls
    rw [hls]
    rfl

theorem leads_of_lexemesFrom {ctx : Context} {cs : List Char} {x : Lexing}
    (h : lexemesFrom ctx cs = .ok x) (front : List Char) :
    Mark.Leads ((x.prepend front).lexemes.flatMap Lexeme.marks) ctx (x.prepend front).context := by
  rw [flatMap_marks_prepend, context_prepend]
  exact (Lexeme.reads_of_lexemesFrom h).leads

theorem leads_of_ofSource {cs : List Char} {y : Lexing} (h : ofSource cs = .ok y) :
    Mark.Leads (y.lexemes.flatMap Lexeme.marks) .initial y.context ∧ y.context.substitutions = [] := by
  obtain ⟨x, hx, rfl, hsubs⟩ := ofSource_eq_ok_iff.1 h
  exact ⟨leads_of_lexemesFrom hx _, hsubs⟩

end Lexing

/-! ## Tokens -/

namespace Token

/-- A chunk of a template that a substitution follows. -/
def StartsSubstitution (source : String) (t : Token) : Prop :=
  (∃ chunk, t.kind = .template chunk) ∧
    Literal.ChunkEnd.substitution.text <:+ (t.span.slice source).toList

/-- A chunk of a template that goes on after a substitution. -/
def EndsSubstitution (source : String) (t : Token) : Prop :=
  (∃ chunk, t.kind = .template chunk) ∧ (t.span.slice source).toList.head? = some '}'

/-- The tokens of a substitution, between the chunks around it. Each substitution that starts inside
ends there. -/
structure IsSubstitution (source : String) (ts : List Token) (before : Token) (inside : List Token)
    (after : Token) : Prop where
  among : before :: (inside ++ [after]) <:+: ts
  starts : before.StartsSubstitution source
  ends : after.EndsSubstitution source
  closed : openAfter .substitution 0 (inside.flatMap (marks source)) = some 0

/-- Nowhere have more braces been closed than opened. -/
def BracesNested (ts : List Token) : Prop :=
  ∀ front, front <+: ts →
    front.countP (·.kind = .closing .brace) ≤ front.countP (·.kind = .opening .brace)

/-- Braces are nested, and so are the substitutions, each one between two chunks of its own, in which all
braces are closed that are opened there. -/
structure WellNested (source : String) (ts : List Token) : Prop where
  braces : BracesNested ts
  starts : ∀ t ∈ ts, t.StartsSubstitution source →
    ∃! p : List Token × Token, IsSubstitution source ts t p.1 p.2
  ends : ∀ t ∈ ts, t.EndsSubstitution source →
    ∃! p : Token × List Token, IsSubstitution source ts p.1 p.2 t
  inside : ∀ before inside after, IsSubstitution source ts before inside after → BracesNested inside ∧
    inside.countP (·.kind = .closing .brace) = inside.countP (·.kind = .opening .brace)

variable {source : String} {ts front back inside inside' : List Token} {t u : Token}

theorem startsSubstitution_iff : t.StartsSubstitution source ↔ .opens .substitution ∈ t.marks source := by
  rw [StartsSubstitution, marks]
  cases t.kind <;> simp [Mark.ofToken]

theorem endsSubstitution_iff :
    t.EndsSubstitution source ↔ ∃ ms, t.marks source = .closes .substitution :: ms := by
  rw [EndsSubstitution, marks]
  cases t.kind with
  | template chunk =>
    simp only [Mark.ofToken, TokenKind.template.injEq, exists_eq', true_and]
    split <;> split <;> simp_all
  | _ => simp [Mark.ofToken]

theorem exists_marks (h : t.StartsSubstitution source) :
    ∃ ms, t.marks source = ms ++ [.opens .substitution] := by
  obtain ⟨ms, more, hms⟩ := List.append_of_mem (startsSubstitution_iff.1 h)
  obtain rfl := Mark.eq_nil_of_ofToken hms
  exact ⟨ms, hms⟩

/-- What opens a substitution is the last one of the marks of some token. -/
theorem exists_startsSubstitution {before inner : List Mark}
    (h : ts.flatMap (marks source) = before ++ .opens .substitution :: inner) :
    ∃ front t inside, ts = front ++ t :: inside ∧ t.StartsSubstitution source ∧
      inside.flatMap (marks source) = inner := by
  induction ts generalizing before with
  | nil => simp at h
  | cons t ts ih =>
    have hlater (before : List Mark)
        (h : ts.flatMap (marks source) = before ++ .opens .substitution :: inner) :
        ∃ front u inside, t :: ts = front ++ u :: inside ∧ u.StartsSubstitution source ∧
          inside.flatMap (marks source) = inner := by
      obtain ⟨front, u, inside, rfl, hu⟩ := ih h
      exact ⟨t :: front, u, inside, rfl, hu⟩
    rw [List.flatMap_cons] at h
    rcases List.append_eq_append_iff.1 h with ⟨more, -, hmore⟩ | ⟨more, hmarks, hmore⟩
    · exact hlater more hmore
    · cases more with
      | nil => exact hlater [] hmore.symm
      | cons m more =>
        obtain ⟨rfl, rfl⟩ := List.cons.inj hmore
        obtain rfl := Mark.eq_nil_of_ofToken hmarks
        refine ⟨[], t, ts, rfl, startsSubstitution_iff.2 ?_, rfl⟩
        rw [hmarks]
        exact List.mem_append_right _ List.mem_cons_self

/-! ## Pairs of chunks -/

theorem openAfter_of_ends (h : openAfter .substitution 0 (inside.flatMap (marks source)) = some 0)
    (ht : t.EndsSubstitution source) (back : List Token) :
    openAfter .substitution 0 ((inside ++ t :: back).flatMap (marks source)) = none := by
  obtain ⟨ms, hms⟩ := endsSubstitution_iff.1 ht
  rw [List.flatMap_append, List.flatMap_cons, hms, Mark.openAfter_append, h]
  exact Mark.openAfter_closes _

theorem openAfter_of_starts (h : openAfter .substitution 0 (inside.flatMap (marks source)) = some 0)
    (ht : t.StartsSubstitution source) (front : List Token) :
    openAfter .substitution 0 ((front ++ t :: inside).flatMap (marks source)) ≠ some 0 := by
  obtain ⟨ms, hms⟩ := exists_marks ht
  rw [List.flatMap_append, List.flatMap_cons, hms, List.append_assoc, ← List.append_assoc,
    Mark.openAfter_append]
  intro heq
  obtain ⟨k, -, hk⟩ := Option.bind_eq_some_iff.1 heq
  rw [List.singleton_append, Mark.openAfter_opens h] at hk
  cases hk

/-- The chunk after a substitution is the first one that could be it. -/
theorem inside_unique {back' : List Token} (h : inside ++ t :: back = inside' ++ u :: back')
    (hin : openAfter .substitution 0 (inside.flatMap (marks source)) = some 0)
    (hin' : openAfter .substitution 0 (inside'.flatMap (marks source)) = some 0)
    (ht : t.EndsSubstitution source) (hu : u.EndsSubstitution source) : inside = inside' ∧ t = u := by
  rcases List.append_eq_append_iff.1 h with ⟨more, rfl, hmore⟩ | ⟨more, rfl, hmore⟩
  · rcases more with _ | ⟨v, more⟩
    · exact ⟨(List.append_nil _).symm, (List.cons.inj hmore).1⟩
    · obtain ⟨rfl, -⟩ := List.cons.inj hmore
      rw [openAfter_of_ends hin ht] at hin'
      cases hin'
  · rcases more with _ | ⟨v, more⟩
    · exact ⟨List.append_nil _, (List.cons.inj hmore).1.symm⟩
    · obtain ⟨rfl, -⟩ := List.cons.inj hmore
      rw [openAfter_of_ends hin' hu] at hin
      cases hin

/-- The chunk before a substitution is the last one that could be it. -/
theorem before_unique {front' : List Token} (h : front ++ t :: inside = front' ++ u :: inside')
    (hin : openAfter .substitution 0 (inside.flatMap (marks source)) = some 0)
    (hin' : openAfter .substitution 0 (inside'.flatMap (marks source)) = some 0)
    (ht : t.StartsSubstitution source) (hu : u.StartsSubstitution source) : t = u ∧ inside = inside' := by
  rcases List.append_eq_append_iff.1 h with ⟨more, rfl, hmore⟩ | ⟨more, rfl, hmore⟩
  · rcases more with _ | ⟨v, more⟩
    · exact List.cons.inj hmore
    · obtain ⟨rfl, rfl⟩ := List.cons.inj hmore
      exact absurd hin (openAfter_of_starts hin' hu more)
  · rcases more with _ | ⟨v, more⟩
    · exact (List.cons.inj hmore).imp Eq.symm Eq.symm
    · obtain ⟨rfl, rfl⟩ := List.cons.inj hmore
      exact absurd hin' (openAfter_of_starts hin ht more)

namespace IsSubstitution

variable {before after : Token}

theorem exists_eq (h : IsSubstitution source ts before inside after) :
    ∃ front back, ts = front ++ before :: (inside ++ after :: back) := by
  obtain ⟨front, back, hts⟩ := h.among
  refine ⟨front, back, ?_⟩
  simp [← hts]

theorem back_eq (h : IsSubstitution source ts before inside after) (hn : ts.Nodup)
    (hts : ts = front ++ before :: back) : ∃ more, back = inside ++ after :: more := by
  obtain ⟨front', back', hts'⟩ := h.exists_eq
  rw [hts, List.nodup_append, List.nodup_cons] at hn
  have hnot : before ∉ front := fun hmem => hn.2.2 _ hmem _ List.mem_cons_self rfl
  rw [hts] at hts'
  obtain ⟨-, -, hback⟩ := (List.append_cons_inj_of_notMem hnot hn.2.1.1).1 hts'
  exact ⟨back', hback⟩

theorem front_eq (h : IsSubstitution source ts before inside after) (hn : ts.Nodup)
    (hts : ts = front ++ after :: back) : ∃ more, front = more ++ before :: inside := by
  obtain ⟨front', back', hts'⟩ := h.exists_eq
  rw [hts, List.nodup_append, List.nodup_cons] at hn
  have hnot : after ∉ front := fun hmem => hn.2.2 _ hmem _ List.mem_cons_self rfl
  have hts'' : ts = (front' ++ before :: inside) ++ after :: back' := by simp [hts']
  rw [hts] at hts''
  obtain ⟨hfront, -⟩ := (List.append_cons_inj_of_notMem hnot hn.2.1.1).1 hts''
  exact ⟨front', hfront⟩

end IsSubstitution

/-! ## Braces -/

theorem count_marks (b : Bracket) (ts : List Token) :
    (ts.flatMap (marks source)).count (.opens (.bracket b)) = ts.countP (·.kind = .opening b) ∧
      (ts.flatMap (marks source)).count (.closes (.bracket b)) = ts.countP (·.kind = .closing b) := by
  have hone (t : Token) : (t.marks source).count (.opens (.bracket b)) =
      (if t.kind = .opening b then 1 else 0) ∧
        (t.marks source).count (.closes (.bracket b)) = if t.kind = .closing b then 1 else 0 := by
    rw [marks]
    cases t.kind with
    | template chunk =>
      simp only [Mark.ofToken]
      split <;> split <;> simp
    | opening b' | closing b' => simp [Mark.ofToken, List.count_cons]
    | _ => simp [Mark.ofToken]
  induction ts with
  | nil => exact ⟨rfl, rfl⟩
  | cons t ts ih =>
    simp only [List.flatMap_cons, List.count_append, List.countP_cons, decide_eq_true_eq, hone, ih,
      Nat.add_comm, and_self]

theorem bracesNested_of_openAfter
    (h : (openAfter (.bracket .brace) 0 (ts.flatMap (marks source))).isSome) : BracesNested ts := by
  rintro front ⟨back, rfl⟩
  rw [List.flatMap_append] at h
  have hle := Mark.count_closes_le h (List.prefix_append _ _)
  rwa [(count_marks .brace front).1, (count_marks .brace front).2] at hle

/-! ## Tokens of sources -/

section
variable {y : Lexing}

theorem marks_after {as bs : List Lexeme} {l : Lexeme} {rest : List Char}
    (h : source.toList = sources (as ++ l :: bs) ++ rest) : (after as l).marks source = l.marks := by
  rw [marks, slice_after h, String.toList_ofList]
  rfl

/-- A substitution that starts ends, and what is opened in it is closed in it. -/
theorem exists_ends (hy : Lexing.ofSource source.toList = .ok y)
    (hts : place 0 y.lexemes = front ++ t :: back) (ht : t.StartsSubstitution source) :
    ∃ inside u more, back = inside ++ u :: more ∧ u.EndsSubstitution source ∧
      openAfter (.bracket .brace) 0 (inside.flatMap (marks source)) = some 0 ∧
      openAfter .substitution 0 (inside.flatMap (marks source)) = some 0 := by
  obtain ⟨as, l, bs, hls, rfl, rfl, rfl⟩ := of_place_eq_append_cons hts
  have htext : source.toList = sources (as ++ l :: bs) ++ y.trailing := by
    rw [← hls, Lexing.source_of_ofSource hy]
  have hl := startsSubstitution_iff.1 ht
  rw [marks_after htext] at hl
  obtain ⟨ctx, gap, hn, hreads⟩ := Lexing.exists_reads_from hy hls
  obtain ⟨ms, u, us, more, rfl, hu, hbraces, hsubs⟩ :=
    hreads.closed_of_opens hn hl (Lexing.leads_of_ofSource hy).2
  have hinside : (place (Text.byteLength (sources (as ++ [l]))) ms).flatMap (marks source) =
      ms.flatMap Lexeme.marks := by
    have hcut : source.toList = sources (as ++ [l] ++ ms) ++ (sources (u :: us) ++ y.trailing) := by
      rw [htext]
      simp
    exact flatMap_marks_place hcut
  rw [← hinside] at hbraces hsubs
  have hback : place (Text.byteLength (sources (as ++ [l]))) (ms ++ u :: us) =
      place (Text.byteLength (sources (as ++ [l]))) ms ++ after (as ++ l :: ms) u ::
        place (Text.byteLength (sources (as ++ l :: ms ++ [u]))) us := by
    rw [place_append, ← Text.byteLength_append, ← Lexeme.sources_append, List.append_assoc,
      List.singleton_append, place_cons]
  have hafter : (after (as ++ l :: ms) u).marks source = u.marks := by
    have hcut : source.toList = sources (as ++ l :: ms ++ u :: us) ++ y.trailing := by
      rw [htext]
      simp
    exact marks_after hcut
  exact ⟨_, _, _, hback, endsSubstitution_iff.2 ⟨more, hafter.trans hu⟩, hbraces, hsubs⟩

theorem leads_of_ofSource (hy : Lexing.ofSource source.toList = .ok y) :
    Mark.Leads ((place 0 y.lexemes).flatMap (marks source)) .initial y.context := by
  have hmarks : (place (Text.byteLength (sources [])) y.lexemes).flatMap (marks source) =
      y.lexemes.flatMap Lexeme.marks :=
    flatMap_marks_place (Lexing.source_of_ofSource hy).symm
  rw [Lexeme.sources_nil, Text.byteLength_nil] at hmarks
  rw [hmarks]
  exact (Lexing.leads_of_ofSource hy).1

/-- A substitution that ends has started. -/
theorem exists_starts (hy : Lexing.ofSource source.toList = .ok y)
    (hts : place 0 y.lexemes = front ++ t :: back) (ht : t.EndsSubstitution source) :
    ∃ more u inside, front = more ++ u :: inside ∧ u.StartsSubstitution source ∧
      openAfter .substitution 0 (inside.flatMap (marks source)) = some 0 := by
  obtain ⟨ms, hms⟩ := endsSubstitution_iff.1 ht
  have hall := (leads_of_ofSource hy).substitutions
  rw [hts, List.flatMap_append, Mark.openAfter_append] at hall
  obtain ⟨n, hn, hrest⟩ := Option.bind_eq_some_iff.1 hall
  rw [List.flatMap_cons, hms] at hrest
  cases n with
  | zero =>
    rw [List.cons_append, Mark.openAfter_closes] at hrest
    cases hrest
  | succ n =>
    obtain ⟨before, inner, hsplit, hinner⟩ := Mark.exists_opens hn n.succ_pos
    obtain ⟨more, u, inside, hfront, hu, rfl⟩ := exists_startsSubstitution hsplit
    exact ⟨more, u, inside, hfront, hu, hinner⟩

theorem wellNested_of_ofSource (hy : Lexing.ofSource source.toList = .ok y) :
    WellNested source (place 0 y.lexemes) := by
  have hnodup := (lossless_of_ofSource hy).nodup
  constructor
  case braces =>
    have hdepth : openAfter (.bracket .brace) 0 ((place 0 y.lexemes).flatMap (marks source)) = _ :=
      (leads_of_ofSource hy).depth
    exact bracesNested_of_openAfter (Option.isSome_of_eq_some hdepth)
  case starts =>
    intro t ht hstarts
    obtain ⟨front, back, hts⟩ := List.append_of_mem ht
    obtain ⟨inside, u, more, rfl, hu, -, hclosed⟩ := exists_ends hy hts hstarts
    refine ⟨(inside, u), ⟨⟨front, more, by simp [hts]⟩, hstarts, hu, hclosed⟩, ?_⟩
    rintro ⟨inside', u'⟩ hp
    obtain ⟨more', heq⟩ := hp.back_eq hnodup hts
    obtain ⟨rfl, rfl⟩ := inside_unique heq hclosed hp.closed hu hp.ends
    rfl
  case ends =>
    intro t ht hends
    obtain ⟨front, back, hts⟩ := List.append_of_mem ht
    obtain ⟨more, u, inside, rfl, hu, hclosed⟩ := exists_starts hy hts hends
    refine ⟨(u, inside), ⟨⟨more, back, by simp [hts]⟩, hu, hends, hclosed⟩, ?_⟩
    rintro ⟨u', inside'⟩ hp
    obtain ⟨more', heq⟩ := hp.front_eq hnodup hts
    obtain ⟨rfl, rfl⟩ := before_unique heq hclosed hp.closed hu hp.starts
    rfl
  case inside =>
    intro before inside after h
    obtain ⟨front, back, hts⟩ := h.exists_eq
    obtain ⟨inside', u, more, heq, hu, hbraces, hclosed⟩ := exists_ends hy hts h.starts
    obtain ⟨rfl, rfl⟩ := inside_unique heq h.closed hclosed h.ends hu
    refine ⟨bracesNested_of_openAfter (Option.isSome_of_eq_some hbraces), ?_⟩
    have hcount := Mark.openAfter_count hbraces
    rw [(count_marks .brace inside).1, (count_marks .brace inside).2] at hcount
    omega

end

end Token

/-- The braces and the substitutions of a source are nested. -/
theorem tokenize_wellNested {source : String} {ts : List Token} (h : tokenize source = .ok ts) :
    Token.WellNested source ts := by
  obtain ⟨y, hy, rfl⟩ := tokenize_eq_ok_iff.1 h
  exact Token.wellNested_of_ofSource hy

/-- A template in the braces of a substitution of another one. -/
theorem nestedTemplates_wellNested :
    let source := "\x60$\x7b\x7b a: \x60$\x7bb\x7d-$\x7bc\x7d\x60 \x7d\x7d\x60 \x7b"
    ∃ ts, tokenize source = .ok ts ∧ Token.WellNested source ts := by
  intro source
  have hts : tokenize source = .ok ((tokenize source).toOption.getD []) := by decide +kernel
  exact ⟨_, hts, tokenize_wellNested hts⟩

end JobBundler
