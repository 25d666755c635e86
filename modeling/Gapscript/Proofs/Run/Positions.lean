import Gapscript.Proofs.Run.Upheld

/-!
# Places in a text

A reader that succeeds moves its cursor over what it has read: the place of the new cursor is the
old one with the bytes, the line ends and the characters in between counted. The bodies that blocks
and functions keep are pieces of the text with the places where they stand in it. Both come from
`Reaches` and `Includes`, which every reader was shown to keep to.
-/

namespace Gapscript

open Lexical Cursor Reading

/-! ## Counting -/

/-- The number of characters after the last line end of a text. -/
def Text.lastLine (t : Text) : Nat := (t.reverse.takeWhile (· != '\n')).length

/-- The second place is the first one with a text counted. -/
structure Position.Moves (a : Position) (t : Text) (b : Position) : Prop where
  offset : b.offset = a.offset + Text.bytes t
  line : b.line = a.line + t.count '\n'
  column : b.column = if '\n' ∈ t then 1 + (Text.lastLine t : Int) else a.column + t.length

theorem Text.bytes_cons (c : Char) (cs : Text) : bytes (c :: cs) = c.utf8Size + bytes cs := by
  have shift (n : Nat) (t : Text) :
      t.foldl (fun n c => n + c.utf8Size) n = n + t.foldl (fun n c => n + c.utf8Size) 0 := by
    induction t generalizing n with
    | nil => rfl
    | cons d ds ih =>
      rw [List.foldl_cons, List.foldl_cons, ih, ih (0 + d.utf8Size)]
      omega
  rw [bytes, List.foldl_cons, shift, Nat.zero_add]
  rfl

theorem Text.lastLine_cons (c : Char) (cs : Text) :
    lastLine (c :: cs) =
      if '\n' ∈ cs then lastLine cs else if c = '\n' then cs.length else cs.length + 1 := by
  rw [lastLine, List.reverse_cons]
  by_cases h : '\n' ∈ cs
  · have stops : (cs.reverse.takeWhile (· != '\n')).length ≠ cs.reverse.length := by
      intro same
      have all : (cs.reverse.takeWhile (· != '\n')).all (· != '\n') = true := List.all_takeWhile
      rw [(List.takeWhile_prefix _).eq_of_length same, List.all_eq_true] at all
      exact absurd (all '\n' (List.mem_reverse.2 h)) (by decide)
    rw [List.takeWhile_append, if_neg stops, if_pos h]
    rfl
  · have all : ∀ x ∈ cs.reverse, (x != '\n') = true := by
      intro x hx
      exact bne_iff_ne.2 fun hn => h (hn ▸ List.mem_reverse.1 hx)
    rw [List.takeWhile_append_of_pos all, if_neg h]
    by_cases hc : c = '\n' <;> simp [hc]

theorem Position.moves_afterText (a : Position) (t : Text) : a.Moves t (a.afterText t) := by
  induction t generalizing a with
  | nil => exact ⟨by simp [Text.bytes], by simp, by simp⟩
  | cons c cs ih =>
    obtain ⟨offset, line, column⟩ := ih (a.after c)
    rw [afterText_cons]
    refine ⟨?_, ?_, ?_⟩
    · have counted : (a.after c).offset = a.offset + c.utf8Size := by
        unfold after
        split <;> rfl
      rw [offset, counted, Text.bytes_cons]
      omega
    · have counted : (a.after c).line = a.line + (if c = '\n' then 1 else 0) := by
        unfold after
        split <;> simp
      rw [line, counted, List.count_cons]
      by_cases hc : c = '\n'
      · simp [hc]
        omega
      · simp [hc]
    · have counted : (a.after c).column = if c = '\n' then 1 else a.column + 1 := by
        unfold after
        split <;> rfl
      rw [column, counted, Text.lastLine_cons]
      by_cases hcs : '\n' ∈ cs
      · simp [hcs]
      · by_cases hc : c = '\n'
        · simp [hcs, hc]
        · have other : '\n' ≠ c := Ne.symm hc
          simp [hcs, hc, other]
          omega

theorem Text.bytes_append (s t : Text) : bytes (s ++ t) = bytes s + bytes t := by
  induction s with
  | nil => simp [bytes]
  | cons c cs ih =>
    rw [List.cons_append, bytes_cons, bytes_cons, ih]
    omega

theorem Text.lastLine_of_not_mem {t : Text} (h : '\n' ∉ t) : lastLine t = t.length := by
  cases t with
  | nil => rfl
  | cons c cs =>
    have hcs : '\n' ∉ cs := fun hmem => h (List.mem_cons_of_mem _ hmem)
    have hc : c ≠ '\n' := fun hc => h (hc ▸ List.mem_cons_self)
    rw [lastLine_cons, if_neg hcs, if_neg hc, List.length_cons]

theorem Text.lastLine_append (s t : Text) :
    lastLine (s ++ t) = if '\n' ∈ t then lastLine t else if '\n' ∈ s then lastLine s + t.length else
      s.length + t.length := by
  induction s with
  | nil => by_cases ht : '\n' ∈ t <;> simp [ht, lastLine_of_not_mem]
  | cons c cs ih =>
    rw [List.cons_append, lastLine_cons, ih, lastLine_cons]
    simp only [List.mem_append, List.mem_cons, List.length_append, List.length_cons]
    by_cases ht : '\n' ∈ t
    · simp [ht]
    · by_cases hcs : '\n' ∈ cs
      · simp [ht, hcs]
      · by_cases hc : c = '\n'
        · simp [ht, hcs, hc]
        · have other : '\n' ≠ c := Ne.symm hc
          simp [ht, hcs, hc, other]
          omega

theorem Position.Moves.trans {a b c : Position} {s t : Text} (h : a.Moves s b) (k : b.Moves t c) :
    a.Moves (s ++ t) c := by
  refine ⟨?_, ?_, ?_⟩
  · rw [k.offset, h.offset, Text.bytes_append]
    omega
  · rw [k.line, h.line, List.count_append]
    omega
  · rw [k.column, h.column, Text.lastLine_append]
    simp only [List.mem_append, List.length_append]
    by_cases ht : '\n' ∈ t
    · simp [ht]
    · by_cases hs : '\n' ∈ s
      · simp [ht, hs]
        omega
      · simp [ht, hs]
        omega

namespace Cursor

/-- The other cursor is this one after a text, which is what the first has in front of the second. -/
def MovesTo (c d : Cursor) : Prop := ∃ p, c.rest = p ++ d.rest ∧ c.pos.Moves p d.pos

/-- The other cursor is this one after a text of at least one byte. -/
def Consumes (c d : Cursor) : Prop := c.MovesTo d ∧ c.pos.offset < d.pos.offset

/-- The other cursor stands over a piece of the text, at the place where it begins. -/
def Locates (c d : Cursor) : Prop := ∃ p q, c.rest = p ++ d.rest ++ q ∧ c.pos.Moves p d.pos

theorem Reaches.movesTo {c d : Cursor} (h : c.Reaches d) : c.MovesTo d := by
  obtain ⟨p, hp, hpos⟩ := h.exists_text
  exact ⟨p, hp, hpos ▸ c.pos.moves_afterText p⟩

theorem Includes.locates {c d : Cursor} (h : c.Includes d) : c.Locates d := by
  obtain ⟨p, q, hp, hpos⟩ := h
  exact ⟨p, q, hp, hpos ▸ c.pos.moves_afterText p⟩

theorem Passes.consumes {c d : Cursor} (h : c.Passes d) : c.Consumes d := by
  obtain ⟨p, hp, moves⟩ := h.reaches.movesTo
  refine ⟨⟨p, hp, moves⟩, ?_⟩
  have shorter := h.length_lt
  cases p with
  | nil =>
    rw [hp] at shorter
    simp at shorter
  | cons x xs =>
    have positive := x.utf8Size_pos
    rw [moves.offset, Text.bytes_cons]
    omega

theorem Locates.trans {c d e : Cursor} (h : c.Locates d) (k : d.Locates e) : c.Locates e := by
  obtain ⟨p, q, hc, moves⟩ := h
  obtain ⟨p', q', hd, moves'⟩ := k
  refine ⟨p ++ p', q' ++ q, ?_, moves.trans moves'⟩
  rw [hc, hd]
  simp only [List.append_assoc]

/-- What stands between a cursor and a later one is the text up to it. -/
theorem MovesTo.rest_eq {c d : Cursor} (h : c.MovesTo d) : c.rest = c.textUntil d ++ d.rest := by
  obtain ⟨p, hp, moves⟩ := h
  have whole (p q : Text) : Text.firstBytes? (Text.bytes p) (p ++ q) = some p := by
    induction p with
    | nil => simp [Text.bytes, Text.firstBytes?]
    | cons x xs ih =>
      have positive := x.utf8Size_pos
      obtain ⟨m, hm⟩ : ∃ m, x.utf8Size + Text.bytes xs = m + 1 := ⟨x.utf8Size + Text.bytes xs - 1, by omega⟩
      have fits : x.utf8Size ≤ m + 1 := by omega
      have left : m + 1 - x.utf8Size = Text.bytes xs := by omega
      rw [Text.bytes_cons, hm, List.cons_append, Text.firstBytes?, if_pos fits, left, ih]
      rfl
  have between : (d.pos.offset - c.pos.offset).toNat = Text.bytes p := by
    rw [moves.offset]
    omega
  have forward : ¬ d.pos.offset - c.pos.offset < 0 := by
    rw [moves.offset]
    omega
  unfold textUntil
  dsimp only
  rw [if_neg forward, between, hp, whole]
  rfl

end Cursor

/-! ## What readers keep -/

theorem Text.within_isPrefix (n : Nat) (t : Text) : within n t <+: t := by
  induction t generalizing n with
  | nil => exact List.nil_prefix
  | cons c cs ih =>
    rw [within]
    split
    · exact (List.prefix_cons_inj c).2 (ih _)
    · exact List.nil_prefix

theorem reaches_skipQuoted? {c d : Cursor} (h : skipQuoted? c = some d) : c.Reaches d := by
  obtain ⟨n, -, rfl⟩ := Option.map_eq_some_iff.1 h
  exact reaches_skip c n

theorem reaches_unaryOperator {c d : Cursor} {op : UnaryOp} (h : unaryOperator c = .ok (op, d)) :
    c.Reaches d := by
  unfold unaryOperator at h
  split at h
  · cases h
    exact reaches_next c
  · cases h

/-- The source of a tree whose functions keep pieces of the text at their places. -/
def Source.within (c : Cursor) : Source := ⟨c.Mentions, c.Locates, fun _ => True⟩

theorem Source.covers_within (c : Cursor) : (within c).Covers c := ⟨id, Includes.locates⟩

theorem Names.accord_within (names : Names) (c : Cursor) : names.Accord (Source.within c) names :=
  ⟨fun _ => rfl, fun _ => rfl, fun _ => trivial, fun _ => trivial, fun _ => trivial⟩

/-- Tokens, words, strings and brackets: a lexical reader moves over what it reads. -/
structure LexicalPlaces (c : Cursor) : Prop where
  next : c.MovesTo c.next
  skip : ∀ n, c.MovesTo (c.skip n)
  skipBytes : ∀ n, c.MovesTo (c.skipBytes n)
  limit : ∀ n, c.Locates (c.limit n)
  textUntil : ∀ {d}, c.MovesTo d → c.rest = c.textUntil d ++ d.rest
  consume : ∀ {token d}, c.consume? token = some d → c.MovesTo d
  skipGap : c.MovesTo (skipGap c)
  keyword : ∀ {word d}, keyword? word c = some d → c.MovesTo d
  identifier : ∀ {term name d}, identifier term c = .ok (name, d) → c.MovesTo d
  bindingName : ∀ {name d}, bindingName c = .ok (name, d) → c.MovesTo d
  chunk : ∀ {term t d}, chunk term c = .ok (t, d) → c.MovesTo d
  statementEnd : ∀ {debug d}, statementEnd c = .ok (debug, d) → c.MovesTo d
  skipQuoted : ∀ {d}, skipQuoted? c = some d → c.MovesTo d
  quotedString : ∀ {t d}, quotedString c = .ok (t, d) → c.MovesTo d
  block : ∀ {body d}, block c = .ok (body, d) → c.MovesTo d ∧ c.Locates body
  expressionSource : ∀ term, c.MovesTo (expressionSource term c).2
  lifeTime : ∀ {life d}, LifeTime.parse c = .ok (life, d) → c.MovesTo d
  literal : ∀ {v d}, literal c = .ok (v, d) → c.MovesTo d
  binaryOperator : ∀ {op d}, binaryOperator c = .ok (op, d) → c.MovesTo d
  unaryOperator : ∀ {op d}, unaryOperator c = .ok (op, d) → c.MovesTo d
  unaryRuns : c.MovesTo (unaryRuns c).2

theorem lexicalPlaces (c : Cursor) : LexicalPlaces c where
  next := (reaches_next c).movesTo
  skip n := (reaches_skip c n).movesTo
  skipBytes _ := (reaches_skip c _).movesTo
  limit n := (includes_of_isPrefix (Text.within_isPrefix n c.rest)).locates
  textUntil h := h.rest_eq
  consume h := (reaches_consume? h).movesTo
  skipGap := (reaches_skipGap c).movesTo
  keyword h := (reaches_keyword? h).movesTo
  identifier h := (passes_identifier h).reaches.movesTo
  bindingName h := (passes_bindingName h).reaches.movesTo
  chunk h := (passes_chunk h).reaches.movesTo
  statementEnd h := (passes_statementEnd h).reaches.movesTo
  skipQuoted h := (reaches_skipQuoted? h).movesTo
  quotedString h := (passes_quotedString h).reaches.movesTo
  block h := ⟨(passes_block h).reaches.movesTo, (includes_block h).locates⟩
  expressionSource _ := (reaches_skip c _).movesTo
  lifeTime h := (passes_lifeTimeParse h).reaches.movesTo
  literal h := (passes_literal h).reaches.movesTo
  binaryOperator h := (passes_binaryOperator h).reaches.movesTo
  unaryOperator h := (reaches_unaryOperator h).movesTo
  unaryRuns := (reaches_skip c _).movesTo

/-- Functions, expressions and branches: a reader moves over what it reads, and the functions and
bodies in what it gives are pieces of the text. -/
structure ProductionPlaces (names : Names) (c : Cursor) : Prop where
  params : ∀ {ps d}, params c = .ok (ps, d) → c.MovesTo d
  functionBody : ∀ {term body d}, functionBody term c = .ok (body, d) → c.MovesTo d ∧
    ∃ text pos block, body = .script text pos block ∧ c.Locates ⟨text, pos⟩
  functionLiteral : ∀ {term f d}, functionLiteral term c = .ok (f, d) →
    c.MovesTo d ∧ (Source.within c).Code f
  atom : ∀ {term e d}, outcome (readAtom names term c) = .ok (e, d) →
    c.Consumes d ∧ e.Sourced (Source.within c)
  expression : ∀ {term e d}, outcome (expression names term c) = .ok (e, d) →
    c.Consumes d ∧ e.Sourced (Source.within c)
  accessors : ∀ {accs d}, outcome (readAccessors names c) = .ok (accs, d) →
    c.MovesTo d ∧ Accessor.AllSourced (Source.within c) accs
  call : ∀ {strict term b d}, outcome (readCall names strict term c) = .ok (b, d) →
    c.MovesTo d ∧ b.Sourced (Source.within c)
  object : ∀ {b d}, outcome (readObject names c) = .ok (b, d) →
    c.MovesTo d ∧ b.Sourced (Source.within c)
  array : ∀ {b d}, outcome (readArray names c) = .ok (b, d) →
    c.MovesTo d ∧ b.Sourced (Source.within c)
  branches : ∀ {word bs d}, word.toList ≠ [] → outcome (branches names word c) = .ok (bs, d) →
    c.MovesTo d ∧ ∀ b ∈ bs, b.Sourced (Source.within c)

theorem productionPlaces (names : Names) (c : Cursor) : ProductionPlaces names c := by
  have accord := names.accord_within c
  have covers := Source.covers_within c
  have self := twins_expressionAt accord c.rest.length
  have all := Nat.le_refl c.rest.length
  constructor
  case params => exact fun h => (reaches_params h).movesTo
  case functionBody =>
    intro term body d h
    obtain ⟨text, pos, block, hbody, piece⟩ := includes_functionBody h
    exact ⟨(reaches_functionBody h).movesTo, text, pos, block, hbody, piece.locates⟩
  case functionLiteral =>
    exact fun h => ⟨(passes_functionLiteral h).reaches.movesTo, code_functionLiteral h covers⟩
  case atom =>
    intro term e d h
    have read := (twins_atom accord self term covers all all).gives.of_outcome_ok h
    exact ⟨read.1.consumes, read.2⟩
  case expression =>
    intro term e d h
    have read := (twins_expression accord term covers).gives.of_outcome_ok h
    exact ⟨read.1.consumes, read.2⟩
  case accessors =>
    intro accs d h
    have read := (twins_readAccessors accord covers).gives.of_outcome_ok h
    exact ⟨read.1.movesTo, read.2⟩
  case call =>
    intro strict term b d h
    have read := (twins_readCall accord strict term covers).gives.of_outcome_ok h
    exact ⟨read.1.reaches.movesTo, read.2⟩
  case object =>
    intro b d h
    have read := (twins_object self covers all all).gives.of_outcome_ok h
    exact ⟨read.1.reaches.movesTo, read.2⟩
  case array =>
    intro b d h
    have read := (twins_array self covers all all).gives.of_outcome_ok h
    exact ⟨read.1.reaches.movesTo, read.2⟩
  case branches =>
    intro word bs d hw h
    have read := (twins_branches accord hw covers).gives.of_outcome_ok h
    exact ⟨read.1.reaches.movesTo, read.2⟩

/-- Statements: each form moves over what it reads, and what it keeps as text is a piece of it. -/
structure StatementPlaces (s : State) (c : Cursor) : Prop where
  declarationHeader : ∀ {header d}, declarationHeader c = .ok (header, d) → c.MovesTo d
  assignMode : ∀ {mode d}, assignMode c = .ok (mode, d) → c.MovesTo d
  form : ∀ {endCloses form stmt d}, form ∈ forms ⟨s.names, endCloses⟩ →
    outcome (form c) = .ok (stmt, d) → c.Consumes d ∧ stmt.Sourced (Source.within c)
  statement : ∀ {endCloses stmt d}, statement ⟨s.names, endCloses⟩ c = .ok (stmt, d) →
    c.Consumes d ∧ stmt.Sourced (Source.within c)
  run : ∀ {host inner collect flow d t}, runStatement host inner collect c s = .ok (flow, d) t →
    c.Consumes d
  hoists : ∀ h ∈ hoists c, c.Locates h.initializer

theorem statementPlaces (s : State) (c : Cursor) : StatementPlaces s c := by
  have covers := Source.covers_within c
  have accord (endCloses : Bool) :
      StatementContext.Accord (Source.within c) ⟨s.names, endCloses⟩ ⟨s.names, endCloses⟩ :=
    ⟨s.names.accord_within c, rfl⟩
  constructor
  case declarationHeader => exact fun h => (passes_declarationHeader h).1.reaches.movesTo
  case assignMode => exact fun h => (passes_assignMode h).reaches.movesTo
  case form =>
    intro endCloses form stmt d known h
    have read := (gives_form_sourced (accord endCloses) known covers).of_outcome_ok h
    exact ⟨read.1.consumes, read.2⟩
  case statement =>
    intro endCloses stmt d h
    have read := (statement_accord (accord endCloses) covers).2 h
    exact ⟨read.1.consumes, read.2⟩
  case run => exact fun h => (Contract.passes_runStatement h).consumes
  case hoists => exact fun h hh => (from_hoists c h hh).1.includes.locates

/-- Every reader that succeeds moves its cursor over what it has read, those of atoms, expressions
and statements over at least one byte. The bodies of blocks and functions are pieces of the text at
their places, and so are the bodies found in them. -/
theorem readers_keep_places (s : State) (c : Cursor) :
    LexicalPlaces c ∧ ProductionPlaces s.names c ∧ StatementPlaces s c ∧
      ∀ {d e}, c.Locates d → d.Locates e → c.Locates e :=
  ⟨lexicalPlaces c, productionPlaces s.names c, statementPlaces s c, Locates.trans⟩

end Gapscript
