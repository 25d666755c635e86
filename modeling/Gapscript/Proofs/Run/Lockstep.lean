import Gapscript.Proofs.Run.Parallel
import Gapscript.Proofs.Run.Tracked

/-!
# Statements in lockstep

The statements of a shifted text are run as those of the text itself. What names a line names the
shifted one, and a declaration with a life before its own line is due on the same statements. The
statement loop stops on its own before its budget does, so any two budgets larger than the text do.
-/

namespace Gapscript

open Cursor Reading

theorem Shift.form_statement (d : Shift) (stmt : Statement) : (d.statement stmt).form = stmt.form := by
  cases stmt <;> rfl

namespace Bridge

variable {B : Bridge} {k : Nat} {host : Host} {inner inner' : Inner} {s s' : State}

/-! ## Statements -/

theorem abreast_reportValue (hs : B.Beside k s s') (debug : Bool) (line : Int) (label : String) (v : Value) :
    B.Abreast k s s' id (fun _ => True) (reportValue debug line label v)
      (reportValue debug (line + B.shift.lines) label (B.shift.value v)) := by
  unfold reportValue
  refine abreast_ite (fun _ => Abreast.get_bind ?_) fun _ => abreast_pure hs rfl trivial
  rw [hs.heap, Shift.describe_heap]
  refine abreast_log hs _ _ ?_
  simpa only [String.append_assoc] using Shift.Said.line "line " (": " ++ _ ++ _) line

theorem abreast_runDeclaration (together : B.Together k host inner inner') (hs : B.Beside k s s') (line : Int)
    {h : Header} (fits : h.life.Fits) {value : Expr} (sourced : value.Sourced B.source) (debug : Bool) :
    B.Abreast k s s' id (fun _ => True) (runDeclaration host inner line h value debug)
      (runDeclaration host inner' (line + B.shift.lines) h (B.shift.expr value) debug) := by
  unfold runDeclaration
  refine abreast_ite (fun _ => abreast_debug hs _ ?_) fun _ => ?_
  · simpa only [String.append_empty] using Shift.Said.line ("hoisted " ++ h.name ++ " ends at line ") "" line
  · refine (abreast_eval together value hs sourced).bind fun v t t' hv ht => ?_
    refine (abreast_declare ht h.name hv h.mutability fits).bind fun _ u u' _ hu => ?_
    refine (abreast_display hu v).bind fun text x x' _ hx => ?_
    refine (abreast_debug hx _ (.same _)).bind fun _ y y' _ hy => ?_
    exact abreast_reportValue hy debug line h.name v

theorem abreast_addWatch (hs : B.Beside k s s') {c : Cursor} (piece : B.Piece c) {bs : List Branch}
    (sourced : ∀ b ∈ bs, b.Sourced B.source) (anchored : ∀ b ∈ bs, b.Anchored c) (deps : List String)
    (line : Int) :
    B.Abreast k s s' id (fun _ => True) (modify fun s => s.addWatch bs deps line : Run PUnit)
      (modify fun s => s.addWatch (bs.map B.shift.branch) deps (line + B.shift.lines)) := by
  refine abreast_modify (hs.addWatch (fun b hb => (sourced b hb).1) (fun b hb g hg => ?_) deps line)
  obtain ⟨e, reached, place, short⟩ := anchored b hb g hg
  rw [place]
  exact B.shorter (B.includes piece reached.includes) short

theorem abreast_returning (hs : B.Beside k s s') (debug : Bool) (line : Int) {v : Value}
    (hv : B.source.Holds v) :
    B.Abreast k s s' B.shift.flow B.Carried (Contract.returning debug line v)
      (Contract.returning debug (line + B.shift.lines) (B.shift.value v)) := by
  refine (abreast_display hs v).bind fun text u u' _ hu => ?_
  refine (abreast_debug hu _ (.same _)).bind fun _ x x' _ hx => ?_
  exact (abreast_reportValue hx debug line "return" v).bind fun _ y y' _ hy => abreast_pure hy rfl hv

theorem abreast_perform (together : B.Together k host inner inner') (hs : B.Beside k s s') (collect : Bool)
    {c : Cursor} (piece : B.Piece c) {stmt : Statement} (sourced : stmt.Sourced B.source)
    (anchored : stmt.Anchored c) (line : Int) :
    B.Abreast k s s' B.shift.flow B.Carried (perform host inner collect line stmt)
      (perform host inner' collect (line + B.shift.lines) (B.shift.statement stmt)) := by
  cases stmt with
  | declaration h value debug =>
    refine (abreast_runDeclaration together hs line anchored sourced.2 debug).bind fun _ t t' _ ht => ?_
    exact abreast_pure ht rfl trivial
  | assignment a debug =>
    refine (abreast_runAssignment together hs sourced.2.1 sourced.2.2).bind fun v t t' _ ht => ?_
    refine (abreast_reportValue ht debug line a.name v).bind fun _ u u' _ hu => ?_
    exact abreast_pure hu rfl trivial
  | block body =>
    refine (abreast_runBlock together hs collect sourced).bind fun r t t' hr ht => ?_
    exact abreast_pure ht (flow_ofResult r) (returned_flow hr)
  | conditional bs =>
    refine (abreast_runBranches together hs collect sourced).bind fun r t t' hr ht => ?_
    exact abreast_pure ht (flow_ofResult r) (returned_flow hr)
  | watch bs deps =>
    refine (abreast_addWatch hs piece sourced.1 anchored deps line).bind fun _ t t' _ ht => ?_
    have said : B.shift.Said ("watching " ++ ", ".intercalate deps ++ " on line " ++ toString line)
        ("watching " ++ ", ".intercalate deps ++ " on line " ++ toString (line + B.shift.lines)) := by
      simpa only [String.append_empty] using
        Shift.Said.line ("watching " ++ ", ".intercalate deps ++ " on line ") "" line
    exact (abreast_debug ht _ said).bind fun _ u u' _ hu => abreast_pure hu rfl trivial
  | function fn =>
    refine (abreast_defined hs sourced.2).bind fun _ t t' _ ht => ?_
    refine (abreast_debug ht _ ?_).bind fun _ u u' _ hu => abreast_pure hu rfl trivial
    rw [Shift.name_function, Shift.params_function]
    exact .same _
  | giveBack value debug =>
    cases value with
    | some e =>
      refine (abreast_eval together e hs (sourced e rfl)).bind fun v t t' hv ht => ?_
      exact abreast_returning ht debug line hv
    | none => exact abreast_returning hs debug line trivial
  | call value debug =>
    refine (abreast_eval together value hs sourced).bind fun v t t' _ ht => ?_
    exact (abreast_reportValue ht debug line "" v).bind fun _ u u' _ hu => abreast_pure hu rfl trivial
  | expression value debug =>
    refine (abreast_eval together value hs sourced).bind fun v t t' hv ht => ?_
    exact (abreast_reportValue ht debug line "" v).bind fun _ u u' _ hu => abreast_pure hu rfl hv

theorem abreast_line (hs : B.Beside k s s') {line : Int} (hl : B.Line line) :
    B.Abreast k s s' id (fun _ => True) (modify fun s => { s with line := line } : Run PUnit)
      (modify fun s => { s with line := line + B.shift.lines }) :=
  abreast_modify (hs.setLine hl)

theorem abreast_runStatement (together : B.Together k host inner inner') (hs : B.Beside k s s')
    (collect : Bool) {c : Cursor} (piece : B.Piece c) :
    B.Abreast k s s' (Prod.map B.shift.flow B.shift.cursor) (fun r => B.Carried r.1 ∧ c.Passes r.2)
      (runStatement host inner collect c) (runStatement host inner' collect (B.shift.cursor c)) := by
  unfold runStatement
  refine (abreast_line hs (B.line piece)).bind fun _ t t' _ ht => Abreast.get_bind ?_
  have accord : StatementContext.Accord B.source ⟨t.names, host.endCloses⟩ ⟨t.names, host.endCloses⟩ :=
    ⟨ht.accord, rfl⟩
  obtain ⟨-, gives⟩ := statement_accord accord (covers_of_piece piece)
  have shifted := Shift.statement_cursor (d := B.shift) ⟨t.names, host.endCloses⟩ c
  rw [Shift.context, ← ht.names] at shifted
  rw [shifted]
  cases hr : statement ⟨t.names, host.endCloses⟩ c with
  | error e => exact abreast_throw ht rfl
  | ok r =>
    obtain ⟨passes, sourced⟩ := gives hr
    have anchored := anchored_statement hr
    refine (abreast_perform together ht collect piece sourced anchored c.pos.line).bind ?_
    intro flow u u' hflow hu
    refine (abreast_debug hu _ ?_).bind fun _ x x' _ hx => abreast_pure hx rfl ⟨hflow, passes⟩
    rw [Shift.form_statement, Shift.pos_cursor, Shift.position]
    simpa only [String.append_assoc] using Shift.Said.line "line " (": " ++ r.1.form) c.pos.line

/-! ## Hoisted declarations -/

/-- The declaration was found in the text, with a life before its own line. -/
structure HoistSourced (B : Bridge) (h : Hoist) : Prop where
  piece : B.Piece h.initializer
  line : B.Line h.line
  hoisted : h.header.life.isHoisted = true
  fits : h.header.life.Fits

theorem sourced_hoists {c : Cursor} (piece : B.Piece c) : ∀ h ∈ hoists c, B.HoistSourced h := by
  intro h hh
  obtain ⟨⟨e, reached, place⟩, hoisted, fits⟩ := hoisted_hoists c h hh
  refine ⟨B.includes piece (from_hoists c h hh).1.includes, ?_, hoisted, fits⟩
  rw [place]
  exact B.line (B.includes piece reached.includes)

theorem visibleFrom_hoist {h : Hoist} (sourced : B.HoistSourced h) :
    (B.shift.hoist h).visibleFrom = h.visibleFrom + B.shift.lines := by
  obtain ⟨⟨name, m, life⟩, line, initializer, bound⟩ := h
  obtain ⟨-, here, hoisted, fits⟩ := sourced
  cases life with
  | forever | seconds n => cases hoisted
  | lines n => exact B.visible (of_decide_eq_true hoisted) fits here

theorem abreast_bindHoist (together : B.Together k host inner inner') (hs : B.Beside k s s') {h : Hoist}
    (sourced : B.HoistSourced h) :
    B.Abreast k s s' id (fun _ => True) (bindHoist host inner h)
      (bindHoist host inner' (B.shift.hoist h)) := by
  have gives := (twins_expression hs.accord Terminator.never (covers_of_piece sourced.piece)).gives
  refine (abreast_read hs (Shift.reads_expression s.names Terminator.never h.initializer) gives).bind ?_
  rintro ⟨e, d⟩ t t' ⟨-, he⟩ ht
  refine ((abreast_eval together e ht he).locate rfl).bind fun v u u' hv hu => ?_
  have declared := hu.declareHoisted h.header.name hv h.header.mutability sourced.fits sourced.line
  refine (abreast_modify declared).bind fun _ x x' _ hx => ?_
  refine (abreast_display hx v).bind fun text y y' _ hy => abreast_debug hy _ ?_
  dsimp only [Shift.hoist, id]
  simpa only [String.append_assoc] using Shift.Said.line
    ("hoisted " ++ h.header.mutability.describe ++ " " ++ h.header.name ++ " from line ") (" = " ++ text) h.line

theorem abreast_bindHoists (together : B.Together k host inner inner') (hs : B.Beside k s s') (line : Int)
    {hoists : List Hoist} (sourced : ∀ h ∈ hoists, B.HoistSourced h) :
    B.Abreast k s s' (List.map B.shift.hoist) (fun hoists => ∀ h ∈ hoists, B.HoistSourced h)
      (bindHoists host inner line hoists)
      (bindHoists host inner' (line + B.shift.lines) (hoists.map B.shift.hoist)) := by
  induction hoists generalizing s s' with
  | nil => exact abreast_pure hs rfl sourced
  | cons h hoists ih =>
    obtain ⟨first, rest⟩ := List.forall_mem_cons.1 sourced
    have due : ((B.shift.hoist h).bound || line + B.shift.lines < (B.shift.hoist h).visibleFrom ||
        line + B.shift.lines ≥ (B.shift.hoist h).line) = (h.bound || line < h.visibleFrom || line ≥ h.line) := by
      rw [visibleFrom_hoist first]
      dsimp only [Shift.hoist]
      simp only [ge_iff_le, Int.add_lt_add_iff_right, Int.add_le_add_iff_right]
    rw [List.map_cons, bindHoists, bindHoists, due]
    refine abreast_ite (fun _ => ?_) fun _ => ?_
    · refine (ih hs rest).bind fun left t t' hleft ht => ?_
      exact abreast_pure ht rfl (List.forall_mem_cons.2 ⟨first, hleft⟩)
    · refine (abreast_bindHoist together hs first).bind fun _ t t' _ ht => ?_
      refine (ih ht rest).bind fun left u u' hleft hu => abreast_pure hu rfl (List.forall_mem_cons.2 ⟨?_, hleft⟩)
      exact ⟨first.piece, first.line, first.hoisted, first.fits⟩

theorem abreast_bindDue (together : B.Together k host inner inner') (hs : B.Beside k s s')
    {hoists : List Hoist} (sourced : ∀ h ∈ hoists, B.HoistSourced h) {c : Cursor} (piece : B.Piece c) :
    B.Abreast k s s' (List.map B.shift.hoist) (fun hoists => ∀ h ∈ hoists, B.HoistSourced h)
      (bindDue host inner hoists c) (bindDue host inner' (hoists.map B.shift.hoist) (B.shift.cursor c)) := by
  cases hoists with
  | nil => exact abreast_pure hs rfl sourced
  | cons h hoists =>
    refine (abreast_line hs (B.line piece)).bind fun _ t t' _ ht => ?_
    exact (abreast_bindHoists together ht c.pos.line sourced).locate rfl

/-! ## Texts -/

theorem abreast_collectValue (hs : B.Beside k s s') (collect : Bool) (flow : Flow) :
    B.Abreast k s s' id (fun _ => True) (collectValue collect flow)
      (collectValue collect (B.shift.flow flow)) := by
  cases flow with
  | produced v =>
    exact abreast_ite (fun _ => abreast_modify (hs.produce v)) fun _ => abreast_pure hs rfl trivial
  | next | returned v => exact abreast_pure hs rfl trivial

theorem abreast_statementLoop (together : B.Together k host inner inner') (hs : B.Beside k s s')
    (collect : Bool) {fuel fuel' : Nat} {hoists : List Hoist} (sourced : ∀ h ∈ hoists, B.HoistSourced h)
    {c : Cursor} (piece : B.Piece c) (hfuel : c.rest.length < fuel) (hfuel' : c.rest.length < fuel') :
    B.Abreast k s s' (Option.map B.shift.value) B.Returned (statementLoop host inner collect fuel hoists c)
      (statementLoop host inner' collect fuel' (hoists.map B.shift.hoist) (B.shift.cursor c)) := by
  induction fuel generalizing fuel' hoists c s s' with
  | zero => omega
  | succ fuel ih =>
    obtain ⟨fuel', rfl⟩ : ∃ n, fuel' = n + 1 := ⟨fuel' - 1, by omega⟩
    rw [statementLoop, statementLoop, Shift.skipGap_cursor]
    have start := reaches_skipGap c
    have first := B.includes piece start.includes
    refine abreast_ite (fun _ => abreast_pure hs rfl returned_none) fun _ => ?_
    refine (abreast_bindDue together hs sourced first).bind fun hoists t t' sourced ht => ?_
    refine ((abreast_runStatement together ht collect first).locate rfl).bind ?_
    rintro ⟨flow, d⟩ u u' ⟨hflow, passes⟩ hu
    have shorter : d.rest.length < c.rest.length := (start.then passes).length_lt
    refine (abreast_collectValue hu collect flow).bind fun _ x x' _ hx => ?_
    cases flow with
    | returned v => exact abreast_pure hx rfl (returned_some hflow)
    | next | produced v =>
      refine (abreast_checkWatches together hx).bind fun _ y y' _ hy => ?_
      exact ih hy sourced (B.includes first passes.reaches.includes) (by omega) (by omega)

theorem abreast_runStatements (together : B.Together k host inner inner') (hs : B.Beside k s s')
    (collect : Bool) {c : Cursor} (piece : B.Piece c) :
    B.Abreast k s s' (Option.map B.shift.value) B.Returned (runStatements host inner collect c)
      (runStatements host inner' collect (B.shift.cursor c)) := by
  unfold runStatements
  rw [Shift.hoists_cursor]
  exact abreast_statementLoop together hs collect (sourced_hoists piece) piece (Nat.lt_succ_self _)
    (Nat.lt_succ_self _)

/-! ## Frames within frames -/

/-- The rooms of both runs are the same, or the first one, which is not larger, is enough for every
frame that can be entered. -/
def Spacious (B : Bridge) (k n n' : Nat) : Prop :=
  n = n' ∨ n ≤ n' ∧ ∀ j, B.Deep (k + j) → j ≤ n

theorem Spacious.inside {n n' : Nat} (h : B.Spacious k (n + 1) (n' + 1)) : B.Spacious (k + 1) n n' := by
  rcases h with same | ⟨le, enough⟩
  · exact .inl (Nat.succ.inj same)
  · refine .inr ⟨Nat.le_of_succ_le_succ le, fun j deep => ?_⟩
    rw [Nat.add_assoc, Nat.add_comm 1] at deep
    exact Nat.le_of_succ_le_succ (enough (j + 1) deep)

theorem together_innerAt (natives : ∀ f ∈ host.functions, B.Respects f) {n n' : Nat}
    (spacious : B.Spacious k n n') : B.Together k host (innerAt host n) (innerAt host n') := by
  induction n generalizing n' k with
  | zero =>
    rcases spacious with rfl | ⟨-, enough⟩
    · exact ⟨natives, fun _ _ _ _ hs _ _ => abreast_throw hs rfl, fun _ _ _ _ hs _ => abreast_throw hs rfl⟩
    · exact ⟨natives, fun deep => absurd (enough 1 deep) (by decide),
        fun deep => absurd (enough 1 deep) (by decide)⟩
  | succ n ih =>
    obtain ⟨n', rfl⟩ : ∃ m, n' = m + 1 := by
      rcases spacious with rfl | ⟨le, -⟩
      · exact ⟨n, rfl⟩
      · exact ⟨n' - 1, by omega⟩
    have inside := ih spacious.inside
    exact ⟨natives, fun _ _ _ _ hs piece collect => abreast_runStatements inside hs collect piece,
      fun _ _ _ _ hs sourced => abreast_eval inside _ hs sourced⟩

/-- A shifted text is run as the text itself. -/
theorem abreast_runSource (natives : ∀ f ∈ host.functions, B.Respects f) (hs : B.Beside k s s')
    (spacious : B.Spacious k s.room s'.room) {c : Cursor} (piece : B.Piece c) :
    B.Abreast k s s' (Option.map B.shift.value) B.Returned (runSource host c)
      (runSource host (B.shift.cursor c)) :=
  (abreast_runStatements (together_innerAt natives spacious) hs true piece).congr rfl rfl

section Requests

variable (natives : ∀ f ∈ host.functions, B.Respects f) (spacious : B.Spacious k s.room s'.room)

include natives spacious

theorem abreast_runExpression (hs : B.Beside k s s') {e : Expr} (sourced : e.Sourced B.source) :
    B.Abreast k s s' B.shift.value B.source.Holds (runExpression host e)
      (runExpression host (B.shift.expr e)) :=
  (abreast_eval (together_innerAt natives spacious) e hs sourced).congr rfl rfl

theorem abreast_runCall (hs : B.Beside k s s') {fn : FunctionRef} (hfn : B.source.Holds (.function fn))
    {args : List Value} (hargs : ∀ v ∈ args, B.source.Holds v) :
    B.Abreast k s s' B.shift.value B.source.Holds (runCall host fn args)
      (runCall host (B.shift.ref fn) (args.map B.shift.value)) :=
  (abreast_callFunction (together_innerAt natives spacious) hs hfn hargs none).congr rfl rfl

theorem abreast_runWatches (hs : B.Beside k s s') :
    B.Abreast k s s' id (fun _ => True) (runWatches host) (runWatches host) :=
  (abreast_checkWatches (together_innerAt natives spacious) hs).congr rfl rfl

end Requests

end Bridge

end Gapscript
