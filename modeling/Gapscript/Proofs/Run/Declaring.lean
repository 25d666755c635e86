import Gapscript.Proofs.Binding.Window
import Gapscript.Proofs.Run.Bindings
import Gapscript.Proofs.Run.Turns

/-!
# What declares a name

The shape of a binding is all of it but its value. What runs while the loop takes a turn keeps the shapes of
the bindings in the innermost frame, unless the statement declares a variable, or assigns to a name that
nobody bound (`Stage.Takes.declares`): evaluation keeps them, and blocks, branches and watches run in frames
of their own.
-/

namespace Gapscript

/-! ## The binding of a name in the innermost frame -/

/-- The variable of a name in the innermost frame, without its value. -/
def State.shape? (s : State) (name : String) : Option Variable := (s.innermost? name).map Variable.shape

section Shapes

variable {s t : State} {name : String}

theorem shape?_of_frames (same : t.frames = s.frames) : t.shape? name = s.shape? name := by
  rw [State.shape?, State.innermost?, same]
  rfl

theorem State.SameScopes.shape? (h : s.SameScopes t) (name : String) : t.shape? name = s.shape? name := by
  have looked (fs : List Frame) : (fs.head?.bind (·.binding? name)).map Variable.shape =
      (fs.map Frame.shape).head?.bind (·.binding? name) := by
    cases fs with
    | nil => rfl
    | cons f fs =>
      exact (List.find?_map (f := Variable.shape) (p := fun v => decide (v.name = name)) (l := f.vars)).symm
  rw [State.shape?, State.shape?, State.innermost?, State.innermost?, looked, looked, h.frames]

theorem Run.KeepsScopes.shape? {α : Type} {x : Run α} {a : α} (kept : x.KeepsScopes s) (run : x s = .ok a t)
    (name : String) : t.shape? name = s.shape? name := by
  rw [Run.KeepsScopes, Run.reached, run] at kept
  exact State.SameScopes.shape? kept name

theorem innermost?_modifyTop_put_of_ne (s : State) {v : Variable} (other : v.name ≠ name) :
    (s.modifyTop fun f => { f with vars := Frame.putVariable v f.vars }).innermost? name = s.innermost? name := by
  unfold State.modifyTop State.innermost?
  split
  · next top rest hf =>
    rw [hf]
    exact find?_putVariable_of_ne other top.vars
  · next hf =>
    rw [hf]
    exact find?_putVariable_of_ne other []

theorem innermost?_declareHoisted_of_ne {other : String} (apart : other ≠ name) (s : State) (value : Value)
    (m : Mutability) (life : LifeTime) (line : Int) :
    (s.declareHoisted other value m life line).innermost? name = s.innermost? name := by
  unfold State.declareHoisted
  let v (s : State) : Variable := ⟨other, value, m, life, line, true, life.window line s.now⟩
  have kept (s : State) : (s.modifyTop fun f => { f with vars := Frame.putVariable (v s) f.vars }).innermost? name =
      s.innermost? name := innermost?_modifyTop_put_of_ne s apart
  cases value with
  | function f => exact kept { s with hoistedFunctions := f.id :: s.hoistedFunctions }
  | _ => exact kept s

end Shapes
/-! ## Statements -/

/-- The statement gave the innermost frame another binding of the name: one was made, or the one that was
there was replaced by one that differs in more than its value. -/
def Turn.Declares (turn : Turn) (name : String) : Prop := turn.finish.shape? name ≠ turn.arrival.shape? name

section Declaring

variable {host : Host} (natives : ∀ f ∈ host.functions, f.KeepsScopes) {n : Nat} {s t : State} {name : String}

theorem frames_reportValue {debug : Bool} {line : Int} {label : String} {v : Value}
    (run : reportValue debug line label v s = .ok () t) : t.frames = s.frames := by
  cases debug with
  | false => cases run; rfl
  | true => cases run; rfl

theorem Run.shape?_ofFault {α : Type} {r : Except TypeFault α} {a : α} (run : Run.ofFault r s = .ok a t) :
    t.shape? name = s.shape? name := by
  cases r with
  | error f => cases run
  | ok b => cases run; rfl

theorem innermost?_declare_of_ne {other : String} (apart : other ≠ name) (s : State) (value : Value)
    (m : Mutability) (life : LifeTime) :
    (s.declare other value m life).innermost? name = s.innermost? name :=
  innermost?_modifyTop_put_of_ne s (v := ⟨other, value, m, life, s.line, false, life.window s.line s.now⟩) apart

theorem innermost?_define (s : State) (fn : FunctionRef) : (s.define fn).innermost? name = s.innermost? name := by
  unfold State.define State.modifyTop State.innermost?
  split
  · next top rest hf =>
    rw [hf]
    rfl
  · next hf =>
    rw [hf]
    rfl

/-- An assignment to a name declares that name only, and only if it is a plain one. -/
theorem shape?_assignName {other : String} {mode : AssignMode} {rhs v : Value}
    (run : assignName other mode rhs s = .ok v t) :
    t.shape? name = s.shape? name ∨ other = name ∧ mode = .plain := by
  rw [assignName, Run.get_bind] at run
  cases found : s.lookupVariable other with
  | none =>
    rw [found] at run
    dsimp only at run
    split at run
    · next plain =>
      by_cases apart : other = name
      · exact .inr ⟨apart, plain⟩
      · refine .inl ?_
        have kept := congrArg (Option.map Variable.shape) (innermost?_declare_of_ne apart s rhs .varVar .forever)
        cases run
        exact kept
    · cases run
  | some w =>
    rw [found] at run
    refine .inl ?_
    obtain ⟨_, u, permitted, run⟩ := Run.bind_eq_ok.1 run
    obtain ⟨new, w, combined, run⟩ := Run.bind_eq_ok.1 run
    have kept := (State.sameScopes_assign w other new).shape? name
    rw [← Run.shape?_ofFault permitted, ← Run.shape?_ofFault combined, ← kept]
    cases run
    rfl

include natives

theorem shape?_eval {e : Expr} {v : Value} (run : eval host (innerAt host n) e s = .ok v t) :
    t.shape? name = s.shape? name :=
  ((nested_bodies_keep_scopes natives n s).2.2.2.2.1 e).shape? run name

/-- A value that is reported has only been evaluated. -/
theorem shape?_reported {e : Expr} {debug : Bool} {line : Int} {k : Value → Flow} {flow : Flow}
    (run : (do
      let v ← eval host (innerAt host n) e
      reportValue debug line "" v
      pure (k v) : Run Flow) s = .ok flow t) : t.shape? name = s.shape? name := by
  obtain ⟨v, u, evaluated, run⟩ := Run.bind_eq_ok.1 run
  obtain ⟨_, w, reported, run⟩ := Run.bind_eq_ok.1 run
  cases run
  rw [shape?_of_frames (frames_reportValue reported)]
  exact shape?_eval natives evaluated

theorem shape?_evalKey {acc : Accessor} {key : String}
    (run : evalKey host (innerAt host n) acc s = .ok key t) : t.shape? name = s.shape? name := by
  cases acc with
  | dot field => cases run; rfl
  | index e =>
    obtain ⟨v, u, evaluated, run⟩ := Run.bind_eq_ok.1 run
    cases run
    exact shape?_eval natives evaluated

theorem shape?_container {accs : List Accessor} {v : Value} {acc : Accessor} {r : Value × Accessor}
    (run : container host (innerAt host n) v acc accs s = .ok r t) : t.shape? name = s.shape? name := by
  induction accs generalizing v acc s with
  | nil => cases run; rfl
  | cons next more ih =>
    rw [container] at run
    obtain ⟨key, u, keyed, run⟩ := Run.bind_eq_ok.1 run
    rw [Run.get_bind] at run
    obtain ⟨v', w, read, run⟩ := Run.bind_eq_ok.1 run
    rw [ih run, Run.shape?_ofFault read, shape?_evalKey natives keyed]

theorem shape?_assignProperty {other : String} {acc : Accessor} {accs : List Accessor} {mode : AssignMode}
    {rhs v : Value} (run : assignProperty host (innerAt host n) other acc accs mode rhs s = .ok v t) :
    t.shape? name = s.shape? name := by
  rw [assignProperty, Run.get_bind] at run
  cases found : s.lookupVariable other with
  | none => rw [found] at run; cases run
  | some w =>
    rw [found] at run
    dsimp only at run
    split at run
    · cases run
    · obtain ⟨⟨target, last⟩, u, contained, run⟩ := Run.bind_eq_ok.1 run
      obtain ⟨key, w, keyed, run⟩ := Run.bind_eq_ok.1 run
      rw [← shape?_container natives contained, ← shape?_evalKey natives keyed]
      cases target with
      | object ref =>
        dsimp only at run
        rw [Run.get_bind] at run
        obtain ⟨new, x, combined, run⟩ := Run.bind_eq_ok.1 run
        rw [← Run.shape?_ofFault combined]
        cases run
        rfl
      | _ => cases run

theorem shape?_runAssignment {a : Assignment} {v : Value}
    (run : runAssignment host (innerAt host n) a s = .ok v t) :
    t.shape? name = s.shape? name ∨ a.name = name ∧ a.accessors = [] ∧ a.mode = .plain := by
  obtain ⟨other, accs, mode, value⟩ := a
  cases accs with
  | nil =>
    have stored {rhs : Value} {u : State} (run : assignName other mode rhs u = .ok v t) :
        t.shape? name = u.shape? name ∨ other = name ∧ ([] : List Accessor) = [] ∧ mode = .plain :=
      (shape?_assignName run).imp_right fun declares => ⟨declares.1, rfl, declares.2⟩
    cases value with
    | none => exact stored run
    | some e =>
      obtain ⟨rhs, u, right, run⟩ := Run.bind_eq_ok.1 run
      rw [← shape?_eval natives right]
      exact stored run
  | cons acc accs =>
    refine .inl ?_
    cases value with
    | none => exact shape?_assignProperty natives run
    | some e =>
      obtain ⟨rhs, u, right, run⟩ := Run.bind_eq_ok.1 run
      exact (shape?_assignProperty natives run).trans (shape?_eval natives right)

theorem shape?_runDeclaration {line : Int} {header : Header} {value : Expr} {debug : Bool}
    (run : runDeclaration host (innerAt host n) line header value debug s = .ok () t) :
    t.shape? name = s.shape? name ∨ header.name = name ∧ header.life.isHoisted = false := by
  unfold runDeclaration at run
  split at run
  · cases run
    exact .inl rfl
  · next ahead =>
    by_cases apart : header.name = name
    · exact .inr ⟨apart, Bool.not_eq_true _ ▸ ahead⟩
    · obtain ⟨v, u, evaluated, run⟩ := Run.bind_eq_ok.1 run
      have kept := congrArg (Option.map Variable.shape)
        (innermost?_declare_of_ne apart u v header.mutability header.life)
      rw [← shape?_eval natives evaluated]
      refine .inl (Eq.trans ?_ kept)
      -- What follows the declaration only adds records.
      cases debug with
      | false => cases run; rfl
      | true => cases run; rfl

theorem shape?_perform {collect : Bool} {line : Int} {stmt : Statement} {flow : Flow}
    (run : perform host (innerAt host n) collect line stmt s = .ok flow t) :
    t.shape? name = s.shape? name ∨
    (∃ header value debug, stmt = .declaration header value debug ∧ header.name = name ∧
      header.life.isHoisted = false) ∨
    ∃ a debug, stmt = .assignment a debug ∧ a.name = name ∧ a.accessors = [] ∧ a.mode = .plain := by
  have nested := nested_bodies_keep_scopes natives n s
  cases stmt with
  | declaration header value debug =>
    obtain ⟨_, u, declared, run⟩ := Run.bind_eq_ok.1 run
    cases run
    exact (shape?_runDeclaration natives declared).imp_right fun declares =>
      .inl ⟨header, value, debug, rfl, declares⟩
  | assignment a debug =>
    obtain ⟨v, u, assigned, run⟩ := Run.bind_eq_ok.1 run
    obtain ⟨_, w, reported, run⟩ := Run.bind_eq_ok.1 run
    cases run
    rw [shape?_of_frames (frames_reportValue reported)]
    refine (shape?_runAssignment natives assigned).imp_right fun declares => .inr ⟨a, debug, rfl, declares⟩
  | block body =>
    obtain ⟨r, u, ran, run⟩ := Run.bind_eq_ok.1 run
    cases run
    exact .inl ((nested.1 collect body).shape? ran name)
  | conditional bs =>
    obtain ⟨r, u, ran, run⟩ := Run.bind_eq_ok.1 run
    cases run
    exact .inl ((nested.2.1 collect bs).shape? ran name)
  | watch bs deps =>
    cases run
    exact .inl rfl
  | function fn =>
    cases run
    exact .inl (congrArg (Option.map Variable.shape) (innermost?_define _ _))
  | giveBack value debug =>
    cases value with
    | none =>
      cases debug with
      | false => cases run; exact .inl rfl
      | true => cases run; exact .inl rfl
    | some e =>
      obtain ⟨v, u, evaluated, run⟩ := Run.bind_eq_ok.1 run
      rw [← shape?_eval natives evaluated]
      cases debug with
      | false => cases run; exact .inl rfl
      | true => cases run; exact .inl rfl
  | call value debug => exact .inl (shape?_reported natives (k := fun _ => .next) run)
  | expression value debug => exact .inl (shape?_reported natives (k := .produced) run)

/-- A statement that gives the innermost frame another binding of a name is a declaration of that name, or a
plain assignment to it. -/
theorem Stage.Takes.declares {collect : Bool} {p q : Stage} {turn : Turn}
    (takes : p.Takes host (innerAt host n) collect turn q) (declares : turn.Declares name) :
    (∃ header value debug, turn.statement = .declaration header value debug ∧ header.name = name ∧
      header.life.isHoisted = false) ∨
    ∃ a debug, turn.statement = .assignment a debug ∧ a.name = name ∧ a.accessors = [] ∧ a.mode = .plain := by
  have ran := takes.ran
  rw [runStatement_of_ok takes.read] at ran
  obtain ⟨flow, u, performed, rest⟩ := Run.bind_eq_ok.1 ran
  have finish : turn.finish.shape? name = u.shape? name := by
    obtain ⟨_, w, noted, rest⟩ := Run.bind_eq_ok.1 rest
    cases noted
    injection rest with _ same
    rw [← same]
    rfl
  exact (shape?_perform natives performed).resolve_left fun kept => declares (finish.trans kept)

end Declaring

end Gapscript
