import Gapscript.Proofs.Run.Breaking
import Gapscript.Proofs.Run.Stock
import Gapscript.Proofs.Text.Places

/-!
# Failures over what was typed

A `Ledger` is what has been typed since an interpreter was reset. What a program typed there can get
hold of comes from `Ledger.source`: bodies are pieces of the typed lines, at their places. A failure of a task
that has a place begins with a task that it comes to, over a piece of what was typed (`Ledger.Places`).
`k.Keeps E s x Q` is the judgment about runs: from a state in which everything comes from the ledger, the run ends
in such a state, with a result that `Q` holds of or with a failure that `E` permits.
-/

namespace Gapscript

open Cursor Reading

/-! ## What has been typed -/

/-- The lines that have been typed, and the first object made since. -/
structure Ledger where
  lines : List String
  unbroken : ∀ line ∈ lines, '\n' ∉ line.toList
  base : Nat

namespace Ledger

variable (k : Ledger)

/-- The cursor stands over an input, where it was typed. -/
inductive Typed (c : Cursor) : Prop
  | intro (before : List String) (input : String) (later : List String)
    (lines : k.lines = before ++ (input.splitOn "\n" ++ later))
    (cursor : c = ⟨input.toList, { line := before.length + 1, file := typedSource }⟩)
    (tidy : Text.Tidy input.toList)

/-- The cursor stands over a piece of an input, at its place. -/
def Piece (c : Cursor) : Prop := ∃ d, k.Typed d ∧ d.Includes c

/-- What can be called: functions of the host, and pieces of what was typed. -/
def Callable (fn : Function) : Prop :=
  ∀ text pos block, fn.body = .script text pos block → k.Piece ⟨text, pos⟩

/-- What a program that was typed can get hold of. -/
def source : Source where
  Occurs _ := True
  Piece := k.Piece
  Holds
    | .object ref => k.base ≤ ref
    | .function fn => k.Callable fn.code
    | _ => True

/-- The watch was typed. -/
def Watches (w : Watch) : Prop :=
  ∀ b ∈ w.branches, k.Piece b.body ∧ ∀ g, b.guard = some g → k.Piece ⟨g.text, g.pos⟩

/-- Everything that the state binds, watches or keeps was typed. -/
def Kept (s : State) : Prop := s.Stocked k.source.Holds k.Watches

variable {k} {c d : Cursor}

theorem Typed.piece (h : k.Typed c) : k.Piece c := ⟨c, h, (Reaches.refl c).includes⟩

theorem Piece.includes (h : k.Piece c) (hd : c.Includes d) : k.Piece d := by
  obtain ⟨start, typed, inside⟩ := h
  exact ⟨start, typed, inside.trans hd⟩

theorem Piece.reaches (h : k.Piece c) (hd : c.Reaches d) : k.Piece d := h.includes hd.includes

theorem Piece.covers (h : k.Piece c) : k.source.Covers c := ⟨fun _ => trivial, fun hd => h.includes hd⟩

theorem Piece.tidy (h : k.Piece c) : Text.Tidy c.rest := by
  obtain ⟨_, ⟨before, input, later, -, rfl, tidy⟩, inside⟩ := h
  exact Text.Tidy.includes tidy inside

/-- A piece of what was typed is found in the lines at its place. -/
theorem Piece.found (h : k.Piece c) :
    c.pos.file = typedSource ∧ c.pos.Within k.lines ∧ c.rest <+: textFrom k.lines c.pos := by
  obtain ⟨_, ⟨before, input, later, lines, rfl, -⟩, p, q, text, place⟩ := h
  have ahead : ("\n".intercalate (input.splitOn "\n" ++ later)).toList =
      p ++ (c.rest ++ (q ++ textBehind later)) := by
    rw [toList_join_append (splitOn_newline_ne_nil input), join_splitOn]
    change input.toList = _ at text
    rw [text]
    simp only [List.append_assoc]
  have stands : Stands k.lines c.pos (c.rest ++ (q ++ textBehind later)) := by
    rw [place]
    refine Stands.afterText k.unbroken ?_
    rw [lines, ← ahead]
    exact Stands.start (by simp [splitOn_newline_ne_nil]) rfl rfl
  refine ⟨?_, stands.within, ?_⟩
  · rw [place, Position.afterText_file]
  · rw [stands.textFrom_eq]
    exact List.prefix_append _ _

theorem holds_of_plain {v : Value} (h : v.isReference = false) : k.source.Holds v := by
  cases v with
  | object ref | function fn => cases h
  | _ => trivial

theorem callable_of_code {fn : Function} (h : k.source.Code fn) : k.Callable fn := by
  obtain ⟨-, text, pos, block, hbody, piece⟩ := h
  intro text' pos' block' hbody'
  rw [hbody] at hbody'
  cases hbody'
  exact piece

theorem accord_names {s : State} (hs : k.Kept s) : s.names.Accord k.source s.names where
  value _ := rfl
  callee _ := rfl
  holds hv := by
    obtain ⟨v, found, rfl⟩ := Option.map_eq_some_iff.1 hv
    exact hs.lookupVariable found
  callable hfn := hs.lookupCallable hfn
  plain := holds_of_plain

end Ledger

/-! ## Places -/

namespace Ledger

variable (k : Ledger)

/-- If the failure has a place, the task comes to one that it begins with, over a piece of what was typed. -/
def Places (host : Host) (τ : Task) (e : Error) : Prop :=
  ∀ p, e.pos? = some p →
    ∃ τ' d, Relation.ReflTransGen (Starts host) τ τ' ∧ Raises host τ' e d ∧ k.Piece d

/-- The failure begins with a task over what was typed, and takes no other place. -/
def Settles (host : Host) (τ : Task) (e : Error) : Prop := k.Places host τ e ∧ ∀ pos, e.withPosition pos = e

/-- From the state, the run ends in a kept state, with what `Q` holds of or a failure that `E` permits. -/
structure Keeps {α : Type} (E : Error → Prop) (s : State) (x : Run α) (Q : α → Prop) : Prop where
  ok : ∀ {a t}, x s = .ok a t → k.Kept t ∧ Q a
  error : ∀ {e t}, x s = .error e t → k.Kept t ∧ E e

variable {k} {host : Host} {τ τ' : Task} {d : Cursor} {pos : Position} {e : Error}

theorem places_of_unplaced (h : e.pos? = none) : k.Places host τ e := by
  intro p place
  rw [h] at place
  cases place

theorem places_ofFault (f : TypeFault) : k.Places host τ (.ofFault f) := places_of_unplaced rfl

theorem places_of_raises (raises : Raises host τ e d) (piece : k.Piece d) : k.Places host τ e :=
  fun _ _ => ⟨τ, d, .refl, raises, piece⟩

theorem Places.starts (h : k.Places host τ' e) (first : Starts host τ τ') : k.Places host τ e := by
  intro p place
  obtain ⟨τ'', d, reached, found⟩ := h p place
  exact ⟨τ'', d, .head first reached, found⟩

theorem Settles.starts (h : k.Settles host τ' e) (first : Starts host τ τ') : k.Settles host τ e :=
  ⟨h.1.starts first, h.2⟩

/-- A reading of what was typed that stops has its failure from there. -/
theorem places_of_unread {o : Origin} (unread : Unread host τ o e) (stops : o.Stops e) (piece : k.Piece o.cursor) :
    k.Places host τ e.settled := by
  intro p place
  obtain ⟨d, halts⟩ := stops p ((e.pos?_settled).symm.trans place)
  exact ⟨τ, d, .refl, .unread unread halts, piece.reaches halts.reached⟩

section Rules

variable {α β : Type} {s t : State} {E F : Error → Prop} {P Q : α → Prop}

theorem keeps_of_ok {x : Run α} {a : α} (run : x s = .ok a t) (ht : k.Kept t) (ha : Q a) :
    k.Keeps E s x Q := by
  constructor
  · intro b u same
    rw [run] at same
    cases same
    exact ⟨ht, ha⟩
  · intro e u same
    rw [run] at same
    cases same

theorem keeps_of_error {x : Run α} (run : x s = .error e t) (ht : k.Kept t) (he : E e) :
    k.Keeps E s x Q := by
  constructor
  · intro b u same
    rw [run] at same
    cases same
  · intro e' u same
    rw [run] at same
    cases same
    exact ⟨ht, he⟩

theorem Keeps.of_eq {x y : Run α} (same : x s = y t) (h : k.Keeps E t y Q) : k.Keeps E s x Q :=
  ⟨fun run => h.ok (same.symm.trans run), fun run => h.error (same.symm.trans run)⟩

theorem keeps_pure (hs : k.Kept s) {a : α} (h : Q a) : k.Keeps E s (pure a) Q := keeps_of_ok rfl hs h

theorem keeps_throw (hs : k.Kept s) (h : E e) : k.Keeps E s (throw e : Run α) Q := keeps_of_error rfl hs h

theorem Keeps.mono {x : Run α} (h : k.Keeps E s x P) (weaken : ∀ a, P a → Q a) : k.Keeps E s x Q :=
  ⟨fun run => (h.ok run).imp_right (weaken _), h.error⟩

theorem Keeps.permit {x : Run α} (h : k.Keeps E s x Q) (weaken : ∀ e, E e → F e) : k.Keeps F s x Q :=
  ⟨h.ok, fun run => (h.error run).imp_right (weaken _)⟩

/-- What comes next starts from what the first run has ended with. -/
theorem Keeps.bind {x : Run α} {f : α → Run β} {R : β → Prop} (hx : k.Keeps E s x P)
    (hf : ∀ a t, x s = .ok a t → P a → k.Kept t → k.Keeps E t (f a) R) : k.Keeps E s (x >>= f) R := by
  cases first : x s with
  | ok a t =>
    obtain ⟨ht, ha⟩ := hx.ok first
    exact (hf a t first ha ht).of_eq (Run.bind_of_ok first)
  | error e t =>
    obtain ⟨ht, he⟩ := hx.error first
    exact keeps_of_error (Run.bind_of_error first) ht he

theorem keeps_throw_bind (hs : k.Kept s) (h : E e) {f : α → Run β} {R : β → Prop} :
    k.Keeps E s (throw e >>= f) R :=
  (keeps_throw (Q := fun _ => False) hs h).bind fun _ _ _ never => never.elim

theorem Keeps.get_bind {f : State → Run β} {R : β → Prop} (h : k.Keeps E s (f s) R) :
    k.Keeps E s (get >>= f) R := h.of_eq (Run.get_bind f s)

theorem Keeps.modify_bind {g : State → State} {f : PUnit → Run β} {R : β → Prop} (h : k.Keeps E (g s) (f ⟨⟩) R) :
    k.Keeps E s (modify g >>= f) R := h.of_eq (Run.modify_bind g f s)

theorem keeps_modifyGet {f : State → α × State} (ht : k.Kept (f s).2) (ha : Q (f s).1) :
    k.Keeps E s (modifyGet f) Q := keeps_of_ok rfl ht ha

theorem keeps_modify {f : State → State} (ht : k.Kept (f s)) :
    k.Keeps E s (modify f : Run PUnit) fun _ => True := keeps_modifyGet ht trivial

theorem keeps_set (ht : k.Kept t) : k.Keeps E s (set t : Run PUnit) fun _ => True :=
  keeps_of_ok rfl ht trivial

theorem keeps_log (hs : k.Kept s) (level : Level) (category : Category) (message : String) :
    k.Keeps E s (Run.log level category message) fun _ => True := keeps_modify (hs.congr rfl rfl rfl)

theorem keeps_debug (hs : k.Kept s) (category : Category) (message : String) :
    k.Keeps E s (Run.debug category message) fun _ => True := keeps_log hs _ _ _

theorem keeps_display (hs : k.Kept s) (v : Value) : k.Keeps E s (Run.display v) fun _ => True :=
  Keeps.get_bind (keeps_pure hs trivial)

theorem keeps_ofFault (hs : k.Kept s) {r : Except TypeFault α} (h : ∀ a, r = .ok a → Q a) :
    k.Keeps (k.Places host τ) s (Run.ofFault r) Q := by
  cases r with
  | ok a => exact keeps_pure hs (h a rfl)
  | error f => exact keeps_throw hs (places_ofFault f)

/-- What a task that comes to another one does not do itself is left to this one. -/
theorem Keeps.starts {x : Run α} (h : k.Keeps (k.Places host τ') s x Q) (first : Starts host τ τ') :
    k.Keeps (k.Places host τ) s x Q := h.permit fun _ placed => placed.starts first

/-- What is read in a piece of what was typed stands there and comes from the source. -/
theorem keeps_read (hs : k.Kept s) {c : Cursor} (piece : k.Piece c) {p : Names → Reading α}
    (given : (p s.names).Gives P) (ends : Concludes (Origin.Stops ⟨s.names, c⟩) (p s.names) Q)
    (unread : ∀ {e}, (p s.names).outcome = .error e → Unread host τ ⟨s.names, c⟩ e) :
    k.Keeps (k.Settles host τ) s (Run.read p) fun a => P a ∧ Q a := by
  cases run : p s.names [] with
  | ok a l' =>
    have whole : Run.read p s = .ok a s := by rw [Run.read, Reading.outcome, run]
    exact keeps_of_ok whole hs ⟨given.of_run_ok run, ends.ok run⟩
  | error e l' =>
    have failed : (p s.names).outcome = .error e := by rw [Reading.outcome, run]
    have whole : Run.read p s = .error e.settled s := by rw [Run.read, failed]
    refine keeps_of_error whole hs ⟨places_of_unread (unread failed) (ends.error run) piece, fun pos => ?_⟩
    cases given.of_outcome_error failed with
    | mismatch e => rfl
    | tooFew => rfl

theorem Keeps.relocate {x : Run α} {given : Option Position} (h : k.Keeps E s x Q)
    (located : ∀ {e t}, x s = .error e t → E e → F (e.withPosition given)) :
    k.Keeps F s (Run.locate given x) Q := by
  cases first : x s with
  | ok a t =>
    obtain ⟨ht, ha⟩ := h.ok first
    exact keeps_of_ok (by rw [Run.locate, first]) ht ha
  | error e t =>
    obtain ⟨ht, he⟩ := h.error first
    exact keeps_of_error (by rw [Run.locate, first]) ht (located first he)

/-- Where a failure gets a place that it did not have, it begins. -/
theorem Keeps.locate {x : Run α} (h : k.Keeps (k.Places host τ) s x Q) (piece : k.Piece d)
    (raises : ∀ {e}, x.FailsAt d.pos s e → Raises host τ e d) :
    k.Keeps (k.Places host τ) s (Run.locate (some d.pos) x) Q := by
  refine h.relocate fun {e t} failed placed => ?_
  cases known : e.pos? with
  | some p => rwa [Error.withPosition_of_pos? known]
  | none =>
    intro p place
    have fails : x.FailsAt d.pos s (e.withPosition (some d.pos)) :=
      ⟨⟨e, t, failed, known, rfl⟩, Error.pos?_withPosition known place⟩
    exact places_of_raises (raises fails) piece p place

theorem Keeps.placed {x : Run α} (h : k.Keeps (k.Settles host τ) s x Q) : k.Keeps (k.Places host τ) s x Q :=
  h.permit fun _ => And.left

/-- What has been given a place takes no other one. -/
theorem Keeps.settle {x : Run α} (h : k.Keeps (k.Places host τ) s (Run.locate (some pos) x) Q) :
    k.Keeps (k.Settles host τ) s (Run.locate (some pos) x) Q := by
  cases first : x s with
  | ok a t =>
    have run : Run.locate (some pos) x s = .ok a t := by rw [Run.locate, first]
    obtain ⟨ht, ha⟩ := h.ok run
    exact keeps_of_ok run ht ha
  | error e t =>
    have run : Run.locate (some pos) x s = .error (e.withPosition (some pos)) t := by rw [Run.locate, first]
    obtain ⟨ht, placed⟩ := h.error run
    exact keeps_of_error run ht ⟨placed, e.withPosition_withPosition pos⟩

theorem Keeps.unmoved {x : Run α} (h : k.Keeps (k.Settles host τ) s x Q) (given : Option Position) :
    k.Keeps (k.Places host τ) s (Run.locate given x) Q := by
  refine h.relocate fun _ ⟨placed, same⟩ => ?_
  rwa [same]

theorem Keeps.always {x : Run α} {cleanup : State → State} (h : k.Keeps E s x Q)
    (clean : ∀ t, k.Kept t → k.Kept (cleanup t)) : k.Keeps E s (Run.always cleanup x) Q := by
  cases first : x s with
  | ok a t =>
    obtain ⟨ht, ha⟩ := h.ok first
    exact keeps_of_ok (by rw [Run.always, first]) (clean t ht) ha
  | error e t =>
    obtain ⟨ht, he⟩ := h.error first
    exact keeps_of_error (by rw [Run.always, first]) (clean t ht) he

theorem keeps_leave (hs : k.Kept s) : k.Keeps (k.Places host τ) s Run.leave fun _ => True := by
  cases left : s.pop? with
  | some t => exact keeps_of_ok (by rw [Run.leave, left]) (hs.pop left) trivial
  | none => exact keeps_of_error (by rw [Run.leave, left]) hs (places_of_unplaced rfl)

/-- A frame is entered and left around the run, or refused. -/
theorem Keeps.inFrame (hs : k.Kept s) {x : Run α}
    (h : ∀ t, s.push = .ok t → k.Kept t → k.Keeps (k.Places host τ) t x Q)
    (refused : ∀ {f}, s.push = .error f → k.Places host τ ((Error.ofFault f).withPosition (some pos))) :
    k.Keeps (k.Places host τ) s (Run.inFrame (some pos) x) Q := by
  cases entered : s.push with
  | error f => exact keeps_of_error (inFrame_of_refused entered _ _) hs (refused entered)
  | ok u =>
    have inside := h u entered (hs.push entered)
    cases first : x u with
    | ok a v =>
      have left : Run.inFrame (some pos) x s = (do Run.leave; pure a : Run α) v := by
        rw [Run.inFrame, entered]
        dsimp only
        rw [first]
      obtain ⟨hv, ha⟩ := inside.ok first
      exact Keeps.of_eq left ((keeps_leave hv).bind fun _ _ _ _ ht => keeps_pure ht ha)
    | error e v =>
      have left : Run.inFrame (some pos) x s = (do Run.leave; throw e : Run α) v := by
        rw [Run.inFrame, entered]
        dsimp only
        rw [first]
      obtain ⟨hv, he⟩ := inside.error first
      exact Keeps.of_eq left ((keeps_leave hv).bind fun _ _ _ _ ht => keeps_throw ht he)

end Rules

end Ledger

end Gapscript
