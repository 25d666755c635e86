import Gapscript.Proofs.Text.Order
import Gapscript.Proofs.Scope.Names
import Gapscript.Proofs.Session.Journeys
import Gapscript.Session.Repl

/-!
# Completion

What is offered for a word are its proper extensions to a keyword or to a name in force, each once and in
the order of their bytes (`completion_exact`). Names in force are those that a look-up finds, as long as no
frame has two variables of a name; every reachable interpreter keeps to that (`Reachable.keyed`).
-/

namespace Gapscript

/-! ## Reachable interpreters keep names apart -/

namespace Interpreter

variable {i : Interpreter}

theorem keyed_register (hi : i.state.Keyed) (f : HostFunction) : (i.register f).state.Keyed := by
  have numbered : State.Keyed { i.state with identities := i.state.identities + 1 } := hi
  exact (numbered.define _).of_frames rfl

theorem keyed_new (settings : Settings) (ticking : Bool) : (new settings ticking).state.Keyed := by
  refine List.foldlRecOn (motive := fun i : Interpreter => i.state.Keyed) Library.standard
    Interpreter.register (List.forall_mem_singleton.2 List.nodup_nil) fun i hi f _ => ?_
  exact keyed_register hi f

theorem keyed_reset (i : Interpreter) : i.reset.state.Keyed := by
  refine List.foldlRecOn (motive := State.Keyed) i.natives State.define
    (List.forall_mem_singleton.2 List.nodup_nil) fun s hs fn _ => ?_
  exact hs.define fn

/-- Names are kept apart at every moment of a request. -/
theorem Makes.keyed {i' : Interpreter} {host : Host} {start finish : State} {ds : List (Deed × Moment)}
    (makes : i.Makes i' host start ds finish) (natives : ∀ f ∈ i.functions, f.KeepsBindings)
    (balanced : i.state.Balanced) (hi : i.state.Keyed) :
    i'.state.Keyed ∧ ∀ e ∈ ds, e.2.state.Keyed := by
  have natives : ∀ f ∈ host.functions, f.KeepsBindings := makes.functions ▸ natives
  obtain ⟨line, values, rfl⟩ := makes.started
  obtain ⟨values', typed, rfl⟩ := makes.finished
  obtain ⟨finished, during⟩ := keyed_journey natives makes.journey ⟨balanced.height, balanced.limit⟩
    (hi.of_frames rfl)
  exact ⟨finished.of_frames rfl, during⟩

theorem Reachable.keyed (h : i.Reachable HostFunction.KeepsBindings) : i.state.Keyed := by
  induction h with
  | new settings ticking => exact keyed_new settings ticking
  | register _ f hf ih => exact keyed_register ih f
  | reset _ settings _ => exact keyed_reset _
  | serve hi r ih =>
    have idle := hi.idle_of_keepsBindings
    obtain ⟨host, start, ds, finish, makes⟩ := idle.makes r
    exact (makes.keyed idle.natives idle.balanced ih).1
  | report _ e source ih => exact ih.of_frames rfl
  | drain _ ih => exact ih.of_frames rfl
  | write _ text ih => exact ih.of_frames rfl
  | wait _ now ih => exact ih.of_frames rfl

end Interpreter

/-! ## The word before a place -/

/-- A character that ends a name: white space, a parenthesis or punctuation. -/
def EndsName (c : Char) : Prop := Lexical.isLayout c = true ∨ Terminator.isNameStop c = true

theorem isNameChar_iff (c : Char) : isNameChar c = true ↔ ¬ EndsName c := by
  simp [isNameChar, EndsName]

/-- The part of a name before the end of a text is as long as it can be. -/
theorem exists_of_nameBefore (t : Text) :
    ∃ front, t = front ++ nameBefore t ∧ (∀ c ∈ nameBefore t, ¬ EndsName c) ∧
      ∀ c ∈ front.getLast?, EndsName c := by
  refine ⟨(t.reverse.dropWhile isNameChar).reverse, ?_, fun c hc => ?_, fun c hc => ?_⟩
  · rw [nameBefore, ← List.reverse_append, List.takeWhile_append_dropWhile, List.reverse_reverse]
  · have held := List.all_eq_true.1 List.all_takeWhile c (List.mem_reverse.1 hc)
    exact (isNameChar_iff c).1 held
  · have stopped := List.head?_dropWhile_not isNameChar t.reverse
    rw [List.getLast?_reverse] at hc
    rw [hc] at stopped
    exact Classical.not_not.1 fun other => Bool.false_ne_true (stopped.symm.trans ((isNameChar_iff c).2 other))

/-! ## Names in order -/

/-- Of strings in order, each once is strictly in order. -/
theorem pairwise_lt_eraseDups (ss : List String) (h : ss.Pairwise (· ≤ ·)) : ss.eraseDups.Pairwise (· < ·) := by
  match ss with
  | [] => exact List.Pairwise.nil
  | s :: ss =>
    obtain ⟨least, rest⟩ := List.pairwise_cons.1 h
    rw [List.eraseDups_cons]
    refine List.pairwise_cons.2 ⟨fun t ht => ?_, pairwise_lt_eraseDups _ (rest.filter _)⟩
    obtain ⟨later, other⟩ := List.mem_filter.1 (List.mem_eraseDups.1 ht)
    have apart : t ≠ s := by simpa using other
    exact String.not_le.1 fun back => apart (String.le_antisymm back (least t later))
termination_by ss.length
decreasing_by exact Nat.lt_succ_of_le (List.length_filter_le _ _)

theorem pairwise_sortedDistinct (ss : List String) : (sortedDistinct ss).Pairwise (· < ·) := by
  refine pairwise_lt_eraseDups _ ?_
  have sorted := @List.pairwise_mergeSort String (fun a b => decide (a ≤ b))
    (fun a b c => by simpa using String.le_trans) (fun a b => by simpa using String.le_total a b) ss
  simpa using sorted

theorem mem_sortedDistinct {ss : List String} {s : String} : s ∈ sortedDistinct ss ↔ s ∈ ss := by
  rw [sortedDistinct, List.mem_eraseDups, List.mem_mergeSort]

/-! ## What is offered -/

/-- What would complete a word to a name, if the name extends it. -/
def ending? (start : Text) (name : String) : Option String :=
  if start.isPrefixOf name.toList && start.length < name.toList.length then
    some (String.ofList (name.toList.drop start.length))
  else none

theorem ending?_eq_some_iff {start : Text} {name ending : String} :
    ending? start name = some ending ↔ ending ≠ "" ∧ String.ofList start ++ ending = name := by
  rw [ending?]
  constructor
  · intro h
    split at h
    · next extends_ =>
      cases h
      obtain ⟨begins, longer⟩ := Bool.and_eq_true_iff.1 extends_
      have whole := List.prefix_iff_eq_append.1 (List.isPrefixOf_iff_prefix.1 begins)
      refine ⟨fun none => ?_, ?_⟩
      · have cut : name.toList.drop start.length = [] := by simpa using congrArg String.toList none
        have longer : start.length < name.toList.length := of_decide_eq_true longer
        exact absurd (List.drop_eq_nil_iff.1 cut) (Nat.not_le.2 longer)
      · rw [← String.ofList_append, whole, String.ofList_toList]
    · cases h
  · rintro ⟨some, rfl⟩
    have chars : (String.ofList start ++ ending).toList = start ++ ending.toList := by simp
    have longer : 0 < ending.toList.length := List.length_pos_iff.2 (mt String.toList_eq_nil_iff.1 some)
    rw [chars, List.drop_left, String.ofList_toList, if_pos]
    rw [Bool.and_eq_true, List.isPrefixOf_iff_prefix, decide_eq_true_eq, List.length_append]
    exact ⟨List.prefix_append start _, by omega⟩

/-- Two extensions of a word are ordered as their endings are. -/
theorem endings_lt {start a b : String} (h : start ++ a < start ++ b) : a.toList < b.toList := by
  rw [String.lt_iff, String.toList_append, String.toList_append] at h
  generalize start.toList = front at h
  induction front with
  | nil => exact h
  | cons c cs ih =>
    rw [List.cons_append, List.cons_append, List.cons_lt_cons_iff] at h
    rcases h with less | ⟨-, later⟩
    · exact absurd less (Char.lt_irrefl c)
    · exact ih later

/-- The answer to a request for completion at a position of a line. -/
structure Completes (s : State) (line : String) (pos : Nat) (answer : String × List String) : Prop where
  word : ∃ front, line.toList.take pos = front ++ answer.1.toList ∧ (∀ c ∈ answer.1.toList, ¬ EndsName c) ∧
    ∀ c ∈ front.getLast?, EndsName c
  ordered : answer.2.Pairwise fun a b => Lexical.utf8 a.toList < Lexical.utf8 b.toList
  offered : ∀ ending, ending ∈ answer.2 ↔ ending ≠ "" ∧
    (answer.1 ++ ending ∈ completionWords ∨ s.lookupVariable (answer.1 ++ ending) ≠ none ∨
      s.lookupFunction (answer.1 ++ ending) ≠ none)

/-- Completion is exact: the word is the longest run of name characters before the position, and what is
offered, strictly in the order of bytes, are the endings that extend it to a keyword or to a name that a
look-up of variables or of functions finds. -/
theorem completion_exact {s : State} (keyed : s.Keyed) (line : String) (pos : Nat) :
    Completes s line pos (complete s line pos) := by
  let start := nameBefore (line.toList.take pos)
  have answer : complete s line pos =
      (String.ofList start, (sortedDistinct (completionWords ++ s.visibleNames)).filterMap (ending? start)) := rfl
  rw [answer]
  refine ⟨?_, ?_, fun ending => ?_⟩
  · rw [String.toList_ofList]
    exact exists_of_nameBefore _
  · refine (pairwise_sortedDistinct _).filterMap _ fun a b less a' ha b' hb => ?_
    obtain ⟨-, rfl⟩ := ending?_eq_some_iff.1 ha
    obtain ⟨-, rfl⟩ := ending?_eq_some_iff.1 hb
    exact Lexical.utf8_lt (endings_lt less)
  · have candidate (name : String) : name ∈ sortedDistinct (completionWords ++ s.visibleNames) ↔
        name ∈ completionWords ∨ s.lookupVariable name ≠ none ∨ s.lookupFunction name ≠ none := by
      rw [mem_sortedDistinct, List.mem_append, s.mem_visibleNames_iff keyed]
    rw [List.mem_filterMap, ← candidate]
    constructor
    · rintro ⟨name, known, cut⟩
      obtain ⟨some, rfl⟩ := ending?_eq_some_iff.1 cut
      exact ⟨some, known⟩
    · rintro ⟨some, known⟩
      exact ⟨_, known, ending?_eq_some_iff.2 ⟨some, rfl⟩⟩

/-- An expired variable is not offered, a variable that a function shares its name with is offered once, and a
keyword is offered as a name is. -/
theorem completion_exact_expired :
    let i := ((Interpreter.new {} false).serve (.source
      "var var counter = 1n!\nvar var count <1> = 2n!\nfunction counter => 3n!\nprint 4n!" "")).2
    let answer := complete i.state "print [cou" 10
    i.state.Keyed ∧ answer.1 = "cou" ∧ "nter" ∈ answer.2 ∧ "nt" ∉ answer.2 ∧ answer.2.Nodup ∧
      "ction" ∈ (complete i.state "x.fun" 5).2 := by
  intro i answer
  have keyed : i.state.Keyed := (Interpreter.Reachable.serve (.new {} false) _).keyed
  obtain ⟨-, ordered, offered⟩ := completion_exact keyed "print [cou" 10
  have word : answer.1 = "cou" := by decide
  -- The text is run once for all that is asked of the state it leaves.
  obtain ⟨live, gone, noFunction⟩ : (i.state.lookupVariable "counter").isSome = true ∧
      (i.state.lookupVariable "count").isNone = true ∧ (i.state.lookupFunction "count").isNone = true := by
    decide +kernel
  have keyword : (complete i.state "x.fun" 5).1 = "fun" := by decide
  refine ⟨keyed, word, (offered "nter").2 ⟨by decide, .inr (.inl ?_)⟩, fun listed => ?_, ?_, ?_⟩
  · rw [show (complete i.state "print [cou" 10).1 = "cou" from word]
    exact Option.ne_none_iff_isSome.2 live
  · obtain ⟨-, known⟩ := (offered "nt").1 listed
    rw [show (complete i.state "print [cou" 10).1 = "cou" from word] at known
    rcases known with reserved | variable_ | function
    · exact absurd reserved (by decide)
    · exact variable_ (Option.isNone_iff_eq_none.1 gone)
    · exact function (Option.isNone_iff_eq_none.1 noFunction)
  · refine List.Pairwise.imp ?_ ordered
    rintro a _ less rfl
    exact List.lt_irrefl _ less
  · refine ((completion_exact keyed "x.fun" 5).offered "ction").2 ⟨by decide, .inl ?_⟩
    rw [keyword]
    decide

end Gapscript
