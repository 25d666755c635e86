import Gapscript.Proofs.Expr.RoundTrip
import Gapscript.Proofs.Lexical.Gap
import Gapscript.Proofs.Reading.Heading
import Mathlib

/-!
# Runs of prefix operators

In front of an operand the reader takes as many prefix operators as there are, each with the white space
behind it (`exists_prefixes`, `unaryRuns_of_prefixes`), and groups those of one kind that stand back to back
into runs (`groups_extendAll`). The operators of a run cancel in pairs. A run that cancels altogether leaves
its white space to the kept run before it, across other runs that cancel (`collapse_of_groups`), so the odd runs
are kept, and cancelling again changes nothing (`prefix_runs_cancel`).
-/

namespace Gapscript

open Lexical

/-! ## Prefix operators as they are written -/

/-- The text of prefix operators, each with the white space behind it. -/
def prefixText (ops : List (UnaryOp × Text)) : Text := ops.flatMap fun o => o.1.token.toList ++ o.2

/-- In front of `ahead`, each of the operators has its white space behind it, and all of it. -/
def AllSpaced (ahead : Text) : List (UnaryOp × Text) → Prop
  | [] => True
  | (_, s) :: ops =>
    Spacing (prefixText ops ++ ahead) s ∧ opensGap (prefixText ops ++ ahead) = false ∧ AllSpaced ahead ops

/-- The runs after some more operators with the widths behind them, the latest first. -/
def UnaryRun.extendAll (runs : List UnaryRun) (ops : List (UnaryOp × Nat)) : List UnaryRun :=
  ops.foldl (fun runs o => extend o.1 o.2 runs) runs

section Reading

variable {ops : List (UnaryOp × Text)} {ahead s t : Text} {c : Cursor} {x : Char} {op : UnaryOp}

theorem token_of_unaryOfChar? (known : unaryOfChar? x = some op) : op.token.toList = [x] := by
  unfold unaryOfChar? at known
  split at known
  · next minus =>
    cases known
    rw [beq_iff_eq.1 minus]
    rfl
  · split at known
    · next semicolon =>
      cases known
      rw [beq_iff_eq.1 semicolon]
      rfl
    · cases known

theorem prefixText_cons (known : unaryOfChar? x = some op) (s : Text) (ops : List (UnaryOp × Text)) :
    prefixText ((op, s) :: ops) = x :: (s ++ prefixText ops) := by
  rw [prefixText, List.flatMap_cons, token_of_unaryOfChar? known]
  rfl

theorem runsFrom_unary (known : unaryOfChar? x = some op) (width : gap (s ++ t) = s.length) (runs : List UnaryRun) :
    runsFrom runs 0 (x :: (s ++ t)) =
      Prod.map id (· + (s.length + 1)) (runsFrom (UnaryRun.extend op s.length runs) 0 t) := by
  have fits : s.length ≤ (s ++ t).length := by
    rw [List.length_append]
    exact Nat.le_add_right _ _
  rw [runsFrom, known]
  dsimp only
  rw [width, runsFrom_gap _ fits, List.drop_left]
  rfl

theorem runsFrom_stop (stop : t.head?.bind unaryOfChar? = none) (runs : List UnaryRun) :
    runsFrom runs 0 t = (runs, 0) := by
  cases t with
  | nil => rfl
  | cons x t =>
    have none : unaryOfChar? x = none := stop
    rw [runsFrom, none]

/-- Operators in front of `ahead` are read one after the other, and the scan goes on from there. -/
theorem runsFrom_prefixText (spaced : AllSpaced ahead ops) (runs : List UnaryRun) :
    runsFrom runs 0 (prefixText ops ++ ahead) = Prod.map id (· + (prefixText ops).length)
      (runsFrom (UnaryRun.extendAll runs (ops.map fun o => (o.1, o.2.length))) 0 ahead) := by
  induction ops generalizing runs with
  | nil => rfl
  | cons o ops ih =>
    obtain ⟨op, s⟩ := o
    obtain ⟨spacing, stop, spaced⟩ := spaced
    obtain ⟨x, -, known⟩ := unaryOfChar?_token op
    rw [prefixText_cons known, List.cons_append, List.append_assoc,
      runsFrom_unary known (gap_of_spacing spacing stop), ih spaced, List.length_cons, List.length_append,
      Prod.map_map]
    refine congrArg (Prod.map id · _) (funext fun n => ?_)
    change n + _ + (s.length + 1) = n + _
    omega

/-- Every text begins with operators that have their white space behind them, and then no operator comes. -/
theorem exists_prefixes (t : Text) :
    ∃ ops ahead, t = prefixText ops ++ ahead ∧ AllSpaced ahead ops ∧ ahead.head?.bind unaryOfChar? = none := by
  induction size : t.length using Nat.strong_induction_on generalizing t with
  | _ n ih =>
    cases first : t.head?.bind unaryOfChar? with
    | none => exact ⟨[], t, rfl, trivial, first⟩
    | some op =>
      obtain ⟨x, here, known⟩ := Option.bind_eq_some_iff.1 first
      obtain ⟨u, rfl⟩ := List.head?_eq_some_iff.1 here
      obtain ⟨s, v, rfl, spacing, stop⟩ := exists_spacing u
      have shorter : v.length < n := by
        rw [← size, List.length_cons, List.length_append]
        omega
      obtain ⟨ops, ahead, rfl, spaced, last⟩ := ih _ shorter v rfl
      refine ⟨(op, s) :: ops, ahead, ?_, ⟨spacing, stop, spaced⟩, last⟩
      rw [prefixText_cons known, List.cons_append, List.append_assoc]

/-- The runs under a cursor are those of the operators it stands before. -/
theorem unaryRuns_of_prefixes (split : c.rest = prefixText ops ++ ahead) (spaced : AllSpaced ahead ops)
    (stop : ahead.head?.bind unaryOfChar? = none) :
    unaryRuns c = ((UnaryRun.extendAll [] (ops.map fun o => (o.1, o.2.length))).reverse,
      c.skip (prefixText ops).length) := by
  unfold unaryRuns
  rw [split, runsFrom_prefixText spaced, runsFrom_stop stop]
  dsimp only [Prod.map, id]
  rw [Nat.zero_add]

/-- Where no operator comes behind them, no longer text of operators stands there. -/
theorem isPrefix_prefixText {ops' : List (UnaryOp × Text)} {ahead' : Text} (spaced : AllSpaced ahead ops)
    (stop : ahead.head?.bind unaryOfChar? = none) (spaced' : AllSpaced ahead' ops')
    (same : prefixText ops' ++ ahead' = prefixText ops ++ ahead) : prefixText ops' <+: prefixText ops := by
  have scan := congrArg Prod.snd (runsFrom_prefixText spaced' [])
  rw [same, runsFrom_prefixText spaced, runsFrom_stop stop, Prod.map_snd, Prod.map_snd, Nat.zero_add] at scan
  have shorter : (prefixText ops').length ≤ (prefixText ops).length := scan ▸ Nat.le_add_left _ _
  exact List.prefix_of_prefix_length_le (same ▸ List.prefix_append _ _) (List.prefix_append _ _) shorter

end Reading

/-! ## Runs -/

namespace UnaryRun

/-- The operators of a run with the widths behind them: only the last one has white space behind it. -/
def operators (r : UnaryRun) : List (UnaryOp × Nat) := List.replicate (r.count - 1) (r.op, 0) ++ [(r.op, r.width)]

/-- The runs are the groups of equal operators that stand back to back. -/
structure Groups (runs : List UnaryRun) (ops : List (UnaryOp × Nat)) : Prop where
  operators : runs.flatMap operators = ops
  nonempty : ∀ r ∈ runs, 0 < r.count
  apart : runs.IsChain fun r s => r.op = s.op → 0 < r.width

variable {runs rs : List UnaryRun} {r : UnaryRun} {ops done : List (UnaryOp × Nat)}

theorem operators_grown (nonempty : 0 < r.count) (closed : r.width = 0) (width : Nat) :
    operators { r with count := r.count + 1, width := width } = r.operators ++ [(r.op, width)] := by
  have earlier : r.count = r.count - 1 + 1 := (Nat.succ_pred_eq_of_pos nonempty).symm
  rw [operators, operators, closed, ← List.replicate_succ', ← earlier]
  rfl

/-- One more operator belongs to the latest run or starts a new one. -/
theorem groups_extend (groups : Groups runs.reverse ops) (op : UnaryOp) (width : Nat) :
    Groups (extend op width runs).reverse (ops ++ [(op, width)]) := by
  cases runs with
  | nil =>
    obtain rfl : [] = ops := groups.operators
    exact ⟨rfl, by simp [extend], by simp [extend]⟩
  | cons r rs =>
    obtain ⟨rfl, nonempty, apart⟩ := groups
    rw [extend]
    split
    · next same =>
      obtain ⟨rfl, closed⟩ := same
      rw [List.reverse_cons] at nonempty apart ⊢
      obtain ⟨before, here⟩ := List.forall_mem_append.1 nonempty
      obtain ⟨chain, -, border⟩ := List.isChain_append.1 apart
      have grown := operators_grown (here r List.mem_cons_self) closed width
      refine ⟨by simp [grown], List.forall_mem_append.2 ⟨before, by simp⟩, ?_⟩
      refine List.isChain_append.2 ⟨chain, List.isChain_singleton _, fun q last s first => ?_⟩
      cases first
      exact border q last r rfl
    · next other =>
      rw [List.reverse_cons]
      refine ⟨?_, List.forall_mem_append.2 ⟨nonempty, by simp⟩, ?_⟩
      · rw [List.flatMap_append]
        rfl
      · refine List.isChain_append.2 ⟨apart, List.isChain_singleton _, fun q last s first same => ?_⟩
        cases first
        rw [List.getLast?_reverse] at last
        cases last
        exact Nat.pos_of_ne_zero fun closed => other ⟨same, closed⟩

theorem groups_extendAll (groups : Groups runs.reverse done) (ops : List (UnaryOp × Nat)) :
    Groups (extendAll runs ops).reverse (done ++ ops) := by
  induction ops generalizing runs done with
  | nil => rwa [List.append_nil]
  | cons o ops ih =>
    have grown := ih (groups_extend groups o.1 o.2)
    rwa [List.append_assoc] at grown

/-! ## Cancelling -/

/-- Runs that cancel leave their white space to the kept run before them. -/
theorem foldl_keep_even (even : ∀ r ∈ rs, r.count % 2 = 0) (k : UnaryRun) (kept : List UnaryRun) :
    rs.foldl keep (k :: kept) = { k with width := k.width + (rs.map (·.width)).sum } :: kept := by
  induction rs generalizing k with
  | nil => rfl
  | cons r rs ih =>
    obtain ⟨here, later⟩ := List.forall_mem_cons.1 even
    rw [List.foldl_cons, keep, if_pos here, ih later, List.map_cons, List.sum_cons, Nat.add_assoc]

theorem foldl_keep_nil (even : ∀ r ∈ rs, r.count % 2 = 0) : rs.foldl keep [] = [] := by
  induction rs with
  | nil => rfl
  | cons r rs ih =>
    obtain ⟨here, later⟩ := List.forall_mem_cons.1 even
    rw [List.foldl_cons, keep, if_pos here]
    exact ih later

/-- What is kept of an odd run and the runs behind it that cancel. -/
def absorbed (g : UnaryRun × List UnaryRun) : UnaryRun := ⟨g.1.op, 1, g.1.width + (g.2.map (·.width)).sum⟩

theorem foldl_keep_groups {groups : List (UnaryRun × List UnaryRun)}
    (odd : ∀ g ∈ groups, g.1.count % 2 = 1 ∧ ∀ r ∈ g.2, r.count % 2 = 0) (kept : List UnaryRun) :
    (groups.flatMap fun g => g.1 :: g.2).foldl keep kept = (groups.map absorbed).reverse ++ kept := by
  induction groups generalizing kept with
  | nil => rfl
  | cons g groups ih =>
    obtain ⟨⟨here, even⟩, later⟩ := List.forall_mem_cons.1 odd
    have first : keep kept g.1 = { g.1 with count := 1 } :: kept := if_neg (by omega)
    rw [List.flatMap_cons, List.foldl_append, List.foldl_cons, first, foldl_keep_even even, ih later, List.map_cons,
      List.reverse_cons, List.append_assoc]
    rfl

theorem collapse_of_groups {lead : List UnaryRun} {groups : List (UnaryRun × List UnaryRun)}
    (even : ∀ r ∈ lead, r.count % 2 = 0) (odd : ∀ g ∈ groups, g.1.count % 2 = 1 ∧ ∀ r ∈ g.2, r.count % 2 = 0) :
    collapse (lead ++ groups.flatMap fun g => g.1 :: g.2) = groups.map absorbed := by
  rw [collapse, List.foldl_append, foldl_keep_nil even, foldl_keep_groups odd, List.append_nil, List.reverse_reverse]

/-- Every list of runs is some that cancel, and then odd ones each with those behind it that cancel. -/
theorem exists_groups (runs : List UnaryRun) :
    ∃ (lead : List UnaryRun) (groups : List (UnaryRun × List UnaryRun)),
      runs = lead ++ groups.flatMap (fun g => g.1 :: g.2) ∧ (∀ r ∈ lead, r.count % 2 = 0) ∧
      ∀ g ∈ groups, g.1.count % 2 = 1 ∧ ∀ r ∈ g.2, r.count % 2 = 0 := by
  induction runs with
  | nil => exact ⟨[], [], rfl, by simp, by simp⟩
  | cons r runs ih =>
    obtain ⟨lead, groups, rfl, even, odd⟩ := ih
    rcases Nat.mod_two_eq_zero_or_one r.count with here | here
    · exact ⟨r :: lead, groups, rfl, List.forall_mem_cons.2 ⟨here, even⟩, odd⟩
    · exact ⟨[], (r, lead) :: groups, rfl, by simp, List.forall_mem_cons.2 ⟨⟨here, even⟩, odd⟩⟩

/-- Single operators do not cancel. -/
theorem collapse_of_single (single : ∀ r ∈ runs, r.count = 1) : collapse runs = runs := by
  have split : (runs.map fun r => (r, ([] : List UnaryRun))).flatMap (fun g => g.1 :: g.2) = runs := by
    rw [List.flatMap_map]
    exact List.flatMap_singleton' runs
  have even : ∀ r ∈ ([] : List UnaryRun), r.count % 2 = 0 := by simp
  have odd : ∀ g ∈ runs.map fun r => (r, ([] : List UnaryRun)),
      g.1.count % 2 = 1 ∧ ∀ r ∈ g.2, r.count % 2 = 0 := by simp +contextual [single]
  have kept := collapse_of_groups even odd
  rw [List.nil_append, split, List.map_map] at kept
  rw [kept]
  refine (List.map_congr_left fun r inside => ?_).trans (List.map_id runs)
  obtain ⟨op, count, width⟩ := r
  obtain rfl : count = 1 := single _ inside
  rfl

theorem collapse_collapse (runs : List UnaryRun) : collapse (collapse runs) = collapse runs := by
  obtain ⟨lead, groups, rfl, even, odd⟩ := exists_groups runs
  rw [collapse_of_groups even odd]
  refine collapse_of_single fun r kept => ?_
  obtain ⟨g, -, rfl⟩ := List.mem_map.1 kept
  rfl

end UnaryRun

/-- Under a cursor the longest text of prefix operators, each with its white space behind it, is read. The runs
are the groups of equal operators that stand back to back, and their widths are those of the white space behind
their last operators. Of any runs those of odd count are kept, in their order and with one operator each; the
widths of the runs that cancel are added to the kept run before them. Cancelling again changes nothing. -/
theorem prefix_runs_cancel (c : Cursor) (runs : List UnaryRun) :
    (∃ ops : List (UnaryOp × Text),
      c.rest = prefixText ops ++ (unaryRuns c).2.rest ∧ (unaryRuns c).2 = c.skip (prefixText ops).length ∧
      AllSpaced (unaryRuns c).2.rest ops ∧
      (∀ ops' ahead', c.rest = prefixText ops' ++ ahead' → AllSpaced ahead' ops' →
        prefixText ops' <+: prefixText ops) ∧
      ((unaryRuns c).1.flatMap fun r => List.replicate (r.count - 1) (r.op, 0) ++ [(r.op, r.width)]) =
        ops.map (fun o => (o.1, o.2.length)) ∧
      (∀ r ∈ (unaryRuns c).1, 0 < r.count) ∧
      (unaryRuns c).1.IsChain fun r s => r.op = s.op → 0 < r.width) ∧
    (∃ (lead : List UnaryRun) (groups : List (UnaryRun × List UnaryRun)),
      runs = lead ++ groups.flatMap (fun g => g.1 :: g.2) ∧ (∀ r ∈ lead, r.count % 2 = 0) ∧
      (∀ g ∈ groups, g.1.count % 2 = 1 ∧ ∀ r ∈ g.2, r.count % 2 = 0) ∧
      UnaryRun.collapse runs = groups.map fun g => ⟨g.1.op, 1, g.1.width + (g.2.map (·.width)).sum⟩) ∧
    UnaryRun.collapse (UnaryRun.collapse runs) = UnaryRun.collapse runs := by
  refine ⟨?_, ?_, UnaryRun.collapse_collapse runs⟩
  · obtain ⟨ops, ahead, split, spaced, stop⟩ := exists_prefixes c.rest
    have groups : UnaryRun.Groups (unaryRuns c).1 (ops.map fun o => (o.1, o.2.length)) := by
      have none : UnaryRun.Groups ([] : List UnaryRun).reverse [] := ⟨rfl, by simp, .nil⟩
      rw [unaryRuns_of_prefixes split spaced stop]
      exact UnaryRun.groups_extendAll none _
    have passed : (unaryRuns c).2 = c.skip (prefixText ops).length := by
      rw [unaryRuns_of_prefixes split spaced stop]
    have left : (unaryRuns c).2.rest = ahead := by
      rw [passed, Cursor.rest_skip, split, List.drop_left]
    rw [left]
    exact ⟨ops, split, passed, spaced, fun ops' ahead' split' spaced' =>
      isPrefix_prefixText spaced stop spaced' (split'.symm.trans split), groups.operators, groups.nonempty,
      groups.apart⟩
  · obtain ⟨lead, groups, rfl, even, odd⟩ := UnaryRun.exists_groups runs
    exact ⟨lead, groups, rfl, even, odd, UnaryRun.collapse_of_groups even odd⟩

/-- Between the signs two runs cancel, and their widths go to the first sign. -/
theorem prefix_runs_cancel_absorbed :
    let c : Cursor := ⟨"- ;;// no\n-- x".toList, {}⟩
    let runs : List UnaryRun := [⟨.negate, 1, 1⟩, ⟨.not, 2, 6⟩, ⟨.negate, 2, 1⟩]
    unaryRuns c = (runs, c.skip 13) ∧ AllSpaced ";;// no\n-- x".toList [(.negate, [' '])] ∧
      (∃ ops, prefixText [(.negate, [' '])] <+: prefixText ops ∧ c.rest = prefixText ops ++ ['x']) ∧
      UnaryRun.collapse runs = [⟨.negate, 1, 8⟩] := by
  intro c runs
  have read : unaryRuns c = (runs, c.skip 13) := by decide
  have spaced : AllSpaced ";;// no\n-- x".toList [(.negate, [' '])] := ⟨.layout rfl .nil, rfl, trivial⟩
  obtain ⟨⟨ops, split, -, -, longest, -⟩, -⟩ := prefix_runs_cancel c runs
  rw [read] at split
  exact ⟨read, spaced, ⟨ops, longest _ _ rfl spaced, split⟩, by decide⟩

end Gapscript
