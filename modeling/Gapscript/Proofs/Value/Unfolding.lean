import Gapscript.Value.Display
import Gapscript.Proofs.Value.Property

/-!
# Objects unfolded

An object unfolds into a tree: its properties in the order of their keys, each with the tree of what it holds. A
reference to an object that the path from the root goes through is marked as circular, any other one unfolds in
full, wherever it stands (`Heap.Unfolds`). Every heap unfolds in one way only, and the text of an object is that of
its tree (`display_eq_text`): the depth that the text is given is never used up, since the objects on a path are
different ones.
-/

namespace Gapscript

/-- What is shown of a value. -/
inductive Picture where
  | scalar (v : Value)
  | circular
  | object (isArray : Bool) (keys : List String) (parts : List Picture)

namespace Picture

mutual

/-- The text of what is shown: strings are quoted, the properties of an object stand behind their keys, and the
elements of an array stand alone. -/
def text : Picture → String
  | scalar (.string s) => Text.quote s
  | scalar v => v.scalarText
  | circular => "[circular]"
  | object true _ parts => "[" ++ ", ".intercalate (texts parts) ++ "]"
  | object false keys parts =>
    "\x7b" ++ ", ".intercalate (List.zipWith (fun k s => k ++ ": " ++ s) keys (texts parts)) ++ "\x7d"

/-- The texts of several pictures. -/
def texts : List Picture → List String
  | [] => []
  | p :: ps => text p :: texts ps

end

end Picture

namespace Heap

mutual

/-- What is shown of a value behind the objects of a path, the innermost one first. -/
inductive Unfolds (h : Heap) : List Nat → Value → Picture → Prop
  | scalar {path : List Nat} {v : Value} (scalar : v.kind ≠ .object) : Unfolds h path v (.scalar v)
  | circular {path : List Nat} {ref : Nat} (back : ref ∈ path) : Unfolds h path (.object ref) .circular
  | object {path : List Nat} {ref : Nat} {parts : List Picture} (fresh : ref ∉ path)
      (properties : UnfoldsAll h (ref :: path) ((h.get ref).entries.map (·.2)) parts) :
      Unfolds h path (.object ref) (.object (h.get ref).isArray (h.get ref).keys parts)

/-- What is shown of several values, one after the other. -/
inductive UnfoldsAll (h : Heap) : List Nat → List Value → List Picture → Prop
  | nil {path : List Nat} : UnfoldsAll h path [] []
  | cons {path : List Nat} {v : Value} {vs : List Value} {p : Picture} {ps : List Picture}
      (first : Unfolds h path v p) (rest : UnfoldsAll h path vs ps) : UnfoldsAll h path (v :: vs) (p :: ps)

end

variable {h : Heap}

/-- A value is shown in one way only, with the given text. -/
def Shows (h : Heap) (path : List Nat) (v : Value) (s : String) : Prop :=
  ∃ p, (∀ q, h.Unfolds path v q ↔ q = p) ∧ s = p.text

theorem shows_scalar {path : List Nat} {v : Value} (scalar : v.kind ≠ .object) :
    h.Shows path v (Picture.scalar v).text := by
  refine ⟨.scalar v, fun q => ⟨fun unfolds => ?_, fun same => same ▸ .scalar scalar⟩, rfl⟩
  cases unfolds with
  | scalar => rfl
  | circular => exact absurd rfl scalar
  | object => exact absurd rfl scalar

theorem shows_circular {path : List Nat} {ref : Nat} (back : ref ∈ path) :
    h.Shows path (.object ref) "[circular]" := by
  refine ⟨.circular, fun q => ⟨fun unfolds => ?_, fun same => same ▸ .circular back⟩, rfl⟩
  cases unfolds with
  | scalar scalar => exact absurd rfl scalar
  | circular => rfl
  | object fresh => exact absurd back fresh

/-- Values that are each shown in one way are so together. -/
theorem exists_texts {path : List Nat} {vs : List Value} {f : Value → String}
    (each : ∀ v ∈ vs, h.Shows path v (f v)) :
    ∃ ps, (∀ qs, h.UnfoldsAll path vs qs ↔ qs = ps) ∧ vs.map f = Picture.texts ps := by
  induction vs with
  | nil =>
    refine ⟨[], fun qs => ⟨fun unfold => ?_, fun same => same ▸ .nil⟩, rfl⟩
    cases unfold
    rfl
  | cons v vs ih =>
    obtain ⟨⟨p, one, text⟩, later⟩ := List.forall_mem_cons.1 each
    obtain ⟨ps, all, texts⟩ := ih later
    refine ⟨p :: ps, fun qs => ⟨fun unfold => ?_, ?_⟩, ?_⟩
    · cases unfold with
      | cons first rest => rw [(one _).1 first, (all _).1 rest]
    · rintro rfl
      exact .cons ((one p).2 rfl) ((all ps).2 rfl)
    · rw [List.map_cons, text, texts, Picture.texts]

/-- An object is shown by what its properties hold. -/
theorem shows_object {path : List Nat} {ref : Nat} (fresh : ref ∉ path) {ps : List Picture}
    (all : ∀ qs, h.UnfoldsAll (ref :: path) ((h.get ref).entries.map (·.2)) qs ↔ qs = ps) :
    h.Shows path (.object ref) (Picture.object (h.get ref).isArray (h.get ref).keys ps).text := by
  refine ⟨_, fun q => ⟨fun unfolds => ?_, ?_⟩, rfl⟩
  · cases unfolds with
    | scalar scalar => exact absurd rfl scalar
    | circular back => exact absurd back fresh
    | object _ properties => rw [(all _).1 properties]
  · rintro rfl
    exact .object fresh ((all ps).2 rfl)

theorem text_object (o : Object) (f : Value → String) {ps : List Picture}
    (texts : (o.entries.map (·.2)).map f = Picture.texts ps) :
    (Picture.object o.isArray o.keys ps).text =
      let parts := o.entries.map fun (k, v) => if o.isArray then f v else k ++ ": " ++ f v
      let body := ", ".intercalate parts
      if o.isArray then "[" ++ body ++ "]" else "\x7b" ++ body ++ "\x7d" := by
  have labelled : List.zipWith (fun k s => k ++ ": " ++ s) o.keys ((o.entries.map (·.2)).map f) =
      o.entries.map fun (k, v) => k ++ ": " ++ f v := by
    rw [Object.keys, List.map_map, List.zipWith_map, List.zipWith_self]
    rfl
  cases kind : o.isArray with
  | false => rw [Picture.text, ← texts, labelled]; rfl
  | true => rw [Picture.text, ← texts, List.map_map]; rfl

/-- The text inside the objects of a path is that of what is shown there, if the depth left allows for all other
objects. -/
theorem shows_displayNested (h : Heap) (depth : Nat) (path : List Nat) (v : Value) (distinct : path.Nodup)
    (exist : ∀ r ∈ path, r < h.objects.size) (enough : h.objects.size < depth + path.length) :
    h.Shows path v (h.displayNested depth path v) := by
  induction depth generalizing path v with
  | zero => exact absurd (length_le_size distinct exist) (by omega)
  | succ depth ih =>
    cases v with
    | object ref =>
      rw [displayNested]
      by_cases back : ref ∈ path
      · rw [if_pos (List.contains_iff_mem.2 back)]
        exact shows_circular back
      · rw [if_neg (mt List.contains_iff_mem.1 back)]
        -- An object that does not exist has no properties, so the path within it goes through objects of the heap.
        have each : ∀ w ∈ (h.get ref).entries.map (·.2),
            h.Shows (ref :: path) w (h.displayNested depth (ref :: path) w) := by
          intro w hw
          obtain ⟨e, he, rfl⟩ := List.mem_map.1 hw
          have owned : e.1 ∈ (h.get ref).keys := List.mem_map_of_mem he
          obtain ⟨_, stored⟩ := ((h.get ref).mem_keys_iff e.1).1 owned
          refine ih (ref :: path) e.2 (distinct.cons back) ?_ ?_
          · exact List.forall_mem_cons.2 ⟨lt_size_of_get? stored, exist⟩
          · rw [List.length_cons]
            omega
        obtain ⟨ps, all, texts⟩ := exists_texts each
        have shown := shows_object back all
        rwa [text_object _ _ texts] at shown
    | string s =>
      rw [displayNested]
      exact shows_scalar (v := .string s) nofun
    | _ => exact shows_scalar nofun

/-- The text of an object of any heap, with any sharing and cycles, is that of the one tree it unfolds into. -/
theorem display_eq_text (h : Heap) (ref : Nat) :
    ∃ p, (∀ q, h.Unfolds [] (.object ref) q ↔ q = p) ∧ h.display (.object ref) = p.text :=
  h.shows_displayNested (h.objects.size + 1) [] (.object ref) List.nodup_nil nofun (by simp)

/-- An object on the way is circular, and one that is met twice is shown twice. -/
example : display ⟨#[{ entries := [("self", .object 0), ("a", .object 1), ("b", .object 1)] },
    { isArray := true, entries := [("-1", .string "x"), ("0", .object 0)] }]⟩ (.object 0) =
    "\x7bself: [circular], a: [\"x\", [circular]], b: [\"x\", [circular]]\x7d" := by
  decide

end Heap

end Gapscript
