import Mathlib.Data.List.Basic
import QueryGate.Document

/-! # Defects of documents

A document that is to become a value has two kinds of defects: a node that is undefined, and a key that is
no scalar. Depth first, each key just before its value, a document is sound or has a first defect. Where
the defect is, is told by the steps that lead down to it from the root.
-/

namespace QueryGate

/-- One step from a node down to a node in it. -/
inductive Step where
  /-- To the value under a key. -/
  | entry (key : Text)
  /-- To the item with an index. -/
  | item (index : Nat)
  deriving Repr, DecidableEq

/-- The steps that lead from the root to a node. -/
abbrev Position := List Step

/-- The path after one more step: keys are joined by dots, though nothing has a dot in front that has
nothing else there, and an index stands in brackets. -/
def Step.extend (path : Text) : Step → Text
  | .entry key => if path = [] then key else path ++ ascii "." ++ key
  | .item index => path ++ ascii "[" ++ Text.decimal index ++ ascii "]"

/-- The path that is shown for a position. -/
def Position.path (position : Position) : Text := position.foldl Step.extend []

namespace Document

/-- Every induction over documents: what holds of a node if it holds of its items and of the values of its
entries holds of every node. -/
@[elab_as_elim]
theorem induction {motive : Document → Prop} (undefined : motive .undefined) (null : motive .null)
    (scalar : ∀ quoted text, motive (.scalar quoted text))
    (sequence : ∀ items, (∀ item ∈ items, motive item) → motive (.sequence items))
    (map : ∀ entries, (∀ entry ∈ entries, motive entry.2) → motive (.map entries))
    (node : Document) : motive node := by
  match node with
  | .undefined => exact undefined
  | .null => exact null
  | .scalar quoted text => exact scalar quoted text
  | .sequence items =>
      exact sequence items fun item member => induction undefined null scalar sequence map item
  | .map entries =>
      exact map entries fun entry member => induction undefined null scalar sequence map entry.2
termination_by sizeOf node
decreasing_by
  · have smaller := List.sizeOf_lt_of_mem member
    simp only [Document.sequence.sizeOf_spec]
    omega
  · have smaller := List.sizeOf_lt_of_mem member
    obtain ⟨key, value⟩ := entry
    simp only [Document.map.sizeOf_spec, Prod.mk.sizeOf_spec] at smaller ⊢
    omega

/-- A node is the other node or is reached from it, by items and by values of entries. -/
inductive Within : Document → Document → Prop where
  | here {node} : Within node node
  | item {part item items} (member : item ∈ items) (within : Within part item) :
      Within part (.sequence items)
  | value {part key value entries} (member : (key, value) ∈ entries) (within : Within part value) :
      Within part (.map entries)

/-- The node is a scalar. -/
def IsScalar (node : Document) : Prop := ∃ quoted text, node = .scalar quoted text

/-- No node that is reached is undefined, and every key at every depth is a scalar. -/
structure Sound (node : Document) : Prop where
  defined : ¬ Within .undefined node
  keys : ∀ entries, Within (.map entries) node → ∀ entry ∈ entries, IsScalar entry.1

end Document

theorem forall_or_first {α : Type} (p : α → Prop) (xs : List α) :
    (∀ x ∈ xs, p x) ∨
      ∃ before x after, xs = before ++ x :: after ∧ (∀ earlier ∈ before, p earlier) ∧ ¬ p x := by
  classical
  cases found : xs.find? (fun x => decide (¬ p x)) with
  | none => exact Or.inl (by simpa using found)
  | some x =>
      obtain ⟨fails, before, after, split, earlier⟩ := List.find?_eq_some_iff_append.mp found
      exact Or.inr ⟨before, x, after, split, by simpa using earlier, by simpa using fails⟩

/-- What may be wrong with a document. -/
inductive Defect where
  | undefined
  | badKey
  deriving Repr, DecidableEq

open Document

/-- The entry has a key that is a scalar and a value without defects. -/
def EntrySound (entry : Document × Document) : Prop := IsScalar entry.1 ∧ entry.2.Sound

/-- The defect is the first that is met in a node, and the position leads to it; a key that is no scalar is
a defect of its map. -/
inductive FirstDefect : Document → Position → Defect → Prop where
  | undefined : FirstDefect .undefined [] .undefined
  | item {before item after position defect} (earlier : ∀ node ∈ before, node.Sound)
      (first : FirstDefect item position defect) :
      FirstDefect (.sequence (before ++ item :: after)) (.item before.length :: position) defect
  | key {before key value after} (earlier : ∀ entry ∈ before, EntrySound entry)
      (bad : ¬ key.IsScalar) : FirstDefect (.map (before ++ (key, value) :: after)) [] .badKey
  | value {before quoted name value after position defect}
      (earlier : ∀ entry ∈ before, EntrySound entry) (first : FirstDefect value position defect) :
      FirstDefect (.map (before ++ (.scalar quoted name, value) :: after)) (.entry name :: position)
        defect

namespace Document

theorem sound_null : Sound .null where
  defined within := nomatch within
  keys _ within := nomatch within

theorem sound_scalar (quoted : Bool) (text : Text) : Sound (.scalar quoted text) where
  defined within := nomatch within
  keys _ within := nomatch within

theorem not_sound_undefined : ¬ Sound .undefined := fun sound => sound.defined .here

theorem sound_sequence_iff {items : List Document} :
    Sound (.sequence items) ↔ ∀ item ∈ items, item.Sound := by
  constructor
  · intro sound item member
    exact ⟨fun within => sound.defined (.item member within),
      fun entries within => sound.keys entries (.item member within)⟩
  · intro sound
    constructor
    · intro within
      cases within with
      | item member within => exact (sound _ member).defined within
    · intro entries within
      cases within with
      | item member within => exact (sound _ member).keys entries within

theorem sound_map_iff {entries : List (Document × Document)} :
    Sound (.map entries) ↔ ∀ entry ∈ entries, EntrySound entry := by
  constructor
  · intro sound entry member
    refine ⟨sound.keys entries .here entry member, ?_, ?_⟩
    · exact fun within => sound.defined (.value member within)
    · exact fun others within => sound.keys others (.value member within)
  · intro sound
    constructor
    · intro within
      cases within with
      | value member within => exact (sound _ member).2.defined within
    · intro others within
      cases within with
      | here => exact fun entry member => (sound entry member).1
      | value member within => exact (sound _ member).2.keys others within

/-- Every document is sound or has a first defect. -/
theorem sound_or_firstDefect (node : Document) :
    node.Sound ∨ ∃ position defect, FirstDefect node position defect := by
  induction node using Document.induction with
  | undefined => exact Or.inr ⟨[], .undefined, .undefined⟩
  | null => exact Or.inl sound_null
  | scalar quoted text => exact Or.inl (sound_scalar quoted text)
  | sequence items ih =>
      rw [sound_sequence_iff]
      refine (forall_or_first Sound items).imp_right ?_
      rintro ⟨before, item, after, rfl, earlier, unsound⟩
      obtain ⟨position, defect, first⟩ := (ih item (by simp)).resolve_left unsound
      exact ⟨_, defect, .item earlier first⟩
  | map entries ih =>
      rw [sound_map_iff]
      refine (forall_or_first EntrySound entries).imp_right ?_
      rintro ⟨before, ⟨key, value⟩, after, rfl, earlier, unsound⟩
      by_cases scalar : key.IsScalar
      · have inside : ¬ value.Sound := fun sound => unsound ⟨scalar, sound⟩
        obtain ⟨quoted, name, rfl⟩ := scalar
        obtain ⟨position, defect, first⟩ :=
          (ih (.scalar quoted name, value) (by simp)).resolve_left inside
        exact ⟨_, defect, .value earlier first⟩
      · exact ⟨_, _, .key earlier scalar⟩

end Document

end QueryGate
