import Mathlib.Data.List.Forall2
import QueryGate.Graphql.FromDocument
import QueryGate.Proofs.Document.Defects
import QueryGate.Proofs.Steps

/-! # Variables that mirror a document

What a sound document becomes has its shape: item for item, entry for entry, in the same order and with
keys that occur twice. A document that is not sound is refused for its first defect, and the refusal shows
the path to it.
-/

namespace QueryGate.Graphql

/-- What the text of a scalar without quotes means: the first of truth value, whole number,
floating-point number and text that it can be read as. -/
inductive Means (text : Text) : Value → Prop where
  | bool {b} (read : Document.bool? text = some b) : Means text (.bool b)
  | int {n} (noBool : Document.bool? text = none) (read : Document.int64? text = some n) :
      Means text (.int n)
  | float {bits} (noBool : Document.bool? text = none) (noInt : Document.int64? text = none)
      (read : Document.float? text = some bits) : Means text (.float bits)
  | text (noBool : Document.bool? text = none) (noInt : Document.int64? text = none)
      (noFloat : Document.float? text = none) : Means text (.text text)

/-- The value has the shape of the document, and its scalars are those of the document. -/
inductive Mirrors : Document → Value → Prop where
  | null : Mirrors .null .null
  | quoted {text} : Mirrors (.scalar true text) (.text text)
  | plain {text value} (means : Means text value) : Mirrors (.scalar false text) value
  | sequence {items values} (same : List.Forall₂ Mirrors items values) :
      Mirrors (.sequence items) (.list values)
  -- Keys and values stand in two lists, since a pair of both could not mention the relation itself.
  | map {entries pairs} (keys : entries.map (·.1.text?) = pairs.map (some ·.1))
      (same : List.Forall₂ Mirrors (entries.map (·.2)) (pairs.map (·.2))) :
      Mirrors (.map entries) (.map pairs)

variable {path : Text} {index : Nat} {node : Document} {items : List Document}
  {entries : List (Document × Document)} {value : Value} {rejection : Rejection}

theorem means_ofScalar (text : Text) : Means text (.ofScalar false text) := by
  rw [Value.ofScalar, if_neg Bool.false_ne_true]
  cases bool : Document.bool? text with
  | some b => exact .bool bool
  | none =>
      cases int : Document.int64? text with
      | some n => exact .int bool int
      | none =>
          cases float : Document.float? text with
          | some bits => exact .float bool int float
          | none => exact .text bool int float

theorem Means.eq_ofScalar {text : Text} (means : Means text value) : .ofScalar false text = value := by
  cases means with
  | bool read => simp [Value.ofScalar, read]
  | int noBool read => simp [Value.ofScalar, noBool, read]
  | float noBool noInt read => simp [Value.ofScalar, noBool, noInt, read]
  | text noBool noInt noFloat => simp [Value.ofScalar, noBool, noInt, noFloat]

theorem ofScalar_eq_iff {quoted : Bool} {text : Text} :
    Value.ofScalar quoted text = value ↔ Mirrors (.scalar quoted text) value := by
  constructor
  · rintro rfl
    cases quoted with
    | true => exact .quoted
    | false => exact .plain (means_ofScalar text)
  · intro mirrors
    cases mirrors with
    | quoted => rfl
    | plain means => exact means.eq_ofScalar

/-! ## Success -/

theorem valuesOfItems_cons_eq_ok_iff {item : Document} {values : List Value} :
    valuesOfItems path index (item :: items) = .ok values ↔
      ∃ value others, Value.ofDocument (elementPath path index) item = .ok value ∧
        valuesOfItems path (index + 1) items = .ok others ∧ values = value :: others := by
  rw [valuesOfItems]
  cases Value.ofDocument (elementPath path index) item with
  | error rejection => simp
  | ok value =>
      rw [map_eq_ok_iff]
      constructor
      · rintro ⟨others, read, rfl⟩
        exact ⟨value, others, rfl, read, rfl⟩
      · rintro ⟨other, others, same, read, rfl⟩
        obtain rfl := Except.ok.inj same
        exact ⟨others, read, rfl⟩

theorem valuesOfEntries_cons_eq_ok_iff {key node : Document} {pairs : List (Text × Value)} :
    valuesOfEntries path ((key, node) :: entries) = .ok pairs ↔
      ∃ name value others, key.text? = some name ∧
        Value.ofDocument (entryPath path name) node = .ok value ∧
        valuesOfEntries path entries = .ok others ∧ pairs = (name, value) :: others := by
  rw [valuesOfEntries]
  cases key.text? with
  | none => simp
  | some name =>
      dsimp only
      cases first : Value.ofDocument (entryPath path name) node with
      | error rejection => simp [first]
      | ok value =>
          rw [map_eq_ok_iff]
          constructor
          · rintro ⟨others, read, rfl⟩
            exact ⟨name, value, others, rfl, first, read, rfl⟩
          · rintro ⟨_, other, others, named, again, read, rfl⟩
            obtain rfl := Option.some.inj named
            obtain rfl := Except.ok.inj (first.symm.trans again)
            exact ⟨others, read, rfl⟩

theorem valuesOfItems_eq_ok_iff {values : List Value}
    (each : ∀ item ∈ items, ∀ path value,
      Value.ofDocument path item = .ok value ↔ Mirrors item value) :
    valuesOfItems path index items = .ok values ↔ List.Forall₂ Mirrors items values := by
  induction items generalizing index values with
  | nil => simp [valuesOfItems, List.forall₂_nil_left_iff, eq_comm]
  | cons item items ih =>
      obtain ⟨first, later⟩ := List.forall_mem_cons.mp each
      rw [valuesOfItems_cons_eq_ok_iff, List.forall₂_cons_left_iff]
      simp only [first, ih later, exists_and_left]

theorem valuesOfEntries_eq_ok_iff {pairs : List (Text × Value)}
    (each : ∀ entry ∈ entries, ∀ path value,
      Value.ofDocument path entry.2 = .ok value ↔ Mirrors entry.2 value) :
    valuesOfEntries path entries = .ok pairs ↔
      entries.map (·.1.text?) = pairs.map (some ·.1) ∧
        List.Forall₂ Mirrors (entries.map (·.2)) (pairs.map (·.2)) := by
  induction entries generalizing pairs with
  | nil =>
      cases pairs with
      | nil => simp [valuesOfEntries]
      | cons pair pairs => simp [valuesOfEntries]
  | cons entry entries ih =>
      obtain ⟨key, node⟩ := entry
      obtain ⟨first, later⟩ := List.forall_mem_cons.mp each
      rw [valuesOfEntries_cons_eq_ok_iff]
      cases pairs with
      | nil => simp
      | cons pair pairs =>
          obtain ⟨name, value⟩ := pair
          simp only [first, ih later, List.map_cons, List.cons.injEq, List.forall₂_cons, Prod.mk.injEq]
          constructor
          · rintro ⟨_, _, _, named, mirrors, ⟨keys, same⟩, ⟨rfl, rfl⟩, rfl⟩
            exact ⟨⟨named, keys⟩, mirrors, same⟩
          · rintro ⟨⟨named, keys⟩, mirrors, same⟩
            exact ⟨name, value, pairs, named, mirrors, ⟨keys, same⟩, ⟨rfl, rfl⟩, rfl⟩

theorem ofDocument_eq_ok_iff : Value.ofDocument path node = .ok value ↔ Mirrors node value := by
  induction node using Document.induction generalizing path value with
  | undefined => exact iff_of_false (by simp [Value.ofDocument]) (fun mirrors => nomatch mirrors)
  | null =>
      rw [Value.ofDocument]
      constructor
      · intro same
        obtain rfl := Except.ok.inj same
        exact .null
      · intro mirrors
        cases mirrors
        rfl
  | scalar quoted text => rw [Value.ofDocument, Except.ok.injEq, ofScalar_eq_iff]
  | sequence items ih =>
      rw [Value.ofDocument, map_eq_ok_iff]
      simp only [valuesOfItems_eq_ok_iff fun item member path value => ih item member]
      constructor
      · rintro ⟨values, same, rfl⟩
        exact .sequence same
      · intro mirrors
        cases mirrors with
        | sequence same => exact ⟨_, same, rfl⟩
  | map entries ih =>
      rw [Value.ofDocument, map_eq_ok_iff]
      simp only [valuesOfEntries_eq_ok_iff fun entry member path value => ih entry member]
      constructor
      · rintro ⟨pairs, ⟨keys, same⟩, rfl⟩
        exact .map keys same
      · intro mirrors
        cases mirrors with
        | map keys same => exact ⟨_, ⟨keys, same⟩, rfl⟩

/-! ## Refusal -/

theorem text?_of_isScalar {key : Document} (scalar : key.IsScalar) : ∃ name, key.text? = some name := by
  obtain ⟨quoted, name, rfl⟩ := scalar
  exact ⟨name, rfl⟩

theorem text?_of_not_isScalar {key : Document} (bad : ¬ key.IsScalar) : key.text? = none := by
  cases key with
  | scalar quoted name => exact absurd ⟨quoted, name, rfl⟩ bad
  | undefined | null | sequence | map => rfl

theorem exists_valuesOfItems
    (each : ∀ item ∈ items, ∀ path, ∃ value, Value.ofDocument path item = .ok value) :
    ∃ values, valuesOfItems path index items = .ok values := by
  induction items generalizing index with
  | nil => exact ⟨[], rfl⟩
  | cons item items ih =>
      obtain ⟨first, later⟩ := List.forall_mem_cons.mp each
      obtain ⟨value, read⟩ := first (elementPath path index)
      obtain ⟨values, others⟩ := @ih (index + 1) later
      exact ⟨_, valuesOfItems_cons_eq_ok_iff.mpr ⟨value, values, read, others, rfl⟩⟩

theorem exists_valuesOfEntries (keys : ∀ entry ∈ entries, entry.1.IsScalar)
    (each : ∀ entry ∈ entries, ∀ path, ∃ value, Value.ofDocument path entry.2 = .ok value) :
    ∃ pairs, valuesOfEntries path entries = .ok pairs := by
  induction entries with
  | nil => exact ⟨[], rfl⟩
  | cons entry entries ih =>
      obtain ⟨key, node⟩ := entry
      obtain ⟨scalar, scalars⟩ := List.forall_mem_cons.mp keys
      obtain ⟨first, later⟩ := List.forall_mem_cons.mp each
      obtain ⟨name, named⟩ := text?_of_isScalar scalar
      obtain ⟨value, read⟩ := first (entryPath path name)
      obtain ⟨pairs, others⟩ := ih scalars later
      exact ⟨_, valuesOfEntries_cons_eq_ok_iff.mpr ⟨name, value, pairs, named, read, others, rfl⟩⟩

theorem exists_ofDocument_of_sound (sound : node.Sound) (path : Text) :
    ∃ value, Value.ofDocument path node = .ok value := by
  induction node using Document.induction generalizing path with
  | undefined => exact absurd sound Document.not_sound_undefined
  | null | scalar => exact ⟨_, rfl⟩
  | sequence items ih =>
      have each := Document.sound_sequence_iff.mp sound
      obtain ⟨values, read⟩ := @exists_valuesOfItems path 0 items fun item member path =>
        ih item member (each item member) path
      exact ⟨.list values, by rw [Value.ofDocument, read]; rfl⟩
  | map entries ih =>
      have each := Document.sound_map_iff.mp sound
      obtain ⟨pairs, read⟩ := @exists_valuesOfEntries path entries
        (fun entry member => (each entry member).1)
        fun entry member path => ih entry member (each entry member).2 path
      exact ⟨.map pairs, by rw [Value.ofDocument, read]; rfl⟩

/-- What is reported of a defect at a path. -/
def refusalOf (defect : Defect) (path : Text) : Rejection :=
  match defect with
  | .undefined => .undefinedValue path
  | .badKey => .badKey path

theorem extend_entry (path key : Text) : Step.extend path (.entry key) = entryPath path key := by
  have dot : ascii "." = [Byte.dot] := by decide
  cases path with
  | nil => rfl
  | cons b path => simp [Step.extend, entryPath, dot]

theorem extend_item (path : Text) (index : Nat) :
    Step.extend path (.item index) = elementPath path index := by
  have brackets : ascii "[" = [Byte.openBracket] ∧ ascii "]" = [Byte.closeBracket] := by decide
  simp [Step.extend, elementPath, brackets]

theorem valuesOfItems_append {before : List Document} (sound : ∀ item ∈ before, item.Sound)
    (refused : valuesOfItems path (index + before.length) items = .error rejection) :
    valuesOfItems path index (before ++ items) = .error rejection := by
  induction before generalizing index with
  | nil => exact refused
  | cons item before ih =>
      obtain ⟨first, later⟩ := List.forall_mem_cons.mp sound
      obtain ⟨value, read⟩ := exists_ofDocument_of_sound first (elementPath path index)
      rw [List.length_cons, Nat.add_comm _ 1, ← Nat.add_assoc] at refused
      rw [List.cons_append, valuesOfItems, read]
      exact map_eq_error_iff.mpr (ih later refused)

theorem valuesOfEntries_append {before : List (Document × Document)}
    (sound : ∀ entry ∈ before, EntrySound entry)
    (refused : valuesOfEntries path entries = .error rejection) :
    valuesOfEntries path (before ++ entries) = .error rejection := by
  induction before with
  | nil => exact refused
  | cons entry before ih =>
      obtain ⟨key, node⟩ := entry
      obtain ⟨⟨scalar, first⟩, later⟩ := List.forall_mem_cons.mp sound
      obtain ⟨name, named⟩ := text?_of_isScalar scalar
      obtain ⟨value, read⟩ := exists_ofDocument_of_sound first (entryPath path name)
      rw [List.cons_append, valuesOfEntries, named]
      dsimp only
      rw [read]
      exact map_eq_error_iff.mpr (ih later)

theorem ofDocument_of_firstDefect {position : Position} {defect : Defect}
    (first : FirstDefect node position defect) (path : Text) :
    Value.ofDocument path node = .error (refusalOf defect (position.foldl Step.extend path)) := by
  -- What comes before the defect is sound, so it is converted and leaves the refusal as it is.
  induction first generalizing path with
  | undefined => rfl
  | @item before item after position defect earlier _ ih =>
      rw [Value.ofDocument, map_eq_error_iff]
      refine valuesOfItems_append earlier ?_
      rw [valuesOfItems, Nat.zero_add, ih, List.foldl_cons, extend_item]
  | @key before key value after earlier bad =>
      rw [Value.ofDocument, map_eq_error_iff]
      refine valuesOfEntries_append earlier ?_
      rw [valuesOfEntries, text?_of_not_isScalar bad]
      rfl
  | @value before quoted name value after position defect earlier _ ih =>
      rw [Value.ofDocument, map_eq_error_iff]
      refine valuesOfEntries_append earlier ?_
      rw [valuesOfEntries, Document.text?]
      dsimp only
      rw [ih, List.foldl_cons, extend_entry]

theorem exists_ofDocument_iff :
    (∃ value, Value.ofDocument path node = .ok value) ↔ node.Sound := by
  refine ⟨fun ⟨value, read⟩ => ?_, fun sound => exists_ofDocument_of_sound sound path⟩
  refine node.sound_or_firstDefect.resolve_right ?_
  rintro ⟨position, defect, first⟩
  rw [ofDocument_of_firstDefect first] at read
  cases read

theorem ofDocument_eq_error_iff :
    Value.ofDocument path node = .error rejection ↔
      ∃ position defect, FirstDefect node position defect ∧
        rejection = refusalOf defect (position.foldl Step.extend path) := by
  constructor
  · intro refused
    rcases node.sound_or_firstDefect with sound | ⟨position, defect, first⟩
    · obtain ⟨value, read⟩ := exists_ofDocument_of_sound sound path
      rw [read] at refused
      cases refused
    · rw [ofDocument_of_firstDefect first] at refused
      exact ⟨position, defect, first, (Except.error.inj refused).symm⟩
  · rintro ⟨position, defect, first, rfl⟩
    exact ofDocument_of_firstDefect first path

/-! ## Whole documents -/

/-- A document with variables is refused with the rejection, for a defect at the position: for being no map
itself, or for the first defect in it. -/
inductive RefusedAt : Document → Position → Rejection → Prop where
  | undefined : RefusedAt .undefined [] .noVariables
  | scalar {quoted : Bool} {text : Text} : RefusedAt (.scalar quoted text) [] .variablesNotMap
  | sequence {items : List Document} : RefusedAt (.sequence items) [] .variablesNotMap
  | inside {entries : List (Document × Document)} {position : Position} {defect : Defect}
      (first : FirstDefect (.map entries) position defect) :
      RefusedAt (.map entries) position (refusalOf defect position.path)

theorem RefusedAt.describes {position : Position} (refused : RefusedAt node position rejection) :
    rejection.code = .unsupportedVariableType ∧ rejection.context = position.path := by
  cases refused with
  | undefined | scalar | sequence => exact ⟨rfl, rfl⟩
  | @inside _ _ defect => cases defect <;> exact ⟨rfl, rfl⟩

theorem ofDocument_map (path : Text) (entries : List (Document × Document)) :
    Value.ofDocument path (.map entries) = (valuesOfEntries path entries).map .map := by
  rw [Value.ofDocument]

theorem variablesOf_eq_ok_iff {given : Variables} :
    variablesOf node = .ok given ↔
      node = .null ∧ given = [] ∨ Mirrors node (.map given) := by
  cases node with
  | undefined =>
      refine iff_of_false (by simp [variablesOf]) ?_
      rintro (⟨⟨⟩, -⟩ | mirrors)
      cases mirrors
  | null =>
      rw [variablesOf, Except.ok.injEq]
      constructor
      · rintro rfl
        exact Or.inl ⟨rfl, rfl⟩
      · rintro (⟨-, rfl⟩ | mirrors)
        · rfl
        · cases mirrors
  | scalar quoted text =>
      refine iff_of_false (by simp [variablesOf]) ?_
      rintro (⟨⟨⟩, -⟩ | mirrors)
      cases mirrors with
      | plain means => cases means
  | sequence items =>
      refine iff_of_false (by simp [variablesOf]) ?_
      rintro (⟨⟨⟩, -⟩ | mirrors)
      cases mirrors
  | map entries =>
      have whole := @ofDocument_eq_ok_iff [] (.map entries) (.map given)
      rw [ofDocument_map, map_eq_ok_iff] at whole
      simpa [variablesOf] using whole

theorem exists_variablesOf_iff :
    (∃ given, variablesOf node = .ok given) ↔
      node = .null ∨ (∃ entries, node = .map entries) ∧ node.Sound := by
  cases node with
  | undefined | scalar | sequence => exact iff_of_false (by simp [variablesOf]) (by simp)
  | null => exact iff_of_true ⟨[], rfl⟩ (Or.inl rfl)
  | map entries =>
      have whole := @exists_ofDocument_iff [] (.map entries)
      simp only [ofDocument_map, map_eq_ok_iff] at whole
      simpa [variablesOf] using whole

theorem variablesOf_eq_error_iff :
    variablesOf node = .error rejection ↔ ∃ position, RefusedAt node position rejection := by
  cases node with
  | undefined | scalar | sequence =>
      constructor
      · intro refused
        obtain rfl := Except.error.inj refused
        exact ⟨[], by constructor⟩
      · rintro ⟨position, refused⟩
        cases refused
        rfl
  | null => exact iff_of_false (by simp [variablesOf]) (by rintro ⟨position, ⟨⟩⟩)
  | map entries =>
      have whole := @ofDocument_eq_error_iff [] (.map entries) rejection
      rw [ofDocument_map, map_eq_error_iff] at whole
      rw [variablesOf, whole]
      constructor
      · rintro ⟨position, defect, first, rfl⟩
        exact ⟨position, .inside first⟩
      · rintro ⟨position, refused⟩
        cases refused with
        | inside first => exact ⟨position, _, first, rfl⟩

/-- A document gives variables just if it is null, which gives none, or a sound map, and they mirror it.
Any other is refused with one code for its first defect, and the refusal shows the path to the defect. -/
theorem variablesOf_mirrors (root : Document) :
    ((∃ given, variablesOf root = .ok given) ↔
      root = .null ∨ (∃ entries, root = .map entries) ∧ root.Sound) ∧
    (∀ given, variablesOf root = .ok given ↔
      root = .null ∧ given = [] ∨ Mirrors root (.map given)) ∧
    ∀ rejection, variablesOf root = .error rejection ↔
      ∃ position, RefusedAt root position rejection ∧
        rejection.code = .unsupportedVariableType ∧ rejection.context = position.path := by
  refine ⟨exists_variablesOf_iff, fun given => variablesOf_eq_ok_iff, fun rejection => ?_⟩
  rw [variablesOf_eq_error_iff]
  exact exists_congr fun position => (and_iff_left_of_imp RefusedAt.describes).symm

/-- A map with an undefined node in a sequence, before a key that is no scalar. -/
def brokenDocument : Document :=
  .map [(.scalar true (ascii "a"), .map [
    (.scalar false (ascii "b"), .sequence [.null, .undefined]), (.sequence [], .null)])]

/-- A map with a key that occurs twice, and with the same text in quotes and without. -/
def doubledDocument : Document :=
  .map [(.scalar false (ascii "n"), .scalar true (ascii "0x1F")),
    (.scalar false (ascii "n"), .sequence [.scalar false (ascii "0x1F"), .scalar false (ascii "Yes")])]

theorem variablesOf_mirrors_doubledDocument :
    (∃ position rejection, RefusedAt brokenDocument position rejection ∧
      rejection.code = .unsupportedVariableType ∧ position.path = ascii "a.b[1]") ∧
    doubledDocument.Sound ∧
    Mirrors doubledDocument
      (.map [(ascii "n", .text (ascii "0x1F")), (ascii "n", .list [.int 31, .bool true])]) := by
  obtain ⟨-, -, refusals⟩ := variablesOf_mirrors brokenDocument
  obtain ⟨accepted, mirrored, -⟩ := variablesOf_mirrors doubledDocument
  have refused : variablesOf brokenDocument = .error (.undefinedValue (ascii "a.b[1]")) := by rfl
  have read : variablesOf doubledDocument =
      .ok [(ascii "n", .text (ascii "0x1F")), (ascii "n", .list [.int 31, .bool true])] := by rfl
  obtain ⟨position, refusedAt, code, shown⟩ := (refusals _).mp refused
  refine ⟨⟨position, _, refusedAt, code, shown.symm⟩, ?_, ?_⟩
  · exact ((accepted.mp ⟨_, read⟩).resolve_left Document.noConfusion).2
  · exact ((mirrored _).mp read).resolve_left fun isNull => Document.noConfusion isNull.1

end QueryGate.Graphql
