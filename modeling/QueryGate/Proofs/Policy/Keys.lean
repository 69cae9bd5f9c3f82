import QueryGate.Policy.Load
import QueryGate.Proofs.Steps

/-! # What a key of a rules document sets

A key has a form that its value must have, and a value of that form sets something; where the key is
absent, the built-in value stays. Each reader of a key succeeds just on values of its form, and finds
what they set.
-/

namespace QueryGate

namespace Document

theorem text?_eq_some_iff {node : Document} {text : Text} :
    node.text? = some text ↔ ∃ quoted, node = .scalar quoted text := by
  cases node <;> simp [text?]

theorem items?_eq_some_iff {node : Document} {items : List Document} :
    node.items? = some items ↔ node = .sequence items := by
  cases node <;> simp [items?]

theorem mapM_text?_eq_some_iff {items : List Document} {texts : List Text} :
    items.mapM text? = some texts ↔ items.map text? = texts.map some := by
  induction items generalizing texts with
  | nil => cases texts <;> simp
  | cons item items ih =>
      cases texts with
      | nil => simp [List.mapM_cons, Option.bind_eq_some_iff]
      | cons text texts => simp [List.mapM_cons, Option.bind_eq_some_iff, ih]

theorem exists_mapM_text?_iff {items : List Document} :
    (∃ texts, items.mapM text? = some texts) ↔
      ∀ item ∈ items, ∃ quoted text, item = .scalar quoted text := by
  induction items with
  | nil => simp
  | cons item items ih =>
      rw [List.forall_mem_cons, ← ih]
      cases item with
      | scalar quoted text =>
          have step : (scalar quoted text :: items).mapM text? = (items.mapM text?).map (text :: ·) := by
            cases read : items.mapM text? <;> simp [List.mapM_cons, text?, read]
          simp only [step, Option.map_eq_some_iff]
          exact ⟨fun ⟨_, texts, read, _⟩ => ⟨⟨quoted, text, rfl⟩, texts, read⟩,
            fun ⟨_, texts, read⟩ => ⟨text :: texts, texts, read, rfl⟩⟩
      | _ => simp [List.mapM_cons, text?]

end Document

namespace Policy

variable {entries root : Entries} {key : String}

/-! ## Numbers -/

/-- A scalar, quoted or not, that is written as a number of `bits` bits. -/
def IsNumber (bits : Nat) (node : Document) : Prop :=
  ∃ quoted text n, node = .scalar quoted text ∧ Document.unsigned? bits text = some n

/-- Where a key is present, its value has the given form. -/
def Admits (entries : Entries) (key : String) (form : Document → Prop) : Prop :=
  ∀ node, Document.child? entries (ascii key) = some node → form node

/-- What a numeric key sets: the number that its text converts to, or else the built-in one. -/
inductive SetsNumber (bits : Nat) (entries : Entries) (key : String) (builtin : Nat) : Nat → Prop where
  | given {quoted : Bool} {text : Text} {n : Nat}
      (found : Document.child? entries (ascii key) = some (.scalar quoted text))
      (converts : Document.unsigned? bits text = some n) : SetsNumber bits entries key builtin n
  | absent (missing : Document.child? entries (ascii key) = none) :
      SetsNumber bits entries key builtin builtin

section Numbers

variable {bits builtin n : Nat}

theorem readNumber_eq_ok_iff :
    readNumber bits entries key builtin = .ok n ↔ SetsNumber bits entries key builtin n := by
  unfold readNumber
  constructor
  · intro read
    split at read
    · next missing =>
      obtain rfl := Except.ok.inj read
      exact .absent missing
    · next node found =>
      split at read
      · next m converted =>
        obtain rfl := Except.ok.inj read
        obtain ⟨text, scalar, converts⟩ := Option.bind_eq_some_iff.mp converted
        obtain ⟨quoted, rfl⟩ := Document.text?_eq_some_iff.mp scalar
        exact .given found converts
      · cases read
  · intro sets
    cases sets with
    | given found converts => simp [found, Document.text?, converts]
    | absent missing => simp [missing]

theorem exists_setsNumber_iff :
    (∃ n, SetsNumber bits entries key builtin n) ↔ Admits entries key (IsNumber bits) := by
  constructor
  · rintro ⟨n, sets⟩ node present
    cases sets with
    | given found converts =>
        obtain rfl := Option.some.inj (found.symm.trans present)
        exact ⟨_, _, n, rfl, converts⟩
    | absent missing => cases missing.symm.trans present
  · intro admits
    cases present : Document.child? entries (ascii key) with
    | none => exact ⟨builtin, .absent present⟩
    | some node =>
        obtain ⟨quoted, text, n, rfl, converts⟩ := admits node present
        exact ⟨n, .given present converts⟩

end Numbers

/-! ## Lists of texts -/

/-- A sequence of scalars. -/
def IsTexts (node : Document) : Prop :=
  ∃ items, node = .sequence items ∧ ∀ item ∈ items, ∃ quoted text, item = .scalar quoted text

/-- The sequence under a key has these texts, in this order. -/
def ListsTexts (entries : Entries) (key : String) (texts : List Text) : Prop :=
  ∃ items, Document.child? entries (ascii key) = some (.sequence items) ∧
    items.map Document.text? = texts.map some

section Texts

variable {texts : List Text}

theorem readTexts?_eq_none_iff :
    readTexts? entries key = .ok none ↔ Document.child? entries (ascii key) = none := by
  unfold readTexts?
  split
  · next missing => simp [missing]
  · next node found =>
    split <;> try split
    all_goals simp [found]

theorem readTexts?_eq_some_iff :
    readTexts? entries key = .ok (some texts) ↔ ListsTexts entries key texts := by
  unfold readTexts?
  constructor
  · intro read
    split at read
    · cases read
    · next node found =>
      split at read
      · cases read
      · next items listed =>
        obtain rfl := Document.items?_eq_some_iff.mp listed
        split at read
        · next others scalars =>
          obtain rfl := Option.some.inj (Except.ok.inj read)
          exact ⟨items, found, Document.mapM_text?_eq_some_iff.mp scalars⟩
        · cases read
  · rintro ⟨items, found, scalars⟩
    have read := Document.mapM_text?_eq_some_iff.mpr scalars
    simp [found, Document.items?, read]

theorem ListsTexts.unique {others : List Text} (lists : ListsTexts entries key texts)
    (alsoLists : ListsTexts entries key others) : texts = others := by
  have read := readTexts?_eq_some_iff.mpr lists
  exact Option.some.inj (Except.ok.inj (read.symm.trans (readTexts?_eq_some_iff.mpr alsoLists)))

theorem exists_readTexts?_iff :
    (∃ found, readTexts? entries key = .ok found) ↔ Admits entries key IsTexts := by
  constructor
  · rintro ⟨found, read⟩ node present
    cases found with
    | none => cases (readTexts?_eq_none_iff.mp read).symm.trans present
    | some texts =>
        obtain ⟨items, found, scalars⟩ := readTexts?_eq_some_iff.mp read
        obtain rfl := Option.some.inj (found.symm.trans present)
        have read := Document.mapM_text?_eq_some_iff.mpr scalars
        exact ⟨items, rfl, Document.exists_mapM_text?_iff.mp ⟨texts, read⟩⟩
  · intro admits
    cases present : Document.child? entries (ascii key) with
    | none => exact ⟨none, readTexts?_eq_none_iff.mpr present⟩
    | some node =>
        obtain ⟨items, rfl, scalars⟩ := admits node present
        obtain ⟨texts, read⟩ := Document.exists_mapM_text?_iff.mpr scalars
        exact ⟨some texts, readTexts?_eq_some_iff.mpr
          ⟨items, present, Document.mapM_text?_eq_some_iff.mp read⟩⟩

end Texts

/-! ## Sets of names -/

/-- What two keys make of a set of names: the names under `allowed`, or else the built-in ones, and those
under `extra` besides. -/
def SetsNames (normalize : Text → Text) (entries : Entries) (allowed extra : String)
    (builtin names : NameSet) : Prop :=
  ∀ name, name ∈ names ↔
    (∃ texts, ListsTexts entries allowed texts ∧ name ∈ texts.map normalize) ∨
      (Document.child? entries (ascii allowed) = none ∧ name ∈ builtin) ∨
      ∃ texts, ListsTexts entries extra texts ∧ name ∈ texts.map normalize

section Names

variable {normalize : Text → Text} {allowed extra : String} {builtin names : NameSet}

theorem exists_readNames_iff :
    (∃ names, readNames normalize entries allowed extra builtin = .ok names) ↔
      Admits entries allowed IsTexts ∧ Admits entries extra IsTexts := by
  rw [← exists_readTexts?_iff, ← exists_readTexts?_iff]
  simp only [readNames, bind_eq_ok_iff]
  constructor
  · rintro ⟨names, replaced, readAllowed, added, readExtra, -⟩
    exact ⟨⟨replaced, readAllowed⟩, ⟨added, readExtra⟩⟩
  · rintro ⟨⟨replaced, readAllowed⟩, ⟨added, readExtra⟩⟩
    exact ⟨_, replaced, readAllowed, added, readExtra, rfl⟩

theorem mem_of_readTexts? {found : Option (List Text)} {name : Text}
    (read : readTexts? entries key = .ok found) :
    name ∈ (found.getD []).map normalize ↔
      ∃ texts, ListsTexts entries key texts ∧ name ∈ texts.map normalize := by
  constructor
  · intro member
    cases found with
    | none => cases member
    | some texts => exact ⟨texts, readTexts?_eq_some_iff.mp read, member⟩
  · rintro ⟨texts, lists, member⟩
    obtain rfl := Except.ok.inj (read.symm.trans (readTexts?_eq_some_iff.mpr lists))
    exact member

theorem setsNames_of_readNames (read : readNames normalize entries allowed extra builtin = .ok names) :
    SetsNames normalize entries allowed extra builtin names := by
  simp only [readNames, bind_eq_ok_iff] at read
  obtain ⟨replaced, readAllowed, added, readExtra, finish⟩ := read
  obtain rfl := Except.ok.inj finish
  intro name
  rw [NameSet.mem_insertAll, mem_of_readTexts? readExtra, ← mem_of_readTexts? readAllowed,
    ← readTexts?_eq_none_iff, readAllowed]
  cases replaced with
  | none => simp [or_comm]
  | some texts => simp [NameSet.mem_ofList, or_comm]

end Names

/-! ## Patterns -/

/-- A sequence of scalars that is not empty. -/
def IsPatterns (node : Document) : Prop := IsTexts node ∧ node ≠ .sequence []

/-- What the key of the patterns sets: the texts in its list, or else the built-in patterns. -/
inductive SetsPatterns (entries : Entries) (builtin : List Text) : List Text → Prop where
  | given {patterns : List Text} (lists : ListsTexts entries "dangerous_patterns" patterns) :
      SetsPatterns entries builtin patterns
  | absent (missing : Document.child? entries (ascii "dangerous_patterns") = none) :
      SetsPatterns entries builtin builtin

section Patterns

variable {builtin patterns : List Text}

theorem setsPatterns_of_readPatterns (read : readPatterns entries builtin = .ok patterns) :
    SetsPatterns entries builtin patterns := by
  obtain ⟨found, readList, finish⟩ := bind_eq_ok_iff.mp read
  match found with
  | none =>
      obtain rfl := Except.ok.inj finish
      exact .absent (readTexts?_eq_none_iff.mp readList)
  | some [] => cases finish
  | some (first :: others) =>
      obtain rfl := Except.ok.inj finish
      exact .given (readTexts?_eq_some_iff.mp readList)

theorem exists_readPatterns_iff :
    (∃ patterns, readPatterns entries builtin = .ok patterns) ↔
      Admits entries "dangerous_patterns" IsPatterns := by
  constructor
  · rintro ⟨patterns, read⟩ node present
    obtain ⟨found, readList, finish⟩ := bind_eq_ok_iff.mp read
    refine ⟨exists_readTexts?_iff.mp ⟨found, readList⟩ node present, ?_⟩
    rintro rfl
    have empty : ListsTexts entries "dangerous_patterns" [] := ⟨[], present, rfl⟩
    obtain rfl := Except.ok.inj (readList.symm.trans (readTexts?_eq_some_iff.mpr empty))
    cases finish
  · intro admits
    obtain ⟨found, readList⟩ := exists_readTexts?_iff.mpr fun node present => (admits node present).1
    simp only [readPatterns, bind_eq_ok_iff]
    match found with
    | none => exact ⟨builtin, none, readList, rfl⟩
    | some [] =>
        obtain ⟨items, present, scalars⟩ := readTexts?_eq_some_iff.mp readList
        obtain rfl := List.map_eq_nil_iff.mp scalars
        exact absurd rfl (admits _ present).2
    | some (first :: others) => exact ⟨first :: others, some (first :: others), readList, rfl⟩

end Patterns

/-! ## The range of custom fields -/

/-- What the key of the range sets; an end that its map leaves out keeps its built-in value. -/
inductive SetsRange (entries : Entries) (builtin : Jql.FieldRange) : Jql.FieldRange → Prop where
  | given {bounds : Entries} {least greatest : Nat}
      (found : Document.child? entries (ascii "custom_field_range") = some (.map bounds))
      (low : SetsNumber 32 bounds "min" builtin.least least)
      (high : SetsNumber 32 bounds "max" builtin.greatest greatest) :
      SetsRange entries builtin ⟨least, greatest⟩
  | absent (missing : Document.child? entries (ascii "custom_field_range") = none) :
      SetsRange entries builtin builtin

/-- A map whose ends, as far as they are present, are numbers, and after which the ends are in order. -/
def IsRange (builtin : Jql.FieldRange) (node : Document) : Prop :=
  ∃ bounds least greatest, node = .map bounds ∧ SetsNumber 32 bounds "min" builtin.least least ∧
    SetsNumber 32 bounds "max" builtin.greatest greatest ∧ least ≤ greatest

section Range

variable {builtin range : Jql.FieldRange}

theorem readRange_of_map {bounds : Entries}
    (found : Document.child? entries (ascii "custom_field_range") = some (.map bounds)) :
    readRange entries builtin = .ok range ↔
      SetsNumber 32 bounds "min" builtin.least range.least ∧
        SetsNumber 32 bounds "max" builtin.greatest range.greatest ∧ range.least ≤ range.greatest := by
  simp only [readRange, found, Document.entries?, bind_eq_ok_iff, readNumber_eq_ok_iff]
  constructor
  · rintro ⟨least, low, greatest, high, finish⟩
    split at finish
    · cases finish
    · next ordered =>
      obtain rfl := Except.ok.inj finish
      exact ⟨low, high, Nat.not_lt.mp ordered⟩
  · rintro ⟨low, high, ordered⟩
    exact ⟨_, low, _, high, by rw [if_neg (Nat.not_lt.mpr ordered)]; rfl⟩

theorem setsRange_of_readRange (read : readRange entries builtin = .ok range) :
    SetsRange entries builtin range := by
  cases present : Document.child? entries (ascii "custom_field_range") with
  | none =>
      simp only [readRange, present] at read
      obtain rfl := Except.ok.inj read
      exact .absent present
  | some node =>
      cases node with
      | map bounds =>
          obtain ⟨low, high, -⟩ := (readRange_of_map present).mp read
          exact .given present low high
      | _ => simp [readRange, present, Document.entries?] at read

theorem exists_readRange_iff :
    (∃ range, readRange entries builtin = .ok range) ↔
      Admits entries "custom_field_range" (IsRange builtin) := by
  constructor
  · rintro ⟨range, read⟩ node present
    cases node with
    | map bounds =>
        obtain ⟨low, high, ordered⟩ := (readRange_of_map present).mp read
        exact ⟨bounds, _, _, rfl, low, high, ordered⟩
    | _ => simp [readRange, present, Document.entries?] at read
  · intro admits
    cases present : Document.child? entries (ascii "custom_field_range") with
    | none => exact ⟨builtin, by simp only [readRange, present]; rfl⟩
    | some node =>
        obtain ⟨bounds, least, greatest, rfl, low, high, ordered⟩ := admits node present
        exact ⟨⟨least, greatest⟩, (readRange_of_map present).mpr ⟨low, high, ordered⟩⟩

end Range

/-! ## Log settings -/

/-- What the key of a text sets: the text of a scalar; any other value is passed over. -/
inductive SetsText (entries : Entries) (key : String) (builtin : Text) : Text → Prop where
  | given {quoted : Bool} {text : Text}
      (found : Document.child? entries (ascii key) = some (.scalar quoted text)) :
      SetsText entries key builtin text
  | passed (unscalar : ∀ quoted text, Document.child? entries (ascii key) ≠ some (.scalar quoted text)) :
      SetsText entries key builtin builtin

theorem setsText_readText {builtin : Text} : SetsText entries key builtin (readText entries key builtin) := by
  unfold readText
  cases present : Document.child? entries (ascii key) with
  | none => exact .passed (by simp [present])
  | some node =>
      cases node with
      | scalar quoted text => exact .given present
      | _ => exact .passed (by simp [present])

end Policy

end QueryGate
