import QueryGate.Text

/-! # Sets of names

Whitelists and keyword tables are finite sets of names, each held once. Membership compares
bytes: a set whose language ignores case holds lower-case names and is asked in lower case.
-/

namespace QueryGate

/-- A finite set of names, listed without repetition. -/
structure NameSet where
  names : List Text
  nodup : names.Nodup

namespace NameSet

def empty : NameSet := ⟨[], List.nodup_nil⟩

instance : Inhabited NameSet := ⟨empty⟩

instance : EmptyCollection NameSet := ⟨empty⟩

def contains (s : NameSet) (name : Text) : Bool := s.names.contains name

instance : Membership Text NameSet := ⟨fun s name => name ∈ s.names⟩

theorem contains_iff_mem {s : NameSet} {name : Text} : s.contains name = true ↔ name ∈ s :=
  List.contains_iff_mem

instance (name : Text) (s : NameSet) : Decidable (name ∈ s) :=
  decidable_of_iff (s.contains name = true) contains_iff_mem

instance (s : NameSet) (p : Text → Prop) [DecidablePred p] : Decidable (∀ name ∈ s, p name) :=
  inferInstanceAs (Decidable (∀ name ∈ s.names, p name))

def insert (s : NameSet) (name : Text) : NameSet :=
  if h : name ∈ s then s else ⟨name :: s.names, List.nodup_cons.mpr ⟨h, s.nodup⟩⟩

def insertAll (s : NameSet) (names : List Text) : NameSet := names.foldl insert s

def ofList (names : List Text) : NameSet := empty.insertAll names

def size (s : NameSet) : Nat := s.names.length

/-- The members in the order of their bytes. -/
def sorted (s : NameSet) : List Text := s.names.mergeSort Text.le

/-- The members of `s` that `t` lacks, in the order of their bytes. -/
def without (s t : NameSet) : List Text := s.sorted.filter fun name => !t.contains name

theorem not_mem_empty (name : Text) : name ∉ (empty : NameSet) := List.not_mem_nil

theorem mem_insert {s : NameSet} {name other : Text} :
    other ∈ s.insert name ↔ other = name ∨ other ∈ s := by
  unfold insert
  split
  · next h => exact ⟨Or.inr, fun | .inl e => e ▸ h | .inr m => m⟩
  · exact List.mem_cons

theorem mem_insertAll {s : NameSet} {names : List Text} {other : Text} :
    other ∈ s.insertAll names ↔ other ∈ names ∨ other ∈ s := by
  induction names generalizing s with
  | nil => simp [insertAll]
  | cons name names ih =>
    have step : s.insertAll (name :: names) = (s.insert name).insertAll names := rfl
    rw [step, ih, mem_insert, List.mem_cons]
    constructor
    · rintro (h | h | h) <;> simp [h]
    · rintro ((h | h) | h) <;> simp [h]

theorem mem_ofList {names : List Text} {other : Text} : other ∈ ofList names ↔ other ∈ names := by
  rw [ofList, mem_insertAll]
  exact or_iff_left (not_mem_empty other)

theorem forall_mem_ofList {names : List Text} {p : Text → Prop} :
    (∀ name ∈ ofList names, p name) ↔ ∀ name ∈ names, p name := by
  simp only [mem_ofList]

end NameSet

end QueryGate
