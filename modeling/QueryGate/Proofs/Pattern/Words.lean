import QueryGate.Proofs.Pattern.Meaning

/-! # Patterns of plain words

A pattern that is made of words, and of words that must not follow, does not look back, and it takes
letters of either case. Whether it leads anywhere from a place is a matter of the bytes ahead, all of
them in lower case.
-/

namespace QueryGate.Pattern

theorem contains_single {a b : UInt8} :
    (ByteClass.single a).contains b = true ↔ Byte.lower b = Byte.lower a := by
  simp only [ByteClass.contains, ByteClass.single, ClassItem.contains, List.any_cons, List.any_nil,
    Bool.or_false, bne_iff_ne, ne_eq, Bool.not_eq_false, beq_iff_eq]
  exact eq_comm

namespace Tree

/-- From any cursor the tree leads somewhere exactly if the bytes ahead, in lower case, are as
described. -/
def LooksFor (tree : Tree) (ahead : Text → Prop) : Prop :=
  ∀ scope start, (∃ finish, tree.Spans scope start finish) ↔ ahead start.rest.toLower

/-- The tree of a word with another tree behind it. -/
def word (w : Text) (tail : Tree) : Tree :=
  w.foldr (fun b tree => .seq (.bytes (.single b)) tree) tail

variable {tail body : Tree} {ahead barred : Text → Prop}

theorem looksFor_empty : Tree.empty.LooksFor fun _ => True :=
  fun _ start => iff_of_true ⟨start, rfl⟩ trivial

theorem LooksFor.byte (looks : tail.LooksFor ahead) (b : UInt8) :
    (Tree.seq (.bytes (.single b)) tail).LooksFor fun rest =>
      ∃ more, rest = Byte.lower b :: more ∧ ahead more := by
  intro scope start
  constructor
  · rintro ⟨finish, middle, ⟨c, rest, split, listed, rfl⟩, later⟩
    refine ⟨Text.toLower rest, ?_, (looks scope _).mp ⟨finish, later⟩⟩
    rw [split, Text.toLower, List.map_cons, contains_single.mp listed]
    rfl
  · rintro ⟨more, split, later⟩
    obtain ⟨c, rest, found, same, rfl⟩ := List.map_eq_cons_iff.mp split
    obtain ⟨finish, spans⟩ := (looks scope (start.past c rest)).mpr later
    exact ⟨finish, _, ⟨c, rest, found, contains_single.mpr same, rfl⟩, spans⟩

theorem LooksFor.word (looks : tail.LooksFor ahead) (w : Text) :
    (Tree.word w tail).LooksFor fun rest => ∃ more, rest = w.toLower ++ more ∧ ahead more := by
  induction w with
  | nil =>
      intro scope start
      rw [show Tree.word [] tail = tail from rfl, looks]
      simp [Text.toLower]
  | cons b w ih =>
      intro scope start
      refine (ih.byte b scope start).trans ?_
      constructor
      · rintro ⟨_, split, more, rfl, later⟩
        exact ⟨more, split, later⟩
      · rintro ⟨more, split, later⟩
        exact ⟨_, split, more, rfl, later⟩

theorem LooksFor.unless (looks : tail.LooksFor ahead) (bars : body.LooksFor barred) :
    (Tree.seq (.lookahead true body) tail).LooksFor fun rest => ¬ barred rest ∧ ahead rest := by
  intro scope start
  constructor
  · rintro ⟨finish, middle, ⟨rfl, settled⟩, later⟩
    refine ⟨fun follows => settled.mp rfl ?_, (looks scope middle).mp ⟨finish, later⟩⟩
    exact (bars _ _).mpr follows
  · rintro ⟨absent, later⟩
    obtain ⟨finish, spans⟩ := (looks scope start).mpr later
    refine ⟨finish, start, ⟨rfl, iff_of_true rfl fun found => ?_⟩, spans⟩
    have follows := (bars _ _).mp found
    exact absent follows

theorem LooksFor.occurs_iff {tree : Tree} (looks : tree.LooksFor ahead) {t : Text} :
    tree.Occurs t ↔ ∃ before after, t.toLower = before ++ after ∧ ahead after := by
  constructor
  · rintro ⟨before, after, rfl, spans⟩
    exact ⟨before.toLower, after.toLower, List.map_append, (looks _ _).mp spans⟩
  · rintro ⟨before, after, split, found⟩
    obtain ⟨front, back, rfl, rfl, rfl⟩ := List.map_eq_append_iff.mp split
    exact ⟨front, back, rfl, (looks _ _).mpr found⟩

end Tree

end QueryGate.Pattern
