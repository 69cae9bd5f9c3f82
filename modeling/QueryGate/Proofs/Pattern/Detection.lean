import QueryGate.Proofs.Pattern.Sources

/-! # The first source that is found

What a list of sources says of a text is settled by two conditions on a source alone: that it is the
source of a pattern, and that the pattern occurs in the text. Nothing is reported but the first source
that is found. Whether anything is reported depends neither on the order of the list nor on how often a
source stands in it, and not at all on sources of no pattern.
-/

namespace QueryGate

namespace Pattern

variable {source t : Text} {pattern : Pattern}

/-- There is a pattern with this source. -/
def Compiles (source : Text) : Prop := ∃ pattern, ofSource? source = some pattern

/-- There is a pattern with this source, and it occurs in the text. -/
def Finds (source t : Text) : Prop :=
  ∃ pattern, ofSource? source = some pattern ∧ pattern.occursIn t = true

theorem Finds.compiles (finds : Finds source t) : Compiles source := by
  obtain ⟨pattern, read, -⟩ := finds
  exact ⟨pattern, read⟩

theorem not_compiles_iff : ¬ Compiles source ↔ ofSource? source = none := by
  rw [Compiles, ← Option.ne_none_iff_exists', not_not]

theorem any_ofSource?_iff : (ofSource? source).any (·.occursIn t) = true ↔ Finds source t := by
  rw [Option.any_eq_true]
  rfl

theorem source_of_ofSource? (read : ofSource? source = some pattern) : pattern.source = source := by
  unfold ofSource? at read
  obtain ⟨symbols, -, read⟩ := Option.bind_eq_some_iff.mp read
  obtain ⟨⟨tree, groups⟩, -, read⟩ := Option.bind_eq_some_iff.mp read
  dsimp only at read
  split at read
  · rw [← Option.some.inj read]
  · cases read

end Pattern

namespace Detector

open Pattern

variable {sources others : List Text} {source t : Text}

/-- The source is the first of the list that is found in the text. -/
def FirstFound (sources : List Text) (t source : Text) : Prop :=
  ∃ before after, sources = before ++ source :: after ∧ Finds source t ∧
    ∀ earlier ∈ before, ¬ Finds earlier t

theorem FirstFound.mem (first : FirstFound sources t source) : source ∈ sources := by
  obtain ⟨before, after, rfl, -⟩ := first
  simp

theorem FirstFound.finds (first : FirstFound sources t source) : Finds source t := by
  obtain ⟨-, -, -, finds, -⟩ := first
  exact finds

theorem failsClosed_iff :
    (ofSources sources).failsClosed = true ↔ ∀ source ∈ sources, ¬ Compiles source := by
  simp only [failsClosed_ofSources, not_compiles_iff]

theorem inspect_eq_failClosed_iff {detector : Detector} :
    detector.inspect t = .failClosed ↔ detector.failsClosed = true := by
  unfold inspect
  by_cases closed : detector.failsClosed = true
  · simp [closed]
  · rw [if_neg closed]
    refine iff_of_false ?_ closed
    split <;> exact Detection.noConfusion

theorem find?_patterns_iff :
    ((ofSources sources).patterns.find? (·.occursIn t)).map (·.source) = some source ↔
      FirstFound sources t source := by
  rw [ofSources, List.find?_filterMap, Option.map_eq_some_iff]
  constructor
  · rintro ⟨pattern, occurs, rfl⟩
    obtain ⟨source, first, read⟩ := Option.bind_eq_some_iff.mp occurs
    obtain ⟨finds, before, after, split, earlier⟩ := List.find?_eq_some_iff_append.mp first
    rw [source_of_ofSource? read]
    refine ⟨before, after, split, any_ofSource?_iff.mp finds, fun other member finds => ?_⟩
    have absent := earlier other member
    rw [any_ofSource?_iff.mpr finds] at absent
    cases absent
  · rintro ⟨before, after, split, finds, earlier⟩
    obtain ⟨pattern, read, occurs⟩ := finds
    refine ⟨pattern, Option.bind_eq_some_iff.mpr ⟨source, ?_, read⟩, source_of_ofSource? read⟩
    refine List.find?_eq_some_iff_append.mpr
      ⟨any_ofSource?_iff.mpr ⟨pattern, read, occurs⟩, before, after, split, fun other member => ?_⟩
    rw [Bool.not_eq_true', Bool.eq_false_iff]
    exact mt any_ofSource?_iff.mp (earlier other member)

theorem inspect_eq_found_iff :
    (ofSources sources).inspect t = .found source ↔ FirstFound sources t source := by
  unfold inspect
  by_cases closed : (ofSources sources).failsClosed = true
  · rw [if_pos closed]
    refine iff_of_false Detection.noConfusion fun first => ?_
    exact failsClosed_iff.mp closed source first.mem first.finds.compiles
  · rw [if_neg closed, ← find?_patterns_iff]
    cases (ofSources sources).patterns.find? (·.occursIn t) with
    | none => simp
    | some pattern => simp

theorem firstFound_of_isDetected (searched : ∃ source ∈ sources, Compiles source)
    (detected : ((ofSources sources).inspect t).isDetected = true) :
    FirstFound sources t ((ofSources sources).inspect t).source := by
  cases report : (ofSources sources).inspect t with
  | clear =>
      rw [report] at detected
      cases detected
  | found source => exact inspect_eq_found_iff.mp report
  | failClosed =>
      obtain ⟨source, listed, compiles⟩ := searched
      have closed := failsClosed_iff.mp (inspect_eq_failClosed_iff.mp report)
      exact absurd compiles (closed source listed)

theorem source_of_undetected (clear : ((ofSources sources).inspect t).isDetected = false) :
    ((ofSources sources).inspect t).source = [] := by
  cases report : (ofSources sources).inspect t with
  | clear | failClosed => rfl
  | found source =>
      rw [report] at clear
      cases clear

theorem isDetected_iff :
    ((ofSources sources).inspect t).isDetected = true ↔
      (∀ source ∈ sources, ¬ Compiles source) ∨ ∃ source ∈ sources, Finds source t := by
  simp only [isDetected_ofSources_iff, not_compiles_iff, Finds]

theorem isDetected_congr (same : ∀ source, Compiles source → (source ∈ others ↔ source ∈ sources)) :
    ((ofSources others).inspect t).isDetected = ((ofSources sources).inspect t).isDetected := by
  rw [Bool.eq_iff_iff, isDetected_iff, isDetected_iff]
  refine or_congr ?_ ?_
  · exact forall_congr' fun source =>
      ⟨fun absent listed compiles => absent ((same source compiles).mpr listed) compiles,
        fun absent listed compiles => absent ((same source compiles).mp listed) compiles⟩
  · exact exists_congr fun source => and_congr_left fun finds => same source finds.compiles

end Detector

end QueryGate
