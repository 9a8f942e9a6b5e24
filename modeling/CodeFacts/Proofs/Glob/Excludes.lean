import CodeFacts.Glob.Excludes
import Mathlib.Data.List.Basic

/-!
# Lists of exclude patterns

Patterns are compiled together, but whether a list can be used is decided by each of its patterns
alone: it has to be well written, and not nested too deep if it goes by an extension or by the
whole path.
-/

namespace CodeFacts.Glob

/-- An action succeeds on a whole list if it succeeds on each element, and what holds of the results
of the elements holds of all results. -/
theorem exists_mapM_iff {Input Output Fault : Type} (action : Input → Except Fault Output)
    (property : Output → Prop) (inputs : List Input) :
    (∃ outputs, inputs.mapM action = .ok outputs ∧ ∀ output ∈ outputs, property output) ↔
      ∀ input ∈ inputs, ∃ output, action input = .ok output ∧ property output := by
  induction inputs with
  | nil => simp [pure, Except.pure]
  | cons input inputs ih =>
      rw [List.mapM_cons, List.forall_mem_cons, ← ih]
      cases action input with
      | error fault => simp [bind, Except.bind]
      | ok output =>
          cases inputs.mapM action with
          | error fault => simp [bind, Except.bind]
          | ok rest => simp [bind, Except.bind, pure, Except.pure]

namespace Matcher

/-- The pattern is not nested too deep, or goes by something for which this does not matter. -/
def Fits (matcher : Matcher) : Prop :=
  matcher.criterion = .extension ∨ matcher.criterion = .path → matcher.isTooDeep = false

instance (matcher : Matcher) : Decidable matcher.Fits :=
  inferInstanceAs (Decidable (_ → _))

end Matcher

/-- A pattern that can stand in a list: it is well written and not nested too deep. -/
def IsUsable (pattern : String) : Prop :=
  ∃ matcher, Matcher.compile pattern = .ok matcher ∧ matcher.Fits

instance (pattern : String) : Decidable (IsUsable pattern) :=
  match compiled : Matcher.compile pattern with
  | .ok matcher => decidable_of_iff matcher.Fits (by simp [IsUsable, compiled])
  | .error _ => isFalse (by simp [IsUsable, compiled])

namespace Excludes

/-- Compiles one pattern of a list. -/
def compileOne (pattern : String) : Except Failure Matcher :=
  match Matcher.compile pattern with
  | .ok matcher => .ok matcher
  | .error fault => .error (.invalidPattern pattern fault)

/-- Where nesting matters, patterns are looked at alone or together; none of them may be too deep. -/
theorem nestingFault?_eq_none_iff (matchers : List Matcher) :
    nestingFault? matchers = none ↔ ∀ matcher ∈ matchers, matcher.Fits := by
  unfold nestingFault?
  split
  · rename_i matcher found
    have deep : matcher.criterion = .extension ∧ matcher.isTooDeep = true := by
      simpa using List.find?_some found
    simp only [reduceCtorEq, false_iff]
    intro fits
    have shallow := fits matcher (List.mem_of_find?_eq_some found) (Or.inl deep.1)
    simp [deep.2] at shallow
  · rename_i none_found
    simp only [List.find?_eq_none, Bool.and_eq_true, beq_iff_eq, not_and] at none_found
    simp only [Option.map_eq_none_iff, List.findIdx?_eq_none_iff, List.mem_filter, beq_iff_eq]
    constructor
    · rintro shallow matcher matcher_mem (extension | path)
      · exact Bool.eq_false_iff.mpr (none_found matcher matcher_mem extension)
      · exact shallow matcher ⟨matcher_mem, path⟩
    · rintro fits matcher ⟨matcher_mem, path⟩
      exact fits matcher matcher_mem (Or.inr path)

theorem compile_eq_ok_iff {patterns : List String} {excluded : Excludes} :
    compile patterns = .ok excluded ↔ patterns.mapM compileOne = .ok excluded.matchers ∧
      nestingFault? excluded.matchers = none := by
  change (patterns.mapM compileOne).bind _ = _ ↔ _
  cases each : patterns.mapM compileOne with
  | error failure => simp [Except.bind]
  | ok matchers =>
      simp only [Except.bind, Except.ok.injEq]
      cases excluded
      constructor
      · intro compiled
        split at compiled
        · contradiction
        · rename_i fits
          cases compiled
          exact ⟨rfl, fits⟩
      · rintro ⟨rfl, fits⟩
        rw [fits]
        rfl

theorem compileOne_eq_ok_iff {pattern : String} {matcher : Matcher} :
    compileOne pattern = .ok matcher ↔ Matcher.compile pattern = .ok matcher := by
  unfold compileOne
  cases Matcher.compile pattern <;> simp

/-- A list can be used if each of its patterns can. -/
theorem exists_compile_iff (patterns : List String) :
    (∃ excluded, compile patterns = .ok excluded) ↔ ∀ pattern ∈ patterns, IsUsable pattern := by
  simp only [compile_eq_ok_iff, nestingFault?_eq_none_iff]
  have each := exists_mapM_iff compileOne Matcher.Fits patterns
  simp only [compileOne_eq_ok_iff] at each
  constructor
  · rintro ⟨excluded, compiled, fits⟩
    exact each.mp ⟨excluded.matchers, compiled, fits⟩
  · intro usable
    rcases each.mpr usable with ⟨matchers, compiled, fits⟩
    exact ⟨⟨matchers⟩, compiled, fits⟩

/-- More patterns exclude more. -/
theorem excludes_of_append {patterns more : List String} {few many : Excludes}
    (compiled : compile patterns = .ok few) (compiled_all : compile (patterns ++ more) = .ok many)
    {path : Path} (excluded : few.excludes path = true) : many.excludes path = true := by
  have all := (compile_eq_ok_iff.mp compiled_all).1
  rw [List.mapM_append, (compile_eq_ok_iff.mp compiled).1] at all
  cases each : more.mapM compileOne with
  | error failure => simp [each, bind, Except.bind] at all
  | ok others =>
      have matchers : few.matchers ++ others = many.matchers := by
        simpa [each, bind, Except.bind, pure, Except.pure] using all
      unfold excludes at excluded ⊢
      rw [← matchers, List.any_append, excluded, Bool.true_or]

end Excludes

end CodeFacts.Glob
