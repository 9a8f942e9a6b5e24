import CodeFacts.Proofs.Path.Extend
import CodeFacts.Proofs.Path.Normalize

/-!
# Paths that climb

A relative path is normalized in the same way wherever it starts: first up as far as it climbs, and
then down by the names that are left. Where there is nothing to remove, at the root and at the start
of a relative path, going up twice leads back, since normalization lets a second `..` remove the
first one. So of a path that is normalized for itself, the climb remains only if it is at most one
directory; of a longer one it remains whether it is odd.
-/

namespace CodeFacts.Path

/-- How many directories above its start a path leads that has gone down a number of names
before. -/
def climbFrom : Nat → List Component → Nat
  | _, [] => 0
  | 0, .parent :: rest => climbFrom 0 rest + 1
  | depth + 1, .parent :: rest => climbFrom depth rest
  | depth, .name _ :: rest => climbFrom (depth + 1) rest
  | depth, _ :: rest => climbFrom depth rest

/-- How many directories above its start a path leads. -/
def climb (path : Path) : Nat :=
  climbFrom 0 path.components

/-- The names that are left below the highest directory to which a path leads that has gone down
by names before. -/
def namesLeft : List String → List Component → List String
  | names, [] => names
  | names, .parent :: rest => namesLeft names.dropLast rest
  | names, .name text :: rest => namesLeft (names ++ [text]) rest
  | names, _ :: rest => namesLeft names rest

/-- The normalized components of a directory some levels above another. -/
def raise (base : List Component) (height : Nat) : List Component :=
  normalizeComponents (base ++ List.replicate height .parent)

theorem raise_zero {base : List Component} (fixed : normalizeComponents base = base) :
    raise base 0 = base := by
  simpa [raise] using fixed

theorem raise_succ (base : List Component) (height : Nat) :
    raise base (height + 1) = normalizeStep (raise base height) .parent := by
  rw [raise, List.replicate_succ', ← List.append_assoc, normalizeComponents_concat, raise]

theorem raise_one {base : List Component} (fixed : normalizeComponents base = base) :
    raise base 1 = normalizeStep base .parent := by
  rw [raise_succ, raise_zero fixed]

/-- Going up from where nothing can be removed, every second `..` removes the one before it. -/
theorem raise_top {top : List Component} (nothing : top = [] ∨ top = [.root]) (height : Nat) :
    raise top height = top ++ List.replicate (height % 2) .parent := by
  induction height with
  | zero => rcases nothing with rfl | rfl <;> rfl
  | succ height ih =>
      rw [raise_succ, ih]
      rcases Nat.mod_two_eq_zero_or_one height with even | odd
      · have next : (height + 1) % 2 = 1 := by omega
        simp [normalizeStep, even, next, nothing]
      · have next : (height + 1) % 2 = 0 := by omega
        rcases nothing with rfl | rfl <;> simp [normalizeStep, odd, next]

theorem raise_nil {height : Nat} (low : height ≤ 1) :
    raise [] height = List.replicate height .parent := by
  rw [raise_top (Or.inl rfl), List.nil_append, Nat.mod_eq_of_lt (Nat.lt_succ_of_le low)]

theorem normalizeStep_parent_of_name (kept : List Component) (text : String) :
    normalizeStep (kept ++ [.name text]) .parent = kept := by
  have not_root : kept ++ [.name text] ≠ [.root] := by
    intro same
    have last := congrArg List.getLast? same
    simp at last
  simp [normalizeStep, not_root]

/-- What is normalized stays so when it is followed by names. -/
theorem normalizeComponents_append_names {base : List Component}
    (fixed : normalizeComponents base = base) (names : List String) :
    normalizeComponents (base ++ names.map .name) = base ++ names.map .name := by
  induction names using List.reverseRecOn with
  | nil => simpa using fixed
  | append_singleton names name ih =>
      rw [List.map_append, ← List.append_assoc, List.map_singleton, normalizeComponents_concat, ih]
      rfl

theorem normalizeComponents_rooted (names : List String) :
    normalizeComponents (.root :: names.map .name) = .root :: names.map .name := by
  have root : normalizeComponents [.root] = [.root] := rfl
  exact normalizeComponents_append_names root names

/-- Normalizing below a directory goes up as far as the path climbs, and down by what is left. The
invariant carries the height reached so far and the names that can still be removed. -/
theorem foldl_normalizeStep_raise (base : List Component) {steps : List Component}
    (rootless : .root ∉ steps) (names : List String) (height : Nat) :
    steps.foldl normalizeStep (raise base height ++ names.map .name) =
      raise base (height + climbFrom names.length steps) ++ (namesLeft names steps).map .name := by
  induction steps generalizing names height with
  | nil => rfl
  | cons step rest ih =>
      rw [List.mem_cons, not_or] at rootless
      rw [List.foldl_cons]
      cases step with
      | root => exact absurd rfl rootless.1
      | current => exact ih rootless.2 names height
      | name text =>
          have down := ih rootless.2 (names ++ [text]) height
          simp only [List.length_append, List.length_singleton, List.map_append, List.map_singleton,
            ← List.append_assoc] at down
          exact down
      | parent =>
          rcases List.eq_nil_or_concat names with rfl | ⟨front, last, rfl⟩
          · have up := ih rootless.2 [] (height + 1)
            rw [raise_succ, Nat.add_assoc, Nat.add_comm 1] at up
            simpa [climbFrom, namesLeft] using up
          · have up := ih rootless.2 front height
            rw [List.concat_eq_append, List.map_append, List.map_singleton, ← List.append_assoc,
              normalizeStep_parent_of_name, up]
            simp only [List.length_append, List.length_singleton, climbFrom, namesLeft,
              List.dropLast_concat]

/-- From a directory that is reached from a normalized one by names. -/
theorem normalizeComponents_append_names_steps {base : List Component}
    (fixed : normalizeComponents base = base) (names : List String) {steps : List Component}
    (rootless : .root ∉ steps) :
    normalizeComponents (base ++ names.map .name ++ steps) =
      raise base (climbFrom names.length steps) ++ (namesLeft names steps).map .name := by
  have fold := foldl_normalizeStep_raise base rootless names 0
  rw [raise_zero fixed, Nat.zero_add] at fold
  rw [← fold, normalizeComponents, List.foldl_append]
  exact congrArg (List.foldl normalizeStep · steps) (normalizeComponents_append_names fixed names)

/-- From a normalized directory itself. -/
theorem normalizeComponents_append_steps {base : List Component}
    (fixed : normalizeComponents base = base) {steps : List Component} (rootless : .root ∉ steps) :
    normalizeComponents (base ++ steps) =
      raise base (climbFrom 0 steps) ++ (namesLeft [] steps).map .name := by
  simpa using normalizeComponents_append_names_steps fixed [] rootless

theorem mem_of_mem_namesLeft {names : List String} {steps : List Component} {name : String}
    (name_mem : name ∈ namesLeft names steps) : name ∈ names ∨ .name name ∈ steps := by
  induction steps generalizing names with
  | nil => exact Or.inl name_mem
  | cons step rest ih =>
      cases step with
      | root => exact (ih name_mem).imp id (List.mem_cons_of_mem _)
      | current => exact (ih name_mem).imp id (List.mem_cons_of_mem _)
      | parent => exact (ih name_mem).imp (List.dropLast_subset _ ·) (List.mem_cons_of_mem _)
      | name text =>
          rcases ih name_mem with before | later
          · rw [List.mem_append, List.mem_singleton] at before
            exact before.imp id fun same => by rw [same]; exact List.mem_cons_self
          · exact Or.inr (List.mem_cons_of_mem _ later)

theorem isName_of_mem_namesLeft {names : List String} (isName : ∀ name ∈ names, IsName name)
    (path : Path) : ∀ name ∈ namesLeft names path.steps, IsName name := by
  intro name name_mem
  rcases mem_of_mem_namesLeft name_mem with before | step
  · exact isName name before
  · exact path.isStep_of_mem_body _ step

theorem climbFrom_replicate_append (height : Nat) (names : List String) (steps : List Component) :
    climbFrom 0 (List.replicate height .parent ++ names.map .name ++ steps) =
      height + climbFrom names.length steps := by
  have down : ∀ depth, climbFrom depth (names.map .name ++ steps) =
      climbFrom (depth + names.length) steps := by
    induction names with
    | nil => simp
    | cons name names ih =>
        intro depth
        simp only [List.map_cons, List.cons_append, climbFrom, ih, List.length_cons]
        congr 1
        omega
  induction height with
  | zero => simp [down]
  | succ height ih =>
      rw [List.replicate_succ, List.cons_append, List.cons_append, climbFrom, ih]
      omega

section Relative

variable {path : Path} (relative : path.isAbsolute = false)

include relative

theorem climb_eq_of_relative : path.climb = climbFrom 0 path.steps := by
  rcases components_of_relative relative with same | same
  · rw [climb, same]
  · rw [climb, same]
    rfl

/-- A relative path is normalized to the names that are left, below a parent if its climb is odd. -/
theorem normalizeComponents_of_relative :
    normalizeComponents path.components =
      List.replicate (path.climb % 2) .parent ++ (namesLeft [] path.steps).map .name := by
  have same : normalizeComponents path.components = normalizeComponents ([] ++ path.steps) := by
    rcases components_of_relative relative with same | same
    · rw [same, List.nil_append]
    · rw [same]
      rfl
  rw [same, normalizeComponents_append_steps rfl path.root_notMem_steps, raise_top (Or.inl rfl),
    climb_eq_of_relative relative, List.nil_append]

theorem normalizeComponents_of_climb (low : path.climb ≤ 1) :
    normalizeComponents path.components =
      List.replicate path.climb .parent ++ (namesLeft [] path.steps).map .name := by
  rw [normalizeComponents_of_relative relative, Nat.mod_eq_of_lt (Nat.lt_succ_of_le low)]

end Relative

end CodeFacts.Path
