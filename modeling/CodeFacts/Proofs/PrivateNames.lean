import CodeFacts.Calls.Hierarchy
import CodeFacts.Proofs.Unused.Exemptions

/-!
# Private names

A leading underscore makes a Python name private, and two underscores at both ends make it public
again. The convention is applied in two places: to the fields of a class, to find out which of them
may be reported as unused, and to the declarations of a file, to tell which of them it exports.

The second place asks for a name of more than four bytes, so that there is something between the
underscores. The first place does not, and there the underscores may overlap. The two agree on all
names but those in which nothing stands between the underscores.
-/

namespace CodeFacts

/-- Two underscores stand at both ends of a name. They may be the same. -/
def HasDunders (name : String) : Prop :=
  ['_', '_'] <+: name.toList ∧ ['_', '_'] <:+ name.toList

/-- The names that have two underscores at both ends and nothing between them. -/
def bareDunders : List String :=
  ["__", "___", "____"]

/-- A text has at least as many bytes as characters. -/
theorem length_le_utf8ByteSize (chars : List Char) :
    chars.length ≤ (String.ofList chars).utf8ByteSize := by
  induction chars with
  | nil => simp
  | cons first rest ih =>
      have split :
          String.ofList (first :: rest) = String.singleton first ++ String.ofList rest := by
        rw [String.singleton_eq_ofList, ← String.ofList_append, List.singleton_append]
      have positive := first.utf8Size_pos
      rw [split, String.utf8ByteSize_append, String.utf8ByteSize_singleton, List.length_cons]
      omega

/-- In four bytes there is no room for anything between the underscores. -/
theorem HasDunders.mem_bareDunders {name : String} (dunders : HasDunders name)
    (short : name.utf8ByteSize ≤ 4) : name ∈ bareDunders := by
  rcases dunders with ⟨⟨rest, starts⟩, ends⟩
  have written : name = String.ofList ('_' :: '_' :: rest) := by
    rw [← String.ofList_toList (s := name), ← starts]
    rfl
  have fits : rest.length ≤ 2 := by
    have size := length_le_utf8ByteSize ('_' :: '_' :: rest)
    rw [← written, List.length_cons, List.length_cons] at size
    omega
  rw [← starts, ← List.reverse_prefix] at ends
  match rest, fits with
  | [], _ => simp [written, bareDunders]
  | [third], _ =>
      have third_eq : '_' = third := by simpa using ends
      simp [written, bareDunders, ← third_eq]
  | [third, fourth], _ =>
      have both : '_' = fourth ∧ '_' = third := by simpa using ends
      simp [written, bareDunders, ← both.1, ← both.2]

theorem isExported_iff {name : String} :
    Calls.isExported name = true ↔
      4 < name.utf8ByteSize ∧ HasDunders name ∨ ¬['_'] <+: name.toList := by
  have leads : (name.toList.head? != some '_') = true ↔ ¬['_'] <+: name.toList := by
    rw [← Unused.startsWithUnderscore_iff, Unused.startsWithUnderscore, beq_iff_eq, bne_iff_ne]
  simp only [Calls.isExported, HasDunders, Bool.or_eq_true, Bool.and_eq_true, decide_eq_true_eq,
    List.isPrefixOf_iff_prefix, List.isSuffixOf_iff_suffix, leads, and_assoc]
  rfl

theorem isPrivate_eq_false_iff {name : String} :
    Unused.Python.isPrivate name = false ↔ HasDunders name ∨ ¬['_'] <+: name.toList := by
  rw [← Bool.not_eq_true, Unused.Python.isPrivate_iff, HasDunders]
  tauto

/-- A declaration is exported exactly if its name is not private, unless the name has two
underscores at both ends and nothing between them. Such a name is neither private nor exported. -/
theorem exported_iff_not_private_unless_bareDunder (name : String) :
    ((Calls.isExported name = true ↔ Unused.Python.isPrivate name = false) ↔
      name ∉ bareDunders) ∧
    (name ∈ bareDunders →
      Calls.isExported name = false ∧ Unused.Python.isPrivate name = false) := by
  have bare : ∀ name ∈ bareDunders,
      Calls.isExported name = false ∧ Unused.Python.isPrivate name = false := by
    decide +kernel
  refine ⟨⟨?_, ?_⟩, bare name⟩
  · intro agree isBare
    have neither := bare name isBare
    rw [neither.1, neither.2] at agree
    simp at agree
  · intro notBare
    rw [isExported_iff, isPrivate_eq_false_iff]
    have long : HasDunders name → 4 < name.utf8ByteSize := by
      intro dunders
      by_contra short
      exact notBare (dunders.mem_bareDunders (Nat.le_of_not_lt short))
    tauto

/-- Four underscores are neither a private name nor an exported one. -/
theorem bareDunder_neither_exported_nor_private :
    ¬(Calls.isExported "____" = true ↔ Unused.Python.isPrivate "____" = false) := by
  decide +kernel

end CodeFacts
