import CodeFacts.Calls.Hierarchy
import CodeFacts.Proofs.Firsts
import Mathlib.Data.List.Induction
import Mathlib.Data.List.Nodup

/-!
# Groups of calls

Callers and called names are collected in one pass: each call goes to the group of its key, or
opens a group at the end. The result has a closed form, the keys in the order of their first
calls, each with the positions of its calls in order. So no call is lost, and none stands in two
groups.
-/

namespace CodeFacts.Calls

section Keys

variable {Call Key : Type} [DecidableEq Key]

theorem eraseDups_concat (keys : List Key) (key : Key) :
    (keys ++ [key]).eraseDups = if key ∈ keys then keys.eraseDups else keys.eraseDups ++ [key] := by
  rw [List.eraseDups_append]
  by_cases present : key ∈ keys
  · simp [present, List.removeAll]
  · simp [present, List.removeAll, List.eraseDups_cons]

/-- Sorting elements by distinct keys that cover them all only reorders them. -/
theorem flatMap_filter_perm (key : Call → Key) {keys : List Key} (distinct : keys.Nodup)
    {calls : List Call} (covered : ∀ call ∈ calls, key call ∈ keys) :
    (keys.flatMap fun found => calls.filter fun call => decide (key call = found)).Perm calls := by
  induction keys generalizing calls with
  | nil =>
      have empty : calls = [] := by
        apply List.eq_nil_iff_forall_not_mem.mpr
        intro call call_mem
        simpa using covered call call_mem
      simp [empty]
  | cons first keys ih =>
      rcases List.nodup_cons.mp distinct with ⟨fresh, distinct⟩
      -- The calls of the later keys are all among those that the first key leaves over.
      let others := calls.filter fun call => !decide (key call = first)
      have later : (keys.flatMap fun found => calls.filter fun call => decide (key call = found)) =
          keys.flatMap fun found => others.filter fun call => decide (key call = found) := by
        apply List.flatMap_congr
        intro found found_mem
        rw [List.filter_filter]
        apply List.filter_congr
        intro call _
        by_cases same : key call = found
        · have different : found ≠ first := fun equal => fresh (equal ▸ found_mem)
          simp [same, different]
        · simp [same]
      have others_covered : ∀ call ∈ others, key call ∈ keys := by
        intro call call_mem
        rcases List.mem_filter.mp call_mem with ⟨call_mem, different⟩
        exact (List.mem_cons.mp (covered call call_mem)).resolve_left (by simpa using different)
      rw [List.flatMap_cons, later]
      exact ((ih distinct others_covered).append_left _).trans (List.filter_append_perm _ calls)

end Keys

section Adding

variable {Key Group : Type}

/-- Adding appends to the group of a key, and opens a group at the end if there is none. -/
structure IsAdding (make : Key → List Position → Group)
    (add : Key → Position → List Group → List Group) : Prop where
  nil : ∀ found place, add found place [] = [make found [place]]
  same : ∀ found place places rest,
    add found place (make found places :: rest) = make found (places ++ [place]) :: rest
  other : ∀ found place different places rest, different ≠ found →
    add found place (make different places :: rest) =
      make different places :: add found place rest

theorem IsAdding.add_fresh {make : Key → List Position → Group}
    {add : Key → Position → List Group → List Group} (adding : IsAdding make add)
    {keys : List Key} {found : Key} (fresh : found ∉ keys)
    (places : Key → List Position) (place : Position) :
    add found place (keys.map fun present => make present (places present)) =
      (keys.map fun present => make present (places present)) ++ [make found [place]] := by
  induction keys with
  | nil => exact adding.nil found place
  | cons first keys ih =>
      rw [List.mem_cons, not_or] at fresh
      rw [List.map_cons, adding.other _ _ _ _ _ (Ne.symm fresh.1), ih fresh.2, List.cons_append]

end Adding

section Grouping

variable {Call Key Group : Type} [DecidableEq Key]
variable (key : Call → Key) (position : Call → Position)

/-- The positions of the calls with a key. -/
def positionsOf (calls : List Call) (found : Key) : List Position :=
  (calls.filter fun call => decide (key call = found)).map position

/-- One group for each key, in the order of the first calls. -/
def grouped (make : Key → List Position → Group) (calls : List Call) : List Group :=
  (calls.map key).eraseDups.map fun found => make found (positionsOf key position calls found)

variable {key position}

theorem mem_positionsOf_iff {calls : List Call} {found : Key} {place : Position} :
    place ∈ positionsOf key position calls found ↔
      ∃ call ∈ calls, key call = found ∧ position call = place := by
  simp [positionsOf, and_assoc]

theorem mem_grouped_iff {make : Key → List Position → Group} {calls : List Call} {group : Group} :
    group ∈ grouped key position make calls ↔
      ∃ call ∈ calls, make (key call) (positionsOf key position calls (key call)) = group := by
  simp [grouped]

theorem positionsOf_concat (calls : List Call) (call : Call) (found : Key) :
    positionsOf key position (calls ++ [call]) found =
      if found = key call then positionsOf key position calls found ++ [position call]
      else positionsOf key position calls found := by
  by_cases same : found = key call
  · simp [positionsOf, same]
  · simp [positionsOf, same, Ne.symm same]

theorem positionsOf_eq_nil {calls : List Call} {found : Key} (absent : found ∉ calls.map key) :
    positionsOf key position calls found = [] := by
  apply List.eq_nil_iff_forall_not_mem.mpr
  intro place place_mem
  rcases mem_positionsOf_iff.mp place_mem with ⟨call, call_mem, rfl, -⟩
  exact absent (List.mem_map_of_mem call_mem)

/-- Reading the groups one after the other gives every call once. -/
theorem grouped_flatMap_perm {View : Type} {make : Key → List Position → Group}
    {expand : Group → List View} {view : Key → Position → View}
    (expand_make : ∀ found places, expand (make found places) = places.map (view found))
    (calls : List Call) :
    ((grouped key position make calls).flatMap expand).Perm
      (calls.map fun call => view (key call) (position call)) := by
  have covered : ∀ call ∈ calls, key call ∈ (calls.map key).eraseDups := by
    intro call call_mem
    exact List.mem_eraseDups.mpr (List.mem_map_of_mem call_mem)
  have regrouped := (flatMap_filter_perm key (nodup_eraseDups _) covered).map
    fun call => view (key call) (position call)
  refine List.Perm.trans (List.Perm.of_eq ?_) regrouped
  rw [grouped, List.flatMap_map, List.map_flatMap]
  apply List.flatMap_congr
  intro found _
  rw [expand_make, positionsOf, List.map_map]
  apply List.map_congr_left
  intro call call_mem
  have same : key call = found := by simpa using (List.mem_filter.mp call_mem).2
  rw [Function.comp_apply, same]

namespace IsAdding

variable {make : Key → List Position → Group} {add : Key → Position → List Group → List Group}

theorem add_present (adding : IsAdding make add) {keys : List Key} (distinct : keys.Nodup)
    {found : Key} (present : found ∈ keys) (places : Key → List Position) (place : Position) :
    add found place (keys.map fun other => make other (places other)) =
      keys.map fun other =>
        make other (if other = found then places other ++ [place] else places other) := by
  induction keys with
  | nil => cases present
  | cons first keys ih =>
      rcases List.nodup_cons.mp distinct with ⟨fresh, distinct⟩
      by_cases same : first = found
      · subst same
        rw [List.map_cons, adding.same, List.map_cons, if_pos rfl]
        refine congrArg (_ :: ·) (List.map_congr_left ?_)
        intro other other_mem
        have different : other ≠ first := fun equal => fresh (equal ▸ other_mem)
        rw [if_neg different]
      · have later : found ∈ keys := (List.mem_cons.mp present).resolve_left (Ne.symm same)
        rw [List.map_cons, adding.other _ _ _ _ _ same, ih distinct later, List.map_cons,
          if_neg same]

/-- Adding the calls one by one, in order, gives the groups. -/
theorem foldl_eq_grouped (adding : IsAdding make add) (calls : List Call) :
    calls.foldl (fun groups call => add (key call) (position call) groups) [] =
      grouped key position make calls := by
  induction calls using List.reverseRecOn with
  | nil => rfl
  | append_singleton calls call ih =>
      rw [List.foldl_append, List.foldl_cons, List.foldl_nil, ih, grouped, grouped, List.map_append,
        List.map_singleton, eraseDups_concat]
      simp only [positionsOf_concat]
      split
      · rename_i present
        exact adding.add_present (nodup_eraseDups _) (List.mem_eraseDups.mpr present) _ _
      · rename_i absent
        have fresh : key call ∉ (calls.map key).eraseDups := by simpa using absent
        rw [adding.add_fresh fresh, List.map_append, List.map_singleton, if_pos rfl,
          positionsOf_eq_nil absent, List.nil_append]
        refine congrArg (· ++ _) (List.map_congr_left ?_)
        intro other other_mem
        have different : other ≠ key call := fun equal => fresh (equal ▸ other_mem)
        rw [if_neg different]

end IsAdding

end Grouping

theorem isAdding_addIncoming : IsAdding IncomingCall.mk addIncoming where
  nil := by simp [addIncoming]
  same := by simp [addIncoming]
  other := by
    intro found place different places rest distinct
    simp [addIncoming, distinct]

theorem isAdding_addOutgoing (target : String → Option Item) :
    IsAdding (fun callee => OutgoingCall.mk callee (target callee))
      (fun callee => addOutgoing callee (target callee)) where
  nil := by simp [addOutgoing]
  same := by simp [addOutgoing]
  other := by
    intro found place different places rest distinct
    simp [addOutgoing, distinct]

namespace Store

theorem incoming_eq_grouped (store : Store) (name : String) :
    store.incoming name =
      grouped (fun found : LoadedFile × CallSite => callerOf found.1 found.2)
        (fun found => found.2.position) IncomingCall.mk (store.callsTargeting name) :=
  isAdding_addIncoming.foldl_eq_grouped _

/-- The declaration that a called name leads to, from a file. -/
def targetOf (store : Store) (file : LoadedFile) (callee : String) : Option Item :=
  (store.declarationsNamed (CallSite.lastSegment callee) file.path).head?

/-- The calls of a file on the lines of an item. -/
def callsWithin (file : LoadedFile) (item : Item) : List CallSite :=
  file.calls.filter fun call => decide (item.line ≤ call.line) && decide (call.line ≤ item.lastLine)

theorem outgoing_eq_grouped (store : Store) (file : LoadedFile) (item : Item) :
    store.outgoing file item =
      grouped CallSite.callee CallSite.position
        (fun callee => OutgoingCall.mk callee (store.targetOf file callee))
        (callsWithin file item) :=
  (isAdding_addOutgoing (store.targetOf file)).foldl_eq_grouped _

end Store

end CodeFacts.Calls
