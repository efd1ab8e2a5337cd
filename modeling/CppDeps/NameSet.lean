/-!
# Sets of names

A finite set of names is kept as its members in ascending order, each once.  Names are compared
character by character, so two sets with the same members are equal, and going through a set
meets its members in a reproducible order.
-/

namespace CppDeps

/-- A finite set of names, listed in ascending order. -/
structure NameSet where
  /-- The members in ascending order. -/
  toList : List String
  /-- Every member is smaller than the members after it. -/
  ascending : toList.Pairwise (· < ·)
  deriving DecidableEq, Repr

namespace NameSet

/-- Puts a name at its place in an ascending list; a name that is there already is not put in
again. -/
def insertSorted (name : String) : List String → List String
  | [] => [name]
  | member :: rest =>
    if name < member then name :: member :: rest
    else if member < name then member :: insertSorted name rest
    else member :: rest

theorem mem_insertSorted {x name : String} {members : List String} :
    x ∈ insertSorted name members ↔ x = name ∨ x ∈ members := by
  induction members with
  | nil => simp [insertSorted]
  | cons member rest ih =>
    unfold insertSorted
    split
    · simp
    · split
      · rw [List.mem_cons, ih, List.mem_cons]
        exact or_left_comm
      · rename_i h₁ h₂
        have : name = member := String.le_antisymm (String.not_lt.1 h₂) (String.not_lt.1 h₁)
        simp [this]

theorem pairwise_insertSorted {name : String} {members : List String}
    (h : members.Pairwise (· < ·)) : (insertSorted name members).Pairwise (· < ·) := by
  induction members with
  | nil => simp [insertSorted]
  | cons member rest ih =>
    obtain ⟨hmember, hrest⟩ := List.pairwise_cons.1 h
    unfold insertSorted
    split
    · rename_i hlt
      refine List.pairwise_cons.2 ⟨fun x hx => ?_, h⟩
      rcases List.mem_cons.1 hx with rfl | hx
      · exact hlt
      · exact String.lt_trans hlt (hmember x hx)
    · split
      · rename_i hlt
        refine List.pairwise_cons.2 ⟨fun x hx => ?_, ih hrest⟩
        rcases mem_insertSorted.1 hx with rfl | hx
        · exact hlt
        · exact hmember x hx
      · exact h

/-- The set with no members. -/
def empty : NameSet where
  toList := []
  ascending := List.Pairwise.nil

instance : Inhabited NameSet := ⟨empty⟩

instance : Membership String NameSet := ⟨fun set name => name ∈ set.toList⟩

/-- The set with one more member. -/
def insert (name : String) (set : NameSet) : NameSet where
  toList := insertSorted name set.toList
  ascending := pairwise_insertSorted set.ascending

/-- The set of the names of a list. -/
def ofList (names : List String) : NameSet :=
  names.foldl (fun set name => set.insert name) empty

/-- Has the set no members? -/
def isEmpty (set : NameSet) : Bool :=
  set.toList.isEmpty

@[simp] theorem mem_toList {name : String} {set : NameSet} : name ∈ set.toList ↔ name ∈ set :=
  Iff.rfl

@[simp] theorem not_mem_empty (name : String) : name ∉ empty :=
  List.not_mem_nil

@[simp] theorem mem_insert {x name : String} {set : NameSet} :
    x ∈ set.insert name ↔ x = name ∨ x ∈ set :=
  mem_insertSorted

theorem mem_foldl_insert {x : String} {names : List String} {set : NameSet} :
    x ∈ names.foldl (fun set name => set.insert name) set ↔ x ∈ names ∨ x ∈ set := by
  induction names generalizing set with
  | nil => simp
  | cons name names ih =>
    rw [List.foldl_cons, ih, mem_insert, List.mem_cons]
    exact or_left_comm.trans (or_assoc.symm)

@[simp] theorem mem_ofList {x : String} {names : List String} : x ∈ ofList names ↔ x ∈ names := by
  simp [ofList, mem_foldl_insert]

end NameSet

end CppDeps
