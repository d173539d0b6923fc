import SeedPeg.Fault
import SeedPeg.Value.Equality

/-!
# Declarations

What is declared under names, in the order in which the names are first declared. A name that is
declared again keeps its place and takes the new item (`Declarations.declare`), so no two entries
have equal names; looking a name up answers its item and its place.
-/

namespace SeedPeg

variable {α β : Type}

/-- No two entries have equal names. -/
def NamesDistinct (entries : List (Value × α)) : Prop :=
  entries.Pairwise fun first second => first.1.equals second.1 = false

instance (entries : List (Value × α)) : Decidable (NamesDistinct entries) :=
  inferInstanceAs (Decidable (List.Pairwise _ _))

theorem namesDistinct_iff {entries : List (Value × α)} :
    NamesDistinct entries ↔
      (entries.map (·.1)).Pairwise fun first second => first.equals second = false := by
  rw [List.pairwise_map]; rfl

/-- Items in order of declaration, under different names. -/
structure Declarations (α : Type) where
  entries : List (Value × α)
  distinct : NamesDistinct entries := by decide

namespace Declarations

/-- Entries with an item put under a name: in the place of an equal name, or last. -/
def putName (name : Value) (item : α) : List (Value × α) → List (Value × α)
  | [] => [(name, item)]
  | entry :: rest =>
    if entry.1.equals name then (entry.1, item) :: rest else entry :: putName name item rest

/-- Putting keeps the names of the entries that are there and adds none but the new one. -/
theorem name_of_mem_putName {name : Value} {item : α} {entries : List (Value × α)}
    {entry : Value × α} (member : entry ∈ putName name item entries) :
    entry.1 = name ∨ ∃ old ∈ entries, old.1 = entry.1 := by
  induction entries with
  | nil => simp_all [putName]
  | cons first rest ih =>
    simp only [putName] at member
    split at member
    · rcases List.mem_cons.1 member with rfl | member
      · exact .inr ⟨first, by simp, rfl⟩
      · exact .inr ⟨entry, by simp [member], rfl⟩
    · rcases List.mem_cons.1 member with rfl | member
      · exact .inr ⟨entry, by simp, rfl⟩
      · rcases ih member with same | ⟨old, inside, same⟩
        · exact .inl same
        · exact .inr ⟨old, by simp [inside], same⟩

/-- Putting keeps items and adds none but the new one. -/
theorem item_of_mem_putName {name : Value} {item : α} {entries : List (Value × α)}
    {entry : Value × α} (member : entry ∈ putName name item entries) :
    entry.2 = item ∨ entry ∈ entries := by
  induction entries with
  | nil => simp_all [putName]
  | cons first rest ih =>
    simp only [putName] at member
    split at member
    · rcases List.mem_cons.1 member with rfl | member
      · exact .inl rfl
      · exact .inr (List.mem_cons_of_mem _ member)
    · rcases List.mem_cons.1 member with rfl | member
      · exact .inr (by simp)
      · exact (ih member).imp_right (List.mem_cons_of_mem _)

theorem namesDistinct_putName {name : Value} {item : α} {entries : List (Value × α)}
    (distinct : NamesDistinct entries) : NamesDistinct (putName name item entries) := by
  induction entries with
  | nil => simp [putName, NamesDistinct]
  | cons first rest ih =>
    obtain ⟨apart, others⟩ := List.pairwise_cons.1 distinct
    simp only [putName]
    split
    · exact List.pairwise_cons.2 ⟨apart, others⟩
    · rename_i different
      refine List.pairwise_cons.2 ⟨fun entry member => ?_, ih others⟩
      rcases name_of_mem_putName member with same | ⟨old, inside, same⟩
      · rw [same]; simpa using different
      · rw [← same]; exact apart old inside

def empty : Declarations α := ⟨[], List.Pairwise.nil⟩

variable (declarations : Declarations α)

/-- The declarations with a name declared: an equal name keeps its place and takes what is
    declared now, a new name comes last. -/
def declare (name : Value) (item : α) : Declarations α :=
  ⟨putName name item declarations.entries, namesDistinct_putName declarations.distinct⟩

/-- The declarations that come of declaring some entries one after the other; names must be
    keys. -/
def ofEntries (entries : List (Value × α)) : Except Fault (Declarations α) :=
  if entries.all (·.1.isKey) then
    .ok (entries.foldl (fun made entry => made.declare entry.1 entry.2) empty)
  else .error .listAsKey

/-- Entries with their items read, up to the first that cannot be. -/
def readItems (read : α → Except Fault β) :
    List (Value × α) → Except Fault (List (Value × β))
  | [] => .ok []
  | (name, item) :: rest => do
    let item ← read item
    let others ← readItems read rest
    return (name, item) :: others

theorem names_of_readItems {read : α → Except Fault β} {entries : List (Value × α)}
    {items : List (Value × β)} (done : readItems read entries = .ok items) :
    items.map (·.1) = entries.map (·.1) := by
  induction entries generalizing items with
  | nil => cases done; rfl
  | cons entry rest ih =>
    obtain ⟨name, item⟩ := entry
    simp only [readItems] at done
    cases first : read item with
    | error fault => simp [first, bind, Except.bind] at done
    | ok item =>
      cases others : readItems read rest with
      | error fault => simp [first, others, bind, Except.bind] at done
      | ok more =>
        simp only [first, others, bind, Except.bind, pure, Except.pure, Except.ok.injEq] at done
        rw [← done]
        simp [ih others]

theorem namesDistinct_of_readItems {read : α → Except Fault β} {entries : List (Value × α)}
    {items : List (Value × β)} (done : readItems read entries = .ok items)
    (distinct : NamesDistinct entries) : NamesDistinct items := by
  rw [namesDistinct_iff] at distinct ⊢
  rw [names_of_readItems done]; exact distinct

/-- The declarations with their items read, up to the first that cannot be. -/
def readWith (read : α → Except Fault β) : Except Fault (Declarations β) :=
  match done : readItems read declarations.entries with
  | .error fault => .error fault
  | .ok items => .ok ⟨items, namesDistinct_of_readItems done declarations.distinct⟩

/-- The place and the item of the first entry with a name that equals the given one. -/
def locate (name : Value) : List (Value × α) → Option (Nat × α)
  | [] => none
  | entry :: rest =>
    if entry.1.equals name then some (0, entry.2)
    else (locate name rest).map fun found => (found.1 + 1, found.2)

def size : Nat := declarations.entries.length

/-- The place and the item of the entry with a name that equals the given one. -/
def find? (name : Value) : Option (Nat × α) := locate name declarations.entries

def contains (name : Value) : Except Fault Bool :=
  if name.isKey then .ok (declarations.find? name).isSome else .error .listAsKey

def get (name : Value) : Except Fault α :=
  if name.isKey then
    match declarations.find? name with
    | some (_, item) => .ok item
    | none => .error (.noSuchRule name)
  else .error .listAsKey

end Declarations

end SeedPeg
