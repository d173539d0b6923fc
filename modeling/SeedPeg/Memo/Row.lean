/-!
# Rows

A row is a finite map from integer keys, kept as the list of its entries in ascending order of
keys. Since the order is unique, rows with the same entries are the same (`Row.ext_get?`).
-/

namespace SeedPeg

/-- A finite map from integers. -/
structure Row (α : Type) where
  entries : List (Int × α) := []
  ascending : entries.Pairwise (fun first second => first.1 < second.1) := by simp

namespace Row

variable {α : Type}

def empty : Row α := {}

/-- What the entries hold for a key. -/
def find? (key : Int) : List (Int × α) → Option α
  | [] => none
  | entry :: rest => if entry.1 = key then some entry.2 else find? key rest

/-- The entries with one put in its place, or in the place of the one with the same key. -/
def put (key : Int) (item : α) : List (Int × α) → List (Int × α)
  | [] => [(key, item)]
  | entry :: rest =>
    if key < entry.1 then (key, item) :: entry :: rest
    else if key = entry.1 then (key, item) :: rest
    else entry :: put key item rest

/-- The entries with other keys. -/
def drop (key : Int) (entries : List (Int × α)) : List (Int × α) :=
  entries.filter fun entry => entry.1 ≠ key

theorem mem_put {key : Int} {item : α} {entries : List (Int × α)} {entry : Int × α}
    (member : entry ∈ put key item entries) : entry = (key, item) ∨ entry ∈ entries := by
  induction entries with
  | nil => simpa [put] using member
  | cons first rest ih =>
    simp only [put] at member
    split at member
    · simpa using member
    · split at member
      · rcases List.mem_cons.1 member with same | inside
        · exact .inl same
        · exact .inr (List.mem_cons_of_mem _ inside)
      · rcases List.mem_cons.1 member with same | inside
        · exact .inr (same ▸ List.mem_cons_self)
        · rcases ih inside with same | inside
          · exact .inl same
          · exact .inr (List.mem_cons_of_mem _ inside)

theorem ascending_put {key : Int} {item : α} {entries : List (Int × α)}
    (ascending : entries.Pairwise fun first second => first.1 < second.1) :
    (put key item entries).Pairwise fun first second => first.1 < second.1 := by
  induction entries with
  | nil => simp [put]
  | cons first rest ih =>
    obtain ⟨least, others⟩ := List.pairwise_cons.1 ascending
    simp only [put]
    split
    · rename_i below
      refine List.pairwise_cons.2 ⟨fun entry member => ?_, ascending⟩
      rcases List.mem_cons.1 member with rfl | inside
      · exact below
      · exact Int.lt_trans below (least entry inside)
    · split
      · rename_i same
        exact List.pairwise_cons.2 ⟨fun entry inside => same ▸ least entry inside, others⟩
      · refine List.pairwise_cons.2 ⟨fun entry member => ?_, ih others⟩
        rcases mem_put member with rfl | inside
        · show first.1 < key
          omega
        · exact least entry inside

def get? (row : Row α) (key : Int) : Option α := find? key row.entries

def insert (row : Row α) (key : Int) (item : α) : Row α :=
  ⟨put key item row.entries, ascending_put row.ascending⟩

def erase (row : Row α) (key : Int) : Row α :=
  ⟨drop key row.entries, row.ascending.filter _⟩

def size (row : Row α) : Nat := row.entries.length

@[simp] theorem get?_empty (key : Int) : (empty : Row α).get? key = none := rfl

@[simp] theorem size_empty : (empty : Row α).size = 0 := rfl

theorem find?_put (key other : Int) (item : α) (entries : List (Int × α)) :
    find? other (put key item entries) =
      if other = key then some item else find? other entries := by
  induction entries with
  | nil => simp [put, find?, eq_comm]
  | cons first rest ih =>
    simp only [put]
    split
    · simp [find?, eq_comm]
    · split
      · rename_i same
        by_cases here : other = key
        · simp [find?, here]
        · simp [find?, here, Ne.symm here, ← same]
      · rename_i different
        by_cases here : first.1 = other
        · simp [find?, here]; omega
        · simp [find?, here, ih]

theorem find?_drop (key other : Int) (entries : List (Int × α)) :
    find? other (drop key entries) = if other = key then none else find? other entries := by
  induction entries with
  | nil => simp [drop, find?]
  | cons first rest ih =>
    by_cases same : first.1 = key
    · have skipped : drop key (first :: rest) = drop key rest := by simp [drop, same]
      rw [skipped, ih]
      by_cases here : other = key
      · simp [here]
      · simp [find?, here, same, Ne.symm here]
    · have kept : drop key (first :: rest) = first :: drop key rest := by simp [drop, same]
      rw [kept, find?, ih, find?]
      by_cases here : first.1 = other
      · have apart : ¬ other = key := here ▸ same
        simp [here, apart]
      · simp [here]

@[simp] theorem get?_insert (row : Row α) (key other : Int) (item : α) :
    (row.insert key item).get? other = if other = key then some item else row.get? other :=
  find?_put key other item row.entries

@[simp] theorem get?_erase (row : Row α) (key other : Int) :
    (row.erase key).get? other = if other = key then none else row.get? other :=
  find?_drop key other row.entries

/-- Entries hold nothing for a key below all of theirs. -/
theorem find?_eq_none_of_lt {key : Int} {entries : List (Int × α)}
    (below : ∀ entry ∈ entries, key < entry.1) : find? key entries = none := by
  induction entries with
  | nil => rfl
  | cons first rest ih =>
    have apart : ¬ first.1 = key := by have := below first (by simp); omega
    rw [find?, if_neg apart]
    exact ih fun entry inside => below entry (by simp [inside])

theorem ext_get? {first second : Row α} (same : ∀ key, first.get? key = second.get? key) :
    first = second := by
  obtain ⟨entries, ascending⟩ := first
  obtain ⟨others, ordered⟩ := second
  suffices entries = others by subst this; rfl
  simp only [get?] at same
  induction entries generalizing others with
  | nil =>
    cases others with
    | nil => rfl
    | cons other rest => simpa [find?] using same other.1
  | cons entry rest ih =>
    obtain ⟨least, below⟩ := List.pairwise_cons.1 ascending
    cases others with
    | nil => simpa [find?] using same entry.1
    | cons other more =>
      obtain ⟨leastOther, belowOther⟩ := List.pairwise_cons.1 ordered
      have heads : entry.1 = other.1 := by
        rcases Int.lt_trichotomy entry.1 other.1 with lt | eq | gt
        · have missing : find? entry.1 (other :: more) = none :=
            find?_eq_none_of_lt fun found inside => by
              rcases List.mem_cons.1 inside with rfl | inside
              · exact lt
              · exact Int.lt_trans lt (leastOther found inside)
          have held := same entry.1
          rw [missing] at held
          simp [find?] at held
        · exact eq
        · have missing : find? other.1 (entry :: rest) = none :=
            find?_eq_none_of_lt fun found inside => by
              rcases List.mem_cons.1 inside with rfl | inside
              · exact gt
              · exact Int.lt_trans gt (least found inside)
          have held := same other.1
          rw [missing] at held
          simp [find?] at held
      have items : entry.2 = other.2 := by
        have held := same entry.1
        simp [find?, heads] at held
        exact held
      have tails : rest = more := by
        refine ih below more belowOther fun key => ?_
        have held := same key
        by_cases here : entry.1 = key
        · rw [find?_eq_none_of_lt (fun found inside => here ▸ least found inside),
            find?_eq_none_of_lt (fun found inside => here ▸ heads ▸ leastOther found inside)]
        · simpa [find?, here, ← heads] using held
      rw [tails, Prod.ext heads items]

end Row

end SeedPeg
