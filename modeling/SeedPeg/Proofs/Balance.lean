import Mathlib
import SeedPeg.Proofs.Frame

/-!
# Balance

How many entries a memo table has, and how these numbers go with the depth, faults included. Opening a
rule application adds one to the depth and stores a marker; closing it takes one from the depth, when
the marker has become a result, which is removed if results are not kept. So the markers never become
more than the depth does, and where results are not kept the entries become as many more as the
depth. A fault leaves applications open, so the depth is not lower after it. All of this is one
induction over runs (`Runs.balances`).
-/

namespace SeedPeg

/-- Whether an entry is a marker. -/
def Entry.isMarker : Entry → Bool
  | .marker _ => true
  | .resolved .. => false

/-! ## Counting entries -/

namespace Row

variable {α : Type} {key : Int} {item : α} {entries : List (Int × α)}

theorem drop_eq_self (apart : ∀ entry ∈ entries, entry.1 ≠ key) : drop key entries = entries :=
  List.filter_eq_self.mpr fun entry member => decide_eq_true (apart entry member)

theorem drop_cons (first : Int × α) (rest : List (Int × α)) :
    drop key (first :: rest) = if first.1 = key then drop key rest else first :: drop key rest := by
  by_cases same : first.1 = key <;> simp [drop, same]

theorem drop_of_find? (missing : find? key entries = none) : drop key entries = entries := by
  induction entries with
  | nil => rfl
  | cons first rest ih =>
    rw [find?] at missing
    rw [drop_cons]
    split at missing
    · cases missing
    · rename_i apart
      rw [if_neg apart, ih missing]

/-- The entry of a held key stands beside those with other keys. -/
theorem perm_of_find? (found : find? key entries = some item)
    (ascending : entries.Pairwise fun first second => first.1 < second.1) :
    entries.Perm ((key, item) :: drop key entries) := by
  induction entries with
  | nil => cases found
  | cons first rest ih =>
    obtain ⟨least, others⟩ := List.pairwise_cons.1 ascending
    rw [find?] at found
    rw [drop_cons]
    split at found
    · rename_i same
      cases found
      have kept : drop key rest = rest :=
        drop_eq_self fun entry inside => by have := least entry inside; omega
      rw [if_pos same, kept, ← same]
    · rename_i apart
      rw [if_neg apart]
      exact ((ih found others).cons first).trans (.swap ..)

/-- Putting an entry in its place adds it to those with other keys. -/
theorem put_perm (key : Int) (item : α)
    (ascending : entries.Pairwise fun first second => first.1 < second.1) :
    (put key item entries).Perm ((key, item) :: drop key entries) := by
  induction entries with
  | nil => exact .refl _
  | cons first rest ih =>
    obtain ⟨least, others⟩ := List.pairwise_cons.1 ascending
    rw [put, drop_cons]
    split
    · rename_i below
      have kept : drop key rest = rest :=
        drop_eq_self fun entry inside => by have := least entry inside; omega
      rw [if_neg (by omega), kept]
    · split
      · rename_i same
        have kept : drop key rest = rest :=
          drop_eq_self fun entry inside => by have := least entry inside; omega
        rw [if_pos same.symm, kept]
      · rename_i apart
        rw [if_neg (Ne.symm apart)]
        exact ((ih others).cons first).trans (.swap ..)

/-- The number of entries of a kind. -/
def count (kind : α → Bool) (row : Row α) : Nat := row.entries.countP fun entry => kind entry.2

variable (kind : α → Bool) (row : Row α)

theorem size_eq_count : row.size = row.count fun _ => true := by simp [size, count]

theorem count_erase (key : Int) :
    (row.erase key).count kind + (row.get? key).toList.countP kind = row.count kind := by
  simp only [count, erase, get?]
  cases found : find? key row.entries with
  | none => simp [drop_of_find? found]
  | some item =>
    rw [(perm_of_find? found row.ascending).countP_eq, List.countP_cons]
    simp

theorem count_insert (key : Int) (item : α) :
    (row.insert key item).count kind + (row.get? key).toList.countP kind =
      row.count kind + [item].countP kind := by
  have others := row.count_erase kind key
  have added : (row.insert key item).count kind = (row.erase key).count kind + [item].countP kind := by
    simp only [count, insert, erase, (put_perm key item row.ascending).countP_eq, List.countP_cons,
      List.countP_nil]
    omega
  omega

end Row

namespace MemoTable

/-- The number of entries of a kind in all rows. -/
def count (kind : Entry → Bool) (table : MemoTable) : Nat :=
  (table.rows.toList.map fun row => (row.getD .empty).count kind).sum

theorem size_eq_count (table : MemoTable) : table.size = table.count fun _ => true := by
  simp only [size, count]
  induction table.rows.toList with
  | nil => rfl
  | cons row rest ih => rw [List.foldr_cons, ih, Row.size_eq_count, List.map_cons, List.sum_cons]

theorem count_ofLength (kind : Entry → Bool) (length : Int) : (ofLength length).count kind = 0 := by
  simp [count, ofLength, Row.count, Row.empty]

/-- What the change of one of several items does to the sum of their weights. -/
theorem sum_modify {α : Type} (weight : α → Nat) (change : α → α) {items : List α} {place : Nat} {item : α}
    (here : items[place]? = some item) :
    ((items.modify place change).map weight).sum + weight item =
      (items.map weight).sum + weight (change item) := by
  induction items generalizing place with
  | nil => simp at here
  | cons first rest ih =>
    cases place with
    | zero =>
      cases here
      simp only [List.modify_zero_cons, List.map_cons, List.sum_cons]
      omega
    | succ place =>
      have later := ih here
      simp only [List.modify_succ_cons, List.map_cons, List.sum_cons]
      omega

variable {table : MemoTable} (kind : Entry → Bool) {place : Nat} (id : Int)

theorem count_put (inside : place < table.rows.size) (entry : Entry) :
    (table.put place id entry).count kind + ((table.row place).get? id).toList.countP kind =
      table.count kind + [entry].countP kind := by
  have here : table.rows.toList[place]? = some table.rows[place] := by simp [inside]
  have changed := sum_modify (fun row => (row.getD .empty).count kind)
    (fun row => some ((row.getD .empty).insert id entry)) here
  have counted := Row.count_insert kind (table.rows[place].getD .empty) id entry
  simp only [count, put, row, Array.toList_modify, inside, Array.getElem?_eq_getElem, Option.join_some,
    Option.getD_some] at *
  omega

theorem count_remove (place : Nat) :
    (table.remove place id).count kind + ((table.row place).get? id).toList.countP kind =
      table.count kind := by
  simp only [count, remove, row, Array.toList_modify]
  by_cases inside : place < table.rows.size
  · have here : table.rows.toList[place]? = some table.rows[place] := by simp [inside]
    have changed := sum_modify (fun row => (row.getD .empty).count kind)
      (fun row => row.map (·.erase id)) here
    have counted := Row.count_erase kind (table.rows[place].getD .empty) id
    rw [Array.getElem?_eq_getElem inside, Option.join_some]
    cases held : table.rows[place] with
    | none => simpa [held] using changed
    | some row =>
      simp only [held, Option.map_some, Option.getD_some] at changed counted ⊢
      omega
  · rw [Array.getElem?_eq_none (by omega), List.modify_eq_self (by simpa using inside)]
    simp

end MemoTable

/-! ## Entries and depth -/

section

variable {setting : Setting} {s s' s1 : State} {name : Value} {id : Nat} {body : Expr} {site : Site}

namespace State

/-- The number of markers in the table. -/
def markers (s : State) : Nat := s.memo.count Entry.isMarker

theorem markers_fresh (length : Nat) : (fresh length).markers = 0 := MemoTable.count_ofLength _ _

theorem size_fresh (length : Nat) : (fresh length).memo.size = 0 :=
  (MemoTable.size_eq_count _).trans (MemoTable.count_ofLength _ _)

/-- The depth is not lower, the markers have become at most as many more as it, and where results are
    not kept all entries have become as many more. -/
structure Balances (setting : Setting) (s s' : State) : Prop where
  depth : s.depth ≤ s'.depth
  markers : (s'.markers : Int) - s'.depth ≤ s.markers - s.depth
  entries : setting.options.memoize = false → (s'.memo.size : Int) - s'.depth = s.memo.size - s.depth

namespace Balances

theorem of_same (memo : s'.memo = s.memo) (depth : s'.depth = s.depth) : s.Balances setting s' := by
  refine ⟨by rw [depth], ?_, fun _ => ?_⟩ <;> simp [State.markers, memo, depth]

theorem trans {s'' : State} (first : s.Balances setting s') (second : s'.Balances setting s'') :
    s.Balances setting s'' :=
  ⟨Int.le_trans first.depth second.depth, Int.le_trans second.markers first.markers,
    fun forgets => (second.entries forgets).trans (first.entries forgets)⟩

theorem of_moved {position : Int} (balances : (s.moved position).Balances setting s') :
    s.Balances setting s' :=
  ⟨balances.depth, balances.markers, balances.entries⟩

theorem moved (balances : s.Balances setting s') (position : Int) :
    s.Balances setting (s'.moved position) :=
  ⟨balances.depth, balances.markers, balances.entries⟩

theorem restored (balances : s.Balances setting s') (back : Bool) (position : Int) :
    s.Balances setting (s'.restored back position) := by
  cases back with
  | true => exact balances.moved position
  | false => exact balances

theorem told (balances : s.Balances setting s') (event : Event) :
    s.Balances setting (s'.told setting event) :=
  balances.trans (.of_same (s'.memo_told setting event) (s'.depth_told setting event))

end Balances

namespace Proper

variable (proper : s.Proper setting) (low : 0 ≤ site.position) (high : site.position ≤ setting.input.size)
include proper low high

theorem count_put (kind : Entry → Bool) (entry : Entry) :
    (s.put site entry).memo.count kind + (s.known site).toList.countP kind =
      s.memo.count kind + [entry].countP kind := by
  have rows := proper.rows
  rw [known, MemoTable.known_eq low]
  exact MemoTable.count_put kind site.id (by omega) entry

/-- An entry where there was one is no more of them. -/
theorem size_put (held : s.known site ≠ none) (entry : Entry) :
    (s.put site entry).memo.size = s.memo.size := by
  have counted := proper.count_put low high (fun _ => true) entry
  obtain ⟨before, known⟩ := Option.ne_none_iff_exists'.mp held
  rw [known] at counted
  simpa [MemoTable.size_eq_count] using counted

/-- An entry that is a marker only if there was one adds nothing. -/
theorem balances_put (held : s.known site ≠ none) {entry : Entry}
    (fewer : [entry].countP Entry.isMarker ≤ (s.known site).toList.countP Entry.isMarker) :
    s.Balances setting (s.put site entry) := by
  have counted := proper.count_put low high Entry.isMarker entry
  refine ⟨Int.le_refl _, ?_, fun _ => by rw [proper.size_put low high held, depth_put]⟩
  simp only [State.markers, depth_put]
  omega

/-- A result takes the place of a marker. -/
theorem markers_put_result {detected : Bool} (marked : s.known site = some (.marker detected))
    (tree : Option Tree) (next : Int) :
    (s.put site (.ofResult site.position tree next)).markers + 1 = s.markers := by
  have counted := proper.count_put low high Entry.isMarker (.ofResult site.position tree next)
  rw [marked] at counted
  exact counted

end Proper

/-- Opening a rule application of which nothing is known stores one entry more. -/
theorem Proper.count_opened (proper : s.Proper setting) (name : Value)
    (unknown : s.known ⟨id, s.position⟩ = none) (kind : Entry → Bool) :
    (s.opened setting name id).memo.count kind = s.memo.count kind + [.marker false].countP kind := by
  have counted := @Proper.count_put _ _ ⟨id, s.position⟩ proper proper.low proper.high kind
    (.marker false)
  rw [memo_opened]
  simpa [unknown] using counted

theorem Proper.size_opened (proper : s.Proper setting) (name : Value)
    (unknown : s.known ⟨id, s.position⟩ = none) :
    (s.opened setting name id).memo.size = s.memo.size + 1 := by
  rw [MemoTable.size_eq_count, MemoTable.size_eq_count, proper.count_opened name unknown]
  rfl

/-- The entry of an opened rule application is a marker. -/
theorem Balances.opened (proper : s.Proper setting) (name : Value)
    (unknown : s.known ⟨id, s.position⟩ = none) : s.Balances setting (s.opened setting name id) := by
  have markers : (s.opened setting name id).markers = s.markers + 1 :=
    proper.count_opened name unknown Entry.isMarker
  have size := proper.size_opened name unknown
  refine ⟨by rw [depth_opened]; omega, ?_, fun _ => ?_⟩ <;> rw [depth_opened] <;> omega

/-- Coming back to a marker only replaces it. -/
theorem Balances.flagged {detected : Bool} (proper : s.Proper setting)
    (marked : s.known ⟨id, s.position⟩ = some (.marker detected)) :
    s.Balances setting (s.flagged setting name ⟨id, s.position⟩ detected) := by
  cases detected with
  | true => exact .of_same rfl rfl
  | false =>
    have told := proper.told (.leftRecursion name s.position)
    have marked' : (s.told setting (.leftRecursion name s.position)).known ⟨id, s.position⟩ =
        some (.marker false) := (known_told s setting _ _).trans marked
    have put := @Proper.balances_put _ _ ⟨id, s.position⟩ told proper.low proper.high
      (by simp [marked']) (.marker true) (by rw [marked']; exact Nat.le_refl _)
    exact ((Balances.of_same rfl rfl).told _).trans put

/-- Closing a rule application that has a result takes one from the depth, as storing the result has
    taken a marker; where results are not kept it takes the entry too. -/
theorem Balances.closed {s2 : State} {detected : Bool} {tree result : Option Tree} {reached next : Int}
    (inner : s.Balances setting s1) (proper : s1.Proper setting) (low : 0 ≤ site.position)
    (high : site.position ≤ setting.input.size) (marked : s1.known site = some (.marker detected))
    (grows : (s1.put site (.ofResult site.position tree reached)).Balances setting s2)
    (known : s2.known site = some (.resolved result next)) (deeper : s2.depth = s.depth + 1)
    (name : Value) :
    s.Balances setting (s2.closed setting name site result) := by
  have taken := proper.markers_put_result low high marked tree reached
  have size := proper.size_put low high (by simp [marked]) (.ofResult site.position tree reached)
  have removed := fun kind => @MemoTable.count_remove s2.memo kind site.id site.position.toNat
  rw [← MemoTable.known_eq low, show s2.memo.known site = _ from known] at removed
  refine ⟨by rw [depth_closed]; omega, ?_, fun forgets => ?_⟩
  · have markers : (s2.closed setting name site result).markers = s2.markers := by
      rw [State.markers, memo_closed]
      split
      · rfl
      · exact removed Entry.isMarker
    have balance := inner.markers
    have later := grows.markers
    rw [depth_closed, markers]
    rw [depth_put] at later
    omega
  · have entries : (s2.closed setting name site result).memo.size + 1 = s2.memo.size := by
      rw [memo_closed, if_neg (by simp [forgets]), MemoTable.size_eq_count, MemoTable.size_eq_count]
      exact removed fun _ => true
    have balance := inner.entries forgets
    have later := grows.entries forgets
    rw [depth_closed]
    rw [depth_put] at later
    omega

end State

/-! ## Every run keeps the balance -/

theorem Runs.balances {task : Task} {result : Result} (runs : Runs setting task s result s')
    (ready : task.Ready setting s) : s.Balances setting s' := by
  induction runs with
  | terminal matched =>
    obtain ⟨position, rfl⟩ := literal_moves ready matched
    exact .of_same rfl rfl
  | bare | plain | nothing | never | unknown | refused => exact .of_same rfl rfl
  | stop _ _ _ ih => exact (ih ready).restored _ _
  | @go e part s result s1 next back trees ended s2 _ runs _ _ ihPart ihNext =>
    exact ((ihPart ready).restored _ _).trans (ihNext (Task.Ready.next ready (runs.orderly ready) back next))
  | marked _ found => exact .flagged ready found
  | remembered => exact (State.Balances.of_same rfl rfl).restored _ _
  | applied found unknown _ ih => exact ih (Task.Ready.applied ready found unknown)
  | @broken name id body cause s s1 _ _ ih =>
    exact (State.Balances.opened ready.proper name ready.2.2).trans (ih ready.opened)
  | @settled name id body tree detected s s1 _ runs found _ ih =>
    have inner := (State.Balances.opened ready.proper name ready.2.2).trans (ih ready.opened)
    have orderly := runs.orderly ready.opened
    have deeper : s1.depth = s.depth + 1 := (orderly.depth tree rfl).trans State.depth_opened
    obtain ⟨low, high⟩ := ready.site_inside
    exact inner.closed orderly.proper low high found (.of_same rfl rfl)
      (orderly.proper.known_put_self low high _) deeper name
  | @ripened name id body seed tree s s1 s2 _ runs found grows ihBody ihGrowth =>
    have inner := (State.Balances.opened ready.proper name ready.2.2).trans (ihBody ready.opened)
    have orderly := runs.orderly ready.opened
    have planted := ready.planted orderly
    have later := grows.orderly planted
    have deeper : s2.depth = s.depth + 1 :=
      ((later.depth tree rfl).trans (orderly.depth _ rfl)).trans State.depth_opened
    obtain ⟨low, high⟩ := ready.site_inside
    exact inner.closed orderly.proper low high found (ihGrowth planted) (later.grown _ tree rfl rfl).2
      deeper name
  | @withered name id body seed cause s s1 s2 _ runs found _ ihBody ihGrowth =>
    have inner := (State.Balances.opened ready.proper name ready.2.2).trans (ihBody ready.opened)
    have orderly := runs.orderly ready.opened
    obtain ⟨low, high⟩ := ready.site_inside
    have stored := @State.Proper.balances_put _ _ ⟨id, s.position⟩ orderly.proper low high
      (by simp [found]) (.ofResult s.position (some seed) s1.position) (Nat.zero_le _)
    exact (inner.trans stored).trans (ihGrowth (ready.planted orderly))
  | grown _ _ _ ih => exact ((ih ready.moved).of_moved).moved _
  | @growing name id body position seed reached tree s s1 ended s2 known runs further _ ihBody ihNext =>
    have orderly := runs.orderly ready.moved
    have told := orderly.proper.told (.grew name position s1.position)
    have stored := @State.Proper.balances_put _ _ ⟨id, position⟩ told ready.inside.1 ready.inside.2
      (by simp [orderly.keeps_seed known]) (.ofResult position (some tree) s1.position) (Nat.zero_le _)
    exact (((ihBody ready.moved).of_moved.told _).trans stored).trans (ihNext (ready.replanted orderly))
  | stunted _ _ ih => exact (ih ready.moved).of_moved

end

end SeedPeg
