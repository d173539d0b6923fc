import SeedPeg.Proofs.Begins

/-!
# Known results

A property of the results that a state knows (`State.Knows`): of the site, the tree or none, and the
cursor where the result ends. The cursor and the events of a trace do not matter to it, markers are no
results, and a stored result has to have the property itself.
-/

namespace SeedPeg

/-- A state in which every known result has a property. -/
structure State.Knows (property : Site → Option Tree → Int → Prop) (s : State) : Prop where
  holds : ∀ {site tree next}, s.known site = some (.resolved tree next) → property site tree next

section

variable {setting : Setting} {property : Site → Option Tree → Int → Prop} {s s1 : State}

namespace State.Knows

theorem fresh (size : Nat) : (State.fresh size).Knows property where
  holds known := by simp [State.known, State.fresh, MemoTable.known_ofLength] at known

theorem of_known (knows : s.Knows property) (same : ∀ site, s1.known site = s.known site) :
    s1.Knows property where
  holds known := knows.holds (by rwa [same] at known)

variable (knows : s.Knows property) (proper : s.Proper setting) {site : Site}
include knows

theorem moved (position : Int) : (s.moved position).Knows property := knows.of_known fun _ => rfl

theorem restored (back : Bool) (position : Int) : (s.restored back position).Knows property :=
  knows.of_known fun site => s.known_restored back position site

theorem told (event : Event) : (s.told setting event).Knows property :=
  knows.of_known fun _ => by simp

theorem closed (name : Value) (tree : Option Tree) (low : 0 ≤ site.position) :
    (s.closed setting name site tree).Knows property := by
  refine ⟨fun known => ?_⟩
  rw [State.known_closed tree low] at known
  split at known
  · cases known
  · exact knows.holds known

include proper

theorem opened (name : Value) (id : Nat) : (s.opened setting name id).Knows property := by
  refine ⟨fun known => ?_⟩
  rw [proper.known_opened] at known
  split at known
  · cases known
  · exact knows.holds known

theorem flagged (name : Value) (id : Nat) (detected : Bool) :
    (s.flagged setting name ⟨id, s.position⟩ detected).Knows property := by
  refine ⟨fun known => ?_⟩
  rw [proper.known_flagged] at known
  split at known
  · cases known
  · exact knows.holds known

theorem put_result (low : 0 ≤ site.position) (high : site.position ≤ setting.input.size)
    {tree : Option Tree} {next : Int}
    (stored : property site tree (if tree.isSome then next else site.position)) :
    (s.put site (.ofResult site.position tree next)).Knows property := by
  refine ⟨fun {other tree' next'} known => ?_⟩
  rw [proper.known_put low high] at known
  split at known
  · rename_i same
    simp only [Entry.ofResult, Option.some.injEq, Entry.resolved.injEq] at known
    obtain ⟨rfl, rfl⟩ := known
    rwa [same]
  · exact knows.holds known

end State.Knows

variable {name : Value} {id : Nat} {body : Expr}

/-- The result of a first evaluation can be stored. -/
theorem State.Knows.planted {tree : Option Tree} (knows : s1.Knows property)
    (ready : (Task.fresh name id body).Ready setting s)
    (orderly : Orderly setting (.expr body) (s.opened setting name id) (.done tree) s1)
    (stored : property ⟨id, s.position⟩ tree (if tree.isSome then s1.position else s.position)) :
    (s1.put ⟨id, s.position⟩ (.ofResult s.position tree s1.position)).Knows property :=
  @State.Knows.put_result _ _ _ knows orderly.proper ⟨id, s.position⟩ ready.proper.low
    ready.proper.high _ _ stored

/-- A longer match can be stored. -/
theorem State.Knows.replanted {position : Int} {tree : Tree} (knows : s1.Knows property)
    (ready : (Task.growth name id body position).Ready setting s)
    (orderly : Orderly setting (.expr body) (s.moved position) (.done (some tree)) s1)
    (stored : property ⟨id, position⟩ (some tree) s1.position) :
    ((s1.told setting (.grew name position s1.position)).put ⟨id, position⟩
      (.ofResult position (some tree) s1.position)).Knows property :=
  @State.Knows.put_result _ _ _ (knows.told _) (orderly.proper.told _) ⟨id, position⟩
    ready.inside.1 ready.inside.2 _ _ stored

end

end SeedPeg
