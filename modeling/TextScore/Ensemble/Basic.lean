import TextScore.OrderedMap
import TextScore.Staff

/-!
# Ensembles

The instruments of a score in order of first appearance, the staff of each, and the groups in which
they are shown.

* `Instrument`, `Group` — what is declared.
* `Ensemble.register` — a new instrument, or a new declaration of a known one, starts a new staff.
* `Ensemble.resolve` — the instrument of a name, made up if nobody declared it.
* `Ensemble.staff`, `Ensemble.setStaff` — the staff of an instrument.

An ensemble carries the proof that every instrument stands under its own id and has a staff, and
`register` and `setStaff`, through which every change goes, re-establish it.  Later stages look
instruments up by the name on a staff line and then ask for the staff; that the second lookup cannot
fail is no fact about those stages but about the type.  The groups are left out of it: that they
name the declared instruments is a fact about how a text is read, in
`TextScore.Proofs.Ensemble.Declared`.
-/

namespace TextScore

/-- A player of a staff. -/
structure Instrument where
  /-- The name on staff lines. -/
  id : String
  /-- The name that is shown. -/
  displayName : String
  /-- Semitones from written to sounding pitch. -/
  transpose : Int := 0
  /-- The clef. -/
  clef? : Option String := none
  /-- The group mark of a short declaration. -/
  groupTag? : Option String := none
  /-- The visibility mark of a short declaration. -/
  visibilityTag? : Option String := none
  deriving DecidableEq, Repr

namespace Instrument

/-- The instrument for a name that nobody declared: shown under that name, and not transposing. -/
def undeclared (id : String) : Instrument := { id, displayName := id }

end Instrument

/-- Instruments that are shown together. -/
structure Group where
  /-- The name of the group. -/
  name : String
  /-- The ids of its instruments, in order. -/
  members : List String
  deriving DecidableEq, Repr

/-- The instruments of a score. -/
structure Ensemble where
  /-- What a new staff starts from. -/
  defaults : Defaults
  /-- The instruments by id. -/
  instruments : OrderedMap Instrument := ∅
  /-- Their staves by id. -/
  staves : OrderedMap Staff := ∅
  /-- The groups that have members. -/
  groups : List Group := []
  /-- Every instrument stands under its own id. -/
  keyed : ∀ id i, instruments.get? id = some i → i.id = id := by
    intro id i h
    exact absurd h (by rw [OrderedMap.get?_emptyCollection]; exact nofun)
  /-- Every instrument has a staff. -/
  staffed : ∀ id i, instruments.get? id = some i → (staves.get? id).isSome = true := by
    intro id i h
    exact absurd h (by rw [OrderedMap.get?_emptyCollection]; exact nofun)

namespace Ensemble

theorem keyed_put (e : Ensemble) (i : Instrument) (id : String) (j : Instrument)
    (h : (e.instruments.put i.id i).get? id = some j) : j.id = id := by
  by_cases hid : id = i.id
  · rw [hid, OrderedMap.get?_put_self, Option.some.injEq] at h
    rw [← h, hid]
  · rw [OrderedMap.get?_put_of_ne hid] at h
    exact e.keyed id j h

/-- The ensemble with an instrument and a new staff for it. -/
def register (e : Ensemble) (i : Instrument) : Ensemble :=
  { e with
    instruments := e.instruments.put i.id i
    staves := e.staves.put i.id e.defaults.newStaff
    keyed := e.keyed_put i
    staffed := fun id j h ↦ OrderedMap.isSome_get?_put fun hid ↦
      e.staffed id j ((OrderedMap.get?_put_of_ne hid e.instruments i).symm.trans h) }

/-- The instrument of an id.  One that nobody declared is made up and registered; the flag says
so. -/
def resolve (e : Ensemble) (id : String) : Instrument × Ensemble × Bool :=
  match e.instruments.get? id with
  | some i => (i, e, false)
  | none =>
    let i := Instrument.undeclared id
    (i, e.register i, true)

/-- The staff of an instrument. -/
def staff (e : Ensemble) (id : String) : Except Fault Staff :=
  match e.staves.get? id with
  | some st => .ok st
  | none => .error (.unknownInstrument id)

/-- The ensemble with the staff of an instrument changed. -/
def setStaff (e : Ensemble) (id : String) (st : Staff) : Ensemble :=
  { e with
    staves := e.staves.put id st
    staffed := fun k i h ↦ OrderedMap.isSome_get?_put fun _ ↦ e.staffed k i h }

end Ensemble

end TextScore
