import StackTrace.Memory.Basic
import StackTrace.Table

/-!
# Named holdings of memory

Reservations and boxes that a program holds by name.  Making one under a name that is taken charges
the new one first and gives the old one back after that; a refused one leaves the old one in place.
-/

namespace StackTrace

/-- What is held, by name. -/
structure Holdings where
  reservations : Table Reservation
  boxes : Table BoxedBool

namespace Holdings

/-- Nothing is held. -/
def empty : Holdings := ⟨Table.empty, Table.empty⟩

/-- Reserves `payload` bytes; reports the bytes charged. -/
def reserve (h : Holdings) (m : Memory) (name : String) (payload : Nat) :
    Except (Failure OutOfMemory) Nat × Holdings × Memory :=
  match m.allocate payload with
  | (.error e, m) => (.error e, h, m)
  | (.ok r, m) =>
    let m := m.releaseAll (h.reservations.get? name).toList
    (.ok r.bytes, { h with reservations := h.reservations.insert name r }, m)

/-- Boxes a boolean with `Memory.box` and holds it under a name; reports it. -/
def box (h : Holdings) (m : Memory) (name : String) (value : Bool) :
    Except (Failure OutOfMemory) Bool × Holdings × Memory :=
  match m.box value with
  | (.error e, m) => (.error e, h, m)
  | (.ok b, m) =>
    let m := m.releaseAll ((h.boxes.get? name).map (·.reservation)).toList
    (.ok b.value, { h with boxes := h.boxes.insert name b }, m)

/-- Gives back the reservation and the box of a name; reports whether there was one. -/
def free (h : Holdings) (m : Memory) (name : String) : Bool × Holdings × Memory :=
  let held := (h.reservations.get? name).toList ++
    ((h.boxes.get? name).map (·.reservation)).toList
  (!held.isEmpty, ⟨h.reservations.erase name, h.boxes.erase name⟩, m.releaseAll held)

end Holdings

end StackTrace
