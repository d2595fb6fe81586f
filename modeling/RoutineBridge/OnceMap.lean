import RoutineBridge.SortedMap

/-!
# Maps that compute each value once

A key is first asked for, and its value is then computed by one of those who ask. Everyone who
asks for a key gets that one value, whether it is a success or a failure, and the value never
changes. A computation that is given up leaves the key without a value, and the next one who asks
computes it.
-/

namespace RoutineBridge

/-- The keys that were ever asked for, with the values that are known. -/
structure OnceMap (κ ν : Type) [Ord κ] where
  cells : SortedMap κ (Option ν)

namespace OnceMap

variable {κ ν : Type} [Ord κ]

def empty : OnceMap κ ν := ⟨.empty⟩

instance : Inhabited (OnceMap κ ν) := ⟨empty⟩

/-- The value of a key, if it is known. -/
def get? (m : OnceMap κ ν) (k : κ) : Option ν := (m.cells.get? k).join

/-- The key was asked for. -/
def requested (m : OnceMap κ ν) (k : κ) : Bool := m.cells.contains k

/-- How many keys were asked for. -/
def size (m : OnceMap κ ν) : Nat := m.cells.size

/-- The known values in the order of their keys. -/
def completed (m : OnceMap κ ν) : List (κ × ν) :=
  m.cells.entries.filterMap fun e => e.2.map fun v => (e.1, v)

variable [Std.TransOrd κ]

/-- Asks for a key without computing its value; also what a computation that is given up leaves
behind. -/
def request (m : OnceMap κ ν) (k : κ) : OnceMap κ ν := ⟨m.cells.insertNew k none⟩

/-- Stores the value of a key unless it has one. -/
def complete (m : OnceMap κ ν) (k : κ) (v : ν) : OnceMap κ ν :=
  match m.get? k with
  | some _ => m
  | none => ⟨m.cells.insert k (some v)⟩

theorem get?_complete_self {m : OnceMap κ ν} {k : κ} (v : ν) (h : m.get? k = none) :
    (m.complete k v).get? k = some v := by
  have hcells : m.complete k v = ⟨m.cells.insert k (some v)⟩ := by simp only [complete, h]
  rw [hcells, get?, SortedMap.get?_insert_self]
  rfl

theorem get?_complete_of_ne [Std.LawfulEqOrd κ] (m : OnceMap κ ν) {k j : κ} (v : ν) (h : j ≠ k) :
    (m.complete k v).get? j = m.get? j := by
  unfold complete
  split
  · rfl
  · rw [get?, get?, SortedMap.get?_insert_of_ne _ _ h]

/-- Asks for a key, ready to compute `v`: the map, the value of the key, and whether the
computation ran. -/
def run (m : OnceMap κ ν) (k : κ) (v : ν) : OnceMap κ ν × ν × Bool :=
  match m.get? k with
  | some w => (m, w, false)
  | none => (m.complete k v, v, true)

/-- Several ask for a key at the same time, each ready to compute a value: the values they get,
and how many computations ran. -/
def race (m : OnceMap κ ν) (k : κ) : List ν → OnceMap κ ν × List ν × Nat
  | [] => (m, [], 0)
  | v :: vs =>
    let (m, got, ran) := m.run k v
    let (m, rest, runs) := race m k vs
    (m, got :: rest, runs + ran.toNat)

end OnceMap

end RoutineBridge
