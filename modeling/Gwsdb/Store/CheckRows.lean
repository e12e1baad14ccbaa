import Gwsdb.Lib.Table
import Gwsdb.Store.Date

/-!
# Coalescing check rows

`src/checkRows.ts`: of the checks of one IP in a batch, the latest is kept, and before it the latest
success when that is another one.
-/

namespace Gwsdb.Store

open Keyed (Table)

/-- A value to bind to a statement: D1 takes a text or null, and throws on `undefined`. -/
inductive Bindable where
  | undefined
  | null
  | text (s : String)
  deriving DecidableEq

/-- What is stored for a value, or the error of binding it. -/
def Bindable.bind : Bindable → Except String (Option String)
  | undefined => .error "D1_TYPE_ERROR: Type 'undefined' not supported for value 'undefined'"
  | null => .ok none
  | text s => .ok (some s)

/-- `CheckRow`. -/
structure CheckRow where
  ip : String
  ok : Bool
  rttMs : Option Int
  reason : Option String
  detail : Option String
  checkedAt : JsDate
  scanMode : Bindable
  deriving DecidableEq

/-- The state `coalesceCheckRows` keeps for an IP. -/
structure Coalesced where
  latest : CheckRow
  latestSuccess : Option CheckRow
  deriving DecidableEq

/-- The state of an IP after one more row of it. -/
def coalesceRow (row : CheckRow) : Option Coalesced → Coalesced
  | none => ⟨row, if row.ok then some row else none⟩
  | some state =>
    { latest := if row.checkedAt.ge state.latest.checkedAt then row else state.latest
      latestSuccess :=
        if row.ok ∧ state.latestSuccess.all (fun s => row.checkedAt.ge s.checkedAt) then some row else state.latestSuccess }

/-- The states of the IPs after the rows, in the order the IPs first came. -/
def coalesceStates (rows : List CheckRow) : Table String Coalesced :=
  rows.foldl (fun byIP row => byIP.alter row.ip fun state => some (coalesceRow row state)) Table.empty

/-- The rows kept for an IP. The code tells the two rows apart by identity; they are one object whenever they are equal, because
a success that becomes the latest row becomes the latest success too. -/
def Coalesced.rows (state : Coalesced) : List CheckRow :=
  match state.latestSuccess with
  | none => [state.latest]
  | some success => if success = state.latest then [state.latest] else [success, state.latest]

/-- `coalesceCheckRows`. -/
def coalesceCheckRows (rows : List CheckRow) : List CheckRow := (coalesceStates rows).entries.flatMap fun e => e.2.rows

/-! ## Rows as objects

The same on objects that are told apart by identity, each with its row.
-/

/-- The objects `coalesceCheckRows` keeps for an IP. -/
structure CoalescedRefs (Ref : Type) where
  latest : Ref
  latestSuccess : Option Ref

variable {Ref : Type} [DecidableEq Ref]

/-- The state of an IP after one more object of it. -/
def coalesceRef (row : Ref → CheckRow) (r : Ref) : Option (CoalescedRefs Ref) → CoalescedRefs Ref
  | none => ⟨r, if (row r).ok then some r else none⟩
  | some state =>
    { latest := if (row r).checkedAt.ge (row state.latest).checkedAt then r else state.latest
      latestSuccess :=
        if (row r).ok ∧ state.latestSuccess.all (fun s => (row r).checkedAt.ge (row s).checkedAt) then some r
        else state.latestSuccess }

/-- The objects kept for an IP. -/
def CoalescedRefs.refs (state : CoalescedRefs Ref) : List Ref :=
  match state.latestSuccess with
  | none => [state.latest]
  | some success => if success = state.latest then [state.latest] else [success, state.latest]

/-- `coalesceCheckRows` on objects. -/
def coalesceRefs (row : Ref → CheckRow) (refs : List Ref) : List Ref :=
  (refs.foldl (fun byIP r => byIP.alter (row r).ip fun state => some (coalesceRef row r state)) Table.empty).entries.flatMap
    fun e => e.2.refs

end Gwsdb.Store
