import Mathlib.Data.List.Basic

/-!
# What the pool endpoints send

`src/pool.ts`: a row of `/api/pool` and `/api/pool/changes`, and the bodies the two endpoints answer with.
-/

namespace Gwsdb

/-- `IPRow` without its country, which the endpoints drop: one row of the pool as the browser gets it. -/
structure IPRow where
  ip : String
  revision : Nat
  ptrList : List String
  status : String
  firstSeen : String
  lastSeen : String
  lastRttMs : Int
  deriving DecidableEq, Repr

/-- The fields of a body that describe the pool as a whole. `count` is sent by `/api/pool` only. -/
structure Metadata where
  version : Nat
  count : Option Nat
  scanMode : String
  totalKnownIPs : Nat
  totalChecks : Nat
  lastCheckAt : String
  deriving DecidableEq, Repr

/-- A body with rows: the whole pool, or the rows changed since some version. -/
structure PoolData where
  metadata : Metadata
  ips : List IPRow
  deriving DecidableEq, Repr

end Gwsdb
