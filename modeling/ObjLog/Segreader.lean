import ObjLog.Lib.Rely
import ObjLog.Lib.Search
import ObjLog.Pmeta
import ObjLog.Segment
/-!
# Scanning segment objects, `segreader`

A reader holds the trailer and the block index of one segment object and fetches
byte ranges from a store. The store and the caller's context are parameters.
-/

namespace ObjLog.Segreader

open Lib Segformat Pmeta

variable {E : Type} {A : E → Type}

/-- A program that reads and may fail. -/
abbrev M (E : Type) (A : E → Type) := ExceptT Err (Prog E A)

/-- `ctx.Err()`. -/
abbrev Ctx (E : Type) (A : E → Type) := Prog E A (Option Err)

structure SegmentStore (E : Type) (A : E → Type) where
  readAt : String → UInt64 → UInt64 → M E A Bytes

def checkCtx (ctx : Ctx E A) : M E A Unit := do
  match ← ExceptT.lift ctx with
  | some err => throw err
  | none => pure ()

structure Options where
  validateSegmentHash : Bool
  maxBlockBytes : UInt64
  maxIndexBytes : UInt64
deriving DecidableEq

structure Reader (E : Type) (A : E → Type) where
  store : SegmentStore E A
  ref : SegmentRef
  opts : Options
  trailer : Trailer
  index : List BlockIndexEntry

/-- `block` is there while `hasBlock` is set. -/
structure Scanner where
  nextBlock : Nat
  fromLSN : UInt64
  block : Option RawBlockScanner
  closed : Bool
deriving DecidableEq

def Scanner.ended : Scanner := ⟨0, 0, none, true⟩

def blockLastLSN (e : BlockIndexEntry) : UInt64 := e.baseLSN + e.recordCount.toUInt64 - 1

def Reader.scan (r : Reader E A) (ctx : Ctx E A) (fromLSN : UInt64) : M E A Scanner := do
  checkCtx ctx
  if fromLSN > r.trailer.lastLSN then
    return .ended
  let fromLSN := if fromLSN < r.trailer.baseLSN then r.trailer.baseLSN else fromLSN
  let block := searchList r.index fun e => blockLastLSN e ≥ fromLSN
  if block ≥ r.index.length then
    return .ended
  return ⟨block, fromLSN, none, false⟩

end ObjLog.Segreader
