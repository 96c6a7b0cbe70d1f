import ObjLog.Catformat.Types
/-!
# The sizes of records, `segformat/rawblock.go`
-/

namespace ObjLog.Segformat

open Lib

def filePreambleSize : Nat := 64
def blockPreambleSize : Nat := 64
def indexPreambleSize : Nat := 64
def blockIndexEntrySize : Nat := 64
def trailerSize : Nat := 192
def recordHeaderSize : Nat := 16
def maxRawBlockSize : Nat := 16777216
def maxRecordHeaders : Nat := 64
def maxRecordHeaderBytes : Nat := 262144
def maxRecordHeaderKeyLen : Nat := 1024
def maxRecordHeaderValueLen : Nat := 65535
def maxRecordValueLen : Nat := 4194304
def maxRecordCount : UInt32 := 4294967295
def maxBlockCount : Nat := (4294967295 - indexPreambleSize) / blockIndexEntrySize

structure Header where
  key : Bytes
  value : Bytes
deriving DecidableEq

/-- The loop of `encodedHeadersLen` from header `i` on. -/
def headersLenFrom (i total : Nat) : List Header → Except Err Nat
  | [] => .ok total
  | h :: hs => do
    failIf (h.key.length = 0) (.of .invalidSegment s!"header {i} key is empty")
    failIf (h.key.length > maxRecordHeaderKeyLen)
      (.of .recordTooLarge s!"header {i} key_len={h.key.length} max={maxRecordHeaderKeyLen}")
    failIf (h.value.length > maxRecordHeaderValueLen)
      (.of .recordTooLarge s!"header {i} value_len={h.value.length} max={maxRecordHeaderValueLen}")
    let total := total + (4 + h.key.length + h.value.length)
    failIf (total > maxRecordHeaderBytes) (.of .recordTooLarge s!"headers_len={total} max={maxRecordHeaderBytes}")
    headersLenFrom (i + 1) total hs

def encodedHeadersLen (headers : List Header) : Except Err Nat := do
  if headers = [] then
    return 0
  failIf (headers.length > maxRecordHeaders)
    (.of .recordTooLarge s!"header_count={headers.length} max={maxRecordHeaders}")
  headersLenFrom 0 2 headers

/-- `RecordSize` and `RawRecordSize`. -/
def recordSize (headers : List Header) (value : Bytes) : Except Err Nat := do
  failIf (value.length > maxRecordValueLen) (.of .recordTooLarge s!"value_len={value.length} max={maxRecordValueLen}")
  let headersLen ← encodedHeadersLen headers
  return recordHeaderSize + headersLen + value.length

end ObjLog.Segformat
