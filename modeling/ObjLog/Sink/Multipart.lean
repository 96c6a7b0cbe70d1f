import ObjLog.Lib.Path
import ObjLog.Errors
/-!
# Multipart uploads, `blob/sink/multipart/multipart.go`

What the stream hands to a provider session: numbered parts, the receipts they are
answered with, and the request that assembles the object from them.
-/

namespace ObjLog.Multipart

open Lib

variable {receipts : List Receipt} {limits : Limits}

structure Limits where
  minPartSize : UInt64
  maxPartSize : UInt64
  maxPartCount : Nat
  maxObjectSize : UInt64
deriving DecidableEq

structure Part where
  number : Nat
  bytes : Bytes
  checksumSHA256 : Arr 32
deriving DecidableEq

structure Receipt where
  number : Nat
  token : String
  sizeBytes : UInt64
  checksumSHA256 : Arr 32
deriving DecidableEq

structure CommitRequest where
  receipts : List Receipt
  sizeBytes : UInt64
  objectSHA256 : Arr 32
deriving DecidableEq

structure ObjectAttrs where
  key : String
  sizeBytes : UInt64
  token : String
  sessionID : String
  objectSHA256 : Arr 32
deriving DecidableEq

def invalidStore (text : String) : Err := .of (.multipart .invalidStore) text

def Limits.validate (l : Limits) : Except Err Unit := do
  failIf (l.maxPartSize = 0) (invalidStore "max_part_size must be positive")
  failIf (l.minPartSize > l.maxPartSize)
    (invalidStore s!"min_part_size={l.minPartSize} exceeds max_part_size={l.maxPartSize}")
  failIf (l.maxPartCount = 0) (invalidStore "max_part_count must be positive")
  failIf (l.maxObjectSize = 0) (invalidStore "max_object_size must be positive")

def newPart [Hashes] (number : Nat) (bytes : Bytes) : Part := ⟨number, bytes, Hashes.sha256 bytes⟩

/-- The loop of `ValidateReceipts` from receipt `want` on. -/
def validateReceiptsFrom (want : Nat) : List Receipt → Except Err Unit
  | [] => .ok ()
  | receipt :: receipts => do
    failIf (receipt.number ≠ want) (invalidStore s!"receipt number={receipt.number} want={want}")
    failIf (receipt.sizeBytes = 0) (invalidStore s!"empty receipt part {receipt.number}")
    validateReceiptsFrom (want + 1) receipts

def validateReceipts (receipts : List Receipt) : Except Err Unit := do
  failIf (receipts = []) (invalidStore "no receipts")
  validateReceiptsFrom 1 receipts

def maxUint64 : UInt64 := UInt64.ofNat (2 ^ 64 - 1)

/-- The loop of `ValidateCommitRequest`: the size of the object. -/
def receiptsSize (limits : Limits) (size : UInt64) : List Receipt → Except Err UInt64
  | [] => .ok size
  | receipt :: receipts => do
    failIf (receipt.sizeBytes > limits.maxPartSize)
      (invalidStore s!"part {receipt.number} receipt size={receipt.sizeBytes} max={limits.maxPartSize}")
    failIf (receipts ≠ [] ∧ receipt.sizeBytes < limits.minPartSize)
      (invalidStore s!"non-final part {receipt.number} size={receipt.sizeBytes} min={limits.minPartSize}")
    failIf (maxUint64 - size < receipt.sizeBytes) (invalidStore "object size overflow")
    receiptsSize limits (size + receipt.sizeBytes) receipts

def validateCommitRequest (request : CommitRequest) (limits : Limits) : Except Err Unit := do
  validateReceipts request.receipts
  failIf (request.receipts.length > limits.maxPartCount)
    (invalidStore s!"receipt count={request.receipts.length} max={limits.maxPartCount}")
  let size ← receiptsSize limits 0 request.receipts
  failIf (size ≠ request.sizeBytes) (invalidStore s!"request size={request.sizeBytes} receipt size={size}")
  failIf (size > limits.maxObjectSize) (invalidStore s!"object size={size} max={limits.maxObjectSize}")

/-! ## Keys and metadata -/

/-- A map from names to values in some iteration order. -/
abbrev Metadata := List (String × String)

structure Options where
  contentType : String
  stagingPrefix : String
  sessionID : String
  metadata : Metadata
deriving DecidableEq

def metadataSessionID : String := "objlog_upload_session"
def metadataSize : String := "objlog_object_size"
def metadataSHA256 : String := "objlog_object_sha256"

def setValue (metadata : Metadata) (name value : String) : Metadata := (name, value) :: metadata.filter (·.1 ≠ name)

def sessionMetadata (opts : Options) : Metadata := setValue opts.metadata metadataSessionID opts.sessionID

def commitMetadata (opts : Options) (request : CommitRequest) : Metadata :=
  let metadata := setValue (sessionMetadata opts) metadataSize (toString request.sizeBytes)
  if request.objectSHA256 ≠ .zero 32 then setValue metadata metadataSHA256 (hexString request.objectSHA256.bytes) else metadata

/-- The letter a character folds to: the two beyond ASCII that fold to one of its letters are
the Kelvin sign and the long s. -/
def foldChar (c : Char) : Char := if c = '\u212A' then 'k' else if c = '\u017F' then 's' else c.toLower

/-- `strings.EqualFold` with a name of ASCII letters and underscores. -/
def equalFold (key name : String) : Bool := key.toList.map foldChar = name.toList.map foldChar

def metadataValue (metadata : Metadata) (name : String) : String :=
  ((metadata.find? fun m => equalFold m.1 name).map (·.2)).getD ""

def matchesCommittedObject (size : UInt64) (metadata : Metadata) (opts : Options) (request : CommitRequest)
    (requireChecksum : Bool) : Bool :=
  let encodedSize := metadataValue metadata metadataSize
  let encodedHash := metadataValue metadata metadataSHA256
  size = request.sizeBytes ∧ metadataValue metadata metadataSessionID = opts.sessionID ∧
    (encodedSize = "" ∨ encodedSize = toString request.sizeBytes) ∧
    (request.objectSHA256 = .zero 32 ∨ ¬(requireChecksum ∧ encodedHash = "") ∧
      (encodedHash = "" ∨ encodedHash = hexString request.objectSHA256.bytes))

def stagingComposePrefix (stagingPrefix attemptID : String) : String := pathJoin [stagingPrefix, "compose", attemptID]

theorem validateReceiptsFrom_ok {want : Nat} : validateReceiptsFrom want receipts = .ok () ↔
      receipts.map Receipt.number = List.range' want receipts.length ∧ ∀ r ∈ receipts, r.sizeBytes ≠ 0 := by
  induction receipts generalizing want with
  | nil => simp [validateReceiptsFrom]
  | cons receipt receipts ih =>
    simp only [validateReceiptsFrom, checks_ok, not_not, ih, List.map_cons, List.length_cons, List.range'_succ,
      List.cons.injEq, List.forall_mem_cons]
    tauto

/-- Receipts whose sizes fit the limits add up to the size of the object. -/
theorem receiptsSize_ok {size : UInt64} (hmax : ∀ r ∈ receipts, r.sizeBytes ≤ limits.maxPartSize)
    (hmin : ∀ r ∈ receipts.dropLast, limits.minPartSize ≤ r.sizeBytes)
    (htotal : size.toNat + (receipts.map fun r => r.sizeBytes.toNat).sum < 2 ^ 64) : receiptsSize limits size receipts =
      .ok (UInt64.ofNat (size.toNat + (receipts.map fun r => r.sizeBytes.toNat).sum)) := by
  induction receipts generalizing size with
  | nil => simp [receiptsSize]
  | cons receipt receipts ih =>
    obtain ⟨hhead, htail⟩ := List.forall_mem_cons.1 hmax
    simp only [List.map_cons, List.sum_cons] at htotal ⊢
    have hadd : (size + receipt.sizeBytes).toNat = size.toNat + receipt.sizeBytes.toNat := by
      rw [UInt64.toNat_add, Nat.mod_eq_of_lt (by omega)]
    have hroom : ¬maxUint64 - size < receipt.sizeBytes := by
      have hle : size ≤ maxUint64 := UInt64.le_iff_toNat_le.2 (Nat.le_of_lt_succ size.toNat_lt)
      rw [UInt64.lt_iff_toNat_lt, UInt64.toNat_sub_of_le _ _ hle]
      have hall : maxUint64.toNat = 2 ^ 64 - 1 := rfl
      omega
    have hnonfinal : ¬(receipts ≠ [] ∧ receipt.sizeBytes < limits.minPartSize) := by
      rintro ⟨hne, hlt⟩
      have hle := hmin receipt (by rw [List.dropLast_cons_of_ne_nil hne]; exact List.mem_cons_self)
      exact absurd hlt (UInt64.not_lt.2 hle)
    have hrest : ∀ r ∈ receipts.dropLast, limits.minPartSize ≤ r.sizeBytes := by
      intro r hr
      refine hmin r ?_
      rw [List.dropLast_cons_of_ne_nil (by rintro rfl; cases hr)]
      exact List.mem_cons_of_mem _ hr
    rw [receiptsSize, failIf, if_neg (UInt64.not_lt.2 hhead), failIf, if_neg hnonfinal, failIf, if_neg hroom]
    change receiptsSize limits (size + receipt.sizeBytes) receipts = _
    rw [ih htail hrest (by rw [hadd]; omega), hadd, Nat.add_assoc]

/-- Receipts that are accepted add up without overflow. -/
theorem receiptsSize_sum {size total : UInt64} (h : receiptsSize limits size receipts = .ok total) :
    total.toNat = size.toNat + (receipts.map fun r => r.sizeBytes.toNat).sum := by
  induction receipts generalizing size with
  | nil =>
    obtain rfl := Except.ok.inj h
    simp
  | cons receipt receipts ih =>
    simp only [receiptsSize, checks_ok] at h
    obtain ⟨_, _, hfits, hrest⟩ := h
    have hle : size ≤ maxUint64 := UInt64.le_iff_toNat_le.2 (Nat.le_of_lt_succ size.toNat_lt)
    rw [UInt64.lt_iff_toNat_lt, UInt64.toNat_sub_of_le _ _ hle] at hfits
    have hall : maxUint64.toNat = 2 ^ 64 - 1 := rfl
    have hlt := size.toNat_lt
    have hadd : (size + receipt.sizeBytes).toNat = size.toNat + receipt.sizeBytes.toNat := by
      rw [UInt64.toNat_add, Nat.mod_eq_of_lt (by omega)]
    rw [ih hrest, hadd, List.map_cons, List.sum_cons, Nat.add_assoc]

/-- What a commit request that is accepted says about its receipts. -/
theorem validateCommitRequest_ok {request : CommitRequest} (h : validateCommitRequest request limits = .ok ()) :
    request.receipts ≠ [] ∧ request.receipts.map Receipt.number = List.range' 1 request.receipts.length ∧
      request.sizeBytes.toNat = (request.receipts.map fun r => r.sizeBytes.toNat).sum := by
  simp only [validateCommitRequest, validateReceipts, checks_ok, validateReceiptsFrom_ok, not_not] at h
  obtain ⟨⟨hne, hnumbers, _⟩, _, total, htotal, rfl, _⟩ := h
  exact ⟨hne, hnumbers, by simpa using receiptsSize_sum htotal⟩

end ObjLog.Multipart
