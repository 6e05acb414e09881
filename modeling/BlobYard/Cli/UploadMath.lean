/-
The part arithmetic of the upload client.

* `totalParts` — how many parts the client will ask for;
* `partRange` — where a part is in the file; `none` where the unchecked arithmetic
  leaves the 64-bit range.
-/
import BlobYard.Contract.Numbers

namespace BlobYard

namespace Cli

/-- The codes of `BlobyardError` that the upload client gives. -/
inductive ErrorCode where
  | providerUnavailable
  | storageError
  deriving DecidableEq

/-- An error of the command line: its code and what it tells the user. -/
structure BlobyardError where
  code : ErrorCode
  message : String
  deriving DecidableEq

/-- A multipart upload has at most this many parts. -/
def maxParts : ℕ := 10000

/-- No part but the last is smaller. -/
def minPartSize : ℕ := 8 * 1024 * 1024

/-- The error of a grant that the server should not have given. -/
def contractError : BlobyardError where
  code := .providerUnavailable
  message := "Blobyard received an invalid storage grant. Try the upload again."

/-- `u64::div_ceil`. -/
def divCeil (a b : ℕ) : ℕ := if a % b = 0 then a / b else a / b + 1

/-- The four lowest bytes of a 64-bit count. -/
def lowWord (count : ℕ) : ℕ := count % (u32Max + 1)

/-- The number of parts of an upload. -/
def totalParts (size partSize : ℕ) : Except BlobyardError ℕ :=
  if partSize < minPartSize then .error contractError
  else
    let count := divCeil size partSize
    if count = 0 ∨ maxParts < count then .error contractError else .ok (lowWord count)

/-- The offset and the length of a part, or nothing where the computation overflows. -/
def partRange (partNumber partSize totalSize : ℕ) : Option (ℕ × ℕ) := do
  let index ← checkedSub partNumber 1
  let offset ← checkedMul index partSize
  let left ← checkedSub totalSize offset
  some (offset, min left partSize)

end Cli

end BlobYard
