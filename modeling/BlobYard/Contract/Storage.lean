/-
The storage contract.

Storage keeps whole objects under `StorageKey`s with the size and checksum computed
while they were written, and stages multipart uploads part by part.  A provider
answers the commands of `StorageCommand`; handlers issue them and never see which
provider serves them.

* `Digest` — SHA-256, the one function the contract takes from outside;
* `hashed` — `copy_hashed`: the metadata of a byte stream;
* `StorageCommand`, `StorageCommand.Value` — the operations and their answers.
-/
import BlobYard.Contract.Records

namespace BlobYard

open Outcome

/-- Contents of an object. -/
abbrev Bytes := List UInt8

/-- The SHA-256 function. -/
class Digest where
  sha256 : Bytes → ObjectChecksum

export Digest (sha256)

/-- The text `abc`. -/
def abc : Bytes := [97, 98, 99]

/-- The digests of `abc` and of no bytes. -/
@[reducible] def abcDigest : Digest where
  sha256 content :=
    if content = abc then
      ⟨"ba7816bf8f01cfea414140de5dae2223b00361a396177a9cb410ff61f20015ad", by decide⟩
    else ⟨"e3b0c44298fc1c149afbf4c8996fb92427ae41e4649b934ca495991b7852b855", by decide⟩

/-- A half-open byte range, `start..stop`. -/
structure ByteRange where
  start : ℕ
  stop : ℕ
  deriving DecidableEq

/-- `ByteRange::new`: the end may not lie before the start. -/
def ByteRange.new (start stop : ℕ) : Except StorageError ByteRange :=
  if start ≤ stop then .ok ⟨start, stop⟩ else .error .invalidInput

/-- The bytes of an object that are in the range. -/
def ByteRange.slice (range : ByteRange) (content : Bytes) : Bytes :=
  (content.drop range.start).take (range.stop - range.start)

/-- Integrity metadata for one committed object. -/
structure StorageMetadata where
  size : ℕ
  checksum : ObjectChecksum
  deriving DecidableEq

/-- Integrity metadata for one staged multipart part. -/
structure MultipartPart where
  number : ℕ
  size : ℕ
  checksum : ObjectChecksum
  providerTag : Option String
  deriving DecidableEq

/-- The metadata of a byte stream; its size is counted in 64 bits. -/
def hashed [Digest] (source : Bytes) : Except StorageError StorageMetadata := do
  ensure (source.length ≤ u64Max) .invalidInput
  pure ⟨source.length, sha256 source⟩

theorem hashed_eq_ok [Digest] {source : Bytes} {metadata : StorageMetadata} :
    hashed source = .ok metadata ↔
      source.length ≤ u64Max ∧ metadata = ⟨source.length, sha256 source⟩ := by
  simp only [hashed, bind_eq_ok, ensure_eq_ok, pure_eq_ok, exists_and_left, exists_const]
  exact and_congr_right fun _ => eq_comm

/-- The operations of `ObjectStorage`. -/
inductive StorageCommand where
  | put (key : StorageKey) (source : Bytes) (expected : Option ObjectChecksum)
  | get (key : StorageKey)
  | head (key : StorageKey)
  | delete (key : StorageKey)
  | beginMultipart (id : String) (key : StorageKey)
  | putPart (upload : String) (number : ℕ) (source : Bytes)
  | completeMultipart (upload : String) (parts : List MultipartPart)
  | abortMultipart (upload : String)
  deriving DecidableEq

/-- What each operation answers when it succeeds. -/
@[reducible] def StorageCommand.Value : StorageCommand → Type
  | put _ _ _ => StorageMetadata
  | get _ => StorageMetadata × Bytes
  | head _ => StorageMetadata
  | delete _ => Unit
  | beginMultipart _ _ => String
  | putPart _ _ _ => MultipartPart
  | completeMultipart _ _ => StorageMetadata
  | abortMultipart _ => Unit

/-- The answer of an operation. -/
@[reducible] def StorageCommand.Response (c : StorageCommand) : Type := Except StorageError c.Value

end BlobYard
