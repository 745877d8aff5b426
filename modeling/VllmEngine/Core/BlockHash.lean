import Mathlib.Tactic.Ring

namespace VllmEngine.Core

abbrev Bytes := List UInt8

abbrev BlockHash := Bytes

/-- A block hash followed by the four big-endian bytes of a KV cache group id. -/
abbrev BlockHashWithGroupId := Bytes

abbrev ReqId := String

/-- `-(a // -b)`, the rounded-up quotient, for the non-negative arguments of the callers. -/
def cdiv (a b : ℕ) : ℕ := (a + b - 1) / b

namespace BlockHash

def groupIdBytes (groupId : ℕ) : Bytes :=
  [UInt8.ofNat (groupId / 2 ^ 24), UInt8.ofNat (groupId / 2 ^ 16),
    UInt8.ofNat (groupId / 2 ^ 8), UInt8.ofNat groupId]

section

variable (blockHash : BlockHash)

def makeBlockHashWithGroupId (groupId : ℕ) : BlockHashWithGroupId :=
  blockHash ++ groupIdBytes groupId

def fromBytes (bytes : Bytes) : ℕ := bytes.foldl (fun n b ↦ n * 256 + b.toNat) 0

def getBlockHash (key : BlockHashWithGroupId) : BlockHash := key.take (key.length - 4)

def getGroupId (key : BlockHashWithGroupId) : ℕ := fromBytes (key.drop (key.length - 4))

theorem getBlockHash_make (groupId) :
    getBlockHash (makeBlockHashWithGroupId blockHash groupId) = blockHash := by
  simp [getBlockHash, makeBlockHashWithGroupId, groupIdBytes]

/-- Four bytes hold every group id for which `to_bytes(4)` does not overflow. -/
theorem getGroupId_make {groupId} (h : groupId < 2 ^ 32) :
    getGroupId (makeBlockHashWithGroupId blockHash groupId) = groupId := by
  simp [getGroupId, makeBlockHashWithGroupId, groupIdBytes, fromBytes]
  omega

end

theorem make_inj {b b' g g'} (hg : g < 2 ^ 32) (hg' : g' < 2 ^ 32)
    (h : makeBlockHashWithGroupId b g = makeBlockHashWithGroupId b' g') : b = b' ∧ g = g' := by
  constructor
  · rw [← getBlockHash_make b g, h, getBlockHash_make]
  · rw [← getGroupId_make b hg, h, getGroupId_make b' hg']

/-- `ExternalBlockHash`: raw bytes, or their low 64 bits as an integer. -/
inductive ExternalBlockHash
  | bytes (b : Bytes)
  | int (n : ℕ)
  deriving DecidableEq

def maybeConvertBlockHash (useIntBlockHashes : Bool) (hash : BlockHash) : ExternalBlockHash :=
  if useIntBlockHashes then .int (fromBytes hash % 2 ^ 64) else .bytes hash

section

variable (blockHashes : List BlockHash)

/-- `BlockHashListWithBlockSize`, read out: hashes are joined in runs of `targetBlockSize //
hashBlockSize`, the last of which may be shorter. -/
def getValueAt (scaleFactor idx : ℕ) : BlockHash :=
  ((blockHashes.drop (idx * scaleFactor)).take scaleFactor).flatten

def withBlockSize (scaleFactor : ℕ) : List BlockHash :=
  (List.range (blockHashes.length / scaleFactor)).map (getValueAt blockHashes scaleFactor)

/-- The hash of block `idx` of length `blockSize`: a plain list raises `IndexError` past its end,
the joined view does not. -/
def hashAt (hashBlockSize blockSize idx : ℕ) : Option BlockHash :=
  if blockSize = hashBlockSize then blockHashes[idx]?
  else some (getValueAt blockHashes (blockSize / hashBlockSize) idx)

/-- The same hashes as an iterable, which ends with the last complete run. -/
def hashList (hashBlockSize blockSize : ℕ) : List BlockHash :=
  if blockSize = hashBlockSize then blockHashes
  else withBlockSize blockHashes (blockSize / hashBlockSize)

end

end BlockHash

end VllmEngine.Core
