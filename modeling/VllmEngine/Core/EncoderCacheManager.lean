import VllmEngine.Core.Request
import VllmEngine.Lib.Dict
import VllmEngine.Lib.Triple
import Mathlib.Data.Finset.Basic

namespace VllmEngine.Core

open Lib

namespace PlaceholderRange

variable (pos : PlaceholderRange)

def embedsBefore (n : ℕ) : ℕ :=
  match pos.isEmbed with
  | none => n
  | some mask => (mask.take n).count true

def getNumEmbeds : ℕ := pos.embedsBefore pos.length

def getEmbedsIndicesInRange (startIdx endIdx : ℕ) : ℕ × ℕ :=
  (pos.embedsBefore startIdx, pos.embedsBefore endIdx)

end PlaceholderRange

/-- `EncoderCacheManager`. An entry of `cached` is the set of its users; entries without a user are
also in `freeable`, the oldest first. -/
structure EncoderCacheManager where
  cacheSize : ℕ
  numFreeSlots : ℤ
  numFreeableSlots : ℤ
  cached : Dict String (Finset ReqId)
  freeable : Dict String ℕ
  freed : List String

inductive EncoderError
  | noSuchInput
  | keyError
  | popFromEmpty
  | notEnoughFreeSlots
  | notEnoughFreeableSlots
  | encoderInputNotAtStart
  deriving DecidableEq

def Request.mmFeature (request : Request) (inputId : ℕ) : Except EncoderError MultiModalFeatureSpec :=
  match request.mmFeatures[inputId]? with
  | none => .error .noSuchInput
  | some f => .ok f

def MultiModalFeatureSpec.numEmbeds (f : MultiModalFeatureSpec) : ℕ := f.mmPosition.getNumEmbeds

namespace EncoderCacheManager

def init (cacheSize : ℕ) : EncoderCacheManager where
  cacheSize
  numFreeSlots := cacheSize
  numFreeableSlots := cacheSize
  cached := .empty
  freeable := .empty
  freed := []

variable (m : EncoderCacheManager) (request : Request) (inputId : ℕ)

def reset : EncoderCacheManager := init m.cacheSize

def addReference (mmHash : String) (refs : Finset ReqId) (id : ReqId) : EncoderCacheManager :=
  { m with cached := m.cached.set mmHash (insert id refs) }

/-- `check_and_update_cache`, for the input of the request `id`. -/
def useCached (id : ReqId) (f : MultiModalFeatureSpec) :
    Except EncoderError (EncoderCacheManager × Bool) :=
  match m.cached.get? f.identifier with
  | none => .ok (m, false)
  | some refs =>
    if refs = ∅ then
      -- cached, but not used by any request until now
      match m.freeable.get? f.identifier with
      | none => .error .keyError
      | some numEncoderEmbeds =>
        let m := { m with
          freeable := m.freeable.erase f.identifier
          numFreeableSlots := m.numFreeableSlots - numEncoderEmbeds }
        .ok (m.addReference f.identifier refs id, true)
    else .ok (m.addReference f.identifier refs id, true)

def checkAndUpdateCache : Except EncoderError (EncoderCacheManager × Bool) := do
  m.useCached request.requestId (← request.mmFeature inputId)

def evict (mmHash : String) (numFreeEmbeds : ℕ) : EncoderCacheManager :=
  { m with
    freeable := m.freeable.erase mmHash
    cached := m.cached.erase mmHash
    freed := m.freed ++ [mmHash]
    numFreeSlots := m.numFreeSlots + numFreeEmbeds }

def evictLoop (numEmbeds : ℤ) :
    List (String × ℕ) → EncoderCacheManager → Except EncoderError EncoderCacheManager
  | [], m => if numEmbeds > m.numFreeSlots then .error .popFromEmpty else .ok m
  | (mmHash, numFreeEmbeds) :: rest, m =>
    if numEmbeds > m.numFreeSlots then
      if (m.cached.get? mmHash).isNone then .error .keyError
      else evictLoop numEmbeds rest (m.evict mmHash numFreeEmbeds)
    else .ok m

def makeRoom (f : MultiModalFeatureSpec) (encoderComputeBudget : ℤ) (numEmbedsToSchedule : ℕ) :
    Except EncoderError (EncoderCacheManager × Bool) :=
  if (f.numEmbeds : ℤ) > encoderComputeBudget then .ok (m, false)
  else
    let numEmbeds : ℤ := f.numEmbeds + numEmbedsToSchedule
    if numEmbeds ≤ m.numFreeSlots then .ok (m, true)
    else if numEmbeds > m.numFreeableSlots then .ok (m, false)
    else (evictLoop numEmbeds m.freeable.entries m).map (·, true)

def canAllocate (encoderComputeBudget : ℤ) (numEmbedsToSchedule : ℕ) :
    Except EncoderError (EncoderCacheManager × Bool) := do
  m.makeRoom (← request.mmFeature inputId) encoderComputeBudget numEmbedsToSchedule

def takeSlots (id : ReqId) (f : MultiModalFeatureSpec) : Except EncoderError EncoderCacheManager :=
  if m.numFreeSlots < f.numEmbeds then .error .notEnoughFreeSlots
  else if m.numFreeableSlots < f.numEmbeds then .error .notEnoughFreeableSlots
  else
    let m := m.addReference f.identifier ((m.cached.get? f.identifier).getD ∅) id
    .ok { m with
      numFreeSlots := m.numFreeSlots - f.numEmbeds
      numFreeableSlots := m.numFreeableSlots - f.numEmbeds }

def allocate : Except EncoderError EncoderCacheManager := do
  m.takeSlots request.requestId (← request.mmFeature inputId)

def getCachedInputIds : List ℕ :=
  (List.range request.mmFeatures.length).filter fun i ↦
    (request.mmFeatures[i]?.bind fun f ↦ m.cached.get? f.identifier).isSome

/-- `free_encoder_input`, for the input of the request `id`: without a reference left, the entry
becomes freeable. -/
def release (id : ReqId) (f : MultiModalFeatureSpec) : EncoderCacheManager :=
  match m.cached.get? f.identifier with
  | none => m
  | some refs =>
    if refs = ∅ then m
    else
      let m := { m with cached := m.cached.set f.identifier (refs.erase id) }
      if refs.erase id = ∅ then
        { m with
          freeable := m.freeable.set f.identifier f.numEmbeds
          numFreeableSlots := m.numFreeableSlots + f.numEmbeds }
      else m

def freeEncoderInput : Except EncoderError EncoderCacheManager := do
  pure (m.release request.requestId (← request.mmFeature inputId))

def freeLoop (request : Request) :
    List ℕ → EncoderCacheManager → Except EncoderError EncoderCacheManager
  | [], m => .ok m
  | i :: is, m => do
    let m ← m.freeEncoderInput request i
    freeLoop request is m

def free : Except EncoderError EncoderCacheManager :=
  freeLoop request (m.getCachedInputIds request) m

def getFreedMmHashes : EncoderCacheManager × List String := ({ m with freed := [] }, m.freed)

end EncoderCacheManager

/-- `EncoderDecoderCacheManager`: encoder outputs are not shared between requests. -/
structure EncoderDecoderCacheManager where
  numFreeSlots : ℤ

namespace EncoderDecoderCacheManager

variable (m : EncoderDecoderCacheManager)

def canAllocate (f : MultiModalFeatureSpec) (encoderComputeBudget : ℤ) (numEmbedsToSchedule : ℕ) :
    Bool :=
  ¬ (f.numEmbeds : ℤ) > encoderComputeBudget ∧
    (f.numEmbeds : ℤ) + numEmbedsToSchedule ≤ m.numFreeSlots

end EncoderDecoderCacheManager

/-- The encoder cache manager of the scheduler, by the kind of the model. -/
inductive EncoderCache
  | decoderOnly (m : EncoderCacheManager)
  | encoderDecoder (m : EncoderDecoderCacheManager)

namespace EncoderCache

def isEncoderDecoder : EncoderCache → Bool
  | .decoderOnly _ => false
  | .encoderDecoder _ => true

def checkAndUpdateCache (request : Request) (inputId : ℕ) :
    EncoderCache → Except EncoderError (EncoderCache × Bool)
  | .decoderOnly m => do
    let out ← m.checkAndUpdateCache request inputId
    pure (.decoderOnly out.1, out.2)
  | .encoderDecoder m => pure (.encoderDecoder m, false)

def canAllocate (request : Request) (inputId : ℕ) (encoderComputeBudget : ℤ)
    (numEmbedsToSchedule : ℕ) : EncoderCache → Except EncoderError (EncoderCache × Bool)
  | .decoderOnly m => do
    let out ← m.canAllocate request inputId encoderComputeBudget numEmbedsToSchedule
    pure (.decoderOnly out.1, out.2)
  | .encoderDecoder m => do
    let f ← request.mmFeature inputId
    pure (.encoderDecoder m, m.canAllocate f encoderComputeBudget numEmbedsToSchedule)

end EncoderCache

end VllmEngine.Core
