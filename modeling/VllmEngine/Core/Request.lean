import VllmEngine.Core.BlockHash

namespace VllmEngine.Core

/-- The place of a multimodal input in the prompt. The mask tells the positions that take an
embedding; without it, all do. -/
structure PlaceholderRange where
  offset : ℕ
  length : ℕ
  isEmbed : Option (List Bool) := none
  isEmbed_length : ∀ mask ∈ isEmbed, mask.length = length := by simp
  deriving DecidableEq

structure MultiModalFeatureSpec where
  identifier : String
  mmPosition : PlaceholderRange
  deriving DecidableEq

/-- The token positions `[start, stop)` that the placeholder of a feature covers. -/
def MultiModalFeatureSpec.start (f : MultiModalFeatureSpec) : ℕ := f.mmPosition.offset

def MultiModalFeatureSpec.stop (f : MultiModalFeatureSpec) : ℕ :=
  f.mmPosition.offset + f.mmPosition.length

structure LoRARequest where
  loraName : String
  loraIntId : ℕ
  deriving DecidableEq

/-- The fields of a request that block hashing and the KV cache manager read. The rows of
`promptEmbeds` are the raw bytes of the embeddings. -/
structure Request where
  requestId : ReqId
  allTokenIds : List ℕ
  mmFeatures : List MultiModalFeatureSpec := []
  loraRequest : Option LoRARequest := none
  cacheSalt : Option String := none
  promptEmbeds : Option (List Bytes) := none
  blockHashes : List BlockHash := []
  numComputedTokens : ℕ := 0
  skipReadingPrefixCache : Bool := false
  deriving DecidableEq

def Request.numTokens (r : Request) : ℕ := r.allTokenIds.length

/-- One entry of the flat tuple of extra keys, with its Python type. -/
inductive ExtraKey
  | str (s : String)
  | mm (identifier : String) (offset : ℤ)
  | digest (bytes : Bytes)
  deriving DecidableEq

abbrev ExtraKeys := Option (List ExtraKey)

/-- The hash functions the process was started with and the seed of every hash chain. -/
structure Hashing where
  hashFunction : BlockHash × List ℕ × ExtraKeys → BlockHash
  sha256 : Bytes → Bytes
  noneHash : BlockHash

/-- A hash function without collisions, none of whose values is the seed of a chain. -/
structure Hashing.CollisionFree (H : Hashing) : Prop where
  injective : Function.Injective H.hashFunction
  ne_noneHash : ∀ x, H.hashFunction x ≠ H.noneHash

namespace Request

/-- Where the scan of the multimodal features starts: the source passes an index, or `-1` for the
last feature. -/
inductive MmCursor
  | last
  | idx (i : ℕ)
  deriving DecidableEq

/-- The `while` loop of `_gen_mm_extra_hash_keys` from feature number `i` on. -/
def mmLoop (startTokenIdx endTokenIdx : ℕ) : ℕ → List MultiModalFeatureSpec → List ExtraKey × ℕ
  | i, [] => ([], i)
  | i, f :: fs =>
    if endTokenIdx > f.start then
      -- this block has passed the current input
      if startTokenIdx ≥ f.stop then mmLoop startTokenIdx endTokenIdx (i + 1) fs
      else
        let key := ExtraKey.mm f.identifier ((f.start : ℤ) - startTokenIdx)
        if endTokenIdx ≥ f.stop then
          let rest := mmLoop startTokenIdx endTokenIdx (i + 1) fs
          (key :: rest.1, rest.2)
        else ([key], i)
    else ([], i)

def genMmExtraHashKeys (r : Request) (startTokenIdx endTokenIdx : ℕ) (startMmIdx : MmCursor) :
    List ExtraKey × MmCursor :=
  match r.mmFeatures.getLast? with
  | none => ([], startMmIdx)
  | some lastFeature =>
    if lastFeature.stop ≤ startTokenIdx then ([], startMmIdx)
    else
      let i := match startMmIdx with
        | .last => r.mmFeatures.length - 1
        | .idx i => i
      let out := mmLoop startTokenIdx endTokenIdx i (r.mmFeatures.drop i)
      (out.1, .idx out.2)

def genLoraExtraHashKeys (r : Request) : List ExtraKey :=
  match r.loraRequest with
  | none => []
  | some lora => [.str lora.loraName]

/-- `[request.cache_salt] if (start_token_idx == 0 and request.cache_salt) else []`: an empty string
is no salt. -/
def cacheSaltKeys (r : Request) (startTokenIdx : ℕ) : List ExtraKey :=
  match r.cacheSalt with
  | none => []
  | some salt => if startTokenIdx = 0 ∧ salt ≠ "" then [.str salt] else []

def genPromptEmbedsExtraHashKeys (H : Hashing) (r : Request) (startTokenIdx endTokenIdx : ℕ) :
    List ExtraKey :=
  match r.promptEmbeds with
  | none => []
  | some rows =>
    [.digest (H.sha256 ((rows.drop startTokenIdx).take (endTokenIdx - startTokenIdx)).flatten)]

def generateBlockHashExtraKeys (H : Hashing) (r : Request) (startTokenIdx endTokenIdx : ℕ)
    (startMmIdx : MmCursor) : ExtraKeys × MmCursor :=
  let mm := genMmExtraHashKeys r startTokenIdx endTokenIdx startMmIdx
  let extraKeys := genLoraExtraHashKeys r ++ mm.1 ++ cacheSaltKeys r startTokenIdx
    ++ genPromptEmbedsExtraHashKeys H r startTokenIdx endTokenIdx
  (if extraKeys = [] then none else some extraKeys, mm.2)

/-- `if not parent_block_hash` also replaces an empty byte string by the seed. -/
def hashBlockTokens (H : Hashing) (parentBlockHash : Option BlockHash)
    (currBlockTokenIds : List ℕ) (extraKeys : ExtraKeys) : BlockHash :=
  let parent := match parentBlockHash with
    | none => H.noneHash
    | some h => if h = [] then H.noneHash else h
  H.hashFunction (parent, currBlockTokenIds, extraKeys)

/-- The `while True` loop of the block hasher. A turn consumes `blockSize` tokens, so that a fuel of
`numTokens` outlasts it if that is positive. -/
def hasherLoop (H : Hashing) (blockSize : ℕ) (r : Request) :
    ℕ → ℕ → MmCursor → Option BlockHash → List BlockHash
  | 0, _, _, _ => []
  | fuel + 1, startTokenIdx, currMmIdx, prevBlockHash =>
    let endTokenIdx := startTokenIdx + blockSize
    if endTokenIdx > r.numTokens then []
    else
      let keys := generateBlockHashExtraKeys H r startTokenIdx endTokenIdx currMmIdx
      let blockTokens := (r.allTokenIds.drop startTokenIdx).take blockSize
      let blockHash := hashBlockTokens H prevBlockHash blockTokens keys.1
      blockHash :: hasherLoop H blockSize r fuel endTokenIdx keys.2 (some blockHash)

def requestBlockHasher (H : Hashing) (blockSize : ℕ) (r : Request) : List BlockHash :=
  let startTokenIdx := r.blockHashes.length * blockSize
  if startTokenIdx + blockSize > r.numTokens then []
  else
    hasherLoop H blockSize r r.numTokens startTokenIdx
      (if startTokenIdx > 0 then .last else .idx 0) r.blockHashes.getLast?

def updateBlockHashes (H : Hashing) (blockSize : ℕ) (r : Request) : Request :=
  { r with blockHashes := r.blockHashes ++ requestBlockHasher H blockSize r }

def appendOutputTokenIds (H : Hashing) (blockSize : ℕ) (r : Request) (tokenIds : List ℕ) :
    Request :=
  updateBlockHashes H blockSize { r with allTokenIds := r.allTokenIds ++ tokenIds }

end Request

end VllmEngine.Core
