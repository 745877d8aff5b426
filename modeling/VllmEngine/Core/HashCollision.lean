import VllmEngine.Core.HashInputs
import Mathlib.Logic.Equiv.List

namespace VllmEngine.Core.Request

open Option List Encodable

variable {H : Hashing} {blockSize : ℕ} {r r1 r2 : Request} {i : ℕ}

structure SameContent (H : Hashing) (blockSize i : ℕ) (r1 r2 : Request) : Prop where
  tokens : r1.allTokenIds.take ((i + 1) * blockSize) = r2.allTokenIds.take ((i + 1) * blockSize)
  lora : loraName r1 = loraName r2
  salt : r1.cacheSalt = r2.cacheSalt
  features : ∀ x, x ∈ featuresBefore r1 ((i + 1) * blockSize) ↔
    x ∈ featuresBefore r2 ((i + 1) * blockSize)
  embeds : ∀ j ≤ i, embedKeys H blockSize r1 j = embedKeys H blockSize r2 j

def NameAsSalt (r1 r2 : Request) : Prop :=
  ∃ name ≠ "", loraName r1 = some name ∧ (r1.cacheSalt = none ∨ r1.cacheSalt = some "") ∧
    loraName r2 = none ∧ r2.cacheSalt = some name

def EmptySalt (r1 r2 : Request) : Prop := r1.cacheSalt = none ∧ r2.cacheSalt = some ""

/-- A feature of the first request that no block records and the second request does not have. -/
def HiddenFeature (blockSize i : ℕ) (r1 r2 : Request) : Prop :=
  ∃ f ∈ r1.mmFeatures, f.start < (i + 1) * blockSize ∧ 0 < f.stop ∧
    (∀ j ≤ i, ExtraKey.mm f.identifier ((f.start : ℤ) - (j * blockSize : ℕ)) ∉
      recorded blockSize r1 j) ∧
    (f.identifier, f.start) ∉ featuresBefore r2 ((i + 1) * blockSize)

structure LookAlike (H : Hashing) (blockSize i : ℕ) (r1 r2 : Request) : Prop where
  full₁ : (i + 1) * blockSize ≤ r1.numTokens
  full₂ : (i + 1) * blockSize ≤ r2.numTokens
  tokens : r1.allTokenIds.take ((i + 1) * blockSize) = r2.allTokenIds.take ((i + 1) * blockSize)
  recorded : ∀ j ≤ i, recorded blockSize r1 j = recorded blockSize r2 j
  embeds : ∀ j ≤ i, embedKeys H blockSize r1 j = embedKeys H blockSize r2 j
  differ : (i = 0 ∧ Request.recorded blockSize r1 0 = [] ∧ (NameAsSalt r1 r2 ∨ NameAsSalt r2 r1)) ∨
    (loraName r1 = loraName r2 ∧ (EmptySalt r1 r2 ∨ EmptySalt r2 r1)) ∨
    (loraName r1 = loraName r2 ∧ r1.cacheSalt = r2.cacheSalt ∧
      (HiddenFeature blockSize i r1 r2 ∨ HiddenFeature blockSize i r2 r1))

theorem genLoraExtraHashKeys_eq (r) :
    genLoraExtraHashKeys r = (loraName r).toList.map .str := by
  unfold genLoraExtraHashKeys loraName
  cases r.loraRequest <;> rfl

theorem genLora_eq_iff :
    genLoraExtraHashKeys r1 = genLoraExtraHashKeys r2 ↔ loraName r1 = loraName r2 := by
  rw [genLoraExtraHashKeys_eq, genLoraExtraHashKeys_eq]
  cases loraName r1 <;> cases loraName r2 <;> simp

theorem cacheSaltKeys_of_pos {s} (hs : 0 < s) : cacheSaltKeys r s = [] := by
  unfold cacheSaltKeys
  split
  · rfl
  · rw [if_neg (by omega)]

def effectiveSalt (r : Request) : Option String := r.cacheSalt.filter (· ≠ "")

theorem cacheSaltKeys_zero (r) :
    cacheSaltKeys r 0 = (effectiveSalt r).toList.map .str := by
  unfold cacheSaltKeys effectiveSalt
  cases r.cacheSalt with
  | none => rfl
  | some salt => by_cases hs : salt = "" <;> simp [Option.filter, hs]

theorem effectiveSalt_eq_none :
    effectiveSalt r = none ↔ r.cacheSalt = none ∨ r.cacheSalt = some "" := by
  unfold effectiveSalt
  cases r.cacheSalt <;> simp

theorem effectiveSalt_eq_some {salt} :
    effectiveSalt r = some salt ↔ salt ≠ "" ∧ r.cacheSalt = some salt := by
  unfold effectiveSalt
  cases r.cacheSalt with
  | none => simp
  | some s =>
    simp only [filter_eq_some_iff, some.injEq, decide_eq_true_eq]
    exact and_comm

theorem effectiveSalt_eq_iff : effectiveSalt r1 = effectiveSalt r2 ↔
    r1.cacheSalt = r2.cacheSalt ∨ EmptySalt r1 r2 ∨ EmptySalt r2 r1 := by
  unfold EmptySalt
  constructor
  · intro h
    cases h2 : effectiveSalt r2 with
    | none =>
      rw [h2, effectiveSalt_eq_none] at h
      rw [effectiveSalt_eq_none] at h2
      rcases h with h | h <;> rcases h2 with h2 | h2 <;> simp [h, h2]
    | some salt =>
      rw [h2, effectiveSalt_eq_some] at h
      rw [effectiveSalt_eq_some] at h2
      exact .inl (h.2.trans h2.2.symm)
  · rintro (h | h | h)
    · rw [effectiveSalt, h]
      rfl
    · rw [effectiveSalt_eq_none.mpr (.inl h.1), effectiveSalt_eq_none.mpr (.inr h.2)]
    · rw [effectiveSalt_eq_none.mpr (.inl h.1), effectiveSalt_eq_none.mpr (.inr h.2)]

theorem nameAsSalt_iff : NameAsSalt r1 r2 ↔ ∃ name, loraName r1 = some name ∧
    effectiveSalt r1 = none ∧ loraName r2 = none ∧ effectiveSalt r2 = some name := by
  simp only [NameAsSalt, effectiveSalt_eq_none, effectiveSalt_eq_some]
  grind

theorem strings_eq_iff :
    genLoraExtraHashKeys r1 ++ cacheSaltKeys r1 0 = genLoraExtraHashKeys r2 ++ cacheSaltKeys r2 0 ↔
      (loraName r1 = loraName r2 ∧ effectiveSalt r1 = effectiveSalt r2) ∨
        NameAsSalt r1 r2 ∨ NameAsSalt r2 r1 := by
  simp only [genLoraExtraHashKeys_eq, cacheSaltKeys_zero, nameAsSalt_iff]
  cases loraName r1 <;> cases loraName r2 <;> cases effectiveSalt r1 <;>
    cases effectiveSalt r2 <;> simp
  exact eq_comm

theorem keyLists_eq_iff (hbs : 0 < blockSize) :
    (∀ j ≤ i, keyList H blockSize r1 j = keyList H blockSize r2 j) ↔
      (∀ j ≤ i, recorded blockSize r1 j = recorded blockSize r2 j) ∧
      (∀ j ≤ i, embedKeys H blockSize r1 j = embedKeys H blockSize r2 j) ∧
      ((loraName r1 = loraName r2 ∧ effectiveSalt r1 = effectiveSalt r2) ∨
        (i = 0 ∧ recorded blockSize r1 0 = [] ∧ (NameAsSalt r1 r2 ∨ NameAsSalt r2 r1))) := by
  constructor
  · intro h
    have hparts := fun j hj ↦ (keyList_parts H blockSize r1 j).inj (keyList_parts H blockSize r2 j)
      (h j hj)
    refine ⟨fun j hj ↦ (hparts j hj).1, fun j hj ↦ (hparts j hj).2.1, ?_⟩
    obtain ⟨-, -, hstr, hlora⟩ := hparts 0 (Nat.zero_le _)
    rw [zero_mul, strings_eq_iff] at hstr
    rcases hstr with hsame | hname
    · exact .inl hsame
    -- the strings of a second block, or a feature among those of the first, settle it
    have hdiff : loraName r1 ≠ loraName r2 := by
      rcases hname with h | h <;> obtain ⟨name, h1, -, h2, -⟩ := nameAsSalt_iff.mp h <;>
        simp [h1, h2]
    refine .inr ⟨?_, ?_, hname⟩
    · by_contra hi
      obtain ⟨-, -, hstr, -⟩ := hparts 1 (by omega)
      rw [one_mul, cacheSaltKeys_of_pos hbs, cacheSaltKeys_of_pos hbs, append_nil,
        append_nil] at hstr
      exact hdiff (genLora_eq_iff.mp hstr)
    · by_contra hne
      exact hdiff (genLora_eq_iff.mp (hlora hne))
  · rintro ⟨hrec, hemb, hcase⟩ j hj
    unfold keyList
    rcases hcase with ⟨hlora, hsalt⟩ | ⟨rfl, hnone, hname⟩
    · have hsalt' : cacheSaltKeys r1 (j * blockSize) = cacheSaltKeys r2 (j * blockSize) := by
        rcases eq_zero_or_pos j with rfl | hpos
        · rw [zero_mul, cacheSaltKeys_zero, cacheSaltKeys_zero, hsalt]
        · rw [cacheSaltKeys_of_pos (mul_pos hpos hbs), cacheSaltKeys_of_pos (mul_pos hpos hbs)]
      rw [genLora_eq_iff.mpr hlora, hrec j hj, hsalt', hemb j hj]
    · obtain rfl : j = 0 := by omega
      have hstr := strings_eq_iff.mpr (.inr hname)
      rw [← hrec 0 le_rfl, hnone, hemb 0 le_rfl, zero_mul, append_nil, append_nil, hstr]

theorem featuresBefore_eq_or_hidden
    (hrec : ∀ j ≤ i, recorded blockSize r1 j = recorded blockSize r2 j) :
    (∀ x ∈ featuresBefore r1 ((i + 1) * blockSize), x ∈ featuresBefore r2 ((i + 1) * blockSize)) ∨
      HiddenFeature blockSize i r1 r2 := by
  by_contra hnot
  obtain ⟨hleft, hhidden⟩ := not_or.mp hnot
  push Not at hleft
  obtain ⟨x, hx, hx2⟩ := hleft
  obtain ⟨f, hf, hstart, hstop, rfl⟩ := mem_featuresBefore.mp hx
  refine hhidden ⟨f, hf, hstart, hstop, fun j hj hmem ↦ hx2 ?_, hx2⟩
  rw [hrec j hj] at hmem
  obtain ⟨f', hf', hkey, hstart', hstop'⟩ := mem_recorded hmem
  obtain ⟨hid, hoff⟩ : f.identifier = f'.identifier ∧ f.start = f'.start := by
    simp only [ExtraKey.mm.injEq] at hkey
    exact ⟨hkey.1, by omega⟩
  have hle : j * blockSize + blockSize ≤ (i + 1) * blockSize := by
    rw [← Nat.succ_mul]
    exact Nat.mul_le_mul_right _ (by omega)
  exact mem_featuresBefore.mpr ⟨f', hf', by omega, by omega, by rw [hid, hoff]⟩

/-- For a hash function without collisions, equal hashes of block `i` mean equal content exactly
when the requests do not look alike: by a LoRA name for a salt, by an empty salt, or by a feature
that another one hides. -/
theorem hash_determines_content_iff (hH : H.CollisionFree) (hbs : 0 < blockSize) :
    (∀ h, (scratchHashes H blockSize r1)[i]? = some h → (scratchHashes H blockSize r2)[i]? = some h →
        SameContent H blockSize i r1 r2) ↔
      ¬ LookAlike H blockSize i r1 r2 := by
  constructor
  · intro h hlook
    have hkeys := (keyLists_eq_iff hbs).mpr ⟨hlook.recorded, hlook.embeds, by
      rcases hlook.differ with hname | ⟨hlora, hsalt⟩ | ⟨hlora, hsalt, -⟩
      · exact .inr hname
      · exact .inl ⟨hlora, effectiveSalt_eq_iff.mpr (.inr hsalt)⟩
      · exact .inl ⟨hlora, effectiveSalt_eq_iff.mpr (.inl hsalt)⟩⟩
    have hblocks := (blocks_eq_iff_take_eq (i + 1)).mpr hlook.tokens
    have heq := (scratchHashes_eq_iff hH hbs hlook.full₁ hlook.full₂).mpr fun j hj ↦
      (blockInput_eq_iff j).mpr ⟨hblocks j (by omega), hkeys j hj⟩
    obtain ⟨b, hb⟩ := isSome_iff_exists.mp ((scratchHashes_isSome hbs).mpr hlook.full₁)
    have hsame := h b hb (heq ▸ hb)
    rcases hlook.differ with ⟨-, -, hname⟩ | ⟨-, hsalt⟩ | ⟨-, -, hhidden⟩
    · rcases hname with ⟨name, -, h1, -, h2, -⟩ | ⟨name, -, h1, -, h2, -⟩
      · simp [← hsame.lora, h1] at h2
      · simp [hsame.lora, h1] at h2
    · rcases hsalt with ⟨h1, h2⟩ | ⟨h1, h2⟩
      · simp [← hsame.salt, h1] at h2
      · simp [hsame.salt, h1] at h2
    · rcases hhidden with ⟨f, hf, hstart, hstop, -, hnot⟩ | ⟨f, hf, hstart, hstop, -, hnot⟩
      · exact hnot ((hsame.features _).mp (mem_featuresBefore.mpr ⟨f, hf, hstart, hstop, rfl⟩))
      · exact hnot ((hsame.features _).mpr (mem_featuresBefore.mpr ⟨f, hf, hstart, hstop, rfl⟩))
  · intro hnot b hb1 hb2
    have hfull1 := (scratchHashes_isSome hbs).mp (isSome_of_eq_some hb1)
    have hfull2 := (scratchHashes_isSome hbs).mp (isSome_of_eq_some hb2)
    have hinput := (scratchHashes_eq_iff hH hbs hfull1 hfull2).mp (hb1.trans hb2.symm)
    have htokens := (blocks_eq_iff_take_eq (i + 1)).mp fun j hj ↦
      ((blockInput_eq_iff j).mp (hinput j (by omega))).1
    obtain ⟨hrec, hemb, hcase⟩ := (keyLists_eq_iff hbs).mp fun j hj ↦
      ((blockInput_eq_iff j).mp (hinput j hj)).2
    have hdiffer : ∀ h, False := fun h ↦ hnot ⟨hfull1, hfull2, htokens, hrec, hemb, h⟩
    rcases hcase with ⟨hlora, hsalt⟩ | hname
    · rcases effectiveSalt_eq_iff.mp hsalt with hsalt | hempty
      · rcases featuresBefore_eq_or_hidden hrec with hsub1 | hhidden
        · rcases featuresBefore_eq_or_hidden (fun j hj ↦ (hrec j hj).symm) with hsub2 | hhidden
          · exact ⟨htokens, hlora, hsalt, fun x ↦ ⟨hsub1 x, hsub2 x⟩, hemb⟩
          · exact (hdiffer (.inr (.inr ⟨hlora, hsalt, .inr hhidden⟩))).elim
        · exact (hdiffer (.inr (.inr ⟨hlora, hsalt, .inl hhidden⟩))).elim
      · exact (hdiffer (.inr (.inl ⟨hlora, hempty⟩))).elim
    · exact (hdiffer (.inl hname)).elim

/-- Numbers for the entries of argument tuples, so that a hash function can spell them out. -/
instance : Encodable UInt8 := .ofLeftInjection UInt8.toNat (fun n ↦ some (UInt8.ofNat n)) (by simp)

instance : Encodable Char := .ofLeftInjection Char.toNat (fun n ↦ some (Char.ofNat n)) (by simp)

instance : Encodable String :=
  .ofLeftInjection String.toList (fun l ↦ some (String.ofList l)) (by simp)

instance : Encodable ExtraKey :=
  .ofLeftInjection (fun
      | .str s => (.inl s : String ⊕ (String × ℤ) ⊕ Bytes)
      | .mm identifier offset => .inr (.inl (identifier, offset))
      | .digest bytes => .inr (.inr bytes))
    (fun
      | .inl s => some (.str s)
      | .inr (.inl x) => some (.mm x.1 x.2)
      | .inr (.inr bytes) => some (.digest bytes))
    (by rintro (_ | _ | _) <;> rfl)

def unaryHashing : Hashing where
  hashFunction x := replicate (encode x) 0
  sha256 bytes := bytes
  noneHash := [1]

theorem unaryHashing_collisionFree : unaryHashing.CollisionFree where
  injective x y h := encode_injective (by simpa [unaryHashing] using h)
  ne_noneHash x h := by
    have h : replicate (encode x) (0 : UInt8) = [1] := h
    have hmem : (1 : UInt8) ∈ replicate (encode x) 0 := by simp [h]
    exact absurd (eq_of_mem_replicate hmem) (by decide)

def plainRequest : Request := { requestId := "a", allTokenIds := [5, 6] }

def adapterRequest : Request :=
  { requestId := "b", allTokenIds := [5, 6], loraRequest := some ⟨"x", 1⟩ }

def saltedRequest : Request := { requestId := "c", allTokenIds := [5, 6], cacheSalt := some "x" }

def longerRequest : Request := { plainRequest with allTokenIds := [5, 6, 7] }

theorem hash_found_of_shared_block : ∃ h,
    (scratchHashes unaryHashing 2 plainRequest)[0]? = some h ∧
      (scratchHashes unaryHashing 2 longerRequest)[0]? = some h ∧
      SameContent unaryHashing 2 0 plainRequest longerRequest := by
  refine ⟨_, rfl, rfl, (hash_determines_content_iff unaryHashing_collisionFree (by decide)).mpr
    (fun h ↦ ?_) _ rfl rfl⟩
  rcases h.differ with ⟨-, -, ⟨_, -, h, -⟩ | ⟨_, -, h, -⟩⟩ | ⟨-, ⟨-, h⟩ | ⟨-, h⟩⟩ |
    ⟨-, -, ⟨_, h, -⟩ | ⟨_, h, -⟩⟩ <;> cases h

/-- The adapter name of one request and the salt of the other give the same extra keys. -/
theorem adapter_hash_eq_salt_hash : unaryHashing.CollisionFree ∧ ∃ h,
    (scratchHashes unaryHashing 2 adapterRequest)[0]? = some h ∧
      (scratchHashes unaryHashing 2 saltedRequest)[0]? = some h ∧
      ¬ SameContent unaryHashing 2 0 adapterRequest saltedRequest :=
  ⟨unaryHashing_collisionFree, _, rfl, rfl, fun h ↦ by cases h.lora⟩

end VllmEngine.Core.Request
