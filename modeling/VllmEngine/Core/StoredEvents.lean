import VllmEngine.Core.KVCacheCounts

namespace VllmEngine.Core

open Lib BlockHash BlockPool List

namespace BlockPool

variable {p : BlockPool} {hs : List BlockHash}

/-- The hash, as events show it, of the prefix that ends with block `n` of the request. -/
def externalHashAt (p : BlockPool) (request : Request) (blockSize n : ℕ) : Option ExternalBlockHash :=
  (hashAt request.blockHashes p.hashBlockSize blockSize n).map
    (maybeConvertBlockHash p.useIntBlockHashes)

/-- The lists of an event whose tokens start with block `first`: slice `i` of the tokens ends the
prefix of hash `i`. -/
structure StoredInOrder (p : BlockPool) (request : Request) (blockSize first : ℕ)
    (blockHashes : List ExternalBlockHash) (parentBlockHash : Option ExternalBlockHash)
    (tokenIds : List ℕ) : Prop where
  tokens : tokenIds = (request.allTokenIds.drop (first * blockSize)).take tokenIds.length
  length : tokenIds.length = blockSize * blockHashes.length
  hashes : ∀ i < blockHashes.length,
    blockHashes[i]? = p.externalHashAt request blockSize (first + i)
  parent : parentBlockHash = if first = 0 then none else p.externalHashAt request blockSize (first - 1)

/-- The state and the hashes after the first loop over `bs`. -/
structure Listed (p : BlockPool) (new : List BlockHash) (bs : List Ref) (hs : List BlockHash)
    (t : BlockPool) : Prop where
  isNull : t.isNull = p.isNull
  enabled : t.enableKvCacheEvents = p.enableKvCacheEvents
  events : t.kvEventQueue = p.kvEventQueue
  length : hs.length = bs.countP (!p.isNull ·)
  hashes : (∀ b ∈ bs, p.isNull b = false) → hs = new.take bs.length

theorem cacheBlock_listed (new) (g i) (b) (p) :
    Ensures (cacheBlock new g i b) p (fun hash t ↦ Listed p (new.drop i) [b] hash.toList t)
      fun _ _ ↦ True := by
  refine .get_bind (.ite (fun hnull ↦ .pure ?_) fun hnull ↦ ?_)
  · exact ⟨rfl, rfl, rfl, by simp [hnull], fun h ↦ by simp [hnull] at h⟩
  refine .ite (fun _ ↦ .throw trivial) fun _ ↦ ?_
  split
  · exact .throw trivial
  next hash hi =>
    refine .modify_bind (.modify_bind (.pure ⟨rfl, rfl, rfl, ?_, fun _ ↦ ?_⟩))
    · simp [hnull]
    · rw [List.drop_eq_getElem_cons (List.getElem?_eq_some_iff.mp hi).1]
      simp [(List.getElem?_eq_some_iff.mp hi).2]

theorem cacheLoop_listed (new) (g i) (bs) (p) :
    Ensures (cacheLoop new g i bs) p (Listed p (new.drop i) bs) fun _ _ ↦ True := by
  induction bs generalizing i p with
  | nil => exact .pure ⟨rfl, rfl, rfl, rfl, fun _ ↦ by simp⟩
  | cons b bs ih =>
    refine .andThen (cacheBlock_listed new g i b p) fun hash t ht ↦ ?_
    refine .andThen (ih (i + 1) t) fun hs u hu ↦ .pure ?_
    refine ⟨hu.isNull.trans ht.isNull, hu.enabled.trans ht.enabled, hu.events.trans ht.events, ?_, ?_⟩
    · rw [length_append, hu.length, ht.isNull, ht.length]
      simp [countP_cons, Nat.add_comm]
    intro hnone
    have hb := ht.hashes fun c hc ↦ hnone c (mem_cons.mpr (.inl (mem_singleton.mp hc)))
    have hbs := hu.hashes fun c hc ↦ ht.isNull ▸ hnone c (mem_cons_of_mem b hc)
    have hcons : (b :: bs).length = [b].length + bs.length := Nat.add_comm _ _
    rw [hb, hbs, hcons, take_add, drop_drop]
    rfl

theorem extraKeysLoop_indices (H) (r) (bs) (size) (idxs) (c) (p) :
    Ensures (extraKeysLoop H r bs size idxs c) p (fun _ t ↦ t = p ∧ ∀ i ∈ idxs, i < bs.length)
      fun _ _ ↦ True := by
  induction idxs generalizing c with
  | nil => exact .pure ⟨rfl, fun _ h ↦ by cases h⟩
  | cons i idxs ih =>
    unfold extraKeysLoop
    split
    · exact .throw trivial
    next b hb =>
      have hi := (List.getElem?_eq_some_iff.mp hb).1
      have hcons {t : BlockPool} (h : t = p ∧ ∀ i ∈ idxs, i < bs.length) :
          t = p ∧ ∀ j ∈ i :: idxs, j < bs.length :=
        ⟨h.1, forall_mem_cons.mpr ⟨hi, h.2⟩⟩
      refine .get_bind (.ite (fun _ ↦ (ih c).imp fun _ _ h ↦ hcons h) fun _ ↦ ?_)
      exact .andThen (ih _) fun _ _ h ↦ .pure (hcons h)

theorem parent_of_parentBlockHash {r c size parent} (h : p.parentBlockHash r c size = .ok parent) :
    parent = if c = 0 then none else p.externalHashAt r size (c - 1) := by
  unfold parentBlockHash at h
  unfold externalHashAt
  split at h
  next hc => rw [if_pos hc, Except.ok.inj h]
  next hc =>
    rw [if_neg hc]
    split at h
    · cases h
    next hash heq => rw [heq, ← Except.ok.inj h, Option.map_some]

/-- The event of a call that returns is in order exactly if the call meets no null block. -/
theorem stored_in_order_iff {r : Request} {c f size : ℕ} (henabled : p.enableKvCacheEvents = true)
    (hcf : c < f) (hsize : 0 < size) (hfull : f * size ≤ r.allTokenIds.length) (H : Hashing)
    (bs : List Ref) (g : ℕ) :
    Ensures (cacheFullBlocks H r bs c f size g) p (fun _ p' ↦
      ∃ hashes parent ids lora name keys,
        p'.kvEventQueue = p.kvEventQueue ++ [.blockStored hashes parent ids size lora name keys g] ∧
          (StoredInOrder p r size c hashes parent ids ↔
            ∀ b ∈ (bs.take f).drop c, p.isNull b = false)) fun _ _ ↦ True := by
  unfold cacheFullBlocks
  rw [if_neg (by omega)]
  refine .get_bind (.ite (fun _ ↦ .throw trivial) fun _ ↦ ?_)
  refine .ite (fun _ ↦ .throw trivial) fun _ ↦ ?_
  refine .andThen (cacheLoop_listed _ g 0 _ p) fun hs t ht ↦ ?_
  rw [if_pos henabled]
  split
  · exact .throw trivial
  next parent hparent =>
    refine .andThen (extraKeysLoop_indices H r bs size _ _ t) fun keys u hu ↦ ?_
    obtain ⟨rfl, hidx⟩ := hu
    have hlen := hidx (f - 1) (mem_range'_1.mpr (by omega))
    have hblks : ((bs.take f).drop c).length = f - c := by
      rw [length_drop, length_take]
      omega
    generalize (bs.take f).drop c = blks at ht hblks ⊢
    have hids : ((r.allTokenIds.take (f * size)).drop (c * size)).length = size * (f - c) := by
      rw [length_drop, length_take, min_eq_left hfull, ← Nat.sub_mul, Nat.mul_comm]
    have hpush (e : KVCacheEvent) : (pushEvent e u).kvEventQueue = p.kvEventQueue ++ [e] := by
      rw [pushEvent, if_pos (ht.enabled.trans henabled), ← ht.events]
    refine .modify ⟨_, _, _, _, _, _, hpush _, ?_, ?_⟩
    · intro h b hb
      have hcount := h.length
      rw [hids, length_map, ht.length, ← hblks] at hcount
      have hall := countP_eq_length.mp (Nat.eq_of_mul_eq_mul_left hsize hcount).symm b hb
      simpa using hall
    · intro hnone
      have hhs := ht.hashes hnone
      have hcount : hs.length = f - c := by
        rw [ht.length, ← hblks]
        exact countP_eq_length.mpr fun b hb ↦ by simp [hnone b hb]
      refine ⟨?_, ?_, fun i hi ↦ ?_, parent_of_parentBlockHash hparent⟩
      · rw [hids, drop_take, ← Nat.sub_mul, Nat.mul_comm size]
      · rw [hids, length_map, hcount]
      rw [length_map] at hi
      obtain ⟨hash, hget⟩ : ∃ hash, hs[i]? = some hash := ⟨_, getElem?_eq_getElem hi⟩
      rw [getElem?_map, hget, externalHashAt]
      rw [hhs, drop_zero, getElem?_take_of_lt (by omega), getElem?_drop] at hget
      rw [hashAt_of_hashList hget]

end BlockPool

namespace KVCacheManager

def alignEvents : KVCacheManagerConfig where
  kvCacheConfig := ⟨4, [⟨⟨.mamba .align 0, 2, 0⟩, false⟩]⟩
  maxModelLen := 16
  hashBlockSize := 2
  enableKvCacheEvents := true

def fourTokens : Request :=
  { requestId := "a", allTokenIds := [5, 6, 7, 8], blockHashes := [[4], [5]] }

/-- Two blocks of tokens come with the hash of the second: the first is a null block. -/
theorem skipped_block_stored : ∃ out ∈ runFrom byteHashing alignEvents
    [.newRequest fourTokens ⟨4, 0, 0, false⟩], ∃ hashes parent ids lora name keys,
      out.2.kvEventQueue = [.blockStored hashes parent ids 2 lora name keys 0] ∧
        ¬ StoredInOrder out.2 fourTokens 2 0 hashes parent ids := by
  have hrun : ∃ out ∈ runFrom byteHashing alignEvents [.newRequest fourTokens ⟨4, 0, 0, false⟩],
      out.2.kvEventQueue = [.blockStored [.bytes [5]] none [5, 6, 7, 8] 2 none none (some [none]) 0] := by
    decide +kernel
  obtain ⟨out, hout, hevents⟩ := hrun
  exact ⟨out, hout, _, _, _, _, _, _, hevents, fun h ↦ absurd h.length (by decide)⟩

theorem stored_in_order_of_full_table : ∃ p0 p, BlockPool.init 4 true 2 true false = .ok p0 ∧
    cacheFullBlocks byteHashing fourTokens [.blk 1, .blk 2] 0 2 2 0 p0 = .ok () p ∧
      ∃ hashes parent ids lora name keys,
        p.kvEventQueue = [.blockStored hashes parent ids 2 lora name keys 0] ∧
          StoredInOrder p0 fourTokens 2 0 hashes parent ids := by
  obtain ⟨p0, hinit, henabled, hempty, hnull, p, hrun⟩ : ∃ p0, BlockPool.init 4 true 2 true false =
      .ok p0 ∧ p0.enableKvCacheEvents = true ∧ p0.kvEventQueue = [] ∧
        (∀ b ∈ [Ref.blk 1, .blk 2], p0.isNull b = false) ∧
          ∃ p, cacheFullBlocks byteHashing fourTokens [.blk 1, .blk 2] 0 2 2 0 p0 = .ok () p :=
    ⟨_, rfl, rfl, rfl, by decide, _, rfl⟩
  obtain ⟨hashes, parent, ids, lora, name, keys, hevents, hiff⟩ :=
    (stored_in_order_iff henabled two_pos two_pos (by decide) byteHashing _ 0).ok hrun
  rw [hempty] at hevents
  exact ⟨p0, p, hinit, hrun, hashes, parent, ids, lora, name, keys, hevents, hiff.mpr hnull⟩

end KVCacheManager

end VllmEngine.Core
