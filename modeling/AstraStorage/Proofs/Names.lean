import AstraStorage.Proofs.CacheKeys
import AstraStorage.Proofs.GatewayRoundTrip

/-!
# Names that clients have a part in

Cache keys and chunk IDs are put together from IDs that clients choose, with something before or
after them.
-/

namespace AstraStorage.Proofs
open Lib ReadCache List

/-! ### Cache keys -/

def otherKeys (id : String) : List String :=
  [fileMetaKey id, fileChunksKey id, downloadPlanKey id, nodeHealthKey id, healthyNodesKey,
    nullFileKey id, fileBloomKey, hotFileSetKey, hotDirectorySetKey, hotNodeSetKey]

structure KeysApart (d : InodeID) : Prop where
  page : ∀ v opts d' v' opts', pageKey d v opts = pageKey d' v' opts' →
    d = d' ∧ v = v' ∧ opts = opts'
  pageVersion : ∀ v opts d', pageKey d v opts ≠ directoryListVersionKey d'
  version : ∀ d', directoryListVersionKey d = directoryListVersionKey d' → d = d'
  other : ∀ id, ∀ key ∈ otherKeys id,
    key ≠ directoryListVersionKey d ∧ ∀ v opts, key ≠ pageKey d v opts

lemma family_otherKeys (id : String) :
    ∀ key ∈ otherKeys id, family key ≠ "astra:cache:dir:list:".toList.take 14 := by
  have hid {text : String} (h : 14 ≤ text.toList.length)
      (hne : text.toList.take 14 ≠ "astra:cache:dir:list:".toList.take 14) :
      family (text ++ id) ≠ "astra:cache:dir:list:".toList.take 14 := by
    rwa [family_append h]
  simp only [otherKeys, forall_mem_cons]
  refine ⟨hid ?_ ?_, hid ?_ ?_, hid ?_ ?_, hid ?_ ?_, ?_, hid ?_ ?_, ?_, ?_, ?_, ?_, nofun⟩
  all_goals decide +kernel

lemma LikeVersion.exists_eq (h : LikeVersion d) :
    ∃ d', pageKey d 0 {} = directoryListVersionKey d' := by
  simp only [pageKey_eq, versionKey_eq, String.append_right_inj, pageSuffix]
  rcases h with rfl | ⟨rest, hrest⟩
  · exact ⟨"v0:0:0", by decide +kernel⟩
  · obtain rfl : d = "version:" ++ String.ofList rest := by
      refine String.toList_injective (hrest.symm.trans ?_)
      simp
    exact ⟨_, String.append_assoc⟩

/-- Pages and versions of directories collide exactly for ids that look like a version. -/
theorem keysApart_iff (d : InodeID) : KeysApart d ↔ ¬LikeVersion d := by
  constructor
  · intro h hlike
    obtain ⟨d', heq⟩ := hlike.exists_eq
    exact h.pageVersion 0 {} d' heq
  · intro hlike
    refine ⟨fun _ _ _ _ _ => pageKey_injective, fun _ _ _ =>
      pageKey_ne_versionKey_of_not_like hlike, fun _ => versionKey_injective,
      fun id key hkey => ⟨ne_of_family ?_, fun v opts => ne_of_family ?_⟩⟩
    · rw [family_versionKey]
      exact family_otherKeys id key hkey
    · rw [pageKey, family_directoryListKey]
      exact family_otherKeys id key hkey

theorem pageKey_isVersionKey :
    pageKey "version:a" 3 { limit := 10 } = directoryListVersionKey "a:v3:0:10" := by
  decide +kernel

/-! ### Chunk IDs -/

section ChunkIDs

open Gateway

variable {id base base' : ChunkID} {size size' : Nat}

/-- The chunk IDs of an upload. -/
def derivedChunkIDs (base : ChunkID) (size : Nat) : List ChunkID :=
  (range (chunkCount size)).map fun i => chunkIDForIndex base i (chunkCount size)

def Shadows (base : ChunkID) (size : Nat) (base' : ChunkID) (size' : Nat) : Prop :=
  chunkCount size = 1 ∧ 1 < chunkCount size' ∧
    ∃ i < chunkCount size', base = base' ++ "-" ++ toString i

lemma base_eq_of_indexed {i j : Nat} (h : base ++ "-" ++ toString i = base' ++ "-" ++ toString j) :
    base = base' := by
  have hlist := congrArg (fun id => id.toList.reverse) h
  have hdash : "-".toList = ['-'] := rfl
  simp only [String.toList_append, hdash, reverse_append, reverse_singleton] at hlist
  have hnone (n : Nat) : '-' ∉ (toString n).toList.reverse :=
    fun hmem => not_mem_digits (by decide) n (mem_reverse.mp hmem)
  obtain ⟨-, hrest⟩ := segment_eq_of_append (hnone i) (hnone j) (by simp) (by simp) hlist
  exact String.toList_injective (reverse_injective (append_cancel_left hrest))

lemma shadows_of_mem (hone : chunkCount size ≤ 1) (hmany : ¬chunkCount size' ≤ 1)
    (hmem : id ∈ derivedChunkIDs base size) (hmem' : id ∈ derivedChunkIDs base' size') :
    Shadows base size base' size' := by
  simp only [derivedChunkIDs, mem_map, mem_range, chunkIDForIndex, if_pos hone, if_neg hmany]
    at hmem hmem'
  obtain ⟨i, hi, rfl⟩ := hmem
  obtain ⟨j, hj, hbase⟩ := hmem'
  exact ⟨by omega, by omega, j, hj, hbase.symm⟩

lemma Shadows.not_disjoint (h : Shadows base size base' size') :
    ¬Disjoint (derivedChunkIDs base size) (derivedChunkIDs base' size') := by
  obtain ⟨hone, hmany, i, hi, rfl⟩ := h
  refine fun hdisjoint => hdisjoint (a := base' ++ "-" ++ toString i) ?_ ?_
  · exact mem_map.mpr ⟨0, by simp [hone], if_pos hone.le⟩
  · exact mem_map.mpr ⟨i, mem_range.mpr hi, if_neg hmany.not_ge⟩

/-- Uploads with different base IDs have different chunks unless one of them, of a single chunk,
is named as a chunk of the other. -/
theorem derivedChunkIDs_disjoint_iff (hbase : base ≠ base') (size size' : Nat) :
    (Disjoint (derivedChunkIDs base size) (derivedChunkIDs base' size') ∧
      (derivedChunkIDs base size).Nodup ∧ (derivedChunkIDs base' size').Nodup) ↔
    ¬Shadows base size base' size' ∧ ¬Shadows base' size' base size := by
  constructor
  · rintro ⟨hdisjoint, -⟩
    exact ⟨fun h => h.not_disjoint hdisjoint, fun h => h.not_disjoint (disjoint_symm hdisjoint)⟩
  · rintro ⟨hshadow, hshadow'⟩
    refine ⟨fun id hmem hmem' => ?_, nodup_chunkIDs le_rfl, nodup_chunkIDs le_rfl⟩
    by_cases hone : chunkCount size ≤ 1 <;> by_cases hone' : chunkCount size' ≤ 1
    · simp only [derivedChunkIDs, mem_map, chunkIDForIndex, if_pos hone, if_pos hone'] at hmem hmem'
      obtain ⟨i, -, rfl⟩ := hmem
      obtain ⟨j, -, heq⟩ := hmem'
      exact hbase heq.symm
    · exact hshadow (shadows_of_mem hone hone' hmem hmem')
    · exact hshadow' (shadows_of_mem hone' hone hmem' hmem)
    · simp only [derivedChunkIDs, mem_map, chunkIDForIndex, if_neg hone, if_neg hone'] at hmem hmem'
      obtain ⟨i, -, rfl⟩ := hmem
      obtain ⟨j, -, heq⟩ := hmem'
      exact hbase (base_eq_of_indexed heq).symm

theorem derivedChunkIDs_twoChunks :
    derivedChunkIDs "a" 4194305 = ["a-0", "a-1"] ∧
      Disjoint (derivedChunkIDs "a" 4194305) (derivedChunkIDs "a-2" 1) := by
  have hshadow : ¬Shadows "a" 4194305 "a-2" 1 := fun h => absurd h.1 (by decide +kernel)
  have hshadow' : ¬Shadows "a-2" 1 "a" 4194305 := by
    rintro ⟨-, -, i, hi, heq⟩
    have hcount : chunkCount 4194305 = 2 := by decide +kernel
    have hall : ∀ i < 2, "a-2" ≠ "a" ++ "-" ++ toString i := by decide +kernel
    exact hall i hi heq
  exact ⟨by decide +kernel,
    ((derivedChunkIDs_disjoint_iff (by decide) 4194305 1).mpr ⟨hshadow, hshadow'⟩).1⟩

theorem derivedChunkIDs_collide :
    "a-0" ∈ derivedChunkIDs "a" 4194305 ∧ "a-0" ∈ derivedChunkIDs "a-0" 1 := by
  decide +kernel

end ChunkIDs

end AstraStorage.Proofs
