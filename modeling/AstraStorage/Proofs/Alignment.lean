import AstraStorage.Proofs.Availability
import Mathlib.Algebra.Ring.Int.Defs

/-!
# Aligned chunks

A chunk lies at the offset of its index, if that fits into 64 bits. For such chunks the check
before verification accepts exactly the complete sets.
-/

namespace AstraStorage.Proofs
open Lib Store Service List Int64

variable {s : MemoryState} {a : Int64}

structure Aligned (z : ChunkMetadata) : Prop where
  offset : z.offset.toInt = z.index.toInt * 4194304
  size_nonneg : 0 ≤ z.size.toInt
  size_le : z.size.toInt ≤ 4194304

def Readable (z : ChunkMetadata) : Prop := z.status ≠ .failed ∧ z.status ≠ .corrupted

structure CompleteSet (chunks : List ChunkMetadata) (expected : Int) : Prop where
  nonempty : chunks ≠ []
  indexes : ∀ i : Int, (∃ z ∈ chunks, z.index.toInt = i) ↔ 0 ≤ i ∧ i < chunks.length
  full : ∀ z ∈ chunks, z.index.toInt ≠ chunks.length - 1 → z.size = fixedChunkSizeBytes
  readable : ∀ z ∈ chunks, Readable z
  total : (chunks.map (·.size.toInt)).sum = expected

def Consecutive : Int → List ChunkMetadata → Prop
  | _, [] => True
  | i, z :: rest => z.index.toInt = i ∧ (rest ≠ [] → z.size = fixedChunkSizeBytes) ∧ Readable z ∧
      Consecutive (i + 1) rest

section Consecutive

variable {i : Int} {z : ChunkMetadata} {chunks rest : List ChunkMetadata}

lemma Consecutive.indexes (h : Consecutive i chunks) (j : Int) :
    (∃ z ∈ chunks, z.index.toInt = j) ↔ i ≤ j ∧ j < i + chunks.length := by
  induction chunks generalizing i with
  | nil => simp
  | cons z rest ih =>
    obtain ⟨hindex, -, -, hrest⟩ := h
    simp only [mem_cons, exists_eq_or_imp, ih hrest, hindex, length_cons]
    omega

lemma Consecutive.full (h : Consecutive i chunks) :
    ∀ z ∈ chunks, z.index.toInt ≠ i + chunks.length - 1 → z.size = fixedChunkSizeBytes := by
  induction chunks generalizing i with
  | nil => simp
  | cons z rest ih =>
    obtain ⟨hindex, hfull, -, hrest⟩ := h
    intro w hw hlast
    rw [length_cons] at hlast
    rcases mem_cons.mp hw with rfl | hw
    · refine hfull fun hnil => hlast ?_
      rw [hnil, hindex]
      simp
    · refine ih hrest w hw ?_
      omega

lemma Consecutive.readable (h : Consecutive i chunks) : ∀ z ∈ chunks, Readable z := by
  induction chunks generalizing i with
  | nil => simp
  | cons z rest ih =>
    obtain ⟨-, -, hreadable, hrest⟩ := h
    exact forall_mem_cons.mpr ⟨hreadable, ih hrest⟩

lemma consecutive_of_indexes (hsorted : chunks.Pairwise (·.index.toInt < ·.index.toInt))
    (hindexes : ∀ j : Int, (∃ z ∈ chunks, z.index.toInt = j) ↔ i ≤ j ∧ j < i + chunks.length)
    (hfull : ∀ z ∈ chunks, z.index.toInt ≠ i + chunks.length - 1 → z.size = fixedChunkSizeBytes)
    (hreadable : ∀ z ∈ chunks, Readable z) : Consecutive i chunks := by
  induction chunks generalizing i with
  | nil => trivial
  | cons z rest ih =>
    obtain ⟨hlt, hrest⟩ := pairwise_cons.mp hsorted
    rw [length_cons] at hindexes hfull
    -- The first chunk has the lowest index, and the lowest index is there.
    have hindex : z.index.toInt = i := by
      have hlower := ((hindexes z.index.toInt).mp ⟨z, mem_cons_self, rfl⟩).1
      obtain ⟨w, hw, hwi⟩ := (hindexes i).mpr ⟨le_rfl, by omega⟩
      rcases mem_cons.mp hw with rfl | hw
      · exact hwi
      · have := hlt w hw
        omega
    refine ⟨hindex, fun hne => ?_, hreadable z mem_cons_self, ih hrest (fun j => ?_)
      (fun w hw hlast => ?_) fun w hw => hreadable w (mem_cons_of_mem _ hw)⟩
    · have hpos : 0 < rest.length := length_pos_iff.mpr hne
      exact hfull z mem_cons_self (by omega)
    · constructor
      · rintro ⟨w, hw, rfl⟩
        have hupper := ((hindexes w.index.toInt).mp ⟨w, mem_cons_of_mem _ hw, rfl⟩).2
        have := hlt w hw
        omega
      · rintro ⟨hlower, hupper⟩
        obtain ⟨w, hw, rfl⟩ := (hindexes j).mpr ⟨by omega, by omega⟩
        rcases mem_cons.mp hw with rfl | hw
        · omega
        · exact ⟨w, hw, rfl⟩
    · exact hfull w (mem_cons_of_mem _ hw) (by omega)

end Consecutive

lemma completeSet_iff (hsorted : chunks.Pairwise (·.index.toInt < ·.index.toInt)) :
    CompleteSet chunks expected ↔
      chunks ≠ [] ∧ Consecutive 0 chunks ∧ (chunks.map (·.size.toInt)).sum = expected := by
  constructor
  · intro h
    refine ⟨h.nonempty, consecutive_of_indexes hsorted ?_ ?_ h.readable, h.total⟩
    · simpa using h.indexes
    · simpa using h.full
  · rintro ⟨hne, hconsecutive, htotal⟩
    refine ⟨hne, ?_, ?_, hconsecutive.readable, htotal⟩
    · simpa using hconsecutive.indexes
    · simpa using hconsecutive.full

section Loops

variable {i : Int} {next stop : Int64} {chunks : List ChunkMetadata}

lemma toInt_nonneg : 0 ≤ a.toInt ↔ 0 ≤ a := by
  rw [le_iff_toInt_le]
  rfl

lemma sum_sizes_nonneg (haligned : ∀ z ∈ chunks, Aligned z) :
    0 ≤ (chunks.map (·.size.toInt)).sum := by
  induction chunks with
  | nil => exact le_rfl
  | cons z rest ih =>
    rw [map_cons, sum_cons]
    have hz := (haligned z mem_cons_self).size_nonneg
    have hrest := ih fun w hw => haligned w (mem_cons_of_mem _ hw)
    omega

lemma toInt_add_of_le {b c : Int64} (ha : 0 ≤ a.toInt) (hb : 0 ≤ b.toInt)
    (hle : a.toInt + b.toInt ≤ c.toInt) : (a + b).toInt = a.toInt + b.toInt := by
  have hc := toInt_lt c
  rw [toInt_add, Int.bmod_eq_of_le] <;> omega

lemma covers_iff (haligned : ∀ z ∈ chunks, Aligned z)
    (hsorted : chunks.Pairwise (·.index.toInt < ·.index.toInt)) (hi : 0 ≤ i)
    (hnext : next.toInt = i * 4194304) (hstop : 0 ≤ stop.toInt) :
    Covers next chunks stop ↔
      Consecutive i chunks ∧ stop.toInt = next.toInt + (chunks.map (·.size.toInt)).sum := by
  induction chunks generalizing i next with
  | nil => simp [Covers, Consecutive, toInt_inj]
  | cons z rest ih =>
    have hz := haligned z mem_cons_self
    have hrest := fun w hw => haligned w (mem_cons_of_mem _ hw)
    obtain ⟨hlt, hsorted⟩ := pairwise_cons.mp hsorted
    have hsum := sum_sizes_nonneg hrest
    rw [map_cons, sum_cons]
    constructor
    · rintro ⟨hoffset, hfull, ⟨hcorrupted, hfailed⟩, hcovers⟩
      have hindex : z.index.toInt = i := by
        have hplace := hz.offset
        rw [hoffset] at hplace
        omega
      -- Where the loop goes on it has not wrapped around: the next chunk has a larger index.
      have hsum' : (next + z.size).toInt = next.toInt + z.size.toInt := by
        refine toInt_add_of_nonneg (toInt_nonneg.mp (by omega)) (toInt_nonneg.mp hz.size_nonneg) ?_
        cases rest with
        | nil =>
          rw [← (show stop = next + z.size from hcovers)]
          exact toInt_nonneg.mp hstop
        | cons w rest =>
          have hw := (hrest w mem_cons_self).offset
          have hzw := hlt w mem_cons_self
          rw [← hcovers.1]
          exact toInt_nonneg.mp (by omega)
      cases rest with
      | nil =>
        obtain rfl : stop = next + z.size := hcovers
        exact ⟨⟨hindex, hfull, ⟨hfailed, hcorrupted⟩, trivial⟩, by simpa using hsum'⟩
      | cons w rest =>
        have hsize : z.size.toInt = 4194304 := by
          rw [hfull (cons_ne_nil w rest)]
          rfl
        obtain ⟨hconsecutive, htotal⟩ :=
          (ih hrest hsorted (by omega) (by omega : (next + z.size).toInt = (i + 1) * 4194304)).mp hcovers
        exact ⟨⟨hindex, hfull, ⟨hfailed, hcorrupted⟩, hconsecutive⟩, by omega⟩
    · rintro ⟨⟨hindex, hfull, ⟨hfailed, hcorrupted⟩, hconsecutive⟩, htotal⟩
      have hoffset : z.offset = next := by
        rw [← toInt_inj, hz.offset, hindex, hnext]
      have hsum' : (next + z.size).toInt = next.toInt + z.size.toInt :=
        toInt_add_of_le (by omega) hz.size_nonneg (by omega : _ ≤ stop.toInt)
      refine ⟨hoffset, hfull, ⟨hcorrupted, hfailed⟩, ?_⟩
      cases rest with
      | nil =>
        rw [map_nil, sum_nil, Int.add_zero, ← hsum', toInt_inj] at htotal
        exact htotal
      | cons w rest =>
        have hsize : z.size.toInt = 4194304 := by
          rw [hfull (cons_ne_nil w rest)]
          rfl
        exact (ih hrest hsorted (by omega)
          (by omega : (next + z.size).toInt = (i + 1) * 4194304)).mpr ⟨hconsecutive, by omega⟩

def laterEnd (storedSize : Int64) (z : ChunkMetadata) : Int64 :=
  if z.offset + z.size > storedSize then z.offset + z.size else storedSize

lemma le_foldl_laterEnd (chunks : List ChunkMetadata) (start : Int64) :
    start ≤ chunks.foldl laterEnd start := by
  induction chunks generalizing start with
  | nil => exact Int64.le_refl start
  | cons z rest ih =>
    refine Int64.le_trans ?_ (ih (laterEnd start z))
    unfold laterEnd
    split_ifs with h
    · exact Int64.le_of_lt h
    · exact Int64.le_refl start

lemma maxChunkEnd_nonneg (chunks : List ChunkMetadata) : 0 ≤ maxChunkEnd chunks :=
  le_foldl_laterEnd chunks 0

lemma foldl_laterEnd_of_consecutive (haligned : ∀ z ∈ chunks, Aligned z)
    (hconsecutive : Consecutive i chunks) (hi : 0 ≤ i) (hnext : next.toInt = i * 4194304)
    (htotal : stop.toInt = next.toInt + (chunks.map (·.size.toInt)).sum) :
    chunks.foldl laterEnd next = stop := by
  induction chunks generalizing i next with
  | nil =>
    rw [map_nil, sum_nil, Int.add_zero, toInt_inj] at htotal
    exact htotal.symm
  | cons z rest ih =>
    have hz := haligned z mem_cons_self
    have hrest := fun w hw => haligned w (mem_cons_of_mem _ hw)
    have hsum := sum_sizes_nonneg hrest
    obtain ⟨hindex, hfull, -, hconsecutive⟩ := hconsecutive
    rw [map_cons, sum_cons] at htotal
    have hoffset : z.offset = next := by
      rw [← toInt_inj, hz.offset, hindex, hnext]
    have hsum' : (next + z.size).toInt = next.toInt + z.size.toInt :=
      toInt_add_of_le (by omega) hz.size_nonneg (by omega : _ ≤ stop.toInt)
    have hround : laterEnd next z = next + z.size := by
      unfold laterEnd
      rw [hoffset]
      split_ifs with hlater
      · rfl
      · rw [gt_iff_lt, lt_iff_toInt_lt] at hlater
        have hsize := hz.size_nonneg
        rw [← toInt_inj]
        omega
    rw [foldl_cons, hround]
    cases rest with
    | nil =>
      rw [map_nil, sum_nil, Int.add_zero, ← hsum', toInt_inj] at htotal
      exact htotal.symm
    | cons w rest =>
      have hsize : z.size.toInt = 4194304 := by
        rw [hfull (cons_ne_nil w rest)]
        rfl
      exact ih hrest hconsecutive (by omega)
        (by omega : (next + z.size).toInt = (i + 1) * 4194304) (by omega)

end Loops

lemma strictlySorted_chunksOfFile
    (hindex : ∀ k l z w, (catalog s).chunk k = some z → (catalog s).chunk l = some w →
      z.fileID = f → w.fileID = f → z.index = w.index → k = l) :
    (chunksOfFile s f).Pairwise (·.index.toInt < ·.index.toInt) := by
  have hnodup : (chunksOfFile s f).Pairwise (·.id ≠ ·.id) := by
    rw [← pairwise_map]
    exact nodup_chunksOfFile f
  refine List.Pairwise.imp_of_mem ?_ ((sorted_chunksOfFile s f).and hnodup)
  rintro z w hz hw ⟨hle, hid⟩
  obtain ⟨hz, hzf⟩ := mem_chunksOfFile.mp hz
  obtain ⟨hw, hwf⟩ := mem_chunksOfFile.mp hw
  rw [le_iff_toInt_le] at hle
  refine lt_of_le_of_ne hle fun heq => hid ?_
  exact hindex _ _ z w hz hw hzf hwf (toInt_inj.mp heq)

lemma verifiable_iff_completeSet (haligned : ∀ z ∈ chunksOfFile s file.id, Aligned z)
    (hsorted : (chunksOfFile s file.id).Pairwise (·.index.toInt < ·.index.toInt)) :
    Verifiable s file session (maxChunkEnd (chunksOfFile s file.id)) ↔
      CompleteSet (chunksOfFile s file.id) (expectedFileSize file session).toInt := by
  rw [completeSet_iff hsorted]
  constructor
  · intro h
    have hstop : 0 ≤ (expectedFileSize file session).toInt := by
      rw [← h.stored]
      exact toInt_nonneg.mpr (maxChunkEnd_nonneg _)
    obtain ⟨hconsecutive, htotal⟩ :=
      (covers_iff haligned hsorted le_rfl (show (0 : Int64).toInt = 0 * 4194304 from rfl) hstop).mp
        h.covers
    refine ⟨h.chunks, hconsecutive, ?_⟩
    rw [htotal]
    exact (Int.zero_add _).symm
  · rintro ⟨hne, hconsecutive, htotal⟩
    have htotal' : (expectedFileSize file session).toInt =
        (0 : Int64).toInt + ((chunksOfFile s file.id).map (·.size.toInt)).sum := by
      rw [htotal]
      exact (Int.zero_add _).symm
    refine ⟨hne, ?_, ?_⟩
    · exact foldl_laterEnd_of_consecutive haligned hconsecutive le_rfl rfl htotal'
    · refine (covers_iff haligned hsorted le_rfl rfl ?_).mpr ⟨hconsecutive, htotal'⟩
      rw [← htotal]
      exact sum_sizes_nonneg haligned

/-- For aligned chunks with distinct indexes, the check before verification accepts exactly the
complete sets. -/
theorem readyForVerification_iff (s : MemoryState) (file : FileMetadata) (session : UploadSession)
    (haligned : ∀ k z, (catalog s).chunk k = some z → z.fileID = file.id → Aligned z)
    (hindex : ∀ k l z w, (catalog s).chunk k = some z → (catalog s).chunk l = some w →
      z.fileID = file.id → w.fileID = file.id → z.index = w.index → k = l) :
    Returns (currentStoredSize file.id >>= ensureFileReadyForVerification file session) s ↔
      CompleteSet (chunksOfFile s file.id)
        (if 0 < session.expectedSize then session.expectedSize else file.size).toInt := by
  have haligned' : ∀ z ∈ chunksOfFile s file.id, Aligned z := by
    intro z hz
    obtain ⟨hz, hzf⟩ := mem_chunksOfFile.mp hz
    exact haligned _ z hz hzf
  have hreturns : Returns (currentStoredSize file.id >>= ensureFileReadyForVerification file session) s ↔
      Verifiable s file session (maxChunkEnd (chunksOfFile s file.id)) := by
    simp only [Returns, yields_read_bind (fun _ _ => yields_currentStoredSize), exists_eq_left,
      yields_ensureFileReadyForVerification]
    constructor
    · rintro ⟨-, t, h, -⟩
      exact h
    · intro h
      exact ⟨(), s, h, rfl⟩
  rw [hreturns]
  exact verifiable_iff_completeSet haligned' (strictlySorted_chunksOfFile hindex)

def fullChunk : ChunkMetadata := { id := "a", fileID := "f", size := 4194304 }

def emptyChunk : ChunkMetadata := { id := "b", fileID := "f", index := 1, offset := 4194304 }

def paddedState : MemoryState where
  chunks := { values := [emptyChunk, fullChunk], nodup := by decide }

/-- A last chunk may be empty. -/
theorem completeSet_paddedState : CompleteSet (chunksOfFile paddedState "f") 4194304 := by
  have hmem (k : ChunkID) (z : ChunkMetadata) (hz : (catalog paddedState).chunk k = some z) :
      k = z.id ∧ (z = emptyChunk ∨ z = fullChunk) := by
    obtain ⟨hmem, rfl⟩ := Records.lookup_eq_some.mp hz
    exact ⟨rfl, by simpa [paddedState] using hmem⟩
  refine (readyForVerification_iff paddedState { id := "f" }
    { id := "u", fileID := "f", expectedSize := 4194304 } ?_ ?_).mp (by decide)
  · intro k z hz _
    rcases (hmem k z hz).2 with rfl | rfl
    · exact ⟨by decide, by decide, by decide⟩
    · exact ⟨by decide, by decide, by decide⟩
  · intro k l z w hz hw _ _ hindex
    obtain ⟨hk, hz'⟩ := hmem k z hz
    obtain ⟨hl, hw'⟩ := hmem l w hw
    rw [hk, hl]
    rcases hz' with rfl | rfl <;> rcases hw' with rfl | rfl
    · rfl
    · exact absurd hindex (by decide)
    · exact absurd hindex (by decide)
    · rfl

def IndexFits : Action → Prop
  | .call _ (.commitChunk req) => req.index.toInt * 4194304 ≤ 2 ^ 63 - 1
  | _ => True

def ExactlyPlaced (z : ChunkMetadata) : Prop :=
  z.offset.toInt = z.index.toInt * 4194304 ∧ z.offset.toInt + z.size.toInt ≤ 2 ^ 63 - 1

section Runs

variable {t : MemoryState} {history : List (MemoryState × Action)}

lemma toInt_mul_of_fits (hindex : 0 ≤ index) (hfits : index.toInt * 4194304 ≤ 2 ^ 63 - 1) :
    (index * fixedChunkSizeBytes).toInt = index.toInt * 4194304 := by
  have hnonneg := toInt_nonneg.mpr hindex
  have hsize : fixedChunkSizeBytes.toInt = 4194304 := rfl
  rw [toInt_mul, hsize, Int.bmod_eq_of_le] <;> omega

lemma Effect.offsets {ok : String → Prop} {a : Action} (h : Effect ok s t a) (hfits : IndexFits a)
    (hs : ∀ k z, (catalog s).chunk k = some z → z.offset.toInt = z.index.toInt * 4194304) :
    ∀ k z, (catalog t).chunk k = some z → z.offset.toInt = z.index.toInt * 4194304 := by
  intro k z hz
  rcases h.chunksFrom with hfrom | ⟨now, req, y, file, replicas, rfl, hacc, hchunk⟩
  · obtain ⟨w, hw, hplace⟩ := hfrom k z hz
    rw [hplace.offset, hplace.index]
    exact hs k w hw
  · rw [hchunk, update_some_eq_some] at hz
    rcases hz with ⟨-, rfl⟩ | ⟨-, hz⟩
    · change req.offset.toInt = req.index.toInt * 4194304
      rw [hacc.offset]
      exact toInt_mul_of_fits hacc.position.1 hfits
    · exact hs k z hz

/-- If the offsets of all committed indexes fit, every chunk is exactly placed. -/
theorem chunks_exactlyPlaced (hrun : ServiceRun history s) (hfits : ∀ p ∈ history, IndexFits p.2) :
    ∀ k z, (catalog s).chunk k = some z → ExactlyPlaced z := by
  obtain ⟨-, hoffsets⟩ := invariant_of_serviceRun hrun hfits (by rintro now k z ⟨⟩)
    fun s a t hw hs ha hstep => (effect_of_step hw hstep).offsets ha hs
  intro k z hz
  refine ⟨hoffsets k z hz, ?_⟩
  obtain ⟨hoffset, hsize, hend⟩ := (chunkTable_of_run hrun).place k z hz
  rw [← toInt_add_of_nonneg hoffset hsize hend]
  have := Int64.toInt_lt (z.offset + z.size)
  omega

end Runs

def farChunk : List Call :=
  [rootFile "i1" "f" "a" 0,
    .startUpload { sessionID := "u", fileID := "f" },
    .commitChunk { sessionID := "u", chunkID := "k", size := 4 },
    .commitChunk {
      sessionID := "u", chunkID := "l", index := 2199023255551, offset := 9223372036850581504
      size := 4194303 }]

theorem farChunk_exactlyPlaced :
    ∃ z, (catalog (play 1 farChunk).2).chunk "l" = some z ∧ ExactlyPlaced z := by
  have hsome : ((catalog (play 1 farChunk).2).chunk "l").isSome := by decide +kernel
  obtain ⟨z, hz⟩ := Option.isSome_iff_exists.mp hsome
  have hcalls : ∀ call ∈ farChunk, IndexFits (.call 1 call) := by
    simp only [farChunk, forall_mem_cons]
    refine ⟨trivial, trivial, ?_, ?_, fun _ h => by cases h⟩
    · simp only [IndexFits]
      decide
    · simp only [IndexFits]
      decide
  refine ⟨z, hz, chunks_exactlyPlaced (serviceRun_play 1 farChunk) (fun p hp => ?_) "l" z hz⟩
  obtain ⟨call, hcall, hp⟩ := action_of_mem_play hp
  rw [hp]
  exact hcalls call hcall

def wrappedChunk : List Call :=
  [rootFile "i1" "f" "a" 0,
    .startUpload { sessionID := "u", fileID := "f" },
    .commitChunk { sessionID := "u", chunkID := "k", index := 4398046511104, size := 4 }]

theorem wrappedChunk_misplaced :
    ServiceRun (play 1 wrappedChunk).1 (play 1 wrappedChunk).2 ∧
      ∃ z, (catalog (play 1 wrappedChunk).2).chunk "k" = some z ∧ ¬ExactlyPlaced z := by
  refine ⟨serviceRun_play 1 wrappedChunk, ?_⟩
  have hindex : ((catalog (play 1 wrappedChunk).2).chunk "k").map (fun z => (z.index, z.offset)) =
      some (4398046511104, 0) := by decide +kernel
  obtain ⟨z, hz, hplace⟩ := Option.map_eq_some_iff.mp hindex
  refine ⟨z, hz, fun h => ?_⟩
  obtain ⟨hi, ho⟩ := Prod.mk.inj hplace
  have hexact := h.1
  rw [hi, ho] at hexact
  exact absurd hexact (by decide)

end AstraStorage.Proofs
