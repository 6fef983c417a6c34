import AstraStorage.Proofs.Effects

/-!
# Batches of chunks

Each chunk of a batch is checked against the stored ones and those before it in the batch. That is
enough, although some of them are replaced later.
-/

set_option mvcgen.warning false

namespace AstraStorage.Proofs
open Lib Store Function List Records

variable {s t : MemoryState} {u : Unit} {z : ChunkMetadata} {pending : Records ChunkMetadata.id}

def PlacedApart (z w : ChunkMetadata) : Prop :=
  z.fileID = w.fileID → z.index ≠ w.index ∧ z.offset ≠ w.offset

def PositionsUnique (c : Catalog) : Prop :=
  ∀ k l z w, c.chunk k = some z → c.chunk l = some w → k ≠ l → PlacedApart z w

lemma PlacedApart.symm (h : PlacedApart z w) : PlacedApart w z := by
  intro hf
  obtain ⟨hindex, hoffset⟩ := h hf.symm
  exact ⟨hindex.symm, hoffset.symm⟩

def lastOf (chunks : List ChunkMetadata) (k : ChunkID) : Option ChunkMetadata :=
  (chunks.filter (·.id = k)).getLast?

lemma lastOf_cons (z : ChunkMetadata) (chunks : List ChunkMetadata) (k : ChunkID) :
    lastOf (z :: chunks) k = (lastOf chunks k).or (if z.id = k then some z else none) := by
  unfold lastOf
  by_cases hz : z.id = k
  · rw [filter_cons_of_pos (by simpa using hz), getLast?_cons, if_pos hz]
    cases (chunks.filter (·.id = k)).getLast? with
    | none | some w => rfl
  · rw [filter_cons_of_neg (by simpa using hz), if_neg hz, Option.or_none]

structure Pending (s : MemoryState) (pending : Records ChunkMetadata.id) : Prop where
  stored : ∀ k l z w, pending.lookup k = some z → (catalog s).chunk l = some w → k ≠ l → PlacedApart z w
  among : ∀ k l z w, pending.lookup k = some z → pending.lookup l = some w → k ≠ l → PlacedApart z w

lemma Pending.empty : Pending s ∅ where
  stored _ _ _ _ h := by cases h
  among _ _ _ _ h := by cases h

lemma yields_rejectTakenPositions {records : Records ChunkMetadata.id} :
    Yields (forM records.values (rejectTakenPosition z)) s u t ↔
      (∀ k w, records.lookup k = some w → z.id ≠ k → PlacedApart z w) ∧ t = s := by
  rw [yields_forM_check (fun w _ _ _ => yields_rejectTakenPosition)]
  refine and_congr_left fun _ => ?_
  constructor
  · intro h k w hw hk hf
    obtain ⟨hmem, rfl⟩ := lookup_eq_some.mp hw
    have hfree := h w hmem
    refine ⟨fun hi => hfree ⟨hf.symm, Ne.symm hk, .inl hi.symm⟩, fun ho => ?_⟩
    exact hfree ⟨hf.symm, Ne.symm hk, .inr ho.symm⟩
  · rintro h w hw ⟨hf, hk, hpos⟩
    obtain ⟨hindex, hoffset⟩ := h w.id w (mem_values.mp hw) (Ne.symm hk) hf.symm
    rcases hpos with hpos | hpos
    · exact hindex hpos.symm
    · exact hoffset hpos.symm

lemma Pending.put (h : Pending s pending)
    (hstored : ∀ k w, (catalog s).chunk k = some w → z.id ≠ k → PlacedApart z w)
    (hpending : ∀ k w, pending.lookup k = some w → z.id ≠ k → PlacedApart z w) :
    Pending s (pending.put z) := by
  constructor
  · intro k l x w hx hw hkl
    rw [lookup_put, update_some_eq_some] at hx
    rcases hx with ⟨rfl, rfl⟩ | ⟨-, hx⟩
    · exact hstored l w hw hkl
    · exact h.stored k l x w hx hw hkl
  · intro k l x w hx hw hkl
    rw [lookup_put, update_some_eq_some] at hx hw
    rcases hx with ⟨rfl, rfl⟩ | ⟨hk, hx⟩
    · rcases hw with ⟨rfl, rfl⟩ | ⟨-, hw⟩
      · exact absurd rfl hkl
      · exact hpending l w hw hkl
    · rcases hw with ⟨rfl, rfl⟩ | ⟨-, hw⟩
      · exact (hpending k x hx (Ne.symm hk)).symm
      · exact h.among k l x w hx hw hkl

lemma pendingChunks_spec {chunks : List ChunkMetadata} {after : Records ChunkMetadata.id}
    (h : Pending s pending) (hyields : Yields (pendingChunks chunks pending) s after t) :
    t = s ∧ Pending s after ∧
      ∀ k, after.lookup k = (lastOf chunks k).or (pending.lookup k) := by
  induction chunks generalizing pending with
  | nil =>
    obtain ⟨rfl, rfl⟩ := yields_pure.mp hyields
    exact ⟨rfl, h, fun k => rfl⟩
  | cons z chunks ih =>
    simp only [pendingChunks, yields_reject_bind, yields_get_bind, forM_eq_forM] at hyields
    obtain ⟨-, -, -, -, -, hyields⟩ := hyields
    obtain ⟨⟨⟩, r, hloop, hrest⟩ := yields_bind.mp hyields
    obtain ⟨hstored, rfl⟩ := yields_rejectTakenPositions.mp hloop
    obtain ⟨⟨⟩, r', hloop', hrest'⟩ := yields_bind.mp hrest
    obtain ⟨hpending, rfl⟩ := yields_rejectTakenPositions.mp hloop'
    obtain ⟨ht, hafter, hlookup⟩ := ih (h.put hstored hpending) hrest'
    refine ⟨ht, hafter, fun k => ?_⟩
    rw [hlookup, lastOf_cons, Option.or_assoc, lookup_put]
    by_cases hk : z.id = k
    · subst hk
      rw [update_self, if_pos rfl]
      rfl
    · rw [update_of_ne (Ne.symm hk), if_neg hk, Option.none_or]

open Std.Do in
lemma triple_pendingChunks : ⦃fun t => ⌜t = s⌝⦄ pendingChunks chunks pending
    ⦃post⟨fun _ t => ⌜t = s⌝, fun _ t => ⌜t = s⌝⟩⦄ := by
  induction chunks generalizing pending with
  | nil => mvcgen [pendingChunks]
  | cons z chunks ih =>
    have hchecks (xs : List ChunkMetadata) : ⦃fun t => ⌜t = s⌝⦄ xs.forM (rejectTakenPosition z)
        ⦃post⟨fun _ t => ⌜t = s⌝, fun _ t => ⌜t = s⌝⟩⦄ :=
      triple_forM fun _ => by mvcgen [rejectTakenPosition] <;> grind
    mvcgen [pendingChunks, hchecks, ih] <;> grind

lemma putChunks_spec (xs : List ChunkMetadata) (hnodup : (xs.map ChunkMetadata.id).Nodup)
    (s : MemoryState) :
    ∃ chunks, forM xs putChunk s = .ok () { s with chunks := chunks } ∧
      ∀ k, chunks.lookup k = (xs.find? (·.id = k)).or (s.chunks.lookup k) := by
  induction xs generalizing s with
  | nil => exact ⟨s.chunks, rfl, fun k => rfl⟩
  | cons z xs ih =>
    rw [map_cons, nodup_cons] at hnodup
    obtain ⟨chunks, hrest, hlookup⟩ := ih hnodup.2 { s with chunks := s.chunks.put z }
    refine ⟨chunks, hrest, fun k => ?_⟩
    rw [hlookup, lookup_put]
    by_cases hk : z.id = k
    · subst hk
      have hnone : xs.find? (·.id = z.id) = none := by
        rw [find?_eq_none]
        intro w hw heq
        exact hnodup.1 ((of_decide_eq_true heq) ▸ mem_map_of_mem hw)
      rw [hnone, update_self, find?_cons_of_pos (by simp)]
      rfl
    · rw [update_of_ne (Ne.symm hk), find?_cons_of_neg (by simpa using hk)]

lemma Pending.positionsUnique (h : Pending s pending) (hunique : PositionsUnique (catalog s))
    (hlookup : ∀ k, chunks.lookup k = (pending.lookup k).or (s.chunks.lookup k)) :
    PositionsUnique (catalog { s with chunks := chunks }) := by
  intro k l z w hz hw hkl
  change chunks.lookup k = some z at hz
  change chunks.lookup l = some w at hw
  rw [hlookup, Option.or_eq_some_iff] at hz hw
  rcases hz with hz | ⟨-, hz⟩
  · rcases hw with hw | ⟨-, hw⟩
    · exact h.among k l z w hz hw hkl
    · exact h.stored k l z w hz hw hkl
  · rcases hw with hw | ⟨-, hw⟩
    · exact (h.stored l k w z hw hz (Ne.symm hkl)).symm
    · exact hunique k l z w hz hw hkl

/-- A batch is refused as a whole, or the last chunk of each ID is stored, no other chunk changes
and positions stay unique. -/
theorem upsertChunks_atomic (s : MemoryState) (chunks : List ChunkMetadata)
    (hunique : PositionsUnique (catalog s)) :
    (∃ e, upsertChunks chunks s = .error e s) ∨
      ∃ stored, upsertChunks chunks s = .ok () { s with chunks := stored } ∧
        (∀ k, stored.lookup k = (lastOf chunks k).or (s.chunks.lookup k)) ∧
        PositionsUnique (catalog { s with chunks := stored }) := by
  cases hpending : pendingChunks chunks ∅ s with
  | error e t =>
    obtain rfl := (triple_iff.mp triple_pendingChunks s rfl).2 e t hpending
    exact .inl ⟨e, bind_of_error hpending⟩
  | ok pending t =>
    obtain ⟨rfl, hafter, hlast⟩ := pendingChunks_spec .empty hpending
    obtain ⟨stored, hwrite, hlookup⟩ := putChunks_spec pending.values pending.nodup t
    refine .inr ⟨stored, (bind_of_ok hpending).trans hwrite, fun k => ?_,
      hafter.positionsUnique hunique hlookup⟩
    rw [hlookup]
    change (pending.lookup k).or _ = _
    rw [hlast, Records.lookup_empty, Option.or_none]

def oneChunkState : MemoryState where
  files := Records.put ∅ { id := "f" }
  chunks := Records.put ∅ { id := "a", fileID := "f", size := 4194304 }

lemma oneChunkState_positionsUnique : PositionsUnique (catalog oneChunkState) := by
  intro k l z w hz hw hkl
  have hk (k : ChunkID) (z : ChunkMetadata) (hz : (catalog oneChunkState).chunk k = some z) :
      k = "a" := by
    obtain ⟨hmem, rfl⟩ := lookup_eq_some.mp hz
    rw [mem_singleton.mp hmem]
  exact absurd ((hk k z hz).trans (hk l w hw).symm) hkl

def movedTwice : List ChunkMetadata :=
  [{ id := "a", fileID := "f", index := 1, offset := 4194304 },
    { id := "b", fileID := "f", index := 2, offset := 8388608 },
    { id := "a", fileID := "f", index := 3, offset := 12582912 }]

theorem upsertChunks_movedTwice : ∃ stored,
    upsertChunks movedTwice oneChunkState = .ok () { oneChunkState with chunks := stored } ∧
      (stored.lookup "a").map (·.index) = some 3 ∧
      PositionsUnique (catalog { oneChunkState with chunks := stored }) := by
  rcases upsertChunks_atomic oneChunkState movedTwice oneChunkState_positionsUnique with
    ⟨e, herror⟩ | ⟨stored, hok, hlookup, hunique⟩
  · have hreturns : Returns (upsertChunks movedTwice) oneChunkState := by decide
    obtain ⟨u, t, hok⟩ := hreturns
    cases herror.symm.trans hok
  · refine ⟨stored, hok, ?_, hunique⟩
    rw [hlookup]
    rfl

end AstraStorage.Proofs
