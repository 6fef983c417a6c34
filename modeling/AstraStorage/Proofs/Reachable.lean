import AstraStorage.Proofs.Effects

/-!
# Reachable states are well formed

Every action performs namespace changes, one upload change, or writes a node. So every state
of every run is well formed.
-/

namespace AstraStorage.Proofs
open Lib Store Service

variable {now : Time}

namespace WellFormed

lemma chunksOf (h : WellFormed c) (hinode : c'.inode = c.inode) (hfile : c'.file = c.file)
    (hsession : c'.session = c.session)
    (hchunk : ∀ k z', c'.chunk k = some z' → ∃ z, c.chunk k = some z ∧ z.fileID = z'.fileID) :
    WellFormed c' := by
  obtain ⟨htree, hlinks⟩ := h
  refine ⟨htree.congr hinode, ?_⟩
  constructor
  · rw [hfile]
    exact hlinks.no_empty_file
  · cases hz : c'.chunk "" with
    | none => rfl
    | some z' =>
      obtain ⟨z, hz, -⟩ := hchunk "" z' hz
      rw [hlinks.no_empty_chunk] at hz
      cases hz
  · rw [hinode]
    exact hlinks.type
  · rw [hinode, hfile]
    exact hlinks.inode_file
  · rw [hinode, hfile]
    exact hlinks.file_inode
  · intro k z' hz'
    obtain ⟨z, hz, hsame⟩ := hchunk k z' hz'
    rw [hfile, ← hsame]
    exact hlinks.chunk_file k z hz
  · rw [hsession, hfile]
    exact hlinks.session_file
  · rw [hfile, hsession]
    exact hlinks.latest

lemma sameButNodes (h : WellFormed c) (hc : SameButNodes c c') : WellFormed c' := by
  obtain ⟨hinode, hfile, hchunk, hsession, _⟩ := hc
  exact h.chunksOf hinode hfile hsession fun k z hz => ⟨z, hchunk ▸ hz, rfl⟩

lemma catalogStep (hw : WellFormed c) (h : CatalogStep ok c c') : WellFormed c' := by
  cases h with
  | namespaces h => exact hw.namespaceChanges h
  | upload h => exact hw.uploadChange h
  | nodes h => exact hw.sameButNodes h

theorem step (hw : WellFormed (catalog s)) (h : Step s a t) : WellFormed (catalog t) :=
  hw.catalogStep (effect_of_step hw h).catalogStep

end WellFormed

def rootState (now : Time) : MemoryState :=
  { inodes := Records.put ∅ (rootInode now) }

lemma bootstrapped_iff : Bootstrapped s ↔ ∃ now, s = rootState now := by
  have hempty (now : Time) : ensureRootInode now {} = .ok () (rootState now) := rfl
  unfold Bootstrapped
  simp only [hempty, EStateM.Result.ok.injEq, true_and, eq_comm]

lemma inode_rootState :
    (catalog (rootState now)).inode i = some x ↔ i = rootInodeID ∧ rootInode now = x := by
  simp only [catalog, rootState, Records.lookup_put, update_some_eq_some, Records.lookup_empty,
    reduceCtorEq, and_false, or_false]
  rfl

lemma wellFormed_rootState (now : Time) : WellFormed (catalog (rootState now)) := by
  constructor
  · constructor
    · rfl
    · exact ⟨rootInode now, inode_rootState.mpr ⟨rfl, rfl⟩, rfl, rfl⟩
    · intro i x hx hi
      exact absurd (inode_rootState.mp hx).1 hi
    · intro i x hx
      rw [(inode_rootState.mp hx).1]
    · intro i j x y hx hy _ _
      rw [(inode_rootState.mp hx).1, (inode_rootState.mp hy).1]
    · intro i x hx
      rw [← (inode_rootState.mp hx).2]
      rfl
    · intro i x hx _
      rw [← (inode_rootState.mp hx).2]
      rfl
  · constructor
    · rfl
    · rfl
    · intro i x hx
      rw [← (inode_rootState.mp hx).2]
      exact .inl rfl
    · intro i x hx hfile
      rw [← (inode_rootState.mp hx).2] at hfile
      cases hfile
    all_goals
      intro _ _ hnone
      cases hnone

/-- Invariant rule for runs of the service whose calls all meet the condition `C`. -/
theorem invariant_of_serviceRun {I : MemoryState → Prop} {C : MemoryState → Action → Prop}
    (hrun : ServiceRun history s) (hC : ∀ p ∈ history, C p.1 p.2)
    (hroot : ∀ now, I (rootState now))
    (hkeep : ∀ s a t, WellFormed (catalog s) → I s → C s a → Step s a t → I t) :
    WellFormed (catalog s) ∧ I s := by
  refine hrun.invariant_of (I := fun s => WellFormed (catalog s) ∧ I s) hC ?_ ?_
  · intro s hs
    obtain ⟨now, rfl⟩ := bootstrapped_iff.mp hs
    exact ⟨wellFormed_rootState now, hroot now⟩
  · rintro s a t ⟨hw, hs⟩ ha hstep
    exact ⟨hw.step hstep, hkeep s a t hw hs ha hstep⟩

theorem wellFormed_of_run (hrun : ServiceRun history s) : WellFormed (catalog s) :=
  (invariant_of_serviceRun (C := fun _ _ => True) hrun (fun _ _ => trivial)
    (fun _ => trivial) fun _ _ _ _ _ _ _ => trivial).1

/-- Invariant rule for all runs of the service. -/
theorem kept_of_serviceRun {I : MemoryState → Prop} (hrun : ServiceRun history s)
    (hroot : ∀ now, I (rootState now))
    (hkeep : ∀ s a t, WellFormed (catalog s) → I s → Step s a t → I t) : I s :=
  (invariant_of_serviceRun (C := fun _ _ => True) hrun (fun _ _ => trivial) hroot
    fun s a t hw hs _ hstep => hkeep s a t hw hs hstep).2

def play (now : Time) (calls : List Call) : List (MemoryState × Action) × MemoryState :=
  calls.foldl (fun p call => ((p.2, .call now call) :: p.1, call.exec now p.2)) ([], rootState now)

lemma serviceRun_play (now : Time) (calls : List Call) :
    ServiceRun (play now calls).1 (play now calls).2 := by
  suffices h : ∀ p : List (MemoryState × Action) × MemoryState, ServiceRun p.1 p.2 →
      let q := calls.foldl
        (fun p call => ((p.2, .call now call) :: p.1, call.exec now p.2)) p
      ServiceRun q.1 q.2 from
    h _ (.start (bootstrapped_iff.mpr ⟨now, rfl⟩))
  induction calls with
  | nil => exact fun p hp => hp
  | cons call calls ih =>
    intro p hp
    exact ih _ (.next hp (.call now call))

lemma action_of_mem_play (hp : p ∈ (play now calls).1) : ∃ call ∈ calls, p.2 = .call now call := by
  suffices h : ∀ q : List (MemoryState × Action) × MemoryState,
      p ∈ (calls.foldl (fun p call => ((p.2, .call now call) :: p.1, call.exec now p.2)) q).1 →
        p ∈ q.1 ∨ ∃ call ∈ calls, p.2 = .call now call by
    rcases h _ hp with hnil | hcall
    · cases hnil
    · exact hcall
  clear hp
  induction calls with
  | nil => exact fun q hq => .inl hq
  | cons call calls ih =>
    intro q hq
    rcases ih _ hq with hq | ⟨call', hcall', hp'⟩
    · rcases List.mem_cons.mp hq with rfl | hq
      · exact .inr ⟨call, List.mem_cons_self, rfl⟩
      · exact .inl hq
    · exact .inr ⟨call', List.mem_cons_of_mem _ hcall', hp'⟩

def rootFile (inodeID : InodeID) (fileID : FileID) (name : String) (size : Int64) : Call :=
  .createFile {
    inodeID := inodeID, fileID := fileID, parentID := rootInodeID, name := name, size := size }

def newNode (id : NodeID) (address : String) (used : Int64) : Call :=
  .registerNode { id := id, address := address, capacity := 100, used := used, healthy := true }

def restartedUpload : List Call :=
  [rootFile "i1" "f" "a" 4,
    .startUpload { sessionID := "u", fileID := "f" },
    .failUploadVerification { sessionID := "u", errorCode := "E", maxAttempts := 1 },
    .startUpload { sessionID := "v", fileID := "f" }]

def digest (value : String) : Checksum := { algorithm := "sha256", value := value }

def verifiedDigest (value : String) : Checksum :=
  { digest value with verified := true, verifiedAt := some 1 }

def uploadedFile : List Call :=
  [rootFile "i1" "f" "a" 4,
    .startUpload {
      sessionID := "u", fileID := "f", expectedSize := 4, expectedChecksum := some (digest "00") },
    .commitChunk {
      sessionID := "u", chunkID := "k", size := 4, checksum := some (verifiedDigest "00")
      replicas := some (AList.insert "n" { state := .ready } ∅) },
    .completeUpload { sessionID := "u", finalChecksum := some (verifiedDigest "00") }]

end AstraStorage.Proofs
