import AstraStorage.Proofs.Chunks

/-!
# Available files are complete

While no chunk id is committed under two files, every call either leaves an available file and its
chunks as they are or takes the status away.
-/

namespace AstraStorage.Proofs
open Lib Store Service List

variable {s t : MemoryState} {a : Action} {f : FileID} {file file' : FileMetadata}
  {y : UploadSession} {now : Time} {k : UploadSessionID} {req : CommitChunkRequest}

def Tiles : Int → List ChunkMetadata → Int → Prop
  | next, [], stop => stop = next
  | next, z :: rest, stop => z.offset.toInt = next ∧ (rest ≠ [] → z.size = fixedChunkSizeBytes) ∧
      Tiles (next + z.size.toInt) rest stop

lemma toInt_add_of_nonneg {a b : Int64} (ha : 0 ≤ a) (hb : 0 ≤ b) (hab : 0 ≤ a + b) :
    (a + b).toInt = a.toInt + b.toInt := by
  have hzero : (0 : Int64).toInt = 0 := rfl
  rw [Int64.le_iff_toInt_le] at ha hb hab
  have ha' := Int64.toInt_lt a
  have hb' := Int64.toInt_lt b
  rw [Int64.toInt_add] at hab ⊢
  by_cases hlt : a.toInt + b.toInt < 2 ^ 63
  · rw [Int.bmod_eq_of_le] <;> omega
  · rw [Int.bmod_def] at hab
    omega

lemma tiles_of_covers {next stop : Int64}
    (hplace : ∀ z ∈ chunks, 0 ≤ z.offset ∧ 0 ≤ z.size ∧ 0 ≤ z.offset + z.size)
    (h : Covers next chunks stop) : Tiles next.toInt chunks stop.toInt := by
  induction chunks generalizing next with
  | nil => exact congrArg Int64.toInt h
  | cons z rest ih =>
    obtain ⟨hoffset, hsize, _, hrest⟩ := h
    obtain ⟨ho, hs, hsum⟩ := hplace z mem_cons_self
    refine ⟨congrArg Int64.toInt hoffset, hsize, ?_⟩
    rw [← hoffset] at hrest ⊢
    rw [← toInt_add_of_nonneg ho hs hsum]
    exact ih (fun w hw => hplace w (mem_cons_of_mem _ hw)) hrest

lemma tiles_map {next : Int} {g : ChunkMetadata → ChunkMetadata} (hg : ∀ z, SamePlace z (g z))
    (h : Tiles next chunks stop) : Tiles next (chunks.map g) stop := by
  induction chunks generalizing next with
  | nil => exact h
  | cons z rest ih =>
    obtain ⟨hoffset, hsize, hrest⟩ := h
    refine ⟨by rw [(hg z).offset, hoffset], ?_, ?_⟩
    · intro hne
      rw [(hg z).size]
      exact hsize (by simpa using hne)
    · rw [(hg z).size]
      exact ih hrest

structure Complete (s : MemoryState) (f : FileID) (file : FileMetadata) : Prop where
  nonempty : chunksOfFile s f ≠ []
  tiles : Tiles 0 (chunksOfFile s f) file.size.toInt
  storedSize : file.storedSize = file.size
  chunk_checksum : ∀ z ∈ chunksOfFile s f, checksumReady z.checksum = true
  chunk_status : ∀ z ∈ chunksOfFile s f, z.status = .available
  chunk_replicas : ∀ z ∈ chunksOfFile s f,
    max 1 file.replicaPolicy.minimumReplicaCount ≤ healthyReplicaCount z.replicas
  checksum : checksumReady file.checksum = true

def AvailableComplete (s : MemoryState) : Prop :=
  ∀ f file, (catalog s).file f = some file → file.status = .available → Complete s f file

structure SameContents (x x' : FileMetadata) : Prop where
  status : x'.status = x.status
  size : x'.size = x.size
  storedSize : x'.storedSize = x.storedSize
  checksum : x'.checksum = x.checksum
  replicaPolicy : x'.replicaPolicy = x.replicaPolicy

lemma Complete.of_same (h : Complete s f file) (hsame : SameContents file file')
    (hchunks : chunksOfFile t f = chunksOfFile s f) : Complete t f file' := by
  constructor
  · rw [hchunks]; exact h.nonempty
  · rw [hchunks, hsame.size]; exact h.tiles
  · rw [hsame.storedSize, hsame.size]; exact h.storedSize
  · rw [hchunks]; exact h.chunk_checksum
  · rw [hchunks]; exact h.chunk_status
  · rw [hchunks, hsame.replicaPolicy]; exact h.chunk_replicas
  · rw [hsame.checksum]; exact h.checksum

def ContentsKept (c c' : Catalog) (f : FileID) (file' : FileMetadata) : Prop :=
  ∃ file, c.file f = some file ∧ SameContents file file' ∧
    ∀ k z, z.fileID = f → (c'.chunk k = some z ↔ c.chunk k = some z)

section Kept

variable {c c' : Catalog}

lemma SameContents.refl (x : FileMetadata) : SameContents x x := ⟨rfl, rfl, rfl, rfl, rfl⟩

lemma ContentsKept.of_eq (hfile : c'.file = c.file) (hchunk : c'.chunk = c.chunk)
    (h : c'.file f = some file') : ContentsKept c c' f file' :=
  ⟨file', hfile ▸ h, SameContents.refl file', fun _ _ _ => by rw [hchunk]⟩

lemma ContentsKept.trans (h : ContentsKept c c' f file)
    (h' : SameContents file file' ∧
      ∀ k z, z.fileID = f → (c''.chunk k = some z ↔ c'.chunk k = some z)) :
    ContentsKept c c'' f file' := by
  obtain ⟨file0, hfile0, ⟨h1, h2, h3, h4, h5⟩, hchunk⟩ := h
  obtain ⟨⟨k1, k2, k3, k4, k5⟩, hchunk'⟩ := h'
  exact ⟨file0, hfile0, ⟨k1.trans h1, k2.trans h2, k3.trans h3, k4.trans h4, k5.trans h5⟩,
    fun k z hz => (hchunk' k z hz).trans (hchunk k z hz)⟩

lemma sameContents_refile : SameContents file (refile oldPath newPath when file) := by
  simp only [refile]
  split <;> exact ⟨rfl, rfl, rfl, rfl, rfl⟩

lemma Relabelled.contentsKept (h : Relabelled c c' n x x') (hfile' : c'.file f = some file') :
    ContentsKept c c' f file' := by
  have hchunk : ∀ k z, z.fileID = f → (c'.chunk k = some z ↔ c.chunk k = some z) := by
    intro k z _
    rw [h.chunk]
  by_cases htype : x.type = .file
  · rw [h.file_of_file htype, Option.map_eq_some_iff] at hfile'
    obtain ⟨file, hfile, rfl⟩ := hfile'
    refine ⟨file, hfile, ?_, hchunk⟩
    split <;> exact ⟨rfl, rfl, rfl, rfl, rfl⟩
  · rw [h.file_of_directory htype, Option.map_eq_some_iff] at hfile'
    obtain ⟨file, hfile, rfl⟩ := hfile'
    exact ⟨file, hfile, sameContents_refile, hchunk⟩

structure NewFile (c : Catalog) (f : FileID) (file : FileMetadata) : Prop where
  pending : file.status = .pending
  storedSize : file.storedSize = 0
  chunkless : ∀ k z, c.chunk k = some z → z.fileID ≠ f

lemma NamespaceChange.contentsKept (hw : WellFormed c) (h : NamespaceChange ok c c')
    (hfile' : c'.file f = some file') : NewFile c' f file' ∨ ContentsKept c c' f file' := by
  cases h with
  | addDirectory | dropDirectory => exact .inr (.of_eq rfl rfl hfile')
  | addFile _ _ _ _ hnewf _ _ _ _ _ _ _ _ _ _ _ hpending _ hstored =>
    rcases update_some_eq_some.mp hfile' with ⟨rfl, rfl⟩ | ⟨_, hfile'⟩
    · refine .inl ⟨hpending, hstored, ?_⟩
      rintro k z hz rfl
      obtain ⟨file, hfile⟩ := hw.links.chunk_file k z hz
      rw [hnewf] at hfile
      cases hfile
    · exact .inr ⟨file', hfile', SameContents.refl file', fun _ _ _ => Iff.rfl⟩
  | rename _ _ _ _ h | move _ _ _ _ _ _ h => exact .inr (h.contentsKept hfile')
  | dropFile =>
    obtain ⟨hne, hfile'⟩ := update_none_eq_some.mp hfile'
    refine .inr ⟨file', hfile', SameContents.refl file', ?_⟩
    intro k z hz
    simp only [withoutFile, Option.filter_eq_some_iff, decide_eq_true_eq, and_iff_left_iff_imp]
    intro _
    rwa [hz]

lemma contentsKept_of_namespaceChanges (hw : WellFormed c)
    (h : Relation.ReflTransGen (NamespaceChange ok) c c') (hfile' : c'.file f = some file') :
    NewFile c' f file' ∨ ContentsKept c c' f file' := by
  induction h generalizing file' with
  | refl => exact .inr (.of_eq rfl rfl hfile')
  | tail hsteps hstep ih =>
    rcases hstep.contentsKept (hw.namespaceChanges hsteps) hfile' with
      hnew | ⟨file, hfile, hsame, hchunk⟩
    · exact .inl hnew
    · rcases ih hfile with hnew | hkept
      · refine .inl ⟨hsame.status.trans hnew.pending, hsame.storedSize.trans hnew.storedSize, ?_⟩
        intro k z hz hzf
        exact hnew.chunkless k z ((hchunk k z hzf).mp hz) hzf
      · exact .inr (hkept.trans ⟨hsame, hchunk⟩)

lemma contentsKept_withUpload (hg : ∀ z z', g z = some z' → z'.fileID = z.fileID) (hne : f ≠ f0)
    (hfile' : (withUpload c k f0 y' file0 g).file f = some file') :
    ContentsKept c (withUpload c k f0 y' file0 g) f file' := by
  rcases update_some_eq_some.mp hfile' with ⟨heq, _⟩ | ⟨_, hfile⟩
  · exact absurd heq hne
  refine ⟨file', hfile, SameContents.refl file', ?_⟩
  intro j z hz
  rw [chunk_withUpload]
  constructor
  · rintro ⟨w, hw, hwz⟩
    by_cases hwf : w.fileID = f0
    · rw [if_pos hwf] at hwz
      exact absurd ((hz.symm.trans (hg w z hwz)).trans hwf) hne
    · rw [if_neg hwf] at hwz
      cases hwz
      exact hw
  · intro hw
    exact ⟨z, hw, if_neg (by rw [hz]; exact hne)⟩

end Kept

lemma one_le_requiredReplicas (file : FileMetadata) :
    requiredReplicas file = max 1 file.replicaPolicy.minimumReplicaCount := by
  unfold requiredReplicas minimumReadableReplicaCount
  split <;> omega

lemma complete_of_verify {req : VerifyUploadRequest} {checksum : Checksum}
    (hs : ChunkTable (catalog s)) (hc : ChunkTable (catalog t))
    (hacc : VerifyAccepted s req y file checksum)
    (ht : catalog t = withUpload (catalog s) req.sessionID y.fileID
      (availableSession (requestTime now req.verifiedAt) req y)
      (availableFile (requestTime now req.verifiedAt) y
        (maxChunkEnd (chunksOfFile s y.fileID)) checksum file)
      (fun z => some (stampChunk .available "" (requestTime now req.verifiedAt) z))) :
    Complete t y.fileID (availableFile (requestTime now req.verifiedAt) y
      (maxChunkEnd (chunksOfFile s y.fileID)) checksum file) := by
  have hlist := chunksOfFile_withUpload hc (fun z => samePlace_stampChunk z) ht
  have hid : file.id = y.fileID := file_id hacc.uploads.stored
  obtain ⟨hne, hstored, hcovers⟩ := hacc.verifiable
  rw [hid] at hne hcovers
  have hready : checksumReady checksum = true := by
    have hsel := hacc.selected
    rcases (Option.orElse_eq_some _ _ _).mp hsel with h | ⟨_, h⟩
    all_goals exact (Option.filter_eq_some_iff.mp h).2
  constructor
  · rw [hlist]
    simpa using hne
  · rw [hlist]
    refine tiles_map (fun z => samePlace_stampChunk z) (tiles_of_covers ?_ hcovers)
    exact fun z hz => hs.place z.id z (mem_chunksOfFile.mp hz).1
  · exact hstored
  · rw [hlist, forall_mem_map]
    exact fun z hz => (hacc.servable z hz).1
  · rw [hlist, forall_mem_map]
    exact fun _ _ => rfl
  · rw [hlist, forall_mem_map]
    intro z hz
    have hcount := (hacc.servable z hz).2
    rw [one_le_requiredReplicas] at hcount
    exact hcount
  · exact hready

lemma contentsKept_of_closed (ht : catalog t = withUpload (catalog s) k f0 y' file0 g)
    (hg : ∀ z z', g z = some z' → z'.fileID = z.fileID) (hclosed : file0.status ≠ .available)
    (hfile' : (catalog t).file f = some file') (havail : file'.status = .available) :
    ContentsKept (catalog s) (catalog t) f file' := by
  rw [ht] at hfile' ⊢
  refine contentsKept_withUpload hg ?_ hfile'
  rintro rfl
  rcases update_some_eq_some.mp hfile' with ⟨_, rfl⟩ | ⟨hne, _⟩
  · exact hclosed havail
  · exact hne rfl

def KeepsOwner (s : MemoryState) (a : Action) : Prop :=
  ∀ now req y file, a = .call now (.commitChunk req) → CommitAccepted s req y file →
    ∀ z, (catalog s).chunk req.chunkID = some z → z.fileID = y.fileID

lemma contentsKept_of_commit (hacc : CommitAccepted s req y file)
    (ht : catalog t = { withUpload (catalog s) req.sessionID y.fileID y' file0 some with
      chunk := Function.update (catalog s).chunk req.chunkID
        (some (committedChunk when req y file replicas)) })
    (hkeep : KeepsOwner s (.call now (.commitChunk req))) (hne : f ≠ y.fileID)
    (hfile' : (catalog t).file f = some file') : ContentsKept (catalog s) (catalog t) f file' := by
  have hfile : (catalog s).file f = some file' := by
    rw [ht] at hfile'
    rcases update_some_eq_some.mp hfile' with ⟨heq, _⟩ | ⟨_, hfile⟩
    · exact absurd heq hne
    · exact hfile
  refine ⟨file', hfile, SameContents.refl file', ?_⟩
  intro k z hz
  rw [ht, update_some_eq_some]
  constructor
  · rintro (⟨_, rfl⟩ | ⟨_, hold⟩)
    · exact absurd hz.symm hne
    · exact hold
  · intro hold
    refine .inr ⟨?_, hold⟩
    rintro rfl
    exact hne (hz.symm.trans (hkeep _ _ _ _ rfl hacc z hold))

lemma Effect.available (h : Effect ok s t a) (hw : WellFormed (catalog s))
    (hs : ChunkTable (catalog s)) (hkeep : KeepsOwner s a)
    (hfile' : (catalog t).file f = some file') (havail : file'.status = .available) :
    ContentsKept (catalog s) (catalog t) f file' ∨ Complete t f file' := by
  have hc : ChunkTable (catalog t) := hs.effect h
  cases h with
  | same ht => exact .inl (.of_eq (by rw [ht]) (by rw [ht]) hfile')
  | namespaces ht =>
    rcases contentsKept_of_namespaceChanges hw ht hfile' with hnew | hkept
    · rw [hnew.pending] at havail
      cases havail
    · exact .inl hkept
  | nodes ht => exact .inl (.of_eq ht.file ht.chunk hfile')
  | upload h =>
    cases h with
    | start _ ht | fail _ ht =>
      refine .inl (contentsKept_of_closed ht ?_ ?_ hfile' havail)
      · rintro z z' ⟨⟩
        rfl
      · exact fun h => by cases h
    | commit hacc ht =>
      refine .inl (contentsKept_of_commit hacc ht hkeep ?_ hfile')
      rintro rfl
      rw [ht] at hfile'
      rcases update_some_eq_some.mp hfile' with ⟨_, rfl⟩ | ⟨hne, _⟩
      · cases havail
      · exact hne rfl
    | complete _ ht =>
      refine .inl (contentsKept_of_closed ht (fun _ _ => stampChunk_fileID) ?_ hfile' havail)
      exact fun h => by cases h
    | @verify now req y file checksum hacc ht =>
      by_cases hf : f = y.fileID
      · subst hf
        have hcomplete := complete_of_verify hs hc hacc ht
        rw [ht] at hfile'
        rcases update_some_eq_some.mp hfile' with ⟨_, rfl⟩ | ⟨hne, _⟩
        · exact .inr hcomplete
        · exact absurd rfl hne
      · rw [ht] at hfile' ⊢
        exact .inl (contentsKept_withUpload (fun _ _ => stampChunk_fileID) hf hfile')
    | retry _ ht =>
      refine .inl (contentsKept_of_closed ht (fun _ _ => reopenedChunk_fileID) ?_ hfile' havail)
      exact fun h => by cases h

lemma AvailableComplete.effect (h : AvailableComplete s) (he : Effect ok s t a)
    (hw : WellFormed (catalog s)) (hs : ChunkTable (catalog s)) (hkeep : KeepsOwner s a) :
    AvailableComplete t := by
  intro f file' hfile' havail
  rcases he.available hw hs hkeep hfile' havail with ⟨file, hfile, hsame, hchunk⟩ | hcomplete
  · have hcomplete := h f file hfile (hsame.status.symm.trans havail)
    exact hcomplete.of_same hsame (chunksOfFile_eq (hs.effect he) hchunk)
  · exact hcomplete

def committed (p : MemoryState × Action) : Option (ChunkID × FileID) :=
  match p.2 with
  | .call now (.commitChunk req) =>
    match commitChunk now req p.1 with
    | .ok _ _ => (p.1.uploadSessions.lookup req.sessionID).map fun y => (req.chunkID, y.fileID)
    | .error _ _ => none
  | _ => none

def OneFilePerChunk (history : List (MemoryState × Action)) : Prop :=
  ∀ x ∈ history.filterMap committed, ∀ y ∈ history.filterMap committed, x.1 = y.1 → x.2 = y.2

instance (history : List (MemoryState × Action)) : Decidable (OneFilePerChunk history) :=
  inferInstanceAs (Decidable (∀ x ∈ history.filterMap committed,
    ∀ y ∈ history.filterMap committed, x.1 = y.1 → x.2 = y.2))

lemma CommitAccepted.committed_eq (hw : WellFormed (catalog s)) (h : CommitAccepted s req y file) :
    committed (s, .call now (.commitChunk req)) = some (req.chunkID, y.fileID) := by
  have hreturns : Returns (commitChunk now req) s := h.returns hw
  obtain ⟨z, t, hyields⟩ := hreturns
  have hsession : s.uploadSessions.lookup req.sessionID = some y := h.uploads.session
  unfold Yields at hyields
  simp [committed, hyields, hsession]

def Owned (history : List (MemoryState × Action)) (s : MemoryState) : Prop :=
  ∀ k z, (catalog s).chunk k = some z → (k, z.fileID) ∈ history.filterMap committed

variable {history : List (MemoryState × Action)}

lemma committed_cons (p : MemoryState × Action) (h : x ∈ history.filterMap committed) :
    x ∈ (p :: history).filterMap committed :=
  ((sublist_cons_self p history).filterMap committed).subset h

lemma OneFilePerChunk.tail (h : OneFilePerChunk (p :: history)) : OneFilePerChunk history :=
  fun x hx y hy => h x (committed_cons p hx) y (committed_cons p hy)

lemma Owned.step (h : Owned history s) (hw : WellFormed (catalog s)) (he : Effect ok s t a) :
    Owned ((s, a) :: history) t := by
  intro k z' hz'
  rcases he.chunksFrom with hfrom | ⟨now, req, y, file, replicas, rfl, hacc, hchunk⟩
  · obtain ⟨z, hz, hplace⟩ := hfrom k z' hz'
    rw [hplace.fileID]
    exact committed_cons _ (h k z hz)
  · rw [hchunk, update_some_eq_some] at hz'
    rcases hz' with ⟨rfl, rfl⟩ | ⟨_, hz'⟩
    · rw [filterMap_cons_some (hacc.committed_eq hw)]
      exact mem_cons_self
    · exact committed_cons _ (h k z' hz')

lemma OneFilePerChunk.keepsOwner (h : OneFilePerChunk ((s, a) :: history))
    (hw : WellFormed (catalog s)) (hown : Owned history s) : KeepsOwner s a := by
  rintro now req y file rfl hacc z hz
  have hnew : (req.chunkID, y.fileID) ∈
      ((s, .call now (.commitChunk req)) :: history).filterMap committed := by
    rw [filterMap_cons_some (hacc.committed_eq hw)]
    exact mem_cons_self
  exact h _ (committed_cons _ (hown _ z hz)) _ hnew rfl

/-- Invariant rule for runs in which each chunk ID is committed for one file only. -/
theorem kept_of_oneFilePerChunk {I : MemoryState → Prop} (hrun : ServiceRun history s)
    (hone : OneFilePerChunk history) (hroot : ∀ now, I (rootState now))
    (hkeep : ∀ s a t, WellFormed (catalog s) → ChunkTable (catalog s) → KeepsOwner s a →
      Effect (fun _ => True) s t a → I s → I t) : I s := by
  have hboth : Owned history s ∧ (OneFilePerChunk history → I s) := by
    refine hrun.invariant_history
      (I := fun history s => Owned history s ∧ (OneFilePerChunk history → I s)) ?_ ?_
    · intro s hs
      obtain ⟨now, rfl⟩ := bootstrapped_iff.mp hs
      exact ⟨by rintro k z ⟨⟩, fun _ => hroot now⟩
    · rintro tr s a t hbefore ⟨hown, hs⟩ hstep
      have hw := wellFormed_of_run hbefore
      have he := effect_of_step hw hstep
      refine ⟨hown.step hw he, fun hone => ?_⟩
      exact hkeep s a t hw (chunkTable_of_run hbefore) (hone.keepsOwner hw hown) he (hs hone.tail)
  exact hboth.2 hone

theorem availableComplete_of_run (hrun : ServiceRun history s) (hone : OneFilePerChunk history) :
    AvailableComplete s := by
  refine kept_of_oneFilePerChunk hrun hone (by rintro now f file ⟨⟩) ?_
  intro s a t hw hc hkeeps he havail
  exact havail.effect he hw hc hkeeps

def verifiedUpload : List Call :=
  uploadedFile ++
    [.verifyUpload { sessionID := "u" }, .renameInode { inodeID := "i1", newName := "b" }]

theorem availableComplete_verifiedUpload :
    OneFilePerChunk (play 1 verifiedUpload).1 ∧ AvailableComplete (play 1 verifiedUpload).2 ∧
      ((catalog (play 1 verifiedUpload).2).file "f").map (·.status) = some .available :=
  ⟨by decide +kernel, availableComplete_of_run (serviceRun_play 1 verifiedUpload)
    (by decide +kernel), by decide +kernel⟩

end AstraStorage.Proofs
