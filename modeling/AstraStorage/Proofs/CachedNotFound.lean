import AstraStorage.Proofs.CacheRuns
import AstraStorage.Proofs.SilentChanges

/-!
# Entries for files that do not exist

`GetFile` and `BuildDownloadPlan` share the entry that says that a file does not exist, but a plan
is also not found if the file has no chunks yet.
-/

namespace AstraStorage.Proofs
open Store Service ReadCache

variable {f : FileID} {s : MemoryState} {faults : RedisFaults} {w : CacheWorld}

def NullSound (w : CacheWorld) : Prop :=
  ∀ f value, w.cache.lookup (nullFileKey f) = some value → (catalog w.store).file f = none

def AsksForChunks (w : CacheWorld) : CacheAction → Prop
  | .buildDownloadPlan f => (catalog w.store).file f = none ∨ chunksOfFile w.store f ≠ []
  | _ => True

instance (w : CacheWorld) (action : CacheAction) : Decidable (AsksForChunks w action) :=
  match action with
  | .buildDownloadPlan f =>
    inferInstanceAs (Decidable ((catalog w.store).file f = none ∨ chunksOfFile w.store f ≠ []))
  | .getFile _ => .isTrue trivial
  | .listChildren .. => .isTrue trivial
  | .call .. => .isTrue trivial
  | .coordinator _ => .isTrue trivial
  | .reorder => .isTrue trivial

section Keys

lemma nullFileKey_injective (h : nullFileKey f = nullFileKey f') : f = f' :=
  (String.append_right_inj _).mp h

lemma nullFileKey_ne_fileMetaKey (f f' : FileID) : nullFileKey f ≠ fileMetaKey f' := by
  refine ne_of_family ?_
  rw [family_nullFileKey, family_fileMetaKey]
  decide +kernel

lemma nullFileKey_ne_downloadPlanKey (f f' : FileID) : nullFileKey f ≠ downloadPlanKey f' := by
  refine ne_of_family ?_
  rw [family_nullFileKey, family_downloadPlanKey]
  decide +kernel

lemma nullFileKey_ne_directoryListKey (f : FileID) (d : InodeID) (offset limit : Int) :
    nullFileKey f ≠ directoryListKey d offset limit := by
  refine ne_of_family ?_
  rw [family_nullFileKey, family_directoryListKey]
  decide +kernel

lemma nullFileKey_ne_versionKey (f : FileID) (d : InodeID) :
    nullFileKey f ≠ directoryListVersionKey d :=
  versionKey_ne_file f d _ (by simp)

end Keys

section Reads

lemma NullSound.remove (h : NullSound w) (keys : List String) : NullSound (w.remove keys) := by
  intro f value hvalue
  rw [lookup_remove] at hvalue
  split at hvalue
  · cases hvalue
  · exact h f value hvalue

lemma NullSound.put (h : NullSound w) (hkey : ∀ f, nullFileKey f ≠ key) (value : CacheValue) :
    NullSound (w.put key value) := by
  intro f value' hvalue
  rw [lookup_cachePut, if_neg (hkey f)] at hvalue
  exact h f value' hvalue

lemma NullSound.putNull (h : NullSound w) (hf : (catalog w.store).file f = none)
    (value : CacheValue) : NullSound (w.put (nullFileKey f) value) := by
  intro g value' hvalue
  rw [lookup_cachePut] at hvalue
  split at hvalue
  · rename_i hkey
    obtain rfl := nullFileKey_injective hkey
    exact hf
  · exact h g value' hvalue

lemma readThrough_nullSound (faults : RedisFaults) (w : CacheWorld) {α : Type}
    (encode : α → CacheValue) {x : CacheM α} {a : Except Fault α} {nullKey : String} (hloads : ∀ t, SameStore w t →
      CacheEnds faults t x fun r t' => r = a.mapError .store ∧ t' = t)
    (hkey : ∀ f, nullFileKey f ≠ key)
    (hnull : ∀ fault, a = .error fault → nullKey ≠ "" →
      ∃ f, nullKey = nullFileKey f ∧ (catalog w.store).file f = none) :
    ReadThrough faults (fun t => SameStore w t ∧ NullSound t) key nullKey (encode <$> x)
      (loadResult encode a) where
  loads t ht := ends_loader (hloads t ht.1)
  locks t locks ht := ⟨⟨ht.1.store, ht.1.commits⟩, ht.2⟩
  expire t key' _ ht := ⟨⟨ht.1.store, ht.1.commits⟩, ht.2.remove _⟩
  removeNull t ht _ := ⟨⟨ht.1.store, ht.1.commits⟩, ht.2.remove _⟩
  put t payload ht _ := ⟨⟨ht.1.store, ht.1.commits⟩, ht.2.put hkey payload⟩
  putNull t e ht he _ hne := by
    obtain ⟨fault, hfault, -⟩ := loadResult_error he
    obtain ⟨f, rfl, hf⟩ := hnull fault hfault hne
    refine ⟨⟨ht.1.store, ht.1.commits⟩, ht.2.putNull ?_ _⟩
    rw [ht.1.store]
    exact hf

lemma file_eq_none_of_answer (hf : f ≠ "")
    (h : answer (Store.getFile { id := f }) s = .error fault) : (catalog s).file f = none := by
  cases hfile : (catalog s).file f with
  | none => rfl
  | some file => exact (answer_ne_error ((yields_getFile hf).mpr ⟨hfile, rfl⟩) h).elim

section

variable (hfaults : NeverFails faults) (hw : NullSound w)
include hfaults hw

lemma ends_getFile (hf : f ≠ "") : CacheEnds faults w (ReadCache.getFile f) fun r w' =>
      (SameStore w w' ∧ NullSound w') ∧
        ∀ e, r = .error e → e.isNotFound = true → (catalog w.store).file f = none := by
  have hread := readThrough_nullSound faults w CacheValue.file
    (fun _ => ends_storeGetFile { id := f }) (nullFileKey_ne_fileMetaKey · f)
    fun _ hanswer _ => ⟨f, rfl, file_eq_none_of_answer hf hanswer⟩
  refine (ends_readFileModel hread hfaults ⟨.refl w, hw⟩).mono ?_
  rintro r w' ⟨hw', hr⟩
  refine ⟨hw', ?_⟩
  rintro e rfl he
  rcases hr with hr | ⟨-, t, value, ht, hvalue⟩
  · cases hr with
    | failed hload =>
      obtain ⟨fault, hanswer, -⟩ := loadResult_error hload
      exact file_eq_none_of_answer hf hanswer
    | undecodable => cases he
  · rw [← ht.1.store]
    exact ht.2 f value hvalue

lemma ends_getDownloadPlan_nullSound (hf : f ≠ "")
    (hfind : AsksForChunks w (.buildDownloadPlan f)) :
    CacheEnds faults w (getDownloadPlan f) fun _ w' =>
      SameStore w w' ∧ NullSound w' := by
  have hnone (fault : Fault) (hanswer : answer (Service.buildDownloadPlan f) w.store = .error fault) :
      (catalog w.store).file f = none := by
    cases hfile : (catalog w.store).file f with
    | none => rfl
    | some file =>
      have hchunks : chunksOfFile w.store f ≠ [] :=
        hfind.resolve_left fun hnone => by rw [hnone] at hfile; cases hfile
      have hplan := (yields_buildDownloadPlan hf).mpr ⟨file, hfile, hchunks, rfl, rfl⟩
      exact (answer_ne_error hplan hanswer).elim
  have hread := readThrough_nullSound faults w CacheValue.plan
    (fun _ => ends_storeBuildDownloadPlan f) (nullFileKey_ne_downloadPlanKey · f)
    fun fault hanswer _ => ⟨f, rfl, hnone fault hanswer⟩
  exact (ends_readFileModel hread hfaults ⟨.refl w, hw⟩).mono fun r w' hr => hr.1

lemma ends_getChildren_nullSound (d : InodeID) (opts : ListOptions) :
    CacheEnds faults w (getChildren d opts) fun _ w' =>
      SameStore w w' ∧ NullSound w' := by
  have hversion : CacheReturns faults w (directoryListVersion d) fun _ w' =>
      (SameStore w w' ∧ NullSound w') ∧ True :=
    returns_directoryListVersion hfaults (fun _ _ => ⟨⟨.refl w, hw⟩, trivial⟩)
      (fun _ => ⟨⟨.refl w, hw⟩, trivial⟩) (fun _ => ⟨⟨⟨rfl, rfl⟩, hw.remove _⟩, trivial⟩)
      (fun _ _ _ _ => ⟨⟨.refl w, hw⟩, trivial⟩)
  have hread (version : String) (_ : True) :=
    readThrough_nullSound faults w CacheValue.children
      (fun _ => ends_loadChildren d opts)
      (nullFileKey_ne_directoryListKey · (d ++ ":v" ++ version) opts.offset opts.limit)
      fun e _ hne => absurd rfl hne
  exact (ends_getChildren hfaults hversion hread).mono fun r w' hr => hr.1

end

end Reads

section Mutations

def NullSoundBut (s : MemoryState) (pending : List Invalidation) (w : CacheWorld) : Prop :=
  w.store = s ∧ ∀ f value, w.cache.lookup (nullFileKey f) = some value →
    (catalog s).file f = none ∨ .file f ∈ pending

lemma ends_invalidation (hfaults : NeverFails faults) (hs : Regular s) (invalidation : Invalidation)
    (rest : List Invalidation) (w : CacheWorld) (hw : NullSoundBut s (invalidation :: rest) w) :
    CacheEnds faults w invalidation.run fun _ w' => NullSoundBut s rest w' := by
  cases invalidation with
  | file g =>
    refine ends_invalidateFile hfaults (fun hg => ?_) fun hg => ?_
    · refine ⟨hw.1, fun f value hvalue => ?_⟩
      rcases hw.2 f value hvalue with hnone | hmem
      · exact .inl hnone
      · rcases List.mem_cons.mp hmem with heq | hmem
        · cases heq
          rw [hg]
          exact .inl hs.wellFormed.links.no_empty_file
        · exact .inr hmem
    · refine ⟨hw.1, fun f value hvalue => ?_⟩
      rw [lookup_remove] at hvalue
      split at hvalue
      · cases hvalue
      · rename_i hkept
        refine (hw.2 f value hvalue).imp_right fun hmem => ?_
        rcases List.mem_cons.mp hmem with heq | hmem
        · cases heq
          exact absurd (by simp) hkept
        · exact hmem
  | directory d =>
    have hother {w' : CacheWorld} (hstore : w'.store = w.store)
        (hlookup : ∀ f, w'.cache.lookup (nullFileKey f) = w.cache.lookup (nullFileKey f)) :
        NullSoundBut s rest w' := by
      refine ⟨hstore.trans hw.1, fun f value hvalue => ?_⟩
      rw [hlookup] at hvalue
      refine (hw.2 f value hvalue).imp_right fun hmem => ?_
      rcases List.mem_cons.mp hmem with heq | hmem
      · cases heq
      · exact hmem
    refine ends_invalidateDirectory hfaults (fun _ => hother rfl fun _ => rfl) fun w' hw' => ?_
    obtain ⟨-, -, hstore, -, hlookup⟩ := increment_cases hw'
    exact hother hstore fun f => hlookup _ (nullFileKey_ne_versionKey f d)

lemma ends_serviceCall (hfaults : NeverFails faults) (hs : Regular w.store) (hw : NullSound w)
    (now : Time) (call : Call) :
    CacheEnds faults w (serviceCall now call) fun _ w' =>
      NullSoundBut (call.exec now w.store) [] w' := by
  refine ends_mutate ?_ (ends_invalidation hfaults (hs.exec now call))
  refine ⟨rfl, fun f value hvalue => ?_⟩
  have hnone := hw f value hvalue
  rcases exec_cases now call w.store with hsame | hyields
  · rw [hsame]
    exact .inl hnone
  · rcases call_keepsFile hs.wellFormed hyields f with hkept | hpending | hsilent
    · exact .inl (hkept.trans hnone)
    · exact .inr hpending
    · obtain ⟨file, hfile⟩ := stored_of_silentFiles hsilent
      rw [hnone] at hfile
      cases hfile

end Mutations

section Runs

variable {w' : CacheWorld} {history : List (CacheWorld × CacheAction)}

lemma ends_serviceGetFile (hfaults : NeverFails faults) (hs : Regular w.store) (hw : NullSound w)
    (f : FileID) :
    CacheEnds faults w (serviceGetFile f) fun r w' =>
      (SameStore w w' ∧ NullSound w') ∧
        ∀ e, r = .error e → e.isNotFound = true → (catalog w.store).file f = none := by
  by_cases hf : f = ""
  · rw [serviceGetFile, if_neg (not_not.mpr hf)]
    refine (ends_storeGetFile _ (.refl w)).mono ?_
    rintro r w' ⟨-, rfl⟩
    refine ⟨⟨.refl _, hw⟩, fun e _ _ => ?_⟩
    rw [hf]
    exact hs.wellFormed.links.no_empty_file
  · rw [serviceGetFile, if_pos hf]
    exact ends_getFile hfaults hw hf

lemma acts_nullSound (hfaults : NeverFails faults) (hs : Regular w.store) (hw : NullSound w)
    (hasks : AsksForChunks w action) (h : CacheActs faults w action w') :
    Regular w'.store ∧ NullSound w' := by
  have hread (h : SameStore w w' ∧ NullSound w') : Regular w'.store ∧ NullSound w' :=
    ⟨h.1.store ▸ hs, h.2⟩
  cases h with
  | @getFile _ f r h => exact hread ((ends_serviceGetFile hfaults hs hw f).of_runs h).1
  | @buildDownloadPlan _ f r h =>
    refine hread ?_
    by_cases hf : f = ""
    · rw [serviceBuildDownloadPlan, if_neg (not_not.mpr hf)] at h
      obtain ⟨-, rfl⟩ := (ends_storeBuildDownloadPlan f (.refl w)).of_runs h
      exact ⟨.refl _, hw⟩
    · rw [serviceBuildDownloadPlan, if_pos hf] at h
      exact (ends_getDownloadPlan_nullSound hfaults hw hf hasks).of_runs h
  | @listChildren _ d opts recursive r h =>
    refine hread ?_
    unfold serviceListChildren at h
    split at h
    · exact (ends_getChildren_nullSound hfaults hw d opts).of_runs h
    · obtain ⟨-, rfl⟩ := (ends_loadChildren d opts (.refl w)).of_runs h
      exact ⟨.refl _, hw⟩
  | @call _ now call r h =>
    obtain ⟨hstore, hsound⟩ := (ends_serviceCall hfaults hs hw now call).of_runs h
    rw [NullSound, hstore]
    exact ⟨hs.exec now call, fun f value hvalue => (hsound f value hvalue).resolve_right (by simp)⟩
  | @coordinator write s h =>
    have hrewritten := write_rewrites h
    refine ⟨hs.rewritten hrewritten, fun f value hvalue => ?_⟩
    rw [hrewritten.file]
    exact hw f value hvalue
  | @reorder s h =>
    have hcatalog := sameRecords_iff.mp h
    refine ⟨hs.congr hcatalog, fun f value hvalue => ?_⟩
    rw [hcatalog]
    exact hw f value hvalue

/-- In every run in which no download plan is asked for a file without chunks, `GetFile` does not
find a file only if the repository has no such file. -/
theorem notFound_of_serviceGetFile (hfaults : NeverFails faults) (hrun : CacheRun faults history w)
    (hasks : ∀ e ∈ history, AsksForChunks e.1 e.2) {f : FileID} {e : CacheError}
    (h : (serviceGetFile f).run.Runs (cacheSemantics faults) w (.error e) w')
    (he : e.isNotFound = true) : (catalog w.store).file f = none := by
  have hinv : Regular w.store ∧ NullSound w := by
    refine hrun.invariant_of (I := fun w => Regular w.store ∧ NullSound w) hasks ?_ ?_
    · rintro w ⟨hs, hcache⟩
      obtain ⟨now, hnow⟩ := bootstrapped_iff.mp hs
      rw [NullSound, hnow, hcache]
      refine ⟨regular_rootState now, fun f value hvalue => ?_⟩
      cases hvalue
    · rintro w action w' ⟨hs, hw⟩ hC hstep
      exact acts_nullSound hfaults hs hw hC hstep
  exact ((ends_serviceGetFile hfaults hinv.1 hinv.2 f).of_runs h).2 e rfl he

end Runs

def missesFile (actions : List CacheAction) (f : FileID) (stored : Bool) : Bool :=
  (playActions 1 actions).any fun p =>
    match undisturbed (serviceGetFile f) p.2 with
    | some (.error e, _) => e.isNotFound && ((catalog p.2.store).file f).isSome == stored
    | _ => false

lemma missesFile_cases (h : missesFile actions f stored = true) :
    ∃ history w e w', playActions 1 actions = some (history, w) ∧
      undisturbed (serviceGetFile f) w = some (.error e, w') ∧ e.isNotFound = true ∧
      ((catalog w.store).file f).isSome = stored := by
  obtain ⟨⟨history, w⟩, hplay, hcheck⟩ := (Option.any_eq_true ..).mp h
  split at hcheck
  · rename_i e w' hrun
    rw [Bool.and_eq_true, beq_iff_eq] at hcheck
    exact ⟨history, w, e, w', hplay, hrun, hcheck⟩
  · cases hcheck

/-- The plan of a missing file is asked for, and then the file. -/
theorem missingFile_notFound : ∃ history w e w', CacheRun {} history w ∧
    (serviceGetFile "f").run.Runs (cacheSemantics {}) w (.error e) w' ∧ e.isNotFound = true ∧
      (catalog w.store).file "f" = none := by
  have heval : missesFile [.buildDownloadPlan "f"] "f" false = true := by decide +kernel
  obtain ⟨history, w, e, w', hplay, hget, he, -⟩ := missesFile_cases heval
  have hrun : CacheRun {} history w := (cacheRun_of_playActions hplay).1
  have hasks : ∀ e ∈ history, AsksForChunks e.1 e.2 := by
    have hall : (playActions 1 [.buildDownloadPlan "f"]).all
        (fun p => p.1.all fun e => decide (AsksForChunks e.1 e.2)) = true := by decide +kernel
    rw [hplay] at hall
    simpa using hall
  have hgets : (serviceGetFile "f").run.Runs (cacheSemantics {}) w (.error e) w' :=
    runs_of_undisturbed hget
  have hfaults : NeverFails {} := fun hfails => hfails
  exact ⟨history, w, e, w', hrun, hgets, he,
    notFound_of_serviceGetFile hfaults hrun hasks hgets he⟩

/-- A file is created, its plan is asked for, and then the file itself is not found. -/
theorem createdFile_notFound : ∃ history w e w' file, CacheRun {} history w ∧
    (serviceGetFile "f").run.Runs (cacheSemantics {}) w (.error e) w' ∧ e.isNotFound = true ∧
      (catalog w.store).file "f" = some file := by
  have heval : missesFile [.buildDownloadPlan "f", .call 1 (.createFile
      { inodeID := "i1", fileID := "f", parentID := rootInodeID, name := "a", size := 4 })] "f"
      true = true := by
    decide +kernel
  obtain ⟨history, w, e, w', hplay, hget, he, hstored⟩ := missesFile_cases heval
  obtain ⟨file, hfile⟩ := Option.isSome_iff_exists.mp hstored
  exact ⟨history, w, e, w', file, (cacheRun_of_playActions hplay).1, runs_of_undisturbed hget, he, hfile⟩

end AstraStorage.Proofs
