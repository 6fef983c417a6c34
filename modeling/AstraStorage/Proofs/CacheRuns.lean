import AstraStorage.Proofs.Chunks
import AstraStorage.Proofs.CacheKeys
import AstraStorage.Proofs.PlanWrites

/-!
# Sequences of cached reads and mutations

Reads through the cache, calls on the service and writes of the coordinator, one after the other.
What a read through the cache returns and keeps is proved here once.
-/

namespace AstraStorage.Proofs
open Lib Lib.Prog Store Service Coordinator ReadCache

variable {key : String} {faults : RedisFaults} {Q : Except CacheError Unit → CacheWorld → Prop}
  {α : Type} {s : MemoryState} {w : CacheWorld}

inductive CacheAction where
  | getFile (fileID : FileID)
  | buildDownloadPlan (fileID : FileID)
  | listChildren (parentID : InodeID) (opts : ListOptions) (recursive : Bool)
  | call (now : Time) (call : Call)
  | coordinator (write : Write)
  | reorder

inductive CacheActs (faults : RedisFaults) : CacheWorld → CacheAction → CacheWorld → Prop
  | getFile {w w' fileID r} (h : (serviceGetFile fileID).run.Runs (cacheSemantics faults) w r w') :
      CacheActs faults w (.getFile fileID) w'
  | buildDownloadPlan {w w' fileID r}
      (h : (serviceBuildDownloadPlan fileID).run.Runs (cacheSemantics faults) w r w') :
      CacheActs faults w (.buildDownloadPlan fileID) w'
  | listChildren {w w' parentID opts recursive r}
      (h : (serviceListChildren parentID opts recursive).run.Runs (cacheSemantics faults) w r w') :
      CacheActs faults w (.listChildren parentID opts recursive) w'
  | call {w w' now call r} (h : (serviceCall now call).run.Runs (cacheSemantics faults) w r w') :
      CacheActs faults w (.call now call) w'
  | coordinator {w write s} (h : Yields write.run w.store () s) :
      CacheActs faults w (.coordinator write) { w with store := s }
  | reorder {w : CacheWorld} {s : MemoryState} (h : SameRecords w.store s) :
      CacheActs faults w .reorder { w with store := s }

abbrev CacheRun (faults : RedisFaults) (history : List (CacheWorld × CacheAction))
    (w : CacheWorld) : Prop :=
  Run (fun w => Bootstrapped w.store ∧ w.cache = ∅) (CacheActs faults) history w

def NeverFails (faults : RedisFaults) : Prop := ¬faults.mayFail

abbrev CacheEnds (faults : RedisFaults) (w : CacheWorld) (x : CacheM α)
    (Q : Except CacheError α → CacheWorld → Prop) : Prop :=
  Ends (cacheSemantics faults) w x Q

abbrev CacheReturns (faults : RedisFaults) (w : CacheWorld) (x : CacheM α)
    (Q : α → CacheWorld → Prop) : Prop :=
  Ensures (cacheSemantics faults) w x Q fun _ => False

lemma CacheReturns.bind {β : Type} {f : α → CacheM β} {Q : Except CacheError β → CacheWorld → Prop}
    (h : CacheReturns faults w x R) (hf : ∀ a w', R a w' → CacheEnds faults w' (f a) Q) :
    CacheEnds faults w (x >>= f) Q :=
  Ends.bind h hf fun _ _ hfalse => hfalse.elim

section Steps

section

variable (hfaults : NeverFails faults)
include hfaults

lemma returns_set : CacheReturns faults w (set key value) fun _ w' => w' = w.put key value := by
  rintro r w' h
  cases h with
  | perform => exact rfl
  | failedSet h => exact absurd h hfaults

lemma returns_del : CacheReturns faults w (del keys) fun _ w' => w' = w.remove keys := by
  rintro r w' h
  cases h with
  | perform => exact rfl
  | failedDel h => exact absurd h hfaults

lemma returns_newOwnerToken :
    CacheReturns faults w (fallible (step .newOwnerToken) .redis) fun _ w' => w' = w := by
  rintro r w' hstep
  cases hstep with
  | perform | token => exact rfl
  | failedToken hfail => exact absurd hfail hfaults

lemma returns_setNX : CacheReturns faults w (fallible (step (.setNX key ownerToken)) .redis)
    fun _ w' => ∃ locks, w' = { w with locks := locks } := by
  rintro r w' hstep
  cases hstep with
  | perform =>
    simp only [CacheWorld.perform]
    cases w.locks.lookup key with
    | none => exact ⟨_, rfl⟩
    | some token => exact ⟨w.locks, rfl⟩
  | expiredLock _ => exact ⟨_, rfl⟩
  | failedSetNX hfail => exact absurd hfail hfaults

end

lemma returns_release : CacheReturns faults w (step (.compareDelete key ownerToken))
    fun _ w' => ∃ locks, w' = { w with locks := locks } :=
  fun _ _ hstep => locks_of_compareDelete hstep

lemma returns_directoryListVersion {Q : String → CacheWorld → Prop} (hfaults : NeverFails faults)
    (hnumber : ∀ n, w.cache.lookup (directoryListVersionKey d) = some (.number n) →
      Q (toString n) w)
    (hnone : w.cache.lookup (directoryListVersionKey d) = none → Q "0" w)
    (hlost : faults.mayExpire (directoryListVersionKey d) →
      Q "0" (w.remove [directoryListVersionKey d]))
    (hpayload : ∀ value text, w.cache.lookup (directoryListVersionKey d) = some value →
      (∀ n, value ≠ .number n) → Q text w) :
    CacheReturns faults w (directoryListVersion d) Q := by
  rintro r w' h
  cases h with
  | perform =>
    simp only [CacheWorld.perform]
    cases hlookup : w.cache.lookup (directoryListVersionKey d) with
    | none => exact hnone hlookup
    | some value =>
      cases value with
      | number n => exact hnumber n hlookup
      | _ => exact hpayload _ "" hlookup (fun n hn => by cases hn)
  | expiredText hexpire => exact hlost hexpire
  | payloadText hlookup hvalue => exact hpayload _ _ hlookup hvalue
  | failedGetText hfail => exact absurd hfail hfaults

lemma ends_invalidateDirectory {Q : CacheWorld → Prop} (hfaults : NeverFails faults)
    (hskip : d = "" ∨ w.increment (directoryListVersionKey d) = none → Q w)
    (hincr : ∀ w', w.increment (directoryListVersionKey d) = some w' → Q w') :
    CacheEnds faults w (invalidateDirectory d) fun _ w' => Q w' := by
  refine ends_ite (fun hd => ends_pure (hskip (.inl hd))) fun hd => ?_
  rintro r w' h
  cases h with
  | perform =>
    simp only [CacheWorld.perform]
    cases hincrement : w.increment (directoryListVersionKey d) with
    | none => exact hskip (.inr hincrement)
    | some w' => exact hincr w' hincrement
  | failedIncr hfail => exact absurd hfail hfaults

lemma ends_invalidateFile {Q : CacheWorld → Prop} (hfaults : NeverFails faults)
    (hskip : f = "" → Q w)
    (hdel : f ≠ "" → Q (w.remove [fileMetaKey f, downloadPlanKey f, nullFileKey f])) :
    CacheEnds faults w (invalidateFile f) fun _ w' => Q w' := by
  refine ends_ite (fun hf => ends_pure (hskip hf)) fun hf => ?_
  refine Ends.mono (returns_del hfaults) ?_
  rintro (e | _) w' hw'
  · exact hw'.elim
  · exact Eq.subst (Eq.symm hw') (hdel hf)

end Steps

structure ReadThrough (faults : RedisFaults) (I : CacheWorld → Prop) (key nullKey : String)
    (loader : CacheM CacheValue) (load : Except CacheError CacheValue) : Prop where
  loads : ∀ w, I w → CacheEnds faults w loader fun r w' => r = load ∧ w' = w
  locks : ∀ w locks, I w → I { w with locks := locks }
  expire : ∀ w key', faults.mayExpire key' → I w → I (w.remove [key'])
  removeNull : ∀ w, I w → nullKey ≠ "" → I (w.remove [nullKey])
  put : ∀ w payload, I w → load = .ok payload → I (w.put key payload)
  putNull : ∀ w e, I w → load = .error e → e.isNotFound = true → nullKey ≠ "" →
    I (w.put nullKey (.number 1))

def ReadResult (I : CacheWorld → Prop) (key : String) (load : Except CacheError CacheValue)
    (r : Except CacheError CacheValue) (w' : CacheWorld) : Prop :=
  I w' ∧ (r = load ∨ ∃ payload w, r = .ok payload ∧ I w ∧ w.cache.lookup key = some payload)

inductive CachedRead {α : Type} (decode : CacheValue → Option α) (I : CacheWorld → Prop)
    (key : String) (load : Except CacheError CacheValue) : Except CacheError α → Prop
  | cached {w payload a} (hw : I w)
      (hpayload : w.cache.lookup key = some payload) (hdecode : decode payload = some a) :
      CachedRead decode I key load (.ok a)
  | loaded {payload a} (hload : load = .ok payload)
      (hdecode : decode payload = some a) : CachedRead decode I key load (.ok a)
  | failed {e} (hload : load = .error e) : CachedRead decode I key load (.error e)
  | undecodable : CachedRead decode I key load (.error .decode)

section Reads

variable {I : CacheWorld → Prop} {nullKey : String} {loader : CacheM CacheValue}
  {load : Except CacheError CacheValue} {decode : CacheValue → Option α}

namespace ReadThrough

variable (h : ReadThrough faults I key nullKey loader load) (hfaults : NeverFails faults)
include h hfaults

lemma returns_get (hw : I w) (sought : String) :
    CacheReturns faults w (get sought) fun found w' => I w' ∧
      ∀ payload, found = some payload → w.cache.lookup sought = some payload := by
  rintro r w' hstep
  cases hstep with
  | perform => exact ⟨hw, fun _ hpayload => hpayload⟩
  | expired hexpire => exact ⟨h.expire w _ hexpire hw, fun _ hpayload => by cases hpayload⟩
  | failedGet hfail => exact absurd hfail hfaults

lemma ends_pollThenLoad (attempts : Nat) (hw : I w) :
    CacheEnds faults w (pollThenLoad key loader attempts) (ReadResult I key load) := by
  induction attempts generalizing w with
  | zero =>
    refine (h.loads w hw).mono ?_
    rintro r w' ⟨hr, rfl⟩
    exact ⟨hw, .inl hr⟩
  | succ attempts ih =>
    refine (h.returns_get hfaults hw key).bind ?_
    rintro (_ | payload) w' ⟨hw', hpayload⟩
    · exact ih hw'
    · exact ends_pure ⟨hw', .inr ⟨payload, w, rfl, hw, hpayload payload rfl⟩⟩

lemma ends_loadAndStore (hw : I w) :
    CacheEnds faults w (loadAndStore key nullKey loader) fun r w' => I w' ∧ r = load := by
  have hload : CacheReturns faults w (attempt loader) fun r w' => r = load ∧ w' = w :=
    (h.loads w hw).attempt fun _ _ hr => hr
  refine hload.bind ?_
  rintro loaded _ ⟨rfl, rfl⟩
  cases loaded with
  | error err =>
    refine ends_ite (fun hnull => (returns_set hfaults).bind ?_) fun _ => ends_throw ⟨hw, rfl⟩
    rintro _ _ rfl
    rw [Bool.and_eq_true, decide_eq_true_eq] at hnull
    exact ends_throw ⟨h.putNull _ err hw rfl hnull.1 hnull.2, rfl⟩
  | ok payload =>
    refine (returns_set hfaults).bind ?_
    rintro _ _ rfl
    have hput := h.put _ payload hw rfl
    refine ends_ite (fun hnull => (returns_del hfaults).bind ?_) fun _ => ends_pure ⟨hput, rfl⟩
    rintro _ _ rfl
    exact ends_pure ⟨h.removeNull _ hput hnull, rfl⟩

theorem ends_readThroughWithLock (hw : I w) :
    CacheEnds faults w (readThroughWithLock lockKey key nullKey loader)
      (ReadResult I key load) := by
  refine (returns_newOwnerToken hfaults).bind ?_
  rintro token _ rfl
  refine (returns_setNX hfaults).bind ?_
  rintro acquired _ ⟨locks, rfl⟩
  have hw1 := h.locks _ locks hw
  cases acquired with
  | false => exact h.ends_pollThenLoad hfaults 3 hw1
  | true =>
    have hload : CacheReturns faults _ (attempt (loadAndStore key nullKey loader))
        fun r w' => I w' ∧ r = load :=
      (h.ends_loadAndStore hfaults hw1).attempt fun _ _ hr => hr
    refine hload.bind ?_
    rintro loaded w2 ⟨hw2, rfl⟩
    refine returns_release.bind ?_
    rintro _ _ ⟨locks, rfl⟩
    have hw3 := h.locks w2 locks hw2
    cases loaded with
    | ok payload => exact ends_pure ⟨hw3, .inl rfl⟩
    | error err => exact ends_throw ⟨hw3, .inl rfl⟩

lemma ends_decoded (hw : I w) :
    CacheEnds faults w (readThroughWithLock lockKey key nullKey loader >>= decodePayload decode)
      fun r w' => I w' ∧ CachedRead decode I key load r := by
  refine (h.ends_readThroughWithLock hfaults hw).bind ?_ ?_
  · rintro payload w' ⟨hw', hpayload⟩
    unfold decodePayload
    cases hdecode : decode payload with
    | none => exact ends_throw ⟨hw', .undecodable⟩
    | some a =>
      rcases hpayload with hload | ⟨_, w0, ⟨⟩, hw0, hpayload⟩
      · exact ends_pure ⟨hw', .loaded hload.symm hdecode⟩
      · exact ends_pure ⟨hw', .cached hw0 hpayload hdecode⟩
  · rintro e w' ⟨hw', hload | ⟨_, _, hbad, -⟩⟩
    · exact ⟨hw', .failed hload.symm⟩
    · cases hbad

lemma ends_cachedOr {Q : Except CacheError α → CacheWorld → Prop}
    (hw : I w) (hread : ∀ r w', I w' → CachedRead decode I key load r → Q r w')
    (hfound : ∀ a, next (some a) = pure a)
    (habsent : ∀ w', I w' → CacheEnds faults w' (next none) Q) :
    CacheEnds faults w (loadJSON decode key >>= next) Q := by
  rw [loadJSON, bind_assoc]
  refine (h.returns_get hfaults hw key).bind ?_
  rintro (_ | payload) w' ⟨hw', hpayload⟩
  · exact habsent w' hw'
  · cases hdecode : decode payload with
    | none =>
      simp only [hdecode]
      exact ends_throw (hread _ _ hw' .undecodable)
    | some a =>
      simp only [hdecode, pure_bind, hfound]
      exact ends_pure (hread _ _ hw' (.cached hw (hpayload payload rfl) hdecode))

end ReadThrough

/-- A read of a file may also find the entry for a file that does not exist. -/
theorem ends_readFileModel (h : ReadThrough faults I key (nullFileKey fileID) loader load)
    (hfaults : NeverFails faults)
    (hw : I w) :
    CacheEnds faults w (readFileModel decode key lockKey fileID loader)
      fun r w' => I w' ∧ (CachedRead decode I key load r ∨ r = .error (fileNotFound fileID) ∧
        ∃ w0 value, I w0 ∧ w0.cache.lookup (nullFileKey fileID) = some value) := by
  refine h.ends_cachedOr hfaults hw (fun r w' hw' hread => ⟨hw', .inl hread⟩) (fun _ => rfl)
    fun w1 hw1 => ?_
  rw [checkNull, bind_assoc]
  refine (h.returns_get hfaults hw1 (nullFileKey fileID)).bind ?_
  rintro (_ | value) w2 ⟨hw2, hmarked⟩
  · exact (h.ends_decoded hfaults hw2).mono fun r w' hr => ⟨hr.1, .inl hr.2⟩
  · exact ends_throw ⟨hw2, .inr ⟨rfl, w1, value, hw1, hmarked value rfl⟩⟩

/-- A listing is read at the version that its reader finds. -/
theorem ends_getChildren {opts : ListOptions} {P : String → Prop} (hfaults : NeverFails faults)
    (hversion : CacheReturns faults w (directoryListVersion parentID)
      fun version w' => I w' ∧ P version)
    (h : ∀ version, P version → ReadThrough faults I
      (directoryListKey (parentID ++ ":v" ++ version) opts.offset opts.limit) ""
      (CacheValue.children <$> loadChildren parentID opts) load) :
    CacheEnds faults w (getChildren parentID opts) fun r w' => I w' ∧
      ∃ version, P version ∧ CachedRead CacheValue.asChildren I
        (directoryListKey (parentID ++ ":v" ++ version) opts.offset opts.limit) load r := by
  refine hversion.bind fun version w1 ⟨hw1, hP⟩ => ?_
  refine (h version hP).ends_cachedOr hfaults hw1
    (fun r w' hw' hread => ⟨hw', version, hP, hread⟩) (fun _ => rfl) fun w2 hw2 => ?_
  exact ((h version hP).ends_decoded hfaults hw2).mono fun r w' hr => ⟨hr.1, version, hP, hr.2⟩

end Reads

def loadResult {α : Type} (encode : α → CacheValue) (x : Except Fault α) :
    Except CacheError CacheValue :=
  (x.mapError CacheError.store).map encode

structure SameStore (w t : CacheWorld) : Prop where
  store : t.store = w.store
  commits : t.commits = w.commits

section Loaders

variable {t : CacheWorld}

lemma SameStore.refl (w : CacheWorld) : SameStore w w := ⟨rfl, rfl⟩

lemma loadResult_ok (h : loadResult encode x = .ok payload) :
    ∃ a, x = .ok a ∧ payload = encode a := by
  cases x with
  | error e => cases h
  | ok a =>
    cases h
    exact ⟨a, rfl, rfl⟩

lemma loadResult_error (h : loadResult encode x = .error e) :
    ∃ fault, x = .error fault ∧ e = .store fault := by
  cases x with
  | ok a => cases h
  | error fault =>
    cases h
    exact ⟨fault, rfl, rfl⟩

lemma answer_eq_ok : answer x s = .ok a ↔ ∃ t, Yields x s a t := by
  unfold answer Yields
  cases x s with
  | ok b t | error e t => simp

lemma answer_ne_error {t : MemoryState} (hx : Yields x s a t)
    (h : answer x s = .error fault) : False := by
  have hok := answer_eq_ok.mpr ⟨t, hx⟩
  rw [h] at hok
  cases hok

lemma ends_storeGetFile (selector : FileSelector) (h : SameStore w t) :
    CacheEnds faults t (fallible (step (.getFile selector)) .store)
      fun r t' => r = (answer (Store.getFile selector) w.store).mapError .store ∧ t' = t := by
  rintro r t' hstep
  cases hstep with
  | perform =>
    simp only [CacheWorld.perform, h.store]
    cases answer (Store.getFile selector) w.store with
    | ok file | error fault => exact ⟨rfl, rfl⟩

lemma ends_storeBuildDownloadPlan (fileID : FileID) (h : SameStore w t) :
    CacheEnds faults t (fallible (step (.buildDownloadPlan fileID)) .store)
      fun r t' => r = (answer (Service.buildDownloadPlan fileID) w.store).mapError .store ∧
        t' = t := by
  rintro r t' hstep
  cases hstep with
  | perform =>
    simp only [CacheWorld.perform, h.store]
    cases answer (Service.buildDownloadPlan fileID) w.store with
    | ok plan | error fault => exact ⟨rfl, rfl⟩

def listingOf (w : CacheWorld) (parentID : InodeID) (opts : ListOptions) : Except Fault Listing :=
  (answer (Store.listChildren parentID opts) w.store).map fun entries =>
    { entries := entries, loadedAt := w.commits }

lemma ends_loadChildren (parentID : InodeID) (opts : ListOptions) (h : SameStore w t) :
    CacheEnds faults t (loadChildren parentID opts)
      fun r t' => r = (listingOf w parentID opts).mapError .store ∧ t' = t := by
  rintro r t' hstep
  cases hstep with
  | perform =>
    simp only [CacheWorld.perform, listingOf, h.store, h.commits]
    cases answer (Store.listChildren parentID opts) w.store with
    | ok entries | error fault => exact ⟨rfl, rfl⟩

lemma ends_loader {a : Except Fault α}
    (h : CacheEnds faults t x fun r t' => r = a.mapError .store ∧ t' = t) :
    CacheEnds faults t (encode <$> x) fun r t' => r = loadResult encode a ∧ t' = t := by
  refine h.map ?_
  rintro r t' ⟨rfl, rfl⟩
  exact ⟨rfl, rfl⟩

end Loaders

section Mutations

lemma returns_filterMapM {α β : Type} {f : α → CacheM (Option β)} {J : List α → CacheWorld → Prop}
    (hf : ∀ a rest w, J (a :: rest) w → CacheReturns faults w (f a) fun _ w' => J rest w')
    {pending : List α} (hw : J pending w) :
    CacheReturns faults w (pending.filterMapM f) fun _ w' => J [] w' := by
  induction pending generalizing w with
  | nil =>
    exact ensures_pure hw
  | cons a rest ih =>
    rw [List.filterMapM_cons]
    refine Ensures.bind (hf a rest w hw) fun b w' hw' => ?_
    cases b with
    | none => exact ih hw'
    | some b => exact Ensures.bind (ih hw') fun _ _ hw'' => ensures_pure hw''

lemma ends_mutate {tx : MemoryState → MemoryState × List Invalidation}
    {J : List Invalidation → CacheWorld → Prop}
    (hstart : J (tx w.store).2 { w with store := (tx w.store).1, commits := w.commits + 1 })
    (hrun : ∀ invalidation rest w, J (invalidation :: rest) w →
      CacheEnds faults w invalidation.run fun _ w' => J rest w') :
    CacheEnds faults w (mutate tx) fun _ w' => J [] w' := by
  have htransact : CacheReturns faults w (step (.transact tx)) fun r w' => J r.1 w' := by
    rintro r w' h
    cases h with
    | perform => exact hstart
  refine htransact.bind fun r w' hw' => ?_
  refine (returns_filterMapM (fun invalidation rest w hw => ?_) hw').bind fun _ _ hw => ends_pure hw
  have hattempt : CacheReturns faults w (attempt invalidation.run) fun _ w' => J rest w' :=
    (hrun invalidation rest w hw).attempt fun _ _ hw' => hw'
  refine Ensures.bind hattempt fun outcome w' hw' => ?_
  cases outcome with
  | ok _ | error _ => exact ensures_pure hw'

end Mutations

def undisturbed {α : Type} (x : CacheM α) (w : CacheWorld) :
    Option (Except CacheError α × CacheWorld) :=
  x.run.execute (fun o w => some (w.perform o)) w

lemma runs_of_undisturbed (h : undisturbed x w = some (r, w')) :
    x.run.Runs (cacheSemantics faults) w r w' :=
  runs_of_execute (fun _ _ _ _ hstep => step_of_perform hstep) h

def CacheAction.play (w : CacheWorld) : CacheAction → Option CacheWorld
  | .getFile fileID => (undisturbed (serviceGetFile fileID) w).map Prod.snd
  | .buildDownloadPlan fileID => (undisturbed (serviceBuildDownloadPlan fileID) w).map Prod.snd
  | .listChildren parentID opts recursive =>
    (undisturbed (serviceListChildren parentID opts recursive) w).map Prod.snd
  | .call now mutation => (undisturbed (serviceCall now mutation) w).map Prod.snd
  | .coordinator write =>
    match write.run w.store with
    | .ok _ s => some { w with store := s }
    | .error _ _ => none
  | .reorder => some w

lemma cacheActs_of_play (w : CacheWorld) (action : CacheAction) (w' : CacheWorld)
    (h : action.play w = some w') : CacheActs faults w action w' := by
  cases action with
  | getFile | buildDownloadPlan | listChildren | call =>
    obtain ⟨⟨r, w'⟩, hrun, rfl⟩ := Option.map_eq_some_iff.mp h
    constructor
    exact runs_of_undisturbed hrun
  | coordinator write =>
    rw [CacheAction.play] at h
    split at h
    · rename_i hwrite
      cases h
      exact .coordinator hwrite
    · cases h
  | reorder =>
    cases h
    exact .reorder (sameRecords_iff.mpr rfl)

def playActions (now : Time) (actions : List CacheAction) :
    Option (List (CacheWorld × CacheAction) × CacheWorld) :=
  replay CacheAction.play id { store := rootState now } actions

lemma cacheRun_of_playActions (h : playActions now actions = some (history, w)) :
    CacheRun faults history w ∧ history.map Prod.snd = actions.map id :=
  run_of_replay ⟨bootstrapped_iff.mpr ⟨now, rfl⟩, rfl⟩ cacheActs_of_play h

end AstraStorage.Proofs
