import AstraStorage.Proofs.Reachable
import AstraStorage.Proofs.ReadTriples

/-!
# Cached reads after an invalidation

A mutation commits and then deletes the entries of its file. A read that is under way at that time
may store what it has loaded before the commit. If none is, every later read returns what the
repository has.
-/

namespace AstraStorage.Proofs
open Lib Prog Store Service ReadCache

variable {f : FileID} {s : MemoryState} {w w' : CacheWorld} {value : CacheValue}

def UpToDate (f : FileID) (s : MemoryState) : CacheValue → Prop
  | .file file => answer (Store.getFile { id := f }) s = .ok file
  | .plan plan => answer (Service.buildDownloadPlan f) s = .ok plan
  | .number _ => True
  | .children _ => True

def fileKeys (f : FileID) : List String := [fileMetaKey f, downloadPlanKey f, nullFileKey f]

structure FreshIn (f : FileID) (s : MemoryState) (w : CacheWorld) : Prop where
  store : w.store = s
  entry : ∀ key ∈ fileKeys f, ∀ value, w.cache.lookup key = some value → UpToDate f s value

def KeepsFresh (f : FileID) (w w' : CacheWorld) : Prop := ∀ s, FreshIn f s w → FreshIn f s w'

def ReadFresh (f : FileID) (s : MemoryState) (value : CacheValue) (w : CacheWorld) : Prop :=
  FreshIn f s w ∧ UpToDate f s value

lemma KeepsFresh.refl (w : CacheWorld) : KeepsFresh f w w := fun _ hw => hw

lemma FreshIn.stable : Stable (KeepsFresh f) (FreshIn f s) := fun _ _ hw h => h s hw

lemma ReadFresh.stable (value : CacheValue) : Stable (KeepsFresh f) (ReadFresh f s value) :=
  fun _ _ hw h => ⟨h s hw.1, hw.2⟩

/-! ### Reads -/

lemma KeepsFresh.put (h : ∀ s, FreshIn f s w → UpToDate f s value) :
    KeepsFresh f w (w.put key value) := by
  refine fun s hs => ⟨hs.store, fun key' hkey' value' hvalue' => ?_⟩
  rw [lookup_cachePut] at hvalue'
  split at hvalue'
  · cases hvalue'
    exact h s hs
  · exact hs.entry key' hkey' value' hvalue'

lemma KeepsFresh.remove (keys : List String) : KeepsFresh f w (w.remove keys) := by
  refine fun s hs => ⟨hs.store, fun key hkey value hvalue => ?_⟩
  rw [lookup_remove] at hvalue
  split at hvalue
  · cases hvalue
  · exact hs.entry key hkey value hvalue

inductive FileRead where
  | file
  | plan

namespace FileRead

def key (f : FileID) : FileRead → String
  | .file => fileMetaKey f
  | .plan => downloadPlanKey f

def lockKey (f : FileID) : FileRead → String
  | .file => fileMetaLockPrefix ++ f
  | .plan => downloadPlanLockPrefix ++ f

def loader (f : FileID) : FileRead → CacheM CacheValue
  | .file => CacheValue.file <$> fallible (step (.getFile { id := f })) .store
  | .plan => CacheValue.plan <$> fallible (step (.buildDownloadPlan f)) .store

/-- A cached `GetFile` or `BuildDownloadPlan`. -/
def program (f : FileID) : FileRead → CacheM CacheValue
  | .file => CacheValue.file <$> ReadCache.getFile f
  | .plan => CacheValue.plan <$> getDownloadPlan f

end FileRead

section Reads

variable (kind : FileRead)

lemma triple_fileLoader :
    CacheTriple {} (KeepsFresh f) (FreshIn f s) (kind.loader f) (ReadFresh f s) := by
  cases kind with
  | file | plan =>
    refine triple_map KeepsFresh.refl (fun _ => ReadFresh.stable _)
      (triple_fallible KeepsFresh.refl (fun _ => ReadFresh.stable _)
        (triple_step FreshIn.stable (Stable.onSuccess fun _ => ReadFresh.stable _) ?_))
    intro w r w' hw hstep
    cases hstep
    exact ⟨.refl w, onSuccess_of fun value hvalue => ⟨hw, hw.store ▸ hvalue⟩⟩

lemma readsThrough_file : ReadsThrough {} (KeepsFresh f) (FreshIn f s) (ReadFresh f s)
    (kind.lockKey f) (kind.key f) (nullFileKey f) (kind.loader f) where
  locks _ _ _ hs := ⟨hs.store, hs.entry⟩
  stable := FreshIn.stable
  served := ReadFresh.stable
  found w r w' hw hstep := by
    cases hstep with
    | perform =>
      refine ⟨.refl w, fun value hvalue => ⟨hw, hw.entry _ ?_ value (Except.ok.inj hvalue)⟩⟩
      cases kind <;> simp [FileRead.key, fileKeys]
    | expired h | failedGet h => exact h.elim
  load := triple_fileLoader kind
  set value w r w' hw hstep := by
    cases hstep with
    | perform => exact .put fun s' hs' => hs'.store.symm.trans hw.1.store ▸ hw.2
    | failedSet h => exact h.elim
  setNull _ w r w' hstep := by
    cases hstep with
    | perform => exact .put fun _ _ => trivial
    | failedSet h => exact h.elim
  delNull _ w r w' hstep := by
    cases hstep with
    | perform => exact .remove _
    | failedDel h => exact h.elim

lemma triple_readFileModel {α : Type} {decode : CacheValue → Option α} {encode : α → CacheValue}
    (hdecode : ∀ value a, decode value = some a → value = encode a) :
    CacheTriple {} (KeepsFresh f) (FreshIn f s)
      (readFileModel decode (kind.key f) (kind.lockKey f) f (kind.loader f))
      fun a => ReadFresh f s (encode a) := by
  have hread := readsThrough_file (f := f) (s := s) kind
  have hdecoded : ∀ value a w, decode value = some a → ReadFresh f s value w →
      ReadFresh f s (encode a) w := fun value a w ha hw => hdecode value a ha ▸ hw
  have hnull : CacheTriple {} (KeepsFresh f) (FreshIn f s) (checkNull (nullFileKey f))
      fun _ => FreshIn f s := by
    refine triple_bind KeepsFresh.refl (triple_command KeepsFresh.refl FreshIn.stable
      (triple_neutral FreshIn.stable fun w r w' _ hstep => ?_)) fun r => ?_
    · cases hstep with
      | perform => exact .refl w
      | expired h | failedGet h => exact h.elim
    · cases r with
      | none | some _ => exact triple_pure FreshIn.stable fun _ hw => hw
  refine triple_bind KeepsFresh.refl
    (hread.loadJSON (R := fun a => ReadFresh f s (encode a)) (fun _ => ReadFresh.stable _)
      hdecoded) ?_
  rintro (_ | cached)
  · refine (triple_bind KeepsFresh.refl hnull fun missing => ?_).pre fun w hw => hw.1
    cases missing with
    | true => exact triple_throw
    | false =>
      exact triple_bind KeepsFresh.refl hread.readThroughWithLock (hread.decodePayload hdecoded)
  · refine Triple.pre (P := ReadFresh f s (encode cached)) ?_ fun w hw => hw.2 cached rfl
    exact triple_pure (ReadFresh.stable _) fun _ hw => hw

lemma triple_read :
    CacheTriple {} (KeepsFresh f) (FreshIn f s) (kind.program f) (ReadFresh f s) := by
  cases kind with
  | file =>
    refine triple_map (g := CacheValue.file) KeepsFresh.refl (fun _ => ReadFresh.stable _)
      (triple_readFileModel .file ?_)
    rintro (_ | _ | _ | _) a ⟨⟩
    rfl
  | plan =>
    refine triple_map (g := CacheValue.plan) KeepsFresh.refl (fun _ => ReadFresh.stable _)
      (triple_readFileModel .plan ?_)
    rintro (_ | _ | _ | _) a ⟨⟩
    rfl

end Reads

/-! ### Any number of reads and a mutation -/

section Interleavings

variable {ι : Type} [DecidableEq ι] {change : MemoryState → MemoryState} {kinds : ι → FileRead}

abbrev ReadPool (ι : Type) :=
  Pool (Option ι) cacheSteps (Except CacheError CacheValue) CacheWorld

def mutation (f : FileID) (change : MemoryState → MemoryState) : CacheM CacheValue :=
  (fun r => .number r.1) <$> mutate fun s => (change s, [.file f])

def readsAndMutation (f : FileID) (change : MemoryState → MemoryState) (kinds : ι → FileRead) :
    Option ι → Prog cacheSteps (Except CacheError CacheValue)
  | none => (mutation f change).run
  | some i => ((kinds i).program f).run

def attempted (invalidation : Invalidation) : CacheM (Option Invalidation) := do
  match ← Prog.attempt invalidation.run with
  | .ok _ => return some invalidation
  | .error _ => return none

lemma mutation_run (hf : f ≠ "") (change : MemoryState → MemoryState) : ∃ rest,
    (mutation f change).run = .op (.transact fun s => (change s, [.file f])) rest ∧
      ∀ n, ∃ next, rest ([.file f], n) = .op (.del (fileKeys f)) next ∧
        ∀ r, ∃ a, next r = .done a := by
  refine ⟨fun r => ((fun p => CacheValue.number p.1) <$> (r.1.filterMapM attempted >>=
    fun done => pure (r.2, done)) : CacheM CacheValue).run, rfl, fun n => ?_⟩
  have hrun : (Invalidation.file f).run = del (fileKeys f) := if_neg hf
  simp only [List.filterMapM_cons, List.filterMapM_nil, attempted, hrun]
  refine ⟨_, rfl, fun r => ?_⟩
  cases r with
  | error e => exact ⟨_, rfl⟩
  | ok _ => exact ⟨_, rfl⟩

lemma mutation_done_of_del (hf : f ≠ "")
    (hrun : Interleaving (fun _ => cacheSemantics {}) (readsAndMutation f change kinds, w) tr c0)
    (hdel : PoolStep (fun _ => cacheSemantics {}) c0 (none, .del (fileKeys f)) c) :
    (∃ a, c.1 none = .done a) ∧ (∀ i, c.1 (some i) = c0.1 (some i)) ∧
      c.2 = c0.2.remove (fileKeys f) := by
  obtain ⟨rest, hrest, hnext⟩ := mutation_run hf change
  have hstage : c0.1 none = (mutation f change).run ∨
      (∃ next, c0.1 none = .op (.del (fileKeys f)) next ∧ ∀ r, ∃ a, next r = .done a) ∨
      ∃ a, c0.1 none = .done a := by
    refine hrun.invariant (I := fun c => c.1 none = (mutation f change).run ∨
      (∃ next, c.1 none = .op (.del (fileKeys f)) next ∧ ∀ r, ∃ a, next r = .done a) ∨
      ∃ a, c.1 none = .done a) ?_ ?_
    · rintro _ rfl
      exact .inl rfl
    · rintro _ _ _ hstage (@⟨pool, w, w', i, o, next, r, hi, ho⟩)
      cases i with
      | some i => simpa using hstage
      | none =>
        rcases hstage with hstart | ⟨next', hdel, hdone⟩ | ⟨a, ha⟩
        · cases hi.symm.trans (hstart.trans hrest)
          cases ho
          simpa using .inr (.inl (hnext _))
        · cases hi.symm.trans hdel
          simpa using .inr (.inr (hdone r))
        · cases hi.symm.trans ha
  obtain @⟨pool, w, w', i, o, next, r, hi, ho⟩ := hdel
  rcases hstage with hstart | ⟨next', hdel, hdone⟩ | ⟨a, ha⟩
  · cases hi.symm.trans (hstart.trans hrest)
  · cases hi.symm.trans hdel
    refine ⟨by simpa using hdone r, fun i => by simp, ?_⟩
    cases ho with
    | perform => rfl
    | failedDel h => exact h.elim
  · cases hi.symm.trans ha

/-- In every interleaving in which no read is under way when the mutation deletes the entries, a
read that starts afterwards returns what the repository has. -/
theorem cachedRead_upToDate (hf : f ≠ "")
    {before after : List (ReadPool ι × (Option ι × CacheOp))} {c0 c c' : ReadPool ι}
    (hbefore : Interleaving (fun _ => cacheSemantics {}) (readsAndMutation f change kinds, w)
      before c0)
    (hdel : PoolStep (fun _ => cacheSemantics {}) c0 (none, .del (fileKeys f)) c)
    (hidle : ∀ j, c0.1 (some j) = ((kinds j).program f).run ∨ ∃ a, c0.1 (some j) = .done a)
    (hafter : Interleaving (fun _ => cacheSemantics {}) c after c') {i : ι}
    (hi : c.1 (some i) = ((kinds i).program f).run) (hvalue : c'.1 (some i) = .done (.ok value)) :
    UpToDate f c'.2.store value := by
  obtain ⟨⟨a, hdone⟩, hreads, hworld⟩ := mutation_done_of_del hf hbefore hdel
  have hfresh : FreshIn f c.2.store c.2 := by
    refine ⟨rfl, fun key hkey value hvalue => ?_⟩
    rw [hworld, lookup_remove, if_pos hkey] at hvalue
    cases hvalue
  have hlast : (c'.1 (some i)).Guarantees (cacheSemantics {}) (KeepsFresh f)
      (fun _ => KeepsFresh f)
      (fun r w => some i = some i → OnSuccess (ReadFresh f c.2.store) r w) c'.2 := by
    refine hafter.guarantees
      (Q := fun j r w => j = some i → OnSuccess (ReadFresh f c.2.store) r w)
      (fun _ => KeepsFresh.refl) (fun _ _ _ _ h h' s hs => h' s (h s hs)) (fun _ _ _ _ _ _ h => h)
      (fun j => ?_) (some i)
    have hread (j : ι) : (((kinds j).program f).run).Guarantees (cacheSemantics {}) (KeepsFresh f)
        (fun _ => KeepsFresh f)
        (fun r w => some j = some i → OnSuccess (ReadFresh f c.2.store) r w) c.2 :=
      (triple_read (kinds j) c.2 hfresh).mono fun _ _ h _ => h
    cases j with
    | none =>
      rw [hdone]
      exact fun _ _ h => nomatch h
    | some j =>
      rcases hidle j with hj | ⟨b, hj⟩
      · rw [hreads, hj]
        exact hread j
      · by_cases hij : j = i
        · subst hij
          rw [hi]
          exact hread j
        · rw [hreads, hj]
          exact fun _ _ h => absurd (Option.some.inj h) hij
  rw [hvalue] at hlast
  obtain ⟨hfresh', hvalue'⟩ := hlast c'.2 (KeepsFresh.refl _) rfl
  rwa [hfresh'.store]

end Interleavings

/-- An upload into the file starts. -/
def startingUpload : MemoryState → MemoryState :=
  (Call.startUpload { sessionID := "u", fileID := "f" }).exec 1

def oneFile : CacheWorld where
  store := (play 1 [rootFile "i1" "f" "a" 4]).2

def afterCommit : CacheWorld :=
  { oneFile with store := startingUpload oneFile.store, commits := 1 }

def sessionFound : Option (UploadSessionID × CacheWorld) :=
  match (FileRead.program "f" .file).run.execute (fun o w => some (w.perform o))
      (afterCommit.remove (fileKeys "f")) with
  | some (.ok (.file file), w') => some (file.latestUploadSessionID, w')
  | _ => none

/-- The upload starts, the entries are deleted, and a read that begins then finds its session. -/
theorem cachedRead_afterStart : ∃ before after, ∃ c0 c c' : ReadPool Unit, ∃ file : FileMetadata,
    Interleaving (fun _ => cacheSemantics {})
      (readsAndMutation "f" startingUpload fun _ => .file, oneFile) before c0 ∧
    PoolStep (fun _ => cacheSemantics {}) c0 (none, .del (fileKeys "f")) c ∧
    Interleaving (fun _ => cacheSemantics {}) c after c' ∧
    c'.1 (some ()) = .done (.ok (.file file)) ∧ UpToDate "f" c'.2.store (.file file) ∧
    file.latestUploadSessionID = "u" := by
  have hfound : sessionFound.map Prod.fst = some "u" := by decide +kernel
  obtain ⟨⟨session, w'⟩, hfound, hsession⟩ := Option.map_eq_some_iff.mp hfound
  unfold sessionFound at hfound
  split at hfound
  · rename_i file _ hread
    cases hfound
    obtain ⟨rest, hrest, hnext⟩ := mutation_run (by decide : "f" ≠ "") startingUpload
    obtain ⟨next, hdel, hdone⟩ := hnext 1
    let pool := Function.update (readsAndMutation "f" startingUpload fun _ : Unit => .file) none
    have hbefore : Interleaving (fun _ => cacheSemantics {})
        (readsAndMutation "f" startingUpload fun _ : Unit => .file, oneFile) _ _ :=
      .next (.start rfl) (.perform (i := none) hrest .perform)
    have hstep : PoolStep (fun _ => cacheSemantics {}) (pool (rest ([.file "f"], 1)), afterCommit)
        (none, .del (fileKeys "f")) _ :=
      .perform (by simpa [pool] using hdel) CacheStep.perform
    obtain ⟨after, hafter⟩ := exists_interleaving_of_runs (fun _ => cacheSemantics {})
      (Function.update (pool (rest ([.file "f"], 1))) none (next (.ok ()))) (i := some ()) rfl
      (runs_of_execute (fun _ _ _ _ hstep => step_of_perform hstep) hread)
    exact ⟨_, _, _, _, _, file, hbefore, hstep, hafter, rfl, cachedRead_upToDate (i := ())
      (by decide) hbefore hstep (fun _ => .inl rfl) hafter rfl rfl, hsession⟩
  · cases hfound

def slowRead : List (Option Bool) :=
  [some true, some false, some false, some false, none, none, some false, some false, some false,
    some false, some false]

def isStale (p : List (ReadPool Bool × (Option Bool × CacheOp)) × ReadPool Bool) : Bool :=
  match p.2.1 none, p.2.1 (some false), p.2.1 (some true),
    answer (Store.getFile { id := "f" }) p.2.2.store with
  | .done _, .done _, .done (.ok (.file file)), .ok file' =>
    p.1.map (fun e => e.2.1) = slowRead && file.latestUploadSessionID ≠ file'.latestUploadSessionID
  | _, _, _, _ => false

theorem cachedRead_stale : ∃ (tr : List (ReadPool Bool × (Option Bool × CacheOp)))
    (c : ReadPool Bool) (value : CacheValue),
    Interleaving (fun _ => cacheSemantics {})
      (readsAndMutation "f" startingUpload fun _ => .file, oneFile) tr c ∧
    tr.map (fun e => e.2.1) = slowRead ∧ (∃ a, c.1 none = .done a) ∧
    (∃ a, c.1 (some false) = .done a) ∧ c.1 (some true) = .done (.ok value) ∧
    ¬UpToDate "f" c.2.store value := by
  have hcheck : (schedule (fun _ (_ : Unit) o (w : CacheWorld) => some (w.perform o))
      (readsAndMutation "f" startingUpload fun _ => .file, oneFile)
      (slowRead.map fun i => (i, ()))).any isStale = true := by
    decide +kernel
  obtain ⟨tr, c, hrun, hstale⟩ : ∃ tr c, Interleaving (fun _ => cacheSemantics {}) _ tr c ∧ _ :=
    exists_interleaving (fun _ _ _ _ _ _ => step_of_perform) hcheck
  unfold isStale at hstale
  split at hstale
  · rename_i hnone hfirst hsecond hanswer
    rw [Bool.and_eq_true, decide_eq_true_eq, decide_eq_true_eq] at hstale
    refine ⟨tr, c, _, hrun, hstale.1, ⟨_, hnone⟩, ⟨_, hfirst⟩, hsecond, fun h => hstale.2 ?_⟩
    rw [Except.ok.inj (Eq.trans (Eq.symm h) hanswer)]
  · cases hstale

end AstraStorage.Proofs
