import AstraStorage.Proofs.CacheRuns
import AstraStorage.Proofs.SilentChanges

/-!
# Cached reads and the repository

An entry of the cache is what the repository answers, but for entries that a mutation is still to
invalidate.
-/

namespace AstraStorage.Proofs
open Lib Store Service ReadCache List

variable {f : FileID} {d : InodeID} {opts : ListOptions} {value : CacheValue} {keys : List String}
  {s : MemoryState} {w w' : CacheWorld} {key : String}

section Answers

variable {t : MemoryState}

lemma plan_of_same (hf : f ≠ "") (ht : ChunkTable (catalog t))
    (hfile : (catalog t).file f = (catalog s).file f)
    (hchunks : SameChunks (catalog s) (catalog t) f)
    (h : answer (Service.buildDownloadPlan f) s = .ok plan) :
    answer (Service.buildDownloadPlan f) t = .ok plan := by
  obtain ⟨s', hs⟩ := answer_eq_ok.mp h
  obtain ⟨file, hstored, hne, hplan, -⟩ := (yields_buildDownloadPlan hf).mp hs
  have hsame : chunksOfFile t f = chunksOfFile s f := chunksOfFile_eq ht hchunks
  refine answer_eq_ok.mpr ⟨t, (yields_buildDownloadPlan hf).mpr ⟨file, ?_, ?_, ?_, rfl⟩⟩
  · rw [hfile, hstored]
  · rwa [hsame]
  · rw [hplan, hsame]

lemma nodup_entriesOf (d : InodeID) : (entriesOf s d).Nodup := (nodup_childIDs d).of_map _

lemma sorted_entriesOf (d : InodeID) : (entriesOf s d).Pairwise (·.name ≤ ·.name) := by
  exact pairwise_insertionSort _ _

lemma entriesOf_eq (ht : Tree (catalog t))
    (h : ∀ i x, x.parentID = d → ((catalog t).inode i = some x ↔ (catalog s).inode i = some x)) :
    entriesOf t d = entriesOf s d := by
  have hmem : ∀ e, e ∈ entriesOf t d ↔ e ∈ entriesOf s d := by
    intro e
    simp only [mem_entriesOf]
    constructor
    · rintro ⟨x, hx, hparent, hrest⟩
      exact ⟨x, (h _ x hparent).mp hx, hparent, hrest⟩
    · rintro ⟨x, hx, hparent, hrest⟩
      exact ⟨x, (h _ x hparent).mpr hx, hparent, hrest⟩
  refine List.Perm.eq_of_pairwise ?_ (sorted_entriesOf d) (sorted_entriesOf d)
    ((perm_ext_iff_of_nodup (nodup_entriesOf d) (nodup_entriesOf d)).mpr hmem)
  intro e e' he he' hle hge
  obtain ⟨x, hx, hparent, -, rfl⟩ := mem_entriesOf.mp he
  obtain ⟨y, hy, hparent', -, rfl⟩ := mem_entriesOf.mp ((hmem e').mpr he')
  have hname : x.name = y.name := String.le_antisymm hle hge
  have hid := ht.siblings _ _ x y hx hy (hparent.trans hparent'.symm) hname
  rw [hid, hy] at hx
  rw [Option.some.inj hx]

lemma listing_of_same (ht : Tree (catalog t)) (hsame : SameListing (catalog s) (catalog t) d)
    (h : answer (listChildren d opts) s = .ok entries) :
    answer (listChildren d opts) t = .ok entries := by
  obtain ⟨s', hs⟩ := answer_eq_ok.mp h
  obtain ⟨hd, hstored, hentries, -⟩ := yields_listChildren.mp hs
  refine answer_eq_ok.mpr ⟨t, yields_listChildren.mpr ⟨hd, hsame.stored hstored, ?_, rfl⟩⟩
  rw [hentries, entriesOf_eq ht (hsame.children hstored)]

end Answers

def versionOf (w : CacheWorld) (d : InodeID) : Nat := numberAt w (directoryListVersionKey d)

def EntrySound (s : MemoryState) (pending : List Invalidation) (versions : InodeID → Nat)
    (key : String) : CacheValue → Prop
  | .number _ => True
  | .file file => (∀ d, key ≠ directoryListVersionKey d) ∧ ∀ f, f ≠ "" → key = fileMetaKey f →
      .file f ∈ pending ∨ (catalog s).file f = some file
  | .plan plan => (∀ d, key ≠ directoryListVersionKey d) ∧ ∀ f, f ≠ "" → key = downloadPlanKey f →
      .file f ∈ pending ∨ answer (Service.buildDownloadPlan f) s = .ok plan
  | .children listing => (∀ d, key ≠ directoryListVersionKey d) ∧
      ∀ d v opts, d ≠ "" → key = pageKey d v opts → v ≤ versions d ∧
        (v = versions d → .directory d ∈ pending ∨
          answer (listChildren d opts) s = .ok listing.entries)

structure CacheSound (s : MemoryState) (pending : List Invalidation) (w : CacheWorld) : Prop where
  store : w.store = s
  entry : ∀ key value, w.cache.lookup key = some value →
    EntrySound s pending (versionOf w) key value

section Changes

variable {pending : List Invalidation}

lemma versionOf_congr
    (h : w'.cache.lookup (directoryListVersionKey d) = w.cache.lookup (directoryListVersionKey d)) :
    versionOf w' d = versionOf w d := by
  rw [versionOf, numberAt, h]
  rfl

lemma versionOf_put (hkey : ∀ d, key ≠ directoryListVersionKey d) :
    versionOf (w.put key value) = versionOf w := by
  funext d
  refine versionOf_congr ?_
  rw [lookup_cachePut, if_neg (hkey d).symm]

lemma versionOf_remove (hkeys : ∀ key ∈ keys, ∀ d, key ≠ directoryListVersionKey d) :
    versionOf (w.remove keys) = versionOf w := by
  funext d
  refine versionOf_congr ?_
  rw [lookup_remove, if_neg fun hmem => hkeys _ hmem d rfl]

lemma CacheSound.put (h : CacheSound s pending w) (hkey : ∀ d, key ≠ directoryListVersionKey d)
    (hvalue : EntrySound s pending (versionOf w) key value) :
    CacheSound s pending (w.put key value) := by
  refine ⟨h.store, fun key' value' hlookup => ?_⟩
  rw [versionOf_put hkey]
  rw [lookup_cachePut] at hlookup
  split at hlookup
  · rename_i heq
    cases hlookup
    rw [heq]
    exact hvalue
  · exact h.entry key' value' hlookup

lemma CacheSound.remove (h : CacheSound s pending w)
    (hkeys : ∀ key ∈ keys, ∀ d, key ≠ directoryListVersionKey d) :
    CacheSound s pending (w.remove keys) := by
  refine ⟨h.store, fun key value hlookup => ?_⟩
  rw [versionOf_remove hkeys]
  rw [lookup_remove] at hlookup
  split at hlookup
  · cases hlookup
  · exact h.entry key value hlookup

lemma CacheSound.version (h : CacheSound s pending w) (d : InodeID) :
    w.cache.lookup (directoryListVersionKey d) = none ∨
      w.cache.lookup (directoryListVersionKey d) = some (.number (versionOf w d)) := by
  cases hlookup : w.cache.lookup (directoryListVersionKey d) with
  | none => exact .inl rfl
  | some value =>
    have hsound := h.entry _ value hlookup
    cases value with
    | number n =>
      right
      rw [versionOf, numberAt, hlookup]
    | file _ | plan _ | children _ => exact absurd rfl (hsound.1 d)

lemma CacheSound.change (h : CacheSound s [] w) (hcache : w'.cache = w.cache)
    (hstore : w'.store = t) (hfile : ∀ f, w.cache.lookup (fileMetaKey f) ≠ none →
      .file f ∈ pending ∨ (catalog t).file f = (catalog s).file f)
    (hplan : ∀ f plan, f ≠ "" → w.cache.lookup (downloadPlanKey f) ≠ none →
      answer (Service.buildDownloadPlan f) s = .ok plan →
      .file f ∈ pending ∨ answer (Service.buildDownloadPlan f) t = .ok plan)
    (hpage : ∀ d opts entries, w.cache.lookup (pageKey d (versionOf w d) opts) ≠ none →
      answer (listChildren d opts) s = .ok entries →
      .directory d ∈ pending ∨ answer (listChildren d opts) t = .ok entries) :
    CacheSound t pending w' := by
  have hversion : versionOf w' = versionOf w := by
    funext d
    exact versionOf_congr (by rw [hcache])
  refine ⟨hstore, fun key value hlookup => ?_⟩
  rw [hcache] at hlookup
  rw [hversion]
  have hsound := h.entry key value hlookup
  have hne : w.cache.lookup key ≠ none := by simp [hlookup]
  cases value with
  | number n => trivial
  | file file =>
    refine ⟨hsound.1, fun f hf hkey => ?_⟩
    rcases hsound.2 f hf hkey with hmem | hstored
    · cases hmem
    · exact (hfile f (hkey ▸ hne)).imp_right fun hsame => hsame.trans hstored
  | plan plan =>
    refine ⟨hsound.1, fun f hf hkey => ?_⟩
    rcases hsound.2 f hf hkey with hmem | hanswer
    · cases hmem
    · exact hplan f plan hf (hkey ▸ hne) hanswer
  | children listing =>
    refine ⟨hsound.1, fun d v opts hd hkey => ?_⟩
    obtain ⟨hv, hcurrent⟩ := hsound.2 d v opts hd hkey
    refine ⟨hv, fun hv => ?_⟩
    rcases hcurrent hv with hmem | hanswer
    · cases hmem
    · exact hpage d opts _ (hv ▸ hkey ▸ hne) hanswer

lemma mem_of_mem_cons (hmem : other ∈ invalidation :: rest) (hne : other ≠ invalidation) :
    other ∈ rest :=
  (mem_cons.mp hmem).resolve_left hne

lemma EntrySound.skip (h : EntrySound s (invalidation :: rest) versions key value)
    (hfile : ∀ f, f ≠ "" → invalidation = .file f → key ≠ fileMetaKey f ∧ key ≠ downloadPlanKey f)
    (hversions : ∀ d, versions d ≤ versions' d)
    (hdirectory : ∀ d, d ≠ "" → invalidation = .directory d → versions d < versions' d) :
    EntrySound s rest versions' key value := by
  cases value with
  | number n => trivial
  | file file =>
    refine ⟨h.1, fun f hf hkey => (h.2 f hf hkey).imp_left fun hmem => ?_⟩
    exact mem_of_mem_cons hmem fun heq => (hfile f hf heq.symm).1 hkey
  | plan plan =>
    refine ⟨h.1, fun f hf hkey => (h.2 f hf hkey).imp_left fun hmem => ?_⟩
    exact mem_of_mem_cons hmem fun heq => (hfile f hf heq.symm).2 hkey
  | children listing =>
    refine ⟨h.1, fun d v opts hd hkey => ?_⟩
    obtain ⟨hv, hcurrent⟩ := h.2 d v opts hd hkey
    refine ⟨hv.trans (hversions d), fun hnew => ?_⟩
    have hold : v = versions d := Nat.le_antisymm hv (hnew ▸ hversions d)
    refine (hcurrent hold).imp_left fun hmem => mem_of_mem_cons hmem fun heq => ?_
    have hlt := hdirectory d hd heq.symm
    omega

lemma ends_soundInvalidation (hfaults : NeverFails faults) (invalidation : Invalidation)
    (rest : List Invalidation) (w : CacheWorld) (hw : CacheSound s (invalidation :: rest) w) :
    CacheEnds faults w invalidation.run fun _ w' => CacheSound s rest w' := by
  cases invalidation with
  | file g =>
    refine ends_invalidateFile hfaults (fun hg => ?_) fun hg => ?_
    · refine ⟨hw.store, fun key value hlookup =>
        (hw.entry key value hlookup).skip ?_ (fun _ => le_rfl) ?_⟩
      · rintro f hf ⟨⟩
        exact absurd hg hf
      · rintro d hd ⟨⟩
    · have hremoved := hw.remove fun key hkey d => versionKey_ne_file g d key hkey
      refine ⟨hw.store, fun key value hlookup =>
        (hremoved.entry key value hlookup).skip ?_ (fun _ => le_rfl) ?_⟩
      · rintro f hf ⟨⟩
        rw [lookup_remove] at hlookup
        split at hlookup
        · cases hlookup
        · rename_i hkept
          simp only [mem_cons, not_or] at hkept
          exact ⟨hkept.1, hkept.2.1⟩
      · rintro d hd ⟨⟩
  | directory d =>
    refine ends_invalidateDirectory hfaults (fun hskip => ?_) fun w' hw' => ?_
    · refine ⟨hw.store, fun key value hlookup =>
        (hw.entry key value hlookup).skip ?_ (fun _ => le_rfl) ?_⟩
      · rintro f hf ⟨⟩
      · rintro d' hd ⟨⟩
        rcases hskip with hempty | hnone
        · exact absurd hempty hd
        · -- a version is a number, which can be incremented
          rw [CacheWorld.increment] at hnone
          rcases hw.version d with hlookup | hlookup
          · rw [hlookup] at hnone
            cases hnone
          · rw [hlookup] at hnone
            cases hnone
    · obtain ⟨-, -, hstore, hversion, hothers⟩ := increment_cases hw'
      have hnext : versionOf w' d = versionOf w d + 1 := by
        rw [versionOf, numberAt, hversion]
        rfl
      have hgrown (d' : InodeID) : versionOf w d' ≤ versionOf w' d' := by
        by_cases hd : d' = d
        · subst hd
          omega
        · exact (versionOf_congr (hothers _ fun hkey => hd (versionKey_injective hkey))).ge
      refine ⟨hstore.trans hw.store, fun key value hlookup => ?_⟩
      by_cases hkey : key = directoryListVersionKey d
      · rw [hkey, hversion] at hlookup
        cases hlookup
        trivial
      · rw [hothers key hkey] at hlookup
        refine (hw.entry key value hlookup).skip ?_ hgrown ?_
        · rintro f hf ⟨⟩
        · rintro d' hd ⟨⟩
          omega

end Changes

structure ReadKeeps (w t : CacheWorld) : Prop where
  same : SameStore w t
  sound : CacheSound w.store [] t
  versions : versionOf t = versionOf w

section Reads

lemma neverFails_reliable : NeverFails {} := fun hfails => hfails

lemma ReadKeeps.refl (hw : CacheSound w.store [] w) : ReadKeeps w w := ⟨.refl w, hw, rfl⟩

section

variable {α : Type} {a : Except Fault α}

lemma readThrough_sound (hloads : ∀ t, SameStore w t →
      CacheEnds {} t x fun r t' => r = a.mapError .store ∧ t' = t)
    (hkey : ∀ d, key ≠ directoryListVersionKey d)
    (hnullKey : nullKey ≠ "" → ∀ d, nullKey ≠ directoryListVersionKey d)
    (hput : ∀ b, a = .ok b → EntrySound w.store [] (versionOf w) key (encode b)) :
    ReadThrough {} (ReadKeeps w) key nullKey (encode <$> x) (loadResult encode a) where
  loads t ht := ends_loader (hloads t ht.same)
  locks t locks ht := ⟨⟨ht.same.store, ht.same.commits⟩, ⟨ht.sound.store, ht.sound.entry⟩, ht.versions⟩
  expire t key' hexpire _ := hexpire.elim
  removeNull t ht hne := by
    have hkeys : ∀ key ∈ [nullKey], ∀ d, key ≠ directoryListVersionKey d := by
      rintro key hmem d
      rw [mem_singleton.mp hmem]
      exact hnullKey hne d
    exact ⟨⟨ht.same.store, ht.same.commits⟩, ht.sound.remove hkeys,
      (versionOf_remove hkeys).trans ht.versions⟩
  put t payload ht hload := by
    obtain ⟨b, hb, rfl⟩ := loadResult_ok hload
    refine ⟨⟨ht.same.store, ht.same.commits⟩, ht.sound.put hkey ?_,
      (versionOf_put hkey).trans ht.versions⟩
    rw [ht.versions]
    exact hput b hb
  putNull t e ht _ _ hne :=
    ⟨⟨ht.same.store, ht.same.commits⟩, ht.sound.put (hnullKey hne) trivial,
      (versionOf_put (hnullKey hne)).trans ht.versions⟩

lemma CachedRead.sound (h : CachedRead decode (ReadKeeps w) key (loadResult encode a) r)
    (hdecode : ∀ payload b, decode payload = some b → payload = encode b)
    (hput : ∀ b, a = .ok b → EntrySound w.store [] (versionOf w) key (encode b)) (hr : r = .ok b) :
    EntrySound w.store [] (versionOf w) key (encode b) := by
  subst hr
  cases h with
  | cached ht hpayload hb =>
    obtain rfl := hdecode _ _ hb
    rw [← ht.versions]
    exact ht.sound.entry _ _ hpayload
  | loaded hload hb =>
    obtain ⟨stored, hstored, rfl⟩ := loadResult_ok hload
    rw [← hdecode _ _ hb]
    exact hput stored hstored

end

lemma nullFileKey_reliable (f : FileID) :
    nullFileKey f ≠ "" → ∀ d, nullFileKey f ≠ directoryListVersionKey d :=
  fun _ d => versionKey_ne_file f d _ (by simp)

lemma ends_getFile_sound (hw : CacheSound w.store [] w) (hf : f ≠ "") :
    CacheEnds {} w (ReadCache.getFile f) fun r w' => ReadKeeps w w' ∧
      ∀ file, r = .ok file → answer (Store.getFile { id := f }) w.store = .ok file := by
  have hstored {file : FileMetadata} : answer (Store.getFile { id := f }) w.store = .ok file ↔
      (catalog w.store).file f = some file := by
    rw [answer_eq_ok]
    constructor
    · rintro ⟨t, h⟩
      exact ((yields_getFile hf).mp h).1
    · intro h
      exact ⟨w.store, (yields_getFile hf).mpr ⟨h, rfl⟩⟩
  have hversion (d : InodeID) : fileMetaKey f ≠ directoryListVersionKey d :=
    versionKey_ne_file f d _ (by simp)
  have hput (file : FileMetadata) (hanswer : answer (Store.getFile { id := f }) w.store = .ok file) :
      EntrySound w.store [] (versionOf w) (fileMetaKey f) (.file file) := by
    refine ⟨hversion, fun g _ hkey => .inr ?_⟩
    rw [← (String.append_right_inj _).mp hkey]
    exact hstored.mp hanswer
  have hread := readThrough_sound (fun _ => ends_storeGetFile { id := f }) hversion
    (nullFileKey_reliable f) hput
  refine (ends_readFileModel hread neverFails_reliable (.refl hw)).mono ?_
  rintro r w' ⟨hw', hr | ⟨rfl, -⟩⟩
  · refine ⟨hw', fun file hfile => hstored.mpr ?_⟩
    have hsound := hr.sound (by rintro (_ | _ | _ | _) b ⟨⟩; rfl) hput hfile
    exact (hsound.2 f hf rfl).resolve_left (by simp)
  · exact ⟨hw', fun file hbad => by cases hbad⟩

lemma ends_getDownloadPlan_sound (hw : CacheSound w.store [] w) (hf : f ≠ "") :
    CacheEnds {} w (getDownloadPlan f) fun r w' => ReadKeeps w w' ∧
      ∀ plan, r = .ok plan → answer (Service.buildDownloadPlan f) w.store = .ok plan := by
  have hversion (d : InodeID) : downloadPlanKey f ≠ directoryListVersionKey d :=
    versionKey_ne_file f d _ (by simp)
  have hput (plan : DownloadPlan)
      (hanswer : answer (Service.buildDownloadPlan f) w.store = .ok plan) :
      EntrySound w.store [] (versionOf w) (downloadPlanKey f) (.plan plan) := by
    refine ⟨hversion, fun g _ hkey => .inr ?_⟩
    rw [← (String.append_right_inj _).mp hkey]
    exact hanswer
  have hread := readThrough_sound (fun _ => ends_storeBuildDownloadPlan f) hversion
    (nullFileKey_reliable f) hput
  refine (ends_readFileModel hread neverFails_reliable (.refl hw)).mono ?_
  rintro r w' ⟨hw', hr | ⟨rfl, -⟩⟩
  · refine ⟨hw', fun plan hplan => ?_⟩
    have hsound := hr.sound (by rintro (_ | _ | _ | _) b ⟨⟩; rfl) hput hplan
    exact (hsound.2 f hf rfl).resolve_left (by simp)
  · exact ⟨hw', fun plan hbad => by cases hbad⟩

lemma listingOf_ok (h : listingOf w d opts = .ok listing) :
    answer (listChildren d opts) w.store = .ok listing.entries := by
  unfold listingOf at h
  cases hanswer : answer (listChildren d opts) w.store with
  | error fault =>
    rw [hanswer] at h
    cases h
  | ok entries =>
    rw [hanswer] at h
    cases h
    rfl

lemma ends_getChildren_sound (hw : CacheSound w.store [] w) (hd : d ≠ "") (hlike : ¬LikeVersion d)
    (opts : ListOptions) :
    CacheEnds {} w (getChildren d opts) fun r w' => ReadKeeps w w' ∧
      ∀ listing, r = .ok listing → answer (listChildren d opts) w.store = .ok listing.entries := by
  have hkeeps : ReadKeeps w w := .refl hw
  have hversion : CacheReturns {} w (directoryListVersion d) fun version w' =>
      ReadKeeps w w' ∧ version = toString (versionOf w d) := by
    refine returns_directoryListVersion neverFails_reliable ?_ ?_ (fun hlost => hlost.elim) ?_
    · intro n hn
      rw [versionOf, numberAt, hn]
      exact ⟨hkeeps, rfl⟩
    · intro hnone
      rw [versionOf, numberAt, hnone]
      exact ⟨hkeeps, rfl⟩
    · intro value text hvalue hnumber
      rcases hw.version d with hnone | hnone
      · rw [hnone] at hvalue
        cases hvalue
      · rw [hnone] at hvalue
        cases hvalue
        exact absurd rfl (hnumber _)
  have hpage (d' : InodeID) : pageKey d (versionOf w d) opts ≠ directoryListVersionKey d' :=
    pageKey_ne_versionKey_of_not_like hlike
  have hput (listing : Listing) (h : listingOf w d opts = .ok listing) :
      EntrySound w.store [] (versionOf w) (pageKey d (versionOf w d) opts) (.children listing) := by
    refine ⟨hpage, fun d' v opts' _ hkey => ?_⟩
    obtain ⟨rfl, rfl, rfl⟩ := pageKey_injective hkey
    exact ⟨le_rfl, fun _ => .inr (listingOf_ok h)⟩
  have hread (version : String) (h : version = toString (versionOf w d)) :
      ReadThrough {} (ReadKeeps w)
        (directoryListKey (d ++ ":v" ++ version) opts.offset opts.limit) ""
        (CacheValue.children <$> loadChildren d opts)
        (loadResult .children (listingOf w d opts)) := by
    subst h
    exact readThrough_sound (fun _ => ends_loadChildren d opts) hpage (fun hne => absurd rfl hne) hput
  refine (ends_getChildren neverFails_reliable hversion hread).mono ?_
  rintro r w' ⟨hw', version, rfl, hr⟩
  refine ⟨hw', fun listing hlisting => ?_⟩
  have hsound := hr.sound (by rintro (_ | _ | _ | _) b ⟨⟩; rfl) hput hlisting
  exact ((hsound.2 d (versionOf w d) opts hd rfl).2 rfl).resolve_left (by simp)

end Reads

def Unseen (w : CacheWorld) : CacheAction → Prop
  | .listChildren parentID _ recursive =>
    parentID = "" ∨ recursive = true ∨ ¬LikeVersion parentID
  | .call _ call =>
    (∀ f ∈ silentFiles w.store call, w.cache.lookup (fileMetaKey f) = none) ∧
    (∀ f ∈ silentPlans w.store call, w.cache.lookup (downloadPlanKey f) = none) ∧
    ∀ d ∈ silentListings w.store call, ∀ opts,
      w.cache.lookup (pageKey d (versionOf w d) opts) = none
  | .coordinator write =>
    ∀ f ∈ rewrittenPlans w.store write, w.cache.lookup (downloadPlanKey f) = none
  | _ => True

section Runs

variable {history : List (CacheWorld × CacheAction)}

lemma mapError_ok {α : Type} {a : Except Fault α} {x : α}
    (h : a.mapError CacheError.store = .ok x) : a = .ok x := by
  cases a with
  | ok _ =>
    cases h
    rfl
  | error _ => cases h

lemma ends_serviceGetFile_sound (hw : CacheSound w.store [] w) (f : FileID) :
    CacheEnds {} w (serviceGetFile f) fun r w' => ReadKeeps w w' ∧
      ∀ file, r = .ok file → answer (Store.getFile { id := f }) w.store = .ok file := by
  by_cases hf : f = ""
  · rw [serviceGetFile, if_neg (not_not.mpr hf)]
    refine (ends_storeGetFile _ (.refl w)).mono ?_
    rintro r w' ⟨hr, rfl⟩
    exact ⟨.refl hw, fun file hfile => mapError_ok (hr.symm.trans hfile)⟩
  · rw [serviceGetFile, if_pos hf]
    exact ends_getFile_sound hw hf

lemma ends_serviceBuildDownloadPlan_sound (hw : CacheSound w.store [] w) (f : FileID) :
    CacheEnds {} w (serviceBuildDownloadPlan f) fun r w' => ReadKeeps w w' ∧
      ∀ plan, r = .ok plan → answer (Service.buildDownloadPlan f) w.store = .ok plan := by
  by_cases hf : f = ""
  · rw [serviceBuildDownloadPlan, if_neg (not_not.mpr hf)]
    refine (ends_storeBuildDownloadPlan _ (.refl w)).mono ?_
    rintro r w' ⟨hr, rfl⟩
    exact ⟨.refl hw, fun plan hplan => mapError_ok (hr.symm.trans hplan)⟩
  · rw [serviceBuildDownloadPlan, if_pos hf]
    exact ends_getDownloadPlan_sound hw hf

lemma ends_serviceListChildren_sound (hw : CacheSound w.store [] w) {recursive : Bool}
    (hunseen : Unseen w (.listChildren d opts recursive)) :
    CacheEnds {} w (serviceListChildren d opts recursive) fun r w' => ReadKeeps w w' ∧
      ∀ listing, r = .ok listing → answer (listChildren d opts) w.store = .ok listing.entries := by
  unfold serviceListChildren
  by_cases hcached : (d ≠ "" && !recursive) = true
  · rw [if_pos hcached]
    simp only [Bool.and_eq_true, decide_eq_true_eq, Bool.not_eq_true'] at hcached
    have hlike : ¬LikeVersion d := by
      rcases hunseen with hempty | hrecursive | hlike
      · exact absurd hempty hcached.1
      · rw [hcached.2] at hrecursive
        cases hrecursive
      · exact hlike
    exact ends_getChildren_sound hw hcached.1 hlike opts
  · rw [if_neg hcached]
    refine (ends_loadChildren d opts (.refl w)).mono ?_
    rintro r w' ⟨hr, rfl⟩
    exact ⟨.refl hw, fun listing hlisting => listingOf_ok (mapError_ok (hr.symm.trans hlisting))⟩

lemma ends_serviceCall_sound (hs : Regular w.store) (hw : CacheSound w.store [] w)
    (hunseen : Unseen w (.call now call)) :
    CacheEnds {} w (serviceCall now call) fun _ w' =>
      CacheSound (call.exec now w.store) [] w' := by
  refine ends_mutate ?_ (ends_soundInvalidation neverFails_reliable)
  obtain ⟨hfiles, hplans, hlistings⟩ := hunseen
  have ht := hs.exec now call
  rcases exec_cases now call w.store with hsame | hyields
  · rw [hsame]
    exact hw.change rfl rfl (fun _ _ => .inr rfl) (fun _ _ _ _ h => .inr h)
      fun _ _ _ _ h => .inr h
  · refine hw.change rfl rfl ?_ ?_ ?_
    · intro f hcached
      rcases call_keepsFile hs.wellFormed hyields f with hkept | hpending | hsilent
      · exact .inr hkept
      · exact .inl hpending
      · exact absurd (hfiles f hsilent) hcached
    · intro f plan hf hcached hanswer
      rcases call_keepsFile hs.wellFormed hyields f with hkept | hpending | hsilent
      · rcases call_keepsChunks hs.wellFormed hyields f with hchunks | hpending | hsilent
        · exact .inr (plan_of_same hf ht.chunkTable hkept hchunks hanswer)
        · exact .inl hpending
        · exact absurd (hplans f hsilent) hcached
      · exact .inl hpending
      · exact absurd (hplans f (silentFiles_subset_silentPlans hsilent)) hcached
    · intro d opts entries hcached hanswer
      rcases call_keepsListing hs.wellFormed hs.parentsAgree hyields d with hkept | hpending | hsilent
      · exact .inr (listing_of_same ht.wellFormed.tree hkept hanswer)
      · exact .inl hpending
      · exact absurd (hlistings d hsilent opts) hcached

lemma acts_sound (hs : Regular w.store) (hw : CacheSound w.store [] w) (hunseen : Unseen w action)
    (h : CacheActs {} w action w') : Regular w'.store ∧ CacheSound w'.store [] w' := by
  have hread (h : ReadKeeps w w') : Regular w'.store ∧ CacheSound w'.store [] w' := by
    rw [h.same.store]
    exact ⟨hs, h.sound⟩
  cases h with
  | @getFile _ f r h => exact hread ((ends_serviceGetFile_sound hw f).of_runs h).1
  | @buildDownloadPlan _ f r h =>
    exact hread ((ends_serviceBuildDownloadPlan_sound hw f).of_runs h).1
  | listChildren h => exact hread ((ends_serviceListChildren_sound hw hunseen).of_runs h).1
  | @call _ now call r h =>
    have hsound := (ends_serviceCall_sound hs hw hunseen).of_runs h
    rw [hsound.store]
    exact ⟨hs.exec now call, hsound⟩
  | @coordinator write s h =>
    have hrewritten := write_rewrites h
    have ht : Regular s := hs.rewritten hrewritten
    refine ⟨ht, hw.change rfl rfl (fun f _ => .inr (by rw [hrewritten.file])) ?_ ?_⟩
    · intro f plan hf hcached hanswer
      have hother : f ∉ rewrittenPlans w.store write := fun hf => hcached (hunseen f hf)
      have hfile : (catalog s).file f = (catalog w.store).file f := by rw [hrewritten.file]
      exact .inr (plan_of_same hf ht.chunkTable hfile (hrewritten.others f hother) hanswer)
    · intro d opts entries _ hanswer
      exact .inr (listing_of_same ht.wellFormed.tree (.of_eq hrewritten.inode) hanswer)
  | @reorder s h =>
    have hcatalog := sameRecords_iff.mp h
    have ht : Regular s := hs.congr hcatalog
    refine ⟨ht, hw.change rfl rfl (fun f _ => .inr (by rw [hcatalog])) ?_ ?_⟩
    · intro f plan hf _ hanswer
      exact .inr (plan_of_same hf ht.chunkTable (by rw [hcatalog]) (.of_eq (by rw [hcatalog]))
        hanswer)
    · intro d opts entries _ hanswer
      exact .inr (listing_of_same ht.wellFormed.tree (.of_eq (by rw [hcatalog])) hanswer)

/-- In every run in which nothing is cached that a call or the coordinator changes without
invalidating it, cached reads return what the repository answers. -/
theorem cachedReads_agree (hrun : CacheRun {} history w) (hunseen : ∀ e ∈ history, Unseen e.1 e.2) :
    (∀ f file w', (serviceGetFile f).run.Runs (cacheSemantics {}) w (.ok file) w' →
      answer (Store.getFile { id := f }) w.store = .ok file) ∧
    (∀ f plan w', (serviceBuildDownloadPlan f).run.Runs (cacheSemantics {}) w (.ok plan) w' →
      answer (Service.buildDownloadPlan f) w.store = .ok plan) ∧
    ∀ d opts recursive listing w', Unseen w (.listChildren d opts recursive) →
      (serviceListChildren d opts recursive).run.Runs (cacheSemantics {}) w (.ok listing) w' →
      answer (listChildren d opts) w.store = .ok listing.entries := by
  have hinv : Regular w.store ∧ CacheSound w.store [] w := by
    refine hrun.invariant_of (I := fun w => Regular w.store ∧ CacheSound w.store [] w) hunseen ?_ ?_
    · rintro w ⟨hs, hcache⟩
      obtain ⟨now, hnow⟩ := bootstrapped_iff.mp hs
      refine ⟨hnow ▸ regular_rootState now, rfl, fun key value hlookup => ?_⟩
      rw [hcache] at hlookup
      cases hlookup
    · rintro w action w' ⟨hs, hw⟩ hC hstep
      exact acts_sound hs hw hC hstep
  refine ⟨fun f file w' h => ?_, fun f plan w' h => ?_, fun d opts recursive listing w' hd h => ?_⟩
  · exact ((ends_serviceGetFile_sound hinv.2 f).of_runs h).2 file rfl
  · exact ((ends_serviceBuildDownloadPlan_sound hinv.2 f).of_runs h).2 plan rfl
  · exact ((ends_serviceListChildren_sound hinv.2 hd).of_runs h).2 listing rfl

end Runs

def pathsOf (actions : List CacheAction) (f : FileID) : Option (String × String) := do
  let (_, w) ← playActions 1 actions
  match ← undisturbed (serviceGetFile f) w, answer (Store.getFile { id := f }) w.store with
  | (.ok cached, _), .ok stored => return (cached.path, stored.path)
  | _, _ => none

lemma pathsOf_cases (h : pathsOf actions f = some (path, path')) :
    ∃ history w cached w' stored, playActions 1 actions = some (history, w) ∧
      undisturbed (serviceGetFile f) w = some (.ok cached, w') ∧
      answer (Store.getFile { id := f }) w.store = .ok stored ∧
      cached.path = path ∧ stored.path = path' := by
  obtain ⟨⟨history, w⟩, hplay, h⟩ := Option.bind_eq_some_iff.mp h
  obtain ⟨⟨r, w'⟩, hget, h⟩ := Option.bind_eq_some_iff.mp h
  split at h
  · rename_i cached _ stored hr hanswer
    cases h
    cases hr
    exact ⟨history, w, cached, w', stored, hplay, hget, hanswer, rfl, rfl⟩
  · cases h

/-- A new file is read for the first time, and then from the cache. -/
theorem createdFile_readTwice : ∃ history w file w', CacheRun {} history w ∧
    (∀ e ∈ history, Unseen e.1 e.2) ∧
    (serviceGetFile "f").run.Runs (cacheSemantics {}) w (.ok file) w' ∧
    answer (Store.getFile { id := "f" }) w.store = .ok file := by
  have heval : pathsOf [.getFile "f", .call 1 (.createFile
      { inodeID := "i1", fileID := "f", parentID := rootInodeID, name := "a", size := 4 })] "f" =
      some ("/a", "/a") := by
    decide +kernel
  obtain ⟨history, w, file, w', -, hplay, hget, -⟩ := pathsOf_cases heval
  obtain ⟨hrun, hactions⟩ : CacheRun {} history w ∧ _ := cacheRun_of_playActions hplay
  have hunseen : ∀ e ∈ history, Unseen e.1 e.2 := by
    intro e he
    have haction := mem_map_of_mem (f := Prod.snd) he
    rw [hactions] at haction
    simp only [map_cons, map_nil, id_eq, mem_cons, not_mem_nil, or_false] at haction
    rcases haction with haction | haction
    · rw [haction]
      trivial
    · rw [haction]
      refine ⟨fun f hf => ?_, fun f hf => ?_, fun d hd => ?_⟩
      · cases hf
      · cases hf
      · cases hd
  have hgets : (serviceGetFile "f").run.Runs (cacheSemantics {}) w (.ok file) w' :=
    runs_of_undisturbed hget
  exact ⟨history, w, file, w', hrun, hunseen, hgets,
    (cachedReads_agree hrun hunseen).1 "f" file w' hgets⟩

/-- A directory is renamed after a file below it was read. -/
theorem renamedDirectory_staleFile : ∃ history w file w', CacheRun {} history w ∧
    (serviceGetFile "f").run.Runs (cacheSemantics {}) w (.ok file) w' ∧
    answer (Store.getFile { id := "f" }) w.store ≠ .ok file := by
  have heval : pathsOf [.call 1 (.renameInode { inodeID := "d", newName := "new" }), .getFile "f",
      .call 1 (.createFile
        { inodeID := "i1", fileID := "f", parentID := "d", name := "a", size := 4 }),
      .call 1 (.createDirectory { inodeID := "d", parentID := rootInodeID, name := "old" })] "f" =
      some ("/old/a", "/new/a") := by
    decide +kernel
  obtain ⟨history, w, cached, w', stored, hplay, hget, hanswer, hold, hnew⟩ := pathsOf_cases heval
  refine ⟨history, w, cached, w', (cacheRun_of_playActions hplay).1, runs_of_undisturbed hget, ?_⟩
  intro hsame
  obtain rfl := Except.ok.inj (hanswer.symm.trans hsame)
  exact absurd (hold.symm.trans hnew) (by decide)

end AstraStorage.Proofs
