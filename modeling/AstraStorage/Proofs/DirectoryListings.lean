import AstraStorage.Proofs.Reachable
import AstraStorage.Proofs.ReadTriples

/-!
# Listings after an invalidation

The version of a directory counts the invalidations of its listing. A page under version `v` was
loaded after the first `v` invalidations, and a reader that starts after an invalidation asks for a
version that counts it.
-/

namespace AstraStorage.Proofs
open Lib Prog Store ReadCache List

variable {log : List (String × Nat)} {d parentID : InodeID} {w w' : CacheWorld} {value : CacheValue}
  {key : String} {r : Except String Unit} {opts : ListOptions} {P : CacheWorld → Prop} {v k : Nat}
  {keys : List String} {tx : MemoryState → MemoryState × List Invalidation} {o : CacheOp}
  {recursive : Bool} {invalidation : Invalidation} {call : ListingCall}

/-! ### Versions and the pages stored under them -/

def bumps (log : List (String × Nat)) (d : InodeID) : List Nat :=
  ((log.filter fun e => e.1 = directoryListVersionKey d).map Prod.snd).reverse

lemma bumps_cons_self (log : List (String × Nat)) (d : InodeID) (n : Nat) :
    bumps ((directoryListVersionKey d, n) :: log) d = bumps log d ++ [n] := by
  simp [bumps]

lemma bumps_cons_of_ne (n : Nat) (h : d' ≠ d) :
    bumps ((directoryListVersionKey d', n) :: log) d = bumps log d := by
  have hkey : directoryListVersionKey d' ≠ directoryListVersionKey d :=
    fun hkey => h (versionKey_injective hkey)
  simp [bumps, hkey]

lemma bumps_of_suffix (h : log <:+ log') (d : InodeID) : bumps log d <+: bumps log' d := by
  obtain ⟨recent, rfl⟩ := h
  simp [bumps]

lemma take_bumps (h : log <:+ log') (hv : v ≤ (bumps log d).length) :
    (bumps log' d).take v = (bumps log d).take v := by
  obtain ⟨recent, hrecent⟩ := bumps_of_suffix h d
  rw [← hrecent, take_append_of_le_length hv]

def LoadedAfter (log : List (String × Nat)) (d : InodeID) (v : Nat) (value : CacheValue) : Prop :=
  ∀ listing, value = .children listing → ∀ n ∈ (bumps log d).take v, n ≤ listing.loadedAt

def versionEntry : Nat → Option CacheValue
  | 0 => none
  | n + 1 => some (.number (n + 1))

structure Versioned (w : CacheWorld) : Prop where
  version : ∀ d, Plain d →
    w.cache.lookup (directoryListVersionKey d) = versionEntry (bumps w.increments d).length
  stamped : ∀ d, ∀ n ∈ bumps w.increments d, n ≤ w.commits
  page : ∀ d v opts value, Plain d → w.cache.lookup (pageKey d v opts) = some value →
    v ≤ (bumps w.increments d).length ∧ LoadedAfter w.increments d v value

structure Advance (w w' : CacheWorld) : Prop where
  log : w.increments <:+ w'.increments
  commits : w.commits ≤ w'.commits
  versioned : Versioned w → Versioned w'

lemma Advance.refl (w : CacheWorld) : Advance w w := ⟨suffix_rfl, le_rfl, fun h => h⟩

lemma Advance.trans (h : Advance w w') (h' : Advance w' w'') : Advance w w'' :=
  ⟨h.log.trans h'.log, h.commits.trans h'.commits, fun hw => h'.versioned (h.versioned hw)⟩

lemma stable_versioned : Stable Advance Versioned := fun _ _ hw h => h.versioned hw

section Changes

lemma advance_of_eq (hcache : w'.cache = w.cache) (hlog : w'.increments = w.increments)
    (hcommits : w.commits ≤ w'.commits) : Advance w w' := by
  refine ⟨hlog ▸ suffix_rfl, hcommits, fun hw => ⟨?_, ?_, ?_⟩⟩
  · rw [hcache, hlog]
    exact hw.version
  · rw [hlog]
    exact fun d n hn => (hw.stamped d n hn).trans hcommits
  · rw [hcache, hlog]
    exact hw.page

lemma advance_remove (hkeys : ∀ key ∈ keys, ∀ d, Plain d → key ≠ directoryListVersionKey d) :
    Advance w (w.remove keys) := by
  refine ⟨suffix_rfl, le_rfl, fun hw => ⟨?_, hw.stamped, ?_⟩⟩
  · intro d hd
    rw [lookup_remove, if_neg fun hmem => hkeys _ hmem d hd rfl]
    exact hw.version d hd
  · intro d v opts value hd hvalue
    rw [lookup_remove] at hvalue
    split at hvalue
    · cases hvalue
    · exact hw.page d v opts value hd hvalue

lemma advance_put (hd : Plain d) (hv : v ≤ (bumps w.increments d).length)
    (hvalue : LoadedAfter w.increments d v value) : Advance w (w.put (pageKey d v opts) value) := by
  refine ⟨suffix_rfl, le_rfl, fun hw => ⟨?_, hw.stamped, ?_⟩⟩
  · intro d' hd'
    have hne : pageKey d v opts ≠ directoryListVersionKey d' := pageKey_ne_versionKey hd'
    exact (AList.lookup_insert_ne hne.symm).trans (hw.version d' hd')
  · intro d' v' opts' value' hd' hvalue'
    by_cases hkey : pageKey d' v' opts' = pageKey d v opts
    · obtain ⟨rfl, rfl, -⟩ := pageKey_injective hkey
      rw [CacheWorld.put, hkey, AList.lookup_insert] at hvalue'
      cases hvalue'
      exact ⟨hv, hvalue⟩
    · exact hw.page d' v' opts' value' hd' ((AList.lookup_insert_ne hkey).symm.trans hvalue')

lemma increment_version (hw : Versioned w) (hd : Plain d)
    (h : w.increment (directoryListVersionKey d) = some w') :
    w'.cache.lookup (directoryListVersionKey d) =
      versionEntry ((bumps w.increments d).length + 1) := by
  have hversion := hw.version d hd
  unfold CacheWorld.increment at h
  rw [hversion] at h
  cases hn : (bumps w.increments d).length with
  | zero | succ _ =>
    rw [hn] at h
    cases h
    exact AList.lookup_insert _

lemma advance_increment (hd : Plain d) (h : w.increment (directoryListVersionKey d) = some w') :
    Advance w w' := by
  obtain ⟨hlog, hcommits, -, -, hother⟩ := increment_cases h
  have hsuffix : w.increments <:+ w'.increments := hlog ▸ suffix_cons _ _
  refine ⟨hsuffix, hcommits.ge, fun hw => ⟨?_, ?_, ?_⟩⟩
  · intro d' hd'
    by_cases heq : d' = d
    · subst heq
      rw [increment_version hw hd h, hlog, bumps_cons_self, length_append]
      rfl
    · rw [hother _ fun hkey => heq (versionKey_injective hkey), hw.version d' hd', hlog,
        bumps_cons_of_ne _ (Ne.symm heq)]
  · intro d' n hn
    rw [hcommits]
    by_cases heq : d' = d
    · subst heq
      rw [hlog, bumps_cons_self, mem_append, mem_singleton] at hn
      rcases hn with hn | rfl
      · exact hw.stamped d' n hn
      · exact le_rfl
    · rw [hlog, bumps_cons_of_ne _ (Ne.symm heq)] at hn
      exact hw.stamped d' n hn
  · intro d' v opts value hd' hvalue
    rw [hother _ (pageKey_ne_versionKey hd)] at hvalue
    obtain ⟨hv, hloaded⟩ := hw.page d' v opts value hd' hvalue
    refine ⟨hv.trans (bumps_of_suffix hsuffix d').length_le, ?_⟩
    intro listing hlisting n hn
    rw [take_bumps hsuffix hv] at hn
    exact hloaded listing hlisting n hn

end Changes

/-! ### Steps of the calls -/

def keepsVersions : RedisFaults where
  mayExpire key := ∀ d, Plain d → key ≠ directoryListVersionKey d
  mayFail := True

section Steps

lemma advance_get {r : Except String (Option CacheValue)}
    (h : CacheStep keepsVersions (.get key) w r w') :
    Advance w w' ∧ ∀ value, r = .ok (some value) → w' = w ∧ w.cache.lookup key = some value := by
  cases h with
  | perform => exact ⟨.refl w, fun value hvalue => ⟨rfl, Except.ok.inj hvalue⟩⟩
  | expired h =>
    refine ⟨advance_remove fun key' hkey' => ?_, fun value hvalue => by cases hvalue⟩
    rw [mem_singleton.mp hkey']
    exact h
  | failedGet _ => exact ⟨.refl w, fun value hvalue => by cases hvalue⟩

lemma step_getVersion {r : Except String (Option String)} (hw : Versioned w) (hd : Plain d)
    (h : CacheStep keepsVersions (.getText (directoryListVersionKey d)) w r w') :
    w' = w ∧ ∀ text, r = .ok text → text.getD "0" = toString (bumps w.increments d).length := by
  have hversion := hw.version d hd
  cases h with
  | perform =>
    simp only [CacheWorld.perform, hversion]
    cases (bumps w.increments d).length with
    | zero | succ n => exact ⟨rfl, fun text htext => Except.ok.inj htext ▸ rfl⟩
  | expiredText h => exact absurd rfl (h d hd)
  | payloadText h hvalue =>
    rw [hversion] at h
    cases hn : (bumps w.increments d).length with
    | zero =>
      rw [hn] at h
      cases h
    | succ n =>
      rw [hn] at h
      exact absurd (Option.some.inj h).symm (hvalue _)
  | failedGetText _ => exact ⟨rfl, fun text htext => by cases htext⟩

lemma advance_set (hd : Plain d) (hv : v ≤ (bumps w.increments d).length)
    (hvalue : LoadedAfter w.increments d v value)
    (h : CacheStep keepsVersions (.set (pageKey d v opts) value) w r w') : Advance w w' := by
  cases h with
  | perform => exact advance_put hd hv hvalue
  | failedSet _ hw =>
    rcases hw with rfl | rfl
    · exact .refl _
    · exact advance_put hd hv hvalue

lemma advance_del (hkeys : ∀ key ∈ keys, ∀ d, Plain d → key ≠ directoryListVersionKey d)
    (h : CacheStep keepsVersions (.del keys) w r w') : Advance w w' := by
  cases h with
  | perform => exact advance_remove hkeys
  | failedDel _ hw =>
    rcases hw with rfl | rfl
    · exact .refl _
    · exact advance_remove hkeys

lemma advance_incr (hd : Plain d)
    (h : CacheStep keepsVersions (.incr (directoryListVersionKey d)) w r w') :
    Advance w w' ∧ (r = .ok () → w.commits ∈ bumps w'.increments d) := by
  have hincrement : ∀ {u}, w.increment (directoryListVersionKey d) = some u →
      w.commits ∈ bumps u.increments d := by
    intro u hu
    rw [(increment_cases hu).1, bumps_cons_self]
    exact mem_append_right _ (mem_singleton_self _)
  cases h with
  | perform =>
    simp only [CacheWorld.perform]
    cases hinc : w.increment (directoryListVersionKey d) with
    | none => exact ⟨.refl w, fun hr => by cases hr⟩
    | some u => exact ⟨advance_increment hd hinc, fun _ => hincrement hinc⟩
  | failedIncr _ hw =>
    refine ⟨?_, fun hr => by cases hr⟩
    rcases hw with rfl | hinc
    · exact .refl _
    · exact advance_increment hd hinc

lemma step_listChildren {r : Except Fault Listing}
    (h : CacheStep keepsVersions (.listChildren parentID opts) w r w') :
    w' = w ∧ ∀ listing, r = .ok listing → listing.loadedAt = w.commits := by
  cases h with
  | perform =>
    refine ⟨rfl, fun listing hlisting => ?_⟩
    simp only [CacheWorld.perform] at hlisting
    cases hentries : answer (Store.listChildren parentID opts) w.store with
    | error e =>
      rw [hentries] at hlisting
      cases hlisting
    | ok entries =>
      rw [hentries] at hlisting
      cases hlisting
      rfl

lemma step_transact {r : List Invalidation × Nat}
    (h : CacheStep keepsVersions (.transact tx) w r w') :
    Advance w w' ∧ w'.commits = r.2 ∧ r.1 = (tx w.store).2 := by
  cases h with
  | perform => exact ⟨advance_of_eq rfl rfl (Nat.le_succ _), rfl, rfl⟩

end Steps

/-! ### Reading a listing -/

abbrev ListingTriple {α : Type} (P : CacheWorld → Prop) (x : CacheM α)
    (Q : α → CacheWorld → Prop) : Prop :=
  Triple (cacheSemantics keepsVersions) Advance (fun _ => Advance) P x Q

structure Reading (d : InodeID) (v k : Nat) (w : CacheWorld) : Prop where
  versioned : Versioned w
  counted : v ≤ (bumps w.increments d).length
  covers : k = 0 ∨ ∃ n ∈ (bumps w.increments d).take v, k ≤ n

def Served (d : InodeID) (v k : Nat) (value : CacheValue) (w : CacheWorld) : Prop :=
  Reading d v k w ∧ LoadedAfter w.increments d v value

section Reading

lemma Reading.stable : Stable Advance (Reading d v k) := by
  intro w w' hw h
  refine ⟨h.versioned hw.versioned, hw.counted.trans (bumps_of_suffix h.log d).length_le, ?_⟩
  rw [take_bumps h.log hw.counted]
  exact hw.covers

lemma Served.stable (value : CacheValue) : Stable Advance (Served d v k value) := by
  intro w w' hw h
  refine ⟨Reading.stable w w' hw.1 h, ?_⟩
  unfold LoadedAfter
  rw [take_bumps h.log hw.1.counted]
  exact hw.2

lemma Served.le_loadedAt (h : Served d v k (.children listing) w) : k ≤ listing.loadedAt := by
  rcases h.1.covers with rfl | ⟨n, hn, hk⟩
  · exact Nat.zero_le _
  · exact hk.trans (h.2 listing rfl n hn)

lemma triple_loadChildren {Q : Listing → CacheWorld → Prop} (hP : Stable Advance P)
    (hQ : ∀ listing, Stable Advance (Q listing))
    (h : ∀ w listing, P w → listing.loadedAt = w.commits → Q listing w) :
    ListingTriple P (loadChildren parentID opts) Q := by
  refine triple_fallible Advance.refl hQ (triple_step hP (Stable.onSuccess hQ) ?_)
  intro w r w' hw hstep
  obtain ⟨rfl, hlisting⟩ := step_listChildren hstep
  exact ⟨.refl _, onSuccess_of fun listing hr => h _ listing hw (hlisting listing hr)⟩

lemma triple_loader : ListingTriple (Reading d v k) (CacheValue.children <$> loadChildren d opts)
    (Served d v k) := by
  refine triple_map Advance.refl (fun listing => Served.stable _) ?_
  refine triple_loadChildren Reading.stable (fun listing => Served.stable _) ?_
  intro w listing hw hloaded
  refine ⟨hw, fun listing' heq n hn => ?_⟩
  cases heq
  rw [hloaded]
  exact hw.versioned.stamped d n (mem_of_mem_take hn)

lemma readsThrough_page (hd : Plain d) (opts : ListOptions) (lockKey : String) :
    ReadsThrough keepsVersions Advance (Reading d v k) (Served d v k) lockKey (pageKey d v opts) ""
      (CacheValue.children <$> loadChildren d opts) where
  locks _ _ := advance_of_eq rfl rfl le_rfl
  stable := Reading.stable
  served := Served.stable
  found w r w' hw hstep := by
    obtain ⟨hadvance, hvalue⟩ := advance_get hstep
    refine ⟨hadvance, fun value hr => ?_⟩
    obtain ⟨rfl, hlookup⟩ := hvalue value hr
    exact ⟨hw, (hw.versioned.page d v opts value hd hlookup).2⟩
  load := triple_loader
  set _ _ _ _ hw hstep := advance_set hd hw.1.counted hw.2 hstep
  setNull hnull := absurd rfl hnull
  delNull hnull := absurd rfl hnull

end Reading

def Invalidated (d : InodeID) (k : Nat) (w : CacheWorld) : Prop :=
  ∃ n ∈ bumps w.increments d, k ≤ n

lemma stable_invalidated (d : InodeID) (k : Nat) : Stable Advance (Invalidated d k) := by
  rintro w w' ⟨n, hn, hk⟩ h
  exact ⟨n, (bumps_of_suffix h.log d).subset hn, hk⟩

lemma stable_commits (k : Nat) : Stable Advance fun w => k ≤ w.commits :=
  fun _ _ hw h => hw.trans h.commits

section Calls

def Ready (d : InodeID) (k : Nat) (w : CacheWorld) : Prop :=
  Versioned w ∧ k ≤ w.commits ∧ (d = "" ∨ k = 0 ∨ Invalidated d k w)

lemma Ready.stable : Stable Advance (Ready d k) := by
  rintro w w' ⟨hw, hk, hd⟩ h
  exact ⟨h.versioned hw, hk.trans h.commits,
    hd.imp_right fun hd => hd.imp_right fun hd => stable_invalidated d k w w' hd h⟩

lemma triple_directoryListVersion (hd : Plain d) (hne : d ≠ "") : ListingTriple (Ready d k)
    (directoryListVersion d) fun text w => ∃ v, text = toString v ∧ Reading d v k w := by
  have hstable : ∀ text : Option String, Stable Advance fun w =>
      ∃ v, text.getD "0" = toString v ∧ Reading d v k w := by
    rintro text w w' ⟨v, htext, hv⟩ h
    exact ⟨v, htext, Reading.stable w w' hv h⟩
  have hread : ListingTriple (Ready d k)
      (fallible (step (.getText (directoryListVersionKey d))) .redis)
      fun text w => ∃ v, text.getD "0" = toString v ∧ Reading d v k w := by
    refine triple_fallible Advance.refl hstable (triple_step Ready.stable (Stable.onSuccess hstable) ?_)
    intro w r w' hw hstep
    obtain ⟨rfl, htext⟩ := step_getVersion hw.1 hd hstep
    refine ⟨.refl _, onSuccess_of fun text hr => ⟨_, htext text hr, hw.1, le_rfl, ?_⟩⟩
    rw [take_length]
    exact hw.2.2.resolve_left hne
  refine triple_bind Advance.refl hread ?_
  rintro (_ | text)
  · exact triple_pure (hstable none) fun _ hw => hw
  · exact triple_pure (hstable (some text)) fun _ hw => hw

lemma triple_getChildren (hd : Plain d) (hne : d ≠ "") : ListingTriple (Ready d k)
    (getChildren d opts) fun listing _ => k ≤ listing.loadedAt := by
  refine triple_bind Advance.refl (triple_directoryListVersion hd hne) ?_
  rintro text w ⟨v, rfl, hw⟩
  revert w
  have hpage := readsThrough_page (v := v) (k := k) hd opts (directoryListLockPrefix ++ d)
  have hdecode : ∀ value (listing : Listing) w, value.asChildren = some listing →
      Served d v k value w → k ≤ listing.loadedAt := by
    rintro (_ | _ | _ | listing) _ w ⟨⟩ hw
    exact hw.le_loadedAt
  refine triple_bind Advance.refl (hpage.loadJSON (fun _ _ _ h _ => h) hdecode) ?_
  rintro (_ | listing)
  · exact (triple_bind Advance.refl hpage.readThroughWithLock
      (hpage.decodePayload hdecode)).pre fun w hw => hw.1
  · refine (triple_pure (fun _ _ h _ => h) fun _ h => h).pre ?_
    exact fun w hw => hw.2 listing rfl

lemma triple_serviceListChildren (hd : Plain d) : ListingTriple (Ready d k)
    (serviceListChildren d opts recursive) fun listing _ => k ≤ listing.loadedAt := by
  have hload : ListingTriple (Ready d k) (loadChildren d opts)
      fun listing _ => k ≤ listing.loadedAt := by
    refine triple_loadChildren Ready.stable (fun _ _ _ h _ => h) ?_
    intro w listing hw hloaded
    rw [hloaded]
    exact hw.2.1
  refine triple_ite (fun hcond => ?_) fun _ => hload
  have hne : d ≠ "" := by
    rintro rfl
    simp at hcond
  exact triple_getChildren hd hne

/-! ### Mutations -/

def Mutated (k : Nat) (done : List Invalidation) (w : CacheWorld) : Prop :=
  k ≤ w.commits ∧ ∀ d, .directory d ∈ done → d = "" ∨ Invalidated d k w

lemma Mutated.stable (k : Nat) (done : List Invalidation) : Stable Advance (Mutated k done) := by
  rintro w w' ⟨hk, hdone⟩ h
  exact ⟨hk.trans h.commits,
    fun d hd => (hdone d hd).imp_right fun hd => stable_invalidated d k w w' hd h⟩

def PlainDirectories (invalidations : List Invalidation) : Prop :=
  ∀ d, .directory d ∈ invalidations → Plain d

lemma triple_invalidation (hplain : ∀ d, invalidation = .directory d → Plain d) :
    ListingTriple (fun w => k ≤ w.commits) invalidation.run
      fun _ w => ∀ d, invalidation = .directory d → d = "" ∨ Invalidated d k w := by
  cases invalidation with
  | file fileID =>
    refine Triple.post (Q := fun _ w => k ≤ w.commits) ?_ fun _ _ _ d hd => by cases hd
    refine triple_ite (fun _ => triple_pure (stable_commits k) fun _ hw => hw) fun _ => ?_
    refine triple_command Advance.refl (stable_commits k)
      (triple_neutral (stable_commits k) fun w r w' _ h => ?_)
    exact advance_del (fun key hkey d _ => versionKey_ne_file fileID d key hkey) h
  | directory d =>
    have hstable : Stable Advance fun w => d = "" ∨ Invalidated d k w :=
      fun w w' hw h => hw.imp_right fun hw => stable_invalidated d k w w' hw h
    refine Triple.post (Q := fun _ w => d = "" ∨ Invalidated d k w) ?_ ?_
    · refine triple_ite (fun hempty => ?_) fun _ => ?_
      · exact triple_pure (stable_commits k) fun _ _ => .inl hempty
      · refine triple_fallible Advance.refl (fun _ => hstable) ?_
        refine triple_step (stable_commits k) (Stable.onSuccess fun _ => hstable) ?_
        intro w r w' hw hstep
        obtain ⟨hadvance, hbump⟩ := advance_incr (hplain d rfl) hstep
        exact ⟨hadvance, onSuccess_of fun _ hr => .inr ⟨w.commits, hbump hr, hw⟩⟩
    · rintro _ w hw d' ⟨⟩
      exact hw

lemma triple_attempted (hplain : ∀ d, invalidation = .directory d → Plain d) :
    ListingTriple (fun w => k ≤ w.commits)
      (do match ← Prog.attempt invalidation.run with
        | .ok _ => return some invalidation
        | .error _ => return none)
      fun r w => k ≤ w.commits ∧ ∀ done ∈ r, Mutated k [done] w := by
  have hstable : ∀ _ : Unit, Stable Advance fun w =>
      ∀ d, invalidation = .directory d → d = "" ∨ Invalidated d k w :=
    fun _ w w' hw h d hd => (hw d hd).imp_right fun hw => stable_invalidated d k w w' hw h
  have hattempt := (triple_invalidation hplain).attempt Advance.refl hstable
    (stable_commits k) (fun _ => stable_commits k) fun _ hw => hw
  refine triple_bind Advance.refl hattempt ?_
  rintro (e | _)
  · refine triple_pure ((Stable.onSuccess hstable _).and (stable_commits k)) fun w hw => ⟨hw.2, ?_⟩
    rintro done ⟨⟩
  · refine triple_pure ((Stable.onSuccess hstable _).and (stable_commits k)) fun w hw => ⟨hw.2, ?_⟩
    rintro done ⟨⟩
    exact ⟨hw.2, fun d hd => hw.1 d (mem_singleton.mp hd).symm⟩

lemma triple_invalidations {invalidations : List Invalidation}
    (hplain : PlainDirectories invalidations) :
    ListingTriple (fun w => k ≤ w.commits)
      (invalidations.filterMapM fun invalidation => do
        match ← Prog.attempt invalidation.run with
        | .ok _ => return some invalidation
        | .error _ => return none)
      (Mutated k) := by
  induction invalidations with
  | nil =>
    exact triple_pure (stable_commits k) fun w hw => ⟨hw, fun d hd => by cases hd⟩
  | cons invalidation rest ih =>
    have hrest := ih fun d hd => hplain d (mem_cons_of_mem _ hd)
    rw [filterMapM_cons]
    refine triple_bind Advance.refl (triple_attempted fun d hd => ?_) ?_
    · exact hplain d (hd ▸ mem_cons_self)
    rintro (_ | done)
    · exact hrest.pre fun w hw => hw.1
    · have hstable := Mutated.stable k [done]
      refine (triple_bind Advance.refl (hrest.frame hstable fun _ => hstable) fun others => ?_).pre
        fun w hw => ⟨hw.1, hw.2 done rfl⟩
      refine triple_pure ((Mutated.stable k others).and hstable) fun w hw => ⟨hw.1.1, fun d hd => ?_⟩
      rcases mem_cons.mp hd with hd | hd
      · exact hw.2.2 d (mem_singleton.mpr hd)
      · exact hw.1.2 d hd

lemma triple_mutate (hplain : ∀ s, PlainDirectories (tx s).2) :
    ListingTriple (fun _ => True) (mutate tx) fun r => Mutated r.1 r.2 := by
  have htransact : ListingTriple (fun _ => True) (step (.transact tx))
      fun r w => PlainDirectories r.1 ∧ r.2 ≤ w.commits := by
    refine triple_step (fun _ _ _ _ => trivial)
      (fun r w w' hw h => ⟨hw.1, hw.2.trans h.commits⟩) fun w r w' _ hstep => ?_
    obtain ⟨hadvance, hcommits, hinvalidations⟩ := step_transact hstep
    exact ⟨hadvance, hinvalidations ▸ hplain w.store, hcommits.ge⟩
  refine triple_bind Advance.refl htransact ?_
  rintro ⟨invalidations, commit⟩
  refine triple_of_pure fun hdirectories => ?_
  refine triple_bind Advance.refl (triple_invalidations hdirectories) fun done => ?_
  exact triple_pure (Mutated.stable commit done) fun _ hw => hw

end Calls

/-! ### Any number of calls -/

inductive ListingCall where
  | listChildren (parentID : InodeID) (opts : ListOptions) (recursive : Bool)
  | mutate (tx : MemoryState → MemoryState × List Invalidation)

inductive ListingReply where
  | listed (listing : Listing)
  | mutated (commit : Nat) (invalidated : List Invalidation)

namespace ListingCall

def program : ListingCall → CacheM ListingReply
  | .listChildren parentID opts recursive =>
    .listed <$> serviceListChildren parentID opts recursive
  | .mutate tx => (fun r => .mutated r.1 r.2) <$> ReadCache.mutate tx

def HasPlainIDs : ListingCall → Prop
  | .listChildren parentID _ _ => Plain parentID
  | .mutate tx => ∀ s, PlainDirectories (tx s).2

end ListingCall

def Told : ListingReply → CacheWorld → Prop
  | .listed _, _ => True
  | .mutated commit invalidated, w => Mutated commit invalidated w

lemma triple_program (hplain : call.HasPlainIDs) : ListingTriple Versioned call.program Told := by
  cases call with
  | listChildren parentID opts recursive =>
    refine triple_map Advance.refl (fun _ _ _ h _ => h) ?_
    refine ((triple_serviceListChildren (k := 0) hplain).pre fun w hw => ?_).post
      fun _ _ _ => trivial
    exact ⟨hw, Nat.zero_le _, .inr (.inl rfl)⟩
  | mutate tx =>
    refine triple_map Advance.refl
      (fun r => Mutated.stable r.1 r.2) ?_
    exact (triple_mutate hplain).pre fun _ _ => trivial

def ListedAfter (k : Nat) : ListingReply → CacheWorld → Prop
  | .listed listing, _ => k ≤ listing.loadedAt
  | .mutated .., _ => True

lemma triple_listChildren (hd : Plain d) :
    ListingTriple (Ready d k) (ListingCall.listChildren d opts recursive).program
      (ListedAfter k) := by
  exact triple_map Advance.refl (fun _ _ _ h _ => h) (triple_serviceListChildren hd)

lemma versioned_empty (s : MemoryState) : Versioned { store := s } where
  version _ _ := rfl
  stamped _ _ hn := absurd hn not_mem_nil
  page _ _ _ _ _ hvalue := by cases hvalue

/-- In every interleaving of calls on an empty cache, a `ListChildren` that has not started when a
mutation with commit `k` is done, and has invalidated the listing, returns a listing that was
loaded after that commit. -/
theorem listing_not_stale {ι : Type} [DecidableEq ι] {calls : ι → ListingCall}
    (hplain : ∀ i, (calls i).HasPlainIDs) {s : MemoryState}
    {before after : List (Pool ι cacheSteps (Except CacheError ListingReply) CacheWorld ×
      (ι × CacheOp))}
    {c c' : Pool ι cacheSteps (Except CacheError ListingReply) CacheWorld}
    (hbefore : Interleaving (fun _ => cacheSemantics keepsVersions)
      (fun i => (calls i).program.run, { store := s }) before c)
    (hafter : Interleaving (fun _ => cacheSemantics keepsVersions) c after c')
    {i j : ι} {d : InodeID} {opts : ListOptions} {recursive : Bool} {k : Nat}
    {invalidated : List Invalidation} {listing : Listing}
    (hj : c.1 j = .done (.ok (.mutated k invalidated))) (hd : .directory d ∈ invalidated)
    (hcall : calls i = .listChildren d opts recursive) (hi : c.1 i = (calls i).program.run)
    (hlisted : c'.1 i = .done (.ok (.listed listing))) : k ≤ listing.loadedAt := by
  have hguarantees : ∀ l, (c.1 l).Guarantees (cacheSemantics keepsVersions) Advance
      (fun _ => Advance) (fun reply w => OnSuccess Told reply w ∧ Versioned w) c.2 := by
    refine hbefore.guarantees (fun _ => Advance.refl) (fun _ _ _ _ => Advance.trans)
      (fun _ _ _ _ _ _ h => h) fun l => ?_
    exact (triple_program (hplain l) _ (versioned_empty s)).frame stable_versioned
      (fun _ => stable_versioned) (versioned_empty s)
  have hready : Ready d k c.2 := by
    have hmutation := hguarantees j
    rw [hj] at hmutation
    obtain ⟨hmutated, hversioned⟩ := hmutation c.2 (.refl _)
    exact ⟨hversioned, hmutated.1, (hmutated.2 d hd).imp_right .inr⟩
  have hlisting : Plain d := by
    have hi := hplain i
    rwa [hcall] at hi
  have hlast : (c'.1 i).Guarantees (cacheSemantics keepsVersions) Advance
      (fun _ => Advance) (fun reply w => i = i → OnSuccess (ListedAfter k) reply w) c'.2 := by
    refine hafter.guarantees (Q := fun l reply w => l = i → OnSuccess (ListedAfter k) reply w)
      (fun _ => Advance.refl) (fun _ _ _ _ => Advance.trans) (fun _ _ _ _ _ _ h => h) (fun l => ?_) i
    by_cases hl : l = i
    · subst hl
      rw [hi, hcall]
      exact (triple_listChildren hlisting c.2 hready).mono fun _ _ hreply _ => hreply
    · exact (hguarantees l).mono fun _ _ _ hl' => absurd hl' hl
  rw [hlisted] at hlast
  exact hlast c'.2 (.refl _) rfl

def ListingCall.alone (call : ListingCall) (w : CacheWorld) : Option (ListingReply × CacheWorld) :=
  match call.program.run.execute (fun o w => some (w.perform o)) w with
  | some (.ok reply, w') => some (reply, w')
  | _ => none

lemma ListingCall.runs_of_alone (h : call.alone w = some (reply, w')) :
    call.program.run.Runs (cacheSemantics keepsVersions) w (.ok reply) w' := by
  unfold ListingCall.alone at h
  split at h
  · rename_i hrun
    cases h
    exact runs_of_execute (fun _ _ _ _ hstep => step_of_perform hstep) hrun
  · cases h

def listedAfterCreate : Bool → ListingCall
  | true => .mutate fun s =>
      ((Service.Call.createDirectory { inodeID := "d1", parentID := "root", name := "docs" }).exec
        1 s, [.directory "root"])
  | false => .listChildren "root" { limit := 10 } false

def createThenList : Option (Nat × List Invalidation × Nat) := do
  match ← (listedAfterCreate true).alone { store := rootState 1 } with
  | (.mutated k invalidated, w) =>
    match ← (listedAfterCreate false).alone w with
    | (.listed listing, _) => return (k, invalidated, listing.loadedAt)
    | _ => none
  | _ => none

lemma createThenList_cases (h : createThenList = some (k, invalidated, n)) :
    ∃ w w' listing,
      (listedAfterCreate true).alone { store := rootState 1 } = some (.mutated k invalidated, w) ∧
      (listedAfterCreate false).alone w = some (.listed listing, w') ∧ listing.loadedAt = n := by
  unfold createThenList at h
  obtain ⟨⟨reply, w⟩, hmutation, h⟩ := Option.bind_eq_some_iff.mp h
  cases reply with
  | listed listing => cases h
  | mutated commit done =>
    obtain ⟨⟨reply, w'⟩, hlist, h⟩ := Option.bind_eq_some_iff.mp h
    cases reply with
    | mutated commit done => cases h
    | listed listing =>
      cases h
      exact ⟨w, w', listing, hmutation, hlist, rfl⟩

theorem created_isListed : ∃ (w w' : CacheWorld) (listing : Listing),
    (listedAfterCreate true).alone { store := rootState 1 } =
      some (.mutated 1 [.directory "root"], w) ∧
    (listedAfterCreate false).alone w = some (.listed listing, w') ∧ 1 ≤ listing.loadedAt := by
  have heval : createThenList = some (1, [.directory "root"], 1) := by decide +kernel
  obtain ⟨w, w', listing, hmutation, hlist, -⟩ := createThenList_cases heval
  obtain ⟨before, hbefore⟩ := exists_interleaving_of_runs
    (fun _ => cacheSemantics keepsVersions) (fun i => (listedAfterCreate i).program.run) rfl
    (ListingCall.runs_of_alone hmutation)
  obtain ⟨after, hafter⟩ := exists_interleaving_of_runs
    (fun _ => cacheSemantics keepsVersions)
    (Function.update (fun i => (listedAfterCreate i).program.run) true _)
    (Function.update_of_ne (by decide : false ≠ true) _ _) (ListingCall.runs_of_alone hlist)
  refine ⟨w, w', listing, hmutation, hlist, ?_⟩
  have hroot : Plain "root" := by decide +kernel
  have hplain : ∀ i, (listedAfterCreate i).HasPlainIDs := by
    rintro (_ | _)
    · exact hroot
    · intro s d hd
      cases mem_singleton.mp hd
      exact hroot
  have hmutated : .directory "root" ∈ [Invalidation.directory "root"] := mem_cons_self
  exact listing_not_stale (i := false) (j := true) hplain hbefore hafter
    (by simp) hmutated rfl (by simp) (by simp)

end AstraStorage.Proofs
