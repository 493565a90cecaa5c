import PairDB.StorageNode.Node

/-!
# A node reads what was last written

A version of a key is in up to three places below the cache: the current memtable, the one that is
being flushed, and the SSTables. As long as these are ordered by age (`Ordered`), the first place
that has the key has the newest version.

A flush is what can break the order. `SSTableService.Get` compares timestamps, which are seconds,
and keeps the older table if they are equal. So a flush does no harm to a key if no table has
another version of the same second (`Undisturbed`). With that, every read answers the version that
was stored last under the composite key (`read_answers_seenAt`), and the version that was last
written for the tenant if nobody else's repair has the same composite key.
-/

namespace PairDB.StorageNode

open Infra SSTableReader

/-! ## Three layers -/

/-- The versions of a key in the order in which a read looks for them. -/
def layers (cur imm sst : Option KeyValueEntry) : List KeyValueEntry :=
  cur.toList ++ (imm.toList ++ sst.toList)

/-- The versions are ordered by age, with positive timestamps up to `clock`. -/
structure Ordered (clock : Int) (cur imm sst : Option KeyValueEntry) : Prop where
  descending : (layers cur imm sst).Pairwise fun a b => b.timestamp ≤ a.timestamp
  bounded : ∀ e ∈ layers cur imm sst, 0 < e.timestamp ∧ e.timestamp ≤ clock

namespace Ordered

variable {clock clock' : Int} {cur imm sst : Option KeyValueEntry} {e : KeyValueEntry}

theorem empty : Ordered clock none none none := ⟨List.Pairwise.nil, fun _ h => by cases h⟩

/-- Fewer versions, a later clock. -/
theorem of_sublist {cur' imm' sst' : Option KeyValueEntry} (h : Ordered clock cur imm sst)
    (hsub : (layers cur' imm' sst').Sublist (layers cur imm sst)) (hclock : clock ≤ clock') :
    Ordered clock' cur' imm' sst' := by
  refine ⟨h.descending.sublist hsub, fun e he => ?_⟩
  obtain ⟨hpos, hle⟩ := h.bounded e (hsub.subset he)
  exact ⟨hpos, hle.trans hclock⟩

/-- A new version on top. -/
theorem push (h : Ordered clock cur imm sst) (hclock : clock ≤ e.timestamp)
    (hpos : 0 < e.timestamp) : Ordered e.timestamp (some e) imm sst := by
  have hsub : (layers none imm sst).Sublist (layers cur imm sst) := by
    simp [layers]
  have hrest := h.of_sublist hsub hclock
  refine ⟨List.pairwise_cons.mpr ⟨?_, hrest.descending⟩, ?_⟩
  · intro b hb
    exact (hrest.bounded b hb).2
  · intro b hb
    rcases List.mem_cons.mp hb with rfl | hb
    · exact ⟨hpos, le_refl _⟩
    · exact hrest.bounded b hb

/-- The version that is being flushed becomes the one of the SSTables. -/
theorem sink (h : Ordered clock cur (some e) sst) : Ordered clock cur (some e) (some e) := by
  have hsub : (layers cur (some e) none).Sublist (layers cur (some e) sst) := by
    simp [layers]
  have htop := h.of_sublist hsub (le_refl clock)
  have happ : layers cur (some e) (some e) = layers cur (some e) none ++ [e] := by simp [layers]
  have hle : ∀ a ∈ layers cur (some e) none, e.timestamp ≤ a.timestamp := by
    intro a ha
    have hdesc := htop.descending
    cases cur with
    | none =>
      have hae : a = e := by simpa [layers] using ha
      rw [hae]
    | some c =>
      rcases List.mem_cons.mp ha with rfl | ha
      · exact (List.pairwise_cons.mp hdesc).1 e (by simp)
      · have hae : a = e := by simpa using ha
        rw [hae]
  refine ⟨?_, ?_⟩
  · rw [happ, List.pairwise_append]
    refine ⟨htop.descending, List.pairwise_singleton _ _, ?_⟩
    intro a ha b hb
    rw [List.mem_singleton.mp hb]
    exact hle a ha
  · intro a ha
    rw [happ, List.mem_append, List.mem_singleton] at ha
    rcases ha with ha | rfl
    · exact htop.bounded a ha
    · exact htop.bounded a (by simp [layers])

/-- The comparison of `SSTableService.Get` keeps the version that is being flushed, if the tables
have no other version of the same second. -/
theorem keepLatest_eq (h : Ordered clock cur (some e) sst)
    (hdistinct : ∀ e', sst = some e' → e'.timestamp = e.timestamp → e' = e) :
    SSTableService.keepLatest sst (some e) = some e := by
  cases hsst : sst with
  | none =>
    have hpos := (h.bounded e (by simp [layers])).1
    rw [SSTableService.keepLatest]
    exact if_pos hpos
  | some e' =>
    subst hsst
    have hle : e'.timestamp ≤ e.timestamp := by
      have hdesc := h.descending
      rw [layers, List.pairwise_append] at hdesc
      exact (List.pairwise_cons.mp hdesc.2.1).1 e' (by simp)
    rw [SSTableService.keepLatest]
    by_cases heq : e'.timestamp = e.timestamp
    · rw [hdistinct e' rfl heq]
      exact ite_self _
    · exact if_pos (lt_of_le_of_ne hle heq)

end Ordered

/-! ## The invariant -/

/-- The version of a key in the current memtable. -/
def Node.current (n : Node) (key : String) : Option KeyValueEntry :=
  (n.service.memTable.memTable.get key).map toKeyValueEntry

/-- The version of a key in the memtable that is being flushed. -/
def Node.frozen (n : Node) (key : String) : Option KeyValueEntry :=
  (n.service.memTable.immutableMT.bind fun mt => mt.get key).map toKeyValueEntry

/-- What the phase of a flush says about the memtable that was set aside. -/
def Node.PhaseOk (n : Node) (key : String) (sst : Option KeyValueEntry) : Prop :=
  match n.flush with
  | .idle => n.service.memTable.immutableMT = none
  | .writing immutable => n.service.memTable.immutableMT = some immutable ∧ immutable.size ≠ 0
  | .written => ∀ e, n.frozen key = some e → sst = some e

/-- The places where a version of the key can be agree with what was stored last. -/
structure Layered (tenantID key : String) (events : List Event) (n : Node)
    (sst : Option KeyValueEntry) : Prop where
  onlyL0 : n.service.sstables.OnlyL0
  get : n.service.sstables.get tenantID key = .ok sst
  phase : n.PhaseOk (buildKey tenantID key) sst
  ordered : Ordered n.clock (n.current (buildKey tenantID key))
    (n.frozen (buildKey tenantID key)) sst
  top : ((n.current (buildKey tenantID key)).or (n.frozen (buildKey tenantID key))).or sst =
    (newest (buildKey tenantID key) events).map toKeyValueEntry
  cached : ∀ seen, n.service.cache.lookup (buildKey tenantID key) = some seen →
    (newest (buildKey tenantID key) events).bind StorageService.visible = some seen

/-- A flush that does no harm to a key: its table can be read, and no table has another version of
the same second. -/
structure FlushHarmless (s : SSTableService) (nanos : Int) (mt : MemTable) (key : String) :
    Prop where
  readable : s.FlushReadable nanos mt key
  distinct : ∀ e table e', mt.get key = some e → table ∈ s.tables →
    s.tableGet key table = .ok (some e') → e'.timestamp = e.timestamp → e' = toKeyValueEntry e

/-- An event that does no harm to a key. -/
def Undisturbed (key : String) (n : Node) : Event → Prop
  | .writeTable nanos => ∀ immutable, n.flush = .writing immutable →
      FlushHarmless n.service.sstables nanos immutable key
  | _ => True

instance (s : SSTableService) (nanos : Int) (mt : MemTable) (key : String) :
    Decidable (FlushHarmless s nanos mt key) :=
  decidable_of_iff
    (((∀ table ∈ s.tables, table.filePath ≠ s.flushPath nanos) ∧
        SSTableWriter.IndexReadable mt.entries ∧ ∀ e ∈ mt.get key, Storable e) ∧
      ∀ e ∈ mt.get key, ∀ table ∈ s.tables, ∀ e' ∈ (s.tableGet key table).toOption.join,
        e'.timestamp = e.timestamp → e' = toKeyValueEntry e) <| by
    constructor
    · rintro ⟨⟨hfresh, hindex, hstore⟩, hdistinct⟩
      refine ⟨⟨hfresh, hindex, hstore⟩, fun e table e' he htable hget => ?_⟩
      exact hdistinct e he table htable e' (by rw [hget]; rfl)
    · intro h
      refine ⟨⟨h.readable.fresh, h.readable.index, h.readable.storable⟩, ?_⟩
      intro e he table htable e' he'
      cases hget : s.tableGet key table with
      | error fault => rw [hget] at he'; cases he'
      | ok found =>
        rw [hget] at he'
        exact h.distinct e table e' he htable (by rw [hget]; exact congrArg Except.ok he')

instance (key : String) (n : Node) : (event : Event) → Decidable (Undisturbed key n event)
  | .writeTable nanos =>
    match hflush : n.flush with
    | .writing immutable =>
      decidable_of_iff (FlushHarmless n.service.sstables nanos immutable key) <| by
        constructor
        · intro h immutable' h'
          rw [hflush, FlushPhase.writing.injEq] at h'
          exact h' ▸ h
        · intro h
          exact h immutable hflush
    | .idle => .isTrue fun immutable h => by rw [hflush] at h; cases h
    | .written => .isTrue fun immutable h => by rw [hflush] at h; cases h
  | .call _ _ => .isTrue trivial
  | .beginFlush => .isTrue trivial
  | .endFlush => .isTrue trivial
  | .evict _ => .isTrue trivial

variable {tenantID key : String} {events : List Event} {n n' : Node} {sst : Option KeyValueEntry}

theorem below_eq (n : Node) (tenantID key : String) (sst : Option KeyValueEntry) :
    n.service.below tenantID key sst =
      ((n.current (buildKey tenantID key)).or (n.frozen (buildKey tenantID key))).or sst := by
  unfold StorageService.below Node.current Node.frozen MemTableService.get
  cases n.service.memTable.memTable.get (buildKey tenantID key) with
  | some e => rfl
  | none => cases n.service.memTable.immutableMT <;> rfl

theorem Layered.init (commitLog : CommitLogService) (flushThreshold cacheSize : Int)
    (dataDir : String) (bloom : BloomParams) (tenantID key : String) :
    Layered tenantID key [] (Node.init commitLog flushThreshold cacheSize dataDir bloom) none where
  onlyL0 := fun _ _ => rfl
  get := rfl
  phase := rfl
  ordered := by
    have hcur : (Node.init commitLog flushThreshold cacheSize dataDir bloom).current
        (buildKey tenantID key) = none := by
      simp [Node.current, Node.init, MemTableService.new]
    rw [hcur]
    exact Ordered.empty
  top := by simp [Node.current, Node.frozen, Node.init, MemTableService.new, newest]
  cached := by
    intro seen hseen
    simp [Node.init] at hseen

/-- What is to be seen below the cache. -/
theorem Layered.visible_below (h : Layered tenantID key events n sst) :
    (n.service.below tenantID key sst).bind StorageService.visibleVersion =
      (newest (buildKey tenantID key) events).bind StorageService.visible := by
  rw [below_eq, h.top]
  cases newest (buildKey tenantID key) events <;> rfl

/-! ## The steps -/

/-- A step that leaves the tables and the memtables alone, and takes entries from the cache at most
under this key. -/
theorem Layered.of_cacheOnly {event : Event} (h : Layered tenantID key events n sst)
    (hstored : event.stored = none) (hflush : n'.flush = n.flush)
    (hmem : n'.service.memTable = n.service.memTable)
    (hsst : n'.service.sstables = n.service.sstables) (hclock : n.clock ≤ n'.clock)
    (hcache : ∀ seen, n'.service.cache.lookup (buildKey tenantID key) = some seen →
      (newest (buildKey tenantID key) events).bind StorageService.visible = some seen) :
    Layered tenantID key (events ++ [event]) n' sst := by
  have hcur : n'.current (buildKey tenantID key) = n.current (buildKey tenantID key) := by
    rw [Node.current, hmem, Node.current]
  have hfro : n'.frozen (buildKey tenantID key) = n.frozen (buildKey tenantID key) := by
    rw [Node.frozen, hmem, Node.frozen]
  have hnew : newest (buildKey tenantID key) (events ++ [event]) =
      newest (buildKey tenantID key) events := by
    rw [newest_concat, hstored]
  refine ⟨?_, ?_, ?_, ?_, ?_, ?_⟩
  · rw [hsst]
    exact h.onlyL0
  · rw [hsst]
    exact h.get
  · have hphase := h.phase
    unfold Node.PhaseOk at hphase ⊢
    rw [hflush, hmem, hfro]
    exact hphase
  · rw [hcur, hfro]
    exact h.ordered.of_sublist (List.Sublist.refl _) hclock
  · rw [hcur, hfro, hnew]
    exact h.top
  · rw [hnew]
    exact hcache

/-- A step that stores an entry. -/
theorem Layered.of_mutated {event : Event} {e : MemTableEntry}
    (h : Layered tenantID key events n sst) (hstored : event.stored = some e)
    (hflush : n'.flush = n.flush) (hmut : StorageService.Mutated n.service n'.service e)
    (htime : e.timestamp = n'.clock) (hclock : n.clock ≤ n'.clock) (hpos : 0 < n'.clock) :
    Layered tenantID key (events ++ [event]) n' sst := by
  have himm : n'.service.memTable.immutableMT = n.service.memTable.immutableMT := by
    rw [hmut.memTable]
    rfl
  have hfro : n'.frozen (buildKey tenantID key) = n.frozen (buildKey tenantID key) := by
    rw [Node.frozen, himm, Node.frozen]
  have hcur : n'.current (buildKey tenantID key) =
      if e.key = buildKey tenantID key then some (toKeyValueEntry e)
      else n.current (buildKey tenantID key) := by
    rw [Node.current, hmut.memTable, MemTableService.put, MemTable.get_put]
    by_cases hkey : e.key = buildKey tenantID key
    · rw [if_pos hkey, if_pos hkey]
      rfl
    · rw [if_neg hkey, if_neg hkey]
      rfl
  have hphase : n'.PhaseOk (buildKey tenantID key) sst := by
    have hphase := h.phase
    unfold Node.PhaseOk at hphase ⊢
    rw [hflush, himm, hfro]
    exact hphase
  have honly : n'.service.sstables.OnlyL0 := by
    rw [hmut.sstables]
    exact h.onlyL0
  have hget : n'.service.sstables.get tenantID key = .ok sst := by
    rw [hmut.sstables]
    exact h.get
  by_cases hkey : e.key = buildKey tenantID key
  · -- the entry is the newest one of this key
    have hnew : newest (buildKey tenantID key) (events ++ [event]) = some e := by
      rw [newest_concat, hstored]
      exact if_pos hkey
    rw [if_pos hkey] at hcur
    refine ⟨honly, hget, hphase, ?_, ?_, ?_⟩
    · rw [hcur, hfro, ← htime]
      rw [← htime] at hclock hpos
      show Ordered (toKeyValueEntry e).timestamp (some (toKeyValueEntry e)) _ sst
      exact h.ordered.push hclock hpos
    · rw [hcur, hnew]
      rfl
    · intro seen hseen
      rw [← hkey, hmut.cached] at hseen
      rw [hnew]
      exact hseen
  · have hnew : newest (buildKey tenantID key) (events ++ [event]) =
        newest (buildKey tenantID key) events := by
      rw [newest_concat, hstored]
      exact if_neg hkey
    rw [if_neg hkey] at hcur
    refine ⟨honly, hget, hphase, ?_, ?_, ?_⟩
    · rw [hcur, hfro]
      exact h.ordered.of_sublist (List.Sublist.refl _) hclock
    · rw [hcur, hfro, hnew]
      exact h.top
    · intro seen hseen
      rw [hnew]
      rcases hmut.others _ hkey with hnone | hsame
      · rw [hnone] at hseen
        cases hseen
      · exact h.cached seen (hsame ▸ hseen)

theorem Layered.call {env : CallEnv} {request : Request} (h : Layered tenantID key events n sst)
    (hpos : 0 < n.clock) (hstep : n.step (.call env request) = some n') :
    Layered tenantID key (events ++ [.call env request]) n' sst := by
  simp only [Node.step, Node.stepWith] at hstep
  split at hstep
  · next hclock =>
    obtain ⟨service, hperform, rfl⟩ := Option.map_eq_some_iff.mp hstep
    rcases StorageService.perform_spec hperform with ⟨e, hstored, hmut⟩ | ⟨t, k, r, rfl, hread, hret⟩
    · have htime : e.timestamp = env.now := Request.timestamp_of_stored hstored
      exact h.of_mutated hstored rfl hmut htime hclock (lt_of_lt_of_le hpos hclock)
    · have hframe := StorageService.read_frame hread
      refine h.of_cacheOnly rfl rfl hframe.memTable hframe.sstables hclock ?_
      intro seen hseen
      by_cases hkey : buildKey t k = buildKey tenantID key
      · -- a read of the same composite key, under whatever tenant
        have hget : n.service.sstables.get t k = .ok sst := by
          rw [SSTableService.get, hkey]
          exact h.get
        have hbelow : n.service.below t k sst = n.service.below tenantID key sst := by
          rw [StorageService.below, hkey, StorageService.below]
        have hcached : ∀ seen, n.service.cache.lookup (buildKey t k) = some seen →
            (n.service.below t k sst).bind StorageService.visibleVersion = some seen := by
          intro seen hseen
          rw [hbelow, h.visible_below]
          exact h.cached seen (hkey ▸ hseen)
        have hspec := StorageService.read_spec hget hcached hread hret
        rw [hbelow, h.visible_below] at hspec
        rcases hspec.cached with hnone | hsame
        · rw [hkey] at hnone
          rw [hnone] at hseen
          cases hseen
        · rw [hkey] at hsame
          exact hsame.symm.trans hseen
      · rcases hframe.others _ hkey with hnone | hsame
        · rw [hnone] at hseen
          cases hseen
        · exact h.cached seen (hsame ▸ hseen)
  · cases hstep

/-- Setting the memtable aside moves the current version one layer down. -/
theorem Layered.beginFlush (h : Layered tenantID key events n sst)
    (hstep : n.step .beginFlush = some n') :
    Layered tenantID key (events ++ [.beginFlush]) n' sst := by
  simp only [Node.step, Node.stepWith] at hstep
  split at hstep
  · next hidle =>
    have himm : n.service.memTable.immutableMT = none := by
      have hphase := h.phase
      unfold Node.PhaseOk at hphase
      rwa [hidle] at hphase
    have hfro : n.frozen (buildKey tenantID key) = none := by
      rw [Node.frozen, himm]
      rfl
    obtain ⟨⟨immutable, memTable⟩, hbegin, rfl⟩ := Option.map_eq_some_iff.mp hstep
    unfold MemTableService.beginFlush at hbegin
    split at hbegin
    · cases hbegin
    · next hsize =>
      cases hbegin
      have hord := h.ordered
      have htop := h.top
      rw [hfro] at hord htop
      have hnew : newest (buildKey tenantID key) (events ++ [.beginFlush]) =
          newest (buildKey tenantID key) events := newest_concat _ _ _
      refine ⟨h.onlyL0, h.get, ⟨rfl, hsize⟩, ?_, ?_, ?_⟩
      · refine hord.of_sublist ?_ (le_refl _)
        simp [Node.current, Node.frozen, layers]
      · rw [hnew, ← htop]
        simp [Node.current, Node.frozen]
      · rw [hnew]
        exact h.cached
  · cases hstep

/-- A harmless flush makes the version of the memtable the one of the SSTables. -/
theorem Layered.writeTable {nanos : Int} (h : Layered tenantID key events n sst)
    (hok : Undisturbed (buildKey tenantID key) n (.writeTable nanos))
    (hstep : n.step (.writeTable nanos) = some n') :
    ∃ sst', Layered tenantID key (events ++ [.writeTable nanos]) n' sst' := by
  simp only [Node.step, Node.stepWith] at hstep
  split at hstep
  · next immutable hflush =>
    have hharm := hok immutable hflush
    have hphase := h.phase
    unfold Node.PhaseOk at hphase
    rw [hflush] at hphase
    obtain ⟨himm, hsize⟩ := hphase
    split at hstep
    · next sstables hwrite =>
      cases hstep
      obtain ⟨honly, hget⟩ := SSTableService.get_flush h.onlyL0 (MemTable.entries_ne_nil hsize)
        hharm.readable h.get hwrite
      have hfro : n.frozen (buildKey tenantID key) =
          (immutable.get (buildKey tenantID key)).map toKeyValueEntry := by
        rw [Node.frozen, himm]
        rfl
      have hnew : newest (buildKey tenantID key) (events ++ [.writeTable nanos]) =
          newest (buildKey tenantID key) events := newest_concat _ _ _
      have hord := h.ordered
      have htop := h.top
      cases hentry : immutable.get (buildKey tenantID key) with
      | none =>
        rw [hentry] at hget hfro
        refine ⟨sst, honly, hget, ?_, hord, ?_, ?_⟩
        · intro e he
          exact absurd (hfro.symm.trans he) (by rintro ⟨⟩)
        · rw [hnew]
          exact htop
        · rw [hnew]
          exact h.cached
      | some e =>
        rw [hentry, Option.map_some] at hget hfro
        rw [hfro] at hord htop
        have hkeep : SSTableService.keepLatest sst (some (toKeyValueEntry e)) =
            some (toKeyValueEntry e) := by
          refine hord.keepLatest_eq fun e' he' hsec => ?_
          have hfound := h.get
          rw [he'] at hfound
          rcases SSTableService.found_of_getLoop hfound with hnone | ⟨table, htable, hin⟩
          · cases hnone
          · exact hharm.distinct e table e' hentry htable hin hsec
        rw [hkeep] at hget
        refine ⟨some (toKeyValueEntry e), honly, hget, ?_, ?_, ?_, ?_⟩
        · intro e' he'
          exact hfro.symm.trans he'
        · show Ordered n.clock (n.current _) (n.frozen _) _
          rw [hfro]
          exact hord.sink
        · show ((n.current _).or (n.frozen _)).or _ = _
          rw [hnew, ← htop, hfro]
          cases n.current (buildKey tenantID key) <;> rfl
        · rw [hnew]
          exact h.cached
    · cases hstep
  · cases hstep

theorem Layered.endFlush (h : Layered tenantID key events n sst)
    (hstep : n.step .endFlush = some n') :
    Layered tenantID key (events ++ [.endFlush]) n' sst := by
  simp only [Node.step, Node.stepWith] at hstep
  split at hstep
  · next hwritten =>
    cases hstep
    have hphase := h.phase
    unfold Node.PhaseOk at hphase
    rw [hwritten] at hphase
    have hnew : newest (buildKey tenantID key) (events ++ [.endFlush]) =
        newest (buildKey tenantID key) events := newest_concat _ _ _
    refine ⟨h.onlyL0, h.get, rfl, ?_, ?_, ?_⟩
    · refine h.ordered.of_sublist ?_ (le_refl _)
      simp [layers, Node.current, Node.frozen, MemTableService.endFlush]
    · rw [hnew, ← h.top]
      show ((n.current _).or none).or sst = _
      cases hfro : n.frozen (buildKey tenantID key) with
      | none => rfl
      | some e =>
        rw [hphase e hfro]
        cases n.current (buildKey tenantID key) <;> rfl
    · rw [hnew]
      exact h.cached
  · cases hstep

theorem Layered.evict {victim : String} (h : Layered tenantID key events n sst)
    (hstep : n.step (.evict victim) = some n') :
    Layered tenantID key (events ++ [.evict victim]) n' sst := by
  cases hstep
  refine h.of_cacheOnly rfl rfl rfl rfl (le_refl _) ?_
  intro seen hseen
  rw [CacheService.lookup_remove] at hseen
  split at hseen
  · cases hseen
  · exact h.cached seen hseen

/-! ## Whole runs -/

/-- What holds in every state of a run without a harmful flush. -/
def Agrees (tenantID key : String) (events : List Event) (n : Node) : Prop :=
  0 < n.clock ∧ ∃ sst, Layered tenantID key events n sst

theorem clock_le_of_step {event : Event} (hstep : n.step event = some n') : n.clock ≤ n'.clock := by
  cases event with
  | call env request =>
    simp only [Node.step, Node.stepWith] at hstep
    split at hstep
    · next hclock =>
      obtain ⟨service, -, rfl⟩ := Option.map_eq_some_iff.mp hstep
      exact hclock
    · cases hstep
  | beginFlush =>
    simp only [Node.step, Node.stepWith] at hstep
    split at hstep
    · obtain ⟨p, -, rfl⟩ := Option.map_eq_some_iff.mp hstep
      exact le_refl _
    · cases hstep
  | writeTable nanos =>
    simp only [Node.step, Node.stepWith] at hstep
    split at hstep
    · split at hstep
      · cases hstep
        exact le_refl _
      · cases hstep
    · cases hstep
  | endFlush =>
    simp only [Node.step, Node.stepWith] at hstep
    split at hstep
    · cases hstep
      exact le_refl _
    · cases hstep
  | evict victim =>
    cases hstep
    exact le_refl _

theorem Agrees.step {event : Event} (h : Agrees tenantID key events n)
    (hok : Undisturbed (buildKey tenantID key) n event) (hstep : n.step event = some n') :
    Agrees tenantID key (events ++ [event]) n' := by
  obtain ⟨hpos, sst, hlayers⟩ := h
  refine ⟨lt_of_lt_of_le hpos (clock_le_of_step hstep), ?_⟩
  cases event with
  | call env request => exact ⟨sst, hlayers.call hpos hstep⟩
  | beginFlush => exact ⟨sst, hlayers.beginFlush hstep⟩
  | writeTable nanos => exact hlayers.writeTable hok hstep
  | endFlush => exact ⟨sst, hlayers.endFlush hstep⟩
  | evict victim => exact ⟨sst, hlayers.evict hstep⟩

section Run

variable {commitLog : CommitLogService} {flushThreshold cacheSize : Int} {dataDir : String}
  {bloom : BloomParams}

/-- The places agree in every state of a run without a harmful flush. -/
theorem agrees_of_run
    (hok : AllSteps Node.step (Undisturbed (buildKey tenantID key))
      (Node.init commitLog flushThreshold cacheSize dataDir bloom) events)
    (hrun : run Node.step (Node.init commitLog flushThreshold cacheSize dataDir bloom) events =
      some n) : Agrees tenantID key events n := by
  have hinit : Agrees tenantID key [] (Node.init commitLog flushThreshold cacheSize dataDir bloom) :=
    ⟨Int.one_pos, none, Layered.init _ _ _ _ _ _ _⟩
  exact run_invariant_history (fun _ _ _ _ h hok hstep => h.step hok hstep) events [] _ n hinit hok
    hrun

/-- **A read answers the version that was stored last under the composite key.** -/
theorem read_answers_seenAt
    (hok : AllSteps Node.step (Undisturbed (buildKey tenantID key))
      (Node.init commitLog flushThreshold cacheSize dataDir bloom) events)
    (hrun : run Node.step (Node.init commitLog flushThreshold cacheSize dataDir bloom) events =
      some n)
    {env : CallEnv} {s' : StorageService} {r : Except Failure ReadResponse}
    (hread : n.service.read env tenantID key = (s', r)) (hret : r ≠ .error .blocked) :
    StorageService.Answers tenantID key (seenAt (buildKey tenantID key) (requestsOf events)) r := by
  rw [← visible_newest]
  obtain ⟨-, sst, hlayers⟩ := agrees_of_run hok hrun
  have hcached : ∀ seen, n.service.cache.lookup (buildKey tenantID key) = some seen →
      (n.service.below tenantID key sst).bind StorageService.visibleVersion = some seen := by
    intro seen hseen
    rw [hlayers.visible_below]
    exact hlayers.cached seen hseen
  have hspec := StorageService.read_spec hlayers.get hcached hread hret
  rw [hlayers.visible_below] at hspec
  exact hspec.answers

/-! ## Versions of a tenant -/

/-- A repair of another key has another composite key. -/
def OwnRepair (tenantID key : String) : Event → Prop
  | .call _ (.repair t k _ _) => buildKey t k = buildKey tenantID key → t = tenantID ∧ k = key
  | _ => True

/-- An event that does no harm to the key of a tenant. -/
def Steady (tenantID key : String) (n : Node) (event : Event) : Prop :=
  Undisturbed (buildKey tenantID key) n event ∧ OwnRepair tenantID key event

instance (tenantID key : String) : (event : Event) → Decidable (OwnRepair tenantID key event)
  | .call _ (.repair _ _ _ _) => inferInstanceAs (Decidable (_ → _))
  | .call _ (.write _ _ _ _) => .isTrue trivial
  | .call _ (.delete _ _ _) => .isTrue trivial
  | .call _ (.read _ _) => .isTrue trivial
  | .writeTable _ => .isTrue trivial
  | .beginFlush => .isTrue trivial
  | .endFlush => .isTrue trivial
  | .evict _ => .isTrue trivial

instance (tenantID key : String) (n : Node) (event : Event) :
    Decidable (Steady tenantID key n event) := inferInstanceAs (Decidable (_ ∧ _))

/-- A call that succeeds and has the composite key of a tenant without a colon is addressed to that
tenant and key, unless it is a read or a repair of another key. -/
theorem addresses_of_compositeKey {s s' : StorageService} {env : CallEnv} {request : Request}
    (hcolon : ':' ∉ tenantID.toList) (hown : OwnRepair tenantID key (.call env request))
    (hperform : s.perform env request = some s')
    (hkey : request.compositeKey = buildKey tenantID key) :
    request.Addresses tenantID key ∨ ∀ seen, request.apply seen = seen := by
  cases request with
  | write t k value vectorClock =>
    simp only [StorageService.perform] at hperform
    split at hperform
    · next hwrite =>
      have hvalid := (StorageService.write_spec hwrite).1
      obtain ⟨_, htenant, -⟩ := Validator.bind_eq_ok hvalid
      have hfree := Validator.not_mem_colon_of_validateTenantID htenant
      exact Or.inl (buildKey_inj hfree hcolon hkey)
    · cases hperform
  | delete t k vectorClock =>
    simp only [StorageService.perform] at hperform
    split at hperform
    · next hdelete =>
      have htenant := (StorageService.delete_spec hdelete).1.1
      have hfree := Validator.not_mem_colon_of_validateTenantID htenant
      exact Or.inl (buildKey_inj hfree hcolon hkey)
    · cases hperform
  | repair t k value vectorClock => exact Or.inl (hown hkey)
  | read t k => exact Or.inr fun _ => rfl

/-- In a run, the composite key shows what the tenant requested. -/
theorem seenAt_eq_lastSeen_of_run (hcolon : ':' ∉ tenantID.toList)
    (hok : AllSteps Node.step (Steady tenantID key)
      (Node.init commitLog flushThreshold cacheSize dataDir bloom) events)
    (hrun : run Node.step (Node.init commitLog flushThreshold cacheSize dataDir bloom) events =
      some n) :
    seenAt (buildKey tenantID key) (requestsOf events) =
      lastSeen tenantID key (requestsOf events) := by
  refine seenAt_eq_lastSeen ?_
  refine run_invariant_history (I := fun pre _ => ∀ r ∈ requestsOf pre,
    r.compositeKey = buildKey tenantID key → r.Addresses tenantID key ∨ ∀ seen, r.apply seen = seen)
    ?_ events [] _ n (fun r hr => by cases hr) hok hrun
  intro pre s event s' hI hsteady hstep r hr hkey
  rw [requestsOf_concat, List.mem_append] at hr
  rcases hr with hr | hr
  · exact hI r hr hkey
  · cases event with
    | call env request =>
      have hreq : r = request := by simpa [Event.request?] using hr
      subst hreq
      simp only [Node.step, Node.stepWith] at hstep
      split at hstep
      · obtain ⟨service, hperform, -⟩ := Option.map_eq_some_iff.mp hstep
        exact addresses_of_compositeKey hcolon hsteady.2 hperform hkey
      · cases hstep
    | beginFlush => cases hr
    | writeTable nanos => cases hr
    | endFlush => cases hr
    | evict victim => cases hr

/-- **A node reads what was last written.** After any run of calls, flushes and evictions that do no
harm to the key, a read answers the version of the last write or repair of the key, or that there is
none if a delete followed. -/
theorem read_answers_last_version (hcolon : ':' ∉ tenantID.toList)
    (hok : AllSteps Node.step (Steady tenantID key)
      (Node.init commitLog flushThreshold cacheSize dataDir bloom) events)
    (hrun : run Node.step (Node.init commitLog flushThreshold cacheSize dataDir bloom) events =
      some n)
    {env : CallEnv} {s' : StorageService} {r : Except Failure ReadResponse}
    (hread : n.service.read env tenantID key = (s', r)) (hret : r ≠ .error .blocked) :
    StorageService.Answers tenantID key (lastSeen tenantID key (requestsOf events)) r := by
  rw [← seenAt_eq_lastSeen_of_run hcolon hok hrun]
  exact read_answers_seenAt (hok.mono fun _ _ h => h.1) hrun hread hret

end Run

/-! ## Two flushes of one second -/

namespace Sample

/-- A log in an empty directory. -/
def log : CommitLogService := CommitLogService.new ⟨1000, false⟩ ∅ 1 1

/-- A node with room for everything. -/
def node : Node := Node.init log 100 1000 "data" ⟨8, 1⟩

/-- A call at a second, with nothing to evict. -/
def at_ (now : Int) : CallEnv := ⟨now, none, .complete, 0, ⟨0, []⟩⟩

def clock (counter : Int) : VectorClock := ⟨[⟨"c1", counter⟩]⟩

/-- A write of the sample key at `now`. -/
def writeAt (now : Int) (value : Bytes) (counter : Int) : Event :=
  .call (at_ now) (.write "t" "k" (some value) (clock counter))

/-- The three parts of a flush. -/
def flush (nanos : Int) : List Event := [.beginFlush, .writeTable nanos, .endFlush]

/-- Two writes, of which the first is flushed, and an eviction. -/
def oneFlush : List Event := writeAt 5 [1] 1 :: flush 1 ++ [writeAt 5 [2] 2, .evict "t:k"]

/-- Two writes of the same second, each followed by a flush, and an eviction. -/
def twoFlushes : List Event :=
  writeAt 5 [1] 1 :: flush 1 ++ writeAt 5 [2] 2 :: flush 2 ++ [.evict "t:k"]

/-- The entry of a write. -/
def storedAt (now : Int) (value : Bytes) (counter : Int) : MemTableEntry :=
  StorageService.stored (at_ now) "t" "k" (some value) (clock counter) false

/-- The memtable with one entry. -/
def frozen (value : Bytes) (counter : Int) : MemTable := MemTable.new.put (storedAt 5 value counter)

/-- The tables after the first flush. -/
def tablesOnce : SSTableService :=
  (node.service.sstables.writeFromMemTable 1 .complete (frozen [1] 1)).1

/-- The tables after both. -/
def tablesTwice : SSTableService :=
  (tablesOnce.writeFromMemTable 2 .complete (frozen [2] 2)).1

set_option maxRecDepth 10000 in
/-- The older version is found first, and a version of the same second does not replace it. -/
theorem get_tablesTwice : tablesTwice.get "t" "k" =
    .ok (some (SSTableReader.toKeyValueEntry (storedAt 5 [1] 1))) := by
  have hempty : node.service.sstables.OnlyL0 := fun _ _ => rfl
  obtain ⟨hl0, hget⟩ := @SSTableService.get_flush _ tablesOnce 1 .complete (frozen [1] 1) "t" "k" _
    hempty (by decide +kernel) ⟨by decide +kernel, by decide +kernel, by decide +kernel⟩ rfl rfl
  exact (@SSTableService.get_flush _ tablesTwice 2 .complete (frozen [2] 2) "t" "k" _
    hl0 (by decide +kernel) ⟨by decide +kernel, by decide +kernel, by decide +kernel⟩ hget rfl).2

end Sample

open Sample

set_option maxRecDepth 10000 in
/-- As long as only the first version is flushed, the read answers the second one. -/
theorem read_answers_last_version_oneFlush :
    ∃ n, run Node.step node oneFlush = some n ∧
      StorageService.Answers "t" "k" (some ⟨some [2], clock 2⟩)
        (n.service.read (at_ 7) "t" "k").2 := by
  have hsome : (run Node.step node oneFlush).isSome = true := by decide +kernel
  obtain ⟨n, hn⟩ := Option.isSome_iff_exists.mp hsome
  have hret : (run Node.step node oneFlush).map
      (fun n => decide ((n.service.read (at_ 7) "t" "k").2 ≠ .error .blocked)) = some true := by
    decide +kernel
  rw [hn, Option.map_some, Option.some.injEq, decide_eq_true_eq] at hret
  exact ⟨n, hn, read_answers_last_version (by decide) (by decide +kernel) hn rfl hret⟩

set_option maxRecDepth 10000 in
/-- With both versions flushed, the read answers the first one. -/
theorem read_of_older_version_twoFlushes :
    lastSeen "t" "k" (requestsOf twoFlushes) = some ⟨some [2], clock 2⟩ ∧
      (run Node.step node twoFlushes).map (fun n => (n.service.read (at_ 7) "t" "k").2) =
        some (.ok ⟨true, some [1], clock 1, .sstable⟩) := by
  refine ⟨by decide +kernel, ?_⟩
  -- nothing but the tables has the key
  have hbelow : (run Node.step node twoFlushes).map (fun n =>
      (n.service.read (at_ 7) "t" "k").2) = (run Node.step node twoFlushes).map (fun n =>
      (n.service.readSSTables (at_ 7) "t" "k").2) := rfl
  have htables : (run Node.step node twoFlushes).map (fun n =>
      (n.service.sstables, n.service.cache)) = some (tablesTwice, CacheService.new 1000) := rfl
  obtain ⟨n, hn, hdata⟩ := Option.map_eq_some_iff.mp htables
  obtain ⟨hsstables, hcache⟩ := Prod.mk.inj hdata
  rw [hbelow, hn, Option.map_some, StorageService.readSSTables, hsstables, get_tablesTwice]
  show some (n.service.fillCache (at_ 7) "t:k" (some [1]) (clock 1) .sstable).2 = _
  rw [StorageService.fillCache, hcache]
  rfl

end PairDB.StorageNode
