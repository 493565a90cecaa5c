import PairDB.StorageNode.Properties.Merge

/-!
# A compaction of damaged tables

A compaction should either fail and change nothing, or carry every entry over that can still be read.
It does the first when it returns an error. But a `Get` that fails inside the merger is no error: the
reader is not asked again, the rest of its keys is not merged, and the table is deleted all the same.

`mergeSSTables_represents_iff` says when nothing readable is lost: each entry that stands behind a
damaged one must be superseded by an entry that does not.
-/

namespace PairDB.StorageNode

open Infra

/-- The entries of a reader whose `Get` succeeds. -/
def Cursor.readable (c : Cursor) : List KeyValueEntry :=
  c.keys.filterMap fun key => (c.get key).toOption.join

/-- `w` is the entry itself or a newer version of the same key. -/
def Supersedes (w e : KeyValueEntry) : Prop :=
  w.compositeKey = e.compositeKey ∧ (w = e ∨ Newer w.vectorClock e.vectorClock)

/-- The entry is carried over: it or a newer version is in the output, or a tombstone was dropped. -/
def Represented (cursors : List Cursor) (out : List MemTableEntry) (e : KeyValueEntry) : Prop :=
  ∃ w, Supersedes w e ∧ ((w.isTombstone = false ∧ mergedEntry w ∈ out) ∨
    (w.isTombstone = true ∧ w ∈ cursors.flatMap Cursor.reachable))

/-- Of two versions of a key, one is newer. -/
def Comparable (inputs : List KeyValueEntry) : Prop :=
  ∀ e ∈ inputs, ∀ e' ∈ inputs, e.key = e'.key →
    e = e' ∨ Newer e.vectorClock e'.vectorClock ∨ Newer e'.vectorClock e.vectorClock

instance (inputs : List KeyValueEntry) : Decidable (Comparable inputs) :=
  inferInstanceAs (Decidable (∀ _ ∈ _, _))

/-! ## What is reachable is readable -/

theorem readUntilError_subset {get : Bytes → Except Fault (Option KeyValueEntry)} :
    ∀ {keys : List Bytes} {e : KeyValueEntry}, e ∈ readUntilError get keys →
      e ∈ keys.filterMap fun key => (get key).toOption.join
  | [], _, h => h
  | key :: keys, e, h => by
    rw [readUntilError] at h
    split at h
    · next entry hget =>
      have hjoin : (get key).toOption.join = some entry := by rw [hget]; rfl
      rw [List.filterMap_cons_some (f := fun key => (get key).toOption.join) hjoin]
      rcases List.mem_cons.mp h with rfl | h
      · exact List.mem_cons_self
      · exact List.mem_cons_of_mem _ (readUntilError_subset h)
    · cases h

theorem reachable_subset {cursors : List Cursor} {e : KeyValueEntry}
    (h : e ∈ cursors.flatMap Cursor.reachable) : e ∈ cursors.flatMap Cursor.readable := by
  obtain ⟨c, hc, he⟩ := List.mem_flatMap.mp h
  exact List.mem_flatMap.mpr ⟨c, hc, readUntilError_subset he⟩

/-! ## Every entry that the merger returns is superseded by one that is kept -/

theorem keptFrom_supersedes : ∀ (es : List KeyValueEntry) (best : KeyValueEntry),
    Comparable (best :: es) → ∀ e ∈ best :: es, ∃ w ∈ keptFrom best es, w.key = e.key ∧
      (w = e ∨ Newer w.vectorClock e.vectorClock)
  | [], best, _, e, he => ⟨best, List.mem_singleton_self _, by
      rw [List.mem_singleton.mp he]
      exact ⟨rfl, Or.inl rfl⟩⟩
  | x :: es, best, hcomp, e, he => by
    rw [keptFrom]
    split
    · next hsame =>
      obtain ⟨b, hb⟩ : ∃ b, b = if Newer x.vectorClock best.vectorClock then x else best := ⟨_, rfl⟩
      rw [← hb]
      have hbmem : b ∈ best :: x :: es := by
        rw [hb]
        split
        · exact List.mem_cons_of_mem _ List.mem_cons_self
        · exact List.mem_cons_self
      have hbkey : b.key = best.key := by
        rw [hb]
        split
        · exact hsame
        · rfl
      have hsub : ∀ y ∈ b :: es, y ∈ best :: x :: es := by
        intro y hy
        rcases List.mem_cons.mp hy with rfl | hy
        · exact hbmem
        · exact List.mem_cons_of_mem _ (List.mem_cons_of_mem _ hy)
      have ih := keptFrom_supersedes es b fun y hy z hz => hcomp y (hsub y hy) z (hsub z hz)
      -- the one of the two that goes on supersedes both
      have hpair : (b = best ∨ Newer b.vectorClock best.vectorClock) ∧
          (b = x ∨ Newer b.vectorClock x.vectorClock) := by
        by_cases hnewer : Newer x.vectorClock best.vectorClock
        · rw [hb, if_pos hnewer]
          exact ⟨Or.inr hnewer, Or.inl rfl⟩
        · rw [hb, if_neg hnewer]
          refine ⟨Or.inl rfl, ?_⟩
          rcases hcomp best List.mem_cons_self x (List.mem_cons_of_mem _ List.mem_cons_self)
            hsame.symm with heq | hlt | hgt
          · exact Or.inl heq
          · exact Or.inr hlt
          · exact absurd hgt hnewer
      have hboth : ∀ y, (b = y ∨ Newer b.vectorClock y.vectorClock) → y.key = best.key →
          ∃ w ∈ keptFrom b es, w.key = y.key ∧ (w = y ∨ Newer w.vectorClock y.vectorClock) := by
        intro y hby hykey
        obtain ⟨w, hw, hwkey, hwb⟩ := ih b List.mem_cons_self
        refine ⟨w, hw, by rw [hwkey, hbkey, hykey], ?_⟩
        rcases hby with rfl | hby
        · exact hwb
        · rcases hwb with rfl | hwb
          · exact Or.inr hby
          · exact Or.inr (hwb.trans hby)
      rcases List.mem_cons.mp he with rfl | he
      · exact hboth _ hpair.1 rfl
      · rcases List.mem_cons.mp he with rfl | he
        · exact hboth _ hpair.2 hsame
        · exact ih e (List.mem_cons_of_mem _ he)
    · rcases List.mem_cons.mp he with rfl | he
      · exact ⟨e, List.mem_cons_self, rfl, Or.inl rfl⟩
      · have hcomp' : Comparable (x :: es) := fun y hy z hz =>
          hcomp y (List.mem_cons_of_mem _ hy) z (List.mem_cons_of_mem _ hz)
        obtain ⟨w, hw, hwe⟩ := keptFrom_supersedes es x hcomp' e he
        exact ⟨w, List.mem_cons_of_mem _ hw, hwe⟩

theorem kept_supersedes {es : List KeyValueEntry} (hcomp : Comparable es)
    (hempty : ∀ e ∈ es, e.key ≠ "") {e : KeyValueEntry} (he : e ∈ es) :
    ∃ w ∈ kept es, w.key = e.key ∧ (w = e ∨ Newer w.vectorClock e.vectorClock) := by
  cases es with
  | nil => cases he
  | cons x es =>
    rw [kept, if_neg (hempty x List.mem_cons_self)]
    exact keptFrom_supersedes es x hcomp e he

section

variable {cursors : List Cursor} {out : List MemTableEntry}

theorem mergedEntry_inj {w e : KeyValueEntry} (hw : ':' ∉ w.tenantID.toList)
    (he : ':' ∉ e.tenantID.toList) (htomb : w.isTombstone = e.isTombstone)
    (h : mergedEntry w = mergedEntry e) : w = e := by
  obtain ⟨htenant, hkey⟩ := buildKey_inj hw he (congrArg MemTableEntry.key h)
  cases w
  cases e
  simp only [mergedEntry, MemTableEntry.mk.injEq] at h htenant hkey htomb
  simp [htenant, hkey, htomb, h]

/-- All readable entries are carried over exactly if each is superseded by a reachable one. -/
theorem represented_iff (hnp : ∀ c ∈ cursors, c.NoPanic)
    (hout : mergedEntries cursors = .ok out)
    (hcolon : ∀ e ∈ cursors.flatMap Cursor.readable, ':' ∉ e.tenantID.toList)
    (htenants : OneTenantPerKey (cursors.flatMap Cursor.readable))
    (hcomp : Comparable (cursors.flatMap Cursor.readable))
    (hempty : ∀ e ∈ cursors.flatMap Cursor.readable, e.key ≠ "") :
    (∀ e ∈ cursors.flatMap Cursor.readable, Represented cursors out e) ↔
      ∀ e ∈ cursors.flatMap Cursor.readable,
        ∃ w ∈ cursors.flatMap Cursor.reachable, Supersedes w e := by
  obtain ⟨es, hperm, -, hmerge⟩ := merge_spec hnp
  have houtEq : out = ((kept es).filter fun e => !e.isTombstone).map mergedEntry := by
    rw [mergedEntries, hmerge, writeKept_list, List.nil_append] at hout
    exact (Except.ok.inj hout).symm
  have hmem : ∀ e ∈ es, e ∈ cursors.flatMap Cursor.readable := fun e he =>
    reachable_subset (hperm.mem_iff.mp he)
  constructor
  · intro h e he
    obtain ⟨w, hsup, ⟨hlive, hin⟩ | ⟨-, hreach⟩⟩ := h e he
    · -- what is in the output was returned by the merger
      rw [houtEq, List.mem_map] at hin
      obtain ⟨w', hw', heq⟩ := hin
      obtain ⟨hkept, hlive'⟩ := List.mem_filter.mp hw'
      have hes := kept_subset hkept
      have hlive'' : w'.isTombstone = false := by simpa using hlive'
      refine ⟨w', hperm.mem_iff.mp hes, (congrArg MemTableEntry.key heq).trans hsup.1, ?_⟩
      rcases hsup.2 with rfl | hnewer
      · exact Or.inl (mergedEntry_inj (hcolon w' (hmem w' hes)) (hcolon w he)
          (hlive''.trans hlive.symm) heq)
      · have hclock : w'.vectorClock = w.vectorClock := congrArg MemTableEntry.vectorClock heq
        exact Or.inr (hclock ▸ hnewer)
    · exact ⟨w, hreach, hsup⟩
  · intro h e he
    obtain ⟨r, hr, hsup⟩ := h e he
    have hres : r ∈ es := hperm.mem_iff.mpr hr
    obtain ⟨w, hw, hwkey, hwr⟩ := kept_supersedes
      (fun y hy z hz => hcomp y (hmem y hy) z (hmem z hz)) (fun y hy => hempty y (hmem y hy)) hres
    have hwes := kept_subset hw
    have hcomposite : w.compositeKey = r.compositeKey :=
      (compositeKey_eq_iff htenants hcolon (hmem w hwes) (hmem r hres)).mpr hwkey
    have hsup' : Supersedes w e := by
      refine ⟨hcomposite.trans hsup.1, ?_⟩
      rcases hwr with rfl | hwr
      · exact hsup.2
      · rcases hsup.2 with rfl | hre
        · exact Or.inr hwr
        · exact Or.inr (hwr.trans hre)
    refine ⟨w, hsup', ?_⟩
    cases htomb : w.isTombstone with
    | true => exact Or.inr ⟨rfl, hperm.mem_iff.mp hwes⟩
    | false =>
      refine Or.inl ⟨rfl, ?_⟩
      rw [houtEq]
      exact List.mem_map_of_mem (List.mem_filter.mpr ⟨hw, by simp [htomb]⟩)

end

/-! ## The job -/

/-- The entries of the input tables have tenants without a colon. -/
theorem not_mem_colon_of_cursors {s : SSTableService} {job : CompactionJob} {env : CompactionEnv}
    {cursors : List Cursor} (h : s.cursors job env = .ok cursors) {e : KeyValueEntry}
    (he : e ∈ cursors.flatMap Cursor.readable) : ':' ∉ e.tenantID.toList := by
  rw [SSTableService.cursors] at h
  cases hopen : s.openReaders job.inputTables with
  | error fault =>
    rw [hopen] at h
    cases h
  | ok readers =>
    rw [hopen] at h
    cases h
    obtain ⟨c, hc, he⟩ := List.mem_flatMap.mp he
    obtain ⟨i, hi, rfl⟩ := List.mem_mapIdx.mp hc
    obtain ⟨key, -, hjoin⟩ := List.mem_filterMap.mp he
    simp only [SSTableReader.cursor, SSTableReader.getBytes] at hjoin
    split at hjoin
    · cases hjoin
    · cases hread : SSTableReader.readRecord _ _ _ with
      | error fault =>
        rw [hread] at hjoin
        cases hjoin
      | ok memEntry =>
        rw [hread] at hjoin
        cases hjoin
        exact not_mem_colon_split _

/-- What a writer of tables gets of the entries that are kept. -/
theorem writeKept_writer (es : List KeyValueEntry) (w : SSTableWriter) :
    writeKept SSTableWriter.write es w =
      w.writeAll ((es.filter fun e => !e.isTombstone).map mergedEntry) := by
  induction es generalizing w with
  | nil => rfl
  | cons e es ih =>
    rw [writeKept, writeEntryIfNotTombstone]
    cases htomb : e.isTombstone with
    | true =>
      rw [List.filter_cons_of_neg (by simp [htomb])]
      exact ih w
    | false =>
      rw [List.filter_cons_of_pos (by simp [htomb]), List.map_cons, SSTableWriter.writeAll]
      exact congrArg _ (funext ih)

/-- The output of a merge has the entries that the loop hands over. -/
theorem writeEntries_of_merge {cursors : List Cursor} (hnp : ∀ c ∈ cursors, c.NoPanic)
    {bloom : BloomParams} {w : SSTableWriter}
    (h : (SSTableWriter.new bloom).bind (merge SSTableWriter.write cursors) = .ok w) :
    ∃ out, mergedEntries cursors = .ok out ∧ SSTableService.writeEntries bloom out = .ok w := by
  obtain ⟨es, -, -, hmerge⟩ := merge_spec hnp
  refine ⟨((kept es).filter fun e => !e.isTombstone).map mergedEntry, ?_, ?_⟩
  · rw [mergedEntries, hmerge, writeKept_list, List.nil_append]
  · have hfun : merge SSTableWriter.write cursors = fun w =>
        w.writeAll (((kept es).filter fun e => !e.isTombstone).map mergedEntry) :=
      funext fun w => (hmerge _ w).trans (writeKept_writer _ w)
    rw [SSTableService.writeEntries, ← hfun]
    exact h

/-- What `mergeSSTables` does: it fails and leaves at most the file of its output behind, or it
succeeds with the output of the merge. -/
theorem mergeSSTables_cases {s s' : SSTableService} {bloom : BloomParams} {job : CompactionJob}
    {env : CompactionEnv} {r : Except Fault Unit}
    (h : s.mergeSSTables bloom job env = (s', r)) :
    ((∃ fault, r = .error fault) ∧ s'.levels = s.levels ∧
      ∀ path, path ≠ s.compactedPath job.outputLevel env.nanos → s'.files path = s.files path) ∨
    (r = .ok () ∧ ∃ cursors w, s.cursors job env = .ok cursors ∧
      (SSTableWriter.new bloom).bind (merge SSTableWriter.write cursors) = .ok w ∧
      s' = s.withCompacted job env w) := by
  unfold SSTableService.mergeSSTables at h
  split at h
  · cases h
    exact Or.inl ⟨⟨_, rfl⟩, rfl, fun _ _ => rfl⟩
  · split at h
    · cases h
      exact Or.inl ⟨⟨_, rfl⟩, rfl, fun _ _ => rfl⟩
    · next cursors hcursors =>
      split at h
      · cases h
        exact Or.inl ⟨⟨_, rfl⟩, rfl, fun _ _ => rfl⟩
      · next w hw =>
        split at h
        · cases h
          exact Or.inl ⟨⟨_, rfl⟩, rfl, fun path hpath => Function.update_of_ne hpath _ _⟩
        · cases h
          exact Or.inr ⟨rfl, cursors, w, hcursors, hw, rfl⟩

/-- What the loop can tell apart: no two tenants use one key, no key is empty, of two versions of a
key one is newer, and a damaged record is an error and no panic. -/
structure Distinguishable (cursors : List Cursor) : Prop where
  noPanic : ∀ c ∈ cursors, c.NoPanic
  tenants : OneTenantPerKey (cursors.flatMap Cursor.readable)
  comparable : Comparable (cursors.flatMap Cursor.readable)
  nonempty : ∀ e ∈ cursors.flatMap Cursor.readable, e.key ≠ ""

/-- **When a compaction of damaged tables loses nothing.** If it fails, the levels and the inputs are
as before. If it succeeds, every readable entry is carried over into the output exactly if each is
superseded by one that stands in its table before the damaged ones. -/
theorem mergeSSTables_represents_iff {s s' : SSTableService} {bloom : BloomParams}
    {job : CompactionJob} {env : CompactionEnv} {r : Except Fault Unit}
    (hpath : s.compactedPath job.outputLevel env.nanos ∉
      job.inputTables.map SSTableMetadata.filePath)
    (hinputs : ∀ cursors, s.cursors job env = .ok cursors → Distinguishable cursors)
    (h : s.mergeSSTables bloom job env = (s', r)) :
    (∀ fault, r = .error fault → s'.levels = s.levels ∧
      ∀ table ∈ job.inputTables, s'.files table.filePath = s.files table.filePath) ∧
    (r = .ok () → ∃ cursors out w, s.cursors job env = .ok cursors ∧
      mergedEntries cursors = .ok out ∧ SSTableService.writeEntries bloom out = .ok w ∧
      s'.files (s.compactedPath job.outputLevel env.nanos) = w.finalize ∧
      ((∀ e ∈ cursors.flatMap Cursor.readable, Represented cursors out e) ↔
        ∀ e ∈ cursors.flatMap Cursor.readable,
          ∃ v ∈ cursors.flatMap Cursor.reachable, Supersedes v e)) := by
  rcases mergeSSTables_cases h with ⟨⟨fault, rfl⟩, hlevels, hfiles⟩ |
    ⟨rfl, cursors, w, hcursors, hw, rfl⟩
  · refine ⟨fun _ _ => ⟨hlevels, fun table htable => hfiles _ fun heq => hpath ?_⟩, by rintro ⟨⟩⟩
    exact heq ▸ List.mem_map_of_mem htable
  · have hd := hinputs cursors hcursors
    obtain ⟨out, hout, hwrite⟩ := writeEntries_of_merge hd.noPanic hw
    refine ⟨fun _ hr => (by cases hr), fun _ => ⟨cursors, out, w, hcursors, hout, hwrite,
      SSTableService.files_output hpath w, ?_⟩⟩
    exact represented_iff hd.noPanic hout (fun e => not_mem_colon_of_cursors hcursors) hd.tenants
      hd.comparable hd.nonempty

namespace Sample

/-- The files of a table with these entries. -/
def filesOf (entries : List MemTableEntry) : TableFiles :=
  match SSTableService.writeEntries ⟨8, 1⟩ entries with
  | .ok w => w.finalize
  | .error _ => ⟨none, none, none⟩

/-- A table of level 0. -/
def input : SSTableMetadata := ⟨"a", 0, 0, ⟨"t:a", "t:b"⟩, "a.sst"⟩

/-- A table with the keys `a` and `b`. A byte of the record of `a` is damaged. -/
def damaged : SSTableService :=
  let files := filesOf [mergedEntry (version "t" "a" [1] 1), mergedEntry (version "t" "b" [2] 1)]
  { dataDir := "data"
    bloom := ⟨8, 1⟩
    levels := fun level => if level = 0 then [input] else []
    files := fun path => if path = "a.sst" then
        { files with data := files.data.map fun bs => bs.set 8 0 }
      else ⟨none, none, none⟩ }

def job : CompactionJob := ⟨0, [input], 1⟩

/-- The index is walked from the key that was read last, `b`. -/
def goodFirst : CompactionEnv := ⟨7, 7, .complete, fun _ => RangeOrder.asHeld Bytes⟩

/-- The index is walked from `a`. -/
def damagedFirst : CompactionEnv :=
  ⟨7, 7, .complete, fun _ => ⟨List.reverse, fun l => List.reverse_perm l⟩⟩

/-- What a job finds in its inputs: whether a record makes it panic, the entries that it can read,
and the ones that it reaches. -/
def found (env : CompactionEnv) : Option (Bool × List KeyValueEntry × List KeyValueEntry) :=
  (damaged.cursors job env).toOption.map fun cursors =>
    (cursors.any fun c => c.keys.any fun key => isPanic (c.get key),
      cursors.flatMap Cursor.readable, cursors.flatMap Cursor.reachable)

end Sample

open Sample in
set_option maxRecDepth 10000 in
theorem mergeSSTables_represents_goodFirst : ∃ s' cursors out,
    damaged.mergeSSTables ⟨8, 1⟩ job goodFirst = (s', .ok ()) ∧
      damaged.cursors job goodFirst = .ok cursors ∧ mergedEntries cursors = .ok out ∧
      ∀ e ∈ cursors.flatMap Cursor.readable, Represented cursors out e := by
  have hfound : found goodFirst =
      some (false, [version "t" "b" [2] 1], [version "t" "b" [2] 1]) := by decide +kernel
  have hok : (damaged.mergeSSTables ⟨8, 1⟩ job goodFirst).2.toOption = some () := by decide +kernel
  obtain ⟨cursors, hcursors, hdata⟩ := Option.map_eq_some_iff.mp hfound
  simp only [Prod.mk.injEq] at hdata
  obtain ⟨hpanic, hreadable, hreachable⟩ := hdata
  have hc : damaged.cursors job goodFirst = .ok cursors := by
    cases hres : damaged.cursors job goodFirst with
    | error fault => rw [hres] at hcursors; cases hcursors
    | ok cs => rw [hres] at hcursors; cases hcursors; rfl
  have hinputs : ∀ cs, damaged.cursors job goodFirst = .ok cs → Distinguishable cs := by
    intro cs hcs
    cases hc.symm.trans hcs
    refine ⟨fun c hmem key hkey => ?_, ?_, ?_, ?_⟩
    · simp only [List.any_eq_false, Bool.not_eq_true] at hpanic
      exact isPanic_eq_false (hpanic c hmem key hkey)
    · rw [hreadable]
      decide
    · rw [hreadable]
      decide +kernel
    · rw [hreadable]
      decide
  rcases hmerge : damaged.mergeSSTables ⟨8, 1⟩ job goodFirst with ⟨s', fault | ⟨⟩⟩
  · rw [hmerge] at hok
    cases hok
  · obtain ⟨-, hrep⟩ := mergeSSTables_represents_iff (by decide) hinputs hmerge
    obtain ⟨cs, out, w, hcs, hout, -, -, hiff⟩ := hrep rfl
    cases hc.symm.trans hcs
    refine ⟨s', cursors, out, rfl, hc, hout, hiff.mpr ?_⟩
    rw [hreadable, hreachable]
    intro e he
    exact ⟨e, he, rfl, Or.inl rfl⟩

open Sample in
set_option maxRecDepth 10000 in
/-- The job succeeds, the input is gone, and the entry that can be read is not reached. -/
theorem mergeSSTables_loses_readable_entry :
    (damaged.mergeSSTables ⟨8, 1⟩ job damagedFirst).2.toOption = some () ∧
      (damaged.mergeSSTables ⟨8, 1⟩ job damagedFirst).1.levels 0 = [] ∧
      (damaged.mergeSSTables ⟨8, 1⟩ job damagedFirst).1.files "a.sst" = ⟨none, none, none⟩ ∧
      found damagedFirst = some (false, [version "t" "b" [2] 1], []) ∧
      (damaged.mergeSSTables ⟨8, 1⟩ job damagedFirst).1.files "data/sstable_l1_7.sst" =
        filesOf [] := by
  decide +kernel

end PairDB.StorageNode
