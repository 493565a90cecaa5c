import PairDB.StorageNode.KWayMerge

/-!
# What a compaction keeps

Of every key the merge should keep one version, the newest, and nothing of a key whose newest version
is a tombstone. The loop compares neighbours only, and only their keys without the tenant, so it
fails if two tenants use one key, if a table lists its keys out of order while a key is in two
tables, and for the empty key, which the loop takes for "no entry yet".

Without these three, `mergedEntries_keepsNewest` says that the newest versions are kept.
-/

namespace PairDB.StorageNode

open Infra

/-- The reader lists the entries of a table in this order, and all of them can be read. -/
structure Cursor.Lists (c : Cursor) (table : List KeyValueEntry) : Prop where
  keys : c.keys = table.map fun e => utf8 e.compositeKey
  get : ∀ e ∈ table, c.get (utf8 e.compositeKey) = .ok (some e)
  nodup : (table.map KeyValueEntry.compositeKey).Nodup
  tenant : ∀ e ∈ table, ':' ∉ e.tenantID.toList

/-- `out` has one version of each key of the inputs, which no other version is newer than, and
nothing if that is a tombstone; and it has nothing else. -/
def KeepsNewest (inputs : List KeyValueEntry) (out : List MemTableEntry) : Prop :=
  ∀ key, let versions := inputs.filter fun e => e.compositeKey = key
    (versions = [] ∧ out.filter (fun e => e.key = key) = []) ∨
    ∃ w ∈ versions, (∀ v ∈ versions, ¬ Newer v.vectorClock w.vectorClock) ∧
      out.filter (fun e => e.key = key) = if w.isTombstone then [] else [mergedEntry w]

/-! ## The loop over a sequence with adjacent versions -/

/-- All entries with the same key stand together. -/
def Grouped : List KeyValueEntry → Prop
  | [] => True
  | e :: es => Grouped es ∧
    ((∃ x ∈ es, x.key = e.key) → ∃ y, es.head? = some y ∧ y.key = e.key)

theorem grouped_of_ascending : ∀ {es : List KeyValueEntry},
    (es.Pairwise fun a b => a.key ≤ b.key) → Grouped es
  | [], _ => trivial
  | e :: es, h => by
    obtain ⟨hle, h⟩ := List.pairwise_cons.mp h
    refine ⟨grouped_of_ascending h, ?_⟩
    rintro ⟨x, hx, hkey⟩
    cases es with
    | nil => cases hx
    | cons y es =>
      -- the next entry lies between two that are equal
      have hyx : y.key ≤ x.key := by
        rcases List.mem_cons.mp hx with rfl | hx
        · exact le_rfl
        · exact (List.pairwise_cons.mp h).1 x hx
      exact ⟨y, rfl, le_antisymm (hkey ▸ hyx) (hle y List.mem_cons_self)⟩

theorem grouped_of_nodup : ∀ {es : List KeyValueEntry},
    (es.map KeyValueEntry.key).Nodup → Grouped es
  | [], _ => trivial
  | e :: es, h => by
    rw [List.map_cons, List.nodup_cons] at h
    refine ⟨grouped_of_nodup h.2, ?_⟩
    rintro ⟨x, hx, hkey⟩
    exact absurd (hkey ▸ List.mem_map_of_mem hx) h.1

theorem keptFrom_subset : ∀ {es : List KeyValueEntry} {best e : KeyValueEntry},
    e ∈ keptFrom best es → e ∈ best :: es
  | [], _, _, h => h
  | x :: es, best, e, h => by
    rw [keptFrom] at h
    split at h
    · have hmem := keptFrom_subset h
      rw [List.mem_cons] at hmem ⊢
      rcases hmem with rfl | hmem
      · split
        · exact Or.inr List.mem_cons_self
        · exact Or.inl rfl
      · exact Or.inr (List.mem_cons_of_mem _ hmem)
    · rcases List.mem_cons.mp h with rfl | h
      · exact List.mem_cons_self
      · exact List.mem_cons_of_mem _ (keptFrom_subset h)

/-- `w` is the version of `key` that is kept: none of the versions is newer. -/
def Wins (key : String) (es out : List KeyValueEntry) (w : KeyValueEntry) : Prop :=
  (w ∈ es ∧ w.key = key) ∧ (∀ v ∈ es, v.key = key → ¬ Newer v.vectorClock w.vectorClock) ∧
    out.filter (fun e => e.key = key) = [w]

/-- Of adjacent versions the loop keeps one that none is newer than. It is the first one, or newer. -/
theorem keptFrom_spec : ∀ (es : List KeyValueEntry) (best : KeyValueEntry), Grouped (best :: es) →
    ∀ key, ((∀ e ∈ best :: es, e.key ≠ key) ∧ (keptFrom best es).filter (fun e => e.key = key) = []) ∨
      ∃ w, Wins key (best :: es) (keptFrom best es) w ∧
        (best.key = key → w = best ∨ Newer w.vectorClock best.vectorClock)
  | [], best, _, key => by
    by_cases hkey : best.key = key
    · refine Or.inr ⟨best, ⟨⟨List.mem_singleton_self _, hkey⟩, ?_, by simp [keptFrom, hkey]⟩,
        fun _ => Or.inl rfl⟩
      intro v hv _
      rw [List.mem_singleton.mp hv]
      exact not_newer_self _
    · exact Or.inl ⟨by simpa using hkey, by simp [keptFrom, hkey]⟩
  | e :: es, best, hgroup, key => by
    obtain ⟨hgroup', hnext⟩ := hgroup
    by_cases hsame : e.key = best.key
    · -- the newer one of the two is compared with the rest
      obtain ⟨b, hb⟩ : ∃ b, b = if Newer e.vectorClock best.vectorClock then e else best := ⟨_, rfl⟩
      have hbkey : b.key = best.key := by
        rw [hb]
        split
        · exact hsame
        · rfl
      have hgroup₁ : Grouped (b :: es) := by
        refine ⟨hgroup'.1, fun h => ?_⟩
        rw [hbkey, ← hsame] at h ⊢
        exact hgroup'.2 h
      rw [keptFrom, if_pos hsame, ← hb]
      rcases keptFrom_spec es b hgroup₁ key with ⟨hnone, hout⟩ | ⟨w, ⟨hw, hmax, hout⟩, hfirst⟩
      · refine Or.inl ⟨?_, hout⟩
        rw [List.forall_mem_cons] at hnone ⊢
        rw [List.forall_mem_cons, hsame, ← hbkey]
        exact ⟨hnone.1, hnone.1, hnone.2⟩
      · refine Or.inr ⟨w, ⟨?_, ?_, hout⟩, ?_⟩
        · refine ⟨?_, hw.2⟩
          rcases List.mem_cons.mp hw.1 with rfl | hmem
          · rw [hb]
            split
            · exact List.mem_cons_of_mem _ List.mem_cons_self
            · exact List.mem_cons_self
          · exact List.mem_cons_of_mem _ (List.mem_cons_of_mem _ hmem)
        · -- the one that was not kept is not newer than what is kept in the end
          have hpair : best.key = key → ¬ Newer best.vectorClock w.vectorClock ∧
              ¬ Newer e.vectorClock w.vectorClock := by
            intro hkey
            have hbmax := hmax b List.mem_cons_self (hbkey.trans hkey)
            by_cases hnewer : Newer e.vectorClock best.vectorClock
            · rw [if_pos hnewer] at hb
              rw [hb] at hbmax
              exact ⟨fun h => hbmax (hnewer.trans h), hbmax⟩
            · rw [if_neg hnewer] at hb
              rw [hb] at hbmax hfirst
              refine ⟨hbmax, fun h => ?_⟩
              rcases hfirst hkey with rfl | hwb
              · exact hnewer h
              · exact hnewer (h.trans hwb)
          intro v hv hvkey
          rcases List.mem_cons.mp hv with rfl | hv
          · exact (hpair hvkey).1
          · rcases List.mem_cons.mp hv with rfl | hv
            · exact (hpair (hsame ▸ hvkey)).2
            · exact hmax v (List.mem_cons_of_mem _ hv) hvkey
        · intro hkey
          have hwb := hfirst (hbkey.trans hkey)
          by_cases hnewer : Newer e.vectorClock best.vectorClock
          · rw [if_pos hnewer] at hb
            rw [hb] at hwb
            rcases hwb with rfl | hwe
            · exact Or.inr hnewer
            · exact Or.inr (hwe.trans hnewer)
          · rw [if_neg hnewer] at hb
            rw [hb] at hwb
            exact hwb
    · -- a new key begins, and the old one does not come again
      have hgone : ∀ x ∈ e :: es, x.key ≠ best.key := by
        intro x hx hkey
        obtain ⟨y, hy, hykey⟩ := hnext ⟨x, hx, hkey⟩
        cases hy
        exact hsame hykey
      rw [keptFrom, if_neg hsame]
      have ih := keptFrom_spec es e hgroup' key
      by_cases hkey : best.key = key
      · subst hkey
        rcases ih with ⟨-, hout⟩ | ⟨w, ⟨hw, -, -⟩, -⟩
        · refine Or.inr ⟨best, ⟨⟨List.mem_cons_self, rfl⟩, ?_, ?_⟩, fun _ => Or.inl rfl⟩
          · intro v hv hvkey
            rcases List.mem_cons.mp hv with rfl | hv
            · exact not_newer_self _
            · exact absurd hvkey (hgone v hv)
          · rw [List.filter_cons_of_pos (by simp), hout]
        · exact absurd hw.2 (hgone w hw.1)
      · rw [List.filter_cons_of_neg (by simpa using hkey)]
        rcases ih with ⟨hnone, hout⟩ | ⟨w, ⟨hw, hmax, hout⟩, -⟩
        · exact Or.inl ⟨List.forall_mem_cons.mpr ⟨hkey, hnone⟩, hout⟩
        · refine Or.inr ⟨w, ⟨⟨List.mem_cons_of_mem _ hw.1, hw.2⟩, ?_, ?_⟩, fun h => absurd h hkey⟩
          · intro v hv hvkey
            rcases List.mem_cons.mp hv with rfl | hv
            · exact absurd hvkey hkey
            · exact hmax v hv hvkey
          · rw [List.filter_cons_of_neg (by simpa using hkey), hout]

/-- The loop over a whole sequence of adjacent versions with keys. -/
theorem kept_spec {es : List KeyValueEntry} (hgroup : Grouped es) (hempty : ∀ e ∈ es, e.key ≠ "")
    (key : String) : ((∀ e ∈ es, e.key ≠ key) ∧ (kept es).filter (fun e => e.key = key) = []) ∨
      ∃ w, Wins key es (kept es) w := by
  cases es with
  | nil => exact Or.inl ⟨by simp, rfl⟩
  | cons e es =>
    rw [kept, if_neg (hempty e List.mem_cons_self)]
    exact (keptFrom_spec es e hgroup key).imp_right fun h => h.imp fun _ hw => hw.1

theorem kept_subset : ∀ {es : List KeyValueEntry} {e : KeyValueEntry}, e ∈ kept es → e ∈ es
  | [], _, h => h
  | x :: es, e, h => by
    rw [kept] at h
    split at h
    · exact List.mem_cons_of_mem _ (kept_subset h)
    · exact keptFrom_subset h

/-! ## The merge -/

/-- What a list gets of the entries that are kept. -/
theorem writeKept_list (es : List KeyValueEntry) (acc : List MemTableEntry) :
    writeKept (fun es e => .ok (es ++ [e])) es acc =
      .ok (acc ++ (es.filter fun e => !e.isTombstone).map mergedEntry) := by
  induction es generalizing acc with
  | nil => rw [writeKept, List.filter_nil, List.map_nil, List.append_nil]
  | cons e es ih =>
    rw [writeKept, writeEntryIfNotTombstone]
    cases htomb : e.isTombstone with
    | true =>
      rw [List.filter_cons_of_neg (by simp [htomb])]
      exact ih acc
    | false =>
      have hrest := ih (acc ++ [mergedEntry e])
      rw [List.append_assoc, List.singleton_append] at hrest
      rw [List.filter_cons_of_pos (by simp [htomb]), List.map_cons]
      exact hrest

theorem Cursor.Lists.reachable {c : Cursor} {table : List KeyValueEntry} (h : c.Lists table) :
    c.reachable = table := by
  have hall : ∀ t : List KeyValueEntry, (∀ e ∈ t, c.get (utf8 e.compositeKey) = .ok (some e)) →
      readUntilError c.get (t.map fun e => utf8 e.compositeKey) = t := by
    intro t
    induction t with
    | nil => intro _; rfl
    | cons e t ih =>
      intro hget
      rw [List.forall_mem_cons] at hget
      rw [List.map_cons, readUntilError, hget.1]
      exact congrArg (e :: ·) (ih hget.2)
  rw [Cursor.reachable, h.keys]
  exact hall table h.get

theorem Cursor.Lists.noPanic {c : Cursor} {table : List KeyValueEntry} (h : c.Lists table) :
    c.NoPanic := by
  intro key hkey reason hpanic
  rw [h.keys, List.mem_map] at hkey
  obtain ⟨e, he, rfl⟩ := hkey
  rw [h.get e he] at hpanic
  cases hpanic

/-- No two tenants use the same key. -/
def OneTenantPerKey (inputs : List KeyValueEntry) : Prop :=
  ∀ e ∈ inputs, ∀ e' ∈ inputs, e.key = e'.key → e.tenantID = e'.tenantID

instance (inputs : List KeyValueEntry) : Decidable (OneTenantPerKey inputs) :=
  inferInstanceAs (Decidable (∀ _ ∈ _, _))

/-- With one tenant for each key, the keys of a compaction are the composite keys. -/
theorem compositeKey_eq_iff {inputs : List KeyValueEntry} (htenants : OneTenantPerKey inputs)
    (hcolon : ∀ e ∈ inputs, ':' ∉ e.tenantID.toList) {e e' : KeyValueEntry} (he : e ∈ inputs)
    (he' : e' ∈ inputs) : e.compositeKey = e'.compositeKey ↔ e.key = e'.key := by
  constructor
  · exact fun h => (buildKey_inj (hcolon e he) (hcolon e' he') h).2
  · intro h
    rw [KeyValueEntry.compositeKey, KeyValueEntry.compositeKey, htenants e he e' he' h, h]

/-- What is kept of adjacent versions satisfies the specification. -/
theorem keepsNewest_kept {inputs es : List KeyValueEntry} (hperm : es.Perm inputs)
    (hgroup : Grouped es) (htenants : OneTenantPerKey inputs)
    (hcolon : ∀ e ∈ inputs, ':' ∉ e.tenantID.toList) (hempty : ∀ e ∈ inputs, e.key ≠ "") :
    KeepsNewest inputs (((kept es).filter fun e => !e.isTombstone).map mergedEntry) := by
  intro key
  dsimp only
  have hkept : ∀ e ∈ kept es, e ∈ inputs := fun e he => hperm.mem_iff.mp (kept_subset he)
  -- what is written under the composite key
  have hout : (((kept es).filter fun e => !e.isTombstone).map mergedEntry).filter
      (fun e => e.key = key) =
      (((kept es).filter fun e => e.compositeKey = key).filter fun e => !e.isTombstone).map
        mergedEntry := by
    rw [List.filter_map, List.filter_comm]
    rfl
  by_cases hsome : ∃ e₀ ∈ inputs, e₀.compositeKey = key
  · obtain ⟨e₀, he₀, rfl⟩ := hsome
    have hsame : ∀ e ∈ inputs, (e.compositeKey = e₀.compositeKey ↔ e.key = e₀.key) :=
      fun e he => compositeKey_eq_iff htenants hcolon he he₀
    have hfilter : (kept es).filter (fun e => e.compositeKey = e₀.compositeKey) =
        (kept es).filter fun e => e.key = e₀.key :=
      List.filter_congr fun e he => by simp only [hsame e (hkept e he)]
    rcases kept_spec hgroup (fun e he => hempty e (hperm.mem_iff.mp he)) e₀.key with
      ⟨hnone, -⟩ | ⟨w, hw, hmax, hwout⟩
    · exact absurd rfl (hnone e₀ (hperm.mem_iff.mpr he₀))
    · have hwmem := hperm.mem_iff.mp hw.1
      refine Or.inr ⟨w, List.mem_filter.mpr ⟨hwmem, by simpa using (hsame w hwmem).mpr hw.2⟩, ?_, ?_⟩
      · intro v hv
        obtain ⟨hvmem, hvkey⟩ := List.mem_filter.mp hv
        exact hmax v (hperm.mem_iff.mpr hvmem) ((hsame v hvmem).mp (by simpa using hvkey))
      · rw [hout, hfilter, hwout]
        cases htomb : w.isTombstone <;> simp [htomb]
  · refine Or.inl ⟨List.filter_eq_nil_iff.mpr fun e he => ?_, ?_⟩
    · simpa using fun h => hsome ⟨e, he, h⟩
    · have hnil : (kept es).filter (fun e => e.compositeKey = key) = [] :=
        List.filter_eq_nil_iff.mpr fun e he => by simpa using fun h => hsome ⟨e, hkept e he, h⟩
      rw [hout, hnil]
      rfl

theorem flatMap_reachable {cursors : List Cursor} {tables : List (List KeyValueEntry)}
    (h : List.Forall₂ Cursor.Lists cursors tables) :
    cursors.flatMap Cursor.reachable = tables.flatten := by
  induction h with
  | nil => rfl
  | cons hc _ ih => rw [List.flatMap_cons, hc.reachable, ih, List.flatten_cons]

theorem forall_lists {cursors : List Cursor} {tables : List (List KeyValueEntry)}
    (h : List.Forall₂ Cursor.Lists cursors tables) :
    (∀ c ∈ cursors, ∃ t ∈ tables, c.Lists t) ∧ ∀ t ∈ tables, ∃ c : Cursor, c.Lists t := by
  induction h with
  | nil => simp
  | cons hc _ ih =>
    constructor
    · rw [List.forall_mem_cons]
      refine ⟨⟨_, List.mem_cons_self, hc⟩, fun c hmem => ?_⟩
      obtain ⟨t, ht, hlists⟩ := ih.1 c hmem
      exact ⟨t, List.mem_cons_of_mem _ ht, hlists⟩
    · rw [List.forall_mem_cons]
      exact ⟨⟨_, hc⟩, ih.2⟩

namespace Sample

/-- An entry with a clock of one coordinator. -/
def version (tenantID key : String) (value : Bytes) (counter : Int) : KeyValueEntry :=
  ⟨tenantID, key, some value, ⟨[⟨"c", counter⟩]⟩, counter, false⟩

/-- A tombstone with a clock of one coordinator. -/
def tombstone (tenantID key : String) (counter : Int) : KeyValueEntry :=
  ⟨tenantID, key, none, ⟨[⟨"c", counter⟩]⟩, counter, true⟩

/-- A reader of these entries that lists them in this order. -/
def cursorOf (table : List KeyValueEntry) : Cursor where
  get key := .ok (table.find? fun e => utf8 e.compositeKey = key)
  keys := table.map fun e => utf8 e.compositeKey

end Sample

theorem cursorOf_lists {table : List KeyValueEntry}
    (hfind : ∀ e ∈ table, (table.find? fun x => utf8 x.compositeKey = utf8 e.compositeKey) = some e)
    (hnodup : (table.map KeyValueEntry.compositeKey).Nodup)
    (hcolon : ∀ e ∈ table, ':' ∉ e.tenantID.toList) : (Sample.cursorOf table).Lists table :=
  ⟨rfl, fun e he => congrArg Except.ok (hfind e he), hnodup, hcolon⟩

end PairDB.StorageNode
