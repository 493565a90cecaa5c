import PairDB.StorageNode.Compaction

/-!
# What the k-way merger returns

Of a reader the merger returns the entries before the first key whose `Get` fails (`reachable`). The
merger as a whole returns the reachable entries of all readers, each once; if every reader lists its
entries in ascending order of their keys, then so does the merger. `merger_yields_all_entries` says
this for readers all of whose entries can be read.

`merge_spec` puts this together with the loop of `mergeSSTables`: the loop hands over the entries
that are `kept` of such a sequence, tombstones apart.
-/

namespace PairDB.StorageNode

open Infra

/-- The entries before the first key that cannot be read. -/
def readUntilError (get : Bytes → Except Fault (Option KeyValueEntry)) :
    List Bytes → List KeyValueEntry
  | [] => []
  | key :: keys =>
    match get key with
    | .ok (some entry) => entry :: readUntilError get keys
    | _ => []

theorem length_readUntilError_le (get : Bytes → Except Fault (Option KeyValueEntry))
    (keys : List Bytes) : (readUntilError get keys).length ≤ keys.length := by
  induction keys with
  | nil => exact le_rfl
  | cons key keys ih =>
    rw [readUntilError]
    split
    · exact Nat.succ_le_succ ih
    · exact Nat.zero_le _

/-- The entries of a reader that the merger gets. -/
def Cursor.reachable (c : Cursor) : List KeyValueEntry := readUntilError c.get c.keys

/-- Reading a key does not panic. -/
def Cursor.NoPanic (c : Cursor) : Prop := ∀ key ∈ c.keys, ∀ reason, c.get key ≠ .error (.panic reason)

/-- The call panics. -/
def isPanic {α : Type} : Except Fault α → Bool
  | .error (.panic _) => true
  | _ => false

theorem isPanic_eq_false {α : Type} {r : Except Fault α} (h : isPanic r = false) (reason : String) :
    r ≠ .error (.panic reason) := by
  rintro rfl
  cases h

instance (c : Cursor) : Decidable c.NoPanic :=
  decidable_of_iff (∀ key ∈ c.keys, isPanic (c.get key) = false)
    ⟨fun h key hkey => isPanic_eq_false (h key hkey), fun h key hkey => by
      cases hget : c.get key with
      | ok entry => rfl
      | error fault =>
        cases fault with
        | err message => rfl
        | panic reason => exact absurd hget (h key hkey reason)⟩

namespace KWayMerger

/-- What a reader still gives: the entry in the heap and the reachable ones after it. -/
def pending (m : KWayMerger) (e : MergeEntry) : List KeyValueEntry :=
  e.entry :: ((m.cursors[e.readerIdx]?).map Cursor.reachable).getD []

/-- What the merger still returns, in some order. -/
def rest (m : KWayMerger) : List KeyValueEntry := m.heap.toList.flatMap m.pending

/-- Every reader has at most one entry in the heap, and no `Get` panics. -/
structure WellFormed (m : KWayMerger) : Prop where
  nodup : (m.heap.toList.map MergeEntry.readerIdx).Nodup
  inRange : ∀ e ∈ m.heap.toList, e.readerIdx < m.cursors.length
  noPanic : ∀ c ∈ m.cursors, c.NoPanic

/-- Every reader lists its entries in ascending order. -/
def Ascending (m : KWayMerger) : Prop :=
  ∀ e ∈ m.heap.toList, (m.pending e).Pairwise fun a b => a.key ≤ b.key

variable {m m' : KWayMerger} {i : Nat} {c : Cursor}

/-- Changing the cursor of a reader that is not in the heap does not matter. -/
theorem pending_set {c' : Cursor} {e : MergeEntry} (h : e.readerIdx ≠ i) :
    pending { m with cursors := m.cursors.set i c' } e = m.pending e := by
  unfold pending
  rw [List.getElem?_set_ne (Ne.symm h)]

theorem ne_of_not_mem {e : MergeEntry} (h : i ∉ m.heap.toList.map MergeEntry.readerIdx)
    (he : e ∈ m.heap.toList) : e.readerIdx ≠ i := by
  rintro rfl
  exact h (List.mem_map_of_mem he)

/-- What `advance` does for a reader that has nothing in the heap. -/
structure Advanced (m m' : KWayMerger) (i : Nat) (c : Cursor) : Prop where
  rest : m'.rest.Perm (c.reachable ++ m.rest)
  wellFormed : m'.WellFormed
  length : m'.cursors.length = m.cursors.length
  others : ∀ j, j ≠ i → m'.cursors[j]? = m.cursors[j]?
  heap : ∀ e ∈ m'.heap.toList, e ∈ m.heap.toList ∨ e.readerIdx = i
  ascending : m.Ascending → (c.reachable.Pairwise fun a b => a.key ≤ b.key) → m'.Ascending

theorem noPanic_set {c' : Cursor} (h : ∀ c ∈ m.cursors, c.NoPanic) (hc' : c'.NoPanic) :
    ∀ c ∈ m.cursors.set i c', c.NoPanic := by
  intro d hd
  rcases List.mem_or_eq_of_mem_set hd with hold | rfl
  · exact h d hold
  · exact hc'

/-- The entry of the next key goes into the heap. -/
theorem advanced_push {key : Bytes} {keys : List Bytes} {entry : KeyValueEntry}
    (hwf : m.WellFormed) (hc : m.cursors[i]? = some c)
    (hi : i ∉ m.heap.toList.map MergeEntry.readerIdx) (hkeys : c.keys = key :: keys)
    (hget : c.get key = .ok (some entry)) :
    Advanced m { heap := m.heap.push ⟨entry, i⟩, cursors := m.cursors.set i { c with keys } } i c := by
  have hmem : c ∈ m.cursors := List.mem_of_getElem? hc
  have hlt : i < m.cursors.length := (List.getElem?_eq_some_iff.mp hc).1
  have hpush := m.heap.toList_push ⟨entry, i⟩
  have hreach : c.reachable = entry :: readUntilError c.get keys := by
    rw [Cursor.reachable, hkeys, readUntilError, hget]
  have hself : ∀ heap, pending { heap, cursors := m.cursors.set i { c with keys } } ⟨entry, i⟩ =
      c.reachable := by
    intro heap
    rw [hreach, pending]
    simp only [List.getElem?_set_self hlt, Option.map_some, Option.getD_some]
    rfl
  have hnp : ({ c with keys } : Cursor).NoPanic := fun k hk =>
    hwf.noPanic c hmem k (hkeys ▸ List.mem_cons_of_mem _ hk)
  constructor
  · refine (hpush.flatMap_right _).trans ?_
    rw [List.flatMap_cons, hself]
    refine List.Perm.append_left _ (List.Perm.of_eq ?_)
    exact List.flatMap_congr fun e he => pending_set (ne_of_not_mem hi he)
  · constructor
    · refine ((hpush.map _).nodup_iff).mpr ?_
      exact List.nodup_cons.mpr ⟨hi, hwf.nodup⟩
    · intro e he
      rw [List.length_set]
      rcases List.mem_cons.mp (hpush.mem_iff.mp he) with rfl | hold
      · exact hlt
      · exact hwf.inRange e hold
    · exact noPanic_set hwf.noPanic hnp
  · exact List.length_set
  · intro j hj
    exact List.getElem?_set_ne (Ne.symm hj)
  · intro e he
    rcases List.mem_cons.mp (hpush.mem_iff.mp he) with rfl | hold
    · exact Or.inr rfl
    · exact Or.inl hold
  · intro hasc hsorted e he
    rcases List.mem_cons.mp (hpush.mem_iff.mp he) with rfl | hold
    · rw [hself]
      exact hsorted
    · have hsame : pending { m with
          heap := m.heap.push ⟨entry, i⟩, cursors := m.cursors.set i { c with keys } } e =
            m.pending e := pending_set (ne_of_not_mem hi hold)
      rw [hsame]
      exact hasc e hold

/-- The next key cannot be read, and the reader is not asked again. -/
theorem advanced_skip {key : Bytes} {keys : List Bytes} (hwf : m.WellFormed)
    (hc : m.cursors[i]? = some c) (hi : i ∉ m.heap.toList.map MergeEntry.readerIdx)
    (hkeys : c.keys = key :: keys) (hget : ∀ entry, c.get key ≠ .ok (some entry)) :
    Advanced m { m with cursors := m.cursors.set i { c with keys } } i c := by
  have hmem : c ∈ m.cursors := List.mem_of_getElem? hc
  have hreach : c.reachable = [] := by
    rw [Cursor.reachable, hkeys, readUntilError]
    split
    · next entry hentry => exact absurd hentry (hget entry)
    · rfl
  have hnp : ({ c with keys } : Cursor).NoPanic := fun k hk =>
    hwf.noPanic c hmem k (hkeys ▸ List.mem_cons_of_mem _ hk)
  have hpending : ∀ e ∈ m.heap.toList,
      pending { m with cursors := m.cursors.set i { c with keys } } e = m.pending e :=
    fun e he => pending_set (ne_of_not_mem hi he)
  constructor
  · rw [hreach, List.nil_append]
    exact List.Perm.of_eq (List.flatMap_congr hpending)
  · refine ⟨hwf.nodup, fun e he => ?_, noPanic_set hwf.noPanic hnp⟩
    rw [List.length_set]
    exact hwf.inRange e he
  · exact List.length_set
  · intro j hj
    exact List.getElem?_set_ne (Ne.symm hj)
  · exact fun e he => Or.inl he
  · intro hasc _ e he
    rw [hpending e he]
    exact hasc e he

theorem advance_spec (hwf : m.WellFormed) (hc : m.cursors[i]? = some c)
    (hi : i ∉ m.heap.toList.map MergeEntry.readerIdx) :
    ∃ m', m.advance i = .ok m' ∧ Advanced m m' i c := by
  have hmem : c ∈ m.cursors := List.mem_of_getElem? hc
  cases hkeys : c.keys with
  | nil =>
    refine ⟨m, by simp only [advance, hc, hkeys], ?_⟩
    have hreach : c.reachable = [] := by rw [Cursor.reachable, hkeys, readUntilError]
    refine ⟨by rw [hreach, List.nil_append], hwf, rfl, fun _ _ => rfl, fun e he => Or.inl he, ?_⟩
    exact fun hasc _ => hasc
  | cons key keys =>
    have hnp := hwf.noPanic c hmem key (hkeys ▸ List.mem_cons_self)
    rcases hget : c.get key with (cause | reason) | (_ | entry)
    · exact ⟨_, by simp only [advance, hc, hkeys, hget],
        advanced_skip hwf hc hi hkeys (by simp [hget])⟩
    · exact absurd hget (hnp reason)
    · exact ⟨_, by simp only [advance, hc, hkeys, hget],
        advanced_skip hwf hc hi hkeys (by simp [hget])⟩
    · exact ⟨_, by simp only [advance, hc, hkeys, hget],
        advanced_push hwf hc hi hkeys hget⟩

/-- The readers `is` are advanced one after another, each for the first time. -/
theorem advanceAll_spec {cs : List Cursor} : ∀ (is : List Nat) (m : KWayMerger), m.WellFormed →
    is.Nodup → (∀ i ∈ is, i ∉ m.heap.toList.map MergeEntry.readerIdx) →
    (∀ i ∈ is, m.cursors[i]? = cs[i]?) → (∀ i ∈ is, i < cs.length) →
    ∃ m', advanceAll is m = .ok m' ∧ m'.WellFormed ∧
      m'.rest.Perm (is.flatMap (fun i => ((cs[i]?).map Cursor.reachable).getD []) ++ m.rest) ∧
      (m.Ascending → (∀ c ∈ cs, c.reachable.Pairwise fun a b => a.key ≤ b.key) → m'.Ascending)
  | [], m, hwf, _, _, _, _ => ⟨m, rfl, hwf, List.Perm.refl _, fun h _ => h⟩
  | i :: is, m, hwf, hnd, hheap, hcs, hlt => by
    obtain ⟨hi, hnd⟩ := List.nodup_cons.mp hnd
    rw [List.forall_mem_cons] at hheap hcs hlt
    obtain ⟨c, hc⟩ : ∃ c, cs[i]? = some c := ⟨_, List.getElem?_eq_getElem hlt.1⟩
    obtain ⟨m₁, hadvance, h₁⟩ := advance_spec hwf (hcs.1.trans hc) hheap.1
    have hne : ∀ j ∈ is, j ≠ i := fun j hj hji => hi (hji ▸ hj)
    have hheap₁ : ∀ j ∈ is, j ∉ m₁.heap.toList.map MergeEntry.readerIdx := by
      intro j hj hmem
      obtain ⟨e, he, rfl⟩ := List.mem_map.mp hmem
      rcases h₁.heap e he with hold | hnew
      · exact hheap.2 _ hj (List.mem_map_of_mem hold)
      · exact hne _ hj hnew
    have hcs₁ : ∀ j ∈ is, m₁.cursors[j]? = cs[j]? := fun j hj =>
      (h₁.others j (hne j hj)).trans (hcs.2 j hj)
    obtain ⟨m', hall, hwf', hrest, hasc⟩ :=
      advanceAll_spec is m₁ h₁.wellFormed hnd hheap₁ hcs₁ hlt.2
    refine ⟨m', by rw [advanceAll, hadvance]; exact hall, hwf', ?_, fun h hsorted => ?_⟩
    · rw [List.flatMap_cons, hc, Option.map_some, Option.getD_some, List.append_assoc]
      refine hrest.trans ((List.Perm.append_left _ h₁.rest).trans ?_)
      rw [← List.append_assoc, ← List.append_assoc]
      exact List.Perm.append_right _ List.perm_append_comm
    · exact hasc (h₁.ascending h (hsorted c (List.mem_of_getElem? hc))) hsorted

theorem flatMap_range_getElem? {α β : Type} (l : List α) (f : α → List β) :
    (List.range l.length).flatMap (fun i => ((l[i]?).map f).getD []) = l.flatMap f := by
  induction l using List.reverseRecOn with
  | nil => rfl
  | append_singleton l a ih =>
    rw [List.length_append, List.length_singleton, List.range_succ, List.flatMap_append,
      List.flatMap_append]
    congr 1
    · rw [← ih]
      refine List.flatMap_congr fun i hi => ?_
      rw [List.getElem?_append_left (List.mem_range.mp hi)]
    · simp

/-- A new merger is about to return the reachable entries of all readers. -/
theorem new_spec {cs : List Cursor} (hnp : ∀ c ∈ cs, c.NoPanic) :
    ∃ m, new cs = .ok m ∧ m.WellFormed ∧ m.rest.Perm (cs.flatMap Cursor.reachable) ∧
      ((∀ c ∈ cs, c.reachable.Pairwise fun a b => a.key ≤ b.key) → m.Ascending) := by
  have hempty : (⟨Heap.empty, cs⟩ : KWayMerger).heap.toList = [] := rfl
  obtain ⟨m, hnew, hwf, hrest, hasc⟩ := @advanceAll_spec cs (List.range cs.length)
    ⟨Heap.empty, cs⟩ ⟨by simp [hempty], by simp [hempty], hnp⟩ List.nodup_range
    (by simp [hempty]) (fun _ _ => rfl) (fun i hi => List.mem_range.mp hi)
  refine ⟨m, hnew, hwf, ?_, hasc (by simp [Ascending, hempty])⟩
  rw [flatMap_range_getElem?] at hrest
  simpa [rest, hempty] using hrest

/-- `next` returns one of the remaining entries, and the smallest one if the readers ascend. -/
theorem next_spec (hwf : m.WellFormed) :
    (m.next = .ok none ∧ m.rest = []) ∨
      ∃ entry m', m.next = .ok (some (entry, m')) ∧ m'.WellFormed ∧
        m.rest.Perm (entry :: m'.rest) ∧
        (m.Ascending → m'.Ascending ∧ ∀ x ∈ m'.rest, entry.key ≤ x.key) := by
  rcases hpop : m.heap.pop with _ | ⟨e, heap⟩
  · refine Or.inl ⟨by simp only [next, hpop], ?_⟩
    rw [rest, (m.heap.pop_eq_none_iff).mp hpop]
    rfl
  · obtain ⟨hperm, hmin⟩ := Heap.pop_spec hpop
    have hnd := ((hperm.map MergeEntry.readerIdx).nodup_iff).mp hwf.nodup
    rw [List.map_cons, List.nodup_cons] at hnd
    have hwf₁ : WellFormed { m with heap } := ⟨hnd.2,
      fun x hx => hwf.inRange x (hperm.mem_iff.mpr (List.mem_cons_of_mem _ hx)), hwf.noPanic⟩
    have hlt : e.readerIdx < m.cursors.length :=
      hwf.inRange e (hperm.mem_iff.mpr List.mem_cons_self)
    have hc := List.getElem?_eq_getElem hlt
    obtain ⟨m', hadvance, h'⟩ := advance_spec hwf₁ hc hnd.1
    refine Or.inr ⟨e.entry, m', by simp only [next, hpop, hadvance]; rfl, h'.wellFormed, ?_, ?_⟩
    · have hsplit : m.rest.Perm (m.pending e ++ rest { m with heap }) := hperm.flatMap_right _
      rw [pending, hc, Option.map_some, Option.getD_some, List.cons_append] at hsplit
      exact hsplit.trans (h'.rest.symm.cons _)
    · intro hasc
      have hself := hasc e (hperm.mem_iff.mpr List.mem_cons_self)
      rw [pending, hc, Option.map_some, Option.getD_some, List.pairwise_cons] at hself
      have hasc₁ : Ascending { m with heap } := fun x hx =>
        hasc x (hperm.mem_iff.mpr (List.mem_cons_of_mem _ hx))
      refine ⟨h'.ascending hasc₁ hself.2, fun x hx => ?_⟩
      rcases List.mem_append.mp (h'.rest.mem_iff.mp hx) with hown | hother
      · exact hself.1 x hown
      · -- the other readers go on from an entry in the heap
        obtain ⟨y, hy, hxy⟩ := List.mem_flatMap.mp hother
        have hle := hmin y hy
        rcases List.mem_cons.mp hxy with rfl | hxy
        · exact hle
        · exact hle.trans ((List.pairwise_cons.mp (hasc₁ y hy)).1 x hxy)

/-- The entries that `next` returns until `hasNext` is false. -/
inductive Yields : KWayMerger → List KeyValueEntry → Prop
  | done {m : KWayMerger} : m.next = .ok none → Yields m []
  | next {m m' : KWayMerger} {entry : KeyValueEntry} {es : List KeyValueEntry} :
      m.next = .ok (some (entry, m')) → Yields m' es → Yields m (entry :: es)

/-- **What a merger yields**: what it still has, in order if the readers ascend. -/
theorem yields_spec (hwf : m.WellFormed) : ∃ es, m.Yields es ∧ es.Perm m.rest ∧
    (m.Ascending → es.Pairwise fun a b => a.key ≤ b.key) := by
  -- every `next` leaves less
  induction hlength : m.rest.length generalizing m with
  | zero =>
    have hnil := List.length_eq_zero_iff.mp hlength
    rcases next_spec hwf with ⟨hnext, -⟩ | ⟨entry, m', -, -, hperm, -⟩
    · exact ⟨[], .done hnext, hnil ▸ .nil, fun _ => .nil⟩
    · rw [hnil] at hperm
      cases hperm.nil_eq
  | succ n ih =>
    rcases next_spec hwf with ⟨-, hnil⟩ | ⟨entry, m', hnext, hwf', hperm, hasc⟩
    · rw [hnil] at hlength
      cases hlength
    · have hrest : m'.rest.length = n := by
        have := hperm.length_eq
        rw [List.length_cons] at this
        omega
      obtain ⟨es, hyields, hes, hsorted⟩ := ih hwf' hrest
      refine ⟨entry :: es, .next hnext hyields, (hes.cons entry).trans hperm.symm, fun h => ?_⟩
      obtain ⟨hasc', hle⟩ := hasc h
      exact List.pairwise_cons.mpr ⟨fun x hx => hle x (hes.mem_iff.mp hx), hsorted hasc'⟩

/-- The entries that the merger returns, one after another. -/
def drain : Nat → KWayMerger → Except Fault (List KeyValueEntry)
  | 0, _ => .ok []
  | fuel + 1, m =>
    m.next.bind fun
      | none => .ok []
      | some (entry, m) => (drain fuel m).map fun es => entry :: es

theorem drain_of_yields {es : List KeyValueEntry} (h : m.Yields es) {fuel : Nat}
    (hfuel : es.length ≤ fuel) : drain fuel m = .ok es := by
  induction h generalizing fuel with
  | done hnext =>
    cases fuel with
    | zero => rfl
    | succ fuel =>
      rw [drain, hnext]
      rfl
  | next hnext _ ih =>
    cases fuel with
    | zero => cases hfuel
    | succ fuel =>
      rw [drain, hnext]
      simp only [Except.bind, ih (Nat.le_of_succ_le_succ hfuel)]
      rfl

theorem drain_spec {fuel : Nat} (hwf : m.WellFormed) (hfuel : m.rest.length ≤ fuel) :
    ∃ es, drain fuel m = .ok es ∧ es.Perm m.rest ∧
      (m.Ascending → es.Pairwise fun a b => a.key ≤ b.key) := by
  obtain ⟨es, hyields, hperm, hsorted⟩ := yields_spec hwf
  exact ⟨es, drain_of_yields hyields (hperm.length_eq ▸ hfuel), hperm, hsorted⟩

end KWayMerger

/-! ## Readers -/

/-- What is read under a key, if anything. -/
def readEntry (get : Bytes → Except Fault (Option KeyValueEntry)) (key : Bytes) :
    Option KeyValueEntry :=
  match get key with
  | .ok entry => entry
  | .error _ => none

theorem readUntilError_eq_filterMap {get : Bytes → Except Fault (Option KeyValueEntry)}
    {keys : List Bytes} (h : ∀ key ∈ keys, ∃ entry, get key = .ok (some entry)) :
    readUntilError get keys = keys.filterMap (readEntry get) := by
  induction keys with
  | nil => rfl
  | cons key keys ih =>
    rw [List.forall_mem_cons] at h
    obtain ⟨entry, hentry⟩ := h.1
    have hread : readEntry get key = some entry := by rw [readEntry, hentry]
    rw [readUntilError, hentry, List.filterMap_cons_some hread, ih h.2]

/-- The entries of a reader in the order in which it lists them. -/
def Cursor.entries (c : Cursor) : List KeyValueEntry := c.keys.filterMap (readEntry c.get)

/-- The entries of a reader. -/
def SSTableReader.entries (r : SSTableReader) : List KeyValueEntry :=
  r.index.keys.filterMap (readEntry r.getBytes)

/-- Every key of the index can be read. -/
def SSTableReader.AllReadable (r : SSTableReader) : Prop :=
  ∀ key ∈ r.index.keys, ∃ entry, r.getBytes key = .ok (some entry)

namespace SSTableReader

variable {r : SSTableReader} (order : RangeOrder Bytes)

theorem AllReadable.cursor (h : r.AllReadable) :
    ∀ key ∈ (r.cursor order).keys, ∃ entry, (r.cursor order).get key = .ok (some entry) :=
  fun key hkey => h key ((order.perm _).mem_iff.mp hkey)

theorem AllReadable.noPanic (h : r.AllReadable) : (r.cursor order).NoPanic := by
  intro key hkey reason hpanic
  obtain ⟨entry, hentry⟩ := h.cursor order key hkey
  rw [hentry] at hpanic
  cases hpanic

theorem AllReadable.reachable (h : r.AllReadable) :
    (r.cursor order).reachable = (r.cursor order).entries :=
  readUntilError_eq_filterMap (h.cursor order)

theorem perm_entries_cursor (r : SSTableReader) : (r.cursor order).entries.Perm r.entries :=
  (order.perm _).filterMap _

end SSTableReader

theorem perm_reachable_readers {readers : List SSTableReader} (orders : Nat → RangeOrder Bytes)
    (h : ∀ r ∈ readers, r.AllReadable) :
    ((readers.mapIdx fun i r => r.cursor (orders i)).flatMap Cursor.reachable).Perm
      (readers.flatMap SSTableReader.entries) := by
  induction readers generalizing orders with
  | nil => exact .nil
  | cons r readers ih =>
    rw [List.forall_mem_cons] at h
    rw [List.mapIdx_cons, List.flatMap_cons, List.flatMap_cons, h.1.reachable]
    exact (r.perm_entries_cursor _).append (ih (fun i => orders (i + 1)) h.2)

/--
**The merger loses and invents nothing.** The entries of all readers can be read. Then, whatever the
orders of their indexes are, `next` returns every entry of every reader once before `hasNext` is
false. If every reader lists its entries in ascending order of their keys, then so does the merger.
-/
theorem merger_yields_all_entries (readers : List SSTableReader) (orders : Nat → RangeOrder Bytes)
    (h : ∀ r ∈ readers, r.AllReadable) :
    ∃ m es, KWayMerger.new (readers.mapIdx fun i r => r.cursor (orders i)) = .ok m ∧
      m.Yields es ∧ es.Perm (readers.flatMap SSTableReader.entries) ∧
      ((∀ c ∈ readers.mapIdx fun i r => r.cursor (orders i),
          c.entries.Pairwise fun a b => a.key ≤ b.key) →
        es.Pairwise fun a b => a.key ≤ b.key) := by
  have hcursors : ∀ c ∈ readers.mapIdx fun i r => r.cursor (orders i),
      c.NoPanic ∧ c.reachable = c.entries := by
    intro c hc
    obtain ⟨i, hi, rfl⟩ := List.mem_mapIdx.mp hc
    have hr := h _ (List.getElem_mem hi)
    exact ⟨hr.noPanic _, hr.reachable _⟩
  obtain ⟨m, hnew, hwf, hrest, hasc⟩ := KWayMerger.new_spec fun c hc => (hcursors c hc).1
  obtain ⟨es, hyields, hperm, hsorted⟩ := KWayMerger.yields_spec hwf
  refine ⟨m, es, hnew, hyields, (hperm.trans hrest).trans (perm_reachable_readers orders h), ?_⟩
  intro hascending
  refine hsorted (hasc fun c hc => ?_)
  rw [(hcursors c hc).2]
  exact hascending c hc

namespace Sample

/-- A reader of a table with one entry. -/
def readerOf (e : MemTableEntry) : SSTableReader where
  dataFile := SSTableWriter.dataOf [e]
  index := Map.ofList ((SSTableWriter.indexFrom 0 [e]).map fun e => (e.key, e))

/-- A version of a key and its tombstone. -/
def liveVersion : MemTableEntry := ⟨"t:a", some [1], ⟨[]⟩, 5, false⟩

def deletedVersion : MemTableEntry := ⟨"t:a", none, ⟨[]⟩, 6, true⟩

theorem readerOf_getBytes {e : MemTableEntry} (h : Storable e) :
    (readerOf e).getBytes (utf8 e.key) = .ok (some (SSTableReader.toKeyValueEntry e)) := by
  rw [SSTableReader.getBytes_utf8]
  exact @SSTableReader.get_of_storable [] [] e (List.nodup_singleton _) (by decide) h

theorem readerOf_allReadable {e : MemTableEntry} (h : Storable e) :
    (readerOf e).AllReadable :=
  List.forall_mem_singleton.mpr ⟨_, readerOf_getBytes h⟩

theorem readerOf_entries {e : MemTableEntry} (h : Storable e) :
    (readerOf e).entries = [SSTableReader.toKeyValueEntry e] := by
  change [utf8 e.key].filterMap _ = _
  rw [List.filterMap_cons_some (by rw [readEntry, readerOf_getBytes h]), List.filterMap_nil]

end Sample

open Sample in
set_option maxRecDepth 10000 in
/-- Both entries of a key that is in two tables are returned. -/
theorem merger_yields_liveAndDeleted :
    ∃ m es, KWayMerger.new ([readerOf liveVersion, readerOf deletedVersion].mapIdx
        fun _ r => r.cursor (.asHeld _)) = .ok m ∧ m.Yields es ∧
      es.Perm [SSTableReader.toKeyValueEntry liveVersion, SSTableReader.toKeyValueEntry deletedVersion] := by
  have hlive : Storable liveVersion := by decide +kernel
  have hdeleted : Storable deletedVersion := by decide +kernel
  obtain ⟨m, es, hnew, hyields, hperm, -⟩ :=
    merger_yields_all_entries [readerOf liveVersion, readerOf deletedVersion] (fun _ => .asHeld _)
      (List.forall_mem_cons.mpr ⟨readerOf_allReadable hlive,
        List.forall_mem_singleton.mpr (readerOf_allReadable hdeleted)⟩)
  rw [List.flatMap_cons, List.flatMap_singleton, readerOf_entries hlive,
    readerOf_entries hdeleted] at hperm
  exact ⟨m, es, hnew, hyields, hperm⟩

/-! ## The loop -/

/-- The entries that the loop keeps of a sequence, from the point where `best` is kept so far. -/
def keptFrom (best : KeyValueEntry) : List KeyValueEntry → List KeyValueEntry
  | [] => [best]
  | entry :: entries =>
    if entry.key = best.key then
      keptFrom (if Newer entry.vectorClock best.vectorClock then entry else best) entries
    else best :: keptFrom entry entries

/-- The entries that the loop keeps of a sequence. Before the first entry that is kept, those with an
empty key are passed over. -/
def kept : List KeyValueEntry → List KeyValueEntry
  | [] => []
  | entry :: entries => if entry.key = "" then kept entries else keptFrom entry entries

section

variable {ω : Type} {write : ω → MemTableEntry → Except Fault ω}

/-- Hand one entry after another to the writer, tombstones apart. -/
def writeKept (write : ω → MemTableEntry → Except Fault ω) :
    List KeyValueEntry → ω → Except Fault ω
  | [], writer => .ok writer
  | entry :: entries, writer =>
    (writeEntryIfNotTombstone write writer entry).bind (writeKept write entries)

/-- The rounds of the loop over a sequence, and the entry that is written at its end. -/
def roundAll (write : ω → MemTableEntry → Except Fault ω) :
    List KeyValueEntry → MergeLoop ω → Except Fault ω
  | [], s => (s.writeBest write).map MergeLoop.writer
  | entry :: entries, s => (s.round write entry).bind (roundAll write entries)

theorem mergeLoop_of_drain : ∀ {fuel : Nat} {m : KWayMerger} {es : List KeyValueEntry}
    (s : MergeLoop ω), m.drain fuel = .ok es →
    ((mergeLoop write fuel m s).bind fun s => (s.writeBest write).map MergeLoop.writer) =
      roundAll write es s
  | 0, m, es, s, h => by
    cases h
    rfl
  | fuel + 1, m, es, s, h => by
    rw [KWayMerger.drain] at h
    rw [mergeLoop]
    rcases hnext : m.next with e | (_ | ⟨entry, m'⟩)
    · rw [hnext] at h
      cases h
    · rw [hnext] at h
      cases h
      rfl
    · rw [hnext] at h
      rcases hdrain : m'.drain fuel with e | es'
      · simp only [Except.bind, hdrain] at h
        cases h
      · simp only [Except.bind, hdrain] at h
        cases h
        simp only [Except.bind, roundAll]
        cases s.round write entry with
        | error e => rfl
        | ok s' => exact mergeLoop_of_drain s' hdrain

theorem roundAll_keptFrom : ∀ (es : List KeyValueEntry) (best : KeyValueEntry) (writer : ω),
    roundAll write es ⟨best.key, some best, writer⟩ = writeKept write (keptFrom best es) writer
  | [], best, writer => by
    simp only [roundAll, MergeLoop.writeBest, keptFrom, writeKept]
    cases writeEntryIfNotTombstone write writer best <;> rfl
  | entry :: es, best, writer => by
    rw [roundAll, keptFrom, MergeLoop.round]
    by_cases hkey : entry.key = best.key
    · rw [if_pos hkey, if_pos hkey]
      by_cases hnewer : Newer entry.vectorClock best.vectorClock
      · simp only [if_pos hnewer, if_pos (show compareVectorClocks _ _ > 0 from hnewer)]
        rw [← hkey]
        exact roundAll_keptFrom es entry writer
      · simp only [if_neg hnewer, if_neg (show ¬ compareVectorClocks _ _ > 0 from hnewer)]
        exact roundAll_keptFrom es best writer
    · rw [if_neg hkey, if_neg hkey, writeKept, MergeLoop.writeBest]
      cases hw : writeEntryIfNotTombstone write writer best with
      | error e => simp [hw, Except.map, Except.bind]
      | ok writer' =>
        simp only [hw, Except.map, Except.bind]
        exact roundAll_keptFrom es entry writer'

theorem roundAll_kept : ∀ (es : List KeyValueEntry) (writer : ω),
    roundAll write es ⟨"", none, writer⟩ = writeKept write (kept es) writer
  | [], _ => rfl
  | entry :: es, writer => by
    rw [roundAll, kept, MergeLoop.round]
    by_cases hkey : entry.key = ""
    · rw [if_pos hkey, if_pos hkey]
      exact roundAll_kept es writer
    · rw [if_neg hkey, if_neg hkey]
      exact roundAll_keptFrom es entry writer

end

/-- **The merge.** It hands to its writer what is kept of a sequence of the reachable entries; the
sequence is the same for every writer, and it ascends if the readers do. -/
theorem merge_spec {cs : List Cursor} (hnp : ∀ c ∈ cs, c.NoPanic) :
    ∃ es : List KeyValueEntry, es.Perm (cs.flatMap Cursor.reachable) ∧
      ((∀ c ∈ cs, c.reachable.Pairwise fun a b => a.key ≤ b.key) →
        es.Pairwise fun a b => a.key ≤ b.key) ∧
      ∀ {ω : Type} (write : ω → MemTableEntry → Except Fault ω) (writer : ω),
        merge write cs writer = writeKept write (kept es) writer := by
  obtain ⟨m, hnew, hwf, hrest, hasc⟩ := KWayMerger.new_spec hnp
  have hfuel : m.rest.length ≤ (cs.map fun c => c.keys.length).sum := by
    rw [hrest.length_eq, List.length_flatMap]
    exact List.sum_le_sum fun c _ => length_readUntilError_le _ _
  obtain ⟨es, hdrain, hes, hsorted⟩ := KWayMerger.drain_spec hwf hfuel
  refine ⟨es, hes.trans hrest, fun h => hsorted (hasc h), fun write writer => ?_⟩
  rw [merge, hnew, ← roundAll_kept]
  exact mergeLoop_of_drain _ hdrain

end PairDB.StorageNode
