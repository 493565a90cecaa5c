import PairDB.StorageNode.BloomFilter
import Mathlib.Order.Defs.LinearOrder

/-!
# `memtable.SkipList`

Nodes are in a heap and point to each other by their addresses. A node of height `h` is in the lists
of the levels below `h`; the head is in all of them. Reading or writing beyond the height of a node,
and following a null pointer, are panics.

Keys are only compared, so any linear order will do. The zero values of keys and values, which the
head has, are the default ones. The level of a new node is the one that `randomLevel` has chosen.
-/

namespace PairDB.StorageNode

/-- `MaxLevel`. -/
def maxLevel : Nat := 16

/-- `SkipListNode`. -/
structure SkipListNode (κ V : Type*) where
  key : κ
  value : V
  forward : List (Option Nat)

/-- `SkipList`, with the nodes it can reach. The head is at address 0, and the addresses from `next`
on are free. -/
structure SkipList (κ V : Type*) where
  heap : Nat → SkipListNode κ V
  next : Nat
  level : Nat
  size : Int

namespace SkipList

/-- The address of the head. -/
def head : Nat := 0

/-- `randomLevel`, where `coins` are the comparisons of the random numbers with `Probability`. -/
def randomLevel (coins : Nat → Bool) : Nat :=
  ((List.range (maxLevel - 1)).takeWhile coins).length

theorem randomLevel_lt (coins : Nat → Bool) : randomLevel coins < maxLevel := by
  have hle := (List.takeWhile_sublist coins (l := List.range (maxLevel - 1))).length_le
  rw [List.length_range] at hle
  exact Nat.lt_of_le_of_lt hle (by decide)

section Memory

variable {κ V : Type*} (s : SkipList κ V)

/-- The reference `p` is followed. -/
def deref : Option Nat → Except Fault Nat
  | some a => .ok a
  | none => .error (.panic "invalid memory address or nil pointer dereference")

/-- `update[i]`. -/
def updateAt (update : List (Option Nat)) (i : Nat) : Except Fault (Option Nat) :=
  match update[i]? with
  | some p => .ok p
  | none => .error (.panic "index out of range")

/-- `update[i] = p`. -/
def setUpdate (update : List (Option Nat)) (i : Nat) (p : Option Nat) :
    Except Fault (List (Option Nat)) :=
  if i < update.length then .ok (update.set i p) else .error (.panic "index out of range")

/-- `node.Forward[i]`. -/
def forwardAt (a i : Nat) : Except Fault (Option Nat) :=
  match (s.heap a).forward[i]? with
  | some p => .ok p
  | none => .error (.panic "index out of range")

/-- `node.Forward[i] = p`. -/
def setForward (a i : Nat) (p : Option Nat) : Except Fault (SkipList κ V) :=
  if i < (s.heap a).forward.length then
    .ok { s with
      heap := Function.update s.heap a
        { s.heap a with forward := (s.heap a).forward.set i p } }
  else .error (.panic "index out of range")

/-- `node.Value = value`. -/
def setValue (a : Nat) (value : V) : SkipList κ V :=
  { s with heap := Function.update s.heap a { s.heap a with value } }

end Memory

section

variable {κ V : Type*} [LinearOrder κ]

/-- `NewSkipList`. -/
def new [Inhabited κ] [Inhabited V] : SkipList κ V where
  heap := fun _ => ⟨default, default, List.replicate maxLevel none⟩
  next := 1
  level := 0
  size := 0

variable (s : SkipList κ V)

/-! ## Search -/

/-- The inner loop of `Insert`, `Search` and `Delete`, on one level. No list has more nodes than
addresses are in use. -/
def walk (key : κ) (i : Nat) : Nat → Nat → Except Fault Nat
  | 0, _ => .error (.err "the list does not end")
  | fuel + 1, current =>
    (s.forwardAt current i).bind fun p =>
    match p with
    | none => .ok current
    | some a => if (s.heap a).key < key then walk key i fuel a else .ok current

/-- The outer loop of `Search`, from level `n - 1` down. -/
def searchLoop (key : κ) : Nat → Nat → Except Fault Nat
  | 0, current => .ok current
  | i + 1, current =>
    (s.walk key i (s.next + 1) current).bind fun current => searchLoop key i current

/-- `Search`. -/
def search (key : κ) : Except Fault (Option V) :=
  (s.searchLoop key (s.level + 1) head).bind fun current =>
  (s.forwardAt current 0).map fun p =>
  match p with
  | none => none
  | some a => if (s.heap a).key = key then some (s.heap a).value else none

/-- The outer loop of `Insert` and `Delete`, which also keeps where the level was left. -/
def findLoop (key : κ) :
    Nat → Nat → List (Option Nat) → Except Fault (Nat × List (Option Nat))
  | 0, current, update => .ok (current, update)
  | i + 1, current, update =>
    (s.walk key i (s.next + 1) current).bind fun current =>
    (setUpdate update i (some current)).bind fun update => findLoop key i current update

/-! ## Insertion -/

/-- The levels above the current one start at the head. -/
def updateHeads (level : Nat) (update : List (Option Nat)) :
    Nat → Except Fault (List (Option Nat))
  | 0 => .ok update
  | n + 1 => (updateHeads level update n).bind fun update =>
      setUpdate update (level + 1 + n) (some head)

/-- The new node on level `i`. -/
def linkAt (a : Nat) (update : List (Option Nat)) (i : Nat) : Except Fault (SkipList κ V) :=
  (updateAt update i).bind fun u =>
  (deref u).bind fun u =>
  (s.forwardAt u i).bind fun p =>
  (s.setForward a i p).bind fun s => s.setForward u i (some a)

/-- The new node on the levels below `n`. -/
def link (a : Nat) (update : List (Option Nat)) : Nat → Except Fault (SkipList κ V)
  | 0 => .ok s
  | n + 1 => (link a update n).bind fun s => s.linkAt a update n

/-- The new node, which nothing points to yet. -/
def addNode (key : κ) (value : V) (newLevel : Nat) : SkipList κ V where
  heap := Function.update s.heap s.next ⟨key, value, List.replicate (newLevel + 1) none⟩
  next := s.next + 1
  level := if newLevel > s.level then newLevel else s.level
  size := s.size

/-- The second part of `Insert`: the key is not there yet. -/
def insertNode (key : κ) (value : V) (newLevel : Nat) (update : List (Option Nat)) :
    Except Fault (SkipList κ V) :=
  (updateHeads s.level update (newLevel - s.level)).bind fun update =>
  ((s.addNode key value newLevel).link s.next update (newLevel + 1)).map fun s =>
    { s with size := s.size + 1 }

/-- `Insert`. -/
def insert (key : κ) (value : V) (newLevel : Nat) : Except Fault (SkipList κ V) :=
  (s.findLoop key (s.level + 1) head (List.replicate maxLevel none)).bind
    fun (current, update) =>
  (s.forwardAt current 0).bind fun p =>
  match p with
  | none => s.insertNode key value newLevel update
  | some a =>
    if (s.heap a).key = key then .ok (s.setValue a value)
    else s.insertNode key value newLevel update

/-! ## Deletion -/

/-- The node is taken out of the lists from level `i` on, up to the first one it is not in. -/
def unlink (a : Nat) (update : List (Option Nat)) :
    Nat → Nat → SkipList κ V → Except Fault (SkipList κ V)
  | 0, _, s => .ok s
  | n + 1, i, s =>
    (updateAt update i).bind fun u =>
    (deref u).bind fun u =>
    (s.forwardAt u i).bind fun p =>
    if p ≠ some a then .ok s
    else
      (s.forwardAt a i).bind fun q =>
      (s.setForward u i q).bind fun s => unlink a update n (i + 1) s

/-- The level without the empty lists above it. -/
def lowerLevel : Nat → Except Fault Nat
  | 0 => .ok 0
  | level + 1 =>
    (s.forwardAt head (level + 1)).bind fun p =>
    if p = none then lowerLevel level else .ok (level + 1)

/-- The second part of `Delete`: the node is there. -/
def deleteNode (a : Nat) (update : List (Option Nat)) : Except Fault (SkipList κ V) :=
  (unlink a update (s.level + 1) 0 s).bind fun s =>
  (s.lowerLevel s.level).map fun level => { s with level, size := s.size - 1 }

/-- `Delete`. -/
def delete (key : κ) : Except Fault (SkipList κ V × Bool) :=
  (s.findLoop key (s.level + 1) head (List.replicate maxLevel none)).bind
    fun (current, update) =>
  (s.forwardAt current 0).bind fun p =>
  match p with
  | none => .ok (s, false)
  | some a =>
    if (s.heap a).key ≠ key then .ok (s, false)
    else (s.deleteNode a update).map fun s => (s, true)

/-! ## The rest -/

/-- `Len`. -/
def len : Int := s.size

end

end SkipList

/-- `SkipListIterator`. -/
structure SkipListIterator where
  current : Option Nat

namespace SkipList

variable {κ V : Type*} (s : SkipList κ V)

/-- `Iterator`. -/
def iterator : SkipListIterator := ⟨some head⟩

end SkipList

namespace SkipListIterator

variable {κ V : Type*} (it : SkipListIterator) (s : SkipList κ V)

/-- `Next`. -/
def next : Except Fault (SkipListIterator × Bool) :=
  match it.current with
  | none => .ok (it, false)
  | some a => (s.forwardAt a 0).map fun p => (⟨p⟩, p.isSome)

/-- `Key`. -/
def key [Inhabited κ] : κ := (it.current.map fun a => (s.heap a).key).getD default

/-- `Value`. -/
def value [Inhabited V] : V := (it.current.map fun a => (s.heap a).value).getD default

/-- What a loop over the iterator gets. -/
def items [Inhabited κ] [Inhabited V] : Nat → SkipListIterator → Except Fault (List (κ × V))
  | 0, _ => .error (.err "the list does not end")
  | fuel + 1, it =>
    (it.next s).bind fun (it, more) =>
    if more then (items fuel it).map fun l => (it.key s, it.value s) :: l else .ok []

end SkipListIterator

end PairDB.StorageNode
