import PairDB.Infra.Map

/-!
# `service.StreamingManager` and the stream calls of the storage node

A storage node keeps one stream per target. `StartStreaming` makes a context, files it under the
target and executes it in the background; `StopStreaming` forgets it, but does not end its execution,
which goes on with the context that nobody looks up any more. So a context is identified by its
place in the list of all contexts that the node has made.

What a stream copies is a placeholder in the source, so a stream is its ranges and its state.
-/

namespace PairDB.StorageNode

open Infra

/-- `StreamState`. -/
inductive StreamState where
  | copying
  | streaming
  | syncing
  | completed
  | failed
  deriving DecidableEq, Repr

/-- `KeyRange` of the streams. -/
structure StreamKeyRange where
  startHash : UInt64
  endHash : UInt64
  deriving DecidableEq, Repr

/-- One round of the loop of `keyInRanges`. -/
def StreamKeyRange.contains (r : StreamKeyRange) (keyHash : UInt64) : Bool :=
  (keyHash ≥ r.startHash && keyHash < r.endHash) ||
    (r.startHash > r.endHash && (keyHash ≥ r.startHash || keyHash < r.endHash))

/-- `keyInRanges`. -/
def keyInRanges (keyHash : UInt64) (ranges : List StreamKeyRange) : Bool :=
  ranges.any fun r => r.contains keyHash

/-- `parseCompositeKey`: at the first colon. -/
def parseCompositeKey (compositeKey : String) : Except String (String × String) :=
  let cs := compositeKey.toList
  let tenantID := cs.takeWhile (· ≠ ':')
  match cs.dropWhile (· ≠ ':') with
  | [] => .error ("invalid composite key format: " ++ compositeKey)
  | _ :: key => .ok (String.ofList tenantID, String.ofList key)

/-- `StreamContext`. -/
structure StreamContext where
  targetNodeID : String
  keyRanges : List StreamKeyRange
  state : StreamState
  deriving DecidableEq, Repr

/-- What the stream has to do. -/
def StreamContext.job (c : StreamContext) : String × List StreamKeyRange :=
  (c.targetNodeID, c.keyRanges)

/-- `StreamingManager`: all contexts that were made, and those that are active. -/
structure StreamingManager where
  contexts : List StreamContext
  activeStreams : Map String Nat

namespace StreamingManager

/-- `NewStreamingManager`. -/
def new : StreamingManager := ⟨[], ∅⟩

/-- `AddStream`. -/
def addStream (sm : StreamingManager) (targetNodeID : String) (streamCtx : StreamContext) :
    Except String StreamingManager :=
  match sm.activeStreams.get? targetNodeID with
  | some _ => .error ("stream already exists for node " ++ targetNodeID)
  | none =>
    .ok {
      contexts := sm.contexts ++ [streamCtx]
      activeStreams := sm.activeStreams.set targetNodeID sm.contexts.length }

/-- `RemoveStream`. -/
def removeStream (sm : StreamingManager) (targetNodeID : String) : StreamingManager :=
  { sm with activeStreams := sm.activeStreams.remove targetNodeID }

/-- `GetStream`. -/
def getStream (sm : StreamingManager) (targetNodeID : String) : Option StreamContext :=
  (sm.activeStreams.get? targetNodeID).bind fun ref => sm.contexts[ref]?

/-! ## The calls -/

/-- `StartStreaming`, with `Success` of the response. -/
def startStreaming (sm : StreamingManager) (sourceNodeID targetNodeID : String)
    (keyRanges : List StreamKeyRange) : StreamingManager × Bool :=
  if sourceNodeID = "" || targetNodeID = "" || keyRanges.isEmpty then (sm, false)
  else
    match sm.addStream targetNodeID ⟨targetNodeID, keyRanges, .copying⟩ with
    | .error _ => (sm, false)
    | .ok sm' => (sm', true)

/-- `StopStreaming`. -/
def stopStreaming (sm : StreamingManager) (targetNodeID : String) : StreamingManager :=
  if targetNodeID = "" then sm else sm.removeStream targetNodeID

/-- `GetStreamStatus`; no state is an error or `not_found`. -/
def getStreamStatus (sm : StreamingManager) (targetNodeID : String) : Option StreamState :=
  if targetNodeID = "" then none else (sm.getStream targetNodeID).map StreamContext.state

/-! ## The execution -/

/-- The next state that `ExecuteStreaming` sets. Only the copy and the verification can fail. -/
def nextState (fails : Bool) : StreamState → Option StreamState
  | .copying => some (if fails then .failed else .streaming)
  | .streaming => some .syncing
  | .syncing => some (if fails then .failed else .completed)
  | .completed => none
  | .failed => none

/-- `ExecuteStreaming` of a context goes on. -/
def execute (sm : StreamingManager) (ref : Nat) (fails : Bool) : Option StreamingManager :=
  (sm.contexts[ref]?).bind fun streamCtx =>
    (nextState fails streamCtx.state).map fun state =>
      { sm with contexts := sm.contexts.set ref { streamCtx with state } }

/-- A stream to the target with these ranges was executed to its end. -/
def Executed (sm : StreamingManager) (targetNodeID : String) (keyRanges : List StreamKeyRange) :
    Prop :=
  ⟨targetNodeID, keyRanges, .completed⟩ ∈ sm.contexts

/-! ## What the calls do to the active streams -/

variable {sm sm' : StreamingManager}

/-- The ranges of the stream that is filed under a target. -/
def activeRanges (sm : StreamingManager) (targetNodeID : String) : Option (List StreamKeyRange) :=
  (sm.getStream targetNodeID).map StreamContext.keyRanges

/-- A context is filed under its own target. -/
def WellFormed (sm : StreamingManager) : Prop :=
  ∀ target ref, sm.activeStreams.get? target = some ref →
    ∃ streamCtx, sm.contexts[ref]? = some streamCtx ∧ streamCtx.targetNodeID = target

theorem wellFormed_new : new.WellFormed := by
  intro target ref h
  cases h

/-- A stream that is reported as completed was executed. -/
theorem executed_of_completed (hwf : sm.WellFormed) {target : String}
    (h : sm.getStreamStatus target = some .completed) :
    ∃ ranges, sm.activeRanges target = some ranges ∧ sm.Executed target ranges := by
  unfold getStreamStatus at h
  split at h
  · cases h
  · obtain ⟨streamCtx, hctx, hstate⟩ := Option.map_eq_some_iff.mp h
    refine ⟨streamCtx.keyRanges, by rw [activeRanges, hctx, Option.map_some], ?_⟩
    obtain ⟨ref, href, hget⟩ := Option.bind_eq_some_iff.mp hctx
    obtain ⟨streamCtx', hget', rfl⟩ := hwf target ref href
    rw [hget, Option.some.injEq] at hget'
    subst hget'
    have hmem := List.mem_of_getElem? hget
    rw [Executed, ← hstate]
    exact hmem

/-- An execution changes only the state of a context. -/
theorem execute_eq_some {ref : Nat} {fails : Bool} (h : sm.execute ref fails = some sm') :
    sm'.activeStreams = sm.activeStreams ∧
      ∀ i : Nat, sm'.contexts[i]?.map StreamContext.job = sm.contexts[i]?.map StreamContext.job := by
  obtain ⟨streamCtx, hctx, h⟩ := Option.bind_eq_some_iff.mp h
  obtain ⟨state, -, rfl⟩ := Option.map_eq_some_iff.mp h
  refine ⟨rfl, fun i => ?_⟩
  by_cases heq : ref = i
  · subst heq
    have hlt : ref < sm.contexts.length := (List.getElem?_eq_some_iff.mp hctx).1
    simp [List.getElem?_set_self hlt, hctx, StreamContext.job]
  · simp [List.getElem?_set_ne heq]

theorem activeRanges_execute {ref : Nat} {fails : Bool} (h : sm.execute ref fails = some sm')
    (target : String) : sm'.activeRanges target = sm.activeRanges target := by
  obtain ⟨hactive, hcontexts⟩ := execute_eq_some h
  unfold activeRanges getStream
  rw [hactive]
  cases sm.activeStreams.get? target with
  | none => rfl
  | some i =>
    have hsame := congrArg (Option.map Prod.snd) (hcontexts i)
    simpa [Option.map_map, Function.comp_def, StreamContext.job] using hsame

theorem wellFormed_execute {ref : Nat} {fails : Bool} (h : sm.execute ref fails = some sm')
    (hwf : sm.WellFormed) : sm'.WellFormed := by
  obtain ⟨hactive, hcontexts⟩ := execute_eq_some h
  intro target i hi
  rw [hactive] at hi
  obtain ⟨streamCtx, hctx, rfl⟩ := hwf target i hi
  have hsame := congrArg (Option.map Prod.fst) (hcontexts i)
  rw [hctx] at hsame
  simpa [Option.map_map, Function.comp_def, StreamContext.job] using hsame

theorem activeRanges_stopStreaming (stopped target : String) :
    (sm.stopStreaming stopped).activeRanges target = none ∨
      (sm.stopStreaming stopped).activeRanges target = sm.activeRanges target := by
  unfold stopStreaming
  split
  · exact Or.inr rfl
  · simp only [activeRanges, getStream, removeStream, Map.get?_remove]
    split
    · exact Or.inl rfl
    · exact Or.inr rfl

theorem wellFormed_stopStreaming (stopped : String) (hwf : sm.WellFormed) :
    (sm.stopStreaming stopped).WellFormed := by
  unfold stopStreaming
  split
  · exact hwf
  · intro target ref href
    simp only [removeStream, Map.get?_remove] at href
    split at href
    · cases href
    · exact hwf target ref href

/-- What a start does: nothing, or it files a new context. -/
theorem startStreaming_cases (source target : String) (ranges : List StreamKeyRange) :
    (sm.startStreaming source target ranges).1 = sm ∨
      (sm.startStreaming source target ranges).1 =
        ⟨sm.contexts ++ [⟨target, ranges, .copying⟩],
          sm.activeStreams.set target sm.contexts.length⟩ := by
  unfold startStreaming
  split
  · exact Or.inl rfl
  · cases hget : sm.activeStreams.get? target <;> simp [addStream, hget]

theorem wellFormed_startStreaming (source target : String) (ranges : List StreamKeyRange)
    (hwf : sm.WellFormed) : (sm.startStreaming source target ranges).1.WellFormed := by
  rcases startStreaming_cases source target ranges with h | h
  · rw [h]
    exact hwf
  · rw [h]
    intro target' ref href
    simp only [Map.get?_set] at href
    split at href
    · next heq =>
      cases href
      exact ⟨⟨target, ranges, .copying⟩, by simp, heq⟩
    · obtain ⟨streamCtx, hctx, htarget⟩ := hwf target' ref href
      refine ⟨streamCtx, ?_, htarget⟩
      rw [List.getElem?_append_left (List.getElem?_eq_some_iff.mp hctx).1]
      exact hctx

/-- Another target keeps its stream; this one has the new stream, or the one that it had. -/
theorem activeRanges_startStreaming (hwf : sm.WellFormed) (source target : String)
    (ranges : List StreamKeyRange) (target' : String) :
    (sm.startStreaming source target ranges).1.activeRanges target' = sm.activeRanges target' ∨
      target' = target ∧
        (sm.startStreaming source target ranges).1.activeRanges target' = some ranges := by
  rcases startStreaming_cases source target ranges with h | h
  · rw [h]
    exact Or.inl rfl
  · rw [h]
    simp only [activeRanges, getStream, Map.get?_set]
    split
    · next heq =>
      right
      exact ⟨heq.symm, by simp⟩
    · left
      cases href : sm.activeStreams.get? target' with
      | none => rfl
      | some ref =>
        obtain ⟨streamCtx, hctx, -⟩ := hwf target' ref href
        simp only [Option.bind_some]
        rw [List.getElem?_append_left (List.getElem?_eq_some_iff.mp hctx).1]

end StreamingManager

end PairDB.StorageNode
