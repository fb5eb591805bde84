import Mathlib.Data.List.Basic
import Mathlib.Data.List.Nodup
import Mathlib.Logic.Function.Basic

/-!
# Replies on their way back

A processor of a reply queue keeps a subject for each request that waits for its reply. A reply
settles the request that caused it, a timer settles a request that got none, and whoever asked may
turn away. These happen in any order; no request is settled twice, and none is forgotten.
-/

namespace RandomArt.ReturnQueueRouting

variable {Payload Err : Type}

inductive Status where
  | success
  | error
  deriving DecidableEq

structure RemoteRequest where
  correlationId : String
  messageId : String
  replyOn : Option String

structure ReplyMessage (Payload Err : Type) where
  causationId : Option String
  correlationId : String
  messageId : String
  timestamp : ℕ
  status : Status
  payload : Option Payload
  error : Option Err

/-- An error that came with a reply, or the text of one of the processor's own. -/
inductive Cause (Err : Type) where
  | reply (error : Err)
  | text (text : String)

/-- What a subject is called with. -/
structure Notification (Payload Err : Type) where
  messageId : String
  correlationId : String
  causationId : String
  timestamp : ℕ
  status : Status
  payload : Option Payload
  error : Option (Cause Err)

inductive Call (Payload Err : Type) where
  | next (notification : Notification Payload Err)
  | error (notification : Notification Payload Err)
  | complete

/-- A registered request. Its timer is armed until it fires or is cleared; `calls` are the calls
of its subject, and `finalized` says whether a subscription of it has ended. -/
structure Pending (Payload Err : Type) where
  messageId : String
  correlationId : String
  timeout : ℕ
  armed : Bool
  finalized : Bool
  calls : List (Call Payload Err)

/-- The map leads from message ids to the requests, which are counted as they are registered. -/
structure Processor (Payload Err : Type) where
  workerName : String
  causationMap : String → Option ℕ
  requests : List (Pending Payload Err)

/-- What `process` returns. `recipientFound` is only there where it is false. -/
structure RoutingResult (Err : Type) where
  delivered : Bool
  recipientFound : Option Bool
  causationId : Option String
  correlationId : String
  messageId : String
  timestamp : ℕ
  status : Status
  error : Option Err

def timeoutNotification (request : Pending Payload Err) (messageId : String) (timestamp : ℕ) :
    Notification Payload Err where
  messageId := messageId
  correlationId := request.correlationId
  causationId := request.messageId
  timestamp := timestamp
  status := .error
  payload := none
  error := some (.text ("Response not received after " ++ request.timeout.repr))

def replyNotification (reply : ReplyMessage Payload Err) (causationId : String)
    (error : Option (Cause Err)) : Notification Payload Err where
  messageId := reply.messageId
  correlationId := reply.correlationId
  causationId := causationId
  timestamp := reply.timestamp
  status := reply.status
  payload := reply.payload
  error := error

def callsOf (reply : ReplyMessage Payload Err) (causationId : String) : List (Call Payload Err) :=
  match reply.status with
  | .error => [.error (replyNotification reply causationId (reply.error.map .reply))]
  | .success => [.next (replyNotification reply causationId none), .complete]

def routingResult (reply : ReplyMessage Payload Err) (delivered : Bool)
    (recipientFound : Option Bool) : RoutingResult Err where
  delivered := delivered
  recipientFound := recipientFound
  causationId := reply.causationId
  correlationId := reply.correlationId
  messageId := reply.messageId
  timestamp := reply.timestamp
  status := reply.status
  error := reply.error

namespace Processor

variable (processor : Processor Payload Err)

def registerPendingRequest (request : RemoteRequest) (timeout : ℕ) :
    Except String (Processor Payload Err) :=
  match request.replyOn with
  | none => .error ("Request message is being made with an undefined replyOn queue name, not " ++
      processor.workerName)
  | some replyOn =>
    if replyOn ≠ processor.workerName then
      .error ("Request message is not being made with " ++ replyOn ++
        " as its replyOn queue name, not " ++ processor.workerName)
    else .ok { processor with
      causationMap := Function.update processor.causationMap request.messageId
        (some processor.requests.length)
      requests := processor.requests ++
        [⟨request.messageId, request.correlationId, timeout, true, false, []⟩] }

/-- The callback of a timer, with a new message id and the time. -/
def fireTimeout (index : ℕ) (messageId : String) (timestamp : ℕ) : Processor Payload Err :=
  match processor.requests[index]? with
  | none => processor
  | some request =>
    if request.armed then
      if (processor.causationMap request.messageId).isSome then { processor with
        causationMap := Function.update processor.causationMap request.messageId none
        requests := processor.requests.set index { request with
          armed := false
          calls := request.calls ++ [.error (timeoutNotification request messageId timestamp)] } }
      else { processor with
        requests := processor.requests.set index { request with armed := false } }
    else processor

/-- The callback of a subscription that ends. -/
def finalize (index : ℕ) : Processor Payload Err :=
  match processor.requests[index]? with
  | none => processor
  | some request => { processor with
      causationMap := Function.update processor.causationMap request.messageId none
      requests := processor.requests.set index
        { request with armed := false, finalized := true } }

def process (reply : ReplyMessage Payload Err) : Processor Payload Err × RoutingResult Err :=
  match reply.causationId with
  | none => (processor, routingResult reply true none)
  | some causationId =>
    match processor.causationMap causationId with
    | none => (processor, routingResult reply false (some false))
    | some index => ({ processor with
        causationMap := Function.update processor.causationMap causationId none
        requests := processor.requests.modify index fun request =>
          { request with calls := request.calls ++ callsOf reply causationId } },
      routingResult reply true none)

end Processor

/-- What may happen at a processor, in any order. -/
inductive Action (Payload Err : Type) where
  | registerPendingRequest (request : RemoteRequest) (timeout : ℕ)
  | fireTimeout (index : ℕ) (messageId : String) (timestamp : ℕ)
  | finalize (index : ℕ)
  | process (reply : ReplyMessage Payload Err)

/-- A processor, the replies that came so far, and what it returned for them. -/
structure Trace (Payload Err : Type) where
  processor : Processor Payload Err
  replies : List (ReplyMessage Payload Err)
  results : List (RoutingResult Err)

namespace Trace

def start (workerName : String) : Trace Payload Err := ⟨⟨workerName, fun _ => none, []⟩, [], []⟩

/-- A request that is refused leaves no trace. -/
def perform (trace : Trace Payload Err) : Action Payload Err → Trace Payload Err
  | .registerPendingRequest request timeout =>
    match trace.processor.registerPendingRequest request timeout with
    | .error _ => trace
    | .ok processor => { trace with processor := processor }
  | .fireTimeout index messageId timestamp =>
    { trace with processor := trace.processor.fireTimeout index messageId timestamp }
  | .finalize index => { trace with processor := trace.processor.finalize index }
  | .process reply =>
    let (processor, result) := trace.processor.process reply
    ⟨processor, trace.replies ++ [reply], trace.results ++ [result]⟩

def performAll (trace : Trace Payload Err) (actions : List (Action Payload Err)) :
    Trace Payload Err :=
  actions.foldl perform trace

def deliveredTo (trace : Trace Payload Err) : List String :=
  trace.results.filterMap fun result => if result.delivered then result.causationId else none

def messageIds (trace : Trace Payload Err) : List String :=
  trace.processor.requests.map Pending.messageId

end Trace

namespace Pending

variable (request : Pending Payload Err)

/-- A request that nothing has settled and nobody has turned away from. -/
def Waiting : Prop := request.armed = true ∧ request.calls = []

/-- A request that one of the replies was handed to. -/
def Replied (replies : List (ReplyMessage Payload Err)) : Prop := ∃ reply ∈ replies,
  reply.causationId = some request.messageId ∧ request.calls = callsOf reply request.messageId

def TimedOut : Prop := ∃ messageId timestamp,
  request.calls = [.error (timeoutNotification request messageId timestamp)]

def Abandoned : Prop := request.armed = false ∧ request.finalized = true ∧ request.calls = []

end Pending

def Trace.Has (trace : Trace Payload Err) (index : ℕ) (request : Pending Payload Err) : Prop :=
  trace.processor.requests[index]? = some request

/-- The map knows the waiting requests and no others, every request is waiting or was settled in
one way, and exactly the replies that settled one were reported as delivered. -/
structure Accounted (trace : Trace Payload Err) : Prop where
  waiting_iff : ∀ id index, trace.processor.causationMap id = some index ↔
    ∃ request, trace.Has index request ∧ request.messageId = id ∧ request.Waiting
  settled : ∀ index request, trace.Has index request →
    request.Waiting ∨ request.Replied trace.replies ∨ request.TimedOut ∨ request.Abandoned
  delivered_nodup : trace.deliveredTo.Nodup
  delivered_iff : ∀ id, id ∈ trace.deliveredTo ↔
    ∃ index request, trace.Has index request ∧ request.messageId = id ∧
      request.Replied trace.replies

section Settling

variable {trace trace' : Trace Payload Err} {index : ℕ} {request request' : Pending Payload Err}

theorem accounted_start (workerName : String) :
    Accounted (Trace.start workerName : Trace Payload Err) := by
  constructor <;> simp [Trace.start, Trace.Has, Trace.deliveredTo]

theorem callsOf_ne_nil (reply : ReplyMessage Payload Err) (causationId : String) :
    callsOf reply causationId ≠ [] := by
  rw [callsOf]
  split <;> exact List.cons_ne_nil _ _

theorem Pending.Replied.calls_ne_nil {replies : List (ReplyMessage Payload Err)}
    (h : request.Replied replies) : request.calls ≠ [] := by
  obtain ⟨reply, -, -, hcalls⟩ := h
  rw [hcalls]
  exact callsOf_ne_nil _ _

theorem Pending.TimedOut.not_replied (h : request.TimedOut)
    (replies : List (ReplyMessage Payload Err)) : ¬request.Replied replies := by
  obtain ⟨messageId, timestamp, hcalls⟩ := h
  rintro ⟨reply, -, -, hreply⟩
  rw [hreply, callsOf] at hcalls
  split at hcalls
  · simp only [List.cons.injEq, Call.error.injEq, and_true] at hcalls
    have herror := congrArg Notification.error hcalls
    cases herror' : reply.error <;> simp [replyNotification, timeoutNotification, herror'] at herror
  · simp at hcalls

/-- A request that is accounted for is replied to by none of the replies that come later. -/
theorem Accounted.replied_iff (hold : Accounted trace) (h : trace.Has index request)
    (replies : List (ReplyMessage Payload Err)) :
    request.Replied (trace.replies ++ replies) ↔ request.Replied trace.replies := by
  constructor
  · intro hreplied
    rcases hold.settled index request h with hwaiting | hbefore | htimedOut | habandoned
    · exact absurd hwaiting.2 hreplied.calls_ne_nil
    · exact hbefore
    · exact absurd hreplied (htimedOut.not_replied _)
    · exact absurd habandoned.2.2 hreplied.calls_ne_nil
  · rintro ⟨reply, hreply, hcalls⟩
    exact ⟨reply, List.mem_append_left _ hreply, hcalls⟩

theorem Trace.Has.unique (hnodup : trace.messageIds.Nodup) (h : trace.Has index request)
    {other : ℕ} (h' : trace.Has other request') (hid : request'.messageId = request.messageId) :
    other = index := by
  have hlength : other < trace.messageIds.length := by
    simpa [Trace.messageIds] using (List.getElem?_eq_some_iff.mp h').1
  apply (List.getElem?_inj hlength hnodup).mp
  rw [Trace.messageIds, List.getElem?_map, List.getElem?_map, h, h', Option.map_some,
    Option.map_some, hid]

/-- One request of a trace is replaced, and its id leaves the map. -/
structure Replaces (trace trace' : Trace Payload Err) (index : ℕ)
    (request request' : Pending Payload Err) : Prop where
  has : trace.Has index request
  messageId : request'.messageId = request.messageId
  causationMap : trace'.processor.causationMap =
    Function.update trace.processor.causationMap request.messageId none
  requests : trace'.processor.requests = trace.processor.requests.set index request'

theorem Replaces.has_iff (h : Replaces trace trace' index request request') (other : ℕ)
    (found : Pending Payload Err) : trace'.Has other found ↔
      if other = index then found = request' else trace.Has other found := by
  rw [Trace.Has, h.requests]
  split
  · rename_i hother
    subst hother
    rw [List.getElem?_set_self (List.getElem?_eq_some_iff.mp h.has).1, Option.some_inj, eq_comm]
  · rename_i hother
    rw [List.getElem?_set_ne (Ne.symm hother), Trace.Has]

theorem Replaces.waiting_iff (h : Replaces trace trace' index request request')
    (hold : Accounted trace) (hnodup : trace.messageIds.Nodup) (hnot : ¬request'.Waiting)
    (id : String) (other : ℕ) : trace'.processor.causationMap id = some other ↔
      ∃ found, trace'.Has other found ∧ found.messageId = id ∧ found.Waiting := by
  rw [h.causationMap]
  by_cases hid : id = request.messageId
  · subst hid
    rw [Function.update_self]
    refine iff_of_false (by simp) ?_
    rintro ⟨found, hfound, hsame, hwaiting⟩
    rw [h.has_iff] at hfound
    split at hfound
    · exact hnot (hfound ▸ hwaiting)
    · rename_i hother
      exact hother (h.has.unique hnodup hfound hsame)
  · rw [Function.update_of_ne hid, hold.waiting_iff]
    apply exists_congr
    intro found
    rw [h.has_iff]
    split
    · rename_i hother
      subst hother
      refine iff_of_false ?_ ?_
      · rintro ⟨hfound, hsame, -⟩
        exact hid (Option.some.inj (h.has.symm.trans hfound) ▸ hsame.symm)
      · rintro ⟨rfl, hsame, -⟩
        exact hid (hsame.symm.trans h.messageId)
    · rfl

theorem Replaces.replied_iff (h : Replaces trace trace' index request request')
    (hnodup : trace.messageIds.Nodup) (replies : List (ReplyMessage Payload Err)) (id : String) :
    (∃ other found, trace'.Has other found ∧ found.messageId = id ∧ found.Replied replies) ↔
      if id = request.messageId then request'.Replied replies
      else ∃ other found, trace.Has other found ∧ found.messageId = id ∧
        found.Replied replies := by
  split
  · rename_i hid
    constructor
    · rintro ⟨other, found, hfound, hsame, hreplied⟩
      rw [h.has_iff] at hfound
      split at hfound
      · exact hfound ▸ hreplied
      · rename_i hother
        exact absurd (h.has.unique hnodup hfound (hsame.trans hid)) hother
    · intro hreplied
      exact ⟨index, request', (h.has_iff _ _).mpr (by simp), h.messageId.trans hid.symm, hreplied⟩
  · rename_i hid
    apply exists_congr
    intro other
    apply exists_congr
    intro found
    rw [h.has_iff]
    split
    · rename_i hother
      subst hother
      refine iff_of_false ?_ ?_
      · rintro ⟨rfl, hsame, -⟩
        exact hid (hsame.symm.trans h.messageId)
      · rintro ⟨hfound, hsame, -⟩
        exact hid (Option.some.inj (h.has.symm.trans hfound) ▸ hsame.symm)
    · rfl

theorem Replaces.settled (h : Replaces trace trace' index request request')
    (hold : Accounted trace) {replies : List (ReplyMessage Payload Err)}
    (hsettled : request'.Replied (trace.replies ++ replies) ∨ request'.TimedOut ∨
      request'.Abandoned) (other : ℕ) (found : Pending Payload Err)
    (hfound : trace'.Has other found) :
    found.Waiting ∨ found.Replied (trace.replies ++ replies) ∨ found.TimedOut ∨
      found.Abandoned := by
  rw [h.has_iff] at hfound
  split at hfound
  · exact hfound ▸ Or.inr hsettled
  · rw [hold.replied_iff hfound]
    exact hold.settled other found hfound

theorem Replaces.accounted_silent (h : Replaces trace trace' index request request')
    (hold : Accounted trace) (hnodup : trace.messageIds.Nodup) (hnot : ¬request'.Waiting)
    (hsettled : request'.Replied trace.replies ∨ request'.TimedOut ∨ request'.Abandoned)
    (hreplied : request'.Replied trace.replies ↔ request.Replied trace.replies)
    (hreplies : trace'.replies = trace.replies)
    (hdelivered : trace'.deliveredTo = trace.deliveredTo) : Accounted trace' where
  waiting_iff := h.waiting_iff hold hnodup hnot
  settled := by
    rw [hreplies, ← List.append_nil trace.replies]
    rw [← List.append_nil trace.replies] at hsettled
    exact h.settled hold hsettled
  delivered_nodup := hdelivered ▸ hold.delivered_nodup
  delivered_iff id := by
    rw [h.replied_iff hnodup, hdelivered, hreplies, hold.delivered_iff]
    split
    · rename_i hid
      rw [hreplied]
      constructor
      · rintro ⟨other, found, hfound, hsame, hfoundReplied⟩
        obtain rfl := h.has.unique hnodup hfound (hsame.trans hid)
        exact Option.some.inj (h.has.symm.trans hfound) ▸ hfoundReplied
      · exact fun hold => ⟨index, request, h.has, hid.symm, hold⟩
    · rfl

/-- A reply that settles a waiting request is reported once. -/
theorem Replaces.accounted_replied (h : Replaces trace trace' index request request')
    (hold : Accounted trace) (hnodup : trace.messageIds.Nodup) (hwaiting : request.Waiting)
    {reply : ReplyMessage Payload Err} (hreplies : trace'.replies = trace.replies ++ [reply])
    (hreplied : request'.Replied (trace.replies ++ [reply]))
    (hdelivered : trace'.deliveredTo = trace.deliveredTo ++ [request.messageId]) :
    Accounted trace' where
  waiting_iff := h.waiting_iff hold hnodup fun hnot => hreplied.calls_ne_nil hnot.2
  settled := hreplies ▸ h.settled hold (Or.inl hreplied)
  delivered_nodup := by
    rw [hdelivered]
    apply hold.delivered_nodup.append (List.nodup_singleton _)
    intro id hid hsingle
    obtain rfl := List.mem_singleton.mp hsingle
    obtain ⟨other, found, hfound, hsame, hfoundReplied⟩ := (hold.delivered_iff _).mp hid
    obtain rfl := h.has.unique hnodup hfound hsame
    obtain rfl := Option.some.inj (h.has.symm.trans hfound)
    exact hfoundReplied.calls_ne_nil hwaiting.2
  delivered_iff id := by
    rw [h.replied_iff hnodup, hdelivered, List.mem_append, List.mem_singleton, hreplies]
    split
    · rename_i hid
      exact iff_of_true (Or.inr hid) hreplied
    · rename_i hid
      rw [or_iff_left hid, hold.delivered_iff]
      apply exists_congr
      intro other
      apply exists_congr
      intro found
      exact and_congr_right fun hfound => and_congr_right fun _ => (hold.replied_iff hfound _).symm

theorem accounted_undelivered (hold : Accounted trace) (reply : ReplyMessage Payload Err)
    (hprocessor : trace'.processor = trace.processor)
    (hreplies : trace'.replies = trace.replies ++ [reply])
    (hdelivered : trace'.deliveredTo = trace.deliveredTo) : Accounted trace' := by
  have hhas : ∀ other found, trace'.Has other found ↔ trace.Has other found := by
    intro other found
    rw [Trace.Has, hprocessor, Trace.Has]
  constructor
  · intro id other
    simp only [hprocessor, hold.waiting_iff, hhas]
  · intro other found hfound
    rw [hreplies, hold.replied_iff ((hhas _ _).mp hfound)]
    exact hold.settled other found ((hhas _ _).mp hfound)
  · exact hdelivered ▸ hold.delivered_nodup
  · intro id
    rw [hdelivered, hold.delivered_iff]
    apply exists_congr
    intro other
    apply exists_congr
    intro found
    rw [hhas, hreplies]
    exact and_congr_right fun hfound => and_congr_right fun _ => (hold.replied_iff hfound _).symm

theorem accounted_append (hold : Accounted trace) {request : Pending Payload Err}
    (hfresh : request.messageId ∉ trace.messageIds) (hwaiting : request.Waiting)
    (hmap : trace'.processor.causationMap = Function.update trace.processor.causationMap
      request.messageId (some trace.processor.requests.length))
    (hrequests : trace'.processor.requests = trace.processor.requests ++ [request])
    (hreplies : trace'.replies = trace.replies)
    (hresults : trace'.results = trace.results) : Accounted trace' := by
  have hhas : ∀ other found, trace'.Has other found ↔
      trace.Has other found ∨ other = trace.processor.requests.length ∧ found = request := by
    intro other found
    rw [Trace.Has, hrequests, List.getElem?_append]
    split
    · rename_i hlt
      exact (or_iff_left fun h => absurd h.1 (Nat.ne_of_lt hlt)).symm
    · rename_i hge
      have hnone : ¬trace.Has other found := fun h => hge (List.getElem?_eq_some_iff.mp h).1
      rw [or_iff_right hnone, List.getElem?_singleton]
      split
      · rename_i hzero
        have hother : other = trace.processor.requests.length := by omega
        simp [hother, eq_comm]
      · rename_i hzero
        exact iff_of_false (by simp) fun h => hzero (by omega)
  have hother : ∀ other found, trace.Has other found → found.messageId ≠ request.messageId :=
    fun other found h hsame => hfresh (hsame ▸ List.mem_map_of_mem (List.mem_of_getElem? h))
  have hnotReplied : ¬request.Replied trace.replies := fun h => h.calls_ne_nil hwaiting.2
  have hdelivered : trace'.deliveredTo = trace.deliveredTo := by
    rw [Trace.deliveredTo, hresults, Trace.deliveredTo]
  constructor
  · intro id other
    rw [hmap]
    by_cases hid : id = request.messageId
    · subst hid
      rw [Function.update_self, Option.some_inj]
      constructor
      · rintro rfl
        exact ⟨request, (hhas _ _).mpr (Or.inr ⟨rfl, rfl⟩), rfl, hwaiting⟩
      · rintro ⟨found, hfound, hsame, -⟩
        rcases (hhas _ _).mp hfound with hfound | ⟨hlast, -⟩
        · exact absurd hsame (hother _ _ hfound)
        · exact hlast.symm
    · rw [Function.update_of_ne hid, hold.waiting_iff]
      apply exists_congr
      intro found
      rw [hhas]
      constructor
      · exact fun h => ⟨Or.inl h.1, h.2⟩
      · rintro ⟨hfound | ⟨-, rfl⟩, hsame, hwaits⟩
        · exact ⟨hfound, hsame, hwaits⟩
        · exact absurd hsame.symm hid
  · intro other found hfound
    rw [hreplies]
    rcases (hhas _ _).mp hfound with hfound | ⟨-, rfl⟩
    · exact hold.settled other found hfound
    · exact Or.inl hwaiting
  · exact hdelivered ▸ hold.delivered_nodup
  · intro id
    rw [hdelivered, hold.delivered_iff]
    apply exists_congr
    intro other
    apply exists_congr
    intro found
    rw [hhas, hreplies]
    constructor
    · exact fun h => ⟨Or.inl h.1, h.2⟩
    · rintro ⟨hfound | ⟨-, rfl⟩, hsame, hreplied⟩
      · exact ⟨hfound, hsame, hreplied⟩
      · exact absurd hreplied hnotReplied

theorem map_messageId_set {requests : List (Pending Payload Err)}
    (h : requests[index]? = some request) (hid : request'.messageId = request.messageId) :
    (requests.set index request').map Pending.messageId = requests.map Pending.messageId := by
  obtain ⟨hlt, hrequest⟩ := List.getElem?_eq_some_iff.mp h
  have hbound : index < (requests.map Pending.messageId).length := by rwa [List.length_map]
  have hsame : (requests.map Pending.messageId)[index] = request'.messageId := by
    rw [List.getElem_map, hrequest, hid]
  rw [List.map_set, ← hsame, List.set_getElem_self]

end Settling

section Steps

variable {trace : Trace Payload Err}

theorem replaces_finalize {index : ℕ} {request : Pending Payload Err}
    (h : trace.Has index request) : Replaces trace (trace.perform (.finalize index)) index request
      { request with armed := false, finalized := true } := by
  rw [Trace.Has] at h
  refine ⟨h, rfl, ?_, ?_⟩ <;> simp [Trace.perform, Processor.finalize, h]

theorem accounted_finalize (hold : Accounted trace) (hnodup : trace.messageIds.Nodup)
    {index : ℕ} {request : Pending Payload Err} (h : trace.Has index request) :
    Accounted (trace.perform (.finalize index)) := by
  apply (replaces_finalize h).accounted_silent hold hnodup
  · exact fun hwaiting => Bool.noConfusion hwaiting.1
  · rcases hold.settled index request h with hwaiting | hreplied | htimedOut | habandoned
    · exact Or.inr (Or.inr ⟨rfl, rfl, hwaiting.2⟩)
    · exact Or.inl hreplied
    · exact Or.inr (Or.inl htimedOut)
    · exact Or.inr (Or.inr ⟨rfl, rfl, habandoned.2.2⟩)
  · exact Iff.rfl
  · rfl
  · rfl

/-- A timer that fires for a request that is in the map settles it. -/
theorem accounted_fireTimeout (hold : Accounted trace) (hnodup : trace.messageIds.Nodup)
    {index : ℕ} {request : Pending Payload Err} (h : trace.Has index request)
    (harmed : request.armed = true) (messageId : String) (timestamp : ℕ) :
    Accounted (trace.perform (.fireTimeout index messageId timestamp)) := by
  rcases hmap : trace.processor.causationMap request.messageId with _ | other
  · have hreplaces : Replaces trace (trace.perform (.fireTimeout index messageId timestamp)) index
        request { request with armed := false } := by
      rw [Trace.Has] at h
      refine ⟨h, rfl, ?_, ?_⟩
      · rw [Function.update_eq_self_iff.mpr hmap.symm]
        simp [Trace.perform, Processor.fireTimeout, h, harmed, hmap]
      · simp [Trace.perform, Processor.fireTimeout, h, harmed, hmap]
    apply hreplaces.accounted_silent hold hnodup
    · exact fun hwaiting => Bool.noConfusion hwaiting.1
    · rcases hold.settled index request h with hwaiting | hsettled
      · have hin := (hold.waiting_iff _ _).mpr ⟨request, h, rfl, hwaiting⟩
        rw [hmap] at hin
        cases hin
      · rcases hsettled with hreplied | htimedOut | habandoned
        · exact Or.inl hreplied
        · exact Or.inr (Or.inl htimedOut)
        · exact Or.inr (Or.inr ⟨rfl, habandoned.2⟩)
    · exact Iff.rfl
    · rfl
    · rfl
  · obtain ⟨found, hfound, hsame, hwaiting⟩ := (hold.waiting_iff _ _).mp hmap
    obtain rfl := h.unique hnodup hfound hsame
    obtain rfl := Option.some.inj (h.symm.trans hfound)
    have hreplaces : Replaces trace (trace.perform (.fireTimeout other messageId timestamp)) other
        request { request with
          armed := false
          calls := request.calls ++ [.error (timeoutNotification request messageId timestamp)] } :=
      by
      rw [Trace.Has] at h
      refine ⟨h, rfl, ?_, ?_⟩ <;>
        simp [Trace.perform, Processor.fireTimeout, h, harmed, hmap]
    have htimedOut : Pending.TimedOut { request with
        armed := false
        calls := request.calls ++ [.error (timeoutNotification request messageId timestamp)] } :=
      ⟨messageId, timestamp, by rw [hwaiting.2]; rfl⟩
    apply hreplaces.accounted_silent hold hnodup
    · exact fun hwaiting => Bool.noConfusion hwaiting.1
    · exact Or.inr (Or.inl htimedOut)
    · exact iff_of_false (htimedOut.not_replied _) fun hreplied =>
        hreplied.calls_ne_nil hwaiting.2
    · rfl
    · rfl

/-- A reply is handed to the request that caused it, if that one waits. -/
theorem accounted_process (hold : Accounted trace) (hnodup : trace.messageIds.Nodup)
    (reply : ReplyMessage Payload Err) : Accounted (trace.perform (.process reply)) := by
  rcases hcausation : reply.causationId with _ | causationId
  · apply accounted_undelivered hold reply <;>
      simp [Trace.perform, Processor.process, hcausation, Trace.deliveredTo, routingResult]
  rcases hmap : trace.processor.causationMap causationId with _ | index
  · apply accounted_undelivered hold reply <;>
      simp [Trace.perform, Processor.process, hcausation, hmap, Trace.deliveredTo, routingResult]
  · obtain ⟨request, hrequest, rfl, hwaiting⟩ := (hold.waiting_iff _ _).mp hmap
    have hreplaces : Replaces trace (trace.perform (.process reply)) index request
        { request with calls := request.calls ++ callsOf reply request.messageId } := by
      refine ⟨hrequest, rfl, ?_, ?_⟩
      · simp [Trace.perform, Processor.process, hcausation, hmap]
      · rw [Trace.Has] at hrequest
        simp only [Trace.perform, Processor.process, hcausation, hmap]
        rw [List.modify_eq_set_getElem?, hrequest]
        rfl
    apply hreplaces.accounted_replied hold hnodup hwaiting
    · rfl
    · exact ⟨reply, List.mem_append_right _ (List.mem_singleton_self _), hcausation,
        by rw [hwaiting.2]; rfl⟩
    · simp [Trace.perform, Processor.process, hcausation, hmap, Trace.deliveredTo, routingResult]

theorem perform_register (trace : Trace Payload Err) (request : RemoteRequest) (timeout : ℕ) :
    trace.perform (.registerPendingRequest request timeout) = trace ∨
      trace.perform (.registerPendingRequest request timeout) =
        ⟨{ trace.processor with
          causationMap := Function.update trace.processor.causationMap request.messageId
            (some trace.processor.requests.length)
          requests := trace.processor.requests ++
            [⟨request.messageId, request.correlationId, timeout, true, false, []⟩] },
          trace.replies, trace.results⟩ := by
  rw [Trace.perform, Processor.registerPendingRequest]
  cases request.replyOn with
  | none => exact Or.inl rfl
  | some replyOn =>
    by_cases hname : replyOn = trace.processor.workerName
    · right
      simp [hname]
    · left
      simp [hname]

section MessageIds

variable (processor : Processor Payload Err)

theorem messageIds_fireTimeout (index : ℕ) (messageId : String) (timestamp : ℕ) :
    (processor.fireTimeout index messageId timestamp).requests.map Pending.messageId =
      processor.requests.map Pending.messageId := by
  rw [Processor.fireTimeout]
  split
  · rfl
  · rename_i request hrequest
    split
    · split <;> exact map_messageId_set hrequest rfl
    · rfl

theorem messageIds_finalize (index : ℕ) :
    (processor.finalize index).requests.map Pending.messageId =
      processor.requests.map Pending.messageId := by
  rw [Processor.finalize]
  split
  · rfl
  · rename_i request hrequest
    exact map_messageId_set hrequest rfl

theorem messageIds_process (reply : ReplyMessage Payload Err) :
    (processor.process reply).1.requests.map Pending.messageId =
      processor.requests.map Pending.messageId := by
  rw [Processor.process]
  split
  · rfl
  · split
    · rfl
    · rename_i index _
      dsimp only
      rw [List.modify_eq_set_getElem?]
      cases hrequest : processor.requests[index]? with
      | none => rfl
      | some request => exact map_messageId_set hrequest rfl

end MessageIds

theorem messageIds_perform (trace : Trace Payload Err) (action : Action Payload Err) :
    trace.messageIds <+: (trace.perform action).messageIds := by
  cases action with
  | registerPendingRequest request timeout =>
    rcases perform_register trace request timeout with hsame | hnew
    · exact (congrArg Trace.messageIds hsame).symm ▸ List.prefix_rfl
    · rw [hnew, Trace.messageIds, Trace.messageIds, List.map_append]
      exact List.prefix_append _ _
  | fireTimeout index messageId timestamp =>
    have hsame : (trace.perform (.fireTimeout index messageId timestamp)).messageIds =
        trace.messageIds := messageIds_fireTimeout _ index messageId timestamp
    exact hsame ▸ List.prefix_rfl
  | finalize index =>
    have hsame : (trace.perform (.finalize index)).messageIds = trace.messageIds :=
      messageIds_finalize _ index
    exact hsame ▸ List.prefix_rfl
  | process reply =>
    have hsame : (trace.perform (.process reply)).messageIds = trace.messageIds :=
      messageIds_process _ reply
    exact hsame ▸ List.prefix_rfl

theorem accounted_perform (hold : Accounted trace) (action : Action Payload Err)
    (hnodup : (trace.perform action).messageIds.Nodup) : Accounted (trace.perform action) := by
  have hbefore : trace.messageIds.Nodup := hnodup.sublist (messageIds_perform trace action).sublist
  cases action with
  | registerPendingRequest request timeout =>
    rcases perform_register trace request timeout with hsame | hnew
    · rwa [hsame]
    · rw [hnew] at hnodup ⊢
      have hwaits : Pending.Waiting (⟨request.messageId, request.correlationId, timeout, true,
        false, []⟩ : Pending Payload Err) := ⟨rfl, rfl⟩
      refine accounted_append hold ?_ hwaits rfl rfl rfl rfl
      rw [Trace.messageIds, List.map_append] at hnodup
      intro hmem
      exact (List.nodup_append.mp hnodup).2.2 _ hmem _ (List.mem_singleton_self _) rfl
  | fireTimeout index messageId timestamp =>
    rcases hrequest : trace.processor.requests[index]? with _ | request
    · simpa [Trace.perform, Processor.fireTimeout, hrequest] using hold
    · rcases harmed : request.armed with _ | _
      · simpa [Trace.perform, Processor.fireTimeout, hrequest, harmed] using hold
      · exact accounted_fireTimeout hold hbefore hrequest harmed messageId timestamp
  | finalize index =>
    rcases hrequest : trace.processor.requests[index]? with _ | request
    · simpa [Trace.perform, Processor.finalize, hrequest] using hold
    · exact accounted_finalize hold hbefore hrequest
  | process reply => exact accounted_process hold hbefore reply

theorem messageIds_performAll (trace : Trace Payload Err) (actions : List (Action Payload Err)) :
    trace.messageIds <+: (trace.performAll actions).messageIds := by
  induction actions generalizing trace with
  | nil => exact List.prefix_rfl
  | cons action actions ih => exact (messageIds_perform trace action).trans (ih _)

theorem accounted_performAll (hold : Accounted trace) (actions : List (Action Payload Err))
    (hnodup : (trace.performAll actions).messageIds.Nodup) :
    Accounted (trace.performAll actions) := by
  induction actions generalizing trace with
  | nil => exact hold
  | cons action actions ih =>
    have hstep := accounted_perform hold action
      (hnodup.sublist (messageIds_performAll _ actions).sublist)
    exact ih hstep hnodup

/-- Whatever happens at a processor, and in any order: as long as no two requests have one id, the
map knows the requests that wait, with their timers armed, every other request was settled once,
by a reply, by its timer or by whoever asked, and the replies that settled one are those that were
reported as delivered, each once. -/
theorem settled_once (workerName : String) (actions : List (Action Payload Err))
    (hnodup : ((Trace.start workerName).performAll actions).messageIds.Nodup) :
    Accounted ((Trace.start workerName).performAll actions) :=
  accounted_performAll (accounted_start workerName) actions hnodup

def lateReply : List (Action Unit String) :=
  [.registerPendingRequest ⟨"c", "a", some "reply-queue-xyz"⟩ 50,
    .registerPendingRequest ⟨"c", "b", some "reply-queue-xyz"⟩ 50,
    .fireTimeout 0 "t" 100,
    .process ⟨some "a", "c", "ra", 101, .success, some (), none⟩,
    .process ⟨some "b", "c", "rb", 102, .error, none, some "failed"⟩]

theorem settled_once_late :
    let trace := (Trace.start "reply-queue-xyz").performAll lateReply
    trace.deliveredTo = ["b"] ∧ Accounted trace :=
  ⟨by decide, settled_once "reply-queue-xyz" lateReply (by decide)⟩

end Steps

end RandomArt.ReturnQueueRouting
