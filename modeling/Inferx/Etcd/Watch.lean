import Inferx.Lib.Runs
import Inferx.Metastore.CacheStore

/-!
# From etcd to the cache

`EtcdStore::UpdateCacheStore` connects a watch of etcd to a cache store. One
branch of its `select!` runs the watcher, which takes a response, parses its
events and sends them into a channel of three hundred places; the other branch
takes an event out of the channel and gives it to the cache. When the second
branch wins, the future of the first is dropped where it stands. Waiting for the
next response it holds nothing; but it may stand in the middle of a response, when
the channel is full or when it has used up what the runtime lets it do in one poll,
and then the events it has not sent yet go with it.

The watcher reports an event it cannot parse through the same channel, as an
event about the default object, and the cache takes it for an update.
-/

namespace Inferx.Etcd

open Metastore

variable {V : Type}

/-! ## Events of etcd -/

/-- The kinds of etcd events. -/
inductive KvEventType where
  | put | delete
  deriving DecidableEq, Repr

/-- A key of etcd with its value. -/
structure KeyValue where
  /-- the key -/
  key : String
  /-- the value -/
  value : List UInt8
  /-- revision of its creation -/
  createRevision : ℤ
  /-- revision of its last change -/
  modRevision : ℤ
  deriving DecidableEq, Repr

/-- An event of a watch response. -/
structure Event where
  /-- what happened -/
  type : KvEventType
  /-- to which key -/
  kv : KeyValue
  /-- the value before -/
  prevKv : Option KeyValue
  deriving DecidableEq, Repr

/-- `Watcher::IsCreateEvent`. -/
def Event.isCreate (e : Event) : Bool :=
  e.type == .put && e.kv.createRevision == e.kv.modRevision

/-! ## The watcher -/

/-- What a watcher is made with: the decoder of the values (the generated
protocol-buffer code followed by `NewFromObject`), and a predicate unless it is
the empty one. -/
structure Watcher (V : Type) where
  /-- decode a value -/
  decode : List UInt8 → Except String (DataObject V)
  /-- the predicate, if it is not empty -/
  internalPred : Option (DataObject V → Bool) := none

namespace Watcher

/-- `Watcher::AcceptAll`. -/
def acceptAll (w : Watcher V) : Bool := w.internalPred.isNone

/-- `Watcher::Filter`. -/
def filter (w : Watcher V) (obj : DataObject V) : Bool := w.internalPred.all fun p => p obj

/-- The object of a value, under the revision of its event. -/
def objectOf (w : Watcher V) (e : Event) (value : List UInt8) : Except String (DataObject V) :=
  (w.decode value).map fun o => { o with channelRev := 0, revision := e.kv.modRevision, srcEpoch := 0 }

/-- The object after an event. -/
def curObj (w : Watcher V) (e : Event) : Except String (Option (DataObject V)) :=
  if e.type = .delete then .ok none else (w.objectOf e e.kv.value).map some

/-- The object before an event, where the watcher looks at it. -/
def oldObj (w : Watcher V) (e : Event) : Except String (Option (DataObject V)) :=
  match e.prevKv with
  | none => .ok none
  | some pkv =>
    if e.type = .delete ∨ w.acceptAll = false then (w.objectOf e pkv.value).map some else .ok none

/-- The event that is passed on for the objects before and after. -/
def watchEvent (w : Watcher V) (e : Event) (curObj oldObj : Option (DataObject V)) :
    Option (WatchEvent V) :=
  if e.type = .delete then
    (oldObj.filter w.filter).map (⟨.deleted, ·⟩)
  else if e.isCreate then
    (curObj.filter w.filter).map (⟨.added, ·⟩)
  else if w.acceptAll then curObj.map (⟨.modified, ·⟩)
  else
    match curObj.filter w.filter, oldObj.filter w.filter with
    | some o, some _ => some ⟨.modified, o⟩
    | some o, none => some ⟨.added, o⟩
    | none, some old => some ⟨.deleted, old⟩
    | none, none => none

/-- `Watcher::ParseEvent`. -/
def parseEvent (w : Watcher V) (e : Event) : Except String (Option (WatchEvent V)) := do
  if e.isCreate && e.prevKv.isSome then
    throw (s!"etcd event received with PrevKv=nil (key={e.kv.key}, " ++
      s!"modRevision={e.kv.modRevision}, type=Put)")
  let curObj ← w.curObj e
  let oldObj ← w.oldObj e
  return w.watchEvent e curObj oldObj

/-- What the watcher sends for an event; what it cannot parse goes out as an
error event about the default object. -/
def sends [Inhabited V] (w : Watcher V) (e : Event) : List (WatchEvent V) :=
  match w.parseEvent e with
  | .error msg => [⟨.error msg, .default⟩]
  | .ok event => event.toList

/-- The parsed events of a response. -/
def parsed (w : Watcher V) (resp : List Event) : List (WatchEvent V) :=
  resp.flatMap fun e => match w.parseEvent e with
    | .error _ => []
    | .ok event => event.toList

end Watcher

/-! ## The loop -/

/-- `Watcher::RESULT_CHANNEL_SIZE`. -/
def resultChannelSize : ℕ := 300

/-- The loop of `UpdateCacheStore`, with what it has been given and has passed
on so far. -/
structure Update (V : Type) where
  /-- the cache -/
  cs : CacheStore V
  /-- the revision of the channel -/
  channelRev : ℤ := 0
  /-- the result channel, oldest first -/
  channel : List (WatchEvent V) := []
  /-- the events of the current response that the watcher still has to send; it
  stands at the first of them -/
  unsent : List (WatchEvent V) := []
  /-- the responses so far -/
  responses : List (List Event) := []
  /-- the events given to the cache so far -/
  passed : List (WatchEvent V) := []

/-- What the loop waits for. -/
inductive Input where
  /-- the watcher is polled, and the next response has come -/
  | response (resp : List Event)
  /-- the watcher is polled, and sends an event -/
  | send
  /-- the branch of the channel is taken; some watches of the cache may be full -/
  | take (full : ℕ → Bool)

namespace Update

section Loop

variable [Inhabited V] (w : Watcher V)

/-- The watcher takes a response. -/
def receive (x : Update V) (resp : List Event) : Update V :=
  { x with
    unsent := resp.flatMap w.sends
    responses := x.responses ++ [resp] }

/-- The watcher sends the event at which it stands, if the channel has room. It may be
dropped before, however much room there is. -/
def send (x : Update V) : Option (Update V) :=
  match x.unsent with
  | [] => none
  | e :: rest =>
    if x.channel.length < resultChannelSize then
      some { x with channel := x.channel ++ [e], unsent := rest }
    else none

/-- The oldest event of the channel is given to the cache, and the future of the
watcher is dropped. -/
def take (full : ℕ → Bool) (x : Update V) : Option (Update V) :=
  match x.channel with
  | [] => none
  | e :: rest => some { x with
      cs := x.cs.processEvent full (x.channelRev + 1) e
      channelRev := x.channelRev + 1
      channel := rest
      unsent := []
      passed := x.passed ++ [e] }

/-- One turn of the loop. A watcher that stands in the middle of a response
takes no other. -/
def next (x : Update V) : Input → Option (Update V)
  | .response resp => if x.unsent = [] then some (x.receive w resp) else none
  | .send => x.send
  | .take full => x.take full

/-! ## Nothing lost, nothing invented -/

/-- The parsed events of all responses. -/
def events (x : Update V) : List (WatchEvent V) := x.responses.flatMap w.parsed

/-- The events on their way to the cache and those already there are the parsed
events, each once and in order. -/
def Delivered (x : Update V) : Prop := x.passed ++ x.channel ++ x.unsent = x.events w

/-- Every object that has come into the cache since the start comes from a
parsed event. -/
def FromEvents (start : Objects V) (x : Update V) : Prop :=
  ∀ (k : String) (o : DataObject V), x.cs.cacheStore[k]? = some o →
    start[k]? = some o ∨ ∃ e ∈ x.events w, e.obj.key = k ∧ ∃ c, o = e.obj.copyWithRev c e.obj.revision

/-- **The promise about a state.** -/
structure Exact (start : Objects V) (x : Update V) : Prop where
  /-- nothing is lost, invented, repeated or reordered -/
  delivered : x.Delivered w
  /-- the cache holds nothing else -/
  fromEvents : x.FromEvents w start

/-- What keeps the promise: each event of a response can be parsed, and the branch of the channel
is not taken while the watcher stands in the middle of a response. -/
def Fits (x : Update V) : Input → Prop
  | .response resp => ∀ e ∈ resp, (w.parseEvent e).isOk = true
  | .send => True
  | .take _ => x.unsent = []

instance (x : Update V) (i : Input) : Decidable (x.Fits w i) :=
  match i with
  | .response resp => inferInstanceAs (Decidable (∀ e ∈ resp, (w.parseEvent e).isOk = true))
  | .send => instDecidableTrue
  | .take _ => decidable_of_iff (x.unsent.isEmpty = true) List.isEmpty_iff

/-- The start of the loop. -/
structure Start (start : Objects V) (x : Update V) : Prop where
  /-- the cache as it was filled before -/
  cache : x.cs.cacheStore = start
  /-- the channel is empty -/
  channel : x.channel = []
  /-- the watcher waits -/
  unsent : x.unsent = []
  /-- no response yet -/
  responses : x.responses = []
  /-- no event yet -/
  passed : x.passed = []

end Loop

section Proofs

variable {w : Watcher V} {x y : Update V} {start : Objects V}

theorem sends_of_parsed [Inhabited V] {resp : List Event} (h : ∀ e ∈ resp, (w.parseEvent e).isOk = true) :
    resp.flatMap w.sends = w.parsed resp := by
  unfold Watcher.parsed
  refine List.flatMap_congr fun e he => ?_
  have hok := h e he
  unfold Watcher.sends
  rcases hparse : w.parseEvent e with msg | event
  · rw [hparse] at hok
    cases hok
  · rfl

/-- The watcher takes a response. -/
theorem Exact.receive [Inhabited V] (h : Exact w start x) (hwaits : x.unsent = []) {resp : List Event}
    (hfits : x.Fits w (.response resp)) : Exact w start (x.receive w resp) := by
  have hevents : (x.receive w resp).events w = x.events w ++ w.parsed resp := by
    simp [events, Update.receive]
  refine ⟨?_, fun k o ho => ?_⟩
  · have hdelivered := h.delivered
    unfold Delivered at hdelivered ⊢
    rw [hwaits, List.append_nil] at hdelivered
    rw [hevents, ← hdelivered, ← sends_of_parsed hfits]
    rfl
  · rcases h.fromEvents k o ho with hstart | ⟨e, he, hk⟩
    · exact Or.inl hstart
    · rw [hevents]
      exact Or.inr ⟨e, List.mem_append_left _ he, hk⟩

/-- The watcher sends an event. -/
theorem Exact.send (h : Exact w start x) (hnext : x.send = some y) : Exact w start y := by
  unfold Update.send at hnext
  rcases hunsent : x.unsent with _ | ⟨e, rest⟩
  · rw [hunsent] at hnext
    cases hnext
  · rw [hunsent] at hnext
    dsimp only at hnext
    split at hnext
    next =>
      obtain rfl := Option.some.inj hnext
      refine ⟨?_, h.fromEvents⟩
      have hdelivered := h.delivered
      unfold Delivered at hdelivered ⊢
      rw [hunsent] at hdelivered
      rw [← List.append_assoc, List.append_assoc _ [e], List.singleton_append]
      exact hdelivered
    next => cases hnext

/-- An event is taken out of the channel while the watcher waits for a response. -/
theorem Exact.take (h : Exact w start x) (hwaits : x.unsent = []) {full : ℕ → Bool}
    (hnext : x.take full = some y) : Exact w start y := by
  unfold Update.take at hnext
  rcases hchannel : x.channel with _ | ⟨e, rest⟩
  · rw [hchannel] at hnext
    cases hnext
  · rw [hchannel] at hnext
    obtain rfl := Option.some.inj hnext
    have hdelivered := h.delivered
    unfold Delivered at hdelivered
    rw [hchannel, hwaits, List.append_nil] at hdelivered
    have hmem : e ∈ x.events w := by
      rw [← hdelivered]
      exact List.mem_append_right _ (List.mem_cons_self ..)
    refine ⟨?_, fun k o ho => ?_⟩
    · unfold Delivered
      rw [List.append_nil, List.append_assoc, List.singleton_append]
      exact hdelivered
    · rcases CacheStore.get_processEvent ho with hold | ⟨hk, ho⟩
      · exact h.fromEvents k o hold
      · exact Or.inr ⟨e, hmem, hk, _, ho⟩

theorem Exact.init (h : Start start x) : Exact w start x := by
  refine ⟨?_, fun k o ho => Or.inl (h.cache ▸ ho)⟩
  unfold Delivered events
  rw [h.passed, h.channel, h.unsent, h.responses]
  rfl

/-- **Every event arrives.** As long as every event can be parsed and no event is taken
out of the channel while the watcher stands in the middle of a response, the cache is given
exactly the parsed events, each once and in order, and holds nothing else. -/
theorem exact_of_reach [Inhabited V] (h : Reach (next w) (Start start) (fun x => x.Fits w) x) : x.Exact w start := by
  refine h.invariant (fun x hx => Exact.init hx) ?_
  intro x c y hx hfits hnext
  cases c with
  | response resp =>
    dsimp only [next] at hnext
    split at hnext
    next hwaits =>
      obtain rfl := Option.some.inj hnext
      exact hx.receive hwaits hfits
    next => cases hnext
  | send => exact hx.send hnext
  | take full => exact hx.take hfits hnext

end Proofs

end Update

/-! ## Two runs -/

namespace Sample

/-- An object with the kind `a` and the payload `1`, encoded. -/
def bytes : List UInt8 := [0x0a, 0x01, 0x61, 0x3a, 0x01, 0x31]

/-- The object it decodes to. -/
def obj : DataObject ℕ := { (DataObject.default : DataObject ℕ) with objType := "a", object := 1 }

/-- A watcher of all objects. -/
def watcher : Watcher ℕ where
  decode := fun value => if value = bytes then .ok obj else .error "failed to decode Protobuf message"

/-- A key is written with the given value. -/
def put (value : List UInt8) : Event := ⟨.put, ⟨"/registry/a///", value, 1, 1⟩, none⟩

/-- The loop with an empty cache. -/
def loop : Update ℕ where
  cs := { objectType := "a" }

/-- Nobody else watches the cache. -/
def take : Input := .take fun _ => false

/-- A response with two events, and their way to the cache. -/
def two : List Input := [.response [put bytes, put bytes], .send, .send, take, take]

/-- A response with 301 events: the channel is full before the last. -/
def many : List Input :=
  .response (List.replicate 301 (put bytes)) :: (List.replicate 300 .send ++ [take])

/-- A value that cannot be decoded. -/
def broken : List Input := [.response [put [0xff]], .send, take]

/-- The state after some turns. -/
def after (l : List Input) : Update ℕ :=
  (exec (Update.next watcher) (fun _ _ => True) loop l).getD loop

theorem start_loop : Update.Start ∅ loop := ⟨rfl, rfl, rfl, rfl, rfl⟩

theorem reach_after {l : List Input}
    (h : (exec (Update.next watcher) (fun _ _ => True) loop l).isSome = true) :
    Reach (Update.next watcher) (Update.Start ∅) (fun _ _ => True) (after l) := by
  obtain ⟨y, hy⟩ := Option.isSome_iff_exists.mp h
  have hafter : after l = y := by
    unfold after
    rw [hy, Option.getD_some]
  exact hafter ▸ Reach.of_exec _ _ (.init start_loop) hy

end Sample

/-- Two events arrive. -/
theorem Update.exact_after_two : (Sample.after Sample.two).passed.length = 2 ∧
    (Sample.after Sample.two).Exact Sample.watcher ∅ := by
  refine ⟨by decide +kernel, ?_⟩
  have hrun : (exec (Update.next Sample.watcher) (fun x => x.Fits Sample.watcher) Sample.loop
      Sample.two).isSome = true := by
    decide +kernel
  obtain ⟨x, hx⟩ := Option.isSome_iff_exists.mp hrun
  have hafter : Sample.after Sample.two = x := by
    unfold Sample.after
    rw [exec_mono (fun _ _ _ => trivial) hx, Option.getD_some]
  rw [hafter]
  exact Update.exact_of_reach (Reach.of_exec _ _ (.init Sample.start_loop) hx)

/-- A response with more events than the channel has room for loses some, and an
event that cannot be parsed brings the default object into the cache. -/
theorem Update.events_lost_and_invented :
    (¬ ∀ x : Update ℕ, Reach (Update.next Sample.watcher) (Update.Start ∅) (fun _ _ => True) x →
      x.Delivered Sample.watcher) ∧
    (¬ ∀ x : Update ℕ, Reach (Update.next Sample.watcher) (Update.Start ∅) (fun _ _ => True) x →
      x.FromEvents Sample.watcher ∅) := by
  refine ⟨fun h => ?_, fun h => ?_⟩
  · have hdelivered := h _ (Sample.reach_after (l := Sample.many) (by decide +kernel))
    have hlen := congrArg List.length hdelivered
    revert hlen
    decide +kernel
  · have hfrom := h _ (Sample.reach_after (l := Sample.broken) (by decide +kernel))
    have hsome : ((Sample.after Sample.broken).cs.cacheStore["//"]?).isSome = true := by
      decide +kernel
    obtain ⟨o, ho⟩ := Option.isSome_iff_exists.mp hsome
    have hnone : (Sample.after Sample.broken).events Sample.watcher = [] := by
      decide +kernel
    rcases hfrom "//" o ho with hstart | ⟨e, he, -⟩
    · rw [Std.ExtTreeMap.getElem?_empty] at hstart
      cases hstart
    · rw [hnone] at he
      cases he

end Inferx.Etcd
