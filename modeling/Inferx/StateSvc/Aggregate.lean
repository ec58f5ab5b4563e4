import Inferx.Lib.Parties
import Inferx.Metastore.CacheStore
import Inferx.Metastore.Informer

/-!
# The objects of the node agents

The state service keeps the nodes, pods and snapshots of all nodes in three cache
stores. For each node it runs an agent with an informer for each of the three, and
what an informer reports is written to the store. When a node goes, or comes again
under its name, its agent is closed: its informers stop, and each client takes away
the objects that its informer has, with a revision that is one higher.

The stores take nothing that is not newer than what they have. So when a node comes
again, the objects of its new agent are dropped while those of the old one are there,
and what the old agent takes away may be the new one's. The stores hold the objects of
the agents if no agent reports an object while another has one under the same key, and
if what is reported is newer (`stores_exact_of_reach`).
-/

namespace Inferx.Aggregate

open Metastore

variable {V : Type}

/-! ## Agents and clients -/

/-- The three stores. -/
inductive Kind where
  | node | pod | snapshot
  deriving DecidableEq

/-- The type of the objects of a store. -/
def Kind.objectType : Kind → String
  | .node => "node"
  | .pod => "pod"
  | .snapshot => "snapshot"

/-- How far a client is. -/
inductive Phase (V : Type) where
  /-- it has been spawned -/
  | started
  /-- its informer runs; has it been told to close? -/
  | running (notified : Bool)
  /-- it takes away its objects; these are left -/
  | cleaning (rest : List (DataObject V))
  /-- it has taken away its objects -/
  | finished
  /-- it has been aborted -/
  | aborted
  deriving DecidableEq

/-- `AggregateClient`, with its informer, which has the client as its handler. -/
structure AggregateClient (V : Type) where
  /-- the agent it belongs to -/
  agent : ℕ
  /-- the store it writes to -/
  kind : Kind
  /-- its informer -/
  informer : Informer V := { handlers := [{}] }
  /-- how far it is -/
  phase : Phase V := .started

/-- How far `IxAgent::Process` is. -/
inductive Stage where
  /-- it has been spawned -/
  | spawned
  /-- it waits 100 ms before it spawns the client for the node -/
  | delayed
  /-- it waits to be closed -/
  | waiting
  /-- it has been woken up -/
  | woken
  /-- it has closed its clients -/
  | ended
  deriving DecidableEq

/-- `IxAgent`. -/
structure IxAgent where
  /-- its node -/
  nodeName : String
  /-- has it been closed? -/
  closed : Bool := false
  /-- how far it is -/
  stage : Stage := .spawned

/-- `IxAggrStore`, with all agents and clients there have been. -/
structure IxAggrStore (V : Type) where
  /-- the agents of the nodes -/
  names : BTreeMap String ℕ := ∅
  /-- all agents -/
  agents : List IxAgent := []
  /-- all clients -/
  clients : List (AggregateClient V) := []
  /-- the stores -/
  stores : Kind → CacheStore V := fun kind => { objectType := kind.objectType }
  /-- the last channel revision -/
  channelRev : ℤ := 0

/-- `IxAgent::Close`: it wakes the agent only if it already waits. -/
def IxAgent.close (a : IxAgent) : IxAgent :=
  { a with closed := true, stage := if a.stage = .waiting then .woken else a.stage }

/-- `AggregateClient::Close`: it tells the client only if it already waits. -/
def AggregateClient.close (c : AggregateClient V) : AggregateClient V :=
  match c.phase with
  | .running _ => { c with phase := .running true }
  | _ => c

/-- The removal of the objects that a client takes away. -/
def removal (o : DataObject V) : WatchEvent V := ⟨.deleted, { o with revision := o.revision + 1 }⟩

/-- `AggregateClient::handle`: what is written to the store. -/
def handle (e : DeltaEvent V) : Option (WatchEvent V) :=
  match e.type with
  | .added => some ⟨.added, e.obj⟩
  | .modified => some ⟨.modified, e.obj⟩
  | .deleted => some ⟨.deleted, e.obj⟩
  | _ => none

namespace IxAggrStore

/-- The agent is closed. -/
def closeAgent (s : IxAggrStore V) (id : ℕ) : IxAggrStore V := { s with agents := s.agents.modify id IxAgent.close }

/-- `IxAggrStore::AddIxAgent`. -/
def addIxAgent (s : IxAggrStore V) (nodeName : String) : IxAggrStore V :=
  -- the new agent takes the place of the old one before the old one is closed
  let s' := { s with
    names := s.names.insert nodeName s.agents.length
    agents := s.agents ++ [{ nodeName }] }
  match s.names[nodeName]? with
  | none => s'
  | some existing => s'.closeAgent existing

/-- `IxAggrStore::RemoveIxAgent`, whose error is a panic of the caller. -/
def removeIxAgent (s : IxAggrStore V) (nodeName : String) : Option (IxAggrStore V) :=
  match s.names[nodeName]? with
  | none => none
  | some id => some ({ s with names := s.names.erase nodeName }.closeAgent id)

/-- The next step of `IxAgent::Process`. -/
def agentStep (s : IxAggrStore V) (id : ℕ) : Option (IxAggrStore V) :=
  match s.agents[id]? with
  | none => none
  | some a =>
    match a.stage with
    | .spawned => some { s with
        agents := s.agents.set id { a with stage := .delayed }
        clients := s.clients ++ [{ agent := id, kind := .snapshot }, { agent := id, kind := .pod }] }
    | .delayed => some { s with
        agents := s.agents.set id { a with stage := .waiting }
        clients := s.clients ++ [{ agent := id, kind := .node }] }
    | .woken => some { s with
        agents := s.agents.set id { a with stage := .ended }
        clients := s.clients.map fun c => if c.agent = id then c.close else c }
    | _ => none

/-- `ProcessEvent` of a store. -/
def process (s : IxAggrStore V) (full : ℕ → Bool) (kind : Kind) (e : WatchEvent V) : IxAggrStore V :=
  { s with
    stores := fun d => if d = kind then (s.stores d).processEvent full (s.channelRev + 1) e else s.stores d
    channelRev := s.channelRev + 1 }

/-- A client is replaced. -/
def setClient (s : IxAggrStore V) (i : ℕ) (c : AggregateClient V) : IxAggrStore V :=
  { s with clients := s.clients.set i c }

/-- The next step of `AggregateClient::Process`, other than those of its informer. -/
def clientStep (s : IxAggrStore V) (full : ℕ → Bool) (i : ℕ) : Option (IxAggrStore V) :=
  match s.clients[i]? with
  | none => none
  | some c =>
    match c.phase with
    | .started => some (s.setClient i { c with phase := .running false })
    -- what the informer has is taken away; what it has still to report is dropped
    | .running true => some (s.setClient i { c with phase := .cleaning (c.informer.store.toList.map Prod.snd) })
    | .cleaning [] => some (s.setClient i { c with phase := .finished })
    | .cleaning (o :: rest) =>
      some ((s.process full c.kind (removal o)).setClient i { c with phase := .cleaning rest })
    | _ => none

/-- A step of a client's informer. What it reports goes to the store. -/
def informerStep [Inhabited V] (s : IxAggrStore V) (full : ℕ → Bool) (i : ℕ) (x : InformerInput V) :
    Option (IxAggrStore V) :=
  match s.clients[i]? with
  | none => none
  | some c =>
    match c.phase with
    | .running _ =>
      match c.informer.next x with
      | none => none
      | some informer =>
        let reported := match x with
          | .distribute => c.informer.pending.head?.bind handle
          | _ => none
        let s' := match reported with
          | none => s
          | some e => s.process full c.kind e
        some (s'.setClient i { c with informer })
    | _ => none

end IxAggrStore

/-- What happens. -/
inductive Act (V : Type) where
  /-- a node has come -/
  | added (nodeName : String)
  /-- a node has gone -/
  | deleted (nodeName : String)
  /-- an agent makes its next step -/
  | agent (id : ℕ)
  /-- a client starts, or makes the next step of its clean-up -/
  | client (i : ℕ) (full : ℕ → Bool)
  /-- the informer of a client gets a list -/
  | list (i : ℕ) (first : Bool) (objs : List (DataObject V)) (revision : ℤ)
  /-- the informer of a client gets an event of its watch -/
  | watch (i : ℕ) (e : WatchEvent V)
  /-- the informer of a client reports an event -/
  | report (i : ℕ) (full : ℕ → Bool)
  /-- a client of a closed agent is aborted after two seconds -/
  | abort (i : ℕ)

/-- One step. -/
def IxAggrStore.next [Inhabited V] (s : IxAggrStore V) : Act V → Option (IxAggrStore V)
  | .added nodeName => some (s.addIxAgent nodeName)
  | .deleted nodeName => s.removeIxAgent nodeName
  | .agent id => s.agentStep id
  | .client i full => s.clientStep full i
  | .list i first objs revision => s.informerStep (fun _ => false) i (.initList first objs revision)
  | .watch i e => s.informerStep (fun _ => false) i (.watch e)
  | .report i full => s.informerStep full i .distribute
  | .abort i =>
    match s.clients[i]? with
    | none => none
    | some c =>
      match c.phase with
      | .running _ => if s.agents[c.agent]?.any IxAgent.closed then some (s.setClient i { c with phase := .aborted }) else none
      | _ => none

/-! ## What the stores should hold -/

/-- The agent of the client is the one of its node. -/
def IxAggrStore.Live (s : IxAggrStore V) (c : AggregateClient V) : Prop := ∃ nodeName : String, s.names[nodeName]? = some c.agent

/-- The closed agents have finished their clean-up, and the others have nothing to
report. -/
def IxAggrStore.Settled (s : IxAggrStore V) : Prop :=
  ∀ c ∈ s.clients, (¬ s.Live c → c.phase = .finished) ∧ (s.Live c → c.informer.pending = [])

/-- An object without the revision of its channel, which a store sets. -/
def plain (o : DataObject V) : DataObject V := o.copyWithRev 0 o.revision

/-- The stores hold the objects of the informers of the live agents, and nothing else. -/
def IxAggrStore.Exact (s : IxAggrStore V) : Prop :=
  ∀ (kind : Kind) (key : String) (o : DataObject V), ((s.stores kind).cacheStore[key]?).map plain = some o ↔
    ∃ c ∈ s.clients, s.Live c ∧ c.kind = kind ∧ (c.informer.store[key]?).map plain = some o

/-- What a client has reported and not taken away. -/
def AggregateClient.holding (c : AggregateClient V) : List (DataObject V) :=
  match c.phase with
  | .cleaning rest => rest
  | .finished => []
  | _ => (((c.informer.handlers.flatMap HandlerState.given).foldl heldAfter ∅).toList).map Prod.snd

/-- What is reported is newer than what the store has, no other agent has an object
under its key, informers report what they have (as far as `Informer.StepOk` says), and
an informer has nothing to report when its client takes away its objects. -/
def ActOk (s : IxAggrStore V) : Act V → Prop
  | .client i _ => ∀ c ∈ s.clients[i]?, c.phase = .running true → c.informer.pending = []
  | .list i first objs revision => ∀ c ∈ s.clients[i]?, c.informer.StepOk (.initList first objs revision)
  | .watch i e => ∀ c ∈ s.clients[i]?, c.informer.StepOk (.watch e)
  | .report i _ => ∀ c ∈ s.clients[i]?, ∀ e ∈ c.informer.pending.head?.bind handle,
    (s.stores c.kind).stale e = false ∧
      ∀ c' ∈ s.clients.eraseIdx i, c'.kind = c.kind → ∀ o ∈ c'.holding, o.key ≠ e.obj.key
  | _ => True

/-! ## What a client holds -/

/-- What a handler holds after some events. -/
def view (l : List (DeltaEvent V)) : Objects V := l.foldl heldAfter ∅

theorem keyed_heldAfter {m : Objects V} (hm : Keyed m) (e : DeltaEvent V) : Keyed (heldAfter m e) := by
  unfold heldAfter
  split
  next => exact hm.insert rfl
  next => exact hm.insert rfl
  next => exact hm.erase
  next => exact hm

theorem keyed_view (l : List (DeltaEvent V)) : Keyed (view l) :=
  List.foldlRecOn l heldAfter Keyed.empty fun _ hm e _ => keyed_heldAfter hm e

/-- The objects of a store. -/
theorem mem_objects {m : Objects V} (hm : Keyed m) {o : DataObject V} :
    o ∈ m.toList.map Prod.snd ↔ m[o.key]? = some o := by
  refine ⟨fun h => ?_, fun h => List.mem_map.mpr ⟨(o.key, o), BTreeMap.mem_toList.mpr h, rfl⟩⟩
  obtain ⟨⟨k, v⟩, hmem, hv⟩ := List.mem_map.mp h
  obtain rfl : v = o := hv
  have hget := BTreeMap.mem_toList.mp hmem
  rwa [hm k v hget]

theorem eq_foldl_of_leads {m m' : Objects V} {l : List (DeltaEvent V)} (h : Leads m l m') : m' = l.foldl heldAfter m := by
  induction h with
  | nil => rfl
  | cons _ _ ih => exact ih

/-- What is always so of a client: it is the only handler of its informer, and what it
takes away it takes away once. -/
structure ClientOk (c : AggregateClient V) : Prop where
  /-- the client is the handler of its informer -/
  handler : ∃ given, c.informer.handlers = [{ given }]
  /-- the informer reports what it has -/
  inv : c.informer.Inv
  /-- the objects that are left have different keys -/
  nodup : ∀ rest, c.phase = .cleaning rest → (rest.map DataObject.key).Nodup

variable {c c' : AggregateClient V}

/-- The informer of a client that has nothing to report has what the client holds. -/
theorem ClientOk.store_eq (h : ClientOk c) (hpending : c.informer.pending = []) :
    c.informer.store = view (c.informer.handlers.flatMap HandlerState.given) := by
  obtain ⟨given, hhandlers⟩ := h.handler
  have hleads := h.inv.agrees { given } (by rw [hhandlers]; exact List.mem_singleton_self _) rfl
  rw [hpending, List.append_nil] at hleads
  rw [hhandlers]
  exact (eq_foldl_of_leads hleads).trans (by simp [view])

theorem nodup_objects {m : Objects V} (hm : Keyed m) : ((m.toList.map Prod.snd).map DataObject.key).Nodup := by
  refine (List.nodup_map_iff_inj_on ?_).mpr fun o ho o' ho' hkey => ?_
  · refine (List.nodup_map_iff_inj_on (BTreeMap.nodup_toList m)).mpr fun p hp p' hp' heq => ?_
    have hp1 := hm p.1 p.2 (BTreeMap.mem_toList.mp hp)
    have hp1' := hm p'.1 p'.2 (BTreeMap.mem_toList.mp hp')
    rw [heq] at hp1
    exact Prod.ext (hp1.symm.trans hp1') heq
  · have hget := (mem_objects hm).mp ho
    have hget' := (mem_objects hm).mp ho'
    rw [hkey, hget'] at hget
    exact (Option.some.inj hget).symm

/-- A new client. -/
theorem clientOk_started (agent : ℕ) (kind : Kind) : ClientOk ({ agent, kind } : AggregateClient V) := by
  refine ⟨⟨[], rfl⟩, ⟨Keyed.empty, fun h hh _ => ?_, fun h hh rest hreplay => ?_⟩, fun rest hrest => ?_⟩
  · obtain rfl := List.mem_singleton.mp hh
    exact .nil
  · obtain rfl := List.mem_singleton.mp hh
    cases hreplay
  · cases hrest

/-! ## The stores and what the clients hold -/

/-- The stores hold what the clients hold, and no two clients hold objects of one key. -/
structure Books (s : IxAggrStore V) : Prop where
  /-- the clients are as they should be -/
  client : ∀ c ∈ s.clients, ClientOk c
  /-- objects are stored under their key -/
  keyed : ∀ kind, Keyed (s.stores kind).cacheStore
  /-- what a client holds is there -/
  held : ∀ c ∈ s.clients, ∀ o ∈ c.holding, ((s.stores c.kind).cacheStore[o.key]?).map plain = some (plain o)
  /-- what is there is held by a client -/
  backed : ∀ (kind : Kind) (key : String) (a : DataObject V), (s.stores kind).cacheStore[key]? = some a →
    ∃ c ∈ s.clients, c.kind = kind ∧ ∃ o ∈ c.holding, plain o = plain a
  /-- clients hold objects of different keys -/
  apart : s.clients.Pairwise fun c c' => c.kind = c'.kind → ∀ o ∈ c.holding, ∀ o' ∈ c'.holding, o.key ≠ o'.key

theorem key_plain (o : DataObject V) : (plain o).key = o.key := rfl

theorem key_eq_of_plain {o o' : DataObject V} (h : plain o = plain o') : o.key = o'.key := by
  rw [← key_plain o, h, key_plain]

theorem revision_eq_of_plain {o o' : DataObject V} (h : plain o = plain o') : o.revision = o'.revision := by
  show (plain o).revision = (plain o').revision
  rw [h]

section Process

variable {s : IxAggrStore V} {full : ℕ → Bool} {kind : Kind} {e : WatchEvent V}

/-- An event that is newer is taken. -/
theorem get_process_self (full : ℕ → Bool) (hfresh : (s.stores kind).stale e = false) :
    ((s.process full kind e).stores kind).cacheStore[e.obj.key]? = CacheStore.left (s.channelRev + 1) e := by
  unfold IxAggrStore.process
  dsimp only
  rw [if_pos rfl]
  rcases hget : (s.stores kind).cacheStore[e.obj.key]? with _ | o
  · exact CacheStore.processEvent_absent hget
  · refine CacheStore.processEvent_newer hget ?_
    unfold CacheStore.stale at hfresh
    rw [hget] at hfresh
    simpa using hfresh

/-- An event is about one key of one store. -/
theorem get_process_of_ne {d : Kind} {k : String} (h : d ≠ kind ∨ k ≠ e.obj.key) :
    ((s.process full kind e).stores d).cacheStore[k]? = (s.stores d).cacheStore[k]? := by
  unfold IxAggrStore.process
  dsimp only
  by_cases hd : d = kind
  · rw [if_pos hd]
    rcases h with hne | hne
    · exact absurd hd hne
    · exact CacheStore.processEvent_of_ne hne
  · rw [if_neg hd]

theorem keyed_process (h : ∀ d, Keyed (s.stores d).cacheStore) (d : Kind) :
    Keyed ((s.process full kind e).stores d).cacheStore := by
  unfold IxAggrStore.process
  dsimp only
  split
  next => exact CacheStore.keyed_processEvent (h d)
  next => exact h d

end Process

namespace Books

variable {s s' : IxAggrStore V} {i : ℕ}

/-- The others hold objects of other keys. -/
theorem apart_split (h : Books s) (hi : s.clients[i]? = some c) :
    (∀ d ∈ s.clients.eraseIdx i, d.kind = c.kind → ∀ o ∈ d.holding, ∀ o' ∈ c.holding, o.key ≠ o'.key) ∧
      (s.clients.eraseIdx i).Pairwise fun c c' =>
        c.kind = c'.kind → ∀ o ∈ c.holding, ∀ o' ∈ c'.holding, o.key ≠ o'.key := by
  obtain ⟨hhead, htail⟩ := h.apart.step (fun hne hkind o ho o' ho' => (hne hkind.symm o' ho' o ho).symm) hi
  exact ⟨fun d hd hkind o ho o' ho' => (hhead d hd hkind.symm o' ho' o ho).symm, htail⟩

/-- A client takes a step, and one event goes to its store, or none. The keys that are
not concerned are as they were, and at a key that is, the store has what the client
has. -/
theorem replace (h : Books s) (hi : s.clients[i]? = some c) (hok : ClientOk c') (hkind : c'.kind = c.kind)
    (hclients : s'.clients = s.clients.set i c') (hkeyed : ∀ kind, Keyed (s'.stores kind).cacheStore)
    (touched : String → Prop)
    (hstores : ∀ (kind : Kind) (k : String), kind ≠ c.kind ∨ ¬ touched k →
      (s'.stores kind).cacheStore[k]? = (s.stores kind).cacheStore[k]?)
    (hsame : ∀ o : DataObject V, ¬ touched o.key → (o ∈ c'.holding ↔ o ∈ c.holding))
    (hothers : ∀ d ∈ s.clients.eraseIdx i, d.kind = c.kind → ∀ o ∈ d.holding, ¬ touched o.key)
    (hheld : ∀ o ∈ c'.holding, touched o.key → ((s'.stores c.kind).cacheStore[o.key]?).map plain = some (plain o))
    (hbacked : ∀ (k : String) (a : DataObject V), touched k → (s'.stores c.kind).cacheStore[k]? = some a →
      ∃ o ∈ c'.holding, plain o = plain a) : Books s' := by
  have hmem : ∀ {d : AggregateClient V}, d ∈ s'.clients ↔ d = c' ∨ d ∈ s.clients.eraseIdx i := by
    intro d
    rw [hclients, (List.set_perm_of_getElem? hi).mem_iff, List.mem_cons]
  have hc := List.mem_of_getElem? hi
  refine ⟨fun d hd => ?_, hkeyed, fun d hd o ho => ?_, fun kind k a ha => ?_, ?_⟩
  · rcases hmem.mp hd with rfl | hrest
    · exact hok
    · exact h.client d (List.mem_of_mem_eraseIdx hrest)
  · rcases hmem.mp hd with rfl | hrest
    · rw [hkind]
      by_cases htouched : touched o.key
      · exact hheld o ho htouched
      · rw [hstores _ _ (Or.inr htouched)]
        exact h.held c hc o ((hsame o htouched).mp ho)
    · have hfree : d.kind ≠ c.kind ∨ ¬ touched o.key := by
        by_cases hk : d.kind = c.kind
        · exact Or.inr (hothers d hrest hk o ho)
        · exact Or.inl hk
      rw [hstores _ _ hfree]
      exact h.held d (List.mem_of_mem_eraseIdx hrest) o ho
  · by_cases hfree : kind ≠ c.kind ∨ ¬ touched k
    · rw [hstores kind k hfree] at ha
      obtain ⟨d, hd, rfl, o, ho, hplain⟩ := h.backed kind k a ha
      -- the client that steps still holds it, because its key is not touched
      rcases List.eq_or_mem_eraseIdx hi hd with rfl | hrest
      · refine ⟨c', hmem.mpr (Or.inl rfl), hkind, o, (hsame o fun htouched => ?_).mpr ho, hplain⟩
        rw [key_eq_of_plain hplain, h.keyed d.kind k a ha] at htouched
        rcases hfree with hne | hnot
        · exact hne rfl
        · exact hnot htouched
      · exact ⟨d, hmem.mpr (Or.inr hrest), rfl, o, ho, hplain⟩
    · have hkind' : kind = c.kind := by
        by_contra hne
        exact hfree (Or.inl hne)
      have htouched : touched k := by
        by_contra hnot
        exact hfree (Or.inr hnot)
      subst hkind'
      obtain ⟨o, ho, hplain⟩ := hbacked k a htouched ha
      exact ⟨c', hmem.mpr (Or.inl rfl), hkind, o, ho, hplain⟩
  · rw [hclients]
    refine ((List.set_perm_of_getElem? hi).pairwise_iff fun {_ _} hne hkind o ho o' ho' => (hne hkind.symm o' ho' o ho).symm).mpr ?_
    refine List.pairwise_cons.mpr ⟨fun d hd hk o ho o' ho' => ?_, (h.apart_split hi).2⟩
    have hk' : d.kind = c.kind := hk.symm.trans hkind
    by_cases htouched : touched o.key
    · intro heq
      exact hothers d hd hk' o' ho' (heq ▸ htouched)
    · exact ((h.apart_split hi).1 d hd hk' o' ho' o ((hsame o htouched).mp ho)).symm

/-- A client takes a step and holds what it held. -/
theorem keep (h : Books s) (hi : s.clients[i]? = some c) (hok : ClientOk c') (hkind : c'.kind = c.kind)
    (hsame : c'.holding = c.holding) : Books (s.setClient i c') := by
  refine h.replace hi hok hkind rfl h.keyed (fun _ => False) (fun _ _ _ => rfl) (fun o _ => by rw [hsame]) ?_ ?_ ?_
  · exact fun _ _ _ _ _ hfalse => hfalse
  · exact fun _ _ hfalse => hfalse.elim
  · exact fun _ _ hfalse => hfalse.elim

/-- A client takes a step, and an event that is newer goes to its store. -/
theorem event (h : Books s) (hi : s.clients[i]? = some c) (hok : ClientOk c') (hkind : c'.kind = c.kind)
    {full : ℕ → Bool} {e : WatchEvent V} (hfresh : (s.stores c.kind).stale e = false)
    (hothers : ∀ d ∈ s.clients.eraseIdx i, d.kind = c.kind → ∀ o ∈ d.holding, o.key ≠ e.obj.key)
    (hsame : ∀ o : DataObject V, o.key ≠ e.obj.key → (o ∈ c'.holding ↔ o ∈ c.holding))
    (hnow : ∀ o : DataObject V, o.key = e.obj.key → (o ∈ c'.holding ↔ e.type ≠ .deleted ∧ o = e.obj)) :
    Books ((s.process full c.kind e).setClient i c') := by
  refine h.replace hi hok hkind rfl (keyed_process h.keyed) (fun k => k = e.obj.key) (fun kind k hne => ?_) hsame
    hothers (fun o ho hkey => ?_) fun k a hkey ha => ?_
  · exact get_process_of_ne hne
  · obtain ⟨htype, rfl⟩ := (hnow o hkey).mp ho
    have hget := get_process_self full hfresh
    unfold CacheStore.left at hget
    rw [if_neg htype] at hget
    show (((s.process full c.kind e).stores c.kind).cacheStore[e.obj.key]?).map plain = _
    rw [hget]
    rfl
  · subst hkey
    have hget : CacheStore.left (s.channelRev + 1) e = some a := (get_process_self full hfresh).symm.trans ha
    unfold CacheStore.left at hget
    split at hget
    next => cases hget
    next htype =>
      obtain rfl := Option.some.inj hget
      exact ⟨e.obj, (hnow e.obj rfl).mpr ⟨htype, rfl⟩, rfl⟩

/-- Agents come and go without a change of the stores. -/
theorem congr (h : Books s) (hclients : s'.clients = s.clients) (hstores : s'.stores = s.stores) : Books s' := by
  refine ⟨?_, ?_, ?_, ?_, ?_⟩
  · rw [hclients]
    exact h.client
  · rw [hstores]
    exact h.keyed
  · rw [hclients, hstores]
    exact h.held
  · rw [hclients, hstores]
    exact h.backed
  · rw [hclients]
    exact h.apart

/-- More clients. -/
theorem more (h : Books s) {new : List (AggregateClient V)} (hclients : s'.clients = s.clients ++ new)
    (hstores : s'.stores = s.stores) (hnew : ∀ c ∈ new, ClientOk c ∧ c.holding = []) : Books s' := by
  have hnone : ∀ c ∈ new, ∀ o, o ∉ c.holding := by
    intro c hc o ho
    rw [(hnew c hc).2] at ho
    cases ho
  refine ⟨fun c hc => ?_, ?_, fun c hc o ho => ?_, fun kind k a ha => ?_, ?_⟩
  · rw [hclients] at hc
    rcases List.mem_append.mp hc with hold | hone
    · exact h.client c hold
    · exact (hnew c hone).1
  · rw [hstores]
    exact h.keyed
  · rw [hclients] at hc
    rw [hstores]
    rcases List.mem_append.mp hc with hold | hone
    · exact h.held c hold o ho
    · exact absurd ho (hnone c hone o)
  · rw [hstores] at ha
    rw [hclients]
    obtain ⟨c, hc, hrest⟩ := h.backed kind k a ha
    exact ⟨c, List.mem_append_left _ hc, hrest⟩
  · rw [hclients]
    refine List.pairwise_append.mpr ⟨h.apart, ?_, fun c _ c' hc' _ o _ o' ho' => absurd ho' (hnone c' hc' o')⟩
    exact List.pairwise_of_forall_mem_list fun c hc c' _ _ o ho => absurd ho (hnone c hc o)

/-- Clients change, but not what they hold. -/
theorem relabel (h : Books s) {f : AggregateClient V → AggregateClient V} (hclients : s'.clients = s.clients.map f)
    (hstores : s'.stores = s.stores) (hf : ∀ c ∈ s.clients, ClientOk (f c))
    (hsame : ∀ c, (f c).kind = c.kind ∧ (f c).holding = c.holding) : Books s' := by
  refine ⟨fun c hc => ?_, ?_, fun c hc o ho => ?_, fun kind k a ha => ?_, ?_⟩
  · rw [hclients] at hc
    obtain ⟨d, hd, rfl⟩ := List.mem_map.mp hc
    exact hf d hd
  · rw [hstores]
    exact h.keyed
  · rw [hclients] at hc
    obtain ⟨d, hd, rfl⟩ := List.mem_map.mp hc
    rw [(hsame d).2] at ho
    rw [hstores, (hsame d).1]
    exact h.held d hd o ho
  · rw [hstores] at ha
    obtain ⟨c, hc, hkind, o, ho, hplain⟩ := h.backed kind k a ha
    rw [hclients]
    exact ⟨f c, List.mem_map_of_mem hc, (hsame c).1.trans hkind, o, by rw [(hsame c).2]; exact ho, hplain⟩
  · rw [hclients, List.pairwise_map]
    refine h.apart.imp fun {c c'} hne hkind => ?_
    rw [(hsame c).1, (hsame c').1] at hkind
    rw [(hsame c).2, (hsame c').2]
    exact hne hkind

end Books

/-! ## Steps of a client -/

theorem close_same (c : AggregateClient V) : c.close.kind = c.kind ∧ c.close.holding = c.holding := by
  unfold AggregateClient.close
  split
  next notified hphase =>
    refine ⟨rfl, ?_⟩
    unfold AggregateClient.holding
    rw [hphase]
  next => exact ⟨rfl, rfl⟩

theorem ClientOk.close (h : ClientOk c) : ClientOk c.close := by
  unfold AggregateClient.close
  split
  next => exact ⟨h.handler, h.inv, fun rest hrest => by cases hrest⟩
  next => exact h

theorem holding_running {notified : Bool} (h : c.phase = .running notified) :
    c.holding = (view (c.informer.handlers.flatMap HandlerState.given)).toList.map Prod.snd := by
  unfold AggregateClient.holding
  rw [h]
  rfl

section Steps

variable {s s' : IxAggrStore V} {i : ℕ}

/-- A client starts, or makes the next step of its clean-up. -/
theorem Books.clientStep (h : Books s) {full : ℕ → Bool}
    (hpending : ∀ c ∈ s.clients[i]?, c.phase = .running true → c.informer.pending = [])
    (hnext : s.clientStep full i = some s') : Books s' := by
  unfold IxAggrStore.clientStep at hnext
  split at hnext
  next => cases hnext
  next c hi =>
    have hc := h.client c (List.mem_of_getElem? hi)
    split at hnext
    next hphase =>
      obtain rfl := Option.some.inj hnext
      refine h.keep hi ⟨hc.handler, hc.inv, fun rest hrest => by cases hrest⟩ rfl ?_
      unfold AggregateClient.holding
      rw [hphase]
    next hphase =>
      obtain rfl := Option.some.inj hnext
      refine h.keep hi ⟨hc.handler, hc.inv, fun rest hrest => ?_⟩ rfl ?_
      · obtain rfl := Phase.cleaning.inj hrest
        exact nodup_objects hc.inv.keyed
      · rw [holding_running hphase, ← hc.store_eq (hpending c hi hphase)]
        rfl
    next hphase =>
      obtain rfl := Option.some.inj hnext
      refine h.keep hi ⟨hc.handler, hc.inv, fun rest hrest => by cases hrest⟩ rfl ?_
      unfold AggregateClient.holding
      rw [hphase]
    next o rest hphase =>
      obtain rfl := Option.some.inj hnext
      have hholding : c.holding = o :: rest := by
        unfold AggregateClient.holding
        rw [hphase]
      have hnodup := List.nodup_cons.mp (hc.nodup (o :: rest) hphase)
      -- the object is there with the revision it is held with, so the removal is newer
      have hfresh : (s.stores c.kind).stale (removal o) = false := by
        have hthere := h.held c (List.mem_of_getElem? hi) o (by rw [hholding]; exact List.mem_cons_self)
        obtain ⟨a, ha, hplain⟩ := Option.map_eq_some_iff.mp hthere
        have hrev : a.revision < (removal o).obj.revision := by
          rw [revision_eq_of_plain hplain]
          exact Int.lt_succ o.revision
        have ha' : (s.stores c.kind).cacheStore[(removal o).obj.key]? = some a := ha
        unfold CacheStore.stale
        rw [ha']
        simpa using hrev
      have hok : ClientOk { c with phase := .cleaning rest } := by
        refine ⟨hc.handler, hc.inv, fun rest' hrest => ?_⟩
        obtain rfl := Phase.cleaning.inj hrest
        exact hnodup.2
      refine h.event hi hok rfl hfresh (fun d hd hkind o' ho' => ?_) (fun o' hkey => ?_) fun o' hkey => ?_
      · exact (h.apart_split hi).1 d hd hkind o' ho' o (by rw [hholding]; exact List.mem_cons_self)
      · rw [hholding]
        refine ⟨fun hmem => List.mem_cons_of_mem _ hmem, fun hmem => ?_⟩
        rcases List.mem_cons.mp hmem with rfl | hrest
        · exact absurd rfl hkey
        · exact hrest
      · refine ⟨fun hmem => ?_, fun hdel => absurd rfl hdel.1⟩
        exact absurd (List.mem_map.mpr ⟨o', hmem, hkey⟩) hnodup.1
    next => cases hnext

/-- The informer of a client gets a list or an event. It reports nothing yet. -/
theorem Books.inform [Inhabited V] (h : Books s) (hi : s.clients[i]? = some c) {notified : Bool}
    (hphase : c.phase = .running notified) {x : InformerInput V} {informer : Informer V}
    (hok : c.informer.StepOk x) (hnext : c.informer.next x = some informer)
    (hhandlers : informer.handlers = c.informer.handlers) : Books (s.setClient i { c with informer }) := by
  have hc := h.client c (List.mem_of_getElem? hi)
  have hok' : ClientOk { c with informer } := by
    refine ⟨?_, hc.inv.next hok hnext, fun rest hrest => ?_⟩
    · dsimp only
      rw [hhandlers]
      exact hc.handler
    · cases hphase.symm.trans hrest
  refine h.keep hi hok' rfl ?_
  have hphase' : ({ c with informer } : AggregateClient V).phase = .running notified := hphase
  rw [holding_running hphase, holding_running hphase']
  dsimp only
  rw [hhandlers]

/-- What a client holds after a report. -/
theorem view_append (l : List (DeltaEvent V)) (e : DeltaEvent V) : view (l ++ [e]) = heldAfter (view l) e := by
  unfold view
  rw [List.foldl_append]
  rfl

/-- What is not written to the store is not held either. -/
theorem heldAfter_of_handle_none {m : Objects V} {e : DeltaEvent V} (h : handle e = none) : heldAfter m e = m := by
  cases htype : e.type with
  | added => simp [handle, htype] at h
  | modified => simp [handle, htype] at h
  | deleted => simp [handle, htype] at h
  | none => simp [heldAfter, htype]
  | initDone => simp [heldAfter, htype]
  | error msg => simp [heldAfter, htype]

/-- What is written to the store is held, or is held no more. -/
theorem get_heldAfter_of_handle {m : Objects V} {e : DeltaEvent V} {ev : WatchEvent V} (h : handle e = some ev) :
    ev.obj = e.obj ∧ ∀ k, (heldAfter m e)[k]? =
      if k = e.obj.key then (if ev.type = .deleted then none else some e.obj) else m[k]? := by
  cases htype : e.type with
  | added =>
    simp only [handle, htype, Option.some.injEq] at h
    subst h
    refine ⟨rfl, fun k => ?_⟩
    simp only [heldAfter, htype]
    exact BTreeMap.get_insert _ _ _ _
  | modified =>
    simp only [handle, htype, Option.some.injEq] at h
    subst h
    refine ⟨rfl, fun k => ?_⟩
    simp only [heldAfter, htype]
    exact BTreeMap.get_insert _ _ _ _
  | deleted =>
    simp only [handle, htype, Option.some.injEq] at h
    subst h
    refine ⟨rfl, fun k => ?_⟩
    simp only [heldAfter, htype]
    exact BTreeMap.get_erase _ _ _
  | none => simp [handle, htype] at h
  | initDone => simp [handle, htype] at h
  | error msg => simp [handle, htype] at h

/-- The informer of a client reports an event. -/
theorem Books.report [Inhabited V] (h : Books s) (hi : s.clients[i]? = some c) {notified : Bool}
    (hphase : c.phase = .running notified) {full : ℕ → Bool} {e : DeltaEvent V} {rest : List (DeltaEvent V)}
    (hpending : c.informer.pending = e :: rest)
    (hfree : ∀ ev ∈ handle e, (s.stores c.kind).stale ev = false ∧
      ∀ d ∈ s.clients.eraseIdx i, d.kind = c.kind → ∀ o ∈ d.holding, o.key ≠ ev.obj.key) :
    Books ((match handle e with
      | none => s
      | some ev => s.process full c.kind ev).setClient i { c with informer := c.informer.distribute e rest }) := by
  have hc := h.client c (List.mem_of_getElem? hi)
  obtain ⟨given, hhandlers⟩ := hc.handler
  have hhandlers' : (c.informer.distribute e rest).handlers = [{ given := given ++ [e] }] := by
    unfold Informer.distribute
    rw [hhandlers]
    rfl
  have hok : ClientOk { c with informer := c.informer.distribute e rest } :=
    ⟨⟨_, hhandlers'⟩, hc.inv.distribute hpending, fun rest' hrest => by cases hphase.symm.trans hrest⟩
  have hphase' : ({ c with informer := c.informer.distribute e rest } : AggregateClient V).phase = .running notified :=
    hphase
  have hbefore : c.holding = (view given).toList.map Prod.snd := by
    rw [holding_running hphase, hhandlers]
    simp
  have hafter : ({ c with informer := c.informer.distribute e rest } : AggregateClient V).holding =
      (heldAfter (view given) e).toList.map Prod.snd := by
    rw [holding_running hphase', ← view_append]
    dsimp only
    rw [hhandlers']
    simp
  have hkeyed := keyed_view given
  have hkeyed' := keyed_heldAfter hkeyed e
  rcases hev : handle e with _ | ev
  · -- nothing is reported
    refine h.keep hi hok rfl ?_
    rw [hafter, hbefore, heldAfter_of_handle_none hev]
  · obtain ⟨hfresh, hothers⟩ := hfree ev hev
    obtain ⟨hobj, hget⟩ := get_heldAfter_of_handle hev
    refine h.event hi hok rfl hfresh hothers (fun o hkey => ?_) fun o hkey => ?_
    · rw [hafter, hbefore, mem_objects hkeyed', mem_objects hkeyed, hget, if_neg (hobj ▸ hkey)]
    · rw [hafter, mem_objects hkeyed', hget, if_pos (hobj ▸ hkey), hobj]
      split
      next htype => simp [htype]
      next htype => simp [htype, eq_comm]

end Steps

/-! ## Agents that are closed -/

/-- Has the client been told to close, or is it past that? -/
def AggregateClient.stopping (c : AggregateClient V) : Bool :=
  match c.phase with
  | .started => false
  | .running notified => notified
  | _ => true

/-- The agents of the nodes are open, and only the clients of closed agents stop. -/
structure Roster (s : IxAggrStore V) : Prop where
  /-- the agent of a node is open -/
  named : ∀ (nodeName : String) (id : ℕ), s.names[nodeName]? = some id →
    ∃ a, s.agents[id]? = some a ∧ a.nodeName = nodeName ∧ a.closed = false
  /-- an agent is woken up to be closed -/
  woken : ∀ (id : ℕ) (a : IxAgent), s.agents[id]? = some a → a.stage = .woken ∨ a.stage = .ended → a.closed = true
  /-- a client stops with its agent -/
  stopping : ∀ c ∈ s.clients, c.stopping = true → ∃ a, s.agents[c.agent]? = some a ∧ a.closed = true

namespace Roster

variable {s s' : IxAggrStore V} {i id : ℕ}

/-- A client that stops is not live. -/
theorem not_live (h : Roster s) (hc : c ∈ s.clients) (hstop : c.stopping = true) : ¬ s.Live c := by
  rintro ⟨nodeName, hname⟩
  obtain ⟨a, ha, -, hopen⟩ := h.named nodeName c.agent hname
  obtain ⟨a', ha', hclosed⟩ := h.stopping c hc hstop
  obtain rfl := Option.some.inj (ha.symm.trans ha')
  rw [hopen] at hclosed
  cases hclosed

/-- An agent that no node has is closed. -/
theorem close (h : Roster s) (hfree : ∀ nodeName : String, s.names[nodeName]? ≠ some id) :
    Roster (s.closeAgent id) := by
  have hget : ∀ j, (s.agents.modify id IxAgent.close)[j]? = (s.agents[j]?).map fun a => if id = j then a.close else a :=
    fun j => List.getElem?_modify ..
  refine ⟨fun nodeName j hname => ?_, fun j a ha hstage => ?_, fun c hc hstop => ?_⟩
  · obtain ⟨a, ha, hnode, hopen⟩ := h.named nodeName j hname
    have hne : id ≠ j := fun heq => hfree nodeName (heq ▸ hname)
    refine ⟨a, ?_, hnode, hopen⟩
    show (s.agents.modify id IxAgent.close)[j]? = some a
    rw [hget, ha, Option.map_some, if_neg hne]
  · have ha' : (s.agents.modify id IxAgent.close)[j]? = some a := ha
    rw [hget] at ha'
    obtain ⟨b, hb, rfl⟩ := Option.map_eq_some_iff.mp ha'
    by_cases hid : id = j
    · rw [if_pos hid]
      rfl
    · rw [if_neg hid] at hstage ⊢
      exact h.woken j b hb hstage
  · obtain ⟨a, ha, hclosed⟩ := h.stopping c hc hstop
    refine ⟨if id = c.agent then a.close else a, ?_, ?_⟩
    · show (s.agents.modify id IxAgent.close)[c.agent]? = _
      rw [hget, ha, Option.map_some]
    · split
      next => rfl
      next => exact hclosed

/-- A node comes. The agent it had before is closed. -/
theorem added (h : Roster s) (nodeName : String) : Roster (s.addIxAgent nodeName) := by
  have hnew : Roster { s with
      names := s.names.insert nodeName s.agents.length
      agents := s.agents ++ [{ nodeName }] } := by
    refine ⟨fun name j hname => ?_, fun j a ha hstage => ?_, fun c hc hstop => ?_⟩
    · dsimp only at hname ⊢
      rw [BTreeMap.get_insert] at hname
      split at hname
      next heq =>
        obtain rfl := Option.some.inj hname
        exact ⟨{ nodeName }, List.getElem?_concat_length, heq.symm, rfl⟩
      next =>
        obtain ⟨a, ha, hrest⟩ := h.named name j hname
        exact ⟨a, (List.getElem?_append_left (List.getElem?_eq_some_iff.mp ha).1).trans ha, hrest⟩
    · dsimp only at ha
      rw [List.getElem?_append] at ha
      split at ha
      next => exact h.woken j a ha hstage
      next =>
        obtain ⟨hlt, hget⟩ := List.getElem?_eq_some_iff.mp ha
        rw [List.getElem_singleton] at hget
        subst hget
        rcases hstage with hstage | hstage
        · cases hstage
        · cases hstage
    · obtain ⟨a, ha, hclosed⟩ := h.stopping c hc hstop
      exact ⟨a, (List.getElem?_append_left (List.getElem?_eq_some_iff.mp ha).1).trans ha, hclosed⟩
  unfold IxAggrStore.addIxAgent
  dsimp only
  split
  next => exact hnew
  next existing hold =>
    -- the old agent has the name of the node, so no other node has it
    refine hnew.close fun name hname => ?_
    obtain ⟨a, ha, hnode, -⟩ := h.named nodeName existing hold
    have hlt := (List.getElem?_eq_some_iff.mp ha).1
    dsimp only at hname
    rw [BTreeMap.get_insert] at hname
    split at hname
    next =>
      have heq := Option.some.inj hname
      omega
    next hne =>
      obtain ⟨a', ha', hnode', -⟩ := h.named name existing hname
      obtain rfl := Option.some.inj (ha.symm.trans ha')
      exact hne (hnode'.symm.trans hnode)

/-- A node goes. -/
theorem deleted (h : Roster s) {nodeName : String} (hnext : s.removeIxAgent nodeName = some s') : Roster s' := by
  unfold IxAggrStore.removeIxAgent at hnext
  split at hnext
  next => cases hnext
  next id hold =>
    obtain rfl := Option.some.inj hnext
    have hless : Roster { s with names := s.names.erase nodeName } := by
      refine ⟨fun name j hname => ?_, h.woken, h.stopping⟩
      dsimp only at hname
      rw [BTreeMap.get_erase] at hname
      split at hname
      next => cases hname
      next => exact h.named name j hname
    refine hless.close fun name hname => ?_
    dsimp only at hname
    rw [BTreeMap.get_erase] at hname
    split at hname
    next => cases hname
    next hne =>
      obtain ⟨a, ha, hnode, -⟩ := h.named nodeName id hold
      obtain ⟨a', ha', hnode', -⟩ := h.named name id hname
      obtain rfl := Option.some.inj (ha.symm.trans ha')
      exact hne (hnode'.symm.trans hnode)

/-- An agent makes a step, and its clients with it. -/
theorem staged (h : Roster s) {a : IxAgent} (ha : s.agents[id]? = some a) {stage : Stage}
    {clients : List (AggregateClient V)} (hstage : stage = .woken ∨ stage = .ended → a.closed = true)
    (hclients : ∀ c ∈ clients, c.stopping = true →
      (∃ d ∈ s.clients, d.agent = c.agent ∧ d.stopping = true) ∨ c.agent = id ∧ a.closed = true) :
    Roster { s with agents := s.agents.set id { a with stage }, clients } := by
  have hlt := (List.getElem?_eq_some_iff.mp ha).1
  -- the step leaves the name and the mark of every agent
  have hkept : ∀ (j : ℕ) (b : IxAgent), s.agents[j]? = some b → ∃ b', (s.agents.set id { a with stage })[j]? = some b' ∧
      b'.nodeName = b.nodeName ∧ b'.closed = b.closed := by
    intro j b hb
    rw [List.getElem?_set]
    split
    next heq =>
      subst heq
      obtain rfl := Option.some.inj (ha.symm.trans hb)
      exact ⟨_, rfl, rfl, rfl⟩
    next => exact ⟨b, hb, rfl, rfl⟩
  refine ⟨fun name j hname => ?_, fun j b hb hwoken => ?_, fun c hc hstop => ?_⟩
  · obtain ⟨b, hb, hnode, hopen⟩ := h.named name j hname
    obtain ⟨b', hb', hnode', hclosed'⟩ := hkept j b hb
    exact ⟨b', hb', hnode'.trans hnode, hclosed'.trans hopen⟩
  · dsimp only at hb
    rw [List.getElem?_set] at hb
    split at hb
    next =>
      obtain rfl := Option.some.inj hb
      exact hstage hwoken
    next => exact h.woken j b hb hwoken
  · rcases hclients c hc hstop with ⟨d, hd, hagent, hstop'⟩ | ⟨hagent, hclosed⟩
    · obtain ⟨b, hb, hclosed⟩ := h.stopping d hd hstop'
      obtain ⟨b', hb', -, hclosed'⟩ := hkept d.agent b hb
      rw [← hagent]
      exact ⟨b', hb', hclosed'.trans hclosed⟩
    · obtain ⟨b', hb', -, hclosed'⟩ := hkept id a ha
      rw [hagent]
      exact ⟨b', hb', hclosed'.trans hclosed⟩

/-- A client of its agent makes a step. -/
theorem moved (h : Roster s) (hi : s.clients[i]? = some c) (hclients : s'.clients = s.clients.set i c')
    (hnames : s'.names = s.names) (hagents : s'.agents = s.agents) (hagent : c'.agent = c.agent)
    (hstop : c'.stopping = true → c.stopping = true ∨ ∃ a, s.agents[c.agent]? = some a ∧ a.closed = true) :
    Roster s' := by
  refine ⟨?_, ?_, fun d hd hstops => ?_⟩
  · rw [hnames, hagents]
    exact h.named
  · rw [hagents]
    exact h.woken
  · rw [hagents]
    rw [hclients] at hd
    rcases List.mem_or_eq_of_mem_set hd with hold | rfl
    · exact h.stopping d hold hstops
    · rw [hagent]
      rcases hstop hstops with hbefore | hclosed
      · exact h.stopping c (List.mem_of_getElem? hi) hbefore
      · exact hclosed

end Roster

/-! ## Runs -/

section Runs

variable {s s' : IxAggrStore V}

theorem Roster.agentStep (h : Roster s) {id : ℕ} (hnext : s.agentStep id = some s') : Roster s' := by
  unfold IxAggrStore.agentStep at hnext
  split at hnext
  next => cases hnext
  next a ha =>
    split at hnext
    next =>
      obtain rfl := Option.some.inj hnext
      refine h.staged ha (by simp) fun c hc hstop => ?_
      rcases List.mem_append.mp hc with hold | hnew
      · exact Or.inl ⟨c, hold, rfl, hstop⟩
      · simp only [List.mem_cons, List.not_mem_nil, or_false] at hnew
        rcases hnew with rfl | rfl
        · cases hstop
        · cases hstop
    next =>
      obtain rfl := Option.some.inj hnext
      refine h.staged ha (by simp) fun c hc hstop => ?_
      rcases List.mem_append.mp hc with hold | hnew
      · exact Or.inl ⟨c, hold, rfl, hstop⟩
      · obtain rfl := List.mem_singleton.mp hnew
        cases hstop
    next hstage =>
      obtain rfl := Option.some.inj hnext
      have hclosed := h.woken id a ha (Or.inl hstage)
      refine h.staged ha (fun _ => hclosed) fun c hc hstop => ?_
      obtain ⟨d, hd, rfl⟩ := List.mem_map.mp hc
      by_cases hid : d.agent = id
      · refine Or.inr ⟨?_, hclosed⟩
        rw [if_pos hid]
        unfold AggregateClient.close
        split
        next => exact hid
        next => exact hid
      · rw [if_neg hid] at hstop ⊢
        exact Or.inl ⟨d, hd, rfl, hstop⟩
    next => cases hnext

theorem Books.agentStep (h : Books s) {id : ℕ} (hnext : s.agentStep id = some s') : Books s' := by
  unfold IxAggrStore.agentStep at hnext
  split at hnext
  next => cases hnext
  next a ha =>
    split at hnext
    next =>
      obtain rfl := Option.some.inj hnext
      refine h.more rfl rfl fun c hc => ?_
      simp only [List.mem_cons, List.not_mem_nil, or_false] at hc
      rcases hc with rfl | rfl
      · exact ⟨clientOk_started _ _, rfl⟩
      · exact ⟨clientOk_started _ _, rfl⟩
    next =>
      obtain rfl := Option.some.inj hnext
      refine h.more rfl rfl fun c hc => ?_
      obtain rfl := List.mem_singleton.mp hc
      exact ⟨clientOk_started _ _, rfl⟩
    next =>
      obtain rfl := Option.some.inj hnext
      refine h.relabel rfl rfl (fun c hc => ?_) fun c => ?_
      · split
        next => exact (h.client c hc).close
        next => exact h.client c hc
      · split
        next => exact close_same c
        next => exact ⟨rfl, rfl⟩
    next => cases hnext

theorem Roster.clientStep (h : Roster s) {full : ℕ → Bool} {i : ℕ} (hnext : s.clientStep full i = some s') :
    Roster s' := by
  unfold IxAggrStore.clientStep at hnext
  split at hnext
  next => cases hnext
  next c hi =>
    split at hnext
    next =>
      obtain rfl := Option.some.inj hnext
      exact h.moved hi rfl rfl rfl rfl fun hstop => by cases hstop
    next hphase =>
      obtain rfl := Option.some.inj hnext
      exact h.moved hi rfl rfl rfl rfl fun _ => Or.inl (by unfold AggregateClient.stopping; rw [hphase])
    next hphase =>
      obtain rfl := Option.some.inj hnext
      exact h.moved hi rfl rfl rfl rfl fun _ => Or.inl (by unfold AggregateClient.stopping; rw [hphase])
    next hphase =>
      obtain rfl := Option.some.inj hnext
      exact h.moved hi rfl rfl rfl rfl fun _ => Or.inl (by unfold AggregateClient.stopping; rw [hphase])
    next => cases hnext

/-- When all is settled the stores hold the objects of the live agents. -/
theorem exact_of_books (h : Books s) (hr : Roster s) (hsettled : s.Settled) : s.Exact := by
  -- a live client has nothing to report, so its informer has what it holds
  have hlive : ∀ c ∈ s.clients, s.Live c → ∀ o : DataObject V, o ∈ c.holding ↔ c.informer.store[o.key]? = some o := by
    intro c hc hc' o
    have hok := h.client c hc
    have hstore := hok.store_eq ((hsettled c hc).2 hc')
    have hholding : c.holding = c.informer.store.toList.map Prod.snd := by
      rw [hstore]
      unfold AggregateClient.holding
      split
      next hphase => exact absurd hc' (hr.not_live hc (by unfold AggregateClient.stopping; rw [hphase]))
      next hphase => exact absurd hc' (hr.not_live hc (by unfold AggregateClient.stopping; rw [hphase]))
      next => rfl
    rw [hholding, mem_objects hok.inv.keyed]
  intro kind key o
  constructor
  · intro hthere
    obtain ⟨a, ha, rfl⟩ := Option.map_eq_some_iff.mp hthere
    obtain ⟨c, hc, hkind, o, ho, hplain⟩ := h.backed kind key a ha
    -- a client that has finished holds nothing
    have hc' : s.Live c := by
      by_contra hnot
      have hdone := (hsettled c hc).1 hnot
      unfold AggregateClient.holding at ho
      rw [hdone] at ho
      cases ho
    have hkey : o.key = key := (key_eq_of_plain hplain).trans (h.keyed kind key a ha)
    refine ⟨c, hc, hc', hkind, ?_⟩
    have hget := (hlive c hc hc' o).mp ho
    rw [hkey] at hget
    rw [hget, ← hplain]
    rfl
  · rintro ⟨c, hc, hc', rfl, hthere⟩
    obtain ⟨o', ho', rfl⟩ := Option.map_eq_some_iff.mp hthere
    have hkey : o'.key = key := (h.client c hc).inv.keyed key o' ho'
    subst hkey
    exact h.held c hc o' ((hlive c hc hc' o').mpr ho')

variable [Inhabited V]

/-- A step of an informer: the client is running, and what it reports is written. -/
theorem informerStep_cases {full : ℕ → Bool} {i : ℕ} {x : InformerInput V} (h : s.informerStep full i x = some s') :
    ∃ c notified informer, s.clients[i]? = some c ∧ c.phase = .running notified ∧ c.informer.next x = some informer ∧
      s' = (match (match x with | .distribute => c.informer.pending.head?.bind handle | _ => none) with
        | none => s
        | some e => s.process full c.kind e).setClient i { c with informer } := by
  unfold IxAggrStore.informerStep at h
  split at h
  next => cases h
  next c hi =>
    split at h
    next notified hphase =>
      split at h
      next => cases h
      next informer hnext =>
        obtain rfl := Option.some.inj h
        exact ⟨c, notified, informer, hi, hphase, hnext, rfl⟩
    next => cases h

theorem Roster.informerStep (h : Roster s) {full : ℕ → Bool} {i : ℕ} {x : InformerInput V}
    (hnext : s.informerStep full i x = some s') : Roster s' := by
  obtain ⟨c, notified, informer, hi, hphase, -, rfl⟩ := informerStep_cases hnext
  have hsame : ∀ {reported : Option (WatchEvent V)},
      Roster ((match reported with
        | none => s
        | some e => s.process full c.kind e).setClient i { c with informer }) := by
    intro reported
    rcases reported with _ | e
    · exact h.moved hi rfl rfl rfl rfl Or.inl
    · exact h.moved hi rfl rfl rfl rfl Or.inl
  exact hsame

/-- A list leaves the handlers alone. -/
theorem handlers_initList {x y : Informer V} {first : Bool} {objs : List (DataObject V)} {revision : ℤ}
    (h : x.next (.initList first objs revision) = some y) : y.handlers = x.handlers := by
  dsimp only [Informer.next] at h
  split at h
  next =>
    obtain rfl := Option.some.inj h
    unfold Informer.initList
    split
    next => rfl
    next => rfl
  next => cases h

/-- So does an event of a watch. -/
theorem handlers_watch {x y : Informer V} {e : WatchEvent V} (h : x.next (.watch e) = some y) :
    y.handlers = x.handlers := by
  dsimp only [Informer.next] at h
  split at h
  next =>
    unfold Informer.watch at h
    dsimp only at h
    split at h
    next =>
      obtain rfl := Option.some.inj h
      rfl
    next =>
      split at h
      next =>
        obtain rfl := Option.some.inj h
        rfl
      next =>
        obtain rfl := Option.some.inj h
        rfl
      next =>
        obtain rfl := Option.some.inj h
        rfl
      next => cases h
  next => cases h

/-- **One step keeps the stores in line with the clients.** -/
theorem Books.next (h : Books s) {a : Act V} (hok : ActOk s a) (hnext : s.next a = some s') : Books s' := by
  cases a with
  | added nodeName =>
    obtain rfl := Option.some.inj hnext
    unfold IxAggrStore.addIxAgent
    dsimp only
    split
    next => exact h.congr rfl rfl
    next => exact h.congr rfl rfl
  | deleted nodeName =>
    dsimp only [IxAggrStore.next] at hnext
    unfold IxAggrStore.removeIxAgent at hnext
    split at hnext
    next => cases hnext
    next =>
      obtain rfl := Option.some.inj hnext
      exact h.congr rfl rfl
  | agent id => exact h.agentStep hnext
  | client i full => exact h.clientStep hok hnext
  | list i first objs revision =>
    dsimp only [IxAggrStore.next] at hnext
    obtain ⟨c, notified, informer, hi, hphase, hstep, rfl⟩ := informerStep_cases hnext
    exact h.inform hi hphase (hok c hi) hstep (handlers_initList hstep)
  | watch i e =>
    dsimp only [IxAggrStore.next] at hnext
    obtain ⟨c, notified, informer, hi, hphase, hstep, rfl⟩ := informerStep_cases hnext
    exact h.inform hi hphase (hok c hi) hstep (handlers_watch hstep)
  | report i full =>
    obtain ⟨c, notified, informer, hi, hphase, hstep, rfl⟩ := informerStep_cases hnext
    dsimp only [Informer.next] at hstep
    split at hstep
    next => cases hstep
    next e rest hpending =>
      obtain rfl := Option.some.inj hstep
      have hfree := hok c hi
      rw [hpending] at hfree
      dsimp only
      rw [hpending]
      exact h.report hi hphase hpending hfree
  | abort i =>
    dsimp only [IxAggrStore.next] at hnext
    split at hnext
    next => cases hnext
    next c hi =>
      split at hnext
      next notified hphase =>
        split at hnext
        next =>
          obtain rfl := Option.some.inj hnext
          have hc := h.client c (List.mem_of_getElem? hi)
          refine h.keep hi ⟨hc.handler, hc.inv, fun rest hrest => by cases hrest⟩ rfl ?_
          unfold AggregateClient.holding
          rw [hphase]
        next => cases hnext
      next => cases hnext

theorem Roster.next (h : Roster s) {a : Act V} (hnext : s.next a = some s') : Roster s' := by
  cases a with
  | added nodeName =>
    obtain rfl := Option.some.inj hnext
    exact h.added nodeName
  | deleted nodeName => exact h.deleted hnext
  | agent id => exact h.agentStep hnext
  | client i full => exact h.clientStep hnext
  | list i first objs revision =>
    dsimp only [IxAggrStore.next] at hnext
    exact h.informerStep hnext
  | watch i e =>
    dsimp only [IxAggrStore.next] at hnext
    exact h.informerStep hnext
  | report i full => exact h.informerStep hnext
  | abort i =>
    dsimp only [IxAggrStore.next] at hnext
    split at hnext
    next => cases hnext
    next c hi =>
      split at hnext
      next =>
        split at hnext
        next hclosed =>
          obtain rfl := Option.some.inj hnext
          obtain ⟨a, ha, hclosed⟩ := (Option.any_eq_true _ _).mp hclosed
          exact h.moved hi rfl rfl rfl rfl fun _ => Or.inr ⟨a, ha, hclosed⟩
        next => cases hnext
      next => cases hnext

/-- Nothing has happened. -/
structure IxAggrStore.Start (s : IxAggrStore V) : Prop where
  /-- no node has an agent -/
  names : s.names = ∅
  /-- there has been no agent -/
  agents : s.agents = []
  /-- there has been no client -/
  clients : s.clients = []
  /-- the stores are empty -/
  stores : ∀ kind, (s.stores kind).cacheStore = ∅

/-- **The stores hold the objects of the live agents.** In every run in which what is
reported is newer than what the store has and no two agents have objects under one key,
in which the informers report what they have, and in which they have reported all of it
when their agent is closed, the stores hold the objects of the live agents when the
closed ones have finished. -/
theorem stores_exact_of_reach (h : Reach IxAggrStore.next IxAggrStore.Start ActOk s) (hsettled : s.Settled) : s.Exact := by
  have hinv : Books s ∧ Roster s := by
    refine h.invariant (I := fun s => Books s ∧ Roster s) (fun s hs => ?_) fun s a s' hs hok hnext => ?_
    · refine ⟨⟨?_, fun kind => ?_, ?_, fun kind k a ha => ?_, ?_⟩, ⟨fun name id hname => ?_, ?_, ?_⟩⟩
      · simp [hs.clients]
      · rw [hs.stores kind]
        exact Keyed.empty
      · simp [hs.clients]
      · rw [hs.stores kind, Std.ExtTreeMap.getElem?_empty] at ha
        cases ha
      · simp [hs.clients]
      · rw [hs.names, Std.ExtTreeMap.getElem?_empty] at hname
        cases hname
      · simp [hs.agents]
      · simp [hs.clients]
    · exact ⟨hs.1.next hok hnext, hs.2.next hnext⟩
  exact exact_of_books hinv.1 hinv.2 hsettled

end Runs

namespace Sample

open Metastore.Sample (obj)

/-- No watch is full. -/
def free : ℕ → Bool := fun _ => false

/-- A node comes, and its pods are listed. -/
def listing : List (Act ℤ) :=
  [.added "n", .agent 0, .client 1 free, .list 1 true [obj "a" 5 1] 5, .report 1 free, .report 1 free]

/-- The node has been started again and its revisions with it. Its pods are listed by a
new agent, and the old one is cleaned up. -/
def restarted : List (Act ℤ) :=
  listing ++ [.agent 0, .client 0 free, .client 2 free, .added "n", .agent 1, .client 4 free,
    .list 4 true [obj "a" 1 2] 1, .report 4 free, .report 4 free, .agent 0, .client 0 free, .client 0 free,
    .client 2 free, .client 2 free, .client 1 free, .client 1 free, .client 1 free]

/-- The state after some steps. -/
def after (l : List (Act ℤ)) : IxAggrStore ℤ := (exec IxAggrStore.next (fun _ _ => True) {} l).getD {}

theorem start_empty : IxAggrStore.Start ({} : IxAggrStore ℤ) := ⟨rfl, rfl, rfl, fun _ => rfl⟩

/-- The first list goes through. -/
theorem reach_listing : Reach IxAggrStore.next IxAggrStore.Start ActOk (after listing) := by
  refine .step (c := .report 1 free) (.step (c := .report 1 free) (.step (c := .list 1 true [obj "a" 5 1] 5)
    (.step (c := .client 1 free) (.step (c := .agent 0) (.step (c := .added "n") (.init start_empty) trivial rfl)
      trivial rfl) ?_ rfl) ?_ rfl) ?_ rfl) ?_ rfl
  · have hok : ∀ c ∈ (after (listing.take 2)).clients[1]?, c.phase = .running true → c.informer.pending = [] := by
      decide +kernel
    exact hok
  · intro c hc
    have hall : ∀ c ∈ (after (listing.take 3)).clients[1]?, (∀ k ∈ c.informer.handlers, k.replay.isSome = false) ∧
        ∀ new ∈ storeOfList [obj "a" 5 1], ((changes true c.informer.store new).map DeltaEvent.epochRevision).Nodup := by
      decide +kernel
    have hstore : ∀ c ∈ (after (listing.take 3)).clients[1]?, c.informer.store.toList = [] := by
      decide +kernel
    obtain ⟨hhandlers, hdistinct⟩ := hall c hc
    refine ⟨?_, fun new hnew => ⟨fun k o ho => ?_, hdistinct new hnew⟩⟩
    · rintro ⟨k, hk, hreplay⟩
      rw [hhandlers k hk] at hreplay
      cases hreplay
    · have hmem := BTreeMap.mem_toList.mpr ho
      rw [hstore c hc] at hmem
      cases hmem
  · have hok : ∀ c ∈ (after (listing.take 4)).clients[1]?, ∀ e ∈ c.informer.pending.head?.bind handle,
        ((after (listing.take 4)).stores c.kind).stale e = false ∧
          ∀ c' ∈ (after (listing.take 4)).clients.eraseIdx 1, c'.kind = c.kind → ∀ o ∈ c'.holding, o.key ≠ e.obj.key := by
      decide +kernel
    exact hok
  · have hok : ∀ c ∈ (after (listing.take 5)).clients[1]?, ∀ e ∈ c.informer.pending.head?.bind handle,
        ((after (listing.take 5)).stores c.kind).stale e = false ∧
          ∀ c' ∈ (after (listing.take 5)).clients.eraseIdx 1, c'.kind = c.kind → ∀ o ∈ c'.holding, o.key ≠ e.obj.key := by
      decide +kernel
    exact hok

end Sample

/-- The pods of a node that comes are in the store. -/
theorem exact_after_listing : ((Sample.after Sample.listing).stores .pod).cacheStore["t/n/a"]?.isSome = true ∧
    (Sample.after Sample.listing).Exact := by
  refine ⟨by decide +kernel, stores_exact_of_reach Sample.reach_listing fun c hc => ?_⟩
  have hname : (Sample.after Sample.listing).names["n"]? = some 0 := by
    decide +kernel
  have hall : ∀ c ∈ (Sample.after Sample.listing).clients, c.agent = 0 ∧ c.informer.pending = [] := by
    decide +kernel
  refine ⟨fun hnot => absurd ⟨"n", ?_⟩ hnot, fun _ => (hall c hc).2⟩
  rw [(hall c hc).1]
  exact hname

/-- The old agent takes away what the new one has, and the new one's pod is lost. -/
theorem restarted_pod_lost : ¬ ∀ s : IxAggrStore ℤ,
    Reach IxAggrStore.next IxAggrStore.Start (fun _ _ => True) s → s.Settled → s.Exact := by
  intro h
  have hsome : (exec IxAggrStore.next (fun _ _ => True) {} Sample.restarted).isSome = true := by
    decide +kernel
  obtain ⟨s, hs⟩ := Option.isSome_iff_exists.mp hsome
  have heq : Sample.after Sample.restarted = s := by
    unfold Sample.after
    rw [hs, Option.getD_some]
  have hreach := Reach.of_exec _ _ (.init Sample.start_empty) hs
  rw [← heq] at hreach
  have hname : (Sample.after Sample.restarted).names["n"]? = some 1 := by
    decide +kernel
  have hdone : ∀ c ∈ (Sample.after Sample.restarted).clients,
      (c.agent ≠ 1 → c.phase = .finished) ∧ c.informer.pending = [] := by
    decide +kernel
  have hsettled : (Sample.after Sample.restarted).Settled := by
    refine fun c hc => ⟨fun hnot => (hdone c hc).1 fun hagent => hnot ⟨"n", ?_⟩, fun _ => (hdone c hc).2⟩
    rw [hagent]
    exact hname
  have hpod : ∃ c ∈ (Sample.after Sample.restarted).clients, c.agent = 1 ∧ c.kind = .pod ∧
      c.informer.store["t/n/a"]?.isSome = true := by
    decide +kernel
  obtain ⟨c, hc, hagent, hkind, hstore⟩ := hpod
  obtain ⟨o, ho⟩ := Option.isSome_iff_exists.mp hstore
  have hthere := (h _ hreach hsettled .pod "t/n/a" (plain o)).mpr
    ⟨c, hc, ⟨"n", by rw [hagent]; exact hname⟩, hkind, by rw [ho]; rfl⟩
  have hgone : ((Sample.after Sample.restarted).stores .pod).cacheStore["t/n/a"]? = none := by
    decide +kernel
  rw [hgone] at hthere
  cases hthere

end Inferx.Aggregate
