import Mathlib.Logic.Function.Basic
import Mathlib.Tactic.Common

/-!
# The shape of a skill trace

A traced skill call sends its own start and finish, and between them the traces of its
children: of each child a start, what the child's own stream has of calls below it, with
the child put in the place of its root, and a finish. Where a child's stream is cut, the
calls that are open at the cut are closed first. They are kept in a hash map and closed
in its order, so a call may be closed before the calls below it.
-/

namespace Inferx.Skill

/-- The types of trace events. -/
inductive EventType where
  | callStart | callFinish | subcallStart | subcallFinish | heartbeat
  deriving DecidableEq, Repr

/-- A trace event: what its place in the trace goes by. -/
structure TraceEvent where
  eventType : EventType
  callId : String
  parentCallId : Option String
  depth : ℕ
  skill : String
  deriving DecidableEq, Repr

structure ForwardedChildTraceNode where
  callId : String
  parentCallId : Option String
  depth : ℕ
  skill : String
  deriving DecidableEq, Repr

/-! ## Forwarding -/

/-- `forward_child_trace_event`: the child's own root, and the event that is sent. -/
def forwardChildTraceEvent (root child : String) (directChildDepth : ℕ) (localRoot : Option String)
    (event : TraceEvent) : Option String × Option TraceEvent :=
  if event.depth = 1 ∧ event.eventType = .callStart then (some event.callId, none)
  else if event.depth = 1 ∧ event.eventType = .callFinish then (localRoot, none)
  else
    (localRoot, some {
      eventType :=
        match event.eventType with
        | .callStart => .subcallStart
        | .callFinish => .subcallFinish
        | other => other
      callId := if localRoot = some event.callId then child else event.callId
      parentCallId :=
        if event.depth ≤ 1 then some root
        else if event.parentCallId = localRoot then some child
        else event.parentCallId
      depth := directChildDepth + (event.depth - 1)
      skill := event.skill })

/-- The node of an event that is sent. -/
def TraceEvent.node (event : TraceEvent) : ForwardedChildTraceNode :=
  ⟨event.callId, event.parentCallId, event.depth, event.skill⟩

/-- `update_open_descendants`; the map is the list of its nodes, one for each call. -/
def updateOpenDescendants (openDescendants : List ForwardedChildTraceNode) (directChildDepth : ℕ)
    (event : TraceEvent) : List ForwardedChildTraceNode :=
  if event.depth ≤ directChildDepth then openDescendants
  else
    match event.eventType with
    | .subcallStart => event.node :: openDescendants.filter fun n => n.callId ≠ event.callId
    | .subcallFinish => openDescendants.filter fun n => n.callId ≠ event.callId
    | _ => openDescendants

/-- What a child's stream has brought so far. -/
structure ChildStream where
  localRoot : Option String := none
  sent : List TraceEvent := []
  openDescendants : List ForwardedChildTraceNode := []

/-- An event of a child's stream. -/
def ChildStream.push (root child : String) (st : ChildStream) (event : TraceEvent) : ChildStream :=
  match forwardChildTraceEvent root child 2 st.localRoot event with
  | (localRoot, none) => { st with localRoot }
  | (localRoot, some event) =>
    { localRoot
      sent := st.sent ++ [event]
      openDescendants := updateOpenDescendants st.openDescendants 2 event }

/-- The events of a child's stream, up to where it ends or is cut. -/
def readEvents (root child : String) (received : List TraceEvent) : ChildStream :=
  received.foldl (ChildStream.push root child) {}

/-! ## The trace of a call -/

/-- A child: what is received of its stream, which is nothing where there is none (a mocked call, an
error status or no answer), and the order in which the map gives the calls that are left open. -/
structure ChildCall where
  callId : String
  skill : String
  received : List TraceEvent := []
  order : List ForwardedChildTraceNode := []

/-- The event that closes a call that is left open. -/
def closeEvent (n : ForwardedChildTraceNode) : TraceEvent :=
  ⟨.subcallFinish, n.callId, n.parentCallId, n.depth, n.skill⟩

def ChildCall.start (root : String) (c : ChildCall) : TraceEvent :=
  ⟨.subcallStart, c.callId, some root, 2, c.skill⟩

def ChildCall.finish (root : String) (c : ChildCall) : TraceEvent :=
  ⟨.subcallFinish, c.callId, some root, 2, c.skill⟩

/-- The events that `execute_parallel_child_call` sends, without heartbeats. -/
def ChildCall.events (root : String) (c : ChildCall) : List TraceEvent :=
  c.start root :: (readEvents root c.callId c.received).sent ++ c.order.map closeEvent ++ [c.finish root]

/-- One of the tasks that send at the same time: a child, or the heartbeats. -/
inductive Task where
  | idle
  | heartbeats (events : List TraceEvent)
  | child (c : ChildCall)

def Task.events (root : String) : Task → List TraceEvent
  | .idle => []
  | .heartbeats events => events
  | .child c => c.events root

/-- What some tasks send, in an order in which each sends its own. -/
inductive Interleave : (ℕ → List TraceEvent) → List TraceEvent → Prop where
  | done {f} : (∀ i, f i = []) → Interleave f []
  | next {f i e l L} : f i = e :: l → Interleave (Function.update f i l) L → Interleave f (e :: L)

/-- What the client is sent. -/
inductive Sent where
  | event (e : TraceEvent)
  | skillResult
  | done
  deriving DecidableEq, Repr

def rootStart (root skill : String) : TraceEvent := ⟨.callStart, root, none, 1, skill⟩

def rootFinish (root skill : String) : TraceEvent := ⟨.callFinish, root, none, 1, skill⟩

/-- `handle_skill_call_chain` with a trace: the events of the tasks, and whether the call passes. -/
def traceSent (root skill : String) (events : List TraceEvent) (pass : Bool) : List Sent :=
  (rootStart root skill :: events ++ [rootFinish root skill]).map .event
    ++ (if pass then [.skillResult] else []) ++ [.done]

/-! ## Well-formed traces -/

def Started (h : List TraceEvent) (x : String) : Prop :=
  ∃ s ∈ h, (s.eventType = .callStart ∨ s.eventType = .subcallStart) ∧ s.callId = x

def Finished (h : List TraceEvent) (x : String) : Prop :=
  ∃ f ∈ h, f.eventType = .subcallFinish ∧ f.callId = x

/-- The event may come after `h`: a subcall starts below a call that has started and not finished,
and finishes once, after its own subcalls. -/
def MayFollow (h : List TraceEvent) (e : TraceEvent) : Prop :=
  match e.eventType with
  | .subcallStart =>
    (∃ p, e.parentCallId = some p ∧ Started h p ∧ ¬ Finished h p) ∧ ¬ Started h e.callId ∧ 2 ≤ e.depth
  | .subcallFinish =>
    (∃ s ∈ h, s.eventType = .subcallStart ∧ s.callId = e.callId) ∧ ¬ Finished h e.callId ∧
      (∀ s ∈ h, s.eventType = .subcallStart → s.parentCallId = some e.callId →
        Finished h s.callId) ∧ 2 ≤ e.depth
  | .heartbeat => True
  | .callStart | .callFinish => False

/-- Each event may come after the ones before it. -/
def ValidFrom (h : List TraceEvent) : List TraceEvent → Prop
  | [] => True
  | e :: L => MayFollow h e ∧ ValidFrom (h ++ [e]) L

/-- Every subcall that has started has finished. -/
def Complete (L : List TraceEvent) : Prop :=
  ∀ s ∈ L, s.eventType = .subcallStart → Finished L s.callId

/-- **A well-formed trace.** -/
def WellFormed (root : String) (sent : List Sent) : Prop :=
  ∃ skill events pass, sent = traceSent root skill events pass ∧
    ValidFrom [rootStart root skill] events ∧ Complete events

/-! ## Events of tasks -/

section Interleaving

variable {root skill : String}

/-- A start or finish of a subcall. -/
def TraceEvent.IsSub (e : TraceEvent) : Prop := e.eventType = .subcallStart ∨ e.eventType = .subcallFinish

/-- Calls that start are below the root or below a call of the same task. -/
structure Closed (root : String) (d : List TraceEvent) : Prop where
  noRoot : ∀ e ∈ d, e.eventType ≠ .callStart
  parent : ∀ s ∈ d, s.eventType = .subcallStart →
    s.parentCallId = some root ∨ ∃ p ∈ d, p.IsSub ∧ s.parentCallId = some p.callId

theorem Closed.snoc {d : List TraceEvent} {e : TraceEvent} (h : Closed root d)
    (hok : MayFollow (rootStart root skill :: d) e) : Closed root (d ++ [e]) := by
  constructor
  · intro x hx
    rcases List.mem_append.mp hx with hx | hx
    · exact h.noRoot x hx
    · obtain rfl := List.mem_singleton.mp hx
      intro heq
      unfold MayFollow at hok
      rw [heq] at hok
      exact hok
  · intro s hs hstart
    rcases List.mem_append.mp hs with hs | hs
    · exact (h.parent s hs hstart).imp_right fun ⟨p, hp, hsub⟩ => ⟨p, List.mem_append_left _ hp, hsub⟩
    · obtain rfl := List.mem_singleton.mp hs
      unfold MayFollow at hok
      rw [hstart] at hok
      obtain ⟨⟨p, hparent, ⟨q, hq, htype, rfl⟩, -⟩, -⟩ := hok
      rcases List.mem_cons.mp hq with rfl | hq
      · exact .inl hparent
      · rcases htype with htype | htype
        · exact absurd htype (h.noRoot q hq)
        · exact .inr ⟨q, List.mem_append_left _ hq, .inl htype, hparent⟩

/-- **Other tasks do not matter**: what may follow the events of its own task may follow all
events, where the others are about other calls. -/
theorem MayFollow.of_task {h d : List TraceEvent} {e : TraceEvent}
    (hok : MayFollow (rootStart root skill :: d) e) (hclosed : Closed root d)
    (hown : ∀ x ∈ rootStart root skill :: d, x ∈ h)
    (hother : ∀ x ∈ h, x ∈ rootStart root skill :: d ∨
      x.eventType ≠ .callStart ∧
        (x.IsSub → x.callId ≠ root ∧ ∀ y ∈ d ++ [e], y.IsSub → x.callId ≠ y.callId) ∧
        (x.eventType = .subcallStart → ∀ y ∈ d ++ [e], y.IsSub → x.parentCallId ≠ some y.callId)) :
    MayFollow h e := by
  have hfinished : ∀ x, (x = root ∨ ∃ y ∈ d ++ [e], y.IsSub ∧ x = y.callId) → Finished h x →
      Finished (rootStart root skill :: d) x := by
    rintro x hx ⟨f, hf, htype, rfl⟩
    rcases hother f hf with hf | ⟨-, hids, -⟩
    · exact ⟨f, hf, htype, rfl⟩
    · obtain ⟨hroot, hne⟩ := hids (.inr htype)
      rcases hx with hx | ⟨y, hy, hsub, hx⟩
      · exact absurd hx hroot
      · exact absurd hx (hne y hy hsub)
  have hmono : ∀ {x}, Finished (rootStart root skill :: d) x → Finished h x :=
    fun ⟨f, hf, htype⟩ => ⟨f, hown f hf, htype⟩
  have hself : e ∈ d ++ [e] := List.mem_append_right d List.mem_cons_self
  unfold MayFollow at hok ⊢
  rcases htype : e.eventType with _ | _ | _ | _ | _
  · rw [htype] at hok
    exact hok
  · rw [htype] at hok
    exact hok
  · rw [htype] at hok
    obtain ⟨⟨p, hparent, hstarted, hlive⟩, hnew, hdepth⟩ := hok
    refine ⟨⟨p, hparent, ?_, fun hfin => hlive (hfinished p ?_ hfin)⟩, ?_, hdepth⟩
    · obtain ⟨s, hs, hstart⟩ := hstarted
      exact ⟨s, hown s hs, hstart⟩
    · obtain ⟨s, hs, hstart, rfl⟩ := hstarted
      rcases List.mem_cons.mp hs with rfl | hs
      · exact .inl rfl
      · exact .inr ⟨s, List.mem_append_left _ hs,
          .inl (hstart.resolve_left (hclosed.noRoot s hs)), rfl⟩
    · rintro ⟨s, hs, hstart, hid⟩
      rcases hother s hs with hs | ⟨hnoroot, hids, -⟩
      · exact hnew ⟨s, hs, hstart, hid⟩
      · exact (hids (.inl (hstart.resolve_left hnoroot))).2 e hself (.inl htype) hid
  · rw [htype] at hok
    obtain ⟨⟨s, hs, hstart⟩, hlive, hsubs, hdepth⟩ := hok
    refine ⟨⟨s, hown s hs, hstart⟩, fun hfin => hlive (hfinished _ ?_ hfin), ?_, hdepth⟩
    · exact .inr ⟨e, hself, .inr htype, rfl⟩
    · intro s hs hstart hparent
      rcases hother s hs with hs | ⟨-, -, hparents⟩
      · exact hmono (hsubs s hs hstart hparent)
      · exact absurd hparent (hparents hstart e hself (.inr htype))
  · trivial

/-- Tasks that have sent `d` and are going to send `f`. -/
structure Going (root skill : String) (d f : ℕ → List TraceEvent) (h : List TraceEvent) : Prop where
  history : ∀ e, e ∈ h ↔ e = rootStart root skill ∨ ∃ i, e ∈ d i
  closed : ∀ i, Closed root (d i)
  valid : ∀ i, ValidFrom (rootStart root skill :: d i) (f i)
  notRoot : ∀ i, ∀ e ∈ d i ++ f i, e.IsSub → e.callId ≠ root
  distinct : ∀ i j, i ≠ j → ∀ e ∈ d i ++ f i, ∀ e' ∈ d j ++ f j, e.IsSub → e'.IsSub →
    e.callId ≠ e'.callId

theorem Going.step {d f : ℕ → List TraceEvent} {h l : List TraceEvent} {i : ℕ} {e : TraceEvent}
    (hg : Going root skill d f h) (hi : f i = e :: l) : MayFollow h e ∧
      Going root skill (Function.update d i (d i ++ [e])) (Function.update f i l) (h ++ [e]) := by
  have hvalid := hg.valid i
  rw [hi] at hvalid
  have hsub : ∀ x ∈ d i ++ [e], x ∈ d i ++ f i := by
    intro x hx
    rw [hi]
    rcases List.mem_append.mp hx with hx | hx
    · exact List.mem_append_left _ hx
    · exact List.mem_append_right _ (List.mem_singleton.mp hx ▸ List.mem_cons_self)
  -- what the tasks have and will send stays the same
  have hall : ∀ j, Function.update d i (d i ++ [e]) j ++ Function.update f i l j = d j ++ f j := by
    intro j
    by_cases hj : j = i
    · subst hj
      rw [Function.update_self, Function.update_self, hi, List.append_assoc, List.singleton_append]
    · rw [Function.update_of_ne hj, Function.update_of_ne hj]
  constructor
  · refine hvalid.1.of_task (hg.closed i) (fun x hx => ?_) fun x hx => ?_
    · rcases List.mem_cons.mp hx with rfl | hx
      · exact (hg.history _).mpr (.inl rfl)
      · exact (hg.history _).mpr (.inr ⟨i, hx⟩)
    · rcases (hg.history x).mp hx with rfl | ⟨j, hj⟩
      · exact .inl List.mem_cons_self
      · by_cases hij : j = i
        · exact .inl (List.mem_cons_of_mem _ (hij ▸ hj))
        · have hxj : x ∈ d j ++ f j := List.mem_append_left _ hj
          refine .inr ⟨(hg.closed j).noRoot x hj, fun hx => ⟨hg.notRoot j x hxj hx, fun y hy hysub =>
            hg.distinct j i hij x hxj y (hsub y hy) hx hysub⟩, fun hstart y hy hysub hparent => ?_⟩
          rcases (hg.closed j).parent x hj hstart with hp | ⟨p, hp, hpsub, hpid⟩
          · have hid : root = y.callId := Option.some.inj (hp.symm.trans hparent)
            exact hg.notRoot i y (hsub y hy) hysub hid.symm
          · have hid : p.callId = y.callId := Option.some.inj (hpid.symm.trans hparent)
            exact hg.distinct j i hij p (List.mem_append_left _ hp) y (hsub y hy) hpsub hysub hid
  · refine ⟨fun x => ?_, fun j => ?_, fun j => ?_, fun j x hx => ?_, fun j k hjk x hx y hy => ?_⟩
    · rw [List.mem_append, hg.history, List.mem_singleton]
      constructor
      · rintro ((rfl | ⟨j, hj⟩) | rfl)
        · exact .inl rfl
        · refine .inr ⟨j, ?_⟩
          by_cases hji : j = i
          · subst hji
            rw [Function.update_self]
            exact List.mem_append_left _ hj
          · rw [Function.update_of_ne hji]
            exact hj
        · refine .inr ⟨i, ?_⟩
          rw [Function.update_self]
          exact List.mem_append_right _ List.mem_cons_self
      · rintro (rfl | ⟨j, hj⟩)
        · exact .inl (.inl rfl)
        · by_cases hji : j = i
          · subst hji
            rw [Function.update_self] at hj
            rcases List.mem_append.mp hj with hj | hj
            · exact .inl (.inr ⟨j, hj⟩)
            · exact .inr (List.mem_singleton.mp hj)
          · rw [Function.update_of_ne hji] at hj
            exact .inl (.inr ⟨j, hj⟩)
    · by_cases hji : j = i
      · subst hji
        rw [Function.update_self]
        exact (hg.closed j).snoc hvalid.1
      · rw [Function.update_of_ne hji]
        exact hg.closed j
    · by_cases hji : j = i
      · subst hji
        rw [Function.update_self, Function.update_self]
        exact hvalid.2
      · rw [Function.update_of_ne hji, Function.update_of_ne hji]
        exact hg.valid j
    · rw [hall] at hx
      exact hg.notRoot j x hx
    · rw [hall] at hx hy
      exact hg.distinct j k hjk x hx y hy

theorem Going.validFrom {d f : ℕ → List TraceEvent} {h L : List TraceEvent}
    (hL : Interleave f L) (hg : Going root skill d f h) : ValidFrom h L := by
  induction hL generalizing d h with
  | done => trivial
  | next hi _ ih =>
    obtain ⟨hmay, hg'⟩ := hg.step hi
    exact ⟨hmay, ih hg'⟩

theorem Interleave.mem {f : ℕ → List TraceEvent} {L : List TraceEvent} (hL : Interleave f L)
    (e : TraceEvent) : e ∈ L ↔ ∃ i, e ∈ f i := by
  induction hL with
  | done hf =>
    refine iff_of_false List.not_mem_nil ?_
    rintro ⟨i, hi⟩
    rw [hf i] at hi
    cases hi
  | @next f i e' l L hi _ ih =>
    rw [List.mem_cons, ih]
    constructor
    · rintro (rfl | ⟨j, hj⟩)
      · exact ⟨i, hi ▸ List.mem_cons_self⟩
      · by_cases hji : j = i
        · subst hji
          rw [Function.update_self] at hj
          exact ⟨j, hi ▸ List.mem_cons_of_mem _ hj⟩
        · rw [Function.update_of_ne hji] at hj
          exact ⟨j, hj⟩
    · rintro ⟨j, hj⟩
      by_cases hji : j = i
      · subst hji
        rw [hi] at hj
        rcases List.mem_cons.mp hj with rfl | hj
        · exact .inl rfl
        · exact .inr ⟨j, by rwa [Function.update_self]⟩
      · exact .inr ⟨j, by rwa [Function.update_of_ne hji]⟩

/-- **Tasks that send at the same time**: where what each sends is well formed by itself, all of it
is, in any order. -/
theorem interleave_valid {f : ℕ → List TraceEvent} {L : List TraceEvent} (hL : Interleave f L)
    (hvalid : ∀ i, ValidFrom [rootStart root skill] (f i)) (hcomplete : ∀ i, Complete (f i))
    (hroot : ∀ i, ∀ e ∈ f i, e.IsSub → e.callId ≠ root)
    (hdistinct : ∀ i j, i ≠ j → ∀ e ∈ f i, ∀ e' ∈ f j, e.IsSub → e'.IsSub → e.callId ≠ e'.callId) :
    ValidFrom [rootStart root skill] L ∧ Complete L := by
  constructor
  · refine Going.validFrom (d := fun _ => []) hL ⟨fun e => ?_, fun i => ?_, hvalid, hroot, hdistinct⟩
    · rw [List.mem_singleton]
      exact ⟨.inl, fun h => h.elim id fun ⟨i, hi⟩ => absurd hi List.not_mem_nil⟩
    · exact ⟨fun e he => absurd he List.not_mem_nil, fun s hs => absurd hs List.not_mem_nil⟩
  · intro s hs hstart
    obtain ⟨i, hi⟩ := (hL.mem s).mp hs
    obtain ⟨t, ht, htype⟩ := hcomplete i s hi hstart
    exact ⟨t, (hL.mem t).mpr ⟨i, ht⟩, htype⟩

end Interleaving

end Inferx.Skill
