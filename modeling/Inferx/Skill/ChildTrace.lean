import Mathlib.Data.List.Induction
import Mathlib.Data.List.Perm.Basic
import Inferx.Skill.TraceShape

/-!
# The part of a child in a trace

What a child's stream brings below the child is as well formed as the stream. If the
stream is cut, the calls that are left open are closed, which is well formed as long as
none of them is below another one.
-/

namespace Inferx.Skill

/-! ## Valid events -/

theorem validFrom_append {h L L' : List TraceEvent} :
    ValidFrom h (L ++ L') ↔ ValidFrom h L ∧ ValidFrom (h ++ L) L' := by
  induction L generalizing h with
  | nil => simp [ValidFrom]
  | cons e L ih =>
    rw [List.cons_append, ValidFrom, ValidFrom, ih, and_assoc, List.append_assoc,
      List.singleton_append]

theorem ValidFrom.of_prefix {h L L' : List TraceEvent} (hL : ValidFrom h L) (hpre : L' <+: L) :
    ValidFrom h L' := by
  obtain ⟨rest, rfl⟩ := hpre
  exact (validFrom_append.mp hL).1

/-- An event of a stream below its root. -/
theorem MayFollow.inner {h : List TraceEvent} {e : TraceEvent} (hok : MayFollow h e) :
    e.eventType ≠ .callStart ∧ e.eventType ≠ .callFinish ∧ (e.IsSub → 2 ≤ e.depth) := by
  unfold MayFollow at hok
  refine ⟨fun heq => ?_, fun heq => ?_, ?_⟩
  · rw [heq] at hok
    exact hok
  · rw [heq] at hok
    exact hok
  · rintro (heq | heq)
    · rw [heq] at hok
      exact hok.2.2
    · rw [heq] at hok
      exact hok.2.2.2

theorem ValidFrom.inner {h L : List TraceEvent} (hL : ValidFrom h L) : ∀ e ∈ L,
    e.eventType ≠ .callStart ∧ e.eventType ≠ .callFinish ∧ (e.IsSub → 2 ≤ e.depth) := by
  induction L generalizing h with
  | nil => exact fun e he => absurd he List.not_mem_nil
  | cons e L ih =>
    intro x hx
    rcases List.mem_cons.mp hx with rfl | hx
    · exact hL.1.inner
    · exact ih hL.2 x hx

/-- The calls of valid events are new, and finish only if they have started. -/
theorem ValidFrom.ids {h L : List TraceEvent} (hL : ValidFrom h L) : ∀ e ∈ L,
    (e.eventType = .subcallStart → ¬ Started h e.callId) ∧
      (e.eventType = .subcallFinish → ∃ s ∈ h ++ L, s.eventType = .subcallStart ∧ s.callId = e.callId) := by
  induction L generalizing h with
  | nil => exact fun e he => absurd he List.not_mem_nil
  | cons e L ih =>
    intro x hx
    rcases List.mem_cons.mp hx with rfl | hx
    · have hok := hL.1
      unfold MayFollow at hok
      constructor
      · intro heq
        rw [heq] at hok
        exact hok.2.1
      · intro heq
        rw [heq] at hok
        obtain ⟨s, hs, hstart⟩ := hok.1
        exact ⟨s, List.mem_append_left _ hs, hstart⟩
    · obtain ⟨hnew, hfin⟩ := ih hL.2 x hx
      refine ⟨fun heq hstarted => hnew heq ?_, fun heq => ?_⟩
      · obtain ⟨s, hs, hstart⟩ := hstarted
        exact ⟨s, List.mem_append_left _ hs, hstart⟩
      · obtain ⟨s, hs, hstart⟩ := hfin heq
        refine ⟨s, ?_, hstart⟩
        rw [List.append_assoc, List.singleton_append] at hs
        exact hs

/-! ## Putting the child in the place of its root -/

/-- An event of a child's stream as it is sent, where `r` is the root of the stream. -/
def TraceEvent.below (root child r : String) (e : TraceEvent) : TraceEvent where
  eventType := e.eventType
  callId := if some r = some e.callId then child else e.callId
  parentCallId :=
    if e.depth ≤ 1 then some root else if e.parentCallId = some r then some child else e.parentCallId
  depth := 2 + (e.depth - 1)
  skill := e.skill

/-- The calls that are open after some events. -/
def openOf (events : List TraceEvent) : List ForwardedChildTraceNode :=
  events.foldl (fun l e => updateOpenDescendants l 2 e) []

theorem push_inner {root child r : String} {st : ChildStream} (hst : st.localRoot = some r)
    {e : TraceEvent} (hstart : e.eventType ≠ .callStart) (hfinish : e.eventType ≠ .callFinish) :
    st.push root child e =
      { localRoot := some r
        sent := st.sent ++ [e.below root child r]
        openDescendants := updateOpenDescendants st.openDescendants 2 (e.below root child r) } := by
  have hforward : forwardChildTraceEvent root child 2 st.localRoot e
      = (some r, some (e.below root child r)) := by
    unfold forwardChildTraceEvent TraceEvent.below
    rw [if_neg fun h => hstart h.2, if_neg fun h => hfinish h.2, hst]
    rcases htype : e.eventType with _ | _ | _ | _ | _
    · exact absurd htype hstart
    · exact absurd htype hfinish
    · rfl
    · rfl
    · rfl
  unfold ChildStream.push
  rw [hforward]

theorem foldl_push {root child r : String} {m : List TraceEvent}
    (hm : ∀ e ∈ m, e.eventType ≠ .callStart ∧ e.eventType ≠ .callFinish) {st : ChildStream}
    (hst : st.localRoot = some r) :
    m.foldl (ChildStream.push root child) st =
      { localRoot := some r
        sent := st.sent ++ m.map (TraceEvent.below root child r)
        openDescendants := (m.map (TraceEvent.below root child r)).foldl
          (fun l e => updateOpenDescendants l 2 e) st.openDescendants } := by
  induction m generalizing st with
  | nil =>
    rw [List.map_nil, List.append_nil, ← hst]
    rfl
  | cons e m ih =>
    obtain ⟨hstart, hfinish⟩ := hm e List.mem_cons_self
    rw [List.foldl_cons, push_inner hst hstart hfinish,
      ih (fun x hx => hm x (List.mem_cons_of_mem e hx)) rfl, List.map_cons, List.foldl_cons,
      List.append_assoc, List.singleton_append]

/-- What is read of a stream that is cut anywhere. -/
theorem readEvents_cut (root child : String) {r skill : String} {mid received : List TraceEvent}
    (hmid : ValidFrom [rootStart r skill] mid)
    (hpre : received <+: rootStart r skill :: mid ++ [rootFinish r skill]) :
    ∃ m, m <+: mid ∧ (∀ e, e ∈ m ↔ e ∈ received ∧ e.eventType ≠ .callStart ∧ e.eventType ≠ .callFinish) ∧
      (readEvents root child received).sent = m.map (TraceEvent.below root child r) ∧
      (readEvents root child received).openDescendants = openOf (m.map (TraceEvent.below root child r)) := by
  have hinner := hmid.inner
  rcases received with _ | ⟨e, received⟩
  · exact ⟨[], List.nil_prefix, fun e => by simp, rfl, rfl⟩
  · rw [List.cons_append, List.cons_prefix_cons] at hpre
    obtain ⟨rfl, hpre⟩ := hpre
    have hread : ∀ {m}, m <+: mid → (m.foldl (ChildStream.push root child)
        ((ChildStream.push root child) {} (rootStart r skill))) =
        { localRoot := some r
          sent := m.map (TraceEvent.below root child r)
          openDescendants := openOf (m.map (TraceEvent.below root child r)) } := by
      intro m hm
      have hm' : ∀ e ∈ m, e.eventType ≠ .callStart ∧ e.eventType ≠ .callFinish :=
        fun e he => ⟨(hinner e (hm.subset he)).1, (hinner e (hm.subset he)).2.1⟩
      exact foldl_push hm' rfl
    have htypes : ∀ {m}, m <+: mid → ∀ e ∈ m, e.eventType ≠ .callStart ∧ e.eventType ≠ .callFinish :=
      fun hm e he => ⟨(hinner e (hm.subset he)).1, (hinner e (hm.subset he)).2.1⟩
    rcases List.prefix_concat_iff.mp hpre with rfl | hpre
    · refine ⟨mid, List.prefix_refl mid, fun e => ?_, ?_⟩
      · constructor
        · intro he
          exact ⟨List.mem_cons_of_mem _ (List.mem_append_left _ he), htypes (List.prefix_refl mid) e he⟩
        · rintro ⟨he, hstart, hfinish⟩
          rcases List.mem_cons.mp he with rfl | he
          · exact absurd rfl hstart
          · rcases List.mem_append.mp he with he | he
            · exact he
            · rw [List.mem_singleton.mp he] at hfinish
              exact absurd rfl hfinish
      · have hlast : readEvents root child (rootStart r skill :: (mid ++ [rootFinish r skill]))
            = { localRoot := some r
                sent := mid.map (TraceEvent.below root child r)
                openDescendants := openOf (mid.map (TraceEvent.below root child r)) } := by
          unfold readEvents
          rw [List.foldl_cons, List.foldl_append, hread (List.prefix_refl mid)]
          rfl
        rw [hlast]
        exact ⟨rfl, rfl⟩
    · refine ⟨received, hpre, fun e => ?_, ?_⟩
      · constructor
        · intro he
          exact ⟨List.mem_cons_of_mem _ he, htypes hpre e he⟩
        · rintro ⟨he, hstart, -⟩
          rcases List.mem_cons.mp he with rfl | he
          · exact absurd rfl hstart
          · exact he
      · have hlast : readEvents root child (rootStart r skill :: received) = _ := hread hpre
        rw [hlast]
        exact ⟨rfl, rfl⟩

/-! ## The events below the child -/

section Below

variable {root child r skill rskill : String}

/-- The events of a stream below its root: each subcall has an id of its own. -/
structure Inner (root child r : String) (hm : List TraceEvent) : Prop where
  noRoot : ∀ e ∈ hm, e.eventType ≠ .callStart
  ids : ∀ e ∈ hm, e.IsSub → e.callId ≠ r ∧ e.callId ≠ child ∧ e.callId ≠ root

theorem below_callId {e : TraceEvent} (h : e.callId ≠ r) :
    (e.below root child r).callId = e.callId :=
  if_neg fun heq => h (Option.some.inj heq).symm

theorem below_parent {e : TraceEvent} (h : 2 ≤ e.depth) :
    (e.below root child r).parentCallId
      = if e.parentCallId = some r then some child else e.parentCallId :=
  if_neg (by omega)

/-- A call of the stream has finished in what is sent if it has in the stream. -/
theorem finished_below {start : TraceEvent} (hstart : start.eventType ≠ .subcallFinish)
    {hm : List TraceEvent} (hinner : Inner root child r hm) {x : String} :
    Finished (rootStart root skill :: start :: hm.map (TraceEvent.below root child r)) x ↔
      Finished (rootStart r rskill :: hm) x := by
  constructor
  · rintro ⟨f, hf, htype, rfl⟩
    rcases List.mem_cons.mp hf with rfl | hf
    · cases htype
    · rcases List.mem_cons.mp hf with rfl | hf
      · exact absurd htype hstart
      · obtain ⟨g, hg, rfl⟩ := List.mem_map.mp hf
        exact ⟨g, List.mem_cons_of_mem _ hg, htype,
          (below_callId (hinner.ids g hg (.inr htype)).1).symm⟩
  · rintro ⟨f, hf, htype, rfl⟩
    rcases List.mem_cons.mp hf with rfl | hf
    · cases htype
    · exact ⟨_, List.mem_cons_of_mem _ (List.mem_cons_of_mem _ (List.mem_map_of_mem hf)), htype,
        below_callId (hinner.ids f hf (.inr htype)).1⟩

/-- **One event below the child** may follow where it may follow in the stream. -/
theorem mayFollow_below {start : TraceEvent} (hstype : start.eventType = .subcallStart)
    (hsid : start.callId = child) (hsparent : start.parentCallId = some root)
    {hm : List TraceEvent} {e : TraceEvent} (hinner : Inner root child r hm)
    (hids : e.IsSub → e.callId ≠ r ∧ e.callId ≠ child ∧ e.callId ≠ root)
    (hdepths : ∀ s ∈ hm, s.IsSub → 2 ≤ s.depth) (hok : MayFollow (rootStart r rskill :: hm) e) :
    MayFollow (rootStart root skill :: start :: hm.map (TraceEvent.below root child r))
      (e.below root child r) := by
  have hfin : ∀ {x}, Finished (rootStart root skill :: start ::
      hm.map (TraceEvent.below root child r)) x ↔ Finished (rootStart r rskill :: hm) x :=
    finished_below (by rw [hstype]; decide) hinner
  have hsub : ∀ s ∈ hm, s.below root child r ∈ rootStart root skill :: start ::
      hm.map (TraceEvent.below root child r) :=
    fun s hs => List.mem_cons_of_mem _ (List.mem_cons_of_mem _ (List.mem_map_of_mem hs))
  have htype' : (e.below root child r).eventType = e.eventType := rfl
  unfold MayFollow at hok ⊢
  rw [htype']
  rcases htype : e.eventType with _ | _ | _ | _ | _
  · rw [htype] at hok
    exact hok
  · rw [htype] at hok
    exact hok
  · rw [htype] at hok
    obtain ⟨⟨p, hparent, ⟨q, hq, hqtype, rfl⟩, hlive⟩, hnew, hdepth⟩ := hok
    obtain ⟨hr, hchild, hroot⟩ := hids (.inl htype)
    rw [below_callId hr, below_parent hdepth, hparent]
    refine ⟨?_, ?_, Nat.le_add_right 2 _⟩
    · rcases List.mem_cons.mp hq with rfl | hq
      · -- below the root of the stream, so below the child
        refine ⟨child, if_pos rfl, ⟨start, List.mem_cons_of_mem _ List.mem_cons_self, .inr hstype,
          hsid⟩, fun h => ?_⟩
        obtain ⟨f, hf, hftype, hfid⟩ := hfin.mp h
        rcases List.mem_cons.mp hf with rfl | hf
        · cases hftype
        · exact (hinner.ids f hf (.inr hftype)).2.1 hfid
      · have hqstart := hqtype.resolve_left (hinner.noRoot q hq)
        have hqids := hinner.ids q hq (.inl hqstart)
        refine ⟨q.callId, if_neg fun h => hqids.1 (Option.some.inj h), ⟨_, hsub q hq, .inr hqstart,
          below_callId hqids.1⟩, fun h => hlive (hfin.mp h)⟩
    · rintro ⟨s, hs, hstart, hid⟩
      rcases List.mem_cons.mp hs with rfl | hs
      · exact hroot hid.symm
      · rcases List.mem_cons.mp hs with rfl | hs
        · exact hchild (hid.symm.trans hsid)
        · obtain ⟨t, ht, rfl⟩ := List.mem_map.mp hs
          have htstart : t.eventType = .subcallStart := hstart.resolve_left (hinner.noRoot t ht)
          rw [below_callId (hinner.ids t ht (.inl htstart)).1] at hid
          exact hnew ⟨t, List.mem_cons_of_mem _ ht, hstart, hid⟩
  · rw [htype] at hok
    obtain ⟨⟨q, hq, hqtype, hqid⟩, hlive, hsubs, hdepth⟩ := hok
    obtain ⟨hr, hchild, hroot⟩ := hids (.inr htype)
    rw [below_callId hr]
    refine ⟨?_, fun h => hlive (hfin.mp h), ?_, Nat.le_add_right 2 _⟩
    · rcases List.mem_cons.mp hq with rfl | hq
      · cases hqtype
      · exact ⟨_, hsub q hq, hqtype, (below_callId (hqid ▸ hr)).trans hqid⟩
    · intro s hs hstart hparent
      rw [hfin]
      rcases List.mem_cons.mp hs with rfl | hs
      · cases hstart
      · rcases List.mem_cons.mp hs with rfl | hs
        · exact absurd (Option.some.inj (hsparent.symm.trans hparent)).symm hroot
        · obtain ⟨t, ht, rfl⟩ := List.mem_map.mp hs
          have htype : t.eventType = .subcallStart := hstart
          rw [below_parent (hdepths t ht (.inl htype))] at hparent
          rw [below_callId (hinner.ids t ht (.inl htype)).1]
          by_cases hp : t.parentCallId = some r
          · rw [if_pos hp] at hparent
            exact absurd (Option.some.inj hparent).symm hchild
          · rw [if_neg hp] at hparent
            exact hsubs t (List.mem_cons_of_mem _ ht) htype hparent
  · trivial

/-- **All events below the child.** -/
theorem validFrom_below (hm : List TraceEvent) {start : TraceEvent} (hstype : start.eventType = .subcallStart)
    (hsid : start.callId = child) (hsparent : start.parentCallId = some root)
    {m : List TraceEvent} (hinner : Inner root child r (hm ++ m))
    (hdepths : ∀ s ∈ hm ++ m, s.IsSub → 2 ≤ s.depth)
    (hok : ValidFrom (rootStart r rskill :: hm) m) :
    ValidFrom (rootStart root skill :: start :: hm.map (TraceEvent.below root child r))
      (m.map (TraceEvent.below root child r)) := by
  induction m generalizing hm with
  | nil => trivial
  | cons e m ih =>
    have hleft : ∀ s ∈ hm, s ∈ hm ++ e :: m := fun s hs => List.mem_append_left _ hs
    have hhm : Inner root child r hm :=
      ⟨fun s hs => hinner.noRoot s (hleft s hs), fun s hs => hinner.ids s (hleft s hs)⟩
    have hself : e ∈ hm ++ e :: m := List.mem_append_right _ List.mem_cons_self
    constructor
    · exact mayFollow_below hstype hsid hsparent hhm (hinner.ids e hself)
        (fun s hs => hdepths s (hleft s hs)) hok.1
    · rw [List.append_cons] at hinner hdepths
      have hnext := ih (hm ++ [e]) hinner hdepths hok.2
      rw [List.map_append] at hnext
      exact hnext

end Below

/-! ## Closing what is open -/

theorem openOf_concat (l : List TraceEvent) (e : TraceEvent) :
    openOf (l ++ [e]) = updateOpenDescendants (openOf l) 2 e := by
  unfold openOf
  rw [List.foldl_append]
  rfl

theorem finished_concat {l : List TraceEvent} {e : TraceEvent} {x : String} :
    Finished (l ++ [e]) x ↔ Finished l x ∨ e.eventType = .subcallFinish ∧ e.callId = x := by
  unfold Finished
  simp only [List.mem_append, List.mem_singleton]
  constructor
  · rintro ⟨f, hf | rfl, htype⟩
    · exact .inl ⟨f, hf, htype⟩
    · exact .inr htype
  · rintro (⟨f, hf, htype⟩ | htype)
    · exact ⟨f, .inl hf, htype⟩
    · exact ⟨e, .inr rfl, htype⟩

/-- The calls that are open have started and not finished. -/
theorem mem_openOf {h l : List TraceEvent} (hl : ValidFrom h l)
    (hdepths : ∀ e ∈ l, e.IsSub → 2 < e.depth) (n : ForwardedChildTraceNode) :
    n ∈ openOf l ↔ ∃ s ∈ l, s.eventType = .subcallStart ∧ s.node = n ∧ ¬ Finished l s.callId := by
  induction l using List.reverseRecOn with
  | nil => exact iff_of_false List.not_mem_nil fun ⟨s, hs, _⟩ => absurd hs List.not_mem_nil
  | append_singleton l e ih =>
    obtain ⟨hvalid, hlast⟩ := validFrom_append.mp hl
    have ih' := ih hvalid fun x hx => hdepths x (List.mem_append_left _ hx)
    have hdepth := hdepths e (List.mem_append_right l List.mem_cons_self)
    have hmay := hlast.1
    unfold MayFollow at hmay
    rw [openOf_concat, updateOpenDescendants]
    rcases htype : e.eventType with _ | _ | _ | _ | _
    · rw [htype] at hmay
      exact hmay.elim
    · rw [htype] at hmay
      exact hmay.elim
    · -- a start, of a call that has not been there
      rw [htype] at hmay
      have hnew : ¬ Started (h ++ l) e.callId := hmay.2.1
      have hnofin : ¬ Finished l e.callId := by
        rintro ⟨f, hf, hftype, hfid⟩
        obtain ⟨s, hs, hstart, hid⟩ := (hvalid.ids f hf).2 hftype
        exact hnew ⟨s, hs, .inr hstart, hid.trans hfid⟩
      have hfin : ∀ x, Finished (l ++ [e]) x ↔ Finished l x := by
        intro x
        rw [finished_concat, htype]
        exact or_iff_left fun h => by cases h.1
      rw [if_neg (Nat.not_le.mpr (hdepth (.inl htype)))]
      dsimp only
      rw [List.mem_cons, List.mem_filter, ih']
      constructor
      · rintro (rfl | ⟨⟨s, hs, hstart, rfl, hopen⟩, -⟩)
        · exact ⟨e, List.mem_append_right l List.mem_cons_self, htype, rfl, fun h => hnofin ((hfin _).mp h)⟩
        · exact ⟨s, List.mem_append_left _ hs, hstart, rfl, fun h => hopen ((hfin _).mp h)⟩
      · rintro ⟨s, hs, hstart, rfl, hopen⟩
        rcases List.mem_append.mp hs with hs | hs
        · refine .inr ⟨⟨s, hs, hstart, rfl, fun h => hopen ((hfin _).mpr h)⟩, decide_eq_true ?_⟩
          intro hid
          exact hnew ⟨s, List.mem_append_right h hs, .inr hstart, hid⟩
        · exact .inl (by rw [List.mem_singleton.mp hs])
    · rw [if_neg (Nat.not_le.mpr (hdepth (.inr htype)))]
      dsimp only
      rw [List.mem_filter, ih']
      constructor
      · rintro ⟨⟨s, hs, hstart, rfl, hopen⟩, hne⟩
        refine ⟨s, List.mem_append_left _ hs, hstart, rfl, fun h => ?_⟩
        rcases finished_concat.mp h with h | ⟨-, hid⟩
        · exact hopen h
        · exact of_decide_eq_true hne hid.symm
      · rintro ⟨s, hs, hstart, rfl, hopen⟩
        rw [finished_concat, not_or] at hopen
        rcases List.mem_append.mp hs with hs | hs
        · exact ⟨⟨s, hs, hstart, rfl, hopen.1⟩, decide_eq_true fun hid => hopen.2 ⟨htype, hid.symm⟩⟩
        · rw [List.mem_singleton.mp hs, htype] at hstart
          cases hstart
    · have hsame : (if e.depth ≤ 2 then openOf l else openOf l) = openOf l := ite_self _
      have hfin : ∀ x, Finished (l ++ [e]) x ↔ Finished l x := by
        intro x
        rw [finished_concat, htype]
        exact or_iff_left fun h => by cases h.1
      rw [hsame, ih']
      constructor
      · rintro ⟨s, hs, hstart, hn, hopen⟩
        exact ⟨s, List.mem_append_left _ hs, hstart, hn, fun h => hopen ((hfin _).mp h)⟩
      · rintro ⟨s, hs, hstart, hn, hopen⟩
        rcases List.mem_append.mp hs with hs | hs
        · exact ⟨s, hs, hstart, hn, fun h => hopen ((hfin _).mpr h)⟩
        · rw [List.mem_singleton.mp hs, htype] at hstart
          cases hstart

/-- Each call is in the map once. -/
theorem nodup_openOf (l : List TraceEvent) : ((openOf l).map fun n => n.callId).Nodup := by
  have hfilter : ∀ (ns : List ForwardedChildTraceNode) (x : String),
      (ns.map fun n => n.callId).Nodup →
        ((ns.filter fun n => n.callId ≠ x).map fun n => n.callId).Nodup :=
    fun ns x hns => hns.sublist (List.filter_sublist.map _)
  induction l using List.reverseRecOn with
  | nil => exact List.nodup_nil
  | append_singleton l e ih =>
    rw [openOf_concat]
    unfold updateOpenDescendants
    split
    next => exact ih
    next =>
      split
      next =>
        rw [List.map_cons, List.nodup_cons]
        refine ⟨fun hmem => ?_, hfilter _ _ ih⟩
        obtain ⟨n, hn, hid⟩ := List.mem_map.mp hmem
        exact of_decide_eq_true (List.mem_filter.mp hn).2 hid
      next => exact hfilter _ _ ih
      next => exact ih

/-- **Closing**: calls that are open may be closed in any order if none of them is below another. -/
theorem validFrom_close {h l : List TraceEvent} (hl : ValidFrom h l)
    (hdepths : ∀ e ∈ l, e.IsSub → 2 < e.depth) (hh : ∀ x, ¬ Finished h x)
    {order : List ForwardedChildTraceNode} (horder : order.Perm (openOf l))
    (hparents : ∀ s ∈ h, s.eventType = .subcallStart → ∀ n ∈ order, s.parentCallId ≠ some n.callId)
    (hnested : ∀ a ∈ order, ∀ b ∈ order, a.parentCallId ≠ some b.callId) :
    ValidFrom (h ++ l) (order.map closeEvent) := by
  have hmem : ∀ n ∈ order, ∃ s ∈ l, s.eventType = .subcallStart ∧ s.node = n ∧
      ¬ Finished l s.callId :=
    fun n hn => (mem_openOf hl hdepths n).mp (horder.mem_iff.mp hn)
  have hnodup : (order.map fun n => n.callId).Nodup := (horder.map _).nodup_iff.mpr (nodup_openOf l)
  -- the calls that are closed so far, and the others
  have hgo : ∀ closed todo, order = closed ++ todo →
      ValidFrom (h ++ l ++ closed.map closeEvent) (todo.map closeEvent) := by
    intro closed todo
    induction todo generalizing closed with
    | nil => exact fun _ => trivial
    | cons n todo ih =>
      intro hsplit
      have hn : n ∈ order := by
        rw [hsplit]
        exact List.mem_append_right _ List.mem_cons_self
      obtain ⟨s, hs, hstart, hnode, hopen⟩ := hmem n hn
      have hid : s.callId = n.callId := congrArg ForwardedChildTraceNode.callId hnode
      constructor
      · show (∃ s ∈ h ++ l ++ closed.map closeEvent, _ ∧ s.callId = n.callId) ∧
          ¬ Finished _ n.callId ∧ (∀ s ∈ h ++ l ++ closed.map closeEvent, _ →
            s.parentCallId = some n.callId → _) ∧ 2 ≤ n.depth
        refine ⟨⟨s, List.mem_append_left _ (List.mem_append_right h hs), hstart, hid⟩, ?_, ?_, ?_⟩
        · rintro ⟨f, hf, htype, hfid⟩
          rcases List.mem_append.mp hf with hf | hf
          · rcases List.mem_append.mp hf with hf | hf
            · exact hh _ ⟨f, hf, htype, hfid⟩
            · exact hopen ⟨f, hf, htype, hfid.trans hid.symm⟩
          · obtain ⟨a, ha, rfl⟩ := List.mem_map.mp hf
            rw [hsplit, List.map_append, List.map_cons, List.nodup_append] at hnodup
            exact hnodup.2.2 _ (List.mem_map_of_mem ha) _ List.mem_cons_self hfid
        · intro t ht htstart hparent
          rcases List.mem_append.mp ht with ht | ht
          · rcases List.mem_append.mp ht with ht | ht
            · exact absurd hparent (hparents t ht htstart n hn)
            · by_contra hnofin
              have hopen' : t.node ∈ order := by
                refine horder.mem_iff.mpr ((mem_openOf hl hdepths _).mpr ⟨t, ht, htstart, rfl, ?_⟩)
                rintro ⟨f, hf, hfin⟩
                exact hnofin ⟨f, List.mem_append_left _ (List.mem_append_right h hf), hfin⟩
              exact hnested _ hopen' n hn hparent
          · obtain ⟨a, -, rfl⟩ := List.mem_map.mp ht
            cases htstart
        · have hdepth := hdepths s hs (.inl hstart)
          rw [← hnode]
          exact Nat.le_of_lt hdepth
      · have hnext := ih (closed ++ [n]) (by rw [hsplit, List.append_cons])
        rw [List.map_append, ← List.append_assoc] at hnext
        exact hnext
  have hall := hgo [] order rfl
  rwa [List.map_nil, List.append_nil] at hall

/-- After closing all calls have finished. -/
theorem complete_close {h l : List TraceEvent} (hl : ValidFrom h l)
    (hdepths : ∀ e ∈ l, e.IsSub → 2 < e.depth) {order : List ForwardedChildTraceNode}
    (horder : order.Perm (openOf l)) : ∀ s ∈ l, s.eventType = .subcallStart →
      Finished (l ++ order.map closeEvent) s.callId := by
  intro s hs hstart
  by_cases hfin : Finished l s.callId
  · obtain ⟨f, hf, htype⟩ := hfin
    exact ⟨f, List.mem_append_left _ hf, htype⟩
  · have hmem : s.node ∈ order :=
      horder.mem_iff.mpr ((mem_openOf hl hdepths _).mpr ⟨s, hs, hstart, rfl, hfin⟩)
    exact ⟨_, List.mem_append_right l (List.mem_map_of_mem hmem), rfl, rfl⟩

theorem validFrom_heartbeats {l : List TraceEvent} (hl : ∀ e ∈ l, e.eventType = .heartbeat)
    (h : List TraceEvent) : ValidFrom h l := by
  induction l generalizing h with
  | nil => trivial
  | cons e l ih =>
    refine ⟨?_, ih (fun x hx => hl x (List.mem_cons_of_mem e hx)) _⟩
    unfold MayFollow
    rw [hl e List.mem_cons_self]
    trivial

/-! ## A child -/

/-- The ids that a child brings: its own, and those of the subcalls of its stream. -/
def ChildCall.ids (c : ChildCall) (x : String) : Prop :=
  x = c.callId ∨ ∃ e ∈ c.received, e.IsSub ∧ e.callId = x

/-- The events of a trace. -/
def eventsOf (sent : List Sent) : List TraceEvent :=
  sent.filterMap fun
    | .event e => some e
    | _ => none

/-- What a child can be: what is received of it is a well-formed trace, cut anywhere, and the map
gives what is left open in some order; the ids are distinct. -/
structure ChildCall.Possible (root : String) (c : ChildCall) : Prop where
  cut : ∃ r sent, WellFormed r sent ∧ c.received <+: eventsOf sent
  order : c.order.Perm (readEvents root c.callId c.received).openDescendants
  callId : c.callId ≠ root
  ids : ∀ e ∈ c.received, e.IsSub → e.callId ≠ c.callId ∧ e.callId ≠ root

/-- **No call that is open at the cut is below another one.** -/
def ChildCall.Unnested (c : ChildCall) : Prop :=
  ∀ a ∈ c.received, a.eventType = .subcallStart → ¬ Finished c.received a.callId →
    ∀ b ∈ c.received, b.eventType = .subcallStart → ¬ Finished c.received b.callId →
      a.parentCallId ≠ some b.callId

theorem eventsOf_traceSent (root skill : String) (events : List TraceEvent) (pass : Bool) :
    eventsOf (traceSent root skill events pass) =
      rootStart root skill :: events ++ [rootFinish root skill] := by
  have hevents : ∀ l : List TraceEvent, eventsOf (l.map Sent.event) = l := by
    intro l
    induction l with
    | nil => rfl
    | cons e l ih => exact congrArg (e :: ·) ih
  have happend : ∀ a b : List Sent, eventsOf (a ++ b) = eventsOf a ++ eventsOf b :=
    fun a b => List.filterMap_append
  unfold traceSent
  rw [happend, happend, hevents]
  cases pass <;> exact (List.append_nil _).trans (List.append_nil _)

/-- A call starts below the root. -/
theorem ChildCall.mayFollow_start {root : String} {c : ChildCall} (hne : c.callId ≠ root)
    (skill : String) : MayFollow [rootStart root skill] (c.start root) := by
  refine ⟨⟨root, rfl, ⟨_, List.mem_cons_self, .inl rfl, rfl⟩, ?_⟩, ?_, Nat.le_refl 2⟩
  · rintro ⟨f, hf, htype, -⟩
    rw [List.mem_singleton.mp hf] at htype
    cases htype
  · rintro ⟨s, hs, -, hid⟩
    rw [List.mem_singleton.mp hs] at hid
    exact hne hid.symm

/-- It finishes after other calls that have. -/
theorem ChildCall.mayFollow_finish {root : String} {c : ChildCall} (hne : c.callId ≠ root)
    (skill : String) {l : List TraceEvent} (hids : ∀ e ∈ l, e.IsSub → e.callId ≠ c.callId)
    (hcomplete : Complete l) : MayFollow ([rootStart root skill, c.start root] ++ l) (c.finish root) := by
  refine ⟨⟨c.start root, List.mem_append_left _ (List.mem_cons_of_mem _ List.mem_cons_self), rfl, rfl⟩,
    ?_, ?_, Nat.le_refl 2⟩
  · rintro ⟨f, hf, htype, hfid⟩
    rcases List.mem_append.mp hf with hf | hf
    · rcases List.mem_cons.mp hf with rfl | hf
      · cases htype
      · rw [List.mem_singleton.mp hf] at htype
        cases htype
    · exact hids f hf (.inr htype) hfid
  · intro s hs htype hparent
    rcases List.mem_append.mp hs with hs | hs
    · rcases List.mem_cons.mp hs with rfl | hs
      · cases htype
      · rw [List.mem_singleton.mp hs] at hparent
        exact absurd (Option.some.inj hparent).symm hne
    · obtain ⟨f, hf, hfin⟩ := hcomplete s hs htype
      exact ⟨f, List.mem_append_right _ hf, hfin⟩

/-- All is then finished. -/
theorem ChildCall.complete {root : String} {c : ChildCall} {l : List TraceEvent} (h : Complete l) :
    Complete (c.start root :: l ++ [c.finish root]) := by
  intro s hs htype
  rcases List.mem_append.mp hs with hs | hs
  · rcases List.mem_cons.mp hs with rfl | hs
    · exact ⟨c.finish root, List.mem_append_right _ List.mem_cons_self, rfl, rfl⟩
    · obtain ⟨f, hf, hfin⟩ := h s hs htype
      exact ⟨f, List.mem_append_left _ (List.mem_cons_of_mem _ hf), hfin⟩
  · rw [List.mem_singleton.mp hs] at htype
    cases htype

/-- **The events of a child** are well formed by themselves. -/
theorem ChildCall.Possible.events_valid {root : String} {c : ChildCall} (hc : c.Possible root)
    (hnested : c.Unnested) (skill : String) :
    ValidFrom [rootStart root skill] (c.events root) ∧ Complete (c.events root) ∧
      ∀ e ∈ c.events root, e.IsSub → c.ids e.callId := by
  obtain ⟨r, sent, ⟨rskill, mid, pass, rfl, hmid, -⟩, hpre⟩ := hc.cut
  rw [eventsOf_traceSent] at hpre
  obtain ⟨m, hm, hreceived, hsent, hopen⟩ := readEvents_cut root c.callId hmid hpre
  have hvalid : ValidFrom [rootStart r rskill] m := hmid.of_prefix hm
  have hrec : ∀ e ∈ m, e ∈ c.received := fun e he => ((hreceived e).mp he).1
  have hdepths : ∀ e ∈ m, e.IsSub → 2 ≤ e.depth := fun e he => (hvalid.inner e he).2.2
  have hrootStarted : ∀ {l : List TraceEvent}, Started (rootStart r rskill :: l) r :=
    ⟨_, List.mem_cons_self, .inl rfl, rfl⟩
  have hinner : Inner root c.callId r m := by
    refine ⟨fun e he => (hvalid.inner e he).1, fun e he hsub => ?_⟩
    refine ⟨fun hid => ?_, hc.ids e (hrec e he) hsub⟩
    -- the root of the stream is no subcall
    have hstart : ∀ s ∈ m, s.eventType = .subcallStart → s.callId ≠ r :=
      fun s hs htype hid => (hvalid.ids s hs).1 htype (hid ▸ hrootStarted)
    rcases hsub with htype | htype
    · exact hstart e he htype hid
    · obtain ⟨s, hs, hstype, hsid⟩ := (hvalid.ids e he).2 htype
      rcases List.mem_cons.mp hs with rfl | hs
      · cases hstype
      · exact hstart s hs hstype (hsid.trans hid)
  have hlvalid : ValidFrom [rootStart root skill, c.start root]
      (m.map (TraceEvent.below root c.callId r)) :=
    validFrom_below [] rfl rfl rfl hinner hdepths hvalid
  have hldepths : ∀ e ∈ m.map (TraceEvent.below root c.callId r), e.IsSub → 2 < e.depth := by
    intro e he hsub
    obtain ⟨t, ht, rfl⟩ := List.mem_map.mp he
    have hdepth := hdepths t ht hsub
    show 2 < 2 + (t.depth - 1)
    omega
  have hlids : ∀ e ∈ m.map (TraceEvent.below root c.callId r), e.IsSub →
      e.callId ≠ c.callId ∧ e.callId ≠ root ∧ c.ids e.callId := by
    intro e he hsub
    obtain ⟨t, ht, rfl⟩ := List.mem_map.mp he
    obtain ⟨hr, hchild, hroot⟩ := hinner.ids t ht hsub
    rw [below_callId hr]
    exact ⟨hchild, hroot, .inr ⟨t, hrec t ht, hsub, rfl⟩⟩
  have horder : c.order.Perm (openOf (m.map (TraceEvent.below root c.callId r))) := hopen ▸ hc.order
  -- a node that is closed belongs to a start
  have hnode : ∀ n ∈ c.order, ∃ t ∈ m, t.eventType = .subcallStart ∧ ¬ Finished c.received t.callId ∧
      t.callId ≠ r ∧ t.below root c.callId r ∈ m.map (TraceEvent.below root c.callId r) ∧
        (t.below root c.callId r).node = n := by
    intro n hn
    obtain ⟨s, hs, hstart, hn, hopen'⟩ :=
      (mem_openOf hlvalid hldepths n).mp (horder.mem_iff.mp hn)
    obtain ⟨t, ht, rfl⟩ := List.mem_map.mp hs
    have hr := (hinner.ids t ht (.inl hstart)).1
    refine ⟨t, ht, hstart, ?_, hr, hs, hn⟩
    rintro ⟨f, hf, htype, hfid⟩
    have hfm : f ∈ m := (hreceived f).mpr ⟨hf, by rw [htype]; decide, by rw [htype]; decide⟩
    refine hopen' ⟨_, List.mem_map_of_mem hfm, htype, ?_⟩
    rw [below_callId (hfid ▸ hr), below_callId hr]
    exact hfid
  have hclose : ValidFrom ([rootStart root skill, c.start root] ++
      m.map (TraceEvent.below root c.callId r)) (c.order.map closeEvent) := by
    refine validFrom_close hlvalid hldepths ?_ horder ?_ ?_
    · rintro x ⟨f, hf, htype, -⟩
      rcases List.mem_cons.mp hf with rfl | hf
      · cases htype
      · rw [List.mem_singleton.mp hf] at htype
        cases htype
    · intro s hs hstart n hn hparent
      rcases List.mem_cons.mp hs with rfl | hs
      · cases hstart
      · rw [List.mem_singleton.mp hs] at hparent
        obtain ⟨t, ht, htype, -, -, htl, rfl⟩ := hnode n hn
        exact (hlids _ htl (.inl htype)).2.1 (Option.some.inj hparent).symm
    · intro a ha b hb hparent
      obtain ⟨t, ht, htype, htopen, -, -, rfl⟩ := hnode a ha
      obtain ⟨u, hu, hutype, huopen, hur, hul, rfl⟩ := hnode b hb
      change (t.below root c.callId r).parentCallId = some (u.below root c.callId r).callId at hparent
      rw [below_parent (hdepths t ht (.inl htype)), below_callId hur] at hparent
      by_cases hp : t.parentCallId = some r
      · rw [if_pos hp] at hparent
        exact (hinner.ids u hu (.inl hutype)).2.1 (Option.some.inj hparent).symm
      · rw [if_neg hp] at hparent
        exact hnested t (hrec t ht) htype htopen u (hrec u hu) hutype huopen hparent
  have hcomplete : Complete (m.map (TraceEvent.below root c.callId r) ++ c.order.map closeEvent) := by
    intro s hs htype
    rcases List.mem_append.mp hs with hs | hs
    · exact complete_close hlvalid hldepths horder s hs htype
    · obtain ⟨n, -, rfl⟩ := List.mem_map.mp hs
      cases htype
  have hids : ∀ e ∈ m.map (TraceEvent.below root c.callId r) ++ c.order.map closeEvent, e.IsSub →
      e.callId ≠ c.callId ∧ c.ids e.callId := by
    intro e he hsub
    rcases List.mem_append.mp he with he | he
    · obtain ⟨hchild, -, hid⟩ := hlids e he hsub
      exact ⟨hchild, hid⟩
    · obtain ⟨n, hn, rfl⟩ := List.mem_map.mp he
      obtain ⟨t, ht, htype, -, -, htl, rfl⟩ := hnode n hn
      obtain ⟨hchild, -, hid⟩ := hlids _ htl (.inl htype)
      exact ⟨hchild, hid⟩
  have hstart := ChildCall.mayFollow_start hc.callId skill
  have hfinish := ChildCall.mayFollow_finish hc.callId skill (fun e he hsub => (hids e he hsub).1)
    hcomplete
  have hevents : c.events root = c.start root ::
      (m.map (TraceEvent.below root c.callId r) ++ c.order.map closeEvent) ++ [c.finish root] := by
    unfold ChildCall.events
    rw [hsent]
    rfl
  rw [hevents]
  refine ⟨?_, ChildCall.complete hcomplete, ?_⟩
  · refine ⟨hstart, ?_⟩
    rw [List.append_eq, validFrom_append, validFrom_append]
    exact ⟨⟨hlvalid, hclose⟩, hfinish, trivial⟩
  · intro e he hsub
    rcases List.mem_append.mp he with he | he
    · rcases List.mem_cons.mp he with rfl | he
      · exact .inl rfl
      · exact (hids e he hsub).2
    · rw [List.mem_singleton.mp he]
      exact .inl rfl

/-! ## The trace of a call -/

/-- A run of a traced call: its tasks send at the same time, its children are possible, and all ids
are distinct. -/
structure TracedRun (root : String) (tasks : ℕ → Task) (events : List TraceEvent) : Prop where
  interleave : Interleave (fun i => (tasks i).events root) events
  heartbeats : ∀ i l, tasks i = .heartbeats l → ∀ e ∈ l, e.eventType = .heartbeat
  possible : ∀ i c, tasks i = .child c → c.Possible root
  distinct : ∀ i j c c', i ≠ j → tasks i = .child c → tasks j = .child c' → ∀ x, c.ids x → ¬ c'.ids x

/-- **When a trace is well formed**: whenever the stream of a child is cut, no call that is open at
the cut is below another one that is. -/
theorem TracedRun.wellFormed {root : String} {tasks : ℕ → Task} {events : List TraceEvent}
    (h : TracedRun root tasks events) (hnested : ∀ i c, tasks i = .child c → c.Unnested)
    (skill : String) (pass : Bool) : WellFormed root (traceSent root skill events pass) := by
  have htask : ∀ i, ValidFrom [rootStart root skill] ((tasks i).events root) ∧
      Complete ((tasks i).events root) ∧ ∀ e ∈ (tasks i).events root, e.IsSub →
        ∃ c, tasks i = .child c ∧ c.ids e.callId := by
    intro i
    rcases htype : tasks i with _ | l | c
    · exact ⟨trivial, fun s hs => absurd hs List.not_mem_nil, fun e he => absurd he List.not_mem_nil⟩
    · have hbeat := h.heartbeats i l htype
      refine ⟨validFrom_heartbeats hbeat _, fun s hs hstart => ?_, fun e he hsub => ?_⟩
      · rw [hbeat s hs] at hstart
        cases hstart
      · unfold TraceEvent.IsSub at hsub
        rw [hbeat e he] at hsub
        rcases hsub with hsub | hsub <;> cases hsub
    · obtain ⟨hvalid, hcomplete, hids⟩ :=
        (h.possible i c htype).events_valid (hnested i c htype) skill
      exact ⟨hvalid, hcomplete, fun e he hsub => ⟨c, rfl, hids e he hsub⟩⟩
  have hroot : ∀ i, ∀ e ∈ (tasks i).events root, e.IsSub → e.callId ≠ root := by
    intro i e he hsub
    obtain ⟨c, hc, hid⟩ := (htask i).2.2 e he hsub
    have hpossible := h.possible i c hc
    rcases hid with hid | ⟨t, ht, htsub, hid⟩
    · rw [hid]
      exact hpossible.callId
    · rw [← hid]
      exact (hpossible.ids t ht htsub).2
  have hdistinct : ∀ i j, i ≠ j → ∀ e ∈ (tasks i).events root, ∀ e' ∈ (tasks j).events root,
      e.IsSub → e'.IsSub → e.callId ≠ e'.callId := by
    intro i j hij e he e' he' hsub hsub' heq
    obtain ⟨c, hc, hid⟩ := (htask i).2.2 e he hsub
    obtain ⟨c', hc', hid'⟩ := (htask j).2.2 e' he' hsub'
    exact h.distinct i j c c' hij hc hc' _ hid (heq ▸ hid')
  obtain ⟨hvalid, hcomplete⟩ := interleave_valid h.interleave (fun i => (htask i).1)
    (fun i => (htask i).2.1) hroot hdistinct
  exact ⟨skill, events, pass, rfl, hvalid, hcomplete⟩

/-! ## Two cuts -/

/-- A trace of two calls, one below the other. -/
def sampleTrace : List TraceEvent :=
  [⟨.subcallStart, "a", some "r", 2, "s/a"⟩, ⟨.subcallStart, "b", some "a", 3, "s/b"⟩,
    ⟨.subcallFinish, "b", some "a", 3, "s/b"⟩, ⟨.subcallFinish, "a", some "r", 2, "s/a"⟩]

theorem sampleTrace_wellFormed : WellFormed "r" (traceSent "r" "s/r" sampleTrace true) := by
  refine ⟨"s/r", sampleTrace, true, rfl, ?_, ?_⟩
  · simp [ValidFrom, MayFollow, Started, Finished, sampleTrace, rootStart]
  · simp [Complete, Finished, sampleTrace]

/-- A call whose only child is cut after `n` events. -/
def sampleChild (n : ℕ) (order : List ForwardedChildTraceNode) : ChildCall where
  callId := "c"
  skill := "s/c"
  received := (rootStart "r" "s/r" :: sampleTrace).take n
  order := order

def sampleTasks (c : ChildCall) (i : ℕ) : Task := if i = 0 then .child c else .idle

theorem interleave_one {f : ℕ → List TraceEvent} {L : List TraceEvent} (h0 : f 0 = L)
    (hf : ∀ i, i ≠ 0 → f i = []) : Interleave f L := by
  induction L generalizing f with
  | nil =>
    refine .done fun i => ?_
    by_cases hi : i = 0
    · rw [hi, h0]
    · exact hf i hi
  | cons e L ih =>
    refine .next h0 (ih (Function.update_self ..) fun i hi => ?_)
    rw [Function.update_of_ne hi, hf i hi]

theorem sample_run {n : ℕ} {order : List ForwardedChildTraceNode} (horder : order.Perm
    (readEvents "R" "c" ((rootStart "r" "s/r" :: sampleTrace).take n)).openDescendants) :
    TracedRun "R" (sampleTasks (sampleChild n order)) ((sampleChild n order).events "R") := by
  have hchild : ∀ {i c}, sampleTasks (sampleChild n order) i = .child c →
      i = 0 ∧ c = sampleChild n order := by
    intro i c h
    unfold sampleTasks at h
    split at h
    next hi =>
      cases h
      exact ⟨hi, rfl⟩
    next => cases h
  refine ⟨interleave_one rfl fun i hi => ?_, fun i l h => ?_, fun i c h => ?_, fun i j c c' hij h h' => ?_⟩
  · show (sampleTasks _ i).events "R" = []
    unfold sampleTasks
    rw [if_neg hi]
    rfl
  · unfold sampleTasks at h
    split at h <;> cases h
  · obtain ⟨-, rfl⟩ := hchild h
    refine ⟨⟨"r", _, sampleTrace_wellFormed, ?_⟩, horder, ?_, fun e he _ => ?_⟩
    · rw [eventsOf_traceSent]
      exact (List.take_prefix n _).trans (List.prefix_append _ _)
    · show "c" ≠ "R"
      decide
    · have hmem : e ∈ rootStart "r" "s/r" :: sampleTrace := (List.take_prefix n _).subset he
      have hall : ∀ e ∈ rootStart "r" "s/r" :: sampleTrace, e.callId ≠ "c" ∧ e.callId ≠ "R" := by
        simp [sampleTrace, rootStart]
      exact hall e hmem
  · obtain ⟨rfl, -⟩ := hchild h
    obtain ⟨rfl, -⟩ := hchild h'
    exact absurd rfl hij

/-- Cut with one open call. -/
theorem sample_wellFormed : WellFormed "R" (traceSent "R" "s/R"
    ((sampleChild 2 [⟨"a", some "c", 3, "s/a"⟩]).events "R") true) := by
  refine (sample_run (by decide)).wellFormed (fun i c h => ?_) "s/R" true
  unfold sampleTasks at h
  split at h
  next =>
    cases h
    simp [ChildCall.Unnested, sampleChild, sampleTrace, rootStart]
  next => cases h

/-- A child that is cut with one open call below another, and closes the upper one first. -/
def nestedChild : ChildCall := sampleChild 3 [⟨"a", some "c", 3, "s/a"⟩, ⟨"b", some "a", 4, "s/b"⟩]

/-- What it sends. -/
def nestedEvents : List TraceEvent :=
  [⟨.subcallStart, "c", some "R", 2, "s/c"⟩, ⟨.subcallStart, "a", some "c", 3, "s/a"⟩,
    ⟨.subcallStart, "b", some "a", 4, "s/b"⟩, ⟨.subcallFinish, "a", some "c", 3, "s/a"⟩,
    ⟨.subcallFinish, "b", some "a", 4, "s/b"⟩, ⟨.subcallFinish, "c", some "R", 2, "s/c"⟩]

theorem nested_not_wellFormed :
    TracedRun "R" (sampleTasks nestedChild) (nestedChild.events "R") ∧
      ¬ WellFormed "R" (traceSent "R" "s/R" (nestedChild.events "R") true) := by
  have hevents : nestedChild.events "R" = nestedEvents := by decide
  refine ⟨sample_run (by decide), ?_⟩
  rw [hevents]
  rintro ⟨skill, events, pass, heq, hvalid, -⟩
  have hsame := congrArg eventsOf heq
  rw [eventsOf_traceSent, eventsOf_traceSent] at hsame
  have htail : nestedEvents ++ [rootFinish "R" "s/R"] = events ++ [rootFinish "R" skill] :=
    (List.cons.inj hsame).2
  obtain rfl : nestedEvents = events := (List.append_inj' htail rfl).1
  -- the call below is still open when the upper one is closed
  obtain ⟨-, -, -, ⟨-, -, hsubs, -⟩, -⟩ := hvalid
  obtain ⟨f, hf, htype, -⟩ := hsubs ⟨.subcallStart, "b", some "a", 4, "s/b"⟩ (by simp) rfl rfl
  simp only [List.mem_append, List.mem_singleton] at hf
  rcases hf with ((rfl | rfl) | rfl) | rfl <;> cases htype

end Inferx.Skill
