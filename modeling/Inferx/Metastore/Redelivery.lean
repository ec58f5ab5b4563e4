import Inferx.Metastore.Views
import Inferx.Metastore.Informer

/-!
# Redelivery

The watch of an informer is opened again whenever it breaks, at the revision of the last
event it has consumed, and the server replays from that revision on, so this event comes
again. An addition and a modification leave their object in the store and are recognised
by it. A deletion leaves nothing it could be recognised by: it is carried out again, the
store reports that there is no such object, and the informer returns to the same watch
with the same revision.
-/

namespace Inferx.Metastore

variable {V : Type}

/-- The errors of the store of an informer. -/
inductive StoreError where
  /-- `ThreadSafeStore Add get not none prev obj with obj` and the key -/
  | notNone (key : String)
  /-- `ThreadSafeStore Update get none prev obj with key` and the key, also of a deletion -/
  | noPrev (key : String)
  deriving DecidableEq, Repr

/-- What becomes of an event in the loop of `WatchUpdate`. -/
inductive Consumed (V : Type) where
  /-- the loop goes on to the next event -/
  | goesOn (x : Informer V)
  /-- the loop is left with an error -/
  | fails (x : Informer V) (error : StoreError)
  /-- the type of the event is not expected -/
  | panics

/-- The informer afterwards. -/
def Consumed.informer? : Consumed V → Option (Informer V)
  | .goesOn x => some x
  | .fails x _ => some x
  | .panics => none

namespace Informer

/-- `Informer::WatchUpdate` for one event, with its distribution. -/
def consume (x : Informer V) (e : WatchEvent V) : Consumed V :=
  let x := { x with revision := e.obj.channelRev }
  if x.seen e then .goesOn x
  else
    match e.type with
    | .added =>
      let p := storeAdd x.store e.obj
      let x := { x with store := p.1 }
      if p.2 then .goesOn (x.distribute ⟨.added, false, e.obj, none⟩ x.pending)
      else .fails x (.notNone e.obj.key)
    | .modified =>
      let p := storeUpdate x.store e.obj
      let x := { x with store := p.1 }
      match p.2 with
      | some old => .goesOn (x.distribute ⟨.modified, false, e.obj, some old⟩ x.pending)
      | none => .fails x (.noPrev e.obj.key)
    | .deleted =>
      let p := storeDelete x.store e.obj
      let x := { x with store := p.1 }
      match p.2 with
      | some old => .goesOn (x.distribute ⟨.deleted, false, e.obj, some old⟩ x.pending)
      | none => .fails x (.noPrev e.obj.key)
    | _ => .panics

/-- The events one after the other; after an error the watch is opened again. -/
def consumeAll (x : Informer V) (l : List (WatchEvent V)) : Option (Informer V) :=
  l.foldlM (fun x e => (x.consume e).informer?) x

/-- Consuming the event makes no difference: the loop goes on, the store stays as it is, and the
handlers are given nothing. -/
def Harmless (x : Informer V) (e : WatchEvent V) : Prop :=
  ∃ x', x.consume e = .goesOn x' ∧ x'.store = x.store ∧ x'.handlers = x.handlers

section Consume

variable {x x' : Informer V} {e : WatchEvent V}

theorem consume_of_seen (h : x.seen e = true) :
    x.consume e = .goesOn { x with revision := e.obj.channelRev } := by
  unfold consume
  dsimp only
  exact if_pos h

theorem harmless_of_seen (h : x.seen e = true) : x.Harmless e := ⟨_, consume_of_seen h, rfl, rfl⟩

/-- The store after an event that the informer has not seen. -/
theorem store_of_consume (hseen : x.seen e = false) (h : (x.consume e).informer? = some x') :
    e.type ≠ .deleted ∧ x'.store = x.store.insert e.obj.key e.obj ∨
      e.type = .deleted ∧ x'.store = x.store.erase e.obj.key := by
  have hseen' : ({ x with revision := e.obj.channelRev } : Informer V).seen e = false := hseen
  unfold consume at h
  dsimp only at h
  rw [if_neg (Bool.eq_false_iff.mp hseen')] at h
  split at h
  next htype =>
    refine Or.inl ⟨htype ▸ EventType.noConfusion, ?_⟩
    split at h
    next =>
      obtain rfl := Option.some.inj h
      rfl
    next =>
      obtain rfl := Option.some.inj h
      rfl
  next htype =>
    refine Or.inl ⟨htype ▸ EventType.noConfusion, ?_⟩
    split at h
    next =>
      obtain rfl := Option.some.inj h
      rfl
    next =>
      obtain rfl := Option.some.inj h
      rfl
  next htype =>
    refine Or.inr ⟨htype, ?_⟩
    split at h
    next =>
      obtain rfl := Option.some.inj h
      rfl
    next =>
      obtain rfl := Option.some.inj h
      rfl
  next => cases h

/-- A deletion of what is not there fails, and leaves the informer as it is. -/
theorem consume_deleted_absent (htype : e.type = .deleted) (habsent : x.store[e.obj.key]? = none) :
    x.consume e = .fails { x with revision := e.obj.channelRev } (.noPrev e.obj.key) := by
  have hseen : ({ x with revision := e.obj.channelRev } : Informer V).seen e = false := by
    simp [seen, habsent]
  unfold consume
  dsimp only
  rw [if_neg (Bool.eq_false_iff.mp hseen), htype]
  have herase : x.store.erase e.obj.key = x.store := by
    refine Std.ExtTreeMap.ext_getElem? fun k => ?_
    rw [BTreeMap.get_erase]
    split
    next heq => rw [heq, habsent]
    next => rfl
  simp [storeDelete, habsent, herase]

/-- **One repetition.** An event that has been consumed can come again exactly if it was not a
deletion that the informer had not seen. -/
theorem harmless_iff (h : (x.consume e).informer? = some x') :
    x'.Harmless e ↔ (e.type = .deleted → x.seen e = true) := by
  rcases hseen : x.seen e
  · rcases store_of_consume hseen h with ⟨htype, hstore⟩ | ⟨htype, hstore⟩
    · refine iff_of_true (harmless_of_seen ?_) fun hdel => absurd hdel htype
      simp [seen, hstore]
    · refine iff_of_false ?_ fun hall => Bool.false_ne_true (hall htype)
      rintro ⟨x'', hgoes, -⟩
      have habsent : x'.store[e.obj.key]? = none := by
        rw [hstore, BTreeMap.get_erase, if_pos rfl]
      rw [consume_deleted_absent htype habsent] at hgoes
      cases hgoes
  · rw [consume_of_seen hseen] at h
    obtain rfl := Option.some.inj h
    exact iff_of_true (harmless_of_seen hseen) fun _ => rfl

end Consume

/-! ## Runs -/

section Runs

variable {x₀ x x' : Informer V} {e : WatchEvent V} {l : List (WatchEvent V)}

theorem consumeAll_concat : x₀.consumeAll (l ++ [e]) =
    (x₀.consumeAll l).bind fun x => (x.consume e).informer? := by
  unfold consumeAll
  rw [List.foldlM_append]
  refine bind_congr fun x => ?_
  rw [List.foldlM_cons]
  exact Option.bind_fun_some _

/-- **Redelivery.** Wherever a run is interrupted, its last event can come again exactly if it is
not a deletion that the informer had not seen. -/
theorem redelivery_iff (x₀ : Informer V) (l : List (WatchEvent V)) (e : WatchEvent V)
    (hrun : x₀.consumeAll (l ++ [e]) = some x') :
    x'.Harmless e ↔ (e.type = .deleted → ∀ x, x₀.consumeAll l = some x → x.seen e = true) := by
  rw [consumeAll_concat] at hrun
  obtain ⟨x, hx, hstep⟩ := Option.bind_eq_some_iff.mp hrun
  rw [harmless_iff hstep]
  refine imp_congr_right fun _ => ⟨fun h x₁ hx₁ => ?_, fun h => h x hx⟩
  obtain rfl := Option.some.inj (hx.symm.trans hx₁)
  exact h

/-- A modification that is new to the informer, and one that is not. -/
theorem redelivery_two :
    let o : DataObject Unit := { objType := "node", tenant := "acme", nameSpace := "ns", name := "a",
                                 channelRev := 1, revision := 1, object := () }
    ∃ x', ({} : Informer Unit).consumeAll
    ([⟨.added, o⟩] ++ [⟨.modified, o.copyWithRev 2 2⟩]) = some x' ∧
      x'.Harmless ⟨.modified, o.copyWithRev 2 2⟩ := by
  intro o
  obtain ⟨x', hrun⟩ : ∃ x', ({} : Informer Unit).consumeAll
      ([⟨.added, o⟩] ++ [⟨.modified, o.copyWithRev 2 2⟩]) = some x' :=
    Option.isSome_iff_exists.mp (by decide +kernel)
  exact ⟨x', hrun, (redelivery_iff _ _ _ hrun).mpr EventType.noConfusion⟩

/-- **A deletion comes again.** The server has sent an addition and a deletion, and the informer
has consumed both. A watch from the revision of the informer on starts with the deletion, and the
informer fails on it without having moved. -/
theorem deletion_redelivered :
    let o : DataObject Unit := { objType := "node", tenant := "acme", nameSpace := "ns", name := "a",
                                 revision := 1, object := () }
    let e : WatchEvent Unit := ⟨.deleted, o.copyWithRev 2 2⟩
    let cs := (({ objectType := "node" } : CacheStore Unit).watch "" 0 fun _ => true).1.processCalls
      [⟨fun _ => false, 1, ⟨.added, o⟩⟩, ⟨fun _ => false, 2, ⟨.deleted, o.copyWithRev 0 2⟩⟩]
    cs.watchers[1]?.map CacheWatcher.sent = some [⟨.added, o.copyWithRev 1 1⟩, e] ∧
      ∃ x, ({} : Informer Unit).consumeAll [⟨.added, o.copyWithRev 1 1⟩, e] = some x ∧
        x.revision = 2 ∧
        (cs.watch "" 2 fun _ => true).1.watchers[2]?.map CacheWatcher.sent = some [e] ∧
        x.consume e = .fails x (.noPrev "acme/ns/a") ∧ ¬ x.Harmless e := by
  intro o e cs
  have hconsumed : (({} : Informer Unit).consumeAll [⟨.added, o.copyWithRev 1 1⟩, e]).map
      (fun x => (x.revision, x.store["acme/ns/a"]?)) = some (2, none) := by decide +kernel
  obtain ⟨x, hx, heq⟩ := Option.map_eq_some_iff.mp hconsumed
  obtain ⟨hrev, habsent⟩ := Prod.mk.inj heq
  have hfails : x.consume e = .fails x (.noPrev "acme/ns/a") := by
    have hsame : { x with revision := e.obj.channelRev } = x := by
      have hrev' : e.obj.channelRev = x.revision := hrev.symm
      rw [hrev']
    have h := consume_deleted_absent (x := x) (e := e) rfl habsent
    rw [hsame] at h
    exact h
  refine ⟨by decide +kernel, x, hx, hrev, by decide +kernel, hfails, ?_⟩
  rintro ⟨x', hgoes, -⟩
  rw [hfails] at hgoes
  cases hgoes

end Runs

end Informer

end Inferx.Metastore
