import Inferx.Gateway.External
import Inferx.Lib.StableSort

/-!
# Affinity of tenants to replicas

Each tenant has an order of the replicas, by rendezvous hashing: every replica gets a
score from the tenant and the replica's id, and the sort by score is stable. So the
order of some of the replicas is the order of all, restricted to them, and a replica
that comes or goes moves no tenant between the others.
-/

namespace Inferx.Gateway.External

open StableSort

/-- `affinity_order`. The hash of a tenant and a replica id is given. -/
def affinityOrder (hrwScore : String → ReplicaId → UInt64) (replicas : List DiscoveredReplica)
    (tenant : String) : List DiscoveredReplica :=
  let scored := replicas.map fun r => (hrwScore tenant r.id, r)
  (scored.mergeSort fun a b => decide (b.1 ≤ a.1)).map Prod.snd

variable (hrwScore : String → ReplicaId → UInt64) (tenant : String)

/-- The order of two replicas for a tenant. -/
def goesBefore (a b : DiscoveredReplica) : Bool :=
  decide (hrwScore tenant b.id ≤ hrwScore tenant a.id)

theorem goesBefore_isOrder : IsOrder (goesBefore hrwScore tenant) where
  trans a b c hab hbc :=
    decide_eq_true (UInt64.le_trans (of_decide_eq_true hbc) (of_decide_eq_true hab))
  total a b := by
    rw [Bool.or_eq_true]
    exact (UInt64.le_total (hrwScore tenant b.id) (hrwScore tenant a.id)).imp decide_eq_true
      decide_eq_true

theorem affinityOrder_eq (replicas : List DiscoveredReplica) :
    affinityOrder hrwScore replicas tenant = replicas.mergeSort (goesBefore hrwScore tenant) := by
  unfold affinityOrder
  dsimp only
  have hmap := List.map_mergeSort (r := goesBefore hrwScore tenant)
    (s := fun a b : UInt64 × DiscoveredReplica => decide (b.1 ≤ a.1))
    (f := fun r => (hrwScore tenant r.id, r)) (l := replicas) fun a _ b _ => rfl
  rw [← hmap, List.map_map]
  exact List.map_id _

theorem affinityOrder_perm (replicas : List DiscoveredReplica) :
    (affinityOrder hrwScore replicas tenant).Perm replicas := by
  rw [affinityOrder_eq]
  exact List.mergeSort_perm _ _

/-- The order of some replicas. -/
theorem affinityOrder_filter (p : DiscoveredReplica → Bool) (replicas : List DiscoveredReplica) :
    affinityOrder hrwScore (replicas.filter p) tenant
      = (affinityOrder hrwScore replicas tenant).filter p := by
  rw [affinityOrder_eq, affinityOrder_eq, mergeSort_filter (goesBefore_isOrder hrwScore tenant)]

/-- A change of a replica that keeps its id. -/
theorem affinityOrder_map {f : DiscoveredReplica → DiscoveredReplica} (hf : ∀ r, (f r).id = r.id)
    (replicas : List DiscoveredReplica) :
    affinityOrder hrwScore (replicas.map f) tenant
      = (affinityOrder hrwScore replicas tenant).map f := by
  rw [affinityOrder_eq, affinityOrder_eq]
  refine (List.map_mergeSort fun a _ b _ => ?_).symm
  unfold goesBefore
  rw [hf, hf]

/-- The order in which different scores come does not matter. -/
theorem affinityOrder_perm_eq {replicas replicas' : List DiscoveredReplica}
    (hperm : replicas.Perm replicas')
    (hscores : (replicas.map fun r => hrwScore tenant r.id).Nodup) :
    affinityOrder hrwScore replicas tenant = affinityOrder hrwScore replicas' tenant := by
  rw [affinityOrder_eq, affinityOrder_eq]
  refine mergeSort_perm_eq (goesBefore_isOrder hrwScore tenant) hperm fun a ha b hb hab hba => ?_
  have hscore : hrwScore tenant a.id = hrwScore tenant b.id :=
    UInt64.le_antisymm (of_decide_eq_true hba) (of_decide_eq_true hab)
  exact List.inj_on_of_nodup_map hscores ha hb hscore

theorem nodup_of_ids {replicas : List DiscoveredReplica}
    (h : (replicas.map DiscoveredReplica.id).Nodup) : replicas.Nodup := h.of_map _

/-- The order without one of the replicas. -/
theorem affinityOrder_without {replicas : List DiscoveredReplica}
    (hids : (replicas.map DiscoveredReplica.id).Nodup) {r first : DiscoveredReplica}
    {rest : List DiscoveredReplica} (hr : r ∈ replicas)
    (horder : affinityOrder hrwScore replicas tenant = first :: rest) :
    (affinityOrder hrwScore (replicas.filter fun q => q.id ≠ r.id) tenant).head?
      = if first = r then rest.head? else some first := by
  have hperm := affinityOrder_perm hrwScore tenant replicas
  rw [horder] at hperm
  have hids' : ((first :: rest).map DiscoveredReplica.id).Nodup :=
    (hperm.map DiscoveredReplica.id).nodup_iff.mpr hids
  have hinj : ∀ q ∈ first :: rest, q.id = r.id → q = r := fun q hq h =>
    List.inj_on_of_nodup_map hids' hq (hperm.mem_iff.mpr hr) h
  rw [affinityOrder_filter, horder]
  split
  next hfirst =>
    -- no other replica has the id of the first one
    have hrest : rest.filter (fun q => decide (q.id ≠ r.id)) = rest := by
      refine List.filter_eq_self.mpr fun q hq => decide_eq_true fun h => ?_
      have hqr := hinj q (List.mem_cons_of_mem first hq) h
      have hnodup := nodup_of_ids hids'
      rw [hfirst] at hnodup
      exact (List.nodup_cons.mp hnodup).1 (hqr ▸ hq)
    rw [List.filter_cons_of_neg (by simp [hfirst]), hrest]
  next hfirst =>
    have hne : first.id ≠ r.id := fun h => hfirst (hinj first List.mem_cons_self h)
    rw [List.filter_cons_of_pos (by simpa using hne)]
    rfl

/-- A part of a list without duplicates is what is in it. -/
theorem filter_mem_part {part replicas : List DiscoveredReplica} (h : part.Sublist replicas)
    (hnodup : replicas.Nodup) : (replicas.filter fun r => decide (r ∈ part)) = part := by
  induction h with
  | slnil => rfl
  | @cons part replicas r h ih =>
    obtain ⟨hr, hnodup⟩ := List.nodup_cons.mp hnodup
    rw [List.filter_cons_of_neg (by simpa using fun hp => hr (h.subset hp)), ih hnodup]
  | @cons_cons part replicas r h ih =>
    obtain ⟨hr, hnodup⟩ := List.nodup_cons.mp hnodup
    have hrest : (replicas.filter fun q => decide (q ∈ r :: part))
        = replicas.filter fun q => decide (q ∈ part) := by
      refine List.filter_congr fun q hq => decide_eq_decide.mpr ?_
      have hne : q ≠ r := fun h => hr (h ▸ hq)
      simp [hne]
    rw [List.filter_cons_of_pos (by simp), hrest, ih hnodup]

/-- The order without a replica that comes. -/
theorem affinityOrder_with {front back : List DiscoveredReplica} {r : DiscoveredReplica}
    (hr : r.id ∉ (front ++ back).map DiscoveredReplica.id) :
    (affinityOrder hrwScore (front ++ r :: back) tenant).filter (fun q => decide (q.id ≠ r.id))
      = affinityOrder hrwScore (front ++ back) tenant := by
  have hall : ∀ q ∈ front ++ back, q.id ≠ r.id := fun q hq h => hr (h ▸ List.mem_map_of_mem hq)
  have hfront : front.filter (fun q => decide (q.id ≠ r.id)) = front :=
    List.filter_eq_self.mpr fun q hq => decide_eq_true (hall q (List.mem_append_left back hq))
  have hback : back.filter (fun q => decide (q.id ≠ r.id)) = back :=
    List.filter_eq_self.mpr fun q hq => decide_eq_true (hall q (List.mem_append_right front hq))
  rw [← affinityOrder_filter, List.filter_append, List.filter_cons_of_neg (by simp), hfront, hback]

/-- **Rendezvous hashing remaps as little as possible.** -/
theorem affinityOrder_remaps (replicas : List DiscoveredReplica)
    (hids : (replicas.map DiscoveredReplica.id).Nodup) :
    (affinityOrder hrwScore replicas tenant).Perm replicas ∧
    -- the order of some of the replicas
    (∀ part, part.Sublist replicas → affinityOrder hrwScore part tenant
      = (affinityOrder hrwScore replicas tenant).filter fun r => decide (r ∈ part)) ∧
    -- a replica goes
    (∀ r ∈ replicas, ∀ first rest, affinityOrder hrwScore replicas tenant = first :: rest →
      (affinityOrder hrwScore (replicas.filter fun q => q.id ≠ r.id) tenant).head?
        = if first = r then rest.head? else some first) ∧
    -- a replica comes
    (∀ front back r, front ++ back = replicas → r.id ∉ replicas.map DiscoveredReplica.id →
      ∀ first rest, affinityOrder hrwScore (front ++ r :: back) tenant = first :: rest →
        first = r ∨ (affinityOrder hrwScore replicas tenant).head? = some first) ∧
    -- addresses do not matter
    (∀ f : DiscoveredReplica → DiscoveredReplica, (∀ r, (f r).id = r.id) →
      affinityOrder hrwScore (replicas.map f) tenant
        = (affinityOrder hrwScore replicas tenant).map f) ∧
    -- neither does the order of the list, unless scores are equal
    ((replicas.map fun r => hrwScore tenant r.id).Nodup → ∀ replicas', replicas.Perm replicas' →
      affinityOrder hrwScore replicas' tenant = affinityOrder hrwScore replicas tenant) := by
  refine ⟨affinityOrder_perm hrwScore tenant replicas, fun part hpart => ?_,
    fun r hr first rest => affinityOrder_without hrwScore tenant hids hr, ?_,
    fun f hf => affinityOrder_map hrwScore tenant hf replicas,
    fun hscores replicas' hperm => (affinityOrder_perm_eq hrwScore tenant hperm hscores).symm⟩
  · rw [← affinityOrder_filter, filter_mem_part hpart (nodup_of_ids hids)]
  · rintro front back r rfl hr first rest horder
    by_cases hfirst : first.id = r.id
    · left
      have hmem : first ∈ front ++ r :: back :=
        (affinityOrder_perm hrwScore tenant _).mem_iff.mp (horder ▸ List.mem_cons_self)
      rcases List.mem_append.mp hmem with h | h
      · exact absurd (hfirst ▸ List.mem_map_of_mem (List.mem_append_left back h)) hr
      · rcases List.mem_cons.mp h with h | h
        · exact h
        · exact absurd (hfirst ▸ List.mem_map_of_mem (List.mem_append_right front h)) hr
    · right
      rw [← affinityOrder_with hrwScore tenant hr, horder,
        List.filter_cons_of_pos (by simpa using hfirst)]
      rfl

/-- With two scores the order of the list does not matter. -/
theorem affinityOrder_remaps_run :
    affinityOrder (fun _ id => if id = "a" then 1 else 2) [⟨"b", "http://x", none⟩, ⟨"a", "http://x", none⟩] "t" =
      affinityOrder (fun _ id => if id = "a" then 1 else 2) [⟨"a", "http://x", none⟩, ⟨"b", "http://x", none⟩] "t" :=
  (affinityOrder_remaps (fun _ id => if id = "a" then 1 else 2) "t" _ (by decide)).2.2.2.2.2 (by decide) _
    (List.Perm.swap ..)

end Inferx.Gateway.External
