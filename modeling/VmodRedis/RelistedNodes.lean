import Mathlib.Data.List.Forall2
import VmodRedis.RegistryInvariant

/-!
What an answer to `CLUSTER SHARDS` does to the order of the lists of servers.
-/

namespace VmodRedis.Discovery

open CStrings Replies Database Connections Registry

def Visit.node (tls : Tls) (host : Bytes) (visit : Visit) : Option Node :=
  (parseNode tls host visit.2).filter fun node => node.location.length < 256

def announced (db : Db) (s : ServerId) : Option Reply → List Node
  | some (.array shards) =>
    (shards.flatMap shardVisits).filterMap (Visit.node db.tls (hostname (db.server s).address))
  | _ => []

/-- Every node once, in the order in which they are mentioned last. -/
def lastMentions (nodes : List Node) : List Node :=
  nodes.foldl (fun last node => last.filter (·.location ≠ node.location) ++ [node]) []

def Named (db : Db) (node : Node) (s : ServerId) : Prop :=
  db.Registered s ∧ (db.server s).raw = node.location ∧ (db.server s).role = node.role

/-- The nodes are known servers of the same role and, in the order in which they are mentioned last, they
stand at the ends of their lists. -/
def InPlace (db : Db) (nodes : List Node) : Prop :=
  ∃ servers, List.Forall₂ (Named db) (lastMentions nodes) servers ∧
    ∀ b, servers.filter (fun s => (db.server s).bucket = b) <:+ db.servers b

theorem InPlace.nil (db : Db) : InPlace db [] := ⟨[], .nil, fun _ => List.nil_suffix⟩

theorem lastMentions_append (nodes : List Node) (node : Node) : lastMentions (nodes ++ [node]) =
    (lastMentions nodes).filter (·.location ≠ node.location) ++ [node] := by
  rw [lastMentions, List.foldl_append]
  rfl

theorem mem_lastMentions {node : Node} (nodes : List Node) (h : node ∈ lastMentions nodes) : node ∈ nodes := by
  induction nodes using List.reverseRecOn with
  | nil => exact h
  | append_singleton nodes last ih =>
    rw [lastMentions_append, List.mem_append] at h
    rw [List.mem_append]
    exact h.imp_left fun hm => ih (List.mem_of_mem_filter hm)

theorem exists_lastMentions {node : Node} (nodes : List Node) (h : node ∈ nodes) :
    ∃ last ∈ lastMentions nodes, last.location = node.location := by
  induction nodes using List.reverseRecOn with
  | nil => exact absurd h List.not_mem_nil
  | append_singleton nodes n ih =>
    rw [lastMentions_append]
    by_cases hn : node.location = n.location
    · exact ⟨n, List.mem_append_right _ (List.mem_singleton_self n), hn.symm⟩
    · have hm : node ∈ nodes := (List.mem_append.mp h).resolve_right fun he => hn (by rw [List.mem_singleton.mp he])
      obtain ⟨last, hlast, he⟩ := ih hm
      exact ⟨last, List.mem_append_left _ (List.mem_filter.mpr ⟨hlast, by simpa [he] using hn⟩), he⟩

theorem forall₂_filter {α β : Type} {R R' : α → β → Prop} {l : List α} {m : List β} {p : α → Bool} {q : β → Bool}
    (h : List.Forall₂ R l m) (hpq : ∀ a b, R a b → p a = q b) (hi : ∀ a b, R a b → q b = true → R' a b) :
    List.Forall₂ R' (l.filter p) (m.filter q) := by
  induction h with
  | nil => exact .nil
  | @cons a b l m hab h ih =>
    cases hq : q b with
    | true =>
      rw [List.filter_cons_of_pos ((hpq a b hab).trans hq), List.filter_cons_of_pos hq]
      exact .cons (hi a b hab hq) ih
    | false =>
      rw [List.filter_cons_of_neg (by simp [hpq a b hab, hq]), List.filter_cons_of_neg (by simp [hq])]
      exact ih

theorem exists_left {α β : Type} {R : α → β → Prop} {l : List α} {m : List β} (h : List.Forall₂ R l m) {b : β}
    (hb : b ∈ m) : ∃ a ∈ l, R a b := by
  induction h with
  | nil => exact absurd hb List.not_mem_nil
  | @cons a c l m hac h ih =>
    rcases List.mem_cons.mp hb with rfl | hb
    · exact ⟨a, List.mem_cons_self, hac⟩
    · obtain ⟨a', ha, hr⟩ := ih hb
      exact ⟨a', List.mem_cons_of_mem a ha, hr⟩

structure Relists (db : Db) (nodes : List Node) (servers : List ServerId) (db' : Db) : Prop where
  named : List.Forall₂ (Named db') (lastMentions nodes) servers
  nodup : servers.Nodup
  relisted : Buckets.Relisted (fun s => (db'.server s).bucket) db.servers servers db'.servers

namespace Relists

variable {db d d' : Db} {nodes : List Node} {servers : List ServerId}

theorem start (db : Db) : Relists db [] [] db := ⟨.nil, List.nodup_nil, .nil _ _⟩

theorem slots (h : Relists db nodes servers d) (hs : SlotsOnly d d') : Relists db nodes servers d' := by
  constructor
  case named =>
    refine h.named.imp fun node s hm => ?_
    obtain ⟨hreg, hraw, hrole⟩ := hm
    exact ⟨(hs.registered s).mpr hreg, (hs.raw s).trans hraw, (congrArg Prod.snd (hs.bucket s)).trans hrole⟩
  case nodup => exact h.nodup
  case relisted =>
    rw [hs.servers, funext hs.bucket]
    exact h.relisted

theorem add (h : Relists db nodes servers d) (hw : WellPlaced d) {node : Node} {s : ServerId}
    (ha : Added d s d') (hw' : WellPlaced d') (hraw : (d'.server s).raw = node.location)
    (hrole : (d'.server s).role = node.role)
    (hservers : d'.servers = Buckets.insert (fun t => (d'.server t).bucket) s
      (Buckets.remove (fun t => (d.server t).bucket) s d.servers)) :
    Relists db (nodes ++ [node]) (Buckets.moveToTail s servers) d' := by
  have hs : d'.Registered s := (ha.registered s).mpr (Or.inr rfl)
  constructor
  case named =>
    rw [lastMentions_append, Buckets.moveToTail, Buckets.erase_eq_filter_ne h.nodup]
    refine List.rel_append (forall₂_filter h.named ?_ ?_) (.cons ⟨hs, hraw, hrole⟩ .nil)
    · rintro n t ⟨ht, hn, -⟩
      have ht' : d'.Registered t := (ha.registered t).mpr (Or.inl ht)
      have hraw' : (d'.server t).raw = n.location := (ha.retains.raw t ht).trans hn
      have hsame : n.location = node.location ↔ t = s := by
        rw [← hraw, ← hraw']
        exact ⟨hw'.raw_injective t s ht' hs, congrArg fun u => (d'.server u).raw⟩
      simp [hsame]
    · rintro n t ⟨ht, hn, hr⟩ hts
      rw [decide_eq_true_eq] at hts
      unfold Named
      rw [ha.registered, ha.others t hts]
      exact ⟨Or.inl ht, hn, hr⟩
  case nodup => exact Buckets.moveToTail_nodup h.nodup
  case relisted =>
    rw [hservers]
    refine h.relisted.move hw.placed h.nodup fun t ht => ?_
    rw [ha.others t ht]

theorem mem_iff (h : Relists db nodes servers d) (hr : Retains db d) (hw : WellPlaced d) {s : ServerId}
    (hs : db.Registered s) : s ∈ servers ↔ ∃ node ∈ nodes, node.location = (db.server s).raw := by
  rw [← hr.raw s hs]
  constructor
  · intro hm
    obtain ⟨node, hn, -, hraw, -⟩ := exists_left h.named hm
    exact ⟨node, mem_lastMentions nodes hn, hraw.symm⟩
  · rintro ⟨node, hn, hloc⟩
    obtain ⟨last, hlast, he⟩ := exists_lastMentions nodes hn
    obtain ⟨t, ht, hreg, hraw, -⟩ := exists_left h.named.flip hlast
    have hts : t = s := hw.raw_injective t s hreg (hr.registered s hs) (by rw [hraw, he, hloc])
    exact hts ▸ ht

end Relists

section

variable {db : Db} {host : Bytes} {visits : List Visit} {topology : Topology}

end

end VmodRedis.Discovery
