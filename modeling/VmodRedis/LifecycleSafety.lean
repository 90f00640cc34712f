import Mathlib.Data.List.Count
import VmodRedis.Lifecycle

namespace VmodRedis.Lifecycle

open CStrings Database DatabaseCreation Connections SentinelLocations SentinelInventory SentinelLoop TransitionSystem

def Vcl.loaded (vcl : Vcl) : Bool := vcl.temperature = .cold || vcl.temperature = .warm

structure Attached (vcl : Vcl) (t : Thread) : Prop where
  id : t.id = vcl.thread
  settings : vcl.settings = some t.settings
  sentinels : t.sentinels ≠ [] ∧ ∃ error,
    unsafeSetLocations (enoughFuel t.settings.locations) [] t.settings.locations = .ok (error, t.sentinels)
  run : (loop t.settings.period).Reachable (t.run vcl.config)
  ended : t.ended = true → t.phase = .stopped

structure Vcl.Sound (p : Process) (v : VclId) (vcl : Vcl) : Prop where
  dbs : ∀ db ∈ vcl.config.dbs, ∃ options, (RegistryInvariant.registry options).Reachable db
  idle : vcl.thread = 0 → vcl.config.active = false
  running : vcl.thread ≠ 0 → vcl.temperature = .warm ∧ (vcl.config.active = false → p.joining = some v) ∧
    ∃ t ∈ p.threads, t.vcl = v
  joining : p.joining = some v → vcl.thread ≠ 0 ∧ vcl.config.active = false

structure Inv (p : Process) : Prop where
  refs : p.refs = p.vcls.countP Vcl.loaded
  classes : p.classes = if p.refs = 0 then 0 else 1
  ids : (p.threads.map Thread.id).Nodup
  nonzero : ∀ t ∈ p.threads, t.id ≠ 0
  attached : ∀ t ∈ p.threads, ∃ vcl : Vcl, p.vcls[t.vcl]? = some vcl ∧ Attached vcl t
  sound : ∀ (v : VclId) (vcl : Vcl), p.vcls[v]? = some vcl → vcl.Sound p v
  joining : ∀ v, p.joining = some v → v < p.vcls.length

section

variable {p p' : Process} {v : VclId} {vcl vcl' : Vcl} {t : Thread}

theorem Inv.of_attached (h : Inv p) (ht : t ∈ p.threads) (hv : p.vcls[t.vcl]? = some vcl) : Attached vcl t := by
  obtain ⟨vcl', hv', ha⟩ := h.attached t ht
  rw [hv, Option.some.injEq] at hv'
  exact hv' ▸ ha

theorem Inv.no_thread (h : Inv p) (hv : p.vcls[v]? = some vcl) (hthread : vcl.thread = 0) : ∀ t ∈ p.threads, t.vcl ≠ v := by
  rintro t ht rfl
  have ha := h.of_attached ht hv
  exact h.nonzero t ht (ha.id.trans hthread)

theorem Inv.idle (h : Inv p) (hv : p.vcls[v]? = some vcl) (ht : vcl.temperature ≠ .warm) :
    vcl.thread = 0 ∧ vcl.config.active = false := by
  have hs := h.sound v vcl hv
  have hthread : vcl.thread = 0 := by
    by_contra hne
    exact ht (hs.running hne).1
  exact ⟨hthread, hs.idle hthread⟩

theorem Inv.change (h : Inv p) (hv : p.vcls[v]? = some vcl) (hvcls : p'.vcls = p.vcls.set v vcl')
    (hrefs : p'.refs = p'.vcls.countP Vcl.loaded) (hclasses : p'.classes = if p'.refs = 0 then 0 else 1)
    (hids : (p'.threads.map Thread.id).Nodup) (hnonzero : ∀ t ∈ p'.threads, t.id ≠ 0)
    (hjoining : ∀ u, u ≠ v → (p'.joining = some u ↔ p.joining = some u))
    (hthreads : ∀ t, t.vcl ≠ v → (t ∈ p'.threads ↔ t ∈ p.threads))
    (hattached : ∀ t ∈ p'.threads, t.vcl = v → Attached vcl' t) (hsound : vcl'.Sound p' v) : Inv p' where
  refs := hrefs
  classes := hclasses
  ids := hids
  nonzero := hnonzero
  attached t ht := by
    have hlt : v < p.vcls.length := (List.getElem?_eq_some_iff.mp hv).1
    rw [hvcls]
    by_cases hvt : t.vcl = v
    · exact ⟨vcl', by rw [hvt, List.getElem?_set_self hlt], hattached t ht hvt⟩
    · rw [List.getElem?_set_ne (Ne.symm hvt)]
      exact h.attached t ((hthreads t hvt).mp ht)
  sound u vcl₁ hu := by
    have hlt : v < p.vcls.length := (List.getElem?_eq_some_iff.mp hv).1
    rw [hvcls] at hu
    by_cases huv : u = v
    · rw [huv, List.getElem?_set_self hlt, Option.some.injEq] at hu
      rw [huv, ← hu]
      exact hsound
    · rw [List.getElem?_set_ne (Ne.symm huv)] at hu
      have hs := h.sound u vcl₁ hu
      refine ⟨hs.dbs, hs.idle, fun hne => ?_, fun hj => hs.joining ((hjoining u huv).mp hj)⟩
      obtain ⟨hwarm, hj, t, ht, htu⟩ := hs.running hne
      refine ⟨hwarm, fun ha => (hjoining u huv).mpr (hj ha), t, ?_, htu⟩
      exact (hthreads t (by rw [htu]; exact huv)).mpr ht
  joining u hu := by
    rw [hvcls, List.length_set]
    by_cases huv : u = v
    · rw [huv]
      exact (List.getElem?_eq_some_iff.mp hv).1
    · exact h.joining u ((hjoining u huv).mp hu)

theorem countP_set (hv : p.vcls[v]? = some vcl) (hl : vcl'.loaded = vcl.loaded) :
    (p.vcls.set v vcl').countP Vcl.loaded = p.vcls.countP Vcl.loaded := by
  obtain ⟨hlt, hget⟩ := List.getElem?_eq_some_iff.mp hv
  have hpos : vcl.loaded = true → 0 < p.vcls.countP Vcl.loaded := fun hvl =>
    List.countP_pos_iff.mpr ⟨vcl, List.mem_of_getElem? hv, hvl⟩
  rw [List.countP_set hlt, hget, hl]
  cases hvl : vcl.loaded with
  | false => simp
  | true =>
    have := hpos hvl
    simp only [if_true]
    omega

theorem Inv.setVcl (h : Inv p) (hv : p.vcls[v]? = some vcl) (hl : vcl'.loaded = vcl.loaded)
    (hattached : ∀ t ∈ p.threads, t.vcl = v → Attached vcl t → Attached vcl' t)
    (hsound : vcl.Sound p v → vcl'.Sound p v) : Inv (p.setVcl v vcl') := by
  have hs := hsound (h.sound v vcl hv)
  refine h.change hv rfl ?_ h.classes h.ids h.nonzero (fun _ _ => Iff.rfl) (fun _ _ => Iff.rfl) ?_
    ⟨hs.dbs, hs.idle, hs.running, hs.joining⟩
  · exact h.refs.trans (countP_set hv hl).symm
  · rintro t ht rfl
    exact hattached t ht rfl (h.of_attached ht hv)

theorem Attached.sentinels_args (h : Attached vcl t) (build : Build) (environment : Option Bytes) (args : SentinelsArgs) :
    Attached { vcl with settings := vmodSentinels build environment args vcl.settings } t := by
  refine ⟨h.id, ?_, h.sentinels, h.run, h.ended⟩
  simp [vmodSentinels, h.settings]

theorem Attached.use (h : Attached vcl t) {dbs : List Db} (hu : Use vcl.config.dbs dbs) :
    Attached { vcl with config := { vcl.config with dbs := dbs } } t := by
  refine ⟨h.id, h.settings, h.sentinels, h.run.step ?_, h.ended⟩
  cases hu with
  | register options db hdb => exact .register _ options db hdb
  | unregister i => exact .unregister _ i
  | use i db db' hi hs => exact .use _ i db db' hi hs

theorem Use.reachable {dbs dbs' : List Db} (hu : Use dbs dbs')
    (h : ∀ db ∈ dbs, ∃ options, (RegistryInvariant.registry options).Reachable db) :
    ∀ db ∈ dbs', ∃ options, (RegistryInvariant.registry options).Reachable db := by
  intro d hd
  cases hu with
  | register options db hdb =>
    rw [List.mem_append, List.mem_singleton] at hd
    obtain hd | rfl := hd
    · exact h d hd
    · exact ⟨options, hdb⟩
  | unregister i => exact h d (List.mem_of_mem_eraseIdx hd)
  | use i db db' hi hs =>
    obtain hd | rfl := List.mem_or_eq_of_mem_set hd
    · exact h d hd
    · obtain ⟨options, hr⟩ := h db (List.mem_of_getElem? hi)
      exact ⟨options, hr.step hs⟩

theorem releaseContexts_same (db : Db) : SameRegistry db (releaseContexts db).1 := by
  have hfold : ∀ (l : List ServerId) (d : Db × ℕ), SameRegistry d.1 (l.foldl releaseServer d).1 := by
    intro l
    induction l with
    | nil => exact fun d => .refl d.1
    | cons s l ih => exact fun d => (SameRegistry.setPool d.1 s .empty).trans (ih (releaseServer d s))
  exact hfold db.allServers (db, 0)

theorem releasePools_reachable {config : Config}
    (h : ∀ db ∈ config.dbs, ∃ options, (RegistryInvariant.registry options).Reachable db) :
    ∀ db ∈ (releasePools config).dbs, ∃ options, (RegistryInvariant.registry options).Reachable db := by
  intro d hd
  obtain ⟨db, hdb, rfl⟩ := List.mem_map.mp hd
  obtain ⟨options, hr⟩ := h db hdb
  exact ⟨options, hr.step (.other db _ (releaseContexts_same db))⟩

theorem unsafeSetLocations_ok (locations : Bytes) :
    ∃ result, unsafeSetLocations (enoughFuel locations) [] locations = .ok result := by
  obtain ⟨error, sentinels, hrun, -⟩ := unsafeSetLocations_eq locations
  exact ⟨(error, sentinels), hrun (enoughFuel locations) (Nat.lt_succ_self _)⟩

structure Starts (tlsContext : Bool) (vcl : Vcl) (settings : Settings) (sentinels : List Location) : Prop where
  known : vcl.settings = some settings
  tls : settings.tls = true → tlsContext = true
  parsed : ∃ error, unsafeSetLocations (enoughFuel settings.locations) [] settings.locations = .ok (error, sentinels)
  nonempty : sentinels ≠ []

def Process.warmed (p : Process) (v : VclId) (vcl : Vcl) (threads : List Thread) : Process :=
  { p with version := (p.version + 1) % 2 ^ 32, threads := p.threads ++ threads }.setVcl v { vcl with temperature := .warm }

theorem handleVclWarmEvent_starts (hthread : vcl.thread = 0) (ha : vcl.config.active = false) {tlsContext : Bool}
    {settings : Settings} {sentinels : List Location} (hs : Starts tlsContext vcl settings sentinels) (id : ThreadId)
    (v : VclId) (p : Process) :
    handleVclWarmEvent tlsContext id v vcl p = .ok (p.warmed v (vcl.started id) [newThread id v settings sentinels]) := by
  obtain ⟨error, hparsed⟩ := hs.parsed
  have htls : (settings.tls && !tlsContext) = false := by
    have := hs.tls
    cases htls : settings.tls <;> cases tlsContext <;> simp_all
  have hstart : unsafeSentinelStart tlsContext id v vcl = .ok (vcl.started id, some (newThread id v settings sentinels)) := by
    simp [unsafeSentinelStart, hs.known, hthread, ha, htls, hparsed, hs.nonempty]
  simp [handleVclWarmEvent, hs.known, ha, hstart, bind, Except.bind]
  rfl

theorem handleVclWarmEvent_skips (hthread : vcl.thread = 0) (ha : vcl.config.active = false) {tlsContext : Bool}
    (hs : ∀ settings sentinels, ¬ Starts tlsContext vcl settings sentinels) (id : ThreadId) (v : VclId) (p : Process) :
    handleVclWarmEvent tlsContext id v vcl p = .ok (p.warmed v vcl []) := by
  cases hsettings : vcl.settings with
  | none =>
    simp [handleVclWarmEvent, hsettings, Process.warmed]
    rfl
  | some settings =>
    obtain ⟨⟨error, sentinels⟩, hparsed⟩ := unsafeSetLocations_ok settings.locations
    have hstart : unsafeSentinelStart tlsContext id v vcl = .ok (vcl, none) := by
      cases htls : settings.tls && !tlsContext with
      | true => simp [unsafeSentinelStart, hsettings, hthread, ha, htls]
      | false =>
        have hempty : sentinels = [] := by
          by_contra hne
          refine hs settings sentinels ⟨hsettings, fun htrue => ?_, ⟨error, hparsed⟩, hne⟩
          simpa [htrue] using htls
        simp [unsafeSentinelStart, hsettings, hthread, ha, htls, hparsed, hempty]
    simp [handleVclWarmEvent, hsettings, ha, hstart, bind, Except.bind, Process.warmed]
    rfl

theorem Inv.thread_eq (h : Inv p) {t u : Thread} (ht : t ∈ p.threads) (hu : u ∈ p.threads) (hid : t.id = u.id) : t = u :=
  List.inj_on_of_nodup_map h.ids ht hu hid

theorem Inv.index_eq (h : Inv p) {i j : ℕ} {u : Thread} (hi : p.threads[i]? = some t) (hj : p.threads[j]? = some u)
    (hid : u.id = t.id) : j = i := by
  have hlt : j < (p.threads.map Thread.id).length := by
    rw [List.length_map]
    exact (List.getElem?_eq_some_iff.mp hj).1
  apply (List.getElem?_inj hlt h.ids).mp
  rw [List.getElem?_map, List.getElem?_map, hi, hj, Option.map_some, Option.map_some, hid]

theorem Inv.setThread (h : Inv p) {i : ℕ} {t' : Thread} (hi : p.threads[i]? = some t) (hv : p.vcls[t.vcl]? = some vcl)
    (hid : t'.id = t.id) (hvcl : t'.vcl = t.vcl) (hl : vcl'.loaded = vcl.loaded) (ha : Attached vcl' t')
    (hsound : vcl.Sound p t.vcl → vcl'.Sound p t.vcl) :
    Inv ({ p with threads := p.threads.set i t' }.setVcl t.vcl vcl') := by
  obtain ⟨hlt, hget⟩ := List.getElem?_eq_some_iff.mp hi
  have hmem : t' ∈ p.threads.set i t' := List.mem_iff_getElem?.mpr ⟨i, List.getElem?_set_self hlt⟩
  have hs := hsound (h.sound _ vcl hv)
  have hids : (p.threads.set i t').map Thread.id = p.threads.map Thread.id := by
    rw [List.map_set, hid, ← hget, ← List.getElem_map Thread.id (h := by simpa using hlt)]
    exact List.set_getElem_self _
  refine h.change hv rfl ?_ h.classes (hids ▸ h.ids) ?_ (fun _ _ => Iff.rfl) ?_ ?_
    ⟨hs.dbs, hs.idle, fun hne => ?_, hs.joining⟩
  · exact h.refs.trans (countP_set hv hl).symm
  · intro u hu
    obtain hu | rfl := List.mem_or_eq_of_mem_set hu
    · exact h.nonzero u hu
    · rw [hid]
      exact h.nonzero t (List.mem_of_getElem? hi)
  · intro u hne
    constructor
    · intro hu
      obtain hu | rfl := List.mem_or_eq_of_mem_set hu
      · exact hu
      · exact absurd hvcl hne
    · intro hu
      obtain ⟨j, hj⟩ := List.mem_iff_getElem?.mp hu
      have hji : i ≠ j := by
        rintro rfl
        rw [hi, Option.some.injEq] at hj
        exact hne (by rw [hj])
      exact List.mem_iff_getElem?.mpr ⟨j, (List.getElem?_set_ne hji).trans hj⟩
  · intro u hu huv
    obtain ⟨j, hj⟩ := List.mem_iff_getElem?.mp hu
    by_cases hji : i = j
    · subst hji
      change (p.threads.set i t')[i]? = some u at hj
      rw [List.getElem?_set_self hlt, Option.some.injEq] at hj
      exact hj ▸ ha
    · change (p.threads.set i t')[j]? = some u at hj
      rw [List.getElem?_set_ne hji] at hj
      have hu := h.of_attached (List.mem_of_getElem? hj) (huv ▸ hv)
      have ht := h.of_attached (List.mem_of_getElem? hi) hv
      exact absurd (h.index_eq hi hj (hu.id.trans ht.id.symm)).symm hji
  · obtain ⟨hwarm, hj, -⟩ := hs.running hne
    exact ⟨hwarm, hj, t', hmem, hvcl⟩

theorem newVclState_sound (p : Process) (hj : p.joining ≠ some v) : newVclState.Sound p v where
  dbs := by simp [newVclState]
  idle _ := rfl
  running h := absurd rfl h
  joining h := absurd h hj

theorem Inv.load (h : Inv p) (hj : p.joining = none) : Inv (handleVclLoadEvent p) where
  refs := by
    simp only [handleVclLoadEvent, List.countP_append, h.refs]
    rfl
  classes := by
    have hc := h.classes
    simp only [handleVclLoadEvent]
    by_cases hr : p.refs = 0
    · simp [hr] at hc ⊢
      exact hc
    · simp [hr] at hc ⊢
      exact hc
  ids := h.ids
  nonzero := h.nonzero
  attached t ht := by
    obtain ⟨vcl, hv, ha⟩ := h.attached t ht
    have hlt := (List.getElem?_eq_some_iff.mp hv).1
    exact ⟨vcl, (List.getElem?_append_left hlt).trans hv, ha⟩
  sound v vcl hv := by
    simp only [handleVclLoadEvent] at hv
    obtain hlt | hge := Nat.lt_or_ge v p.vcls.length
    · rw [List.getElem?_append_left hlt] at hv
      exact ⟨(h.sound v vcl hv).dbs, (h.sound v vcl hv).idle, (h.sound v vcl hv).running, (h.sound v vcl hv).joining⟩
    · rw [List.getElem?_append_right hge, List.getElem?_singleton] at hv
      split_ifs at hv
      obtain rfl := Option.some.inj hv
      exact newVclState_sound _ (by simp [handleVclLoadEvent, hj])
  joining v hv := by
    simp [handleVclLoadEvent, hj] at hv

theorem Inv.warm (h : Inv p) {tlsContext : Bool} {id : ThreadId} (hv : p.vcls[v]? = some vcl)
    (ht : vcl.temperature = .cold) (hid : id ≠ 0 ∧ ∀ t ∈ p.threads, t.id ≠ id) (hj : p.joining = none)
    (he : handleVclWarmEvent tlsContext id v vcl p = .ok p') : Inv p' := by
  obtain ⟨hthread, hactive⟩ := h.idle hv (by simp [ht])
  have hnone := h.no_thread hv hthread
  have hsound := h.sound v vcl hv
  by_cases hstarts : ∃ settings sentinels, Starts tlsContext vcl settings sentinels
  · obtain ⟨settings, sentinels, hstarts⟩ := hstarts
    rw [handleVclWarmEvent_starts hthread hactive hstarts, Except.ok.injEq] at he
    subst he
    have hloaded : ({ vcl.started id with temperature := .warm } : Vcl).loaded = vcl.loaded := by
      simp [Vcl.loaded, ht]
    refine h.change hv rfl ?_ h.classes ?_ ?_ (fun _ _ => Iff.rfl) ?_ ?_ ?_
    · exact h.refs.trans (countP_set hv hloaded).symm
    · simp only [Process.warmed, Process.setVcl, List.map_append, List.nodup_append]
      refine ⟨h.ids, List.nodup_singleton _, ?_⟩
      rintro a ha b hb rfl
      obtain ⟨t, htm, rfl⟩ := List.mem_map.mp ha
      exact hid.2 t htm (List.mem_singleton.mp hb)
    · intro t htm
      obtain htm | htm := List.mem_append.mp htm
      · exact h.nonzero t htm
      · obtain rfl := List.mem_singleton.mp htm
        exact hid.1
    · intro t hne
      simp only [Process.warmed, Process.setVcl, List.mem_append, List.mem_singleton, or_iff_left_iff_imp]
      rintro rfl
      exact absurd rfl hne
    · intro t htm htv
      obtain htm | htm := List.mem_append.mp htm
      · exact absurd htv (hnone t htm)
      · obtain rfl := List.mem_singleton.mp htm
        refine ⟨rfl, hstarts.known, ⟨hstarts.nonempty, hstarts.parsed⟩, ?_, nofun⟩
        exact System.reachable_init ⟨rfl, rfl, rfl, rfl, rfl, hsound.dbs⟩
    · constructor
      · exact hsound.dbs
      · exact fun hzero => absurd hzero hid.1
      · exact fun _ => ⟨rfl, nofun, newThread id v settings sentinels, by simp [Process.warmed, Process.setVcl], rfl⟩
      · intro hjv
        simp [Process.warmed, Process.setVcl, hj] at hjv
  · rw [handleVclWarmEvent_skips hthread hactive fun settings sentinels hs => hstarts ⟨settings, sentinels, hs⟩,
      Except.ok.injEq] at he
    subst he
    have hp : Inv { p with version := (p.version + 1) % 2 ^ 32, threads := p.threads ++ [] } := by
      rw [List.append_nil]
      exact ⟨h.refs, h.classes, h.ids, h.nonzero, h.attached, fun u vcl₁ hu =>
        ⟨(h.sound u vcl₁ hu).dbs, (h.sound u vcl₁ hu).idle, (h.sound u vcl₁ hu).running, (h.sound u vcl₁ hu).joining⟩,
        h.joining⟩
    refine hp.setVcl hv (by simp [Vcl.loaded, ht]) (fun t htm htv _ => ?_) fun hs => ?_
    · exact absurd htv (hnone t (by simpa using htm))
    · exact ⟨hs.dbs, hs.idle, fun hne => absurd hthread hne, hs.joining⟩

theorem Inv.cool (h : Inv p) (hv : p.vcls[v]? = some vcl) (hthread : vcl.thread = 0) (hl : vcl.loaded = true) :
    Inv (cool v vcl p) := by
  refine h.setVcl hv (by simp [Vcl.loaded] at hl ⊢; simp [hl]) (fun t htm htv _ => absurd htv (h.no_thread hv hthread t htm)) ?_
  intro hs
  exact ⟨releasePools_reachable hs.dbs, hs.idle, fun hne => absurd hthread hne, hs.joining⟩

def Vcl.stopped (vcl : Vcl) : Vcl := { vcl with config := { vcl.config with active := false } }

theorem handleVclColdEvent_spec (h : Inv p) (hv : p.vcls[v]? = some vcl) (hj : p.joining = none) :
    vcl.thread = 0 ∧ handleVclColdEvent v vcl p = .ok (Lifecycle.cool v vcl p) ∨
      vcl.thread ≠ 0 ∧ handleVclColdEvent v vcl p = .ok ({ p with joining := some v }.setVcl v vcl.stopped) := by
  have hsound := h.sound v vcl hv
  by_cases hthread : vcl.thread = 0
  · left
    simp [handleVclColdEvent, hthread, hsound.idle hthread]
    rfl
  · right
    obtain ⟨-, hjoining, t, htm, htv⟩ := hsound.running hthread
    have hatt := h.of_attached htm (htv ▸ hv)
    have hsome : vcl.settings ≠ none := by simp [hatt.settings]
    have ha : vcl.config.active = true := by
      by_contra hna
      have := hjoining (Bool.eq_false_iff.mpr hna)
      simp [hj] at this
    simp [handleVclColdEvent, unsafeSentinelStop, hthread, hsome, ha, bind, Except.bind]
    rfl

theorem Inv.cold (h : Inv p) (hv : p.vcls[v]? = some vcl) (ht : vcl.temperature = .warm) (hj : p.joining = none)
    (he : handleVclColdEvent v vcl p = .ok p') : Inv p' := by
  have hsound := h.sound v vcl hv
  obtain ⟨hthread, heq⟩ | ⟨hthread, heq⟩ := handleVclColdEvent_spec h hv hj
  · rw [he, Except.ok.injEq] at heq
    subst heq
    exact h.cool hv hthread (by simp [Vcl.loaded, ht])
  · rw [he, Except.ok.injEq] at heq
    subst heq
    obtain ⟨-, -, t, htm, htv⟩ := hsound.running hthread
    have hloaded : vcl.stopped.loaded = vcl.loaded := rfl
    refine h.change hv rfl ?_ h.classes h.ids h.nonzero ?_ (fun _ _ => Iff.rfl) ?_ ?_
    · exact h.refs.trans (countP_set hv hloaded).symm
    · intro u hne
      simp [Process.setVcl, hj, Ne.symm hne]
    · rintro u hu rfl
      have hau := h.of_attached hu hv
      exact ⟨hau.id, hau.settings, hau.sentinels, hau.run.step (.deactivate _), hau.ended⟩
    · exact ⟨hsound.dbs, fun _ => rfl, fun _ => ⟨ht, fun _ => rfl, t, htm, htv⟩, fun _ => ⟨hthread, rfl⟩⟩

theorem Inv.join (h : Inv p) (hv : p.vcls[v]? = some vcl) (hj : p.joining = some v) : Inv (threadJoined v vcl p) := by
  have hsound := h.sound v vcl hv
  obtain ⟨hthread, hactive⟩ := hsound.joining hj
  obtain ⟨hwarm, -, t, htm, htv⟩ := hsound.running hthread
  have hatt := h.of_attached htm (htv ▸ hv)
  have hsublist : (p.threads.filter fun t => t.id ≠ vcl.thread).Sublist p.threads := List.filter_sublist
  refine h.change hv rfl ?_ h.classes (hsublist.map Thread.id |>.nodup h.ids)
    (fun u hu => h.nonzero u (hsublist.subset hu)) ?_ ?_ ?_ ?_
  · exact h.refs.trans (countP_set hv (by simp [Vcl.loaded, hwarm])).symm
  · intro u hne
    simp [threadJoined, Lifecycle.cool, Process.setVcl, hj, Ne.symm hne]
  · intro u hne
    simp only [threadJoined, Lifecycle.cool, Process.setVcl, List.mem_filter, decide_eq_true_eq, ne_eq,
      and_iff_left_iff_imp]
    intro hu hid
    rw [h.thread_eq hu htm (hid.trans hatt.id.symm)] at hne
    exact hne htv
  · rintro u hu huv
    obtain ⟨hum, hid⟩ := List.mem_filter.mp hu
    have hau := h.of_attached hum (huv ▸ hv)
    simp [hau.id] at hid
  · exact ⟨releasePools_reachable hsound.dbs, fun _ => hactive, fun hne => absurd rfl hne,
      fun hjv => by simp [threadJoined, Lifecycle.cool, Process.setVcl] at hjv⟩

theorem countP_discard (hv : p.vcls[v]? = some vcl) (ht : vcl.temperature = .cold) :
    (p.vcls.set v { vcl with temperature := .discarded }).countP Vcl.loaded + 1 = p.vcls.countP Vcl.loaded := by
  obtain ⟨hlt, hget⟩ := List.getElem?_eq_some_iff.mp hv
  have hloaded : vcl.loaded = true := by simp [Vcl.loaded, ht]
  have hpos : 0 < p.vcls.countP Vcl.loaded := List.countP_pos_iff.mpr ⟨vcl, List.mem_of_getElem? hv, hloaded⟩
  rw [List.countP_set hlt, hget, hloaded]
  simp only [Vcl.loaded, reduceCtorEq, decide_false, Bool.or_self, Bool.false_eq_true, if_true, if_false]
  omega

theorem Inv.discard (h : Inv p) (hv : p.vcls[v]? = some vcl) (ht : vcl.temperature = .cold)
    (he : handleVclDiscardEvent v vcl p = .ok p') : Inv p' := by
  have hcount := countP_discard hv ht
  have hrefs := h.refs
  have hclasses := h.classes
  have hne : p.refs ≠ 0 := by omega
  obtain ⟨hthread, hactive⟩ := h.idle hv (by simp [ht])
  have hnone := h.no_thread hv hthread
  have hsound := h.sound v vcl hv
  have hleft : (if p.refs = 1 then p.classes - 1 else p.classes) = if p.refs - 1 = 0 then 0 else 1 := by
    rw [if_neg hne] at hclasses
    by_cases hone : p.refs = 1
    · simp [hone, hclasses]
    · rw [if_neg hone, if_neg (by omega), hclasses]
  rw [handleVclDiscardEvent, if_neg hne, Except.ok.injEq] at he
  subst he
  refine h.change hv rfl ?_ hleft h.ids h.nonzero (fun _ _ => Iff.rfl) (fun _ _ => Iff.rfl)
    (fun t htm htv => absurd htv (hnone t htm))
    ⟨hsound.dbs, hsound.idle, fun hthread' => absurd hthread hthread', hsound.joining⟩
  simp only [Process.setVcl]
  omega

theorem Inv.free (h : Inv p) (hv : p.vcls[v]? = some vcl) (ht : vcl.temperature = .discarded) :
    Inv (p.setVcl v freeVclState) := by
  obtain ⟨hthread, -⟩ := h.idle hv (by simp [ht])
  refine h.setVcl hv (by simp [Vcl.loaded, ht, freeVclState]) (fun t htm htv => absurd htv (h.no_thread hv hthread t htm)) ?_
  intro hs
  exact ⟨by simp [freeVclState, newVclState], fun _ => rfl, fun hne => absurd rfl hne,
    fun hj => absurd hthread (hs.joining hj).1⟩

theorem Inv.step {build : Build} (h : Inv p) (hs : Step build p p') : Inv p' := by
  cases hs with
  | load hj => exact h.load hj
  | warm _ v vcl tlsContext id hj hv ht hid he => exact h.warm hv ht hid hj he
  | cold _ v vcl hj hv ht he => exact h.cold hv ht hj he
  | join v vcl t hj hv ht hid he => exact h.join hv hj
  | discard _ v vcl hj hv ht he => exact h.discard hv ht he
  | free v vcl hj hv ht => exact h.free hv ht
  | sentinels v vcl environment args hv ht =>
    exact h.setVcl hv rfl (fun t _ _ ha => ha.sentinels_args build environment args)
      fun hs => ⟨hs.dbs, hs.idle, hs.running, hs.joining⟩
  | use v vcl dbs hv ht hu =>
    exact h.setVcl hv rfl (fun t _ _ ha => ha.use hu)
      fun hs => ⟨hu.reachable hs.dbs, hs.idle, hs.running, hs.joining⟩
  | thread i t vcl r hi he hv hs ha =>
    have hatt := h.of_attached (List.mem_of_getElem? hi) hv
    have hrun := hatt.run.step hs
    refine h.setThread hi hv rfl rfl rfl ⟨hatt.id, hatt.settings, hatt.sentinels, hrun, ?_⟩ fun hs => ?_
    · intro hended
      exact absurd hended (Bool.eq_false_iff.mp he)
    · exact ⟨(reachable_inv hrun).reachable, fun hzero => ha.trans (hs.idle hzero),
        fun hne => ⟨(hs.running hne).1, fun hr => (hs.running hne).2.1 (ha.symm.trans hr), (hs.running hne).2.2⟩,
        fun hj => ⟨(hs.joining hj).1, ha.trans (hs.joining hj).2⟩⟩
  | finish i t hi hp =>
    obtain ⟨vcl, hv, hatt⟩ := h.attached t (List.mem_of_getElem? hi)
    have hset : p.vcls.set t.vcl vcl = p.vcls := by
      obtain ⟨hlt, hget⟩ := List.getElem?_eq_some_iff.mp hv
      rw [← hget]
      exact List.set_getElem_self hlt
    have ha : Attached vcl { t with ended := true } :=
      ⟨hatt.id, hatt.settings, hatt.sentinels, hatt.run, fun _ => hp⟩
    have hinv : Inv ({ p with threads := p.threads.set i { t with ended := true } }.setVcl t.vcl vcl) :=
      h.setThread hi hv rfl rfl rfl ha id
    rw [Process.setVcl, hset] at hinv
    exact hinv

theorem lifecycle_inv {build : Build} (h : (lifecycle build).Reachable p) : Inv p := by
  refine System.invariant (P := Inv) ?_ (fun p p' _ hp hs => hp.step hs) h
  rintro p ⟨hrefs, hclasses, hvcls, hthreads, hjoining⟩
  constructor <;> simp [hrefs, hclasses, hvcls, hthreads, hjoining]

/-- Whatever the order of the events, of the calls from VCL and of the steps of the Sentinel threads, no assertion
of a handler fails; a VCL has one thread at most, and only while it is warm and its lock classes exist. -/
theorem events_safe {build : Build} (h : (lifecycle build).Reachable p) :
    (∀ v vcl, p.joining = none → p.vcls[v]? = some vcl →
      (vcl.temperature = .cold → (∀ tlsContext id, ∃ p', handleVclWarmEvent tlsContext id v vcl p = .ok p') ∧
        ∃ p', handleVclDiscardEvent v vcl p = .ok p') ∧
      (vcl.temperature = .warm → ∃ p', handleVclColdEvent v vcl p = .ok p')) ∧
    (∀ t ∈ p.threads, p.classes = 1 ∧
      ∃ vcl, p.vcls[t.vcl]? = some vcl ∧ vcl.temperature = .warm ∧ vcl.thread = t.id) ∧
    (∀ t ∈ p.threads, ∀ u ∈ p.threads, t.vcl = u.vcl → t = u) ∧
    p.refs = p.vcls.countP Vcl.loaded ∧ p.classes = if p.refs = 0 then 0 else 1 := by
  have hinv := lifecycle_inv h
  have hwarm : ∀ t ∈ p.threads, ∃ vcl, p.vcls[t.vcl]? = some vcl ∧ vcl.temperature = .warm ∧ vcl.thread = t.id := by
    intro t ht
    obtain ⟨vcl, hv, ha⟩ := hinv.attached t ht
    have hne : vcl.thread ≠ 0 := ha.id ▸ hinv.nonzero t ht
    exact ⟨vcl, hv, ((hinv.sound _ vcl hv).running hne).1, ha.id.symm⟩
  refine ⟨fun v vcl hj hv => ⟨fun ht => ⟨fun tlsContext id => ?_, ?_⟩, fun ht => ?_⟩, fun t ht => ⟨?_, hwarm t ht⟩,
    fun t ht u hu htu => ?_, hinv.refs, hinv.classes⟩
  · obtain ⟨hthread, ha⟩ := hinv.idle hv (by simp [ht])
    by_cases hs : ∃ settings sentinels, Starts tlsContext vcl settings sentinels
    · obtain ⟨settings, sentinels, hs⟩ := hs
      exact ⟨_, handleVclWarmEvent_starts hthread ha hs id v p⟩
    · exact ⟨_, handleVclWarmEvent_skips hthread ha (fun settings sentinels h => hs ⟨settings, sentinels, h⟩) id v p⟩
  · have hcount := countP_discard hv ht
    have hrefs := hinv.refs
    exact ⟨_, if_neg (by omega)⟩
  · obtain ⟨-, heq⟩ | ⟨-, heq⟩ := handleVclColdEvent_spec hinv hv hj
    · exact ⟨_, heq⟩
    · exact ⟨_, heq⟩
  · obtain ⟨vcl, hv, ht, -⟩ := hwarm t ht
    have hpos : 0 < p.vcls.countP Vcl.loaded :=
      List.countP_pos_iff.mpr ⟨vcl, List.mem_of_getElem? hv, by simp [Vcl.loaded, ht]⟩
    have hrefs := hinv.refs
    rw [hinv.classes, if_neg (by omega)]
  · obtain ⟨vcl, hv, -, hid⟩ := hwarm t ht
    obtain ⟨vcl', hv', -, hid'⟩ := hwarm u hu
    rw [← htu, hv, Option.some.injEq] at hv'
    subst hv'
    exact hinv.thread_eq ht hu (hid.symm.trans hid')

theorem settings_step {build : Build} {settings : Settings} (hinv : Inv p) (hs : Step build p p')
    (h : ∃ vcl, p.vcls[v]? = some vcl ∧ (vcl.temperature = .freed ∨ vcl.settings = some settings)) :
    ∃ vcl, p'.vcls[v]? = some vcl ∧ (vcl.temperature = .freed ∨ vcl.settings = some settings) := by
  obtain ⟨vcl, hv, hkept⟩ := h
  obtain ⟨hlt, hget⟩ := List.getElem?_eq_some_iff.mp hv
  have hset : ∀ u vcl₁ vcl₂, p.vcls[u]? = some vcl₁ → (vcl₁.temperature = .freed → vcl₂.temperature = .freed) →
      (vcl₁.settings = some settings → vcl₂.temperature = .freed ∨ vcl₂.settings = some settings) →
      ∃ vcl, (p.vcls.set u vcl₂)[v]? = some vcl ∧ (vcl.temperature = .freed ∨ vcl.settings = some settings) := by
    intro u vcl₁ vcl₂ hu hfreed hsettings
    by_cases huv : u = v
    · subst huv
      rw [hv, Option.some.injEq] at hu
      subst hu
      refine ⟨vcl₂, List.getElem?_set_self hlt, ?_⟩
      obtain hf | hk := hkept
      · exact Or.inl (hfreed hf)
      · exact hsettings hk
    · exact ⟨vcl, (List.getElem?_set_ne huv).trans hv, hkept⟩
  cases hs with
  | load hj => exact ⟨vcl, (List.getElem?_append_left hlt).trans hv, hkept⟩
  | warm _ u vcl₁ tlsContext id hj hu ht hid he =>
    obtain ⟨hthread, ha⟩ := hinv.idle hu (by simp [ht])
    have hne : vcl₁.temperature ≠ .freed := by simp [ht]
    by_cases hstarts : ∃ settings sentinels, Starts tlsContext vcl₁ settings sentinels
    · obtain ⟨_, _, hstarts⟩ := hstarts
      rw [handleVclWarmEvent_starts hthread ha hstarts, Except.ok.injEq] at he
      exact he ▸ hset u vcl₁ _ hu (fun hf => absurd hf hne) Or.inr
    · rw [handleVclWarmEvent_skips hthread ha fun settings sentinels hs => hstarts ⟨settings, sentinels, hs⟩,
        Except.ok.injEq] at he
      exact he ▸ hset u vcl₁ _ hu (fun hf => absurd hf hne) Or.inr
  | cold _ u vcl₁ hj hu ht he =>
    have hne : vcl₁.temperature ≠ .freed := by simp [ht]
    obtain ⟨-, heq⟩ | ⟨-, heq⟩ := handleVclColdEvent_spec hinv hu hj
    · obtain rfl := Except.ok.inj (he.symm.trans heq)
      exact hset u vcl₁ _ hu (fun hf => absurd hf hne) Or.inr
    · obtain rfl := Except.ok.inj (he.symm.trans heq)
      exact hset u vcl₁ _ hu (fun hf => absurd hf hne) Or.inr
  | join u vcl₁ t hj hu ht hid he =>
    have hwarm := ((hinv.sound u vcl₁ hu).running ((hinv.sound u vcl₁ hu).joining hj).1).1
    exact hset u vcl₁ _ hu (fun hf => by simp [hwarm] at hf) Or.inr
  | discard _ u vcl₁ hj hu ht he =>
    have hcount := countP_discard hu ht
    have hrefs := hinv.refs
    rw [handleVclDiscardEvent, if_neg (by omega)] at he
    obtain rfl := Except.ok.inj he
    exact hset u vcl₁ _ hu (fun hf => by simp [ht] at hf) Or.inr
  | free u vcl₁ hj hu ht => exact hset u vcl₁ _ hu (fun _ => rfl) fun _ => Or.inl rfl
  | sentinels u vcl₁ environment args hu ht =>
    refine hset u vcl₁ _ hu id fun hk => Or.inr ?_
    simp [vmodSentinels, hk]
  | use u vcl₁ dbs hu ht h => exact hset u vcl₁ _ hu id Or.inr
  | thread i t vcl₁ r hi he hu hs ha => exact hset _ vcl₁ _ hu id Or.inr
  | finish i t hi hp => exact ⟨vcl, hv, hkept⟩

theorem warmed_thread_iff (h : Inv p) (hv : p.vcls[v]? = some vcl) (ht : vcl.temperature = .cold) {tlsContext : Bool}
    {id : ThreadId} (he : handleVclWarmEvent tlsContext id v vcl p = .ok p') :
    (∃ t ∈ p'.threads, t.vcl = v) ↔ ∃ settings sentinels, Starts tlsContext vcl settings sentinels := by
  obtain ⟨hthread, ha⟩ := h.idle hv (by simp [ht])
  by_cases hs : ∃ settings sentinels, Starts tlsContext vcl settings sentinels
  · refine iff_of_true ?_ hs
    obtain ⟨settings, sentinels, hs⟩ := hs
    rw [handleVclWarmEvent_starts hthread ha hs, Except.ok.injEq] at he
    exact ⟨newThread id v settings sentinels, by simp [← he, Process.warmed, Process.setVcl], rfl⟩
  · refine iff_of_false ?_ hs
    rintro ⟨t, htm, htv⟩
    rw [handleVclWarmEvent_skips hthread ha fun settings sentinels h => hs ⟨settings, sentinels, h⟩, Except.ok.injEq] at he
    simp only [← he, Process.warmed, Process.setVcl, List.append_nil] at htm
    exact h.no_thread hv hthread t htm htv

/-- The warm event starts a Sentinel thread exactly if TLS and the list of locations allow it; and from the
first successful call of `sentinels()` on, all the threads of the VCL have its settings and do what the loop does. -/
theorem sentinel_threads {build : Build} (h : (lifecycle build).Reachable p) (hv : p.vcls[v]? = some vcl) :
    (∀ tlsContext id p', vcl.temperature = .cold → handleVclWarmEvent tlsContext id v vcl p = .ok p' →
      ((∃ t ∈ p'.threads, t.vcl = v) ↔ ∃ settings sentinels, Starts tlsContext vcl settings sentinels)) ∧
    (∀ settings p', vcl.settings = some settings → Relation.ReflTransGen (Step build) p p' →
      ∀ t ∈ p'.threads, t.vcl = v → t.settings = settings ∧ t.sentinels ≠ [] ∧
        (∃ error, unsafeSetLocations (enoughFuel settings.locations) [] settings.locations = .ok (error, t.sentinels)) ∧
        ∃ vcl', p'.vcls[v]? = some vcl' ∧ (loop settings.period).Reachable (t.run vcl'.config)) := by
  refine ⟨fun tlsContext id p' ht he => warmed_thread_iff (lifecycle_inv h) hv ht he, ?_⟩
  intro settings p' hset hsteps t ht htv
  have hkept : ∃ vcl', p'.vcls[v]? = some vcl' ∧ (vcl'.temperature = .freed ∨ vcl'.settings = some settings) := by
    clear ht
    induction hsteps with
    | refl => exact ⟨vcl, hv, Or.inr hset⟩
    | tail hsteps hstep ih => exact settings_step (lifecycle_inv (h.steps hsteps)) hstep ih
  have hinv := lifecycle_inv (h.steps hsteps)
  obtain ⟨vcl', hv', hkept⟩ := hkept
  have ha := hinv.of_attached ht (htv ▸ hv')
  have hne : vcl'.thread ≠ 0 := ha.id ▸ hinv.nonzero t ht
  have hwarm := ((hinv.sound v vcl' hv').running hne).1
  have hsettings : vcl'.settings = some settings := by
    obtain hf | hk := hkept
    · simp [hwarm] at hf
    · exact hk
  have heq : t.settings = settings := Option.some.inj (ha.settings.symm.trans hsettings)
  subst heq
  exact ⟨rfl, ha.sentinels.1, ha.sentinels.2, vcl', hv', ha.run⟩

end

def oneSentinel : SentinelsArgs := ⟨some (bytes "10.0.0.1:26379"), 60, 500, 500, .default, false, [], none, false⟩

def plain : Build := ⟨false, false⟩

def configured : Vcl := { newVclState with settings := vmodSentinels plain none oneSentinel none }

def watched : Settings := oneSentinel.settings plain (bytes "10.0.0.1:26379")

def loaded : Process := ⟨0, 1, 1, [configured], [], none⟩

def running : Process := loaded.warmed 0 (configured.started 7) [newThread 7 0 watched [⟨bytes "10.0.0.1", 26379⟩]]

theorem configured_starts : Starts false configured watched [⟨bytes "10.0.0.1", 26379⟩] :=
  ⟨rfl, nofun, ⟨0, by decide +kernel⟩, by simp⟩

theorem loaded_reachable : (lifecycle plain).Reachable loaded := by
  have h₀ : (lifecycle plain).Reachable ⟨0, 0, 0, [], [], none⟩ := System.reachable_init ⟨rfl, rfl, rfl, rfl, rfl⟩
  exact (h₀.step (.load _ rfl)).step (.sentinels _ 0 newVclState none oneSentinel rfl (Or.inl rfl))

theorem running_reachable : (lifecycle plain).Reachable running :=
  loaded_reachable.step (.warm _ _ 0 configured false 7 rfl rfl rfl ⟨by decide, by simp [loaded]⟩
    (handleVclWarmEvent_starts rfl rfl configured_starts 7 0 loaded))

theorem events_safe_running : running.classes = 1 ∧ running.refs = running.vcls.countP Vcl.loaded :=
  have h := events_safe running_reachable
  ⟨(h.2.1 _ (List.mem_singleton_self _)).1, h.2.2.2.1⟩

theorem sentinel_threads_running : ∃ t ∈ running.threads, t.settings = watched :=
  have h := (sentinel_threads loaded_reachable (v := 0) rfl).2 watched running rfl
    (.single (.warm _ _ 0 configured false 7 rfl rfl rfl ⟨by decide, by simp [loaded]⟩
      (handleVclWarmEvent_starts rfl rfl configured_starts 7 0 loaded)))
  ⟨_, List.mem_singleton_self _, (h _ (List.mem_singleton_self _) rfl).1⟩

end VmodRedis.Lifecycle
