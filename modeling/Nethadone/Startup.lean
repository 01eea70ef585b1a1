import Nethadone.Leaves
import Nethadone.Reapply

/-!
# Starting over whatever is there

The process creates its objects anew each time it starts, and the host may
hold anything: what an earlier process left, whole or half built. Two
deletions are to make room, and their errors are logged or dropped. If the
start comes to its end, nothing of the old objects is left all the same,
since a qdisc is not put over another (`startup_fresh`); if it stops, each
tree is the one found or a beginning of the new one. Neither way is any
other interface touched.
-/

namespace Nethadone

open Fatal

/-! ## New trees over old ones -/

/-- What has been put into each tree since it was last cleared; none where
nothing has been done. -/
abbrev Built := Place → Option (List TcObject)

def Trees.over (t : Trees) (b : Built) : Trees := fun place =>
  match b place with
  | some objs => objs
  | none => t place

/-- Each tree is untouched or a beginning of the one in `b'`. -/
def Built.Begins (b b' : Built) : Prop :=
  ∀ place objs, b place = some objs → ∃ rest, b' place = some (objs ++ rest)

section Over

variable {t : Trees} {b b' : Built} {place : Place} {objs : List TcObject}

theorem over_some (h : b place = some objs) : t.over b place = objs := by
  rw [Trees.over, h]

theorem over_update :
    t.over (Function.update b place (some objs))
      = Function.update (t.over b) place (objs : Multiset TcObject) := by
  funext p
  by_cases hp : p = place
  · subst hp
    rw [over_some (Function.update_self p _ b), Function.update_self]
  · rw [Trees.over, Function.update_of_ne hp, Function.update_of_ne hp]
    rfl

theorem Built.Begins.update (h : b.Begins b') (hplace : ∃ rest, b' place = some (objs ++ rest)) :
    Built.Begins (Function.update b place (some objs)) b' := by
  intro p os hos
  by_cases hp : p = place
  · subst hp
    rw [Function.update_self] at hos
    exact Option.some.inj hos ▸ hplace
  · rw [Function.update_of_ne hp] at hos
    exact h p os hos

theorem begins_none : Built.Begins (fun _ => none) b := by
  intro place objs h
  cases h

end Over

/-! ## Clearing and building -/

namespace Host

variable {κ : Type}

/-- The start was cut short on the way to `b'`; under `C` no obliging host would
have done that. -/
def Stopped (H : Host κ) (ifs : Interfaces) (t : Trees) (b' : Built) (C : Prop) (k : κ) : Prop :=
  (∃ b, Built.Begins b b' ∧ H.trees k = t.over b) ∧ (C → ¬H.Obliging ifs)

variable {H : Host κ} {ifs : Interfaces} {t : Trees} {b b' : Built} {C : Prop} {link : Int}
  {hook : Hook} {o : TcObject} {objs : List TcObject}

theorem stopped (hb : b.Begins b') :
    ∀ k, H.trees k = t.over b → ¬H.Obliging ifs → H.Stopped ifs t b' C k :=
  fun _ hk hno => ⟨⟨b, hb, hk⟩, fun _ => hno⟩

/-- One more object in a tree begun before. -/
theorem triple_put (hH : H.Lawful) (hb : b.Begins b') (hlink : H.Serves ifs link)
    (hhook : o.hook = hook) (hplace : ∃ rest, b' (link, hook) = some (objs ++ rest))
    (hfits : C → Fits objs o) :
    Triple (fun k => H.trees k = t.over (Function.update b (link, hook) (some objs)))
      (H.must (.add link o))
      (fun _ k => H.trees k = t.over (Function.update b (link, hook) (some (objs ++ [o]))))
      (H.Stopped ifs t b' C) := by
  subst hhook
  have hobjs : t.over (Function.update b (link, o.hook) (some objs)) (link, o.hook) = objs :=
    over_some (Function.update_self _ _ _)
  refine (triple_add hH hlink fun k hk hno => ?_).weaken (fun _ h => h) (fun _ k hk => ?_)
    fun _ h => h
  · exact ⟨⟨_, hb.update hplace, hk⟩, fun hc => hno (by rw [hobjs]; exact hfits hc)⟩
  · rw [hk, hobjs, over_update, over_update, Function.update_idem]
    exact congrArg _ (Multiset.coe_eq_coe.mpr (List.perm_append_singleton o objs).symm)

/-- After a deletion whose error is not looked at: the tree is gone, or the host
has refused what it could have done. -/
def Cleared (H : Host κ) (ifs : Interfaces) (t : Trees) (b : Built) (place : Place) (k : κ) :
    Prop :=
  H.trees k = t.over (Function.update b place (some []))
    ∨ H.trees k = t.over b ∧ ¬H.Obliging ifs

theorem triple_attempt_qdiscDel (hH : H.Lawful) (hlink : H.Serves ifs link) (parent : Handle)
    (E : κ → Prop) :
    Triple (fun k => H.trees k = t.over b) (H.attempt (.qdiscDel link parent))
      (fun _ => H.Cleared ifs t b (link, parent.hook)) E := by
  intro k hk
  rw [exec_attempt]
  rcases hsend : H.send k (.qdiscDel link parent) with ⟨_ | _, k'⟩
  · by_cases hobl : H.Obliging ifs
    · -- an obliging host refuses only where there is nothing
      have hnone : t.over b (link, parent.hook) = 0 := by
        by_contra hsome
        exact not_obliging hsend (fun h => h.qdiscDel k link parent hlink (by rwa [hk])) hobl
      refine Or.inl ?_
      rw [hH.refused hsend, hk, over_update, Multiset.coe_nil, ← hnone, Function.update_eq_self]
    · exact Or.inr ⟨by rw [hH.refused hsend, hk], hobl⟩
  · refine Or.inl ?_
    rw [hH.qdiscDel hsend, hk, over_update, Multiset.coe_nil]

/-- The first object of a tree. It is accepted over nothing only, whatever came of
the deletion before it. -/
theorem triple_add_top (hH : H.Lawful) (hb : b.Begins b') (hlink : H.Serves ifs link)
    (hhook : o.hook = hook) (htop : o.IsTop) (hplace : ∃ rest, b' (link, hook) = some (o :: rest))
    (hfits : Fits 0 o) :
    Triple (H.Cleared ifs t b (link, hook)) (H.must (.add link o))
      (fun _ k => H.trees k = t.over (Function.update b (link, hook) (some [o])))
      (H.Stopped ifs t b' C) := by
  subst hhook
  refine triple_must (fun k k' hk hsend => ?_) fun k k' hk hsend => ?_
  · have hnone := hH.occupied hsend htop
    rw [hH.add hsend, hnone, over_update]
    rcases hk with hk | ⟨hk, -⟩
    · rw [hk, over_update, Function.update_idem]
      rfl
    · rw [hk]
      rfl
  · rcases hk with hk | ⟨hk, hno⟩
    · have hempty : H.trees k (link, o.hook) = 0 := by
        rw [hk]
        exact over_some (Function.update_self _ _ _)
      obtain ⟨rest, hplace⟩ := hplace
      exact stopped (hb.update ⟨o :: rest, by rw [hplace, List.nil_append]⟩) k'
        (by rw [hH.refused hsend, hk])
        (not_obliging hsend fun hobl => hobl.add k link o hlink (by rwa [hempty]))
    · exact stopped hb k' (by rw [hH.refused hsend, hk]) hno

end Host

/-! ## The trees of a started process -/

def LeafClass.objects (c : LeafClass) : List TcObject := [c.classObject, c.qdiscObject]

def lanTree (cfg : Config) (lan : Int) : List TcObject :=
  rootQdisc :: rootClass :: (lanClasses cfg lan).flatMap LeafClass.objects

/-- The static programs, each with the interface it is attached to. -/
def staticFilters (lan wan : Int) : List (Int × TcObject) :=
  [(wan, dnsSniffer handleMinEgress), (wan, dnsSniffer handleMinIngress),
    (lan, trafficMonitor handleMinEgress)]

def clsactTree (filters : List (Int × TcObject)) (link : Int) : List TcObject :=
  bpfQdisc :: (filters.filter (·.1 = link)).map (·.2)

/-- The trees that the process has put in place of those it found, with `filters`
attached so far and `more` below the leaves. -/
def layout (cfg : Config) (lan wan : Int) (filters : List (Int × TcObject))
    (more : List TcObject) : Built
  | (link, .root) => if link = lan then some (lanTree cfg lan ++ more) else none
  | (link, .clsact) => if link = lan ∨ link = wan then some (clsactTree filters link) else none

/-- The trees of a process that has started, with `P` attached. -/
def started (cfg : Config) (lan wan : Int) (P : Program) : Built :=
  layout cfg lan wan (staticFilters lan wan) [throttler P]

/-- The leaf handles differ, and no class is without a rate. -/
structure Config.Buildable (cfg : Config) : Prop where
  classes : cfg.numQdiscClasses ≤ 4094
  min_pos : 0 < cfg.minRateKbs
  min_le : cfg.minRateKbs ≤ cfg.startRateKbs

section LeafObjects

variable {cfg : Config} {lan : Int} {c : LeafClass} {past rest : List LeafClass}

theorem map_handle_lanClasses (cfg : Config) (lan : Int) :
    (lanClasses cfg lan).map (·.handle)
      = (List.range (cfg.numQdiscClasses.toNat + 1)).map handleId := by
  refine List.ext_getElem (by simp [lanClasses, Nethadone.createLeafQdiscs]) fun i _ _ => ?_
  simp [lanClasses, Nethadone.createLeafQdiscs]

theorem mem_generateQdiscLeafNodes {l : LeafConfig} :
    l ∈ generateQdiscLeafNodes cfg lan ↔ l = openPipe lan
      ∨ ∃ j < cfg.numQdiscClasses.toNat, l = degradedLeaf cfg lan (j + 1) := by
  rw [generateQdiscLeafNodes_eq, List.mem_cons, List.mem_map]
  simp only [List.mem_range, eq_comm]

theorem iface_lanClasses (hc : c ∈ lanClasses cfg lan) : c.iface = lan := by
  obtain ⟨i, hi, rfl⟩ := List.mem_mapIdx.mp hc
  rcases mem_generateQdiscLeafNodes.mp (List.getElem_mem hi) with h | ⟨j, -, h⟩
  · exact congrArg LeafConfig.iface h
  · exact congrArg LeafConfig.iface h

theorem ceil_lanClasses (hc : c ∈ lanClasses cfg lan) : c.ceil = c.rate := by
  obtain ⟨i, hi, rfl⟩ := List.mem_mapIdx.mp hc
  rfl

/-- Sixteen at least, so neither the root's handle nor the root class's. -/
theorem le_handle (hcfg : cfg.Buildable) (hc : c ∈ lanClasses cfg lan) :
    16 ≤ c.handle.toNat := by
  have hmem : c.handle ∈ (lanClasses cfg lan).map (·.handle) := List.mem_map_of_mem hc
  rw [map_handle_lanClasses] at hmem
  obtain ⟨i, hi, hhandle⟩ := List.mem_map.mp hmem
  have := List.mem_range.mp hi
  have := hcfg.classes
  rw [← hhandle, toNat_handleId (by omega)]
  omega

theorem nodup_handles (hcfg : cfg.Buildable) (lan : Int) :
    ((lanClasses cfg lan).map (·.handle)).Nodup := by
  rw [map_handle_lanClasses]
  refine List.Nodup.map_on (fun i hi j hj hij => ?_) List.nodup_range
  have := hcfg.classes
  have := List.mem_range.mp hi
  have := List.mem_range.mp hj
  have := congrArg BitVec.toNat hij
  rw [toNat_handleId (by omega), toNat_handleId (by omega)] at this
  omega

theorem le_rate_degradedLeaf (hcfg : cfg.Buildable) {j : Nat}
    (hj : j < cfg.numQdiscClasses.toNat) : 8 ≤ (degradedLeaf cfg lan (j + 1)).rate := by
  have hmin := hcfg.min_pos
  -- the rate depends on neither the bandwidth of the WAN nor the delay
  let cfg' : Config := { cfg with wanMbps := cfg.startRateKbs, maxDelayMs := 0 }
  have hordered : cfg'.RatesOrdered :=
    { classes := by show 1 ≤ cfg.numQdiscClasses; omega
      min_pos := hmin
      min_le := hcfg.min_le
      start_le := by
        have := hcfg.min_le
        show cfg.startRateKbs ≤ cfg.startRateKbs * 1000
        omega
      delay := le_refl _ }
  have hrate : cfg'.minRateKbs * 1000 ≤ (degradedLeaf cfg' lan (j + 1)).rate :=
    minRate_le_degradedLeaf hordered hj
  exact le_trans (by show 8 ≤ cfg.minRateKbs * 1000; omega) hrate

theorem le_rate (hcfg : cfg.Buildable) (hc : c ∈ lanClasses cfg lan) : 8 ≤ c.rate := by
  obtain ⟨i, hi, rfl⟩ := List.mem_mapIdx.mp hc
  show 8 ≤ ((generateQdiscLeafNodes cfg lan)[i]).rate
  rcases mem_generateQdiscLeafNodes.mp (List.getElem_mem hi) with h | ⟨j, hj, h⟩
  · rw [h]
    show 8 ≤ 95 * mBit
    decide
  · rw [h]
    exact le_rate_degradedLeaf hcfg hj

@[simp] theorem hook_classObject (c : LeafClass) : c.classObject.hook = .root :=
  hook_of_major rfl

@[simp] theorem hook_qdiscObject (c : LeafClass) : c.qdiscObject.hook = .root :=
  hook_of_major rfl

@[simp] theorem isFilter_qdiscObject (c : LeafClass) : c.qdiscObject.isFilter = false := by
  cases hkind : c.kind with
  | prio => simp [LeafClass.qdiscObject, TcObject.isFilter, hkind]
  | netem => simp [LeafClass.qdiscObject, TcObject.isFilter, hkind]

theorem isClass_qdiscObject (c : LeafClass) : c.qdiscObject.isClass = false := by
  cases hkind : c.kind with
  | prio => simp [LeafClass.qdiscObject, TcObject.isClass, hkind]
  | netem => simp [LeafClass.qdiscObject, TcObject.isClass, hkind]

/-- The LAN tree before the leaf after `past`. -/
def treeUpTo (past : List LeafClass) : List TcObject :=
  rootQdisc :: rootClass :: past.flatMap LeafClass.objects

theorem mem_treeUpTo {q : TcObject} : q ∈ treeUpTo past ↔ q = rootQdisc ∨ q = rootClass
    ∨ ∃ c ∈ past, q = c.classObject ∨ q = c.qdiscObject := by
  simp only [treeUpTo, LeafClass.objects, List.mem_cons, List.mem_flatMap, List.not_mem_nil,
    or_false]

/-- What a handle in the LAN tree can be. -/
theorem handle_of_mem_treeUpTo {q : TcObject} (hq : q ∈ treeUpTo past) :
    q.handle = ⟨1, 0⟩ ∨ q.handle = ⟨1, 1⟩
      ∨ ∃ c ∈ past, q.handle = ⟨1, c.handle⟩ ∨ q.handle = ⟨c.handle, 0⟩ := by
  rcases mem_treeUpTo.mp hq with rfl | rfl | ⟨c, hc, rfl | rfl⟩
  · exact Or.inl rfl
  · exact Or.inr (Or.inl rfl)
  · exact Or.inr (Or.inr ⟨c, hc, Or.inl rfl⟩)
  · exact Or.inr (Or.inr ⟨c, hc, Or.inr rfl⟩)

variable (hcfg : cfg.Buildable) (hsplit : lanClasses cfg lan = past ++ c :: rest)

include hcfg hsplit

theorem handle_ne_of_past {c' : LeafClass} (hc' : c' ∈ past) : c'.handle ≠ c.handle := by
  have hnodup := nodup_handles hcfg lan
  rw [hsplit, List.map_append, List.map_cons, List.nodup_append] at hnodup
  exact hnodup.2.2 _ (List.mem_map_of_mem hc') _ List.mem_cons_self

theorem handle_ne (n : BitVec 16) (hn : n.toNat < 16) {c' : LeafClass}
    (hc' : c' ∈ past ++ [c]) : c'.handle ≠ n := by
  have hmem : c' ∈ lanClasses cfg lan := by
    rw [hsplit, List.append_cons]
    exact List.mem_append_left rest hc'
  have := le_handle hcfg hmem
  rintro rfl
  omega

theorem fits_classObject : Fits (treeUpTo past) c.classObject where
  top h := absurd h (not_isTop rfl)
  parent _ := ⟨rootClass, mem_treeUpTo.mpr (Or.inr (Or.inl rfl)), rfl, Or.inl rfl⟩
  fresh _ q hq _ := by
    have hown : c ∈ past ++ [c] := List.mem_append_right _ List.mem_cons_self
    have h0 := handle_ne hcfg hsplit 0 (by decide) hown
    have h1 := handle_ne hcfg hsplit 1 (by decide) hown
    show q.handle ≠ ⟨1, c.handle⟩
    rcases handle_of_mem_treeUpTo hq with h | h | ⟨c', hc', h | h⟩
    · rw [h]
      exact fun he => h0 (Handle.mk.inj he).2.symm
    · rw [h]
      exact fun he => h1 (Handle.mk.inj he).2.symm
    · rw [h]
      exact fun he => handle_ne_of_past hcfg hsplit hc' (Handle.mk.inj he).2
    · rw [h]
      exact fun he => handle_ne hcfg hsplit 1 (by decide) (List.mem_append_left _ hc')
        (Handle.mk.inj he).1
  rate rate ceil h := by
    obtain ⟨rfl, rfl⟩ := TcKind.htbClass.inj h
    have hmem : c ∈ lanClasses cfg lan := by
      rw [hsplit]
      exact List.mem_append_right _ List.mem_cons_self
    exact ⟨le_rate hcfg hmem, ceil_lanClasses hmem ▸ le_rate hcfg hmem⟩

theorem fits_qdiscObject :
    Fits (treeUpTo past ++ [c.classObject] : List TcObject) c.qdiscObject where
  top h := absurd h (not_isTop rfl)
  parent _ := ⟨c.classObject, List.mem_append_right _ List.mem_cons_self, rfl, Or.inl rfl⟩
  fresh _ q hq _ := by
    have hown : c ∈ past ++ [c] := List.mem_append_right _ List.mem_cons_self
    have h1 := handle_ne hcfg hsplit 1 (by decide) hown
    show q.handle ≠ ⟨c.handle, 0⟩
    rcases List.mem_append.mp hq with hq | hq
    · rcases handle_of_mem_treeUpTo hq with h | h | ⟨c', hc', h | h⟩
      · rw [h]
        exact fun he => h1 (Handle.mk.inj he).1.symm
      · rw [h]
        exact fun he => h1 (Handle.mk.inj he).1.symm
      · rw [h]
        exact fun he => h1 (Handle.mk.inj he).1.symm
      · rw [h]
        exact fun he => handle_ne_of_past hcfg hsplit hc' (Handle.mk.inj he).1
    · rw [List.mem_singleton.mp hq]
      exact fun he => h1 (Handle.mk.inj he).1.symm
  rate rate ceil h := by
    cases hkind : c.kind with
    | prio => simp [LeafClass.qdiscObject, hkind] at h
    | netem => simp [LeafClass.qdiscObject, hkind] at h

end LeafObjects

/-! ## The functions -/

theorem started_root (cfg : Config) (lan wan : Int) (P : Program) :
    started cfg lan wan P (lan, .root) = some (lanTree cfg lan ++ [throttler P]) :=
  if_pos rfl

theorem started_clsact (cfg : Config) {lan wan link : Int} (P : Program)
    (h : link = lan ∨ link = wan) :
    started cfg lan wan P (link, .clsact) = some (clsactTree (staticFilters lan wan) link) :=
  if_pos h

theorem layout_begins (cfg : Config) {lan wan : Int} {past rest : List (Int × TcObject)}
    (hsplit : staticFilters lan wan = past ++ rest) (P : Program) :
    (layout cfg lan wan past []).Begins (started cfg lan wan P) := by
  rintro ⟨link, _ | _⟩ objs hobjs
  · obtain ⟨hlink, hobjs⟩ := (Option.ite_none_right_eq_some ..).mp hobjs
    obtain rfl := Option.some.inj hobjs
    exact ⟨[throttler P], by rw [List.append_nil]; exact if_pos hlink⟩
  · obtain ⟨hlink, hobjs⟩ := (Option.ite_none_right_eq_some ..).mp hobjs
    obtain rfl := Option.some.inj hobjs
    refine ⟨(rest.filter (·.1 = link)).map (·.2), ?_⟩
    rw [started_clsact cfg P hlink, hsplit, clsactTree, clsactTree, List.filter_append,
      List.map_append]
    rfl

/-- One more program attached. -/
theorem layout_attach (cfg : Config) {lan wan link : Int} (past : List (Int × TcObject))
    (o : TcObject) (hlink : link = lan ∨ link = wan) :
    Function.update (layout cfg lan wan past []) (link, .clsact)
        (some (clsactTree past link ++ [o]))
      = layout cfg lan wan (past ++ [(link, o)]) [] := by
  funext ⟨l, hook⟩
  cases hook with
  | root => rw [Function.update_of_ne (by simp)]; rfl
  | clsact =>
      by_cases hl : l = link
      · subst hl
        rw [Function.update_self, layout, if_pos hlink]
        simp [clsactTree]
      · rw [Function.update_of_ne (by simpa using hl)]
        simp [layout, clsactTree, Ne.symm hl]

theorem layout_more (cfg : Config) (lan wan : Int) (filters : List (Int × TcObject))
    (more : List TcObject) :
    Function.update (layout cfg lan wan filters []) (lan, .root) (some (lanTree cfg lan ++ more))
      = layout cfg lan wan filters more := by
  funext ⟨l, hook⟩
  cases hook with
  | root =>
      by_cases hl : l = lan
      · subst hl
        rw [Function.update_self, layout, if_pos rfl]
      · rw [Function.update_of_ne (by simpa using hl)]
        simp [layout, hl]
  | clsact => rw [Function.update_of_ne (by simp)]; rfl

theorem layout_qdiscs (cfg : Config) (lan wan : Int) :
    Function.update (Function.update (Function.update (fun _ => none) (lan, .root)
        (some (lanTree cfg lan))) (lan, .clsact) (some [bpfQdisc])) (wan, .clsact)
        (some [bpfQdisc])
      = layout cfg lan wan [] [] := by
  funext ⟨l, hook⟩
  cases hook with
  | root => simp [layout, Function.update_apply]
  | clsact =>
      by_cases hwan : l = wan
      · simp [layout, clsactTree, hwan]
      · by_cases hlan : l = lan
        · simp [layout, clsactTree, Function.update_apply, hlan]
        · simp [layout, hwan, hlan]

theorem fits_rootQdisc : Fits 0 rootQdisc where
  top _ := rfl
  parent h := absurd (Or.inl rfl) h
  fresh _ q hq := absurd hq (Multiset.notMem_zero q)
  rate _ _ h := by cases h

theorem fits_bpfQdisc : Fits 0 bpfQdisc where
  top _ := rfl
  parent h := absurd (Or.inr rfl) h
  fresh _ q hq := absurd hq (Multiset.notMem_zero q)
  rate _ _ h := by cases h

theorem fits_rootClass : Fits ([rootQdisc] : List TcObject) rootClass where
  top h := absurd h (not_isTop rfl)
  parent _ := ⟨rootQdisc, List.mem_singleton.mpr rfl, rfl, Or.inl rfl⟩
  fresh _ q hq _ := by
    rw [List.mem_singleton.mp hq]
    decide
  rate _ _ h := by
    obtain ⟨rfl, rfl⟩ := TcKind.htbClass.inj h
    decide

namespace Host

variable {κ : Type} {H : Host κ} {ifs : Interfaces} {cfg : Config} {t : Trees} {P : Program}
  {b : Built}

/-- The trees of a process started on this host. -/
def built (H : Host κ) (ifs : Interfaces) (cfg : Config) (P : Program) : Built :=
  started cfg (H.index ifs.lanInterface) (H.index ifs.wanInterface) P

theorem triple_createLeafQdiscs (hH : H.Lawful) (hb : b.Begins (H.built ifs cfg P)) :
    Triple
      (fun k => H.trees k
        = t.over (Function.update b (H.index ifs.lanInterface, .root) (some (treeUpTo []))))
      (H.createLeafQdiscs (generateQdiscLeafNodes cfg (H.index ifs.lanInterface)))
      (fun _ k => H.trees k = t.over (Function.update b (H.index ifs.lanInterface, .root)
        (some (lanTree cfg (H.index ifs.lanInterface)))))
      (H.Stopped ifs t (H.built ifs cfg P) cfg.Buildable) := by
  refine triple_forM (I := fun past k => H.trees k
    = t.over (Function.update b (H.index ifs.lanInterface, .root) (some (treeUpTo past))))
    fun past c rest hsplit => ?_
  have hmem : c ∈ lanClasses cfg (H.index ifs.lanInterface) := by
    rw [lanClasses, hsplit]
    exact List.mem_append_right past List.mem_cons_self
  have hplace : H.built ifs cfg P (H.index ifs.lanInterface, .root) = some (treeUpTo past
      ++ c.objects ++ (rest.flatMap LeafClass.objects ++ [throttler P])) := by
    rw [built, started_root]
    show some (treeUpTo (lanClasses cfg (H.index ifs.lanInterface)) ++ _) = _
    rw [lanClasses, hsplit]
    simp [treeUpTo]
  have hnext : treeUpTo (past ++ [c]) = treeUpTo past ++ [c.classObject] ++ [c.qdiscObject] := by
    simp [treeUpTo, LeafClass.objects]
  rw [iface_lanClasses hmem, hnext]
  refine triple_bind (triple_put hH hb (Or.inl rfl) (hook_classObject c) ?_
    fun hc => fits_classObject hc hsplit) fun _ => triple_put hH hb (Or.inl rfl)
      (hook_qdiscObject c) ?_ fun hc => fits_qdiscObject hc hsplit
  · exact ⟨_, by rw [hplace, List.append_assoc]⟩
  · exact ⟨_, by rw [hplace, LeafClass.objects, List.append_cons _ c.classObject,
      List.append_assoc]⟩

theorem triple_recreateBpfQdisc (hH : H.Lawful) (hb : b.Begins (H.built ifs cfg P)) {link : Int}
    (hlink : H.Serves ifs link) :
    Triple (fun k => H.trees k = t.over b) (H.recreateBpfQdisc link)
      (fun _ k => H.trees k = t.over (Function.update b (link, .clsact) (some [bpfQdisc])))
      (H.Stopped ifs t (H.built ifs cfg P) cfg.Buildable) :=
  triple_bind (triple_attempt_qdiscDel hH hlink Handle.clsact _) fun _ =>
    triple_add_top hH hb hlink rfl (Or.inr rfl) ⟨_, started_clsact cfg P hlink⟩ fits_bpfQdisc

theorem triple_createQdiscs (hH : H.Lawful) :
    Triple (fun k => H.trees k = t) (H.createQdiscs cfg ifs)
      (fun _ k => H.trees k = t.over
        (layout cfg (H.index ifs.lanInterface) (H.index ifs.wanInterface) [] []))
      (H.Stopped ifs t (H.built ifs cfg P) cfg.Buildable) := by
  have hroot := started_root cfg (H.index ifs.lanInterface) (H.index ifs.wanInterface) P
  have htree : Built.Begins (Function.update (fun _ => none) (H.index ifs.lanInterface, .root)
      (some (lanTree cfg (H.index ifs.lanInterface)))) (H.built ifs cfg P) :=
    begins_none.update ⟨_, hroot⟩
  have hlan : Built.Begins (Function.update (Function.update (fun _ => none)
      (H.index ifs.lanInterface, .root) (some (lanTree cfg (H.index ifs.lanInterface))))
      (H.index ifs.lanInterface, .clsact) (some [bpfQdisc])) (H.built ifs cfg P) :=
    htree.update ⟨_, started_clsact cfg P (Or.inl rfl)⟩
  refine triple_bind (triple_getInterface hH (Or.inl rfl) (stopped begins_none)) fun lan =>
    triple_of_and ?_
  rintro rfl
  refine triple_bind (triple_attempt_qdiscDel (b := fun _ => none) (t := t) hH (Or.inl rfl)
      Handle.root _) fun _ =>
    triple_bind (triple_add_top hH begins_none (Or.inl rfl) rfl (Or.inl rfl) ⟨_, hroot⟩
      fits_rootQdisc) fun _ =>
    triple_bind (triple_put hH begins_none (Or.inl rfl) rfl ⟨_, hroot⟩ fun _ => fits_rootClass)
      fun _ =>
    triple_bind (triple_createLeafQdiscs hH begins_none) fun _ =>
    triple_bind (triple_recreateBpfQdisc hH htree (Or.inl rfl)) fun _ =>
    triple_bind (triple_getInterface hH (Or.inr rfl) (stopped hlan)) fun wan => triple_of_and ?_
  rintro rfl
  rw [← layout_qdiscs]
  exact triple_recreateBpfQdisc hH hlan (Or.inr rfl)

theorem fits_filter {o : TcObject} {past : List (Int × TcObject)} {link : Int}
    (ho : o.isFilter = true) (hmajor : o.parent.major = 0xffff) (htop : ¬o.IsTop) :
    Fits (clsactTree past link) o where
  top h := absurd h htop
  parent _ := ⟨bpfQdisc, List.mem_cons_self, rfl, Or.inr ⟨ho, by rw [hmajor]; rfl⟩⟩
  fresh h := by
    rw [ho] at h
    cases h
  rate _ _ h := by
    rw [TcObject.isFilter, h] at ho
    cases ho

theorem triple_attachFilter (hH : H.Lawful) {name : Text} {o : TcObject}
    (hname : name = ifs.lanInterface ∨ name = ifs.wanInterface)
    {past rest : List (Int × TcObject)}
    (hsplit : staticFilters (H.index ifs.lanInterface) (H.index ifs.wanInterface)
      = past ++ (H.index name, o) :: rest)
    (hhook : o.hook = .clsact) (hfits : Fits (clsactTree past (H.index name)) o) :
    Triple
      (fun k => H.trees k = t.over
        (layout cfg (H.index ifs.lanInterface) (H.index ifs.wanInterface) past []))
      (H.attachFilter name o)
      (fun _ k => H.trees k = t.over (layout cfg (H.index ifs.lanInterface)
        (H.index ifs.wanInterface) (past ++ [(H.index name, o)]) []))
      (H.Stopped ifs t (H.built ifs cfg P) cfg.Buildable) := by
  have hlink : H.Serves ifs (H.index name) := by
    rcases hname with rfl | rfl
    · exact Or.inl rfl
    · exact Or.inr rfl
  have hb := layout_begins cfg hsplit P
  have htree : layout cfg (H.index ifs.lanInterface) (H.index ifs.wanInterface) past []
      (H.index name, .clsact) = some (clsactTree past (H.index name)) := if_pos hlink
  refine triple_bind (triple_work hH _ (stopped hb)) fun _ =>
    triple_bind (triple_getInterface hH hname (stopped hb)) fun i => triple_of_and ?_
  rintro rfl
  rw [← layout_attach cfg past o hlink]
  refine (triple_put hH hb hlink hhook (hb _ _ htree) fun _ => hfits).weaken (fun k hk => ?_)
    (fun _ _ h => h) fun _ h => h
  rw [hk, ← htree, Function.update_eq_self]

theorem not_isThrottle_of_mem {leaves : List LeafClass} {o : TcObject} (ho : o ∈ treeUpTo leaves) :
    o.isThrottle = false := by
  cases hthrottle : o.isThrottle with
  | false => rfl
  | true =>
      have hfilter := TcObject.isFilter_of_isThrottle hthrottle
      rcases mem_treeUpTo.mp ho with rfl | rfl | ⟨c, -, rfl | rfl⟩
      · cases hfilter
      · cases hfilter
      · cases hfilter
      · rw [isFilter_qdiscObject] at hfilter
        cases hfilter

theorem filter_throttle_lanTree (cfg : Config) (lan : Int) :
    (lanTree cfg lan : Multiset TcObject).filter
      (fun o => o.isThrottle = true ∧ o.parent = ⟨1, 0⟩) = 0 := by
  refine Multiset.filter_eq_nil.mpr fun o ho h => ?_
  have ho : o ∈ treeUpTo (lanClasses cfg lan) := Multiset.mem_coe.mp ho
  rw [not_isThrottle_of_mem ho] at h
  cases h.1

theorem throttlers_layout (cfg : Config) (lan wan : Int) (filters : List (Int × TcObject)) :
    throttlers (t.over (layout cfg lan wan filters [])) lan = 0 := by
  have hroot : t.over (layout cfg lan wan filters []) (lan, .root)
      = (lanTree cfg lan : List TcObject) :=
    over_some (by rw [layout, if_pos rfl, List.append_nil])
  rw [throttlers, hroot, filter_throttle_lanTree]

/-- The built-in rule over the trees of a start: nothing to clean up. -/
theorem triple_initialRules (hH : H.Lawful) :
    Triple
      (fun k => H.trees k = t.over (layout cfg (H.index ifs.lanInterface)
        (H.index ifs.wanInterface)
        (staticFilters (H.index ifs.lanInterface) (H.index ifs.wanInterface)) []))
      (H.applyPolicies ifs initialRules)
      (fun _ k => H.trees k = t.over (H.built ifs cfg initialProgram))
      (H.Stopped ifs t (H.built ifs cfg initialProgram) cfg.Buildable) := by
  have hnone := throttlers_layout (t := t) cfg (H.index ifs.lanInterface)
    (H.index ifs.wanInterface)
    (staticFilters (H.index ifs.lanInterface) (H.index ifs.wanInterface))
  have hroot : t.over (layout cfg (H.index ifs.lanInterface) (H.index ifs.wanInterface)
      (staticFilters (H.index ifs.lanInterface) (H.index ifs.wanInterface)) [])
      (H.index ifs.lanInterface, .root)
        = (lanTree cfg (H.index ifs.lanInterface) : List TcObject) :=
    over_some (by rw [layout, if_pos rfl, List.append_nil])
  refine (triple_applyPolicies hH fun k gone hgone hk hno => ?_).weaken (fun _ h => h)
    (fun _ k hk => ?_) fun _ h => h
  · rw [hnone] at hgone
    rw [Multiset.le_zero.mp hgone, without_zero] at hk
    refine ⟨⟨_, layout_begins cfg (List.append_nil _).symm initialProgram, hk⟩, fun _ => ?_⟩
    refine hno (by rw [compile_initialRules]; rfl) ⟨rootQdisc, ?_, rfl, rfl⟩
    rw [hroot]
    exact List.mem_cons_self
  · obtain ⟨P, hP, gone, hgone, -, hk⟩ := hk
    rw [compile_initialRules] at hP
    obtain rfl := Option.some.inj hP
    rw [hnone] at hgone
    rw [hk, Multiset.le_zero.mp hgone, tsub_zero, hroot, built, started,
      ← layout_more cfg _ _ _ [throttler initialProgram], over_update]
    exact congrArg _ (Multiset.coe_eq_coe.mpr (List.perm_append_singleton _ _).symm)

theorem triple_handlersInitialize (hH : H.Lawful) (cfg : Config) (ifs : Interfaces) (t : Trees) :
    Triple (fun k => H.trees k = t) (H.handlersInitialize cfg ifs)
      (fun _ k => H.trees k = t.over (H.built ifs cfg initialProgram))
      (H.Stopped ifs t (H.built ifs cfg initialProgram) cfg.Buildable) := by
  have hb : (layout cfg (H.index ifs.lanInterface) (H.index ifs.wanInterface) [] []).Begins
      (H.built ifs cfg initialProgram) := layout_begins cfg rfl initialProgram
  refine triple_bind (triple_createQdiscs hH) fun _ =>
    triple_bind (triple_work hH _ (stopped hb)) fun _ =>
    triple_bind (triple_work hH _ (stopped hb)) fun _ =>
    triple_bind (triple_attachFilter hH (Or.inr rfl) rfl rfl (fits_filter rfl rfl (by decide)))
      fun _ =>
    triple_bind (triple_attachFilter hH (Or.inr rfl) rfl rfl (fits_filter rfl rfl (by decide)))
      fun _ =>
    triple_bind (triple_attachFilter hH (Or.inl rfl) rfl rfl (fits_filter rfl rfl (by decide)))
      fun _ => triple_initialRules hH

/-- No two classes of a tree share a handle. -/
def ClassesDistinct (H : Host κ) : Prop :=
  ∀ k place, (((H.trees k place).filter fun o => o.isClass = true).map (·.handle)).Nodup

theorem handlersInitialize_completes (hH : H.Lawful) (hobl : H.Obliging ifs) (cfg : Config)
    (hcfg : cfg.Buildable) (k : κ) :
    ∃ k', (H.handlersInitialize cfg ifs).exec k = (some (), k') := by
  have hnever := (triple_handlersInitialize hH cfg ifs (H.trees k)).weaken
    (fun _ h => h) (fun _ _ h => h) fun _ h => h.2 hcfg hobl
  obtain ⟨_, k', hrun, -⟩ := hnever.completes rfl
  exact ⟨k', hrun⟩

end Host

/-! ## What a start comes to -/

/-- A start that comes to its end has replaced the three trees, whatever was in
them; one that stops has left each as it was or the beginning of the new
one. Everything else is as before. -/
theorem startup_fresh {κ : Type} (H : Host κ) (hH : H.Lawful) (cfg : Config) (ifs : Interfaces)
    (k k' : κ) (r : Option Unit) (hrun : (H.handlersInitialize cfg ifs).exec k = (r, k')) :
    (r = some () → H.trees k' = (H.trees k).over (H.built ifs cfg initialProgram))
      ∧ (r = none → ∀ place, H.trees k' place = H.trees k place
        ∨ ∃ objs rest, H.built ifs cfg initialProgram place = some (objs ++ rest)
          ∧ H.trees k' place = (objs : List TcObject)) := by
  have hspec := Host.triple_handlersInitialize hH cfg ifs (H.trees k)
  constructor
  · rintro rfl
    exact hspec.ends rfl hrun
  · rintro rfl place
    obtain ⟨⟨b, hb, hk'⟩, -⟩ := hspec.stops rfl hrun
    cases hplace : b place with
    | none => exact Or.inl (by rw [hk', Trees.over, hplace])
    | some objs =>
        obtain ⟨rest, hrest⟩ := hb place objs hplace
        exact Or.inr ⟨objs, rest, hrest, by rw [hk', over_some hplace]⟩

/-- What a process that was killed may have left. -/
def remains : ObjectTable where
  objs := [(2, throttler []), (2, throttler initialProgram), (2, rootQdisc), (3, bpfQdisc),
    (3, dnsSniffer handleMinEgress), (7, rootQdisc)]
  nodup := by decide

theorem startup_fresh_remains :
    ∃ T, (tableHost.handlersInitialize baseConfig tableInterfaces).exec remains = (some (), T)
      ∧ tableHost.trees T = (tableHost.trees remains).over
        (tableHost.built tableInterfaces baseConfig initialProgram) := by
  obtain ⟨T, hrun⟩ := Host.handlersInitialize_completes lawful_tableHost
    obliging_tableHost baseConfig ⟨by decide, by decide, by decide⟩ remains
  exact ⟨T, hrun, (startup_fresh tableHost lawful_tableHost baseConfig tableInterfaces remains T
    (some ()) hrun).1 rfl⟩

/-! ## How many classes there can be -/

theorem filter_isClass_treeUpTo (leaves : List LeafClass) :
    (treeUpTo leaves).filter TcObject.isClass
      = rootClass :: leaves.map LeafClass.classObject := by
  have hleaf : ∀ c : LeafClass, c.objects.filter TcObject.isClass = [c.classObject] := by
    intro c
    rw [LeafClass.objects, List.filter_cons_of_pos rfl,
      List.filter_cons_of_neg (by rw [isClass_qdiscObject]; decide)]
    rfl
  rw [treeUpTo, List.filter_cons_of_neg (by decide), List.filter_cons_of_pos rfl,
    List.filter_flatMap]
  simp only [hleaf]
  rw [List.map_eq_flatMap]

/-- In `uint16`, leaf 4096 has the handle of leaf 0. -/
theorem handle_comes_round {cfg : Config} (hN : 4096 ≤ cfg.numQdiscClasses) (lan : Int) :
    ∃ c c', (lanClasses cfg lan)[0]? = some c ∧ (lanClasses cfg lan)[4096]? = some c'
      ∧ c.handle = c'.handle := by
  obtain ⟨c, hc, hh⟩ := exists_lanClass cfg lan (Nat.zero_le _)
  have hlarge : 4096 ≤ cfg.numQdiscClasses.toNat := by omega
  obtain ⟨c', hc', hh'⟩ := exists_lanClass cfg lan hlarge
  exact ⟨c, c', hc, hc', by rw [hh, hh']; rfl⟩

theorem le_of_nodup_handles {cfg : Config} (lan : Int)
    (h : ((lanClasses cfg lan).map (·.handle)).Nodup) : cfg.numQdiscClasses ≤ 4095 := by
  by_contra hlarge
  have hN : 4096 ≤ cfg.numQdiscClasses := by omega
  obtain ⟨c, c', hc, hc', hsame⟩ := handle_comes_round hN lan
  have hmap : ∀ {i : Nat} {d : LeafClass}, (lanClasses cfg lan)[i]? = some d →
      ((lanClasses cfg lan).map (·.handle))[i]? = some d.handle := fun hd => by
    rw [List.getElem?_map, hd, Option.map_some]
  have hindex := (List.getElem?_inj (List.getElem?_eq_some_iff.mp (hmap hc)).1 h).mp
    ((hmap hc).trans ((congrArg some hsame).trans (hmap hc').symm))
  cases hindex

/-- A start that comes to its end has given every leaf a handle of its own. -/
theorem Host.classes_of_ends {κ : Type} {H : Host κ} (hH : H.Lawful) (hdistinct : H.ClassesDistinct)
    {cfg : Config} {ifs : Interfaces} {k k' : κ}
    (hrun : (H.handlersInitialize cfg ifs).exec k = (some (), k')) :
    cfg.numQdiscClasses ≤ 4095 := by
  have hk' := (triple_handlersInitialize hH cfg ifs (H.trees k)).ends rfl hrun
  have htree : H.trees k' (H.index ifs.lanInterface, .root)
      = (lanTree cfg (H.index ifs.lanInterface) ++ [throttler initialProgram] : List TcObject) := by
    rw [hk']
    exact over_some (started_root cfg _ _ _)
  have hnodup := hdistinct k' (H.index ifs.lanInterface, .root)
  have hclasses : (lanTree cfg (H.index ifs.lanInterface) ++ [throttler initialProgram]).filter
      TcObject.isClass
      = rootClass :: (lanClasses cfg (H.index ifs.lanInterface)).map LeafClass.classObject := by
    rw [List.filter_append, show lanTree cfg _ = treeUpTo _ from rfl, filter_isClass_treeUpTo]
    exact List.append_nil _
  rw [htree, Multiset.filter_coe] at hnodup
  simp only [Bool.decide_eq_true] at hnodup
  rw [hclasses, Multiset.map_coe, Multiset.coe_nodup, List.map_cons, List.map_map] at hnodup
  refine le_of_nodup_handles (H.index ifs.lanInterface)
    (List.Nodup.of_map (fun handle : BitVec 16 => (⟨1, handle⟩ : Handle)) ?_)
  rw [List.map_map]
  exact (List.nodup_cons.mp hnodup).2

/-- On an obliging host a start comes to its end over whatever is there, up to 4094
classes of positive, ordered rates. From 4096 classes on the handle of a
leaf comes round again, and no start comes to its end on a host that keeps
the handles of classes distinct. -/
theorem startup_completes {κ : Type} (H : Host κ) (hH : H.Lawful) (ifs : Interfaces)
    (cfg : Config) (k : κ) :
    (H.Obliging ifs → 0 < cfg.minRateKbs → cfg.minRateKbs ≤ cfg.startRateKbs →
        cfg.numQdiscClasses ≤ 4094 →
          ∃ k', (H.handlersInitialize cfg ifs).exec k = (some (), k'))
      ∧ (4096 ≤ cfg.numQdiscClasses →
        (∃ c c', (lanClasses cfg (H.index ifs.lanInterface))[0]? = some c
            ∧ (lanClasses cfg (H.index ifs.lanInterface))[4096]? = some c'
            ∧ c.handle = c'.handle)
          ∧ (H.ClassesDistinct →
              ∃ k', (H.handlersInitialize cfg ifs).exec k = (none, k'))) := by
  constructor
  · intro hobl hmin hle hN
    exact Host.handlersInitialize_completes hH hobl cfg ⟨hN, hmin, hle⟩ k
  · intro hN
    refine ⟨handle_comes_round hN _, fun hdistinct => ?_⟩
    rcases hrun : (H.handlersInitialize cfg ifs).exec k with ⟨_ | ⟨⟩, k'⟩
    · exact ⟨k', rfl⟩
    · have := Host.classes_of_ends hH hdistinct hrun
      omega

theorem classesDistinct_tableHost : tableHost.ClassesDistinct := by
  intro T place
  have hnot : ∀ o : TcObject, o.isClass = true → o.isFilter = false := by
    rintro ⟨handle, parent, _ | _ | _ | _ | _ | _ | _⟩ h
    all_goals first | rfl | cases h
  let classes := (T.objs.filter fun e => (e.1, e.2.hook) = place).filter fun e => e.2.isClass
  have hsub : classes.Sublist (T.objs.filter (!·.2.isFilter)) := by
    show (List.filter _ (List.filter _ T.objs)).Sublist _
    rw [List.filter_comm]
    refine List.filter_sublist.trans (List.monotone_filter_right T.objs fun e he => ?_)
    rw [hnot e.2 he]
    rfl
  have hkeys : classes.map (fun e => (e.1, e.2.hook, e.2.handle))
      = (classes.map (·.2.handle)).map fun handle => (place.1, place.2, handle) := by
    rw [List.map_map]
    refine List.map_congr_left fun e he => ?_
    have hplace := of_decide_eq_true (List.mem_filter.mp (List.mem_filter.mp he).1).2
    rw [← hplace]
    rfl
  have hnodup := T.nodup.sublist (hsub.map fun e => (e.1, e.2.hook, e.2.handle))
  rw [hkeys] at hnodup
  show ((Multiset.filter (fun o : TcObject => o.isClass = true) ((T.trees place : List TcObject)
    : Multiset TcObject)).map (·.handle)).Nodup
  rw [Multiset.filter_coe, Multiset.map_coe, Multiset.coe_nodup, ObjectTable.trees, placed,
    List.filter_map, List.map_map]
  have hclasses := List.Nodup.of_map _ hnodup
  simp only [Bool.decide_eq_true]
  exact hclasses

theorem startup_completes_remains :
    (∃ T, (tableHost.handlersInitialize baseConfig tableInterfaces).exec remains = (some (), T))
      ∧ ∃ T, (tableHost.handlersInitialize { baseConfig with numQdiscClasses := 4096 }
          tableInterfaces).exec remains = (none, T) :=
  ⟨(startup_completes tableHost lawful_tableHost tableInterfaces baseConfig remains).1
      obliging_tableHost (by decide) (by decide) (by decide),
    ((startup_completes tableHost lawful_tableHost tableInterfaces
      { baseConfig with numQdiscClasses := 4096 } remains).2 (by decide)).2
        classesDistinct_tableHost⟩

end Nethadone
