import Mathlib.Algebra.Order.Group.Multiset
import Nethadone.Requests

/-!
# Replacing the throttler, request by request

`ApplyPolicies` over a host in any state. What it can do to the objects is
said once (`triple_applyPolicies`): it returns with one more throttle
filter, which carries the new rules, and some of the old ones gone, all of
them if their deletions succeed; it stops with at most old ones gone; and
it touches nothing else. On an obliging host it stops for rules that do
not compile, and for a missing root qdisc, and for nothing else.
-/

namespace Nethadone

open Fatal

/-- The filters that `cleanupThrottler` lists. -/
def rootFilters (t : Trees) (link : Int) : Multiset TcObject :=
  (t (link, .root)).filter fun o => o.isFilter = true ∧ o.parent = ⟨1, 0⟩

/-- The filters that `cleanupThrottler` is after. -/
def throttlers (t : Trees) (link : Int) : Multiset TcObject :=
  (t (link, .root)).filter fun o => o.isThrottle = true ∧ o.parent = ⟨1, 0⟩

theorem TcObject.isFilter_of_isThrottle {o : TcObject} (h : o.isThrottle = true) :
    o.isFilter = true := by
  unfold isThrottle at h
  unfold isFilter
  split at h
  · rename_i hkind
    rw [hkind]
  · cases h

theorem filter_isThrottle_eq {t : Trees} {link : Int} {fs : List TcObject}
    (hfs : (fs : Multiset TcObject) = rootFilters t link) :
    ((fs.filter TcObject.isThrottle : List TcObject) : Multiset TcObject) = throttlers t link := by
  have hcoe : ((fs.filter TcObject.isThrottle : List TcObject) : Multiset TcObject)
      = (fs : Multiset TcObject).filter fun o => o.isThrottle = true := by
    rw [Multiset.filter_coe]
    simp only [Bool.decide_eq_true]
  rw [hcoe, hfs, rootFilters, Multiset.filter_filter, throttlers]
  refine Multiset.filter_congr fun o _ => ⟨fun h => ⟨h.1, h.2.2⟩, fun h => ?_⟩
  exact ⟨h.1, TcObject.isFilter_of_isThrottle h.1, h.2⟩

/-- The HTB qdisc that the throttler hangs on. -/
def Trees.HasRoot (t : Trees) (link : Int) : Prop :=
  ∃ q ∈ t (link, .root), q.isFilter = false ∧ q.handle = ⟨1, 0⟩

/-- Some of the old filters are gone, all of them where no deletion fails. -/
def Trees.without (t : Trees) (link : Int) (gone : Multiset TcObject) : Trees :=
  Function.update t (link, .root) (t (link, .root) - gone)

/-- A listed filter is still there while only earlier ones are gone. -/
theorem mem_without {objs gone : Multiset TcObject} {past rest : List TcObject} {tobj : TcObject}
    (hlisted : ((past ++ tobj :: rest : List TcObject) : Multiset TcObject) ≤ objs)
    (hgone : gone ≤ ((past.filter TcObject.isThrottle : List TcObject) : Multiset TcObject)) :
    tobj ∈ objs - gone := by
  have hpast : gone ≤ (past : Multiset TcObject) := hgone.trans
    (Multiset.coe_le.mpr List.filter_sublist.subperm)
  have hsum : gone + {tobj} ≤ objs :=
    calc gone + {tobj} ≤ (past : Multiset TcObject) + {tobj} := add_le_add_left hpast _
      _ ≤ ((past ++ tobj :: rest : List TcObject) : Multiset TcObject) := by
          rw [← Multiset.coe_singleton, Multiset.coe_add]
          refine Multiset.coe_le.mpr (List.Sublist.subperm ?_)
          exact (List.singleton_sublist.mpr List.mem_cons_self).append_left past
      _ ≤ objs := hlisted
  exact Multiset.singleton_le.mp (le_tsub_of_add_le_left hsum)

namespace Host

variable {κ : Type}

/-- No deletion of a filter that is there fails. -/
def DeletesFilters (H : Host κ) : Prop :=
  ∀ k link o, o.isFilter = true → o ∈ H.trees k (link, o.hook) →
    (H.send k (.filterDelete link o)).1 = true

variable {H : Host κ} {ifs : Interfaces} {t : Trees} {link : Int} {E : κ → Prop}

/-- Of the filters listed as `past`, only throttle filters are gone. -/
def Deleted (H : Host κ) (t : Trees) (link : Int) (past : List TcObject) (k : κ) : Prop :=
  ∃ gone ≤ ((past.filter TcObject.isThrottle : List TcObject) : Multiset TcObject),
    (H.DeletesFilters → gone = (past.filter TcObject.isThrottle : List TcObject))
      ∧ H.trees k = t.without link gone

/-- One round of the loop in `cleanupThrottler`. -/
theorem triple_delete (hH : H.Lawful) {past rest : List TcObject} {tobj : TcObject}
    (hroot : tobj.parent = ⟨1, 0⟩)
    (hlisted : ((past ++ tobj :: rest : List TcObject) : Multiset TcObject) ≤ t (link, .root)) :
    Triple (H.Deleted t link past)
      (do if tobj.isThrottle then let _ ← H.attempt (.filterDelete link tobj))
      (fun _ => H.Deleted t link (past ++ [tobj])) E := by
  rintro k ⟨gone, hgone, hall, hk⟩
  cases hthrottle : tobj.isThrottle with
  | false =>
      have hsame : (past ++ [tobj]).filter TcObject.isThrottle
          = past.filter TcObject.isThrottle := by
        rw [List.filter_append, List.filter_cons_of_neg (by rw [hthrottle]; decide)]
        exact List.append_nil _
      refine ⟨gone, ?_, fun hdel => ?_, hk⟩
      · rw [hsame]
        exact hgone
      · rw [hsame]
        exact hall hdel
  | true =>
      have hhook : tobj.hook = .root := hook_of_major (by rw [hroot])
      have hmore : ((past ++ [tobj]).filter TcObject.isThrottle : List TcObject)
          = ((past.filter TcObject.isThrottle : List TcObject) : Multiset TcObject) + {tobj} := by
        rw [List.filter_append, List.filter_cons_of_pos hthrottle]
        rfl
      rw [if_pos rfl, exec_bind, exec_attempt]
      rcases hsend : H.send k (.filterDelete link tobj) with ⟨_ | _, k'⟩
      · refine ⟨gone, ?_, fun hdel => ?_, by rw [hH.refused hsend, hk]⟩
        · rw [hmore]
          exact hgone.trans (Multiset.le_add_right _ _)
        · have hmem := mem_without hlisted hgone
          have hacc := hdel k link tobj (TcObject.isFilter_of_isThrottle hthrottle) (by
            rw [hk, hhook, Trees.without, Function.update_self]
            exact hmem)
          rw [hsend] at hacc
          cases hacc
      · refine ⟨gone + {tobj}, ?_, fun hdel => ?_, ?_⟩
        · rw [hmore]
          exact add_le_add_left hgone _
        · rw [hmore, hall hdel]
        · rw [hH.filterDelete hsend, hk, hhook]
          simp only [Trees.without, Function.update_self, Function.update_idem]
          rw [← Multiset.sub_singleton, tsub_tsub]

/-! ## The steps of `ApplyPolicies` -/

/-- After the loop over all listed filters. -/
def Cleaned (H : Host κ) (t : Trees) (link : Int) (k : κ) : Prop :=
  ∃ gone ≤ throttlers t link, (H.DeletesFilters → gone = throttlers t link)
    ∧ H.trees k = t.without link gone

theorem cleaned_of_deleted {fs : List TcObject} {k : κ}
    (hfs : (fs : Multiset TcObject) = rootFilters t link) (h : H.Deleted t link fs k) :
    H.Cleaned t link k := by
  obtain ⟨gone, hgone, hall, hk⟩ := h
  rw [filter_isThrottle_eq hfs] at hgone hall
  exact ⟨gone, hgone, hall, hk⟩

theorem triple_cleanupThrottler (hH : H.Lawful) (hlink : H.Serves ifs link)
    (hE : ∀ k, H.trees k = t → ¬H.Obliging ifs → E k) :
    Triple (fun k => H.trees k = t) (H.cleanupThrottler link) (fun _ => H.Cleaned t link) E := by
  refine triple_bind (triple_work hH _ hE) fun _ =>
    triple_bind (triple_getFilters hH hlink ⟨1, 0⟩ hE) fun fs => triple_of_and fun hfs => ?_
  refine (triple_forM (I := H.Deleted t link) fun past tobj rest hsplit => ?_).weaken
    (fun k hk => ⟨0, Multiset.zero_le _, fun _ => rfl, ?_⟩)
    (fun _ k hk => cleaned_of_deleted hfs hk) fun _ h => h
  · have hmem : tobj ∈ (fs : Multiset TcObject) := by
      rw [hsplit]
      exact Multiset.mem_coe.mpr (List.mem_append_right past List.mem_cons_self)
    rw [hfs] at hmem
    have hlisted : ((past ++ tobj :: rest : List TcObject) : Multiset TcObject)
        ≤ t (link, .root) := by
      rw [← hsplit, hfs]
      exact Multiset.filter_le _ _
    exact triple_delete hH (Multiset.mem_filter.mp hmem).2.2 hlisted
  · rw [hk, Trees.without, tsub_zero, Function.update_eq_self]

/-- What a stop of the replacement says, and of which hosts. -/
def StopsAt (H : Host κ) (ifs : Interfaces) (t : Trees) (rules : List IpPolicy) (E : κ → Prop) :
    Prop :=
  ∀ k gone, gone ≤ throttlers t (H.index ifs.lanInterface) →
    H.trees k = t.without (H.index ifs.lanInterface) gone →
    ((compile rules).isSome → t.HasRoot (H.index ifs.lanInterface) → ¬H.Obliging ifs) → E k

/-- The new filter beside what is left of the old ones. -/
def Reapplied (H : Host κ) (ifs : Interfaces) (t : Trees) (P : Program) (k : κ) : Prop :=
  ∃ gone ≤ throttlers t (H.index ifs.lanInterface),
    (H.DeletesFilters → gone = throttlers t (H.index ifs.lanInterface))
      ∧ H.trees k = Function.update t (H.index ifs.lanInterface, .root)
        (throttler P ::ₘ (t (H.index ifs.lanInterface, .root) - gone))

theorem without_zero : t.without link 0 = t := by
  rw [Trees.without, tsub_zero, Function.update_eq_self]

theorem StopsAt.unchanged {rules : List IpPolicy} (h : H.StopsAt ifs t rules E) :
    ∀ k, H.trees k = t → ¬H.Obliging ifs → E k :=
  fun k hk hno => h k 0 (Multiset.zero_le _) (by rw [hk, without_zero]) fun _ _ => hno

theorem hook_throttler (P : Program) : (throttler P).hook = .root := hook_of_major rfl

theorem fits_throttler {gone : Multiset TcObject} (P : Program) (hroot : t.HasRoot link)
    (hgone : gone ≤ throttlers t link) : Fits (t (link, .root) - gone) (throttler P) where
  top h := absurd h (not_isTop rfl)
  parent _ := by
    obtain ⟨q, hq, hfilter, hhandle⟩ := hroot
    refine ⟨q, ?_, hfilter, Or.inl hhandle⟩
    have hnot : q ∉ gone := fun hmem => by
      have := (Multiset.mem_filter.mp (Multiset.mem_of_le hgone hmem)).2.1
      rw [TcObject.isFilter_of_isThrottle this] at hfilter
      cases hfilter
    rw [← Multiset.count_pos, Multiset.count_sub, Multiset.count_eq_zero_of_notMem hnot,
      Nat.sub_zero]
    exact Multiset.count_pos.mpr hq
  fresh h := by cases h
  rate _ _ h := by cases h

theorem triple_reattachThrottler (hH : H.Lawful) {rules : List IpPolicy} {P : Program}
    (hE : H.StopsAt ifs t rules E) :
    Triple (fun k => H.trees k = t) (H.reattachThrottler P ifs.lanInterface)
      (fun _ => H.Reapplied ifs t P) E := by
  have hlink : H.Serves ifs (H.index ifs.lanInterface) := Or.inl rfl
  refine triple_bind (triple_work hH _ hE.unchanged) fun _ =>
    triple_bind (triple_getInterface hH (Or.inl rfl) hE.unchanged) fun i => triple_of_and ?_
  rintro rfl
  refine triple_bind (triple_cleanupThrottler hH hlink hE.unchanged) fun _ =>
    triple_of_exists fun gone => triple_of_and fun hgone => triple_of_and fun hall => ?_
  have hstop : ∀ k, H.trees k = t.without (H.index ifs.lanInterface) gone →
      ¬H.Obliging ifs → E k := fun k hk hno => hE k gone hgone hk fun _ _ => hno
  refine triple_bind (triple_work hH _ hstop) fun _ => triple_bind (triple_work hH _ hstop)
    fun _ => (triple_add hH hlink fun k hk hfits =>
      hE k gone hgone hk fun _ hroot => hfits ?_).weaken (fun _ h => h)
        (fun _ k hk => ⟨gone, hgone, hall, ?_⟩) fun _ h => h
  · have hfits := fits_throttler P hroot hgone
    rwa [Trees.without, hook_throttler, Function.update_self]
  · rw [hk, Trees.without, hook_throttler, Function.update_self, Function.update_idem]

theorem triple_rebuildBpf (hH : H.Lawful) {rules : List IpPolicy}
    (hE : H.StopsAt ifs t rules E) :
    Triple (fun k => H.trees k = t) (H.rebuildBpf rules)
      (fun P k => compile rules = some P ∧ H.trees k = t) E := by
  refine triple_bind (triple_work hH _ hE.unchanged) fun _ =>
    triple_bind (triple_work hH _ hE.unchanged) fun _ => ?_
  cases hP : compile rules with
  | some P => exact fun k hk => ⟨rfl, hk⟩
  | none =>
      refine fun k hk => hE k 0 (Multiset.zero_le _) (by rw [without_zero]; exact hk) fun h => ?_
      rw [hP] at h
      cases h

/-- All that `ApplyPolicies` can do. -/
theorem triple_applyPolicies (hH : H.Lawful) {rules : List IpPolicy}
    (hE : H.StopsAt ifs t rules E) :
    Triple (fun k => H.trees k = t) (H.applyPolicies ifs rules)
      (fun _ k => ∃ P, compile rules = some P ∧ H.Reapplied ifs t P k) E := by
  refine triple_bind (triple_work hH _ hE.unchanged) fun _ =>
    triple_bind (triple_work hH _ hE.unchanged) fun _ =>
      triple_bind (triple_rebuildBpf hH hE) fun P => triple_of_and fun hP => ?_
  exact (triple_reattachThrottler hH hE).weaken (fun _ h => h) (fun _ k hk => ⟨P, hP, hk⟩)
    fun _ h => h

/-- Rules that compile are attached by an obliging host that has the root qdisc. -/
theorem applyPolicies_completes (hH : H.Lawful) (hobl : H.Obliging ifs) {rules : List IpPolicy}
    (hcompile : (compile rules).isSome) {k : κ}
    (hroot : (H.trees k).HasRoot (H.index ifs.lanInterface)) :
    ∃ k', (H.applyPolicies ifs rules).exec k = (some (), k') := by
  have hstops : H.StopsAt ifs (H.trees k) rules fun _ => False :=
    fun _ _ _ _ hno => hno hcompile hroot hobl
  obtain ⟨_, k', hrun, -⟩ := (triple_applyPolicies hH hstops).completes rfl
  exact ⟨k', hrun⟩

end Host

end Nethadone
