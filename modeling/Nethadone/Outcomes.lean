import Nethadone.Reapply
import Nethadone.Reattach
import Nethadone.Startup

/-!
# Two descriptions of one replacement

`Reattach` says what `ApplyPolicies` leaves for each step that may fail;
`Host` sends its requests one by one to a kernel that answers as it likes.
Seen through `TcObject.asFilter`, the second does what the first says:
whatever a lawful host answers, some choice of failing steps has the same
outcome (`apply_refines`). The choice of deletions that fail is read off
from the filters that are gone (`exists_deletions`); a stop that left
everything in place is explained by the first step, one that did not by
the last.
-/

namespace Nethadone

open Fatal

/-- A filter object as `Reattach` sees it. -/
def TcObject.asFilter (o : TcObject) : Filter :=
  match o.kind with
  | .filter _ (some ⟨.throttle P, _, name, _⟩) => ⟨name, P⟩
  | .filter _ (some ⟨_, _, name, _⟩) => ⟨name, []⟩
  | _ => ⟨none, []⟩

theorem isThrottle_asFilter (o : TcObject) : o.asFilter.isThrottle = o.isThrottle := by
  obtain ⟨handle, parent, kind⟩ := o
  cases kind with
  | filter info bpf =>
      cases bpf with
      | none => rfl
      | some bpf =>
          obtain ⟨prog, flags, name, classID⟩ := bpf
          cases prog <;> rfl
  | _ => rfl

/-! ## Which deletions failed -/

section Deletions

theorem cleanupThrottler_congr {f g : Nat → Bool} : ∀ {fs : List Filter} {i : Nat},
    (∀ j, i ≤ j → f j = g j) → cleanupThrottler f i fs = cleanupThrottler g i fs
  | [], _, _ => rfl
  | x :: fs, i, h => by
      rw [cleanupThrottler, cleanupThrottler, h i (le_refl i),
        cleanupThrottler_congr fun j hj => h j (by omega)]

/-- What comes of the filter at `i` is decided apart from the later ones. -/
theorem exists_fails_at {fs : List Filter} {s : Multiset Filter} (i : Nat) (b : Bool)
    (h : ∃ f, (cleanupThrottler f (i + 1) fs : Multiset Filter) = s) :
    ∃ f : Nat → Bool, f i = b ∧ (cleanupThrottler f (i + 1) fs : Multiset Filter) = s := by
  obtain ⟨f, rfl⟩ := h
  refine ⟨Function.update f i b, Function.update_self .., ?_⟩
  rw [cleanupThrottler_congr fun j hj => Function.update_of_ne (by omega) ..]

/-- Any of the throttle filters can be the ones that go. -/
theorem exists_deletions (fs : List TcObject) : ∀ (i : Nat) (gone : Multiset TcObject),
    gone ≤ ((fs.filter TcObject.isThrottle : List TcObject) : Multiset TcObject) →
    ∃ f : Nat → Bool, (cleanupThrottler f i (fs.map TcObject.asFilter) : Multiset Filter)
      = ((fs : Multiset TcObject) - gone).map TcObject.asFilter := by
  induction fs with
  | nil =>
      intro i gone hgone
      obtain rfl := Multiset.le_zero.mp hgone
      exact ⟨fun _ => false, rfl⟩
  | cons o fs ih =>
      intro i gone hgone
      have hkeep : gone ≤ ((fs.filter TcObject.isThrottle : List TcObject) : Multiset TcObject) →
          ∃ f : Nat → Bool,
            (cleanupThrottler f i ((o :: fs).map TcObject.asFilter) : Multiset Filter)
            = (((o :: fs : List TcObject) : Multiset TcObject) - gone).map TcObject.asFilter := by
        intro hgone
        have hle : gone ≤ (fs : Multiset TcObject) :=
          hgone.trans (Multiset.coe_le.mpr List.filter_sublist.subperm)
        obtain ⟨f, hfi, hf⟩ := exists_fails_at i true (ih (i + 1) gone hgone)
        refine ⟨f, ?_⟩
        rw [List.map_cons, cleanupThrottler, hfi, Bool.not_true, Bool.and_false,
          if_neg Bool.false_ne_true, ← Multiset.cons_coe, hf, ← Multiset.cons_coe,
          Multiset.cons_sub_of_le _ hle, Multiset.map_cons]
      cases hthrottle : o.isThrottle with
      | false =>
          rw [List.filter_cons_of_neg (by rw [hthrottle]; decide)] at hgone
          exact hkeep hgone
      | true =>
          rw [List.filter_cons_of_pos hthrottle, ← Multiset.cons_coe] at hgone
          by_cases hmem : o ∈ gone
          · obtain ⟨gone', rfl⟩ := Multiset.exists_cons_of_mem hmem
            have hgone' := (Multiset.cons_le_cons_iff o).mp hgone
            obtain ⟨f, hfi, hf⟩ := exists_fails_at i false (ih (i + 1) gone' hgone')
            refine ⟨f, ?_⟩
            rw [List.map_cons, cleanupThrottler, hfi, isThrottle_asFilter, hthrottle,
              Bool.not_false, Bool.and_true, if_pos rfl, hf, ← Multiset.cons_coe,
              Multiset.sub_cons, Multiset.erase_cons_head]
          · exact hkeep ((Multiset.le_cons_of_notMem hmem).mp hgone)

end Deletions

/-! ## The filters under 1:0 -/

section Filters

variable {t : Trees} {link : Int} {gone : Multiset TcObject} {fs : List TcObject}

theorem filter_sub_throttlers (hgone : gone ≤ throttlers t link) :
    (t (link, .root) - gone).filter (fun o => o.isFilter = true ∧ o.parent = ⟨1, 0⟩)
      = rootFilters t link - gone := by
  have hall : gone.filter (fun o => o.isFilter = true ∧ o.parent = ⟨1, 0⟩) = gone := by
    refine Multiset.filter_eq_self.mpr fun o ho => ?_
    obtain ⟨-, hthrottle, hparent⟩ := Multiset.mem_filter.mp (Multiset.mem_of_le hgone ho)
    exact ⟨TcObject.isFilter_of_isThrottle hthrottle, hparent⟩
  rw [Multiset.filter_sub, hall, rootFilters]

end Filters

namespace Host

variable {κ : Type} {H : Host κ} {ifs : Interfaces} {t : Trees} {rules : List IpPolicy}

/-- A stop: some throttle filters are gone, which is only possible for rules that
compile. -/
def Halted (H : Host κ) (ifs : Interfaces) (t : Trees) (rules : List IpPolicy) (k : κ) : Prop :=
  ∃ gone ≤ throttlers t (H.index ifs.lanInterface), (gone = 0 ∨ (compile rules).isSome)
    ∧ H.trees k = t.without (H.index ifs.lanInterface) gone

theorem triple_applyPolicies_halted (hH : H.Lawful) (ifs : Interfaces) (t : Trees)
    (rules : List IpPolicy) :
    Triple (fun k => H.trees k = t) (H.applyPolicies ifs rules)
      (fun _ k => ∃ P, compile rules = some P ∧ H.Reapplied ifs t P k) (H.Halted ifs t rules) := by
  have hunchanged : ∀ k, H.trees k = t → H.Halted ifs t rules k := fun k hk =>
    ⟨0, Multiset.zero_le _, Or.inl rfl, by rw [hk, without_zero]⟩
  have hE : ∀ k, H.trees k = t → ¬H.Obliging ifs → H.Halted ifs t rules k := fun k hk _ =>
    hunchanged k hk
  cases hP : compile rules with
  | some P =>
      have hstops : H.StopsAt ifs t rules (H.Halted ifs t rules) := fun k gone hgone hk _ =>
        ⟨gone, hgone, Or.inr (by rw [hP]; rfl), hk⟩
      rw [← hP]
      exact triple_applyPolicies hH hstops
  | none =>
      -- it does not come past the compiler
      have hrebuild : Triple (fun k => H.trees k = t) (H.rebuildBpf rules) (fun _ _ => False)
          (H.Halted ifs t rules) := by
        refine triple_bind (triple_work hH _ hE) fun _ => triple_bind (triple_work hH _ hE)
          fun _ => ?_
        rw [hP]
        exact fun k hk => hunchanged k hk
      exact triple_bind (triple_work hH _ hE) fun _ => triple_bind (triple_work hH _ hE) fun _ =>
        triple_bind hrebuild fun P k h => h.elim

end Host

/-- Whatever a lawful host answers, a run of `ApplyPolicies` has the outcome of some
failing steps: it returns when they say so, and leaves the filters they
leave. -/
theorem apply_refines {κ : Type} (H : Host κ) (hH : H.Lawful) (ifs : Interfaces)
    (rules : List IpPolicy) (k k' : κ) (r : Option Unit)
    (hrun : (H.applyPolicies ifs rules).exec k = (r, k')) (fs : List TcObject)
    (hfs : (fs : Multiset TcObject) = rootFilters (H.trees k) (H.index ifs.lanInterface)) :
    ∃ fails deleteFails,
      ((rebuildAndReattach fails deleteFails rules (fs.map TcObject.asFilter)).stopped = none
          ↔ r = some ())
        ∧ ((rebuildAndReattach fails deleteFails rules (fs.map TcObject.asFilter)).filters :
            Multiset Filter)
          = (rootFilters (H.trees k') (H.index ifs.lanInterface)).map TcObject.asFilter := by
  have hspec := Host.triple_applyPolicies_halted hH ifs (H.trees k) rules
  have hdel : ∀ gone ≤ throttlers (H.trees k) (H.index ifs.lanInterface), ∃ f : Nat → Bool,
      (cleanupThrottler f 0 (fs.map TcObject.asFilter) : Multiset Filter)
        = (rootFilters (H.trees k) (H.index ifs.lanInterface) - gone).map TcObject.asFilter := by
    intro gone hgone
    rw [← hfs]
    exact exists_deletions fs 0 gone (by rw [filter_isThrottle_eq hfs]; exact hgone)
  cases r with
  | some u =>
      obtain ⟨P, hP, gone, hgone, -, hk'⟩ := hspec.ends rfl hrun
      obtain ⟨f, hf⟩ := hdel gone hgone
      refine ⟨fun _ => false, f, ?_⟩
      have ho : rebuildAndReattach (fun _ => false) f rules (fs.map TcObject.asFilter)
          = ⟨cleanupThrottler f 0 (fs.map TcObject.asFilter) ++ [(throttler P).asFilter],
            none⟩ := by
        simp only [rebuildAndReattach, reattachThrottler, hP, Bool.false_eq_true, if_false]
        rfl
      have hfilters : rootFilters (H.trees k') (H.index ifs.lanInterface)
          = throttler P ::ₘ (rootFilters (H.trees k) (H.index ifs.lanInterface) - gone) := by
        rw [rootFilters, hk', Function.update_self, Multiset.filter_cons_of_pos _ ⟨rfl, rfl⟩,
          filter_sub_throttlers hgone]
      rw [ho, hfilters, Multiset.map_cons, ← hf, ← Multiset.coe_add, Multiset.coe_singleton,
        add_comm, Multiset.singleton_add]
      exact ⟨iff_of_true rfl rfl, rfl⟩
  | none =>
      obtain ⟨gone, hgone, hcause, hk'⟩ := hspec.stops rfl hrun
      have hfilters : rootFilters (H.trees k') (H.index ifs.lanInterface)
          = rootFilters (H.trees k) (H.index ifs.lanInterface) - gone := by
        rw [rootFilters, hk', Trees.without, Function.update_self, filter_sub_throttlers hgone]
      rw [hfilters]
      rcases hcause with rfl | hsome
      · refine ⟨fun _ => true, fun _ => false, ?_⟩
        have ho : rebuildAndReattach (fun _ => true) (fun _ => false) rules
            (fs.map TcObject.asFilter) = ⟨fs.map TcObject.asFilter, some .createTemp⟩ := rfl
        rw [ho, tsub_zero, ← hfs]
        exact ⟨iff_of_false (Option.some_ne_none _) (Option.some_ne_none ()).symm, rfl⟩
      · obtain ⟨P, hP⟩ := Option.isSome_iff_exists.mp hsome
        obtain ⟨f, hf⟩ := hdel gone hgone
        refine ⟨(· = .addFilter), f, ?_⟩
        have ho : rebuildAndReattach (· = .addFilter) f rules (fs.map TcObject.asFilter)
            = ⟨cleanupThrottler f 0 (fs.map TcObject.asFilter), some .addFilter⟩ := by
          simp [rebuildAndReattach, reattachThrottler, hP]
        rw [ho, ← hf]
        exact ⟨iff_of_false (Option.some_ne_none _) (Option.some_ne_none ()).symm, rfl⟩

theorem apply_refines_remains : ∃ T,
    (tableHost.applyPolicies tableInterfaces redditRules).exec remains = (some (), T)
      ∧ ∃ fails deleteFails,
        ((rebuildAndReattach fails deleteFails redditRules
            [⟨some "throttle".toList, []⟩, ⟨some "throttle".toList, initialProgram⟩]).filters :
            Multiset Filter)
          = (rootFilters (tableHost.trees T) (tableHost.index tableInterfaces.lanInterface)).map
            TcObject.asFilter := by
  have hroot : (tableHost.trees remains).HasRoot (tableHost.index tableInterfaces.lanInterface) :=
    ⟨rootQdisc, by decide, rfl, rfl⟩
  obtain ⟨T, hrun⟩ := Host.applyPolicies_completes lawful_tableHost obliging_tableHost
    (show (compile redditRules).isSome by decide) hroot
  obtain ⟨fails, deleteFails, -, hfilters⟩ := apply_refines tableHost lawful_tableHost
    tableInterfaces redditRules remains T (some ()) hrun [throttler [], throttler initialProgram]
    (by decide)
  exact ⟨T, hrun, fails, deleteFails, hfilters⟩

end Nethadone
